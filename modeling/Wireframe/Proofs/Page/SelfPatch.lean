import Wireframe.Proofs.Page.PairScan
import Wireframe.Proofs.Page.RecoveredPairs
import Wireframe.Proofs.Page.Revisions
import Wireframe.Proofs.Page.RootSpans

/-! Patching a page towards the plan that it shows. If no root has a component of its own kind
below it, nothing changes. If one has, its pair of tags is cut short when it is recovered, and
putting its children in place leaves a stray closing tag, whatever the patch does elsewhere. -/
namespace Wireframe

namespace Page

open Text

/-- What is recovered from a text has its closing tags in it. -/
theorem closingTag_infix_of_recover {text : Text} :
    ∀ c ∈ Forest.walk (recover text), closingTag c.kind.tag <:+: text := by
  intro c hc
  obtain ⟨pair, kind, hMeets, hKind, rfl⟩ := mem_walk_recover.mp hc
  have hClosing := hMeets.closingTag_infix
  rwa [Kind.eq_tag_of_ofTag? hKind] at hClosing

/-- Nothing of its own kind is recovered below a span. -/
theorem not_hasKind_outline {span : Span} (h : span.Legible) :
    Forest.hasKind span.kind span.outline.children = false := by
  obtain ⟨-, hInner⟩ := Span.clean_lines.mp h.clean
  have hRead := angleFirst_closingTag span.kind.tag
  have hNone : cutAt? (closingTag span.kind.tag)
      ('\n' :: (Line.texts span.inner ++ spaces span.closingIndent)) = none := by
    have hBreak := find?_angleFree_append hRead (show angleFree ['\n'] = true from rfl)
      (Line.texts span.inner ++ spaces span.closingIndent)
    have hLines := cutAt?_closingTag_texts (notMem_tag span.kind) hInner
      (tag_ne_of_unclosed h.unclosed) (spaces span.closingIndent)
    have hSpaces := find?_of_angleFree hRead (angleFree_spaces span.closingIndent)
    unfold cutAt? at hLines ⊢
    rw [List.singleton_append] at hBreak
    rw [hBreak, hLines, hSpaces]
    rfl
  rw [Forest.hasKind, List.any_eq_false]
  intro c hc hKind
  have hInfix := closingTag_infix_of_recover c hc
  rw [of_decide_eq_true hKind] at hInfix
  have hSome := isSome_cutAt? hInfix
  rw [hNone] at hSome
  cases hSome

/-- The pair of tags that a root opens, up to the first closing tag of its kind. -/
structure FirstPair (c : Component) (span : Span) (left : List Line) : Prop where
  lines : c.lines 6 = span.lines ++ left
  legible : span.Legible

/-- A root whose kind is not repeated below it is closed by its own closing tag. -/
theorem firstPair_of_unrepeated {c : Component} (hClean : Forest.Clean [c])
    (hShallow : c.props.Shallow) (h : c.Unrepeated) : FirstPair c (spanOf 6 c) [] where
  lines := by rw [lines_spanOf, List.append_nil]
  legible := legible_of_unrepeated hClean hShallow h 6

/-- If the kind of a root is repeated below it, its own closing tag is left over. -/
theorem exists_firstPair_of_repeated {c : Component} (hClean : Forest.Clean [c])
    (hShallow : c.props.Shallow) (h : ¬c.Unrepeated) :
    ∃ span left, FirstPair c span (left ++ [⟨6, .closing c.kind⟩]) ∧ 8 ≤ span.closingIndent := by
  obtain ⟨inner, closingIndent, left, hLines, hIndent, hSpan⟩ :=
    exists_span_of_repeated hClean hShallow h 6
  refine ⟨_, left, ⟨?_, hSpan⟩, hIndent⟩
  rw [c.lines_eq, hLines]
  simp [Span.lines]

namespace FirstPair

variable {c : Component} {span : Span} {left : List Line} (h : FirstPair c span left)
include h

/-- The pair read at a root starts with the root's own opening line. -/
theorem opening_eq : span.indent = 6 ∧ span.kind = c.kind ∧ span.props = c.props := by
  have hLines := h.lines
  rw [c.lines_eq, Span.lines, List.cons_append, List.cons.injEq, Line.mk.injEq,
    Mark.opening.injEq] at hLines
  obtain ⟨⟨hIndent, hKind, hProps⟩, -⟩ := hLines
  exact ⟨hIndent.symm, hKind.symm, hProps.symm⟩

/-- The lines of a root's content are split by the first closing tag of its kind: what lies before
is read as its content, what lies behind is left over. -/
theorem inner_append :
    Forest.lines 8 c.children ++ [⟨6, .closing c.kind⟩] =
      span.inner ++ (⟨span.closingIndent, .closing span.kind⟩ :: left) := by
  have hLines := h.lines
  rw [c.lines_eq, Span.lines, List.cons_append, List.cons.injEq] at hLines
  simpa using hLines.2

theorem exists_inner {d : Component} {rest : Forest} (hChildren : c.children = d :: rest) :
    ∃ more, span.inner = ⟨8, .opening d.kind d.props⟩ :: more := by
  have hInner := h.inner_append
  rw [hChildren, Forest.lines_cons, d.lines_eq, List.cons_append, List.cons_append] at hInner
  cases hLines : span.inner with
  | nil => simp [hLines] at hInner
  | cons line more =>
      rw [hLines, List.cons_append, List.cons.injEq] at hInner
      exact ⟨more, by rw [hInner.1]⟩

end FirstPair

/-- A pair that a root opens and that ends below the root leaves the closing tag of the root over. -/
theorem exists_left_of_cutShort {c : Component} {span : Span} (hSpan : span.Legible)
    {last rest : List Line} (hLines : c.lines 6 ++ last = span.lines ++ rest)
    (hIndent : 8 ≤ span.closingIndent) :
    c.kind = span.kind ∧ ∃ more,
      Forest.lines 8 c.children =
        span.inner ++ (⟨span.closingIndent, .closing span.kind⟩ :: more) ∧
      rest = more ++ (⟨6, .closing c.kind⟩ :: last) := by
  rw [c.lines_eq, Span.lines, List.cons_append, List.cons_append, List.cons.injEq, Line.mk.injEq,
    Mark.opening.injEq, List.append_assoc, List.append_assoc] at hLines
  obtain ⟨⟨-, hKind, -⟩, hInner⟩ := hLines
  refine ⟨hKind, ?_⟩
  rcases place_beside hInner.symm with ⟨more, hSplit, hTail⟩ | ⟨more, hSplit, rfl⟩
  · -- the closing tag of the root would be between the tags of the pair, or end it
    cases more with
    | nil =>
        have hColumn : 6 = span.closingIndent ∧ last = rest := by simpa [hKind] using hTail
        omega
    | cons line more =>
        obtain ⟨rfl, -⟩ := List.cons.inj hTail
        exact absurd (by rw [hKind]) (hSpan.unclosed ⟨6, .closing c.kind⟩ (by simp [hSplit]))
  · exact ⟨more, hSplit, rfl⟩

end Page

namespace Diff

open Page

/-- Forests of one shape have the same kinds in them. -/
theorem hasKind_of_sameShapes (kind : Kind) {forest : Forest} :
    ∀ {other : Forest}, sameShapes forest other = true →
      Forest.hasKind kind forest = Forest.hasKind kind other := by
  induction forest using Forest.induction with
  | nil =>
      intro other h
      cases other with
      | nil => rfl
      | cons d others => cases h
  | cons c rest hChildren hRest =>
      intro other h
      cases other with
      | nil => cases h
      | cons d others =>
          obtain ⟨k, props, children, source⟩ := c
          simp only [sameShapes, sameShape, Bool.and_eq_true, beq_iff_eq] at h
          obtain ⟨⟨⟨hKind, -⟩, hBelow⟩, hLater⟩ := h
          rw [Forest.hasKind_cons, Forest.hasKind_cons, hRest hLater]
          have hChild := hChildren hBelow
          simp only at hChild ⊢
          rw [hKind, hChild]

/-- What is recovered from the first pair of a root can be taken for the root. -/
theorem matchesRoot_outline {c : Component} (hKeys : c.props.keysDistinct = true) {span : Span}
    {left : List Line} (h : FirstPair c span left) : matchesRoot c span.outline = true := by
  refine matchesRoot_of_alike ⟨h.opening_eq.2.1, ?_⟩
  simp only [identity, Span.outline, h.opening_eq.2.2, text?_visible hKeys]

/-- A root differs from what is recovered of it in its children at most. -/
theorem rootOperations_outline {c : Component} (hKeyed : c.props.Keyed) {span : Span}
    {left : List Line} (h : FirstPair c span left) :
    rootOperations span.outline c =
      if sameShapes span.outline.children c.children then []
      else [.updateChildren span.outline c.children] := by
  have hChanges : propChanges span.outline.props c.props = [] := by
    have hSelf := propChanges_self hKeyed
    simpa only [propChanges, Span.outline, h.opening_eq.2.2, visible_visible] using hSelf
  rw [rootOperations, hChanges]
  simp

/-- A root that holds its own kind is read with its content cut short, so the children read differ
from those written. This is why a page of such a plan differs from itself. -/
theorem not_sameShapes_outline {c : Component} {span : Span} {left : List Line}
    (h : FirstPair c span left) (hRepeated : ¬c.Unrepeated) :
    sameShapes span.outline.children c.children = false := by
  rw [Bool.eq_false_iff]
  intro hShapes
  have hNone := not_hasKind_outline h.legible
  rw [hasKind_of_sameShapes _ hShapes, Forest.hasKind, List.any_eq_false, h.opening_eq.2.1] at hNone
  exact hRepeated fun d hd hKind => hNone d hd (by simp [hKind])

end Diff

namespace Page

section

variable {frame : Frame} (hFrame : frame.AngleFree) {forest : Forest} (hClean : Forest.Clean forest)
include hFrame hClean

/-- The children of a root are put between its first pair of tags, or between those of an earlier
root if these have the same text. -/
theorem updateChildren_firstPair {first last : Forest} {c : Component}
    (hForest : forest = first ++ c :: last) {span : Span} {left : List Line}
    (h : FirstPair c span left) (hChildren : c.children ≠ []) :
    ∃ (before : Forest) (d : Component) (after : Forest) (found : Span) (rest : List Line),
      forest = before ++ d :: after ∧ d.lines 6 ++ Forest.lines 6 after = found.lines ++ rest ∧
      found.indent = 6 ∧ found.text = span.text ∧ found.Legible ∧
      updateChildren (page frame (Forest.lines 6 forest)) span.outline c.children =
        page frame (Forest.lines 6 before ++
          (({ found with inner := Forest.lines 8 c.children, closingIndent := 6 }).lines ++
            rest)) := by
  obtain ⟨e, others, hFirst⟩ := List.exists_cons_of_ne_nil hChildren
  obtain ⟨more, hInner⟩ := h.exists_inner hFirst
  have hOccurs : Forest.lines 6 forest =
      Forest.lines 6 first ++ (span.lines ++ (left ++ Forest.lines 6 last)) := by
    rw [hForest, Forest.lines_append, Forest.lines_cons, h.lines, List.append_assoc]
  have hSource : span.outline.source = some span.text := rfl
  obtain ⟨before, d, after, found, rest, rfl, hLines, hIndent, hText, hFound, hLocate⟩ :=
    locate?_root hFrame hClean h.legible hInner hSource hOccurs
  refine ⟨before, d, after, found, rest, rfl, hLines, hIndent, hText, hFound, ?_⟩
  have hKind : span.outline.kind = found.kind := (Span.kind_eq_of_text_eq h.legible hText).symm
  have hSplit : Forest.lines 6 (before ++ d :: after) =
      Forest.lines 6 before ++ (found.lines ++ rest) := by
    rw [Forest.lines_append, Forest.lines_cons, hLines]
  rw [hSplit] at hLocate ⊢
  rw [updateChildren_page hLocate hFound hKind, hIndent]

/-- A root whose pair of tags is its own is not altered by its own children. -/
theorem apply_outline {c : Component} (hc : c ∈ forest) (hPair : FirstPair c (spanOf 6 c) []) :
    ∀ op ∈ Diff.rootOperations (spanOf 6 c).outline c,
      apply (page frame (Forest.lines 6 forest)) op = .ok (page frame (Forest.lines 6 forest)) := by
  intro op hOp
  rw [Diff.rootOperations_outline ((hClean.root hc).keyed c (Forest.mem_walk_self c [])) hPair]
    at hOp
  split at hOp
  · cases hOp
  · rename_i hShapes
    obtain rfl := List.mem_singleton.mp hOp
    have hChildren : c.children ≠ [] := by
      intro hNil
      have hRecover : (spanOf 6 c).outline.children = [] := by
        simp only [Span.outline, spanOf, hNil, Forest.lines]
        exact recover_of_angleFree (by decide)
      exact hShapes (by rw [hRecover, hNil]; rfl)
    obtain ⟨first, last, hForest⟩ := List.append_of_mem hc
    obtain ⟨before, d, after, found, rest, hSplit, hLines, hIndent, hText, hFound, hUpdate⟩ :=
      updateChildren_firstPair hFrame hClean hForest hPair hChildren
    have hKind : found.kind = c.kind := Span.kind_eq_of_text_eq hPair.legible hText
    have hRest := Span.rest_eq_of_text_eq hPair.legible hFound hText
    -- The children are put where they already are, so the text is the same again.
    have hSame : Span.text { found with inner := Forest.lines 8 c.children, closingIndent := 6 } =
        found.text := by
      rw [Span.text, Span.text, hRest, hKind]
      rfl
    have hPage : page frame (Forest.lines 6 forest) =
        page frame (Forest.lines 6 before ++ (found.lines ++ rest)) := by
      rw [hSplit, Forest.lines_append, Forest.lines_cons, hLines]
    rw [apply, hUpdate, page_span, hSame, hPage, page_span]

/-- A root with its own kind below it leaves a stray closing tag when its children are put in
place. -/
theorem strayed_updateChildren {first last : Forest} {c : Component}
    (hForest : forest = first ++ c :: last) (hRepeated : ¬c.Unrepeated) {span : Span}
    {left : List Line} (h : FirstPair c span left) (hIndent : 8 ≤ span.closingIndent) :
    ∃ lines, updateChildren (page frame (Forest.lines 6 forest)) span.outline c.children =
        page frame lines ∧ Line.Clean lines ∧ Strayed c.kind (Line.sides lines) := by
  have hChildren : c.children ≠ [] := by
    intro hNil
    exact hRepeated (by simp [Component.Unrepeated, hNil])
  obtain ⟨before, d, after, found, rest, rfl, hLines, -, hText, hFound, hUpdate⟩ :=
    updateChildren_firstPair hFrame hClean hForest h hChildren
  have hKind : found.kind = c.kind :=
    (Span.kind_eq_of_text_eq h.legible hText).trans h.opening_eq.2.1
  have hColumn : found.closingIndent = span.closingIndent :=
    Span.closingIndent_eq_of_text_eq h.legible hText
  obtain ⟨hSame, more, hInner, rfl⟩ :=
    exists_left_of_cutShort hFound hLines (by rw [hColumn]; exact hIndent)
  refine ⟨_, hUpdate, ?_, ?_⟩
  · have hPage := clean_lines hClean 6
    have hBelow : Line.Clean (Forest.lines 8 c.children) := by
      exact clean_lines (hClean.root (by simp [hForest])).children 8
    rw [Forest.lines_append, Forest.lines_cons, hLines] at hPage
    simp only [Line.clean_append, Span.clean_lines] at hPage ⊢
    exact ⟨hPage.1, ⟨hPage.2.1.1, hBelow⟩, hPage.2.2⟩
  · have hMore : Loose (Line.sides more) := by
      have hBelow := loose_lines d.children 8
      rw [hInner, List.append_cons, Line.sides_append] at hBelow
      exact hBelow.suffix rfl
    have hPair := Loose.pair found.kind (loose_lines c.children 8) .nil
    refine ⟨_, Line.sides (Forest.lines 6 after), ?_,
      (loose_lines before 6).append (hPair.append hMore), loose_lines after 6⟩
    simp [Span.sides_lines, Mark.side, hSame, hKind]

end

/-- A script of operations that each leave a text alone leaves it alone. -/
theorem applyEach_of_fixed {operations : List Operation} {code : Text}
    (h : ∀ op ∈ operations, apply code op = .ok code) : applyEach operations code = .ok code := by
  induction operations with
  | nil => rfl
  | cons op rest ih =>
      obtain ⟨hHere, hRest⟩ := List.forall_mem_cons.mp h
      rw [applyEach, hHere]
      exact ih hRest

def outlined (roots : Forest) : List (Component × Component) :=
  roots.map fun c => ((spanOf 6 c).outline, c)

theorem map_snd_outlined (roots : Forest) : (outlined roots).map Prod.snd = roots := by
  simp [outlined, Function.comp_def]

section

variable {first : Forest} (hPairs : ∀ c ∈ first, FirstPair c (spanOf 6 c) [])
include hPairs

/-- Roots whose pairs of tags are their own are recovered one by one. -/
theorem recover_outlined (rest : Text) :
    recover (Line.texts (Forest.lines 6 first) ++ rest) =
      (outlined first).map Prod.fst ++ recover rest := by
  induction first with
  | nil => rfl
  | cons c others ih =>
      obtain ⟨hHere, hOthers⟩ := List.forall_mem_cons.mp hPairs
      rw [Forest.lines_cons, ← lines_spanOf, Line.texts_append, List.append_assoc,
        recover_span hHere.legible, ih hOthers]
      rfl

variable {forest : Forest} (hClean : Forest.Clean forest) (hSub : ∀ c ∈ first, c ∈ forest)
include hClean hSub

/-- A root read with its content cut short still matches the root it was written from, as matching
looks at the kind and the identifying texts only. -/
theorem matchesRoot_outlined :
    ∀ pair ∈ outlined first, Diff.matchesRoot pair.2 pair.1 = true := by
  intro pair hPair
  obtain ⟨c, hc, rfl⟩ := List.mem_map.mp hPair
  have hProps := hClean.root (hSub c hc) c (Forest.mem_walk_self c [])
  exact Diff.matchesRoot_outline hProps.distinct (hPairs c hc)

/-- The operations for such roots change nothing. -/
theorem applyEach_outlined {frame : Frame} (hFrame : frame.AngleFree) :
    applyEach ((outlined first).flatMap fun pair => Diff.rootOperations pair.1 pair.2)
        (page frame (Forest.lines 6 forest)) =
      .ok (page frame (Forest.lines 6 forest)) := by
  apply applyEach_of_fixed
  intro op hOp
  obtain ⟨pair, hPair, hOp⟩ := List.mem_flatMap.mp hOp
  obtain ⟨c, hc, rfl⟩ := List.mem_map.mp hPair
  exact apply_outline hFrame hClean (hSub c hc) (hPairs c hc) op hOp

end

section

variable {frame : Frame} (hFrame : frame.AngleFree) {forest : Forest} (hClean : Forest.Clean forest)
  {plan : Plan} (hPlan : plan.components = forest)
include hFrame hClean hPlan

/-- Patching a page towards the plan that it shows changes nothing if no root has its own kind
below it. -/
theorem applyEach_self (hShallow : ∀ c ∈ forest, c.props.Shallow) (h : ∀ c ∈ forest, c.Unrepeated) :
    applyEach (Diff.compared (recover (page frame (Forest.lines 6 forest))) plan)
        (page frame (Forest.lines 6 forest)) =
      .ok (page frame (Forest.lines 6 forest)) := by
  have hAll : ∀ c ∈ forest, c ∈ forest := fun _ hc => hc
  have hPairs : ∀ c ∈ forest, FirstPair c (spanOf 6 c) [] := fun c hc =>
    firstPair_of_unrepeated (hClean.root hc) (hShallow c hc) (h c hc)
  have hRecover : recover (page frame (Forest.lines 6 forest)) =
      (outlined forest).map Prod.fst ++ [] := by
    rw [page, recover_opening hFrame, recover_outlined hPairs,
      recover_closing hFrame]
  have hRoots : plan.components = (outlined forest).map Prod.snd ++ [] := by
    rw [map_snd_outlined, List.append_nil, hPlan]
  obtain ⟨more, hCompared, hMore⟩ :=
    Diff.compared_front (matchesRoot_outlined hPairs hClean hAll) [] hRoots
  rw [hRecover, hCompared, hMore rfl rfl, List.append_nil,
    applyEach_outlined hPairs hClean hAll hFrame]

/-- The first root with its own kind below it gets its children put in place once more. -/
theorem compared_self_of_repeated {first last : Forest} {c : Component}
    (hForest : forest = first ++ c :: last) (hPairs : ∀ d ∈ first, FirstPair d (spanOf 6 d) [])
    (hRepeated : ¬c.Unrepeated) {span : Span} {left : List Line} (hPair : FirstPair c span left) :
    ∃ more, Diff.compared (recover (page frame (Forest.lines 6 forest))) plan =
      ((outlined first).flatMap fun pair => Diff.rootOperations pair.1 pair.2) ++
        (.updateChildren span.outline c.children :: more) := by
  have hKeyed : c.props.Keyed :=
    (hClean.root (by simp [hForest])).keyed c (Forest.mem_walk_self c [])
  have hRecover : recover (page frame (Forest.lines 6 forest)) =
      (outlined first ++ [(span.outline, c)]).map Prod.fst ++
        recover (Line.texts (left ++ Forest.lines 6 last) ++ closing frame) := by
    rw [page, recover_opening hFrame, hForest, Forest.lines_append, Forest.lines_cons, hPair.lines,
      Line.texts_append, List.append_assoc, recover_outlined hPairs, List.append_assoc span.lines,
      Line.texts_append span.lines, List.append_assoc, recover_span hPair.legible]
    simp
  have hRoots : plan.components = (outlined first ++ [(span.outline, c)]).map Prod.snd ++ last := by
    rw [List.map_append, map_snd_outlined, hPlan, hForest]
    simp
  -- Every root before it is paired with its own outline, and so is the root itself.
  have hMatch : ∀ pair ∈ outlined first ++ [(span.outline, c)],
      Diff.matchesRoot pair.2 pair.1 = true :=
    List.forall_mem_append.mpr
      ⟨matchesRoot_outlined hPairs hClean (fun d hd => by simp [hForest, hd]),
        List.forall_mem_singleton.mpr (Diff.matchesRoot_outline hKeyed.distinct hPair)⟩
  obtain ⟨more, hCompared, -⟩ := Diff.compared_front hMatch _ hRoots
  have hUpdate : Diff.rootOperations span.outline c = [.updateChildren span.outline c.children] := by
    rw [Diff.rootOperations_outline hKeyed hPair, Diff.not_sameShapes_outline hPair hRepeated,
      if_neg Bool.false_ne_true]
  refine ⟨more, ?_⟩
  rw [hRecover, hCompared]
  simp [hUpdate]

/-- If a root has its own kind below it, a closing tag of that kind is left over. -/
theorem applyEach_self_of_repeated (hShallow : ∀ c ∈ forest, c.props.Shallow)
    (h : ∃ c ∈ forest, ¬c.Unrepeated) :
    ∃ kind left,
      applyEach (Diff.compared (recover (page frame (Forest.lines 6 forest))) plan)
          (page frame (Forest.lines 6 forest)) = .ok (page frame left) ∧
        Line.Clean left ∧ Strayed kind (Line.sides left) := by
  obtain ⟨first, c, last, hForest, hRepeated, hOthers⟩ := exists_first h
  have hSub : ∀ d ∈ first, d ∈ forest := fun d hd => by simp [hForest, hd]
  have hPairs : ∀ d ∈ first, FirstPair d (spanOf 6 d) [] := fun d hd =>
    firstPair_of_unrepeated (hClean.root (hSub d hd)) (hShallow d (hSub d hd))
      (not_not.mp (hOthers d hd))
  have hc : c ∈ forest := by simp [hForest]
  obtain ⟨span, left, hPair, hIndent⟩ :=
    exists_firstPair_of_repeated (hClean.root hc) (hShallow c hc) hRepeated
  obtain ⟨more, hOperations⟩ :=
    compared_self_of_repeated hFrame hClean hPlan hForest hPairs hRepeated hPair
  obtain ⟨lines, hUpdate, hLines, hStray⟩ :=
    strayed_updateChildren hFrame hClean hForest hRepeated hPair hIndent
  have hMore : ∀ op ∈ more, op.Clean := by
    have hAll := Diff.clean_compared (recorded_of_mem_recover hFrame (clean_lines hClean 6))
      (hPlan ▸ hClean)
    exact fun op hOp => hAll op (by simp [hOperations, hOp])
  -- whatever the other operations do, the closing tag stays
  obtain ⟨final, hFinal, hCleanFinal, hStrayFinal⟩ :=
    @applyEach_effects frame hFrame (fun lines => Strayed c.kind (Line.sides lines)) more hMore
      (fun _ _ _ _ hEffect hHolds => hEffect.edited.strayed hHolds) lines hLines hStray
  refine ⟨c.kind, final, ?_, hCleanFinal, hStrayFinal⟩
  rw [hOperations, applyEach_append (applyEach_outlined hPairs hClean hSub hFrame), applyEach, apply,
    hUpdate]
  exact hFinal

end

end Page

end Wireframe
