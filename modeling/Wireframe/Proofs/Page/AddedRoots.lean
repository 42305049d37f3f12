import Wireframe.Proofs.Page.FirstRoots

/-! Where an added component ends up. It is one more root, unless it is a sidebar and the first navbar
of the page lies below a root: then its lines stand between those of that root, and the text is not
the page of a forest any more. -/
namespace Wireframe

namespace Forest

/-- A new root goes between two parts of the old roots. -/
theorem insertAfterRoot?_split {kind : Kind} {new : Component} {forest edited : Forest}
    (h : insertAfterRoot? kind new forest = some edited) :
    ∃ before after, forest = before ++ after ∧ edited = before ++ new :: after := by
  induction forest generalizing edited with
  | nil => cases h
  | cons c rest ih =>
      rw [insertAfterRoot?] at h
      split at h
      · cases h
        exact ⟨[c], rest, rfl, rfl⟩
      · obtain ⟨more, hMore, rfl⟩ := Option.map_eq_some_iff.mp h
        obtain ⟨before, after, rfl, rfl⟩ := ih hMore
        exact ⟨c :: before, after, rfl, rfl⟩

/-- An added root stands among the roots that were there before. -/
theorem addRootAt_split (new : Component) (position : Position) (forest : Forest) :
    ∃ before after, forest = before ++ after ∧
      addRootAt new position forest = before ++ new :: after := by
  cases position with
  | start => exact ⟨[], forest, rfl, rfl⟩
  | afterNavbar =>
      rw [addRootAt]
      cases hInsert : insertAfterRoot? .navbar new forest with
      | none => exact ⟨[], forest, rfl, rfl⟩
      | some edited => exact insertAfterRoot?_split hInsert
  | finish => exact ⟨forest, [], (List.append_nil forest).symm, rfl⟩

/-- A first component that is no root is there nevertheless. -/
theorem hasKind_of_nested {kind : Kind} {forest : Forest} (h : firstIsRoot kind forest = false) :
    hasKind kind forest = true := by
  induction forest with
  | nil => cases h
  | cons c rest ih =>
      simp only [firstIsRoot, Bool.or_eq_false_iff, Bool.and_eq_false_iff,
        Bool.not_eq_false'] at h
      rw [hasKind_cons]
      rcases h.2 with hBelow | hRest
      · simp [hBelow]
      · simp [ih hRest]

end Forest

/-- Only a sidebar looks for a navbar to be put behind. -/
theorem Position.ofKind_eq_afterNavbar {kind : Kind} :
    Position.ofKind kind = .afterNavbar ↔ kind = .sidebar := by
  cases kind <;> decide

namespace Page

open Text

/-- The last of some lines shows its column. -/
theorem indent_eq_of_texts_concat {lines lines' : List Line} {indent indent' : Nat}
    {kind kind' : Kind} (h : Line.texts (lines ++ [⟨indent, .closing kind⟩]) =
      Line.texts (lines' ++ [⟨indent', .closing kind'⟩])) : indent = indent' := by
  have hText (lines : List Line) (indent : Nat) (kind : Kind) :
      Line.texts (lines ++ [⟨indent, .closing kind⟩]) =
        Line.texts lines ++ (spaces indent ++ closingTag kind.tag) ++ ['\n'] := by
    simp [Line.text, Mark.text_closing]
  have hLast (lines : List Line) (indent : Nat) (kind : Kind) :
      lastLine (Line.texts lines ++ (spaces indent ++ closingTag kind.tag)) =
        spaces indent ++ closingTag kind.tag :=
    lastLine_append (endsLine_texts lines) (by simp [notMem_spaces, notMem_closingTag])
  rw [hText, hText] at h
  have hLines := congrArg lastLine (List.append_cancel_right h)
  rw [hLast, hLast] at hLines
  exact (spaces_angle_inj hLines).1

/-- The lines of a forest end at the column of the roots. -/
theorem exists_concat_of_lines {indent : Nat} {forest : Forest} (h : forest ≠ []) :
    ∃ lines kind, Forest.lines indent forest = lines ++ [⟨indent, .closing kind⟩] := by
  obtain ⟨before, c, rfl⟩ := (List.eq_nil_or_concat' forest).resolve_left h
  refine ⟨Forest.lines indent before ++
    (⟨indent, .opening c.kind c.props⟩ :: Forest.lines (indent + 2) c.children), c.kind, ?_⟩
  rw [Forest.lines_append, Forest.lines_cons, c.lines_eq]
  simp [Forest.lines]

section

variable {frame : Frame} (hFrame : frame.AngleFree)
include hFrame

/-- Where a tag at the column of the roots is opened on a page, the lines before it are those of
roots. -/
theorem exists_roots_of_page {forest : Forest} (hClean : Forest.Clean forest)
    {lines more : List Line} {kind : Kind} {props : Props}
    (h : page frame (Forest.lines 6 forest) =
      page frame (lines ++ (⟨6, .opening kind props⟩ :: more))) :
    ∃ before, Line.texts lines = Line.texts (Forest.lines 6 before) := by
  have hEnds (lines : List Line) : EndsLine (opening frame ++ Line.texts lines) :=
    (endsLine_opening frame).append (endsLine_texts lines)
  have hPage : page frame (Forest.lines 6 forest) =
      (opening frame ++ Line.texts lines ++ spaces 6) ++
        '<' :: (kind.tag ++ (attributes props ++ '>' :: '\n' ::
          (Line.texts more ++ closing frame))) := by
    rw [h]
    simp [page, Line.text, Mark.text, Mark.inner]
  -- Of the three places where `<` can stand only a line of the forest is indented as far.
  rcases angle_of_page hFrame (clean_lines hClean 6) hPage with
    ⟨hStart, -⟩ | ⟨first, ⟨indent, mark⟩, last, hLines, hBefore, hTag⟩ | ⟨hEnd, -⟩
  · have hLength := congrArg List.length hStart
    simp [spaces] at hLength
  · have hLast := congrArg lastLine hBefore
    rw [lastLine_append (hEnds lines) (notMem_spaces 6),
      lastLine_append (hEnds first) (notMem_spaces indent)] at hLast
    obtain rfl : 6 = indent := by simpa [spaces] using congrArg List.length hLast
    have hTexts := List.append_cancel_left (List.append_cancel_right hBefore)
    cases mark with
    | opening other props' =>
        obtain ⟨before, -, -, -, rfl, -⟩ := root_of_indent hLines
        exact ⟨before, hTexts⟩
    | closing other =>
        have hSlash := after?_tag_slash kind (other.tag ++ ['>'] ++
          '\n' :: (Line.texts last ++ closing frame))
        have hInner : '/' :: (other.tag ++ ['>'] ++ '\n' :: (Line.texts last ++ closing frame)) =
            kind.tag ++ (attributes props ++ '>' :: '\n' ::
              (Line.texts more ++ closing frame)) := by
          simpa [Mark.text, Mark.inner] using hTag.symm
        rw [hInner, after?_append] at hSlash
        cases hSlash
  · rw [← List.append_assoc] at hEnd
    have hLast := congrArg lastLine hEnd
    rw [lastLine_append (hEnds lines) (notMem_spaces 6),
      lastLine_append (hEnds _) (by decide : '\n' ∉ "    ".toList)] at hLast
    exact absurd (congrArg List.length hLast) (by decide)

/-- A root behind a component that is no root is not rendered. -/
theorem page_ne_of_root_behind {span : Span} (hDeep : 6 < span.closingIndent)
    (first last : List Line) (new : Component) {forest : Forest} (hClean : Forest.Clean forest) :
    page frame (first ++ (span.lines ++ (new.lines 6 ++ last))) ≠
      page frame (Forest.lines 6 forest) := by
  intro h
  let inner := first ++ (⟨span.indent, .opening span.kind span.props⟩ :: span.inner)
  have hLines : first ++ (span.lines ++ (new.lines 6 ++ last)) =
      (inner ++ [⟨span.closingIndent, .closing span.kind⟩]) ++ (⟨6, .opening new.kind new.props⟩ ::
        (Forest.lines 8 new.children ++ (⟨6, .closing new.kind⟩ :: last))) := by
    simp [inner, Span.lines, new.lines_eq]
  rw [hLines] at h
  obtain ⟨before, hBefore⟩ := exists_roots_of_page hFrame hClean h.symm
  cases before with
  | nil => simp [Line.text, Forest.lines] at hBefore
  | cons c before =>
      obtain ⟨lines, kind, hRoots⟩ := exists_concat_of_lines (List.cons_ne_nil c before)
      rw [hRoots] at hBefore
      exact hDeep.ne' (indent_eq_of_texts_concat hBefore)

variable {plan : Plan} (hPlain : Forest.Plain plan.components)
include hPlain

/-- An added component becomes a root among the roots of the plan, unless it goes behind a navbar that
is no root. -/
theorem apply_addRoot_of_root {new : Component}
    (hRoot : new.kind = .sidebar → Forest.firstIsRoot .navbar plan.components = true) :
    ∃ before after, plan.components = before ++ after ∧
      apply (render frame plan) (.addRoot new) =
        .ok (render frame { plan with components := before ++ new :: after }) := by
  obtain ⟨before, after, hPlan, hAdded⟩ :=
    Forest.addRootAt_split new (Position.ofKind new.kind) plan.components
  have hInsert := insert_lines hFrame hPlain new (Position.ofKind new.kind)
    fun hPosition => hRoot (Position.ofKind_eq_afterNavbar.mp hPosition)
  rw [hAdded] at hInsert
  exact ⟨before, after, hPlan, by rw [render_eq_page, render_eq_page]; exact hInsert⟩

/-- A sidebar that goes behind a navbar below a root makes no page of a forest. -/
theorem apply_addRoot_of_nested {new : Component} (hKind : new.kind = .sidebar)
    (hNested : Forest.firstIsRoot .navbar plan.components = false) :
    ∃ edited, apply (render frame plan) (.addRoot new) = .ok edited ∧
      ∀ other : Plan, Forest.Clean other.components → edited ≠ render frame other := by
  obtain ⟨found⟩ := exists_firstOf hPlain (Forest.hasKind_of_nested hNested) 6
  have hFind := found.findKind? hFrame hPlain
  rw [found.lines_span] at hFind
  have hDeep : 6 < found.column := by
    have hMem : (⟨found.column, .opening found.component.kind found.component.props⟩ : Line) ∈
        Forest.lines 6 plan.components := by
      rw [found.lines_eq, found.component.lines_eq]
      simp
    have hColumn : found.column ≠ 6 := by
      intro hColumn
      rw [found.firstIsRoot hPlain hColumn] at hNested
      cases hNested
    have hLe : 6 ≤ found.column := indent_of_mem_lines hMem
    omega
  have hApply : apply (render frame plan) (.addRoot new) = .ok (page frame (found.first ++
      ((spanOf found.column found.component).lines ++ (new.lines 6 ++ found.last)))) := by
    rw [render_eq_page, found.lines_span, Operation.addRoot,
      Position.ofKind_eq_afterNavbar.mpr hKind]
    exact insertAfterNavbar_page hFind new
  refine ⟨_, hApply, fun other hOther => ?_⟩
  rw [render_eq_page]
  exact page_ne_of_root_behind hFrame hDeep found.first found.last new hOther

end

/-- An added component becomes one more root of the page just when, if it is a sidebar, the first
navbar of the page is a root or there is none. -/
theorem apply_addRoot_iff {frame : Frame} (hFrame : frame.AngleFree) {plan : Plan}
    (hPlain : Forest.Plain plan.components) {new : Component} (hNew : Forest.Plain [new]) :
    (∃ before after, plan.components = before ++ after ∧
      apply (render frame plan) (.addRoot new) =
        .ok (render frame { plan with components := before ++ new :: after })) ↔
      (new.kind = .sidebar → Forest.firstIsRoot .navbar plan.components = true) := by
  constructor
  · rintro ⟨before, after, hPlan, hApply⟩ hKind
    by_contra hNested
    obtain ⟨edited, hEdited, hNone⟩ :=
      apply_addRoot_of_nested hFrame hPlain hKind (by simpa using hNested)
    have hAdded : Forest.Plain (before ++ new :: after) := by
      rw [hPlan, Forest.plain_append] at hPlain
      exact Forest.plain_append.mpr ⟨hPlain.1, Forest.plain_cons.mpr ⟨hNew, hPlain.2⟩⟩
    exact hNone _ hAdded.clean (Except.ok.inj (hEdited.symm.trans hApply))
  · exact apply_addRoot_of_root hFrame hPlain

/-- A plan whose first navbar is a root with something below it, between roots of other kinds. -/
def navbarBetween : Plan :=
  ⟨"default",
    [⟨.card, [("title", .text "a > b")], [.leaf .table []], none⟩,
      ⟨.navbar, [("title", .text "Home")], [⟨.modal, [], [.leaf .button []], none⟩], none⟩,
      .leaf .chart []],
    []⟩

theorem apply_addRoot_iff_navbarBetween :
    sampleFrame.AngleFree ∧ Forest.Plain navbarBetween.components ∧
      Forest.Plain [.leaf .sidebar []] ∧
      ∃ before after, navbarBetween.components = before ++ after ∧
        apply (render sampleFrame navbarBetween) (.addRoot (.leaf .sidebar [])) =
          .ok (render sampleFrame
            { navbarBetween with components := before ++ .leaf .sidebar [] :: after }) := by
  have hFrame : sampleFrame.AngleFree := by decide +kernel
  have hPlain : Forest.Plain navbarBetween.components := by decide +kernel
  have hNew : Forest.Plain [.leaf .sidebar []] := by decide +kernel
  exact ⟨hFrame, hPlain, hNew,
    (apply_addRoot_iff hFrame hPlain hNew).mpr fun _ => by decide +kernel⟩

def navbarInCard : Plan :=
  ⟨"default", [⟨.card, [], [.leaf .navbar []], none⟩], []⟩

/-- A sidebar that is added to the plan becomes no root. -/
theorem sidebar_in_card :
    Forest.Plain navbarInCard.components ∧ Forest.Plain [.leaf .sidebar []] ∧
      ¬ ∃ before after, navbarInCard.components = before ++ after ∧
        apply (render sampleFrame navbarInCard) (.addRoot (.leaf .sidebar [])) =
          .ok (render sampleFrame
            { navbarInCard with components := before ++ .leaf .sidebar [] :: after }) := by
  refine ⟨by decide +kernel, by decide +kernel, ?_⟩
  rintro ⟨before, after, hSplit, hApply⟩
  have hText := congrArg Except.toOption hApply
  cases before with
  | nil =>
      cases hSplit
      revert hText
      decide +kernel
  | cons c before =>
      obtain ⟨rfl, hRest⟩ := List.cons.inj hSplit
      obtain ⟨rfl, rfl⟩ := List.append_eq_nil_iff.mp hRest.symm
      revert hText
      decide +kernel

end Page
end Wireframe
