import Wireframe.Proofs.Page.Effects

/-! Pages whose kinds are nested in one order. If every component ranks below the one that it
lies in, then a pair of tags up to the first closing tag of its kind is a whole component, so that
no operation can leave a tag without its counterpart. -/
namespace Wireframe

/-- A component of one kind may lie right below one of another: it ranks lower, and so does a sidebar
next to a navbar, since a sidebar that is added goes behind the first navbar. -/
def Kind.Under (rank : Kind → Nat) (parent child : Kind) : Prop :=
  rank child < rank parent ∧ (child = .navbar → rank .sidebar < rank parent)

instance (rank : Kind → Nat) (parent child : Kind) : Decidable (Kind.Under rank parent child) :=
  inferInstanceAs (Decidable (_ ∧ _))

def Forest.Ranked (rank : Kind → Nat) (forest : Forest) : Prop :=
  ∀ c ∈ Forest.walk forest, ∀ d ∈ c.children, Kind.Under rank c.kind d.kind

instance (rank : Kind → Nat) (forest : Forest) : Decidable (Forest.Ranked rank forest) :=
  inferInstanceAs (Decidable (∀ _ ∈ _, ∀ _ ∈ _, _))

/-- Each root keeps to the ranks by itself. -/
theorem Forest.Ranked.root {rank : Kind → Nat} {forest : Forest} (h : Forest.Ranked rank forest)
    {c : Component} (hc : c ∈ forest) : Forest.Ranked rank [c] :=
  fun d hd => h d (walk_root hc d hd)

namespace Page

/-- A tag may stand right below a component of a kind, or at the margin. -/
def Fits (rank : Kind → Nat) (parent : Option Kind) (child : Kind) : Prop :=
  ∀ kind ∈ parent, Kind.Under rank kind child

/-- Pairs of tags side by side and within one another, each under the one that it lies in. -/
inductive Nested (rank : Kind → Nat) : Option Kind → List Side → Prop where
  | nil {parent : Option Kind} : Nested rank parent []
  | pair {parent : Option Kind} {kind : Kind} {inner rest : List Side}
    (hKind : Fits rank parent kind) (hInner : Nested rank (some kind) inner)
    (hRest : Nested rank parent rest) :
    Nested rank parent (.opens kind :: (inner ++ .closes kind :: rest))

namespace Nested

variable {rank : Kind → Nat} {parent : Option Kind}

/-- Nested tags side by side are nested. -/
theorem append {first last : List Side} (hFirst : Nested rank parent first)
    (hLast : Nested rank parent last) : Nested rank parent (first ++ last) := by
  induction hFirst with
  | nil => exact hLast
  | pair hKind hInner _ _ ih =>
      rw [List.cons_append, List.append_assoc, List.cons_append]
      exact .pair hKind hInner (ih hLast)

/-- A pair around nested tags is nested. -/
theorem single {kind : Kind} {inner : List Side} (hKind : Fits rank parent kind)
    (hInner : Nested rank (some kind) inner) :
    Nested rank parent (.opens kind :: (inner ++ [.closes kind])) :=
  .pair hKind hInner .nil

/-- Nested tags are loose ones without a stray closing tag. -/
theorem loose {sides : List Side} (h : Nested rank parent sides) : Loose sides := by
  induction h with
  | nil => exact .nil
  | pair _ _ _ ihInner ihRest => exact .pair _ ihInner ihRest

/-- Nested tags open and close equally often, kind by kind. -/
theorem surplus_eq_zero {sides : List Side} (h : Nested rank parent sides) (kind : Kind) :
    Side.surplus kind sides = 0 := by
  induction h with
  | nil => rfl
  | @pair parent other inner rest _ _ _ ihInner ihRest =>
      have hSplit : (.opens other :: (inner ++ .closes other :: rest) : List Side) =
          (.opens other :: (inner ++ [.closes other])) ++ rest := by simp
      rw [hSplit, Side.surplus_append, Side.surplus_pair, ihInner, ihRest, Int.add_zero]

/-- All tags below a component are of kinds that rank lower. -/
theorem rank_lt {sides : List Side} (h : Nested rank parent sides) :
    ∀ kind ∈ parent, ∀ other, .closes other ∈ sides → rank other < rank kind := by
  induction h with
  | nil => exact fun _ _ _ hMem => absurd hMem List.not_mem_nil
  | @pair parent here inner rest hKind _ _ ihInner ihRest =>
      intro kind hParent other hMem
      have hHere := (hKind kind hParent).1
      simp only [List.mem_cons, List.mem_append, reduceCtorEq, Side.closes.injEq, false_or] at hMem
      rcases hMem with hMem | rfl | hMem
      · exact (ihInner here rfl other hMem).trans hHere
      · exact hHere
      · exact ihRest kind hParent other hMem

/-- Below a component there is no closing tag of its own kind, since ranks fall strictly. So the
first closing tag behind an opening one is its own. -/
theorem closes_notMem {kind : Kind} {inner : List Side} (h : Nested rank (some kind) inner) :
    .closes kind ∉ inner :=
  fun hMem => Nat.lt_irrefl _ (h.rank_lt kind rfl kind hMem)

/-- A row is split at the first place of a tag in one way only. -/
theorem split_unique {side : Side} {inner outer last rest : List Side} (hInner : side ∉ inner)
    (hOuter : side ∉ outer) (h : inner ++ side :: last = outer ++ side :: rest) :
    inner = outer ∧ last = rest := by
  rcases Text.place_beside h with ⟨more, rfl, hLast⟩ | ⟨more, rfl, -⟩
  · cases more with
    | nil => exact ⟨List.append_nil _, (List.cons.inj hLast).2.symm⟩
    | cons other more =>
        obtain ⟨rfl, -⟩ := List.cons.inj hLast
        exact absurd (by simp) hInner
  · exact absurd (by simp) hOuter

/-- A pair up to the first closing tag of its kind is a whole component. What fits in its place can
be put there. -/
theorem fill {kind : Kind} {inner : List Side} (hInner : .closes kind ∉ inner) {sides : List Side}
    (h : Nested rank parent sides) :
    ∀ {first last : List Side},
      sides = first ++ (.opens kind :: (inner ++ [.closes kind]) ++ last) →
      ∃ place, Fits rank place kind ∧ Nested rank (some kind) inner ∧
        ∀ mid, Nested rank place mid → Nested rank parent (first ++ (mid ++ last)) := by
  induction h with
  | nil =>
      intro first last hSides
      exact absurd hSides (by simp)
  | @pair parent other outer rest hKind hOuter hRest ihOuter ihRest =>
      intro first last hSides
      cases first with
      | nil =>
          simp only [List.nil_append, List.cons_append, List.append_assoc, List.cons.injEq,
            Side.opens.injEq] at hSides
          obtain ⟨rfl, hTail⟩ := hSides
          obtain ⟨rfl, rfl⟩ := split_unique hOuter.closes_notMem hInner hTail
          exact ⟨parent, hKind, hOuter, fun mid hMid => hMid.append hRest⟩
      | cons side first =>
          rw [List.cons_append, List.cons.injEq] at hSides
          obtain ⟨rfl, hSides⟩ := hSides
          rcases pair_beside hInner hOuter.loose hSides with ⟨more, hSplit, rfl⟩ | ⟨more, rfl, hTail⟩
          · obtain ⟨place, hPlace, hWhole, hFill⟩ := ihOuter hSplit
            refine ⟨place, hPlace, hWhole, fun mid hMid => ?_⟩
            have hFilled := Nested.pair hKind (hFill mid hMid) hRest
            simpa using hFilled
          · obtain ⟨place, hPlace, hWhole, hFill⟩ := ihRest hTail
            refine ⟨place, hPlace, hWhole, fun mid hMid => ?_⟩
            rw [List.cons_append, List.append_assoc, List.cons_append]
            exact .pair hKind hOuter (hFill mid hMid)

end Nested

/-- Ranked components are written as nested tags. -/
theorem nested_lines {rank : Kind → Nat} {forest : Forest} :
    ∀ {parent : Option Kind}, Forest.Ranked rank forest →
      (∀ c ∈ forest, Fits rank parent c.kind) →
      ∀ indent, Nested rank parent (Line.sides (Forest.lines indent forest)) := by
  induction forest using Forest.induction with
  | nil => exact fun _ _ _ => .nil
  | cons c rest hChildren hRest =>
      intro parent hRanked hFits indent
      have hBelow : ∀ d ∈ c.children, Fits rank (some c.kind) d.kind := by
        intro d hd kind hKind
        exact Option.mem_some.mp hKind ▸ hRanked c (Forest.mem_walk_self c rest) d hd
      have hInner := hChildren (fun d hd => hRanked d (Forest.walk_children_sublist c rest d hd))
        hBelow (indent + 2)
      have hOthers := hRest (fun d hd => hRanked d (Forest.walk_rest_sublist c rest d hd))
        (fun d hd => hFits d (List.mem_cons_of_mem _ hd)) indent
      rw [Forest.lines_cons, ← lines_spanOf, Line.sides_append, Span.sides_lines, List.cons_append,
        List.append_assoc]
      exact .pair (hFits c List.mem_cons_self) hInner hOthers

theorem fits_none (rank : Kind → Nat) (kind : Kind) : Fits rank none kind :=
  fun _ hMem => nomatch hMem

/-- What is put below a component of a kind, or among the roots, keeps to the order of kinds. -/
def OperationRanked (rank : Kind → Nat) : Operation → Prop
  | .add new position | .move new position =>
    Forest.Ranked rank [new] ∧ (position = .afterNavbar → new.kind = .sidebar)
  | .updateChildren target children =>
    Forest.Ranked rank children ∧ ∀ d ∈ children, Kind.Under rank target.kind d.kind
  | .replace target replacement =>
    Forest.Ranked rank [replacement] ∧ replacement.kind = target.kind
  | .remove _ | .updateProps _ _ => True

theorem nested_component {rank : Kind → Nat} {parent : Option Kind} {c : Component}
    (h : Forest.Ranked rank [c]) (hKind : Fits rank parent c.kind) (indent : Nat) :
    Nested rank parent (Line.sides (c.lines indent)) := by
  have hForest := nested_lines h (List.forall_mem_singleton.mpr hKind) indent
  rwa [Forest.lines_cons, Forest.lines, List.append_nil] at hForest

/-- No operation breaks the order of kinds. -/
theorem Effect.nested {rank : Kind → Nat} {op : Operation} {lines left : List Line}
    (h : Effect op lines left) (hOp : OperationRanked rank op)
    (hLines : Nested rank none (Line.sides lines)) : Nested rank none (Line.sides left) := by
  induction h with
  | missed => exact hLines
  | addedFirst new _ _ =>
      rw [Line.sides_append]
      exact (nested_component hOp.1 (fits_none rank _) 6).append hLines
  | addedLast new _ =>
      rw [Line.sides_append]
      exact hLines.append (nested_component hOp.1 (fits_none rank _) 6)
  | addedBehind new hSpan hKind =>
      simp only [Line.sides_append, Span.sides_lines] at hLines ⊢
      obtain ⟨place, hPlace, hInner, hFill⟩ :=
        Nested.fill (closes_notMem_sides hSpan.unclosed) hLines rfl
      -- Behind a navbar only a sidebar is added, and the ranks let it stand where a navbar does.
      have hSidebar : Fits rank place new.kind := by
        intro kind hParent
        have hUnder := hPlace kind hParent
        rw [hOp.2 rfl]
        exact ⟨hUnder.2 hKind, fun hEq => nomatch hEq⟩
      have hBoth := (Nested.single hPlace hInner).append (nested_component hOp.1 hSidebar 6)
      simpa using hFill _ hBoth
  | removed hSpan _ =>
      simp only [Line.sides_append, Span.sides_lines] at hLines ⊢
      obtain ⟨place, -, -, hFill⟩ := Nested.fill (closes_notMem_sides hSpan.unclosed) hLines rfl
      exact hFill [] .nil
  | changed _ _ _ =>
      simp only [Line.sides_append, Span.sides_lines] at hLines ⊢
      exact hLines
  | @refilled target children _ _ span hSpan hKind =>
      simp only [Line.sides_append, Span.sides_lines] at hLines ⊢
      obtain ⟨place, hPlace, -, hFill⟩ :=
        Nested.fill (closes_notMem_sides hSpan.unclosed) hLines rfl
      have hChildren : ∀ d ∈ children, Fits rank (some span.kind) d.kind := by
        intro d hd kind hParent
        rw [← Option.mem_some.mp hParent, hKind]
        exact hOp.2 d hd
      exact hFill _ (.single hPlace (nested_lines hOp.1 hChildren _))
  | replaced replacement hSpan hKind =>
      simp only [Line.sides_append, Span.sides_lines] at hLines ⊢
      obtain ⟨place, hPlace, -, hFill⟩ :=
        Nested.fill (closes_notMem_sides hSpan.unclosed) hLines rfl
      rw [hKind, ← hOp.2] at hPlace
      exact hFill _ (nested_component hOp.1 hPlace _)
  -- A move is a removal and then an addition.
  | moved _ _ ihRemoved ihAdded => exact ihAdded hOp (ihRemoved trivial hLines)

end Page
end Wireframe
