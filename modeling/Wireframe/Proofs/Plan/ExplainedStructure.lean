import Wireframe.Plan.Explanation
import Wireframe.Proofs.Component.Places
import Wireframe.Proofs.Page.TagReading

/-! What an explanation says about the structure of a page. Its lines show how deep each component
stands and of which kind it is, whatever texts stand in them, so that they tell the kinds and their
nesting; its rationale has a sentence for each kind, in the order in which the kinds come first. -/
namespace Wireframe

namespace Explanation

open Forest Page Text

/-- How many spaces a line starts with. -/
def indentation (line : String) : Nat :=
  (line.toList.takeWhile (· == ' ')).length

/-- The first word behind the bullet of a line. -/
def headword (line : String) : Text :=
  ((line.toList.dropWhile (· == ' ')).drop 2).takeWhile isWordChar

variable {depth : Nat} {c : Component}

/-- Behind the name of its kind a line of a component has nothing, or a colon first. -/
theorem exists_toList_line (depth : Nat) (c : Component) :
    ∃ more, (line depth c).toList =
        spaces (2 * depth) ++ '•' :: ' ' :: (c.kind.tag ++ more) ∧ StopsAt isWordChar more := by
  have hBullet : "• ".toList = ['•', ' '] := rfl
  cases hText : c.displayText? with
  | none => exact ⟨[], by simp [line, hText, hBullet, Kind.tag], stopsAt_nil _⟩
  | some text =>
      refine ⟨(": \"" ++ text ++ "\"").toList, by simp [line, hText, hBullet, Kind.tag], ?_⟩
      rw [String.toList_append, String.toList_append]
      exact stopsAt_cons.mpr (by decide)

/-- Indentation ends at the bullet. -/
theorem takeWhile_spaces (count : Nat) (rest : Text) :
    (spaces count ++ '•' :: rest).takeWhile (· == ' ') = spaces count ∧
      (spaces count ++ '•' :: rest).dropWhile (· == ' ') = '•' :: rest := by
  have hSpaces : ∀ space ∈ spaces count, (space == ' ') = true := by
    simp [spaces]
  have hBullet : StopsAt (· == ' ') ('•' :: rest) := stopsAt_cons.mpr (by decide)
  exact ⟨takeWhile_append_of_stopsAt hSpaces hBullet, dropWhile_append_of_stopsAt hSpaces hBullet⟩

/-- The indentation of a line tells the depth of its component. -/
theorem indentation_line (depth : Nat) (c : Component) : indentation (line depth c) = 2 * depth := by
  obtain ⟨more, hLine, -⟩ := exists_toList_line depth c
  rw [indentation, hLine, (takeWhile_spaces _ _).1, spaces, List.length_replicate]

/-- The word behind the bullet is the tag of the component; titles come behind it. -/
theorem headword_line (depth : Nat) (c : Component) : headword (line depth c) = c.kind.tag := by
  obtain ⟨more, hLine, hStop⟩ := exists_toList_line depth c
  rw [headword, hLine, (takeWhile_spaces _ _).2]
  exact takeWhile_append_of_stopsAt (fun _ hMem => isWordChar_of_mem_tag hMem) hStop

theorem hierarchy_cons (depth : Nat) (c : Component) (rest : Forest) :
    hierarchy depth (c :: rest) =
      line depth c :: (hierarchy (depth + 1) c.children ++ hierarchy depth rest) := by
  cases c
  rfl

/-- There is one line for each place, in the order of the walk. -/
theorem hierarchy_eq (depth : Nat) (forest : Forest) :
    hierarchy depth forest =
      (places forest).map fun place => line (depth + place.depth) place.component := by
  induction forest using Forest.induction generalizing depth with
  | nil => rfl
  | cons c rest hChildren hRest =>
      have hUnder : (fun place : Place => line (depth + place.depth) place.component) ∘
          Place.under c = fun place => line (depth + 1 + place.depth) place.component := by
        funext place
        simp [Nat.add_assoc, Nat.add_comm 1]
      rw [hierarchy_cons, places_cons, List.map_cons, List.map_append, List.map_map, hUnder,
        hChildren, hRest]
      rfl

/-- The outline of a forest can be read off its lines. -/
theorem outline_eq (depth : Nat) (forest : Forest) :
    outline (fun c => c.kind.tag) forest =
      (hierarchy depth forest).map fun line => (indentation line / 2 - depth, headword line) := by
  rw [hierarchy_eq, outline, List.map_map]
  refine List.map_congr_left fun place _ => ?_
  rw [Function.comp_apply, indentation_line, headword_line, Nat.mul_div_cancel_left _ Nat.two_pos,
    Nat.add_sub_cancel_left]

/-- By induction over the forest: the lines of the children are those indented further, up to the
next line on the level of the parent. -/
theorem sameNesting_of_hierarchy {forest other : Forest}
    (h : hierarchy depth forest = hierarchy depth other) :
    SameNesting Component.kind forest other := by
  have hTags : SameNesting (fun c => c.kind.tag) forest other := by
    rw [sameNesting_iff, outline_eq depth, outline_eq depth, h]
  exact hTags.imp fun _ _ hTag => tag_injective hTag

section

variable {α : Type} [BEq α] [LawfulBEq α]

/-- Where entries are dropped from a row, those that stay keep their order. -/
theorem idxOf_lt_of_filter {xs : List α} (keep : α → Bool) {a b : α}
    (ha : keep a = true) (hb : keep b = true)
    (h : (xs.filter keep).idxOf a < (xs.filter keep).idxOf b) : xs.idxOf a < xs.idxOf b := by
  induction xs with
  | nil => simp at h
  | cons x xs ih =>
      by_cases hKeep : keep x = true
      · rw [List.filter_cons_of_pos hKeep] at h
        by_cases hxb : x = b
        · simp [hxb] at h
        · by_cases hxa : x = a
          · simp [hxa, List.idxOf_cons_ne xs (hxa ▸ hxb)]
          · rw [List.idxOf_cons_ne _ hxa, List.idxOf_cons_ne _ hxb] at h ⊢
            exact Nat.succ_lt_succ (ih (Nat.lt_of_succ_lt_succ h))
      · rw [List.filter_cons_of_neg hKeep] at h
        have hxa : x ≠ a := fun hSame => hKeep (hSame ▸ ha)
        have hxb : x ≠ b := fun hSame => hKeep (hSame ▸ hb)
        rw [List.idxOf_cons_ne _ hxa, List.idxOf_cons_ne _ hxb]
        exact Nat.succ_lt_succ (ih h)

/-- Without repetitions the entries of a row come in the order of their first occurrences. -/
theorem pairwise_idxOf_eraseDups (xs : List α) :
    xs.eraseDups.Pairwise fun a b => xs.idxOf a < xs.idxOf b := by
  induction hLength : xs.length using Nat.strong_induction_on generalizing xs with
  | h n ih =>
      cases xs with
      | nil => exact .nil
      | cons x xs =>
          have hShorter : (xs.filter fun y => !y == x).length < n := by
            rw [← hLength, List.length_cons]
            exact Nat.lt_succ_of_le (List.length_filter_le _ _)
          have hOther : ∀ y ∈ (xs.filter fun y => !y == x).eraseDups, y ≠ x := by
            intro y hy
            simpa using (List.mem_filter.mp (List.mem_eraseDups.mp hy)).2
          rw [List.eraseDups_cons, List.pairwise_cons]
          refine ⟨fun y hy => ?_, ?_⟩
          · rw [List.idxOf_cons_self, List.idxOf_cons_ne _ (hOther y hy).symm]
            exact Nat.succ_pos _
          · refine (ih _ hShorter _ rfl).imp_of_mem fun {a b} ha hb hLess => ?_
            rw [List.idxOf_cons_ne _ (hOther a ha).symm, List.idxOf_cons_ne _ (hOther b hb).symm]
            refine Nat.succ_lt_succ (idxOf_lt_of_filter (fun y => !y == x) ?_ ?_ hLess)
            · simpa using hOther a ha
            · simpa using hOther b hb

end

/-- The sentences differ from kind to kind, so a paragraph tells which kinds it is about. -/
theorem rationale_injective : Function.Injective rationale := by
  have hDistinct : (Kind.all.map rationale).Nodup := by decide +kernel
  intro kind other h
  exact List.inj_on_of_nodup_map hDistinct (Kind.mem_all kind) (Kind.mem_all other) h

/-- The kinds explained are those of the forest, at any depth. -/
theorem mem_kinds_iff {kind : Kind} {forest : Forest} :
    kind ∈ kinds forest ↔ hasKind kind forest = true := by
  simp [kinds, hasKind]

/-- Where the first component of a kind comes in the walk of a forest. -/
def firstPlace (forest : Forest) (kind : Kind) : Nat :=
  ((walk forest).map Component.kind).idxOf kind

/-- The explained structure determines the tree. A forest has one line for each component, in the order
of the walk and indented by two spaces for each component above it; forests with the same lines have
the same kinds in the same nesting and order; and the rationale has one sentence for each kind that
occurs, a sentence of its own, in the order of their first components. -/
theorem structure_of_hierarchy (forest : Forest) :
    (∀ depth, hierarchy depth forest =
          (places forest).map (fun place => line (depth + place.depth) place.component) ∧
        (hierarchy depth forest).map indentation =
          (places forest).map fun place => 2 * (depth + place.depth)) ∧
      (places forest).map Place.component = walk forest ∧
      (∀ depth other, hierarchy depth forest = hierarchy depth other →
        SameNesting Component.kind forest other) ∧
      rationales forest = " ".intercalate ((kinds forest).map rationale) ∧
      Function.Injective rationale ∧
      (∀ kind, kind ∈ kinds forest ↔ hasKind kind forest = true) ∧
      (kinds forest).Nodup ∧
      (kinds forest).Pairwise fun first later => firstPlace forest first < firstPlace forest later := by
  have hOrder := pairwise_idxOf_eraseDups ((walk forest).map Component.kind)
  refine ⟨fun depth => ⟨hierarchy_eq depth forest, ?_⟩, map_component_places forest,
    fun depth other h => sameNesting_of_hierarchy h, rfl, rationale_injective,
    fun kind => mem_kinds_iff, hOrder.imp fun hLess => ?_, hOrder⟩
  · rw [hierarchy_eq, List.map_map]
    refine List.map_congr_left fun place _ => ?_
    rw [Function.comp_apply, indentation_line]
  · rintro rfl
    exact lt_irrefl _ hLess

/-- A page with texts that read like lines of an explanation. -/
def listedPage : Forest :=
  [⟨.card, [("title", .text "Users\n  • Table")],
      [⟨.modal, [("isOpen", .boolean false)], [.leaf .button [("children", .text "• Save")]], none⟩,
        .leaf .button [("children", .text "Open"), ("variant", .text "primary")]], none⟩,
    .leaf .table []]

/-- A page with the same lines, though its props differ. -/
def relistedPage : Forest :=
  [⟨.card, [("label", .text "Users\n  • Table")],
      [⟨.modal, [], [.leaf .button [("title", .text "• Save")]], none⟩,
        .leaf .button [("title", .text "Open"), ("children", .text "Close")]], none⟩,
    .leaf .table [("columns", .list [.text "Name"])]]

theorem structure_of_hierarchy_listedPage :
    hierarchy 0 listedPage = hierarchy 0 relistedPage ∧
      SameNesting Component.kind listedPage relistedPage ∧
      kinds listedPage = [.card, .modal, .button, .table] ∧
      hierarchy 0 listedPage = ["• Card: \"Users\n  • Table\"", "  • Modal",
        "    • Button: \"• Save\"", "  • Button: \"Open\"", "• Table"] := by
  have hLines : hierarchy 0 listedPage = hierarchy 0 relistedPage := rfl
  obtain ⟨-, -, hNesting, -⟩ := structure_of_hierarchy listedPage
  exact ⟨hLines, hNesting 0 relistedPage hLines, by decide +kernel, by decide +kernel⟩

end Explanation
end Wireframe
