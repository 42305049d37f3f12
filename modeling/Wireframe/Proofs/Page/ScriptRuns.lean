import Wireframe.Proofs.Page.Renewing
import Wireframe.Proofs.Page.RoundTrip

/-! A whole edit script carried out on page source. The roots of the page are always those of the new
plan that are settled so far and those of the old page whose turn has not come, in some order. A
root that changes twice must have an opening tag of its own for that. -/
namespace Wireframe

open Diff Page Forest

namespace Forest

/-- Inserting behind a root adds one root and drops none. -/
theorem insertAfterRoot?_perm {kind : Kind} {new : Component} {forest : Forest} :
    ∀ {edited : Forest}, insertAfterRoot? kind new forest = some edited →
      edited.Perm (new :: forest) := by
  induction forest with
  | nil => exact fun h => absurd h (by simp [insertAfterRoot?])
  | cons c rest ih =>
      intro edited h
      rw [insertAfterRoot?] at h
      split at h
      · cases h
        exact .swap new c rest
      · obtain ⟨others, hOthers, rfl⟩ := Option.map_eq_some_iff.mp h
        exact ((ih hOthers).cons c).trans (.swap new c rest)

/-- Wherever a root is added, the roots are the old ones and the new one. -/
theorem addRootAt_perm (new : Component) (position : Position) (forest : Forest) :
    (addRootAt new position forest).Perm (new :: forest) := by
  cases position with
  | start => exact .refl _
  | finish => exact List.perm_append_singleton new forest
  | afterNavbar =>
      rw [addRootAt]
      cases hInsert : insertAfterRoot? .navbar new forest with
      | none => exact .refl _
      | some edited => exact insertAfterRoot?_perm hInsert

/-- When no root has a component of the kind below it, the first such component in the page is a
root. -/
theorem firstIsRoot_of_not_hasKind {kind : Kind} {forest : Forest}
    (h : ∀ c ∈ forest, hasKind kind c.children = false) : firstIsRoot kind forest = true := by
  induction forest with
  | nil => rfl
  | cons c rest ih =>
      rw [List.forall_mem_cons] at h
      simp [firstIsRoot, h.1, ih h.2]

/-- Plainness does not depend on the order of the roots. -/
theorem Plain.perm {forest other : Forest} (h : Plain forest) (hPerm : other.Perm forest) :
    Plain other :=
  plain_iff.mpr fun c hc => plain_iff.mp h c (hPerm.mem_iff.mp hc)

end Forest

namespace Diff

def remaining (forest : Forest) (taken : List Nat) : Forest :=
  (unpaired forest taken).map Prod.snd

/-- Taking one more place moves its root out of the remaining ones. -/
theorem remaining_perm {forest : Forest} {taken : List Nat} {place : Nat} {old : Component}
    (hOld : forest[place]? = some old) (hPlace : place ∉ taken) :
    (remaining forest taken).Perm (old :: remaining forest (place :: taken)) :=
  (unpaired_perm hOld hPlace).map Prod.snd

theorem remaining_nil (forest : Forest) : remaining forest [] = forest := by
  simp [remaining, unpaired, traced, Function.comp_def]

theorem mem_remaining {forest : Forest} {taken : List Nat} {c : Component} :
    c ∈ remaining forest taken ↔ ∃ place ∉ taken, forest[place]? = some c := by
  simp only [remaining, unpaired, List.mem_map, List.mem_filter, mem_traced, Prod.exists,
    exists_eq_right]
  constructor
  · rintro ⟨origin, ⟨place, rfl, hPlace⟩, hFree⟩
    exact ⟨place, by simpa using hFree, hPlace⟩
  · rintro ⟨place, hFree, hPlace⟩
    exact ⟨some place, ⟨place, rfl, hPlace⟩, by simpa using hFree⟩

/-- Recording keeps the places of the roots. -/
theorem getElem?_recorded (forest : Forest) (place : Nat) :
    (Forest.recorded rootIndent forest)[place]? =
      forest[place]?.map (Component.recorded rootIndent) := by
  rw [recorded_map, List.getElem?_map]

/-- The roots left without a partner are the same before and after recording. -/
theorem unpaired_recorded (forest : Forest) (places : List Nat) :
    unpaired (Forest.recorded rootIndent forest) places =
      (unpaired forest places).map fun root => (root.1, root.2.recorded rootIndent) := by
  have hTraced : traced (Forest.recorded rootIndent forest) =
      (traced forest).map fun root => (root.1, root.2.recorded rootIndent) := by
    rw [traced, traced, recorded_map, List.zipIdx_map, List.map_map, List.map_map]
    rfl
  rw [unpaired, unpaired, hTraced, List.filter_map]
  rfl

/-- The opening tag of a root of the page is its own: no other component of the page has it, and no
component of the plan shows the same props on that kind. -/
structure OwnsTag (old : Component) (forest roots : Forest) : Prop where
  alone : (openers forest).count old.opener = 1
  unwanted : ∀ c ∈ walk roots, c.kind = old.kind →
    Value.same (.object (visible old.props)) (.object (visible c.props)) = false

instance (old : Component) (forest roots : Forest) : Decidable (OwnsTag old forest roots) :=
  decidable_of_iff ((openers forest).count old.opener = 1 ∧ ∀ c ∈ walk roots, c.kind = old.kind →
      Value.same (.object (visible old.props)) (.object (visible c.props)) = false)
    ⟨fun ⟨hAlone, hUnwanted⟩ => ⟨hAlone, hUnwanted⟩, fun h => ⟨h.alone, h.unwanted⟩⟩

namespace Pairing

/-- Carrying out the operations of a pairing confuses no roots. A root whose children and props both
change has an opening tag of its own, and where a sidebar is added, no navbar lies below a root. -/
structure Clear (pairing : Pairing) (forest roots : Forest) : Prop where
  ownsTag : ∀ entry ∈ pairing, ∀ place ∈ entry.2, ∀ old ∈ forest[place]?,
    sameShapes old.children entry.1.children = false →
    Value.same (.object (visible old.props)) (.object (visible entry.1.props)) = false →
    OwnsTag old forest roots
  rootNavbar : ∀ entry ∈ pairing, entry.2 = none → Position.ofKind entry.1.kind = .afterNavbar →
    ∀ c ∈ forest ++ roots, hasKind .navbar c.children = false

instance (pairing : Pairing) (forest roots : Forest) : Decidable (pairing.Clear forest roots) :=
  decidable_of_iff ((∀ entry ∈ pairing, ∀ place ∈ entry.2, ∀ old ∈ forest[place]?,
      sameShapes old.children entry.1.children = false →
      Value.same (.object (visible old.props)) (.object (visible entry.1.props)) = false →
      OwnsTag old forest roots) ∧
    ∀ entry ∈ pairing, entry.2 = none → Position.ofKind entry.1.kind = .afterNavbar →
      ∀ c ∈ forest ++ roots, hasKind .navbar c.children = false)
    ⟨fun ⟨hOwnsTag, hRootNavbar⟩ => ⟨hOwnsTag, hRootNavbar⟩, fun h => ⟨h.ownsTag, h.rootNavbar⟩⟩

def reached (pairing : Pairing) (forest : Forest) : Forest :=
  (pairing.map fun entry => (settled forest entry).2) ++ remaining forest pairing.places

theorem reached_nil (forest : Forest) : reached [] forest = forest := by
  rw [reached, places_nil, remaining_nil]
  rfl

/-- One more entry settled: the settled roots, the new one, and the roots at places not yet taken,
up to order. -/
theorem reached_append (done : Pairing) (entry : Component × Option Nat) (forest : Forest) :
    (reached (done ++ [entry]) forest).Perm ((settled forest entry).2 ::
      ((done.map fun entry => (settled forest entry).2) ++
        remaining forest (entry.2.toList ++ done.places))) := by
  have hPlaces : unpaired forest (places (done ++ [entry])) =
      unpaired forest (entry.2.toList ++ done.places) := by
    refine unpaired_congr fun place => ?_
    cases hOrigin : entry.2 <;> simp [places, hOrigin, or_comm]
  rw [reached, remaining, hPlaces, ← remaining, List.map_append, List.append_assoc]
  exact List.perm_middle

section

variable {forest roots : Forest} {pairing : Pairing} (hValid : pairing.Valid forest roots)
include hValid

theorem Valid.root_mem {entry : Component × Option Nat} (h : entry ∈ pairing) : entry.1 ∈ roots :=
  hValid.whole ▸ List.mem_map_of_mem h

/-- In a valid pairing the place of an entry is not taken by the ones before it. -/
theorem Valid.free {done rest : Pairing} {entry : Component × Option Nat}
    (h : pairing = done ++ entry :: rest) : ∀ place ∈ entry.2, place ∉ done.places := by
  intro place hPlace hDone
  have hNodup := hValid.injective
  rw [h, places, List.filterMap_append] at hNodup
  refine (List.nodup_append.mp hNodup).2.2 place hDone place ?_ rfl
  exact List.mem_filterMap.mpr ⟨entry, List.mem_cons_self, hPlace⟩

/-- What becomes of a root of the plan comes from that root, or from the root that it is paired
with. -/
theorem Valid.settled_cases {entry : Component × Option Nat} (h : entry ∈ pairing) :
    (settled forest entry).2 = entry.1 ∨
      ∃ place ∈ entry.2, ∃ old, forest[place]? = some old ∧ old.kind = entry.1.kind ∧
        (settled forest entry).2 = renewed old entry.1 := by
  obtain ⟨c, origin⟩ := entry
  cases origin with
  | none => exact .inl rfl
  | some place =>
      obtain ⟨old, hOld, hKind⟩ := hValid.kinds c place h
      have hPlace := Option.mem_def.mp hOld
      exact .inr ⟨place, rfl, old, hPlace, hKind, by simp [settled, hPlace]⟩

/-- If no navbar lies below a root of the page or the plan, none does on the way. -/
theorem Valid.not_hasKind_reached {kind : Kind} {done : Pairing}
    (hDone : ∀ entry ∈ done, entry ∈ pairing)
    (h : ∀ c ∈ forest ++ roots, hasKind kind c.children = false) :
    ∀ c ∈ done.reached forest, hasKind kind c.children = false := by
  rw [List.forall_mem_append] at h
  intro c hc
  rcases List.mem_append.mp hc with hc | hc
  · obtain ⟨entry, hEntry, rfl⟩ := List.mem_map.mp hc
    have hNew := h.2 entry.1 (hValid.root_mem (hDone entry hEntry))
    rcases hValid.settled_cases (hDone entry hEntry) with hSame | ⟨_, -, old, hOld, -, hRenewed⟩
    · rw [hSame, hNew]
    · rw [hRenewed, children_renewed]
      split
      · exact h.1 old (List.mem_of_getElem? hOld)
      · exact hNew
  · obtain ⟨place, -, hPlace⟩ := mem_remaining.mp hc
    exact h.1 c (List.mem_of_getElem? hPlace)

variable (hForest : Plain forest) (hRoots : Plain roots)
include hForest hRoots

/-- What an entry settles to is plain: the partner brought up to date, or the new root. -/
theorem Valid.plain_settled {entry : Component × Option Nat} (h : entry ∈ pairing) :
    Plain [(settled forest entry).2] := by
  have hNew := plain_iff.mp hRoots entry.1 (hValid.root_mem h)
  rcases hValid.settled_cases h with hSame | ⟨place, -, old, hOld, hKind, hRenewed⟩
  · exact hSame ▸ hNew
  · exact hRenewed ▸ plain_renewed (plain_iff.mp hForest old (List.mem_of_getElem? hOld)) hNew hKind

/-- The roots of the page stay plain. -/
theorem Valid.plain_reached {done : Pairing}
    (hDone : ∀ entry ∈ done, entry ∈ pairing) : Plain (done.reached forest) := by
  rw [reached, plain_append, plain_iff, plain_iff]
  refine ⟨fun c hc => ?_, fun c hc => ?_⟩
  · obtain ⟨entry, hEntry, rfl⟩ := List.mem_map.mp hc
    exact hValid.plain_settled hForest hRoots (hDone entry hEntry)
  · obtain ⟨place, -, hPlace⟩ := mem_remaining.mp hc
    exact plain_iff.mp hForest c (List.mem_of_getElem? hPlace)

end

end Pairing

namespace OwnsTag

variable {old : Component} {forest roots : Forest} (h : OwnsTag old forest roots)
include h

/-- No other root of the page has the tag or holds it, nor do the children. -/
theorem apart {place : Nat} (hOld : forest[place]? = some old) :
    old.opener ∉ openers old.children ∧
      ∀ other c, other ≠ place → forest[other]? = some c → old.opener ∉ openers [c] := by
  have hPerm := openers_perm (remaining_perm hOld List.not_mem_nil)
  have hCount := h.alone
  rw [remaining_nil] at hPerm
  rw [hPerm.count_eq, openers_cons, List.count_cons_self, List.count_append] at hCount
  have hChildren : (openers old.children).count old.opener = 0 := by omega
  have hOthers : (openers (remaining forest [place])).count old.opener = 0 := by omega
  rw [List.count_eq_zero] at hChildren hOthers
  refine ⟨hChildren, fun other c hOther hc hTag => hOthers ?_⟩
  exact mem_openers_of_mem (mem_remaining.mpr ⟨other, by simpa using hOther, hc⟩) hTag

variable (hOld : Plain [old]) (hRoots : Plain roots)
include hOld hRoots

/-- No component of the plan has the tag. -/
theorem not_mem_wanted {wanted : Forest} (hSub : ∀ c ∈ walk wanted, c ∈ walk roots) :
    old.opener ∉ openers wanted := by
  intro hTag
  obtain ⟨c, hc, hEq⟩ := List.mem_map.mp hTag
  obtain ⟨hClean, hShallow, -, -⟩ := plain_root_iff.mp hOld
  obtain ⟨hKind, hVisible⟩ := eq_of_opener_eq (hRoots.clean c (hSub c hc))
    (hRoots.shallow c (hSub c hc)) hClean hShallow hEq
  have hSame := h.unwanted c (hSub c hc) hKind
  rw [hVisible, same_visible hClean.mapping] at hSame
  cases hSame

/-- No root that is settled has the tag or holds it. -/
theorem not_mem_settled {place : Nat} (hPlace : forest[place]? = some old) (hForest : Plain forest)
    {pairing : Pairing} (hValid : pairing.Valid forest roots) {entry : Component × Option Nat}
    (hEntry : entry ∈ pairing) (hOther : place ∉ entry.2) :
    old.opener ∉ openers [(settled forest entry).2] := by
  have hMem := hValid.root_mem hEntry
  have hNew := plain_iff.mp hRoots entry.1 hMem
  have hSub := walk_root hMem
  rcases hValid.settled_cases hEntry with hSame | ⟨other, hOrigin, c, hc, hKind, hRenewed⟩
  · rw [hSame]
    exact h.not_mem_wanted hOld hRoots hSub
  · have hApart : other ≠ place := fun hEq => hOther (hEq ▸ hOrigin)
    have hFound := plain_iff.mp hForest c (List.mem_of_getElem? hc)
    obtain ⟨hClean, hShallow, -, -⟩ := plain_root_iff.mp hOld
    obtain ⟨hRenewedClean, hRenewedShallow, -, -⟩ :=
      plain_root_iff.mp (plain_renewed hFound hNew hKind)
    rw [hRenewed, openers_cons, List.mem_cons, List.mem_append, not_or, not_or]
    -- The tag is not that of the settled root, nor is it below it.
    refine ⟨fun hTag => ?_, ?_, List.not_mem_nil⟩
    · obtain ⟨hOldKind, hVisible⟩ :=
        eq_of_opener_eq hClean hShallow hRenewedClean hRenewedShallow hTag
      obtain ⟨hNewKind, hSame, -⟩ := sameShape_iff.mp
        (sameShape_renewed (plain_root_iff.mp hFound).1.mapping hNew.clean.keyed hKind)
      have hWanted := h.unwanted entry.1 (hSub _ (mem_walk_self _ _)) (hNewKind.symm.trans hOldKind.symm)
      rw [hVisible, hSame] at hWanted
      cases hWanted
    · rw [children_renewed]
      split
      · exact fun hTag => (h.apart hPlace).2 other c hApart hc (by simp [openers_cons, hTag])
      · exact h.not_mem_wanted hOld hRoots fun d hd => hSub d (walk_children_sublist _ _ d hd)

/-- The tag stands once among the root itself, the roots that are settled, and those whose turn has
not come. -/
theorem count_others {place : Nat} (hPlace : forest[place]? = some old) (hForest : Plain forest)
    {pairing : Pairing} (hValid : pairing.Valid forest roots) {done : Pairing}
    (hDone : ∀ entry ∈ done, entry ∈ pairing) (hFree : place ∉ done.places) :
    (openers (old :: ((done.map fun entry => (settled forest entry).2) ++
      remaining forest (place :: done.places)))).count old.opener = 1 := by
  obtain ⟨hChildren, hApart⟩ := h.apart hPlace
  have hOthers : old.opener ∉ openers ((done.map fun entry => (settled forest entry).2) ++
      remaining forest (place :: done.places)) := by
    rw [openers_eq_flatMap, List.mem_flatMap]
    rintro ⟨c, hc, hTag⟩
    rcases List.mem_append.mp hc with hc | hc
    · obtain ⟨entry, hEntry, rfl⟩ := List.mem_map.mp hc
      refine h.not_mem_settled hOld hRoots hPlace hForest hValid (hDone entry hEntry) ?_ hTag
      exact fun hOrigin => hFree (List.mem_filterMap.mpr ⟨entry, hEntry, hOrigin⟩)
    · obtain ⟨other, hOther, hc⟩ := mem_remaining.mp hc
      exact hApart other c (fun hEq => hOther (hEq ▸ List.mem_cons_self)) hc hTag
  rw [openers_cons, List.count_cons_self, List.count_append, List.count_eq_zero.mpr hChildren,
    List.count_eq_zero.mpr hOthers]

end OwnsTag

end Diff
namespace Page

/-- Without the first root of some text, the texts are those without any root of that text. -/
theorem perm_of_first {first last others : Forest} {root old : Component}
    (hText : rootText root = rootText old)
    (h : ((first ++ root :: last).map rootText).Perm ((old :: others).map rootText)) :
    ((first ++ last).map rootText).Perm (others.map rootText) := by
  have hFront := (List.perm_middle.map rootText).symm.trans h
  rw [List.map_cons, List.map_cons, hText] at hFront
  exact hFront.cons_inv

/-- Which of the roots of one text an operation finds makes no difference to the page, since these
are interchangeable. -/
theorem exists_first_of_perm {roots others : Forest} {old : Component}
    (h : roots.Perm (old :: others)) :
    ∃ first root last, roots = first ++ root :: last ∧ rootText root = rootText old ∧
      (∀ e ∈ first, rootText e ≠ rootText old) ∧ ∀ new : Forest, ∃ edited : Forest,
        edited.Perm (new ++ others) ∧ ∀ frame, page frame (Forest.lines 6 (first ++ (new ++ last))) =
          page frame (Forest.lines 6 edited) := by
  have hTexts := h.map rootText
  obtain ⟨first, root, last, rfl, hText, hFirst⟩ :=
    exists_first_root (hTexts.mem_iff.mpr List.mem_cons_self)
  refine ⟨first, root, last, rfl, hText, hFirst, fun new => ?_⟩
  have hOthers := perm_of_first hText hTexts
  rw [List.map_append] at hOthers
  have hFront : (first ++ (new ++ last)).Perm (new ++ (first ++ last)) :=
    List.perm_append_comm_assoc first new last
  have hEdited : ((first ++ (new ++ last)).map rootText).Perm ((new ++ others).map rootText) := by
    refine (hFront.map rootText).trans ?_
    simp only [List.map_append]
    exact hOthers.append_left _
  obtain ⟨edited, hPerm, hSame⟩ := exists_perm_of_texts hEdited
  exact ⟨edited, hPerm, fun frame => page_eq_of_texts hSame frame⟩

section

variable {frame : Frame} (hFrame : frame.AngleFree) {forest roots : Forest} {pairing : Pairing}
  (hForest : Plain forest) (hRoots : Plain roots) (hValid : pairing.Valid forest roots)
  (hClear : pairing.Clear forest roots)
include hFrame

/-- A removal takes out a root of the text that it names. -/
theorem rewrites_remove {current others : Forest} {old : Component} (hCurrent : Plain current)
    (hPerm : current.Perm (old :: others)) :
    ∃ edited : Forest, edited.Perm others ∧
      Rewrites frame [.remove (old.recorded rootIndent)] current edited := by
  obtain ⟨first, root, last, rfl, hText, hFirst, hPages⟩ := exists_first_of_perm hPerm
  obtain ⟨edited, hEdited, hPage⟩ := hPages []
  refine ⟨edited, hEdited, fun rest => ?_⟩
  rw [List.singleton_append, applyEach, apply, delete_root hFrame hCurrent hText hFirst, ← hPage]
  rfl

/-- Removals take out the roots that they name. -/
theorem rewrites_removes {gone : Forest} :
    ∀ {current kept : Forest}, Plain current → current.Perm (gone ++ kept) →
      ∃ edited : Forest, edited.Perm kept ∧
        Rewrites frame (gone.map fun old => .remove (old.recorded rootIndent)) current edited := by
  induction gone with
  | nil => exact fun _ hPerm => ⟨_, hPerm, .nil _⟩
  | cons old rest ih =>
      intro current kept hCurrent hPerm
      obtain ⟨middle, hMiddle, hFirst⟩ := rewrites_remove hFrame hCurrent hPerm
      have hLeft : Plain middle := ((plain_cons.mp (hCurrent.perm hPerm.symm)).2).perm hMiddle
      obtain ⟨edited, hEdited, hRest⟩ := ih hLeft hMiddle
      exact ⟨edited, hEdited, hFirst.append hRest⟩

include hForest hRoots hValid hClear

section

variable {done : Pairing} (hDone : ∀ entry ∈ done, entry ∈ pairing) {current : Forest}
  (hCurrent : current.Perm (done.reached forest))
include hDone hCurrent

/-- The operation for a root of the plan that is paired with nothing adds it. -/
theorem rewrites_unpaired {c : Component} (hEntry : (c, none) ∈ pairing) :
    ∃ edited : Forest, edited.Perm (Pairing.reached (done ++ [(c, none)]) forest) ∧
      Rewrites frame ((rootScript (Forest.recorded rootIndent forest) (c, none)).map Prod.snd)
        current edited := by
  have hPlain := (hValid.plain_reached hForest hRoots hDone).perm hCurrent
  have hReached := Pairing.reached_append done (c, none) forest
  have hPerm := addRootAt_perm c (Position.ofKind c.kind) current
  refine ⟨addRootAt c (Position.ofKind c.kind) current,
    hPerm.trans ((hCurrent.cons c).trans hReached.symm), fun more => ?_⟩
  have hNavbar (hAfter : Position.ofKind c.kind = .afterNavbar) :
      firstIsRoot .navbar current = true := by
    refine firstIsRoot_of_not_hasKind fun d hd => ?_
    exact hValid.not_hasKind_reached hDone (hClear.rootNavbar _ hEntry rfl hAfter) d
      (hCurrent.mem_iff.mp hd)
  simp only [rootScript, List.map_cons, List.map_nil, List.singleton_append, applyEach,
    Operation.addRoot, apply, insert_lines hFrame hPlain c _ hNavbar]

/-- The operations for a root of the plan renew the root of the page that it is paired with. -/
theorem rewrites_paired {c : Component} {place : Nat} (hEntry : (c, some place) ∈ pairing)
    (hFree : place ∉ done.places) :
    ∃ edited : Forest, edited.Perm (Pairing.reached (done ++ [(c, some place)]) forest) ∧
      Rewrites frame
        ((rootScript (Forest.recorded rootIndent forest) (c, some place)).map Prod.snd)
        current edited := by
  have hPlain := (hValid.plain_reached hForest hRoots hDone).perm hCurrent
  have hReached := Pairing.reached_append done (c, some place) forest
  have hMem := hValid.root_mem hEntry
  have hNew := plain_iff.mp hRoots c hMem
  obtain ⟨old, hOld, hKind⟩ := hValid.kinds c place hEntry
  have hPlace := Option.mem_def.mp hOld
  have hOldPlain := plain_iff.mp hForest old (List.mem_of_getElem? hPlace)
  have hSettled : (settled forest (c, some place)).2 = renewed old c := by simp [settled, hPlace]
  -- The page in front of us is the old root among others, in some order.
  let others := (done.map fun entry => (settled forest entry).2) ++
    remaining forest (place :: done.places)
  have hFront : current.Perm (old :: others) :=
    hCurrent.trans (((remaining_perm hPlace hFree).append_left _).trans List.perm_middle)
  obtain ⟨first, root, last, rfl, hText, hFirst, hPages⟩ := exists_first_of_perm hFront
  obtain ⟨edited, hEdited, hPage⟩ := hPages [renewed old c]
  have hRoot := (plain_cons.mp hPlain.right).1
  have hTag : root.opener = old.opener :=
    opener_eq (kind_eq_of_rootText_eq hOldPlain hText)
      (visible_eq_of_rootText_eq hOldPlain hRoot hText)
  -- The opening tag of the root is counted over the whole page, so its one place there is this
  -- root.
  have hOwn (hShapes : sameShapes old.children c.children = false)
      (hSame : Value.same (.object (visible old.props)) (.object (visible c.props)) = false) :
      old.opener ∉ openers first ++ (openers c.children ++ openers last) := by
    have hOwns := hClear.ownsTag _ hEntry place rfl old hOld hShapes hSame
    have hCount := (openers_perm hFront).count_eq old.opener
    rw [hOwns.count_others hOldPlain hRoots hPlace hForest hValid hDone hFree] at hCount
    obtain ⟨hBefore, hAfter⟩ := not_mem_openers_of_count hTag hCount
    have hChildren := hOwns.not_mem_wanted hOldPlain hRoots (fun d hd =>
      walk_root hMem d (walk_children_sublist c [] d hd))
    simp [hBefore, hAfter, hChildren]
  have hKeyed : (old.recorded rootIndent).props.Keyed := by
    rw [recorded_eq]
    exact keyed_visible (plain_root_iff.mp hOldPlain).1.mapping
  refine ⟨edited, hEdited.trans (hSettled ▸ hReached).symm, ?_⟩
  rw [rootScript, getElem?_recorded, hPlace, Option.map_some, Option.map_some, Option.getD_some,
    map_pairScript hKeyed (plain_root_iff.mp hNew).1.mapping]
  intro more
  rw [rewrites_renewed hFrame hOldPlain hNew hKind hPlain hText hFirst hOwn, ← hPage]
  rfl

end

/-- The operations for one root of the plan settle it, and leave all other roots as they are. -/
theorem rewrites_rootScript {done rest : Pairing} {entry : Component × Option Nat}
    (hSplit : pairing = done ++ entry :: rest) {current : Forest}
    (hCurrent : current.Perm (done.reached forest)) :
    ∃ edited : Forest, edited.Perm (Pairing.reached (done ++ [entry]) forest) ∧
      Rewrites frame ((rootScript (Forest.recorded rootIndent forest) entry).map Prod.snd) current
        edited := by
  have hEntry : entry ∈ pairing := by simp [hSplit]
  have hDone : ∀ other ∈ done, other ∈ pairing := fun other hOther => by simp [hSplit, hOther]
  have hFree := hValid.free hSplit
  obtain ⟨c, origin⟩ := entry
  cases origin with
  | none => exact rewrites_unpaired hFrame hForest hRoots hValid hClear hDone hCurrent hEntry
  | some place =>
      exact rewrites_paired hFrame hForest hRoots hValid hClear hDone hCurrent hEntry
        (hFree place rfl)

/-- The operations for the roots of the plan settle these one by one. -/
theorem rewrites_rootScripts {todo : Pairing} :
    ∀ {done : Pairing} {current : Forest}, pairing = done ++ todo →
      current.Perm (done.reached forest) → ∃ edited : Forest,
        edited.Perm (pairing.reached forest) ∧ Rewrites frame
          ((todo.flatMap (rootScript (Forest.recorded rootIndent forest))).map Prod.snd) current
            edited := by
  induction todo with
  | nil =>
      intro done current hSplit hCurrent
      rw [List.append_nil] at hSplit
      exact ⟨current, hSplit ▸ hCurrent, .nil _⟩
  | cons entry rest ih =>
      intro done current hSplit hCurrent
      obtain ⟨middle, hMiddle, hFirst⟩ :=
        rewrites_rootScript hFrame hForest hRoots hValid hClear hSplit hCurrent
      obtain ⟨edited, hEdited, hRest⟩ := ih (hSplit.trans (List.append_cons done entry rest)) hMiddle
      refine ⟨edited, hEdited, ?_⟩
      rw [List.flatMap_cons, List.map_append]
      exact hFirst.append hRest

/-- Carrying out the script on the page gives the page of the settled roots, in some order. -/
theorem rewrites_script : ∃ edited : Forest,
    edited.Perm (pairing.map fun entry => (settled forest entry).2) ∧
      Rewrites frame ((script (Forest.recorded rootIndent forest) pairing).map Prod.snd) forest
        edited := by
  obtain ⟨middle, hMiddle, hSettled⟩ :=
    rewrites_rootScripts hFrame hForest hRoots hValid hClear (List.nil_append pairing).symm
      (.of_eq (Pairing.reached_nil forest).symm)
  have hPlain := (hValid.plain_reached hForest hRoots fun _ h => h).perm hMiddle
  obtain ⟨edited, hEdited, hRemoved⟩ :=
    rewrites_removes hFrame hPlain (hMiddle.trans List.perm_append_comm)
  have hRemovals : (removalScript (Forest.recorded rootIndent forest) pairing).map Prod.snd =
      (remaining forest pairing.places).map fun old => .remove (old.recorded rootIndent) := by
    rw [removalScript, unpaired_recorded, remaining, List.map_map, List.map_map, List.map_map]
    rfl
  refine ⟨edited, hEdited, ?_⟩
  rw [script, List.map_append, hRemovals]
  exact hSettled.append hRemoved

end

/-- The operations of a comparison give the page of the settled roots, if the pairs that the search
makes are clear. -/
theorem applyEach_settled {frame : Frame} (hFrame : frame.AngleFree) {forest : Forest}
    (hForest : Plain forest) {plan : Plan} (hPlan : Plain plan.components)
    (hClear : (pairRoots forest [] plan.components).Clear forest plan.components) :
    ∃ roots : Forest,
      roots.Perm ((pairRoots forest [] plan.components).map fun entry =>
        (settled forest entry).2) ∧
      applyEach (compared (Forest.recorded rootIndent forest) plan)
          (page frame (Forest.lines 6 forest)) = .ok (page frame (Forest.lines 6 roots)) := by
  have hKeys : ∀ c ∈ forest, c.props.keysDistinct = true := fun c hc =>
    (plain_root_iff.mp (plain_iff.mp hForest c hc)).1.distinct
  have hKeyed : Forest.Keyed (Forest.recorded rootIndent forest) := by
    rw [← recover_page_lines hFrame hForest]
    exact keyed_recover _
  obtain ⟨roots, hRoots, hRewrites⟩ :=
    rewrites_script hFrame hForest hPlan (valid_pairRoots plan.components) hClear
  have hApply := hRewrites []
  rw [List.append_nil] at hApply
  refine ⟨roots, hRoots, ?_⟩
  rw [compared_pairRoots hKeyed hPlan.clean.keyed, pairRoots_recorded hKeys, hApply]
  rfl

end Page

end Wireframe
