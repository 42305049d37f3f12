import Wireframe.Proofs.Value.Conditions
import Wireframe.Value.Same

/-! Sameness of values is reflexive where objects have one entry per key. -/
namespace Wireframe

namespace Props

theorem get?_eq_none {key : String} {props : Props} (h : key ∉ props.map Prod.fst) :
    get? key props = none := by
  induction props with
  | nil => rfl
  | cons entry rest ih =>
      simp only [List.map_cons, List.mem_cons, not_or] at h
      rw [get?, if_neg (Ne.symm h.1), ih h.2]

theorem get?_of_mem {key : String} {v : Value} {props : Props} (h : props.keysDistinct = true)
    (hMem : (key, v) ∈ props) : get? key props = some v := by
  induction props with
  | nil => cases hMem
  | cons entry rest ih =>
      obtain ⟨k, w⟩ := entry
      obtain ⟨hNew, hRest⟩ := keysDistinct_cons.mp h
      rcases List.mem_cons.mp hMem with hHere | hLater
      · rw [Prod.mk.injEq] at hHere
        rw [get?, if_pos hHere.1.symm, hHere.2]
      · have hNe : k ≠ key := by
          rintro rfl
          exact hNew (List.mem_map_of_mem hLater)
        rw [get?, if_neg hNe, ih hRest hLater]

end Props

namespace Value

theorem entriesKeyed_of_forall {entries : Props}
    (h : ∀ entry ∈ entries, entry.2.keyed = true) : entriesKeyed entries = true := by
  induction entries with
  | nil => rfl
  | cons entry rest ih =>
      obtain ⟨key, v⟩ := entry
      have hHere := h (key, v) (by simp)
      have hRest := ih fun e he => h e (List.mem_cons_of_mem _ he)
      simp only at hHere
      rw [entriesKeyed, hHere, hRest, Bool.and_self]

theorem sameEntries_of_get? {entries other : Props}
    (hSame : ∀ entry ∈ entries, same entry.2 entry.2 = true)
    (hGet : ∀ entry ∈ entries, other.get? entry.1 = some entry.2) :
    sameEntries entries other = true := by
  induction entries with
  | nil => rfl
  | cons entry rest ih =>
      obtain ⟨key, v⟩ := entry
      have hHere := hGet (key, v) (by simp)
      have hValue := hSame (key, v) (by simp)
      have hRest := ih (fun e he => hSame e (List.mem_cons_of_mem _ he))
        (fun e he => hGet e (List.mem_cons_of_mem _ he))
      simp only at hHere hValue
      simp only [sameEntries, hHere, hValue, hRest, Bool.and_true]

theorem sameEntries_self {entries : Props} (hDistinct : entries.keysDistinct = true)
    (hSame : ∀ entry ∈ entries, same entry.2 entry.2 = true) :
    sameEntries entries entries = true :=
  sameEntries_of_get? hSame fun _ hEntry => Props.get?_of_mem hDistinct hEntry

/-- Every value whose objects have one entry per key is the same as itself. -/
theorem same_self {v : Value} (h : keyed v = true) : same v v = true := by
  have hAll : (∀ v, keyed v = true → same v v = true) ∧
      (∀ vs, itemsKeyed vs = true → sameItems vs vs = true) ∧
      ∀ es, entriesKeyed es = true → ∀ entry ∈ es, same entry.2 entry.2 = true := by
    apply Value.induction
    case null => exact fun _ => rfl
    case boolean => exact fun b _ => beq_self_eq_true _
    case integer => exact fun n _ => beq_self_eq_true _
    case real => exact fun x _ => beq_self_eq_true _
    case text => exact fun s _ => beq_self_eq_true _
    case list => exact fun vs ih h => ih h
    -- Each key is looked up in the same object, and with distinct keys finds its own value.
    case object =>
      intro es ih h
      simp only [keyed, Bool.and_eq_true] at h
      simp only [same, beq_self_eq_true, Bool.true_and]
      exact sameEntries_self h.1 (ih h.2)
    case itemsNil => exact fun _ => rfl
    case itemsCons =>
      intro v vs hv hvs h
      simp only [itemsKeyed, Bool.and_eq_true] at h
      simp only [sameItems, hv h.1, hvs h.2, Bool.and_true]
    case entriesNil =>
      intro _ entry hEntry
      cases hEntry
    case entriesCons =>
      intro key v es hv hes h entry hEntry
      simp only [entriesKeyed, Bool.and_eq_true] at h
      rcases List.mem_cons.mp hEntry with rfl | hEntry
      · exact hv h.1
      · exact hes h.2 entry hEntry
  exact hAll.1 v h

end Value

end Wireframe
