import Wireframe.Proofs.Value.Sameness
import Wireframe.Value.Decode

/-! Mappings have one entry per key. Setting, erasing and collecting entries keep that, and every
value that is read from a text has it at every depth. -/
namespace Wireframe

/-- A mapping: one entry per key, also in the objects inside its values. -/
structure Props.Keyed (props : Props) : Prop where
  distinct : props.keysDistinct = true
  values : ∀ entry ∈ props, entry.2.keyed = true

instance (props : Props) : Decidable props.Keyed :=
  decidable_of_iff (props.keysDistinct = true ∧ ∀ entry ∈ props, entry.2.keyed = true)
    ⟨fun ⟨hDistinct, hValues⟩ => ⟨hDistinct, hValues⟩, fun h => ⟨h.distinct, h.values⟩⟩

namespace Props

theorem keysDistinct_iff {props : Props} :
    props.keysDistinct = true ↔ (props.map Prod.fst).Nodup := by
  rw [keysDistinct, decide_eq_true_eq]

/-- A set key is overwritten where it stands or comes last, so it never stands twice. -/
theorem keysDistinct_set {key : String} {value : Value} {props : Props}
    (h : props.keysDistinct = true) : (props.set key value).keysDistinct = true := by
  induction props with
  | nil => rfl
  | cons entry rest ih =>
      obtain ⟨k, v⟩ := entry
      obtain ⟨hNew, hRest⟩ := keysDistinct_cons.mp h
      by_cases hKey : k = key
      · simp only [set, hKey, if_true]
        exact keysDistinct_cons.mpr ⟨hKey ▸ hNew, hRest⟩
      · simp only [set, hKey, if_false]
        refine keysDistinct_cons.mpr ⟨fun hMem => ?_, ih hRest⟩
        obtain ⟨other, hOther, hEq⟩ := List.mem_map.mp hMem
        rcases mem_set hOther with rfl | hOld
        · exact hKey hEq.symm
        · exact hNew (hEq ▸ List.mem_map_of_mem hOld)

theorem keysDistinct_filter {props : Props} (h : props.keysDistinct = true)
    (keep : String × Value → Bool) : keysDistinct (props.filter keep) = true := by
  rw [keysDistinct_iff] at h ⊢
  exact h.sublist (List.filter_sublist.map _)

/-- Where keys differ, looking up a key is membership. -/
theorem get?_eq_some_iff {key : String} {v : Value} {props : Props}
    (h : props.keysDistinct = true) : get? key props = some v ↔ (key, v) ∈ props := by
  refine ⟨fun hGet => ?_, get?_of_mem h⟩
  clear h
  induction props with
  | nil => cases hGet
  | cons entry rest ih =>
      rw [get?] at hGet
      split at hGet
      · rename_i hKey
        cases hGet
        exact hKey ▸ List.mem_cons_self
      · exact List.mem_cons_of_mem _ (ih hGet)

theorem get?_isSome_iff {key : String} {props : Props} :
    (get? key props).isSome = true ↔ key ∈ props.map Prod.fst := by
  induction props with
  | nil => simp [get?]
  | cons entry rest ih =>
      rw [get?, List.map_cons, List.mem_cons]
      split
      · rename_i hKey
        simp [hKey]
      · rename_i hKey
        rw [ih]
        simp [Ne.symm hKey]

/-- Erasing a key hides no other one. -/
theorem get?_erase (key other : String) (props : Props) :
    get? other (erase key props) = if other = key then none else get? other props := by
  induction props with
  | nil => simp [erase, get?]
  | cons entry rest ih =>
      rw [erase] at ih ⊢
      by_cases hKey : entry.1 = key
      · rw [List.filter_cons_of_neg (by simpa using hKey), ih, get?]
        split
        · rfl
        · rename_i hOther
          rw [if_neg fun hEq => hOther (hEq.symm.trans hKey)]
      · rw [List.filter_cons_of_pos (by simpa using hKey), get?, get?, ih]
        split
        · rename_i hOther
          rw [if_neg (hOther ▸ hKey)]
        · rfl

/-- The value set last is the one found. -/
theorem get?_set (key other : String) (value : Value) (props : Props) :
    get? other (set key value props) = if other = key then some value else get? other props := by
  split
  · rename_i hKey
    rw [hKey, get?_set_self]
  · rename_i hKey
    exact get?_set_of_ne value props hKey

theorem Keyed.filter {props : Props} (h : props.Keyed) (keep : String × Value → Bool) :
    Keyed (props.filter keep) where
  distinct := keysDistinct_filter h.distinct keep
  values entry hEntry := h.values entry (List.mem_of_mem_filter hEntry)

/-- Mappings stay mappings when a value is set that is one throughout. -/
theorem Keyed.set {props : Props} (h : props.Keyed) (key : String) {value : Value}
    (hValue : value.keyed = true) : Keyed (props.set key value) where
  distinct := keysDistinct_set h.distinct
  values entry hEntry := by
    rcases mem_set hEntry with rfl | hOld
    · exact hValue
    · exact h.values entry hOld

theorem Keyed.foldl_set {props : Props} (hProps : props.Keyed) {entries : List (String × Value)}
    (h : ∀ entry ∈ entries, entry.2.keyed = true) :
    Keyed (entries.foldl (fun props entry => Props.set entry.1 entry.2 props) props) := by
  induction entries generalizing props with
  | nil => exact hProps
  | cons entry rest ih =>
      obtain ⟨hHere, hRest⟩ := List.forall_mem_cons.mp h
      exact ih (hProps.set entry.1 hHere) hRest

/-- Collected entries form a mapping. -/
theorem keyed_ofEntries {entries : List (String × Value)}
    (h : ∀ entry ∈ entries, entry.2.keyed = true) : Keyed (ofEntries entries) := by
  have hNone : Keyed [] := ⟨rfl, fun _ hMem => absurd hMem List.not_mem_nil⟩
  exact hNone.foldl_set h

end Props

namespace Value

theorem entriesKeyed_iff {entries : Props} :
    entriesKeyed entries = true ↔ ∀ entry ∈ entries, entry.2.keyed = true := by
  refine ⟨fun h => ?_, entriesKeyed_of_forall⟩
  induction entries with
  | nil => exact fun _ hMem => absurd hMem List.not_mem_nil
  | cons entry rest ih =>
      obtain ⟨key, v⟩ := entry
      rw [entriesKeyed, Bool.and_eq_true] at h
      intro e he
      rcases List.mem_cons.mp he with rfl | he
      · exact h.1
      · exact ih h.2 e he

theorem keyed_object_iff {entries : Props} :
    keyed (.object entries) = true ↔ entries.Keyed := by
  rw [keyed, Bool.and_eq_true, entriesKeyed_iff]
  exact ⟨fun ⟨hDistinct, hValues⟩ => ⟨hDistinct, hValues⟩, fun h => ⟨h.distinct, h.values⟩⟩

/-- Comparing entries looks the keys of one up in the other. -/
theorem sameEntries_iff {entries other : Props} :
    sameEntries entries other = true ↔
      ∀ entry ∈ entries, ∃ w, other.get? entry.1 = some w ∧ same entry.2 w = true := by
  induction entries with
  | nil => simp [sameEntries]
  | cons entry rest ih =>
      obtain ⟨key, v⟩ := entry
      rw [sameEntries, Bool.and_eq_true, ih, List.forall_mem_cons]
      refine and_congr_left fun _ => ?_
      cases hGet : other.get? key with
      | none => simp
      | some w => simp

/-- Two mappings are the same if each key of either has the same value in both. -/
theorem same_object_iff {entries other : Props} (hEntries : entries.keysDistinct = true)
    (hOther : other.keysDistinct = true) :
    same (.object entries) (.object other) = true ↔
      (∀ entry ∈ entries, ∃ w, other.get? entry.1 = some w ∧ same entry.2 w = true) ∧
        other.map Prod.fst ⊆ entries.map Prod.fst := by
  rw [Props.keysDistinct_iff] at hEntries hOther
  rw [same, Bool.and_eq_true, sameEntries_iff, beq_iff_eq, and_comm]
  refine and_congr_right fun hSame => ?_
  have hKeys : entries.map Prod.fst ⊆ other.map Prod.fst := by
    intro key hKey
    obtain ⟨entry, hEntry, rfl⟩ := List.mem_map.mp hKey
    obtain ⟨w, hGet, -⟩ := hSame entry hEntry
    exact Props.get?_isSome_iff.mp (by rw [hGet]; rfl)
  have hSub := List.subperm_of_subset hEntries hKeys
  constructor
  · intro hLength
    have hLe : (other.map Prod.fst).length ≤ (entries.map Prod.fst).length := by simp [hLength]
    exact (hSub.perm_of_length_le hLe).symm.subset
  · intro hBack
    have hLeft := hSub.length_le
    have hRight := (List.subperm_of_subset hOther hBack).length_le
    simp only [List.length_map] at hLeft hRight
    omega

theorem keyed_magnitude? {negative : Bool} {text rest : Text} {v : Value}
    (h : magnitude? negative text = some (v, rest)) : v.keyed = true := by
  simp only [magnitude?, Option.bind_eq_bind, Option.bind_eq_some_iff] at h
  obtain ⟨_, _, _, _, _, _, h⟩ := h
  split at h
  · cases h
    rfl
  · simp only [Option.bind_eq_some_iff] at h
    obtain ⟨_, _, h⟩ := h
    cases h
    rfl

theorem keyed_number? {text rest : Text} {v : Value} (h : number? text = some (v, rest)) :
    v.keyed = true := by
  unfold number? at h
  split at h
  · exact keyed_magnitude? h
  · exact keyed_magnitude? h

/-- With this many steps, whatever is read has one entry per key in its objects. -/
structure ReadsKeyed (fuel : Nat) : Prop where
  value : ∀ {text rest v}, value? fuel text = some (v, rest) → v.keyed = true
  items : ∀ {text rest vs}, items? fuel text = some (vs, rest) → itemsKeyed vs = true
  entries : ∀ {text rest es}, entries? fuel text = some (es, rest) →
    ∀ entry ∈ es, entry.2.keyed = true

namespace ReadsKeyed

variable {fuel : Nat} (hReads : ReadsKeyed fuel) {text rest : Text}
include hReads

theorem value_succ {v : Value} (h : value? (fuel + 1) text = some (v, rest)) : v.keyed = true := by
  rw [value?] at h
  split at h
  · cases h
  · split_ifs at h
    · split at h
      · cases h
        rfl
      · simp only [Option.map_eq_some_iff, Prod.exists, Prod.mk.injEq] at h
        obtain ⟨es, _, hRead, rfl, -⟩ := h
        exact keyed_object_iff.mpr (Props.keyed_ofEntries (hReads.entries hRead))
    · split at h
      · cases h
        rfl
      · simp only [Option.map_eq_some_iff, Prod.exists, Prod.mk.injEq] at h
        obtain ⟨vs, _, hRead, rfl, -⟩ := h
        exact hReads.items hRead
    · simp only [Option.map_eq_some_iff, Prod.exists, Prod.mk.injEq] at h
      obtain ⟨_, _, _, rfl, -⟩ := h
      rfl
    · simp only [Option.map_eq_some_iff, Prod.mk.injEq] at h
      obtain ⟨_, _, rfl, -⟩ := h
      rfl
    · simp only [Option.map_eq_some_iff, Prod.mk.injEq] at h
      obtain ⟨_, _, rfl, -⟩ := h
      rfl
    · simp only [Option.map_eq_some_iff, Prod.mk.injEq] at h
      obtain ⟨_, _, rfl, -⟩ := h
      rfl
    · exact keyed_number? h

theorem items_succ {vs : List Value} (h : items? (fuel + 1) text = some (vs, rest)) :
    itemsKeyed vs = true := by
  rw [items?] at h
  split at h
  · cases h
  · rename_i hRead
    have hHere := hReads.value hRead
    split at h
    · simp only [Option.map_eq_some_iff, Prod.exists, Prod.mk.injEq] at h
      obtain ⟨vs, _, hMore, rfl, -⟩ := h
      rw [itemsKeyed, hHere, hReads.items hMore, Bool.and_self]
    · cases h
      rw [itemsKeyed, hHere, itemsKeyed, Bool.and_self]
    · cases h

theorem entries_succ {es : Props} (h : entries? (fuel + 1) text = some (es, rest)) :
    ∀ entry ∈ es, entry.2.keyed = true := by
  rw [entries?] at h
  split at h
  · split at h
    · cases h
    · split at h
      · split at h
        · cases h
        · rename_i hRead
          have hHere := hReads.value hRead
          split at h
          · simp only [Option.map_eq_some_iff, Prod.exists, Prod.mk.injEq] at h
            obtain ⟨es, _, hMore, rfl, -⟩ := h
            exact List.forall_mem_cons.mpr ⟨hHere, hReads.entries hMore⟩
          · cases h
            exact List.forall_mem_cons.mpr ⟨hHere, fun _ hMem => absurd hMem List.not_mem_nil⟩
          · cases h
      · cases h
  · cases h

end ReadsKeyed

/-- By induction on the fuel of the readers: an object is built by setting its entries, so its keys
differ. -/
theorem readsKeyed (fuel : Nat) : ReadsKeyed fuel := by
  induction fuel with
  | zero => exact ⟨(nomatch ·), (nomatch ·), (nomatch ·)⟩
  | succ fuel ih => exact ⟨ih.value_succ, ih.items_succ, ih.entries_succ⟩

/-- What is read from a text has no repeated keys, at any depth. -/
theorem keyed_decode? {text : Text} {v : Value} (h : decode? text = some v) : v.keyed = true := by
  simp only [decode?] at h
  split at h
  · rename_i hRead
    split at h
    · cases h
      exact (readsKeyed _).value hRead
    · cases h
  · cases h

end Value

end Wireframe
