import Mathlib
import Wireframe.Value.Basic
import Wireframe.Text.Basic

/-! Conditions on values. Objects have one entry per key, as every mapping has;
texts may be kept free of `<`; and braces may be nested only so deep. -/
namespace Wireframe

def Text.angleFree (text : Text) : Bool :=
  !text.contains '<'

namespace Text

theorem angleFree_iff {text : Text} : angleFree text = true ↔ '<' ∉ text := by
  simp [angleFree]

@[simp] theorem angleFree_nil : angleFree [] = true := rfl

@[simp] theorem angleFree_cons {c : Char} {text : Text} :
    angleFree (c :: text) = (c != '<' && angleFree text) := by
  rw [Bool.eq_iff_iff, Bool.and_eq_true, bne_iff_ne, angleFree_iff, angleFree_iff,
    List.mem_cons, not_or, ne_comm]

@[simp] theorem angleFree_append {first second : Text} :
    angleFree (first ++ second) = (angleFree first && angleFree second) := by
  rw [Bool.eq_iff_iff]
  simp [angleFree_iff]

end Text

def Props.keysDistinct (props : Props) : Bool :=
  decide (props.map Prod.fst).Nodup

namespace Value

mutual

/-- Every object in the value has one entry per key. -/
def keyed : Value → Bool
  | .list items => itemsKeyed items
  | .object entries => Props.keysDistinct entries && entriesKeyed entries
  | _ => true
termination_by structural v => v

def itemsKeyed : List Value → Bool
  | [] => true
  | v :: rest => keyed v && itemsKeyed rest
termination_by structural vs => vs

def entriesKeyed : List (String × Value) → Bool
  | [] => true
  | (_, v) :: rest => keyed v && entriesKeyed rest
termination_by structural es => es

end

mutual

/-- No text in the value holds `<`, and no key of an object in it does. -/
def angleFree : Value → Bool
  | .text s => Text.angleFree s.toList
  | .list items => itemsAngleFree items
  | .object entries => entriesAngleFree entries
  | _ => true
termination_by structural v => v

def itemsAngleFree : List Value → Bool
  | [] => true
  | v :: rest => angleFree v && itemsAngleFree rest
termination_by structural vs => vs

def entriesAngleFree : List (String × Value) → Bool
  | [] => true
  | (key, v) :: rest => Text.angleFree key.toList && angleFree v && entriesAngleFree rest
termination_by structural es => es

end

mutual

/-- How deep objects are nested in the value. Lists do not count. -/
def braces : Value → Nat
  | .list items => itemsBraces items
  | .object entries => entriesBraces entries + 1
  | _ => 0
termination_by structural v => v

def itemsBraces : List Value → Nat
  | [] => 0
  | v :: rest => max (braces v) (itemsBraces rest)
termination_by structural vs => vs

def entriesBraces : List (String × Value) → Nat
  | [] => 0
  | (_, v) :: rest => max (braces v) (entriesBraces rest)
termination_by structural es => es

end

end Value

namespace Props

theorem keysDistinct_cons {key : String} {value : Value} {rest : Props} :
    keysDistinct ((key, value) :: rest) = true ↔
      key ∉ rest.map Prod.fst ∧ keysDistinct rest = true := by
  simp [keysDistinct]

theorem mem_set {key : String} {value : Value} {props : Props} {entry : String × Value}
    (h : entry ∈ set key value props) : entry = (key, value) ∨ entry ∈ props := by
  induction props with
  | nil => exact .inl (List.mem_singleton.mp h)
  | cons first rest ih =>
      by_cases hKey : first.1 = key
      · simp only [set, hKey, if_true, List.mem_cons] at h
        exact h.imp_right (List.mem_cons_of_mem _)
      · simp only [set, hKey, if_false, List.mem_cons] at h ⊢
        rcases h with h | h
        · exact .inr (.inl h)
        · exact (ih h).imp_right .inr

theorem set_of_not_mem {key : String} {props : Props} (value : Value)
    (h : key ∉ props.map Prod.fst) : set key value props = props ++ [(key, value)] := by
  induction props with
  | nil => rfl
  | cons entry rest ih =>
      simp only [List.map_cons, List.mem_cons, not_or] at h
      simp [set, Ne.symm h.1, ih h.2]

/-- Entries with keys of their own are set one behind another, so that the order is kept. -/
theorem foldl_set_of_nodup {done props : Props} (h : ((done ++ props).map Prod.fst).Nodup) :
    props.foldl (fun props entry => set entry.1 entry.2 props) done = done ++ props := by
  induction props generalizing done with
  | nil => simp
  | cons entry rest ih =>
      have hNew : entry.1 ∉ done.map Prod.fst := by
        rw [List.map_append, List.nodup_append] at h
        intro hMem
        exact h.2.2 _ hMem _ (by simp) rfl
      rw [List.foldl_cons, set_of_not_mem _ hNew, ih (by simpa using h)]
      simp

/-- Collecting entries with different keys changes nothing. -/
theorem ofEntries_of_keysDistinct {props : Props} (h : keysDistinct props = true) :
    ofEntries props = props := by
  rw [ofEntries, foldl_set_of_nodup (by simpa [keysDistinct] using h), List.nil_append]

end Props

end Wireframe
