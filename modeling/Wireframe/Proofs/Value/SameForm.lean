import Wireframe.Proofs.Value.Keyed
import Wireframe.Proofs.Number.ReadBack

/-! The form of a value: which of its members are truth values, whole numbers, floating-point
numbers of either sign, texts, lists or objects, and in which order the keys of its objects stand.
Values can be the same without being equal, since a comparison of values sees nothing of their
form. The form is all that it misses. -/
namespace Wireframe

namespace Binary64

/-- Two numbers of one magnitude have one rank. -/
theorem rank_of_units {x y : Binary64} (h : x.units = y.units) : x.rank = y.rank := by
  have hNearest (z : Binary64) (hPos : 0 < z.units) :
      nearestRank z.units unitsPerOne = z.rank := by
    have hExact : z.units * unitsPerOne =
        significand z.rank * (unitsPerOne * 2 ^ scale z.rank) := by
      rw [units, Nat.pow_eq]
      ring
    have hSignificand : 0 < significand z.rank := Nat.pos_of_mul_pos_right hPos
    exact nearestRank_of_close hSignificand unitsPerOne_pos (by omega) (by omega)
  rcases Nat.eq_zero_or_pos x.units with hZero | hPos
  · rw [eq_zero_of_units hZero, eq_zero_of_units (x := y) (h ▸ hZero)]
    rfl
  · apply Fin.ext
    rw [← hNearest x hPos, ← hNearest y (h ▸ hPos), h]

theorem eq_of_signedUnits {x y : Binary64} (hCount : x.signedUnits = y.signedUnits)
    (hSign : x.negative = y.negative) : x = y := by
  have hUnits : x.units = y.units := by
    simp only [signedUnits, hSign] at hCount
    split at hCount <;> omega
  have hRank := rank_of_units hUnits
  obtain ⟨_, _⟩ := x
  obtain ⟨_, _⟩ := y
  rw [mk.injEq]
  exact ⟨hSign, hRank⟩

end Binary64

namespace Value

mutual

/-- The two values have one form: values of the same kinds at the same places, floating-point
numbers with the same signs, and objects with the same keys in the same order. -/
def sameForm : Value → Value → Bool
  | .null, .null => true
  | .boolean _, .boolean _ => true
  | .integer _, .integer _ => true
  | .real x, .real y => x.negative == y.negative
  | .text _, .text _ => true
  | .list items, .list others => itemsSameForm items others
  | .object entries, .object others => entriesSameForm entries others
  | _, _ => false
termination_by structural v => v

def itemsSameForm : List Value → List Value → Bool
  | [], [] => true
  | v :: vs, w :: ws => sameForm v w && itemsSameForm vs ws
  | _, _ => false
termination_by structural vs => vs

def entriesSameForm : List (String × Value) → List (String × Value) → Bool
  | [], [] => true
  | (key, v) :: es, (other, w) :: fs => key == other && sameForm v w && entriesSameForm es fs
  | _, _ => false
termination_by structural es => es

end

theorem sameForm_self (v : Value) : sameForm v v = true := by
  have hAll : (∀ v, sameForm v v = true) ∧ (∀ vs, itemsSameForm vs vs = true) ∧
      ∀ es, entriesSameForm es es = true := by
    apply Value.induction
    case null => rfl
    case boolean => exact fun _ => rfl
    case integer => exact fun _ => rfl
    case real => exact fun x => beq_self_eq_true _
    case text => exact fun _ => rfl
    case list => exact fun vs ih => ih
    case object => exact fun es ih => ih
    case itemsNil => rfl
    case itemsCons =>
      intro v vs hv hvs
      rw [itemsSameForm, hv, hvs, Bool.and_self]
    case entriesNil => rfl
    case entriesCons =>
      intro key v es hv hes
      rw [entriesSameForm, beq_self_eq_true, hv, hes, Bool.and_self, Bool.and_self]
  exact hAll.1 v

/-- Numbers of one form that come to the same are equal. -/
theorem eq_of_count? {v w : Value} (hNumber : v.count?.isSome = true) (hCount : v.count? = w.count?)
    (hForm : sameForm v w = true) : v = w := by
  have hOne : (Binary64.unitsPerOne : Int) ≠ 0 := by
    exact_mod_cast Binary64.unitsPerOne_pos.ne'
  cases v with
  | boolean b =>
      cases w with
      | boolean other =>
          simp only [count?, Option.some.injEq] at hCount
          generalize (Binary64.unitsPerOne : Int) = one at hOne hCount
          cases b <;> cases other <;> simp_all
      | _ => cases hForm
  | integer n =>
      cases w with
      | integer m =>
          simp only [count?, Option.some.injEq] at hCount
          rw [Int.eq_of_mul_eq_mul_right hOne hCount]
      | _ => cases hForm
  | real x =>
      cases w with
      | real y =>
          simp only [count?, Option.some.injEq] at hCount
          rw [Binary64.eq_of_signedUnits hCount (beq_iff_eq.mp hForm)]
      | _ => cases hForm
  | _ => cases hNumber

/-- Values that are the same and have one form are equal. -/
theorem eq_of_same {v w : Value} (hKeyed : keyed w = true) (hSame : same v w = true)
    (hForm : sameForm v w = true) : v = w := by
  have hAll : (∀ v w, keyed w = true → same v w = true → sameForm v w = true → v = w) ∧
      (∀ vs ws, itemsKeyed ws = true → sameItems vs ws = true → itemsSameForm vs ws = true →
        vs = ws) ∧
      -- the entries on the right are those behind some place of the object that is searched
      ∀ es fs (other : Props), (∀ entry ∈ fs, other.get? entry.1 = some entry.2) →
        entriesKeyed fs = true → sameEntries es other = true → entriesSameForm es fs = true →
        es = fs := by
    apply Value.induction
    case null =>
      intro w _ _ hForm
      cases w with
      | null => rfl
      | _ => cases hForm
    case boolean => exact fun b w _ hSame hForm => eq_of_count? rfl (beq_iff_eq.mp hSame) hForm
    case integer => exact fun n w _ hSame hForm => eq_of_count? rfl (beq_iff_eq.mp hSame) hForm
    case real => exact fun x w _ hSame hForm => eq_of_count? rfl (beq_iff_eq.mp hSame) hForm
    case text =>
      intro s w _ hSame hForm
      cases w with
      | text t => rw [beq_iff_eq.mp hSame]
      | _ => cases hForm
    case list =>
      intro vs ih w hKeyed hSame hForm
      cases w with
      | list ws => rw [ih ws hKeyed hSame hForm]
      | _ => cases hForm
    case object =>
      intro es ih w hKeyed hSame hForm
      cases w with
      | object fs =>
          simp only [keyed, Bool.and_eq_true] at hKeyed
          simp only [same, Bool.and_eq_true] at hSame
          have hGet (entry : String × Value) (hEntry : entry ∈ fs) :
              Props.get? entry.1 fs = some entry.2 :=
            Props.get?_of_mem hKeyed.1 hEntry
          rw [ih fs fs hGet hKeyed.2 hSame.2 hForm]
      | _ => cases hForm
    case itemsNil =>
      intro ws _ _ hForm
      cases ws with
      | nil => rfl
      | cons w ws => cases hForm
    case itemsCons =>
      intro v vs hv hvs ws hKeyed hSame hForm
      cases ws with
      | nil => cases hForm
      | cons w ws =>
          simp only [itemsKeyed, sameItems, itemsSameForm, Bool.and_eq_true] at hKeyed hSame hForm
          rw [hv w hKeyed.1 hSame.1 hForm.1, hvs ws hKeyed.2 hSame.2 hForm.2]
    case entriesNil =>
      intro fs _ _ _ _ hForm
      cases fs with
      | nil => rfl
      | cons entry fs => cases hForm
    case entriesCons =>
      intro key v es hv hes fs other hGet hKeyed hSame hForm
      cases fs with
      | nil => cases hForm
      | cons entry fs =>
          obtain ⟨known, w⟩ := entry
          simp only [entriesKeyed, entriesSameForm, Bool.and_eq_true, beq_iff_eq] at hKeyed hForm
          obtain ⟨⟨rfl, hForm⟩, hForms⟩ := hForm
          obtain ⟨hHere, hLater⟩ := List.forall_mem_cons.mp hGet
          simp only [sameEntries, hHere, Bool.and_eq_true] at hSame
          rw [hv w hKeyed.1 hSame.1 hForm, hes fs other hLater hKeyed.2 hSame.2 hForms]
  exact hAll.1 v w hKeyed hSame hForm

end Value
end Wireframe
