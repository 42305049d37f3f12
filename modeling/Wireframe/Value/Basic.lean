import Wireframe.Number.Binary64

/-!
Values of props and of plan data: the values that JSON can write. A whole number and a
floating-point number are different values, and the entries of an object keep their order.
-/
namespace Wireframe

inductive Value where
  | null
  | boolean (b : Bool)
  | integer (n : Int)
  | real (x : Binary64)
  | text (s : String)
  | list (items : List Value)
  | object (entries : List (String × Value))
deriving Repr, Inhabited

/-- Named values in order. Every function here keeps one entry per key. -/
abbrev Props := List (String × Value)

namespace Props

def get? (key : String) : Props → Option Value
  | [] => none
  | (k, v) :: rest => if k = key then some v else get? key rest

def has (key : String) (props : Props) : Bool :=
  (get? key props).isSome

/-- Puts a value under a key. A key that is present keeps its place, a new one goes last. -/
def set (key : String) (value : Value) : Props → Props
  | [] => [(key, value)]
  | (k, v) :: rest => if k = key then (k, value) :: rest else (k, v) :: set key value rest

def erase (key : String) (props : Props) : Props :=
  props.filter fun entry => entry.1 ≠ key

/-- Collects entries. The last value of a repeated key counts, at the place of the first. -/
def ofEntries (entries : List (String × Value)) : Props :=
  entries.foldl (fun props entry => set entry.1 entry.2 props) []

theorem get?_set_self (key : String) (value : Value) (props : Props) :
    get? key (set key value props) = some value := by
  induction props with
  | nil => simp [set, get?]
  | cons entry rest ih => by_cases h : entry.1 = key <;> simp [set, get?, h, ih]

theorem get?_set_of_ne {key other : String} (value : Value) (props : Props) (h : other ≠ key) :
    get? other (set key value props) = get? other props := by
  induction props with
  | nil => simp [set, get?, Ne.symm h]
  | cons entry rest ih =>
    by_cases hk : entry.1 = key
    · simp [set, get?, hk, Ne.symm h]
    · by_cases ho : entry.1 = other <;> simp [set, get?, hk, ho, ih, h]

/-- The text under a key, if it is a text with something in it. -/
def text? (key : String) (props : Props) : Option String :=
  match get? key props with
  | some (.text s) => if s.isEmpty then none else some s
  | _ => none

end Props

namespace Value

/-- Whatever holds of values that hold no others, and of a list or an object once it holds of the
members, holds of every value, of every row of members and of every row of entries. -/
theorem induction {motive_1 : Value → Prop} {motive_2 : List Value → Prop}
    {motive_3 : Props → Prop} (null : motive_1 .null) (boolean : ∀ b, motive_1 (.boolean b))
    (integer : ∀ n, motive_1 (.integer n)) (real : ∀ x, motive_1 (.real x))
    (text : ∀ s, motive_1 (.text s)) (list : ∀ vs, motive_2 vs → motive_1 (.list vs))
    (object : ∀ es, motive_3 es → motive_1 (.object es)) (itemsNil : motive_2 [])
    (itemsCons : ∀ v vs, motive_1 v → motive_2 vs → motive_2 (v :: vs)) (entriesNil : motive_3 [])
    (entriesCons : ∀ key v es, motive_1 v → motive_3 es → motive_3 ((key, v) :: es)) :
    (∀ v, motive_1 v) ∧ (∀ vs, motive_2 vs) ∧ ∀ es, motive_3 es := by
  have consEntry (entry : String × Value) (es : Props) (hv : motive_1 entry.2)
      (hes : motive_3 es) : motive_3 (entry :: es) :=
    entriesCons entry.1 entry.2 es hv hes
  refine ⟨fun v => ?_, fun vs => ?_, fun es => ?_⟩
  · exact @Value.rec motive_1 motive_2 motive_3 (fun entry => motive_1 entry.2) null boolean integer
      real text list object itemsNil itemsCons entriesNil consEntry (fun _ _ hv => hv) v
  · exact @Value.rec_1 motive_1 motive_2 motive_3 (fun entry => motive_1 entry.2) null boolean integer
      real text list object itemsNil itemsCons entriesNil consEntry (fun _ _ hv => hv) vs
  · exact @Value.rec_2 motive_1 motive_2 motive_3 (fun entry => motive_1 entry.2) null boolean integer
      real text list object itemsNil itemsCons entriesNil consEntry (fun _ _ hv => hv) es

def isFalse : Value → Bool
  | .boolean false => true
  | _ => false

/-- The value counts as absent where a default may stand in for it: null, `false`, zero, and empty
texts, lists and objects. -/
def isVacant : Value → Bool
  | .null => true
  | .boolean b => !b
  | .integer n => n == 0
  | .real x => x.units == 0
  | .text s => s.isEmpty
  | .list items => items.isEmpty
  | .object entries => entries.isEmpty

end Value

end Wireframe
