import Mathlib
import Wireframe.Value.Depth

/-! How high a value is built. The depth guard measures the height of a value from the depth that
the value lies at. -/
namespace Wireframe.Value

mutual

/-- The height of a value: one more than the greatest height of its members, or zero if it has
none. -/
def height : Value → Nat
  | .list items => itemsHeight items
  | .object entries => entriesHeight entries
  | _ => 0
termination_by structural v => v

def itemsHeight : List Value → Nat
  | [] => 0
  | v :: rest => max (height v + 1) (itemsHeight rest)
termination_by structural vs => vs

def entriesHeight : List (String × Value) → Nat
  | [] => 0
  | (_, v) :: rest => max (height v + 1) (entriesHeight rest)
termination_by structural es => es

end

/-- A first member and the members behind it pass the limit together where the highest of them does. -/
theorem or_passed (limit depth : Int) (first rest : Nat) :
    (if limit < depth + 1 + first then some (limit + 1) else none).or
        (if limit < depth + rest then some (limit + 1) else none) =
      if limit < depth + ↑(max (first + 1) rest) then some (limit + 1) else none := by
  by_cases hFirst : limit < depth + 1 + first
  · rw [if_pos hFirst, Option.some_or, if_pos (by omega)]
  · rw [if_neg hFirst, Option.none_or]
    by_cases hRest : limit < depth + rest
    · rw [if_pos hRest, if_pos (by omega)]
    · rw [if_neg hRest, if_neg (by omega)]

/-- A value that holds others passes the limit by itself or with one of its members. -/
theorem tooDeep?_of_members {limit depth : Int} {v : Value} {members : Option Int}
    (hGuard : tooDeep? limit depth v = if limit < depth then some depth else members)
    (hMembers : depth ≤ limit →
      members = if limit < depth + height v then some (limit + 1) else none) :
    tooDeep? limit depth v =
      if limit < depth + height v then some (max depth (limit + 1)) else none := by
  rw [hGuard]
  by_cases hDepth : limit < depth
  · rw [if_pos hDepth, if_pos (by omega), max_eq_left (by omega)]
  · rw [if_neg hDepth, max_eq_right (by omega)]
    exact hMembers (by omega)

/-- A value that holds no others passes the limit by itself or not at all. -/
theorem tooDeep?_of_height_eq_zero {limit : Int} {v : Value} (hHeight : height v = 0)
    (hGuard : ∀ depth : Int, tooDeep? limit depth v = if limit < depth then some depth else none)
    (depth : Int) : tooDeep? limit depth v =
      if limit < depth + height v then some (max depth (limit + 1)) else none :=
  tooDeep?_of_members (hGuard depth) fun hDepth => by rw [hHeight, if_neg (by omega)]

/-- What the guard finds depends on the height alone. Members are looked at only where what holds
them lies within the limit, so that the first of them beyond it lies just beyond it. -/
theorem tooDeep?_eq_all (limit : Int) :
    (∀ v, ∀ depth : Int, tooDeep? limit depth v =
        if limit < depth + height v then some (max depth (limit + 1)) else none) ∧
      (∀ vs, ∀ depth : Int, depth ≤ limit → itemTooDeep? limit (depth + 1) vs =
        if limit < depth + itemsHeight vs then some (limit + 1) else none) ∧
      ∀ es, ∀ depth : Int, depth ≤ limit → entryTooDeep? limit (depth + 1) es =
        if limit < depth + entriesHeight es then some (limit + 1) else none := by
  apply Value.induction
  case null => exact tooDeep?_of_height_eq_zero rfl fun _ => rfl
  case boolean => exact fun b => tooDeep?_of_height_eq_zero rfl fun _ => rfl
  case integer => exact fun n => tooDeep?_of_height_eq_zero rfl fun _ => rfl
  case real => exact fun x => tooDeep?_of_height_eq_zero rfl fun _ => rfl
  case text => exact fun s => tooDeep?_of_height_eq_zero rfl fun _ => rfl
  case list => exact fun vs ih depth => tooDeep?_of_members rfl (ih depth)
  case object => exact fun es ih depth => tooDeep?_of_members rfl (ih depth)
  case itemsNil =>
    intro depth hDepth
    rw [itemTooDeep?, itemsHeight, if_neg (by omega)]
  case itemsCons =>
    intro v vs hv hvs depth hDepth
    rw [itemTooDeep?, hv, hvs depth hDepth, max_eq_right (by omega), or_passed, itemsHeight]
  case entriesNil =>
    intro depth hDepth
    rw [entryTooDeep?, entriesHeight, if_neg (by omega)]
  case entriesCons =>
    intro key v es hv hes depth hDepth
    rw [entryTooDeep?, hv, hes depth hDepth, max_eq_right (by omega), or_passed, entriesHeight]

/-- The guard measures the height of a value from the depth that the value lies at. -/
theorem tooDeep?_eq (limit depth : Int) (v : Value) : tooDeep? limit depth v =
    if limit < depth + height v then some (max depth (limit + 1)) else none :=
  (tooDeep?_eq_all limit).1 v depth

/-- The guard finds nothing exactly if the top of the value lies within the limit. -/
theorem tooDeep?_eq_none_iff {limit depth : Int} {v : Value} :
    tooDeep? limit depth v = none ↔ depth + height v ≤ limit := by
  rw [tooDeep?_eq]
  split_ifs with hHeight <;> simp <;> omega

/-- A value is refused exactly if its top lies beyond the limit, and the depth that is named is the
one just beyond the limit, or the depth of the value itself if already that one lies further. -/
theorem depthMessage_tooDeep? (limit depth : Int) (v : Value) :
    (tooDeep? limit depth v).map (fun found => depthMessage found limit) =
      if limit < depth + height v then
        some ("JSON nesting depth " ++ toString (max depth (limit + 1)) ++ " exceeds maximum " ++
          toString limit)
      else none := by
  rw [tooDeep?_eq]
  split_ifs with hHeight
  · rfl
  · rfl

end Wireframe.Value
