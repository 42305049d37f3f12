import Wireframe.Plan.Check
import Wireframe.Proofs.Page.PlainForests

/-! Which plans the check lets pass. A plan passes exactly if its layout is not blank and each prop
of each of its components is no inline style and is not nested too deeply. -/
namespace Wireframe

/-- The check lets a prop pass. -/
structure IsAdmitted (entry : String × Value) : Prop where
  unstyled : entry.1 ∉ Plan.styleKeys
  shallow : Value.tooDeep? Value.propsDepthLimit 1 entry.2 = none

instance (entry : String × Value) : Decidable (IsAdmitted entry) :=
  decidable_of_iff (entry.1 ∉ Plan.styleKeys ∧
      Value.tooDeep? Value.propsDepthLimit 1 entry.2 = none)
    ⟨fun ⟨hUnstyled, hShallow⟩ => ⟨hUnstyled, hShallow⟩, fun h => ⟨h.unstyled, h.shallow⟩⟩

/-- The check lets all props of all components pass. -/
def Forest.Admitted (forest : Forest) : Prop :=
  ∀ c ∈ Forest.walk forest, ∀ entry ∈ c.props, IsAdmitted entry

instance (forest : Forest) : Decidable forest.Admitted :=
  inferInstanceAs (Decidable (∀ _ ∈ _, _))

/-- The check lets a plan pass. -/
structure Plan.Admitted (plan : Plan) : Prop where
  layout : Text.allBlank plan.layout.toList = false
  components : plan.components.Admitted

instance (plan : Plan) : Decidable plan.Admitted :=
  decidable_of_iff (Text.allBlank plan.layout.toList = false ∧ plan.components.Admitted)
    ⟨fun ⟨hLayout, hComponents⟩ => ⟨hLayout, hComponents⟩, fun h => ⟨h.layout, h.components⟩⟩

theorem Forest.admitted_cons {c : Component} {rest : Forest} :
    Admitted (c :: rest) ↔
      (∀ entry ∈ c.props, IsAdmitted entry) ∧ Admitted c.children ∧ Admitted rest := by
  simp only [Admitted, walk_cons, List.forall_mem_cons, List.forall_mem_append]

theorem Forest.admitted_append {first last : Forest} :
    Admitted (first ++ last) ↔ Admitted first ∧ Admitted last := by
  simp only [Admitted, walk_append, List.forall_mem_append]

namespace Value

/-- An object is not too deep when none of its values is. -/
theorem entryTooDeep?_eq_none {limit depth : Int} {entries : Props} :
    entryTooDeep? limit depth entries = none ↔
      ∀ entry ∈ entries, tooDeep? limit depth entry.2 = none := by
  induction entries with
  | nil => simp [entryTooDeep?]
  | cons entry rest ih => simp [entryTooDeep?, ih]

/-- A list is not too deep when none of its items is. -/
theorem itemTooDeep?_eq_none {limit depth : Int} {items : List Value} :
    itemTooDeep? limit depth items = none ↔ ∀ v ∈ items, tooDeep? limit depth v = none := by
  induction items with
  | nil => simp [itemTooDeep?]
  | cons v rest ih => simp [itemTooDeep?, ih]

end Value

namespace Plan

/-- The check looks the style keys up one by one, and misses none that stands in the props. -/
theorem unstyled_iff {props : Props} :
    (styleKeys.filter fun key => props.has key) = [] ↔ ∀ entry ∈ props, entry.1 ∉ styleKeys := by
  simp only [List.filter_eq_nil_iff, Props.has, Props.get?_isSome_iff, List.mem_map]
  constructor
  · intro h entry hEntry hKey
    exact h _ hKey ⟨entry, hEntry, rfl⟩
  · rintro h key hKey ⟨entry, hEntry, rfl⟩
    exact h entry hEntry hKey

/-- The props of a component raise no error exactly when every entry is admitted. -/
theorem propsErrors_eq_nil {path : String} {props : Props} :
    propsErrors path (.object props) = [] ↔ ∀ entry ∈ props, IsAdmitted entry := by
  cases props with
  | nil => simp [propsErrors, Value.isVacant]
  | cons entry rest =>
      have hDepth : Value.tooDeep? Value.propsDepthLimit 0 (.object (entry :: rest)) = none ↔
          ∀ e ∈ entry :: rest, Value.tooDeep? Value.propsDepthLimit 1 e.2 = none :=
        Value.entryTooDeep?_eq_none
      have hFilled : Value.isVacant (.object (entry :: rest)) = false := rfl
      rw [propsErrors, hFilled, if_neg (by decide), List.append_eq_nil_iff, List.map_eq_nil_iff,
        List.map_eq_nil_iff, Option.toList_eq_nil_iff, unstyled_iff, hDepth]
      constructor
      · rintro ⟨hUnstyled, hShallow⟩ e he
        exact ⟨hUnstyled e he, hShallow e he⟩
      · intro h
        exact ⟨fun e he => (h e he).unstyled, fun e he => (h e he).shallow⟩

/-- A component given as data is an object with a kind of the vocabulary and children in a list, so
only its props and its children can be at fault. -/
theorem componentErrors_toValue (path : String) (c : Component) :
    componentErrors path c.toValue = propsErrors path (.object c.props) ++
      listErrors (path ++ ".children") 0 (Forest.toValues c.children) := by
  obtain ⟨kind, props, children, source⟩ := c
  have hKind : kindErrors path [("type", .text kind.name), ("props", .object props),
      ("children", .list (Forest.toValues children))] = [] := by
    simp [kindErrors, Props.get?, isKindName, Kind.ofName?_name]
  rw [Component.toValue, componentErrors, hKind]
  simp [Props.get?, childrenErrors]

/-- Components break no rule exactly if all their props are admitted. -/
theorem listErrors_eq_nil {forest : Forest} :
    ∀ {path : String} {index : Nat},
      listErrors path index (Forest.toValues forest) = [] ↔ forest.Admitted := by
  induction forest using Forest.induction with
  | nil => simp [Forest.toValues, listErrors, Forest.Admitted]
  | cons c rest hChildren hRest =>
      intro path index
      rw [Forest.toValues, listErrors, componentErrors_toValue, List.append_eq_nil_iff,
        List.append_eq_nil_iff, propsErrors_eq_nil, hChildren, hRest, Forest.admitted_cons,
        and_assoc]

/-- A plan written as data can break a rule only by its layout or by a prop. -/
theorem errors_eq_nil {plan : Plan} : errors plan.toValue = [] ↔ plan.Admitted := by
  have hLayout : layoutErrors [("layout", .text plan.layout),
      ("components", .list (Forest.toValues plan.components)),
      ("modifications", .list (plan.modifications.map .text))] = [] ↔
        Text.allBlank plan.layout.toList = false := by
    simp [layoutErrors, Props.get?]
  rw [toValue, errors, List.append_eq_nil_iff, hLayout]
  simp only [Props.get?]
  constructor
  · rintro ⟨hBlank, hNone⟩
    exact ⟨hBlank, listErrors_eq_nil.mp hNone⟩
  · intro h
    exact ⟨h.layout, listErrors_eq_nil.mpr h.components⟩

/-- The check lets exactly the admitted plans pass. -/
theorem validate_eq_ok_iff {plan : Plan} : validate plan = .ok plan ↔ plan.Admitted := by
  rw [← errors_eq_nil, validate, check]
  cases errors plan.toValue with
  | nil => simp [Except.map]
  | cons error rest => simp [Except.map]

/-- A plan that is not admitted is refused. -/
theorem exists_error_of_not_admitted {plan : Plan} (h : ¬plan.Admitted) :
    ∃ error, validate plan = .error error := by
  rw [← errors_eq_nil] at h
  obtain ⟨error, rest, hErrors⟩ := List.exists_cons_of_ne_nil h
  exact ⟨error, by rw [validate, check, hErrors]; rfl⟩

end Plan
end Wireframe
