import Wireframe.Proofs.Plan.Admission
import Wireframe.Proofs.Value.Heights

/-! Plan data read as a plan. The rules and the shape of the fields are checked one after the other;
data that passes both gives a plan that keeps the rules and that its own data gives again. -/
namespace Wireframe

/-- What a plan has to meet: a layout with something to see in it, and components without inline
styles and with props of bounded height. -/
structure Plan.KeepsRules (plan : Plan) : Prop where
  layout : ∃ c ∈ plan.layout.toList, isBlank c = false
  unstyled : ∀ c ∈ Forest.walk plan.components, ∀ key ∈ ["style", "styles"],
    key ∉ c.props.map Prod.fst
  shallow : ∀ c ∈ Forest.walk plan.components, Value.height (.object c.props) ≤ 20

/-- The guard on the depth of each prop bounds the height of the object that holds them. -/
theorem height_object_le_iff {props : Props} :
    (∀ entry ∈ props, Value.tooDeep? Value.propsDepthLimit 1 entry.2 = none) ↔
      Value.height (.object props) ≤ 20 := by
  have hObject : Value.tooDeep? Value.propsDepthLimit 0 (.object props) =
      Value.entryTooDeep? Value.propsDepthLimit 1 props := rfl
  rw [← Value.entryTooDeep?_eq_none, ← hObject, Value.tooDeep?_eq_none_iff, Value.propsDepthLimit]
  omega

/-- What the check asks of an entry, said of all props at once: no style key, and at most twenty
levels. -/
theorem admitted_props_iff {props : Props} :
    (∀ entry ∈ props, IsAdmitted entry) ↔
      (∀ key ∈ ["style", "styles"], key ∉ props.map Prod.fst) ∧
        Value.height (.object props) ≤ 20 := by
  rw [← height_object_le_iff]
  constructor
  · intro h
    refine ⟨fun key hKey hMem => ?_, fun entry hEntry => (h entry hEntry).shallow⟩
    obtain ⟨entry, hEntry, rfl⟩ := List.mem_map.mp hMem
    exact (h entry hEntry).unstyled hKey
  · rintro ⟨hUnstyled, hShallow⟩ entry hEntry
    exact ⟨fun hKey => hUnstyled _ hKey (List.mem_map_of_mem hEntry), hShallow entry hEntry⟩

/-- The rules are what the check asks of a plan. -/
theorem Plan.keepsRules_iff_admitted {plan : Plan} : plan.KeepsRules ↔ plan.Admitted := by
  have hLayout : (∃ c ∈ plan.layout.toList, isBlank c = false) ↔
      Text.allBlank plan.layout.toList = false := by
    simp [Text.allBlank]
  constructor
  · intro h
    exact ⟨hLayout.mp h.layout,
      fun c hc => admitted_props_iff.mpr ⟨h.unstyled c hc, h.shallow c hc⟩⟩
  · intro h
    exact ⟨hLayout.mpr h.layout, fun c hc => (admitted_props_iff.mp (h.components c hc)).1,
      fun c hc => (admitted_props_iff.mp (h.components c hc)).2⟩

namespace Plan

/-- Props that break no rule and have the right shape are admitted. -/
theorem admitted_readProps {path : String} {entries : Props}
    (hErrors : propsErrors path ((entries.get? "props").getD .null) = [])
    (hShape : (readProps entries).1 = []) :
    ∀ entry ∈ (readProps entries).2, IsAdmitted entry := by
  unfold readProps at hShape ⊢
  cases hProps : entries.get? "props" with
  | none => exact fun entry hEntry => absurd hEntry List.not_mem_nil
  | some v =>
      rw [hProps] at hErrors hShape
      cases v with
      | object props => exact propsErrors_eq_nil.mp hErrors
      | _ => cases hShape

section

variable {key : String} (hKey : key ≠ "children") (v : Value) (es : Props)
include hKey

theorem childrenErrors_of_ne (path : String) :
    childrenErrors path ((key, v) :: es) = childrenErrors path es := by
  cases v <;> simp [childrenErrors, hKey]

theorem readChildren_of_ne : readChildren ((key, v) :: es) = readChildren es := by
  cases v <;> simp [readChildren, hKey]

end

/-- Plan data along the fields that are looked at: whatever holds of what is no object, of a
component once it holds of its children, of lists, and of entries whose first one is a list of
children, other children or another field, holds of all values, lists and entries. -/
theorem induction_data {component : Value → Prop} {list : List Value → Prop}
    {children : Props → Prop} (other : ∀ v, (∀ es, v ≠ .object es) → component v)
    (object : ∀ es, children es → component (.object es)) (listNil : list [])
    (listCons : ∀ v vs, component v → list vs → list (v :: vs)) (childrenNil : children [])
    (childrenList : ∀ vs es, list vs → children (("children", .list vs) :: es))
    (childrenOther : ∀ v es, (∀ vs, v ≠ .list vs) → children (("children", v) :: es))
    (childrenSkip : ∀ key v es, key ≠ "children" → children es → children ((key, v) :: es)) :
    (∀ v, component v) ∧ (∀ vs, list vs) ∧ ∀ es, children es := by
  have hOther {v : Value} (hObject : ∀ es, v ≠ .object es) (hList : ∀ vs, v ≠ .list vs) :
      component v ∧ ∀ vs, v = .list vs → list vs :=
    ⟨other v hObject, fun vs h => absurd h (hList vs)⟩
  -- A value may be read as a component or, under its key, as a list of children.
  have hAll : (∀ v, component v ∧ ∀ vs, v = .list vs → list vs) ∧ (∀ vs, list vs) ∧
      ∀ es, children es := by
    apply Value.induction
    case null => exact hOther nofun nofun
    case boolean => exact fun b => hOther nofun nofun
    case integer => exact fun n => hOther nofun nofun
    case real => exact fun x => hOther nofun nofun
    case text => exact fun s => hOther nofun nofun
    case list =>
      intro vs ih
      refine ⟨other _ nofun, ?_⟩
      rintro _ ⟨⟩
      exact ih
    case object => exact fun es ih => ⟨object es ih, nofun⟩
    case itemsNil => exact listNil
    case itemsCons => exact fun v vs hv hvs => listCons v vs hv.1 hvs
    case entriesNil => exact childrenNil
    case entriesCons =>
      intro key v es hv hes
      by_cases hKey : key = "children"
      · subst hKey
        by_cases hList : ∃ vs, v = .list vs
        · obtain ⟨vs, rfl⟩ := hList
          exact childrenList vs es (hv.2 vs rfl)
        · exact childrenOther v es fun vs h => hList ⟨vs, h⟩
      · exact childrenSkip key v es hKey hes
  exact ⟨fun v => (hAll.1 v).1, hAll.2⟩

theorem componentErrors_other {v : Value} (h : ∀ es, v ≠ .object es) (path : String) :
    componentErrors path v = [.rule .componentNotObject (some path)] := by
  cases v <;> first | exact absurd rfl (h _) | rfl

/-- Data that is no object gives one error and a component that nothing is read into. -/
theorem readComponent_other {v : Value} (h : ∀ es, v ≠ .object es) :
    readComponent v = ([⟨[], .notObject⟩], default) := by
  cases v <;> first | exact absurd rfl (h _) | rfl

theorem readChildren_other {v : Value} (h : ∀ vs, v ≠ .list vs) (es : Props) :
    readChildren (("children", v) :: es) = ([⟨["children"], .notList⟩], []) := by
  cases v <;> first | exact absurd rfl (h _) | rfl

/-- Children that are no list break a rule unless they are vacant. -/
theorem childrenErrors_other {v : Value} (h : ∀ vs, v ≠ .list vs) (path : String) (es : Props) :
    childrenErrors path (("children", v) :: es) =
      if v.isVacant then [] else [.rule .childrenNotList (some (path ++ ".children"))] := by
  cases v <;> first | exact absurd rfl (h _) | rfl

/-- What breaks no rule and has the right shape is read as components that are admitted. -/
theorem admitted_read :
    (∀ v path, componentErrors path v = [] → (readComponent v).1 = [] →
        Forest.Admitted [(readComponent v).2]) ∧
      (∀ vs path index start, listErrors path index vs = [] → (readList start vs).1 = [] →
        Forest.Admitted (readList start vs).2) ∧
      ∀ es path, childrenErrors path es = [] → (readChildren es).1 = [] →
        Forest.Admitted (readChildren es).2 := by
  have hNone : Forest.Admitted [] := fun c hc => absurd hc List.not_mem_nil
  apply induction_data
  case other =>
    intro v hObject path hErrors
    rw [componentErrors_other hObject] at hErrors
    cases hErrors
  case object =>
    intro es ih path hErrors hShape
    rw [componentErrors, List.append_eq_nil_iff, List.append_eq_nil_iff] at hErrors
    simp only [readComponent, List.append_eq_nil_iff] at hShape
    rw [Forest.admitted_cons]
    exact ⟨admitted_readProps hErrors.1.2 hShape.1.2, ih path hErrors.2 hShape.2, hNone⟩
  case listNil => exact fun _ _ _ _ _ => hNone
  case listCons =>
    intro v vs hv hvs path index start hErrors hShape
    rw [listErrors, List.append_eq_nil_iff] at hErrors
    simp only [readList, List.append_eq_nil_iff, List.map_eq_nil_iff] at hShape
    have hFirst := Forest.admitted_cons.mp (hv _ hErrors.1 hShape.1)
    exact Forest.admitted_cons.mpr
      ⟨hFirst.1, hFirst.2.1, hvs path _ _ hErrors.2 hShape.2⟩
  case childrenNil => exact fun _ _ _ => hNone
  case childrenList =>
    intro vs es ih path hErrors hShape
    simp only [childrenErrors, readChildren, if_true, List.map_eq_nil_iff] at hErrors hShape ⊢
    exact ih _ _ _ hErrors hShape
  case childrenOther =>
    intro v es hList path _ hShape
    rw [readChildren_other hList] at hShape
    cases hShape
  case childrenSkip =>
    intro key v es hKey ih path hErrors hShape
    rw [childrenErrors_of_ne hKey] at hErrors
    rw [readChildren_of_ne hKey] at hShape ⊢
    exact ih path hErrors hShape

/-- A layout that passes the check is there and not blank, and it is read as it stands. -/
theorem not_allBlank_readLayout {entries : Props} (h : layoutErrors entries = []) :
    Text.allBlank (readLayout entries).2.toList = false := by
  unfold layoutErrors at h
  unfold readLayout
  cases hLayout : entries.get? "layout" with
  | none => simp [hLayout] at h
  | some v => cases v <;> simp_all

/-- What passed the check and was read without errors is admitted, as reading keeps the props that
were checked. -/
theorem admitted_readComponents {entries : Props}
    (hErrors : (match Props.get? "components" entries with
      | some (.list components) => listErrors "components" 0 components
      | _ => [.rule .componentsNotList (some "components")]) = [])
    (hShape : (readComponents entries).1 = []) : (readComponents entries).2.Admitted := by
  unfold readComponents at hShape ⊢
  cases hComponents : entries.get? "components" with
  | none => exact fun c hc => absurd hc List.not_mem_nil
  | some v =>
      rw [hComponents] at hErrors hShape
      cases v with
      | list items =>
          exact admitted_read.2.1 items _ _ _ hErrors (List.map_eq_nil_iff.mp hShape)
      | _ => cases hShape

/-- Data that breaks no rule and has the right shape is read as a plan that keeps the rules. -/
theorem keepsRules_read {data : Value} (hErrors : errors data = []) (hShape : (read data).1 = []) :
    (read data).2.KeepsRules := by
  rw [keepsRules_iff_admitted]
  cases data with
  | object entries =>
      rw [errors, List.append_eq_nil_iff] at hErrors
      simp only [read, List.append_eq_nil_iff] at hShape
      exact ⟨not_allBlank_readLayout hErrors.1, admitted_readComponents hErrors.2 hShape.1.2⟩
  | _ => cases hShape

/-- No component was recovered from page source. -/
def Unrecorded (forest : Forest) : Prop :=
  ∀ c ∈ Forest.walk forest, c.source = none

theorem unrecorded_cons {c : Component} {rest : Forest} :
    Unrecorded (c :: rest) ↔ c.source = none ∧ Unrecorded c.children ∧ Unrecorded rest := by
  simp only [Unrecorded, Forest.walk_cons, List.forall_mem_cons, List.forall_mem_append]

theorem unrecorded_nil : Unrecorded [] :=
  fun _ hc => absurd hc List.not_mem_nil

/-- What is read from data was not recovered from page source. -/
theorem unrecorded_read :
    (∀ v, Unrecorded [(readComponent v).2]) ∧ (∀ vs start, Unrecorded (readList start vs).2) ∧
      ∀ es, Unrecorded (readChildren es).2 := by
  apply induction_data
  case other =>
    intro v hObject
    rw [readComponent_other hObject]
    exact unrecorded_cons.mpr ⟨rfl, unrecorded_nil, unrecorded_nil⟩
  case object => exact fun es ih => unrecorded_cons.mpr ⟨rfl, ih, unrecorded_nil⟩
  case listNil => exact fun _ => unrecorded_nil
  case listCons =>
    intro v vs hv hvs start
    obtain ⟨hSource, hBelow, -⟩ := unrecorded_cons.mp hv
    exact unrecorded_cons.mpr ⟨hSource, hBelow, hvs (start + 1)⟩
  case childrenNil => exact unrecorded_nil
  case childrenList =>
    intro vs es ih
    simp only [readChildren, if_true]
    exact ih 0
  case childrenOther =>
    intro v es hList
    rw [readChildren_other hList]
    exact unrecorded_nil
  case childrenSkip =>
    intro key v es hKey ih
    rw [readChildren_of_ne hKey]
    exact ih

/-- A component written as data is read back once its children are. -/
theorem readComponent_toValue {kind : Kind} {props : Props} {children : Forest}
    (h : readList 0 (Forest.toValues children) = ([], children)) :
    readComponent (Component.toValue ⟨kind, props, children, none⟩) =
      ([], ⟨kind, props, children, none⟩) := by
  have hChildren : readChildren [("type", .text kind.name), ("props", .object props),
      ("children", .list (Forest.toValues children))] = ([], children) := by
    simp [readChildren, h]
  simp [Component.toValue, readComponent, hChildren, readKind, readProps, Props.get?,
    Kind.ofName?_name]

/-- Components are read from their own data, all but the texts that they were recovered from. -/
theorem readList_toValues {forest : Forest} (h : Unrecorded forest) :
    ∀ start, readList start (Forest.toValues forest) = ([], forest) := by
  induction forest using Forest.induction with
  | nil => exact fun _ => rfl
  | cons c rest hChildren hRest =>
      intro start
      obtain ⟨hSource, hBelow, hLater⟩ := unrecorded_cons.mp h
      obtain ⟨kind, props, children, source⟩ := c
      obtain rfl : source = none := hSource
      rw [Forest.toValues, readList, readComponent_toValue (hChildren hBelow 0), hRest hLater]
      rfl

theorem readModifications_of_texts {entries : Props} {modifications : List String}
    (h : entries.get? "modifications" = some (.list (modifications.map .text))) :
    readModifications entries = ([], modifications) := by
  simp only [readModifications, h, List.zipIdx_map, List.filterMap_map]
  exact Prod.ext (List.filterMap_eq_nil_iff.mpr fun _ _ => rfl) List.filterMap_some

/-- A plan written as data is read back whole. Sources are not written, so it must have none. -/
theorem read_toValue {plan : Plan} (h : Unrecorded plan.components) :
    read plan.toValue = ([], plan) := by
  obtain ⟨layout, components, modifications⟩ := plan
  have hLog := @readModifications_of_texts
    [("layout", .text layout), ("components", .list (Forest.toValues components)),
      ("modifications", .list (modifications.map .text))] modifications (by simp [Props.get?])
  have hList : readList 0 (Forest.toValues components) = ([], components) := readList_toValues h 0
  simp [toValue, read, readLayout, readComponents, Props.get?, hList, hLog]

/-- Reading data records no sources. -/
theorem unrecorded_components_read (data : Value) : Unrecorded (read data).2.components := by
  cases data with
  | object entries =>
      change Unrecorded (readComponents entries).2
      unfold readComponents
      cases Props.get? "components" entries with
      | none => exact unrecorded_nil
      | some v =>
          cases v with
          | list items => exact unrecorded_read.2.1 items 0
          | _ => exact unrecorded_nil
  | _ => exact unrecorded_nil

/-- Data is read where neither a rule nor the shape of a field stands against it. -/
theorem parse_eq_ok_iff {data : Value} {plan : Plan} :
    parse data = .ok plan ↔ errors data = [] ∧ read data = ([], plan) := by
  unfold parse refusals
  cases errors data with
  | nil => rcases hRead : read data with ⟨_ | ⟨issue, rest⟩, found⟩ <;> simp
  | cons error rest => simp

/-- The error is a broken rule at a path or at one that goes on from it. -/
def IsBelow (path : String) (error : PlanError) : Prop :=
  ∃ fault rest, error = .rule fault (some (path ++ rest))

section

variable {path : String}

theorem isBelow_here (fault : PlanFault) : IsBelow path (.rule fault (some path)) :=
  ⟨fault, "", by rw [String.append_empty]⟩

theorem isBelow_of_append {rest : String} {error : PlanError} (h : IsBelow (path ++ rest) error) :
    IsBelow path error := by
  obtain ⟨fault, more, rfl⟩ := h
  exact ⟨fault, rest ++ more, by rw [String.append_assoc]⟩

/-- Every error of a check names the field it checks, by a path that goes on from that of the
component. -/
theorem isBelow_kindErrors {entries : Props} :
    ∀ error ∈ kindErrors path entries, IsBelow path error := by
  intro error h
  simp only [kindErrors] at h
  split_ifs at h
  · cases h
  · rw [List.mem_singleton.mp h]
    exact isBelow_here _

theorem isBelow_propsErrors {props : Value} :
    ∀ error ∈ propsErrors path props, IsBelow path error := by
  intro error h
  unfold propsErrors at h
  split_ifs at h
  · cases h
  · split at h
    · rcases List.mem_append.mp h with h | h
      · obtain ⟨key, -, rfl⟩ := List.mem_map.mp h
        exact isBelow_of_append (isBelow_of_append (isBelow_here _))
      · obtain ⟨depth, -, rfl⟩ := List.mem_map.mp h
        exact isBelow_of_append (isBelow_here _)
    · rw [List.mem_singleton.mp h]
      exact isBelow_of_append (isBelow_here _)

theorem isBelow_memberPath {index : Nat} {error : PlanError}
    (h : IsBelow (memberPath path index) error) : IsBelow path error :=
  isBelow_of_append (isBelow_of_append (isBelow_of_append h))

end

/-- Every error that is found in a component names a path that starts with the component's. -/
theorem isBelow_data :
    (∀ v path, ∀ error ∈ componentErrors path v, IsBelow path error) ∧
      (∀ vs path index, ∀ error ∈ listErrors path index vs, IsBelow path error) ∧
      ∀ es path, ∀ error ∈ childrenErrors path es, IsBelow path error := by
  apply induction_data
  case other =>
    intro v hObject path error h
    rw [componentErrors_other hObject] at h
    rw [List.mem_singleton.mp h]
    exact isBelow_here _
  case object =>
    intro es ih path error h
    rw [componentErrors, List.mem_append, List.mem_append] at h
    rcases h with (h | h) | h
    · exact isBelow_kindErrors error h
    · exact isBelow_propsErrors error h
    · exact ih path error h
  case listNil => exact fun _ _ error h => absurd h List.not_mem_nil
  case listCons =>
    intro v vs hv hvs path index error h
    rw [listErrors, List.mem_append] at h
    rcases h with h | h
    · exact isBelow_memberPath (hv _ error h)
    · exact hvs path _ error h
  case childrenNil => exact fun _ error h => absurd h List.not_mem_nil
  case childrenList =>
    intro vs es ih path error h
    simp only [childrenErrors, if_true] at h
    exact isBelow_of_append (ih _ _ error h)
  -- The fault of children that are no list is at the field, which goes on from the component.
  case childrenOther =>
    intro v es hList path error h
    rw [childrenErrors_other hList] at h
    split_ifs at h
    · cases h
    · rw [List.mem_singleton.mp h]
      exact isBelow_of_append (isBelow_here _)
  case childrenSkip =>
    intro key v es hKey ih path
    rw [childrenErrors_of_ne hKey]
    exact ih path

/-- The errors of the layout name the layout. -/
theorem isBelow_layoutErrors {entries : Props} :
    ∀ error ∈ layoutErrors entries, IsBelow "layout" error := by
  intro error h
  simp only [layoutErrors] at h
  split at h
  · split_ifs at h
    · rw [List.mem_singleton.mp h]
      exact isBelow_here _
    · cases h
  · rw [List.mem_singleton.mp h]
    exact isBelow_here _

/-- Data that is no object breaks that rule alone. In an object, every error names a path below its
layout or below its components. -/
theorem isBelow_errors {data : Value} : ∀ error ∈ errors data,
    error = .rule .notObject none ∨ IsBelow "layout" error ∨ IsBelow "components" error := by
  intro error h
  cases data with
  | object entries =>
      rw [errors, List.mem_append] at h
      refine .inr (h.imp (isBelow_layoutErrors error) fun h => ?_)
      split at h
      · exact isBelow_data.2.1 _ _ _ error h
      · rw [List.mem_singleton.mp h]
        exact isBelow_here _
  | _ => exact .inl (List.mem_singleton.mp h)

/-- The check breaks rules only; errors of shape come from reading. -/
theorem exists_rule_of_mem_errors {data : Value} {error : PlanError} (h : error ∈ errors data) :
    ∃ fault path, error = .rule fault path := by
  rcases isBelow_errors error h with hData | ⟨fault, rest, hPath⟩ | ⟨fault, rest, hPath⟩
  · exact ⟨_, _, hData⟩
  · exact ⟨_, _, hPath⟩
  · exact ⟨_, _, hPath⟩

/-- Data is refused for a rule first, and for the shape of a field only where no rule is broken. An
error that ends a run has the path of a rule behind its message, and says of a shape that the plan
is invalid. -/
theorem refusals_head {data : Value} {first : PlanError} {rest : List PlanError}
    (h : refusals data = first :: rest) :
    (check data = .error first ∧ first.path? = first.field? ∧
        first.message = first.summary ++ first.path?.elim "" fun path => " (at " ++ path ++ ")") ∨
      (check data = .ok () ∧ first.path? = none ∧
        first.message = "Invalid plan: " ++ first.summary) := by
  unfold refusals at h
  unfold check
  cases hErrors : errors data with
  | nil =>
      simp only [hErrors] at h
      obtain ⟨issue, issues, -, rfl, -⟩ := List.map_eq_cons_iff.mp h
      exact .inr ⟨rfl, rfl, rfl⟩
  | cons error others =>
      simp only [hErrors, List.cons.injEq] at h
      obtain ⟨rfl, -⟩ := h
      obtain ⟨fault, path, rfl⟩ := exists_rule_of_mem_errors (hErrors ▸ List.mem_cons_self)
      refine .inl ⟨rfl, rfl, ?_⟩
      cases path with
      | none => exact (String.append_empty).symm
      | some path => simp only [PlanError.message, PlanError.summary, PlanError.path?,
          Option.elim_some, String.append_assoc]

/-- The check of plan data is one gate. The list of all errors is empty exactly where a plan is
read, and the error that ends a run is the first of them; a plan that is read keeps the rules, is
valid and is read again from its own data. The valid plans are those that keep the rules, and all of
them can be read. -/
theorem parse_gate (data : Value) :
    (∀ plan, review data = .ok plan ↔ parse data = .ok plan) ∧
    (∀ found, review data = .error found → ∃ first rest,
      found = first :: rest ∧ parse data = .error first ∧
        ((check data = .error first ∧ first.path? = first.field? ∧
            first.message =
              first.summary ++ first.path?.elim "" fun path => " (at " ++ path ++ ")") ∨
          (check data = .ok () ∧ first.path? = none ∧
            first.message = "Invalid plan: " ++ first.summary))) ∧
    (∀ plan, parse data = .ok plan →
      plan.KeepsRules ∧ validate plan = .ok plan ∧ parse plan.toValue = .ok plan) ∧
    ∀ plan, (validate plan = .ok plan ↔ plan.KeepsRules) ∧
      (plan.KeepsRules → (∀ c ∈ Forest.walk plan.components, c.source = none) →
        parse plan.toValue = .ok plan) := by
  have hValid (plan : Plan) : validate plan = .ok plan ↔ plan.KeepsRules :=
    validate_eq_ok_iff.trans keepsRules_iff_admitted.symm
  have hAgain {plan : Plan} (hKeeps : plan.KeepsRules) (hSource : Unrecorded plan.components) :
      parse plan.toValue = .ok plan :=
    parse_eq_ok_iff.mpr
      ⟨errors_eq_nil.mpr (keepsRules_iff_admitted.mp hKeeps), read_toValue hSource⟩
  refine ⟨fun plan => ?_, fun found hFound => ?_, fun plan hParse => ?_,
    fun plan => ⟨hValid plan, hAgain⟩⟩
  · unfold review parse
    cases refusals data <;> simp
  · unfold review at hFound
    cases hRefusals : refusals data with
    | nil => simp [hRefusals] at hFound
    | cons first rest =>
        have hParse : parse data = .error first := by simp only [parse, hRefusals]
        simp only [hRefusals, Except.error.injEq] at hFound
        exact ⟨first, rest, hFound.symm, hParse, refusals_head hRefusals⟩
  · obtain ⟨hErrors, hRead⟩ := parse_eq_ok_iff.mp hParse
    have hPlan : (read data).2 = plan := by rw [hRead]
    have hKeeps : plan.KeepsRules := hPlan ▸ keepsRules_read hErrors (by rw [hRead])
    have hSource : Unrecorded plan.components := hPlan ▸ unrecorded_components_read data
    exact ⟨hKeeps, (hValid plan).mpr hKeeps, hAgain hKeeps hSource⟩

/-- Plan data without a log, with a field of no meaning and a child without props. -/
def sparseData : Value :=
  .object [("version", .integer 2), ("layout", .text "main"), ("components", .list
    [.object [("type", .text "Card"), ("props", .object [("title", .text "Users")]),
      ("children", .list [.object [("key", .null), ("type", .text "Button")]])]])]

def sparsePlan : Plan :=
  ⟨"main", [⟨.card, [("title", .text "Users")], [.leaf .button []], none⟩], []⟩

/-- Plan data that breaks two rules, with a log of the wrong shape besides. -/
def blankData : Value :=
  .object [("layout", .text " "), ("modifications", .null), ("components", .list
    [.object [("type", .text "Input"), ("props", .object [("style", .text "red")])]])]

/-- Plan data that breaks no rule, with props of the wrong shape: null counts as no props for the
rules only. -/
def propslessData : Value :=
  .object [("layout", .text "main"), ("components", .list
    [.object [("type", .text "Input"), ("props", .null)]])]

theorem parse_gate_sparseData :
    (parse sparseData = .ok sparsePlan ∧ sparsePlan.KeepsRules ∧
      validate sparsePlan = .ok sparsePlan ∧ parse sparsePlan.toValue = .ok sparsePlan) ∧
    (check blankData = .error (.rule (.missingLayout (.text " ")) (some "layout")) ∧
      parse blankData = .error (.rule (.missingLayout (.text " ")) (some "layout"))) ∧
    (check propslessData = .ok () ∧
      parse propslessData = .error (.shape ⟨["components", "0", "props"], .notObject⟩)) := by
  have hParse : parse sparseData = .ok sparsePlan := rfl
  have hBlank : review blankData = .error
      [.rule (.missingLayout (.text " ")) (some "layout"),
        .rule .inlineStyle (some "components[0].props.style")] := rfl
  have hPropsless : review propslessData = .error
      [.shape ⟨["components", "0", "props"], .notObject⟩] := rfl
  obtain ⟨_, _, ⟨⟩, hBlankParse, -⟩ := (parse_gate blankData).2.1 _ hBlank
  obtain ⟨_, _, ⟨⟩, hPropslessParse, -⟩ := (parse_gate propslessData).2.1 _ hPropsless
  exact ⟨⟨hParse, (parse_gate sparseData).2.2.1 _ hParse⟩, ⟨rfl, hBlankParse⟩,
    ⟨rfl, hPropslessParse⟩⟩

end Plan

end Wireframe
