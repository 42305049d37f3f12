import Wireframe.Proofs.Page.TreeEdits
import Wireframe.Proofs.Value.Keyed

/-! Forests in which some props of the components of some kinds have got other values. The components
stay as they are nested, and a key that gets no value keeps the one that it has. -/
namespace Wireframe

namespace Props

/-- Some keys have got values. A key that was there has its old place, a new one stands once behind the
old entries, and the other entries are the same in the same order. -/
structure Retouched (values : String → Option Value) (old new : Props) : Prop where
  get?_eq : ∀ key, get? key new = (values key).or (get? key old)
  others : new.filter (fun entry => (values entry.1).isNone) =
    old.filter fun entry => (values entry.1).isNone
  places : ∃ added : List String, new.map Prod.fst = old.map Prod.fst ++ added ∧ added.Nodup ∧
    ∀ key ∈ added, key ∉ old.map Prod.fst

variable {values later : String → Option Value} {old middle new : Props}

theorem retouched_self (props : Props) : Retouched (fun _ => none) props props where
  get?_eq _ := rfl
  others := rfl
  places := ⟨[], (List.append_nil _).symm, .nil, List.forall_mem_nil _⟩

/-- Setting a key leaves the entries of all other keys as they are, in their order. -/
theorem filter_set (keep : String → Bool) {key : String} (h : keep key = false) (value : Value)
    (props : Props) :
    (set key value props).filter (fun entry => keep entry.1) =
      props.filter fun entry => keep entry.1 := by
  induction props with
  | nil => simp [set, h]
  | cons entry rest ih =>
      obtain ⟨k, v⟩ := entry
      rw [set]
      split
      · rename_i hKey
        rw [List.filter_cons_of_neg (by simp [hKey, h]), List.filter_cons_of_neg (by simp [hKey, h])]
      · rw [List.filter_cons, List.filter_cons, ih]

/-- A key that is there keeps its place when its value is set. -/
theorem map_fst_set_of_mem {key : String} (value : Value) {props : Props}
    (h : key ∈ props.map Prod.fst) : (set key value props).map Prod.fst = props.map Prod.fst := by
  induction props with
  | nil => cases h
  | cons entry rest ih =>
      obtain ⟨k, v⟩ := entry
      rw [set]
      split
      · rfl
      · rename_i hKey
        rw [List.map_cons, List.map_cons, ih ((List.mem_cons.mp h).resolve_left (Ne.symm hKey))]

/-- The step lemma of retouching: one key set is one key retouched. -/
theorem retouched_set (key : String) (value : Value) (props : Props) :
    Retouched (fun other => if other = key then some value else none) props
      (set key value props) where
  get?_eq other := by
    rw [get?_set]
    split <;> rfl
  others := filter_set (fun other => (if other = key then some value else none).isNone)
    (by simp) value props
  places := by
    by_cases hKey : key ∈ props.map Prod.fst
    · exact ⟨[], by rw [map_fst_set_of_mem value hKey, List.append_nil], .nil, List.forall_mem_nil _⟩
    · refine ⟨[key], by rw [set_of_not_mem value hKey, List.map_append]; rfl,
        List.nodup_singleton key, ?_⟩
      exact List.forall_mem_singleton.mpr hKey

/-- Of two values that a key gets, the later one counts. -/
theorem Retouched.trans (hFirst : Retouched values old middle) (hSecond : Retouched later middle new) :
    Retouched (fun key => (later key).or (values key)) old new where
  get?_eq key := by
    rw [hSecond.get?_eq, hFirst.get?_eq, Option.or_assoc]
  others := by
    have hBoth (props : Props) :
        props.filter (fun entry => ((later entry.1).or (values entry.1)).isNone) =
          (props.filter fun entry => (later entry.1).isNone).filter
            fun entry => (values entry.1).isNone := by
      rw [List.filter_filter]
      congr 1
      funext entry
      cases later entry.1 <;> simp
    rw [hBoth, hBoth, hSecond.others, List.filter_comm, hFirst.others, List.filter_comm]
  places := by
    obtain ⟨added, hMiddle, hNodup, hNew⟩ := hFirst.places
    obtain ⟨more, hLast, hNodupMore, hNewMore⟩ := hSecond.places
    rw [hMiddle] at hNewMore
    refine ⟨added ++ more, by rw [hLast, hMiddle, List.append_assoc], ?_, ?_⟩
    · refine List.nodup_append.mpr ⟨hNodup, hNodupMore, fun key hKey other hOther hSame => ?_⟩
      exact hNewMore other hOther (List.mem_append_right _ (hSame ▸ hKey))
    · refine List.forall_mem_append.mpr ⟨hNew, fun key hKey hOld => ?_⟩
      exact hNewMore key hKey (List.mem_append_left _ hOld)

end Props

/-- A value for a key of the components of a kind. -/
structure Setting where
  kind : Kind
  key : String
  value : Value

namespace Setting

/-- The value that a key of a kind gets from settings one after another. The last one counts. -/
def value? : List Setting → Kind → String → Option Value
  | [], _, _ => none
  | setting :: rest, kind, key =>
    (value? rest kind key).or
      (if setting.kind = kind ∧ key = setting.key then some setting.value else none)

def Apart (first second : Setting) : Prop :=
  (first.kind, first.key) ≠ (second.kind, second.key)

/-- The value that counts in the end comes from one of the settings. -/
theorem mem_of_value? {settings : List Setting} {kind : Kind} {key : String} {value : Value}
    (h : value? settings kind key = some value) : ⟨kind, key, value⟩ ∈ settings := by
  induction settings with
  | nil => cases h
  | cons setting rest ih =>
      rw [value?, Option.or_eq_some_iff] at h
      rcases h with hLater | ⟨-, hHere⟩
      · exact List.mem_cons_of_mem _ (ih hLater)
      · split at hHere
        · rename_i hSame
          obtain ⟨rfl, rfl⟩ := hSame
          cases hHere
          exact List.mem_cons_self
        · cases hHere

/-- Settings of different keys all count. -/
theorem value?_eq_some_iff {settings : List Setting} (hApart : settings.Pairwise Apart) {kind : Kind}
    {key : String} {value : Value} :
    value? settings kind key = some value ↔ ⟨kind, key, value⟩ ∈ settings := by
  refine ⟨mem_of_value?, fun hMem => ?_⟩
  induction settings with
  | nil => cases hMem
  | cons setting rest ih =>
      obtain ⟨hHere, hLater⟩ := List.pairwise_cons.mp hApart
      rw [value?]
      rcases List.mem_cons.mp hMem with rfl | hMem
      · have hNone : value? rest kind key = none := by
          refine Option.eq_none_iff_forall_ne_some.mpr fun other hOther => ?_
          exact hHere _ (mem_of_value? hOther) rfl
        simp [hNone]
      · rw [ih hLater hMem]
        rfl

end Setting

namespace Forest

variable {values later : Kind → String → Option Value} {old middle new : Forest}

/-- Keys of the components of some kinds have got values, the same for all components of a kind. The
kinds and the nesting are the same. -/
inductive Retouched (values : Kind → String → Option Value) : Forest → Forest → Prop
  | nil : Retouched values [] []
  | cons {c : Component} {props : Props} {children rest new : Forest} :
      c.props.Retouched (values c.kind) props → Retouched values c.children children →
        Retouched values rest new →
          Retouched values (c :: rest) (⟨c.kind, props, children, c.source⟩ :: new)

theorem retouched_self (forest : Forest) : Retouched (fun _ _ => none) forest forest := by
  induction forest using Forest.induction with
  | nil => exact .nil
  | cons c rest hChildren hRest =>
      obtain ⟨kind, props, children, source⟩ := c
      exact .cons (Props.retouched_self props) hChildren hRest

/-- Retouching composes. Where both give a value, the later one counts. -/
theorem Retouched.trans (hFirst : Retouched values old middle)
    (hSecond : Retouched later middle new) :
    Retouched (fun kind key => (later kind key).or (values kind key)) old new := by
  induction hFirst generalizing new with
  | nil =>
      cases hSecond
      exact .nil
  | cons hProps _ _ ihChildren ihRest =>
      cases hSecond with
      | cons hPropsLater hChildrenLater hRestLater =>
          exact .cons (hProps.trans hPropsLater) (ihChildren hChildrenLater) (ihRest hRestLater)

/-- Components keep their kinds when their props are retouched. -/
theorem Retouched.hasKind_eq (h : Retouched values old new) (kind : Kind) :
    hasKind kind new = hasKind kind old := by
  induction h with
  | nil => rfl
  | cons _ _ _ ihChildren ihRest => rw [hasKind_cons, hasKind_cons, ihChildren, ihRest]

/-- A prop set on all components of a kind retouches that key of that kind, at any depth. -/
theorem retouched_setAll (setting : Setting) (forest : Forest) :
    Retouched (fun kind key =>
        if setting.kind = kind ∧ key = setting.key then some setting.value else none) forest
      (setAll setting.kind setting.key setting.value forest) := by
  induction forest using Forest.induction with
  | nil => exact .nil
  | cons c rest hChildren hRest =>
      rw [setAll_cons]
      refine .cons ?_ hChildren hRest
      split
      · rename_i hKind
        simpa [hKind] using c.props.retouched_set setting.key setting.value
      · rename_i hKind
        simpa [Ne.symm hKind] using c.props.retouched_self

def retouch (settings : List Setting) (forest : Forest) : Forest :=
  settings.foldl (fun forest setting => setAll setting.kind setting.key setting.value forest) forest

theorem retouch_append (first last : List Setting) (forest : Forest) :
    retouch (first ++ last) forest = retouch last (retouch first forest) :=
  List.foldl_append

/-- The run lemma of retouching: settings one after another are retouched together, by the last
value for each key. -/
theorem retouched_retouch (settings : List Setting) (forest : Forest) :
    Retouched (Setting.value? settings) forest (retouch settings forest) := by
  induction settings generalizing forest with
  | nil => exact retouched_self forest
  | cons setting rest ih => exact (retouched_setAll setting forest).trans (ih _)

end Forest
end Wireframe
