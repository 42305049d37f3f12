import Wireframe.Proofs.Instruction.QuotedTexts
import Wireframe.Proofs.Page.TreeEdits

/-! The forests that planning can reach. Each kind has props of one form and holds children of few
kinds, and every edit that a step makes keeps a forest of this form. -/
namespace Wireframe

/-- The entry for a caption that may be missing. -/
def captionProp (key : String) (caption : Option String) : Props :=
  (caption.map fun s => (key, Value.text s)).toList

/-- The props that planning gives to a component of a kind. -/
inductive DraftProps : Kind → Props → Prop where
  | button {variant label : String} (hVariant : IsCaption variant) (hLabel : IsCaption label) :
    DraftProps .button [("variant", .text variant), ("children", .text label)]
  | input {placeholder : String} {type label : Option String}
    (hPlaceholder : IsCaption placeholder) (hType : ∀ s ∈ type, IsCaption s)
    (hLabel : ∀ s ∈ label, IsCaption s) :
    DraftProps .input (("placeholder", .text placeholder) ::
      (captionProp "type" type ++ captionProp "label" label))
  | card {title : Option String} (hTitle : ∀ s ∈ title, IsCaption s) :
    DraftProps .card (captionProp "title" title)
  | navbar {title : String} (hTitle : IsCaption title) :
    DraftProps .navbar [("title", .text title)]
  | sidebar : DraftProps .sidebar [("collapsed", .boolean false)]
  | table {columns : List String} {rows : Props}
    (hColumns : ∀ column ∈ columns, Text.angleFree column.toList = true)
    (hRows : rows = [] ∨ rows = [("data", .list [])]) :
    DraftProps .table (("columns", .list (columns.map .text)) :: rows)
  | chart {type : String} {title : Option String} {points : Props} (hType : IsCaption type)
    (hTitle : ∀ s ∈ title, IsCaption s)
    (hPoints : points = [("data", .list [])] ∨ points = [("dataKey", .text "revenue")]) :
    DraftProps .chart (("type", .text type) :: (captionProp "title" title ++ points))
  | modal {title : String} (hTitle : IsCaption title) :
    DraftProps .modal [("isOpen", .boolean false), ("title", .text title)]

/-- The prop of a kind that a step can set, with the values that it can get. -/
inductive Settable : Kind → String → Value → Prop where
  | variant {s : String} (h : IsCaption s) : Settable .button "variant" (.text s)
  | buttonLabel {s : String} (h : IsCaption s) : Settable .button "children" (.text s)
  | placeholder {s : String} (h : IsCaption s) : Settable .input "placeholder" (.text s)
  | inputLabel {s : String} (h : IsCaption s) : Settable .input "label" (.text s)
  | cardTitle {s : String} (h : IsCaption s) : Settable .card "title" (.text s)
  | navbarTitle {s : String} (h : IsCaption s) : Settable .navbar "title" (.text s)
  | columns {names : List String} (h : ∀ name ∈ names, Text.angleFree name.toList = true) :
    Settable .table "columns" (.list (names.map .text))
  | chartType {s : String} (h : IsCaption s) : Settable .chart "type" (.text s)

/-- What a step may set leaves props in the form of their kind: a key is overwritten where it
stands, and a missing caption comes last, where the form has it. -/
theorem DraftProps.set {kind : Kind} {props : Props} {key : String} {value : Value}
    (h : DraftProps kind props) (hSet : Settable kind key value) :
    DraftProps kind (props.set key value) := by
  cases hSet with
  | variant hNew =>
      cases h with
      | button _ hLabel => exact .button hNew hLabel
  | buttonLabel hNew =>
      cases h with
      | button hVariant _ => exact .button hVariant hNew
  | placeholder hNew =>
      cases h with
      | input _ hType hLabel => exact .input hNew hType hLabel
  | @inputLabel s hNew =>
      have hSome : ∀ t ∈ some s, IsCaption t := fun t ht => Option.mem_some.mp ht ▸ hNew
      cases h with
      | @input placeholder type label hPlaceholder hType _ =>
          have hForm := DraftProps.input hPlaceholder hType hSome
          cases type <;> cases label <;> exact hForm
  | @cardTitle s hNew =>
      have hSome : ∀ t ∈ some s, IsCaption t := fun t ht => Option.mem_some.mp ht ▸ hNew
      cases h with
      | @card title _ =>
          have hForm := DraftProps.card hSome
          cases title <;> exact hForm
  | navbarTitle hNew =>
      cases h with
      | navbar _ => exact .navbar hNew
  | columns hNew =>
      cases h with
      | table _ hRows => exact .table hNew hRows
  | chartType hNew =>
      cases h with
      | chart _ hTitle hPoints => exact .chart hNew hTitle hPoints

/-- An entry of drafted props: an attribute name, and a value without objects and without `<`. -/
structure IsDraftEntry (entry : String × Value) : Prop where
  named : Attribute.isName entry.1.toList = true
  angleFree : entry.2.angleFree = true
  flat : entry.2.braces = 0
  keyed : entry.2.keyed = true

theorem isDraftEntry_text {key s : String} (hKey : Attribute.isName key.toList = true)
    (h : IsCaption s) : IsDraftEntry (key, .text s) :=
  ⟨hKey, h.2, rfl, rfl⟩

/-- A caption can be written as an attribute and read back. -/
theorem isDraftEntry_captionProp {key : String} {caption : Option String}
    (hKey : Attribute.isName key.toList = true) (h : ∀ s ∈ caption, IsCaption s) :
    ∀ entry ∈ captionProp key caption, IsDraftEntry entry := by
  cases caption with
  | none => exact fun _ hMem => absurd hMem List.not_mem_nil
  | some s => exact List.forall_mem_singleton.mpr (isDraftEntry_text hKey (h s rfl))

/-- Lists of texts have no braces and no repeated keys in them. -/
theorem Value.items_map_text {texts : List String}
    (h : ∀ s ∈ texts, Text.angleFree s.toList = true) :
    itemsAngleFree (texts.map .text) = true ∧ itemsBraces (texts.map .text) = 0 ∧
      itemsKeyed (texts.map .text) = true := by
  induction texts with
  | nil => exact ⟨rfl, rfl, rfl⟩
  | cons s rest ih =>
      obtain ⟨hHere, hRest⟩ := List.forall_mem_cons.mp h
      obtain ⟨hFree, hFlat, hKeyed⟩ := ih hRest
      simp [itemsAngleFree, itemsBraces, itemsKeyed, angleFree, braces, keyed, hHere, hFree, hFlat,
        hKeyed]

theorem Value.entriesBraces_eq_zero {props : Props} (h : ∀ entry ∈ props, entry.2.braces = 0) :
    entriesBraces props = 0 := by
  induction props with
  | nil => rfl
  | cons entry rest ih =>
      obtain ⟨hHere, hRest⟩ := List.forall_mem_cons.mp h
      rw [entriesBraces, hHere, ih hRest, Nat.max_self]

/-- A list of texts without `<`. -/
theorem isDraftEntry_texts {key : String} {texts : List String}
    (hKey : Attribute.isName key.toList = true)
    (h : ∀ s ∈ texts, Text.angleFree s.toList = true) :
    IsDraftEntry (key, .list (texts.map .text)) := by
  obtain ⟨hFree, hFlat, hKeyed⟩ := Value.items_map_text h
  exact ⟨hKey, hFree, hFlat, hKeyed⟩

namespace DraftProps

variable {kind : Kind} {props : Props} (h : DraftProps kind props)
include h

/-- Every prop of a drafted component can be written as an attribute and read back. -/
theorem isDraftEntry : ∀ entry ∈ props, IsDraftEntry entry := by
  cases h with
  | button hVariant hLabel =>
      exact List.forall_mem_cons.mpr ⟨isDraftEntry_text (by decide) hVariant,
        List.forall_mem_singleton.mpr (isDraftEntry_text (by decide) hLabel)⟩
  | input hPlaceholder hType hLabel =>
      exact List.forall_mem_cons.mpr ⟨isDraftEntry_text (by decide) hPlaceholder,
        List.forall_mem_append.mpr ⟨isDraftEntry_captionProp (by decide) hType,
          isDraftEntry_captionProp (by decide) hLabel⟩⟩
  | card hTitle => exact isDraftEntry_captionProp (by decide) hTitle
  | navbar hTitle => exact List.forall_mem_singleton.mpr (isDraftEntry_text (by decide) hTitle)
  | sidebar => exact List.forall_mem_singleton.mpr ⟨by decide, rfl, rfl, rfl⟩
  | table hColumns hRows =>
      refine List.forall_mem_cons.mpr ⟨isDraftEntry_texts (by decide) hColumns, ?_⟩
      rcases hRows with rfl | rfl
      · exact fun _ hMem => absurd hMem List.not_mem_nil
      · exact List.forall_mem_singleton.mpr ⟨by decide, rfl, rfl, rfl⟩
  | chart hType hTitle hPoints =>
      refine List.forall_mem_cons.mpr ⟨isDraftEntry_text (by decide) hType,
        List.forall_mem_append.mpr ⟨isDraftEntry_captionProp (by decide) hTitle, ?_⟩⟩
      rcases hPoints with rfl | rfl
      · exact List.forall_mem_singleton.mpr ⟨by decide, rfl, rfl, rfl⟩
      · exact List.forall_mem_singleton.mpr ⟨by decide, rfl, rfl, rfl⟩
  | modal hTitle =>
      exact List.forall_mem_cons.mpr ⟨⟨by decide, rfl, rfl, rfl⟩,
        List.forall_mem_singleton.mpr (isDraftEntry_text (by decide) hTitle)⟩

/-- The keys of drafted props are fixed by the kind, and differ. -/
theorem distinct : props.keysDistinct = true := by
  rw [Props.keysDistinct_iff]
  cases h with
  | @input placeholder type label _ _ _ => cases type <;> cases label <;> simp [captionProp]
  | @card title _ => cases title <;> simp [captionProp]
  | @chart type title points _ _ hPoints =>
      rcases hPoints with rfl | rfl <;> cases title <;> simp [captionProp]
  | table _ hRows => rcases hRows with rfl | rfl <;> simp
  | _ => simp

theorem clean : props.Clean where
  distinct := h.distinct
  keyed entry hEntry := (h.isDraftEntry entry hEntry).keyed
  named entry hEntry := (h.isDraftEntry entry hEntry).named
  angleFree entry hEntry := (h.isDraftEntry entry hEntry).angleFree

/-- Drafted props hold no objects, so they are never too deep for the reader. -/
theorem shallow : props.Shallow := by
  have hFlat : ∀ entry ∈ props, entry.2.braces = 0 := fun entry hEntry =>
    (h.isDraftEntry entry hEntry).flat
  rw [Props.Shallow, Value.entriesBraces_eq_zero hFlat]
  decide

end DraftProps

/-- The kinds of children that planning puts into a component of a kind, or among the roots. -/
def mayHold : Option Kind → Kind → Bool
  | none, child => child ≠ .input
  | some .card, child => child = .button || child = .input || child = .table
  | some .modal, child => child = .card
  | some .sidebar, child => child = .button
  | some .navbar, child => child = .button
  | some _, _ => false

/-- The most levels that a drafted component of a kind has, itself included. -/
def Kind.levels : Kind → Nat
  | .modal => 3
  | .card | .sidebar | .navbar => 2
  | _ => 1

/-- No forest below a component, or among the roots, has as many levels. -/
def levelBound : Option Kind → Nat
  | none => 4
  | some kind => kind.levels

/-- A child takes fewer levels than its parent. This bounds the height of a drafted forest. -/
theorem levels_of_mayHold {parent : Option Kind} {child : Kind} (h : mayHold parent child = true) :
    child.levels < levelBound parent := by
  revert h
  rcases parent with _ | parent
  · cases child <;> decide
  · cases parent <;> cases child <;> decide

mutual

/-- The levels of a component: its own, and those below it. -/
def Component.height : Component → Nat
  | ⟨_, _, children, _⟩ => Forest.height children + 1
termination_by structural c => c

/-- The levels of a forest. -/
def Forest.height : List Component → Nat
  | [] => 0
  | c :: rest => max c.height (Forest.height rest)
termination_by structural forest => forest

end

namespace Forest

/-- The forest can be below a component of a kind, or form the roots of a plan. -/
inductive Drafted : Option Kind → Forest → Prop where
  | nil {parent : Option Kind} : Drafted parent []
  | cons {parent : Option Kind} {c : Component} {rest : Forest} (hKind : mayHold parent c.kind = true)
    (hProps : DraftProps c.kind c.props) (hChildren : Drafted (some c.kind) c.children)
    (hRest : Drafted parent rest) : Drafted parent (c :: rest)

end Forest

/-- The component has the form that planning gives to its kind. -/
structure Component.Drafted (c : Component) : Prop where
  props : DraftProps c.kind c.props
  children : Forest.Drafted (some c.kind) c.children

/-- A kind with a single level holds nothing. -/
theorem Component.Drafted.childless {c : Component} (h : c.Drafted) (hLevels : c.kind.levels = 1) :
    c.children = [] := by
  cases hList : c.children with
  | nil => rfl
  | cons d rest =>
      have hChildren := h.children
      rw [hList] at hChildren
      obtain _ | ⟨hKind, -, -, -⟩ := hChildren
      have hLess := levels_of_mayHold hKind
      have hPos : 0 < d.kind.levels := by cases d.kind <;> decide
      rw [show levelBound (some c.kind) = c.kind.levels from rfl, hLevels] at hLess
      omega

namespace Forest

variable {parent : Option Kind} {forest : Forest}

/-- A drafted component in front of a drafted forest, when its kind may stand there. -/
theorem Drafted.before {c : Component} (h : c.Drafted) (hKind : mayHold parent c.kind = true)
    (hRest : Drafted parent forest) : Drafted parent (c :: forest) :=
  .cons hKind h.props h.children hRest

theorem Drafted.root {c : Component} (h : c.Drafted) (hKind : mayHold parent c.kind = true) :
    Drafted parent [c] :=
  .before h hKind .nil

/-- A forest is drafted when its roots are, each where it may stand. -/
theorem drafted_of_forall (h : ∀ c ∈ forest, mayHold parent c.kind = true ∧ c.Drafted) :
    Drafted parent forest := by
  induction forest with
  | nil => exact .nil
  | cons c rest ih =>
      obtain ⟨⟨hKind, hHere⟩, hRest⟩ := List.forall_mem_cons.mp h
      exact .before hHere hKind (ih hRest)

/-- Drafted forests are drafted together, and separately. -/
theorem drafted_append {first last : Forest} :
    Drafted parent (first ++ last) ↔ Drafted parent first ∧ Drafted parent last := by
  induction first with
  | nil => exact ⟨fun h => ⟨.nil, h⟩, fun h => h.2⟩
  | cons c rest ih =>
      constructor
      · rintro (_ | ⟨hKind, hProps, hChildren, hRest⟩)
        exact ⟨.cons hKind hProps hChildren (ih.mp hRest).1, (ih.mp hRest).2⟩
      · rintro ⟨_ | ⟨hKind, hProps, hChildren, hRest⟩, hLast⟩
        exact .cons hKind hProps hChildren (ih.mpr ⟨hRest, hLast⟩)

/-- Every component of the forest has the form of its kind. -/
theorem Drafted.of_mem_walk (h : Drafted parent forest) :
    ∀ c ∈ walk forest, c.Drafted := by
  induction h with
  | nil => exact fun _ hMem => absurd hMem List.not_mem_nil
  | cons _ hProps hBelow _ hChildren hRest =>
      intro d hd
      rw [walk_cons, List.mem_cons, List.mem_append] at hd
      rcases hd with rfl | hd | hd
      · exact ⟨hProps, hBelow⟩
      · exact hChildren d hd
      · exact hRest d hd

theorem Drafted.of_mem (h : Drafted parent forest) :
    ∀ c ∈ forest, mayHold parent c.kind = true ∧ c.Drafted := by
  intro c hc
  obtain ⟨first, last, rfl⟩ := List.append_of_mem hc
  obtain _ | ⟨hKind, hProps, hChildren, -⟩ := (drafted_append.mp h).2
  exact ⟨hKind, hProps, hChildren⟩

/-- Taking out the first of a kind, by induction along the search. -/
theorem Drafted.dropFirst? {kind : Kind} :
    ∀ {parent : Option Kind} {edited : Forest}, Drafted parent forest →
      Forest.dropFirst? kind forest = some edited → Drafted parent edited := by
  induction forest using Forest.induction with
  | nil =>
      intro parent edited _ hDrop
      cases hDrop
  | cons c rest hBelow hLater =>
      rintro parent edited (_ | ⟨hKind, hProps, hChildren, hRest⟩) hDrop
      rw [dropFirst?_cons] at hDrop
      split at hDrop
      · cases hDrop
        exact hRest
      · split at hDrop
        · rename_i children hFound
          cases hDrop
          exact .cons hKind hProps (hBelow hChildren hFound) hRest
        · obtain ⟨others, hFound, rfl⟩ := Option.map_eq_some_iff.mp hDrop
          exact .cons hKind hProps hChildren (hLater hRest hFound)

/-- Changing the first of a kind, if the change keeps kind and form; the kind matters, for the
parent holds only some kinds. -/
theorem Drafted.updateFirst? {kind : Kind} {change : Component → Component}
    (hChange : ∀ c : Component, c.kind = kind → c.Drafted →
      (change c).kind = kind ∧ (change c).Drafted) :
    ∀ {parent : Option Kind} {edited : Forest}, Drafted parent forest →
      Forest.updateFirst? kind change forest = some edited → Drafted parent edited := by
  induction forest using Forest.induction with
  | nil =>
      intro parent edited _ hUpdate
      cases hUpdate
  | cons c rest hBelow hLater =>
      rintro parent edited (_ | ⟨hKind, hProps, hChildren, hRest⟩) hUpdate
      rw [updateFirst?_cons] at hUpdate
      split at hUpdate
      · rename_i hHere
        cases hUpdate
        obtain ⟨hNewKind, hNew⟩ := hChange c hHere ⟨hProps, hChildren⟩
        exact .cons (by rw [hNewKind, ← hHere]; exact hKind) hNew.props hNew.children hRest
      · split at hUpdate
        · rename_i children hFound
          cases hUpdate
          exact .cons hKind hProps (hBelow hChildren hFound) hRest
        · obtain ⟨others, hFound, rfl⟩ := Option.map_eq_some_iff.mp hUpdate
          exact .cons hKind hProps hChildren (hLater hRest hFound)

/-- Taking out all components of a kind, at every depth. -/
theorem Drafted.dropAll (kind : Kind) :
    ∀ {parent : Option Kind}, Drafted parent forest →
      Drafted parent (Forest.dropAll kind forest).1 := by
  induction forest using Forest.induction with
  | nil => exact fun _ => .nil
  | cons c rest hBelow hLater =>
      rintro parent (_ | ⟨hKind, hProps, hChildren, hRest⟩)
      rw [dropAll_cons]
      split
      · exact hLater hRest
      · exact .cons hKind hProps (hBelow hChildren) (hLater hRest)

/-- Setting a prop on all components of a kind, at every depth. -/
theorem Drafted.setAll {kind : Kind} {key : String} {value : Value}
    (hSet : Settable kind key value) :
    ∀ {parent : Option Kind}, Drafted parent forest →
      Drafted parent (Forest.setAll kind key value forest) := by
  induction forest using Forest.induction with
  | nil => exact fun _ => .nil
  | cons c rest hBelow hLater =>
      rintro parent (_ | ⟨hKind, hProps, hChildren, hRest⟩)
      rw [setAll_cons]
      refine .cons hKind ?_ (hBelow hChildren) (hLater hRest)
      dsimp only
      split
      · rename_i hHere
        exact hProps.set (hHere ▸ hSet)
      · exact hProps

theorem height_cons (c : Component) (rest : Forest) :
    height (c :: rest) = max (height c.children + 1) (height rest) := by
  cases c
  rfl

/-- The height is bounded by what the parent may hold. -/
theorem Drafted.height_lt (h : Drafted parent forest) : height forest < levelBound parent := by
  induction h with
  | nil => rename_i parent; rcases parent with _ | parent <;> [decide; (cases parent <;> decide)]
  | @cons parent c rest hKind _ _ _ hBelow hLater =>
      have hLevels := levels_of_mayHold hKind
      have hBound : levelBound (some c.kind) = c.kind.levels := rfl
      rw [height_cons]
      omega

/-- All that is below a component of a kind is of kinds with fewer levels. -/
theorem Drafted.levels_lt (h : Drafted parent forest) :
    ∀ c ∈ walk forest, c.kind.levels < levelBound parent := by
  induction h with
  | nil => exact fun _ hMem => absurd hMem List.not_mem_nil
  | @cons parent c rest hKind _ _ _ hBelow hLater =>
      intro d hd
      have hLevels := levels_of_mayHold hKind
      rw [walk_cons, List.mem_cons, List.mem_append] at hd
      rcases hd with rfl | hd | hd
      · exact hLevels
      · exact (hBelow d hd).trans hLevels
      · exact hLater d hd

/-- No kind is met again below itself, since the levels fall on the way down. -/
theorem Drafted.unnested (h : Drafted parent forest) :
    ∀ c ∈ walk forest, ∀ d ∈ walk c.children, d.kind ≠ c.kind := by
  intro c hc d hd hKind
  have hLevels := (h.of_mem_walk c hc).children.levels_lt d hd
  rw [hKind] at hLevels
  exact Nat.lt_irrefl _ hLevels

/-- Drafted forests are plain: the reader gets them back from the page written for them. -/
theorem Drafted.plain (h : Drafted parent forest) : Plain forest where
  clean c hc := (h.of_mem_walk c hc).props.clean
  shallow c hc := (h.of_mem_walk c hc).props.shallow
  unnested := h.unnested

end Forest

end Wireframe
