import Wireframe.Proofs.Page.Matching
import Wireframe.Proofs.Value.SameForm

/-! What a comparison does not see. Props between which there are no changes are written alike, up
to the order of their attributes, exactly if their values have one form. So a root that stays as it
is has the text that the new one would be given, as far as the forms of their values agree. -/
namespace Wireframe

namespace Attribute

/-- An attribute shows its name and its value. -/
theorem entryText_inj {props others : Props} (hProps : Readable props) (hOthers : Readable others)
    {entry other : String × Value} (hEntry : entry ∈ props) (hOther : other ∈ others)
    (hText : entryText entry = entryText other) : entry = other := by
  have hRead {props : Props} (h : Readable props) {entry : String × Value}
      (hEntry : entry ∈ props) : pieces 1 (entryText entry ++ []) = [pieceOf entry] :=
    pieces_append (h.whole _ (List.mem_map_of_mem hEntry)) 0 (Text.stopsAt_nil _)
  have hBoth := hRead hProps hEntry
  rw [hText, hRead hOthers hOther, List.singleton_inj] at hBoth
  exact (congrArg Piece.prop hBoth).symm

end Attribute

/-- Where both sides show a value under a key, the values have one form. -/
def Props.SameForm (old new : Props) : Prop :=
  ∀ entry ∈ Diff.visible old, ∀ w ∈ (Diff.visible new).get? entry.1, entry.2.sameForm w = true

instance (old new : Props) : Decidable (old.SameForm new) :=
  inferInstanceAs (Decidable (∀ _ ∈ _, _))

/-- The same props show, in whatever order. -/
def Props.Reordered (old new : Props) : Prop :=
  (Diff.visible old).Perm (Diff.visible new)

theorem Props.Keyed.nodup {props : Props} (h : props.Keyed) : props.Nodup :=
  (keysDistinct_iff.mp h.distinct).of_map _

namespace Page

open Attribute

/-- The same attributes are written exactly if the same props show. -/
theorem mem_writtenAttributes_iff_reordered {old new : Props} (hOld : old.Keyed) (hNew : new.Keyed)
    (hOldNames : ∀ entry ∈ old, isName entry.1.toList = true)
    (hNewNames : ∀ entry ∈ new, isName entry.1.toList = true) :
    (∀ text, text ∈ writtenAttributes old ↔ text ∈ writtenAttributes new) ↔ old.Reordered new := by
  have hReadable {shown : Props} (hKeyed : shown.Keyed)
      (hNames : ∀ entry ∈ shown, isName entry.1.toList = true) : Readable (Diff.visible shown) :=
    ⟨shows_visible shown, fun entry hEntry => hNames entry (List.mem_of_mem_filter hEntry),
      (Diff.keyed_visible hKeyed).values⟩
  have hOldReads := hReadable hOld hOldNames
  have hNewReads := hReadable hNew hNewNames
  rw [Props.Reordered, List.perm_ext_iff_of_nodup (Diff.keyed_visible hOld).nodup
    (Diff.keyed_visible hNew).nodup]
  simp only [writtenAttributes_eq]
  constructor
  · intro hTexts entry
    constructor
    · intro hEntry
      obtain ⟨other, hOther, hText⟩ :=
        List.mem_map.mp ((hTexts _).mp (List.mem_map_of_mem hEntry))
      exact entryText_inj hNewReads hOldReads hOther hEntry hText ▸ hOther
    · intro hEntry
      obtain ⟨other, hOther, hText⟩ :=
        List.mem_map.mp ((hTexts _).mpr (List.mem_map_of_mem hEntry))
      exact entryText_inj hOldReads hNewReads hOther hEntry hText ▸ hOther
  · intro hEntries text
    simp only [List.mem_map, hEntries]

end Page

namespace Diff

/-- Props between which there are no changes show the same exactly if their values have one form. -/
theorem reordered_iff {old new : Props} (hOld : old.Keyed) (hNew : new.Keyed)
    (h : propChanges old new = []) : old.Reordered new ↔ old.SameForm new := by
  have hOldShown := keyed_visible hOld
  have hNewShown := keyed_visible hNew
  obtain ⟨hSame, hKeys⟩ := (Value.same_object_iff hOldShown.distinct hNewShown.distinct).mp
    ((propChanges_eq_nil_iff hOld hNew).mp h)
  constructor
  · intro hPerm entry hMem w hw
    rw [Props.get?_of_mem hNewShown.distinct (hPerm.mem_iff.mp hMem)] at hw
    cases hw
    exact entry.2.sameForm_self
  · intro hForm
    -- Values that compare equal and have one form are the same value.
    have hValue {entry : String × Value} (hMem : entry ∈ visible old) : entry ∈ visible new := by
      obtain ⟨w, hw, hBoth⟩ := hSame entry hMem
      have hThere := (Props.get?_eq_some_iff hNewShown.distinct).mp hw
      have hEq : entry.2 = w :=
        Value.eq_of_same (hNewShown.values _ hThere) hBoth (hForm entry hMem w hw)
      rwa [← hEq] at hThere
    refine (List.perm_ext_iff_of_nodup hOldShown.nodup hNewShown.nodup).mpr fun entry =>
      ⟨hValue, fun hMem => ?_⟩
    obtain ⟨⟨key, v⟩, hOther, hKey⟩ := List.mem_map.mp (hKeys (List.mem_map_of_mem hMem))
    obtain rfl : key = entry.1 := hKey
    have hOnly := Props.get?_of_mem hNewShown.distinct (hValue hOther)
    rw [Props.get?_of_mem hNewShown.distinct hMem] at hOnly
    cases hOnly
    exact hOther

end Diff

mutual

/-- The components are of one kind, the relation holds of their props, and the same goes place by
place for the components below. -/
def Component.Alongside (r : Props → Props → Prop) : Component → Component → Prop
  | ⟨kind, props, children, _⟩, d =>
    kind = d.kind ∧ r props d.props ∧ Forest.Alongside r children d.children
termination_by structural c => c

def Forest.Alongside (r : Props → Props → Prop) : List Component → List Component → Prop
  | [], [] => True
  | c :: cs, d :: ds => c.Alongside r d ∧ Forest.Alongside r cs ds
  | _, _ => False
termination_by structural cs => cs

end

theorem Component.alongside_iff {r : Props → Props → Prop} {c d : Component} :
    c.Alongside r d ↔ c.kind = d.kind ∧ r c.props d.props ∧
      Forest.Alongside r c.children d.children := by
  cases c
  rfl

namespace Diff

/-- Forests of one shape show the same, up to the order of props, exactly if the values of their
props have one form. -/
theorem forest_reordered_iff {forest other : Forest} (hForest : Forest.Keyed forest)
    (hOther : Forest.Keyed other) (h : sameShapes forest other = true) :
    Forest.Alongside Props.Reordered forest other ↔
      Forest.Alongside Props.SameForm forest other := by
  induction forest using Forest.induction generalizing other with
  | nil =>
      cases other with
      | nil => exact Iff.rfl
      | cons d others => cases h
  | cons c rest hChildren hRest =>
      cases other with
      | nil => cases h
      | cons d others =>
          rw [sameShapes, Bool.and_eq_true, sameShape_iff] at h
          obtain ⟨⟨-, hSame, hBelow⟩, hLater⟩ := h
          have hc := hForest c (Forest.mem_walk_self c rest)
          have hd := hOther d (Forest.mem_walk_self d others)
          have hProps := reordered_iff hc hd ((propChanges_eq_nil_iff hc hd).mpr hSame)
          have hBelow := hChildren hForest.children hOther.children hBelow
          have hLater := hRest hForest.tail hOther.tail hLater
          rw [Forest.Alongside, Forest.Alongside, Component.alongside_iff, Component.alongside_iff,
            hProps, hBelow, hLater]

/-- A pair of roots yields no operation exactly when no prop changed and the shapes below agree. -/
theorem rootOperations_eq_nil_iff {old new : Component} :
    rootOperations old new = [] ↔ propChanges old.props new.props = [] ∧
      sameShapes old.children new.children = true := by
  simp only [rootOperations, List.append_eq_nil_iff, List.isEmpty_iff]
  split_ifs <;> simp_all

/-- A root that stays as it is shows the same as the new one, up to the order of props, exactly if
the values of their props have one form. -/
theorem root_reordered_iff {old new : Component} (hOld : Forest.Keyed [old])
    (hNew : Forest.Keyed [new]) (h : rootOperations old new = []) :
    old.Alongside Props.Reordered new ↔ old.Alongside Props.SameForm new := by
  obtain ⟨hChanges, hShapes⟩ := rootOperations_eq_nil_iff.mp h
  rw [Component.alongside_iff, Component.alongside_iff,
    reordered_iff (hOld old (Forest.mem_walk_self old [])) (hNew new (Forest.mem_walk_self new []))
      hChanges, forest_reordered_iff hOld.children hNew.children hShapes]

/-- What is recovered of components shows what they show. -/
theorem forest_reordered_recorded {forest : Forest} :
    ∀ (indent : Int) (other : Forest),
      Forest.Alongside Props.Reordered (Forest.recorded indent forest) other ↔
        Forest.Alongside Props.Reordered forest other := by
  induction forest using Forest.induction with
  | nil => exact fun _ _ => Iff.rfl
  | cons c rest hChildren hRest =>
      intro indent other
      cases other with
      | nil => exact Iff.rfl
      | cons d others =>
          rw [Forest.recorded, Forest.Alongside, Forest.Alongside, hRest, Page.recorded_eq,
            Component.alongside_iff, Component.alongside_iff, hChildren]
          simp only [Props.Reordered, Page.visible_visible]

/-- Recording a root only drops what is not shown, so it keeps the order of props out of the
comparison. -/
theorem root_reordered_recorded {c d : Component} (indent : Int) :
    (c.recorded indent).Alongside Props.Reordered d ↔ c.Alongside Props.Reordered d := by
  rw [Page.recorded_eq, Component.alongside_iff, Component.alongside_iff,
    forest_reordered_recorded]
  simp only [Props.Reordered, Page.visible_visible]

end Diff

namespace Page

/-- If there are no changes between props with attribute names as keys, the same attributes are
written for both exactly if their values have one form. Likewise a root that stays as it is shows
what the new one does, up to the order of props, exactly if the values of the props have one form at
every place. If the page is that of a plain plan, the root then has the text that is written for the
new one, up to the order of attributes. -/
theorem texts_of_unchanged {frame : Frame} (hFrame : frame.AngleFree) {plan : Plan}
    (hPlain : Forest.Plain plan.components) :
    (∀ old new : Props, old.Keyed → new.Keyed →
      (∀ entry ∈ old, Attribute.isName entry.1.toList = true) →
      (∀ entry ∈ new, Attribute.isName entry.1.toList = true) →
      Diff.propChanges old new = [] →
        ((∀ text, text ∈ writtenAttributes old ↔ text ∈ writtenAttributes new) ↔
          old.SameForm new)) ∧
      (∀ old new : Component, Forest.Keyed [old] → Forest.Keyed [new] →
        Diff.rootOperations old new = [] →
          (old.Alongside Props.Reordered new ↔ old.Alongside Props.SameForm new)) ∧
      ∀ old ∈ recover (render frame plan), ∀ new, Forest.Keyed [new] →
        Diff.rootOperations old new = [] → old.Alongside Props.SameForm new →
          ∃ c : Component, c.Alongside Props.Reordered new ∧
            old.source = some (c.emitted rootIndent) := by
  refine ⟨fun old new hOld hNew hOldNames hNewNames h => ?_,
    fun old new hOld hNew h => Diff.root_reordered_iff hOld hNew h, ?_⟩
  · rw [mem_writtenAttributes_iff_reordered hOld hNew hOldNames hNewNames]
    exact Diff.reordered_iff hOld hNew h
  · intro old hMem new hNew h hForm
    have hOld := (keyed_recover (render frame plan)).root hMem
    rw [recover_render hFrame hPlain, Diff.recorded_map] at hMem
    obtain ⟨c, -, rfl⟩ := List.mem_map.mp hMem
    have hReordered := (Diff.root_reordered_iff hOld hNew h).mpr hForm
    refine ⟨c, (Diff.root_reordered_recorded rootIndent).mp hReordered, ?_⟩
    rw [recorded_eq]

/-- A wide card with a table in it. -/
def wideCard : Component :=
  ⟨.card, [("title", .text "a > b"), ("wide", .boolean true)],
    [.leaf .table [("data", .object [("low", .integer 1), ("high", .list [.null])])]], none⟩

def settledPlan : Plan :=
  ⟨"default", [wideCard], []⟩

def settledCard : Component :=
  ⟨.card, [("wide", .boolean true), ("open", .boolean false), ("title", .text "a > b")],
    wideCard.children, none⟩

theorem texts_of_unchanged_settledCard :
    sampleFrame.AngleFree ∧ Forest.Plain settledPlan.components ∧ Forest.Keyed [settledCard] ∧
      ∃ old ∈ recover (render sampleFrame settledPlan),
        Diff.rootOperations old settledCard = [] ∧
        (∀ text, text ∈ writtenAttributes old.props ↔
          text ∈ writtenAttributes settledCard.props) ∧
        old.Alongside Props.Reordered settledCard ∧
        ∃ c : Component, c.Alongside Props.Reordered settledCard ∧
          old.source = some (c.emitted rootIndent) := by
  have hFrame : sampleFrame.AngleFree := by decide +kernel
  have hPlain : Forest.Plain settledPlan.components := by decide +kernel
  have hNew : Forest.Keyed [settledCard] := by decide +kernel
  have hMem : wideCard.recorded rootIndent ∈ recover (render sampleFrame settledPlan) := by
    rw [recover_render hFrame hPlain]
    exact List.mem_cons_self
  have hOld := (keyed_recover _).root hMem
  have hSettled : Diff.rootOperations (wideCard.recorded rootIndent) settledCard = [] :=
    Diff.rootOperations_eq_nil_iff.mpr
      ⟨List.isEmpty_iff.mp (by decide +kernel), by decide +kernel⟩
  have hForm : (wideCard.recorded rootIndent).Alongside Props.SameForm settledCard := by
    simp only [Component.alongside_iff, Component.recorded, wideCard, settledCard,
      Forest.recorded, Forest.Alongside, Component.leaf]
    decide +kernel
  obtain ⟨hTexts, hRoots, hPage⟩ := texts_of_unchanged hFrame hPlain
  refine ⟨hFrame, hPlain, hNew, _, hMem, hSettled, ?_, (hRoots _ _ hOld hNew hSettled).mpr hForm,
    hPage _ hMem _ hNew hSettled hForm⟩
  have hProps := Component.alongside_iff.mp hForm
  exact (hTexts _ _ (hOld _ (Forest.mem_walk_self _ [])) (hNew _ (Forest.mem_walk_self _ []))
    (by decide +kernel) (by decide +kernel) (List.isEmpty_iff.mp (by decide +kernel))).mpr
      hProps.2.1

/-- A plan with one card, which is wide as the value says. -/
def widePlanOf (wide : Value) : Plan :=
  ⟨"default", [.leaf .card [("title", .text "Users"), ("wide", wide)]], []⟩

/-- A truth value and the number it counts as are the same, but they are written differently. No
update is made where the one takes the place of the other, and the page keeps the old text. -/
theorem unseen_change :
    Forest.Plain (widePlanOf (.boolean true)).components ∧
      Forest.Plain (widePlanOf (.integer 1)).components ∧
      Diff.propChanges [("wide", .boolean true)] [("wide", .integer 1)] = [] ∧
      writtenAttributes [("wide", .boolean true)] = ["wide".toList] ∧
      writtenAttributes [("wide", .integer 1)] = ["wide=\x7b1\x7d".toList] ∧
      Diff.operations .combined (recover (render sampleFrame (widePlanOf (.boolean true))))
        (widePlanOf (.integer 1)) = [] ∧
      render sampleFrame (widePlanOf (.boolean true)) ≠
        render sampleFrame (widePlanOf (.integer 1)) := by
  refine ⟨by decide +kernel, by decide +kernel, List.isEmpty_iff.mp (by decide +kernel),
    by decide +kernel, by decide +kernel, List.isEmpty_iff.mp (by decide +kernel), ?_⟩
  decide +kernel

end Page
end Wireframe
