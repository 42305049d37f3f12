import Wireframe.Proofs.Page.RootTexts
import Wireframe.Proofs.Plan.Drafts

/-! Pairs of components in planned forests. A root that is taken for another one has the same text to
identify it, and the changes between their props make the one into the other. Forests of the same
shape have the same text. -/
namespace Wireframe

open Diff

/-- The one prop of a root of a kind that can identify it. -/
def Kind.captionKey : Kind → String
  | .button => "children"
  | _ => "title"

theorem sameItems_texts (texts others : List String) :
    Value.sameItems (texts.map .text) (others.map .text) = decide (texts = others) := by
  induction texts generalizing others with
  | nil => cases others <;> simp [Value.sameItems]
  | cons s rest ih => cases others <;> simp [Value.sameItems, Value.same, ih, Bool.beq_eq_decide_eq]

namespace DraftProps

section

variable {kind : Kind} {old new : Props} (hOld : DraftProps kind old) (hNew : DraftProps kind new)
include hOld hNew

/-- Props of one kind that are the same show in the same way, since planning puts them in one
order. -/
theorem visible_eq_of_same
    (h : Value.same (.object (visible old)) (.object (visible new)) = true) :
    visible old = visible new := by
  cases hOld with
  | button =>
      cases hNew
      simp_all [visible, Value.isFalse, Value.same, Value.sameEntries, Props.get?]
  | @input _ type label =>
      cases hNew with
      | @input _ type' label' =>
          cases type <;> cases type' <;> cases label <;> cases label' <;>
            simp_all [captionProp, visible, Value.isFalse, Value.same, Value.sameEntries,
              Props.get?]
  | @card title =>
      cases hNew with
      | @card title' =>
          cases title <;> cases title' <;>
            simp_all [captionProp, visible, Value.isFalse, Value.same, Value.sameEntries,
              Props.get?]
  | navbar =>
      cases hNew
      simp_all [visible, Value.isFalse, Value.same, Value.sameEntries, Props.get?]
  | sidebar =>
      cases hNew
      rfl
  | table _ hRows =>
      cases hNew with
      | table _ hRows' =>
          rcases hRows with rfl | rfl <;> rcases hRows' with rfl | rfl <;>
            simp_all [visible, Value.isFalse, Value.same, Value.sameEntries, Props.get?,
              sameItems_texts]
  | @chart _ title _ _ _ hPoints =>
      cases hNew with
      | @chart _ title' _ _ _ hPoints' =>
          cases title <;> cases title' <;> rcases hPoints with rfl | rfl <;>
            rcases hPoints' with rfl | rfl <;>
              simp_all [captionProp, visible, Value.isFalse, Value.same, Value.sameEntries,
                Props.get?]
  | modal =>
      cases hNew
      simp_all [visible, Value.isFalse, Value.same, Value.sameEntries, Props.get?]

end

/-- A caption that is there is the text of its key, and one that is missing leaves the key without a
text. -/
theorem text?_captionProp {key : String} {caption : Option String}
    (h : ∀ s ∈ caption, IsCaption s) : (captionProp key caption).text? key = caption := by
  cases caption with
  | none => rfl
  | some s => simp [captionProp, Props.text?, Props.get?, (h s rfl).1]

/-- The title of a chart is found behind its type, and its data is not taken for it. -/
theorem text?_chart {type : String} {title : Option String} {points : Props}
    (hTitle : ∀ s ∈ title, IsCaption s)
    (hPoints : points = [("data", .list [])] ∨ points = [("dataKey", .text "revenue")]) :
    Props.text? "title" (("type", .text type) :: (captionProp "title" title ++ points)) =
      title := by
  cases title with
  | none => rcases hPoints with rfl | rfl <;> simp [captionProp, Props.text?, Props.get?]
  | some s => simp [captionProp, Props.text?, Props.get?, (hTitle s rfl).1]

/-- No other prop identifies a root. -/
theorem identity_eq {kind : Kind} {props : Props} (h : DraftProps kind props)
    (hRoot : mayHold none kind = true) :
    identity (.leaf kind props) =
      ((props.text? kind.captionKey).map fun text => (kind.captionKey, text)).toList := by
  simp only [identity, identityKeys, Component.leaf, List.filterMap_cons, List.filterMap_nil]
  cases h with
  | button hVariant hLabel => simp [Kind.captionKey, Props.text?, Props.get?, hLabel.1]
  | input => cases hRoot
  | @card title hTitle =>
      cases title with
      | none => simp [captionProp, Props.text?, Props.get?, Kind.captionKey]
      | some s => simp [captionProp, Props.text?, Props.get?, Kind.captionKey, (hTitle s rfl).1]
  | navbar hTitle => simp [Props.text?, Props.get?, Kind.captionKey, hTitle.1]
  | sidebar => simp [Props.text?, Props.get?, Kind.captionKey]
  | table _ hRows => rcases hRows with rfl | rfl <;> simp [Props.text?, Props.get?, Kind.captionKey]
  | @chart _ title _ _ hTitle hPoints =>
      cases title with
      | none =>
          rcases hPoints with rfl | rfl <;>
            simp [captionProp, Props.text?, Props.get?, Kind.captionKey]
      | some s =>
          rcases hPoints with rfl | rfl <;>
            simp [captionProp, Props.text?, Props.get?, Kind.captionKey, (hTitle s rfl).1]
  | modal hTitle => simp [Props.text?, Props.get?, Kind.captionKey, hTitle.1]

section

variable {kind : Kind} {old new : Props} (hOld : DraftProps kind old) (hNew : DraftProps kind new)
  (hText : old.text? (kind.captionKey) = new.text? (kind.captionKey))
include hOld hNew hText

/-- What can hold others shows nothing but the text that identifies it. -/
theorem visible_eq_of_text? (hLevels : kind.levels ≠ 1) : visible old = visible new := by
  cases hOld with
  | card hTitle =>
      cases hNew with
      | card hTitle' =>
          obtain rfl := (text?_captionProp hTitle).symm.trans
            (hText.trans (text?_captionProp hTitle'))
          rfl
  | navbar hTitle =>
      cases hNew with
      | navbar hTitle' => simp_all [Kind.captionKey, Props.text?, Props.get?, hTitle.1, hTitle'.1]
  | sidebar =>
      cases hNew
      rfl
  | modal hTitle =>
      cases hNew with
      | modal hTitle' => simp_all [Kind.captionKey, Props.text?, Props.get?, hTitle.1, hTitle'.1]
  | _ => exact absurd rfl hLevels

/-- The changes between the props of two buttons, tables or charts make the one into the other. -/
theorem changed_eq (hRoot : mayHold none kind = true) (hLevels : kind.levels = 1) :
    (propChanges old new).foldl Change.applyTo (visible old) = visible new := by
  cases hOld with
  | @button variant label _ hLabel =>
      cases hNew with
      | @button variant' label' _ hLabel' =>
          obtain rfl : label = label' := by
            simpa [Kind.captionKey, Props.text?, Props.get?, hLabel.1, hLabel'.1] using hText
          by_cases h : variant = variant' <;>
            simp [propChanges, visible, Value.isFalse, Value.same, Props.get?, Change.applyTo,
              Props.set, h]
  | @table columns rows _ hRows =>
      cases hNew with
      | @table columns' rows' _ hRows' =>
          by_cases h : columns = columns' <;> rcases hRows with rfl | rfl <;>
            rcases hRows' with rfl | rfl <;>
              simp [propChanges, visible, Value.isFalse, Value.same, Props.get?, Change.applyTo,
                Props.set, Props.erase, sameItems_texts, Value.sameItems, h]
  | @chart type title _ _ hTitle hPoints =>
      cases hNew with
      | @chart type' title' _ _ hTitle' hPoints' =>
          obtain rfl : title = title' := by
            exact (text?_chart hTitle hPoints).symm.trans
              (hText.trans (text?_chart hTitle' hPoints'))
          by_cases h : type = type' <;> cases title <;> rcases hPoints with rfl | rfl <;>
            rcases hPoints' with rfl | rfl <;>
              simp [captionProp, propChanges, visible, Value.isFalse, Value.same, Props.get?,
                Change.applyTo, Props.set, Props.erase, Value.sameItems, h]
  | input => cases hRoot
  | _ => cases hLevels

end

end DraftProps

namespace Component.Drafted

variable {c d : Component} (hc : c.Drafted) (hd : d.Drafted) (hRoot : mayHold none c.kind = true)
include hc hd hRoot

/-- Roots that match have the same caption. -/
theorem text?_eq_of_alike (h : Alike c d) :
    c.props.text? c.kind.captionKey = d.props.text? c.kind.captionKey := by
  obtain ⟨hKind, hIdentity⟩ := h
  have hLeft : identity c = _ := hc.props.identity_eq hRoot
  have hRight : identity d = _ := hd.props.identity_eq (hKind ▸ hRoot)
  rw [hLeft, hRight, ← hKind] at hIdentity
  cases hText : c.props.text? c.kind.captionKey <;>
    cases hText' : d.props.text? c.kind.captionKey <;> simp_all

/-- A root that is taken for another one has the same identifying texts. -/
theorem alike_of_matchesRoot (h : matchesRoot c d = true) : Alike c d := by
  rw [matchesRoot, Bool.and_eq_true, beq_iff_eq] at h
  obtain ⟨hKind, hIdentity⟩ := h
  have hLeft : identity c = _ := hc.props.identity_eq hRoot
  have hRight : identity d = _ := hd.props.identity_eq (hKind.symm ▸ hRoot)
  refine ⟨hKind.symm, ?_⟩
  rw [hKind] at hRight
  rw [hLeft, hRight] at hIdentity ⊢
  cases hText : c.props.text? c.kind.captionKey <;>
    cases hText' : d.props.text? c.kind.captionKey <;> simp_all [sharesText]

end Component.Drafted

/-- Planned forests of the same shape have the same text. -/
theorem Forest.Drafted.texts_eq_of_sameShapes {forest : Forest} :
    ∀ {other : Forest} {parent parent' : Option Kind}, Drafted parent forest →
      Drafted parent' other → sameShapes forest other = true →
      ∀ indent, Page.Line.texts (Forest.lines indent forest) =
        Page.Line.texts (Forest.lines indent other) := by
  induction forest using Forest.induction with
  | nil =>
      intro other _ _ _ _ hSame indent
      cases other with
      | nil => rfl
      | cons d rest => cases hSame
  | cons c rest hChildren hRest =>
      intro other _ _ hForest hOther hSame indent
      cases other with
      | nil => cases hSame
      | cons d others =>
          obtain _ | ⟨-, hcProps, hcChildren, hcRest⟩ := hForest
          obtain _ | ⟨-, hdProps, hdChildren, hdRest⟩ := hOther
          simp only [sameShapes, sameShape_iff, Bool.and_eq_true] at hSame
          obtain ⟨⟨hKind, hProps, hBelow⟩, hLater⟩ := hSame
          have hVisible := hcProps.visible_eq_of_same (hKind ▸ hdProps) hProps
          have hInner := hChildren hcChildren hdChildren hBelow (indent + 2)
          have hRestTexts := hRest hcRest hdRest hLater indent
          simp only [lines_cons, Component.lines_eq, Page.Line.texts_append, Page.Line.texts_cons,
            Page.Line.text, Page.Mark.text_opening, Page.openingTag, Page.attributes_eq, hKind,
            hVisible, hInner, hRestTexts]

end Wireframe
