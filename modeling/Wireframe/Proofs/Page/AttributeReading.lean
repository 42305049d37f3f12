import Wireframe.Proofs.Value.Keyed
import Wireframe.Proofs.Value.Writing
import Wireframe.Page.Diff
import Wireframe.Proofs.Page.AttributePieces

/-! Rendered attributes read back. A tag gives exactly the props that are not
`false`, in order, and every attribute is found with its own text. -/
namespace Wireframe

namespace Attribute

open Text Value

/-- Inside quotes plain characters change nothing, and braces there do not count. -/
theorem PassesBraces.inside {text : Text} (depth : Nat) (hText : isPlainRun text = true) :
    PassesBraces (.quoted '"') (.quoted '"') depth depth text := by
  induction text with
  | nil => exact .nil _ _
  | cons c text ih =>
      simp only [isPlainRun, List.all_cons, Bool.and_eq_true, bne_iff_ne] at hText ih
      have hFirst : PassesBraces (.quoted '"') (.quoted '"') depth depth [c] :=
        .single fun rest => by simp [bracedText?, hText.1.1, hText.1.2]
      exact hFirst.append (ih hText.2)

/-- Inside quotes an encoded character is gone over without leaving the quotes, even where it is a
quote or a backslash. -/
theorem PassesBraces.encodeChar (c : Char) (depth : Nat) :
    PassesBraces (.quoted '"') (.quoted '"') depth depth (encodeChar c) := by
  rcases encodeChar_cases c with ⟨hPlain, hc⟩ | ⟨d, more, hc, -, hMore⟩
  · rw [hc]
    exact .inside depth hPlain
  · have hBack : PassesBraces (.quoted '"') (.escaped '"') depth depth ['\\'] :=
      .single fun rest => by simp [bracedText?]
    have hEscaped : PassesBraces (.escaped '"') (.quoted '"') depth depth [d] :=
      .single fun rest => by simp [bracedText?]
    rw [hc]
    exact hBack.append (hEscaped.append (.inside depth hMore))

theorem PassesBraces.flatMap_encodeChar (text : Text) (depth : Nat) :
    PassesBraces (.quoted '"') (.quoted '"') depth depth (text.flatMap Value.encodeChar) := by
  induction text with
  | nil => exact .nil _ _
  | cons c text ih =>
      rw [List.flatMap_cons]
      exact (encodeChar c depth).append ih

/-- An encoded text is gone over whole, whatever quotes and braces it holds. -/
theorem PassesBraces.encodeText (s : String) (depth : Nat) :
    PassesBraces .plain .plain depth depth (encodeText s) := by
  have hOpen : PassesBraces .plain (.quoted '"') depth depth ['"'] :=
    .single fun rest => by simp [bracedText?]
  have hClose : PassesBraces (.quoted '"') .plain depth depth ['"'] :=
    .single fun rest => by simp [bracedText?]
  exact (hOpen.append (flatMap_encodeChar s.toList depth)).append hClose

/-- Braces around what the reader goes over are counted up and down again. -/
theorem PassesBraces.braces {depth : Nat} {inner : Text}
    (h : PassesBraces .plain .plain (depth + 2) (depth + 2) inner) :
    PassesBraces .plain .plain (depth + 1) (depth + 1) ('\x7b' :: inner ++ ['\x7d']) := by
  have hOpen : PassesBraces .plain .plain (depth + 1) (depth + 2) ['\x7b'] :=
    .single fun rest => by simp [bracedText?]
  have hClose : PassesBraces .plain .plain (depth + 2) (depth + 1) ['\x7d'] :=
    .single fun rest => by simp [bracedText?]
  exact (hOpen.append h).append hClose

/-- The reader of braces goes over whatever is built up as values are written. -/
theorem passesBraces_invariant :
    WritingInvariant fun depth _ => PassesBraces .plain .plain (depth + 1) (depth + 1) where
  nil depth := .nil _ _
  neutral depth c hc := .single fun rest => by
    obtain ⟨hDouble, hSingle, hOpen, hClose⟩ := isNeutral_iff.mp hc
    simp [bracedText?, hDouble, hSingle, hOpen, hClose]
  string depth s := .encodeText s _
  append depth m n first second hFirst hSecond := hFirst.append hSecond
  object depth levels inner hInner := hInner.braces

/-- A braced value ends at its own closing brace. -/
theorem bracedText?_encode (v : Value) (rest : Text) :
    bracedText? .plain 1 (encode v ++ '\x7d' :: rest) = some (encode v, rest) := by
  rw [passesBraces_invariant.encode v 0]
  simp [bracedText?]

def valueText : Value → Text
  | .boolean _ => []
  | .text s =>
    if s.toList.contains '"' then '=' :: '\x7b' :: encode (.text s) ++ ['\x7d']
    else '=' :: '"' :: s.toList ++ ['"']
  | v => '=' :: '\x7b' :: encode v ++ ['\x7d']

def entryText (entry : String × Value) : Text :=
  entry.1.toList ++ valueText entry.2

/-- A prop that is `false` has no attribute. -/
theorem attribute?_of_isFalse {key : String} {v : Value} (h : v.isFalse = true) :
    Page.attribute? key v = none := by
  cases v with
  | boolean b =>
      cases b with
      | true => cases h
      | false => rfl
  | _ => cases h

/-- Any other prop has the text of its entry as its attribute. -/
theorem attribute?_eq_entryText (key : String) {v : Value} (h : v.isFalse = false) :
    Page.attribute? key v = some (entryText (key, v)) := by
  cases v with
  | boolean b =>
      cases b with
      | true => simp [Page.attribute?, entryText, valueText]
      | false => cases h
  | text s =>
      simp only [Page.attribute?, entryText, valueText]
      split_ifs <;> simp
  | _ => simp [Page.attribute?, entryText, valueText]

/-- A value that shows is a bare name, a text between quotes, or JSON between braces. -/
theorem valueText_cases {v : Value} (h : v.isFalse = false) :
    v = .boolean true ∧ valueText v = [] ∨
      (∃ s, v = .text s ∧ '"' ∉ s.toList ∧ valueText v = '=' :: '"' :: s.toList ++ ['"']) ∨
      valueText v = '=' :: '\x7b' :: encode v ++ ['\x7d'] := by
  cases v with
  | boolean b =>
      cases b with
      | true => exact .inl ⟨rfl, rfl⟩
      | false => cases h
  | text s =>
      by_cases hQuote : '"' ∈ s.toList
      · exact .inr (.inr (by simp [valueText, hQuote]))
      · exact .inr (.inl ⟨s, rfl, hQuote, by simp [valueText, hQuote]⟩)
  | _ => exact .inr (.inr rfl)

/-- The value of an attribute is read back from its text. -/
theorem shows_valueText {v : Value} (hShows : v.isFalse = false) (hKeyed : keyed v = true) :
    Shows v (valueText v) := by
  rcases valueText_cases hShows with ⟨rfl, hText⟩ | ⟨s, rfl, hQuote, hText⟩ | hText
  · rw [hText]
    exact shows_bare
  · have hQuoted := shows_quoted (.inl rfl) hQuote
    rwa [String.ofList_toList, ← hText] at hQuoted
  · have hBraced := shows_braced (bracedText?_encode v)
    rwa [bracedValue, decode?_encode hKeyed, Option.getD_some, ← hText] at hBraced

def pieceOf (entry : String × Value) : Piece :=
  ⟨entry.1, entry.2, entryText entry⟩

/-- A prop with an attribute name and a well-formed value is written as a whole attribute. -/
theorem whole_pieceOf {entry : String × Value} (hName : isName entry.1.toList = true)
    (hShows : entry.2.isFalse = false) (hKeyed : keyed entry.2 = true) : (pieceOf entry).Whole :=
  ⟨hName, valueText entry.2, rfl, shows_valueText hShows hKeyed⟩

/-- Writing props as attributes loses nothing. -/
theorem map_prop_pieceOf (props : Props) : (props.map pieceOf).map Piece.prop = props := by
  rw [List.map_map]
  exact List.map_id props

/-- Props whose entries can all be written as attributes and read back. -/
structure Readable (props : Props) : Prop where
  shows : ∀ entry ∈ props, entry.2.isFalse = false
  named : ∀ entry ∈ props, isName entry.1.toList = true
  keyed : ∀ entry ∈ props, entry.2.keyed = true

theorem Readable.tail {entry : String × Value} {rest : Props} (h : Readable (entry :: rest)) :
    Readable rest where
  shows other hOther := h.shows other (List.mem_cons_of_mem _ hOther)
  named other hOther := h.named other (List.mem_cons_of_mem _ hOther)
  keyed other hOther := h.keyed other (List.mem_cons_of_mem _ hOther)

theorem Readable.whole {props : Props} (h : Readable props) :
    ∀ piece ∈ props.map pieceOf, piece.Whole :=
  List.forall_mem_map.mpr fun entry hEntry =>
    whole_pieceOf (h.named entry hEntry) (h.shows entry hEntry) (h.keyed entry hEntry)

def entryTexts (props : Props) : Text :=
  props.flatMap fun entry => ' ' :: entryText entry

theorem entryTexts_cons (entry : String × Value) (rest : Props) :
    entryTexts (entry :: rest) = ' ' :: entryText entry ++ entryTexts rest :=
  List.flatMap_cons

/-- The scanner finds every attribute with its own text. -/
theorem piecesOf_entryTexts {props : Props} (h : Readable props) :
    piecesOf (entryTexts props) = props.map pieceOf := by
  have hSpaced := spaced_join (props.map pieceOf)
  rw [List.flatMap_map] at hSpaced
  exact piecesOf_of_spaced hSpaced h.whole

/-- The props of a tag are those that were written in it. -/
theorem props_entryTexts {props : Props} (h : Readable props)
    (hDistinct : props.keysDistinct = true) : Attribute.props (entryTexts props) = props := by
  rw [props_eq_ofEntries, entries_eq, piecesOf_entryTexts h, map_prop_pieceOf,
    Props.ofEntries_of_keysDistinct hDistinct]

/-- Where no key is repeated all attributes are kept. -/
theorem foldl_keepFirst_of_nodup {done found : List Piece}
    (h : ((done ++ found).map Piece.key).Nodup) :
    found.foldl Piece.keepFirst done = done ++ found := by
  induction found generalizing done with
  | nil => simp
  | cons piece rest ih =>
      have hNew : (done.any fun known => decide (known.key = piece.key)) = false := by
        rw [List.map_append, List.nodup_append] at h
        rw [List.any_eq_false]
        intro known hKnown
        simpa using h.2.2 _ (List.mem_map_of_mem hKnown) _ (by simp)
      rw [List.foldl_cons, Piece.keepFirst, if_neg (by simp [hNew]), ih (by simpa using h)]
      simp

/-- Rendered attributes read back as they are, since their keys differ. -/
theorem firsts_entryTexts {props : Props} (h : Readable props)
    (hDistinct : props.keysDistinct = true) : firsts (entryTexts props) = props.map pieceOf := by
  have hNodup : (([] ++ props.map pieceOf).map Piece.key).Nodup := by
    rw [List.nil_append, List.map_map]
    exact Props.keysDistinct_iff.mp hDistinct
  rw [firsts, piecesOf_entryTexts h, foldl_keepFirst_of_nodup hNodup, List.nil_append]

end Attribute

/-- Props that can all be written as attributes: their keys are different attribute names, and no
text in a value holds `<`. Objects in a value have different keys, as every mapping has. -/
structure Props.Clean (props : Props) : Prop where
  distinct : props.keysDistinct = true
  keyed : ∀ entry ∈ props, entry.2.keyed = true
  named : ∀ entry ∈ props, Attribute.isName entry.1.toList = true
  angleFree : ∀ entry ∈ props, entry.2.angleFree = true

instance (props : Props) : Decidable props.Clean :=
  decidable_of_iff (props.keysDistinct = true ∧ (∀ entry ∈ props, entry.2.keyed = true) ∧
      (∀ entry ∈ props, Attribute.isName entry.1.toList = true) ∧
      ∀ entry ∈ props, entry.2.angleFree = true)
    ⟨fun ⟨hDistinct, hKeyed, hNamed, hFree⟩ => ⟨hDistinct, hKeyed, hNamed, hFree⟩,
      fun h => ⟨h.distinct, h.keyed, h.named, h.angleFree⟩⟩

theorem Props.Clean.distinct_visible {props : Props} (h : props.Clean) :
    (Diff.visible props).keysDistinct = true :=
  keysDistinct_filter h.distinct _

theorem Props.Clean.mapping {props : Props} (h : props.Clean) : props.Keyed :=
  ⟨h.distinct, h.keyed⟩

namespace Page

open Attribute

def writtenAttributes (props : Props) : List Text :=
  props.filterMap fun entry => attribute? entry.1 entry.2

/-- What is written are the attributes of the props that show. -/
theorem writtenAttributes_eq (props : Props) :
    writtenAttributes props = (Diff.visible props).map entryText := by
  induction props with
  | nil => rfl
  | cons entry rest ih =>
      obtain ⟨key, v⟩ := entry
      simp only [writtenAttributes, Diff.visible] at ih ⊢
      cases hShows : v.isFalse with
      | true => simp [attribute?_of_isFalse hShows, hShows, ih]
      | false => simp [attribute?_eq_entryText key hShows, hShows, ih]

/-- The attributes of a tag are the entries that show, each behind a space. -/
theorem attributes_eq (props : Props) : attributes props = entryTexts (Diff.visible props) := by
  rw [attributes, ← writtenAttributes, writtenAttributes_eq, List.flatMap_map]
  rfl

end Page

/-- The props after a change. A prop that is set to `false` is removed. -/
def Change.applyTo (props : Props) : Change → Props
  | .set key value => if value.isFalse then props.erase key else props.set key value
  | .remove key => props.erase key

namespace Attribute

namespace Piece

/-- Puts an attribute in the place of that with its key, or else at the end. -/
def put (piece : Piece) : List Piece → List Piece
  | [] => [piece]
  | known :: rest => if known.key = piece.key then piece :: rest else known :: put piece rest

def erase (key : String) (kept : List Piece) : List Piece :=
  kept.filter fun known => known.key ≠ key

def change (kept : List Piece) : Change → List Piece
  | .set key value =>
    if value.isFalse then erase key kept else put (pieceOf (key, value)) kept
  | .remove key => erase key kept

end Piece

/-- Putting the text of an attribute is putting the attribute. -/
theorem putText_row (piece : Piece) (kept : List Piece) :
    Page.putText piece.key piece.text (kept.map Piece.row) = (piece.put kept).map Piece.row := by
  induction kept with
  | nil => rfl
  | cons known rest ih =>
      rw [List.map_cons, Piece.row, Page.putText, Piece.put]
      split
      · rename_i hKey
        rw [hKey]
        rfl
      · rw [ih, List.map_cons, Piece.row]

/-- Setting a prop is putting its attribute: a key that is there keeps its place in both. -/
theorem set_prop (piece : Piece) (kept : List Piece) :
    Props.set piece.key piece.value (kept.map Piece.prop) = (piece.put kept).map Piece.prop := by
  induction kept with
  | nil => rfl
  | cons known rest ih =>
      rw [List.map_cons, Piece.prop, Props.set, Piece.put]
      split
      · rename_i hKey
        rw [hKey]
        rfl
      · rw [ih, List.map_cons, Piece.prop]

/-- A change of attributes is the same change of their texts and of their props. -/
theorem change_row_prop (kept : List Piece) (change : Change) :
    Page.changeText (kept.map Piece.row) change = (Piece.change kept change).map Piece.row ∧
      change.applyTo (kept.map Piece.prop) = (Piece.change kept change).map Piece.prop := by
  have hRows (key : String) : ((kept.map Piece.row).filter fun known => known.1 ≠ key) =
      (Piece.erase key kept).map Piece.row := by
    rw [Piece.erase, List.filter_map]
    rfl
  have hProps (key : String) : Props.erase key (kept.map Piece.prop) =
      (Piece.erase key kept).map Piece.prop := by
    rw [Piece.erase, Props.erase, List.filter_map]
    rfl
  cases change with
  | remove key => exact ⟨hRows key, hProps key⟩
  | set key value =>
      cases hShows : value.isFalse with
      | true =>
          simp only [Page.changeText, attribute?_of_isFalse hShows, Change.applyTo, Piece.change,
            hShows, if_true]
          exact ⟨hRows key, hProps key⟩
      | false =>
          simp only [Page.changeText, attribute?_eq_entryText key hShows, Change.applyTo,
            Piece.change, hShows]
          exact ⟨putText_row (pieceOf (key, value)) kept, set_prop (pieceOf (key, value)) kept⟩

/-- The step from texts to props: changes of the attribute texts and changes of the props are both
changes of the attributes that show them. -/
theorem foldl_change_row_prop (changes : List Change) :
    ∀ kept : List Piece,
      changes.foldl Page.changeText (kept.map Piece.row) =
          (changes.foldl Piece.change kept).map Piece.row ∧
        changes.foldl Change.applyTo (kept.map Piece.prop) =
          (changes.foldl Piece.change kept).map Piece.prop := by
  induction changes with
  | nil => exact fun _ => ⟨rfl, rfl⟩
  | cons change rest ih =>
      intro kept
      obtain ⟨hRow, hProp⟩ := change_row_prop kept change
      rw [List.foldl_cons, List.foldl_cons, List.foldl_cons, hRow, hProp]
      exact ih _

/-- Putting an attribute into a row brings in no other attribute. -/
theorem mem_put {piece new : Piece} {kept : List Piece} (h : piece ∈ new.put kept) :
    piece ∈ kept ∨ piece = new := by
  induction kept with
  | nil => exact .inr (List.mem_singleton.mp h)
  | cons known rest ih =>
      rw [Piece.put] at h
      split at h
      · rcases List.mem_cons.mp h with hNew | hRest
        · exact .inr hNew
        · exact .inl (List.mem_cons_of_mem _ hRest)
      · rcases List.mem_cons.mp h with hKnown | hRest
        · exact .inl (hKnown ▸ List.mem_cons_self)
        · exact (ih hRest).imp_left (List.mem_cons_of_mem _)

/-- An attribute after a change was there before, or is the one that is set. -/
theorem mem_change {piece : Piece} {kept : List Piece} {change : Change}
    (h : piece ∈ Piece.change kept change) :
    piece ∈ kept ∨ ∃ key value, change = .set key value ∧ value.isFalse = false ∧
      piece = pieceOf (key, value) := by
  cases change with
  | remove key => exact .inl (List.mem_of_mem_filter h)
  | set key value =>
      rw [Piece.change] at h
      split at h
      · exact .inl (List.mem_of_mem_filter h)
      · rename_i hShows
        exact (mem_put h).imp_right fun hNew => ⟨key, value, rfl, by simpa using hShows, hNew⟩

/-- What holds of all attributes before some changes, and of those that are set, holds of all
attributes after them. -/
theorem forall_mem_foldl_change {P : Piece → Prop} {changes : List Change}
    (hSet : ∀ key value, .set key value ∈ changes → value.isFalse = false →
      P (pieceOf (key, value))) :
    ∀ {kept : List Piece}, (∀ piece ∈ kept, P piece) →
      ∀ piece ∈ changes.foldl Piece.change kept, P piece := by
  induction changes with
  | nil => exact id
  | cons change rest ih =>
      intro kept h
      refine ih (fun key value hMem => hSet key value (List.mem_cons_of_mem _ hMem)) ?_
      intro piece hPiece
      rcases mem_change hPiece with hOld | ⟨key, value, rfl, hShows, rfl⟩
      · exact h piece hOld
      · exact hSet key value List.mem_cons_self hShows

/-- Attributes that show props, after a change show the props after it. -/
theorem foldl_change_pieceOf (changes : List Change) (props : Props) :
    changes.foldl Piece.change (props.map pieceOf) =
      (changes.foldl Change.applyTo props).map pieceOf := by
  have hWritten : ∀ piece ∈ changes.foldl Piece.change (props.map pieceOf),
      (pieceOf ∘ Piece.prop) piece = id piece :=
    forall_mem_foldl_change (fun _ _ _ _ => rfl) (List.forall_mem_map.mpr fun _ _ => rfl)
  have hProps := (foldl_change_row_prop changes (props.map pieceOf)).2
  rw [map_prop_pieceOf] at hProps
  rw [hProps, List.map_map, List.map_congr_left hWritten, List.map_id]

def rewritten (attributes : Text) (changes : List Change) : List Piece :=
  changes.foldl Piece.change (firsts attributes)

end Attribute

namespace Page

open Attribute

/-- No change makes a prop `false`. -/
theorem shows_foldl_applyTo (changes : List Change) {props : Props}
    (h : ∀ entry ∈ props, entry.2.isFalse = false) :
    ∀ entry ∈ changes.foldl Change.applyTo props, entry.2.isFalse = false := by
  have hPieces : ∀ piece ∈ (changes.foldl Change.applyTo props).map pieceOf,
      piece.value.isFalse = false := by
    rw [← foldl_change_pieceOf]
    exact forall_mem_foldl_change (fun _ _ _ hShows => hShows) (List.forall_mem_map.mpr h)
  exact List.forall_mem_map.mp hPieces

theorem shows_visible (props : Props) : ∀ entry ∈ Diff.visible props, entry.2.isFalse = false := by
  intro entry hEntry
  simpa using (List.mem_filter.mp hEntry).2

/-- Props that all show are not cut down. -/
theorem visible_of_shows {props : Props} (h : ∀ entry ∈ props, entry.2.isFalse = false) :
    Diff.visible props = props :=
  List.filter_eq_self.mpr fun entry hEntry => by simp [h entry hEntry]

/-- Of clean props those that show can be written and read back. -/
theorem readable_visible {props : Props} (h : props.Clean) : Readable (Diff.visible props) where
  shows := shows_visible props
  named entry hEntry := h.named entry (List.mem_of_mem_filter hEntry)
  keyed entry hEntry := h.keyed entry (List.mem_of_mem_filter hEntry)

/-- The props of a rendered tag are the props that show. -/
theorem props_attributes {props : Props} (h : props.Clean) :
    Attribute.props (attributes props) = Diff.visible props := by
  rw [attributes_eq, props_entryTexts (readable_visible h) h.distinct_visible]

/-- Leaving out what does not show once is enough. -/
theorem visible_visible (props : Props) : Diff.visible (Diff.visible props) = Diff.visible props :=
  visible_of_shows (shows_visible props)

/-- A changed tag has its old name, and its attributes are the old ones after the changes. -/
theorem changeOpening_eq (tag : Opening) (changes : List Change) :
    changeOpening tag changes = Opening.text ⟨tag.name,
      (rewritten tag.attributes changes).flatMap fun piece => ' ' :: piece.text, tag.rest⟩ := by
  rw [changeOpening, attributeTexts_eq, (foldl_change_row_prop changes _).1, Opening.text,
    ← rewritten, List.flatMap_map]
  rfl

/-- Changing the attributes of a tag writes the tag of the changed props. -/
theorem changeOpening_openingTag (kind : Kind) {props : Props} (rest : Text)
    (changes : List Change) (hClean : props.Clean) :
    changeOpening ⟨kind.tag, attributes props, rest⟩ changes =
      openingTag kind (changes.foldl Change.applyTo (Diff.visible props)) := by
  have hShows := shows_foldl_applyTo changes (shows_visible props)
  have hFirsts : firsts (attributes props) = (Diff.visible props).map pieceOf := by
    rw [attributes_eq, firsts_entryTexts (readable_visible hClean) hClean.distinct_visible]
  rw [changeOpening_eq, rewritten, hFirsts, foldl_change_pieceOf, List.flatMap_map, openingTag,
    attributes_eq (changes.foldl _ _), visible_of_shows hShows]
  rfl

end Page
end Wireframe
