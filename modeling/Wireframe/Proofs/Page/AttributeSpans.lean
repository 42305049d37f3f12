import Wireframe.Proofs.Page.AttributeReading

/-! Where attributes stand in the text of a tag. A scan finds them one after another without overlap,
and finds them again in their own texts put together with spaces. In rendered attributes each of them
stands in exactly the text that was written for it. -/
namespace Wireframe

namespace Attribute

open Text

/-- The attributes stand one behind the other between two positions, each with a text of its own. -/
inductive Ranged : Nat → List Attribute → Nat → Prop
  | nil {first last : Nat} : first ≤ last → Ranged first [] last
  | cons {first last : Nat} {found : Attribute} {rest : List Attribute} :
      first ≤ found.start → found.start < found.stop → Ranged found.stop rest last →
        Ranged first (found :: rest) last

theorem Ranged.mono {first early last : Nat} {found : List Attribute} (h : Ranged first found last)
    (hLe : early ≤ first) : Ranged early found last := by
  cases h with
  | nil hLast => exact .nil (hLe.trans hLast)
  | cons hFirst hOwn hRest => exact .cons (hLe.trans hFirst) hOwn hRest

/-- Every attribute lies between the two positions and is not empty. -/
theorem Ranged.inside {first last : Nat} {found : List Attribute} (h : Ranged first found last) :
    ∀ one ∈ found, first ≤ one.start ∧ one.start < one.stop ∧ one.stop ≤ last := by
  induction h with
  | nil => exact List.forall_mem_nil _
  | @cons first last here rest hFirst hOwn hRest ih =>
      have hStop : here.stop ≤ last := by
        cases hRest with
        | nil hLast => exact hLast
        | cons hNext hNextOwn _ =>
            obtain ⟨-, -, hNextStop⟩ := ih _ List.mem_cons_self
            omega
      refine List.forall_mem_cons.mpr ⟨⟨hFirst, hOwn, hStop⟩, fun one hMem => ?_⟩
      obtain ⟨hStart, hInside⟩ := ih one hMem
      exact ⟨by omega, hInside⟩

/-- Attributes do not overlap and stand in the order in which they are found. -/
theorem Ranged.pairwise {first last : Nat} {found : List Attribute} (h : Ranged first found last) :
    found.Pairwise fun earlier later => earlier.stop ≤ later.start := by
  induction h with
  | nil => exact .nil
  | cons _ _ hRest ih => exact .cons (fun later hLater => (hRest.inside later hLater).1) ih

/-- Whatever the text is, a scan finds attributes inside it and one behind the other. -/
theorem ranged_scanFrom (text : Text) :
    ∀ fuel position, Ranged position (scanFrom fuel position text) (position + text.length) := by
  intro fuel
  induction fuel generalizing text with
  | zero => exact fun position => .nil (Nat.le_add_right _ _)
  | succ fuel ih =>
      intro position
      cases text with
      | nil => exact .nil (Nat.le_add_right _ _)
      | cons c rest =>
          have hName : (rest.takeWhile isNamePart).length + (rest.dropWhile isNamePart).length =
              rest.length := by
            rw [← List.length_append, List.takeWhile_append_dropWhile]
          rw [scanFrom, List.length_cons]
          split
          · cases hValue : value? (rest.dropWhile isNamePart) with
            | none => exact .nil (Nat.le_add_right _ _)
            | some found =>
                obtain ⟨value, length, after⟩ := found
                obtain ⟨shown, hShown, rfl, -⟩ := exists_shows hValue
                have hRest := ih after
                  (position + (c :: rest.takeWhile isNamePart).length + shown.length)
                have hLast : position + (c :: rest.takeWhile isNamePart).length + shown.length +
                    after.length = position + (rest.length + 1) := by
                  rw [hShown, List.length_append] at hName
                  rw [List.length_cons]
                  omega
                rw [hLast] at hRest
                refine .cons le_rfl ?_ hRest
                rw [List.length_cons]
                dsimp only
                omega
          · have hRest := (ih rest (position + 1)).mono (Nat.le_succ position)
            rwa [Nat.add_right_comm] at hRest

/-- A scan finds attributes within its text only, one behind the other. -/
theorem ranged_scan (text : Text) : Ranged 0 (scan text) text.length := by
  have hRanged := ranged_scanFrom text text.length 0
  rwa [Nat.zero_add] at hRanged

/-- A found attribute with its text is a piece of the scanned text. -/
theorem map_scan (text : Text) :
    (scan text).map (fun found => (⟨found.key, found.value, slice text found⟩ : Piece)) =
      piecesOf text :=
  map_scanFrom text text.length []

/-- The text of an attribute starts with its key. -/
theorem key_isPrefix_slice {text : Text} {found : Attribute} (h : found ∈ scan text) :
    found.key.toList <+: slice text found := by
  have hPiece : (⟨found.key, found.value, slice text found⟩ : Piece) ∈ piecesOf text := by
    rw [← map_scan]
    exact List.mem_map_of_mem h
  obtain ⟨shown, hText, -⟩ := (whole_of_mem_piecesOf hPiece).shows
  exact ⟨shown, hText.symm⟩

theorem intercalate_texts (piece : Piece) (rest : List Piece) :
    [' '].intercalate ((piece :: rest).map Piece.text) =
      piece.text ++ rest.flatMap fun other => ' ' :: other.text := by
  induction rest generalizing piece with
  | nil => simp
  | cons next rest ih =>
      rw [List.map_cons, List.map_cons, List.intercalate_cons_cons, ← List.map_cons, ih,
        List.append_assoc, List.flatMap_cons]
      rfl

/-- Pieces with single spaces between them are found one by one. -/
theorem piecesOf_intercalate {found : List Piece} (hWhole : ∀ piece ∈ found, piece.Whole) :
    piecesOf ([' '].intercalate (found.map Piece.text)) = found := by
  cases found with
  | nil => rfl
  | cons piece rest =>
      obtain ⟨hHere, hLater⟩ := List.forall_mem_cons.mp hWhole
      have hSpaced := spaced_join rest
      have hPos := hHere.length_pos
      rw [intercalate_texts]
      generalize rest.flatMap (fun other => ' ' :: other.text) = more at hSpaced ⊢
      have hLength : (piece.text ++ more).length = piece.text.length - 1 + more.length + 1 := by
        rw [List.length_append]
        omega
      rw [piecesOf, hLength, pieces_append hHere _ hSpaced.parted,
        pieces_of_spaced hSpaced hLater _ (Nat.le_add_left _ _)]

def rejoined (text : Text) : Text :=
  [' '].intercalate ((scan text).map (slice text))

/-- The texts of the attributes, each behind a space, as they stand in a rebuilt tag. -/
def respaced (text : Text) : Text :=
  (scan text).flatMap fun found => ' ' :: slice text found

/-- A scan finds the same keys and values in both texts, each in the same text of its own. -/
def SameAttributes (text other : Text) : Prop :=
  (scan text).map (fun found => (found.key, found.value, slice text found)) =
    (scan other).map fun found => (found.key, found.value, slice other found)

/-- Texts of the same pieces have the same attributes, though at other positions. -/
theorem sameAttributes_of_piecesOf {text other : Text} (h : piecesOf text = piecesOf other) :
    SameAttributes text other := by
  have hScan (text : Text) :
      (scan text).map (fun found => (found.key, found.value, slice text found)) =
        (piecesOf text).map fun piece => (piece.key, piece.value, piece.text) := by
    rw [← map_scan, List.map_map]
    rfl
  rw [SameAttributes, hScan, hScan, h]

/-- Scanning is stable under rebuilding. Whatever the text is, the attributes found stand inside it one
behind the other, each with a text of its own that starts with its key; and in their texts put together
with single spaces, with or without one in front, a scan finds the same keys and values again, each in
the same text. -/
theorem sameAttributes_rejoined (text : Text) :
    (∀ found ∈ scan text, found.start < found.stop ∧ found.stop ≤ text.length ∧
        found.key.toList <+: slice text found) ∧
      ((scan text).Pairwise fun earlier later => earlier.stop ≤ later.start) ∧
      SameAttributes (rejoined text) text ∧ SameAttributes (respaced text) text := by
  have hTexts : (scan text).map (slice text) = (piecesOf text).map Piece.text := by
    rw [← map_scan, List.map_map]
    rfl
  have hRespaced : respaced text = (piecesOf text).flatMap fun piece => ' ' :: piece.text := by
    rw [← map_scan, List.flatMap_map]
    rfl
  have hWhole : ∀ piece ∈ piecesOf text, piece.Whole := fun _ hPiece => whole_of_mem_piecesOf hPiece
  refine ⟨fun found hFound => ?_, (ranged_scan text).pairwise, sameAttributes_of_piecesOf ?_,
    sameAttributes_of_piecesOf ?_⟩
  · obtain ⟨-, hOwn, hStop⟩ := (ranged_scan text).inside found hFound
    exact ⟨hOwn, hStop, key_isPrefix_slice hFound⟩
  · rw [rejoined, hTexts, piecesOf_intercalate hWhole]
  · rw [hRespaced, piecesOf_of_spaced (spaced_join _) hWhole]

end Attribute

namespace Page

open Attribute

/-- Rendered attributes are read back one by one. Of props with different attribute names for keys and
any values, a scan of the rendered text finds those that are not `false`, in their order, each with
its value and in the place of exactly the text that was written for it. -/
theorem map_scan_attributes {props : Props} (hMapping : props.Keyed)
    (hNamed : ∀ entry ∈ props, isName entry.1.toList = true) :
    (scan (attributes props)).map
        (fun found => (found.key, found.value, some (slice (attributes props) found))) =
      (Diff.visible props).map (fun entry => (entry.1, entry.2, attribute? entry.1 entry.2)) ∧
    Ranged 0 (scan (attributes props)) (attributes props).length ∧
    Attribute.props (attributes props) = Diff.visible props := by
  have hReadable : Readable (Diff.visible props) :=
    { shows := shows_visible props
      named := fun entry hEntry => hNamed entry (List.mem_of_mem_filter hEntry)
      keyed := fun entry hEntry => hMapping.values entry (List.mem_of_mem_filter hEntry) }
  refine ⟨?_, ranged_scan _, ?_⟩
  · have hWritten : ∀ entry ∈ Diff.visible props,
        (entry.1, entry.2, some (entryText entry)) =
          (entry.1, entry.2, attribute? entry.1 entry.2) := by
      intro entry hEntry
      rw [attribute?_eq_entryText entry.1 (hReadable.shows entry hEntry)]
    calc (scan (attributes props)).map
          (fun found => (found.key, found.value, some (slice (attributes props) found)))
      _ = (piecesOf (attributes props)).map
            (fun piece => (piece.key, piece.value, some piece.text)) := by
          rw [← map_scan, List.map_map]
          rfl
      _ = (Diff.visible props).map (fun entry => (entry.1, entry.2, some (entryText entry))) := by
          rw [attributes_eq, piecesOf_entryTexts hReadable, List.map_map]
          rfl
      _ = _ := List.map_congr_left hWritten
  · rw [attributes_eq, props_entryTexts hReadable (hMapping.filter _).distinct]

/-- Props of every form that an attribute can have: an entry that does not show, texts with either
kind of quotes, and data that nests further than a reader of tags follows, with braces, quotes and
backslashes in its texts. -/
def manifoldProps : Props :=
  [("wide", .boolean true), ("open", .boolean false), ("title", .text "it's \x7d a > b\\"),
    ("label", .text "Say \"hi\" \\"), ("count", .integer (-3)), ("share", .real (.zero true)),
    ("data-rows", .list [.object [("a\x7d", .object [("b", .object [("c", .object [("d'",
      .text "\\\"\x7d")])])])], .null])]

theorem map_scan_attributes_manifoldProps :
    Props.Keyed manifoldProps ∧ (∀ entry ∈ manifoldProps, isName entry.1.toList = true) ∧
      braceDepth ≤ Value.entriesBraces manifoldProps ∧
      (scan (attributes manifoldProps)).map Attribute.key =
        ["wide", "title", "label", "count", "share", "data-rows"] ∧
      Ranged 0 (scan (attributes manifoldProps)) (attributes manifoldProps).length ∧
      Attribute.props (attributes manifoldProps) = Diff.visible manifoldProps := by
  have hMapping : Props.Keyed manifoldProps := by decide +kernel
  have hNamed : ∀ entry ∈ manifoldProps, isName entry.1.toList = true := by decide +kernel
  obtain ⟨hFound, hRanged, hProps⟩ := map_scan_attributes hMapping hNamed
  have hKeys : (scan (attributes manifoldProps)).map Attribute.key =
      (Diff.visible manifoldProps).map Prod.fst := by
    simpa only [List.map_map, Function.comp_def] using congrArg (List.map Prod.fst) hFound
  exact ⟨hMapping, hNamed, by decide, hKeys.trans rfl, hRanged, hProps⟩

end Page
end Wireframe
