import Wireframe.Proofs.Page.TagExtent
import Wireframe.Proofs.Page.PropChanges
import Wireframe.Proofs.Page.KeyedForests

/-! What an update of props leaves alone. The attributes of the tag are rewritten from their own
texts, so that a prop that is not named in the changes is read again as before, unless the tag
repeats it. Of a repeated attribute a reader takes the last value, but the update keeps the
first. -/
namespace Wireframe

namespace Props

/-- The entries in front hide later ones of the same key. -/
theorem get?_append (key : String) (first last : Props) :
    get? key (first ++ last) = (get? key first).or (get? key last) := by
  induction first with
  | nil => rfl
  | cons entry rest ih =>
      rw [List.cons_append, get?, get?, ih]
      split <;> rfl

/-- The last value of a repeated key counts. -/
theorem get?_ofEntries (key : String) (entries : Props) :
    get? key (ofEntries entries) = get? key entries.reverse := by
  induction entries using List.reverseRecOn with
  | nil => rfl
  | append_singleton entries entry ih =>
      rw [ofEntries, List.foldl_append, List.foldl_cons, List.foldl_nil, ← ofEntries, get?_set, ih,
        List.reverse_append, List.reverse_singleton, List.singleton_append, get?]
      by_cases hKey : entry.1 = key
      · rw [if_pos hKey.symm, if_pos hKey]
      · rw [if_neg (Ne.symm hKey), if_neg hKey]

/-- A change decides about its own key and about no other. -/
theorem get?_applyTo (key : String) (change : Change) (props : Props) :
    get? key (change.applyTo props) =
      if key = change.key then get? key (change.applyTo []) else get? key props := by
  cases change with
  | remove name =>
      by_cases hKey : key = name <;> simp [Change.applyTo, Change.key, get?_erase, hKey]
  | set name value =>
      by_cases hKey : key = name <;> cases hShows : value.isFalse <;>
        simp [Change.applyTo, Change.key, hShows, get?_erase, get?_set, hKey]

/-- Changes decide about the keys that they name, and leave all other keys as they were. -/
theorem get?_foldl_applyTo (key : String) (changes : List Change) (props : Props) :
    get? key (changes.foldl Change.applyTo props) =
      if key ∈ changes.map Change.key then get? key (changes.foldl Change.applyTo [])
      else get? key props := by
  induction changes using List.reverseRecOn with
  | nil => simp
  | append_singleton changes change ih =>
      simp only [List.foldl_append, List.foldl_cons, List.foldl_nil, List.map_append, List.map_cons,
        List.map_nil, List.mem_append, List.mem_singleton]
      rw [get?_applyTo key change (changes.foldl Change.applyTo props),
        get?_applyTo key change (changes.foldl Change.applyTo []), ih]
      by_cases hLast : key = change.key
      · simp [hLast]
      · simp [hLast]

end Props

namespace Page

/-- A reader that comes to the end of a text between attributes goes over the text. -/
theorem passes_of_splitAttributes? {acrossLines : Bool} {text : Text} :
    ∀ {state : TagState}, splitAttributes? acrossLines state (text ++ ['>']) = some (text, []) →
      Passes acrossLines state .between text := by
  induction text with
  | nil =>
      intro state h
      by_cases hState : state = .between
      · exact hState ▸ .nil _
      · rw [List.nil_append, splitAttributes?, if_neg fun hClose => hState hClose.1] at h
        cases hStep : state.step? acrossLines '>' with
        | none => simp [hStep] at h
        | some next => simp [hStep, splitAttributes?] at h
  | cons c text ih =>
      intro state h
      rw [List.cons_append, splitAttributes?] at h
      split at h
      -- A bracket here would end the tag before the end of the text.
      · simp at h
      · rename_i hInside
        cases hStep : state.step? acrossLines c with
        | none => simp [hStep] at h
        | some next =>
            simp only [hStep, Option.map_eq_some_iff, Prod.exists, Prod.mk.injEq,
              List.cons.injEq, true_and] at h
            obtain ⟨_, _, hMore, rfl, rfl⟩ := h
            have hFirst : Passes acrossLines state next [c] :=
              .single (fun hState hc => hInside ⟨hState, hc⟩) hStep
            exact hFirst.append (ih hMore)

end Page

namespace Attribute

open Text

namespace Piece

def bare (key : String) : Piece :=
  ⟨key, .boolean true, key.toList⟩

def quoted (key : String) (quote : Char) (inner : Text) : Piece :=
  ⟨key, .text (String.ofList inner), key.toList ++ '=' :: quote :: inner ++ [quote]⟩

def braced (key : String) (inner : Text) : Piece :=
  ⟨key, bracedValue inner, key.toList ++ '=' :: '\x7b' :: inner ++ ['\x7d']⟩

/-- A bare, quoted or braced attribute. The reader of tags and that of attributes end a braced value
at the same brace. -/
inductive Plain : Piece → Prop
  | bare {key : String} : isName key.toList = true → Plain (.bare key)
  | quoted {key : String} {quote : Char} {inner : Text} : isName key.toList = true →
      quote = '"' ∨ quote = '\'' → quote ∉ inner → Plain (.quoted key quote inner)
  | braced {key : String} {inner : Text} : isName key.toList = true →
      bracedText? .plain 1 (inner ++ ['\x7d']) = some (inner, []) →
      Page.splitAttributes? false .between ('\x7b' :: inner ++ ['\x7d', '>']) =
        some ('\x7b' :: inner ++ ['\x7d'], []) →
        Plain (.braced key inner)

end Piece

/-- Attributes in plain form are whole. -/
theorem Piece.Plain.whole {piece : Piece} (h : piece.Plain) : piece.Whole := by
  cases h with
  | bare hName => exact ⟨hName, [], by simp [Piece.bare], shows_bare⟩
  | quoted hName hQuote hInner =>
      exact ⟨hName, _, by simp [Piece.quoted], shows_quoted hQuote hInner⟩
  | braced hName hInner _ =>
      exact ⟨hName, _, by simp [Piece.braced], shows_braced (bracedText?_replace hInner).2⟩

/-- The reader of tags goes over an attribute in plain form. -/
theorem Piece.Plain.passes {piece : Piece} (h : piece.Plain) :
    Page.Passes false .between .between piece.text := by
  have hName {key : String} (hKey : isName key.toList = true) :
      Page.Passes false .between .between key.toList :=
    .betweenRun (isNamePart_of_isName hKey)
  have hEquals : Page.Passes false .between .between ['='] :=
    .single (by simp) (by simp [Page.TagState.step?])
  cases h with
  | bare hKey => exact hName hKey
  | @quoted key quote inner hKey hQuote hInner =>
      have hNotOpen : quote ≠ '>' := by rcases hQuote with rfl | rfl <;> decide
      have hOpen : Page.Passes false .between (.quoted quote) [quote] :=
        .single (fun _ => hNotOpen) (by simp [Page.TagState.step?, hQuote])
      have hClose : Page.Passes false (.quoted quote) .between [quote] :=
        .single (by simp) (by simp [Page.TagState.step?])
      have hBoth := (((hName hKey).append hEquals).append hOpen).append
        ((Page.Passes.quotedRun hInner).append hClose)
      simpa [Piece.quoted] using hBoth
  | @braced key inner hKey _ hSplit =>
      have hBraces : Page.Passes false .between .between ('\x7b' :: inner ++ ['\x7d']) :=
        Page.passes_of_splitAttributes? (by simpa using hSplit)
      simpa [Piece.braced] using ((hName hKey).append hEquals).append hBraces

/-- Of the attributes of a key the last is read. -/
theorem get?_props (key : String) (attributes : Text) :
    (props attributes).get? key = Props.get? key (entries attributes).reverse := by
  rw [props_eq_ofEntries, Props.get?_ofEntries]

/-- Keeping a further attribute adds its value only if the key had none. -/
theorem get?_keepFirst (key : String) (kept : List Piece) (piece : Piece) :
    Props.get? key ((Piece.keepFirst kept piece).map Piece.prop) =
      (Props.get? key (kept.map Piece.prop)).or (Props.get? key [piece.prop]) := by
  rw [Piece.keepFirst]
  split
  · rename_i hKnown
    obtain ⟨known, hMem, hKey⟩ := List.any_eq_true.mp hKnown
    rw [decide_eq_true_eq] at hKey
    by_cases hSame : piece.key = key
    · have hHas : (Props.get? key (kept.map Piece.prop)).isSome = true :=
        Props.get?_isSome_iff.mpr (List.mem_map.mpr
          ⟨known.prop, List.mem_map_of_mem hMem, hKey.trans hSame⟩)
      rw [Option.or_of_isSome hHas]
    · simp [Props.get?, Piece.prop, hSame]
  · rw [List.map_append, List.map_singleton, Props.get?_append]

theorem nodup_keepFirst {kept : List Piece} (h : (kept.map Piece.key).Nodup) (piece : Piece) :
    ((Piece.keepFirst kept piece).map Piece.key).Nodup := by
  rw [Piece.keepFirst]
  split
  · exact h
  · rename_i hNew
    rw [Bool.not_eq_true, List.any_eq_false] at hNew
    rw [List.map_append, List.map_singleton, ← List.concat_eq_append, List.nodup_concat]
    refine ⟨fun hMem => ?_, h⟩
    obtain ⟨known, hKnown, hKey⟩ := List.mem_map.mp hMem
    exact hNew known hKnown (by simpa using hKey)

theorem mem_keepFirst {piece new : Piece} {kept : List Piece} (h : piece ∈ Piece.keepFirst kept new) :
    piece ∈ kept ∨ piece = new := by
  rw [Piece.keepFirst] at h
  split at h
  · exact .inl h
  · exact (List.mem_append.mp h).imp_right List.mem_singleton.mp

/-- Of attributes with one key the first one counts, and the attributes kept before come first. -/
theorem get?_foldl_keepFirst (key : String) (found kept : List Piece) :
    Props.get? key ((found.foldl Piece.keepFirst kept).map Piece.prop) =
      (Props.get? key (kept.map Piece.prop)).or (Props.get? key (found.map Piece.prop)) := by
  induction found generalizing kept with
  | nil => exact Option.or_none.symm
  | cons piece rest ih =>
      rw [List.foldl_cons, ih, get?_keepFirst, Option.or_assoc, ← Props.get?_append]
      rfl

/-- Keeping the first of each key leaves no key twice. -/
theorem nodup_foldl_keepFirst (found : List Piece) {kept : List Piece}
    (h : (kept.map Piece.key).Nodup) : ((found.foldl Piece.keepFirst kept).map Piece.key).Nodup := by
  induction found generalizing kept with
  | nil => exact h
  | cons piece rest ih => exact ih (nodup_keepFirst h piece)

/-- Nothing is kept that was not found. -/
theorem mem_foldl_keepFirst {piece : Piece} (found : List Piece) {kept : List Piece}
    (h : piece ∈ found.foldl Piece.keepFirst kept) : piece ∈ kept ∨ piece ∈ found := by
  induction found generalizing kept with
  | nil => exact .inl h
  | cons other rest ih =>
      rcases ih h with hKept | hRest
      · rcases mem_keepFirst hKept with hOld | rfl
        · exact .inl hOld
        · exact .inr List.mem_cons_self
      · exact .inr (List.mem_cons_of_mem _ hRest)

/-- Keeping the first attribute of each key gives every key the value of its first attribute. -/
theorem get?_firsts (key : String) (attributes : Text) :
    Props.get? key ((firsts attributes).map Piece.prop) = Props.get? key (entries attributes) := by
  rw [firsts, get?_foldl_keepFirst, entries_eq]
  rfl

theorem nodup_firsts (attributes : Text) : ((firsts attributes).map Piece.key).Nodup :=
  nodup_foldl_keepFirst (piecesOf attributes) List.nodup_nil

theorem mem_piecesOf_of_mem_firsts {piece : Piece} {attributes : Text}
    (h : piece ∈ firsts attributes) : piece ∈ piecesOf attributes :=
  (mem_foldl_keepFirst (piecesOf attributes) h).resolve_left List.not_mem_nil

/-- The reader of tags goes over a written attribute if its objects are within reach. -/
theorem passes_entryText {key : String} {value : Value} (hName : isName key.toList = true)
    (hShows : value.isFalse = false) (hBraces : value.braces < Page.braceDepth) :
    Page.Passes false .between .between (entryText (key, value)) := by
  have hKey : Page.Passes false .between .between key.toList :=
    .betweenRun (isNamePart_of_isName hName)
  have hValue : Page.ReadsAttributes false value.braces (valueText value) :=
    Page.readsAttributes_valueText hShows
  rw [Page.ReadsAttributes, if_pos hBraces] at hValue
  exact hKey.append hValue

section

variable {changes : List Change} (hNames : ∀ change ∈ changes, isName change.key.toList = true)
  (hValues : ∀ key value, .set key value ∈ changes → value.keyed = true)

include hNames hValues

/-- The attributes of a rewritten tag are whole, those that were kept and those that are new. -/
theorem whole_of_mem_rewritten (attributes : Text) :
    ∀ piece ∈ rewritten attributes changes, piece.Whole :=
  forall_mem_foldl_change
    (fun key value hSet hShows =>
      whole_pieceOf (hNames _ hSet) hShows (hValues key value hSet))
    fun _ hPiece => whole_of_mem_piecesOf (mem_piecesOf_of_mem_firsts hPiece)

/-- The rewritten attributes are read as the first props of the tag with the changes made. -/
theorem props_rewritten (attributes : Text) :
    props ((rewritten attributes changes).flatMap fun piece => ' ' :: piece.text) =
      changes.foldl Change.applyTo ((firsts attributes).map Piece.prop) := by
  have hProps := (foldl_change_row_prop changes (firsts attributes)).2
  have hKeys : Props.keysDistinct ((firsts attributes).map Piece.prop) = true := by
    rw [Props.keysDistinct_iff, List.map_map]
    exact nodup_firsts attributes
  have hKeyed : Props.Keyed ((firsts attributes).map Piece.prop) :=
    ⟨hKeys, List.forall_mem_map.mpr fun piece hPiece =>
      (whole_of_mem_piecesOf (mem_piecesOf_of_mem_firsts hPiece)).keyed⟩
  rw [props_eq_ofEntries, entries_eq, piecesOf_of_spaced (spaced_join _)
    (whole_of_mem_rewritten hNames hValues attributes), rewritten, ← hProps]
  exact Props.ofEntries_of_keysDistinct (hKeyed.foldl_applyTo hValues).distinct

/-- The rewritten attributes give the changed keys as the changes do and all other keys as the first
attributes of the tag. -/
theorem get?_rewritten (attributes : Text) (key : String) :
    (props ((rewritten attributes changes).flatMap fun piece => ' ' :: piece.text)).get? key =
      if key ∈ changes.map Change.key then (changes.foldl Change.applyTo []).get? key
      else (entries attributes).get? key := by
  rw [props_rewritten hNames hValues, Props.get?_foldl_applyTo, get?_firsts]

end

end Attribute

namespace Page

open Attribute

/-- The reader goes over a row of attributes with a blank before each if it goes over each. -/
theorem passes_join {found : List Attribute.Piece}
    (hFound : ∀ piece ∈ found, Passes false .between .between piece.text) :
    Passes false .between .between (found.flatMap fun piece => ' ' :: piece.text) := by
  induction found with
  | nil => exact .nil _
  | cons piece rest ih =>
      obtain ⟨hHere, hLater⟩ := List.forall_mem_cons.mp hFound
      have hSpace : Passes false .between .between [' '] :=
        .single (by simp) (by simp [TagState.step?])
      exact (hSpace.append hHere).append (ih hLater)

/-- A tag is read as it is written if its name can be read and each of its attributes can. -/
theorem opening?_join {tag : Opening} (hTag : tag.Reads false) {found : List Attribute.Piece}
    (hFound : ∀ piece ∈ found, Passes false .between .between piece.text) :
    let new : Opening := ⟨tag.name, found.flatMap fun piece => ' ' :: piece.text, tag.rest⟩
    opening? false (new.text ++ new.rest) = some new := by
  refine opening?_eq_some_iff.mpr ⟨rfl, hTag.nonempty, hTag.word, fun rest => ?_, fun rest => ?_⟩
  · cases found with
    | nil => exact Text.stopsAt_cons.mpr (by decide)
    | cons piece rest => exact Text.stopsAt_cons.mpr (by decide)
  · rw [passes_join hFound, splitAttributes?, if_pos ⟨rfl, rfl⟩, Option.map_some, List.append_nil]

/-- An update of props changes the attributes of the opening tag and nothing else, or nothing at all
where no opening tag is read. Behind it a key of the changes has the value that they give. Any other
key is there exactly if it was there before, and it has the value that it had exactly if the first
and the last attribute of the key have one value. Where the tag is made of bare, quoted and braced
attributes with blanks between them, and no value that is set nests objects too deep, the new tag is
read as it was written. -/
theorem props_of_updateProps {code : Text} {target : Component} {changes : List Change}
    (hNames : ∀ change ∈ changes, isName change.key.toList = true)
    (hValues : ∀ key value, .set key value ∈ changes → value.keyed = true) {cut : Cut}
    (hCut : locate? code target = some cut) :
    (opening? false (cut.target ++ cut.after) = none → updateProps code target changes = code) ∧
      ∀ tag, opening? false (cut.target ++ cut.after) = some tag →
        code = cut.before ++ (tag.text ++ tag.rest) ∧
          ∃ new : Opening, new.name = tag.name ∧ new.rest = tag.rest ∧
            updateProps code target changes = cut.before ++ (new.text ++ new.rest) ∧
            (∀ key ∈ changes.map Change.key, (props new.attributes).get? key =
              (changes.foldl Change.applyTo []).get? key) ∧
            (∀ key, key ∉ changes.map Change.key →
              (props new.attributes).has key = (props tag.attributes).has key ∧
                ((props new.attributes).get? key = (props tag.attributes).get? key ↔
                  (entries tag.attributes).get? key =
                    Props.get? key (entries tag.attributes).reverse)) ∧
            ∀ found, Spaced found tag.attributes → (∀ piece ∈ found, piece.Plain) →
              (∀ key value, .set key value ∈ changes → value.braces < braceDepth) →
                opening? false (new.text ++ new.rest) = some new := by
  rw [updateProps, hCut]
  dsimp only
  refine ⟨fun hNone => by rw [hNone], fun tag hTag => ?_⟩
  have hCode : code = cut.before ++ (tag.text ++ tag.rest) := by
    rw [← append_of_opening? hTag, ← List.append_assoc]
    exact (whole_of_locate? hCut).symm
  let new : Opening := ⟨tag.name,
    (rewritten tag.attributes changes).flatMap fun piece => ' ' :: piece.text, tag.rest⟩
  have hNew := get?_rewritten hNames hValues tag.attributes
  refine ⟨hCode, new, rfl, rfl, ?updated, fun key hKey => by rw [hNew, if_pos hKey], ?others,
    ?readable⟩
  case updated =>
    rw [hTag]
    dsimp only
    rw [changeOpening_eq, List.append_assoc]
  case others =>
    intro key hKey
    rw [hNew, if_neg hKey, get?_props]
    refine ⟨?_, Iff.rfl⟩
    rw [Props.has, Props.has, hNew, if_neg hKey, get?_props, Bool.eq_iff_iff, Props.get?_isSome_iff,
      Props.get?_isSome_iff, List.map_reverse, List.mem_reverse]
  case readable =>
    intro found hSpaced hPlain hBraces
    have hFound : piecesOf tag.attributes = found :=
      piecesOf_of_spaced hSpaced fun piece hPiece => (hPlain piece hPiece).whole
    have hPasses : ∀ piece ∈ rewritten tag.attributes changes,
        Passes false .between .between piece.text :=
      forall_mem_foldl_change
        (fun key value hSet hShows =>
          passes_entryText (hNames _ hSet) hShows (hBraces key value hSet))
        fun piece hPiece => (hPlain piece (hFound ▸ mem_piecesOf_of_mem_firsts hPiece)).passes
    exact opening?_join (opening?_eq_some_iff.mp hTag).2 hPasses

/-- Attributes as they may be written by hand: a repeated bare name, a text with the other quotes in
it, and data with a quoted brace. -/
def handPieces : List Attribute.Piece :=
  [.quoted "title" '\'' "a > \"b\"".toList, .bare "wide", .braced "data" "[1, \"\x7d\"]".toList,
    .bare "wide"]

def handTag : Opening :=
  ⟨"Card".toList,
    "\n  ".toList ++ ((Attribute.Piece.quoted "title" '\'' "a > \"b\"".toList).text ++
      ("  ".toList ++ ((Attribute.Piece.bare "wide").text ++
        ("\t".toList ++ ((Attribute.Piece.braced "data" "[1, \"\x7d\"]".toList).text ++
          (" ".toList ++ ((Attribute.Piece.bare "wide").text ++ "\n".toList))))))),
    "</Card>\n".toList⟩

def handCut : Cut :=
  ⟨"<main>\n".toList, handTag.text ++ "</Card>".toList, "\n".toList⟩

def handChanges : List Change :=
  [.set "title" (.text "New"), .set "level" (.object [("low", .integer 1)]), .remove "data"]

theorem props_of_updateProps_handTag :
    (∀ change ∈ handChanges, isName change.key.toList = true) ∧
      (∀ key value, .set key value ∈ handChanges → value.keyed = true) ∧
      (∀ key value, .set key value ∈ handChanges → value.braces < braceDepth) ∧
      locate? handCut.whole (.leaf .card []) = some handCut ∧
      opening? false (handCut.target ++ handCut.after) = some handTag ∧
      Spaced handPieces handTag.attributes ∧ (∀ piece ∈ handPieces, piece.Plain) ∧
      ∃ new : Opening,
        updateProps handCut.whole (.leaf .card []) handChanges =
          handCut.before ++ (new.text ++ new.rest) ∧
        (props new.attributes).get? "title" = some (.text "New") ∧
        (props new.attributes).get? "data" = none ∧
        (props new.attributes).get? "wide" = (props handTag.attributes).get? "wide" ∧
        opening? false (new.text ++ new.rest) = some new := by
  have hNames : ∀ change ∈ handChanges, isName change.key.toList = true := by decide +kernel
  have hSets {P : Value → Prop} (hTitle : P (.text "New"))
      (hLevel : P (.object [("low", .integer 1)])) (key : String) (value : Value)
      (hSet : .set key value ∈ handChanges) : P value := by
    simp only [handChanges, List.mem_cons, Change.set.injEq, reduceCtorEq, List.not_mem_nil,
      or_false] at hSet
    rcases hSet with ⟨-, rfl⟩ | ⟨-, rfl⟩
    · exact hTitle
    · exact hLevel
  have hCut : locate? handCut.whole (.leaf .card []) = some handCut := by decide +kernel
  have hTag : opening? false (handCut.target ++ handCut.after) = some handTag := by rfl
  have hSpaced : Spaced handPieces handTag.attributes :=
    .piece (by decide) (by decide) (.piece (by decide) (by decide) (.piece (by decide) (by decide)
      (.piece (by decide) (by decide) (.blanks (by decide)))))
  have hPlain : ∀ piece ∈ handPieces, piece.Plain := by
    simp only [handPieces, List.forall_mem_cons, List.not_mem_nil, false_imp_iff, implies_true,
      and_true]
    exact ⟨.quoted (by decide) (.inr rfl) (by decide), .bare (by decide),
      .braced (by decide) (by decide +kernel) (by decide +kernel), .bare (by decide)⟩
  obtain ⟨-, hUpdate⟩ := props_of_updateProps hNames (hSets (by decide) (by decide)) hCut
  obtain ⟨-, new, -, -, hCode, hNamed, hOthers, hReads⟩ := hUpdate handTag hTag
  refine ⟨hNames, hSets (by decide) (by decide), hSets (by decide) (by decide), hCut, hTag, hSpaced,
    hPlain, new, hCode, (hNamed "title" (by decide)).trans rfl,
    (hNamed "data" (by decide)).trans rfl, ?_,
    hReads handPieces hSpaced hPlain (hSets (by decide) (by decide))⟩
  exact (hOthers "wide" (by decide)).2.mpr rfl

def twiceTitled : Opening :=
  ⟨"Card".toList, " title=\"Old\" title=\"New\"".toList, "\n</Card>".toList⟩

/-- Of two titles a reader takes the last. After an update of another prop it reads the first. -/
theorem other_title_read :
    let code := twiceTitled.text ++ twiceTitled.rest
    let found : List Attribute.Piece :=
      [.quoted "title" '"' "Old".toList, .quoted "title" '"' "New".toList]
    locate? code (.leaf .card []) = some ⟨[], code, []⟩ ∧ opening? false code = some twiceTitled ∧
      Spaced found twiceTitled.attributes ∧ (∀ piece ∈ found, piece.Plain) ∧
      updateProps code (.leaf .card []) [.set "wide" (.boolean true)] =
        "<Card title=\"Old\" wide>\n</Card>".toList ∧
      (props twiceTitled.attributes).text? "title" = some "New" ∧
      (props " title=\"Old\" wide".toList).text? "title" = some "Old" := by
  intro code found
  have hPlain : ∀ piece ∈ found, piece.Plain := by
    simp only [found, List.forall_mem_cons, List.not_mem_nil, false_imp_iff, implies_true,
      and_true]
    exact ⟨.quoted (by decide) (.inl rfl) (by decide), .quoted (by decide) (.inl rfl) (by decide)⟩
  exact ⟨by decide +kernel, by rfl, spaced_join found, hPlain, by decide +kernel, by decide +kernel,
    by decide +kernel⟩

end Page
end Wireframe
