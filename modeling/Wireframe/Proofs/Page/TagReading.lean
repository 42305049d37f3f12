import Wireframe.Proofs.Page.AttributeReading

/-! Rendered opening tags read back. A reader passes over each attribute in one
piece, unless a value nests braces too deep, which no reader of tags follows. -/
namespace Wireframe
namespace Page

open Text Value Attribute

/-- The reader of attributes goes over the text, from one state to another. -/
def Passes (acrossLines : Bool) (state state' : TagState) (text : Text) : Prop :=
  ∀ rest, splitAttributes? acrossLines state (text ++ rest) =
    (splitAttributes? acrossLines state' rest).map fun found => (text ++ found.1, found.2)

/-- The reader of attributes gives up within the text. -/
def Fails (acrossLines : Bool) (state : TagState) (text : Text) : Prop :=
  ∀ rest, splitAttributes? acrossLines state (text ++ rest) = none

variable {acrossLines : Bool}

/-- Nothing is lost when attributes are split off. -/
theorem append_of_splitAttributes? {state : TagState} {text attributes rest : Text}
    (h : splitAttributes? acrossLines state text = some (attributes, rest)) :
    text = attributes ++ '>' :: rest := by
  induction text generalizing state attributes with
  | nil => cases h
  | cons c text ih =>
      rw [splitAttributes?] at h
      split at h
      · rename_i hClose
        cases h
        rw [hClose.2, List.nil_append]
      · split at h
        · rename_i next hStep
          simp only [Option.map_eq_some_iff, Prod.mk.injEq] at h
          obtain ⟨⟨more, tail⟩, hMore, rfl, rfl⟩ := h
          rw [ih hMore, List.cons_append]
        · cases h

theorem Passes.nil (state : TagState) : Passes acrossLines state state [] := by
  intro rest
  simp

/-- The reader passes a text in two stretches, each from the state the other left. -/
theorem Passes.append {first second third : TagState} {text more : Text}
    (hFirst : Passes acrossLines first second text)
    (hSecond : Passes acrossLines second third more) :
    Passes acrossLines first third (text ++ more) := by
  intro rest
  rw [List.append_assoc, hFirst, hSecond, Option.map_map]
  simp [Function.comp_def]

theorem Passes.single {state state' : TagState} {c : Char} (hOpen : state = .between → c ≠ '>')
    (hStep : state.step? acrossLines c = some state') : Passes acrossLines state state' [c] := by
  intro rest
  have hInside : ¬(state = .between ∧ c = '>') := fun h => hOpen h.1 h.2
  simp only [List.singleton_append, splitAttributes?, hInside, ↓reduceIte, hStep]

/-- A reader that gets to a place and fails from there fails from the start. -/
theorem Passes.fails {first second : TagState} {text more : Text}
    (hFirst : Passes acrossLines first second text) (hSecond : Fails acrossLines second more) :
    Fails acrossLines first (text ++ more) := by
  intro rest
  rw [List.append_assoc, hFirst, hSecond, Option.map_none]

/-- A reader that has failed is not saved by more text. -/
theorem Fails.append {state : TagState} {text : Text} (h : Fails acrossLines state text)
    (more : Text) : Fails acrossLines state (text ++ more) := by
  intro rest
  rw [List.append_assoc, h]

theorem Fails.single {state : TagState} {c : Char} (hOpen : state = .between → c ≠ '>')
    (hStep : state.step? acrossLines c = none) : Fails acrossLines state [c] := by
  intro rest
  have hInside : ¬(state = .between ∧ c = '>') := fun h => hOpen h.1 h.2
  simp only [List.singleton_append, splitAttributes?, hInside, ↓reduceIte, hStep]

/-- Inside a string the reader passes everything but quotes and backslashes without counting. -/
theorem Passes.insideString {text : Text} (depth : Nat) (hText : isPlainRun text = true) :
    Passes acrossLines (.string depth) (.string depth) text := by
  induction text with
  | nil => exact .nil _
  | cons c text ih =>
      simp only [isPlainRun, List.all_cons, Bool.and_eq_true, bne_iff_ne] at hText ih
      have hFirst : Passes acrossLines (.string depth) (.string depth) [c] :=
        .single (by simp) (by simp [TagState.step?, hText.1.1, hText.1.2])
      exact hFirst.append (ih hText.2)

/-- Escaping is what keeps a character of a string from ending it. -/
theorem Passes.encodeChar (c : Char) (depth : Nat) :
    Passes acrossLines (.string depth) (.string depth) (encodeChar c) := by
  rcases encodeChar_cases c with ⟨hPlain, hc⟩ | ⟨d, more, hc, hBreak, hMore⟩
  · rw [hc]
    exact .insideString depth hPlain
  · have hBack : Passes acrossLines (.string depth) (.escape depth) ['\\'] :=
      .single (by simp) (by simp [TagState.step?])
    have hEscaped : Passes acrossLines (.escape depth) (.string depth) [d] :=
      .single (by simp) (by simp [TagState.step?, hBreak])
    rw [hc]
    exact hBack.append (hEscaped.append (.insideString depth hMore))

theorem Passes.flatMap_encodeChar (text : Text) (depth : Nat) :
    Passes acrossLines (.string depth) (.string depth) (text.flatMap Value.encodeChar) := by
  induction text with
  | nil => exact .nil _
  | cons c text ih =>
      rw [List.flatMap_cons]
      exact (encodeChar c depth).append ih

/-- A written string is passed whole, whatever it holds: its braces count for nothing. -/
theorem Passes.encodeText (s : String) (depth : Nat) :
    Passes acrossLines (.braced depth) (.braced depth) (encodeText s) := by
  have hOpen : Passes acrossLines (.braced depth) (.string depth) ['"'] :=
    .single (by simp) (by simp [TagState.step?])
  have hClose : Passes acrossLines (.string depth) (.braced depth) ['"'] :=
    .single (by simp) (by simp [TagState.step?])
  exact (hOpen.append (flatMap_encodeChar s.toList depth)).append hClose

/-- The reader goes over a text between braces if the braces in it are within reach, and gives up
in it otherwise. -/
def ReadsBraces (acrossLines : Bool) (depth levels : Nat) (text : Text) : Prop :=
  depth < braceDepth →
    if depth + levels < braceDepth then
      Passes acrossLines (.braced (depth + 1)) (.braced (depth + 1)) text
    else Fails acrossLines (.braced (depth + 1)) text

/-- Of two stretches the deeper one says how many levels are needed. -/
theorem ReadsBraces.append {depth m n : Nat} {first second : Text}
    (hFirst : ReadsBraces acrossLines depth m first)
    (hSecond : ReadsBraces acrossLines depth n second) :
    ReadsBraces acrossLines depth (max m n) (first ++ second) := by
  intro hDepth
  have hFirst := hFirst hDepth
  have hSecond := hSecond hDepth
  by_cases hm : depth + m < braceDepth
  · rw [if_pos hm] at hFirst
    by_cases hn : depth + n < braceDepth
    · rw [if_pos hn] at hSecond
      rw [if_pos (by omega)]
      exact hFirst.append hSecond
    · rw [if_neg hn] at hSecond
      rw [if_neg (by omega)]
      exact hFirst.fails hSecond
  · rw [if_neg hm] at hFirst
    rw [if_neg (by omega)]
    exact hFirst.append second

/-- Braces around a text need one level more than the text. -/
theorem ReadsBraces.object {depth levels : Nat} {inner : Text}
    (h : ReadsBraces acrossLines (depth + 1) levels inner) :
    ReadsBraces acrossLines depth (levels + 1) ('\x7b' :: inner ++ ['\x7d']) := by
  intro hDepth
  by_cases hNext : depth + 1 < braceDepth
  · have hOpen : Passes acrossLines (.braced (depth + 1)) (.braced (depth + 2)) ['\x7b'] :=
      .single (by simp) (by simp [TagState.step?, hNext])
    have hClose : Passes acrossLines (.braced (depth + 2)) (.braced (depth + 1)) ['\x7d'] :=
      .single (by simp) (by simp [TagState.step?])
    have hInner := h hNext
    by_cases hReach : depth + 1 + levels < braceDepth
    · rw [if_pos hReach] at hInner
      rw [if_pos (by omega)]
      exact (hOpen.append hInner).append hClose
    · rw [if_neg hReach] at hInner
      rw [if_neg (by omega)]
      exact (hOpen.fails hInner).append _
  · have hOpen : Fails acrossLines (.braced (depth + 1)) ['\x7b'] :=
      .single (by simp) (by simp [TagState.step?, hNext])
    rw [if_neg (by omega)]
    exact hOpen.append (inner ++ ['\x7d'])

/-- Written values are read with as many levels as they have, by the induction on how values are
written. -/
theorem readsBraces_invariant : WritingInvariant (ReadsBraces acrossLines) where
  nil depth hDepth := by
    rw [Nat.add_zero, if_pos hDepth]
    exact .nil _
  neutral depth c hc hDepth := by
    obtain ⟨hDouble, -, hOpen, hClose⟩ := isNeutral_iff.mp hc
    rw [Nat.add_zero, if_pos hDepth]
    exact .single (by simp) (by simp [TagState.step?, hDouble, hOpen, hClose])
  string depth s hDepth := by
    rw [Nat.add_zero, if_pos hDepth]
    exact .encodeText s _
  append depth m n first second hFirst hSecond := hFirst.append hSecond
  object depth levels inner hInner := hInner.object

/-- Characters of attribute names mean nothing to the reader of a tag. -/
theorem isNamePart_spec {c : Char} (h : isNamePart c = true) :
    c ≠ '"' ∧ c ≠ '\'' ∧ c ≠ '\x7b' ∧ c ≠ '>' ∧ c ≠ '<' := by
  refine ⟨?_, ?_, ?_, ?_, ?_⟩ <;> (rintro rfl; revert h; decide)

theorem Passes.betweenRun {text : Text} (h : ∀ c ∈ text, isNamePart c = true) :
    Passes acrossLines .between .between text := by
  induction text with
  | nil => exact .nil _
  | cons c text ih =>
      obtain ⟨hDouble, hSingle, hOpen, hStop, -⟩ := isNamePart_spec (h c (by simp))
      have hFirst : Passes acrossLines .between .between [c] :=
        .single (fun _ => hStop) (by simp [TagState.step?, hDouble, hSingle, hOpen])
      exact hFirst.append (ih fun d hd => h d (by simp [hd]))

theorem Passes.quotedRun {quote : Char} {text : Text} (h : quote ∉ text) :
    Passes acrossLines (.quoted quote) (.quoted quote) text := by
  induction text with
  | nil => exact .nil _
  | cons c text ih =>
      simp only [List.mem_cons, not_or] at h
      have hFirst : Passes acrossLines (.quoted quote) (.quoted quote) [c] :=
        .single (by simp) (by simp [TagState.step?, Ne.symm h.1])
      exact hFirst.append (ih h.2)

/-- The reader goes over attributes if the braces of their values are within reach, and gives up in
them otherwise. -/
def ReadsAttributes (acrossLines : Bool) (levels : Nat) (text : Text) : Prop :=
  if levels < braceDepth then Passes acrossLines .between .between text
  else Fails acrossLines .between text

theorem ReadsAttributes.of_passes {text : Text} (h : Passes acrossLines .between .between text) :
    ReadsAttributes acrossLines 0 text := by
  rw [ReadsAttributes, if_pos (by decide)]
  exact h

theorem ReadsAttributes.append {m n : Nat} {first second : Text}
    (hFirst : ReadsAttributes acrossLines m first) (hSecond : ReadsAttributes acrossLines n second) :
    ReadsAttributes acrossLines (max m n) (first ++ second) := by
  unfold ReadsAttributes at hFirst hSecond ⊢
  by_cases hm : m < braceDepth
  · rw [if_pos hm] at hFirst
    by_cases hn : n < braceDepth
    · rw [if_pos hn] at hSecond
      rw [if_pos (by omega)]
      exact hFirst.append hSecond
    · rw [if_neg hn] at hSecond
      rw [if_neg (by omega)]
      exact hFirst.fails hSecond
  · rw [if_neg hm] at hFirst
    rw [if_neg (by omega)]
    exact hFirst.append second

/-- A braced attribute is read whole exactly when its value is shallow enough. -/
theorem readsAttributes_braced (v : Value) :
    ReadsAttributes acrossLines (braces v) ('=' :: '\x7b' :: encode v ++ ['\x7d']) := by
  have hEquals : Passes acrossLines .between .between ['='] :=
    .single (by simp) (by simp [TagState.step?])
  have hOpen : Passes acrossLines .between (.braced 1) ['\x7b'] :=
    .single (by simp) (by simp [TagState.step?])
  have hClose : Passes acrossLines (.braced 1) .between ['\x7d'] :=
    .single (by simp) (by simp [TagState.step?])
  have hWritten : ReadsBraces acrossLines 0 (braces v) (encode v) :=
    readsBraces_invariant.encode v 0
  have hInner := hWritten (by decide)
  rw [Nat.zero_add] at hInner
  unfold ReadsAttributes
  split_ifs with hReach
  · rw [if_pos hReach] at hInner
    exact ((hEquals.append hOpen).append hInner).append hClose
  · rw [if_neg hReach] at hInner
    exact ((hEquals.append hOpen).fails hInner).append _

/-- Quoted, bare and braced attributes alike are read with the levels of their value. -/
theorem readsAttributes_valueText {v : Value} (hShows : v.isFalse = false) :
    ReadsAttributes acrossLines (braces v) (valueText v) := by
  rcases valueText_cases hShows with ⟨rfl, hText⟩ | ⟨s, rfl, hQuote, hText⟩ | hText
  · rw [hText]
    exact .of_passes (.nil _)
  · have hEquals : Passes acrossLines .between .between ['='] :=
      .single (by simp) (by simp [TagState.step?])
    have hOpen : Passes acrossLines .between (.quoted '"') ['"'] :=
      .single (by simp) (by simp [TagState.step?])
    have hClose : Passes acrossLines (.quoted '"') .between ['"'] :=
      .single (by simp) (by simp [TagState.step?])
    rw [hText]
    exact .of_passes (((hEquals.append hOpen).append (.quotedRun hQuote)).append hClose)
  · rw [hText]
    exact readsAttributes_braced v

/-- Attributes are read in one piece, or not at all. -/
theorem readsAttributes_entryTexts {props : Props} (h : Readable props) :
    ReadsAttributes acrossLines (entriesBraces props) (entryTexts props) := by
  induction props with
  | nil => exact .of_passes (.nil _)
  | cons entry rest ih =>
      have hSpace : Passes acrossLines .between .between [' '] :=
        .single (by simp) (by simp [TagState.step?])
      have hName : Passes acrossLines .between .between entry.1.toList :=
        .betweenRun (isNamePart_of_isName (h.named entry (by simp)))
      have hValue : ReadsAttributes acrossLines (braces entry.2) (valueText entry.2) :=
        readsAttributes_valueText (h.shows entry (by simp))
      have hEntry := (ReadsAttributes.of_passes (hSpace.append hName)).append hValue
      have hBoth := hEntry.append (ih h.tail)
      rw [Nat.zero_max] at hBoth
      rw [entryTexts_cons, entryText]
      simpa [entriesBraces] using hBoth

end Page

/-- Every brace that a value of the props nests is within reach of a reader of tags. -/
def Props.Shallow (props : Props) : Prop :=
  Value.entriesBraces props < Page.braceDepth

instance (props : Props) : Decidable props.Shallow :=
  inferInstanceAs (Decidable (_ < _))

namespace Page

open Text Value Attribute

/-- Props that are not shown are false, and false has no braces. -/
theorem entriesBraces_visible (props : Props) :
    entriesBraces (Diff.visible props) = entriesBraces props := by
  induction props with
  | nil => rfl
  | cons entry rest ih =>
      obtain ⟨key, v⟩ := entry
      simp only [Diff.visible] at ih
      cases hShows : v.isFalse with
      | true =>
          have hBraces : braces v = 0 := by
            cases v with
            | boolean b => rfl
            | _ => cases hShows
          simp [Diff.visible, hShows, entriesBraces, hBraces, ih]
      | false => simp [Diff.visible, hShows, entriesBraces, ih]

section

variable (acrossLines : Bool) {props : Props}

/-- A rendered tag ends at its own `>`, and is not read at all if its braces nest too deep. -/
theorem splitAttributes?_attributes (h : props.Clean) (rest : Text) :
    splitAttributes? acrossLines .between (attributes props ++ '>' :: rest) =
      if props.Shallow then some (attributes props, rest) else none := by
  have hRead : ReadsAttributes acrossLines (entriesBraces (Diff.visible props))
      (entryTexts (Diff.visible props)) := readsAttributes_entryTexts (readable_visible h)
  rw [entriesBraces_visible, ← attributes_eq] at hRead
  unfold ReadsAttributes at hRead
  by_cases hReach : props.Shallow
  · have hPass := (if_pos hReach).mp hRead
    rw [if_pos hReach, hPass]
    simp [splitAttributes?]
  · have hFail := (if_neg hReach).mp hRead
    rw [if_neg hReach]
    exact hFail _

theorem isWordChar_of_mem_tag {kind : Kind} {c : Char} (h : c ∈ kind.tag) : isWordChar c = true := by
  have hAll : kind.tag.all isWordChar = true := by
    cases kind <;> decide
  exact List.all_eq_true.mp hAll c h

/-- The tag name of a written tag ends before its attributes, which begin with a blank or are none. -/
theorem stopsAt_attributes {p : Char → Bool} (props : Props) (rest : Text) (hSpace : p ' ' = false)
    (hClose : p '>' = false) : StopsAt p (attributes props ++ '>' :: rest) := by
  rw [attributes_eq]
  cases Diff.visible props with
  | nil => exact stopsAt_cons.mpr hClose
  | cons entry more => exact stopsAt_cons.mpr hSpace

/-- A written opening tag is read back whole when its props are shallow, and not at all otherwise. -/
theorem opening?_openingTag (kind : Kind) (h : props.Clean) (rest : Text) :
    opening? acrossLines (openingTag kind props ++ rest) =
      if props.Shallow then some ⟨kind.tag, attributes props, rest⟩ else none := by
  have hStop : StopsAt isWordChar (attributes props ++ '>' :: rest) :=
    stopsAt_attributes props rest (by decide) (by decide)
  have hWord : ∀ c ∈ kind.tag, isWordChar c = true := fun c hc => isWordChar_of_mem_tag hc
  have hTake := takeWhile_append_of_stopsAt hWord hStop
  have hDrop := dropWhile_append_of_stopsAt hWord hStop
  have hEmpty : kind.tag.isEmpty = false := by
    cases kind <;> decide
  have hText : openingTag kind props ++ rest =
      '<' :: (kind.tag ++ (attributes props ++ '>' :: rest)) := by
    simp [openingTag]
  rw [hText]
  simp only [opening?, hTake, hDrop, hEmpty, splitAttributes?_attributes acrossLines h]
  split_ifs <;> simp_all

end

/-- A value without `<` is written without it. -/
theorem angleFree_valueText {v : Value} (hShows : v.isFalse = false) (hFree : v.angleFree = true) :
    Text.angleFree (valueText v) = true := by
  rcases valueText_cases hShows with ⟨-, hText⟩ | ⟨s, rfl, -, hText⟩ | hText
  · rw [hText]
    rfl
  · have hChars : Text.angleFree s.toList = true := hFree
    rw [hText]
    simpa using hChars
  · rw [hText]
    simpa using angleFree_encode hFree

theorem angleFree_of_isName {name : Text} (h : isName name = true) : Text.angleFree name = true := by
  rw [angleFree_iff]
  intro hMem
  exact (isNamePart_spec (isNamePart_of_isName h _ hMem)).2.2.2.2 rfl

/-- Clean props are written without `<`. -/
theorem angleFree_attributes {props : Props} (h : props.Clean) :
    Text.angleFree (attributes props) = true := by
  rw [attributes_eq, angleFree_iff, entryTexts]
  intro hMem
  obtain ⟨entry, hEntry, hIn⟩ := List.mem_flatMap.mp hMem
  have hOld : entry ∈ props := List.mem_of_mem_filter hEntry
  have hName := angleFree_of_isName (h.named entry hOld)
  have hValue := angleFree_valueText (shows_visible props entry hEntry) (h.angleFree entry hOld)
  have hFree : Text.angleFree (' ' :: entryText entry) = true := by
    simp [entryText, hName, hValue]
  exact angleFree_iff.mp hFree hIn

end Page
end Wireframe
