import Wireframe.Proofs.Instruction.QuotedTexts
import Wireframe.Proofs.Text.Span

/-! Where a phrase matches. A phrase passes over a text at none of whose places its next words can
stand, and takes the value between the quotes behind them. What an instruction mentions, it mentions
outside the quotes or between them. -/
namespace Wireframe

namespace Text

variable {lead text rest : Text}

/-- What can be read right away is not looked for further on. -/
theorem firstSuffix?_of_read {α : Type} {read : Text → Option α} {found : α}
    (h : read text = some found) : firstSuffix? read text = some found := by
  cases text with
  | nil => exact h
  | cons c text => rw [firstSuffix?, h]

/-- A search passes over a text if it finds nothing at any place in it. -/
theorem firstSuffix?_append {α : Type} {read : Text → Option α} {before : Text}
    (h : ∀ place ∈ before.tails, place ≠ [] → read (place ++ rest) = none) :
    firstSuffix? read (before ++ rest) = firstSuffix? read rest := by
  induction before with
  | nil => rfl
  | cons c before ih =>
      rw [List.tails_cons, List.forall_mem_cons] at h
      have hHere := h.1 (List.cons_ne_nil c before)
      rw [List.cons_append] at hHere ⊢
      rw [firstSuffix?, hHere]
      exact ih h.2

/-- Words match at the start of a text in any case. -/
theorem afterCaseless?_append (h : text.map foldChar = lead) :
    afterCaseless? lead (text ++ rest) = some rest := by
  subst h
  induction text with
  | nil => rfl
  | cons c text ih => simp [afterCaseless?, ih]

/-- Two texts differ, without regard to case, before either of them ends. -/
def clashes (lead text : Text) : Bool :=
  (List.zipWith (fun a c => a != foldChar c) lead text).any id

/-- Words that clash with a text do not match there, whatever comes behind it. A clash can be
decided, so that fixed texts are skipped by evaluation. -/
theorem afterCaseless?_of_clashes (h : clashes lead text = true) :
    afterCaseless? lead (text ++ rest) = none := by
  induction lead generalizing text with
  | nil => cases h
  | cons a lead ih =>
      cases text with
      | nil => cases h
      | cons c text =>
          rw [List.cons_append, afterCaseless?]
          split
          · rename_i hSame
            refine ih ?_
            simpa [clashes, hSame] using h
          · rfl

end Text

/-- A value without quotes is read up to the quote behind it. -/
theorem quotedValue?_closing {value : Text} (hValue : value ≠ [])
    (hQuotes : ∀ c ∈ value, isQuote c = false) {first last : Char} (hFirst : isQuote first = true)
    (hLast : isQuote last = true) (rest : Text) :
    quotedValue? (first :: (value ++ last :: rest)) = some (value, rest) := by
  have hInside : ∀ c ∈ value, (!isQuote c) = true := fun c hc => by rw [hQuotes c hc]; rfl
  have hStop : Text.StopsAt (fun c => !isQuote c) (last :: rest) := by
    rw [Text.stopsAt_cons, hLast]
    rfl
  rw [quotedValue?, if_pos hFirst]
  simp only [Text.takeWhile_append_of_stopsAt hInside hStop,
    Text.dropWhile_append_of_stopsAt hInside hStop]
  rw [if_neg (by simpa using hValue)]

namespace Phrase

variable {follower : Option String} {pieces : List Piece} {choices : List String}
  {text rest value : Text}

/-- A value that holds no quote is read up to its closing quote. -/
theorem valueAfter?_closing (hValue : value ≠ []) (hQuotes : ∀ c ∈ value, isQuote c = false)
    {first last : Char} (hFirst : isQuote first = true) (hLast : isQuote last = true) :
    valueAfter? none [] (first :: (value ++ last :: rest)) = some value := by
  rw [valueAfter?, quotedValue?_closing hValue hQuotes hFirst hLast]
  rfl

/-- The first of some words is tried first. -/
theorem valueAfter?_words {word : String} (hWord : text.map foldChar = word.toList)
    (h : valueAfter? follower pieces rest = some value) :
    valueAfter? follower (.words (word :: choices) :: pieces) (text ++ rest) = some value := by
  rw [valueAfter?, List.findSome?_cons, Text.afterCaseless?_append hWord, Option.bind_some, h]

/-- No word can stand where each of them clashes with the text. -/
theorem valueAfter?_of_clashes (h : choices.all fun word => Text.clashes word.toList text) :
    valueAfter? follower (.words choices :: pieces) (text ++ rest) = none := by
  rw [valueAfter?, List.findSome?_eq_none_iff]
  intro word hWord
  rw [Text.afterCaseless?_of_clashes (List.all_eq_true.mp h word hWord)]
  rfl

/-- A search for words passes over a text if they clash with it at every place. -/
theorem firstSuffix?_of_clashes {before : Text}
    (h : before.tails.all fun place =>
      place.isEmpty || choices.all fun word => Text.clashes word.toList place) :
    Text.firstSuffix? (valueAfter? follower (.words choices :: pieces)) (before ++ rest) =
      Text.firstSuffix? (valueAfter? follower (.words choices :: pieces)) rest := by
  refine Text.firstSuffix?_append fun place hPlace hFilled => ?_
  have hClash := List.all_eq_true.mp h place hPlace
  rw [Bool.or_eq_true, List.isEmpty_iff] at hClash
  exact valueAfter?_of_clashes (hClash.resolve_left hFilled)

/-- The first phrase is tried first. -/
theorem firstValue?_head {phrase : Phrase} {phrases : List Phrase}
    (h : phrase.value? text = some value) :
    firstValue? (phrase :: phrases) text = some (String.ofList value) := by
  rw [firstValue?, List.findSome?_cons, h]
  rfl

/-- What a phrase takes from an instruction holds no quote. -/
theorem isQuote_of_firstValue? {phrases : List Phrase} {s : String}
    (h : firstValue? phrases text = some s) : ∀ c ∈ s.toList, isQuote c = false := by
  obtain ⟨value, rfl, hQuotes⟩ := quotes_of_firstValue? h
  rw [String.toList_ofList]
  exact hQuotes.unquoted

end Phrase

namespace Instruction

/-- A text with another one between quotes behind it. -/
def quoting (lead : String) (value : String) : Instruction :=
  lead.toList ++ '"' :: (value.toList ++ ['"'])

/-- Lower case goes through to the text between the quotes, which is why keywords are found there. -/
theorem lower_quoting (lead value : String) : Text.lower (quoting lead value) =
    Text.lower lead.toList ++ '"' :: (Text.lower value.toList ++ ['"']) := by
  have hQuote : lowerChar '"' = ['"'] := rfl
  simp [quoting, Text.lower, hQuote]

/-- A word without quotes stands in front of the quotes or between them. -/
theorem mentions_quoting {word : String} (hWord : '"' ∉ word.toList) (lead value : String) :
    mentions word (quoting lead value) =
      (mentions word lead.toList || mentions word value.toList) := by
  rw [Bool.eq_iff_iff, Bool.or_eq_true, mentions, mentions, mentions, Text.occurs_iff,
    Text.occurs_iff, Text.occurs_iff, lower_quoting, Text.infix_append_cons_iff hWord,
    Text.infix_append_cons_iff hWord]
  refine or_congr_right (or_iff_left_of_imp fun hNil => ?_)
  rw [List.infix_nil.mp hNil]
  exact List.nil_infix

def renameButton (name : String) : Instruction :=
  quoting "Rename the button to " name

/-- The request names what it quotes. -/
theorem newName?_renameButton {name : String} (hFilled : name ≠ "")
    (hQuotes : ∀ c ∈ name.toList, isQuote c = false) : newName? (renameButton name) = some name := by
  have hValue : name.toList ≠ [] := fun hNil => hFilled (String.toList_eq_nil_iff.mp hNil)
  have hText : renameButton name = "Rename".toList ++ (" the button ".toList ++ ("to ".toList ++
      '"' :: (name.toList ++ ['"']))) := rfl
  have hTaken : newName? (renameButton name) = some (String.ofList name.toList) := by
    refine Phrase.firstValue?_head ?_
    rw [hText, Phrase.value?, phrase]
    refine Text.firstSuffix?_of_read (Phrase.valueAfter?_words rfl ?_)
    rw [Phrase.valueAfter?, Phrase.firstSuffix?_of_clashes (by decide +kernel)]
    refine Text.firstSuffix?_of_read (Phrase.valueAfter?_words rfl ?_)
    exact Phrase.valueAfter?_closing hValue hQuotes rfl rfl
  rw [hTaken, String.ofList_toList]

def addCalled (label : String) : Instruction :=
  quoting "Add a button called " label

/-- The label is taken up to the first quote. -/
theorem buttonLabel?_addCalled {label : String} {value more : Text} {last : Char}
    (hLabel : label.toList ++ ['"'] = value ++ last :: more) (hValue : value ≠ [])
    (hQuotes : ∀ c ∈ value, isQuote c = false) (hLast : isQuote last = true) :
    buttonLabel? (addCalled label) = some (String.ofList value) := by
  have hText : addCalled label = "Add a ".toList ++ ("button ".toList ++ ("called".toList ++
      (" ".toList ++ '"' :: (value ++ last :: more)))) := by
    rw [addCalled, quoting, hLabel]
    rfl
  refine Phrase.firstValue?_head ?_
  rw [hText, Phrase.value?, phrase, Phrase.firstSuffix?_of_clashes (by decide +kernel)]
  refine Text.firstSuffix?_of_read (Phrase.valueAfter?_words rfl (Phrase.valueAfter?_words rfl
    (Phrase.valueAfter?_words rfl ?_)))
  exact Phrase.valueAfter?_closing hValue hQuotes rfl hLast

/-- The first quote in a text and a double quote behind it. -/
theorem exists_closing_quote (text : Text) : ∃ last more, isQuote last = true ∧
    text ++ ['"'] = (text.takeWhile fun c => c ≠ '\'') ++ last :: more := by
  induction text with
  | nil => exact ⟨'"', [], rfl, rfl⟩
  | cons c text ih =>
      by_cases hQuote : c = '\''
      · exact ⟨'\'', text ++ ['"'], rfl, by simp [hQuote]⟩
      · obtain ⟨last, more, hLast, hText⟩ := ih
        exact ⟨last, more, hLast, by simp [hQuote, hText]⟩

/-- A label that does not start with an apostrophe is taken up to the first one. -/
theorem buttonLabel?_takeWhile {label : String} (hLabel : IsQuotable label)
    (hHead : label.toList.head? ≠ some '\'') : buttonLabel? (addCalled label) =
      some (String.ofList (label.toList.takeWhile fun c => c ≠ '\'')) := by
  have hFilled : label.toList ≠ [] := fun hNil => hLabel.1 (String.toList_eq_nil_iff.mp hNil)
  have hQuotes : ∀ c ∈ label.toList.takeWhile fun c => c ≠ '\'', isQuote c = false := by
    intro c hc
    have hApostrophe : c ≠ '\'' := by simpa using List.mem_takeWhile_imp hc
    have hDouble : c ≠ '"' := fun hSame =>
      hLabel.2 (hSame ▸ (List.takeWhile_sublist _).subset hc)
    simp [isQuote, hApostrophe, hDouble]
  have hValue : (label.toList.takeWhile fun c => c ≠ '\'') ≠ [] := by
    obtain ⟨c, text, hText⟩ := List.exists_cons_of_ne_nil hFilled
    have hFirst : c ≠ '\'' := by simpa [hText] using hHead
    simp [hText, hFirst]
  obtain ⟨last, more, hLast, hText⟩ := exists_closing_quote label.toList
  exact buttonLabel?_addCalled hText hValue hQuotes hLast

/-- A label between double quotes is taken whole, in its own case and with its blanks and line breaks,
exactly if it holds no apostrophe. One that does not start with an apostrophe is taken up to the
first. -/
theorem buttonLabel?_quoted {label : String} (hLabel : IsQuotable label) :
    (buttonLabel? (addCalled label) = some label ↔ '\'' ∉ label.toList) ∧
      (label.toList.head? ≠ some '\'' → buttonLabel? (addCalled label) =
        some (String.ofList (label.toList.takeWhile fun c => c ≠ '\''))) := by
  refine ⟨⟨fun hWhole hMem => ?_, fun hFree => ?_⟩, buttonLabel?_takeWhile hLabel⟩
  · exact absurd (Phrase.isQuote_of_firstValue? hWhole _ hMem) (by decide)
  · have hHead : label.toList.head? ≠ some '\'' := fun hFirst =>
      hFree (List.mem_of_mem_head? (Option.mem_def.mpr hFirst))
    have hAll : (label.toList.takeWhile fun c => c ≠ '\'') = label.toList := by
      rw [List.takeWhile_eq_self_iff]
      intro c hc
      have hApostrophe : c ≠ '\'' := fun hSame => hFree (hSame ▸ hc)
      simpa using hApostrophe
    rw [buttonLabel?_takeWhile hLabel hHead, hAll, String.ofList_toList]

theorem buttonLabel?_quoted_withLineBreak :
    IsQuotable "Save as\n button 2" ∧
      buttonLabel? (addCalled "Save as\n button 2") = some "Save as\n button 2" := by
  have hLabel : IsQuotable "Save as\n button 2" := by decide
  exact ⟨hLabel, (buttonLabel?_quoted hLabel).1.mpr (by decide)⟩

/-- A label is cut short at an apostrophe. -/
theorem cut_short_label :
    IsQuotable "Don't save" ∧ buttonLabel? (addCalled "Don't save") = some "Don" ∧
      buttonLabel? (addCalled "Don't save") ≠ some "Don't save" := by
  decide +kernel

end Instruction
end Wireframe
