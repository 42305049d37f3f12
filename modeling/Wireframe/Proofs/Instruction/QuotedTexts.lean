import Wireframe.Instruction.Extract
import Wireframe.Proofs.Text.Occurrence
import Wireframe.Proofs.Text.Span

/-! Texts taken from an instruction. A text between quotes is not empty and holds no quote, and it
holds no character that the instruction does not hold. -/
namespace Wireframe

/-- A text that can identify a component and that a page can hold: it is not empty and holds no
`<`. -/
def IsCaption (s : String) : Prop :=
  s ≠ "" ∧ Text.angleFree s.toList = true

instance (s : String) : Decidable (IsCaption s) :=
  inferInstanceAs (Decidable (_ ∧ _))

/-- A text that can stand between double quotes: it is not empty and holds none. -/
def IsQuotable (s : String) : Prop :=
  s ≠ "" ∧ '"' ∉ s.toList

instance (s : String) : Decidable (IsQuotable s) :=
  inferInstanceAs (Decidable (_ ∧ _))

namespace Text

/-- What follows a match is the end of the text. -/
theorem suffix_of_afterCaseless? {lead text rest : Text} (h : afterCaseless? lead text = some rest) :
    rest <:+ text := by
  induction lead generalizing text with
  | nil =>
      cases h
      exact List.suffix_rfl
  | cons a lead ih =>
      cases text with
      | nil => cases h
      | cons c text =>
          rw [afterCaseless?] at h
          split at h
          · exact (ih h).trans (List.suffix_cons c text)
          · cases h

/-- What a search finds was read at the start of some suffix. -/
theorem read_of_firstSuffix? {α : Type} {read : Text → Option α} {text : Text} {found : α}
    (h : firstSuffix? read text = some found) :
    ∃ suffix, suffix <:+ text ∧ read suffix = some found := by
  induction text with
  | nil => exact ⟨[], List.suffix_rfl, h⟩
  | cons c text ih =>
      rw [firstSuffix?] at h
      split at h
      · rename_i hRead
        cases h
        exact ⟨c :: text, List.suffix_rfl, hRead⟩
      · obtain ⟨suffix, hSuffix, hRead⟩ := ih h
        exact ⟨suffix, hSuffix.trans (List.suffix_cons c text), hRead⟩

/-- A text made of the characters of another has no `<` that the other has not. -/
theorem angleFree_of_subset {text other : Text} (h : angleFree text = true) (hSub : other ⊆ text) :
    angleFree other = true := by
  rw [angleFree_iff] at h ⊢
  exact fun hMem => h (hSub hMem)

end Text

/-- A value between quotes is not empty and holds no quote, and it stands in the text as it is, with
a quote on either side. -/
theorem quotedValue?_sound {text value rest : Text} (h : quotedValue? text = some (value, rest)) :
    value ≠ [] ∧ (∀ c ∈ value, isQuote c = false) ∧ ∃ start stop, isQuote start = true ∧
      isQuote stop = true ∧ text = start :: value ++ stop :: rest := by
  unfold quotedValue? at h
  split at h
  · cases h
  · rename_i start text
    split at h
    · rename_i hStart
      dsimp only at h
      split at h
      · cases h
      · rename_i stop rest hRest
        split at h
        · cases h
        · rename_i hFilled
          cases h
          have hStop : isQuote stop = true := by
            have hEnd := Text.stopsAt_dropWhile (fun c => !isQuote c) text
            rw [hRest, Text.stopsAt_cons] at hEnd
            simpa using hEnd
          refine ⟨fun hNil => hFilled (by rw [hNil]; rfl), fun c hc => ?_, start, stop, hStart,
            hStop, ?_⟩
          · simpa using List.mem_takeWhile_imp hc
          · rw [← hRest, List.cons_append, List.takeWhile_append_dropWhile]
    · cases h

/-- The value stands between quotes somewhere in the text. -/
def Text.Quotes (text value : Text) : Prop :=
  ∃ part rest, part <:+ text ∧ quotedValue? part = some (value, rest)

namespace Text.Quotes

variable {text other value : Text}

/-- A value that stands between quotes in the end of a text stands so in the text. -/
theorem mono (h : Quotes text value) (hSuffix : text <:+ other) : Quotes other value := by
  obtain ⟨part, rest, hPart, hValue⟩ := h
  exact ⟨part, rest, hPart.trans hSuffix, hValue⟩

/-- A quoted value holds no quote of either kind, since the first one ends it. -/
theorem unquoted (h : Quotes text value) : ∀ c ∈ value, isQuote c = false := by
  obtain ⟨part, rest, -, hValue⟩ := h
  exact (quotedValue?_sound hValue).2.1

/-- The value stands in the text with a quote on either side. -/
theorem between (h : Quotes text value) : ∃ first last, isQuote first = true ∧
    isQuote last = true ∧ first :: (value ++ [last]) <:+: text := by
  obtain ⟨part, rest, ⟨before, rfl⟩, hValue⟩ := h
  obtain ⟨-, -, first, last, hFirst, hLast, rfl⟩ := quotedValue?_sound hValue
  exact ⟨first, last, hFirst, hLast, before, rest, by simp⟩

/-- The value is a part of the text. -/
theorem part (h : Quotes text value) : value <:+: text := by
  obtain ⟨first, last, -, -, hBetween⟩ := h.between
  exact List.IsInfix.trans ⟨[first], [last], rfl⟩ hBetween

theorem ofList_ne_empty (h : Quotes text value) : String.ofList value ≠ "" := by
  obtain ⟨part, rest, -, hValue⟩ := h
  intro hEmpty
  apply (quotedValue?_sound hValue).1
  rw [← @String.toList_ofList value, hEmpty]
  rfl

/-- A quoted value can be shown between double quotes again. -/
theorem isQuotable (h : Quotes text value) : IsQuotable (String.ofList value) := by
  refine ⟨h.ofList_ne_empty, fun hQuote => ?_⟩
  rw [String.toList_ofList] at hQuote
  exact absurd (h.unquoted _ hQuote) (by decide)

end Text.Quotes

/-- Every value that the scan finds stands between quotes in the text. -/
theorem quotes_of_mem_quotedValuesFrom {value : Text} :
    ∀ (skip : Nat) (text : Text), value ∈ quotedValuesFrom skip text → text.Quotes value := by
  intro skip text
  induction text generalizing skip with
  | nil =>
      intro h
      cases skip <;> cases h
  | cons c text ih =>
      intro h
      cases skip with
      | succ skip => exact (ih skip h).mono (List.suffix_cons c text)
      | zero =>
          rw [quotedValuesFrom] at h
          split at h
          · rename_i hQuoted
            rcases List.mem_cons.mp h with rfl | h
            · exact ⟨_, _, List.suffix_rfl, hQuoted⟩
            · exact (ih _ h).mono (List.suffix_cons c text)
          · exact (ih _ h).mono (List.suffix_cons c text)

namespace Phrase

/-- The value of a phrase stands between quotes, whatever pieces come before it. -/
theorem quotes_of_valueAfter? {follower : Option String} {pieces : List Piece} {value : Text} :
    ∀ {text : Text}, valueAfter? follower pieces text = some value → text.Quotes value := by
  induction pieces with
  | nil =>
      intro text h
      rw [valueAfter?] at h
      split at h
      · rename_i hQuoted
        split at h
        · cases h
          exact ⟨_, _, List.suffix_rfl, hQuoted⟩
        · cases h
      · cases h
  | cons piece pieces ih =>
      intro text h
      cases piece with
      | words choices =>
          rw [valueAfter?] at h
          obtain ⟨word, _, hWord⟩ := List.exists_of_findSome?_eq_some h
          obtain ⟨rest, hRest, hValue⟩ := Option.bind_eq_some_iff.mp hWord
          exact (ih hValue).mono (Text.suffix_of_afterCaseless? hRest)
      | gap =>
          rw [valueAfter?] at h
          obtain ⟨suffix, hSuffix, hValue⟩ := Text.read_of_firstSuffix? h
          exact (ih hValue).mono hSuffix

/-- What a phrase takes from an instruction stands between quotes there. -/
theorem quotes_of_firstValue? {phrases : List Phrase} {text : Text} {s : String}
    (h : firstValue? phrases text = some s) : ∃ value, s = String.ofList value ∧ text.Quotes value := by
  rw [firstValue?, Option.map_eq_some_iff] at h
  obtain ⟨value, hFound, rfl⟩ := h
  obtain ⟨phrase, _, hValue⟩ := List.exists_of_findSome?_eq_some hFound
  obtain ⟨suffix, hSuffix, hRead⟩ := Text.read_of_firstSuffix? hValue
  exact ⟨value, rfl, (quotes_of_valueAfter? hRead).mono hSuffix⟩

/-- What a phrase takes from an instruction is a part of it. -/
theorem infix_of_firstValue? {phrases : List Phrase} {text : Text} {s : String}
    (h : firstValue? phrases text = some s) : s.toList <:+: text := by
  obtain ⟨value, rfl, hQuotes⟩ := quotes_of_firstValue? h
  rw [String.toList_ofList]
  exact hQuotes.part

/-- What a phrase takes from an instruction without `<` is a caption. -/
theorem isCaption_firstValue? {phrases : List Phrase} {text : Text}
    (hText : Text.angleFree text = true) {s : String} (h : firstValue? phrases text = some s) :
    IsCaption s := by
  refine ⟨?_, Text.angleFree_of_subset hText (infix_of_firstValue? h).subset⟩
  obtain ⟨value, rfl, hQuotes⟩ := quotes_of_firstValue? h
  exact hQuotes.ofList_ne_empty

/-- What a phrase takes can be shown between double quotes. -/
theorem isQuotable_firstValue? {phrases : List Phrase} {text : Text} {s : String}
    (h : firstValue? phrases text = some s) : IsQuotable s := by
  obtain ⟨value, rfl, hQuotes⟩ := quotes_of_firstValue? h
  exact hQuotes.isQuotable

end Phrase

namespace Instruction

variable {instruction : Instruction}

/-- A text that is taken by phrases, or stands in where no phrase matches. -/
theorem holds_getD {P : String → Prop} {phrases : List Phrase} {usual : String} (hUsual : P usual)
    (hTaken : ∀ s, Phrase.firstValue? phrases instruction = some s → P s) :
    P ((Phrase.firstValue? phrases instruction).getD usual) := by
  cases hValue : Phrase.firstValue? phrases instruction with
  | none => exact hUsual
  | some s => exact hTaken s hValue

/-- The same with a text that stands in where no phrase matches. -/
theorem isCaption_getD (h : Text.angleFree instruction = true) {phrases : List Phrase}
    {usual : String} (hUsual : IsCaption usual) :
    IsCaption ((Phrase.firstValue? phrases instruction).getD usual) :=
  holds_getD hUsual fun _ => Phrase.isCaption_firstValue? h

theorem isQuotable_getD {phrases : List Phrase} {usual : String} (hUsual : IsQuotable usual) :
    IsQuotable ((Phrase.firstValue? phrases instruction).getD usual) :=
  holds_getD hUsual fun _ => Phrase.isQuotable_firstValue?

/-- A column is quoted in the instruction, or it is one of those that need not be named. -/
theorem tableColumns_cases {column : String} (h : column ∈ instruction.tableColumns) :
    (∃ value, column = String.ofList value ∧ Text.Quotes instruction value) ∨
      column ∈ usualColumns ++ keywordColumns.map Prod.snd := by
  rw [tableColumns] at h
  split at h
  · dsimp only at h
    split at h
    · exact .inr (List.mem_append_left _ h)
    · obtain ⟨entry, hEntry, rfl⟩ := List.mem_map.mp h
      exact .inr (List.mem_append_right _ (List.mem_map_of_mem (List.mem_of_mem_filter hEntry)))
  · obtain ⟨value, hValue, rfl⟩ := List.mem_map.mp h
    exact .inl ⟨value, rfl, quotes_of_mem_quotedValuesFrom 0 instruction hValue⟩

/-- Columns hold no `<` if the instruction holds none. -/
theorem angleFree_tableColumns (h : Text.angleFree instruction = true) :
    ∀ column ∈ instruction.tableColumns, Text.angleFree column.toList = true := by
  intro column hColumn
  have hUsual : ∀ name ∈ usualColumns ++ keywordColumns.map Prod.snd,
      Text.angleFree name.toList = true := by decide
  rcases tableColumns_cases hColumn with ⟨value, rfl, hQuotes⟩ | hName
  · rw [String.toList_ofList]
    exact Text.angleFree_of_subset h hQuotes.part.subset
  · exact hUsual column hName

/-- The type of a chart is one of few words, whatever the instruction says. -/
theorem mem_chartTypes_chartType : instruction.chartType ∈ chartTypes := by
  rw [chartType]
  cases hFind : chartTypes.find? fun name => instruction.mentions name with
  | none => decide
  | some name => exact List.mem_of_find?_eq_some hFind

theorem isCaption_chartType : IsCaption instruction.chartType := by
  have hTypes : ∀ name ∈ chartTypes, IsCaption name := by decide
  exact hTypes _ mem_chartTypes_chartType

/-- An instruction mentions a word that stands, in any case, in a part of it. -/
theorem mentions_of_part {word : String} {part : Text} (hPart : part <:+: instruction)
    (h : word.toList <:+: Text.lower part) : instruction.mentions word = true := by
  obtain ⟨before, after, rfl⟩ := hPart
  apply (Text.occurs_iff _ _).mpr
  have hLower : Text.lower part <:+: Text.lower (before ++ part ++ after) :=
    ⟨Text.lower before, Text.lower after, by simp [Text.lower]⟩
  exact h.trans hLower

end Instruction

namespace Verb

/-- The keywords of the verbs that take precedence over a verb. -/
def precedingKeywords (verb : Verb) : List String :=
  (keywords.takeWhile fun entry => entry.1 ≠ verb).flatMap Prod.snd

/-- An instruction with a verb mentions none of the keywords that take precedence. -/
theorem mentions_eq_false_of_preceding {instruction : Instruction} {verb : Verb}
    (h : of? instruction = some verb) {word : String} (hWord : word ∈ verb.precedingKeywords) :
    instruction.mentions word = false := by
  obtain ⟨entry, hFind, rfl⟩ := Option.map_eq_some_iff.mp h
  obtain ⟨-, before, after, hKeywords, hBefore⟩ := List.find?_eq_some_iff_append.mp hFind
  obtain ⟨earlier, hEarlier, hWord⟩ := List.mem_flatMap.mp hWord
  -- the search for the verb stops at its own row at the latest
  have hRow : earlier ∈ before := by
    rw [hKeywords, List.takeWhile_append] at hEarlier
    split at hEarlier
    · simpa using hEarlier
    · exact (List.takeWhile_subset _) hEarlier
  have hSilent := hBefore earlier hRow
  rw [Bool.not_eq_true', List.any_eq_false] at hSilent
  exact Bool.eq_false_of_not_eq_true (hSilent word hWord)

end Verb

end Wireframe
