import Wireframe.Proofs.Instruction.Matching

/-! What is taken from an instruction stands between quotes there. A quoted value is never empty and
never holds a quote, whichever phrase took it, and the columns of a table are named by quoted values
as soon as the instruction holds one. -/
namespace Wireframe

/-- Either kind of quotes opens and closes a value, and they need not match. -/
theorem isQuote_iff {c : Char} : isQuote c = true ↔ c ∈ ['"', '\''] := by
  simp [isQuote]

namespace Instruction

variable {instruction : Instruction} {s : String}

/-- A text stands between quotes in an instruction. It is not empty and holds no quote of either
kind, and there is a quote directly in front of it and one directly behind it. -/
structure Encloses (instruction : Instruction) (s : String) : Prop where
  filled : s ≠ ""
  unquoted : ∀ quote ∈ ['"', '\''], quote ∉ s.toList
  between : ∃ first ∈ ['"', '\''], ∃ last ∈ ['"', '\''],
    first :: (s.toList ++ [last]) <:+: instruction

/-- The reader of quoted values can read exactly the texts that stand between quotes. -/
theorem encloses_ofList_iff {value : Text} :
    instruction.Encloses (String.ofList value) ↔ Text.Quotes instruction value := by
  constructor
  · rintro ⟨hFilled, hUnquoted, first, hFirst, last, hLast, before, after, hText⟩
    rw [String.toList_ofList] at hUnquoted hText
    have hValue : value ≠ [] := fun hNil => hFilled (by rw [hNil])
    have hQuotes : ∀ c ∈ value, isQuote c = false := fun c hc =>
      Bool.eq_false_of_not_eq_true fun hQuote => hUnquoted c (isQuote_iff.mp hQuote) hc
    refine ⟨first :: (value ++ last :: after), after, ⟨before, ?_⟩, ?_⟩
    · simpa using hText
    · exact quotedValue?_closing hValue hQuotes (isQuote_iff.mpr hFirst) (isQuote_iff.mpr hLast) after
  · intro h
    obtain ⟨first, last, hFirst, hLast, hBetween⟩ := h.between
    refine ⟨h.ofList_ne_empty, fun quote hQuote hMem => ?_, ?_⟩
    · rw [String.toList_ofList] at hMem
      exact absurd (isQuote_iff.mpr hQuote) (by rw [h.unquoted quote hMem]; decide)
    · rw [String.toList_ofList]
      exact ⟨first, isQuote_iff.mp hFirst, last, isQuote_iff.mp hLast, hBetween⟩

/-- What any phrase takes stood between quotes. -/
theorem encloses_of_firstValue? {phrases : List Phrase}
    (h : Phrase.firstValue? phrases instruction = some s) : instruction.Encloses s := by
  obtain ⟨value, rfl, hQuotes⟩ := Phrase.quotes_of_firstValue? h
  exact encloses_ofList_iff.mpr hQuotes

/-- Where the search for all quoted values finds none, there is none at any place of the text. -/
theorem quotedValue?_of_suffix {text part : Text} (h : quotedValuesFrom 0 text = [])
    (hPart : part <:+ text) : quotedValue? part = none := by
  induction text with
  | nil =>
      rw [List.suffix_nil.mp hPart]
      rfl
  | cons c text ih =>
      rw [quotedValuesFrom] at h
      split at h
      · cases h
      · rename_i hNone
        rcases List.suffix_cons_iff.mp hPart with rfl | hPart
        · exact hNone
        · exact ih h hPart

/-- There are quoted values exactly if some text stands between quotes. -/
theorem quotedValues_eq_nil_iff :
    quotedValues instruction = [] ↔ ∀ s, ¬ instruction.Encloses s := by
  constructor
  · intro hNone s hEncloses
    rw [← @String.ofList_toList s] at hEncloses
    obtain ⟨part, rest, hPart, hValue⟩ := encloses_ofList_iff.mp hEncloses
    rw [quotedValue?_of_suffix hNone hPart] at hValue
    cases hValue
  · intro hNone
    refine List.eq_nil_iff_forall_not_mem.mpr fun value hValue => ?_
    have hQuotes := quotes_of_mem_quotedValuesFrom 0 instruction hValue
    exact hNone (String.ofList value) (encloses_ofList_iff.mpr hQuotes)

/-- Columns are taken as quoted where anything is quoted. -/
theorem tableColumns_of_quoted (h : quotedValues instruction ≠ []) :
    instruction.tableColumns = (quotedValues instruction).map String.ofList := by
  rw [tableColumns]
  split
  · exact absurd ‹_› h
  · rfl

/-- Without quoted values the columns are the usual ones, or some of those that keywords stand for
in the order of the keywords. -/
theorem tableColumns_of_unquoted (h : quotedValues instruction = []) :
    instruction.tableColumns = usualColumns ∨ instruction.tableColumns ≠ [] ∧
      List.Sublist instruction.tableColumns (keywordColumns.map Prod.snd) := by
  rw [tableColumns, h]
  dsimp only
  split
  · exact .inl rfl
  · rename_i hSome
    exact .inr ⟨by simpa using hSome, List.filter_sublist.map Prod.snd⟩

def valueReaders : List (Instruction → Option String) :=
  [buttonLabel?, placeholder?, label?, chartTitle?, modalTitle?, newLabel?, newTitle?,
    newPlaceholder?, newName?]

/-- Every reader of values tries phrases in order, so that one lemma on phrases settles all of them. -/
theorem exists_phrases_of_mem_valueReaders {read : Instruction → Option String}
    (h : read ∈ valueReaders) : ∃ phrases, read = Phrase.firstValue? phrases := by
  simp only [valueReaders, List.mem_cons, List.not_mem_nil, or_false] at h
  rcases h with rfl | rfl | rfl | rfl | rfl | rfl | rfl | rfl | rfl <;> exact ⟨_, rfl⟩

/-- Every value that is taken from an instruction stands between quotes there. A table has columns,
and they stand between quotes too; where nothing does, they are among the names that need not be
given, and none is there twice. -/
theorem encloses_of_extracted (instruction : Instruction) :
    (∀ read ∈ valueReaders, ∀ s, read instruction = some s → instruction.Encloses s) ∧
      instruction.tableColumns ≠ [] ∧
      ((∀ column ∈ instruction.tableColumns, instruction.Encloses column) ∨
        (∀ s, ¬ instruction.Encloses s) ∧ instruction.tableColumns.Nodup ∧
          instruction.tableColumns ⊆ usualColumns ++ keywordColumns.map Prod.snd) := by
  refine ⟨fun read hRead s hValue => ?_, ?_⟩
  · obtain ⟨phrases, rfl⟩ := exists_phrases_of_mem_valueReaders hRead
    exact encloses_of_firstValue? hValue
  by_cases hNone : quotedValues instruction = []
  · have hColumns : instruction.tableColumns ≠ [] ∧ instruction.tableColumns.Nodup ∧
        instruction.tableColumns ⊆ usualColumns ++ keywordColumns.map Prod.snd := by
      rcases tableColumns_of_unquoted hNone with hUsual | ⟨hFilled, hKeywords⟩
      · rw [hUsual]
        decide
      · exact ⟨hFilled, hKeywords.nodup (by decide),
          List.subset_append_of_subset_right _ hKeywords.subset⟩
    exact ⟨hColumns.1, .inr ⟨quotedValues_eq_nil_iff.mp hNone, hColumns.2⟩⟩
  · rw [tableColumns_of_quoted hNone]
    refine ⟨by simpa using hNone, .inl fun column hColumn => ?_⟩
    obtain ⟨value, hValue, rfl⟩ := List.mem_map.mp hColumn
    exact encloses_ofList_iff.mpr (quotes_of_mem_quotedValuesFrom 0 instruction hValue)

/-- An instruction in which every reader finds something, with quotes that do not pair. -/
def mixedQuotes : Instruction :=
  "RENAME it to \"Go' with placeholder 'Find\", title \"A\", label \"B\", button called \"C\"".toList

theorem encloses_of_extracted_mixedQuotes :
    newName? mixedQuotes = some "Go" ∧ mixedQuotes.Encloses "Go" ∧
      ∀ read ∈ valueReaders, ∃ s, read mixedQuotes = some s ∧ mixedQuotes.Encloses s := by
  have hName : newName? mixedQuotes = some "Go" := by decide +kernel
  have hFound : ∀ read ∈ valueReaders, (read mixedQuotes).isSome := by decide +kernel
  refine ⟨hName, (encloses_of_extracted mixedQuotes).1 newName? (by simp [valueReaders]) "Go" hName,
    fun read hRead => ?_⟩
  obtain ⟨s, hValue⟩ := Option.isSome_iff_exists.mp (hFound read hRead)
  exact ⟨s, hValue, (encloses_of_extracted mixedQuotes).1 read hRead s hValue⟩

end Instruction
end Wireframe
