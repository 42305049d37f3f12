import Wireframe.Page.Diff
import Wireframe.Proofs.Instruction.QuotedTexts
import Wireframe.Proofs.Text.Occurrence

/-! Log entries read back. An entry with a text between quotes is read by the words before the quote,
so that the text itself is never mistaken for them. Other entries are known by words that stand
anywhere in them, and these words can also stand in a text that an entry quotes. -/
namespace Wireframe

namespace Text

/-- A search finds nothing where nothing can be read in any part of the text. -/
theorem firstSuffix?_eq_none {α : Type} {read : Text → Option α} {text : Text}
    (h : ∀ part, part <:+ text → read part = none) : firstSuffix? read text = none := by
  cases hFound : firstSuffix? read text with
  | none => rfl
  | some found =>
      obtain ⟨part, hPart, hRead⟩ := read_of_firstSuffix? hFound
      cases (h part hPart).symm.trans hRead

/-- What can be read behind some text is found, unless something is found before it. -/
theorem isSome_firstSuffix? {α : Type} {read : Text → Option α} (before : Text) {part : Text}
    (h : (read part).isSome = true) : (firstSuffix? read (before ++ part)).isSome = true := by
  induction before with
  | nil =>
      cases part with
      | nil => exact h
      | cons c part =>
          obtain ⟨found, hRead⟩ := Option.isSome_iff_exists.mp h
          simp [firstSuffix?, hRead]
  | cons c before ih =>
      rw [List.cons_append, firstSuffix?]
      split
      · rfl
      · exact ih

/-- A word without the signs between texts stands within one of them. -/
theorem infix_intercalate_iff {word : Text} (hComma : ',' ∉ word) (hSpace : word.head? ≠ some ' ')
    (hWord : word ≠ []) (texts : List Text) :
    word <:+: [',', ' '].intercalate texts ↔ ∃ text ∈ texts, word <:+: text := by
  induction texts with
  | nil => simpa using hWord
  | cons text texts ih =>
      cases texts with
      | nil => simp
      | cons other texts =>
          have hJoin : [',', ' '].intercalate (text :: other :: texts) =
              text ++ ',' :: ' ' :: [',', ' '].intercalate (other :: texts) := by
            simp
          rw [hJoin, infix_append_cons_iff hComma, infix_cons_iff_of_head_ne hSpace, ih]
          simp

end Text

namespace Diff

open Text

/-- The text between double quotes behind some words at the start of a text. -/
def readLogged (words text : Text) : Option Text :=
  match after? words text with
  | some ('"' :: rest) =>
    let value := rest.takeWhile (· ≠ '"')
    if value.isEmpty || value.length = rest.length then none else some value
  | _ => none

theorem loggedText?_eq (words entry : String) : loggedText? words entry =
    (firstSuffix? (readLogged words.toList) entry.toList).map String.ofList := rfl

/-- What is taken from an entry stands between quotes right behind the words. -/
theorem readLogged_sound {words text value : Text} (h : readLogged words text = some value) :
    value ≠ [] ∧ ∃ rest, text = words ++ '"' :: rest ∧ value = rest.takeWhile (· ≠ '"') := by
  unfold readLogged at h
  split at h
  · rename_i rest hAfter
    dsimp only at h
    split at h
    · cases h
    · rename_i hFilled
      cases h
      refine ⟨fun hNil => hFilled ?_, rest, eq_append_of_after? hAfter, rfl⟩
      rw [hNil]
      rfl
  · cases h

/-- A text without double quotes ends at the closing one. -/
theorem takeWhile_closing {s : Text} (hs : '"' ∉ s) : (s ++ ['"']).takeWhile (· ≠ '"') = s := by
  have hAll : ∀ c ∈ s, decide (c ≠ '"') = true := by
    intro c hc
    simpa using ne_of_mem_of_not_mem hc hs
  rw [List.takeWhile_append_of_pos hAll]
  simp

/-- A text without double quotes is taken as it stands between the quotes. -/
theorem readLogged_quoting {words s : Text} (hs : '"' ∉ s) (hFilled : s ≠ []) :
    readLogged words (words ++ '"' :: (s ++ ['"'])) = some s := by
  unfold readLogged
  rw [after?_append]
  simp only [takeWhile_closing hs]
  simp [hFilled]

/-- Nothing but the text between the quotes of an entry is read, and only behind the words before
them. -/
theorem eq_of_readLogged {words lead s part value : Text} (hLead : '"' ∉ lead)
    (hs : '"' ∉ s) (hPart : part <:+ lead ++ '"' :: (s ++ ['"']))
    (h : readLogged words part = some value) : value = s ∧ words <:+ lead := by
  obtain ⟨hFilled, rest, rfl, rfl⟩ := readLogged_sound h
  obtain ⟨before, hWhole⟩ := hPart
  rw [← List.append_assoc] at hWhole
  have hOpening : before ++ words = lead ∧ rest = s ++ ['"'] := by
    rcases place_beside hWhole with ⟨more, hMore, hTail⟩ | ⟨more, rfl, -⟩
    · cases more with
      | nil => exact ⟨by simpa using hMore, by simpa using hTail.symm⟩
      | cons c more =>
          -- the words would end before the closing quote, and nothing follows that
          obtain ⟨rfl, hClosing⟩ := List.cons.inj hTail
          obtain ⟨-, -, rfl⟩ :=
            (List.append_cons_inj_of_notMem hs List.not_mem_nil).mp hClosing
          exact absurd rfl hFilled
    · exact absurd (by simp) hLead
  obtain ⟨hWords, rfl⟩ := hOpening
  exact ⟨takeWhile_closing hs, before, hWords⟩

/-- An entry with a text between quotes is read exactly by words that end where the quotes start. -/
theorem loggedText?_quoting {words lead s : String} (hLead : '"' ∉ lead.toList)
    (hs : IsQuotable s) : loggedText? words (lead ++ "\"" ++ s ++ "\"") =
      if words.toList <:+ lead.toList then some s else none := by
  have hEntry : (lead ++ "\"" ++ s ++ "\"").toList = lead.toList ++ '"' :: (s.toList ++ ['"']) := by
    simp
  have hFilled : s.toList ≠ [] := fun hNil => hs.1 (String.toList_eq_nil_iff.mp hNil)
  rw [loggedText?_eq, hEntry]
  split
  · rename_i hWords
    obtain ⟨before, hBefore⟩ := hWords
    have hHere : (readLogged words.toList
        (words.toList ++ '"' :: (s.toList ++ ['"']))).isSome = true := by
      rw [readLogged_quoting hs.2 hFilled]
      rfl
    have hSome := isSome_firstSuffix? before hHere
    rw [← List.append_assoc, hBefore] at hSome
    obtain ⟨value, hValue⟩ := Option.isSome_iff_exists.mp hSome
    obtain ⟨part, hPart, hRead⟩ := read_of_firstSuffix? hValue
    rw [hValue, (eq_of_readLogged hLead hs.2 hPart hRead).1]
    simp
  · rename_i hWords
    rw [firstSuffix?_eq_none fun part hPart => ?_]
    · rfl
    cases hRead : readLogged words.toList part with
    | none => rfl
    | some value => exact absurd (eq_of_readLogged hLead hs.2 hPart hRead).2 hWords

/-- An entry without a quote holds no text between quotes. -/
theorem loggedText?_of_notMem {words entry : String} (h : '"' ∉ entry.toList) :
    loggedText? words entry = none := by
  rw [loggedText?_eq, firstSuffix?_eq_none fun part hPart => ?_]
  · rfl
  cases hRead : readLogged words.toList part with
  | none => rfl
  | some value =>
      obtain ⟨-, rest, rfl, -⟩ := readLogged_sound hRead
      exact absurd (hPart.subset (by simp)) h

/-- The words of the entries that tell of a replacement. -/
def replacements : List String :=
  ["Replaced table with chart", "Replaced chart with table"]

/-- The words of the entries that are known by words alone. -/
def wordings : List String :=
  "Removed button" :: replacements

/-- The operation of an entry that is known by its words alone. -/
def worded? (entry : String) : Option Operation :=
  if logs "Removed button" entry then some (.remove (.leaf .button []))
  else if logs "Replaced table with chart" entry then
    some (.replace (.leaf .table []) Template.replacementChart)
  else if logs "Replaced chart with table" entry then
    some (.replace (.leaf .chart []) Template.replacementTable)
  else none

/-- The reading of entries asks for words anywhere in the entry, within quotes as well. -/
theorem logs_iff (words entry : String) :
    logs words entry = true ↔ words.toList <:+: entry.toList :=
  occurs_iff _ _

/-- An entry names nothing by its words exactly if it holds none of the known words. -/
theorem worded?_eq_none_iff {entry : String} :
    worded? entry = none ↔ ∀ words ∈ wordings, ¬ words.toList <:+: entry.toList := by
  simp only [wordings, replacements, List.forall_mem_cons, ← logs_iff]
  unfold worded?
  split_ifs <;> simp_all

/-- An entry is read by its quoted text first, and by its words alone last. -/
theorem ofEntry?_eq (entry : String) : ofEntry? entry =
    match loggedText? "Added button " entry with
    | some label => some (.addRoot (Template.button label))
    | none =>
    match loggedText? "Added input field " entry with
    | some label => some (.addRoot (Template.labeledInput ("Enter " ++ label) label))
    | none =>
    match loggedText? "Changed button label to " entry with
    | some label => some (.updateProps (.leaf .button []) [.set "children" (.text label)])
    | none => worded? entry := rfl

/-- Without quotes only the words of an entry count. -/
theorem ofEntry?_of_notMem {entry : String} (h : '"' ∉ entry.toList) :
    ofEntry? entry = worded? entry := by
  rw [ofEntry?_eq, loggedText?_of_notMem h, loggedText?_of_notMem h, loggedText?_of_notMem h]

/-- An entry that quotes nothing and holds no words of an operation. -/
def Silent (entry : String) : Prop :=
  '"' ∉ entry.toList ∧ ∀ words ∈ wordings, ¬ words.toList <:+: entry.toList

instance (entry : String) : Decidable (Silent entry) :=
  inferInstanceAs (Decidable (_ ∧ _))

/-- An entry that quotes nothing and holds no known words names no operation. -/
theorem ofEntry?_silent {entry : String} (h : Silent entry) : ofEntry? entry = none :=
  (ofEntry?_of_notMem h.1).trans (worded?_eq_none_iff.mpr h.2)

/-- How an entry with a quoted text is read: by the words in front of the quotes if these are known,
and otherwise by words anywhere. -/
theorem ofEntry?_quoting {lead s : String} (hLead : '"' ∉ lead.toList) (hs : IsQuotable s) :
    ofEntry? (lead ++ "\"" ++ s ++ "\"") =
      if "Added button ".toList <:+ lead.toList then some (.addRoot (Template.button s))
      else if "Added input field ".toList <:+ lead.toList then
        some (.addRoot (Template.labeledInput ("Enter " ++ s) s))
      else if "Changed button label to ".toList <:+ lead.toList then
        some (.updateProps (.leaf .button []) [.set "children" (.text s)])
      else worded? (lead ++ "\"" ++ s ++ "\"") := by
  rw [ofEntry?_eq, loggedText?_quoting hLead hs, loggedText?_quoting hLead hs,
    loggedText?_quoting hLead hs]
  split_ifs <;> rfl

/-- The entry of a new button gives the button back. -/
theorem ofEntry?_addedButton {label : String} (h : IsQuotable label) :
    ofEntry? ("Added button " ++ "\"" ++ label ++ "\"") =
      some (.addRoot (Template.button label)) := by
  rw [ofEntry?_quoting (by decide) h, if_pos (by decide)]

/-- The entry of a new input gives an input back, with a placeholder made of its label. -/
theorem ofEntry?_addedInput {label : String} (h : IsQuotable label) :
    ofEntry? ("Added input field " ++ "\"" ++ label ++ "\"") =
      some (.addRoot (Template.labeledInput ("Enter " ++ label) label)) := by
  rw [ofEntry?_quoting (by decide) h, if_neg (by decide), if_pos (by decide)]

/-- The entry of a new label gives the change of the first button. -/
theorem ofEntry?_changedLabel {label : String} (h : IsQuotable label) :
    ofEntry? ("Changed button label to " ++ "\"" ++ label ++ "\"") =
      some (.updateProps (.leaf .button []) [.set "children" (.text label)]) := by
  rw [ofEntry?_quoting (by decide) h, if_neg (by decide), if_neg (by decide), if_pos (by decide)]

/-- Words without a quote stand before or between the quotes of an entry. -/
theorem infix_quoting_iff {words : Text} (hQuote : '"' ∉ words) (hWords : words ≠ [])
    (lead s : String) : words <:+: (lead ++ "\"" ++ s ++ "\"").toList ↔
      words <:+: lead.toList ∨ words <:+: s.toList := by
  have hEntry : (lead ++ "\"" ++ s ++ "\"").toList = lead.toList ++ '"' :: (s.toList ++ ['"']) := by
    simp
  rw [hEntry, infix_append_cons_iff hQuote, infix_append_cons_iff hQuote, List.infix_nil]
  simp [hWords]

/-- The words of an entry hold none of the signs around the texts that others show. -/
theorem wordings_spec : ∀ words ∈ wordings, '"' ∉ words.toList ∧ ',' ∉ words.toList ∧
    ':' ∉ words.toList ∧ words.toList.head? ≠ some ' ' ∧ words.toList ≠ [] := by
  decide

/-- Words that introduce a text between quotes, but name no operation. -/
structure Mute (lead : String) : Prop where
  unquoted : '"' ∉ lead.toList
  unread : ∀ words ∈ ["Added button ", "Added input field ", "Changed button label to "],
    ¬ words.toList <:+ lead.toList
  unworded : ∀ words ∈ wordings, ¬ words.toList <:+: lead.toList

instance (lead : String) : Decidable (Mute lead) :=
  decidable_of_iff ('"' ∉ lead.toList ∧
      (∀ words ∈ ["Added button ", "Added input field ", "Changed button label to "],
        ¬ words.toList <:+ lead.toList) ∧
      ∀ words ∈ wordings, ¬ words.toList <:+: lead.toList)
    ⟨fun ⟨hQuote, hRead, hWords⟩ => ⟨hQuote, hRead, hWords⟩,
      fun h => ⟨h.unquoted, h.unread, h.unworded⟩⟩

/-- An entry that introduces a text with other words is taken for an operation exactly if the text
holds the words of one. -/
theorem ofEntry?_mute {lead s : String} (hLead : Mute lead) (hs : IsQuotable s) :
    ofEntry? (lead ++ "\"" ++ s ++ "\"") = none ↔
      ∀ words ∈ wordings, ¬ words.toList <:+: s.toList := by
  rw [ofEntry?_quoting hLead.unquoted hs, if_neg (hLead.unread _ (by simp)),
    if_neg (hLead.unread _ (by simp)), if_neg (hLead.unread _ (by simp)), worded?_eq_none_iff]
  refine forall₂_congr fun words hWords => ?_
  obtain ⟨hQuote, -, -, -, hFilled⟩ := wordings_spec words hWords
  rw [infix_quoting_iff hQuote hFilled, not_or]
  exact and_iff_right (hLead.unworded words hWords)

end Diff
end Wireframe
