import Wireframe.Proofs.Text.Occurrence
import Wireframe.Proofs.Value.JsonReading

/-! The texts in a value, and where a word can stand once the value is written. A word without the
signs of the notation stands within one of the written texts, and an escape makes no new place for
it as long as the text holds no control character. -/
namespace Wireframe
namespace Value

open Text

mutual

/-- All texts in a value, and all keys of objects in it. -/
def texts : Value → List String
  | .text s => [s]
  | .list items => itemsTexts items
  | .object entries => entriesTexts entries
  | _ => []
termination_by structural v => v

def itemsTexts : List Value → List String
  | [] => []
  | v :: rest => texts v ++ itemsTexts rest
termination_by structural vs => vs

def entriesTexts : List (String × Value) → List String
  | [] => []
  | (key, v) :: rest => key :: (texts v ++ entriesTexts rest)
termination_by structural es => es

end

theorem mem_entriesTexts {key : String} {v : Value} {props : Props} (h : (key, v) ∈ props) :
    key ∈ entriesTexts props ∧ ∀ s ∈ texts v, s ∈ entriesTexts props := by
  induction props with
  | nil => cases h
  | cons entry props ih =>
      rw [entriesTexts]
      rcases List.mem_cons.mp h with rfl | hLater
      · exact ⟨List.mem_cons_self,
          fun s hs => List.mem_cons_of_mem _ (List.mem_append_left _ hs)⟩
      · obtain ⟨hKey, hTexts⟩ := ih hLater
        exact ⟨List.mem_cons_of_mem _ (List.mem_append_right _ hKey),
          fun s hs => List.mem_cons_of_mem _ (List.mem_append_right _ (hTexts s hs))⟩

/-- The signs around and between the members of written values. -/
def signChars : Text :=
  "\"[]\x7b\x7d,".toList

/-- A word that stands in no written value but within its texts. -/
structure Unwritten (word : Text) : Prop where
  signs : ∀ c ∈ signChars, c ∉ word
  colon : word.head? ≠ some ':'
  literals : ∀ literal ∈ ["null", "true", "false"], ¬ word <:+: literal.toList
  number : ∃ c ∈ word, isNumberChar c = false

-- Quantifiers over the characters of a text are decided along the text, not over all characters.
instance (word : Text) : Decidable (Unwritten word) :=
  letI : Decidable (∀ c ∈ signChars, c ∉ word) := List.decidableBAll _ _
  letI : Decidable (∃ c ∈ word, isNumberChar c = false) := List.decidableBEx _ _
  decidable_of_iff ((∀ c ∈ signChars, c ∉ word) ∧ word.head? ≠ some ':' ∧
      (∀ literal ∈ ["null", "true", "false"], ¬ word <:+: literal.toList) ∧
      ∃ c ∈ word, isNumberChar c = false)
    ⟨fun ⟨hSigns, hColon, hLiterals, hNumber⟩ => ⟨hSigns, hColon, hLiterals, hNumber⟩,
      fun h => ⟨h.signs, h.colon, h.literals, h.number⟩⟩

variable {word : Text}

namespace Unwritten

variable (hWord : Unwritten word)
include hWord

theorem ne_nil : word ≠ [] := by
  obtain ⟨c, hc, -⟩ := hWord.number
  exact List.ne_nil_of_mem hc

theorem not_infix_of_number {text : Text} (h : ∀ c ∈ text, isNumberChar c = true) :
    ¬ word <:+: text := by
  obtain ⟨c, hc, hNumber⟩ := hWord.number
  refine not_infix_of_notMem hc fun hMem => ?_
  rw [h c hMem] at hNumber
  cases hNumber

/-- Text between two signs holds the word only if it does so without them. -/
theorem not_infix_between {start stop : Char} {text : Text}
    (hStart : start ∈ signChars) (hStop : stop ∈ signChars)
    (h : ¬ word <:+: text) : ¬ word <:+: start :: text ++ [stop] := by
  rw [infix_append_cons_iff (hWord.signs _ hStop), ← List.nil_append (start :: text),
    infix_append_cons_iff (hWord.signs _ hStart), List.infix_nil]
  simp [hWord.ne_nil, h]

theorem not_infix_comma {first rest : Text} (hFirst : ¬ word <:+: first)
    (hRest : ¬ word <:+: rest) : ¬ word <:+: first ++ ',' :: rest := by
  rw [infix_append_cons_iff (hWord.signs _ (by decide))]
  exact not_or.mpr ⟨hFirst, hRest⟩

theorem not_infix_entry {key : String} {written : Text}
    (hKey : ¬ word <:+: key.toList.flatMap encodeChar) (hWritten : ¬ word <:+: written) :
    ¬ word <:+: encodeText key ++ ':' :: written := by
  have hText : encodeText key ++ ':' :: written =
      '"' :: key.toList.flatMap encodeChar ++ '"' :: (':' :: written) := by
    simp [encodeText]
  rw [hText, infix_append_cons_iff (hWord.signs _ (by decide)),
    infix_cons_iff_of_head_ne hWord.colon]
  refine not_or.mpr ⟨?_, hWritten⟩
  rw [← List.nil_append ('"' :: _), infix_append_cons_iff (hWord.signs _ (by decide)),
    List.infix_nil]
  exact not_or.mpr ⟨hWord.ne_nil, hKey⟩

/-- A word that stands in none of the escaped texts stands nowhere in the written value. -/
theorem not_infix_encodeLine_all (format : RealFormat) :
    (∀ v, (∀ s ∈ texts v, ¬ word <:+: s.toList.flatMap encodeChar) →
      ¬ word <:+: encodeLine format v) ∧
    (∀ vs, (∀ s ∈ itemsTexts vs, ¬ word <:+: s.toList.flatMap encodeChar) →
      ¬ word <:+: encodeLineItems format vs) ∧
    ∀ es, (∀ s ∈ entriesTexts es, ¬ word <:+: s.toList.flatMap encodeChar) →
      ¬ word <:+: encodeLineEntries format es := by
  apply Value.induction
  case null => exact fun _ => hWord.literals "null" (by decide)
  case boolean =>
    intro b _
    cases b with
    | true => exact hWord.literals "true" (by decide)
    | false => exact hWord.literals "false" (by decide)
  case integer =>
    exact fun n _ => hWord.not_infix_of_number fun c hc => isNumberChar_of_mem_writeInteger hc
  case real =>
    exact fun x _ => hWord.not_infix_of_number fun c hc => isNumberChar_of_mem_writeReal hc
  case text =>
    intro s h
    exact hWord.not_infix_between (by decide) (by decide) (h s (List.mem_singleton_self s))
  case list => exact fun vs ih h => hWord.not_infix_between (by decide) (by decide) (ih h)
  case object => exact fun es ih h => hWord.not_infix_between (by decide) (by decide) (ih h)
  case itemsNil => exact fun _ hNil => hWord.ne_nil (List.infix_nil.mp hNil)
  case itemsCons =>
    intro v vs hv hvs h
    obtain ⟨hHead, hTail⟩ := List.forall_mem_append.mp h
    cases vs with
    | nil => exact hv hHead
    | cons w vs =>
        rw [encodeLineItems_cons_cons]
        exact hWord.not_infix_comma (hv hHead) (hvs hTail)
  case entriesNil => exact fun _ hNil => hWord.ne_nil (List.infix_nil.mp hNil)
  case entriesCons =>
    intro key v es hv hes h
    obtain ⟨hKey, hRest⟩ := List.forall_mem_cons.mp h
    obtain ⟨hHead, hTail⟩ := List.forall_mem_append.mp hRest
    have hEntry := hWord.not_infix_entry hKey (hv hHead)
    cases es with
    | nil => exact hEntry
    | cons entry es =>
        rw [encodeLineEntries_cons_cons]
        exact hWord.not_infix_comma hEntry (hes hTail)

end Unwritten

def Uncontrolled (s : String) : Prop :=
  ∀ c ∈ s.toList, 0x20 ≤ c.toNat

instance (s : String) : Decidable (Uncontrolled s) :=
  List.decidableBAll (fun c : Char => 0x20 ≤ c.toNat) s.toList

theorem encodeChar_of_le {c : Char} (h : 0x20 ≤ c.toNat) :
    encodeChar c = if c = '"' || c = '\\' then ['\\', c] else [c] := by
  have hNe (d : Char) (hd : d.toNat < 0x20) : c ≠ d := by
    rintro rfl
    omega
  rw [encodeChar, if_neg (hNe '\u0008' (by decide)), if_neg (hNe '\t' (by decide)),
    if_neg (hNe '\n' (by decide)), if_neg (hNe '\u000c' (by decide)),
    if_neg (hNe '\r' (by decide)), if_neg (Nat.not_lt.mpr h)]

/-- Escaping makes no new place for a word without quotes and backslashes. -/
theorem infix_of_infix_flatMap_encodeChar (hQuote : '"' ∉ word) (hBackslash : '\\' ∉ word)
    {text : Text} (hText : ∀ c ∈ text, 0x20 ≤ c.toNat) :
    ∀ before : Text, word <:+: before ++ text.flatMap encodeChar → word <:+: before ++ text := by
  induction text with
  | nil => exact fun _ h => h
  | cons c text ih =>
      intro before h
      obtain ⟨hc, hRest⟩ := List.forall_mem_cons.mp hText
      rw [List.flatMap_cons, encodeChar_of_le hc] at h
      split at h
      · rename_i hEscaped
        have hOwn : c ∉ word := by
          rcases (by simpa using hEscaped : c = '"' ∨ c = '\\') with rfl | rfl
          · exact hQuote
          · exact hBackslash
        rw [List.cons_append, List.singleton_append, infix_append_cons_iff hBackslash,
          ← List.nil_append (c :: _), infix_append_cons_iff hOwn, List.infix_nil] at h
        rw [infix_append_cons_iff hOwn]
        rcases h with hBefore | hNil | hAfter
        · exact .inl hBefore
        · exact .inl (hNil ▸ List.nil_infix)
        · exact .inr (ih hRest [] hAfter)
      · rw [List.singleton_append, List.append_cons] at h
        rw [List.append_cons]
        exact ih hRest _ h

-- The escape of a control character ends in digits, which can be the start of a word.
example : "document.write".toList <:+: encodeText "\u001document.write" := by decide +kernel

/-- A word that stands in none of the texts of a value stands nowhere in it once it is written. -/
theorem not_infix_encode (hWord : Unwritten word) (hBackslash : '\\' ∉ word) {v : Value}
    (h : ∀ s ∈ texts v, Uncontrolled s ∧ ¬ word <:+: s.toList) : ¬ word <:+: encode v := by
  refine (hWord.not_infix_encodeLine_all _).1 v fun s hs hInfix => ?_
  obtain ⟨hControl, hNot⟩ := h s hs
  exact hNot (infix_of_infix_flatMap_encodeChar (hWord.signs _ (by decide)) hBackslash hControl
    [] hInfix)

end Value
end Wireframe
