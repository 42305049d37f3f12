import Wireframe.Proofs.Value.JsonReading

/-! Properties that written values have because their parts have them. A scanner
that does not know JSON still gets past a written value in one piece, if it gets
past strings, single characters and balanced braces. -/
namespace Wireframe.Value

open Text

/-- Characters that a string can hold as they are. -/
def isPlainRun (text : Text) : Bool :=
  text.all fun c => c != '"' && c != '\\'

/-- Inside a string a character stands for itself, or else it is escaped by a backslash and one
character more, which is no line break. -/
theorem encodeChar_cases (c : Char) :
    isPlainRun [c] = true ∧ encodeChar c = [c] ∨
      ∃ d more, encodeChar c = '\\' :: d :: more ∧ d ≠ '\n' ∧ isPlainRun more = true := by
  have hHex : ∀ n < 32, isPlainRun (Text.hex 4 n) = true := by decide
  unfold encodeChar
  split_ifs with hQuote hBack hTab hLine hForm hReturn hControl
  · refine .inr ⟨c, [], rfl, ?_, rfl⟩
    rintro rfl
    exact absurd hQuote (by decide)
  · exact .inr ⟨'b', [], rfl, by decide, rfl⟩
  · exact .inr ⟨'t', [], rfl, by decide, rfl⟩
  · exact .inr ⟨'n', [], rfl, by decide, rfl⟩
  · exact .inr ⟨'f', [], rfl, by decide, rfl⟩
  · exact .inr ⟨'r', [], rfl, by decide, rfl⟩
  · exact .inr ⟨'u', Text.hex 4 c.toNat, rfl, by decide, hHex _ hControl⟩
  · left
    simpa [isPlainRun] using hQuote

/-- A character that neither opens nor closes anything in braces. -/
def isNeutral (c : Char) : Bool :=
  !"\"'\x7b\x7d".toList.contains c

theorem isNeutral_iff {c : Char} :
    isNeutral c = true ↔ c ≠ '"' ∧ c ≠ '\'' ∧ c ≠ '\x7b' ∧ c ≠ '\x7d' := by
  simp [isNeutral]

/-- A property of texts between braces that is built up as values are written. `depth` counts the
braces around the text, and `levels` the braces nested in it. -/
structure WritingInvariant (holds : Nat → Nat → Text → Prop) : Prop where
  nil : ∀ depth, holds depth 0 []
  neutral : ∀ depth c, isNeutral c = true → holds depth 0 [c]
  string : ∀ depth s, holds depth 0 (encodeText s)
  append : ∀ depth m n first second, holds depth m first → holds depth n second →
    holds depth (max m n) (first ++ second)
  object : ∀ depth levels inner, holds (depth + 1) levels inner →
    holds depth (levels + 1) ('\x7b' :: inner ++ ['\x7d'])

theorem isNeutral_of_isNumberChar {c : Char} (h : isNumberChar c = true) : isNeutral c = true := by
  simp only [isNumberChar, Bool.or_eq_true, List.contains_iff_mem] at h
  rcases h with h | h
  · have hOther (d : Char) (hd : d.isDigit = false) : c ≠ d := by
      rintro rfl
      rw [hd] at h
      cases h
    exact isNeutral_iff.mpr ⟨hOther _ (by decide), hOther _ (by decide), hOther _ (by decide),
      hOther _ (by decide)⟩
  · fin_cases h <;> decide

namespace WritingInvariant

variable {holds : Nat → Nat → Text → Prop} (h : WritingInvariant holds) {depth : Nat}
include h

theorem append_zero {n : Nat} {first second : Text} (hFirst : holds depth 0 first)
    (hSecond : holds depth n second) : holds depth n (first ++ second) := by
  have hBoth := h.append depth 0 n first second hFirst hSecond
  rwa [Nat.zero_max] at hBoth

theorem zero_append {n : Nat} {first second : Text} (hFirst : holds depth n first)
    (hSecond : holds depth 0 second) : holds depth n (first ++ second) := by
  have hBoth := h.append depth n 0 first second hFirst hSecond
  rwa [Nat.max_zero] at hBoth

theorem run {text : Text} (hText : ∀ c ∈ text, isNeutral c = true) : holds depth 0 text := by
  induction text with
  | nil => exact h.nil depth
  | cons c text ih =>
      rw [← List.singleton_append]
      exact h.append_zero (h.neutral depth c (hText c (by simp)))
        (ih fun d hd => hText d (by simp [hd]))

theorem cons {c : Char} {n : Nat} {text : Text} (hc : isNeutral c = true)
    (hText : holds depth n text) : holds depth n (c :: text) := by
  rw [← List.singleton_append]
  exact h.append_zero (h.neutral depth c hc) hText

theorem items_cons (format : RealFormat) {v : Value} {vs : List Value}
    (hv : holds depth (braces v) (encodeLine format v))
    (hvs : holds depth (itemsBraces vs) (encodeLineItems format vs)) :
    holds depth (itemsBraces (v :: vs)) (encodeLineItems format (v :: vs)) := by
  cases vs with
  | nil => simpa [encodeLineItems, itemsBraces] using hv
  | cons w vs =>
      rw [encodeLineItems_cons_cons]
      exact h.append _ _ _ _ _ hv (h.cons (by decide) hvs)

theorem entries_cons (format : RealFormat) {key : String} {v : Value} {es : Props}
    (hv : holds depth (braces v) (encodeLine format v))
    (hes : holds depth (entriesBraces es) (encodeLineEntries format es)) :
    holds depth (entriesBraces ((key, v) :: es)) (encodeLineEntries format ((key, v) :: es)) := by
  have hEntry : holds depth (braces v) (encodeText key ++ ':' :: encodeLine format v) :=
    h.append_zero (h.string depth key) (h.cons (by decide) hv)
  cases es with
  | nil => simpa [encodeLineEntries, entriesBraces] using hEntry
  | cons entry es =>
      rw [encodeLineEntries_cons_cons]
      exact h.append _ _ _ _ _ hEntry (h.cons (by decide) hes)

/-- What is built up as values are written holds of every written value. -/
theorem encodeLine (format : RealFormat) (v : Value) (depth : Nat) :
    holds depth (braces v) (encodeLine format v) := by
  have hAll :
      (∀ v, ∀ depth, holds depth (braces v) (Value.encodeLine format v)) ∧
      (∀ vs, ∀ depth, holds depth (itemsBraces vs) (encodeLineItems format vs)) ∧
      (∀ es, ∀ depth, holds depth (entriesBraces es) (encodeLineEntries format es)) := by
    apply Value.induction
    case null =>
      intro depth
      change holds depth 0 "null".toList
      exact h.run (List.all_eq_true.mp (by decide))
    case boolean =>
      intro b depth
      cases b with
      | true =>
          change holds depth 0 "true".toList
          exact h.run (List.all_eq_true.mp (by decide))
      | false =>
          change holds depth 0 "false".toList
          exact h.run (List.all_eq_true.mp (by decide))
    case integer =>
      intro n depth
      exact h.run fun c hc => isNeutral_of_isNumberChar (isNumberChar_of_mem_writeInteger hc)
    case real =>
      intro x depth
      exact h.run fun c hc => isNeutral_of_isNumberChar (isNumberChar_of_mem_writeReal hc)
    case text => exact fun s depth => h.string depth s
    -- Brackets count for nothing, but braces open a level.
    case list =>
      intro vs ih depth
      exact h.zero_append (h.cons (by decide) (ih depth)) (h.neutral depth ']' (by decide))
    case object => exact fun es ih depth => h.object depth _ _ (ih (depth + 1))
    case itemsNil => exact h.nil
    case itemsCons => exact fun v vs hv hvs depth => h.items_cons format (hv depth) (hvs depth)
    case entriesNil => exact h.nil
    case entriesCons =>
      exact fun key v es hv hes depth => h.entries_cons format (hv depth) (hes depth)
  exact hAll.1 v depth

theorem encode (v : Value) (depth : Nat) : holds depth (braces v) (encode v) :=
  h.encodeLine _ v depth

end WritingInvariant

theorem angleFree_encodeChar {c : Char} (h : c ≠ '<') : Text.angleFree (encodeChar c) = true := by
  have hHex : ∀ n < 32, '<' ∉ Text.hex 4 n := by decide
  rw [angleFree_iff]
  unfold encodeChar
  split_ifs with hQuote hBack hTab hLine hForm hReturn hControl
  · simpa using Ne.symm h
  · decide
  · decide
  · decide
  · decide
  · decide
  · simpa using hHex _ hControl
  · simpa using Ne.symm h

theorem angleFree_encodeText {s : String} (h : Text.angleFree s.toList = true) :
    Text.angleFree (encodeText s) = true := by
  have hChars : Text.angleFree (s.toList.flatMap encodeChar) = true := by
    rw [angleFree_iff] at h ⊢
    intro hMem
    obtain ⟨c, hc, hIn⟩ := List.mem_flatMap.mp hMem
    have hNe : c ≠ '<' := fun hEq => h (hEq ▸ hc)
    exact angleFree_iff.mp (angleFree_encodeChar hNe) hIn
  simp [encodeText, hChars]

theorem angleFree_of_isNumberChar {text : Text} (h : ∀ c ∈ text, isNumberChar c = true) :
    Text.angleFree text = true := by
  rw [angleFree_iff]
  intro hMem
  exact absurd (h _ hMem) (by decide)

theorem angleFree_encodeLineItems_cons (format : RealFormat) {v : Value} {vs : List Value}
    (hv : Text.angleFree (encodeLine format v) = true)
    (hvs : Text.angleFree (encodeLineItems format vs) = true) :
    Text.angleFree (encodeLineItems format (v :: vs)) = true := by
  cases vs with
  | nil => exact hv
  | cons w vs =>
      rw [encodeLineItems_cons_cons]
      simp [hv, hvs]

theorem angleFree_encodeLineEntries_cons (format : RealFormat) {key : String} {v : Value}
    {es : Props} (hKey : Text.angleFree key.toList = true)
    (hv : Text.angleFree (encodeLine format v) = true)
    (hes : Text.angleFree (encodeLineEntries format es) = true) :
    Text.angleFree (encodeLineEntries format ((key, v) :: es)) = true := by
  have hText := angleFree_encodeText hKey
  cases es with
  | nil => simp [encodeLineEntries, hText, hv]
  | cons entry es =>
      rw [encodeLineEntries_cons_cons]
      simp [hText, hv, hes]

/-- A value whose texts are free of `<` is written without one. -/
theorem angleFree_encodeLine (format : RealFormat) :
    (∀ v, angleFree v = true → Text.angleFree (encodeLine format v) = true) ∧
    (∀ vs, itemsAngleFree vs = true → Text.angleFree (encodeLineItems format vs) = true) ∧
    ∀ es, entriesAngleFree es = true → Text.angleFree (encodeLineEntries format es) = true := by
  apply Value.induction
  case null => exact fun _ => rfl
  case boolean => exact fun b _ => by cases b <;> rfl
  case integer =>
    exact fun n _ => angleFree_of_isNumberChar fun c hc => isNumberChar_of_mem_writeInteger hc
  case real =>
    exact fun x _ => angleFree_of_isNumberChar fun c hc => isNumberChar_of_mem_writeReal hc
  case text => exact fun s h => angleFree_encodeText h
  case list =>
    intro vs ih h
    simp [encodeLine, ih h]
  case object =>
    intro es ih h
    simp [encodeLine, ih h]
  case itemsNil => exact fun _ => rfl
  case itemsCons =>
    intro v vs hv hvs h
    simp only [itemsAngleFree, Bool.and_eq_true] at h
    exact angleFree_encodeLineItems_cons format (hv h.1) (hvs h.2)
  case entriesNil => exact fun _ => rfl
  case entriesCons =>
    intro key v es hv hes h
    simp only [entriesAngleFree, Bool.and_eq_true] at h
    exact angleFree_encodeLineEntries_cons format h.1.1 (hv h.1.2) (hes h.2)

theorem angleFree_encode {v : Value} (h : angleFree v = true) : Text.angleFree (encode v) = true :=
  (angleFree_encodeLine _).1 v h

end Wireframe.Value
