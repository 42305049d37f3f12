import Wireframe.Proofs.Value.Conditions
import Wireframe.Proofs.Value.NumberReading
import Wireframe.Value.Encode

/-! Written values read back. The reader of a value stops right behind it, so
that the statement can be carried through lists and objects. -/
namespace Wireframe.Value

open Text

theorem hexUnit?_hex : ∀ n < 32, hexUnit? (Text.hex 4 n) = some (n, []) := by
  decide

theorem hexUnit?_append {text : Text} {n : Nat} (rest : Text)
    (h : hexUnit? text = some (n, [])) : hexUnit? (text ++ rest) = some (n, rest) := by
  unfold hexUnit? at h
  split at h
  · simp only [Option.bind_eq_bind, Option.bind_eq_some_iff, Option.some.injEq, Prod.mk.injEq] at h
    obtain ⟨a, ha, b, hb, c, hc, d, hd, hn, rfl⟩ := h
    simp [hexUnit?, ha, hb, hc, hd, hn]
  · cases h

/-- Control characters without an escape of their own are written by their code, and read back by
it. -/
theorem numericEscape?_hex {c : Char} (hc : c.toNat < 32) (rest : Text) :
    numericEscape? (Text.hex 4 c.toNat ++ rest) = some (c, rest) := by
  have hUnit := hexUnit?_append rest (hexUnit?_hex c.toNat hc)
  have hHigh : ¬(0xd800 ≤ c.toNat ∧ c.toNat < 0xdc00) := by omega
  have hLow : ¬(0xdc00 ≤ c.toNat ∧ c.toNat < 0xe000) := by omega
  simp only [numericEscape?, hUnit, Option.bind_eq_bind, Option.bind_some, if_neg hHigh, if_neg hLow]
  rw [Char.ofNat_toNat]

/-- A written character is one step of the reader of strings. -/
theorem string?_encodeChar (c : Char) (fuel : Nat) (rest : Text) :
    string? (fuel + 1) (encodeChar c ++ rest) =
      (string? fuel rest).map fun found => (c :: found.1, found.2) := by
  unfold encodeChar
  split_ifs with hQuote hBack hTab hLine hForm hReturn hControl
  · have hEscape : escape? (c :: rest) = some (c, rest) := by
      rcases Bool.or_eq_true _ _ ▸ hQuote with h | h <;> simp_all [escape?]
    simp [string?, hEscape]
  · subst hBack
    simp [string?, escape?]
  · subst hTab
    simp [string?, escape?]
  · subst hLine
    simp [string?, escape?]
  · subst hForm
    simp [string?, escape?]
  · subst hReturn
    simp [string?, escape?]
  · simp [string?, escape?, numericEscape?_hex hControl]
  · simp only [Bool.or_eq_true, decide_eq_true_eq, not_or] at hQuote
    simp [string?, hQuote.1, hQuote.2, hControl]

theorem length_encodeChar_pos (c : Char) : 0 < (encodeChar c).length := by
  unfold encodeChar
  split_ifs <;> simp

/-- The characters of a written string read back. -/
theorem string?_flatMap {chars : Text} {fuel : Nat} (rest : Text)
    (hFuel : (chars.flatMap encodeChar).length < fuel) :
    string? fuel (chars.flatMap encodeChar ++ '"' :: rest) = some (chars, rest) := by
  induction chars generalizing fuel with
  | nil =>
      obtain ⟨fuel, rfl⟩ := Nat.exists_eq_succ_of_ne_zero (Nat.ne_of_gt hFuel)
      simp [string?]
  | cons c chars ih =>
      obtain ⟨fuel, rfl⟩ := Nat.exists_eq_succ_of_ne_zero (Nat.ne_of_gt (Nat.zero_lt_of_lt hFuel))
      have hPos := length_encodeChar_pos c
      rw [List.flatMap_cons, List.length_append] at hFuel
      rw [List.flatMap_cons, List.append_assoc, string?_encodeChar, ih (by omega), Option.map_some]

theorem skipPadding_cons {c : Char} {text : Text} (h : isPadding c = false) :
    skipPadding (c :: text) = c :: text := by
  simp [skipPadding, h]

theorem skipPadding_append {gap : Text} (hGap : ∀ c ∈ gap, isPadding c = true) (text : Text) :
    skipPadding (gap ++ text) = skipPadding text :=
  List.dropWhile_append_of_pos hGap

/-- The text is the padding at its start and the rest. -/
theorem exists_padding (text : Text) :
    ∃ gap, (∀ c ∈ gap, isPadding c = true) ∧ text = gap ++ skipPadding text :=
  ⟨text.takeWhile isPadding, fun _ hc => List.mem_takeWhile_imp hc,
    List.takeWhile_append_dropWhile.symm⟩

section

variable {gap : Text} (hGap : ∀ c ∈ gap, isPadding c = true) (fuel : Nat) (text : Text)
include hGap

/-- Padding in front makes no difference to a reader. -/
theorem value?_append : value? fuel (gap ++ text) = value? fuel text := by
  cases fuel with
  | zero => rfl
  | succ fuel => rw [value?, value?, skipPadding_append hGap]

theorem items?_append : items? fuel (gap ++ text) = items? fuel text := by
  cases fuel with
  | zero => rfl
  | succ fuel => rw [items?, items?, value?_append hGap]

theorem entries?_append : entries? fuel (gap ++ text) = entries? fuel text := by
  cases fuel with
  | zero => rfl
  | succ fuel => rw [entries?, entries?, skipPadding_append hGap]

/-- What follows a value with padding behind it is no part of a number. -/
theorem stopsAt_padding {c : Char} (hc : continuesNumber c = false) (rest : Text) :
    StopsAt continuesNumber (gap ++ c :: rest) := by
  cases gap with
  | nil => exact stopsAt_cons.mpr hc
  | cons d gap =>
      have hd : isPadding d = true := hGap d List.mem_cons_self
      simp only [isPadding, Bool.or_eq_true, decide_eq_true_eq] at hd
      rw [List.cons_append, stopsAt_cons]
      rcases hd with ((rfl | rfl) | rfl) | rfl <;> decide

end

theorem items?_close (fuel : Nat) (rest : Text) : items? fuel (']' :: rest) = none := by
  have hValue (fuel : Nat) : value? fuel (']' :: rest) = none := by
    cases fuel with
    | zero => rfl
    | succ fuel =>
        simp [value?, skipPadding, isPadding, number?, magnitude?, wholePart?, Char.isDigit]
  cases fuel with
  | zero => rfl
  | succ fuel => rw [items?, hValue]

theorem entries?_close (fuel : Nat) (rest : Text) : entries? fuel ('\x7d' :: rest) = none := by
  cases fuel with
  | zero => rfl
  | succ fuel => simp [entries?, skipPadding, isPadding]

/-- A list is read as its values are, since none of them starts with the sign that closes it. -/
theorem value?_list {fuel : Nat} {text rest : Text} {vs : List Value}
    (h : items? fuel text = some (vs, rest)) :
    value? (fuel + 1) ('[' :: text) = some (.list vs, rest) := by
  obtain ⟨gap, hGap, hText⟩ := exists_padding text
  rw [hText, items?_append hGap] at h
  rw [value?, skipPadding_cons (by decide)]
  simp only [Char.reduceEq, if_false, if_true]
  split
  · rename_i hClose
    rw [hClose, items?_close] at h
    cases h
  · rw [h, Option.map_some]

/-- One level of an object takes one unit of fuel. -/
theorem value?_object {fuel : Nat} {text rest : Text} {es : Props}
    (h : entries? fuel text = some (es, rest)) :
    value? (fuel + 1) ('\x7b' :: text) = some (.object (Props.ofEntries es), rest) := by
  obtain ⟨gap, hGap, hText⟩ := exists_padding text
  rw [hText, entries?_append hGap] at h
  rw [value?, skipPadding_cons (by decide)]
  simp only [if_true]
  split
  · rename_i hClose
    rw [hClose, entries?_close] at h
    cases h
  · rw [h, Option.map_some]

/-- The reader of values reads the value from the text, and stops behind it. -/
def ReadsValue (v : Value) (text : Text) : Prop :=
  ∀ fuel rest, text.length < fuel → StopsAt continuesNumber rest →
    value? fuel (text ++ rest) = some (v, rest)

def ReadsItems (vs : List Value) (text : Text) : Prop :=
  ∀ fuel rest, text.length + 1 < fuel → items? fuel (text ++ ']' :: rest) = some (vs, rest)

def ReadsEntries (es : Props) (text : Text) : Prop :=
  ∀ fuel rest, text.length + 1 < fuel → entries? fuel (text ++ '\x7d' :: rest) = some (es, rest)

/-- A word of its own is read whatever follows it. -/
theorem readsValue_of_word {v : Value} {text : Text}
    (h : ∀ fuel rest, value? (fuel + 1) (text ++ rest) = some (v, rest)) : ReadsValue v text := by
  intro fuel rest hFuel _
  obtain ⟨fuel, rfl⟩ := Nat.exists_eq_succ_of_ne_zero (Nat.ne_of_gt (Nat.zero_lt_of_lt hFuel))
  exact h fuel rest

/-- What starts like a number is read as one. -/
theorem readsValue_of_number {v : Value} {text : Text}
    (hHead : ∃ c more, text = c :: more ∧ (c.isDigit = true ∨ c = '-'))
    (hNumber : ∀ {rest}, StopsAt continuesNumber rest → number? (text ++ rest) = some (v, rest)) :
    ReadsValue v text := by
  intro fuel rest hFuel hStop
  obtain ⟨fuel, rfl⟩ := Nat.exists_eq_succ_of_ne_zero (Nat.ne_of_gt (Nat.zero_lt_of_lt hFuel))
  obtain ⟨c, more, rfl, hc⟩ := hHead
  have hOther (d : Char) (hd : d.isDigit = false ∧ d ≠ '-') : c ≠ d := by
    rintro rfl
    rcases hc with h | h
    · rw [hd.1] at h
      cases h
    · exact hd.2 h
  have hPadding : isPadding c = false := by
    simp [isPadding, hOther ' ' (by decide), hOther '\t' (by decide), hOther '\n' (by decide),
      hOther '\r' (by decide)]
  have hRead := hNumber hStop
  rw [List.cons_append] at hRead ⊢
  simp only [value?, skipPadding_cons hPadding, hOther '\x7b' (by decide), hOther '[' (by decide),
    hOther '"' (by decide), hOther 'n' (by decide), hOther 't' (by decide), hOther 'f' (by decide),
    ↓reduceIte, hRead]

/-- A text is read back from its escapes, up to the quote that ends it. -/
theorem readsValue_text (s : String) : ReadsValue (.text s) (encodeText s) := by
  intro fuel rest hFuel _
  obtain ⟨fuel, rfl⟩ := Nat.exists_eq_succ_of_ne_zero (Nat.ne_of_gt (Nat.zero_lt_of_lt hFuel))
  have hLength : (s.toList.flatMap encodeChar).length <
      (s.toList.flatMap encodeChar ++ '"' :: rest).length := by
    rw [List.length_append, List.length_cons]
    omega
  have hString := string?_flatMap rest hLength
  have hPadding : isPadding '"' = false := by decide
  simp only [encodeText, List.cons_append, List.append_assoc, List.nil_append, value?,
    skipPadding_cons hPadding, hString, Option.map_some, String.ofList_toList]
  simp

section

variable {v : Value} {vs : List Value} {es : Props} {text more gap : Text}

theorem ReadsValue.padded (h : ReadsValue v text) (hGap : ∀ c ∈ gap, isPadding c = true) :
    ReadsValue v (gap ++ text) := by
  intro fuel rest hFuel hStop
  rw [List.length_append] at hFuel
  rw [List.append_assoc, value?_append hGap]
  exact h fuel rest (by omega) hStop

/-- A value is the last one of a list, with padding behind it. -/
theorem ReadsValue.last (h : ReadsValue v text) (hGap : ∀ c ∈ gap, isPadding c = true) :
    ReadsItems [v] (text ++ gap) := by
  intro fuel rest hFuel
  rw [List.length_append] at hFuel
  obtain ⟨fuel, rfl⟩ := Nat.exists_eq_succ_of_ne_zero (Nat.ne_of_gt (Nat.zero_lt_of_lt hFuel))
  have hRead := h fuel (gap ++ ']' :: rest) (by omega) (stopsAt_padding hGap (by decide) rest)
  have hClose : skipPadding (']' :: rest) = ']' :: rest := skipPadding_cons (by decide)
  simp only [List.append_assoc, items?, hRead, skipPadding_append hGap, hClose]

/-- A value stands before the others of a list. -/
theorem ReadsValue.before (h : ReadsValue v text) (hMore : ReadsItems vs more) :
    ReadsItems (v :: vs) (text ++ ',' :: more) := by
  intro fuel rest hFuel
  rw [List.length_append, List.length_cons] at hFuel
  obtain ⟨fuel, rfl⟩ := Nat.exists_eq_succ_of_ne_zero (Nat.ne_of_gt (Nat.zero_lt_of_lt hFuel))
  have hRead := h fuel (',' :: (more ++ ']' :: rest)) (by omega) (stopsAt_cons.mpr (by decide))
  have hOthers := hMore fuel rest (by omega)
  have hComma : isPadding ',' = false := by decide
  simp only [List.append_assoc, List.cons_append, items?, hRead, skipPadding_cons hComma, hOthers,
    Option.map_some]

/-- A list is read once its items are. -/
theorem ReadsItems.list (h : ReadsItems vs text) : ReadsValue (.list vs) ('[' :: text ++ [']']) := by
  intro fuel rest hFuel _
  obtain ⟨fuel, rfl⟩ := Nat.exists_eq_succ_of_ne_zero (Nat.ne_of_gt (Nat.zero_lt_of_lt hFuel))
  simp only [List.length_append, List.length_cons, List.length_nil] at hFuel
  simp only [List.cons_append, List.append_assoc, List.nil_append]
  exact value?_list (h fuel rest (by omega))

/-- The value of an entry is read once its key is. What follows it, after padding, ends the entries
or leads to the next one. -/
theorem ReadsValue.entry (key : String) (h : ReadsValue v text) {fuel : Nat} {rest more : Text}
    (hFuel : text.length < fuel) (hStop : StopsAt continuesNumber rest) :
    (skipPadding rest = '\x7d' :: more →
      entries? (fuel + 1) (encodeText key ++ ':' :: (text ++ rest)) = some ([(key, v)], more)) ∧
    (skipPadding rest = ',' :: more →
      entries? (fuel + 1) (encodeText key ++ ':' :: (text ++ rest)) =
        (entries? fuel more).map fun found => ((key, v) :: found.1, found.2)) := by
  have hLength (more : Text) : (key.toList.flatMap encodeChar).length <
      (key.toList.flatMap encodeChar ++ '"' :: more).length := by
    rw [List.length_append, List.length_cons]
    omega
  have hKey := string?_flatMap (':' :: (text ++ rest)) (hLength (':' :: (text ++ rest)))
  have hQuote : isPadding '"' = false := by decide
  have hColon : isPadding ':' = false := by decide
  have hValue := h fuel rest hFuel hStop
  refine ⟨fun hClose => ?_, fun hComma => ?_⟩
  · simp only [encodeText, List.cons_append, List.append_assoc, List.nil_append, entries?,
      skipPadding_cons hQuote, hKey, skipPadding_cons hColon, hValue, hClose, String.ofList_toList]
  · simp only [encodeText, List.cons_append, List.append_assoc, List.nil_append, entries?,
      skipPadding_cons hQuote, hKey, skipPadding_cons hColon, hValue, hComma, String.ofList_toList]

theorem ReadsValue.lastEntry (key : String) (h : ReadsValue v text)
    (hGap : ∀ c ∈ gap, isPadding c = true) :
    ReadsEntries [(key, v)] (encodeText key ++ ':' :: text ++ gap) := by
  intro fuel rest hFuel
  simp only [List.length_append, List.length_cons] at hFuel
  obtain ⟨fuel, rfl⟩ := Nat.exists_eq_succ_of_ne_zero (Nat.ne_of_gt (Nat.zero_lt_of_lt hFuel))
  have hClose : skipPadding (gap ++ '\x7d' :: rest) = '\x7d' :: rest := by
    rw [skipPadding_append hGap, skipPadding_cons (by decide)]
  have hEntry := (h.entry key (by omega : text.length < fuel)
    (stopsAt_padding hGap (by decide) rest)).1 hClose
  simpa only [List.append_assoc, List.cons_append] using hEntry

/-- An entry is read with its value, and the entries behind the comma with theirs. -/
theorem ReadsValue.beforeEntries (key : String) (h : ReadsValue v text)
    (hMore : ReadsEntries es more) :
    ReadsEntries ((key, v) :: es) (encodeText key ++ ':' :: text ++ ',' :: more) := by
  intro fuel rest hFuel
  simp only [List.length_append, List.length_cons] at hFuel
  obtain ⟨fuel, rfl⟩ := Nat.exists_eq_succ_of_ne_zero (Nat.ne_of_gt (Nat.zero_lt_of_lt hFuel))
  have hComma := @skipPadding_cons ',' (more ++ '\x7d' :: rest) (by decide)
  have hEntry := (h.entry key (by omega : text.length < fuel)
    (stopsAt_cons.mpr (by decide))).2 hComma
  rw [hMore fuel rest (by omega), Option.map_some] at hEntry
  simpa only [List.append_assoc, List.cons_append] using hEntry

theorem ReadsEntries.padded (h : ReadsEntries es text) (hGap : ∀ c ∈ gap, isPadding c = true) :
    ReadsEntries es (gap ++ text) := by
  intro fuel rest hFuel
  rw [List.length_append] at hFuel
  rw [List.append_assoc, entries?_append hGap]
  exact h fuel rest (by omega)

/-- Keys must differ, as the reader lets a later one overwrite an earlier one. -/
theorem ReadsEntries.object (h : ReadsEntries es text) (hKeys : es.keysDistinct = true) :
    ReadsValue (.object es) ('\x7b' :: text ++ ['\x7d']) := by
  intro fuel rest hFuel _
  obtain ⟨fuel, rfl⟩ := Nat.exists_eq_succ_of_ne_zero (Nat.ne_of_gt (Nat.zero_lt_of_lt hFuel))
  simp only [List.length_append, List.length_cons, List.length_nil] at hFuel
  simp only [List.cons_append, List.append_assoc, List.nil_append]
  rw [value?_object (h fuel rest (by omega)), Props.ofEntries_of_keysDistinct hKeys]

/-- A text that is read as a value, with no blanks around it, gives that value. -/
theorem ReadsValue.decode? (h : ReadsValue v text) (hTrim : trim text = text) :
    Value.decode? text = some v := by
  have hRead := h (text.length + 1) [] (Nat.lt_succ_self _) (stopsAt_nil _)
  rw [List.append_nil] at hRead
  simp only [Value.decode?, hTrim, hRead]
  rfl

end

theorem head_toDigits (n : Nat) : ∃ c more, Nat.toDigits 10 n = c :: more ∧ c.isDigit = true := by
  obtain ⟨c, more, h⟩ := List.exists_cons_of_length_pos (Nat.length_toDigits_pos (b := 10) (n := n))
  have hMem : c ∈ Nat.toDigits 10 n := by
    rw [h]
    exact List.mem_cons_self
  exact ⟨c, more, h, Nat.isDigit_of_mem_toDigits (by decide) (by decide) hMem⟩

/-- A number is written with a digit or a minus in front. -/
theorem head_writeInteger (n : Int) :
    ∃ c more, writeInteger n = c :: more ∧ (c.isDigit = true ∨ c = '-') := by
  unfold writeInteger
  split_ifs
  · exact ⟨'-', _, rfl, .inr rfl⟩
  · obtain ⟨c, more, h, hc⟩ := head_toDigits n.natAbs
    exact ⟨c, more, h, .inl hc⟩

/-- A written number begins with a digit or a sign, so it is taken for nothing else. -/
theorem head_writeReal (format : RealFormat) (x : Binary64) :
    ∃ c more, writeReal format x = c :: more ∧ (c.isDigit = true ∨ c = '-') := by
  rw [writeReal_eq]
  split_ifs
  · exact ⟨'-', _, rfl, .inr rfl⟩
  · obtain ⟨c, more, h, hc⟩ := head_realBody format x
    exact ⟨c, more, h, .inl hc⟩

theorem encodeLineItems_cons_cons (format : RealFormat) (v w : Value) (rest : List Value) :
    encodeLineItems format (v :: w :: rest) =
      encodeLine format v ++ ',' :: encodeLineItems format (w :: rest) := rfl

theorem encodeLineEntries_cons_cons (format : RealFormat) (key : String) (v : Value)
    (entry : String × Value) (rest : Props) :
    encodeLineEntries format ((key, v) :: entry :: rest) =
      encodeText key ++ ':' :: encodeLine format v ++ ',' ::
        encodeLineEntries format (entry :: rest) := rfl

/-- Values, lists of values and entries on one line are read back. -/
theorem reads (format : RealFormat) :
    (∀ v, keyed v = true → ReadsValue v (encodeLine format v)) ∧
      (∀ vs, itemsKeyed vs = true → vs ≠ [] → ReadsItems vs (encodeLineItems format vs)) ∧
      ∀ es, entriesKeyed es = true → es ≠ [] → ReadsEntries es (encodeLineEntries format es) := by
  have hNoGap : ∀ c ∈ ([] : Text), isPadding c = true := fun _ hc => absurd hc List.not_mem_nil
  apply Value.induction
  case null =>
    refine fun _ => readsValue_of_word fun fuel rest => ?_
    simp [encodeLine, value?, skipPadding, isPadding, Text.after?]
  case boolean =>
    refine fun b _ => readsValue_of_word fun fuel rest => ?_
    cases b <;> simp [encodeLine, value?, skipPadding, isPadding, Text.after?]
  case integer =>
    exact fun n _ => readsValue_of_number (head_writeInteger n) (number?_writeInteger n)
  case real =>
    exact fun x _ => readsValue_of_number (head_writeReal format x) (number?_writeReal format x)
  case text => exact fun s _ => readsValue_text s
  case list =>
    intro vs ih hKeyed
    cases vs with
    | nil =>
        refine readsValue_of_word fun fuel rest => ?_
        simp [encodeLine, encodeLineItems, value?, skipPadding, isPadding]
    | cons v vs => exact (ih hKeyed (List.cons_ne_nil _ _)).list
  case object =>
    intro es ih hKeyed
    simp only [keyed, Bool.and_eq_true] at hKeyed
    cases es with
    | nil =>
        refine readsValue_of_word fun fuel rest => ?_
        simp [encodeLine, encodeLineEntries, value?, skipPadding, isPadding]
    | cons entry es => exact (ih hKeyed.2 (List.cons_ne_nil _ _)).object hKeyed.1
  case itemsNil => exact fun _ hNonempty => absurd rfl hNonempty
  case itemsCons =>
    intro v vs hv hvs hKeyed _
    simp only [itemsKeyed, Bool.and_eq_true] at hKeyed
    cases vs with
    | nil =>
        have hLast := (hv hKeyed.1).last hNoGap
        rwa [List.append_nil] at hLast
    | cons w vs => exact (hv hKeyed.1).before (hvs hKeyed.2 (List.cons_ne_nil _ _))
  case entriesNil => exact fun _ hNonempty => absurd rfl hNonempty
  case entriesCons =>
    intro key v es hv hes hKeyed _
    simp only [entriesKeyed, Bool.and_eq_true] at hKeyed
    cases es with
    | nil =>
        have hLast := (hv hKeyed.1).lastEntry key hNoGap
        rwa [List.append_nil] at hLast
    | cons entry es =>
        exact (hv hKeyed.1).beforeEntries key (hes hKeyed.2 (List.cons_ne_nil _ _))

def isNumberChar (c : Char) : Bool :=
  c.isDigit || ".e-+".toList.contains c

theorem isNumberChar_of_isDigit {c : Char} (h : c.isDigit = true) : isNumberChar c = true := by
  simp [isNumberChar, h]

theorem isNumberChar_of_mem_replicate {zeros : Nat} {c : Char}
    (h : c ∈ List.replicate zeros '0') : isNumberChar c = true :=
  isNumberChar_of_isDigit (isDigit_of_mem_replicate h)

theorem isNumberChar_of_mem_toDigits {n : Nat} {c : Char} (h : c ∈ Nat.toDigits 10 n) :
    isNumberChar c = true :=
  isNumberChar_of_isDigit (Nat.isDigit_of_mem_toDigits (by decide) (by decide) h)

theorem isNumberChar_of_mem_writeInteger {n : Int} {c : Char} (h : c ∈ writeInteger n) :
    isNumberChar c = true := by
  unfold writeInteger at h
  split_ifs at h
  · rcases List.mem_cons.mp h with rfl | h
    · decide
    · exact isNumberChar_of_mem_toDigits h
  · exact isNumberChar_of_mem_toDigits h

theorem isNumberChar_of_mem_writePositional {digits : Text} {lead : Int} {c : Char}
    (hDigits : ∀ c ∈ digits, isNumberChar c = true) (h : c ∈ writePositional digits lead) :
    isNumberChar c = true := by
  unfold writePositional at h
  split_ifs at h
  · simp only [List.mem_cons, List.mem_append] at h
    rcases h with rfl | rfl | h | h
    · decide
    · decide
    · exact isNumberChar_of_mem_replicate h
    · exact hDigits c h
  · simp only [List.mem_cons, List.mem_append] at h
    rcases h with (h | h) | rfl | h
    · exact hDigits c (List.mem_of_mem_take h)
    · exact isNumberChar_of_mem_replicate h
    · decide
    · split_ifs at h
      · rw [List.mem_singleton.mp h]
        decide
      · exact hDigits c (List.mem_of_mem_drop h)

theorem isNumberChar_of_mem_writeScientific {exponentDigits : Nat} {digits : Text} {lead : Int}
    {c : Char} (hDigits : ∀ c ∈ digits, isNumberChar c = true)
    (h : c ∈ writeScientific exponentDigits digits lead) : isNumberChar c = true := by
  simp only [writeScientific, List.mem_append, List.mem_cons] at h
  rcases h with (h | h) | rfl | rfl | h | h
  · exact hDigits c (List.mem_of_mem_take h)
  · split_ifs at h
    · cases h
    · rcases List.mem_cons.mp h with rfl | h
      · decide
      · exact hDigits c (List.mem_of_mem_drop h)
  · decide
  · split_ifs <;> decide
  · exact isNumberChar_of_mem_replicate h
  · exact isNumberChar_of_mem_toDigits h

/-- The characters of a number are none that a reader of tags or texts would act on. -/
theorem isNumberChar_of_mem_writeReal {format : RealFormat} {x : Binary64} {c : Char}
    (h : c ∈ writeReal format x) : isNumberChar c = true := by
  have hDigits : ∀ c ∈ x.shortest.digits, isNumberChar c = true :=
    fun c hc => isNumberChar_of_isDigit (isDigit_of_mem_shortest hc)
  have hBody (h : c ∈ realBody format x) : isNumberChar c = true := by
    unfold realBody at h
    split_ifs at h
    · exact isNumberChar_of_mem_writePositional hDigits h
    · exact isNumberChar_of_mem_writeScientific hDigits h
  rw [writeReal_eq] at h
  split_ifs at h
  · rcases List.mem_cons.mp h with rfl | h
    · decide
    · exact hBody h
  · exact hBody h

theorem isBlank_of_isNumberChar {c : Char} (h : isNumberChar c = true) : isBlank c = false := by
  simp only [isNumberChar, Bool.or_eq_true, List.contains_iff_mem] at h
  rcases h with h | h
  · exact isBlank_of_isDigit h
  · fin_cases h <;> decide

/-- A written value starts with no blank. -/
theorem stopsAt_encodeLine (format : RealFormat) (v : Value) :
    StopsAt isBlank (encodeLine format v) := by
  have hNumber {text : Text} (hHead : ∃ c more, text = c :: more ∧ (c.isDigit = true ∨ c = '-')) :
      StopsAt isBlank text := by
    obtain ⟨c, more, rfl, hc⟩ := hHead
    rw [stopsAt_cons]
    rcases hc with hDigit | rfl
    · exact isBlank_of_isDigit hDigit
    · decide
  cases v with
  | null => exact stopsAt_cons.mpr (by decide)
  | boolean b => cases b <;> exact stopsAt_cons.mpr (by decide)
  | integer n => exact hNumber (head_writeInteger n)
  | real x => exact hNumber (head_writeReal format x)
  | text s => exact stopsAt_cons.mpr (by decide)
  | list items => exact stopsAt_cons.mpr (by decide)
  | object entries => exact stopsAt_cons.mpr (by decide)

/-- A written value ends with no blank. -/
theorem stopsAt_reverse_encodeLine (format : RealFormat) (v : Value) :
    StopsAt isBlank (encodeLine format v).reverse := by
  cases v with
  | null => exact stopsAt_cons.mpr (by decide)
  | boolean b => cases b <;> exact stopsAt_cons.mpr (by decide)
  | integer n =>
      exact stopsAt_reverse_of_forall fun c hc =>
        isBlank_of_isNumberChar (isNumberChar_of_mem_writeInteger hc)
  | real x =>
      exact stopsAt_reverse_of_forall fun c hc =>
        isBlank_of_isNumberChar (isNumberChar_of_mem_writeReal hc)
  | text s =>
      rw [encodeLine, encodeText, List.reverse_append]
      exact stopsAt_cons.mpr (by decide)
  | list items =>
      rw [encodeLine, List.reverse_append]
      exact stopsAt_cons.mpr (by decide)
  | object entries =>
      rw [encodeLine, List.reverse_append]
      exact stopsAt_cons.mpr (by decide)

/-- A value on one line reads as itself, in either format of numbers. -/
theorem decode?_encodeLine (format : RealFormat) {v : Value} (hKeyed : keyed v = true) :
    decode? (encodeLine format v) = some v :=
  ((reads format).1 v hKeyed).decode?
    (trim_eq_self (stopsAt_encodeLine format v) (stopsAt_reverse_encodeLine format v))

/-- A value written as compact JSON reads as itself. -/
theorem decode?_encode {v : Value} (hKeyed : keyed v = true) : decode? (encode v) = some v :=
  decode?_encodeLine _ hKeyed

end Wireframe.Value
