import Mathlib
import Wireframe.Text.WordChar

/-! Longest runs of characters of a class. A run followed by a text that starts
with no character of the class is the longest run of the whole. -/
namespace Wireframe

theorem isBlank_of_graphic {c : Char} (h : 0x21 ≤ c.toNat ∧ c.toNat ≤ 0x7e) :
    isBlank c = false := by
  simp only [isBlank, inRanges, blankRanges, List.any_cons, List.any_nil, Bool.or_false,
    Bool.or_eq_false_iff, Bool.and_eq_false_iff, decide_eq_false_iff_not]
  omega

theorem isBlank_of_isDigit {c : Char} (h : c.isDigit = true) : isBlank c = false := by
  have hRange : 48 ≤ c.toNat ∧ c.toNat ≤ 57 := Char.isDigit_iff_toNat.mp h
  exact isBlank_of_graphic (by omega)

/-- The ranges of a class, written out, for statements that are decided code by code. -/
theorem mem_of_inRanges {ranges : List (Nat × Nat)} {code : Nat}
    (h : inRanges ranges code = true) :
    code ∈ ranges.flatMap fun range => List.range' range.1 (range.2 + 1 - range.1) := by
  obtain ⟨⟨first, last⟩, hRange, hCode⟩ := List.any_eq_true.mp h
  simp only [Bool.and_eq_true, decide_eq_true_eq] at hCode
  refine List.mem_flatMap.mpr ⟨(first, last), hRange, List.mem_range'_1.mpr ⟨hCode.1, ?_⟩⟩
  dsimp only
  omega

/-- No character of white space belongs to a word. -/
theorem isWordChar_of_isBlank {c : Char} (h : isBlank c = true) : isWordChar c = false := by
  have hCodes : ∀ code ∈ blankRanges.flatMap fun range =>
      List.range' range.1 (range.2 + 1 - range.1), isWordChar (Char.ofNat code) = false := by
    decide +kernel
  have hChar := hCodes c.toNat (mem_of_inRanges h)
  rwa [Char.ofNat_toNat] at hChar

namespace Text

/-- The text does not start with a character of the class. -/
def StopsAt (p : Char → Bool) (text : Text) : Prop :=
  ∀ c ∈ text.head?, p c = false

@[simp] theorem stopsAt_nil (p : Char → Bool) : StopsAt p [] := by
  intro c h
  cases h

@[simp] theorem stopsAt_cons {p : Char → Bool} {c : Char} {text : Text} :
    StopsAt p (c :: text) ↔ p c = false := by
  simp [StopsAt]

/-- A run of fewer characters stops where a run of more characters does. -/
theorem StopsAt.mono {p q : Char → Bool} {text : Text} (h : StopsAt q text)
    (hLe : ∀ c, p c = true → q c = true) : StopsAt p text := by
  intro c hc
  have hq := h c hc
  cases hp : p c with
  | false => rfl
  | true => rw [hLe c hp] at hq; exact hq

/-- A run ends where its characters do; what follows decides only that it goes no further. -/
theorem takeWhile_append_of_stopsAt {p : Char → Bool} {run rest : Text}
    (hRun : ∀ c ∈ run, p c = true) (hStop : StopsAt p rest) :
    (run ++ rest).takeWhile p = run := by
  rw [List.takeWhile_append_of_pos hRun]
  cases rest with
  | nil => simp
  | cons c rest => simp [stopsAt_cons.mp hStop]

theorem dropWhile_append_of_stopsAt {p : Char → Bool} {run rest : Text}
    (hRun : ∀ c ∈ run, p c = true) (hStop : StopsAt p rest) :
    (run ++ rest).dropWhile p = rest := by
  rw [List.dropWhile_append_of_pos hRun]
  cases rest with
  | nil => rfl
  | cons c rest => simp [stopsAt_cons.mp hStop]

theorem stopsAt_dropWhile (p : Char → Bool) (text : Text) : StopsAt p (text.dropWhile p) := by
  intro c hc
  have hHead := List.head?_dropWhile_not p text
  rw [hc] at hHead
  simpa using hHead

theorem stopsAt_reverse_of_forall {p : Char → Bool} {text : Text}
    (h : ∀ c ∈ text, p c = false) : StopsAt p text.reverse := by
  intro c hc
  exact h c (List.mem_reverse.mp (List.mem_of_mem_head? hc))

/-- A text without blanks at its ends is trimmed already. -/
theorem trim_eq_self {text : Text} (hFirst : StopsAt isBlank text)
    (hLast : StopsAt isBlank text.reverse) : trim text = text := by
  have hLeft : trimLeft text = text := @dropWhile_append_of_stopsAt isBlank [] text (by simp) hFirst
  have hRight : text.reverse.dropWhile isBlank = text.reverse :=
    @dropWhile_append_of_stopsAt isBlank [] text.reverse (by simp) hLast
  rw [trim, hLeft, hRight, List.reverse_reverse]

end Text

end Wireframe
