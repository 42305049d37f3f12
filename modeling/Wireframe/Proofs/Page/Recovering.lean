import Wireframe.Proofs.Page.PlainForests
import Wireframe.Page.Recover

/-! How components are recovered from text, pair by pair. The bound on the steps never
shows, and text without `<` is passed over. -/
namespace Wireframe
namespace Page

open Text

variable {α : Type}

/-- The longest length is asked first, so an answer there is the answer. -/
theorem longest?_of_some {answer : Nat → Option α} {length : Nat} {found : α} (hPos : 0 < length)
    (h : answer length = some found) : longest? answer length = some found := by
  obtain ⟨less, rfl⟩ := Nat.exists_eq_succ_of_ne_zero hPos.ne'
  rw [longest?, h]

/-- The answer is that for the greatest of the lengths that has one. -/
theorem longest?_eq_some_iff {answer : Nat → Option α} {length : Nat} {found : α} :
    longest? answer length = some found ↔ ∃ n, 0 < n ∧ n ≤ length ∧ answer n = some found ∧
      ∀ m, n < m → m ≤ length → answer m = none := by
  induction length with
  | zero =>
      constructor
      · intro h
        cases h
      · rintro ⟨n, hPos, hLe, -⟩
        omega
  | succ length ih =>
      rw [longest?]
      cases hLast : answer (length + 1) with
      | some last =>
          refine ⟨fun h => ?_, fun ⟨n, _, hLe, hAnswer, hNone⟩ => ?_⟩
          · cases h
            exact ⟨length + 1, Nat.succ_pos _, le_rfl, hLast, fun m _ _ => by omega⟩
          · rcases Nat.lt_or_eq_of_le hLe with hLt | rfl
            · rw [hNone (length + 1) hLt le_rfl] at hLast
              cases hLast
            · exact hLast.symm.trans hAnswer
      | none =>
          refine ih.trans ⟨fun ⟨n, hPos, hLe, hAnswer, hNone⟩ => ?_,
            fun ⟨n, hPos, hLe, hAnswer, hNone⟩ => ?_⟩
          · refine ⟨n, hPos, Nat.le_succ_of_le hLe, hAnswer, fun m hLt hm => ?_⟩
            rcases Nat.le_succ_iff.mp hm with hm | rfl
            · exact hNone m hLt hm
            · exact hLast
          · refine ⟨n, hPos, ?_, hAnswer, fun m hLt hm => hNone m hLt (Nat.le_succ_of_le hm)⟩
            rcases Nat.le_succ_iff.mp hLe with hLe | rfl
            · exact hLe
            · rw [hLast] at hAnswer
              cases hAnswer

/-- Reading an opening tag splits the text and loses nothing. -/
theorem append_of_opening? {acrossLines : Bool} {text : Text} {tag : Opening}
    (h : opening? acrossLines text = some tag) : text = tag.text ++ tag.rest := by
  unfold opening? at h
  split at h
  · dsimp only at h
    split at h
    · cases h
    · simp only [Option.map_eq_some_iff] at h
      obtain ⟨⟨attributes, rest⟩, hSplit, rfl⟩ := h
      have hText := append_of_splitAttributes? hSplit
      simp only [Opening.text, List.cons_append, List.append_assoc, List.nil_append]
      rw [← hText, List.takeWhile_append_dropWhile]
  · cases h

/-- Nothing is lost when a pair is split off. -/
theorem append_of_pair? {text : Text} {pair : Pair} (h : pair? text = some pair) :
    text = pair.text ++ pair.rest := by
  unfold pair? at h
  split at h
  · rename_i tag hTag
    obtain ⟨n, -, -, hNamed, -⟩ := longest?_eq_some_iff.mp h
    simp only [pairNamed?, Option.map_eq_some_iff] at hNamed
    obtain ⟨cut, hCut, rfl⟩ := hNamed
    have hWhole := whole_of_find? (faithful_literal _) hCut
    obtain ⟨hTarget, -⟩ := append_of_literal (read_of_find? (faithful_literal _) hCut)
    rw [Cut.whole, hTarget] at hWhole
    rw [append_of_opening? hTag, ← hWhole]
    have hName := List.take_append_drop n tag.name
    simp only [Opening.text, Pair.text, List.cons_append, List.append_assoc, List.nil_append]
    rw [← List.append_assoc (tag.name.take n), hName]
  · cases h

/-- What a pair encloses and what follows it are shorter than the text; the recursion of the reader
is on these two. -/
theorem length_of_pair? {text : Text} {pair : Pair} (h : pair? text = some pair) :
    pair.inner.length < text.length ∧ pair.rest.length < text.length := by
  have hLength := congrArg List.length (append_of_pair? h)
  simp only [Pair.text, List.length_append, List.length_cons] at hLength
  omega

/-- The bound on the number of steps makes no difference. -/
theorem recoverWithin_eq (n m : Nat) (text : Text) (hn : text.length ≤ n) (hm : text.length ≤ m) :
    recoverWithin n text = recoverWithin m text := by
  induction n generalizing m text with
  | zero =>
      obtain rfl := List.length_eq_zero_iff.mp (Nat.le_zero.mp hn)
      cases m <;> rfl
  | succ n ih =>
      cases text with
      | nil => cases m <;> rfl
      | cons c text =>
          rw [List.length_cons] at hn hm
          obtain ⟨m, rfl⟩ : ∃ less, m = less + 1 := ⟨m - 1, by omega⟩
          simp only [recoverWithin]
          cases hPair : pair? (c :: text) with
          | none => exact ih m text (by omega) (by omega)
          | some pair =>
              obtain ⟨hInner, hRest⟩ := length_of_pair? hPair
              rw [List.length_cons] at hInner hRest
              simp only [ih m pair.inner (by omega) (by omega),
                ih m pair.rest (by omega) (by omega)]

theorem recover_nil : recover [] = [] := rfl

theorem recover_cons_of_none {c : Char} {text : Text} (h : pair? (c :: text) = none) :
    recover (c :: text) = recover text := by
  rw [recover, List.length_cons, recoverWithin, h]
  rfl

/-- The equation of the reader at a pair: the component with its children, or the children in its
place, and then the rest. -/
theorem recover_of_pair {text : Text} {pair : Pair} (h : pair? text = some pair) :
    recover text = ofPair pair (recover pair.inner) ++ recover pair.rest := by
  obtain ⟨hInner, hRest⟩ := length_of_pair? h
  cases text with
  | nil => cases h
  | cons c text =>
      rw [List.length_cons] at hInner hRest
      rw [recover, List.length_cons, recoverWithin, h]
      simp only [recover, recoverWithin_eq text.length pair.inner.length pair.inner (by omega)
        (by omega), recoverWithin_eq text.length pair.rest.length pair.rest (by omega) (by omega)]

/-- What holds of the empty text, of a text if it holds behind a character that starts no pair, and of
a text that starts with a pair if it holds in the pair and behind it, holds of every text. -/
theorem recover_induction {P : Text → Prop} (nil : P [])
    (skip : ∀ c text, pair? (c :: text) = none → P text → P (c :: text))
    (pair : ∀ text pair, pair? text = some pair → P pair.inner → P pair.rest → P text)
    (text : Text) : P text := by
  generalize hBound : text.length = bound
  induction bound using Nat.strong_induction_on generalizing text with
  | _ bound ih =>
      cases hPair : pair? text with
      | some found =>
          obtain ⟨hInner, hRest⟩ := length_of_pair? hPair
          exact pair text found hPair (ih _ (hBound ▸ hInner) _ rfl) (ih _ (hBound ▸ hRest) _ rfl)
      | none =>
          cases text with
          | nil => exact nil
          | cons c text => exact skip c text hPair (ih _ (hBound ▸ Nat.lt_succ_self _) _ rfl)

/-- A pair begins at `<` only. -/
theorem pair?_of_ne {c : Char} (h : c ≠ '<') (text : Text) : pair? (c :: text) = none := by
  have hOpening : opening? true (c :: text) = none := by
    unfold opening?
    split
    · rename_i heq
      exact absurd (List.cons.inj heq).1 h
    · rfl
  rw [pair?, hOpening]

/-- Text without `<` in front is skipped. -/
theorem recover_angleFree_append {free : Text} (h : angleFree free = true) (rest : Text) :
    recover (free ++ rest) = recover rest := by
  induction free with
  | nil => rfl
  | cons c free ih =>
      rw [angleFree_cons, Bool.and_eq_true, bne_iff_ne] at h
      rw [List.cons_append, recover_cons_of_none (pair?_of_ne h.1 _), ih h.2]

theorem recover_of_angleFree {free : Text} (h : angleFree free = true) : recover free = [] := by
  have hAppend := recover_angleFree_append h []
  rwa [List.append_nil, recover_nil] at hAppend

/-- A `<` before a character that no name holds starts no pair. -/
theorem pair?_of_not_word {c : Char} (h : isWordChar c = false) (text : Text) :
    pair? ('<' :: c :: text) = none := by
  have hOpening : opening? true ('<' :: c :: text) = none := by
    simp [opening?, h]
  rw [pair?, hOpening]

/-- A legible span is the pair that its text starts with. -/
theorem pair?_text {span : Span} (h : span.Legible) (rest : Text) :
    pair? (span.text ++ rest) = some ⟨span.kind.tag, attributes span.props,
      '\n' :: (Line.texts span.inner ++ spaces span.closingIndent), rest⟩ := by
  obtain ⟨hProps, -⟩ := Span.clean_lines.mp h.clean
  have hPos : 0 < span.kind.tag.length := List.length_pos_iff.mpr (tag_ne_nil span.kind)
  rw [span.text_append, pair?, opening?_openingTag true span.kind hProps, if_pos h.shallow]
  apply longest?_of_some hPos
  simp [pairNamed?, h.cutAt?_inner]

/-- The reader's pair for a written span has the span's own text, so what is recorded as source is
what was written. -/
theorem text_pair (span : Span) (rest : Text) :
    Pair.text ⟨span.kind.tag, attributes span.props,
      '\n' :: (Line.texts span.inner ++ spaces span.closingIndent), rest⟩ = span.text := by
  simp [Pair.text, Span.text, openingTag]

/-- What is recovered from a span: its kind, the props that show, what is inside, and its text. -/
def Span.outline (span : Span) : Component :=
  ⟨span.kind, Diff.visible span.props,
    recover ('\n' :: (Line.texts span.inner ++ spaces span.closingIndent)), some span.text⟩

/-- A legible span is recovered as one component. -/
theorem recover_span {span : Span} (h : span.Legible) (rest : Text) :
    recover (Line.texts span.lines ++ rest) = span.outline :: recover rest := by
  obtain ⟨hProps, -⟩ := Span.clean_lines.mp h.clean
  have hPair := recover_of_pair (pair?_text h ('\n' :: rest))
  rw [ofPair, Kind.ofTag?_tag, text_pair, props_attributes hProps,
    recover_cons_of_none (pair?_of_ne (by decide) _)] at hPair
  rw [Span.texts_lines]
  simp only [List.append_assoc, List.cons_append, List.nil_append]
  rw [recover_angleFree_append (angleFree_spaces _)]
  exact hPair

end Page
end Wireframe
