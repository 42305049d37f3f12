/-!
Text as a list of code points, and the ways of finding something in it. A search cuts a text into
what stands before the find, the find, and what follows, so that the three parts always join to the
whole.
-/
namespace Wireframe

/-- Text as its code points in order. Positions and lengths count code points. -/
abbrev Text := List Char

/-- A text cut in three. -/
structure Cut where
  before : Text
  target : Text
  after : Text
deriving DecidableEq, Repr

/-- A reader looks at the start of a text only. It answers the part that it recognises and the
rest. -/
abbrev Reader := Text → Option (Text × Text)

namespace Cut

def whole (cut : Cut) : Text :=
  cut.before ++ cut.target ++ cut.after

/-- The text with other words in place of the target. -/
def fill (cut : Cut) (replacement : Text) : Text :=
  cut.before ++ replacement ++ cut.after

def start (cut : Cut) : Nat :=
  cut.before.length

def stop (cut : Cut) : Nat :=
  cut.before.length + cut.target.length

end Cut

namespace Text

/-- What follows `lead` in a text that starts with it. -/
def after? : Text → Text → Option Text
  | [], text => some text
  | _ :: _, [] => none
  | a :: lead, c :: text => if a = c then after? lead text else none

theorem after?_append (lead rest : Text) : after? lead (lead ++ rest) = some rest := by
  induction lead with
  | nil => rfl
  | cons a lead ih => simp [after?, ih]

theorem eq_append_of_after? {lead text rest : Text} (h : after? lead text = some rest) :
    text = lead ++ rest := by
  induction lead generalizing text with
  | nil => simpa [after?] using h
  | cons a lead ih =>
    cases text with
    | nil => simp [after?] at h
    | cons c text =>
      by_cases hc : a = c
      · simp only [after?, hc, if_true] at h
        simp [hc, ih h]
      · simp [after?, hc] at h

def literal (words : Text) : Reader :=
  fun text => (after? words text).map fun rest => (words, rest)

/-- The first place where the reader recognises something. -/
def find? (read : Reader) : Text → Option Cut
  | [] => (read []).map fun (target, rest) => ⟨[], target, rest⟩
  | c :: text =>
    match read (c :: text) with
    | some (target, rest) => some ⟨[], target, rest⟩
    | none => (find? read text).map fun cut => { cut with before := c :: cut.before }

/-- A reader is faithful when the part that it recognises and the rest join to the text. -/
def Faithful (read : Reader) : Prop :=
  ∀ text target rest, read text = some (target, rest) → text = target ++ rest

theorem faithful_literal (words : Text) : Faithful (literal words) := by
  intro text target rest h
  simp only [literal, Option.map_eq_some_iff, Prod.mk.injEq] at h
  obtain ⟨r, hr, rfl, rfl⟩ := h
  exact eq_append_of_after? hr

/-- Nothing is lost by a search. -/
theorem whole_of_find? {read : Reader} (faithful : Faithful read) {text : Text} {cut : Cut}
    (h : find? read text = some cut) : cut.whole = text := by
  induction text generalizing cut with
  | nil =>
    simp only [find?, Option.map_eq_some_iff] at h
    obtain ⟨⟨target, rest⟩, hr, rfl⟩ := h
    simpa [Cut.whole] using (faithful _ _ _ hr).symm
  | cons c text ih =>
    rw [find?] at h
    split at h
    · rename_i target rest hr
      cases h
      simpa [Cut.whole] using (faithful _ _ _ hr).symm
    · simp only [Option.map_eq_some_iff] at h
      obtain ⟨cut', hc, rfl⟩ := h
      have := ih hc
      simp [Cut.whole] at this ⊢
      exact this

/-- The first place, among the starts of lines, where the reader recognises something. The flag
says whether the text at hand starts a line. -/
def findAtLineStart? (read : Reader) : Bool → Text → Option Cut
  | starts, [] => if starts then (read []).map fun (target, rest) => ⟨[], target, rest⟩ else none
  | starts, c :: text =>
    match if starts then read (c :: text) else none with
    | some (target, rest) => some ⟨[], target, rest⟩
    | none =>
      (findAtLineStart? read (c == '\n') text).map fun cut =>
        { cut with before := c :: cut.before }

def cutAt? (words text : Text) : Option Cut :=
  find? (literal words) text

def occurs (words text : Text) : Bool :=
  (cutAt? words text).isSome

def firstSuffix? {α : Type} (read : Text → Option α) : Text → Option α
  | [] => read []
  | c :: text =>
    match read (c :: text) with
    | some found => some found
    | none => firstSuffix? read text

/-- The part after the last line break. -/
def lastLine (text : Text) : Text :=
  (text.reverse.takeWhile (· ≠ '\n')).reverse

def dropLastLine (text : Text) : Text :=
  (text.reverse.dropWhile (· ≠ '\n')).reverse

theorem dropLastLine_append_lastLine (text : Text) : dropLastLine text ++ lastLine text = text := by
  rw [dropLastLine, lastLine, ← List.reverse_append, List.takeWhile_append_dropWhile,
    List.reverse_reverse]

/-- The part up to the first line break, with the break. -/
def firstLine : Text → Text
  | [] => []
  | c :: text => if c = '\n' then [c] else c :: firstLine text

def dropFirstLine : Text → Text
  | [] => []
  | c :: text => if c = '\n' then text else dropFirstLine text

theorem firstLine_append_dropFirstLine (text : Text) :
    firstLine text ++ dropFirstLine text = text := by
  induction text with
  | nil => rfl
  | cons c text ih => by_cases h : c = '\n' <;> simp [firstLine, dropFirstLine, h, ih]

/-- Puts `new` for each occurrence of `old`, from the left and without overlap. `skip` characters
belong to an occurrence that was already replaced. -/
def replaceFrom (old new : Text) : Nat → Text → Text
  | _, [] => []
  | 0, c :: text =>
    match after? old (c :: text) with
    | some _ => new ++ replaceFrom old new (old.length - 1) text
    | none => c :: replaceFrom old new 0 text
  | skip + 1, _ :: text => replaceFrom old new skip text

/-- Puts `new` for each occurrence of `old`. An empty `old` occurs before every character and at
the end. -/
def replaceAll (old new text : Text) : Text :=
  if old.isEmpty then text.foldr (fun c rest => new ++ c :: rest) new
  else replaceFrom old new 0 text

def spaces (count : Nat) : Text :=
  List.replicate count ' '

end Text

end Wireframe
