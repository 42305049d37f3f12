import Wireframe.Proofs.Page.PlainForests

/-! Counting tags. The tags of a page are those on its lines, and every component
has as many opening as closing tags of each kind, whatever is nested in it. -/
namespace Wireframe

namespace Text

/-- The number of places in a text where the reader recognises something. -/
def places (read : Reader) : Text → Nat
  | [] => 0
  | c :: text => (if (read (c :: text)).isSome then 1 else 0) + places read text

variable {read : Reader}

theorem places_cons_of_none {c : Char} {text : Text} (h : read (c :: text) = none) :
    places read (c :: text) = places read text := by
  rw [places, h]
  exact Nat.zero_add _

/-- A text without `<` holds no place of a reader that looks for tags. -/
theorem places_angleFree_append (hRead : AngleFirst read) {free : Text}
    (hFree : angleFree free = true) (rest : Text) :
    places read (free ++ rest) = places read rest := by
  induction free with
  | nil => rfl
  | cons c free ih =>
      rw [angleFree_cons, Bool.and_eq_true, bne_iff_ne] at hFree
      rw [List.cons_append, places_cons_of_none (hRead.cons c _ hFree.1), ih hFree.2]

/-- Such a text by itself adds nothing to a count of tags. -/
theorem places_of_angleFree (hRead : AngleFirst read) {free : Text}
    (hFree : angleFree free = true) : places read free = 0 := by
  have hAppend := places_angleFree_append hRead hFree []
  rwa [List.append_nil] at hAppend

end Text

namespace Page

open Text

def tagStart (kind : Kind) : Reader := fun text =>
  match after? ('<' :: kind.tag) text with
  | some rest => if endsTagName rest then some ('<' :: kind.tag, rest) else none
  | none => none

def openings (kind : Kind) (text : Text) : Nat :=
  places (tagStart kind) text

def closings (kind : Kind) (text : Text) : Nat :=
  places (literal (closingTag kind.tag)) text

def surplus (kind : Kind) (text : Text) : Int :=
  openings kind text - closings kind text

/-- No surplus means that as many tags open as close. -/
theorem surplus_eq_zero {kind : Kind} {text : Text} :
    surplus kind text = 0 ↔ openings kind text = closings kind text := by
  unfold surplus
  omega

/-- A tag without its attributes. -/
inductive Side where
  | opens (kind : Kind)
  | closes (kind : Kind)
deriving DecidableEq

def Mark.side : Mark → Side
  | .opening kind _ => .opens kind
  | .closing kind => .closes kind

def Line.sides (lines : List Line) : List Side :=
  lines.map fun line => line.mark.side

@[simp] theorem Line.sides_nil : Line.sides [] = [] := rfl

@[simp] theorem Line.sides_cons (line : Line) (lines : List Line) :
    Line.sides (line :: lines) = line.mark.side :: Line.sides lines := rfl

@[simp] theorem Line.sides_append (first last : List Line) :
    Line.sides (first ++ last) = Line.sides first ++ Line.sides last :=
  List.map_append

/-- The reader tells one side of the tags of a kind from all others. -/
structure Tells (read : Reader) (side : Side) : Prop where
  angleFirst : AngleFirst read
  mark : ∀ (mark : Mark) (rest : Text), (read (mark.text ++ rest)).isSome = (mark.side == side)
  blockStart : ∀ rest, read ('<' :: '>' :: rest) = none
  blockEnd : ∀ rest, read ('<' :: '/' :: '>' :: rest) = none

/-- The start of an opening tag is found in the opening tags of its kind, once in each, and in no
other tag. -/
theorem tells_tagStart (kind : Kind) : Tells (tagStart kind) (.opens kind) where
  angleFirst :=
    ⟨rfl, fun c text h => by rw [tagStart, after?_eq_none_of_ne (Ne.symm h)]⟩
  mark mark rest := by
    cases mark with
    | closing other =>
        simp [tagStart, Mark.text, Mark.inner, Mark.side, after?_cons_self, after?_tag_slash]
    | opening other props =>
        by_cases hKind : other = kind
        · subst hKind
          have hEnds := endsTagName_attributes props rest
          simp [tagStart, Mark.text, Mark.inner, Mark.side, after?_cons_self, after?_append, hEnds]
        · simp [tagStart, Mark.text, Mark.inner, Mark.side, after?_cons_self,
            after?_tag_append hKind, hKind]
  blockStart rest := by rw [tagStart, after?_cons_self, after?_tag_close]
  blockEnd rest := by rw [tagStart, after?_cons_self, after?_tag_slash]

/-- A closing tag is found in the closing tags of its kind and in no other tag. -/
theorem tells_closingTag (kind : Kind) :
    Tells (literal (closingTag kind.tag)) (.closes kind) where
  angleFirst := angleFirst_closingTag kind.tag
  mark mark rest := by
    by_cases hMark : mark = .closing kind
    · subst hMark
      rw [Mark.text_closing, literal_append]
      simp [Mark.side]
    · have hOther : ∀ other, mark = .closing other → other.tag ≠ kind.tag := by
        rintro other rfl hTag
        exact hMark (by rw [tag_injective hTag])
      rw [literal_closingTag_of_ne (notMem_tag kind) hOther]
      cases mark with
      | opening other props => rfl
      | closing other =>
          have hKind : other ≠ kind := fun hEq => hMark (by rw [hEq])
          simp [Mark.side, hKind]
  blockStart rest := by
    simp [literal, closingTag, after?_cons_self, after?_eq_none_of_ne]
  blockEnd rest := by
    have hEnd := after?_name_of_ne (tag_ne_nil kind).symm (notMem_tag kind) (by simp) rest
    rw [List.nil_append] at hEnd
    simp only [literal, closingTag, List.cons_append, after?_cons_self, hEnd, Option.map_none]

section

variable {read : Reader} {side : Side} (h : Tells read side)
include h

/-- What one tag adds to a count: one if it is a tag of that side and kind, and nothing otherwise. -/
theorem places_mark (mark : Mark) (hClean : mark.Clean) (rest : Text) :
    places read (mark.text ++ rest) = (if mark.side == side then 1 else 0) + places read rest := by
  have hMark := h.mark mark rest
  rw [Mark.text, List.cons_append] at hMark
  rw [Mark.text, List.cons_append, places, hMark,
    places_angleFree_append h.angleFirst hClean.angleFree_inner]

/-- The step from texts to lines: places in the text of lines are counted by the tags on the lines. -/
theorem places_texts {lines : List Line} (hClean : Line.Clean lines) (rest : Text) :
    places read (Line.texts lines ++ rest) =
      (Line.sides lines).count side + places read rest := by
  induction lines with
  | nil => simp
  | cons line lines ih =>
      have hBreak := places_angleFree_append h.angleFirst (show angleFree ['\n'] = true from rfl)
        (Line.texts lines ++ rest)
      rw [List.singleton_append] at hBreak
      rw [Line.texts_cons, List.append_assoc, Line.text_append,
        places_angleFree_append h.angleFirst (angleFree_spaces _),
        places_mark h line.mark hClean.head, hBreak,
        ih hClean.tail, Line.sides_cons, List.count_cons]
      omega

/-- Header and footer of a page hold no tags of the vocabulary, so that the lines of the roots alone
count. -/
theorem places_page {frame : Frame} (hFrame : frame.AngleFree) {lines : List Line}
    (hClean : Line.Clean lines) :
    places read (page frame lines) = (Line.sides lines).count side := by
  have hRead := h.angleFirst
  have hStart : places read ('<' :: (['>', '\n'] ++ (Line.texts lines ++ closing frame))) =
      places read (Line.texts lines ++ closing frame) := by
    have hHere : read ('<' :: (['>', '\n'] ++ (Line.texts lines ++ closing frame))) = none :=
      h.blockStart _
    rw [places_cons_of_none hHere, places_angleFree_append hRead (by decide)]
  have hEnd : places read ('<' :: ("/>".toList ++ ("\n  );".toList ++ trail frame))) = 0 := by
    have hHere : read ('<' :: ("/>".toList ++ ("\n  );".toList ++ trail frame))) = none :=
      h.blockEnd _
    rw [places_cons_of_none hHere, places_of_angleFree hRead (angleFree_behindBlock hFrame)]
  have hClosing : places read (closing frame) = 0 := by
    rw [closing_eq, places_angleFree_append hRead (by decide)]
    exact hEnd
  have hText : page frame lines = (lead frame ++ ("return (".toList ++ "\n    ".toList)) ++
      '<' :: (['>', '\n'] ++ (Line.texts lines ++ closing frame)) := by
    rw [page, opening_eq]
    simp
  rw [hText, places_angleFree_append hRead (angleFree_beforeBlock hFrame), hStart,
    places_texts h hClean, hClosing, Nat.add_zero]

end

def Side.surplus (kind : Kind) (sides : List Side) : Int :=
  sides.count (.opens kind) - sides.count (.closes kind)

@[simp] theorem Side.surplus_nil (kind : Kind) : Side.surplus kind [] = 0 := rfl

/-- Surplus adds up over tags side by side. -/
@[simp] theorem Side.surplus_append (kind : Kind) (first last : List Side) :
    Side.surplus kind (first ++ last) = Side.surplus kind first + Side.surplus kind last := by
  simp only [Side.surplus, List.count_append, Nat.cast_add]
  omega

/-- A tag and its counterpart cancel out. -/
theorem Side.surplus_pair (kind other : Kind) (inner : List Side) :
    Side.surplus kind (.opens other :: (inner ++ [.closes other])) = Side.surplus kind inner := by
  simp only [Side.surplus, List.count_cons, List.count_append, List.count_nil]
  by_cases hKind : other = kind <;> simp [hKind]

def Line.surplus (kind : Kind) (lines : List Line) : Int :=
  Side.surplus kind (Line.sides lines)

theorem Line.surplus_append (kind : Kind) (first last : List Line) :
    Line.surplus kind (first ++ last) = Line.surplus kind first + Line.surplus kind last := by
  rw [Line.surplus, Line.sides_append, Side.surplus_append]
  rfl

/-- The surplus of a page is that of its lines. -/
theorem surplus_page {frame : Frame} (hFrame : frame.AngleFree) {lines : List Line}
    (hClean : Line.Clean lines) (kind : Kind) :
    surplus kind (page frame lines) = Line.surplus kind lines := by
  rw [surplus, openings, closings, places_page (tells_tagStart kind) hFrame hClean,
    places_page (tells_closingTag kind) hFrame hClean, Line.surplus, Side.surplus]

theorem Span.sides_lines (span : Span) :
    Line.sides span.lines = .opens span.kind :: (Line.sides span.inner ++ [.closes span.kind]) := by
  simp [Span.lines, Mark.side]

/-- A pair of tags adds nothing to the surplus. What counts is inside. -/
theorem Span.surplus_lines (span : Span) (kind : Kind) :
    Line.surplus kind span.lines = Line.surplus kind span.inner := by
  rw [Line.surplus, span.sides_lines, Side.surplus_pair]
  rfl

/-- Rendered components are balanced, whatever is nested in them. -/
theorem surplus_lines (kind : Kind) (forest : Forest) :
    ∀ indent, Line.surplus kind (Forest.lines indent forest) = 0 := by
  induction forest using Forest.induction with
  | nil => exact fun _ => rfl
  | cons c rest hChildren hRest =>
      intro indent
      have hInner := (spanOf indent c).surplus_lines kind
      rw [Forest.lines_cons, ← lines_spanOf, Line.surplus_append, hInner, hRest, Int.add_zero]
      exact hChildren (indent + 2)

end Page
end Wireframe
