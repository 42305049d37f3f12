import Wireframe.Proofs.Page.Strays
import Wireframe.Proofs.Page.LineEdits
import Wireframe.Proofs.Page.RoundTrip

/-! What one operation makes of the lines of any page. Whatever is nested in what, an operation
leaves a page of lines again: it finds nothing, or the lines of one span of its target's kind give
way, or the lines of a new root are put between others. -/
namespace Wireframe

namespace Props

/-- Some of the props that can be written can be written. -/
theorem Clean.filter {props : Props} (h : props.Clean) (keep : String × Value → Bool) :
    Props.Clean (props.filter keep) where
  distinct := keysDistinct_filter h.distinct keep
  keyed entry hEntry := h.keyed entry (List.mem_of_mem_filter hEntry)
  named entry hEntry := h.named entry (List.mem_of_mem_filter hEntry)
  angleFree entry hEntry := h.angleFree entry (List.mem_of_mem_filter hEntry)

/-- Setting a prop that can be written keeps props that can be written. -/
theorem Clean.set {props : Props} (h : props.Clean) {key : String} {value : Value}
    (hEntry : Clean [(key, value)]) : Clean (props.set key value) where
  distinct := keysDistinct_set h.distinct
  keyed entry hMem := by
    rcases mem_set hMem with rfl | hOld
    · exact hEntry.keyed _ (by simp)
    · exact h.keyed entry hOld
  named entry hMem := by
    rcases mem_set hMem with rfl | hOld
    · exact hEntry.named _ (by simp)
    · exact h.named entry hOld
  angleFree entry hMem := by
    rcases mem_set hMem with rfl | hOld
    · exact hEntry.angleFree _ (by simp)
    · exact h.angleFree entry hOld

theorem Clean.single {props : Props} (h : props.Clean) {entry : String × Value}
    (hEntry : entry ∈ props) : Clean [entry] where
  distinct := by simp [keysDistinct]
  keyed := by simpa using h.keyed entry hEntry
  named := by simpa using h.named entry hEntry
  angleFree := by simpa using h.angleFree entry hEntry

end Props

namespace Change

def Clean : Change → Prop
  | .set key value => Props.Clean [(key, value)]
  | .remove _ => True

/-- Changes that can be written keep props that can be written. -/
theorem clean_foldl {changes : List Change} (hChanges : ∀ change ∈ changes, change.Clean) :
    ∀ {props : Props}, props.Clean → (changes.foldl applyTo props).Clean := by
  induction changes with
  | nil => exact id
  | cons change rest ih =>
      intro props h
      have hHere := hChanges change (by simp)
      refine ih (fun other hOther => hChanges other (List.mem_cons_of_mem _ hOther)) ?_
      cases change with
      | remove key => exact h.filter _
      | set key value =>
          rw [applyTo]
          split
          · exact h.filter _
          · exact h.set hHere

end Change

open Page

/-- What the operation writes can be read, and its target is known by a pair of tags or by its kind. -/
def Operation.Clean : Operation → Prop
  | .add new _ => Forest.Clean [new]
  | .move target _ => Recorded target ∧ Forest.Clean [target]
  | .remove target => Recorded target
  | .updateProps target changes => Recorded target ∧ ∀ change ∈ changes, change.Clean
  | .updateChildren target children => Recorded target ∧ Forest.Clean children
  | .replace target replacement => Recorded target ∧ Forest.Clean [replacement]

namespace Page

open Text

/-- What an operation makes of the lines of a page. Its target may not be found; if it is, a span of
its kind is, which need not be the component that was meant. -/
inductive Effect : Operation → List Line → List Line → Prop where
  | missed (op : Operation) (lines : List Line) : Effect op lines lines
  | addedFirst (new : Component) (position : Position) (lines : List Line) :
    Effect (.add new position) lines (new.lines 6 ++ lines)
  | addedLast (new : Component) (lines : List Line) :
    Effect (.add new .finish) lines (lines ++ new.lines 6)
  | addedBehind (new : Component) {first last : List Line} {span : Span} (hSpan : span.Legible)
    (hKind : span.kind = .navbar) :
    Effect (.add new .afterNavbar) (first ++ (span.lines ++ last))
      (first ++ (span.lines ++ (new.lines 6 ++ last)))
  | removed {target : Component} {first last : List Line} {span : Span} (hSpan : span.Legible)
    (hKind : span.kind = target.kind) :
    Effect (.remove target) (first ++ (span.lines ++ last)) (first ++ last)
  | changed {target : Component} (changes : List Change) {first last : List Line} {span : Span}
    (hSpan : span.Legible) (hKind : span.kind = target.kind) :
    Effect (.updateProps target changes) (first ++ (span.lines ++ last))
      (first ++ (({ span with props := changes.foldl Change.applyTo (Diff.visible span.props) }).lines ++
        last))
  | refilled {target : Component} (children : Forest) {first last : List Line} {span : Span}
    (hSpan : span.Legible) (hKind : span.kind = target.kind) :
    Effect (.updateChildren target children) (first ++ (span.lines ++ last))
      (first ++ (({ span with inner := Forest.lines (span.indent + 2) children,
                              closingIndent := span.indent }).lines ++ last))
  | replaced {target : Component} (replacement : Component) {first last : List Line} {span : Span}
    (hSpan : span.Legible) (hKind : span.kind = target.kind) :
    Effect (.replace target replacement) (first ++ (span.lines ++ last))
      (first ++ (replacement.lines span.indent ++ last))
  | moved {target : Component} {position : Position} {lines middle left : List Line}
    (hRemoved : Effect (.remove target) lines middle)
    (hAdded : Effect (.add target position) middle left) :
    Effect (.move target position) lines left

namespace Effect

theorem clean_component {c : Component} (h : Forest.Clean [c]) (indent : Nat) :
    Line.Clean (c.lines indent) := by
  have hForest := clean_lines h indent
  rwa [Forest.lines_cons, Forest.lines, List.append_nil] at hForest

/-- The step lemma of patching: an operation that can be written leaves lines that can be read. -/
theorem clean {op : Operation} {lines left : List Line} (h : Effect op lines left)
    (hOp : op.Clean) (hLines : Line.Clean lines) : Line.Clean left := by
  induction h with
  | missed => exact hLines
  | addedFirst new _ _ => exact Line.clean_append.mpr ⟨clean_component hOp 6, hLines⟩
  | addedLast new _ => exact Line.clean_append.mpr ⟨hLines, clean_component hOp 6⟩
  | addedBehind new _ _ =>
      simp only [Line.clean_append] at hLines ⊢
      exact ⟨hLines.1, hLines.2.1, clean_component hOp 6, hLines.2.2⟩
  | removed _ _ =>
      simp only [Line.clean_append] at hLines ⊢
      exact ⟨hLines.1, hLines.2.2⟩
  | changed changes _ _ =>
      simp only [Line.clean_append, Span.clean_lines] at hLines ⊢
      exact ⟨hLines.1, ⟨Change.clean_foldl hOp.2 (hLines.2.1.1.filter _), hLines.2.1.2⟩,
        hLines.2.2⟩
  | refilled children _ _ =>
      simp only [Line.clean_append, Span.clean_lines] at hLines ⊢
      exact ⟨hLines.1, ⟨hLines.2.1.1, clean_lines hOp.2 _⟩, hLines.2.2⟩
  | replaced replacement _ _ =>
      simp only [Line.clean_append] at hLines ⊢
      exact ⟨hLines.1, clean_component hOp.2 _, hLines.2.2⟩
  | moved _ _ ihRemoved ihAdded => exact ihAdded hOp.2 (ihRemoved hOp.1 hLines)

/-- The lines of a component open and close in pairs. -/
theorem loose_component (c : Component) (indent : Nat) : Loose (Line.sides (c.lines indent)) := by
  have hForest := loose_lines [c] indent
  rwa [Forest.lines_cons, Forest.lines, List.append_nil] at hForest

/-- Lines without a closing tag of a kind have none among their tags. -/
theorem closes_notMem_sides {kind : Kind} {lines : List Line}
    (h : ∀ line ∈ lines, line.mark ≠ .closing kind) : .closes kind ∉ Line.sides lines := by
  intro hMem
  obtain ⟨line, hLine, hSide⟩ := List.mem_map.mp hMem
  cases hMark : line.mark with
  | opening other props => simp [hMark, Mark.side] at hSide
  | closing other =>
      simp only [hMark, Mark.side, Side.closes.injEq] at hSide
      exact h line hLine (by rw [hMark, hSide])

/-- Every opening tag keeps a closing tag behind it. -/
theorem edited {op : Operation} {lines left : List Line} (h : Effect op lines left) :
    Edited (Line.sides lines) (Line.sides left) := by
  induction h with
  | missed => exact .refl
  | addedFirst new _ lines =>
      rw [Line.sides_append]
      exact @Edited.insert _ [] _ _ .refl (loose_component new 6)
  | addedLast new lines =>
      have hInsert := @Edited.insert (Line.sides lines) (Line.sides lines) [] _
        (by rw [List.append_nil]; exact .refl) (loose_component new 6)
      rwa [List.append_nil, ← Line.sides_append] at hInsert
  | addedBehind new _ _ =>
      simp only [Line.sides_append, ← List.append_assoc]
      rw [List.append_assoc _ (Line.sides (new.lines 6))]
      exact .insert .refl (loose_component new 6)
  | removed hSpan _ =>
      simp only [Line.sides_append, Span.sides_lines]
      exact @Edited.replace _ _ _ _ _ [] .refl (closes_notMem_sides hSpan.unclosed) .nil
  -- Changed props leave the sides as they are.
  | changed _ _ _ =>
      simp only [Line.sides_append, Span.sides_lines]
      exact .refl
  | @refilled _ children _ _ span hSpan _ =>
      have hPair := Loose.pair span.kind (loose_lines children (span.indent + 2)) .nil
      simp only [Line.sides_append, Span.sides_lines]
      exact .replace .refl (closes_notMem_sides hSpan.unclosed) hPair
  | replaced replacement hSpan _ =>
      simp only [Line.sides_append, Span.sides_lines]
      exact .replace .refl (closes_notMem_sides hSpan.unclosed) (loose_component replacement _)
  | moved _ _ ihRemoved ihAdded => exact ihRemoved.trans ihAdded

end Effect

section

variable {frame : Frame} (hFrame : frame.AngleFree) {lines : List Line} (hClean : Line.Clean lines)
include hFrame hClean

/-- A component is not found, or a span of its kind is. -/
theorem locate?_cases {c : Component} (hRecorded : Recorded c) :
    locate? (page frame lines) c = none ∨
      ∃ (first last : List Line) (span : Span), lines = first ++ (span.lines ++ last) ∧
        span.kind = c.kind ∧ span.Legible ∧
        locate? (page frame lines) c = some (span.cutIn frame first last) := by
  cases hLocate : locate? (page frame lines) c with
  | none => exact .inl rfl
  | some cut =>
      obtain ⟨first, last, span, hLines, hKind, hSpan, rfl⟩ :=
        span_of_locate? hFrame hClean hRecorded hLocate
      exact .inr ⟨first, last, span, hLines, hKind, hSpan, rfl⟩

/-- Putting a root onto a page adds the lines of the root between two lines. -/
theorem insert_effect (new : Component) (position : Position) :
    ∃ left, insert (page frame lines) new position = .ok (page frame left) ∧
      Effect (.add new position) lines left := by
  cases position with
  | start => exact ⟨_, insertAtStart_page hFrame hClean new, .addedFirst new _ lines⟩
  | finish => exact ⟨_, insertAtEnd_page hFrame hClean new, .addedLast new lines⟩
  | afterNavbar =>
      cases hFind : findKind? .navbar (page frame lines) with
      | none =>
          refine ⟨_, ?_, .addedFirst new _ lines⟩
          rw [insert, insertAfterNavbar, hFind]
          exact insertAtStart_page hFrame hClean new
      | some cut =>
          obtain ⟨first, last, span, rfl, hKind, hSpan, rfl⟩ :=
            span_of_findKind? hFrame hClean hFind
          exact ⟨_, insertAfterNavbar_page hFind new, .addedBehind new hSpan hKind⟩

/-- Removing takes the lines of some pair of tags of the kind out, or nothing. -/
theorem delete_effect {target : Component} (hTarget : Recorded target) :
    ∃ left, delete (page frame lines) target = page frame left ∧
      Effect (.remove target) lines left := by
  rcases locate?_cases hFrame hClean hTarget with
    hNone | ⟨first, last, span, rfl, hKind, hSpan, hLocate⟩
  · exact ⟨lines, by rw [delete, hNone], .missed _ _⟩
  · exact ⟨_, delete_page hLocate, .removed hSpan hKind⟩

/-- One operation on any page leaves a page. -/
theorem apply_effect {op : Operation} (hOp : op.Clean) :
    ∃ left, apply (page frame lines) op = .ok (page frame left) ∧ Effect op lines left := by
  cases op with
  | add new position => exact insert_effect hFrame hClean new position
  | remove target =>
      obtain ⟨left, hDelete, hEffect⟩ := delete_effect hFrame hClean hOp
      exact ⟨left, congrArg Except.ok hDelete, hEffect⟩
  | updateProps target changes =>
      rcases locate?_cases hFrame hClean hOp.1 with
        hNone | ⟨first, last, span, rfl, hKind, hSpan, hLocate⟩
      · exact ⟨lines, by rw [apply, updateProps, hNone], .missed _ _⟩
      · exact ⟨_, congrArg Except.ok (updateProps_page hLocate hSpan changes),
          .changed changes hSpan hKind⟩
  | updateChildren target children =>
      rcases locate?_cases hFrame hClean hOp.1 with
        hNone | ⟨first, last, span, rfl, hKind, hSpan, hLocate⟩
      · exact ⟨lines, by rw [apply, updateChildren, hNone], .missed _ _⟩
      · exact ⟨_, congrArg Except.ok (updateChildren_page hLocate hSpan hKind.symm children),
          .refilled children hSpan hKind⟩
  | replace target replacement =>
      rcases locate?_cases hFrame hClean hOp.1 with
        hNone | ⟨first, last, span, rfl, hKind, hSpan, hLocate⟩
      · exact ⟨lines, by rw [apply, replace, hNone], .missed _ _⟩
      · exact ⟨_, congrArg Except.ok (replace_page hLocate replacement),
          .replaced replacement hSpan hKind⟩
  | move target position =>
      cases hLocate : locate? (page frame lines) target with
      | none => exact ⟨lines, by simp [apply, hLocate], .missed _ _⟩
      | some cut =>
          obtain ⟨middle, hDelete, hRemoved⟩ := delete_effect hFrame hClean hOp.1
          obtain ⟨left, hInsert, hAdded⟩ :=
            insert_effect hFrame (hRemoved.clean hOp.1 hClean) target position
          exact ⟨left, by simp [apply, hLocate, hDelete, hInsert], .moved hRemoved hAdded⟩

end

/-- What every operation keeps holds after all of them. -/
theorem applyEach_effects {frame : Frame} (hFrame : frame.AngleFree) {Holds : List Line → Prop}
    {operations : List Operation} (hOperations : ∀ op ∈ operations, op.Clean)
    (hStep : ∀ op ∈ operations, ∀ {lines left}, Effect op lines left → Holds lines → Holds left) :
    ∀ {lines : List Line}, Line.Clean lines → Holds lines →
      ∃ left, applyEach operations (page frame lines) = .ok (page frame left) ∧
        Line.Clean left ∧ Holds left := by
  induction operations with
  | nil => exact fun {lines} hClean hHolds => ⟨lines, rfl, hClean, hHolds⟩
  | cons op rest ih =>
      intro lines hClean hHolds
      have hHere := hOperations op List.mem_cons_self
      obtain ⟨middle, hApply, hEffect⟩ := apply_effect hFrame hClean hHere
      rw [applyEach, hApply]
      exact ih (fun other hOther => hOperations other (List.mem_cons_of_mem _ hOther))
        (fun other hOther => hStep other (List.mem_cons_of_mem _ hOther))
        (hEffect.clean hHere hClean) (hStep op List.mem_cons_self hEffect hHolds)

end Page
end Wireframe
