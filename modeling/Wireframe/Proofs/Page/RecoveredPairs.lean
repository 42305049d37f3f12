import Wireframe.Proofs.Page.Effects
import Wireframe.Proofs.Page.Matching

/-! What is recovered from any page. However components are nested, each component that is
recovered was read from a pair of tags on lines of the page: no name is shortened, since
no tag name starts another. -/
namespace Wireframe
namespace Page

open Text

/-- No kind has the start of another one's name as its name. -/
theorem kind_eq_of_isPrefix_tag {kind other : Kind} (h : kind.tag <+: other.tag) : kind = other := by
  cases kind <;> cases other <;> first | rfl | exact absurd h (by decide)

/-- A search over lengths that no length answers comes back empty. -/
theorem longest?_eq_none {α : Type} {answer : Nat → Option α}
    (h : ∀ length, 0 < length → answer length = none) (length : Nat) :
    longest? answer length = none := by
  cases hFound : longest? answer length with
  | none => rfl
  | some found =>
      obtain ⟨n, hPos, -, hAnswer, -⟩ := longest?_eq_some_iff.mp hFound
      rw [h n hPos] at hAnswer
      cases hAnswer

/-- The text holds no components and closes no name. -/
structure Barren (text : Text) : Prop where
  recovered : recover text = []
  unclosed : ∀ {name : Text}, '>' ∉ name → name ≠ [] → cutAt? (closingTag name) text = none

theorem barren_spaces (count : Nat) : Barren (spaces count) where
  recovered := recover_of_angleFree (angleFree_spaces count)
  unclosed {name} _ _ := find?_of_angleFree (angleFirst_closingTag name) (angleFree_spaces count)

/-- The one tag in the closing of a page closes the fragment, which has no name, so no pair begins in
the closing and none ends there. -/
theorem barren_closing {frame : Frame} (hFrame : frame.AngleFree) : Barren (closing frame) where
  recovered := recover_closing hFrame
  unclosed hName hNonempty := cutAt?_closingTag_closing hFrame hName hNonempty

section

variable {lines : List Line} (hClean : Line.Clean lines) {tail : Text} (hTail : Barren tail)
include hClean hTail

/-- An opening tag that cannot be read, or that no line behind it closes, starts no pair: no name is
shortened, since no closing tag bears a part of it. -/
theorem pair?_openingTag_eq_none {kind : Kind} {props : Props} (hProps : props.Clean)
    (h : props.Shallow → ∀ line ∈ lines, line.mark ≠ .closing kind) :
    pair? (openingTag kind props ++ '\n' :: (Line.texts lines ++ tail)) = none := by
  by_cases hShallow : props.Shallow
  · rw [pair?, opening?_openingTag true kind hProps, if_pos hShallow]
    refine longest?_eq_none (fun length hPos => ?_) _
    have hName : '>' ∉ kind.tag.take length := fun hMem => notMem_tag kind (List.mem_of_mem_take hMem)
    have hNonempty : kind.tag.take length ≠ [] := by
      rw [Ne, List.take_eq_nil_iff]
      simpa [hPos.ne'] using tag_ne_nil kind
    have hOpen : ∀ line ∈ lines, ∀ other : Kind, line.mark = .closing other →
        other.tag ≠ kind.tag.take length := by
      intro line hLine other hMark hTag
      have hPrefix : other.tag <+: kind.tag := hTag ▸ List.take_prefix length kind.tag
      exact h hShallow line hLine (kind_eq_of_isPrefix_tag hPrefix ▸ hMark)
    rw [pairNamed?, cutAt?_closingTag_eq_none hName (hTail.unclosed hName hNonempty) hClean hOpen,
      Option.map_none]
  · rw [pair?, opening?_openingTag true kind hProps, if_neg hShallow]

end

/-- Lines as they are recovered: a line whose tag starts no pair gives way to the lines behind it,
and a pair of tags to the lines between them and to those behind it. -/
@[elab_as_elim]
theorem induction_pairs {P : List Line → Prop} (nil : P [])
    (passed : ∀ line rest, line.mark.Clean →
      (∀ {tail : Text}, Barren tail →
        pair? (line.mark.text ++ '\n' :: (Line.texts rest ++ tail)) = none) →
      P rest → P (line :: rest))
    (pair : ∀ (span : Span) (left : List Line), span.Legible → P span.inner → P left →
      P (span.lines ++ left))
    {lines : List Line} (hClean : Line.Clean lines) : P lines := by
  induction hLength : lines.length using Nat.strong_induction_on generalizing lines with
  | _ length ih =>
      cases lines with
      | nil => exact nil
      | cons line rest =>
          have hRest : P rest := ih rest.length (by simp [← hLength]) hClean.tail rfl
          obtain ⟨indent, mark⟩ := line
          cases mark with
          | closing kind =>
              exact passed _ rest trivial
                (fun _ => pair?_of_not_word (by decide : isWordChar '/' = false) _) hRest
          | opening kind props =>
              by_cases hPair : props.Shallow ∧ ∃ line ∈ rest, line.mark = .closing kind
              · obtain ⟨hShallow, hClosed⟩ := hPair
                obtain ⟨inner, ⟨closingIndent, mark⟩, left, rfl, hMark, hInner⟩ :=
                  exists_first hClosed
                obtain rfl : mark = .closing kind := hMark
                obtain ⟨hBefore, hBehind⟩ := Line.clean_append.mp hClean.tail
                have hLeft := ih left.length (by simp [← hLength]; omega) hBehind.tail rfl
                have hSpan := pair ⟨indent, kind, props, inner, closingIndent⟩ left
                  ⟨Span.clean_lines.mpr ⟨hClean.head, hBefore⟩, hShallow, hInner⟩
                  (ih inner.length (by simp [← hLength]) hBefore rfl) hLeft
                simpa [Span.lines] using hSpan
              -- The opening tag is too deep to be read, or nothing closes it.
              · exact passed _ rest hClean.head
                  (fun hTail => pair?_openingTag_eq_none hClean.tail hTail hClean.head
                    fun hShallow line hLine hMark => hPair ⟨hShallow, line, hLine, hMark⟩) hRest

/-- A line whose tag starts no pair is passed over. -/
theorem recover_line {line : Line} (hClean : line.mark.Clean) {rest : Text}
    (hNone : pair? (line.mark.text ++ '\n' :: rest) = none) :
    recover (line.text ++ rest) = recover rest := by
  rw [line.mark.text_newline] at hNone
  rw [Line.text_append, recover_angleFree_append (angleFree_spaces line.indent),
    line.mark.text_newline, recover_cons_of_none hNone,
    recover_angleFree_append hClean.angleFree_inner_newline]

/-- Each component that is recovered from lines, at any depth, has recorded a pair of tags of its
kind. -/
theorem recorded_of_mem_walk_texts {lines : List Line} (hClean : Line.Clean lines) :
    ∀ tail, Barren tail →
      ∀ c ∈ Forest.walk (recover (Line.texts lines ++ tail)), Recorded c := by
  refine induction_pairs ?nil ?passed ?pair hClean
  case nil =>
    intro tail hTail c hc
    rw [Line.texts_nil, List.nil_append, hTail.recovered] at hc
    cases hc
  case passed =>
    intro line rest hLine hNone ih tail hTail c hc
    rw [Line.texts_cons, List.append_assoc, recover_line hLine (hNone hTail)] at hc
    exact ih tail hTail c hc
  case pair =>
    intro span left hSpan ihInner ihLeft tail hTail c hc
    have hInside : recover ('\n' :: (Line.texts span.inner ++ spaces span.closingIndent)) =
        recover (Line.texts span.inner ++ spaces span.closingIndent) :=
      recover_cons_of_none (pair?_of_ne (by decide) _)
    rw [Line.texts_append, List.append_assoc, recover_span hSpan, Forest.walk_cons, List.mem_cons,
      List.mem_append, Span.outline, hInside] at hc
    rcases hc with rfl | hc | hc
    · exact .inr ⟨span, hSpan, rfl, rfl⟩
    · exact ihInner _ (barren_spaces span.closingIndent) c hc
    · exact ihLeft tail hTail c hc

section

variable {frame : Frame} (hFrame : frame.AngleFree) {lines : List Line} (hClean : Line.Clean lines)
include hFrame hClean

/-- Each component that is recovered from a page, at any depth, has recorded a pair of tags of its
kind. -/
theorem recorded_of_mem_walk_recover :
    ∀ c ∈ Forest.walk (recover (page frame lines)), Recorded c := by
  rw [page, recover_opening hFrame]
  exact recorded_of_mem_walk_texts hClean _ (barren_closing hFrame)

/-- Every component read off a page carries the text it was read from. This is what an operation
needs to find its target again. -/
theorem recorded_of_mem_recover : ∀ c ∈ recover (page frame lines), Recorded c := by
  intro c hc
  obtain ⟨first, last, hRoots⟩ := List.append_of_mem hc
  refine recorded_of_mem_walk_recover hFrame hClean c ?_
  rw [hRoots, Forest.walk_append]
  exact List.mem_append_right _ (Forest.mem_walk_self c last)

end

end Page

namespace Diff

open Page

/-- Changes between two lists of props write only keys and values of the new list, so clean props
give clean changes. -/
theorem clean_propChanges {new : Props} (h : new.Clean) (old : Props) :
    ∀ change ∈ propChanges old new, change.Clean := by
  intro change hChange
  rw [propChanges, List.mem_append, List.mem_map, List.mem_map] at hChange
  rcases hChange with ⟨entry, hEntry, rfl⟩ | ⟨entry, -, rfl⟩
  · exact h.single (List.mem_of_mem_filter (List.mem_of_mem_filter hEntry))
  · trivial

/-- A comparison gives operations that write what can be read and look for what was read. -/
theorem clean_compared {forest : Forest} (hForest : ∀ c ∈ forest, Recorded c) {plan : Plan}
    (hPlan : Forest.Clean plan.components) : ∀ op ∈ compared forest plan, op.Clean := by
  intro op hOp
  rcases mem_compared hOp with ⟨c, hc, rfl⟩ | ⟨old, hOld, c, hc, -, hPair⟩ | ⟨old, hOld, rfl⟩
  · exact hPlan.root hc
  · have hRoot := hPlan.root hc
    rcases mem_rootOperations hPair with rfl | rfl
    · exact ⟨hForest old hOld, hRoot.children⟩
    · exact ⟨hForest old hOld, clean_propChanges (hRoot c (Forest.mem_walk_self c [])) _⟩
  · exact hForest old hOld

end Diff
end Wireframe
