import Wireframe.Proofs.Page.SelfPatch
import Wireframe.Plan.Check

/-! Roots whose opening tags can be read. A reader of tags follows braces only so deep, so that the
opening tag of a component is read exactly if no prop nests objects deeper. Every root that can be
read is recovered from the page, whatever is nested in it and whatever stands beside it. -/
namespace Wireframe
namespace Page

open Text

/-- In a row of lines in which every opening tag is closed, each pair of tags ends within the row,
so that what follows is read for itself. -/
theorem exists_recovered {lines : List Line} (hClean : Line.Clean lines)
    (hLoose : Loose (Line.sides lines)) :
    ∃ found, ∀ rest, recover (Line.texts lines ++ rest) = found ++ recover rest := by
  induction hLength : lines.length using Nat.strong_induction_on generalizing lines with
  | _ length ih =>
      cases lines with
      | nil => exact ⟨[], fun _ => rfl⟩
      | cons line behind =>
          have hBehind : Loose (Line.sides behind) := @hLoose.suffix _ [line.mark.side] _ rfl
          obtain ⟨found, hFound⟩ := ih behind.length (by simp [← hLength]) hClean.tail hBehind rfl
          have hPassed (hNone : ∀ rest, pair? (line.mark.text ++ '\n' :: rest) = none) :
              ∃ found, ∀ rest, recover (Line.texts (line :: behind) ++ rest) =
                found ++ recover rest := by
            refine ⟨found, fun rest => ?_⟩
            rw [Line.texts_cons, List.append_assoc, recover_line hClean.head (hNone _), hFound]
          obtain ⟨indent, mark⟩ := line
          cases mark with
          | closing kind =>
              exact hPassed fun _ => pair?_of_not_word (by decide : isWordChar '/' = false) _
          | opening kind props =>
              by_cases hShallow : props.Shallow
              · -- the pair of this tag ends within the row, and the lines behind it are loose again
                have hCloses : Side.closes kind ∈ Line.sides behind := @hLoose.closes_mem [] _ _
                obtain ⟨line, hLine, hSide⟩ := List.mem_map.mp hCloses
                have hMark : line.mark = .closing kind := by
                  obtain ⟨_, mark⟩ := line
                  cases mark <;> simp_all [Mark.side]
                have hClosed : ∃ line ∈ behind, line.mark = .closing kind := ⟨line, hLine, hMark⟩
                obtain ⟨inner, ⟨closingIndent, mark⟩, left, rfl, hClosing, hInner⟩ :=
                  exists_first hClosed
                obtain rfl : mark = .closing kind := hClosing
                obtain ⟨hCleanInner, hCleanLeft⟩ := Line.clean_append.mp hClean.tail
                let span : Span := ⟨indent, kind, props, inner, closingIndent⟩
                have hSpan : span.Legible :=
                  ⟨Span.clean_lines.mpr ⟨hClean.head, hCleanInner⟩, hShallow, hInner⟩
                rw [List.append_cons, Line.sides_append] at hBehind
                obtain ⟨more, hMore⟩ := ih left.length (by simp [← hLength]; omega)
                  hCleanLeft.tail (hBehind.suffix rfl) rfl
                refine ⟨span.outline :: more, fun rest => ?_⟩
                have hLines : (⟨indent, .opening kind props⟩ :: (inner ++
                    ⟨closingIndent, .closing kind⟩ :: left) : List Line) = span.lines ++ left := by
                  simp [span, Span.lines]
                rw [hLines, Line.texts_append, List.append_assoc, recover_span hSpan, hMore,
                  List.cons_append]
              · refine hPassed fun rest => ?_
                rw [pair?, Mark.text_opening, opening?_openingTag true kind hClean.head,
                  if_neg hShallow]

/-- A root whose opening tag can be read is recovered with its kind and the props that show. What is
recovered besides comes from within it. -/
theorem exists_recovered_root {c : Component} (hClean : Forest.Clean [c])
    (hShallow : c.props.Shallow) :
    ∃ found others, found.kind = c.kind ∧ found.props = Diff.visible c.props ∧
      ∀ rest, recover (Line.texts (c.lines 6) ++ rest) = found :: (others ++ recover rest) := by
  have hPair : ∃ span left, FirstPair c span left := by
    by_cases hUnrepeated : c.Unrepeated
    · exact ⟨_, _, firstPair_of_unrepeated hClean hShallow hUnrepeated⟩
    · obtain ⟨span, left, hPair, -⟩ := exists_firstPair_of_repeated hClean hShallow hUnrepeated
      exact ⟨span, _, hPair⟩
  obtain ⟨span, left, hPair⟩ := hPair
  have hLines : Forest.lines 6 [c] = span.lines ++ left := by
    rw [Forest.lines_cons, Forest.lines, List.append_nil, hPair.lines]
  have hLineClean := clean_lines hClean 6
  have hLoose := loose_lines [c] 6
  rw [hLines] at hLineClean hLoose
  rw [Line.sides_append] at hLoose
  obtain ⟨others, hOthers⟩ :=
    exists_recovered (Line.clean_append.mp hLineClean).2 (hLoose.suffix rfl)
  refine ⟨span.outline, others, hPair.opening_eq.2.1, ?_, fun rest => ?_⟩
  · rw [Span.outline, hPair.opening_eq.2.2]
  · rw [hPair.lines, Line.texts_append, List.append_assoc, recover_span hPair.legible, hOthers]

/-- What a page shows of a component itself: its kind and the props that show. -/
def shown (c : Component) : Kind × Props :=
  (c.kind, Diff.visible c.props)

/-- The lines of roots give back those that can be read, one by one and in their order. -/
theorem sublist_recover_lines {forest : Forest} (hClean : Forest.Clean forest) (rest : Text) :
    ((forest.filter fun c => c.props.Shallow).map shown).Sublist
      ((recover (Line.texts (Forest.lines 6 forest) ++ rest)).map fun c => (c.kind, c.props)) := by
  induction forest with
  | nil => exact List.nil_sublist _
  | cons c others ih =>
      have hOthers := ih hClean.tail
      rw [Forest.lines_cons, Line.texts_append, List.append_assoc]
      by_cases hShallow : c.props.Shallow
      · obtain ⟨found, more, hKind, hProps, hFound⟩ := exists_recovered_root hClean.head hShallow
        rw [List.filter_cons_of_pos (by simpa using hShallow), hFound, List.map_cons, List.map_cons,
          List.map_append, shown, hKind, hProps]
        exact (hOthers.trans (List.sublist_append_right _ _)).cons_cons _
      · have hRoot := clean_lines hClean.head 6
        have hLoose := loose_lines [c] 6
        rw [Forest.lines_cons, Forest.lines, List.append_nil] at hRoot hLoose
        obtain ⟨found, hFound⟩ := exists_recovered hRoot hLoose
        rw [List.filter_cons_of_neg (by simpa using hShallow), hFound, List.map_append]
        exact hOthers.trans (List.sublist_append_right _ _)

/-- The opening tag of a root is read, whole and with the attributes that were written, exactly if
the objects in its props nest at most three deep. All roots of which this holds are recovered from
the page, one by one and in their order, with their kinds and the props that show. -/
theorem readable_roots {frame : Frame} (hFrame : frame.AngleFree) {plan : Plan}
    (hClean : Forest.Clean plan.components) :
    (∀ c ∈ plan.components,
      opening? false (openingTag c.kind c.props) = some ⟨c.kind.tag, attributes c.props, []⟩ ↔
        Value.entriesBraces c.props ≤ 3) ∧
      ((plan.components.filter fun c => Value.entriesBraces c.props ≤ 3).map shown).Sublist
        ((recover (render frame plan)).map fun c => (c.kind, c.props)) := by
  have hReach (props : Props) : Value.entriesBraces props ≤ 3 ↔ props.Shallow :=
    Nat.lt_succ_iff.symm
  simp only [hReach]
  constructor
  · intro c hc
    have hTag := opening?_openingTag false c.kind (hClean.root hc c (Forest.mem_walk_self c [])) []
    rw [List.append_nil] at hTag
    rw [hTag]
    split_ifs with hShallow
    · exact iff_of_true rfl hShallow
    · exact iff_of_false (by simp) hShallow
  · rw [render_eq_page, page, recover_opening hFrame]
    exact sublist_recover_lines hClean _

/-- A plan whose first card holds data too deep to read, with a card below it, between roots that
can be read. -/
def layeredPlan : Plan :=
  ⟨"dashboard",
    [⟨.modal, [("title", .text "a > b")], [⟨.modal, [], [.leaf .button []], none⟩], none⟩,
      ⟨.card, [("data", .object [("a", .object [("b", .list [.object [("c", .object [])]])])])],
        [.leaf .card [("wide", .boolean true)]], none⟩,
      .leaf .table [("data", .object [("a", .list [.object [("b", .object [])]])])]],
    []⟩

theorem readable_roots_layeredPlan :
    sampleFrame.AngleFree ∧ Forest.Clean layeredPlan.components ∧
      (∀ c ∈ layeredPlan.components,
        opening? false (openingTag c.kind c.props) = some ⟨c.kind.tag, attributes c.props, []⟩ ↔
          c.kind ≠ .card) ∧
      [(Kind.modal, [("title", .text "a > b")]),
          (.table, [("data", .object [("a", .list [.object [("b", .object [])]])])])].Sublist
        ((recover (render sampleFrame layeredPlan)).map fun c => (c.kind, c.props)) := by
  have hFrame : sampleFrame.AngleFree := by decide +kernel
  have hClean : Forest.Clean layeredPlan.components := by decide +kernel
  obtain ⟨hTags, hRoots⟩ := readable_roots hFrame hClean
  have hDeep : ∀ c ∈ layeredPlan.components, Value.entriesBraces c.props ≤ 3 ↔ c.kind ≠ .card := by
    decide +kernel
  exact ⟨hFrame, hClean, fun c hc => (hTags c hc).trans (hDeep c hc), hRoots⟩

def fourDeepPlan : Plan :=
  ⟨"default", [.leaf .table
    [("data", .object [("a", .object [("b", .object [("c", .object [])])])])]], []⟩

/-- The check admits the plan, but the opening tag on its page cannot be read. Nothing is recovered
from the page, and the table is added again. -/
theorem unread_root :
    (Plan.validate fourDeepPlan).isOk = true ∧ Forest.Clean fourDeepPlan.components ∧
      (∀ c ∈ fourDeepPlan.components, opening? false (openingTag c.kind c.props) = none) ∧
      recover (render sampleFrame fourDeepPlan) = [] ∧
      Diff.operations .combined (recover (render sampleFrame fourDeepPlan)) fourDeepPlan =
        fourDeepPlan.components.map Operation.addRoot := by
  have hNone : recover (render sampleFrame fourDeepPlan) = [] := by decide +kernel
  rw [hNone]
  exact ⟨by decide +kernel, by decide +kernel, by decide +kernel, rfl, by rfl⟩

end Page
end Wireframe
