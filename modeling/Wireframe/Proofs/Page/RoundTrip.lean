import Wireframe.Proofs.Page.Recovering

/-! The page of a plain plan gives its components back: the props that show, the same
nesting and order, and for each component the text that was written for it. -/
namespace Wireframe

/-- The text that is written for a component, without the margin of its first line and without its
last line break. -/
def Component.emitted (indent : Int) (c : Component) : Text :=
  ((Page.renderComponent indent c).drop (Page.margin indent).length).dropLast

mutual

/-- A component as it is recovered from page source: only props that show are left, and the text is
recorded. -/
def Component.recorded (indent : Int) : Component → Component
  | ⟨kind, props, children, source⟩ =>
    ⟨kind, Diff.visible props, Forest.recorded (indent + Page.indentStep) children,
      some (Component.emitted indent ⟨kind, props, children, source⟩)⟩
termination_by structural c => c

def Forest.recorded (indent : Int) : List Component → List Component
  | [] => []
  | c :: rest => c.recorded indent :: Forest.recorded indent rest
termination_by structural forest => forest

end

namespace Page

open Text

/-- What reading back yields for a component: the visible props, the children one level in, and the
written text as source. -/
theorem recorded_eq (indent : Int) (c : Component) :
    c.recorded indent = ⟨c.kind, Diff.visible c.props,
      Forest.recorded (indent + indentStep) c.children, some (c.emitted indent)⟩ := by
  cases c
  rfl

theorem emitted_eq (indent : Nat) (c : Component) : c.emitted indent = (spanOf indent c).text := by
  have hText : renderComponent indent c =
      spaces indent ++ ((spanOf indent c).text ++ ['\n']) := by
    rw [renderComponent_eq_texts, ← lines_spanOf, Span.texts_lines, List.append_assoc]
    rfl
  rw [Component.emitted, hText, margin_natCast, List.drop_left, List.dropLast_concat]

/-- The lines of a plain forest give the forest back, whatever follows them. -/
theorem recover_lines {forest : Forest} (h : Forest.Plain forest) :
    ∀ (indent : Nat) (rest : Text),
      recover (Line.texts (Forest.lines indent forest) ++ rest) =
        Forest.recorded indent forest ++ recover rest := by
  induction forest using Forest.induction with
  | nil => exact fun _ _ => rfl
  | cons c others hChildren hOthers =>
      intro indent rest
      have hInner : recover ('\n' :: (Line.texts (spanOf indent c).inner ++
          spaces (spanOf indent c).closingIndent)) =
          Forest.recorded (indent + indentStep) c.children := by
        have hBelow := hChildren h.children (indent + 2) (spaces indent)
        rw [recover_of_angleFree (angleFree_spaces indent), List.append_nil] at hBelow
        rw [recover_cons_of_none (pair?_of_ne (by decide) _)]
        exact hBelow
      have hOutline : (spanOf indent c).outline = c.recorded indent := by
        rw [Span.outline, hInner, recorded_eq, emitted_eq]
        rfl
      rw [Forest.lines_cons, ← lines_spanOf, Line.texts_append, List.append_assoc,
        recover_span (legible_spanOf h indent), hOutline, hOthers h.tail, Forest.recorded,
        List.cons_append]

/-- The lines above the content of a page yield no component, since their one `<` opens the fragment,
which has no name. -/
theorem recover_opening {frame : Frame} (hFrame : frame.AngleFree) (rest : Text) :
    recover (opening frame ++ rest) = recover rest := by
  have hStart : recover ('<' :: '>' :: '\n' :: rest) = recover ('>' :: '\n' :: rest) :=
    recover_cons_of_none (pair?_of_not_word (by decide) _)
  have hBreak := recover_angleFree_append (show angleFree ">\n".toList = true by decide) rest
  rw [opening_eq, List.append_assoc, recover_angleFree_append (angleFree_beforeBlock hFrame)]
  exact hStart.trans hBreak

/-- The lines below the page's content yield no component. -/
theorem recover_closing {frame : Frame} (hFrame : frame.AngleFree) :
    recover (closing frame) = [] := by
  have hEnd : recover ('<' :: ("/>".toList ++ ("\n  );".toList ++ trail frame))) = [] := by
    have hTag : pair? ('<' :: ("/>".toList ++ ("\n  );".toList ++ trail frame))) = none :=
      pair?_of_not_word (by decide) _
    rw [recover_cons_of_none hTag, recover_of_angleFree (angleFree_behindBlock hFrame)]
  rw [closing_eq, recover_angleFree_append (by decide)]
  exact hEnd

/-- Reading back the lines of a plain forest, wherever they stand in a page. -/
theorem recover_page_lines {frame : Frame} (hFrame : frame.AngleFree) {forest : Forest}
    (hPlain : Forest.Plain forest) :
    recover (page frame (Forest.lines 6 forest)) = Forest.recorded rootIndent forest := by
  rw [page, recover_opening hFrame, recover_lines hPlain, recover_closing hFrame, List.append_nil]
  rfl

/-- Recovering inverts rendering. The components of a plain plan come back from its page in the
same order and nesting, with exactly the props that are not `false`, and each with the text that
was written for it. -/
theorem recover_render {frame : Frame} (hFrame : frame.AngleFree) {plan : Plan}
    (hPlain : Forest.Plain plan.components) :
    recover (render frame plan) = Forest.recorded rootIndent plan.components := by
  rw [render_eq_page]
  exact recover_page_lines hFrame hPlain

/-- Reading back a page of one nested plan, with every condition met. -/
theorem recover_render_samplePlan :
    sampleFrame.AngleFree ∧ Forest.Plain samplePlan.components ∧
      recover (render sampleFrame samplePlan) = Forest.recorded rootIndent samplePlan.components := by
  have hFrame : sampleFrame.AngleFree := by decide +kernel
  have hPlain : Forest.Plain samplePlan.components := by decide +kernel
  exact ⟨hFrame, hPlain, recover_render hFrame hPlain⟩

end Page
end Wireframe
