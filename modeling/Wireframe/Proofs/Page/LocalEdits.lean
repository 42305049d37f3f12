import Wireframe.Proofs.Page.TagExtent
import Wireframe.Proofs.Page.Block
import Wireframe.Proofs.Page.TreeEdits

/-! What an operation changes in a text, whether the text is a page or was edited by hand. Outside
the place of its target an operation keeps everything but blanks next to that place. -/
namespace Wireframe

open Text

/-- Of the text around a cut, all is left but blanks that stand next to the cut on its first and on
its last line. -/
structure Cut.Leaves (cut : Cut) (before after : Text) : Prop where
  left : ∃ margin, cut.before = before ++ margin ∧ margin <:+ lastLine cut.before ∧
    allBlank margin = true
  right : ∃ trail, cut.after = trail ++ after ∧ trail <+: firstLine cut.after ∧
    allBlank trail = true

namespace Page

/-- The cut of a text at the place where a component is located. -/
structure Located (code : Text) (target : Component) (cut : Cut) : Prop where
  found : locate? code target = some cut
  whole : cut.whole = code

/-- What an operation may make of a text. A component that is added goes in between two parts that
stay. One that is removed or replaced takes blanks beside its place with it. Changed props stand in
the opening tag at the start of the place, and new children between that tag and the closing tag at
the end, or nothing changes because the opening tag is not read within lines. -/
inductive Edits : Operation → Text → Text → Prop
  | missed {op : Operation} {target : Component} {code : Text} :
      op.target? = some target → locate? code target = none → Edits op code code
  | added {new : Component} {position : Position} {before after : Text} :
      Edits (.add new position) (before ++ after)
        (before ++ renderComponent rootIndent new ++ after)
  | removed {code : Text} {target : Component} {cut : Cut} {before after : Text} :
      Located code target cut → cut.Leaves before after →
      Edits (.remove target) code (before ++ after)
  | replaced {code : Text} {target replacement : Component} {cut : Cut} {before after : Text} :
      Located code target cut → cut.Leaves before after →
      Edits (.replace target replacement) code
        (before ++ renderComponent (column cut.before) replacement ++ after)
  | moved {code middle edited : Text} {target : Component} {position : Position} {cut : Cut} :
      Located code target cut → Edits (.remove target) code middle →
      Edits (.add target position) middle edited → Edits (.move target position) code edited
  | changed {code : Text} {target : Component} {changes : List Change} {cut : Cut}
      {tag : Opening} :
      Located code target cut → opening? false cut.target = some tag →
      code = cut.before ++ tag.text ++ (tag.rest ++ cut.after) →
      Edits (.updateProps target changes) code
        (cut.before ++ changeOpening tag changes ++ (tag.rest ++ cut.after))
  | changesNothing {code : Text} {target : Component} {changes : List Change} {cut : Cut} :
      Located code target cut → opening? false cut.target = none →
      Edits (.updateProps target changes) code code
  | refilled {code : Text} {target : Component} {children : Forest} {cut : Cut} {tag : Opening}
      {inner new : Text} :
      Located code target cut → opening? false cut.target = some tag →
      tag.rest = inner ++ closingTag target.kind.tag →
      code = cut.before ++ tag.text ++ inner ++ (closingTag target.kind.tag ++ cut.after) →
      new = '\n' :: renderForest (column cut.before + indentStep) children
        ++ margin (column cut.before) →
      Edits (.updateChildren target children) code
        (cut.before ++ tag.text ++ new ++ (closingTag target.kind.tag ++ cut.after))
  | refillsNothing {code : Text} {target : Component} {children : Forest} {cut : Cut} :
      Located code target cut → opening? false cut.target = none →
      Edits (.updateChildren target children) code code

/-- A traceable target is cut out of the text where it is found, and nothing is lost around it. -/
theorem Traceable.located {code : Text} {target : Component} (hTrace : Traceable target) {cut : Cut}
    (h : locate? code target = some cut) : Located code target cut :=
  ⟨h, (hTrace.isPair_of_locate? h).1⟩

/-- Widening a cut to whole lines takes blanks only. -/
theorem leaves_lines (cut : Cut) : cut.Leaves (dropIndent cut.before) (dropLineEnd cut.after) where
  left := by
    unfold dropIndent
    split
    · rename_i hBlank
      exact ⟨lastLine cut.before, (dropLastLine_append_lastLine _).symm, List.suffix_rfl, hBlank⟩
    · exact ⟨[], (List.append_nil _).symm, List.nil_suffix, rfl⟩
  right := by
    unfold dropLineEnd
    split
    · rename_i hBlank
      exact ⟨firstLine cut.after, (firstLine_append_dropFirstLine _).symm, List.prefix_rfl, hBlank⟩
    · exact ⟨[], rfl, List.nil_prefix, rfl⟩

/-- A new root goes between two parts of the text, and both stay as they are. -/
theorem edits_of_insert {code edited : Text} {new : Component} {position : Position}
    (h : insert code new position = .ok edited) : Edits (.add new position) code edited := by
  have hPut (before after : Text) {result : Text} (hCode : before ++ after = code)
      (hResult : before ++ renderComponent rootIndent new ++ after = result) :
      Edits (.add new position) code result :=
    hCode ▸ hResult ▸ .added
  have hStart {result : Text} (h : insertAtStart code (renderComponent rootIndent new) = .ok result) :
      Edits (.add new position) code result := by
    unfold insertAtStart at h
    split at h
    · rename_i cut hCut
      exact hPut _ _ (whole_of_find? faithful_blockStart hCut) (Except.ok.inj h)
    · cases h
  cases position with
  | start => exact hStart h
  | afterNavbar =>
      simp only [insert, insertAfterNavbar] at h
      split at h
      · rename_i cut hCut
        refine hPut (cut.before ++ cut.target ++ lineEnd cut.after) (dropLineEnd cut.after) ?_
          (Except.ok.inj h)
        rw [List.append_assoc, lineEnd_append_dropLineEnd]
        exact whole_of_find? (faithful_kindPair _) hCut
      -- Without a navbar the root goes to the start as well.
      · exact hStart h
  | finish =>
      simp only [insert, insertAtEnd] at h
      split at h
      · rename_i cut hCut
        have hCode := (findAtLineStart?_sound faithful_blockEnd hCut).1
        refine hPut _ _ hCode ?_
        rw [← List.append_assoc]
        exact Except.ok.inj h
      · cases h

section

variable {code : Text} {target : Component} (hTrace : Traceable target)
include hTrace

/-- A removal takes the place of its target and blanks beside it, or nothing. -/
theorem edits_delete : Edits (.remove target) code (delete code target) := by
  unfold delete
  split
  · rename_i cut hCut
    exact .removed (hTrace.located hCut) (leaves_lines cut)
  · rename_i hNone
    exact .missed rfl hNone

/-- A replacement puts the other component at the column of the target. -/
theorem edits_replace (replacement : Component) :
    Edits (.replace target replacement) code (replace code target replacement) := by
  unfold replace
  split
  · rename_i hNone
    exact .missed rfl hNone
  · rename_i cut hCut
    exact .replaced (hTrace.located hCut) (leaves_lines cut)

/-- A change of props touches the opening tag alone, or nothing. -/
theorem edits_updateProps (changes : List Change) :
    Edits (.updateProps target changes) code (updateProps code target changes) := by
  unfold updateProps
  split
  · rename_i hNone
    exact .missed rfl hNone
  · rename_i cut hCut
    obtain ⟨hWhole, tag, -, hTag, -⟩ := hTrace.isPair_of_locate? hCut
    rw [opening?_append_of_across hTag]
    cases hWithin : opening? false cut.target with
    | none => exact .changesNothing ⟨hCut, hWhole⟩ hWithin
    | some tag =>
        refine .changed ⟨hCut, hWhole⟩ hWithin ?_
        rw [← hWhole, Cut.whole, append_of_opening? hWithin]
        simp only [List.append_assoc]

/-- New children go between the tags of the target, both of which stay. -/
theorem edits_updateChildren (children : Forest) :
    Edits (.updateChildren target children) code (updateChildren code target children) := by
  unfold updateChildren
  split
  · rename_i hNone
    exact .missed rfl hNone
  · rename_i cut hCut
    obtain ⟨hWhole, hPair⟩ := hTrace.isPair_of_locate? hCut
    obtain ⟨tag, inner, hTag, hRest⟩ := id hPair
    dsimp only
    rw [hPair.isSuffixOf, opening?_append_of_across hTag]
    cases hWithin : opening? false cut.target with
    | none => exact .refillsNothing ⟨hCut, hWhole⟩ hWithin
    | some found =>
        obtain rfl := Option.some.inj ((opening?_across hWithin).symm.trans hTag)
        have hCode : code = cut.before ++ found.text ++ inner ++
            (closingTag target.kind.tag ++ cut.after) := by
          rw [← hWhole, Cut.whole, append_of_opening? hTag, hRest]
          simp only [List.append_assoc]
        have hEdits : Edits (.updateChildren target children) code _ :=
          .refilled ⟨hCut, hWhole⟩ hWithin hRest hCode rfl
        simp only [List.append_assoc] at hEdits ⊢
        exact hEdits

/-- A move is a removal and an insertion, unless the target is missing. -/
theorem edits_move {position : Position} {edited : Text}
    (h : apply code (.move target position) = .ok edited) :
    Edits (.move target position) code edited := by
  rw [apply] at h
  split at h
  · rename_i hFound
    obtain ⟨cut, hCut⟩ := Option.isSome_iff_exists.mp hFound
    exact .moved (hTrace.located hCut) (edits_delete hTrace) (edits_of_insert h)
  · rename_i hMissed
    cases h
    exact .missed rfl (by simpa using hMissed)

end

/-- Edits are local on any text: without the target nothing changes, a removal or a replacement takes
the place of the target and blanks beside it, a change of props takes the opening tag at the start of
that place, a change of children takes what is between that tag and the closing tag at the end of the
place, and a move is a removal and an insertion. -/
theorem edits_of_apply {code edited : Text} {op : Operation}
    (hTrace : ∀ target ∈ op.target?, Traceable target) (h : apply code op = .ok edited) :
    Edits op code edited := by
  cases op with
  | add new position => exact edits_of_insert h
  | move target position => exact edits_move (hTrace target rfl) h
  | remove target =>
      cases h
      exact edits_delete (hTrace target rfl)
  | updateProps target changes =>
      cases h
      exact edits_updateProps (hTrace target rfl) changes
  | updateChildren target children =>
      cases h
      exact edits_updateChildren (hTrace target rfl) children
  | replace target replacement =>
      cases h
      exact edits_replace (hTrace target rfl) replacement

/-- A pair of tags with a quoted `>` in its opening tag. -/
def quotedCard : Pair :=
  ⟨"Card".toList, " title=\"a > b\"".toList, "old".toList, []⟩

/-- The text of the pair after changes by hand, with more text on its lines. -/
def handmade : Text :=
  "<main> x\n  <Card title=\"a > b\"><i>\n new</i> </Card> </main>".toList

def emptied : Text :=
  "<main> x\n  <Card title=\"a > b\">\n  </Card> </main>".toList

theorem edits_of_apply_handmade :
    Traceable (quotedCard.component .card) ∧
      apply handmade (.updateChildren (quotedCard.component .card) []) = .ok emptied ∧
      Edits (.updateChildren (quotedCard.component .card) []) handmade emptied := by
  have hPair : pair? quotedCard.text = some quotedCard := by
    rfl
  have hTrace : Traceable (quotedCard.component .card) :=
    .inr ⟨quotedCard.text, mem_walk_recover.mpr ⟨quotedCard, .card, .here hPair, by decide, rfl⟩⟩
  have hApply : apply handmade (.updateChildren (quotedCard.component .card) []) = .ok emptied :=
    congrArg Except.ok (by decide +kernel)
  exact ⟨hTrace, hApply, edits_of_apply (by rintro target ⟨⟩; exact hTrace) hApply⟩

end Page
end Wireframe
