import Wireframe.Proofs.Page.Revisions
import Wireframe.Proofs.Page.RootTexts

/-! Patching a page towards a revision of its roots. If each root that is changed or removed is the
first one of its text when its turn comes, then every operation finds its own root, and the patched
page is the page of the revised roots. -/
namespace Wireframe

open Diff

namespace Revision

def standing (revision : Revision) : Forest :=
  revision.map fun entry => entry.2.getD entry.1

end Revision

namespace Page

/-- The operations for a pair of roots make the first root of the old text into the new root. -/
def Settles (frame : Frame) (old new : Component) : Prop :=
  ∀ (first : Forest) (root : Component) (last : Forest), Forest.Plain (first ++ root :: last) →
    rootText root = rootText old → (∀ e ∈ first, rootText e ≠ rootText old) →
    ∀ rest, applyEach (rootOperations (old.recorded rootIndent) new ++ rest)
        (page frame (Forest.lines 6 (first ++ root :: last))) =
      applyEach rest (page frame (Forest.lines 6 (first ++ new :: last)))

section

variable {frame : Frame} {revision : Revision}

/-- A root that keeps its text need not be the first one of it. -/
theorem Settles.of_same_text {old new : Component} (h : Settles frame old new)
    (hText : rootText new = rootText old) {first last : Forest}
    (hPlain : Forest.Plain (first ++ old :: last)) (rest : List Operation) :
    applyEach (rootOperations (old.recorded rootIndent) new ++ rest)
        (page frame (Forest.lines 6 (first ++ old :: last))) =
      applyEach rest (page frame (Forest.lines 6 (first ++ new :: last))) := by
  have hOld : rootText old ∈ (first ++ old :: last).map rootText := by simp
  obtain ⟨before, root, after, hSplit, hRoot, hFirst⟩ := exists_first_root hOld
  have hTexts : (before ++ new :: after).map rootText = (first ++ new :: last).map rootText := by
    have hOld := congrArg (List.map rootText) hSplit
    simp only [List.map_append, List.map_cons, hRoot, hText] at hOld ⊢
    exact hOld.symm
  have hStep := h before root after (hSplit ▸ hPlain) hRoot hFirst rest
  rw [hSplit, hStep, page_eq_of_texts hTexts]

/-- The roots that stay are changed one by one. -/
theorem applyEach_updates_revision {todo : Revision}
    (hSettles : ∀ entry ∈ todo, ∀ c ∈ entry.2, Settles frame entry.1 c) :
    ∀ done : Forest, Forest.Plain (done ++ todo.before) → Forest.Plain todo.after →
      (∀ entry ∈ todo, ∀ c ∈ entry.2, rootText c = rootText entry.1 ∨
        ∀ e ∈ done, rootText e ≠ rootText entry.1) →
      (todo.Pairwise fun entry later => ∀ c ∈ later.2, rootText c = rootText later.1 ∨
        rootText (entry.2.getD entry.1) ≠ rootText later.1) →
      ∀ rest, applyEach (todo.recorded.updates ++ rest)
          (page frame (Forest.lines 6 (done ++ todo.before))) =
        applyEach rest (page frame (Forest.lines 6 (done ++ todo.standing))) := by
  induction todo with
  | nil => exact fun _ _ _ _ _ _ => rfl
  | cons entry more ih =>
      obtain ⟨old, kept⟩ := entry
      intro done hBefore hAfter hDone hLater rest
      obtain ⟨hHere, hMore⟩ := List.forall_mem_cons.mp hSettles
      obtain ⟨hText, hTexts⟩ := List.forall_mem_cons.mp hDone
      obtain ⟨hFirst, hPairs⟩ := List.pairwise_cons.mp hLater
      have hAfterMore : Forest.Plain (Revision.after more) := by
        cases kept with
        | none => exact hAfter
        | some c => exact hAfter.tail
      have hRoot : Forest.Plain [kept.getD old] := by
        cases kept with
        | none => exact (Forest.plain_cons.mp hBefore.right).1
        | some c => exact (Forest.plain_cons.mp hAfter).1
      -- The induction moves each root, changed or not, from what is to do to what is done.
      have hStanding : Forest.Plain ((done ++ [kept.getD old]) ++ Revision.before more) :=
        Forest.plain_append.mpr ⟨Forest.plain_append.mpr ⟨hBefore.left, hRoot⟩, hBefore.right.tail⟩
      have hNext := ih hMore (done ++ [kept.getD old]) hStanding hAfterMore
        (fun later hMem c hc => by
          rcases hTexts later hMem c hc with hSame | hApart
          · exact .inl hSame
          · refine (hFirst later hMem c hc).imp_right fun hOther e he => ?_
            rcases List.mem_append.mp he with he | he
            · exact hApart e he
            · exact List.mem_singleton.mp he ▸ hOther) hPairs rest
      rw [List.append_assoc, List.append_assoc, List.singleton_append, List.singleton_append] at hNext
      cases kept with
      | none => exact hNext
      | some c =>
          have hUpdates : Revision.updates (Revision.recorded ((old, some c) :: more)) ++ rest =
              rootOperations (old.recorded rootIndent) c ++
                ((Revision.recorded more).updates ++ rest) := List.append_assoc ..
          have hStep : applyEach (rootOperations (old.recorded rootIndent) c ++
                ((Revision.recorded more).updates ++ rest))
              (page frame (Forest.lines 6 (done ++ old :: Revision.before more))) =
              applyEach ((Revision.recorded more).updates ++ rest)
                (page frame (Forest.lines 6 (done ++ c :: Revision.before more))) := by
            -- A root that is found in another place of the same text comes to the same page.
            rcases hText c rfl with hSame | hApart
            · exact (hHere c rfl).of_same_text hSame hBefore _
            · exact hHere c rfl done old _ hBefore rfl hApart _
          rw [hUpdates]
          exact hStep.trans hNext

variable (hFrame : frame.AngleFree)
include hFrame

/-- The roots that go are removed one by one. -/
theorem applyEach_removals_revision {others : Forest} {todo : Revision} :
    ∀ done : Forest, Forest.Plain (done ++ (todo.standing ++ others)) →
      (∀ entry ∈ todo, entry.2 = none → ∀ e ∈ done, rootText e ≠ rootText entry.1) →
      (todo.Pairwise fun entry later =>
        later.2 = none → ∀ c ∈ entry.2, rootText c ≠ rootText later.1) →
      applyEach todo.recorded.removals
          (page frame (Forest.lines 6 (done ++ (todo.standing ++ others)))) =
        .ok (page frame (Forest.lines 6 (done ++ (todo.after ++ others)))) := by
  induction todo with
  | nil => exact fun _ _ _ _ => rfl
  | cons entry more ih =>
      obtain ⟨old, kept⟩ := entry
      intro done hPlain hDone hLater
      obtain ⟨hText, hTexts⟩ := List.forall_mem_cons.mp hDone
      obtain ⟨hFirst, hPairs⟩ := List.pairwise_cons.mp hLater
      cases kept with
      | none =>
          have hStanding : Revision.standing ((old, none) :: more) ++ others =
              old :: (Revision.standing more ++ others) := rfl
          rw [hStanding] at hPlain ⊢
          have hRemovals : Revision.removals (Revision.recorded ((old, none) :: more)) =
              .remove (old.recorded rootIndent) :: (Revision.recorded more).removals := rfl
          -- No root before it has this text, so the deletion finds the one that goes.
          rw [hRemovals, applyEach, apply, delete_root hFrame hPlain rfl (hText rfl)]
          exact ih done hPlain.without hTexts hPairs
      | some c =>
          have hStanding : done ++ (Revision.standing ((old, some c) :: more) ++ others) =
              (done ++ [c]) ++ (Revision.standing more ++ others) := by
            rw [List.append_assoc]
            rfl
          have hAfter : done ++ (Revision.after ((old, some c) :: more) ++ others) =
              (done ++ [c]) ++ (Revision.after more ++ others) := by
            rw [List.append_assoc]
            rfl
          rw [hStanding] at hPlain ⊢
          rw [hAfter]
          exact ih (done ++ [c]) hPlain
            (fun later hMem hGone e he => by
              rcases List.mem_append.mp he with he | he
              · exact hTexts later hMem hGone e he
              · exact List.mem_singleton.mp he ▸ hFirst later hMem hGone c rfl) hPairs

/-- A new navbar stands before all others. -/
theorem applyEach_top {top : Option Component} (hKind : ∀ c ∈ top, c.kind = .navbar)
    {forest : Forest} (hPlain : Forest.Plain forest) (rest : List Operation) :
    applyEach (top.toList.map .addRoot ++ rest) (page frame (Forest.lines 6 forest)) =
      applyEach rest (page frame (Forest.lines 6 (top.toList ++ forest))) := by
  cases top with
  | none => rfl
  | some c =>
      have hInsert := insertAtStart_page hFrame (clean_lines hPlain.clean 6) c
      rw [Option.toList_some, List.map_singleton, List.singleton_append, applyEach,
        Operation.addRoot, apply, hKind c rfl, Position.ofKind, insert, hInsert]
      rfl

/-- Appended roots stand behind all others. -/
theorem applyEach_added {added : Forest} (hKinds : ∀ c ∈ added, Position.ofKind c.kind = .finish) :
    ∀ {forest : Forest}, Forest.Plain (forest ++ added) →
      ∀ rest, applyEach (added.map .addRoot ++ rest) (page frame (Forest.lines 6 forest)) =
        applyEach rest (page frame (Forest.lines 6 (forest ++ added))) := by
  induction added with
  | nil =>
      intro forest _ rest
      rw [List.append_nil]
      rfl
  | cons c more ih =>
      intro forest hPlain rest
      have hInsert := insertAtEnd_page hFrame (clean_lines hPlain.left.clean 6) c
      have hLines : Forest.lines 6 (forest ++ [c]) = Forest.lines 6 forest ++ c.lines 6 := by
        rw [Forest.lines_append, Forest.lines_cons]
        simp [Forest.lines]
      rw [List.append_cons] at hPlain
      have hRest := ih (fun d hd => hKinds d (List.mem_cons_of_mem _ hd)) hPlain rest
      rw [hLines, ← List.append_cons] at hRest
      rw [List.map_cons, List.cons_append, applyEach, Operation.addRoot, apply, hKinds c (by simp),
        insert, hInsert]
      exact hRest

end

end Page

/-- The roots of a plan are those of a page in their places, some left out, with new roots around
them. The comparison finds this out: what stays can be taken for the root that it comes from, and
nothing for a root that goes. And texts do not confuse roots: one that is changed or removed has
another text than any before it that stays. -/
structure Revision.InPlace (top : Option Component) (revision : Revision) (others : Forest) : Prop
    where
  stays : ∀ entry ∈ revision, ∀ c ∈ entry.2, matchesRoot c entry.1 = true
  gone : revision.Pairwise fun entry later =>
    entry.2 = none → ∀ c ∈ later.2, matchesRoot c entry.1 = false
  distinct : revision.Pairwise fun entry later =>
    later.2.map Page.rootText = some (Page.rootText later.1) ∨
      ∀ c ∈ entry.2, Page.rootText c ≠ Page.rootText later.1
  top_kind : ∀ c ∈ top, c.kind = .navbar
  top_new : ∀ c ∈ top, ∀ entry ∈ revision, matchesRoot c entry.1 = false
  others_kind : ∀ c ∈ others, c.kind ≠ .navbar ∧ c.kind ≠ .sidebar
  others_new : ∀ c ∈ others, ∀ entry ∈ revision, entry.2 = none → matchesRoot c entry.1 = false

instance (top : Option Component) (revision : Revision) (others : Forest) :
    Decidable (revision.InPlace top others) :=
  decidable_of_iff
    ((∀ entry ∈ revision, ∀ c ∈ entry.2, matchesRoot c entry.1 = true) ∧
      (revision.Pairwise fun entry later =>
        entry.2 = none → ∀ c ∈ later.2, matchesRoot c entry.1 = false) ∧
      (revision.Pairwise fun entry later =>
        later.2.map Page.rootText = some (Page.rootText later.1) ∨
          ∀ c ∈ entry.2, Page.rootText c ≠ Page.rootText later.1) ∧
      (∀ c ∈ top, c.kind = .navbar) ∧
      (∀ c ∈ top, ∀ entry ∈ revision, matchesRoot c entry.1 = false) ∧
      (∀ c ∈ others, c.kind ≠ .navbar ∧ c.kind ≠ .sidebar) ∧
      ∀ c ∈ others, ∀ entry ∈ revision, entry.2 = none → matchesRoot c entry.1 = false)
    ⟨fun ⟨hStays, hGone, hDistinct, hTop, hTopNew, hOthers, hOthersNew⟩ =>
      ⟨hStays, hGone, hDistinct, hTop, hTopNew, hOthers, hOthersNew⟩,
      fun h => ⟨h.stays, h.gone, h.distinct, h.top_kind, h.top_new, h.others_kind, h.others_new⟩⟩

namespace Page

section

variable {revision : Revision} (hBefore : Forest.Plain revision.before)
include hBefore

theorem plain_of_mem {entry : Component × Option Component} (hEntry : entry ∈ revision) :
    Forest.Plain [entry.1] :=
  Forest.plain_iff.mp hBefore entry.1 (List.mem_map_of_mem hEntry)

/-- The roots that are paired or new are among those that remain, and inherit plainness from them. -/
theorem plain_standing (hAfter : Forest.Plain revision.after) :
    Forest.Plain revision.standing := by
  rw [Forest.plain_iff] at hAfter ⊢
  intro c hc
  obtain ⟨⟨old, kept⟩, hEntry, rfl⟩ := List.mem_map.mp hc
  cases kept with
  | none => exact plain_of_mem hBefore hEntry
  | some new => exact hAfter new (List.mem_filterMap.mpr ⟨_, hEntry, rfl⟩)

variable {top : Option Component} {others : Forest} (h : revision.InPlace top others) {plan : Plan}
  (hPlan : plan.components = top.toList ++ (revision.after ++ others))

/-- What can be taken for no root of the page has another text than each of them. -/
theorem rootText_ne_of_unmatched {c : Component} (hc : Forest.Plain [c])
    {entry : Component × Option Component} (hEntry : entry ∈ revision)
    (hNew : matchesRoot c entry.1 = false) : rootText c ≠ rootText entry.1 := by
  intro hText
  have hAlike := alike_of_text_eq (plain_of_mem hBefore hEntry) hc hText
  rw [matchesRoot_of_alike hAlike.symm] at hNew
  cases hNew

include h

/-- When a root that stays has its turn, it is the first of its text, unless it keeps that text. -/
theorem distinct_standing :
    revision.Pairwise fun entry later => ∀ c ∈ later.2, rootText c = rootText later.1 ∨
      rootText (entry.2.getD entry.1) ≠ rootText later.1 := by
  refine (h.gone.and h.distinct).imp_of_mem ?_
  rintro entry later hEntry hLater ⟨hGone, hDistinct⟩ c hc
  cases hKept : entry.2 with
  | some q =>
      refine hDistinct.imp (fun hSame => ?_) fun hApart => hApart q hKept
      rw [Option.mem_def.mp hc, Option.map_some] at hSame
      exact Option.some.inj hSame
  | none =>
      refine .inr fun hText => ?_
      have hAlike := alike_of_text_eq (plain_of_mem hBefore hLater)
        (plain_of_mem hBefore hEntry) hText
      have hFalse := hGone hKept c hc
      rw [hAlike.matchesRoot_eq, h.stays later hLater c hc] at hFalse
      cases hFalse

include hPlan

/-- The script of an in-place revision, in the order the diff emits it: the new root on top, the
updates, the other new roots, the removals. -/
theorem compared_inPlace :
    compared (Forest.recorded rootIndent revision.before) plan =
      top.toList.map .addRoot ++ (revision.recorded.updates ++
        (others.map .addRoot ++ revision.recorded.removals)) := by
  have hMatches (c : Component) {entry : Component × Option Component} (hEntry : entry ∈ revision) :
      matchesRoot c (entry.1.recorded rootIndent) = matchesRoot c entry.1 :=
    matchesRoot_recorded ((plain_of_mem hBefore hEntry).clean entry.1
      (Forest.mem_walk_self entry.1 [])).distinct _
  have hStays : ∀ entry ∈ revision.recorded, ∀ c ∈ entry.2, matchesRoot c entry.1 = true := by
    intro entry hEntry c hc
    obtain ⟨root, hRoot, rfl⟩ := List.mem_map.mp hEntry
    exact (hMatches c hRoot).trans (h.stays root hRoot c hc)
  have hGone : revision.recorded.Pairwise fun entry later =>
      entry.2 = none → ∀ c ∈ later.2, matchesRoot c entry.1 = false := by
    rw [Revision.recorded, List.pairwise_map]
    exact h.gone.imp_of_mem fun hEntry _ hPair hNone c hc =>
      (hMatches c hEntry).trans (hPair hNone c hc)
  -- Recorded roots match as the roots themselves do.
  have hTop : ∀ c ∈ top.toList, ∀ entry ∈ revision.recorded, matchesRoot c entry.1 = false := by
    intro c hc entry hEntry
    obtain ⟨root, hRoot, rfl⟩ := List.mem_map.mp hEntry
    exact (hMatches c hRoot).trans (h.top_new c (Option.mem_toList.mp hc) root hRoot)
  have hOthers : ∀ c ∈ others, ∀ entry ∈ revision.recorded, entry.2 = none →
      matchesRoot c entry.1 = false := by
    intro c hc entry hEntry hNone
    obtain ⟨root, hRoot, rfl⟩ := List.mem_map.mp hEntry
    exact (hMatches c hRoot).trans (h.others_new c hc root hRoot hNone)
  have hAfter : plan.components = top.toList ++ (revision.recorded.after ++ others) := by
    rw [hPlan, Revision.after_recorded]
  rw [← Revision.before_recorded, compared_revision hStays hGone hTop hOthers hAfter]

end

/-- Patching a page towards a plan whose roots are those of the page in their places gives the page
of the plan, if every pair of roots can be settled. -/
theorem applyAll_inPlace {frame : Frame} (hFrame : frame.AngleFree) {top : Option Component}
    {revision : Revision} {others : Forest} (h : revision.InPlace top others)
    (hSettles : ∀ entry ∈ revision, ∀ c ∈ entry.2, Settles frame entry.1 c) {old new : Plan}
    (hOld : old.components = revision.before)
    (hNew : new.components = top.toList ++ (revision.after ++ others))
    (hOldPlain : Forest.Plain old.components) (hNewPlain : Forest.Plain new.components)
    (hLog : logged new.modifications = []) (strategy : Strategy) :
    applyAll (render frame old) (operations strategy (recover (render frame old)) new) =
      .ok (render frame new) := by
  have hBlock := hasBlock_page hFrame (clean_lines hOldPlain.clean 6)
  rw [render_eq_page, operations_of_not_logged _ _ hLog, recover_page_lines hFrame hOldPlain,
    applyAll, if_pos hBlock, render_eq_page]
  rw [hOld] at hOldPlain ⊢
  rw [compared_inPlace hOldPlain h hNew, hNew]
  rw [hNew] at hNewPlain
  have hTopPlain : ∀ c ∈ top.toList, Forest.Plain [c] := Forest.plain_iff.mp hNewPlain.left
  have hTop : ∀ entry ∈ revision, ∀ c ∈ top.toList, rootText c ≠ rootText entry.1 :=
    fun entry hEntry c hc => rootText_ne_of_unmatched hOldPlain (hTopPlain c hc) hEntry
      (h.top_new c (Option.mem_toList.mp hc) entry hEntry)
  have hFinish : ∀ c ∈ others, Position.ofKind c.kind = .finish := by
    intro c hc
    obtain ⟨hNavbar, hSidebar⟩ := h.others_kind c hc
    cases hKind : c.kind <;> first | rfl | exact absurd hKind ‹_›
  have hStanding : Forest.Plain (top.toList ++ (revision.standing ++ others)) :=
    Forest.plain_append.mpr ⟨hNewPlain.left, Forest.plain_append.mpr
      ⟨plain_standing hOldPlain hNewPlain.right.left, hNewPlain.right.right⟩⟩
  -- The page after each part of the script is where the next part begins.
  have hAdd : ∀ rest, applyEach (top.toList.map .addRoot ++ rest)
        (page frame (Forest.lines 6 revision.before)) =
      applyEach rest (page frame (Forest.lines 6 (top.toList ++ revision.before))) :=
    applyEach_top hFrame h.top_kind hOldPlain
  have hUpdate := applyEach_updates_revision hSettles top.toList
    (Forest.plain_append.mpr ⟨hNewPlain.left, hOldPlain⟩) hNewPlain.right.left
    (fun entry hEntry _ _ => .inr (hTop entry hEntry)) (distinct_standing hOldPlain h)
  have hRemove := applyEach_removals_revision hFrame top.toList hStanding
    (fun entry hEntry _ => hTop entry hEntry) (h.distinct.imp fun hPair hNone => hPair.resolve_left
      (by simp [hNone]))
  rw [← List.append_assoc] at hStanding
  have hAppend := applyEach_added hFrame hFinish hStanding
  rw [hAdd, hUpdate, hAppend, List.append_assoc, hRemove]

end Page
end Wireframe
