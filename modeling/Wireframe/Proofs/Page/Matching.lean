import Wireframe.Proofs.Page.KeyedForests
import Wireframe.Proofs.Page.PropChanges
import Wireframe.Proofs.Page.RoundTrip
import Wireframe.Proofs.Page.TreeEdits

/-! Matching the roots of a plan with those recovered from a page. Roots that no text
confuses are matched with themselves, so that the operations follow the edits of the
roots one by one. -/
namespace Wireframe
namespace Diff

/-- Identifying texts are read off what shows, so that a page knows them as well as the plan does. -/
theorem text?_visible {props : Props} (h : props.keysDistinct = true) (key : String) :
    (visible props).text? key = props.text? key := by
  induction props with
  | nil => rfl
  | cons entry rest ih =>
      obtain ⟨k, v⟩ := entry
      obtain ⟨hNew, hRest⟩ := Props.keysDistinct_cons.mp h
      have hTail := ih hRest
      simp only [visible, Props.text?] at hTail ⊢
      cases hShows : v.isFalse with
      | false =>
          by_cases hKey : k = key
          · simp [hShows, Props.get?, hKey]
          · simpa [hShows, Props.get?, hKey] using hTail
      | true =>
          by_cases hKey : k = key
          · subst hKey
            have hNone : Props.get? k rest = none := Props.get?_eq_none hNew
            -- What is not shown is false, which is no text.
            have hText : ∀ s, v ≠ .text s := by
              rintro s rfl
              cases hShows
            rw [hNone] at hTail
            simp only [List.filter_cons, hShows, Props.get?]
            cases v with
            | text s => exact absurd rfl (hText s)
            | _ => simpa using hTail
          · simpa [hShows, Props.get?, hKey] using hTail

theorem recorded_map (indent : Int) (forest : Forest) :
    Forest.recorded indent forest = forest.map (Component.recorded indent) := by
  induction forest with
  | nil => rfl
  | cons c rest ih => rw [Forest.recorded, ih, List.map_cons]

/-- Recovering a component keeps the texts that identify it. -/
theorem identity_recorded {c : Component} (h : c.props.keysDistinct = true) (indent : Int) :
    identity (c.recorded indent) = identity c := by
  have hProps : (c.recorded indent).props = visible c.props := by
    rw [Page.recorded_eq]
  simp only [identity, hProps, text?_visible h]

/-- No text can confuse the two components: they are of different kinds, or they share no
identifying text and not both are without one. -/
def Apart (c d : Component) : Prop :=
  c.kind = d.kind → sharesText (identity c) (identity d) = false ∧
    ¬(identity c = [] ∧ identity d = [])

instance (c d : Component) : Decidable (Apart c d) :=
  inferInstanceAs (Decidable (_ → _))

/-- Two identities share nothing if no entry of the one is in the other. -/
theorem sharesText_eq_false {wanted known : List (String × String)} :
    sharesText wanted known = false ↔ ∀ entry ∈ wanted, entry ∉ known := by
  simp [sharesText]

theorem Apart.symm {c d : Component} (h : Apart c d) : Apart d c := by
  intro hKind
  obtain ⟨hShares, hEmpty⟩ := h hKind.symm
  refine ⟨?_, fun hBoth => hEmpty ⟨hBoth.2, hBoth.1⟩⟩
  rw [sharesText_eq_false] at hShares ⊢
  exact fun entry hd hc => hShares entry hc hd

/-- The search never pairs components that no text can confuse. -/
theorem matchesRoot_of_apart {c d : Component} (h : Apart c d) : matchesRoot c d = false := by
  unfold matchesRoot
  by_cases hKind : d.kind = c.kind
  · obtain ⟨hShares, hEmpty⟩ := h hKind.symm
    cases hWanted : identity c with
    | nil =>
        have hKnown : identity d ≠ [] := fun hNil => hEmpty ⟨hWanted, hNil⟩
        simp [hKnown]
    | cons entry more =>
        rw [hWanted] at hShares
        simp [hShares]
  · simp [hKind]

def Alike (c d : Component) : Prop :=
  c.kind = d.kind ∧ identity c = identity d

theorem Alike.symm {c d : Component} (h : Alike c d) : Alike d c :=
  ⟨h.1.symm, h.2.symm⟩

/-- A recovered component has the identifying texts of the one that was rendered. -/
theorem alike_recorded {c : Component} (h : c.props.keysDistinct = true) (indent : Int) :
    Alike (c.recorded indent) c := by
  refine ⟨?_, identity_recorded h indent⟩
  rw [Page.recorded_eq]

/-- Recovering a root does not alter what can be taken for it. -/
theorem matchesRoot_recorded {c d : Component} (h : d.props.keysDistinct = true) (indent : Int) :
    matchesRoot c (d.recorded indent) = matchesRoot c d := by
  have hKind : (d.recorded indent).kind = d.kind := by rw [Page.recorded_eq]
  rw [matchesRoot, matchesRoot, hKind, identity_recorded h]

/-- What can be taken for a root can be taken for every root with its identifying texts. -/
theorem Alike.matchesRoot_eq {c d : Component} (h : Alike c d) (new : Component) :
    matchesRoot new c = matchesRoot new d := by
  rw [matchesRoot, matchesRoot, h.1, h.2]

/-- Being apart depends on kinds and identifying texts alone. -/
theorem Apart.congr {c c' d d' : Component} (h : Apart c d) (hc : Alike c' c) (hd : Alike d' d) :
    Apart c' d' := by
  unfold Apart
  rw [hc.1, hc.2, hd.1, hd.2]
  exact h

/-- A component is not apart from one with its own texts. -/
theorem Apart.not_alike {c d : Component} (h : Apart c d) : ¬Alike c d := by
  rintro ⟨hKind, hIdentity⟩
  obtain ⟨hShares, hEmpty⟩ := h hKind
  rw [hIdentity, sharesText_eq_false] at hShares
  have hNil : identity d = [] := List.eq_nil_iff_forall_not_mem.mpr fun entry hEntry =>
    hShares entry hEntry hEntry
  exact hEmpty ⟨hIdentity.trans hNil, hNil⟩

/-- Roots are paired within kinds. -/
theorem kind_eq_of_matchesRoot {c d : Component} (h : matchesRoot c d = true) : d.kind = c.kind := by
  rw [matchesRoot, Bool.and_eq_true, beq_iff_eq] at h
  exact h.1

/-- Components with the same texts can be taken for one another, also if neither has any. -/
theorem matchesRoot_of_alike {c d : Component} (h : Alike d c) : matchesRoot c d = true := by
  unfold matchesRoot
  rw [h.1, h.2]
  cases hWanted : identity c with
  | nil => simp
  | cons entry more => simp [sharesText]

/-- Nothing matches if all that would is taken. -/
theorem findMatch?_eq_none {c : Component} {forest : Forest} {taken : List Nat}
    (h : ∀ entry ∈ forest.zipIdx, entry.2 ∈ taken ∨ matchesRoot c entry.1 = false) :
    findMatch? c forest taken = none := by
  rw [findMatch?, List.find?_eq_none]
  intro entry hEntry
  rcases h entry hEntry with hTaken | hApart
  · simp [hTaken]
  · simp [hApart]

/-- The first candidate that matches is taken, if it is still free. -/
theorem findMatch?_eq_some {c d : Component} {before after : Forest} {taken : List Nat}
    (hBefore : ∀ entry ∈ before.zipIdx, entry.2 ∈ taken ∨ matchesRoot c entry.1 = false)
    (hMatch : matchesRoot c d = true) (hFree : before.length ∉ taken) :
    findMatch? c (before ++ d :: after) taken = some (d, before.length) := by
  have hNone : before.zipIdx.find? (fun entry => !taken.contains entry.2 && matchesRoot c entry.1) =
      none := findMatch?_eq_none hBefore
  rw [findMatch?, List.zipIdx_append, List.find?_append, hNone, Option.none_or, List.zipIdx_cons,
    List.find?_cons_of_pos]
  · simp
  · simp [hMatch, hFree]

/-- What the search finds is a root at its place, not yet taken, that the component can be taken
for. -/
theorem findMatch?_sound {c old : Component} {forest : Forest} {taken : List Nat} {place : Nat}
    (h : findMatch? c forest taken = some (old, place)) :
    forest[place]? = some old ∧ place ∉ taken ∧ matchesRoot c old = true := by
  rw [findMatch?] at h
  have hMem := List.mem_of_find?_eq_some h
  have hTest := List.find?_some h
  simp only [Bool.and_eq_true, Bool.not_eq_true', List.contains_eq_mem,
    decide_eq_false_iff_not] at hTest
  exact ⟨List.mem_zipIdx_iff_getElem?.mp hMem, hTest.1, hTest.2⟩

/-- Recovering the roots of a page does not alter which of them is taken. -/
theorem findMatch?_recorded {forest : Forest} (h : ∀ c ∈ forest, c.props.keysDistinct = true)
    (indent : Int) (c : Component) (taken : List Nat) :
    (findMatch? c (Forest.recorded indent forest) taken).map Prod.snd =
      (findMatch? c forest taken).map Prod.snd := by
  have hFilter : forest.zipIdx.filter ((fun entry => !taken.contains entry.2 &&
      matchesRoot c entry.1) ∘ Prod.map (Component.recorded indent) id) =
      forest.zipIdx.filter fun entry => !taken.contains entry.2 && matchesRoot c entry.1 := by
    refine List.filter_congr fun entry hEntry => ?_
    simp [matchesRoot_recorded (h _ (List.fst_mem_of_mem_zipIdx hEntry))]
  rw [findMatch?, findMatch?, recorded_map, List.zipIdx_map, List.find?_map, Option.map_map,
    ← List.head?_filter, ← List.head?_filter, hFilter]
  rfl

/-- A root for which nothing is found is added. -/
theorem matchRoots_cons_of_none {c : Component} {forest rest : Forest} {taken : List Nat}
    (h : findMatch? c forest taken = none) :
    matchRoots forest taken (c :: rest) =
      (.addRoot c :: (matchRoots forest taken rest).1, (matchRoots forest taken rest).2) := by
  rw [matchRoots, h]

/-- A root for which something is found takes it, and the rest of the search goes without it. -/
theorem matchRoots_cons_of_some {c old : Component} {forest rest : Forest} {taken : List Nat}
    {place : Nat} (h : findMatch? c forest taken = some (old, place)) :
    matchRoots forest taken (c :: rest) =
      (rootOperations old c ++ (matchRoots forest (place :: taken) rest).1,
        (matchRoots forest (place :: taken) rest).2) := by
  rw [matchRoots, h]

/-- Roots that match nothing are added, and take nothing. -/
theorem matchRoots_append_of_unmatched {forest added : Forest} {taken : List Nat}
    (h : ∀ c ∈ added, findMatch? c forest taken = none) (rest : Forest) :
    matchRoots forest taken (added ++ rest) =
      (added.map .addRoot ++ (matchRoots forest taken rest).1,
        (matchRoots forest taken rest).2) := by
  induction added with
  | nil => rfl
  | cons c others ih =>
      have hOthers := ih fun d hd => h d (List.mem_cons_of_mem _ hd)
      rw [List.cons_append, matchRoots_cons_of_none (h c (by simp)), hOthers]
      rfl

/-- Shapes are compared by kind, by the props that show and by the shapes of the children. -/
theorem sameShape_iff {c d : Component} :
    sameShape c d = true ↔ c.kind = d.kind ∧
      Value.same (.object (visible c.props)) (.object (visible d.props)) = true ∧
        sameShapes c.children d.children = true := by
  cases c
  simp [sameShape, and_assoc]

section

variable {forest : Forest}

/-- Recovering components keeps their shapes. -/
theorem sameShapes_recorded :
    ∀ (indent : Int) (other : Forest),
      sameShapes (Forest.recorded indent forest) other = sameShapes forest other := by
  induction forest using Forest.induction with
  | nil => exact fun _ _ => rfl
  | cons c rest hChildren hRest =>
      intro indent other
      cases other with
      | nil => rfl
      | cons d others =>
          obtain ⟨kind, props, children, source⟩ := c
          have hBelow := hChildren (indent + Page.indentStep) d.children
          simp only [Forest.recorded, Component.recorded, sameShapes, sameShape,
            Page.visible_visible, hRest, hBelow]

/-- A keyed forest has its own shape. Repeated keys could spoil that. -/
theorem sameShapes_self (h : Forest.Keyed forest) : sameShapes forest forest = true := by
  induction forest using Forest.induction with
  | nil => rfl
  | cons c rest hChildren hRest =>
      have hProps := same_visible (h c (Forest.mem_walk_self c rest))
      have hBelow := hChildren h.children
      have hLater := hRest h.tail
      obtain ⟨kind, props, children, source⟩ := c
      simp only [sameShapes, sameShape, beq_self_eq_true, hProps, hBelow, hLater, Bool.and_self]

end

/-- Recovering a component does not alter what is to change in it. -/
theorem rootOperations_recorded (old new : Component) (indent : Int) :
    rootOperations (old.recorded indent) new =
      (if sameShapes old.children new.children then []
        else [.updateChildren (old.recorded indent) new.children]) ++
      if (propChanges old.props new.props).isEmpty then []
      else [.updateProps (old.recorded indent) (propChanges old.props new.props)] := by
  have hProps : (old.recorded indent).props = visible old.props := by rw [Page.recorded_eq]
  have hShapes : sameShapes (old.recorded indent).children new.children =
      sameShapes old.children new.children := by
    rw [Page.recorded_eq]
    exact sameShapes_recorded _ _
  have hChanges : propChanges (visible old.props) new.props = propChanges old.props new.props := by
    simp only [propChanges, Page.visible_visible]
  rw [rootOperations, hProps, hShapes, hChanges]

/-- A component does not differ from what is recovered of it. -/
theorem rootOperations_recorded_self {c : Component} (h : Forest.Keyed [c]) (indent : Int) :
    rootOperations (c.recorded indent) c = [] := by
  have hChanges := propChanges_self (h c (Forest.mem_walk_self c []))
  simp [rootOperations_recorded, sameShapes_self h.children, hChanges]

/-- A pair of roots is only ever updated. -/
theorem mem_rootOperations {old new : Component} {op : Operation} (h : op ∈ rootOperations old new) :
    op = .updateChildren old new.children ∨
      op = .updateProps old (propChanges old.props new.props) := by
  simp only [rootOperations, List.mem_append] at h
  rcases h with h | h
  · split at h
    · cases h
    · exact .inl (List.mem_singleton.mp h)
  · split at h
    · cases h
    · exact .inr (List.mem_singleton.mp h)

/-- Where each operation of the search comes from: a new root, or a pair of one kind. -/
theorem mem_matchRoots {forest roots : Forest} {op : Operation} :
    ∀ taken, op ∈ (matchRoots forest taken roots).1 →
      (∃ c ∈ roots, op = .addRoot c) ∨
        ∃ old ∈ forest, ∃ c ∈ roots, old.kind = c.kind ∧ op ∈ rootOperations old c := by
  induction roots with
  | nil => exact fun _ h => absurd h List.not_mem_nil
  | cons c rest ih =>
      intro taken h
      -- What comes from the later roots does so whatever was taken.
      have hLater {more : List Nat} (hMem : op ∈ (matchRoots forest more rest).1) :
          (∃ d ∈ c :: rest, op = .addRoot d) ∨
            ∃ old ∈ forest, ∃ d ∈ c :: rest, old.kind = d.kind ∧ op ∈ rootOperations old d := by
        rcases ih more hMem with ⟨d, hd, hAdd⟩ | ⟨old, hOld, d, hd, hPair⟩
        · exact .inl ⟨d, List.mem_cons_of_mem _ hd, hAdd⟩
        · exact .inr ⟨old, hOld, d, List.mem_cons_of_mem _ hd, hPair⟩
      cases hFind : findMatch? c forest taken with
      | none =>
          rw [matchRoots_cons_of_none hFind, List.mem_cons] at h
          rcases h with h | h
          · exact .inl ⟨c, List.mem_cons_self, h⟩
          · exact hLater h
      | some found =>
          obtain ⟨old, place⟩ := found
          obtain ⟨hOld, -, hMatch⟩ := findMatch?_sound hFind
          have hKind := kind_eq_of_matchesRoot hMatch
          rw [matchRoots_cons_of_some hFind, List.mem_append] at h
          rcases h with h | h
          · exact .inr ⟨old, List.mem_of_getElem? hOld, c, List.mem_cons_self, hKind, h⟩
          · exact hLater h

/-- A comparison adds roots of the plan, changes roots of the page into roots of the plan that are of
their kinds, and removes roots of the page. -/
theorem mem_compared {forest : Forest} {plan : Plan} {op : Operation} (h : op ∈ compared forest plan) :
    (∃ c ∈ plan.components, op = .addRoot c) ∨
      (∃ old ∈ forest, ∃ c ∈ plan.components, old.kind = c.kind ∧ op ∈ rootOperations old c) ∨
      ∃ old ∈ forest, op = .remove old := by
  simp only [compared, List.mem_append, List.mem_map] at h
  rcases h with h | ⟨entry, hEntry, rfl⟩
  · exact (mem_matchRoots [] h).imp_right .inl
  · exact .inr (.inr ⟨entry.1, List.fst_mem_of_mem_zipIdx (List.mem_of_mem_filter hEntry), rfl⟩)

/-- If the log names no operation, both strategies compare. -/
theorem operations_of_not_logged (strategy : Strategy) (forest : Forest) {plan : Plan}
    (h : logged plan.modifications = []) : operations strategy forest plan = compared forest plan := by
  cases strategy <;> simp [operations, h]

theorem logged_of_empty {plan : Plan} (h : plan.modifications = []) :
    logged plan.modifications = [] := by
  rw [h]
  rfl

end Diff
end Wireframe
