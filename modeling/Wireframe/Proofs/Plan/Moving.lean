import Wireframe.Proofs.Page.TreeEdits
import Wireframe.Proofs.Plan.Branches

/-! What becomes of the components of a plan when an instruction moves a button. Each edit of the
first component of a kind is known by what it does to the walk of the forest, so that a button taken
out and put in elsewhere leaves the same components. A button that holds the component that it is to
be put into is lost with everything below it. -/
namespace Wireframe

def Component.node (c : Component) : Kind × Props :=
  (c.kind, c.props)

namespace Forest

variable {kind : Kind} {forest : Forest}

/-- The kinds and the props of all components of a forest, in the order of the walk. -/
def nodes (forest : Forest) : List (Kind × Props) :=
  (walk forest).map Component.node

theorem nodes_nil : nodes [] = [] := rfl

/-- The nodes of a forest in pre-order. -/
theorem nodes_cons (c : Component) (rest : Forest) :
    nodes (c :: rest) = c.node :: (nodes c.children ++ nodes rest) :=
  map_walk_cons _ c rest

theorem nodes_append (first last : Forest) : nodes (first ++ last) = nodes first ++ nodes last :=
  map_walk_append _ first last

/-- A child put at the end of a component adds its nodes behind. -/
theorem nodes_addChild (child c : Component) :
    nodes [Component.addChild child c] = nodes [c] ++ nodes [child] := by
  rw [nodes_cons, nodes_cons c, nodes_nil, List.append_nil, List.append_nil]
  exact congrArg (c.node :: ·) (nodes_append c.children [child])

/-- A forest has a kind when one of its nodes is of it. -/
theorem hasKind_iff : hasKind kind forest = true ↔ ∃ node ∈ nodes forest, node.1 = kind := by
  simp [hasKind, nodes, Component.node]

/-- The first of a kind, found from how the walk splits. -/
theorem first?_of_walk {before after : List Component} {c : Component}
    (hWalk : walk forest = before ++ c :: after) (hBefore : ∀ d ∈ before, d.kind ≠ kind)
    (hKind : c.kind = kind) : first? kind forest = some c := by
  rw [first?, hWalk, List.find?_append, List.find?_cons_of_pos (by simpa using hKind),
    List.find?_eq_none.mpr fun d hd => by simpa using hBefore d hd, Option.none_or]

theorem takeWhile_of_walk {before after : List Component} {c : Component}
    (hWalk : walk forest = before ++ c :: after) (hBefore : ∀ d ∈ before, d.kind ≠ kind)
    (hKind : c.kind = kind) : (walk forest).takeWhile (fun d => d.kind ≠ kind) = before := by
  rw [hWalk, List.takeWhile_append_of_pos fun d hd => by simpa using hBefore d hd,
    List.takeWhile_cons_of_neg (by simpa using hKind), List.append_nil]

theorem first?_eq_none (h : hasKind kind forest = false) : first? kind forest = none :=
  List.find?_eq_none.mpr fun c hc => by simpa using kind_ne_of_hasKind h c hc

/-- A component is the first of its kind in a forest: the components before it in the walk and those
behind everything below it, and what edits of it make of the nodes. -/
structure FirstAt (kind : Kind) (forest : Forest) (before : List Component) (c : Component)
    (after : List Component) : Prop where
  kind_eq : c.kind = kind
  walk_eq : walk forest = before ++ c :: (walk c.children ++ after)
  earlier : ∀ d ∈ before, d.kind ≠ kind
  drop : ∃ rest, dropFirst? kind forest = some rest ∧
    nodes rest = before.map Component.node ++ after.map Component.node
  update : ∀ change, ∃ edited, updateFirst? kind change forest = some edited ∧
    nodes edited = before.map Component.node ++ (nodes [change c] ++ after.map Component.node)

namespace FirstAt

variable {before after : List Component} {c d : Component} {rest : Forest}

/-- A root of the kind is the first one, whatever follows. -/
theorem here (c : Component) (rest : Forest) : FirstAt c.kind (c :: rest) [] c (walk rest) where
  kind_eq := rfl
  walk_eq := walk_cons c rest
  earlier := List.forall_mem_nil _
  drop := ⟨rest, by rw [dropFirst?_cons, if_pos rfl], rfl⟩
  update change := ⟨change c :: rest, by rw [updateFirst?_cons, if_pos rfl],
    nodes_append [change c] rest⟩

/-- The first among the children, when the parent is of another kind. -/
theorem below (hKind : d.kind ≠ kind) (h : FirstAt kind d.children before c after) (rest : Forest) :
    FirstAt kind (d :: rest) (d :: before) c (after ++ walk rest) where
  kind_eq := h.kind_eq
  walk_eq := by
    rw [walk_cons, h.walk_eq]
    simp
  earlier := List.forall_mem_cons.mpr ⟨hKind, h.earlier⟩
  drop := by
    obtain ⟨edited, hDrop, hNodes⟩ := h.drop
    refine ⟨d.withChildren edited :: rest, by rw [dropFirst?_cons, if_neg hKind, hDrop], ?_⟩
    rw [nodes_cons, show (d.withChildren edited).children = edited from rfl, hNodes]
    simp [nodes, Component.node, Component.withChildren]
  update change := by
    obtain ⟨edited, hUpdate, hNodes⟩ := h.update change
    refine ⟨d.withChildren edited :: rest, by rw [updateFirst?_cons, if_neg hKind, hUpdate], ?_⟩
    rw [nodes_cons, show (d.withChildren edited).children = edited from rfl, hNodes]
    simp [nodes, Component.node, Component.withChildren]

/-- The first among the later roots, when the kind is not met before. -/
theorem later (hKind : d.kind ≠ kind) (hBelow : hasKind kind d.children = false)
    (h : FirstAt kind rest before c after) :
    FirstAt kind (d :: rest) (d :: (walk d.children ++ before)) c after where
  kind_eq := h.kind_eq
  walk_eq := by
    rw [walk_cons, h.walk_eq]
    simp
  earlier := List.forall_mem_cons.mpr
    ⟨hKind, List.forall_mem_append.mpr ⟨kind_ne_of_hasKind hBelow, h.earlier⟩⟩
  drop := by
    obtain ⟨edited, hDrop, hNodes⟩ := h.drop
    refine ⟨d :: edited, ?_, ?_⟩
    · rw [dropFirst?_cons, if_neg hKind, (edits_of_not_hasKind id hBelow).1, hDrop]
      rfl
    · rw [nodes_cons, hNodes]
      simp [nodes]
  update change := by
    obtain ⟨edited, hUpdate, hNodes⟩ := h.update change
    refine ⟨d :: edited, ?_, ?_⟩
    · rw [updateFirst?_cons, if_neg hKind, (edits_of_not_hasKind change hBelow).2, hUpdate]
      rfl
    · rw [nodes_cons, hNodes]
      simp [nodes]

theorem first?_eq (h : FirstAt kind forest before c after) : first? kind forest = some c :=
  first?_of_walk h.walk_eq h.earlier h.kind_eq

/-- The nodes of a forest, split at the first component of a kind. -/
theorem nodes_eq (h : FirstAt kind forest before c after) :
    nodes forest = before.map Component.node ++ (nodes [c] ++ after.map Component.node) := by
  rw [nodes, h.walk_eq, nodes_cons]
  simp [nodes]

end FirstAt

/-- Where there is a component of the kind there is a first one; by induction over the forest, in
the order of the search. -/
theorem exists_firstAt (h : hasKind kind forest = true) :
    ∃ before c after, FirstAt kind forest before c after := by
  induction forest, h using induction_first with
  | here d rest _ hHere =>
      subst hHere
      exact ⟨_, _, _, .here d rest⟩
  | below d rest _ hHere _ ih =>
      obtain ⟨before, c, after, hFirst⟩ := ih
      exact ⟨_, c, _, hFirst.below hHere rest⟩
  | later d rest _ hHere hBelow _ ih =>
      obtain ⟨before, c, after, hFirst⟩ := ih
      exact ⟨_, c, _, hFirst.later hHere hBelow⟩

/-- A deletion takes out the nodes of the component and of everything below it, and no others. -/
theorem exists_nodes_dropFirst? (h : hasKind kind forest = true) :
    ∃ c rest, first? kind forest = some c ∧ dropFirst? kind forest = some rest ∧
      (nodes rest ++ nodes [c]).Perm (nodes forest) := by
  obtain ⟨before, c, after, hFirst⟩ := exists_firstAt h
  obtain ⟨rest, hDrop, hNodes⟩ := hFirst.drop
  refine ⟨c, rest, hFirst.first?_eq, hDrop, ?_⟩
  rw [hNodes, hFirst.nodes_eq, List.append_assoc]
  exact List.perm_append_comm.append_left _

/-- A child added to the first of a kind adds its nodes and drops none. -/
theorem exists_nodes_addTo (child : Component) (h : hasKind kind forest = true) :
    ∃ edited, Step.addTo kind child forest = some edited ∧
      (nodes edited).Perm (nodes forest ++ nodes [child]) := by
  obtain ⟨before, c, after, hFirst⟩ := exists_firstAt h
  obtain ⟨edited, hUpdate, hNodes⟩ := hFirst.update (Component.addChild child)
  refine ⟨edited, hUpdate, ?_⟩
  rw [hNodes, hFirst.nodes_eq, nodes_addChild, List.append_assoc, List.append_assoc,
    List.append_assoc]
  exact (List.perm_append_comm.append_left _).append_left _

/-- Going through the forest, the first component of one kind is met below the first one of another
kind. -/
def FirstBelow (kind above : Kind) (forest : Forest) : Prop :=
  ∃ before c after, walk forest = before ++ c :: (walk c.children ++ after) ∧ c.kind = above ∧
    (∀ d ∈ before, d.kind ≠ above ∧ d.kind ≠ kind) ∧ hasKind kind c.children = true

end Forest

namespace Step

open Forest

variable {kind : Kind} {forest : Forest}

/-- The target lies in the button exactly when the first of its kind is met below the first button. -/
theorem liesInButton_iff : liesInButton kind forest = true ↔ FirstBelow kind .button forest := by
  constructor
  · intro h
    cases hButton : hasKind .button forest with
    | false => simp [liesInButton, first?_eq_none hButton] at h
    | true =>
        obtain ⟨before, button, after, hFirst⟩ := exists_firstAt hButton
        simp only [liesInButton, takeWhile_of_walk hFirst.walk_eq hFirst.earlier hFirst.kind_eq,
          hFirst.first?_eq, Option.any_some, Bool.and_eq_true, Bool.not_eq_true',
          List.any_eq_false, decide_eq_true_eq] at h
        exact ⟨before, button, after, hFirst.walk_eq, hFirst.kind_eq,
          fun d hd => ⟨hFirst.earlier d hd, h.1 d hd⟩, h.2⟩
  · rintro ⟨before, button, after, hWalk, hKind, hBefore, hBelow⟩
    have hEarlier : ∀ d ∈ before, d.kind ≠ .button := fun d hd => (hBefore d hd).1
    simp only [liesInButton, takeWhile_of_walk hWalk hEarlier hKind,
      first?_of_walk hWalk hEarlier hKind, Option.any_some, hBelow, Bool.and_true,
      Bool.not_eq_true', List.any_eq_false, decide_eq_true_eq]
    exact fun d hd => (hBefore d hd).2

instance (kind : Kind) (forest : Forest) : Decidable (FirstBelow kind .button forest) :=
  decidable_of_iff _ liesInButton_iff

/-- A kind that does not first occur below the first button is still there without the button. -/
theorem hasKind_dropFirst? (hKind : kind ≠ .button) (hHas : hasKind kind forest = true)
    (hApart : ¬ FirstBelow kind .button forest) {rest : Forest}
    (hDrop : dropFirst? .button forest = some rest) : hasKind kind rest = true := by
  cases hButton : hasKind .button forest with
  | false =>
      rw [(edits_of_not_hasKind id hButton).1] at hDrop
      cases hDrop
  | true =>
      obtain ⟨before, button, after, hFirst⟩ := exists_firstAt hButton
      obtain ⟨_, hSame, hNodes⟩ := hFirst.drop
      obtain rfl := Option.some.inj (hSame.symm.trans hDrop)
      rw [hasKind_iff, hFirst.nodes_eq, nodes_cons, nodes_nil] at hHas
      obtain ⟨node, hNode, rfl⟩ := hHas
      rw [hasKind_iff, hNodes]
      simp only [List.mem_append, List.mem_cons, List.not_mem_nil, or_false] at hNode ⊢
      rcases hNode with hBefore | (rfl | hInside) | hAfter
      · exact ⟨node, .inl hBefore, rfl⟩
      · exact absurd hFirst.kind_eq hKind
      · -- The kind occurs inside the button, so that it occurs before the button as well.
        by_contra hNone
        refine hApart ⟨before, button, after, hFirst.walk_eq, hFirst.kind_eq, fun d hd =>
          ⟨hFirst.earlier d hd, fun hSame => hNone ?_⟩, hasKind_iff.mpr ⟨node, hInside, rfl⟩⟩
        exact ⟨d.node, .inl (List.mem_map_of_mem hd), hSame⟩
      · exact ⟨node, .inr hAfter, rfl⟩

/-- Nothing is moved if there is no button or no component of the kind. -/
theorem moveButton?_eq_none (h : ¬ (hasKind .button forest = true ∧ hasKind kind forest = true)) :
    moveButton? kind forest = .none := by
  unfold moveButton?
  split
  · rename_i button hButton hHas
    refine absurd ⟨?_, hHas⟩ h
    by_contra hNone
    rw [first?_eq_none (by simpa using hNone)] at hButton
    cases hButton
  · rfl

/-- A moved button leaves all components of the forest, or it is gone with all that is below it. -/
theorem exists_moveButton? (hKind : kind ≠ .button) (hButton : hasKind .button forest = true)
    (hHas : hasKind kind forest = true) :
    ∃ button moved, first? .button forest = some button ∧ moveButton? kind forest = some moved ∧
      (FirstBelow kind .button forest → (nodes moved ++ nodes [button]).Perm (nodes forest)) ∧
      (¬ FirstBelow kind .button forest → (nodes moved).Perm (nodes forest)) := by
  obtain ⟨button, rest, hFirst, hDrop, hRest⟩ := exists_nodes_dropFirst? hButton
  by_cases hBelow : FirstBelow kind .button forest
  · refine ⟨button, rest, hFirst, ?_, fun _ => hRest, fun hNot => absurd hBelow hNot⟩
    rw [moveButton?, hFirst, hHas, hDrop, liesInButton_iff.mpr hBelow]
    rfl
  · have hOutside : liesInButton kind forest = false :=
      Bool.eq_false_iff.mpr fun hIn => hBelow (liesInButton_iff.mp hIn)
    obtain ⟨moved, hAdd, hMoved⟩ :=
      exists_nodes_addTo button (hasKind_dropFirst? hKind hHas hBelow hDrop)
    refine ⟨button, moved, hFirst, ?_, fun hIn => absurd hIn hBelow, fun _ => hMoved.trans hRest⟩
    rw [moveButton?, hFirst, hHas, hDrop, hOutside]
    simp [hAdd]

theorem kind_ne_of_mem_moveTargets : ∀ target ∈ moveTargets, target.2.1 ≠ .button := by
  decide

end Step

namespace Branch

open Step

/-- The one branch of a move, for the first target that the instruction mentions. -/
theorem move_of_target {i : Instruction} {target : List String × Kind × String}
    (hButton : i.mentions "button" = true)
    (hTarget : (moveTargets.find? fun target => i.mentionsAny target.1) = some target) :
    move i = [.moveButton target.2.1 target.2.2] := by
  rw [move, hButton, hTarget]

/-- Without a button or a target to mention there is nothing to move. -/
theorem move_eq_nil {i : Instruction} (h : ¬ (i.mentions "button" = true ∧
    ∃ target, (moveTargets.find? fun target => i.mentionsAny target.1) = some target)) :
    move i = [] := by
  unfold move
  split
  · rename_i hButton hTarget
    exact absurd ⟨hButton, _, hTarget⟩ h
  · rfl

end Branch

theorem Forest.FirstBelow.hasKind {kind above : Kind} {forest : Forest}
    (h : Forest.FirstBelow kind above forest) :
    Forest.hasKind above forest = true ∧ Forest.hasKind kind forest = true := by
  obtain ⟨before, c, after, hWalk, hKind, -, hBelow⟩ := h
  obtain ⟨d, hd, hSame⟩ := List.any_eq_true.mp hBelow
  constructor <;> rw [Forest.hasKind, hWalk, List.any_eq_true]
  · exact ⟨c, by simp, by simpa using hKind⟩
  · exact ⟨d, by simp [hd], hSame⟩

namespace Plan

open Forest Step

/-- The instruction moves the first button into the first component of a kind, and that component
lies below the button. -/
def MovesIntoItself (instruction : Instruction) (forest : Forest) : Prop :=
  instruction.mentions "button" = true ∧
    ∃ target ∈ moveTargets.find? fun target => instruction.mentionsAny target.1,
      FirstBelow target.2.1 .button forest

instance (instruction : Instruction) (forest : Forest) :
    Decidable (MovesIntoItself instruction forest) :=
  inferInstanceAs (Decidable (_ ∧ _))

/-- What an instruction to move makes of the components is what the branches of the move make of
them. -/
theorem components_of_move {instruction : Instruction} (hVerb : Verb.of? instruction = some .move)
    (plan : Plan) :
    (next instruction (some plan)).components =
      (Branch.steps (Branch.move instruction) plan.components).1 := by
  rw [next_some, branches_of_verb hVerb]
  rfl

/-- Moving a button keeps the components of a plan, wherever the button and its new place are and
whether or not there are such, unless the new place is below the button. Then the button is lost with
everything below it. -/
theorem perm_nodes_of_move {instruction : Instruction} (hVerb : Verb.of? instruction = some .move)
    (plan : Plan) :
    ((nodes (next instruction (some plan)).components).Perm (nodes plan.components) ↔
      ¬ MovesIntoItself instruction plan.components) ∧
    (MovesIntoItself instruction plan.components →
      ∃ button, first? .button plan.components = some button ∧
        (nodes (next instruction (some plan)).components ++ nodes [button]).Perm
          (nodes plan.components)) := by
  rw [components_of_move hVerb]
  have hUnchanged {new : Forest} (hSame : new = plan.components)
      (hNot : ¬ MovesIntoItself instruction plan.components) :
      ((nodes new).Perm (nodes plan.components) ↔
        ¬ MovesIntoItself instruction plan.components) ∧
      (MovesIntoItself instruction plan.components →
        ∃ button, first? .button plan.components = some button ∧
          (nodes new ++ nodes [button]).Perm (nodes plan.components)) :=
    ⟨iff_of_true (by rw [hSame]) hNot, fun h => absurd h hNot⟩
  by_cases hMoves : instruction.mentions "button" = true ∧
      ∃ target, (moveTargets.find? fun target => instruction.mentionsAny target.1) = some target
  · obtain ⟨hButton, target, hTarget⟩ := hMoves
    have hInto : MovesIntoItself instruction plan.components ↔
        FirstBelow target.2.1 .button plan.components := by
      simp [MovesIntoItself, hButton, hTarget]
    by_cases hThere : hasKind .button plan.components = true ∧
        hasKind target.2.1 plan.components = true
    · obtain ⟨button, moved, hFirst, hMoved, hLost, hKept⟩ := exists_moveButton?
        (kind_ne_of_mem_moveTargets target (List.mem_of_find?_eq_some hTarget)) hThere.1 hThere.2
      have hStep : (Branch.steps (Branch.move instruction) plan.components).1 = moved := by
        rw [Branch.move_of_target hButton hTarget, Branch.steps_singleton, Branch.step,
          whenPossible, hMoved]
      rw [hStep, hInto]
      refine ⟨⟨fun hPerm hBelow => ?_, hKept⟩, fun hBelow => ⟨button, hFirst, hLost hBelow⟩⟩
      -- What is lost has the button in it.
      have hLength := (hLost hBelow).length_eq.trans hPerm.length_eq.symm
      rw [List.length_append, nodes_cons, List.length_cons] at hLength
      omega
    · refine hUnchanged ?_ fun h => hThere (hInto.mp h).hasKind
      rw [Branch.move_of_target hButton hTarget, Branch.steps_singleton, Branch.step, whenPossible,
        moveButton?_eq_none hThere]
  · refine hUnchanged ?_ fun h => hMoves ⟨h.1, h.2.imp fun _ => And.left⟩
    rw [Branch.move_eq_nil hMoves]
    rfl

def toCard : Instruction :=
  "Move the button to the card".toList

/-- A plan whose first button stands in the first card, before something else. -/
def buttonInCard : Plan :=
  ⟨"default",
    [⟨.navbar, [], [], none⟩,
      ⟨.card, [("title", .text "Team")],
        [⟨.button, [("children", .text "Save")], [.leaf .input []], none⟩, .leaf .table []], none⟩],
    []⟩

/-- A button moved within the card that it stands in. -/
theorem perm_nodes_of_move_buttonInCard :
    Verb.of? toCard = some .move ∧ ¬ MovesIntoItself toCard buttonInCard.components ∧
      (nodes (next toCard (some buttonInCard)).components).Perm (nodes buttonInCard.components) := by
  have hVerb : Verb.of? toCard = some .move := by decide +kernel
  have hApart : ¬ MovesIntoItself toCard buttonInCard.components := by decide +kernel
  exact ⟨hVerb, hApart, (perm_nodes_of_move hVerb buttonInCard).1.mpr hApart⟩

def cardInButton : Plan :=
  ⟨"default", [⟨.button, [("children", .text "Open")], [.leaf .card []], none⟩], []⟩

/-- A button that should go into a card below it is gone, although the log says that it was moved. -/
theorem button_lost :
    Verb.of? toCard = some .move ∧
      (next toCard (some cardInButton)).modifications = ["Moved button to card"] ∧
      ¬ (nodes (next toCard (some cardInButton)).components).Perm
        (nodes cardInButton.components) := by
  refine ⟨by decide +kernel, by decide +kernel, fun hPerm => ?_⟩
  exact absurd hPerm.length_eq (by decide +kernel)

end Plan
end Wireframe
