import Wireframe.Plan.Branch

/-!
Planning. Without a plan, an instruction selects one of the fresh plans by keyword. With a plan, its
verb selects the branches that change the plan, and the log of the new plan says what they did.
-/
namespace Wireframe
namespace Plan

/-- The keywords, the layout and the forest of each fresh plan, in order of precedence. -/
def freshPlans : List (List String × String × Forest) :=
  [(["dashboard", "analytics"], "dashboard", Template.dashboard),
   (["form", "input"], "form", Template.form),
   (["modal", "dialog"], "modal-view", Template.modalView)]

def create (instruction : Instruction) : Plan :=
  match freshPlans.find? fun entry => instruction.mentionsAny entry.1 with
  | some (_, layout, components) => ⟨layout, components, []⟩
  | none => ⟨"default", Template.application, []⟩

/-- The branches that an instruction takes in a plan. An instruction without a verb takes none. -/
def branches (instruction : Instruction) (previous : Plan) : List Branch :=
  match Verb.of? instruction with
  | some verb => Branch.ofVerb previous.layout instruction verb
  | none => []

/-- The plan that an instruction makes of another plan. The log is a new one: what the plan before
has logged is gone, also where no branch is taken. -/
def modify (instruction : Instruction) (previous : Plan) : Plan :=
  let (components, log) := Branch.steps (branches instruction previous) previous.components
  ⟨previous.layout, components, log⟩

/-- The plan for an instruction, on top of a previous plan if there is one. -/
def next (instruction : Instruction) : Option Plan → Plan
  | some previous => modify instruction previous
  | none => create instruction

/-- The plans that a row of instructions makes, each on top of the one before. -/
def chain : List Instruction → Option Plan → List Plan
  | [], _ => []
  | instruction :: rest, previous =>
    let plan := next instruction previous
    plan :: chain rest (some plan)

end Plan
end Wireframe
