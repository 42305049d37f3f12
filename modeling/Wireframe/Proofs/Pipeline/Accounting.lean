import Mathlib
import Wireframe.Proofs.Pipeline.Runs

/-! What becomes of a run and what it records. The ways in which a run can go are given as a relation
between what it starts from and its result; the events of a run are then those of the stages that it
entered, those of the patch, and one for the request. -/
namespace Wireframe
namespace Pipeline

variable {settings : Settings} {plan : Plan} {previous : Option Text}

/-- The source before is there to be patched, and patching is on. -/
def Patchable (settings : Settings) (previous : Option Text) (code : Text) : Prop :=
  previous = some code ∧ code ≠ [] ∧ settings.enablePatching = true

/-- The patch of the source before towards the plan is tried, and it fails. -/
def FallsBack (settings : Settings) (plan : Plan) (previous : Option Text) : Prop :=
  ∃ code error, Patchable settings previous code ∧ (patch settings code plan).1 = .error error

/-- Where the source for a plan comes from: all of it from a patch, or all of it from the plan. -/
inductive Sourced (settings : Settings) (plan : Plan) (previous : Option Text) :
    Text → Bool → Prop where
  | patched {code source : Text} (patchable : Patchable settings previous code)
      (patches : (patch settings code plan).1 = .ok source) :
      Sourced settings plan previous source true
  | rendered (unpatched : previous = none ∨ previous = some [] ∨ settings.enablePatching = false ∨
      FallsBack settings plan previous) :
      Sourced settings plan previous (Page.render settings.frame plan) false

/-- What the last two stages make of a plan and its source. -/
inductive Concluded (settings : Settings) (request : String) (plan : Plan) (source : Text)
    (patched : Bool) : Except RunCause Outcome → Prop where
  | refused {faults : List SafetyFault}
      (faulty : Safety.check settings.componentImportPath source = .error faults) :
      Concluded settings request plan source patched (.error (.unsafeSource faults))
  | unexplained {error : ExplanationError}
      (safe : Safety.check settings.componentImportPath source = .ok source)
      (broken : Explanation.explain settings.maxExplanationWords request plan plan.modifications =
        .error error) :
      Concluded settings request plan source patched (.error (.explanation error))
  | delivered {explanation : String}
      (safe : Safety.check settings.componentImportPath source = .ok source)
      (explained : Explanation.explain settings.maxExplanationWords request plan plan.modifications =
        .ok explanation) :
      Concluded settings request plan source patched (.ok ⟨plan, source, explanation, patched⟩)

/-- The request is accepted and the plan made for it passes the check, so that source is
generated for it. -/
def Generates (settings : Settings) (intent : Value) (basis : Option Plan) (request : String)
    (plan : Plan) : Prop :=
  Request.ofValue settings intent = .ok request ∧ plan = Plan.next request.toList basis ∧
    Plan.validate plan = .ok plan

/-- The ways in which a run can go. -/
inductive Course (settings : Settings) (intent : Value) (basis : Option Plan)
    (previous : Option Text) : Except RunCause Outcome → Prop where
  | rejected {fault : ShapeFault} (rejects : Request.ofValue settings intent = .error fault) :
      Course settings intent basis previous (.error (.request fault))
  | invalid {request : String} {error : PlanError}
      (accepts : Request.ofValue settings intent = .ok request)
      (refuses : Plan.validate (Plan.next request.toList basis) = .error error) :
      Course settings intent basis previous (.error (.plan error))
  | generated {request : String} {plan : Plan} {source : Text} {patched : Bool}
      {result : Except RunCause Outcome}
      (generates : Generates settings intent basis request plan)
      (sourced : Sourced settings plan previous source patched)
      (concluded : Concluded settings request plan source patched result) :
      Course settings intent basis previous result

/-- The stages in the order in which a run enters them. Validation comes twice, for the request and
for the plan. -/
def itinerary : List Stage :=
  [.validation, .planning, .validation, .generation, .safety, .explanation]

def entered : Except RunCause Outcome → Nat
  | .error (.request _) => 1
  | .error (.plan _) => 3
  | .error (.unsafeSource _) => 5
  | .error (.explanation _) => 6
  | .ok _ => 6

def entries (result : Except RunCause Outcome) : List Event :=
  (itinerary.take (entered result)).map fun stage => .stage stage.name

/-- The stages that a run enters before its source is generated. -/
def preparation : Nat := 3

/-- What a run records at its stages. What generation records stands before the entry of
generation itself. -/
def record (made : List Event) (result : Except RunCause Outcome) : List Event :=
  (entries result).take preparation ++ made ++ (entries result).drop preparation

def mode (basis : Option Plan) : String :=
  if basis.isSome then "modify" else "create"

def status : Except RunCause Outcome → String
  | .ok _ => "success"
  | .error _ => "error"

/-- The stage at which a run failed, if it did. -/
def failing? : Except RunCause Outcome → Option Stage
  | .ok _ => none
  | .error cause => some cause.stage

/-- The events that generation records when it tries a patch. -/
def IsPatchEvent (event : Event) : Prop :=
  event = .fallback ∨ ∃ kind, event = .operation kind

/-- Generation either has nothing to patch, or it patches, or it falls back. -/
theorem generate_cases (settings : Settings) (plan : Plan) (previous : Option Text) :
    ((previous = none ∨ previous = some [] ∨ settings.enablePatching = false) ∧
        generate settings plan (previous.getD []) = ((Page.render settings.frame plan, false), [])) ∨
      (∃ code source, Patchable settings previous code ∧
        (patch settings code plan).1 = .ok source ∧
        generate settings plan (previous.getD []) = ((source, true), (patch settings code plan).2)) ∨
      ∃ code error, Patchable settings previous code ∧
        (patch settings code plan).1 = .error error ∧
        generate settings plan (previous.getD []) =
          ((Page.render settings.frame plan, false),
            (patch settings code plan).2 ++ [.fallback]) := by
  cases previous with
  | none => exact .inl ⟨.inl rfl, rfl⟩
  | some code =>
      rw [Option.getD_some, generate]
      split
      · rename_i hOff
        rw [Bool.or_eq_true, List.isEmpty_iff, Bool.not_eq_true'] at hOff
        exact .inl ⟨.inr (hOff.imp_left (congrArg some)), rfl⟩
      · rename_i hOn
        rw [Bool.or_eq_true, List.isEmpty_iff, Bool.not_eq_true', not_or, Bool.not_eq_false] at hOn
        rcases hPatch : patch settings code plan with ⟨error | source, events⟩
        · exact .inr (.inr ⟨code, error, ⟨rfl, hOn⟩, by rw [hPatch], by rw [hPatch]⟩)
        · exact .inr (.inl ⟨code, source, ⟨rfl, hOn⟩, by rw [hPatch], by rw [hPatch]⟩)

/-- The text of the generation is a patch of the previous text or the compiled page, and the events
say which. -/
theorem sourced_generate :
    Sourced settings plan previous (generate settings plan (previous.getD [])).1.1
      (generate settings plan (previous.getD [])).1.2 := by
  rcases generate_cases settings plan previous with
    ⟨hUnpatchable, hGenerate⟩ | ⟨code, source, hPatchable, hPatch, hGenerate⟩ |
      ⟨code, error, hPatchable, hPatch, hGenerate⟩ <;> rw [hGenerate]
  · exact .rendered (hUnpatchable.imp_right (Or.imp_right .inl))
  · exact .patched hPatchable hPatch
  · exact .rendered (.inr (.inr (.inr ⟨code, error, hPatchable, hPatch⟩)))

/-- Patching counts operations and nothing else. -/
theorem operation_of_mem_patch {code : Text} {event : Event}
    (h : event ∈ (patch settings code plan).2) : ∃ kind, event = .operation kind := by
  rw [patch] at h
  split at h
  · cases h
  · obtain ⟨operation, -, rfl⟩ := List.mem_map.mp h
    exact ⟨operation.kindName, rfl⟩

theorem isPatchEvent_of_mem_generate {event : Event}
    (h : event ∈ (generate settings plan (previous.getD [])).2) : IsPatchEvent event := by
  rcases generate_cases settings plan previous with
    ⟨-, hGenerate⟩ | ⟨code, source, -, -, hGenerate⟩ | ⟨code, error, -, -, hGenerate⟩ <;>
      rw [hGenerate] at h
  · cases h
  · exact .inr (operation_of_mem_patch h)
  · rcases List.mem_append.mp h with h | h
    · exact .inr (operation_of_mem_patch h)
    · exact .inl (List.mem_singleton.mp h)

/-- Patching itself counts no fallback; that is left to the generation around it. -/
theorem count_fallback_patch (code : Text) :
    (patch settings code plan).2.count .fallback = 0 := by
  rw [List.count_eq_zero]
  intro hMem
  obtain ⟨kind, hKind⟩ := operation_of_mem_patch hMem
  cases hKind

/-- Generation records one fallback if the patch is tried and fails, and none otherwise. -/
theorem count_fallback_generate :
    (generate settings plan (previous.getD [])).2.count .fallback = 1 ∧
        FallsBack settings plan previous ∨
      (generate settings plan (previous.getD [])).2.count .fallback = 0 ∧
        ¬ FallsBack settings plan previous := by
  rcases generate_cases settings plan previous with
    ⟨hUnpatchable, hGenerate⟩ | ⟨code, source, ⟨hCode, -⟩, hPatch, hGenerate⟩ |
      ⟨code, error, hPatchable, hPatch, hGenerate⟩ <;> rw [hGenerate]
  · refine .inr ⟨rfl, fun ⟨code, _, ⟨hCode, hFilled, hOn⟩, _⟩ => ?_⟩
    rcases hUnpatchable with hNone | hEmpty | hOff
    · exact absurd (hNone.symm.trans hCode) (by simp)
    · exact hFilled (Option.some.inj (hCode.symm.trans hEmpty))
    · exact absurd (hOff.symm.trans hOn) (by decide)
  · refine .inr ⟨count_fallback_patch code, fun ⟨other, _, ⟨hOther, _⟩, hError⟩ => ?_⟩
    cases hCode.symm.trans hOther
    cases hPatch.symm.trans hError
  · refine .inl ⟨?_, code, error, hPatchable, hPatch⟩
    rw [List.count_append, count_fallback_patch]
    rfl

/-- A delivery enters each of its stages once, in order, and the patch events come before the stages
behind the generation. -/
theorem deliver_eq (settings : Settings) (request : String) (plan : Plan) (code : Text) :
    Concluded settings request plan (generate settings plan code).1.1
        (generate settings plan code).1.2 (deliver settings request plan code).1 ∧
      (deliver settings request plan code).2 = (generate settings plan code).2 ++
        (entries (deliver settings request plan code).1).drop preparation ∧
      (entries (deliver settings request plan code).1).take preparation =
        [.stage Stage.validation.name, .stage Stage.planning.name,
          .stage Stage.validation.name] := by
  rw [deliver]
  rcases generate settings plan code with ⟨⟨source, patched⟩, events⟩
  dsimp only
  split
  · rename_i faults hFaults
    exact ⟨.refused hFaults, rfl, rfl⟩
  · rename_i hSafe
    obtain ⟨-, rfl⟩ := Safety.check_eq_ok_iff.mp hSafe
    split
    · rename_i error hError
      exact ⟨.unexplained hSafe hError, by rw [List.append_assoc]; rfl, rfl⟩
    · rename_i explanation hExplanation
      exact ⟨.delivered hSafe hExplanation, by rw [List.append_assoc]; rfl, rfl⟩

variable (settings) (previous)

/-- The stages of a run take one of its courses. What generation records is missing exactly if no
plan gets that far. -/
theorem stages_eq (intent : Value) (basis : Option Plan) :
    Course settings intent basis previous (stages settings intent basis (previous.getD [])).1 ∧
      ∃ made, (stages settings intent basis (previous.getD [])).2 =
          record made (stages settings intent basis (previous.getD [])).1 ∧
        ((made = [] ∧ ∀ request plan, ¬ Generates settings intent basis request plan) ∨
          ∃ request plan, Generates settings intent basis request plan ∧
            made = (generate settings plan (previous.getD [])).2) := by
  rw [stages]
  split
  · rename_i fault hFault
    refine ⟨.rejected hFault, [], rfl, .inl ⟨rfl, fun request plan hGenerates => ?_⟩⟩
    cases hFault.symm.trans hGenerates.1
  · rename_i request hRequest
    dsimp only
    split
    · rename_i error hError
      refine ⟨.invalid hRequest hError, [], rfl, .inl ⟨rfl, fun other plan hGenerates => ?_⟩⟩
      obtain ⟨hOther, rfl, hValid⟩ := hGenerates
      cases hRequest.symm.trans hOther
      cases hError.symm.trans hValid
    · rename_i checked hChecked
      -- The one course on which a plan gets to the generation.
      cases validate_eq_ok hChecked
      have hGenerates : Generates settings intent basis request (Plan.next request.toList basis) :=
        ⟨hRequest, rfl, hChecked⟩
      obtain ⟨hConcluded, hEvents, hPrepared⟩ := deliver_eq settings request
        (Plan.next request.toList basis) (previous.getD [])
      refine ⟨.generated hGenerates sourced_generate hConcluded, _, ?_,
        .inr ⟨request, _, hGenerates, rfl⟩⟩
      dsimp only
      rw [record, hEvents, hPrepared, List.append_assoc]

def closing (basis : Option Plan) (result : Except RunCause Outcome) : List Event :=
  .request (mode basis) (status result) ::
    (failing? result).toList.map fun stage => .failure stage.name

/-- The events of a run are those of its stages, then the ones of its end. -/
theorem events_run (intent : Value) (basis : Option Plan) :
    (run settings intent basis previous).2 =
      (stages settings intent basis (previous.getD [])).2 ++
        closing basis (run settings intent basis previous).1 := by
  rw [run]
  rcases stages settings intent basis (previous.getD []) with ⟨error | outcome, events⟩
  · rfl
  · rfl

variable {settings} {previous}

/-- Counting an event in a record adds what the stages made to what the entries say. -/
theorem count_record (made : List Event) (result : Except RunCause Outcome) (event : Event) :
    (record made result).count event = (entries result).count event + made.count event := by
  rw [record, List.count_append, List.count_append, Nat.add_right_comm, ← List.count_append,
    List.take_append_drop]

/-- A stage is counted as often as it stands in the part of the itinerary that was entered. -/
theorem count_entries (result : Except RunCause Outcome) (name : String) :
    (entries result).count (.stage name) =
      ((itinerary.take (entered result)).map Stage.name).count name := by
  have hStage : Function.Injective Event.stage := fun _ _ h => Event.stage.inj h
  rw [entries, ← List.count_map_of_injective _ _ hStage, List.map_map]
  rfl

/-- The entries are stage events only. -/
theorem count_entries_eq_zero (result : Except RunCause Outcome) {event : Event}
    (h : ∀ name, event ≠ .stage name) : (entries result).count event = 0 := by
  rw [List.count_eq_zero]
  intro hMem
  obtain ⟨stage, -, hStage⟩ := List.mem_map.mp hMem
  exact h _ hStage.symm

/-- One request event closes a run, with the mode and the status of this run. -/
theorem count_closing_request (basis : Option Plan) (result : Except RunCause Outcome)
    (label outcome : String) : (closing basis result).count (.request label outcome) =
      if label = mode basis ∧ outcome = status result then 1 else 0 := by
  have hOrder : (mode basis = label ∧ status result = outcome) ↔
      label = mode basis ∧ outcome = status result := by
    rw [eq_comm, @eq_comm _ (status result)]
  rcases result with cause | _ <;> simp [closing, failing?, List.count_cons, hOrder]

/-- A failure is counted exactly when the run failed, for the stage it failed in. -/
theorem count_closing_failure (basis : Option Plan) (result : Except RunCause Outcome)
    (name : String) : (closing basis result).count (.failure name) =
      if (failing? result).map Stage.name = some name then 1 else 0 := by
  rcases result with cause | _ <;> simp [closing, failing?, List.count_cons]

theorem count_closing_eq_zero (basis : Option Plan) (result : Except RunCause Outcome)
    {event : Event} (hRequest : ∀ label outcome, event ≠ .request label outcome)
    (hFailure : ∀ name, event ≠ .failure name) : (closing basis result).count event = 0 := by
  rw [List.count_eq_zero, closing]
  intro hMem
  rcases List.mem_cons.mp hMem with h | h
  · exact hRequest _ _ h
  · obtain ⟨stage, -, hStage⟩ := List.mem_map.mp h
    exact hFailure _ hStage.symm

/-- What a run from a plan and its source amounts to, and what the counters say of it afterwards. -/
structure Account (settings : Settings) (intent : Value) (basis : Option Plan)
    (previous : Option Text) (recorded : Recorded (Except RunCause Outcome)) : Prop where
  course : Course settings intent basis previous recorded.1
  failing : ∀ stage ∈ failing? recorded.1,
    stage = .validation ∨ stage = .safety ∨ stage = .explanation
  requests : ∀ label outcome, recorded.2.count (.request label outcome) =
    if label = mode basis ∧ outcome = status recorded.1 then 1 else 0
  failures : ∀ name, recorded.2.count (.failure name) =
    if (failing? recorded.1).map Stage.name = some name then 1 else 0
  stages : ∀ name, recorded.2.count (.stage name) =
    ((itinerary.take (entered recorded.1)).map Stage.name).count name
  last : (itinerary.take (entered recorded.1)).getLast? =
    some ((failing? recorded.1).getD .explanation)
  complete : failing? recorded.1 = none → itinerary.take (entered recorded.1) = itinerary
  fallbacks : recorded.2.count .fallback = 1 ∧
      (∃ request plan, Generates settings intent basis request plan ∧
        FallsBack settings plan previous) ∨
    recorded.2.count .fallback = 0 ∧
      ∀ request plan, Generates settings intent basis request plan →
        ¬ FallsBack settings plan previous

/-- The plan of a run is determined. -/
theorem Generates.unique {intent : Value} {basis : Option Plan} {request other : String}
    {plan next : Plan} (h : Generates settings intent basis request plan)
    (hOther : Generates settings intent basis other next) : next = plan := by
  obtain ⟨hRequest, rfl, -⟩ := h
  obtain ⟨hNext, rfl, -⟩ := hOther
  cases hRequest.symm.trans hNext
  rfl

/-- The last stage entered is the one that failed, or the explanation. -/
theorem getLast?_itinerary (result : Except RunCause Outcome) :
    (itinerary.take (entered result)).getLast? = some ((failing? result).getD .explanation) := by
  rcases result with (_ | _ | _ | _) | _ <;> rfl

/-- Only three of the stages can fail; planning and generation give a result on every input. -/
theorem failing_stage {result : Except RunCause Outcome} {stage : Stage}
    (h : stage ∈ failing? result) :
    stage = .validation ∨ stage = .safety ∨ stage = .explanation := by
  rcases result with cause | _
  · cases h
    cases cause with
    | request => exact .inl rfl
    | plan => exact .inl rfl
    | unsafeSource => exact .inr (.inl rfl)
    | explanation => exact .inr (.inr rfl)
  · cases h

/-- A run that finished has entered every stage. -/
theorem take_itinerary_of_finished {result : Except RunCause Outcome} (h : failing? result = none) :
    itinerary.take (entered result) = itinerary := by
  rcases result with cause | _
  · cases h
  · rfl

/-- A run keeps its accounts. It ends with a result or fails at validation, at the safety check or at
the explanation; its source is all patched or all rendered; and it records one request, each stage
that it entered, the stage at which it failed, and a fallback if a patch was tried and failed. -/
theorem account_run (settings : Settings) (intent : Value) (basis : Option Plan)
    (previous : Option Text) :
    Account settings intent basis previous (run settings intent basis previous) := by
  obtain ⟨hCourse, made, hRecord, hMade⟩ := stages_eq settings previous intent basis
  have hEvents := events_run settings previous intent basis
  rw [hRecord, ← result_run] at hEvents
  rw [← result_run] at hCourse
  have hPatch : ∀ event ∈ made, IsPatchEvent event := by
    rcases hMade with ⟨rfl, -⟩ | ⟨request, plan, -, rfl⟩
    · exact fun _ h => absurd h List.not_mem_nil
    · exact fun _ h => isPatchEvent_of_mem_generate h
  have hOther {event : Event} (h : ¬ IsPatchEvent event) : made.count event = 0 :=
    List.count_eq_zero.mpr fun hMem => h (hPatch event hMem)
  have hCount (event : Event) : (run settings intent basis previous).2.count event =
      (entries (run settings intent basis previous).1).count event + made.count event +
        (closing basis (run settings intent basis previous).1).count event := by
    rw [hEvents, List.count_append, count_record]
  refine ⟨hCourse, fun stage hStage => failing_stage hStage, fun label outcome => ?_,
    fun name => ?_, fun name => ?_, getLast?_itinerary _, take_itinerary_of_finished, ?_⟩
  · rw [hCount, count_entries_eq_zero _ (by simp), hOther (by simp [IsPatchEvent]),
      count_closing_request, Nat.zero_add]
  · rw [hCount, count_entries_eq_zero _ (by simp), hOther (by simp [IsPatchEvent]),
      count_closing_failure, Nat.zero_add]
  · rw [hCount, count_entries, hOther (by simp [IsPatchEvent]),
      count_closing_eq_zero _ _ (by simp) (by simp), Nat.add_zero]
  · rw [hCount, count_entries_eq_zero _ (by simp), count_closing_eq_zero _ _ (by simp) (by simp),
      Nat.zero_add, Nat.add_zero]
    rcases hMade with ⟨rfl, hNone⟩ | ⟨request, plan, hGenerates, rfl⟩
    · exact .inr ⟨rfl, fun request plan hGenerates => absurd hGenerates (hNone request plan)⟩
    · refine count_fallback_generate.imp (And.imp_right fun h => ⟨request, plan, hGenerates, h⟩)
        (And.imp_right fun h other next hNext => ?_)
      rwa [hGenerates.unique hNext]

end Pipeline
end Wireframe
