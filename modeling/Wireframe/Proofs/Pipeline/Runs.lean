import Wireframe.Pipeline

/-! What a finished run says about its stages. A run that succeeds has passed every stage, and the
plan check can refuse a run only for the plan that was made. -/
namespace Wireframe
namespace Pipeline

def sampleSettings : Settings :=
  ⟨"INFO", false, 3, 500, 300, true, .combined, "@/components/ui", "GeneratedUI", 50⟩

variable {settings : Settings} {intent : Value} {previous : Option Plan} {code : Option Text}

/-- Validation returns the plan it was given or an error. -/
theorem validate_eq_ok {plan checked : Plan} (h : Plan.validate plan = .ok checked) :
    checked = plan := by
  rw [Plan.validate] at h
  cases hCheck : Plan.check plan.toValue with
  | error error =>
      rw [hCheck] at h
      cases h
  | ok =>
      rw [hCheck] at h
      exact (Except.ok.inj h).symm

/-- A run only adds events to its stages. -/
theorem result_run :
    (run settings intent previous code).1 =
      (stages settings intent previous (code.getD [])).1 := by
  rw [run]
  rcases stages settings intent previous (code.getD []) with ⟨_ | _, _⟩ <;> rfl

/-- An outcome passed every stage for a request. -/
structure Passed (settings : Settings) (request : String) (previous : Option Plan)
    (code : Text) (outcome : Outcome) : Prop where
  plan : outcome.plan = Plan.next request.toList previous
  valid : Plan.validate outcome.plan = .ok outcome.plan
  generated : (generate settings outcome.plan code).1 = (outcome.code, outcome.patched)
  safe : Safety.check settings.componentImportPath outcome.code = .ok outcome.code
  explained : Explanation.explain settings.maxExplanationWords request outcome.plan
    outcome.plan.modifications = .ok outcome.explanation

/-- What is delivered was generated, is safe and is explained. -/
theorem deliver_eq_ok {request : String} {plan : Plan} {code : Text} {outcome : Outcome}
    (h : (deliver settings request plan code).1 = .ok outcome) :
    outcome.plan = plan ∧
      (generate settings plan code).1 = (outcome.code, outcome.patched) ∧
      Safety.check settings.componentImportPath outcome.code = .ok outcome.code ∧
      Explanation.explain settings.maxExplanationWords request plan plan.modifications =
        .ok outcome.explanation := by
  rw [deliver] at h
  rcases hGenerate : generate settings plan code with ⟨⟨generated, patched⟩, events⟩
  simp only [hGenerate] at h
  split at h
  · cases h
  · rename_i hSafe
    obtain ⟨-, rfl⟩ := Safety.check_eq_ok_iff.mp hSafe
    split at h
    · cases h
    · rename_i explanation hExplain
      cases h
      exact ⟨rfl, rfl, hSafe, hExplain⟩

/-- A run that succeeds passed every stage for the request it accepted. -/
theorem passed_of_run {outcome : Outcome}
    (h : (run settings intent previous code).1 = .ok outcome) :
    ∃ request, Request.ofValue settings intent = .ok request ∧
      Passed settings request previous (code.getD []) outcome := by
  rw [result_run, stages] at h
  split at h
  · cases h
  · rename_i request hRequest
    dsimp only at h
    split at h
    · cases h
    · rename_i checked hValid
      cases validate_eq_ok hValid
      obtain ⟨hPlan, hGenerated, hSafe, hExplained⟩ := deliver_eq_ok h
      refine ⟨request, hRequest, hPlan, ?_, ?_, hSafe, ?_⟩
      · exact hPlan ▸ hValid
      · exact hPlan ▸ hGenerated
      · exact hPlan ▸ hExplained

/-- An outcome that passes every stage for an accepted request is what the run gives. -/
theorem run_of_passed {request : String} {outcome : Outcome}
    (hRequest : Request.ofValue settings intent = .ok request)
    (h : Passed settings request previous (code.getD []) outcome) :
    (run settings intent previous code).1 = .ok outcome := by
  obtain ⟨plan, generated, explanation, patched⟩ := outcome
  obtain ⟨rfl, hValid, hGenerated, hSafe, hExplained⟩ := h
  rw [result_run, stages, hRequest]
  dsimp only at hValid hGenerated hSafe hExplained ⊢
  rcases hGenerate : generate settings (Plan.next request.toList previous) (code.getD []) with
    ⟨⟨_, _⟩, events⟩
  cases hGenerate ▸ hGenerated
  simp only [hValid, deliver, hGenerate, hSafe, hExplained]

/-- What a run from scratch gives for a request: the plan and its page. -/
def fromScratch (settings : Settings) (request : String) : Outcome :=
  let plan := Plan.next request.toList none
  ⟨plan, Page.render settings.frame plan,
    "\n\n".intercalate (Explanation.paragraphs request plan plan.modifications), false⟩

theorem run_fromScratch {request : String}
    (hRequest : Request.ofValue settings intent = .ok request)
    (hValid : Plan.validate (Plan.next request.toList none) = .ok (Plan.next request.toList none))
    (hSafe : Safety.faults settings.componentImportPath (fromScratch settings request).code = [])
    (hExplained : Explanation.check settings.maxExplanationWords
      (fromScratch settings request).explanation = .ok ()) :
    (run settings intent none none).1 = .ok (fromScratch settings request) := by
  refine run_of_passed hRequest ⟨rfl, hValid, rfl, ?_, ?_⟩
  · exact Safety.check_eq_ok_iff.mpr ⟨hSafe, rfl⟩
  · dsimp only [fromScratch] at hExplained ⊢
    rw [Explanation.explain, hExplained]
    rfl

/-- The plan check refuses a run for the plan that was made. -/
theorem refused_of_run {error : PlanError}
    (h : (run settings intent previous code).1 = .error (.plan error)) :
    ∃ request, Request.ofValue settings intent = .ok request ∧
      Plan.validate (Plan.next request.toList previous) = .error error := by
  rw [result_run, stages] at h
  split at h
  · cases h
  · rename_i request hRequest
    dsimp only at h
    split at h
    · rename_i cause hRefused
      cases h
      exact ⟨request, hRequest, hRefused⟩
    · exfalso
      revert h
      simp only [deliver]
      split
      · simp
      · split <;> simp

end Pipeline
end Wireframe
