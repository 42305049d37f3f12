import Wireframe.Proofs.History.Records
import Wireframe.Proofs.Page.Unsuspicious
import Wireframe.Proofs.Pipeline.Runs

/-! Sessions: pages made from scratch, follow-ups on stored versions, and ways back, in any order.
What a session has stored passed every stage of a run, and its versions are numbered from one on
without a gap. -/
namespace Wireframe

variable {σ τ : Type} {settings : Settings}

/-- What a stored version keeps of the stages that it passed. -/
structure Version.Sound (settings : Settings) (version : Version σ) : Prop where
  plan : Plan.validate version.plan = .ok version.plan
  code : Safety.faults settings.componentImportPath version.code = []
  explanation : Explanation.check settings.maxExplanationWords version.explanation = .ok ()

namespace Explanation

/-- An explanation is only given out after it passed its own check. -/
theorem check_of_explain {limit : Int} {request text : String} {plan : Plan}
    {modifications : List String} (h : explain limit request plan modifications = .ok text) :
    check limit text = .ok () := by
  rw [explain] at h
  generalize "\n\n".intercalate (paragraphs request plan modifications) = written at h
  cases hCheck : check limit written with
  | error error =>
      rw [hCheck] at h
      cases h
  | ok passed =>
      rw [hCheck] at h
      cases h
      exact hCheck

end Explanation

namespace History

variable {history after : History σ} {stored : Version σ} {error : HistoryError}

/-- The history after the result of a run for an instruction, which only an outcome enters. -/
def enter (history : History σ) (intent : String) :
    Except RunCause Outcome → Except HistoryError (Version σ × History σ)
  | .ok outcome => history.store intent outcome
  | .error cause => .error (.run cause)

/-- A page from scratch is what a run on nothing gives, entered into the history. -/
theorem generate_eq (intent : String) : generate settings history intent =
    history.enter intent (Pipeline.run settings (.text intent) none none).1 := by
  rw [generate]
  split <;> simp_all [enter]

/-- A follow-up is what a run on the plan and the source of its version gives. Nothing else of the
history goes into it. -/
theorem iterate_eq {number : Int} {base : Version σ} (h : history.get number = .ok base)
    (intent : String) : iterate settings history number intent = history.enter intent
      (Pipeline.run settings (.text intent) (some base.plan) (some base.code)).1 := by
  rw [iterate, h]
  dsimp only
  split <;> simp_all [enter]

/-- An outcome always enters: the next number is not taken. -/
theorem enter_ok (history : History σ) (intent : String) (outcome : Outcome) : ∃ after stored,
    history.enter intent (.ok outcome) = .ok (stored, after) ∧
      history.append ⟨history.nextNumber, intent, outcome.plan, outcome.code, outcome.explanation,
        none, false⟩ = .ok (stored, after) ∧
      stored = history.entered ⟨history.nextNumber, intent, outcome.plan, outcome.code,
        outcome.explanation, none, false⟩ := by
  let version : Version σ :=
    ⟨history.nextNumber, intent, outcome.plan, outcome.code, outcome.explanation, none, false⟩
  have hFresh : version.number ∉ history.numbers := nextNumber_not_mem
  obtain ⟨after, hAppend, -⟩ := append_of_fresh hFresh
  exact ⟨after, _, hAppend, hAppend, rfl⟩

/-- What a result holds apart from its place in the history. -/
def content : Version σ × History σ → Plan × Text × String
  | (version, _) => (version.plan, version.code, version.explanation)

/-- What enters does not depend on the history. -/
theorem content_enter (intent : String) (result : Except RunCause Outcome) :
    (history.enter intent result).map content = (result.mapError HistoryError.run).map fun outcome =>
      (outcome.plan, outcome.code, outcome.explanation) := by
  cases result with
  | error cause => rfl
  | ok outcome =>
      obtain ⟨after, stored, hEnter, -, rfl⟩ := enter_ok history intent outcome
      rw [hEnter]
      rfl

/-- A request to a session: a page from scratch, a follow-up on a version, or a way back to one. -/
inductive Demand where
  | generate (intent : String)
  | iterate (number : Int) (intent : String)
  | rollback (number : Int)
deriving DecidableEq

namespace Demand

/-- The version that a request answers and the history after it, or why it fails. -/
def perform (settings : Settings) (history : History σ) :
    Demand → Except HistoryError (Version σ × History σ)
  | .generate intent => history.generate settings intent
  | .iterate number intent => history.iterate settings number intent
  | .rollback number => history.activate number

def isNew : Demand → Bool
  | .generate _ | .iterate _ _ => true
  | .rollback _ => false

end Demand

/-- The history after a request. A request that fails changes nothing. -/
def serve (settings : Settings) (history : History σ) (demand : Demand) : History σ :=
  match demand.perform settings history with
  | .ok (_, after) => after
  | .error _ => history

def session (settings : Settings) (history : History σ) (demands : List Demand) : History σ :=
  demands.foldl (serve settings) history

/-- What makes a new version: a run that succeeded, whose outcome entered. -/
theorem exists_run_of_perform {demand : Demand} (hNew : demand.isNew = true)
    (h : demand.perform settings history = .ok (stored, after)) :
    ∃ intent previous code outcome,
      (Pipeline.run settings (.text intent) previous code).1 = .ok outcome ∧
        history.enter intent (.ok outcome) = .ok (stored, after) := by
  have hEntered {intent : String} {previous : Option Plan} {code : Option Text}
      (hEnter : history.enter intent (Pipeline.run settings (.text intent) previous code).1 =
        .ok (stored, after)) : ∃ intent previous code outcome,
      (Pipeline.run settings (.text intent) previous code).1 = .ok outcome ∧
        history.enter intent (.ok outcome) = .ok (stored, after) := by
    cases hRun : (Pipeline.run settings (.text intent) previous code).1 with
    | error cause =>
        rw [hRun] at hEnter
        cases hEnter
    | ok outcome => exact ⟨intent, previous, code, outcome, hRun, hRun ▸ hEnter⟩
  cases demand with
  | generate intent => exact hEntered ((generate_eq intent).symm.trans h)
  | iterate number intent =>
      cases hGet : history.get number with
      | error cause =>
          rw [Demand.perform, iterate, hGet] at h
          cases h
      | ok base => exact hEntered ((iterate_eq hGet intent).symm.trans h)
  | rollback number => cases hNew

/-- Why a request fails: its run fails, or the version that it names is not stored. -/
theorem failure_of_perform {demand : Demand} (h : demand.perform settings history = .error error) :
    (∃ cause, error = .run cause) ∨ ∃ number, error = .notFound number ∧
      number ∉ history.numbers := by
  have hEntered {intent : String} {result : Except RunCause Outcome}
      (hEnter : history.enter intent result = .error error) : ∃ cause, error = .run cause := by
    cases result with
    | error cause =>
        cases hEnter
        exact ⟨cause, rfl⟩
    | ok outcome =>
        obtain ⟨after, stored, hStored, -⟩ := enter_ok history intent outcome
        cases hStored.symm.trans hEnter
  cases demand with
  | generate intent => exact .inl (hEntered ((generate_eq intent).symm.trans h))
  | iterate number intent =>
      cases hGet : history.get number with
      | error cause =>
          rw [Demand.perform, iterate, hGet] at h
          cases h
          exact .inr ⟨number, get_eq_error_iff.mp hGet⟩
      | ok base => exact .inl (hEntered ((iterate_eq hGet intent).symm.trans h))
  | rollback number => exact .inr ⟨number, activate_eq_error_iff.mp h⟩

/-- A history made by runs under some settings: its numbers count from one, and each version passed
every stage. -/
structure Faithful (settings : Settings) (history : History σ) : Prop where
  numbers : history.numbers = (List.range history.versions.length).map fun i : Nat => (i + 1 : Int)
  sound : ∀ v ∈ history.versions, v.Sound settings
  coherent : ∃ last, Coherent history last

/-- Where sessions start. -/
theorem faithful_empty (settings : Settings) (clock : Nat → σ) :
    Faithful settings (empty clock) :=
  ⟨rfl, List.forall_mem_nil _, none, coherent_empty clock⟩

/-- Counted from one, the greatest number is how many there are. -/
theorem greatest_of_count (n : Nat) :
    ((List.range n).map fun i : Nat => (i + 1 : Int)).foldl max 0 = n := by
  induction n with
  | zero => rfl
  | succ n ih =>
      rw [List.range_succ, List.map_append, List.foldl_append, ih]
      simp only [List.map_singleton, List.foldl_cons, List.foldl_nil]
      omega

namespace Faithful

/-- In a faithful history the next number is the count and one, so that numbers have no gaps. -/
theorem nextNumber (h : Faithful settings history) :
    history.nextNumber = history.versions.length + 1 := by
  have hGreatest : history.versions.foldl (fun greatest v => max greatest v.number) 0 =
      history.numbers.foldl max 0 := by
    rw [History.numbers, List.foldl_map]
  rw [History.nextNumber, hGreatest, h.numbers, greatest_of_count]

/-- A new version follows the others and passed every stage. -/
theorem new {demand : Demand} (h : Faithful settings history) (hNew : demand.isNew = true)
    (hPerform : demand.perform settings history = .ok (stored, after)) :
    Faithful settings after ∧ stored.number = history.versions.length + 1 ∧
      stored.active = true ∧ after.versions = history.records ++ [stored] := by
  obtain ⟨intent, previous, code, outcome, hRun, hEnter⟩ := exists_run_of_perform hNew hPerform
  obtain ⟨next, entry, hEntered, hAppend, hEntry⟩ := enter_ok history intent outcome
  cases hEntered.symm.trans hEnter
  obtain ⟨-, -, hVersions⟩ := append_eq_ok hAppend
  obtain ⟨request, -, hPassed⟩ := Pipeline.passed_of_run hRun
  obtain ⟨last, hCoherent⟩ := h.coherent
  have hSound : stored.Sound settings := hEntry ▸
    ⟨hPassed.valid, (Safety.check_eq_ok_iff.mp hPassed.safe).1,
      Explanation.check_of_explain hPassed.explained⟩
  refine ⟨⟨?_, ?_, _, hCoherent.append hAppend⟩, hEntry ▸ h.nextNumber, hEntry ▸ rfl, hVersions⟩
  · have hLength : after.versions.length = history.versions.length + 1 := by
      simp [hVersions, records]
    rw [numbers_append hAppend, h.numbers, hLength, List.range_succ, List.map_append]
    exact congrArg _ (congrArg List.singleton h.nextNumber)
  · rw [hVersions, List.forall_mem_append, List.forall_mem_singleton]
    refine ⟨fun v hv => ?_, hSound⟩
    obtain ⟨w, hw, rfl⟩ := List.mem_map.mp hv
    exact ⟨(h.sound w hw).plan, (h.sound w hw).code, (h.sound w hw).explanation⟩

/-- Going back to a version changes no version. -/
theorem activate {number : Int} (h : Faithful settings history)
    (hActivate : history.activate number = .ok (stored, after)) : Faithful settings after := by
  obtain ⟨last, hCoherent⟩ := h.coherent
  have hAfter := hCoherent.activate hActivate
  obtain ⟨-, -, rfl, -⟩ := activate_eq_ok hActivate
  refine ⟨?_, ?_, _, hAfter⟩
  · rw [numbers_markActive, h.numbers]
    simp [markActive]
  · rw [markActive, List.forall_mem_map]
    exact fun v hv => ⟨(h.sound v hv).plan, (h.sound v hv).code, (h.sound v hv).explanation⟩

/-- A request keeps a history faithful, whether it succeeds or fails. -/
theorem serve (h : Faithful settings history) (demand : Demand) :
    Faithful settings (serve settings history demand) := by
  rw [History.serve]
  split
  · rename_i hPerform
    cases demand with
    | rollback number => exact h.activate hPerform
    | generate intent => exact (h.new rfl hPerform).1
    | iterate number intent => exact (h.new rfl hPerform).1
  · exact h

/-- The run lemma: a history stays faithful through any row of requests, those that fail included. -/
theorem session {demands : List Demand} : ∀ {history : History σ}, Faithful settings history →
    Faithful settings (session settings history demands) := by
  induction demands with
  | nil => exact id
  | cons demand rest ih => exact fun h => ih (h.serve demand)

end Faithful

@[simp] theorem session_nil : session settings history [] = history := rfl

@[simp] theorem session_cons (demand : Demand) (rest : List Demand) :
    session settings history (demand :: rest) =
      session settings (serve settings history demand) rest := rfl

theorem serve_of_ok {demand : Demand} (h : demand.perform settings history = .ok (stored, after)) :
    serve settings history demand = after := by
  rw [serve, h]

/-- A request that fails leaves the history as it was, the clock included. -/
theorem serve_of_error {demand : Demand} (h : demand.perform settings history = .error error) :
    serve settings history demand = history := by
  rw [serve, h]

/-- A session keeps its promises in every state. Its versions count from one, each passed every
stage, and exactly one of them is active, unless there is none. A request that succeeds adds a
version behind the others or leads back to one, and makes it the active one. A request fails only
if its run fails or the version it names is not stored, and then changes nothing. What a follow-up
gives depends on the plan and the source of the version that it is based on, and on nothing else. -/
theorem faithful_session (settings : Settings) (clock : Nat → σ) (demands : List Demand) :
    let history := session settings (empty clock) demands
    history.numbers = (List.range history.versions.length).map (fun i : Nat => (i + 1 : Int)) ∧
      (∀ v ∈ history.versions, v.Sound settings) ∧
      (history.versions ≠ [] → ∃ v, history.versions.filter Version.active = [v]) ∧
      (∀ demand stored after, demand.perform settings history = .ok (stored, after) →
        serve settings history demand = after ∧
          after.versions.filter Version.active = [stored] ∧
          if demand.isNew then after.records = history.records ++ [stored.record] ∧
            stored.number = history.versions.length + 1
          else after.records = history.records) ∧
      (∀ demand error, demand.perform settings history = .error error →
        serve settings history demand = history ∧
          ((∃ cause, error = .run cause) ∨
            ∃ number, error = .notFound number ∧ number ∉ history.numbers)) ∧
      ∀ (other : History σ) (number fellow : Int) (base twin : Version σ),
        history.get number = .ok base → other.get fellow = .ok twin →
        base.plan = twin.plan → base.code = twin.code →
        ∀ intent, (history.iterate settings number intent).map content =
          (other.iterate settings fellow intent).map content := by
  intro history
  have hFaithful : Faithful settings history := (faithful_empty settings clock).session
  obtain ⟨last, hCoherent⟩ := hFaithful.coherent
  refine ⟨hFaithful.numbers, hFaithful.sound, fun hFilled => ?_, fun demand stored after hDone => ?_,
    fun demand error hFailed => ⟨serve_of_error hFailed, failure_of_perform hFailed⟩, ?_⟩
  · obtain ⟨v, hOne, -⟩ := hCoherent.exists_active hFilled
    exact ⟨v, hOne⟩
  · refine ⟨serve_of_ok hDone, ?_⟩
    cases hNew : demand.isNew with
    | true =>
        obtain ⟨hAfter, hNumber, hActive, hVersions⟩ := hFaithful.new hNew hDone
        obtain ⟨last, hAfter⟩ := hAfter.coherent
        refine ⟨hAfter.only_active (hVersions ▸ by simp) hActive, ?_, hNumber⟩
        rw [records, hVersions, List.map_append, records, List.map_map]
        rfl
    | false =>
        cases demand with
        | generate intent => cases hNew
        | iterate number intent => cases hNew
        | rollback number =>
            obtain ⟨-, -, rfl, hStored, hActive⟩ := activate_eq_ok hDone
            refine ⟨(hCoherent.activate hDone).only_active hStored hActive, ?_⟩
            simp
  · intro other number fellow base twin hBase hTwin hPlan hCode intent
    rw [iterate_eq hBase, iterate_eq hTwin, content_enter, content_enter, hPlan, hCode]

def sampleRequest : String := "Start a page"

theorem check_sampleRequest : Explanation.check 300
    (Pipeline.fromScratch Pipeline.sampleSettings sampleRequest).explanation = .ok () := by
  rw [Explanation.check, Pipeline.fromScratch, String.toList_intercalate]
  decide +kernel

theorem faults_sampleRequest : Safety.faults "@/components/ui"
    (Pipeline.fromScratch Pipeline.sampleSettings sampleRequest).code = [] := by
  have hPlan : (Plan.next sampleRequest.toList none).Unsuspicious := by decide +kernel
  exact Safety.faults_eq_nil_iff.mpr (Safety.harmless_render hPlan)

/-- The request succeeds on every history, so that the hypotheses below can be met. -/
theorem perform_sampleRequest (history : History σ) : ∃ stored after,
    (Demand.generate sampleRequest).perform Pipeline.sampleSettings history =
      .ok (stored, after) := by
  have hRun : (Pipeline.run Pipeline.sampleSettings (.text sampleRequest) none none).1 =
      .ok (Pipeline.fromScratch Pipeline.sampleSettings sampleRequest) :=
    Pipeline.run_fromScratch rfl rfl faults_sampleRequest check_sampleRequest
  obtain ⟨after, stored, hEnter, -⟩ := enter_ok history sampleRequest
    (Pipeline.fromScratch Pipeline.sampleSettings sampleRequest)
  refine ⟨stored, after, (generate_eq sampleRequest).trans ?_⟩
  rw [hRun]
  exact hEnter

theorem faithful_session_sampleRequest :
    ∃ stored after,
      (Demand.generate sampleRequest).perform Pipeline.sampleSettings (empty id) =
        .ok (stored, after) ∧
      session Pipeline.sampleSettings (empty id) [.generate sampleRequest] = after ∧
      stored.number = 1 ∧ after.versions.filter Version.active = [stored] ∧
      (Demand.rollback 2).perform Pipeline.sampleSettings after = .error (.notFound 2) ∧
      serve Pipeline.sampleSettings after (.rollback 2) = after ∧
      ∀ intent, (after.iterate Pipeline.sampleSettings 1 intent).map content =
        ((History.mk [{ stored with number := 8, active := false }] id 0).iterate
          Pipeline.sampleSettings 8 intent).map content := by
  obtain ⟨stored, after, hDone⟩ := perform_sampleRequest (empty id)
  obtain ⟨-, -, -, hPerform, -⟩ := faithful_session Pipeline.sampleSettings id []
  rw [session_nil] at hPerform
  obtain ⟨hServe, hActive, hRecords, hNumber⟩ := hPerform _ _ _ hDone
  have hRecords : after.records = [stored.record] := hRecords
  have hNumbers : after.numbers = [1] := by
    rw [numbers_eq_map_records, hRecords]
    exact congrArg (fun n => [n]) hNumber
  obtain ⟨-, -, -, -, hFailed, hFellow⟩ :=
    faithful_session Pipeline.sampleSettings id [.generate sampleRequest]
  have hSession : session Pipeline.sampleSettings (empty id) [.generate sampleRequest] = after := by
    rw [session_cons, session_nil, hServe]
  rw [hSession] at hFailed hFellow
  have hUnknown : (Demand.rollback 2).perform Pipeline.sampleSettings after =
      .error (.notFound 2) := activate_eq_error_iff.mpr ⟨rfl, by simp [hNumbers]⟩
  refine ⟨stored, after, hDone, hSession, hNumber, hActive, hUnknown, (hFailed _ _ hUnknown).1, ?_⟩
  cases hGet : after.get 1 with
  | error cause =>
      have hMissing := (get_eq_error_iff.mp hGet).2
      simp [hNumbers] at hMissing
  | ok base =>
      have hBase : base.record ∈ after.records := List.mem_map_of_mem (get_eq_ok hGet).1
      rw [hRecords, List.mem_singleton, Version.record, Version.record, Version.mk.injEq] at hBase
      obtain ⟨-, -, hPlan, hCode, -⟩ := hBase
      exact hFellow _ 1 8 base _ hGet rfl hPlan hCode

end History
end Wireframe
