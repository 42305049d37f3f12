import Wireframe.Proofs.Page.Block
import Wireframe.Proofs.Pipeline.Accounting

/-! What a run counts of the operations of its patch. They are counted once the patch has applied them
all, so that the counts are those of the source that is delivered, but for one way to fail: a patch that
leaves nothing but blanks is given up after it was counted. -/
namespace Wireframe

namespace Page

/-- Source with a rendered block does not consist of blanks. -/
theorem allBlank_of_findBlockStart? {code : Text} (h : (findBlockStart? code).isSome = true) :
    Text.allBlank code = false := by
  obtain ⟨cut, hCut⟩ := Option.isSome_iff_exists.mp h
  obtain ⟨start, middle, more, hStart, -, hTarget⟩ :=
    andThen_sound (Text.read_of_find? faithful_blockStart hCut)
  obtain ⟨rfl, -⟩ := Text.append_of_literal hStart
  have hLetter : 'r' ∈ code := by
    rw [← Text.whole_of_find? faithful_blockStart hCut, Cut.whole, hTarget]
    simp
  cases hBlank : Text.allBlank code with
  | false => rfl
  | true => exact absurd (List.all_eq_true.mp hBlank 'r' hLetter) (by decide)

/-- Without operations a patch does not come out blank. -/
theorem allBlank_of_applyAll_nil {code patched : Text} (h : applyAll code [] = .ok patched) :
    Text.allBlank patched = false := by
  rw [applyAll] at h
  split at h
  · rename_i hBlock
    cases h
    exact allBlank_of_findBlockStart? (Bool.and_eq_true _ _ ▸ hBlock).1
  · cases h

end Page

namespace Pipeline

variable {settings : Settings} {plan : Plan} {previous : Option Text} {code : Text}

def tally (operations : List Operation) (kind : String) : Nat :=
  (operations.map Operation.kindName).count kind

/-- The patch of the source before towards the plan applies all its operations, and what comes out is
blank. -/
def ComesOutBlank (settings : Settings) (plan : Plan) (previous : Option Text) : Prop :=
  ∃ code patched, Patchable settings previous code ∧
    Page.applyAll code (operationsFor settings code plan) = .ok patched ∧
    Text.allBlank patched = true

/-- There is at most one text to patch. -/
theorem Patchable.unique {other : Text} (h : Patchable settings previous code)
    (hOther : Patchable settings previous other) : other = code :=
  Option.some.inj (hOther.1.symm.trans h.1)

/-- Coming out blank, for the text at hand. -/
theorem comesOutBlank_iff (h : Patchable settings previous code) :
    ComesOutBlank settings plan previous ↔
      ∃ patched, Page.applyAll code (operationsFor settings code plan) = .ok patched ∧
        Text.allBlank patched = true := by
  refine ⟨?_, fun ⟨patched, hPatched⟩ => ⟨code, patched, h, hPatched⟩⟩
  rintro ⟨other, patched, hOther, hPatched⟩
  rw [h.unique hOther] at hPatched
  exact ⟨patched, hPatched⟩

/-- A patch that applies its operations counts them all. -/
theorem count_operation_patch {patched : Text}
    (h : Page.applyAll code (operationsFor settings code plan) = .ok patched) (kind : String) :
    (patch settings code plan).2.count (.operation kind) =
      tally (operationsFor settings code plan) kind := by
  have hKind : Function.Injective Event.operation := fun _ _ h => Event.operation.inj h
  simp only [patch, h]
  rw [tally, ← List.count_map_of_injective _ _ hKind, List.map_map]
  rfl

/-- A patch goes through and counts its operations, or it fails on the way and counts none, or it is
given up for a blank result and counts its operations all the same. -/
theorem patch_cases (hPatchable : Patchable settings previous code) (plan : Plan) :
    (∃ source, (patch settings code plan).1 = .ok source ∧
        ¬ ComesOutBlank settings plan previous ∧
        ∀ kind, (patch settings code plan).2.count (.operation kind) =
          tally (operationsFor settings code plan) kind) ∨
      (∃ error, patch settings code plan = (.error error, []) ∧
        ¬ ComesOutBlank settings plan previous) ∨
      (patch settings code plan).1 = .error .emptyResult ∧ ComesOutBlank settings plan previous ∧
        operationsFor settings code plan ≠ [] ∧
        ∀ kind, (patch settings code plan).2.count (.operation kind) =
          tally (operationsFor settings code plan) kind := by
  rw [comesOutBlank_iff hPatchable]
  cases hApply : Page.applyAll code (operationsFor settings code plan) with
  | error error => exact .inr (.inl ⟨error, by simp only [patch, hApply], by simp⟩)
  | ok patched =>
      have hCount := count_operation_patch hApply
      cases hBlank : Text.allBlank patched with
      | false =>
          refine .inl ⟨patched, by simp [patch, hApply, hBlank], ?_, hCount⟩
          rintro ⟨same, hSame, hWiped⟩
          cases hSame
          exact absurd (hBlank.symm.trans hWiped) (by decide)
      | true =>
          refine .inr (.inr ⟨by simp [patch, hApply, hBlank], ⟨patched, rfl, hBlank⟩, ?_, hCount⟩)
          intro hNone
          rw [hNone] at hApply
          exact absurd ((Page.allBlank_of_applyAll_nil hApply).symm.trans hBlank) (by decide)

/-- What generation delivers and what it counts: the operations that led to the source, which are none
if that was rendered, and the operations that are counted. -/
inductive Counted (settings : Settings) (plan : Plan) (previous : Option Text) :
    List Operation → List Operation → Prop where
  | patched {code source : Text} (known : previous = some code)
      (delivers : (generate settings plan code).1 = (source, true))
      (filled : ¬ ComesOutBlank settings plan previous) :
      Counted settings plan previous (operationsFor settings code plan)
        (operationsFor settings code plan)
  | rendered (renders : (generate settings plan (previous.getD [])).1.2 = false)
      (filled : ¬ ComesOutBlank settings plan previous) :
      Counted settings plan previous [] []
  | discarded {code : Text} (patchable : Patchable settings previous code)
      (renders : (generate settings plan (previous.getD [])).1.2 = false)
      (blank : ComesOutBlank settings plan previous)
      (some : operationsFor settings code plan ≠ []) :
      Counted settings plan previous [] (operationsFor settings code plan)

/-- Every generation counts the operations of a definite list, and the cases of delivery say of
which. -/
theorem exists_counted (settings : Settings) (plan : Plan) (previous : Option Text) :
    ∃ delivered counted, Counted settings plan previous delivered counted ∧
      ∀ kind, (generate settings plan (previous.getD [])).2.count (.operation kind) =
        tally counted kind := by
  rcases generate_cases settings plan previous with
    ⟨hUnpatchable, hGenerate⟩ | ⟨code, source, hPatchable, hPatch, hGenerate⟩ |
      ⟨code, error, hPatchable, hPatch, hGenerate⟩ <;> rw [hGenerate]
  · refine ⟨[], [], .rendered (by rw [hGenerate]) ?_, fun _ => rfl⟩
    rintro ⟨code, -, ⟨hCode, hFilled, hOn⟩, -⟩
    rcases hUnpatchable with hNone | hEmpty | hOff
    · exact absurd (hNone.symm.trans hCode) (by simp)
    · exact hFilled (Option.some.inj (hCode.symm.trans hEmpty))
    · exact absurd (hOff.symm.trans hOn) (by decide)
  · rcases patch_cases hPatchable plan with
      ⟨_, -, hFilled, hCount⟩ | ⟨_, hFails, -⟩ | ⟨hBlank, -⟩
    · have hKnown := hPatchable.1
      rw [hKnown, Option.getD_some] at hGenerate
      exact ⟨_, _, .patched hKnown (congrArg Prod.fst hGenerate) hFilled, hCount⟩
    · rw [hFails] at hPatch
      cases hPatch
    · cases hPatch.symm.trans hBlank
  -- A fallback is one more event, but no operation.
  · have hRenders : (generate settings plan (previous.getD [])).1.2 = false := by rw [hGenerate]
    have hFallback (kind : String) :
        ((patch settings code plan).2 ++ [Event.fallback]).count (.operation kind) =
          (patch settings code plan).2.count (.operation kind) := by
      rw [List.count_append]
      rfl
    rcases patch_cases hPatchable plan with
      ⟨_, hSource, -⟩ | ⟨_, hFails, hFilled⟩ | ⟨-, hBlank, hSome, hCount⟩
    · cases hPatch.symm.trans hSource
    · refine ⟨[], [], .rendered hRenders hFilled, fun kind => ?_⟩
      rw [hFallback, hFails]
      rfl
    · exact ⟨[], _, .discarded hPatchable hRenders hBlank hSome,
        fun kind => (hFallback kind).trans (hCount kind)⟩

variable (settings previous)

/-- The operations that a run counts are those that its generation counts, if it gets that far. -/
theorem count_run_cases (intent : Value) (basis : Option Plan) :
    ((∀ request plan, ¬ Generates settings intent basis request plan) ∧
        ∀ kind, (run settings intent basis previous).2.count (.operation kind) = 0) ∨
      ∃ request plan, Generates settings intent basis request plan ∧
        ∀ kind, (run settings intent basis previous).2.count (.operation kind) =
          (generate settings plan (previous.getD [])).2.count (.operation kind) := by
  obtain ⟨-, made, hRecord, hMade⟩ := stages_eq settings previous intent basis
  have hCount (kind : String) : (run settings intent basis previous).2.count (.operation kind) =
      made.count (.operation kind) := by
    rw [events_run, hRecord, List.count_append, count_record,
      count_entries_eq_zero _ (by simp), count_closing_eq_zero _ _ (by simp) (by simp),
      Nat.zero_add, Nat.add_zero]
  rcases hMade with ⟨rfl, hNone⟩ | ⟨request, plan, hGenerates, rfl⟩
  · exact .inl ⟨hNone, hCount⟩
  · exact .inr ⟨request, plan, hGenerates, hCount⟩

/-- The operations behind the source that a run delivers: those that lead from the source before to the
plan if generation delivers the patched source, and none if it delivers rendered source or the run ends
before. -/
inductive Delivered (intent : Value) (basis : Option Plan) : List Operation → Prop where
  | patched {request : String} {plan : Plan} {code source : Text}
      (generates : Generates settings intent basis request plan) (known : previous = some code)
      (delivers : (generate settings plan code).1 = (source, true)) :
      Delivered intent basis (operationsFor settings code plan)
  | unpatched (renders : ∀ request plan, Generates settings intent basis request plan →
        (generate settings plan (previous.getD [])).1.2 = false) :
      Delivered intent basis []

/-- The counters of operations show what was delivered, kind by kind, exactly unless the patched source
comes out blank. It is discarded then, so that no operation of it is delivered, but all of them are
counted, and there is one at least. -/
theorem count_operation_run (intent : Value) (basis : Option Plan) :
    ∃ delivered, Delivered settings previous intent basis delivered ∧
      ((∀ kind, (run settings intent basis previous).2.count (.operation kind) =
          tally delivered kind) ↔
        ∀ request plan, Generates settings intent basis request plan →
          ¬ ComesOutBlank settings plan previous) ∧
      ∀ request plan code, Generates settings intent basis request plan →
        Patchable settings previous code → ComesOutBlank settings plan previous →
          delivered = [] ∧ operationsFor settings code plan ≠ [] ∧
            ∀ kind, (run settings intent basis previous).2.count (.operation kind) =
              tally (operationsFor settings code plan) kind := by
  rcases count_run_cases settings previous intent basis with
    ⟨hNone, hCount⟩ | ⟨request, plan, hGenerates, hCount⟩
  · refine ⟨[], .unpatched fun request plan h => absurd h (hNone request plan), ?_, ?_⟩
    · exact iff_of_true hCount fun request plan h => absurd h (hNone request plan)
    · exact fun request plan _ h => absurd h (hNone request plan)
  · obtain ⟨delivered, counted, hCounted, hTally⟩ := exists_counted settings plan previous
    have hRun (kind : String) : (run settings intent basis previous).2.count (.operation kind) =
        tally counted kind := (hCount kind).trans (hTally kind)
    have hOnly {motive : Plan → Prop} (h : motive plan) :
        ∀ other next, Generates settings intent basis other next → motive next :=
      fun _ _ hNext => hGenerates.unique hNext ▸ h
    cases hCounted with
    | patched known delivers filled =>
        refine ⟨_, .patched hGenerates known delivers, iff_of_true hRun (hOnly filled), ?_⟩
        exact fun _ _ _ hNext _ hBlank => absurd (hGenerates.unique hNext ▸ hBlank) filled
    | rendered renders filled =>
        refine ⟨[], .unpatched (hOnly renders), iff_of_true hRun (hOnly filled), ?_⟩
        exact fun _ _ _ hNext _ hBlank => absurd (hGenerates.unique hNext ▸ hBlank) filled
    | @discarded code patchable renders blank hSome =>
        refine ⟨[], .unpatched (hOnly renders), iff_of_false (fun hSame => hSome ?_) ?_, ?_⟩
        · -- An operation of the patch is counted under its kind, and nothing was delivered.
          refine List.eq_nil_iff_forall_not_mem.mpr fun operation hMem => ?_
          have hZero := (hRun operation.kindName).symm.trans (hSame operation.kindName)
          exact List.count_eq_zero.mp hZero (List.mem_map_of_mem hMem)
        · exact fun h => h request plan hGenerates blank
        · intro other next code hNext hPatchable hBlank
          rw [hGenerates.unique hNext, patchable.unique hPatchable]
          exact ⟨rfl, hSome, hRun⟩

def loneTable : Plan := ⟨"default", [.leaf .table []], []⟩

/-- Source that is a card with an empty block inside. -/
def cardedBlock : Text := "<Card>\n  return (\n    <>\n    </>\n  );\n</Card>\n".toList

/-- A request that leaves every plan as it is. -/
def idleRequest : String := "Make it pop"

/-- The table is added inside the card, and the card is removed with all that is in it. -/
theorem generate_loneTable : generate sampleSettings loneTable cardedBlock =
    ((Page.render sampleSettings.frame loneTable, false),
      [.operation "add_component", .operation "remove_component", .fallback]) := rfl

theorem explain_loneTable :
    Explanation.explain 300 idleRequest loneTable [] =
      .ok ("\n\n".intercalate (Explanation.paragraphs idleRequest loneTable [])) := by
  have hCheck : Explanation.check 300
      ("\n\n".intercalate (Explanation.paragraphs idleRequest loneTable [])) = .ok () := by
    rw [Explanation.check, String.toList_intercalate]
    decide +kernel
  rw [Explanation.explain, hCheck]
  rfl

/-- The run delivers rendered source, so that no operation leads to it, and it counts two. -/
theorem counted_though_discarded :
    ∃ outcome,
      (run sampleSettings (.text idleRequest) (some loneTable) (some cardedBlock)).1 = .ok outcome ∧
        outcome.code = Page.render sampleSettings.frame loneTable ∧ outcome.patched = false ∧
        Delivered sampleSettings (some cardedBlock) (.text idleRequest) (some loneTable) [] ∧
        ∀ kind ∈ ["add_component", "remove_component"],
          (run sampleSettings (.text idleRequest) (some loneTable) (some cardedBlock)).2.count
            (.operation kind) = 1 := by
  have hGenerates :
      Generates sampleSettings (.text idleRequest) (some loneTable) idleRequest loneTable :=
    ⟨rfl, rfl, rfl⟩
  have hSafe : Safety.check sampleSettings.componentImportPath
      (Page.render sampleSettings.frame loneTable) =
        .ok (Page.render sampleSettings.frame loneTable) :=
    Safety.check_eq_ok_iff.mpr ⟨by decide +kernel, rfl⟩
  refine ⟨⟨loneTable, Page.render sampleSettings.frame loneTable, _, false⟩,
    run_of_passed hGenerates.1 ⟨rfl, rfl, ?_, hSafe, explain_loneTable⟩, rfl, rfl, ?_, ?_⟩
  · exact congrArg Prod.fst generate_loneTable
  · refine .unpatched fun request plan hNext => ?_
    rw [hGenerates.unique hNext]
    exact congrArg (·.1.2) generate_loneTable
  · rcases count_run_cases sampleSettings (some cardedBlock) (.text idleRequest) (some loneTable)
      with ⟨hNone, -⟩ | ⟨request, plan, hNext, hCount⟩
    · exact absurd hGenerates (hNone idleRequest loneTable)
    · rw [hGenerates.unique hNext, Option.getD_some, generate_loneTable] at hCount
      intro kind hKind
      rw [hCount]
      revert kind
      decide

end Pipeline
end Wireframe
