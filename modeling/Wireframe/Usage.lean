import Wireframe.Number.Written

/-!
Usage counters. What happens is recorded as events; samples are the counts of equal events, and for
durations also the counts of those within each bound.
-/
namespace Wireframe

inductive Event where
  | request (mode status : String)
  | stage (name : String)
  | operation (kind : String)
  | fallback
  | failure (name : String)
deriving DecidableEq, Repr

/-- A named count, with labels. -/
structure Sample where
  name : String
  labels : List (String × String)
  count : Nat
deriving DecidableEq, Repr

namespace Event

def counter : Event → String
  | .request .. => "intentui_requests_total"
  | .stage _ => "intentui_stage_duration_seconds_count"
  | .operation _ => "intentui_patch_operations_total"
  | .fallback => "intentui_patch_fallbacks_total"
  | .failure _ => "intentui_errors_total"

def labels : Event → List (String × String)
  | .request mode status => [("mode", mode), ("status", status)]
  | .stage name => [("stage", name)]
  | .operation kind => [("kind", kind)]
  | .fallback => []
  | .failure name => [("stage", name)]

end Event

namespace Sample

/-- The words of a sample in the order in which they are compared. -/
def words (sample : Sample) : List String :=
  sample.name :: sample.labels.flatMap fun entry => [entry.1, entry.2]

/-- The first row of words is not after the second. -/
def wordsNotAfter : List String → List String → Bool
  | [], _ => true
  | _ :: _, [] => false
  | a :: rest, b :: other => if a = b then wordsNotAfter rest other else a < b

/-- The first sample is not after the second: samples are ordered by name, then by labels. -/
def notAfter (a b : Sample) : Bool :=
  wordsNotAfter a.words b.words

def sorted (samples : List Sample) : List Sample :=
  samples.mergeSort notAfter

end Sample

/-- What was recorded: events, and the durations of stages in seconds. -/
structure Usage where
  events : List Event
  durations : List (String × Binary64)
deriving Repr

namespace Usage

def empty : Usage := ⟨[], []⟩

def record (event : Event) (usage : Usage) : Usage :=
  { usage with events := usage.events ++ [event] }

def recordStage (name : String) (seconds : Binary64) (usage : Usage) : Usage :=
  ⟨usage.events ++ [.stage name], usage.durations ++ [(name, seconds)]⟩

def counts (events : List Event) : List Sample :=
  events.eraseDups.map fun event => ⟨event.counter, event.labels, events.count event⟩

/-- The bounds of durations, as decimals. -/
def bounds : List Decimal :=
  [⟨5, -4⟩, ⟨1, -3⟩, ⟨5, -3⟩, ⟨1, -2⟩, ⟨5, -2⟩, ⟨1, -1⟩, ⟨5, -1⟩, ⟨1, 0⟩]

def boundValue (bound : Decimal) : Binary64 :=
  (Binary64.ofDecimal? false bound.coefficient bound.exponent).getD default

/-- The counts of the durations of a stage: within each bound, and all. -/
def buckets (stage : String) (durations : List Binary64) : List Sample :=
  let sample (bound : String) (count : Nat) : Sample :=
    ⟨"intentui_stage_duration_seconds_bucket", [("le", bound), ("stage", stage)], count⟩
  bounds.map (fun bound =>
      sample (String.ofList (writeReal .plain (boundValue bound)))
        (durations.filter fun seconds => Binary64.le seconds (boundValue bound)).length)
    ++ [sample "+Inf" durations.length]

/-- All samples in order. The count of fallbacks is shown even when there are none. -/
def samples (usage : Usage) : List Sample :=
  let fallback : List Sample :=
    if usage.events.contains .fallback then []
    else [⟨Event.counter .fallback, [], 0⟩]
  let stages := (usage.durations.map Prod.fst).eraseDups
  Sample.sorted (counts usage.events ++ fallback
    ++ stages.flatMap fun stage =>
      buckets stage ((usage.durations.filter fun entry => entry.1 = stage).map Prod.snd))

end Usage
end Wireframe
