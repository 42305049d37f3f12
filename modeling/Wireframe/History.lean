import Wireframe.Pipeline

/-!
The history of a page: an append-only record of versions with one active version. Every successful
run becomes a new version and is made active; a failed one stores nothing. Records are stamped by a
clock, which is read only when a record without a stamp is stored.
-/
namespace Wireframe

structure Version (σ : Type) where
  number : Int
  intent : String
  plan : Plan
  code : Text
  explanation : String
  created : Option σ
  active : Bool
deriving Repr

/-- Why the history refuses a call. -/
inductive HistoryError where
  | notFound (number : Int)
  | taken (number : Int)
  | shape (issue : ShapeIssue)
  | run (cause : RunCause)
deriving Repr

namespace HistoryError

def message : HistoryError → String
  | .notFound number => "Version " ++ toString number ++ " not found"
  | .taken number => "Version " ++ toString number ++ " already exists"
  | .shape issue => issue.fault.message
  | .run cause => cause.message

end HistoryError

/-- The stored versions in the order in which they were stored, and a clock: what each reading of it
gives, and how often it was read. -/
structure History (σ : Type) where
  versions : List (Version σ)
  clock : Nat → σ
  readings : Nat

namespace History

variable {σ : Type}

def empty (clock : Nat → σ) : History σ := ⟨[], clock, 0⟩

/-- A record as it may be stored. Version numbers start at one. -/
def checkNumber (version : Version σ) : Except HistoryError (Version σ) :=
  if 1 ≤ version.number then .ok version
  else .error (.shape ⟨["version_number"], .belowOne⟩)

def get (history : History σ) (number : Int) : Except HistoryError (Version σ) :=
  match history.versions.find? fun version => version.number = number with
  | some version => .ok version
  | none => .error (.notFound number)

def active? (history : History σ) : Option (Version σ) :=
  history.versions.find? fun version => version.active

/-- The history with exactly the version of a number active. -/
def markActive (history : History σ) (number : Int) : History σ :=
  { history with
    versions := history.versions.map fun version =>
      { version with active := version.number = number } }

/-- Makes a stored version the active one. -/
def activate (history : History σ) (number : Int) :
    Except HistoryError (Version σ × History σ) :=
  match history.get number with
  | .ok version => .ok ({ version with active := true }, history.markActive number)
  | .error error => .error error

/-- The version with a stamp, and the history after the clock was read for it if it was. -/
def stamp (history : History σ) (version : Version σ) : Version σ × History σ :=
  match version.created with
  | some _ => (version, history)
  | none =>
    ({ version with created := some (history.clock history.readings) },
      { history with readings := history.readings + 1 })

def append (history : History σ) (version : Version σ) :
    Except HistoryError (Version σ × History σ) :=
  if history.versions.any fun known => known.number = version.number then
    .error (.taken version.number)
  else
    let (version, history) := history.stamp version
    activate { history with versions := history.versions ++ [version] } version.number

def newestFirst (history : History σ) : List (Version σ) :=
  history.versions.mergeSort fun a b => b.number ≤ a.number

/-- The first `limit` of some items. A negative limit leaves out that many at the end. -/
def page {α : Type} (limit : Int) (items : List α) : List α :=
  if 0 ≤ limit then items.take limit.toNat else items.take (items.length - (-limit).toNat)

/-- The newest versions, all of them if there is no limit. -/
def newest (history : History σ) (limit : Option Int) : List (Version σ) :=
  match limit with
  | some limit => page limit history.newestFirst
  | none => history.newestFirst

/-- The number after the greatest one stored, or one. -/
def nextNumber (history : History σ) : Int :=
  history.versions.foldl (fun greatest version => max greatest version.number) 0 + 1

/-- Stores the outcome of a run as the next version. -/
def store (history : History σ) (intent : String) (outcome : Outcome) :
    Except HistoryError (Version σ × History σ) :=
  history.append
    ⟨history.nextNumber, intent, outcome.plan, outcome.code, outcome.explanation, none, false⟩

/-- Runs an instruction from scratch and stores the outcome. -/
def generate (settings : Settings) (history : History σ) (intent : String) :
    Except HistoryError (Version σ × History σ) :=
  match (Pipeline.run settings (.text intent) none none).1 with
  | .ok outcome => history.store intent outcome
  | .error cause => .error (.run cause)

/-- Runs an instruction on a stored version and stores the outcome. -/
def iterate (settings : Settings) (history : History σ) (number : Int) (intent : String) :
    Except HistoryError (Version σ × History σ) :=
  match history.get number with
  | .error error => .error error
  | .ok base =>
    match (Pipeline.run settings (.text intent) (some base.plan) (some base.code)).1 with
    | .ok outcome => history.store intent outcome
    | .error cause => .error (.run cause)

end History
end Wireframe
