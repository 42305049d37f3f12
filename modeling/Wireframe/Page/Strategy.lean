/-!
Where the operations of a patch come from.
-/
namespace Wireframe

/-- Where the operations come from. -/
inductive Strategy where
  /-- The comparison, then the log. -/
  | combined
  /-- The log alone if it names any operation, else the comparison. -/
  | explicitPreferred
deriving DecidableEq, Repr

namespace Strategy

def all : List Strategy :=
  [.combined, .explicitPreferred]

def name : Strategy → String
  | .combined => "combined"
  | .explicitPreferred => "explicit_preferred"

def ofName? (name : String) : Option Strategy :=
  all.find? fun strategy => strategy.name == name

theorem ofName?_name (strategy : Strategy) : ofName? strategy.name = some strategy := by
  cases strategy <;> decide

end Strategy

end Wireframe
