import Wireframe.Component.Basic

/-!
Plans: a layout, the components of a page, and the log of what the last instruction changed.
-/
namespace Wireframe

structure Plan where
  layout : String
  components : Forest
  modifications : List String
deriving Repr, Inhabited

mutual

def Component.toValue : Component → Value
  | ⟨kind, props, children, _⟩ =>
    .object [("type", .text kind.name), ("props", .object props),
      ("children", .list (Forest.toValues children))]
termination_by structural c => c

def Forest.toValues : List Component → List Value
  | [] => []
  | c :: rest => c.toValue :: Forest.toValues rest
termination_by structural forest => forest

end

namespace Plan

def toValue (plan : Plan) : Value :=
  .object [("layout", .text plan.layout), ("components", .list (Forest.toValues plan.components)),
    ("modifications", .list (plan.modifications.map .text))]

end Plan

end Wireframe
