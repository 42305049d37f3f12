import Wireframe.Page.Attribute
import Wireframe.Page.Tag

/-!
Recovering components from page source. Pairs of tags are taken from the left, and the text between
two tags is searched in the same way for the children. A pair whose name is no kind gives way to
what is inside it.
-/
namespace Wireframe
namespace Page

/-- The components that a pair of tags gives, once its children are known. -/
def ofPair (pair : Pair) (children : Forest) : Forest :=
  match Kind.ofTag? pair.name with
  | some kind => [⟨kind, Attribute.props pair.attributes, children, some pair.text⟩]
  | none => children

/-- The components of a text. The texts of all further steps are shorter, so that the length bounds
the depth of the steps. -/
def recoverWithin : Nat → Text → Forest
  | 0, _ => []
  | _, [] => []
  | fuel + 1, c :: text =>
    match pair? (c :: text) with
    | some pair => ofPair pair (recoverWithin fuel pair.inner) ++ recoverWithin fuel pair.rest
    | none => recoverWithin fuel text

def recover (code : Text) : Forest :=
  recoverWithin code.length code

end Page
end Wireframe
