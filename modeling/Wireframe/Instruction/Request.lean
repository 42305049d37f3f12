import Wireframe.Settings

/-!
Requests: the instruction that a run accepts. Blanks around it are dropped, and its length has to
keep the bounds of the settings.
-/
namespace Wireframe
namespace Request

def ofText (settings : Settings) (message : String) : Except ShapeFault String :=
  let text := Text.trim message.toList
  if text.length < settings.minIntentLength then
    .error (.rejected
      ("Intent must be at least " ++ toString settings.minIntentLength ++ " characters"))
  else if settings.maxIntentLength < text.length then
    .error (.rejected
      ("Intent must be at most " ++ toString settings.maxIntentLength ++ " characters"))
  else .ok (String.ofList text)

/-- The instruction of a value, which has to be a text. -/
def ofValue (settings : Settings) : Value → Except ShapeFault String
  | .text message => ofText settings message
  | _ => .error .notText

/-- The issues of the message field, and the instruction if there are none. The settings are needed
only for a message that is a text. -/
def readMessage (settings : Except (List ShapeIssue) Settings) (fields : Props) :
    Except (List ShapeIssue) String :=
  match fields.get? "message" with
  | none => .error [⟨["message"], .missing⟩]
  | some (.text message) =>
    match settings with
    | .error issues => .error (issues.map (ShapeIssue.under "message"))
    | .ok settings => (ofText settings message).mapError fun fault => [⟨["message"], fault⟩]
  | some _ => .error [⟨["message"], .notText⟩]

/-- The instruction of a request whose only field is the message. -/
def ofFields (settings : Except (List ShapeIssue) Settings) (fields : Props) :
    Except (List ShapeIssue) String :=
  let unexpected : List ShapeIssue :=
    (fields.filter fun entry => entry.1 ≠ "message").map fun entry => ⟨[entry.1], .unexpected⟩
  match readMessage settings fields with
  | .ok message => if unexpected.isEmpty then .ok message else .error unexpected
  | .error issues => .error (issues ++ unexpected)

end Request
end Wireframe
