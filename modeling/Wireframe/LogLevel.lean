import Wireframe.Settings

/-!
Log levels. A level is named in any case, and a name that is unknown stands for the usual level. The
log also knows its basic format and its format styles by such names, and neither of them is a level.
-/
namespace Wireframe

/-- Why the log refuses a name: it is not that of a level. -/
inductive LogLevelFault where
  | basicFormat
  | formatStyles
deriving DecidableEq, Repr

namespace LogLevelFault

/-- What is said of a refused name, which shows what it names. -/
def message : LogLevelFault → String
  | .basicFormat => "Unknown level: '%(levelname)s:%(name)s:%(message)s'"
  | .formatStyles =>
    "Level not an integer or a valid string: \x7b'%': (<class 'logging.PercentStyle'>, "
      ++ "'%(levelname)s:%(name)s:%(message)s'), '\x7b': (<class 'logging.StrFormatStyle'>, "
      ++ "'\x7blevelname\x7d:\x7bname\x7d:\x7bmessage\x7d'), "
      ++ "'$': (<class 'logging.StringTemplateStyle'>, "
      ++ "'$\x7blevelname\x7d:$\x7bname\x7d:$\x7bmessage\x7d')\x7d"

def ofName? (name : String) : Option LogLevelFault :=
  let name := Text.upper name.toList
  if name == "BASIC_FORMAT".toList then some .basicFormat
  else if name == "_STYLES".toList then some .formatStyles
  else none

end LogLevelFault

end Wireframe
