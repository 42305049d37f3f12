import Wireframe.Text.Basic

/-!
Ways of disregarding case. Keywords are looked for in a lower-cased text, and some names are taken
in upper case. Phrases are compared letter by letter, and there a few more characters count as a
Latin letter.
-/
namespace Wireframe

/-- The lower case of a character, as far as it can take part in a keyword of Latin letters. Beyond
A to Z only the Kelvin sign and the dotted capital I have a Latin letter in their lower case, and
the latter keeps its dot. -/
def lowerChar (c : Char) : Text :=
  if c = '\u212a' then ['k']
  else if c = '\u0130' then ['i', '\u0307']
  else [c.toLower]

/-- The upper case of a character, as far as it can take part in a name of Latin letters. Beyond a
to z these are the dotless i, the long s, the sharp s and the ligatures of f and of s. -/
def upperChar (c : Char) : Text :=
  if c = '\u0131' then ['I']
  else if c = '\u017f' then ['S']
  else if c = '\u00df' then ['S', 'S']
  else if c = '\ufb00' then ['F', 'F']
  else if c = '\ufb01' then ['F', 'I']
  else if c = '\ufb02' then ['F', 'L']
  else if c = '\ufb03' then ['F', 'F', 'I']
  else if c = '\ufb04' then ['F', 'F', 'L']
  else if c = '\ufb05' || c = '\ufb06' then ['S', 'T']
  else [c.toUpper]

/-- The Latin lower-case letter that a character is compared as. The long s, the Kelvin sign and
both Turkish forms of i are letters of this kind. -/
def foldChar (c : Char) : Char :=
  if c = '\u017f' then 's'
  else if c = '\u212a' then 'k'
  else if c = '\u0130' || c = '\u0131' then 'i'
  else c.toLower

namespace Text

def lower (text : Text) : Text :=
  text.flatMap lowerChar

/-- The text in upper case, as far as it can name anything in Latin letters. -/
def upper (text : Text) : Text :=
  text.flatMap upperChar

/-- What follows `lead`, given in lower case, in a text that starts with it in any case. -/
def afterCaseless? : Text → Text → Option Text
  | [], text => some text
  | _ :: _, [] => none
  | a :: lead, c :: text => if a = foldChar c then afterCaseless? lead text else none

end Text

end Wireframe
