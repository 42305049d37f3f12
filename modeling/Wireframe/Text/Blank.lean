import Wireframe.Text.Basic

/-!
White space. Blank characters are the Unicode white space characters together with the four
information separators U+001C to U+001F.
-/
namespace Wireframe

/-- The code points of blank characters, as closed ranges. -/
def blankRanges : List (Nat × Nat) :=
  [(0x9, 0xd), (0x1c, 0x20), (0x85, 0x85), (0xa0, 0xa0), (0x1680, 0x1680), (0x2000, 0x200a),
   (0x2028, 0x2029), (0x202f, 0x202f), (0x205f, 0x205f), (0x3000, 0x3000)]

def inRanges (ranges : List (Nat × Nat)) (code : Nat) : Bool :=
  ranges.any fun (first, last) => first ≤ code && code ≤ last

def isBlank (c : Char) : Bool :=
  inRanges blankRanges c.toNat

namespace Text

def trimLeft (text : Text) : Text :=
  text.dropWhile isBlank

def trim (text : Text) : Text :=
  (text.trimLeft.reverse.dropWhile isBlank).reverse

def allBlank (text : Text) : Bool :=
  text.all isBlank

/-- The number of words that start in the text. The flag says whether a word is already open. -/
def wordStarts : Bool → Text → Nat
  | _, [] => 0
  | inside, c :: text =>
    if isBlank c then wordStarts false text
    else (if inside then 0 else 1) + wordStarts true text

/-- The number of words, that is of longest runs without a blank. -/
def wordCount (text : Text) : Nat :=
  wordStarts false text

end Text

end Wireframe
