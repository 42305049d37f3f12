import Wireframe.Instruction.Phrase

/-!
What an instruction names: labels, titles, placeholders and names between quotes, the type of a
chart, and the columns of a table. For each quoted value there is a row of phrases, and the first
phrase that matches gives the value.
-/
namespace Wireframe
namespace Instruction

def phrase (lead : List Piece) : Phrase := ⟨lead, none⟩

/-- A phrase with a word that follows the value. -/
def phraseBefore (lead : List Piece) (follower : String) : Phrase := ⟨lead, some follower⟩

def buttonLabelPhrases : List Phrase :=
  [phrase [.words ["button "], .words ["called", "labeled", "labelled", "named", "text", ""],
    .words [" ", ""]],
   phrase [.words ["button "]],
   phraseBefore [] "button",
   phrase [.words ["add"], .gap, .words ["button"], .gap,
    .words ["called", "named", "with text", ""], .words [" "]],
   phrase [.words ["button"], .gap, .words ["that says "]]]

def placeholderPhrases : List Phrase :=
  [phrase [.words ["placeholder "], .words ["text ", ""]],
   phrase [.words ["with placeholder "]]]

def labelPhrases : List Phrase :=
  [phrase [.words ["label"], .words ["led", ""], .words [" "]],
   phrase [.words ["called "]],
   phrase [.words ["named "]],
   phrase [.words ["field "]]]

def chartTitlePhrases : List Phrase :=
  [phrase [.words ["chart "], .words ["called", "titled", "named"], .words [" "]],
   phrase [.words ["title "]],
   phraseBefore [.words ["called "]] "chart"]

def modalTitlePhrases : List Phrase :=
  [phrase [.words ["modal "], .words ["called", "titled", "named"], .words [" "]],
   phrase [.words ["dialog "], .words ["called", "titled", "named"], .words [" "]],
   phrase [.words ["title "]]]

def newLabelPhrases : List Phrase :=
  [phrase [.words ["change", "update", "modify"], .gap, .words ["label", "text", "name"],
    .words [" "], .words ["to ", ""]],
   phrase [.words ["change", "update", "modify"], .gap, .words ["button", "element"], .gap,
    .words ["to ", ""]],
   phrase [.words ["to "]]]

def newTitlePhrases : List Phrase :=
  [phrase [.words ["change", "update", "modify"], .gap, .words ["title "], .words ["to ", ""]],
   phrase [.words ["title "], .words ["to ", ""]],
   phrase [.words ["rename "], .gap, .words ["to "]]]

def newPlaceholderPhrases : List Phrase :=
  [phrase [.words ["placeholder "], .words ["to ", ""]],
   phraseBefore [.words ["to "]] "placeholder"]

def newNamePhrases : List Phrase :=
  [phrase [.words ["rename"], .gap, .words ["to "]],
   phraseBefore [.words ["to "]] "rename",
   phrase [.words ["called "]],
   phrase [.words ["named "]]]

def buttonLabel? : Instruction → Option String := Phrase.firstValue? buttonLabelPhrases

def placeholder? : Instruction → Option String := Phrase.firstValue? placeholderPhrases

def label? : Instruction → Option String := Phrase.firstValue? labelPhrases

def chartTitle? : Instruction → Option String := Phrase.firstValue? chartTitlePhrases

def modalTitle? : Instruction → Option String := Phrase.firstValue? modalTitlePhrases

def newLabel? : Instruction → Option String := Phrase.firstValue? newLabelPhrases

def newTitle? : Instruction → Option String := Phrase.firstValue? newTitlePhrases

def newPlaceholder? : Instruction → Option String := Phrase.firstValue? newPlaceholderPhrases

def newName? : Instruction → Option String := Phrase.firstValue? newNamePhrases

/-- The types of charts, in order of precedence. -/
def chartTypes : List String :=
  ["bar", "line", "pie", "area", "scatter"]

/-- The type of a chart, a bar chart unless another type is mentioned. -/
def chartType (instruction : Instruction) : String :=
  (chartTypes.find? fun name => instruction.mentions name).getD "bar"

/-- The columns that keywords stand for. -/
def keywordColumns : List (List String × String) :=
  [(["name"], "Name"), (["email"], "Email"), (["status"], "Status"), (["date"], "Date"),
   (["amount", "price"], "Amount")]

/-- The columns of a table about which the instruction says nothing. -/
def usualColumns : List String :=
  ["Name", "Value", "Status"]

/-- The columns of a table: all quoted values if there are any, else the columns of the keywords
mentioned, else the usual ones. -/
def tableColumns (instruction : Instruction) : List String :=
  match quotedValues instruction with
  | [] =>
    let columns := (keywordColumns.filter fun entry => instruction.mentionsAny entry.1).map Prod.snd
    if columns.isEmpty then usualColumns else columns
  | values => values.map String.ofList

end Instruction
end Wireframe
