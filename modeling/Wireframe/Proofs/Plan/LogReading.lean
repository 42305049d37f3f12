import Wireframe.Proofs.Page.LogEntries
import Wireframe.Proofs.Plan.Branches

/-! The log of a plan read back. Each entry gives the operation of the branch that wrote it, unless the
branch changes titles, placeholders or columns to a text with the words of a replacement. -/
namespace Wireframe

namespace Branch

/-- The operation that the branch amounts to, if it is one that the log is to name. -/
def operation : Branch → Option Operation
  | .addButton label => some (.addRoot (Template.button label))
  | .addInput _ label => some (.addRoot (Template.labeledInput ("Enter " ++ label) label))
  | .labelButtons label => some (.updateProps (.leaf .button []) [.set "children" (.text label)])
  | .removeButton => some (.remove (.leaf .button []))
  | .replaceTable => some (.replace (.leaf .table []) Template.replacementChart)
  | .replaceChart => some (.replace (.leaf .chart []) Template.replacementTable)
  | _ => none

/-- The texts of the instruction that the entry of the branch shows. -/
def shown : Branch → List String
  | .addButton text | .addInput _ text | .labelButtons text | .titleCards text
  | .titleNavbars text | .setPlaceholders text | .renameButtons text | .renameTitles text
  | .renameFields text => [text]
  | .setColumns columns => columns
  | _ => []

/-- The texts of a change that is no operation. A renaming is not among these changes, since an
instruction with the words of a replacement has another verb. -/
def loose : Branch → List String
  | .titleCards text | .titleNavbars text | .setPlaceholders text => [text]
  | .setColumns columns => columns
  | _ => []

/-- The entry of the branch shows the words of a replacement that it does not tell of. -/
def Misleading (branch : Branch) : Prop :=
  ∃ text ∈ branch.loose, ∃ words ∈ Diff.replacements, words.toList <:+: text.toList

/-- The words of other entries that no text of the branch holds, for an instruction with them would
have taken other branches. -/
def foreign : Branch → List String
  | .titleCards _ | .titleNavbars _ | .setPlaceholders _ | .setColumns _ => ["Removed button"]
  | .renameButtons _ | .renameTitles _ | .renameFields _ => Diff.wordings
  | _ => []

/-- Words of the entry that are not the same for all instructions, but no text of one either. -/
def Chosen : Branch → Prop
  | .addChart type _ | .setChartType type => type ∈ Instruction.chartTypes
  | .setVariant variant => variant ∈ Step.buttonVariants
  | .moveButton _ name => name ∈ Step.moveTargets.map fun target => target.2.2
  | _ => True

/-- A text that an entry can show between quotes without any of some words. -/
def Clear (words : List String) (text : String) : Prop :=
  IsQuotable text ∧ ∀ word ∈ words, ¬ word.toList <:+: text.toList

instance (words : List String) (text : String) : Decidable (Clear words text) :=
  inferInstanceAs (Decidable (_ ∧ _))

/-- What the branch takes from an instruction can be told from the words of its entry. -/
structure Apt (branch : Branch) : Prop where
  shown : ∀ text ∈ branch.shown, Clear branch.foreign text
  chosen : branch.Chosen

/-- The entry of the branch gives its operation, unless the branch is misleading. -/
def ReadBack (branch : Branch) : Prop :=
  Diff.ofEntry? branch.entry = branch.operation ↔ ¬ branch.Misleading

/-- A branch that cannot mislead. -/
theorem readBack_of_loose_nil {branch : Branch} (hLoose : branch.loose = [])
    (hEntry : Diff.ofEntry? branch.entry = branch.operation) : branch.ReadBack := by
  refine iff_of_true hEntry fun ⟨text, hText, _⟩ => ?_
  rw [hLoose] at hText
  cases hText

/-- An entry that introduces the text of a change by words that name no operation. -/
theorem readBack_change {branch : Branch} (lead : String) {text : String}
    (hNone : branch.operation = none) (hLoose : branch.loose = [text])
    (hEntry : branch.entry = lead ++ "\"" ++ text ++ "\"") (hLead : Diff.Mute lead)
    (h : Clear ["Removed button"] text) : branch.ReadBack := by
  have hRemoved := h.2 _ List.mem_cons_self
  rw [ReadBack, hEntry, hNone, Diff.ofEntry?_mute hLead h.1, Diff.wordings,
    List.forall_mem_cons, and_iff_right hRemoved]
  simp [Misleading, hLoose]

/-- An entry that introduces a new name by words that name no operation. -/
theorem readBack_renaming {branch : Branch} (lead : String) {name : String}
    (hNone : branch.operation = none) (hLoose : branch.loose = [])
    (hEntry : branch.entry = lead ++ "\"" ++ name ++ "\"") (hLead : Diff.Mute lead)
    (h : Clear Diff.wordings name) : branch.ReadBack := by
  refine readBack_of_loose_nil hLoose ?_
  rw [hEntry, hNone]
  exact (Diff.ofEntry?_mute hLead h.1).mpr h.2

/-- An entry that shows no text of an instruction and names no operation. -/
theorem readBack_of_silent {branch : Branch} (hNone : branch.operation = none)
    (hLoose : branch.loose = []) (hEntry : Diff.Silent branch.entry) : branch.ReadBack := by
  refine readBack_of_loose_nil hLoose ?_
  rw [hNone]
  exact Diff.ofEntry?_silent hEntry

/-- A word that the signs of the entry keep apart stands in one of the columns. -/
theorem infix_entry_setColumns_iff {word : Text} (hComma : ',' ∉ word) (hColon : ':' ∉ word)
    (hSpace : word.head? ≠ some ' ') (hWord : word ≠ [])
    (hLead : ¬ word <:+: "Updated table columns".toList) (columns : List String) :
    word <:+: (setColumns columns).entry.toList ↔ ∃ column ∈ columns, word <:+: column.toList := by
  have hEntry : (setColumns columns).entry =
      "Updated table columns: " ++ ", ".intercalate columns := rfl
  have hStart : "Updated table columns: ".toList =
      "Updated table columns".toList ++ [':', ' '] := rfl
  have hSeparator : ", ".toList = [',', ' '] := rfl
  rw [hEntry, String.toList_append, String.toList_intercalate, hStart, hSeparator,
    List.append_assoc, List.cons_append, List.singleton_append, Text.infix_append_cons_iff hColon,
    Text.infix_cons_iff_of_head_ne hSpace, Text.infix_intercalate_iff hComma hSpace hWord,
    or_iff_right hLead]
  simp only [List.mem_map, exists_exists_and_eq_and]

theorem readBack_setColumns {columns : List String} (h : (setColumns columns).Apt) :
    (setColumns columns).ReadBack := by
  have hQuote : '"' ∉ (setColumns columns).entry.toList := by
    rw [← List.singleton_infix_iff, infix_entry_setColumns_iff (by decide) (by decide) (by decide)
      (by decide) (by decide)]
    rintro ⟨column, hColumn, hInfix⟩
    exact (h.shown column hColumn).1.2 ((List.singleton_infix_iff _ _).mp hInfix)
  have hLead : ∀ words ∈ Diff.wordings, ¬ words.toList <:+: "Updated table columns".toList := by
    decide
  have hWords : ∀ words ∈ Diff.wordings, words.toList <:+: (setColumns columns).entry.toList ↔
      ∃ column ∈ columns, words.toList <:+: column.toList := by
    intro words hMem
    obtain ⟨-, hComma, hColon, hSpace, hFilled⟩ := Diff.wordings_spec words hMem
    exact infix_entry_setColumns_iff hComma hColon hSpace hFilled (hLead words hMem) columns
  have hRemoved : ¬ "Removed button".toList <:+: (setColumns columns).entry.toList := by
    rw [hWords _ List.mem_cons_self]
    rintro ⟨column, hColumn, hInfix⟩
    exact (h.shown column hColumn).2 _ List.mem_cons_self hInfix
  have hNone : (setColumns columns).operation = none := rfl
  rw [ReadBack, Diff.ofEntry?_of_notMem hQuote, hNone, Diff.worded?_eq_none_iff, Diff.wordings,
    List.forall_mem_cons, and_iff_right hRemoved]
  constructor
  · rintro hFree ⟨column, hColumn, words, hMem, hInfix⟩
    exact hFree words hMem
      ((hWords words (List.mem_cons_of_mem _ hMem)).mpr ⟨column, hColumn, hInfix⟩)
  · intro hClear words hMem hInfix
    obtain ⟨column, hColumn, hInfix⟩ := (hWords words (List.mem_cons_of_mem _ hMem)).mp hInfix
    exact hClear ⟨column, hColumn, words, hMem, hInfix⟩

/-- The entry of an apt branch gives its operation, unless the branch is misleading. -/
theorem readBack {branch : Branch} (h : branch.Apt) : branch.ReadBack := by
  cases branch with
  | addButton label =>
      exact readBack_of_loose_nil rfl
        (Diff.ofEntry?_addedButton (h.shown label List.mem_cons_self).1)
  | addInput placeholder label =>
      exact readBack_of_loose_nil rfl
        (Diff.ofEntry?_addedInput (h.shown label List.mem_cons_self).1)
  | labelButtons label =>
      exact readBack_of_loose_nil rfl
        (Diff.ofEntry?_changedLabel (h.shown label List.mem_cons_self).1)
  | removeButton | replaceTable | replaceChart => exact readBack_of_loose_nil rfl rfl
  | titleCards title =>
      exact readBack_change "Changed card title to " rfl rfl rfl (by decide)
        (h.shown title List.mem_cons_self)
  | titleNavbars title =>
      exact readBack_change "Changed navbar title to " rfl rfl rfl (by decide)
        (h.shown title List.mem_cons_self)
  | setPlaceholders placeholder =>
      exact readBack_change "Updated input placeholder to " rfl rfl rfl (by decide)
        (h.shown placeholder List.mem_cons_self)
  | renameButtons name =>
      exact readBack_renaming "Renamed button to " rfl rfl rfl (by decide)
        (h.shown name List.mem_cons_self)
  | renameTitles name =>
      exact readBack_renaming "Renamed title to " rfl rfl rfl (by decide)
        (h.shown name List.mem_cons_self)
  | renameFields name =>
      exact readBack_renaming "Renamed field label to " rfl rfl rfl (by decide)
        (h.shown name List.mem_cons_self)
  | setColumns => exact readBack_setColumns h
  | addChart type title =>
      have hTypes : ∀ type ∈ Instruction.chartTypes,
          Diff.Silent ("Added " ++ type ++ " chart") := by decide +kernel
      exact readBack_of_silent rfl rfl (hTypes type h.chosen)
  | setChartType type =>
      have hTypes : ∀ type ∈ Instruction.chartTypes,
          Diff.Silent ("Changed chart type to " ++ type) := by decide +kernel
      exact readBack_of_silent rfl rfl (hTypes type h.chosen)
  | setVariant variant =>
      have hVariants : ∀ variant ∈ Step.buttonVariants,
          Diff.Silent ("Changed button to " ++ variant ++ " variant") := by decide +kernel
      exact readBack_of_silent rfl rfl (hVariants variant h.chosen)
  | moveButton kind name =>
      have hNames : ∀ name ∈ Step.moveTargets.map fun target => target.2.2,
          Diff.Silent ("Moved button to " ++ name) := by decide +kernel
      exact readBack_of_silent rfl rfl (hNames name h.chosen)
  | addTable layout =>
      have hEntry : Diff.Silent "Added table component" := by decide +kernel
      exact readBack_of_silent rfl rfl hEntry
  | addModal title =>
      have hEntry : Diff.Silent "Added modal dialog with open button" := by decide +kernel
      exact readBack_of_silent rfl rfl hEntry
  | removeTable | removeChart | removeInputs | removeModal | clear =>
      exact readBack_of_silent rfl rfl (by decide +kernel)

/-- A branch that shows one text. -/
theorem apt_of_shown {branch : Branch} {text : String} (h : Clear branch.foreign text)
    (hShown : branch.shown = [text]) (hChosen : branch.Chosen) : branch.Apt :=
  ⟨by simpa [hShown] using h, hChosen⟩

/-- A branch that shows no text. -/
theorem apt_of_shown_nil {branch : Branch} (hShown : branch.shown = [])
    (hChosen : branch.Chosen) : branch.Apt :=
  ⟨by simp [hShown], hChosen⟩

theorem clear_nil {text : String} (h : IsQuotable text) : Clear [] text :=
  ⟨h, fun _ hWord => absurd hWord List.not_mem_nil⟩

section

variable {i : Instruction} {verb : Verb}

open Instruction

/-- A part of an instruction does not hold words with a keyword that takes precedence. -/
theorem clear_of_part (hVerb : Verb.of? i = some verb) {words : List String}
    (hWords : ∀ entry ∈ words, ∃ word ∈ verb.precedingKeywords,
      word.toList <:+: Text.lower entry.toList)
    {text : String} (hQuotable : IsQuotable text) (hPart : text.toList <:+: i) :
    Clear words text := by
  refine ⟨hQuotable, fun entry hEntry hInfix => ?_⟩
  obtain ⟨word, hWord, hLower⟩ := hWords entry hEntry
  have hMentions : i.mentions word = true := mentions_of_part (hInfix.trans hPart) hLower
  rw [Verb.mentions_eq_false_of_preceding hVerb hWord] at hMentions
  cases hMentions

/-- A text read off an instruction holds no entry words with a keyword of a preceding verb: with the
keyword the instruction would have had that verb. -/
theorem clear_of_firstValue? (hVerb : Verb.of? i = some verb) {words : List String}
    (hWords : ∀ entry ∈ words, ∃ word ∈ verb.precedingKeywords,
      word.toList <:+: Text.lower entry.toList)
    {phrases : List Phrase} {text : String} (h : Phrase.firstValue? phrases i = some text) :
    Clear words text :=
  clear_of_part hVerb hWords (Phrase.isQuotable_firstValue? h) (Phrase.infix_of_firstValue? h)

/-- An instruction that modifies does not hold the words of a removal. -/
theorem removed_foreign_modify : ∀ entry ∈ ["Removed button"],
    ∃ word ∈ Verb.modify.precedingKeywords, word.toList <:+: Text.lower entry.toList := by
  decide +kernel

/-- An instruction that renames holds the words of no entry that is known by words alone. -/
theorem wordings_foreign_rename : ∀ entry ∈ Diff.wordings,
    ∃ word ∈ Verb.rename.precedingKeywords, word.toList <:+: Text.lower entry.toList := by
  decide +kernel

/-- No column name, read or usual, holds the words for a removed button, since an instruction that
mentions a removal is no modification. -/
theorem clear_tableColumns (hVerb : Verb.of? i = some .modify) :
    ∀ column ∈ i.tableColumns, Clear ["Removed button"] column := by
  intro column hColumn
  have hUsual : ∀ name ∈ usualColumns ++ keywordColumns.map Prod.snd,
      Clear ["Removed button"] name := by decide
  rcases tableColumns_cases hColumn with ⟨value, rfl, hQuotes⟩ | hName
  · refine clear_of_part hVerb removed_foreign_modify hQuotes.isQuotable ?_
    rw [String.toList_ofList]
    exact hQuotes.part
  · exact hUsual column hName

/-- The texts that an addition shows have to be quotable, and no more. -/
theorem apt_add (layout : String) : ∀ branch ∈ add layout i, branch.Apt := by
  have hLabel : IsQuotable (i.buttonLabel?.getD "New Button") := isQuotable_getD (by decide)
  have hField : IsQuotable (i.label?.getD "New Field") := isQuotable_getD (by decide)
  simp only [add, List.flatten_cons, List.flatten_nil, List.append_nil, List.forall_mem_append,
    forall_mem_given, List.forall_mem_singleton]
  exact ⟨fun _ => apt_of_shown (clear_nil hLabel) rfl trivial,
    fun _ => apt_of_shown (clear_nil hField) rfl trivial,
    fun _ => apt_of_shown_nil rfl trivial,
    fun _ => apt_of_shown_nil rfl mem_chartTypes_chartType,
    fun _ => apt_of_shown_nil rfl trivial⟩

theorem apt_remove : ∀ branch ∈ remove i, branch.Apt := by
  have hRow : ∀ branch ∈ remove i, branch.shown = [] ∧ branch.Chosen := by
    simp only [remove, List.flatten_cons, List.flatten_nil, List.append_nil,
      List.forall_mem_append, forall_mem_given, List.forall_mem_singleton, shown, Chosen,
      implies_true, and_self]
  exact fun branch hBranch =>
    apt_of_shown_nil (hRow branch hBranch).1 (hRow branch hBranch).2

/-- The texts that a modification shows must not hold the words for a removed button. That the
instruction is a modification rules this out. -/
theorem apt_modify (hVerb : Verb.of? i = some .modify) : ∀ branch ∈ modify i, branch.Apt := by
  have hLabel : ∀ label ∈ i.newLabel?, (labelButtons label).Apt := fun label hFound =>
    apt_of_shown (clear_nil (Phrase.isQuotable_firstValue? hFound)) rfl trivial
  have hVariant : ∀ variant ∈ Step.buttonVariants.find? fun variant => i.mentions variant,
      (setVariant variant).Apt := fun variant hFound =>
    apt_of_shown_nil rfl (List.mem_of_find?_eq_some hFound)
  have hClear {phrases : List Phrase} : ∀ text ∈ Phrase.firstValue? phrases i,
      Clear ["Removed button"] text := fun text hFound =>
    clear_of_firstValue? hVerb removed_foreign_modify hFound
  simp only [modify, modifyButtons, List.flatten_cons, List.flatten_nil, List.append_nil,
    List.forall_mem_append, forall_mem_given, forall_mem_forValue, List.forall_mem_cons,
    List.not_mem_nil, false_imp_iff, implies_true, and_true]
  exact ⟨fun _ => ⟨hLabel, hVariant⟩,
    fun _ title hFound => ⟨apt_of_shown (hClear title hFound) rfl trivial,
      apt_of_shown (hClear title hFound) rfl trivial⟩,
    fun _ => ⟨clear_tableColumns hVerb, trivial⟩,
    fun _ => apt_of_shown_nil rfl mem_chartTypes_chartType,
    fun _ placeholder hFound => apt_of_shown (hClear placeholder hFound) rfl trivial⟩

theorem apt_move : ∀ branch ∈ move i, branch.Apt :=
  forall_mem_move fun _ hTarget => apt_of_shown_nil rfl (List.mem_map_of_mem hTarget)

theorem apt_replace : ∀ branch ∈ replace i, branch.Apt :=
  forall_mem_replace (apt_of_shown_nil rfl trivial) (apt_of_shown_nil rfl trivial)

/-- The new name is read off an instruction without a keyword of the verbs that precede renaming. -/
theorem apt_rename (hVerb : Verb.of? i = some .rename) : ∀ branch ∈ rename i, branch.Apt := by
  refine forall_mem_forValue.mpr fun name hFound => ?_
  have hName := clear_of_firstValue? hVerb wordings_foreign_rename hFound
  simp only [List.flatten_cons, List.flatten_nil, List.append_nil, List.forall_mem_append,
    forall_mem_given, List.forall_mem_singleton]
  exact ⟨fun _ => apt_of_shown hName rfl trivial, fun _ => apt_of_shown hName rfl trivial,
    fun _ => apt_of_shown hName rfl trivial⟩

/-- Whatever the instruction, its branches are apt. -/
theorem apt_ofVerb (layout : String) (hVerb : Verb.of? i = some verb) :
    ∀ branch ∈ ofVerb layout i verb, branch.Apt := by
  cases verb with
  | add => exact apt_add layout
  | remove => exact apt_remove
  | modify => exact apt_modify hVerb
  | move => exact apt_move
  | replace => exact apt_replace
  | rename => exact apt_rename hVerb

end

end Branch

namespace Plan

/-- The log of a new plan is what the branches of the instruction have written, and each entry gives
the operation of its branch, unless that branch changes a title, a placeholder or columns to a text
with the words of a replacement. -/
theorem log_read_back (instruction : Instruction) (previous : Option Plan) :
    (next instruction previous).modifications = (writings instruction previous).map Prod.snd ∧
      ∀ writing ∈ writings instruction previous,
        Diff.ofEntry? writing.2 = writing.1.operation ↔ ¬ writing.1.Misleading := by
  refine ⟨modifications_next instruction previous, fun writing hWriting => ?_⟩
  cases previous with
  | none => cases hWriting
  | some previous =>
      obtain ⟨hBranch, hEntry⟩ := Branch.mem_writings hWriting
      obtain ⟨verb, hVerb, hRow⟩ := exists_verb_of_mem_branches hBranch
      rw [hEntry]
      exact Branch.readBack (Branch.apt_ofVerb _ hVerb writing.1 hRow)

/-- A title can be taken for the replacement of a table. -/
theorem misread_title :
    let instruction := "Change the title to \"Replaced table with chart\"".toList
    let previous : Plan := ⟨"default", [.leaf .card [("title", .text "Users")]], []⟩
    let written := "Changed card title to \"Replaced table with chart\""
    (next instruction (some previous)).modifications = [written] ∧
      (Branch.titleCards "Replaced table with chart", written) ∈
        writings instruction (some previous) ∧
      (Branch.titleCards "Replaced table with chart").operation = none ∧
      Diff.ofEntry? written =
        some (.replace (.leaf .table []) Template.replacementChart) := by
  refine ⟨?_, ?_, rfl, rfl⟩
  · decide +kernel
  · decide +kernel

end Plan
end Wireframe
