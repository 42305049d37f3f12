import Wireframe.Proofs.Instruction.Matching
import Wireframe.Proofs.Plan.InPlace
import Wireframe.Proofs.Plan.Removals

/-! The name in the request for another name for the buttons. Keywords are looked for between the
quotes as well, so that the request does what it says exactly if the name holds no word that asks for
something else. -/
namespace Wireframe

namespace Branch

open Forest

/-- The verb of the instructions that take a branch. -/
def verb : Branch → Verb
  | .addButton _ | .addInput _ _ | .addTable _ | .addChart _ _ | .addModal _ => .add
  | .removeButton | .removeTable | .removeChart | .removeInputs | .removeModal | .clear => .remove
  | .labelButtons _ | .setVariant _ | .titleCards _ | .titleNavbars _ | .setColumns _
  | .setChartType _ | .setPlaceholders _ => .modify
  | .moveButton _ _ => .move
  | .replaceTable | .replaceChart => .replace
  | .renameButtons _ | .renameTitles _ | .renameFields _ => .rename

/-- A branch belongs to one verb. -/
theorem verb_of_mem {layout : String} {i : Instruction} {verb : Verb} {branch : Branch}
    (h : branch ∈ ofVerb layout i verb) : branch.verb = verb := by
  have hRow {all : List Branch} (hSub : (ofVerb layout i verb).Sublist all)
      (hAll : ∀ branch ∈ all, branch.verb = verb) : branch.verb = verb :=
    hAll branch (hSub.subset h)
  cases verb with
  | add =>
      obtain ⟨_, _, _, _, _, _, hSub⟩ := add_sublist_additions layout i
      exact hRow hSub (by simp [additions, Branch.verb])
  | remove => exact hRow (remove_sublist i) (by simp [removals, Branch.verb])
  | modify => exact hRow (modify_sublist_modifications i) (by simp [modifications, Branch.verb])
  | move =>
      rw [ofVerb, move] at h
      split at h
      · rw [List.mem_singleton.mp h]
        rfl
      · cases h
  | replace =>
      rcases Swap.replace_cases i with ⟨swap, -, hBranch⟩ | ⟨-, hBranch⟩ <;> rw [ofVerb, hBranch] at h
      · rw [List.mem_singleton.mp h]
        cases swap <;> rfl
      · cases h
  | rename => exact hRow (rename_sublist_renamings i) (by simp [renamings, Branch.verb])

def Opens (letters text : String) : Prop :=
  letters.toList <+: text.toList

theorem opens_of_isPrefixOf {letters text : String}
    (h : letters.toList.isPrefixOf text.toList = true) : Opens letters text :=
  List.isPrefixOf_iff_prefix.mp h

theorem Opens.append {letters text : String} (h : Opens letters text) (more : String) :
    Opens letters (text ++ more) := by
  rw [Opens, String.toList_append]
  exact h.trans (List.prefix_append _ _)

/-- The three letters that an entry can start with, by the verb of the branch that writes it. -/
def openings : Verb → List String
  | .add => ["Add"]
  | .remove => ["Rem", "Res"]
  | .modify => ["Cha", "Upd"]
  | .move => ["Mov"]
  | .replace => ["Rep"]
  | .rename => ["Ren"]

/-- An entry begins with three letters that tell the verb of its branch. -/
theorem exists_opens (branch : Branch) :
    ∃ letters ∈ openings branch.verb, Opens letters branch.entry := by
  cases branch with
  | addButton | addInput | addChart | labelButtons | setVariant | titleCards | titleNavbars
    | renameButtons | renameTitles | renameFields =>
      exact ⟨_, .head _, ((opens_of_isPrefixOf (by decide)).append _).append _⟩
  | setPlaceholders =>
      exact ⟨_, .tail _ (.head _), ((opens_of_isPrefixOf (by decide)).append _).append _⟩
  | setChartType | moveButton => exact ⟨_, .head _, (opens_of_isPrefixOf (by decide)).append _⟩
  | setColumns => exact ⟨_, .tail _ (.head _), (opens_of_isPrefixOf (by decide)).append _⟩
  | clear => exact ⟨_, .tail _ (.head _), opens_of_isPrefixOf (by decide)⟩
  | addTable => exact ⟨_, .head _, @opens_of_isPrefixOf _ "Added table component" (by decide)⟩
  | addModal =>
      exact ⟨_, .head _, @opens_of_isPrefixOf _ "Added modal dialog with open button" (by decide)⟩
  | _ => exact ⟨_, .head _, opens_of_isPrefixOf (by decide)⟩

/-- Branches of different verbs write different entries. -/
theorem verb_eq_of_entry_eq {first second : Branch} (h : first.entry = second.entry) :
    first.verb = second.verb := by
  obtain ⟨letters, hLetters, hOpens⟩ := exists_opens first
  obtain ⟨letters', hLetters', hOpens'⟩ := exists_opens second
  have hThree : ∀ verb : Verb, ∀ letters ∈ openings verb, letters.toList.length = 3 := by
    rintro (_ | _ | _ | _ | _ | _) <;> decide
  have hSame : letters = letters' := by
    rw [h] at hOpens
    have hLength := (hThree _ _ hLetters).trans (hThree _ _ hLetters').symm
    have hPrefix := List.prefix_of_prefix_length_le hOpens hOpens' hLength.le
    exact String.toList_injective (hPrefix.eq_of_length hLength)
  have hApart : ∀ verb other : Verb, ∀ letters ∈ openings verb, letters ∈ openings other →
      verb = other := by
    rintro (_ | _ | _ | _ | _ | _) (_ | _ | _ | _ | _ | _) <;> decide
  exact hApart _ _ letters hLetters (hSame ▸ hLetters')

variable {branch : Branch} {rest : List Branch}

/-- Branches that are taken under a condition write nothing if each of them would write nothing on
the forest as it is. -/
theorem log_given_append (condition : Bool) (forest : Forest) :
    (steps (given condition [branch] ++ rest) forest).2 = [] ↔
      (condition = true → (branch.step forest).2 = []) ∧ (steps rest forest).2 = [] := by
  cases condition with
  | false => simp [given]
  | true =>
      -- A branch that writes nothing leaves the forest to the rest as it was.
      rw [given, if_pos rfl, List.singleton_append, steps_cons, List.append_eq_nil_iff]
      simp only [true_imp_iff]
      refine and_congr_right fun hNil => ?_
      rw [candid_step branch forest hNil]

theorem log_renameTitles (name : String) (forest : Forest) :
    ((renameTitles name).step forest).2 = [] ↔
      (hasKind .card forest || hasKind .navbar forest) = false := by
  dsimp only [step, Step.renameTitles]
  cases hasKind .card forest || hasKind .navbar forest <;> simp

theorem log_renameFields (name : String) (forest : Forest) :
    ((renameFields name).step forest).2 = [] ↔ hasKind .input forest = false := by
  dsimp only [step, Step.setProp]
  cases hasKind .input forest <;> simp

/-- The branches that the words of a name ask for, besides the one that names the buttons. -/
def furtherRenamings (name : String) : List Branch :=
  given (Instruction.mentions "title" name.toList) [.renameTitles name] ++
    (given (Instruction.mentionsAny ["label", "field"] name.toList) [.renameFields name] ++ [])

/-- The branches behind the renaming of buttons log nothing exactly when the name mentions no title
or label, or there is nothing of the kind to rename. -/
theorem log_furtherRenamings (name : String) (forest : Forest) :
    (steps (furtherRenamings name) forest).2 = [] ↔
      (Instruction.mentions "title" name.toList = true →
        (hasKind .card forest || hasKind .navbar forest) = false) ∧
      (Instruction.mentionsAny ["label", "field"] name.toList = true →
        hasKind .input forest = false) := by
  rw [furtherRenamings, log_given_append, log_given_append, log_renameTitles, log_renameFields]
  exact and_congr_right fun _ => and_iff_left rfl

end Branch

/-- An instruction with a keyword of renaming renames if no other verb takes precedence. -/
theorem Verb.of?_rename {i : Instruction}
    (hSilent : ∀ word ∈ Verb.rename.precedingKeywords, i.mentions word = false)
    (hWord : i.mentions "rename" = true) : of? i = some .rename := by
  refine Option.map_eq_some_iff.mpr ⟨(.rename, ["rename", "label"]),
    List.find?_eq_some_iff_append.mpr ⟨?_, keywords.takeWhile fun entry => entry.1 ≠ .rename, [],
      rfl, fun entry hEntry => ?_⟩, rfl⟩
  · exact List.any_eq_true.mpr ⟨"rename", List.mem_cons_self, hWord⟩
  · rw [Bool.not_eq_true', List.any_eq_false]
    intro word hMem
    exact Bool.eq_false_iff.mp (hSilent word (List.mem_flatMap.mpr ⟨entry, hEntry, hMem⟩))

namespace Plan

open Forest

/-- The words of a name that ask for something else than the name: the keywords that take precedence
over renaming, and the words for other things that can be renamed, if there are such things. -/
def steeringWords (forest : Forest) : List String :=
  Verb.rename.precedingKeywords ++
    ((if hasKind .card forest || hasKind .navbar forest then ["title"] else []) ++
      (if hasKind .input forest then ["label", "field"] else []))

/-- All buttons have got a name, nothing else has changed, and that is what the log says. -/
structure RenamesButtons (name : String) (old new : Plan) : Prop where
  layout : new.layout = old.layout
  components : Retouched
    (fun kind key => if Kind.button = kind ∧ key = "children" then some (.text name) else none)
    old.components new.components
  modifications : new.modifications = ["Renamed button to \"" ++ name ++ "\""]

/-- What the request mentions stands in front of the quotes or in the name. -/
theorem mentions_renameButton {name word : String} (hWord : '"' ∉ word.toList) :
    (Instruction.renameButton name).mentions word =
      (Instruction.mentions word "Rename the button to ".toList ||
        Instruction.mentions word name.toList) :=
  Instruction.mentions_quoting hWord _ _

/-- In front of the quotes stands no word that asks for something else. -/
theorem steering_mentions_renameButton (name word : String)
    (hWord : word ∈ Verb.rename.precedingKeywords ++ ["title", "label", "field"]) :
    (Instruction.renameButton name).mentions word = Instruction.mentions word name.toList := by
  have hWords : ∀ word ∈ Verb.rename.precedingKeywords ++ ["title", "label", "field"],
      '"' ∉ word.toList ∧ Instruction.mentions word "Rename the button to ".toList = false := by
    decide +kernel
  obtain ⟨hQuote, hOutside⟩ := hWords word hWord
  rw [mentions_renameButton hQuote, hOutside, Bool.false_or]

theorem plain_mentions_renameButton (name word : String)
    (hWord : word ∈ ["rename", "button"]) : (Instruction.renameButton name).mentions word = true := by
  have hWords : ∀ word ∈ ["rename", "button"], '"' ∉ word.toList ∧
      Instruction.mentions word "Rename the button to ".toList = true := by
    decide +kernel
  obtain ⟨hQuote, hOutside⟩ := hWords word hWord
  rw [mentions_renameButton hQuote, hOutside, Bool.true_or]

/-- The branches of the request, if its verb is to rename. -/
theorem branches_renameButton {name : String} (hFilled : name ≠ "")
    (hQuotes : ∀ c ∈ name.toList, isQuote c = false) (plan : Plan)
    (hVerb : Verb.of? (Instruction.renameButton name) = some .rename) :
    branches (Instruction.renameButton name) plan =
      .renameButtons name :: Branch.furtherRenamings name := by
  have hName := Instruction.newName?_renameButton hFilled hQuotes
  have hButton := plain_mentions_renameButton name "button" (by simp)
  have hTitle := steering_mentions_renameButton name "title" (by simp)
  have hFields : (Instruction.renameButton name).mentionsAny ["label", "field"] =
      Instruction.mentionsAny ["label", "field"] name.toList := by
    simp only [Instruction.mentionsAny, List.any_cons, List.any_nil,
      steering_mentions_renameButton name "label" (by simp),
      steering_mentions_renameButton name "field" (by simp)]
  rw [branches_of_verb hVerb]
  simp only [Branch.ofVerb, Branch.rename, Branch.forValue, hName, hButton, hTitle, hFields,
    Option.toList_some, List.flatMap_singleton]
  rfl

/-- If the verb is to rename, the request does what it says unless further branches do something. -/
theorem renamesButtons_iff_log {name : String} (hFilled : name ≠ "")
    (hQuotes : ∀ c ∈ name.toList, isQuote c = false) {plan : Plan}
    (hButton : hasKind .button plan.components = true)
    (hVerb : Verb.of? (Instruction.renameButton name) = some .rename) :
    RenamesButtons name plan (next (Instruction.renameButton name) (some plan)) ↔
      (Branch.steps (Branch.furtherRenamings name) plan.components).2 = [] := by
  have hNamed := retouched_setAll ⟨.button, "children", .text name⟩ plan.components
  have hStep : (Branch.renameButtons name).step plan.components =
      (setAll .button "children" (.text name) plan.components,
        ["Renamed button to \"" ++ name ++ "\""]) := by
    dsimp only [Branch.step, Step.setProp]
    rw [hButton]
    rfl
  have hLog : (Branch.steps (Branch.furtherRenamings name) plan.components).2 = [] ↔
      (Branch.steps (Branch.furtherRenamings name)
        (setAll .button "children" (.text name) plan.components)).2 = [] := by
    simp only [Branch.log_furtherRenamings, hNamed.hasKind_eq]
  rw [next_some, branches_renameButton hFilled hQuotes plan hVerb, Branch.steps_cons, hStep, hLog]
  refine ⟨fun h => List.append_right_eq_self.mp h.modifications, fun hNil => ⟨rfl, ?_, ?_⟩⟩
  · dsimp only
    rw [Branch.candid_steps _ _ hNil]
    exact hNamed
  · exact List.append_right_eq_self.mpr hNil

/-- The log of an instruction with a verb that takes precedence does not say that the buttons have got
a name. -/
theorem modifications_of_precedingKeyword {instruction : Instruction} {word : String}
    (hWord : word ∈ Verb.rename.precedingKeywords) (hMentions : instruction.mentions word = true)
    (name : String) (plan : Plan) :
    (next instruction (some plan)).modifications ≠ [(Branch.renameButtons name).entry] := by
  intro hLog
  rw [modifications_next, List.map_eq_singleton_iff] at hLog
  obtain ⟨⟨branch, entry⟩, hWritings, hEntry⟩ := hLog
  obtain ⟨hBranch, hWritten⟩ := Branch.mem_writings (hWritings ▸ List.mem_singleton_self _)
  have hSame : branch.verb = .rename :=
    @Branch.verb_eq_of_entry_eq _ (.renameButtons name) (hWritten.symm.trans hEntry)
  obtain ⟨verb, hVerb, hRow⟩ := exists_verb_of_mem_branches hBranch
  rw [Branch.verb_of_mem hRow] at hSame
  subst hSame
  rw [Verb.mentions_eq_false_of_preceding hVerb hWord] at hMentions
  cases hMentions

/-- Steering by a name. The request gives the name to all buttons, does nothing else and logs just that
exactly if the name holds none of the words that ask for something else. -/
theorem renamesButtons_iff {name : String} (hFilled : name ≠ "")
    (hQuotes : ∀ c ∈ name.toList, isQuote c = false) {plan : Plan}
    (hButton : hasKind .button plan.components = true) :
    RenamesButtons name plan (next (Instruction.renameButton name) (some plan)) ↔
      ∀ word ∈ steeringWords plan.components, Instruction.mentions word name.toList = false := by
  rw [steeringWords, List.forall_mem_append]
  by_cases hSilent : ∀ word ∈ Verb.rename.precedingKeywords,
      Instruction.mentions word name.toList = false
  · have hVerb : Verb.of? (Instruction.renameButton name) = some .rename := by
      refine Verb.of?_rename (fun word hWord => ?_) (plain_mentions_renameButton name _ (by simp))
      rw [steering_mentions_renameButton name word (List.mem_append_left _ hWord), hSilent word hWord]
    rw [renamesButtons_iff_log hFilled hQuotes hButton hVerb, Branch.log_furtherRenamings,
      and_iff_right hSilent]
    cases hasKind .card plan.components || hasKind .navbar plan.components <;>
      cases hasKind .input plan.components <;> simp [Instruction.mentionsAny]
  · refine iff_of_false (fun h => ?_) fun h => hSilent h.1
    push Not at hSilent
    obtain ⟨word, hWord, hMentions⟩ := hSilent
    rw [← steering_mentions_renameButton name word (List.mem_append_left _ hWord), Bool.ne_false_iff]
      at hMentions
    exact modifications_of_precedingKeyword hWord hMentions name plan h.modifications

/-- The request reaches the buttons at all depths, past the fields beside them. -/
theorem renamesButtons_twoButtons :
    RenamesButtons "Save & close" twoButtons
      (next (Instruction.renameButton "Save & close") (some twoButtons)) :=
  (renamesButtons_iff (by decide) (by simp [isQuote]) (by decide +kernel)).mpr (by decide +kernel)

def oneButton : Plan :=
  ⟨"default", [.leaf .button [("children", .text "Begin")]], []⟩

/-- A name with a keyword of removal removes a button. -/
theorem deleting_name :
    "Delete" ≠ "" ∧ (∀ c ∈ "Delete".toList, isQuote c = false) ∧
      hasKind .button oneButton.components = true ∧
      (next (Instruction.renameButton "Delete") (some oneButton)).modifications =
        ["Removed button"] ∧
      ¬ RenamesButtons "Delete" oneButton
        (next (Instruction.renameButton "Delete") (some oneButton)) := by
  have hLog : (next (Instruction.renameButton "Delete") (some oneButton)).modifications =
      ["Removed button"] := by decide +kernel
  refine ⟨by decide, by simp [isQuote], by decide +kernel, hLog, fun h => ?_⟩
  have hRenamed := h.modifications
  rw [hLog] at hRenamed
  exact absurd hRenamed (by decide +kernel)

end Plan
end Wireframe
