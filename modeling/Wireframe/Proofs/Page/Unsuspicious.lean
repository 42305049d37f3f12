import Wireframe.Proofs.Page.Gate
import Wireframe.Proofs.Page.Pages
import Wireframe.Proofs.Value.WrittenTexts
import Wireframe.Settings

/-! Plans that give the safety gate no reason for an alarm: what it looks for stands in none of their
texts. Writing such a plan as a page makes no new place for it, neither within the notation of values
nor where two parts of the page meet. -/
namespace Wireframe

namespace Safety

/-- What no text of a page may hold. -/
def watchwords : List String :=
  "<" :: "import" :: "style" :: dangerousWords

/-- The text holds no control character and nothing that the gate looks for. -/
def Unsuspicious (s : String) : Prop :=
  Value.Uncontrolled s ∧ ∀ words ∈ watchwords, ¬ words.toList <:+: s.toList

instance (s : String) : Decidable (Unsuspicious s) :=
  inferInstanceAs (Decidable (_ ∧ _))

end Safety

/-- All keys of props and all texts in their values are unsuspicious. -/
def Plan.Unsuspicious (plan : Plan) : Prop :=
  ∀ c ∈ Forest.walk plan.components, ∀ s ∈ Value.entriesTexts c.props, Safety.Unsuspicious s

instance (plan : Plan) : Decidable plan.Unsuspicious :=
  inferInstanceAs (Decidable (∀ c ∈ _, ∀ s ∈ _, Safety.Unsuspicious s))

namespace Page

open Text Value

variable {word : Text}

/-- A word that no attribute holds but within a text of its prop. -/
structure Unattributed (word : Text) : Prop extends Unwritten word where
  marks : ∀ c ∈ " =\\".toList, c ∉ word

instance (word : Text) : Decidable (Unattributed word) :=
  letI : Decidable (∀ c ∈ " =\\".toList, c ∉ word) := List.decidableBAll _ _
  decidable_of_iff (Unwritten word ∧ ∀ c ∈ " =\\".toList, c ∉ word)
    ⟨fun ⟨hWritten, hMarks⟩ => ⟨hWritten, hMarks⟩, fun h => ⟨h.toUnwritten, h.marks⟩⟩

/-- A word that no line of a page holds but within a text of its props. -/
structure Unrendered (word : Text) : Prop extends Unattributed word where
  edges : ∀ c ∈ "</>\n".toList, c ∉ word
  tags : ∀ kind ∈ Kind.all, ¬ word <:+: kind.tag

instance (word : Text) : Decidable (Unrendered word) :=
  letI : Decidable (∀ c ∈ "</>\n".toList, c ∉ word) := List.decidableBAll _ _
  decidable_of_iff (Unattributed word ∧ (∀ c ∈ "</>\n".toList, c ∉ word) ∧
      ∀ kind ∈ Kind.all, ¬ word <:+: kind.tag)
    ⟨fun ⟨hAttributes, hEdges, hTags⟩ => ⟨hAttributes, hEdges, hTags⟩,
      fun h => ⟨h.toUnattributed, h.edges, h.tags⟩⟩

namespace Unattributed

variable (hWord : Unattributed word)
include hWord

/-- A word without signs cannot run across the sign of an assignment, so it lies in the key or in
the value. -/
theorem not_infix_assignment {key value : Text} (hKey : ¬ word <:+: key)
    (hValue : ¬ word <:+: value) (start stop : Char) (hStart : start ∈ signChars)
    (hStop : stop ∈ signChars) :
    ¬ word <:+: key ++ '=' :: start :: value ++ [stop] := by
  rw [List.append_assoc, List.cons_append, infix_append_cons_iff (hWord.marks '=' (by decide))]
  exact not_or.mpr ⟨hKey, hWord.not_infix_between hStart hStop hValue⟩

/-- A word in an attribute lies in its key or in a text of its value. -/
theorem not_infix_attribute? {key : String} {value : Value} {text : Text}
    (hKey : ¬ word <:+: key.toList)
    (hValue : ∀ s ∈ texts value, Uncontrolled s ∧ ¬ word <:+: s.toList)
    (h : attribute? key value = some text) : ¬ word <:+: text := by
  have hEncoded := not_infix_encode hWord.toUnwritten (hWord.marks '\\' (by decide)) hValue
  have hBraced := hWord.not_infix_assignment hKey hEncoded '\x7b' '\x7d' (by decide) (by decide)
  unfold attribute? at h
  split at h
  · cases h
    exact hKey
  · cases h
  · rename_i s
    split at h
    · cases h
      simpa using hBraced
    · cases h
      have hText := (hValue s (List.mem_singleton_self s)).2
      exact hWord.not_infix_assignment hKey hText '"' '"' (by decide) (by decide)
  · cases h
    simpa using hBraced

/-- Putting attributes behind a text makes no new place for the word. -/
theorem shuns_attributes {props : Props}
    (h : ∀ s ∈ entriesTexts props, Uncontrolled s ∧ ¬ word <:+: s.toList) :
    Shuns word (attributes props) := by
  refine Shuns.flatMap fun text hText => Shuns.cons (hWord.marks ' ' (by decide)) ?_
  obtain ⟨⟨key, value⟩, hEntry, hAttribute⟩ := List.mem_filterMap.mp hText
  obtain ⟨hKey, hTexts⟩ := mem_entriesTexts hEntry
  exact hWord.not_infix_attribute? (h key hKey).2 (fun s hs => h s (hTexts s hs)) hAttribute

end Unattributed

namespace Unrendered

variable (hWord : Unrendered word)
include hWord

theorem shuns_spaces (count : Nat) : Shuns word (spaces count) := by
  induction count with
  | zero => exact Shuns.nil
  | succ count ih =>
      exact Shuns.cons (hWord.marks ' ' (by decide)) (ih.absent hWord.ne_nil)

theorem shuns_end {c : Char} (hc : c ∈ "</>\n".toList) : Shuns word [c] :=
  Shuns.cons (hWord.edges c hc) (List.infix_nil.not.mpr hWord.ne_nil)

/-- A word in an opening tag lies in a text of its props, as the tag names of the vocabulary hold
none of the words. -/
theorem shuns_openingTag {kind : Kind} {props : Props}
    (h : ∀ s ∈ entriesTexts props, Uncontrolled s ∧ ¬ word <:+: s.toList) :
    Shuns word (openingTag kind props) := by
  have hAttributes := hWord.shuns_attributes h
  rw [openingTag, List.append_assoc, List.cons_append]
  refine Shuns.cons (hWord.edges '<' (by decide)) ?_
  exact (hAttributes.append (hWord.shuns_end (by decide))) _ (hWord.tags kind (Kind.mem_all kind))

theorem shuns_closingTag (kind : Kind) : Shuns word (closingTag kind.tag) := by
  have hSlash : Shuns word ('/' :: kind.tag) :=
    Shuns.cons (hWord.edges '/' (by decide)) (hWord.tags kind (Kind.mem_all kind))
  refine Shuns.cons (hWord.edges '<' (by decide)) ?_
  exact (hSlash.append (hWord.shuns_end (by decide))).absent hWord.ne_nil

/-- The lines of components make no new place for the word if their texts do not hold it. -/
theorem shuns_lines {forest : Forest} (h : ∀ c ∈ Forest.walk forest, ∀ s ∈ entriesTexts c.props,
    Uncontrolled s ∧ ¬ word <:+: s.toList) (indent : Nat) :
    Shuns word (Line.texts (Forest.lines indent forest)) := by
  refine Shuns.flatMap fun line hLine => ?_
  obtain ⟨c, hc, hMark⟩ := mark_of_mem_lines hLine
  have hTag : Shuns word line.mark.text := by
    rcases hMark with hMark | hMark
    · rw [hMark, Mark.text_opening]
      exact hWord.shuns_openingTag (h c hc)
    · rw [hMark, Mark.text_closing]
      exact hWord.shuns_closingTag c.kind
  exact ((hWord.shuns_spaces line.indent).append hTag).append (hWord.shuns_end (by decide))

end Unrendered

def usualFrame : Frame :=
  ⟨"GeneratedUI", "@/components/ui"⟩

example : (Settings.ofEnvironment []).map Settings.frame = .ok usualFrame := by
  rfl

end Page

namespace Safety

open Page Text Value

/-- Text without `<` in front adds no tag name. -/
theorem tagNames_angleFree_append {free : Text} (h : angleFree free = true) (rest : Text) :
    tagNames (free ++ rest) = tagNames rest := by
  induction free with
  | nil => rfl
  | cons c free ih =>
      rw [angleFree_cons, Bool.and_eq_true, bne_iff_ne] at h
      rw [List.cons_append, tagNames, if_neg h.1, ih h.2]

/-- The gate reads the name of the kind in a tag. -/
theorem tagName?_mark (mark : Mark) (rest : Text) :
    ∃ kind : Kind, tagName? (mark.inner ++ rest) = some kind.tag := by
  cases mark with
  | opening kind props =>
      obtain ⟨c, name, hTag, hAlpha, hName⟩ := tag_eq_cons kind
      have hRead := (tagName?_of_stopsAt hAlpha hName
        (stopsAt_attributes props rest (by decide) (by decide))).1
      exact ⟨kind, by simpa [Mark.inner, hTag] using hRead⟩
  | closing kind =>
      obtain ⟨c, name, hTag, hAlpha, hName⟩ := tag_eq_cons kind
      have hRead := (tagName?_of_stopsAt hAlpha hName
        (stopsAt_cons.mpr (by decide) : StopsAt isTagNamePart ('>' :: rest))).2
      exact ⟨kind, by simpa [Mark.inner, hTag] using hRead⟩

/-- Text without `<` is allowed in front of allowed text. -/
theorem allowed_angleFree_append {free : Text} (hFree : angleFree free = true) {rest : Text}
    (h : Allowed rest) : Allowed (free ++ rest) := by
  rwa [Allowed, tagNames_angleFree_append hFree]

theorem allowed_of_angleFree {free : Text} (hFree : angleFree free = true) : Allowed free := by
  have hNil : Allowed [] := fun name hName => absurd hName List.not_mem_nil
  have hAppend := allowed_angleFree_append hFree hNil
  rwa [List.append_nil] at hAppend

/-- A `<` before something that is no name changes nothing. -/
theorem allowed_angle_of_none {text : Text} (hName : tagName? text = none) (h : Allowed text) :
    Allowed ('<' :: text) := by
  rwa [Allowed, tagNames, if_pos rfl, hName]

/-- The lines of a page hold tags of the vocabulary only, provided their props hold no
`<`. -/
theorem allowed_texts {lines : List Line} (h : ∀ line ∈ lines, angleFree line.mark.inner = true)
    {rest : Text} (hRest : Allowed rest) : Allowed (Line.texts lines ++ rest) := by
  induction lines with
  | nil => exact hRest
  | cons line lines ih =>
      obtain ⟨hInner, hLines⟩ := List.forall_mem_cons.mp h
      obtain ⟨kind, hName⟩ := tagName?_mark line.mark ('\n' :: (Line.texts lines ++ rest))
      rw [Line.texts_cons, List.append_assoc, Line.text_append]
      apply allowed_angleFree_append (angleFree_spaces _)
      rw [Allowed, Mark.text, List.cons_append, tagNames, if_pos rfl, hName]
      refine List.forall_mem_cons.mpr ⟨by rw [Kind.ofTag?_tag]; rfl, ?_⟩
      rw [List.append_cons]
      exact allowed_angleFree_append (by simp [hInner]) (ih hLines)

/-- The tags of a page are those of its lines. -/
theorem allowed_page {frame : Frame} (hFrame : frame.AngleFree) {lines : List Line}
    (h : ∀ line ∈ lines, angleFree line.mark.inner = true) : Allowed (page frame lines) := by
  have hClosing : Allowed (closing frame) := by
    rw [closing_eq]
    exact allowed_angleFree_append (by decide)
      (allowed_angle_of_none rfl (allowed_of_angleFree (angleFree_behindBlock hFrame)))
  rw [page, opening_eq, List.append_assoc]
  apply allowed_angleFree_append (angleFree_beforeBlock hFrame)
  exact allowed_angle_of_none rfl
    (allowed_angleFree_append (by decide : angleFree ">\n".toList = true)
      (allowed_texts h hClosing))

/-- A style attribute is seen only where its name stands. -/
theorem infix_of_hasStyle {inWord : Bool} {text : Text} (h : hasStyle inWord text = true) :
    "style".toList <:+: text := by
  induction text generalizing inWord with
  | nil => cases h
  | cons c text ih =>
      rw [hasStyle, Bool.or_eq_true, Bool.and_eq_true] at h
      rcases h with ⟨-, hStarts⟩ | hLater
      · rw [startsStyle] at hStarts
        split at hStarts
        · cases hStarts
        · rename_i rest hRest
          rw [eq_append_of_after? hRest]
          exact (List.prefix_append _ _).isInfix
      · exact (ih hLater).trans (List.suffix_cons _ _).isInfix

/-- What passes for an import holds the word. -/
theorem infix_of_afterImport? {path : String} {text rest : Text}
    (h : afterImport? path text = some rest) : "import".toList <:+: text := by
  obtain ⟨names, hNames, -⟩ := Option.bind_eq_some_iff.mp h
  rw [eq_append_of_after? hNames]
  exact ⟨[], " \x7b".toList ++ names, by simp⟩

/-- Without the word there is no import to count. -/
theorem countImports_eq_zero {path : String} {fuel : Nat} {startsLine : Bool} {text : Text}
    (h : ¬ "import".toList <:+: text) : countImports path fuel startsLine text = 0 := by
  induction fuel generalizing startsLine text with
  | zero => rfl
  | succ fuel ih =>
      cases text with
      | nil => rfl
      | cons c text =>
          have hNone : (if startsLine then afterImport? path (c :: text) else none) = none := by
            split
            · exact Option.eq_none_iff_forall_ne_some.mpr fun rest hRest =>
                h (infix_of_afterImport? hRest)
            · rfl
          rw [countImports, hNone]
          exact ih fun hLater => h (hLater.trans (List.suffix_cons _ _).isInfix)

def usualLead : Text :=
  "export const GeneratedUI = () => \x7b\n  return (\n    <>\n".toList

/-- A page with nothing set is its header and, on a new line, the rest. -/
theorem page_usualFrame (lines : List Line) : page usualFrame lines =
    header usualFrame ++ '\n' :: (usualLead ++ (Line.texts lines ++ closing usualFrame)) := by
  have hOpening : opening usualFrame = header usualFrame ++ '\n' :: usualLead := by
    decide +kernel
  rw [page, hOpening, List.append_assoc, List.cons_append]

/-- The usual header holds one import. -/
theorem countImports_header (fuel : Nat) (rest : Text) :
    countImports "@/components/ui" (fuel + 28) true (header usualFrame ++ rest) =
      1 + countImports "@/components/ui" fuel false ('\n' :: rest) := by
  rfl

/-- The watchwords against all fixed texts of a page. -/
theorem watchwords_spec : Unattributed "<".toList ∧
    (∀ words ∈ "import" :: "style" :: dangerousWords, Unrendered words.toList ∧
      ¬ words.toList <:+: usualLead ∧ ¬ words.toList <:+: (closing usualFrame).tail) ∧
    ∀ words ∈ "style" :: dangerousWords, ¬ words.toList <:+: header usualFrame := by
  decide +kernel

theorem unattributed_angle : Unattributed "<".toList :=
  watchwords_spec.1

/-- None of the words the check looks for occurs in what the renderer writes on its own. -/
theorem unrendered_of_mem : ∀ words ∈ "import" :: "style" :: dangerousWords,
    Unrendered words.toList :=
  fun words hWords => (watchwords_spec.2.1 words hWords).1

/-- The default frame writes none of the words into the lines around the content, behind its header. -/
theorem not_infix_usual : ∀ words ∈ "import" :: "style" :: dangerousWords,
    ¬ words.toList <:+: usualLead ∧ ¬ words.toList <:+: (closing usualFrame).tail :=
  fun words hWords => (watchwords_spec.2.1 words hWords).2

/-- The header holds the one import, and none of the other words. -/
theorem not_infix_header : ∀ words ∈ "style" :: dangerousWords,
    ¬ words.toList <:+: header usualFrame :=
  watchwords_spec.2.2

variable {plan : Plan}

/-- What stands on the page of a plan behind the header and a line break. -/
def usualBody (plan : Plan) : Text :=
  usualLead ++ (Line.texts (Forest.lines 6 plan.components) ++ closing usualFrame)

theorem render_usualFrame (plan : Plan) :
    render usualFrame plan = header usualFrame ++ '\n' :: usualBody plan := by
  rw [render_eq_page, page_usualFrame]
  rfl

section

variable (h : plan.Unsuspicious)
include h

/-- In an unsuspicious plan no text of any prop holds a word the check looks for. -/
theorem free_of_unsuspicious {words : String} (hWords : words ∈ watchwords) :
    ∀ c ∈ Forest.walk plan.components, ∀ s ∈ entriesTexts c.props,
      Uncontrolled s ∧ ¬ words.toList <:+: s.toList := by
  intro c hc s hs
  obtain ⟨hControl, hFree⟩ := h c hc s hs
  exact ⟨hControl, hFree words hWords⟩

/-- No attribute of the plan holds `<`, so that every tag ends where it should. -/
theorem angleFree_lines_of_unsuspicious :
    ∀ line ∈ Forest.lines 6 plan.components, angleFree line.mark.inner = true := by
  intro line hLine
  obtain ⟨c, hc, hMark | hMark⟩ := mark_of_mem_lines hLine
  · have hShuns := unattributed_angle.shuns_attributes
      (free_of_unsuspicious h List.mem_cons_self c hc)
    have hAttributes : angleFree (attributes c.props) = true := by
      rw [angleFree_iff]
      intro hMem
      exact hShuns.absent (by decide) ((List.singleton_infix_iff '<' _).mpr hMem)
    rw [hMark]
    simp [Mark.inner, angleFree_tag, hAttributes]
  · rw [hMark]
    simp [Mark.inner, angleFree_tag]

/-- Behind the header stands no watchword. -/
theorem not_infix_usualBody {words : String} (hWords : words ∈ "import" :: "style" :: dangerousWords) :
    ¬ words.toList <:+: usualBody plan := by
  have hWord := unrendered_of_mem words hWords
  obtain ⟨hLead, hEnd⟩ := not_infix_usual words hWords
  have hLines := hWord.shuns_lines
    (free_of_unsuspicious h (List.mem_cons_of_mem _ hWords)) 6
  have hClosing : Shuns words.toList (closing usualFrame) :=
    Shuns.cons (hWord.marks ' ' (by decide)) hEnd
  exact (hLines.append hClosing) _ hLead

/-- A word that would be found in the page would lie in the header, in the lines around, or in a
text of the plan; it lies in none. -/
theorem not_infix_render {words : String} (hWords : words ∈ "style" :: dangerousWords) :
    ¬ words.toList <:+: render usualFrame plan := by
  have hAll := List.mem_cons_of_mem "import" hWords
  rw [render_usualFrame, infix_append_cons_iff ((unrendered_of_mem words hAll).edges _ (by decide))]
  exact not_or.mpr ⟨not_infix_header words hWords, not_infix_usualBody h hAll⟩

/-- The import of the header is the only one of the page. -/
theorem countImports_render : countImports usualFrame.importPath
    (render usualFrame plan).length true (render usualFrame plan) = 1 := by
  have hBody := not_infix_usualBody h List.mem_cons_self
  have hRest : ¬ "import".toList <:+: '\n' :: '\n' :: usualBody plan := by
    rwa [infix_cons_iff_of_head_ne (by decide), infix_cons_iff_of_head_ne (by decide)]
  have hLength : 28 ≤ (render usualFrame plan).length := by
    have hHeader : 28 ≤ (header usualFrame).length := by decide +kernel
    rw [render_usualFrame, List.length_append]
    omega
  obtain ⟨fuel, hFuel⟩ := Nat.exists_eq_add_of_le' hLength
  rw [hFuel, render_usualFrame]
  exact (countImports_header fuel _).trans (by rw [countImports_eq_zero hRest])

/-- Everything the check asks for, for the page of an unsuspicious plan. -/
theorem harmless_render : Harmless usualFrame.importPath (render usualFrame plan) where
  tags := by
    rw [render_eq_page]
    exact allowed_page (by decide +kernel) (angleFree_lines_of_unsuspicious h)
  style := by
    rw [Bool.eq_false_iff]
    exact fun hStyle => not_infix_render h List.mem_cons_self (infix_of_hasStyle hStyle)
  words words hWords := not_infix_render h (List.mem_cons_of_mem _ hWords)
  imports := countImports_render h

/-- The gate raises no false alarm: it lets the page of every unsuspicious plan pass as it is. -/
theorem check_render : faults usualFrame.importPath (render usualFrame plan) = [] ∧
    check usualFrame.importPath (render usualFrame plan) = .ok (render usualFrame plan) := by
  have hFaults : faults usualFrame.importPath (render usualFrame plan) = [] :=
    faults_eq_nil_iff.mpr (harmless_render h)
  exact ⟨hFaults, check_eq_ok_iff.mpr ⟨hFaults, rfl⟩⟩

end

def unsuspiciousPlan : Plan :=
  ⟨"dashboard",
    [⟨.card, [("title", .text "Say \"im\\port\" – and the evaluation (2)"), ("wide", .boolean true)],
      [⟨.table, [("columns", .list [.text "sty", .text "le =", .null, .integer (-12)]),
          ("innerHT", .text "ML")],
        [⟨.button, [("children", .text "javascript"), ("off", .boolean false)], [], none⟩], none⟩,
       ⟨.card, [("meta", .object [("javascript", .object [("\\d\"ocument", .text ".write")])])], [],
        none⟩], none⟩,
     ⟨.navbar, [], [], none⟩],
    []⟩

theorem check_render_unsuspiciousPlan :
    unsuspiciousPlan.Unsuspicious ∧
      faults usualFrame.importPath (render usualFrame unsuspiciousPlan) = [] ∧
      check usualFrame.importPath (render usualFrame unsuspiciousPlan) =
        .ok (render usualFrame unsuspiciousPlan) :=
  have hPlan : unsuspiciousPlan.Unsuspicious := by decide +kernel
  ⟨hPlan, check_render hPlan⟩

end Safety
end Wireframe
