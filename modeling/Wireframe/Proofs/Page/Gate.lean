import Wireframe.Page.Safety
import Wireframe.Proofs.Page.PairScan
import Wireframe.Proofs.Text.Occurrence

/-! What page source that passes the safety gate is like, and which tags a scan meets in it. A tag
name of the gate starts with a Latin letter, and a name of the scan with any word character. -/
namespace Wireframe
namespace Safety

open Page Text

variable {path : String} {code : Text}

/-- Every name that the gate reads in the text is a kind's. -/
def Allowed (code : Text) : Prop :=
  ∀ name ∈ tagNames code, (Kind.ofTag? name).isSome = true

instance (code : Text) : Decidable (Allowed code) :=
  inferInstanceAs (Decidable (∀ name ∈ tagNames code, _))

structure Harmless (path : String) (code : Text) : Prop where
  tags : Allowed code
  style : hasStyle false code = false
  words : ∀ words ∈ dangerousWords, ¬ words.toList <:+: code
  imports : countImports path code.length true code = 1

/-- The gate reports no tag exactly if every tag name that it reads is a kind's. -/
theorem disallowedTags_eq_nil_iff : disallowedTags code = [] ↔ Allowed code := by
  rw [Allowed, disallowedTags, ← List.length_eq_zero_iff, List.length_mergeSort, List.length_eq_zero_iff,
    List.eq_nil_iff_forall_not_mem]
  simp only [List.mem_eraseDups, List.mem_filter, not_and, Option.isNone_iff_eq_none,
    ← Option.not_isSome_iff_eq_none, not_not]

/-- What the gate reports and what it asks of a page, fault by fault. -/
theorem faults_eq_nil_iff : faults path code = [] ↔ Harmless path code := by
  have hStyle : (if hasStyle false code then [SafetyFault.inlineStyle] else []) = [] ↔
      hasStyle false code = false := by
    cases hasStyle false code <;> simp
  have hWords : ((dangerousWords.filter fun words => occurs words.toList code).map
      SafetyFault.dangerous) = [] ↔ ∀ words ∈ dangerousWords, ¬ words.toList <:+: code := by
    simp only [List.map_eq_nil_iff, List.filter_eq_nil_iff, occurs_iff]
  have hImports : (if countImports path code.length true code = 1 then [] else
      [SafetyFault.imports path (countImports path code.length true code)]) = [] ↔
      countImports path code.length true code = 1 := by
    split <;> simp_all
  unfold faults
  simp only [List.append_eq_nil_iff, List.map_eq_nil_iff (f := SafetyFault.disallowedTag),
    disallowedTags_eq_nil_iff, hStyle, hWords, hImports]
  constructor
  · rintro ⟨⟨⟨hTags, hStyle⟩, hWords⟩, hImports⟩
    exact ⟨hTags, hStyle, hWords, hImports⟩
  · intro h
    exact ⟨⟨⟨h.tags, h.style⟩, h.words⟩, h.imports⟩

/-- The names of a text are among those of every text that ends with it. -/
theorem mem_tagNames_append (before : Text) {rest name : Text} (h : name ∈ tagNames rest) :
    name ∈ tagNames (before ++ rest) := by
  induction before with
  | nil => exact h
  | cons c before ih =>
      rw [List.cons_append, tagNames]
      split
      · split
        · exact List.mem_cons_of_mem _ ih
        · exact ih
      · exact ih

/-- The name of a tag is read to its end, behind the slash of a closing tag as well. -/
theorem tagName?_of_stopsAt {c : Char} {name rest : Text} (hAlpha : c.isAlpha = true)
    (hName : ∀ d ∈ name, isWordChar d = true) (hStop : StopsAt isTagNamePart rest) :
    tagName? (c :: name ++ rest) = some (c :: name) ∧
      tagName? ('/' :: (c :: name ++ rest)) = some (c :: name) := by
  have hPart : ∀ d ∈ name, isTagNamePart d = true := by
    intro d hd
    simp [isTagNamePart, hName d hd]
  have hRun := takeWhile_append_of_stopsAt hPart hStop
  have hSlash : '/' ≠ c := by
    rintro rfl
    revert hAlpha
    decide
  constructor
  · simp [tagName?, after?, hSlash, hAlpha, hRun]
  · simp [tagName?, after?, hAlpha, hRun]

/-- The gate reads the names of closing tags too, so that a pair cannot hide its name. -/
theorem mem_tagNames_of_closingTag {c : Char} {name : Text} (hAlpha : c.isAlpha = true)
    (hName : ∀ d ∈ name, isWordChar d = true) (h : closingTag (c :: name) <:+: code) :
    c :: name ∈ tagNames code := by
  obtain ⟨before, rest, rfl⟩ := h
  rw [List.append_assoc]
  apply mem_tagNames_append
  have hTag := (tagName?_of_stopsAt hAlpha hName
    (stopsAt_cons.mpr (by decide) : StopsAt isTagNamePart ('>' :: rest))).2
  simp only [closingTag, List.cons_append, List.append_assoc, List.nil_append] at hTag ⊢
  rw [tagNames, if_pos rfl, hTag]
  exact List.mem_cons_self

/-- A name that the vocabulary knows is the tag of a kind. -/
theorem exists_kind_of_isSome {name : Text} (h : (Kind.ofTag? name).isSome = true) :
    ∃ kind : Kind, name = kind.tag := by
  obtain ⟨kind, hKind⟩ := Option.isSome_iff_exists.mp h
  exact ⟨kind, Kind.eq_tag_of_ofTag? hKind⟩

/-- The name of a kind starts with a Latin letter, and word characters follow. -/
theorem tag_eq_cons (kind : Kind) : ∃ c name, kind.tag = c :: name ∧ c.isAlpha = true ∧
    ∀ d ∈ name, isWordChar d = true := by
  have hHead : ∃ c name, kind.tag = c :: name ∧ c.isAlpha = true := by
    cases kind <;> exact ⟨_, _, rfl, by decide⟩
  obtain ⟨c, name, hTag, hAlpha⟩ := hHead
  refine ⟨c, name, hTag, hAlpha, fun d hd => ?_⟩
  have hMem : d ∈ kind.tag := hTag ▸ List.mem_cons_of_mem c hd
  exact isWordChar_of_mem_tag hMem

/-- Within page source that passes the gate, a scan meets pairs of tags of the vocabulary only, apart
from those whose names start with another character than a Latin letter. The gate takes such names
for no tags. -/
theorem kind_of_meets (h : check path code = .ok code) {pair : Pair} (hPair : Meets code pair) :
    (∃ kind : Kind, pair.name = kind.tag) ↔
      ∃ c rest, pair.name = c :: rest ∧ c.isAlpha = true := by
  constructor
  · rintro ⟨kind, hKind⟩
    obtain ⟨c, rest, hTag, hAlpha, -⟩ := tag_eq_cons kind
    exact ⟨c, rest, hKind.trans hTag, hAlpha⟩
  rintro ⟨c, rest, hName, hAlpha⟩
  have hWord := hPair.name_spec.2
  have hClosing := hPair.closingTag_infix
  rw [hName] at hWord hClosing
  have hMem := mem_tagNames_of_closingTag hAlpha (List.forall_mem_cons.mp hWord).2 hClosing
  rw [hName]
  exact exists_kind_of_isSome ((faults_eq_nil_iff.mp (check_eq_ok_iff.mp h).1).tags _ hMem)

/-- Page source with a tag inside a card whose name starts with the low line. -/
def strayed : Text :=
  "import \x7b Card \x7d from '@/components/ui';\n".toList ++
    "<Card wide><_div>x</_div></Card>".toList

def strayedOuter : Pair :=
  ⟨"Card".toList, " wide".toList, "<_div>x</_div>".toList, []⟩

def strayedInner : Pair :=
  ⟨"_div".toList, [], "x".toList, []⟩

/-- The gate lets the page through. -/
theorem check_strayed : check "@/components/ui" strayed = .ok strayed := by
  rw [check_eq_ok_iff, faults_eq_nil_iff]
  exact ⟨⟨by decide +kernel, by decide +kernel, by decide +kernel, by decide +kernel⟩, rfl⟩

theorem pair?_strayed :
    pair? "<Card wide><_div>x</_div></Card>".toList = some strayedOuter := by
  rfl

theorem meets_strayedOuter : Meets strayed strayedOuter :=
  .angleFree_append (by decide +kernel) (.here pair?_strayed)

/-- A scan meets the pair with the strange name as well, although the gate reads no tag there. -/
theorem meets_strayedInner : Meets strayed strayedInner :=
  .angleFree_append (by decide +kernel) (.inside pair?_strayed (.here rfl))

/-- The pair of the card has a name that starts with a letter, and that name is a kind's. -/
theorem kind_of_meets_strayed :
    check "@/components/ui" strayed = .ok strayed ∧ Meets strayed strayedOuter ∧
      ∃ kind : Kind, strayedOuter.name = kind.tag :=
  ⟨check_strayed, meets_strayedOuter,
    (kind_of_meets check_strayed meets_strayedOuter).mpr ⟨_, _, rfl, by decide⟩⟩

/-- A tag outside the vocabulary passes the gate. -/
theorem unseen_tag :
    check "@/components/ui" strayed = .ok strayed ∧ Meets strayed strayedInner ∧
      ¬ ∃ kind : Kind, strayedInner.name = kind.tag := by
  refine ⟨check_strayed, meets_strayedInner, ?_⟩
  rintro ⟨kind, hKind⟩
  cases kind <;> exact absurd hKind (by decide)

end Safety
end Wireframe
