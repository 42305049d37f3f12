import Wireframe.Page.Locate
import Wireframe.Proofs.Page.TagExtent

/-! The texts that recovered components remember. Each of them is a piece of the scanned text and a
complete pair of tags, the texts of siblings stand one behind the other, and scanning the text of a
component again gives that component and nothing else. -/
namespace Wireframe

namespace Page

open Text

/-- The texts of components stand one behind the other in a text, without overlap. -/
inductive InOrder : Text → Forest → Prop
  | nil (text : Text) : InOrder text []
  | cons {before source after : Text} {c : Component} {rest : Forest} :
      c.source = some source → InOrder after rest → InOrder (before ++ (source ++ after)) (c :: rest)

namespace InOrder

variable {text : Text} {forest : Forest}

/-- Text put before the page moves every source further in and changes none. -/
theorem behind (h : InOrder text forest) (lead : Text) : InOrder (lead ++ text) forest := by
  cases h with
  | nil => exact .nil _
  | cons hSource hRest =>
      rw [← List.append_assoc]
      exact .cons hSource hRest

/-- Two stretches of text one behind the other keep the order of their roots: no root of the second
is looked for in the first. -/
theorem append {first second : Text} {front back : Forest} (hFirst : InOrder first front)
    (hSecond : InOrder second back) : InOrder (first ++ second) (front ++ back) := by
  induction hFirst with
  | nil text => exact hSecond.behind text
  | cons hSource _ ih =>
      simp only [List.append_assoc, List.cons_append]
      exact .cons hSource ih

/-- Text behind the last root is where no source is looked for. -/
theorem ahead (h : InOrder text forest) (tail : Text) : InOrder (text ++ tail) forest := by
  rw [← List.append_nil forest]
  exact h.append (.nil tail)

end InOrder

/-- The components of a text have their texts in it one behind the other. -/
theorem inOrder_recover (text : Text) : InOrder text (recover text) := by
  induction text using recover_induction with
  | nil => exact .nil _
  | skip c text hNone ih =>
      rw [recover_cons_of_none hNone]
      exact ih.behind [c]
  | pair text pair hPair ihInner ihRest =>
      have hFront : InOrder pair.text (ofPair pair (recover pair.inner)) := by
        unfold ofPair
        split
        · rename_i kind _
          have hOwn : InOrder ([] ++ (pair.text ++ [])) [pair.component kind] := .cons rfl (.nil [])
          rwa [List.nil_append, List.append_nil] at hOwn
        · obtain ⟨lead, tail, hText⟩ := pair.inner_infix_text
          rw [← hText]
          exact (ihInner.behind lead).ahead tail
      rw [recover_of_pair hPair, append_of_pair? hPair]
      exact hFront.append ihRest

/-- The text of a pair is read as that pair again. -/
theorem pair?_text_self {text : Text} {pair : Pair} (h : pair? text = some pair) :
    pair? pair.text = some { pair with rest := [] } := by
  obtain ⟨tag, hTag, hRead, hNamed⟩ := pair?_eq_some_iff.mp h
  obtain ⟨hName, hAttributes, hCut⟩ := pairNamed?_eq_some_iff.mp hNamed
  obtain ⟨hWhole, -, -⟩ := cutAt?_eq_some_iff.mp hCut
  have hRest : pair.inner ++ closingTag pair.name <+: tag.rest := ⟨pair.rest, hWhole⟩
  refine pair?_eq_some_iff.mpr ⟨{ tag with rest := pair.inner ++ closingTag pair.name }, ?_, ?_, ?_⟩
  · rw [text_of_pairNamed? hNamed]
    exact opening?_text_append hTag _
  · -- A longer name that were closed in the pair would be closed behind the tag.
    exact ⟨hRead.nonempty, hRead.start, (List.suffix_append _ _).isInfix,
      fun other hStart hClosed => hRead.longest other hStart (hClosed.trans hRest.isInfix)⟩
  · have hSame := cutAt?_replace hCut []
    rw [List.append_nil] at hSame
    exact pairNamed?_eq_some_iff.mpr ⟨hName, hAttributes, hSame⟩

/-- Reading the source of a pair again gives the component it was read from, whole: this is what
lets a source stand for its component. -/
theorem recover_text_self {text : Text} {pair : Pair} {kind : Kind} (h : pair? text = some pair)
    (hKind : Kind.ofTag? pair.name = some kind) : recover pair.text = [pair.component kind] := by
  rw [recover_of_pair (pair?_text_self h), recover_nil, List.append_nil]
  simp only [ofPair, hKind]
  rfl

/-- A component that remembers a piece of the text is located where that piece first occurs. -/
theorem locate?_of_source {text source : Text} {c : Component} (hSource : c.source = some source)
    (hNonempty : source ≠ []) (hOccurs : source <:+: text) :
    locate? text c = cutAt? source text := by
  obtain ⟨cut, hCut⟩ := Option.isSome_iff_exists.mp (isSome_cutAt? hOccurs)
  have hEmpty : source.isEmpty = false := by simpa using hNonempty
  simp only [locate?, hSource, Option.getD_some, hEmpty, hCut, Option.some_or, Bool.false_eq_true,
    if_false]

/-- A component remembers a piece of the text that it was recovered from: a complete pair of tags,
which is enough to recover the component again. -/
structure Remembers (text : Text) (c : Component) (source : Text) : Prop where
  recorded : c.source = some source
  occurs : source <:+: text
  opens : ['<'] <+: source
  closes : closingTag c.kind.tag <:+ source
  holds : ∃ tag inner, opening? true source = some tag ∧
    source = tag.text ++ (inner ++ closingTag c.kind.tag) ∧ InOrder inner c.children
  located : ∃ cut, locate? text c = some cut ∧ cut.whole = text ∧ cut.target = source ∧
    ∀ before after, text = before ++ (source ++ after) → cut.before.length ≤ before.length
  again : recover source = [c]

/-- The texts that the components of any text remember are real and complete: those of the roots
stand in the text one behind the other, and each of them is a piece of the text, from an opening tag
to the closing tag of the kind with the texts of the children in between. The component is located
where its text first occurs, and recovered from that text alone. -/
theorem remembers_recover (text : Text) :
    InOrder text (recover text) ∧
      ∀ c ∈ Forest.walk (recover text), ∃ source, Remembers text c source := by
  refine ⟨inOrder_recover text, fun c hc => ?_⟩
  obtain ⟨pair, kind, hMeets, hKind, rfl⟩ := mem_walk_recover.mp hc
  have hName := Kind.eq_tag_of_ofTag? hKind
  obtain ⟨part, hPart, hPair⟩ := hMeets.exists_part
  obtain ⟨tag, hTag, -, hNamed⟩ := pair?_eq_some_iff.mp hPair
  have hText := text_of_pairNamed? hNamed
  have hOccurs := (text_prefix_of_pair? hPair).isInfix.trans hPart
  have hOpens : ['<'] <+: pair.text := ⟨_, rfl⟩
  have hNonempty : pair.text ≠ [] := hOpens.ne_nil (by simp)
  obtain ⟨cut, hCut⟩ := Option.isSome_iff_exists.mp (isSome_cutAt? hOccurs)
  exact
    ⟨pair.text,
      { recorded := rfl
        occurs := hOccurs
        opens := hOpens
        closes := hName ▸ pair.closingTag_suffix_text
        holds := ⟨_, pair.inner, hText ▸ opening?_text_append hTag _, hName ▸ hText,
          inOrder_recover pair.inner⟩
        located := ⟨cut, (locate?_of_source rfl hNonempty hOccurs).trans hCut,
          cutAt?_eq_some_iff.mp hCut⟩
        again := recover_text_self hPair hKind }⟩

/-- A card inside a tag of no kind, two buttons with the same text, and a card that is read off a tag
with a longer name. -/
def tangledText : Text :=
  "<div><Card><Button></Button></Card></div><Button></Button><Cards /><Card wide></Card>".toList

theorem remembers_recover_tangledText :
    (recover tangledText).map Component.kind = [.card, .button, .card] ∧
      InOrder tangledText (recover tangledText) ∧
      ∃ twin cut, (Forest.walk (recover tangledText))[2]? = some twin ∧
        Remembers tangledText twin "<Button></Button>".toList ∧
        locate? tangledText twin = some cut ∧ cut.start ≤ "<div><Card>".toList.length := by
  obtain ⟨hOrder, hRemembers⟩ := remembers_recover tangledText
  have hKinds : (recover tangledText).map Component.kind = [.card, .button, .card] := by
    decide +kernel
  have hTexts : ((Forest.walk (recover tangledText)).map Component.source)[2]? =
      some (some "<Button></Button>".toList) := by
    decide +kernel
  have hEarlier : tangledText = "<div><Card>".toList ++ ("<Button></Button>".toList ++
      "</Card></div><Button></Button><Cards /><Card wide></Card>".toList) := by
    decide +kernel
  rw [List.getElem?_map, Option.map_eq_some_iff] at hTexts
  obtain ⟨twin, hTwin, hText⟩ := hTexts
  obtain ⟨source, hSource⟩ := hRemembers twin (List.mem_of_getElem? hTwin)
  obtain rfl := Option.some.inj (hSource.recorded.symm.trans hText)
  obtain ⟨cut, hCut, -, -, hFirst⟩ := hSource.located
  exact ⟨hKinds, hOrder, twin, cut, hTwin, hSource, hCut, hFirst _ _ hEarlier⟩

end Page
end Wireframe
