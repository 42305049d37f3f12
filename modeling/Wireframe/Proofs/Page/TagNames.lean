import Wireframe.Proofs.Page.TagExtent

/-! Under which name a pair of tags is read. An opening tag whose name is closed nowhere behind it is
read under the longest start of the name that is closed, so that a component can come from a tag with
a longer name than that of its kind. -/
namespace Wireframe

namespace Page

open Text

variable {tag : Opening} {part text : Text}

/-- A scan of a text looks for a pair at the start of a part: it goes on inside the pairs that it
finds and behind them, and past the characters that start none. -/
inductive Reaches : Text → Text → Prop
  | here (text : Text) : Reaches text text
  | inside {text part : Text} {outer : Pair} :
      pair? text = some outer → Reaches outer.inner part → Reaches text part
  | behind {text part : Text} {first : Pair} :
      pair? text = some first → Reaches first.rest part → Reaches text part
  | onward {c : Char} {text part : Text} :
      pair? (c :: text) = none → Reaches text part → Reaches (c :: text) part

/-- The pairs met in a text are those read at the places the reader reaches. -/
theorem meets_iff {pair : Pair} :
    Meets text pair ↔ ∃ part, Reaches text part ∧ pair? part = some pair := by
  constructor
  · intro h
    induction h with
    | here hPair => exact ⟨_, .here _, hPair⟩
    | inside hOuter _ ih =>
        obtain ⟨part, hPart, hPair⟩ := ih
        exact ⟨part, .inside hOuter hPart, hPair⟩
    | behind hFirst _ ih =>
        obtain ⟨part, hPart, hPair⟩ := ih
        exact ⟨part, .behind hFirst hPart, hPair⟩
    | onward hNone _ ih =>
        obtain ⟨part, hPart, hPair⟩ := ih
        exact ⟨part, .onward hNone hPart, hPair⟩
  · rintro ⟨part, hPart, hPair⟩
    induction hPart with
    | here _ => exact .here hPair
    | inside hOuter _ ih => exact .inside hOuter (ih hPair)
    | behind hFirst _ ih => exact .behind hFirst (ih hPair)
    | onward hNone _ ih => exact .onward hNone (ih hPair)

/-- A text starts with the tag name of a kind, and the name ends there. -/
def ExactName (kind : Kind) (source : Text) : Prop :=
  ∃ d rest, source = '<' :: (kind.tag ++ d :: rest) ∧ isWordChar d = false

/-- The text of a pair starts with exactly the name of its kind if the tag bears no other name. -/
theorem exactName_text_iff {kind : Kind} {pair : Pair} (hTag : opening? true part = some tag)
    (hNamed : pairNamed? tag pair.name.length = some pair) (hKind : pair.name = kind.tag)
    (hStart : pair.name <+: tag.name) : ExactName kind pair.text ↔ pair.name = tag.name := by
  obtain ⟨-, hReads⟩ := opening?_eq_some_iff.mp hTag
  -- The part of the tag's name that is cut off comes right behind the name of the kind.
  obtain ⟨more, hMore⟩ := hStart
  have hText : pair.text = '<' :: (kind.tag ++
      (more ++ (tag.attributes ++ '>' :: (pair.inner ++ closingTag pair.name)))) := by
    rw [text_of_pairNamed? hNamed, Opening.text, ← hMore, ← hKind]
    simp only [List.cons_append, List.append_assoc, List.nil_append]
  have hStops := hReads.stops (pair.inner ++ closingTag pair.name)
  constructor
  · rintro ⟨d, rest, hExact, hEnd⟩
    rw [hText] at hExact
    have hRest := List.append_cancel_left (List.cons.inj hExact).2
    cases more with
    | nil => rw [← hMore, List.append_nil]
    | cons m more =>
        have hWord : isWordChar m = true :=
          hReads.word m (hMore ▸ List.mem_append_right _ List.mem_cons_self)
        rw [(List.cons.inj hRest).1, hEnd] at hWord
        cases hWord
  · intro hSame
    obtain rfl : more = [] := by
      rwa [← hSame, List.append_right_eq_self] at hMore
    rw [List.nil_append] at hText
    cases hRest : tag.attributes ++ '>' :: (pair.inner ++ closingTag pair.name) with
    | nil => simp at hRest
    | cons d rest =>
        rw [hRest] at hStops hText
        exact ⟨d, rest, hText, stopsAt_cons.mp hStops⟩

/-- Which tags give components, and under which names. Every component of a text comes from an opening
tag that is read under the name of its kind, with the rest of the tag's name before its attributes,
and every tag that is reached and read under the name of a kind gives a component. The text of the
component starts with exactly the name of the kind if the tag's own name is closed behind it, and
only then. -/
theorem exactName_recover (text : Text) :
    (∀ c ∈ Forest.walk (recover text), ∃ part tag source,
      Reaches text part ∧ opening? true part = some tag ∧ tag.ReadAs c.kind.tag ∧
      c.source = some source ∧ source <+: part ∧
      c.props = Attribute.props (tag.name.drop c.kind.tag.length ++ tag.attributes) ∧
      (ExactName c.kind source ↔ closingTag tag.name <:+: tag.rest)) ∧
    ∀ part tag kind, Reaches text part → opening? true part = some tag → tag.ReadAs kind.tag →
      ∃ c ∈ Forest.walk (recover text), c.kind = kind ∧
        ∃ source, c.source = some source ∧ source <+: part := by
  constructor
  · intro c hc
    obtain ⟨pair, kind, hMeets, hKind, rfl⟩ := mem_walk_recover.mp hc
    have hName := Kind.eq_tag_of_ofTag? hKind
    obtain ⟨part, hPart, hPair⟩ := meets_iff.mp hMeets
    obtain ⟨tag, hTag, hRead, hNamed⟩ := pair?_eq_some_iff.mp hPair
    obtain ⟨-, hAttributes, -⟩ := pairNamed?_eq_some_iff.mp hNamed
    refine ⟨part, tag, pair.text, hPart, hTag, hName ▸ hRead, rfl, text_prefix_of_pair? hPair, ?_,
      (exactName_text_iff hTag hNamed hName hRead.start).trans hRead.eq_name_iff⟩
    rw [Pair.component, hAttributes, hName]
  · intro part tag kind hPart hTag hRead
    obtain ⟨pair, hPair, hName⟩ := hRead.exists_pair hTag
    refine ⟨pair.component kind, ?_, rfl, pair.text, rfl, text_prefix_of_pair? hPair⟩
    exact mem_walk_recover.mpr ⟨pair, kind, meets_iff.mpr ⟨part, hPart, hPair⟩,
      by rw [hName, Kind.ofTag?_tag], rfl⟩

/-- A tag with a longer name than that of a kind. Nothing closes it, and a button stands behind it. -/
def groupTag : Opening :=
  ⟨"ButtonGroup".toList, " /".toList, "<Button variant=\"primary\"></Button>".toList⟩

/-- The button behind its closing tag ends the text of the tag with the longer name. -/
def groupText : Text :=
  groupTag.text ++ groupTag.rest

theorem readAs_groupTag : groupTag.ReadAs Kind.button.tag where
  nonempty := by decide
  start := by decide
  closed := by decide
  longest other hStart hClosed := by
    have hShort : ∀ length ≤ 11, closingTag (groupTag.name.take length) <:+: groupTag.rest →
        length ≤ 6 := by decide
    apply hShort other.length hStart.length_le
    rwa [← List.prefix_iff_eq_take.mp hStart]

theorem exactName_recover_groupText :
    opening? true groupText = some groupTag ∧ groupTag.ReadAs Kind.button.tag ∧
      ∃ c ∈ Forest.walk (recover ("<Card>".toList ++ groupText ++ "</Card>".toList)),
        c.kind = .button ∧ ∃ source, c.source = some source ∧ source <+: groupText := by
  have hTag : opening? true groupText = some groupTag := rfl
  have hCard : pair? ("<Card>".toList ++ groupText ++ "</Card>".toList) =
      some ⟨Kind.card.tag, [], groupText, []⟩ := rfl
  have hReaches : Reaches ("<Card>".toList ++ groupText ++ "</Card>".toList) groupText :=
    .inside hCard (.here _)
  exact ⟨hTag, readAs_groupTag,
    (exactName_recover _).2 groupText groupTag .button hReaches hTag readAs_groupTag⟩

/-- A tag whose name is not that of a kind can be read as a component: its name is shortened to one
that is closed, and the text of the button behind it becomes a part of its own. -/
theorem longer_name_read :
    recover groupText = [⟨.button, [("Group", .boolean true)], [], some groupText⟩] ∧
      ¬ ∀ c ∈ Forest.walk (recover groupText),
        ∃ source, c.source = some source ∧ ExactName c.kind source := by
  have hRecover : recover groupText =
      [⟨.button, [("Group", .boolean true)], [], some groupText⟩] := rfl
  refine ⟨hRecover, fun hExact => ?_⟩
  rw [hRecover, Forest.walk_cons] at hExact
  obtain ⟨source, hSource, d, rest, hText, hEnd⟩ := hExact _ List.mem_cons_self
  obtain rfl := Option.some.inj hSource
  have hNext : some 'G' = some d := congrArg (fun text : Text => text[7]?) hText
  obtain rfl := Option.some.inj hNext
  exact absurd hEnd (by decide)

end Page
end Wireframe
