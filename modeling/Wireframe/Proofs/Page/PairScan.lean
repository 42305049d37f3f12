import Wireframe.Proofs.Page.Recovering
import Wireframe.Proofs.Text.Occurrence

/-! The pairs of tags that a scan meets, at the top and inside other pairs. A pair is read under the
longest start of its opening tag's name that is closed behind the tag. Each pair stands in the
scanned text with both of its tags, and those that are read under the name of a kind are what is
recovered from the text. -/
namespace Wireframe

/-- A kind is found under its own tag name only. -/
theorem Kind.eq_tag_of_ofTag? {name : Text} {kind : Kind} (h : ofTag? name = some kind) :
    name = kind.tag := by
  have hFound := List.find?_some h
  exact (beq_iff_eq.mp hFound).symm

namespace Page

open Text

variable {tag : Opening} {name part text : Text}

namespace Pair

/-- What is between the tags of a pair is a part of its text. -/
theorem inner_infix_text (pair : Pair) : pair.inner <:+: pair.text :=
  ⟨'<' :: pair.name ++ pair.attributes ++ ['>'], closingTag pair.name, by simp [Pair.text]⟩

/-- A pair ends with its closing tag. -/
theorem closingTag_suffix_text (pair : Pair) : closingTag pair.name <:+ pair.text :=
  List.suffix_append _ _

end Pair

/-- A pair that is found stands at the start of the text. -/
theorem text_prefix_of_pair? {pair : Pair} (h : pair? text = some pair) :
    pair.text <+: text :=
  append_of_pair? h ▸ List.prefix_append _ _

theorem rest_suffix_of_pair? {pair : Pair} (h : pair? text = some pair) :
    pair.rest <:+ text :=
  append_of_pair? h ▸ List.suffix_append _ _

/-- The name of an opening tag is made of word characters. -/
theorem name_of_opening? {acrossLines : Bool} (h : opening? acrossLines text = some tag) :
    ∀ c ∈ tag.name, isWordChar c = true := by
  unfold opening? at h
  split at h
  · dsimp only at h
    split at h
    · cases h
    · obtain ⟨found, -, rfl⟩ := Option.map_eq_some_iff.mp h
      exact fun c hc => List.mem_takeWhile_imp hc
  · cases h

/-- What it means that a tag is read under a start of its name: the rest of the name counts as
attributes, and the first closing tag of the shorter name ends the pair. -/
theorem pairNamed?_eq_some_iff {length : Nat} {pair : Pair} :
    pairNamed? tag length = some pair ↔ pair.name = tag.name.take length ∧
      pair.attributes = tag.name.drop length ++ tag.attributes ∧
      cutAt? (closingTag pair.name) tag.rest =
        some ⟨pair.inner, closingTag pair.name, pair.rest⟩ := by
  rw [pairNamed?, Option.map_eq_some_iff]
  constructor
  · rintro ⟨cut, hCut, rfl⟩
    obtain ⟨-, hTarget, -⟩ := cutAt?_eq_some_iff.mp hCut
    refine ⟨rfl, rfl, hCut.trans ?_⟩
    dsimp only
    rw [← hTarget]
  · rintro ⟨hName, hAttributes, hCut⟩
    refine ⟨_, hName ▸ hCut, ?_⟩
    rw [← hName, ← hAttributes]

/-- A pair has its opening tag whole, whatever name it is read under. -/
theorem text_of_pairNamed? {length : Nat} {pair : Pair} (h : pairNamed? tag length = some pair) :
    pair.text = tag.text ++ (pair.inner ++ closingTag pair.name) := by
  obtain ⟨hName, hAttributes, -⟩ := pairNamed?_eq_some_iff.mp h
  have hWhole : tag.name = pair.name ++ tag.name.drop length := by
    rw [hName, List.take_append_drop]
  rw [Pair.text, Opening.text, hAttributes]
  conv_rhs => rw [hWhole]
  simp only [List.cons_append, List.append_assoc, List.nil_append]

/-- A start of the name fails exactly if nothing behind the tag closes it. -/
theorem pairNamed?_eq_none_iff {length : Nat} :
    pairNamed? tag length = none ↔ ¬ closingTag (tag.name.take length) <:+: tag.rest := by
  rw [pairNamed?, Option.map_eq_none_iff, cutAt?_eq_none_iff]

namespace Opening

/-- A tag is read under a name: the longest start of its own name that is closed somewhere behind
it. -/
structure ReadAs (tag : Opening) (name : Text) : Prop where
  nonempty : name ≠ []
  start : name <+: tag.name
  closed : closingTag name <:+: tag.rest
  longest : ∀ other, other <+: tag.name → closingTag other <:+: tag.rest →
    other.length ≤ name.length

/-- A tag is read under its own name exactly if that is closed. -/
theorem ReadAs.eq_name_iff (h : tag.ReadAs name) :
    name = tag.name ↔ closingTag tag.name <:+: tag.rest := by
  refine ⟨fun hName => hName ▸ h.closed, fun hClosed => ?_⟩
  exact h.start.eq_of_length_le (h.longest tag.name List.prefix_rfl hClosed)

end Opening

/-- A pair of tags starts a text exactly if an opening tag does that is read under the name of the
pair. -/
theorem pair?_eq_some_iff {pair : Pair} :
    pair? text = some pair ↔ ∃ tag, opening? true text = some tag ∧ tag.ReadAs pair.name ∧
      pairNamed? tag pair.name.length = some pair := by
  constructor
  · intro h
    unfold pair? at h
    split at h
    · rename_i tag hTag
      obtain ⟨length, hPos, hLength, hNamed, hLonger⟩ := longest?_eq_some_iff.mp h
      have hName : pair.name = tag.name.take length := (pairNamed?_eq_some_iff.mp hNamed).1
      have hSame : pair.name.length = length := by
        rw [hName, List.length_take, Nat.min_eq_left hLength]
      refine ⟨tag, hTag, ?_, hSame.symm ▸ hNamed⟩
      refine ⟨List.ne_nil_of_length_pos (hSame.symm ▸ hPos), hName ▸ List.take_prefix _ _, ?_, ?_⟩
      · rw [hName]
        by_contra hOpen
        rw [pairNamed?_eq_none_iff.mpr hOpen] at hNamed
        cases hNamed
      -- A longer start of the name would have been tried before, and had no closing tag.
      · intro other hStart hClosed
        by_contra hNot
        have hNone := hLonger other.length (by omega) hStart.length_le
        rw [pairNamed?_eq_none_iff, ← List.prefix_iff_eq_take.mp hStart] at hNone
        exact hNone hClosed
    · cases h
  · rintro ⟨tag, hTag, hRead, hNamed⟩
    rw [pair?, hTag]
    refine longest?_eq_some_iff.mpr ⟨pair.name.length, List.length_pos_iff.mpr hRead.nonempty,
      hRead.start.length_le, hNamed, fun length hLonger hLength => ?_⟩
    rw [pairNamed?_eq_none_iff]
    intro hClosed
    have hLe := hRead.longest _ (List.take_prefix length tag.name) hClosed
    rw [List.length_take, Nat.min_eq_left hLength] at hLe
    omega

/-- A tag that can be read under a name starts a pair of that name. -/
theorem Opening.ReadAs.exists_pair (h : tag.ReadAs name) (hTag : opening? true part = some tag) :
    ∃ pair, pair? part = some pair ∧ pair.name = name := by
  cases hNamed : pairNamed? tag name.length with
  | none =>
      rw [pairNamed?_eq_none_iff, ← List.prefix_iff_eq_take.mp h.start] at hNamed
      exact absurd h.closed hNamed
  | some pair =>
      have hName : pair.name = name :=
        (pairNamed?_eq_some_iff.mp hNamed).1.trans (List.prefix_iff_eq_take.mp h.start).symm
      subst hName
      exact ⟨pair, pair?_eq_some_iff.mpr ⟨tag, hTag, h, hNamed⟩, rfl⟩

/-- The name of a pair is not empty, and it is made of word characters. -/
theorem name_of_pair? {pair : Pair} (h : pair? text = some pair) :
    pair.name ≠ [] ∧ ∀ c ∈ pair.name, isWordChar c = true := by
  obtain ⟨tag, hTag, hRead, -⟩ := pair?_eq_some_iff.mp h
  exact ⟨hRead.nonempty, fun c hc => name_of_opening? hTag c (hRead.start.subset hc)⟩

/-- A scan of a text meets a pair: from the left without overlap, and within each pair again. -/
inductive Meets : Text → Pair → Prop
  | here {text : Text} {pair : Pair} : pair? text = some pair → Meets text pair
  | inside {text : Text} {outer pair : Pair} :
      pair? text = some outer → Meets outer.inner pair → Meets text pair
  | behind {text : Text} {first pair : Pair} :
      pair? text = some first → Meets first.rest pair → Meets text pair
  | onward {c : Char} {text : Text} {pair : Pair} :
      pair? (c :: text) = none → Meets text pair → Meets (c :: text) pair

namespace Meets

/-- A scan passes over text without `<`. -/
theorem angleFree_append {free : Text} (h : angleFree free = true) {rest : Text} {pair : Pair}
    (hPair : Meets rest pair) : Meets (free ++ rest) pair := by
  induction free with
  | nil => exact hPair
  | cons c free ih =>
      rw [angleFree_cons, Bool.and_eq_true, bne_iff_ne] at h
      exact onward (pair?_of_ne h.1 _) (ih h.2)

/-- What a scan meets is the pair at the start of some part of the text. -/
theorem exists_part {text : Text} {pair : Pair} (h : Meets text pair) :
    ∃ part, part <:+: text ∧ pair? part = some pair := by
  induction h with
  | here hPair => exact ⟨_, List.infix_rfl, hPair⟩
  | inside hOuter _ ih =>
      obtain ⟨part, hPart, hPair⟩ := ih
      exact ⟨part, (hPart.trans (Pair.inner_infix_text _)).trans
        (text_prefix_of_pair? hOuter).isInfix, hPair⟩
  | behind hFirst _ ih =>
      obtain ⟨part, hPart, hPair⟩ := ih
      exact ⟨part, hPart.trans (rest_suffix_of_pair? hFirst).isInfix, hPair⟩
  | onward _ _ ih =>
      obtain ⟨part, hPart, hPair⟩ := ih
      exact ⟨part, hPart.trans (List.suffix_cons _ _).isInfix, hPair⟩

/-- The name of a pair consists of word characters and is not empty. -/
theorem name_spec {text : Text} {pair : Pair} (h : Meets text pair) :
    pair.name ≠ [] ∧ ∀ c ∈ pair.name, isWordChar c = true := by
  obtain ⟨part, -, hPair⟩ := h.exists_part
  exact name_of_pair? hPair

/-- Every pair that a scan meets has its closing tag in the text. -/
theorem closingTag_infix {text : Text} {pair : Pair} (h : Meets text pair) :
    closingTag pair.name <:+: text := by
  obtain ⟨part, hPart, hPair⟩ := h.exists_part
  exact (pair.closingTag_suffix_text.isInfix.trans (text_prefix_of_pair? hPair).isInfix).trans hPart

end Meets

def Pair.component (kind : Kind) (pair : Pair) : Component :=
  ⟨kind, Attribute.props pair.attributes, recover pair.inner, some pair.text⟩

/-- The components recovered from a text are those of the pairs in it that bear the name of a
kind. -/
theorem mem_walk_recover {text : Text} {c : Component} :
    c ∈ Forest.walk (recover text) ↔
      ∃ pair kind, Meets text pair ∧ Kind.ofTag? pair.name = some kind ∧
        c = pair.component kind := by
  constructor
  · induction text using recover_induction with
    | nil => exact fun hc => absurd hc List.not_mem_nil
    | skip d text hNone ih =>
        intro hc
        rw [recover_cons_of_none hNone] at hc
        obtain ⟨pair, kind, hMeets, hKind, hComponent⟩ := ih hc
        exact ⟨pair, kind, .onward hNone hMeets, hKind, hComponent⟩
    | pair text first hFirst ihInner ihRest =>
        intro hc
        have hInside : c ∈ Forest.walk (recover first.inner) → ∃ pair kind, Meets text pair ∧
            Kind.ofTag? pair.name = some kind ∧ c = pair.component kind := by
          intro hc
          obtain ⟨pair, kind, hMeets, hRest⟩ := ihInner hc
          exact ⟨pair, kind, .inside hFirst hMeets, hRest⟩
        rw [recover_of_pair hFirst, Forest.walk_append, List.mem_append] at hc
        -- A pair of another name leaves its inside in its place.
        rcases hc with hc | hc
        · cases hKind : Kind.ofTag? first.name with
          | none =>
              rw [ofPair, hKind] at hc
              exact hInside hc
          | some kind =>
              rw [ofPair, hKind, Forest.walk_cons, Forest.walk_nil, List.append_nil,
                List.mem_cons] at hc
              rcases hc with hc | hc
              · exact ⟨first, kind, .here hFirst, hKind, hc⟩
              · exact hInside hc
        · obtain ⟨pair, kind, hMeets, hRest⟩ := ihRest hc
          exact ⟨pair, kind, .behind hFirst hMeets, hRest⟩
  -- The other way by induction on how the pair is met.
  · rintro ⟨pair, kind, hMeets, hKind, rfl⟩
    induction hMeets with
    | here hPair =>
        rw [recover_of_pair hPair, Forest.walk_append, ofPair, hKind, Forest.walk_cons]
        exact List.mem_append_left _ List.mem_cons_self
    | inside hOuter _ ih =>
        rw [recover_of_pair hOuter, Forest.walk_append]
        apply List.mem_append_left
        unfold ofPair
        split
        · rw [Forest.walk_cons]
          exact List.mem_cons_of_mem _ (List.mem_append_left _ (ih hKind))
        · exact ih hKind
    | behind hFirst _ ih =>
        rw [recover_of_pair hFirst, Forest.walk_append]
        exact List.mem_append_right _ (ih hKind)
    | onward hNone _ ih =>
        rw [recover_cons_of_none hNone]
        exact ih hKind

end Page
end Wireframe
