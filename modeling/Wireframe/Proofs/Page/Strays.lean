import Wireframe.Proofs.Page.Balance

/-! Stray closing tags. Every opening tag of a page keeps a closing tag behind it, whatever
edits take out or put in, so that a page can only have closing tags to spare. One that no
pair of tags encloses is never taken out again. -/
namespace Wireframe
namespace Page

open Text

/-- Pairs of tags side by side and within one another, with further closing tags anywhere. -/
inductive Loose : List Side → Prop where
  | nil : Loose []
  | stray (kind : Kind) {rest : List Side} (hRest : Loose rest) : Loose (.closes kind :: rest)
  | pair (kind : Kind) {inner rest : List Side} (hInner : Loose inner) (hRest : Loose rest) :
      Loose (.opens kind :: (inner ++ .closes kind :: rest))

namespace Loose

/-- No opening is left open at the end of loose sides, so others can follow. -/
theorem append {first last : List Side} (hFirst : Loose first) (hLast : Loose last) :
    Loose (first ++ last) := by
  induction hFirst with
  | nil => exact hLast
  | stray kind _ ih => exact .stray kind ih
  | pair kind hInner _ _ ih =>
      rw [List.cons_append, List.append_assoc, List.cons_append]
      exact .pair kind hInner ih

/-- What follows in a loose row of tags is loose, since a tag that lost its opening is stray. -/
theorem suffix {sides : List Side} (h : Loose sides) :
    ∀ {first last : List Side}, sides = first ++ last → Loose last := by
  induction h with
  | nil =>
      intro first last hSides
      obtain ⟨-, rfl⟩ := List.append_eq_nil_iff.mp hSides.symm
      exact .nil
  | @stray kind rest hRest ih =>
      intro first last hSides
      cases first with
      | nil =>
          rw [List.nil_append] at hSides
          exact hSides ▸ .stray kind hRest
      | cons side first =>
          rw [List.cons_append, List.cons.injEq] at hSides
          exact ih hSides.2
  | @pair kind inner rest hInner hRest ihInner ihRest =>
      intro first last hSides
      cases first with
      | nil =>
          rw [List.nil_append] at hSides
          exact hSides ▸ .pair kind hInner hRest
      | cons side first =>
          rw [List.cons_append, List.cons.injEq] at hSides
          rcases place_beside hSides.2 with ⟨more, hSplit, rfl⟩ | ⟨more, -, hTail⟩
          · exact (ihInner hSplit).append (.stray kind hRest)
          · exact ihRest hTail

/-- An opening tag of a loose row has a closing tag of its kind behind it. -/
theorem closes_mem {first last : List Side} {kind : Kind}
    (h : Loose (first ++ .opens kind :: last)) : .closes kind ∈ last := by
  have hHere := h.suffix rfl
  cases hHere with
  | pair _ _ _ => simp

/-- Loose sides never open more than they close. -/
theorem surplus_nonpos {sides : List Side} (h : Loose sides) (kind : Kind) :
    Side.surplus kind sides ≤ 0 := by
  induction h with
  | nil => exact Int.le_refl _
  | stray other _ ih =>
      by_cases hKind : other = kind
      · simp only [Side.surplus, List.count_cons, hKind] at ih ⊢
        simp
        omega
      · simpa [Side.surplus, List.count_cons, hKind] using ih
  | @pair other inner rest _ _ ihInner ihRest =>
      have hSplit : (.opens other :: (inner ++ .closes other :: rest) : List Side) =
          (.opens other :: (inner ++ [.closes other])) ++ rest := by simp
      rw [hSplit, Side.surplus_append, Side.surplus_pair]
      omega

end Loose

/-- A pair of tags up to the first closing tag of its kind stands on one side of a closing tag that
is not enclosed. -/
theorem pair_beside {kind other : Kind} {inner first last front back : List Side}
    (hInner : .closes kind ∉ inner) (hFront : Loose front)
    (h : front ++ .closes other :: back =
      first ++ (.opens kind :: (inner ++ [.closes kind]) ++ last)) :
    (∃ more, front = first ++ (.opens kind :: (inner ++ [.closes kind]) ++ more) ∧
        last = more ++ .closes other :: back) ∨
      ∃ more, first = front ++ .closes other :: more ∧
        back = more ++ (.opens kind :: (inner ++ [.closes kind]) ++ last) := by
  rcases place_beside h with ⟨more, rfl, hMore⟩ | ⟨more, rfl, rfl⟩
  · cases more with
    | nil => exact absurd hMore (by simp)
    | cons side more =>
        rw [List.cons_append, List.cons_append, List.cons.injEq, List.append_assoc,
          List.singleton_append] at hMore
        obtain ⟨rfl, hTail⟩ := hMore
        -- The pair opens before the tag, where its kind is closed again.
        have hCloses : .closes kind ∈ more := hFront.closes_mem
        rcases place_beside hTail with ⟨gap, rfl, -⟩ | ⟨gap, rfl, rfl⟩
        · exact absurd (List.mem_append_left _ hCloses) hInner
        · exact .inl ⟨gap, by simp, rfl⟩
  · exact .inr ⟨more, rfl, rfl⟩

namespace Loose

variable {mid : List Side} (hMid : Loose mid)
include hMid

/-- Loose sides can be put anywhere into others, also between the tags of a pair. -/
theorem insert {sides : List Side} (h : Loose sides) :
    ∀ {first last : List Side}, sides = first ++ last → Loose (first ++ (mid ++ last)) := by
  induction h with
  | nil =>
      intro first last hSides
      obtain ⟨rfl, rfl⟩ := List.append_eq_nil_iff.mp hSides.symm
      simpa using hMid
  | @stray kind rest hRest ih =>
      intro first last hSides
      cases first with
      | nil =>
          rw [List.nil_append] at hSides
          exact hSides ▸ hMid.append (.stray kind hRest)
      | cons side first =>
          rw [List.cons_append, List.cons.injEq] at hSides
          obtain ⟨rfl, hSides⟩ := hSides
          exact .stray kind (ih hSides)
  | @pair kind inner rest hInner hRest ihInner ihRest =>
      intro first last hSides
      cases first with
      | nil =>
          rw [List.nil_append] at hSides
          exact hSides ▸ hMid.append (.pair kind hInner hRest)
      | cons side first =>
          rw [List.cons_append, List.cons.injEq] at hSides
          obtain ⟨rfl, hSides⟩ := hSides
          rcases place_beside hSides with ⟨more, hSplit, rfl⟩ | ⟨more, rfl, hTail⟩
          · have hInside := Loose.pair kind (ihInner hSplit) hRest
            simpa using hInside
          · rw [List.cons_append, List.append_assoc, List.cons_append]
            exact .pair kind hInner (ihRest hTail)

/-- A pair of tags, up to the first closing tag of its kind, gives way to other pairs. What it cuts
off from its own closing tag becomes stray. -/
theorem replace {kind : Kind} {inner : List Side} (hInner : .closes kind ∉ inner)
    {sides : List Side} (h : Loose sides) :
    ∀ {first last : List Side},
      sides = first ++ (.opens kind :: (inner ++ [.closes kind]) ++ last) →
      Loose (first ++ (mid ++ last)) := by
  induction h with
  | nil =>
      intro first last hSides
      exact absurd hSides (by simp)
  | @stray other rest hRest ih =>
      intro first last hSides
      cases first with
      | nil => exact absurd hSides (by simp)
      | cons side first =>
          rw [List.cons_append, List.cons.injEq] at hSides
          obtain ⟨rfl, hSides⟩ := hSides
          exact .stray other (ih hSides)
  | @pair other outer rest hOuter hRest ihOuter ihRest =>
      intro first last hSides
      cases first with
      | nil => exact hMid.append ((Loose.pair other hOuter hRest).suffix hSides)
      | cons side first =>
          rw [List.cons_append, List.cons.injEq] at hSides
          obtain ⟨rfl, hSides⟩ := hSides
          rcases pair_beside hInner hOuter hSides with ⟨more, hSplit, rfl⟩ | ⟨more, rfl, hTail⟩
          · have hInside := Loose.pair other (ihOuter hSplit) hRest
            simpa using hInside
          · rw [List.cons_append, List.append_assoc, List.cons_append]
            exact .pair other hOuter (ihRest hTail)

end Loose

/-- The tags after some edits, each of which puts pairs somewhere, or puts pairs in the place of what
stands from an opening tag to the first closing tag of its kind. -/
inductive Edited (start : List Side) : List Side → Prop where
  | refl : Edited start start
  | insert {first last mid : List Side} (prior : Edited start (first ++ last)) (hMid : Loose mid) :
      Edited start (first ++ (mid ++ last))
  | replace {kind : Kind} {first inner last mid : List Side}
      (prior : Edited start (first ++ (.opens kind :: (inner ++ [.closes kind]) ++ last)))
      (hInner : .closes kind ∉ inner) (hMid : Loose mid) : Edited start (first ++ (mid ++ last))

/-- A closing tag has no opening one, and no pair of tags encloses it. -/
def Strayed (kind : Kind) (sides : List Side) : Prop :=
  ∃ front back, sides = front ++ .closes kind :: back ∧ Loose front ∧ Loose back

/-- A strayed closing tag leaves its kind with more closings than openings. -/
theorem Strayed.surplus_neg {kind : Kind} {sides : List Side} (h : Strayed kind sides) :
    Side.surplus kind sides < 0 := by
  obtain ⟨front, back, rfl, hFront, hBack⟩ := h
  have hStray : Side.surplus kind [.closes kind] = -1 := by simp [Side.surplus]
  have hSum := hFront.surplus_nonpos kind
  have hMore := hBack.surplus_nonpos kind
  rw [List.append_cons, Side.surplus_append, Side.surplus_append, hStray]
  omega

namespace Edited

variable {start middle finish : List Side}

theorem trans (h : Edited start middle) (h' : Edited middle finish) : Edited start finish := by
  induction h' with
  | refl => exact h
  | insert _ hMid ih => exact .insert ih hMid
  | replace _ hInner hMid ih => exact .replace ih hInner hMid

/-- Edits by whole pairs keep the sides loose: what is taken out starts at an opening and ends at
the first closing of its kind. -/
theorem loose (h : Edited start finish) (hStart : Loose start) : Loose finish := by
  induction h with
  | refl => exact hStart
  | insert _ hMid ih => exact hMid.insert ih rfl
  | replace _ hInner hMid ih => exact hMid.replace hInner ih rfl

/-- No edit takes out a stray closing tag that is not enclosed. -/
theorem strayed {kind : Kind} (h : Edited start finish) (hStart : Strayed kind start) :
    Strayed kind finish := by
  induction h with
  | refl => exact hStart
  | insert _ hMid ih =>
      obtain ⟨front, back, hSides, hFront, hBack⟩ := ih
      rcases place_beside hSides.symm with ⟨more, rfl, rfl⟩ | ⟨more, rfl, rfl⟩
      · exact ⟨_, back, by simp, hMid.insert hFront rfl, hBack⟩
      · exact ⟨front, _, by simp, hFront, hMid.insert hBack rfl⟩
  | replace _ hInner hMid ih =>
      obtain ⟨front, back, hSides, hFront, hBack⟩ := ih
      rcases pair_beside hInner hFront hSides.symm with ⟨more, rfl, rfl⟩ | ⟨more, rfl, rfl⟩
      · exact ⟨_, back, by simp, hMid.replace hInner hFront rfl, hBack⟩
      · exact ⟨front, _, by simp, hFront, hMid.replace hInner hBack rfl⟩

end Edited

/-- The lines of a forest are loose, being balanced. -/
theorem loose_lines (forest : Forest) :
    ∀ indent, Loose (Line.sides (Forest.lines indent forest)) := by
  induction forest using Forest.induction with
  | nil => exact fun _ => .nil
  | cons c rest hChildren hRest =>
      intro indent
      have hPair := Loose.pair c.kind (hChildren (indent + 2)) (hRest indent)
      rw [Forest.lines_cons, ← lines_spanOf, Line.sides_append, Span.sides_lines]
      simpa [spanOf] using hPair

end Page
end Wireframe
