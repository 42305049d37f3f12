import Wireframe.Proofs.Page.Recovering

/-! Forests in which the props of every component are a mapping. Every forest that is recovered from
a text is one. -/
namespace Wireframe

/-- The props of every component are a mapping. -/
def Forest.Keyed (forest : Forest) : Prop :=
  ∀ c ∈ Forest.walk forest, c.props.Keyed

instance (forest : Forest) : Decidable (Forest.Keyed forest) :=
  inferInstanceAs (Decidable (∀ _ ∈ _, _))

namespace Forest

/-- Props that can be written are mappings. -/
theorem Clean.keyed {forest : Forest} (h : Clean forest) : Keyed forest :=
  fun c hc => (h c hc).mapping

theorem Keyed.children {c : Component} {rest : Forest} (h : Keyed (c :: rest)) :
    Keyed c.children :=
  fun d hd => h d (walk_children_sublist c rest d hd)

theorem Keyed.tail {c : Component} {rest : Forest} (h : Keyed (c :: rest)) : Keyed rest :=
  fun d hd => h d (walk_rest_sublist c rest d hd)

theorem keyed_append {first last : Forest} :
    Keyed (first ++ last) ↔ Keyed first ∧ Keyed last := by
  simp only [Keyed, walk_append, List.mem_append]
  exact ⟨fun h => ⟨fun c hc => h c (.inl hc), fun c hc => h c (.inr hc)⟩,
    fun h c hc => hc.elim (h.1 c) (h.2 c)⟩

/-- A root of a forest, with all that is below it. -/
theorem Keyed.root {forest : Forest} (h : Keyed forest) {c : Component} (hc : c ∈ forest) :
    Keyed [c] :=
  fun d hd => h d (walk_root hc d hd)

end Forest

namespace Attribute

/-- What stands between braces is read as data, in which keys are not repeated. -/
theorem keyed_bracedValue (inner : Text) : (bracedValue inner).keyed = true := by
  rw [bracedValue]
  cases hDecode : Value.decode? inner with
  | none => rfl
  | some v => exact Value.keyed_decode? hDecode

/-- Whatever is read as the value of an attribute, its objects have one entry per key. -/
theorem keyed_value? {text rest : Text} {v : Value} {length : Nat}
    (h : value? text = some (v, length, rest)) : v.keyed = true := by
  unfold value? at h
  split at h
  · cases h
    rfl
  · split_ifs at h
    · split at h
      · cases h
      · cases h
        rfl
    · simp only [Option.map_eq_some_iff, Prod.exists, Prod.mk.injEq] at h
      obtain ⟨inner, _, _, rfl, -⟩ := h
      exact keyed_bracedValue inner
    · cases h
      rfl
  · cases h
    rfl

theorem Piece.Whole.keyed {piece : Piece} (h : piece.Whole) : piece.value.keyed = true := by
  obtain ⟨shown, -, hShows⟩ := h.shows
  exact keyed_value? (hShows.reads [] (Text.stopsAt_nil _))

/-- The props of a tag are a mapping, even where the tag repeats a key. -/
theorem keyed_props (text : Text) : (props text).Keyed := by
  rw [props_eq_ofEntries, entries_eq]
  exact Props.keyed_ofEntries (List.forall_mem_map.mpr fun piece hPiece =>
    (whole_of_mem_piecesOf hPiece).keyed)

end Attribute

namespace Page

theorem keyed_ofPair (pair : Pair) {children : Forest} (h : Forest.Keyed children) :
    Forest.Keyed (ofPair pair children) := by
  unfold ofPair
  split
  · intro c hc
    rw [Forest.walk_cons, Forest.walk_nil, List.append_nil] at hc
    rcases List.mem_cons.mp hc with rfl | hc
    · exact Attribute.keyed_props _
    · exact h c hc
  · exact h

/-- Whatever the text is, the props of what is recovered from it are mappings. -/
theorem keyed_recover (code : Text) : Forest.Keyed (recover code) := by
  induction code using recover_induction with
  | nil => exact fun c hc => absurd hc List.not_mem_nil
  | skip c text hPair ih => exact recover_cons_of_none hPair ▸ ih
  | pair text pair hPair ihInner ihRest =>
      rw [recover_of_pair hPair]
      exact Forest.keyed_append.mpr ⟨keyed_ofPair _ ihInner, ihRest⟩

end Page
end Wireframe
