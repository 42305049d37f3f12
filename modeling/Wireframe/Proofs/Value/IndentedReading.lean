import Wireframe.Proofs.Value.JsonReading

/-! Values on indented lines read back at every indentation. With the forms on one line, these are
all the forms a value is written in. -/
namespace Wireframe.Value

open Text

theorem isPadding_of_mem_newLine (indent : Nat) : ∀ c ∈ newLine indent, isPadding c = true := by
  intro c hc
  rcases List.mem_cons.mp hc with rfl | hc
  · decide
  · rw [List.eq_of_mem_replicate hc]
    decide

theorem encodeIndentedItems_cons_cons (step indent : Nat) (v w : Value) (rest : List Value) :
    encodeIndentedItems step indent (v :: w :: rest) =
      newLine indent ++ encodeIndented step indent v ++ ',' ::
        encodeIndentedItems step indent (w :: rest) := rfl

theorem encodeIndentedEntries_cons_cons (step indent : Nat) (key : String) (v : Value)
    (entry : String × Value) (rest : Props) :
    encodeIndentedEntries step indent ((key, v) :: entry :: rest) =
      newLine indent ++ encodeText key ++ ':' :: ' ' :: encodeIndented step indent v ++ ',' ::
        encodeIndentedEntries step indent (entry :: rest) := rfl

/-- Values are read back from lines of their own. The members of a list or an object may have
padding behind them: the line break before the sign that closes it. -/
theorem readsIndented (step : Nat) :
    (∀ v, keyed v = true → ∀ indent, ReadsValue v (encodeIndented step indent v)) ∧
      (∀ vs, itemsKeyed vs = true → vs ≠ [] → ∀ indent gap, (∀ c ∈ gap, isPadding c = true) →
        ReadsItems vs (encodeIndentedItems step indent vs ++ gap)) ∧
      ∀ es, entriesKeyed es = true → es ≠ [] → ∀ indent gap, (∀ c ∈ gap, isPadding c = true) →
        ReadsEntries es (encodeIndentedEntries step indent es ++ gap) := by
  -- What has no members stands as on one line.
  have hPlain := (reads .plain).1
  apply Value.induction
  case null => exact fun hKeyed _ => hPlain .null hKeyed
  case boolean =>
    intro b hKeyed _
    cases b <;> exact hPlain _ hKeyed
  case integer => exact fun n hKeyed _ => hPlain (.integer n) hKeyed
  case real => exact fun x hKeyed _ => hPlain (.real x) hKeyed
  case text => exact fun s hKeyed _ => hPlain (.text s) hKeyed
  case list =>
    intro vs ih hKeyed indent
    cases vs with
    | nil => exact hPlain (.list []) hKeyed
    | cons v vs =>
        exact (ih hKeyed (List.cons_ne_nil _ _) (indent + step) _
          (isPadding_of_mem_newLine indent)).list
  case object =>
    intro es ih hKeyed indent
    cases es with
    | nil => exact hPlain (.object []) hKeyed
    | cons entry es =>
        simp only [keyed, Bool.and_eq_true] at hKeyed
        exact (ih hKeyed.2 (List.cons_ne_nil _ _) (indent + step) _
          (isPadding_of_mem_newLine indent)).object hKeyed.1
  case itemsNil => exact fun _ hNonempty => absurd rfl hNonempty
  case itemsCons =>
    intro v vs hv hvs hKeyed _ indent gap hGap
    simp only [itemsKeyed, Bool.and_eq_true] at hKeyed
    have hLine := (hv hKeyed.1 indent).padded (isPadding_of_mem_newLine indent)
    cases vs with
    | nil => exact hLine.last hGap
    | cons w vs =>
        have hBefore := hLine.before (hvs hKeyed.2 (List.cons_ne_nil _ _) indent gap hGap)
        simpa only [encodeIndentedItems_cons_cons, List.append_assoc, List.cons_append]
          using hBefore
  case entriesNil => exact fun _ hNonempty => absurd rfl hNonempty
  case entriesCons =>
    intro key v es hv hes hKeyed _ indent gap hGap
    simp only [entriesKeyed, Bool.and_eq_true] at hKeyed
    have hOneSpace : ∀ c ∈ [' '], isPadding c = true := by simp [isPadding]
    have hSpace := (hv hKeyed.1 indent).padded hOneSpace
    have hNewLine := isPadding_of_mem_newLine indent
    cases es with
    | nil =>
        have hLast := (hSpace.lastEntry key hGap).padded hNewLine
        simpa only [encodeIndentedEntries, List.append_assoc, List.cons_append, List.nil_append]
          using hLast
    | cons entry es =>
        have hBefore := (hSpace.beforeEntries key
          (hes hKeyed.2 (List.cons_ne_nil _ _) indent gap hGap)).padded hNewLine
        simpa only [encodeIndentedEntries_cons_cons, List.append_assoc, List.cons_append,
          List.nil_append] using hBefore

/-- What stands between brackets or braces has no blank around it. -/
theorem trim_enclosed {first last : Char} (hFirst : isBlank first = false)
    (hLast : isBlank last = false) (text : Text) :
    trim (first :: text ++ [last]) = first :: text ++ [last] := by
  refine trim_eq_self (stopsAt_cons.mpr hFirst) ?_
  rw [List.reverse_append]
  exact stopsAt_cons.mpr hLast

/-- No blank stands around an indented value. -/
theorem trim_encodeIndented (step indent : Nat) (v : Value) :
    trim (encodeIndented step indent v) = encodeIndented step indent v := by
  have hPlain (v : Value) := trim_eq_self (stopsAt_encodeLine .plain v)
    (stopsAt_reverse_encodeLine .plain v)
  cases v with
  | null => exact hPlain .null
  | boolean b =>
      cases b with
      | false => exact hPlain (.boolean false)
      | true => exact hPlain (.boolean true)
  | integer n => exact hPlain (.integer n)
  | real x => exact hPlain (.real x)
  | text s => exact hPlain (.text s)
  | list vs =>
      cases vs with
      | nil => exact hPlain (.list [])
      | cons v vs => exact @trim_enclosed '[' ']' (by decide) (by decide) _
  | object es =>
      cases es with
      | nil => exact hPlain (.object [])
      | cons entry es => exact @trim_enclosed '\x7b' '\x7d' (by decide) (by decide) _

/-- Line breaks and blanks between the tokens are padding to the reader. -/
theorem decode?_encodeIndented (step indent : Nat) {v : Value} (hKeyed : keyed v = true) :
    decode? (encodeIndented step indent v) = some v :=
  ((readsIndented step).1 v hKeyed indent).decode? (trim_encodeIndented step indent v)

/-- Writing a value as JSON and reading it gives the value back, with any indentation; and so does
each of the two formats of numbers on one line, whichever the value is written in. -/
theorem decode?_encodeWith {v : Value} (hKeyed : keyed v = true) (indent : Int) :
    decode? (encodeWith indent v) = some v ∧
      ∀ format, decode? (encodeLine format v) = some v := by
  have hLine (format : RealFormat) := decode?_encodeLine format hKeyed
  refine ⟨?_, hLine⟩
  unfold encodeWith
  split_ifs
  · exact decode?_encode hKeyed
  · exact decode?_encodeIndented _ 0 hKeyed
  · exact hLine .plain

/-- A document with a whole number beyond machine words, both zeros, escapes and empty members. -/
def sampleDocument : Value :=
  .object [("b \"é\"", .list [.null, .boolean true, .integer (-(2 ^ 80)), .real (.zero true)]),
    ("a", .object [("", .text "tab\t\u0001 \\ 表😀"), ("empty", .list [])]),
    ("c", .list [.integer 0, .real (.zero false), .object []])]

/-- A document with numbers, escapes and nesting, with indentation and on one line. -/
theorem decode?_encodeWith_sampleDocument : keyed sampleDocument = true ∧
    decode? (encodeWith 2 sampleDocument) = some sampleDocument ∧
    ∀ format, decode? (encodeLine format sampleDocument) = some sampleDocument :=
  have hKeyed : keyed sampleDocument = true := by decide
  ⟨hKeyed, decode?_encodeWith hKeyed 2⟩

example : encodeWith 2 (.list [.object [("a", .integer 1), ("b", .list [])], .null]) =
    "[\n  \x7b\n    \"a\": 1,\n    \"b\": []\n  \x7d,\n  null\n]".toList := by
  decide

end Wireframe.Value
