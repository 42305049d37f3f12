import Wireframe.Page.Patch
import Wireframe.Proofs.Text.Span

/-! The attributes of a tag as pieces of its text. What a scanner reads as one attribute it reads
again wherever a blank or nothing follows. So pieces that are put together with blanks between them
are found one by one, in their order and with their values. -/
namespace Wireframe

namespace Attribute

open Text

def isName : Text → Bool
  | [] => false
  | c :: rest => isNameStart c && rest.all isNamePart

theorem toNat_of_isAlpha {c : Char} (h : c.isAlpha = true) : c.toNat < 0x80 := by
  simp only [Char.isAlpha, Char.isUpper, Char.isLower, Bool.or_eq_true, Bool.and_eq_true,
    decide_eq_true_eq, UInt32.le_iff_toNat_le, ge_iff_le] at h
  have hSame : c.toNat = c.val.toNat := rfl
  have hUpper : 'Z'.val.toNat = 90 := rfl
  have hLower : 'z'.val.toNat = 122 := rfl
  omega

/-- A name consists of characters that a name can go on with, so that the reader takes all of it. -/
theorem isNamePart_of_isName {text : Text} (h : isName text = true) :
    ∀ c ∈ text, isNamePart c = true := by
  cases text with
  | nil => cases h
  | cons c rest =>
      simp only [isName, Bool.and_eq_true, List.all_eq_true] at h
      have hStart : isNamePart c = true := by
        have hc := h.1
        simp only [isNameStart, Bool.or_eq_true, beq_iff_eq] at hc
        rcases hc with hAlpha | rfl
        · have hAlphanum : c.isAlphanum = true := by simp [Char.isAlphanum, hAlpha]
          rw [isNamePart, isWordChar_of_isAlphanum hAlphanum (toNat_of_isAlpha hAlpha),
            Bool.true_or]
        · decide
      intro d hd
      rcases List.mem_cons.mp hd with rfl | hd
      · exact hStart
      · exact h.2 d hd

/-- A blank ends a name. -/
theorem isBlank_of_isNamePart {c : Char} (h : isNamePart c = true) : isBlank c = false := by
  by_contra hBlank
  rw [Bool.not_eq_false] at hBlank
  rw [isNamePart, isWordChar_of_isBlank hBlank, Bool.false_or, beq_iff_eq] at h
  subst h
  exact absurd hBlank (by decide)

/-- The reader of braced values goes over the text and from one place to another. -/
def PassesBraces (state state' : BraceState) (depth depth' : Nat) (text : Text) : Prop :=
  ∀ rest, bracedText? state depth (text ++ rest) =
    (bracedText? state' depth' rest).map fun found => (text ++ found.1, found.2)

theorem PassesBraces.nil (state : BraceState) (depth : Nat) :
    PassesBraces state state depth depth [] := by
  intro rest
  simp

/-- Going over two texts one after another. This is what lets written values be read piece by piece. -/
theorem PassesBraces.append {first second third : BraceState} {a b c : Nat} {text more : Text}
    (hFirst : PassesBraces first second a b text) (hSecond : PassesBraces second third b c more) :
    PassesBraces first third a c (text ++ more) := by
  intro rest
  rw [List.append_assoc, hFirst, hSecond, Option.map_map]
  simp [Function.comp_def]

/-- One character that the reader goes over. -/
theorem PassesBraces.single {state state' : BraceState} {depth depth' : Nat} {c : Char}
    (h : ∀ rest, bracedText? state depth (c :: rest) =
      (bracedText? state' depth' rest).map fun found => (c :: found.1, found.2)) :
    PassesBraces state state' depth depth' [c] := by
  intro rest
  simpa using h rest

/-- A character closes a braced value, or the reader goes over it. -/
theorem bracedText?_cons (state : BraceState) (depth : Nat) (c : Char) :
    (c = '\x7d' ∧ ∀ rest, bracedText? state depth (c :: rest) = some ([], rest)) ∨
      ∃ next levels, PassesBraces state next depth levels [c] := by
  cases state with
  | escaped quote => exact .inr ⟨.quoted quote, depth, .single fun rest => by simp [bracedText?]⟩
  | quoted quote =>
      by_cases hBack : c = '\\'
      · exact .inr ⟨.escaped quote, depth, .single fun rest => by simp [bracedText?, hBack]⟩
      · by_cases hQuote : c = quote
        · subst hQuote
          exact .inr ⟨.plain, depth, .single fun rest => by simp [bracedText?, hBack]⟩
        · exact .inr ⟨.quoted quote, depth,
            .single fun rest => by simp [bracedText?, hBack, hQuote]⟩
  | plain =>
      by_cases hQuote : c = '"' ∨ c = '\''
      · exact .inr ⟨.quoted c, depth, .single fun rest => by simp [bracedText?, hQuote]⟩
      · by_cases hOpen : c = '\x7b'
        · exact .inr ⟨.plain, depth + 1, .single fun rest => by simp [bracedText?, hOpen]⟩
        · by_cases hClose : c = '\x7d'
          · by_cases hLast : depth ≤ 1
            · exact .inl ⟨hClose, fun rest => by simp [bracedText?, hClose, hLast]⟩
            · exact .inr ⟨.plain, depth - 1,
                .single fun rest => by simp [bracedText?, hClose, hLast]⟩
          · exact .inr ⟨.plain, depth,
              .single fun rest => by simp [bracedText?, hQuote, hOpen, hClose]⟩

/-- A braced value ends at its own closing brace, whatever follows that. -/
theorem bracedText?_replace {text inner rest : Text} :
    ∀ {state : BraceState} {depth : Nat}, bracedText? state depth text = some (inner, rest) →
      text = inner ++ '\x7d' :: rest ∧
        ∀ other, bracedText? state depth (inner ++ '\x7d' :: other) = some (inner, other) := by
  induction text generalizing inner with
  | nil =>
      intro state depth h
      cases h
  | cons c text ih =>
      intro state depth h
      rcases bracedText?_cons state depth c with ⟨rfl, hClose⟩ | ⟨next, levels, hStep⟩
      · rw [hClose, Option.some.injEq, Prod.mk.injEq] at h
        obtain ⟨rfl, rfl⟩ := h
        exact ⟨rfl, hClose⟩
      · rw [← List.singleton_append, hStep, Option.map_eq_some_iff] at h
        obtain ⟨⟨more, tail⟩, hMore, hEq⟩ := h
        rw [Prod.mk.injEq] at hEq
        obtain ⟨rfl, rfl⟩ := hEq
        obtain ⟨rfl, hOther⟩ := ih hMore
        exact ⟨rfl, fun other => by rw [List.append_assoc, hStep, hOther, Option.map_some]⟩

/-- A blank follows, or nothing. -/
def Parted (rest : Text) : Prop :=
  StopsAt (fun c => !isBlank c) rest

/-- What stands behind the name of an attribute, as it is read where a blank or nothing follows. -/
structure Shows (value : Value) (text : Text) : Prop where
  starts : ∀ c ∈ text.head?, c = '='
  reads : ∀ rest, Parted rest → value? (text ++ rest) = some (value, text.length, rest)

/-- A blank stops any run of characters that holds none. -/
theorem Parted.stopsAt {p : Char → Bool} {rest : Text} (h : Parted rest)
    (hp : ∀ c, p c = true → isBlank c = false) : StopsAt p rest :=
  StopsAt.mono h fun c hc => by simp [hp c hc]

/-- A name that no `=` follows stands for `true`. -/
theorem value?_of_stopsAt {rest : Text} (h : StopsAt (· == '=') rest) :
    value? rest = some (.boolean true, 0, rest) := by
  unfold value?
  split <;> simp_all

/-- Between quotes of one kind anything is read that does not hold that quote. -/
theorem value?_quoted {quote : Char} {inner : Text} (rest : Text)
    (hQuote : quote = '"' ∨ quote = '\'') (h : quote ∉ inner) :
    value? ('=' :: quote :: inner ++ quote :: rest) =
      some (.text (String.ofList inner), inner.length + 3, rest) := by
  have hRun : ∀ c ∈ inner, decide (c ≠ quote) = true := by
    intro c hc
    rw [decide_eq_true_eq]
    rintro rfl
    exact h hc
  have hStop : StopsAt (fun c => decide (c ≠ quote)) (quote :: rest) := by simp
  have hTake := takeWhile_append_of_stopsAt hRun hStop
  have hDrop := dropWhile_append_of_stopsAt hRun hStop
  simp only [List.cons_append, value?, hTake, hDrop]
  simp [hQuote]

/-- A bare name shows `true`. -/
theorem shows_bare : Shows (.boolean true) [] where
  starts c hc := by cases hc
  reads rest h := value?_of_stopsAt (h.stopsAt fun c hc => by rw [beq_iff_eq.mp hc]; decide)

/-- A text between quotes shows the text, whichever quotes these are. -/
theorem shows_quoted {quote : Char} {inner : Text} (hQuote : quote = '"' ∨ quote = '\'')
    (hInner : quote ∉ inner) :
    Shows (.text (String.ofList inner)) ('=' :: quote :: inner ++ [quote]) where
  starts c hc := by simpa using hc.symm
  reads rest _ := by
    rw [List.append_assoc, List.singleton_append, value?_quoted rest hQuote hInner]
    simp

/-- A value between braces shows what the braced text decodes to. -/
theorem shows_braced {inner : Text}
    (h : ∀ rest, bracedText? .plain 1 (inner ++ '\x7d' :: rest) = some (inner, rest)) :
    Shows (bracedValue inner) ('=' :: '\x7b' :: inner ++ ['\x7d']) where
  starts c hc := by simpa using hc.symm
  reads rest _ := by
    rw [List.append_assoc, List.singleton_append]
    simp only [List.cons_append, value?, h]
    simp

/-- A value may also stand without quotes and braces, up to the next blank. -/
theorem shows_word {word : Text} (hWord : ∀ c ∈ word, isBlank c = false)
    (hStart : ∀ c ∈ word.head?, c ≠ '"' ∧ c ≠ '\'' ∧ c ≠ '\x7b') :
    Shows (.text (String.ofList word)) ('=' :: word) where
  starts c hc := by simpa using hc.symm
  reads rest h := by
    have hRun : ∀ c ∈ word, (!isBlank c) = true := fun c hc => by simp [hWord c hc]
    have hTake := takeWhile_append_of_stopsAt hRun h
    have hDrop := dropWhile_append_of_stopsAt hRun h
    have hFirst : ∀ c ∈ (word ++ rest).head?, c ≠ '"' ∧ c ≠ '\'' ∧ c ≠ '\x7b' := by
      cases word with
      | cons d word => exact hStart
      | nil =>
          intro c hc
          have hBlank : isBlank c = true := by simpa using h c hc
          refine ⟨?_, ?_, ?_⟩ <;> (rintro rfl; exact absurd hBlank (by decide))
    rw [List.cons_append]
    cases hText : word ++ rest with
    | nil =>
        obtain ⟨rfl, rfl⟩ := List.append_eq_nil_iff.mp hText
        rfl
    | cons c more =>
        rw [hText] at hTake hDrop hFirst
        obtain ⟨hDouble, hSingle, hBrace⟩ := hFirst c (by simp)
        simp [value?, hDouble, hSingle, hBrace, hTake, hDrop]

/-- What is read behind a name is read again wherever a blank or nothing follows. -/
theorem exists_shows {text rest : Text} {value : Value} {length : Nat}
    (h : value? text = some (value, length, rest)) :
    ∃ shown, text = shown ++ rest ∧ shown.length = length ∧ Shows value shown := by
  unfold value? at h
  split at h
  case h_1 =>
    cases h
    exact ⟨['='], rfl, rfl, @shows_word [] (by simp) (by simp)⟩
  case h_2 c text =>
    split_ifs at h with hQuote hBrace
    -- A quoted value ends at the next quote of its sort, which `dropWhile` has stopped at.
    · have hQuote : c = '"' ∨ c = '\'' := by simpa using hQuote
      split at h
      · cases h
      · rename_i d after hAfter
        cases h
        have hInner : c ∉ text.takeWhile fun d => decide (d ≠ c) := fun hc => by
          simpa using List.mem_takeWhile_imp hc
        have hStop := stopsAt_dropWhile (fun d => decide (d ≠ c)) text
        have hSplit := List.takeWhile_append_dropWhile (p := fun d => decide (d ≠ c)) (l := text)
        rw [hAfter] at hStop hSplit
        obtain rfl : d = c := by simpa using hStop
        refine ⟨_, ?_, ?_, shows_quoted hQuote hInner⟩
        · conv_lhs => rw [← hSplit]
          simp
        · simp
    · obtain ⟨⟨inner, after⟩, hInner, hEq⟩ := Option.map_eq_some_iff.mp h
      cases hEq
      obtain ⟨rfl, hOther⟩ := bracedText?_replace hInner
      exact ⟨_, by simp [hBrace], by simp, shows_braced hOther⟩
    -- Neither quote nor brace: a bare word, up to the next blank.
    · cases h
      refine ⟨'=' :: (c :: text).takeWhile fun d => !isBlank d, ?_, by simp, shows_word ?_ ?_⟩
      · rw [List.cons_append, List.takeWhile_append_dropWhile]
      · intro d hd
        simpa using List.mem_takeWhile_imp hd
      · intro d hd
        have hFirst : d = c := by
          rw [List.takeWhile_cons] at hd
          split at hd
          · simpa using hd.symm
          · cases hd
        subst hFirst
        simp only [Bool.or_eq_true, decide_eq_true_eq, not_or] at hQuote
        exact ⟨hQuote.1, hQuote.2, hBrace⟩
  case h_3 =>
    cases h
    exact ⟨[], rfl, rfl, shows_bare⟩

/-- An attribute with its own text. -/
structure Piece where
  key : String
  value : Value
  text : Text

/-- The text is a name, and behind it the value as it shows. -/
structure Piece.Whole (piece : Piece) : Prop where
  named : isName piece.key.toList = true
  shows : ∃ shown, piece.text = piece.key.toList ++ shown ∧ Shows piece.value shown

/-- No attribute is empty, so that every step of a scan makes the text shorter. -/
theorem Piece.Whole.length_pos {piece : Piece} (h : piece.Whole) : 0 < piece.text.length := by
  obtain ⟨shown, hText, -⟩ := h.shows
  have hName := h.named
  rw [hText, List.length_append]
  cases hKey : piece.key.toList with
  | nil =>
      rw [hKey] at hName
      cases hName
  | cons c more => simp

def pieces : Nat → Text → List Piece
  | 0, _ => []
  | _, [] => []
  | fuel + 1, c :: rest =>
    if isNameStart c then
      let name := c :: rest.takeWhile isNamePart
      let behind := rest.dropWhile isNamePart
      match value? behind with
      | none => []
      | some (value, length, after) =>
        ⟨String.ofList name, value, name ++ behind.take length⟩ :: pieces fuel after
    else pieces fuel rest

/-- The attributes are found where they stand. -/
theorem map_scanFrom (text : Text) :
    ∀ (fuel : Nat) (before : Text),
      (scanFrom fuel before.length text).map
          (fun found => (⟨found.key, found.value, slice (before ++ text) found⟩ : Piece)) =
        pieces fuel text := by
  intro fuel
  induction fuel generalizing text with
  | zero => exact fun _ => rfl
  | succ fuel ih =>
      intro before
      cases text with
      | nil => rfl
      | cons c rest =>
          have hSplit := List.takeWhile_append_dropWhile (p := isNamePart) (l := rest)
          rw [scanFrom, pieces]
          split
          · dsimp only
            generalize rest.takeWhile isNamePart = part at hSplit ⊢
            generalize rest.dropWhile isNamePart = behind at hSplit ⊢
            subst hSplit
            cases hValue : value? behind with
            | none => rfl
            | some found =>
                obtain ⟨value, length, after⟩ := found
                obtain ⟨shown, rfl, rfl, -⟩ := exists_shows hValue
                -- The attribute joins what lies before, and the induction takes over.
                have hText : before ++ c :: (part ++ (shown ++ after)) =
                    before ++ ((c :: part ++ shown) ++ after) := by simp
                have hStop : before.length + (c :: part).length + shown.length =
                    (before ++ (c :: part ++ shown)).length := by simp; omega
                have hSlice : slice (before ++ ((c :: part ++ shown) ++ after))
                    ⟨String.ofList (c :: part), value, before.length,
                      (before ++ (c :: part ++ shown)).length⟩ = c :: part ++ shown := by
                  rw [slice, List.drop_left, List.length_append, Nat.add_sub_cancel_left,
                    List.take_left]
                have hRest := ih after (before ++ (c :: part ++ shown))
                rw [List.append_assoc] at hRest
                rw [List.map_cons, hText, hStop, hSlice, hRest]
                simp only [List.take_left]
          · have hRest := ih rest (before ++ [c])
            simpa using hRest

/-- Whatever the text is, what a scan finds are whole attributes. -/
theorem whole_of_mem_pieces {piece : Piece} :
    ∀ (fuel : Nat) (text : Text), piece ∈ pieces fuel text → piece.Whole := by
  intro fuel
  induction fuel with
  | zero => exact fun _ hMem => absurd hMem List.not_mem_nil
  | succ fuel ih =>
      intro text hMem
      cases text with
      | nil => exact absurd hMem List.not_mem_nil
      | cons c rest =>
          rw [pieces] at hMem
          split at hMem
          · rename_i hStart
            cases hValue : value? (rest.dropWhile isNamePart) with
            | none => simp [hValue] at hMem
            | some found =>
                obtain ⟨value, length, after⟩ := found
                simp only [hValue, List.mem_cons] at hMem
                rcases hMem with rfl | hMem
                -- The piece found here is a name and a value as the grammar has them.
                · obtain ⟨shown, hBehind, rfl, hShows⟩ := exists_shows hValue
                  refine ⟨?_, shown, ?_, hShows⟩
                  · rw [String.toList_ofList, isName, hStart, Bool.true_and, List.all_eq_true]
                    exact fun d hd => List.mem_takeWhile_imp hd
                  · rw [String.toList_ofList, hBehind, List.take_left]
                · exact ih after hMem
          · exact ih rest hMem

/-- A piece is found where a blank or nothing follows. -/
theorem pieces_append {piece : Piece} (h : piece.Whole) (fuel : Nat) {rest : Text}
    (hRest : Parted rest) :
    pieces (fuel + 1) (piece.text ++ rest) = piece :: pieces fuel rest := by
  obtain ⟨key, value, text⟩ := piece
  obtain ⟨hName, shown, hText, hShows⟩ := h
  dsimp only at hName hText hShows ⊢
  subst hText
  cases hKey : key.toList with
  | nil =>
      rw [hKey] at hName
      cases hName
  | cons c more =>
      rw [hKey, isName, Bool.and_eq_true, List.all_eq_true] at hName
      have hStop : StopsAt isNamePart (shown ++ rest) := by
        cases shown with
        | nil => exact hRest.stopsAt fun _ => isBlank_of_isNamePart
        | cons d shown =>
            rw [List.cons_append, stopsAt_cons, hShows.starts d rfl]
            decide
      have hTake := takeWhile_append_of_stopsAt hName.2 hStop
      have hDrop := dropWhile_append_of_stopsAt hName.2 hStop
      have hOfList : String.ofList (c :: more) = key := by rw [← hKey, String.ofList_toList]
      rw [List.cons_append, List.cons_append, List.append_assoc, pieces]
      simp only [hName.1, if_true, hTake, hDrop, hShows.reads rest hRest, hOfList, List.take_left]
      rfl

/-- The text is made of the pieces in their order, with blanks before each of them and perhaps at
the end. -/
inductive Spaced : List Piece → Text → Prop
  | blanks {gap : Text} : allBlank gap = true → Spaced [] gap
  | piece {gap text : Text} {piece : Piece} {rest : List Piece} :
      gap ≠ [] → allBlank gap = true → Spaced rest text →
        Spaced (piece :: rest) (gap ++ (piece.text ++ text))

theorem Spaced.parted {found : List Piece} {text : Text} (h : Spaced found text) : Parted text := by
  intro c hc
  have hGap {gap : Text} (hBlank : allBlank gap = true) (hMem : c ∈ gap) :
      (!isBlank c) = false := by
    rw [List.all_eq_true.mp hBlank c hMem, Bool.not_true]
  cases h with
  | blanks hBlank => exact hGap hBlank (List.mem_of_mem_head? hc)
  | @piece gap _ _ _ hSome hBlank _ =>
      rw [List.head?_append_of_ne_nil _ hSome] at hc
      exact hGap hBlank (List.mem_of_mem_head? hc)

/-- Attributes with a blank before each are spaced. -/
theorem spaced_join (found : List Piece) :
    Spaced found (found.flatMap fun piece => ' ' :: piece.text) := by
  induction found with
  | nil => exact .blanks rfl
  | cons piece rest ih => exact @Spaced.piece [' '] _ piece rest (by simp) (by decide) ih

/-- Blanks in front only take steps of the scan. -/
theorem pieces_blanks (fuel : Nat) {gap : Text} (hBlank : allBlank gap = true) (text : Text) :
    pieces (fuel + gap.length) (gap ++ text) = pieces fuel text := by
  induction gap with
  | nil => rfl
  | cons c gap ih =>
      rw [allBlank, List.all_cons, Bool.and_eq_true] at hBlank
      have hName : isNameStart c = false := by
        by_contra hName
        rw [Bool.not_eq_false] at hName
        have hPart : isNamePart c = true :=
          isNamePart_of_isName (show isName [c] = true by rw [isName, hName]; rfl) c (by simp)
        rw [isBlank_of_isNamePart hPart] at hBlank
        exact absurd hBlank.1 (by decide)
      rw [List.length_cons, ← Nat.add_assoc, List.cons_append, pieces, hName, if_neg (by simp)]
      exact ih hBlank.2

/-- The pieces of a text are found in it, one by one. -/
theorem pieces_of_spaced {found : List Piece} {text : Text} (h : Spaced found text)
    (hWhole : ∀ piece ∈ found, piece.Whole) :
    ∀ fuel, text.length ≤ fuel → pieces fuel text = found := by
  induction h with
  | @blanks gap hBlank =>
      intro fuel hFuel
      obtain ⟨less, rfl⟩ := Nat.exists_eq_add_of_le' hFuel
      have hNone := pieces_blanks less hBlank []
      rw [List.append_nil] at hNone
      rw [hNone]
      cases less <;> rfl
  | @piece gap text piece rest hSome hBlank hText ih =>
      intro fuel hFuel
      obtain ⟨hHere, hLater⟩ := List.forall_mem_cons.mp hWhole
      have hPos : 0 < piece.text.length := hHere.length_pos
      rw [List.length_append, List.length_append] at hFuel
      obtain ⟨less, rfl⟩ : ∃ less, fuel = less + 1 + gap.length :=
        ⟨fuel - gap.length - 1, by omega⟩
      rw [pieces_blanks _ hBlank, pieces_append hHere _ hText.parted,
        ih hLater less (by omega)]

def piecesOf (attributes : Text) : List Piece :=
  pieces attributes.length attributes

/-- A spaced row of whole attributes is read as just these attributes. All readings of rewritten
tags come from this. -/
theorem piecesOf_of_spaced {found : List Piece} {text : Text} (h : Spaced found text)
    (hWhole : ∀ piece ∈ found, piece.Whole) : piecesOf text = found :=
  pieces_of_spaced h hWhole _ le_rfl

/-- Whatever a tag holds, its attributes are whole pieces of it. -/
theorem whole_of_mem_piecesOf {piece : Piece} {attributes : Text}
    (h : piece ∈ piecesOf attributes) : piece.Whole :=
  whole_of_mem_pieces _ _ h

namespace Piece

def prop (piece : Piece) : String × Value :=
  (piece.key, piece.value)

def row (piece : Piece) : String × Text :=
  (piece.key, piece.text)

/-- Keeps an attribute whose key is new. -/
def keepFirst (kept : List Piece) (piece : Piece) : List Piece :=
  if kept.any fun known => known.key = piece.key then kept else kept ++ [piece]

end Piece

/-- The attributes of a tag in order, with all repetitions. -/
def entries (attributes : Text) : Props :=
  (scan attributes).map fun found => (found.key, found.value)

theorem props_eq_ofEntries (attributes : Text) :
    props attributes = Props.ofEntries (entries attributes) := rfl

/-- The entries of a tag are the props of its pieces. -/
theorem entries_eq (attributes : Text) :
    entries attributes = (piecesOf attributes).map Piece.prop := by
  rw [piecesOf, ← map_scanFrom attributes attributes.length [], List.map_map]
  rfl

def firsts (attributes : Text) : List Piece :=
  (piecesOf attributes).foldl Piece.keepFirst []

/-- Keeping the first of a key on the texts is keeping it on the pieces. -/
theorem keepFirst_row (kept : List Piece) (piece : Piece) :
    Page.keepFirst (kept.map Piece.row) piece.row = (Piece.keepFirst kept piece).map Piece.row := by
  have hKnown : ((kept.map Piece.row).any fun known => known.1 = piece.row.1) =
      kept.any fun known => known.key = piece.key := by
    rw [List.any_map]
    rfl
  rw [Page.keepFirst, hKnown, Piece.keepFirst]
  split
  · rfl
  · rw [List.map_append, List.map_singleton]

theorem foldl_keepFirst_row (found kept : List Piece) :
    (found.map Piece.row).foldl Page.keepFirst (kept.map Piece.row) =
      (found.foldl Piece.keepFirst kept).map Piece.row := by
  induction found generalizing kept with
  | nil => rfl
  | cons piece rest ih => rw [List.map_cons, List.foldl_cons, keepFirst_row, ih, List.foldl_cons]

/-- The texts of the attributes of a tag are those of the first of each key. -/
theorem attributeTexts_eq (attributes : Text) :
    Page.attributeTexts attributes = (firsts attributes).map Piece.row := by
  have hRows : (scan attributes).map (fun found => (found.key, slice attributes found)) =
      (piecesOf attributes).map Piece.row := by
    rw [piecesOf, ← map_scanFrom attributes attributes.length [], List.map_map]
    rfl
  rw [Page.attributeTexts, hRows]
  exact foldl_keepFirst_row (piecesOf attributes) []

end Attribute
end Wireframe
