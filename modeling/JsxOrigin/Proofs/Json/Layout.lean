import JsxOrigin.Proofs.Json.Document
import JsxOrigin.Proofs.Json.RoundTrip
import JsxOrigin.Proofs.Text.Order
import Mathlib.Data.List.Basic
import Mathlib.Data.List.TakeDrop

/-!
# Documents laid out

The tokens of a document can be laid out with white space before, between and after them. A reader
passes the white space by, and it takes each token whole, because what follows a token cannot be
taken for more of it.

**The law** (`Json.parse_spaced`): however its tokens are laid out, a document is read in the same
way.
-/

namespace JsxOrigin

namespace Json

/-- White space only. -/
def IsSpaces (t : Text) : Prop := ∀ c ∈ t, Reader.isSpace c = true

/-- **Tokens laid out**: a text that is made of tokens, in order, with white space before, between
and after them. -/
inductive Spaced : List Text → Text → Prop where
  | done {spaces : Text} (blank : IsSpaces spaces) : Spaced [] spaces
  | token {spaces token rest : Text} {tokens : List Text} (blank : IsSpaces spaces)
    (more : Spaced tokens rest) : Spaced (token :: tokens) (spaces ++ (token ++ rest))

namespace Reader

/-! ## Strings -/

/-- A piece of a string is read as what it stands for. -/
theorem stringBody_piece (piece : StringPiece) (rest : Text) :
    stringBody (piece.text ++ rest) =
      (stringBody rest).map fun read => (piece.meaning :: read.1, read.2) := by
  cases piece with
  | raw c visible plain =>
    have noControl : ¬ ((CodePoint.scalar c).val < 0x20 ∨ CodePoint.scalar c = .scalar '\\') := by
      rintro (control | backslash)
      · exact absurd control (Nat.not_lt.mpr visible)
      · exact plain.2 (CodePoint.scalar.inj backslash)
    rw [StringPiece.text, List.singleton_append, stringBody, if_neg noControl]
    · rfl
    · exact fun quote => plain.1 (CodePoint.scalar.inj quote)
    · exact fun _ _ _ _ _ backslash => absurd (CodePoint.scalar.inj backslash) plain.2
    · exact fun _ _ backslash => absurd (CodePoint.scalar.inj backslash) plain.2
  | escape letter c listed =>
    have means : ∀ e ∈ escapes, simpleEscape? (.scalar e.1) = some (.scalar e.2) ∧ e.1 ≠ 'u' := by
      decide
    obtain ⟨known, notU⟩ := means _ listed
    rw [StringPiece.text, List.cons_append, List.singleton_append, stringBody]
    · rw [known]
      rfl
    · exact fun _ _ _ _ _ isU => absurd (CodePoint.scalar.inj isU) notU
  | unit digits c four hexadecimal named =>
    obtain ⟨a, b, e, f, rfl⟩ := List.length_eq_four.mp four
    have names : hex4? a b e f = some c := by
      rw [hex4?, if_pos (List.all_eq_true.mpr hexadecimal), named, CodePoint.ofNat?_val]
    rw [StringPiece.text]
    simp only [List.cons_append, List.nil_append, stringBody, names]
    rfl

theorem string_text (s : StringToken) (rest : Text) :
    string (s.body ++ .scalar '"' :: rest) = .ok (s.value, rest) := by
  have body (pieces : List StringPiece) :
      stringBody (pieces.flatMap StringPiece.text ++ .scalar '"' :: rest) =
        .ok (pieces.map StringPiece.meaning, rest) := by
    induction pieces with
    | nil => rfl
    | cons piece pieces ih =>
      rw [List.flatMap_cons, List.append_assoc, stringBody_piece, ih]
      rfl
  rw [string, StringToken.body, body]
  rfl

/-! ## Numbers -/

/-- What can follow a number. -/
def enders : List CodePoint :=
  [.scalar ' ', .scalar '\t', .scalar '\n', .scalar '\r', .scalar ',', .scalar ']', .scalar '}']

/-- A number ends here. -/
def Ends (rest : Text) : Prop := ∀ c ∈ rest.head?, c ∈ enders

theorem digits_append {ds rest : Text} (all : ∀ c ∈ ds, c.isDigit 10 = true)
    (stop : ∀ c ∈ rest.head?, c.isDigit 10 = false) : digits (ds ++ rest) = (ds, rest) := by
  rw [digits, List.span_eq_takeWhile_dropWhile, List.takeWhile_append_of_pos all,
    List.dropWhile_append_of_pos all]
  cases rest with
  | nil => simp
  | cons c rest => simp [stop c rfl]

theorem wholePart_append {n : NumberToken} {rest : Text}
    (stop : ∀ c ∈ rest.head?, c.isDigit 10 = false) :
    wholePart (n.whole ++ rest) = some (n.whole, rest) := by
  obtain ⟨filled, all⟩ := n.isWhole
  obtain ⟨c, ds, isCons⟩ := List.exists_cons_of_ne_nil filled
  by_cases zero : c = .scalar '0'
  · have whole : n.whole = mark '0' := n.noZero (by rw [isCons, zero]; rfl)
    rw [whole]
    rfl
  · unfold wholePart
    split
    · rename_i r starts
      rw [isCons] at starts
      exact absurd (List.cons.inj starts).1 zero
    · rw [digits_append all stop]
      simp [filled]

theorem places_text {fraction : Option Text} {rest : Text}
    (isFraction : ∀ ds ∈ fraction, IsDigits ds)
    (stop : ∀ c ∈ rest.head?, c.isDigit 10 = false ∧ c ≠ .scalar '.') :
    places (fraction.elim [] (.scalar '.' :: ·) ++ rest) = (fraction.getD [], rest) := by
  cases fraction with
  | none =>
    unfold places
    split
    · rename_i r starts
      rw [Option.elim_none, List.nil_append] at starts
      exact absurd rfl (stop _ (by rw [starts]; rfl)).2
    · rfl
  | some ds =>
    obtain ⟨filled, all⟩ := isFraction ds rfl
    rw [Option.elim_some, List.cons_append, places, digits_append all fun c mem => (stop c mem).1]
    simp [filled]

theorem exponent_text {e : Option Exponent} {rest : Text} (ends : Ends rest) :
    exponent (e.elim [] Exponent.text ++ rest) = (e.map Exponent.value, rest) := by
  have stops : ∀ c ∈ enders, c.isDigit 10 = false ∧ c ≠ .scalar 'e' ∧ c ≠ .scalar 'E' := by decide
  cases e with
  | none =>
    rw [Option.elim_none, List.nil_append]
    unfold exponent
    split
    · rename_i c r
      obtain ⟨-, notLower, notUpper⟩ := stops _ (ends _ rfl)
      rw [if_neg]
      · rfl
      · rintro (rfl | rfl)
        · exact notLower rfl
        · exact notUpper rfl
    · rfl
  | some e =>
    obtain ⟨filled, all⟩ := e.isDigits
    have nonempty : e.digits.isEmpty = false := by simpa using filled
    have read := digits_append all fun c mem => (stops c (ends c mem)).1
    have unsigned {c : CodePoint} (noDigit : c.isDigit 10 = false) (r : Text) :
        e.digits ++ rest ≠ c :: r := by
      obtain ⟨d, ds, isCons⟩ := List.exists_cons_of_ne_nil filled
      intro starts
      rw [isCons] at starts
      have isDigit := all d (by rw [isCons]; exact List.mem_cons_self)
      rw [(List.cons.inj starts).1, noDigit] at isDigit
      cases isDigit
    rw [Option.elim_some, Exponent.text, Option.map_some, Exponent.value]
    rcases e.isSign with none | plus | minus
    · rw [none, List.nil_append, List.cons_append, exponent, if_pos e.isLetter, read]
      · simp only [nonempty]
        rfl
      · exact unsigned rfl
      · exact unsigned rfl
    · simp only [plus, mark, List.cons_append, List.nil_append]
      rw [exponent, if_pos e.isLetter, read]
      simp only [nonempty]
      rfl
    · simp only [minus, mark, List.cons_append, List.nil_append]
      rw [exponent, if_pos e.isLetter, read]
      simp only [nonempty]
      rfl

/-- A number is read up to where it ends. -/
theorem number_unsigned (n : NumberToken) {rest : Text} (ends : Ends rest) :
    number n.negative (n.unsigned ++ rest) =
      if n.isTooLong then .error .integerTooLong else .ok (n.value, rest) := by
  have stops : ∀ c ∈ enders, c.isDigit 10 = false ∧ c ≠ .scalar '.' := by decide
  -- Neither an exponent nor what follows the number can be taken for more of the digits before.
  have stopsPlaces : ∀ c ∈ (n.exponent.elim [] Exponent.text ++ rest).head?,
      c.isDigit 10 = false ∧ c ≠ .scalar '.' := by
    cases n.exponent with
    | none => exact fun c mem => stops c (ends c mem)
    | some e =>
      intro c mem
      cases Option.some.inj mem
      rcases e.isLetter with isLetter | isLetter <;> rw [isLetter] <;> decide
  have stopsWhole : ∀ c ∈ (n.fraction.elim [] (.scalar '.' :: ·) ++
      (n.exponent.elim [] Exponent.text ++ rest)).head?, c.isDigit 10 = false := by
    cases n.fraction with
    | none => exact fun c mem => (stopsPlaces c mem).1
    | some ds =>
      intro c mem
      cases Option.some.inj mem
      rfl
  have noPlaces : (n.fraction.getD []).isEmpty = n.fraction.isNone := by
    cases isFraction : n.fraction with
    | none => rfl
    | some ds => simpa using (n.isFraction ds isFraction).1
  rw [number, NumberToken.unsigned, List.append_assoc, List.append_assoc,
    wholePart_append stopsWhole]
  simp only [places_text n.isFraction stopsPlaces, exponent_text ends, noPlaces, Option.isNone_map]
  have power : (n.exponent.map Exponent.value).getD 0 = n.exponent.elim 0 Exponent.value := by
    cases n.exponent <;> rfl
  rw [NumberToken.isTooLong, NumberToken.value, NumberToken.isInteger, power]
  cases n.fraction.isNone && n.exponent.isNone with
  | true => simp
  | false => simp

/-- No word starts as a number does. -/
theorem words_start : ∀ w ∈ words, ∃ d more, Text.ofString w.1 = d :: more ∧
    d.isDigit 10 = false ∧ (d = .scalar '-' → ∃ ds, more = .scalar 'I' :: ds) := by
  simp only [words, List.forall_mem_cons]
  refine ⟨⟨.scalar 'n', _, rfl, rfl, fun minus => ?_⟩, ⟨.scalar 't', _, rfl, rfl, fun minus => ?_⟩,
    ⟨.scalar 'f', _, rfl, rfl, fun minus => ?_⟩, ⟨.scalar 'N', _, rfl, rfl, fun minus => ?_⟩,
    ⟨.scalar 'I', _, rfl, rfl, fun minus => ?_⟩, ⟨.scalar '-', _, rfl, rfl, fun _ => ⟨_, rfl⟩⟩, ?_⟩
  · cases minus
  · cases minus
  · cases minus
  · cases minus
  · cases minus
  · exact fun w mem => absurd mem List.not_mem_nil

theorem find_words_of_digit {c : CodePoint} (isDigit : c.isDigit 10 = true) (t : Text) :
    (words.find? fun w => Text.startsWith (c :: t) w.1) = none ∧
      (words.find? fun w => Text.startsWith (.scalar '-' :: c :: t) w.1) = none := by
  constructor
  · rw [List.find?_eq_none]
    intro w mem
    obtain ⟨d, more, starts, noDigit, -⟩ := words_start w mem
    have differ : d ≠ c := by
      rintro rfl
      rw [noDigit] at isDigit
      cases isDigit
    simp [Text.startsWith, starts, differ]
  · rw [List.find?_eq_none]
    intro w mem
    obtain ⟨d, more, starts, -, minus⟩ := words_start w mem
    by_cases isMinus : d = .scalar '-'
    · obtain ⟨ds, isI⟩ := minus isMinus
      have differ : CodePoint.scalar 'I' ≠ c := by
        rintro rfl
        exact absurd isDigit (by decide)
      simp [Text.startsWith, starts, isI, differ]
    · simp [Text.startsWith, starts, isMinus]

theorem plain_number (n : NumberToken) {rest : Text} (ends : Ends rest) :
    plain (n.text ++ rest) =
      if n.isTooLong then .error .integerTooLong else .ok (n.value, rest) := by
  obtain ⟨filled, all⟩ := n.isWhole
  obtain ⟨c, ds, isCons⟩ := List.exists_cons_of_ne_nil filled
  have isDigit : c.isDigit 10 = true := all c (by rw [isCons]; exact List.mem_cons_self)
  obtain ⟨more, starts⟩ : ∃ more, n.unsigned ++ rest = c :: more := by
    rw [NumberToken.unsigned, isCons]
    exact ⟨_, rfl⟩
  obtain ⟨noWord, noWordSigned⟩ := find_words_of_digit isDigit more
  rw [← number_unsigned n ends, NumberToken.text]
  cases negative : n.negative with
  | true =>
    rw [if_pos rfl, List.cons_append, starts, plain, noWordSigned]
  | false =>
    rw [if_neg (by decide), starts, plain, noWord]
    intro r isMinus
    cases isMinus
    exact absurd isDigit (by decide)

theorem value_plain {c : CodePoint} (other : c ∉ openers) (fuel room : Nat) (t : Text) :
    value (fuel + 1) room (c :: t) = plain (c :: t) := by
  have differ {d : CodePoint} (opens : d ∈ openers) (r : Text) : c :: t ≠ d :: r := by
    intro same
    exact other ((List.cons.inj same).1 ▸ opens)
  rw [value]
  · exact differ (by decide)
  · exact fun r same _ => differ (by decide) r same
  · exact fun r same _ => differ (by decide) r same
  · exact fun r _ same _ => differ (by decide) r same
  · exact fun r _ same _ => differ (by decide) r same

end Reader

/-! ## Laid out tokens -/

open Reader

theorem mem_enders_of_isSpace {c : CodePoint} (isSpace : Reader.isSpace c = true) : c ∈ enders := by
  have each : ∀ v ∈ [0x20, 0x9, 0xA, 0xD], ∃ d ∈ enders, d.val = v := by decide
  obtain ⟨d, ender, same⟩ := each c.val (List.contains_iff_mem.mp isSpace)
  rwa [← CodePoint.val_injective same]

theorem solid_of_not_ender {c : CodePoint} (other : c ∉ enders) : isSpace c = false :=
  Bool.eq_false_iff.mpr fun isSpace => other (mem_enders_of_isSpace isSpace)

theorem skipSpace_append {spaces : Text} (blank : IsSpaces spaces) (t : Text) :
    skipSpace (spaces ++ t) = skipSpace t :=
  List.dropWhile_append_of_pos blank

/-- After white space comes the first token. -/
theorem Spaced.first {c : CodePoint} {cs text : Text} {tokens : List Text}
    (solid : isSpace c = false) (laid : Spaced ((c :: cs) :: tokens) text) :
    ∃ rest, Spaced tokens rest ∧ Reader.skipSpace text = c :: (cs ++ rest) := by
  cases laid with
  | @token spaces _ rest _ blank more =>
    refine ⟨rest, more, ?_⟩
    rw [skipSpace_append blank]
    exact skipSpace_cons solid _

/-- After the last token comes white space only. -/
theorem Spaced.atEnd {text : Text} (laid : Spaced [] text) :
    Reader.skipSpace text = [] := by
  cases laid with
  | done blank =>
    rw [← List.append_nil text, skipSpace_append blank]
    rfl

/-- What is left of laid out tokens is laid out. -/
theorem Spaced.drop {front back : List Text} {text : Text} (laid : Spaced (front ++ back) text) :
    ∃ rest, Spaced back rest := by
  induction front generalizing text with
  | nil => exact ⟨text, laid⟩
  | cons t front ih =>
    cases laid with
    | token blank more => exact ih more

/-- The tokens that can follow a value. -/
def followers : List Text := [mark ',', mark ']', mark '}']

/-- Nothing follows a value, or one of the tokens that can. -/
def Follows (tokens : List Text) : Prop := ∀ t ∈ tokens.head?, t ∈ followers

theorem follows_cons {t : Text} (listed : t ∈ followers) (tokens : List Text) :
    Follows (t :: tokens) := by
  intro u mem
  cases Option.some.inj mem
  exact listed

/-- A number ends where a value can end. -/
theorem Spaced.ends {tokens : List Text} {text : Text} (laid : Spaced tokens text)
    (follows : Follows tokens) : Ends text := by
  have ofSpaces {c : CodePoint} {spaces : Text} (blank : IsSpaces (c :: spaces)) (rest : Text) :
      Ends (c :: rest) := by
    intro d mem
    cases Option.some.inj mem
    exact mem_enders_of_isSpace (blank c List.mem_cons_self)
  have ofMark : ∀ t ∈ followers, ∃ c ∈ enders, t = [c] := by decide
  cases laid with
  | done blank =>
    cases text with
    | nil => exact fun c mem => absurd mem (by simp)
    | cons c spaces => exact ofSpaces blank spaces
  | @token spaces t rest tokens blank more =>
    cases spaces with
    | nil =>
      obtain ⟨c, ender, rfl⟩ := ofMark t (follows t rfl)
      intro d mem
      cases Option.some.inj mem
      exact ender
    | cons c spaces => exact ofSpaces blank _

/-! ## Documents -/

namespace Document

/-- A document is read from its tokens, however they are laid out and whatever can follow it. -/
def ReadsAs (room : Nat) (d : Document) : Prop :=
  ∀ fuel tokens text, d.tokens.length ≤ fuel → Follows tokens → Spaced (d.tokens ++ tokens) text →
    ∃ rest, Spaced tokens rest ∧ Reader.value fuel room (skipSpace text) =
      (d.read room).map fun j => (j, rest)

theorem readsAs_of_token {d : Document} {c : CodePoint} {cs : Text} {room : Nat}
    (single : d.tokens = [c :: cs]) (solid : isSpace c = false)
    (reads : ∀ fuel rest, Ends rest → Reader.value (fuel + 1) room (c :: (cs ++ rest)) =
      (d.read room).map fun j => (j, rest)) : d.ReadsAs room := by
  intro fuel tokens text enough follows laid
  rw [single] at enough laid
  obtain ⟨fuel, rfl⟩ : ∃ n, fuel = n + 1 := ⟨fuel - 1, by simp at enough; omega⟩
  obtain ⟨rest, more, skipped⟩ := laid.first solid
  exact ⟨rest, more, by rw [skipped, reads fuel rest (more.ends follows)]⟩

/-- A number starts with nothing that starts or follows another value. -/
theorem number_start (n : NumberToken) :
    ∃ c cs, n.text = c :: cs ∧ c ∉ openers ∧ c ∉ enders := by
  have differ : ∀ d ∈ openers ++ enders, d.isDigit 10 = false ∧ d ≠ .scalar '-' := by decide
  obtain ⟨c, cs, starts, first⟩ := n.text_start
  have other : c ∉ openers ++ enders := by
    intro mem
    obtain ⟨noDigit, noMinus⟩ := differ c mem
    rcases first with isDigit | isMinus
    · rw [noDigit] at isDigit
      cases isDigit
    · exact noMinus isMinus
  rw [List.mem_append, not_or] at other
  exact ⟨c, cs, starts, other⟩

theorem readsAs_number (n : NumberToken) (room : Nat) : ReadsAs room (number n) := by
  obtain ⟨c, cs, starts, noOpener, noEnder⟩ := number_start n
  refine readsAs_of_token (by rw [tokens, starts]) (solid_of_not_ender noEnder) ?_
  intro fuel rest ends
  rw [value_plain noOpener, ← List.cons_append, ← starts, plain_number n ends, read]
  split <;> rfl

theorem readsAs_string (s : StringToken) (room : Nat) : ReadsAs room (string s) := by
  refine readsAs_of_token (by rw [tokens, StringToken.text]) rfl fun fuel rest _ => ?_
  rw [List.append_assoc, List.singleton_append, Reader.value, string_text, read]
  rfl

/-- No document starts with what can follow a value. -/
theorem tokens_start (d : Document) :
    ∃ c cs more, d.tokens = (c :: cs) :: more ∧ c ∉ enders := by
  cases d with
  | null => exact ⟨.scalar 'n', _, _, rfl, by decide⟩
  | bool b =>
    cases b with
    | true => exact ⟨.scalar 't', _, _, rfl, by decide⟩
    | false => exact ⟨.scalar 'f', _, _, rfl, by decide⟩
  | number n =>
    obtain ⟨c, cs, starts, -, other⟩ := number_start n
    exact ⟨c, cs, [], by rw [tokens, starts], other⟩
  | string s => exact ⟨.scalar '"', _, _, rfl, by decide⟩
  | arr items => exact ⟨.scalar '[', _, _, rfl, by decide⟩
  | obj members => exact ⟨.scalar '{', _, _, rfl, by decide⟩

/-- Parts that are laid out start with the first token of the first part. -/
theorem skipSpace_separated {c : CodePoint} {cs text : Text} {part tokens : List Text}
    {parts : List (List Text)} (other : c ∉ enders)
    (laid : Spaced (separated (((c :: cs) :: part) :: parts) ++ tokens) text) :
    ∃ more, skipSpace text = c :: more := by
  obtain ⟨others, starts⟩ := separated_start (c :: cs) part parts
  rw [starts] at laid
  obtain ⟨rest, -, skipped⟩ := laid.first (solid_of_not_ender other)
  exact ⟨_, skipped⟩

theorem items_laid {room : Nat} {items : List Document} (nonempty : items ≠ [])
    (each : ∀ d ∈ items, d.ReadsAs room) (fuel : Nat) {tokens : List Text} {text : Text}
    (enough : (separated (itemTokens items)).length < fuel)
    (laid : Spaced (separated (itemTokens items) ++ mark ']' :: tokens) text) :
    ∃ rest, Spaced tokens rest ∧ Reader.items fuel room (skipSpace text) =
      (readItems room items).map fun xs => (xs, rest) := by
  induction items generalizing fuel text with
  | nil => contradiction
  | cons d items ih =>
    obtain ⟨fuel, rfl⟩ : ∃ n, fuel = n + 1 := ⟨fuel - 1, by omega⟩
    obtain ⟨readsFirst, readsOthers⟩ := List.forall_mem_cons.mp each
    -- The last item is followed by the closing bracket, and each other one by a comma.
    cases items with
    | nil =>
      have alone : separated (itemTokens [d]) = d.tokens := rfl
      rw [alone] at enough laid
      obtain ⟨rest, more, first⟩ :=
        readsFirst fuel _ text (by omega) (follows_cons (by decide) _) laid
      obtain ⟨rest, more, closes⟩ := more.first rfl
      refine ⟨rest, more, ?_⟩
      rw [Reader.items, first, readItems, readItems]
      cases d.read room with
      | error e => rfl
      | ok x => simp only [Except.map, bind, Except.bind, closes]; rfl
    | cons e items =>
      have parts : separated (itemTokens (d :: e :: items)) =
          d.tokens ++ mark ',' :: separated (itemTokens (e :: items)) :=
        separated_cons_cons _ _ _
      rw [parts] at enough laid
      rw [List.append_assoc] at laid
      simp only [List.length_append, List.length_cons] at enough
      obtain ⟨rest, more, first⟩ :=
        readsFirst fuel _ text (by omega) (follows_cons (by decide) _) laid
      obtain ⟨rest, more, comma⟩ := more.first rfl
      obtain ⟨rest, more, others⟩ := ih (List.cons_ne_nil e items) readsOthers fuel (by omega) more
      refine ⟨rest, more, ?_⟩
      rw [Reader.items, first, readItems]
      cases d.read room with
      | error e => rfl
      | ok x => 
        simp only [Except.map, bind, Except.bind, comma, List.nil_append, others]
        cases readItems room (e :: items) <;> rfl

theorem members_laid {room : Nat} {members : List (StringToken × Document)}
    (nonempty : members ≠ []) (each : ∀ m ∈ members, m.2.ReadsAs room) (fuel : Nat)
    {tokens : List Text} {text : Text}
    (enough : (separated (memberTokens members)).length < fuel)
    (laid : Spaced (separated (memberTokens members) ++ mark '}' :: tokens) text) :
    ∃ rest, Spaced tokens rest ∧ Reader.members fuel room (skipSpace text) =
      (readMembers room members).map fun ms => (ms, rest) := by
  induction members generalizing fuel text with
  | nil => contradiction
  | cons m members ih =>
    obtain ⟨key, d⟩ := m
    obtain ⟨fuel, rfl⟩ : ∃ n, fuel = n + 1 := ⟨fuel - 1, by omega⟩
    have readsFirst : d.ReadsAs room := each _ List.mem_cons_self
    have readsOthers := (List.forall_mem_cons.mp each).2
    cases members with
    | nil =>
      have alone : separated (memberTokens [(key, d)]) = key.text :: mark ':' :: d.tokens := rfl
      rw [alone] at enough laid
      simp only [List.length_cons] at enough
      obtain ⟨afterKey, laid, name⟩ := laid.first rfl
      obtain ⟨afterColon, laid, colon⟩ := laid.first rfl
      obtain ⟨afterValue, laid, first⟩ :=
        readsFirst fuel _ _ (by omega) (follows_cons (by decide) _) laid
      obtain ⟨rest, more, closes⟩ := laid.first rfl
      refine ⟨rest, more, ?_⟩
      rw [name, List.append_assoc, List.singleton_append, Reader.members, string_text, readMembers,
        readMembers]
      simp only [bind, Except.bind, colon, List.nil_append, first]
      cases d.read room with
      | error e => rfl
      | ok x =>
        simp only [Except.map, closes]
        rfl
    | cons n members =>
      have parts : separated (memberTokens ((key, d) :: n :: members)) =
          key.text :: mark ':' ::
            (d.tokens ++ mark ',' :: separated (memberTokens (n :: members))) :=
        separated_cons_cons _ _ _
      rw [parts] at enough laid
      simp only [List.length_append, List.length_cons] at enough
      simp only [List.cons_append, List.append_assoc] at laid
      obtain ⟨afterKey, laid, name⟩ := laid.first rfl
      obtain ⟨afterColon, laid, colon⟩ := laid.first rfl
      obtain ⟨afterValue, laid, first⟩ :=
        readsFirst fuel _ _ (by omega) (follows_cons (by decide) _) laid
      obtain ⟨afterComma, laid, comma⟩ := laid.first rfl
      obtain ⟨rest, more, others⟩ :=
        ih (List.cons_ne_nil n members) readsOthers fuel (by omega) laid
      refine ⟨rest, more, ?_⟩
      rw [name, List.append_assoc, List.singleton_append, Reader.members, string_text, readMembers]
      simp only [bind, Except.bind, colon, List.nil_append, first]
      cases d.read room with
      | error e => rfl
      | ok x =>
        simp only [Except.map, comma, List.nil_append, others]
        cases readMembers room (n :: members) <;> rfl

theorem readsAs_arr {room : Nat} {items : List Document}
    (each : ∀ d ∈ items, d.ReadsAs room) : (arr items).ReadsAs (room + 1) := by
  intro fuel tokens text enough _ laid
  have written : (arr items).tokens ++ tokens =
      mark '[' :: (separated (itemTokens items) ++ mark ']' :: tokens) := by
    rw [Document.tokens]
    simp
  have length : (arr items).tokens.length = (separated (itemTokens items)).length + 2 := by
    rw [Document.tokens]
    simp
  obtain ⟨fuel, rfl⟩ : ∃ n, fuel = n + 1 := ⟨fuel - 1, by omega⟩
  rw [written] at laid
  obtain ⟨inner, laid, opens⟩ := laid.first rfl
  rw [opens, List.nil_append, Reader.value, read]
  cases items with
  | nil =>
    obtain ⟨rest, more, closes⟩ := Spaced.first rfl laid
    rw [closes]
    exact ⟨rest, more, rfl⟩
  | cons d items =>
    obtain ⟨c, cs, others, starts, other⟩ := d.tokens_start
    obtain ⟨rest, more, reads⟩ := items_laid (List.cons_ne_nil d items) each fuel (by omega) laid
    rw [itemTokens, starts] at laid
    obtain ⟨inside, skipped⟩ := skipSpace_separated other laid
    refine ⟨rest, more, ?_⟩
    rw [skipped] at reads ⊢
    -- The array is not taken for an empty one, since no item starts with a closing bracket.
    split
    · rename_i r closes
      cases closes
      exact absurd (by decide) other
    · rw [reads]
      cases readItems room (d :: items) <;> rfl

theorem readsAs_obj {room : Nat} {members : List (StringToken × Document)}
    (each : ∀ m ∈ members, m.2.ReadsAs room) : (obj members).ReadsAs (room + 1) := by
  intro fuel tokens text enough _ laid
  have written : (obj members).tokens ++ tokens =
      mark '{' :: (separated (memberTokens members) ++ mark '}' :: tokens) := by
    rw [Document.tokens]
    simp
  have length : (obj members).tokens.length = (separated (memberTokens members)).length + 2 := by
    rw [Document.tokens]
    simp
  obtain ⟨fuel, rfl⟩ : ∃ n, fuel = n + 1 := ⟨fuel - 1, by omega⟩
  rw [written] at laid
  obtain ⟨inner, laid, opens⟩ := laid.first rfl
  rw [opens, List.nil_append, Reader.value, read]
  cases members with
  | nil =>
    obtain ⟨rest, more, closes⟩ := Spaced.first rfl laid
    rw [closes]
    exact ⟨rest, more, rfl⟩
  | cons m members =>
    obtain ⟨rest, more, reads⟩ :=
      members_laid (List.cons_ne_nil m members) each fuel (by omega) laid
    obtain ⟨inside, skipped⟩ := skipSpace_separated (by decide) laid
    refine ⟨rest, more, ?_⟩
    rw [skipped] at reads ⊢
    split
    · rename_i r closes
      cases closes
    · rw [reads]
      cases readMembers room (m :: members) <;> rfl

/-- Without room, an array or an object is refused. -/
theorem readsAs_zero {d : Document} {c : CodePoint} {others : List Text}
    (starts : d.tokens = [c] :: others) (opens : c = .scalar '[' ∨ c = .scalar '{')
    (refused : d.read 0 = .error .tooDeep) : d.ReadsAs 0 := by
  intro fuel tokens text enough _ laid
  obtain ⟨rest, more⟩ := laid.drop
  rw [starts] at enough laid
  obtain ⟨fuel, rfl⟩ : ∃ n, fuel = n + 1 := ⟨fuel - 1, by simp at enough; omega⟩
  have solid : isSpace c = false := by rcases opens with rfl | rfl <;> rfl
  obtain ⟨inner, -, skipped⟩ := Spaced.first solid laid
  refine ⟨rest, more, ?_⟩
  rw [skipped, refused]
  rcases opens with rfl | rfl <;> rfl

/-- **Documents** are read from their tokens, however these are laid out. -/
theorem readsAs (d : Document) (room : Nat) : d.ReadsAs room := by
  induction d generalizing room with
  | null => exact readsAs_of_token (c := .scalar 'n') rfl rfl fun fuel rest _ => rfl
  | bool b =>
    cases b with
    | true => exact readsAs_of_token (c := .scalar 't') rfl rfl fun fuel rest _ => rfl
    | false => exact readsAs_of_token (c := .scalar 'f') rfl rfl fun fuel rest _ => rfl
  | number n => exact readsAs_number n room
  | string s => exact readsAs_string s room
  | arr items ih =>
    cases room with
    | zero => exact readsAs_zero rfl (.inl rfl) rfl
    | succ room => exact readsAs_arr fun d mem => ih d mem room
  | obj members ih =>
    cases room with
    | zero => exact readsAs_zero rfl (.inr rfl) rfl
    | succ room => exact readsAs_obj fun m mem => ih m mem room

end Document

/-- Laid out tokens are no longer than the text. -/
theorem Spaced.length_le {tokens : List Text} {text : Text} (laid : Spaced tokens text)
    (filled : ∀ t ∈ tokens, t ≠ []) : tokens.length ≤ text.length := by
  induction laid with
  | done blank => exact Nat.zero_le _
  | @token spaces t rest tokens blank more ih =>
    obtain ⟨first, others⟩ := List.forall_mem_cons.mp filled
    have := ih others
    have := List.length_pos_iff.mpr first
    simp only [List.length_cons, List.length_append]
    omega

/-- **However its tokens are laid out**, a document is read in the same way. -/
theorem parse_spaced {d : Document} {text : Text} (laid : Spaced d.tokens text) :
    parse text = d.read depthLimit := by
  have enough := laid.length_le fun t mem => (d.isToken_of_mem mem).ne_nil
  have noFollower : Follows [] := fun t mem => absurd mem (by simp)
  obtain ⟨rest, done, reads⟩ := d.readsAs depthLimit (2 * text.length + 2) [] text (by omega)
    noFollower (by rwa [List.append_nil])
  rw [parse, reads]
  cases d.read depthLimit with
  | error e => rfl
  | ok j => simp [Except.map, done.atEnd]

/-- The tokens of a document one after another are laid out. -/
theorem spaced_flatten (tokens : List Text) : Spaced tokens tokens.flatten := by
  have noSpace : IsSpaces [] := fun c mem => absurd mem List.not_mem_nil
  induction tokens with
  | nil => exact .done noSpace
  | cons t tokens ih =>
    have laid : Spaced (t :: tokens) ([] ++ (t ++ tokens.flatten)) := .token noSpace ih
    rwa [List.nil_append] at laid

end Json

end JsxOrigin
