import JsxOrigin.Proofs.Text.Numeral
import JsxOrigin.Proofs.Text.Units
import JsxOrigin.Syntax.Literal

/-!
# Spellings of strings

A script spells the 16-bit units of a string in pieces: a character stands for itself, an escape for
a unit or a scalar value by its number or by a letter, and an escaped line end for nothing.
`Escape.Spells` says which texts between quotes spell which units, without mentioning how an escape
is read.

**The law** (`Escape.decode_of_spells`): a spelling is decoded to a text with just these units, with
a surrogate in it only if they are not well formed, and a string literal has the same value. Each
piece is read as a whole, whatever comes after it (`expand_piece`, `expand_lineEnd`), so the units
of an expanded spelling are those that it spells; joining pairs does not change them.
-/

namespace JsxOrigin

namespace Escape

/-! ## Spellings -/

/-- The letters that spell a control character after a backslash. -/
def controls : List (Char × Char) :=
  [('n', '\n'), ('t', '\t'), ('r', '\r'), ('b', '\x08'), ('f', '\x0c'), ('v', '\x0b'),
    ('0', '\x00')]

/-- The characters that mean something else than themselves after a backslash. -/
def meaningful : List Char :=
  ['n', 't', 'r', 'b', 'f', 'v', 'x', 'u', '0', '1', '2', '3', '4', '5', '6', '7', '8', '9',
    '\r', '\n', '\u2028', '\u2029']

/-- The line ends that vanish after a backslash. -/
def lineEnds : List Text := ["\n", "\r", "\r\n", "\u2028", "\u2029"]

/-- Whether a text starts with a decimal digit. -/
def startsWithDigit (t : Text) : Bool := t.head?.any (CodePoint.satisfies Char.isDigit)

/-- **A piece** of what stands between quotes, with the units that it spells. -/
inductive Piece : Text → List Nat → Prop
  /-- A character stands for itself. -/
  | raw {c : Char} (notBackslash : c ≠ '\\') : Piece [.scalar c] (CodePoint.scalar c).units
  /-- Two digits after `x` give the number of a unit. -/
  | two {digits : Text} {u : Nat} (number : Text.SpellsIn 16 digits u)
      (count : digits.length = 2) : Piece ("\\x" ++ digits) [u]
  /-- Four digits after `u` give the number of a unit. -/
  | four {digits : Text} {u : Nat} (number : Text.SpellsIn 16 digits u)
      (count : digits.length = 4) : Piece ("\\u" ++ digits) [u]
  /-- Digits in braces give the number of a unit. -/
  | bracedUnit {digits : Text} {u : Nat} (number : Text.SpellsIn 16 digits u) (some : digits ≠ [])
      (isUnit : u < 0x10000) : Piece ("\\u\x7b" ++ digits ++ "\x7d") [u]
  /-- Digits in braces give the number of a scalar value. -/
  | bracedScalar {digits : Text} {c : Char} (number : Text.SpellsIn 16 digits c.toNat)
      (some : digits ≠ []) : Piece ("\\u\x7b" ++ digits ++ "\x7d") (CodePoint.scalar c).units
  /-- A letter spells a control character. -/
  | control {letter c : Char} (listed : (letter, c) ∈ controls) :
      Piece [.scalar '\\', .scalar letter] (CodePoint.scalar c).units
  /-- Anything without a meaning of its own stands for itself. -/
  | itself {c : CodePoint} (other : ∀ d ∈ meaningful, c ≠ .scalar d) :
      Piece [.scalar '\\', c] c.units

/-- **A text spells units** between quotes. A zero that spells a control character is not followed
by a digit, and an escaped carriage return is followed by a line feed only if both vanish. -/
inductive Spells : Text → List Nat → Prop
  | nil : Spells [] []
  | piece {written t : Text} {us s : List Nat} (isPiece : Piece written us)
      (apart : written = "\\0" → startsWithDigit t = false) (rest : Spells t s) :
      Spells (written ++ t) (us ++ s)
  | lineEnd {ending t : Text} {s : List Nat} (listed : ending ∈ lineEnds)
      (apart : ending = "\r" → t.head? ≠ some (.scalar '\n')) (rest : Spells t s) :
      Spells (.scalar '\\' :: ending ++ t) s

/-! ## Reading -/

theorem expand_raw {c : CodePoint} (notBackslash : c ≠ .scalar '\\') (t : Text) :
    expand (c :: t) = c :: expand t := by
  rw [expand, if_neg notBackslash]

/-- An escape that is read to its end stands for its meaning. -/
theorem expand_escape {escape t meaning : Text}
    (reads : read (escape ++ t) = (meaning, escape.length)) :
    expand (.scalar '\\' :: escape ++ t) = meaning ++ expand t := by
  rw [List.cons_append, expand, if_pos rfl, reads]
  exact congrArg (meaning ++ expand ·) List.drop_left

theorem braced?_digits {digits : Text} (each : ∀ c ∈ digits, CodePoint.isDigit 16 c = true)
    (some : digits ≠ []) (t : Text) :
    braced? (.scalar '{' :: (digits ++ .scalar '}' :: t)) = Option.some digits := by
  have taken : (digits ++ .scalar '}' :: t).takeWhile (CodePoint.isDigit 16) = digits := by
    rw [List.takeWhile_append_of_pos each, List.takeWhile_cons_of_neg (by decide), List.append_nil]
  simp only [braced?, taken, List.drop_left]
  rw [if_neg (by simpa using some)]

theorem hexadecimal?_digits {digits : Text} (each : ∀ c ∈ digits, CodePoint.isDigit 16 c = true)
    (t : Text) : hexadecimal? digits.length (digits ++ t) = some digits := by
  rw [hexadecimal?, List.take_left]
  exact if_pos ⟨rfl, List.all_eq_true.mpr each⟩

/-- A digit is no opening brace. -/
theorem braced?_of_digit {c : CodePoint} (isDigit : CodePoint.isDigit 16 c = true) (t : Text) :
    braced? (c :: t) = none := by
  unfold braced?
  split
  · rename_i same
    cases same
    exact absurd isDigit (by decide)
  · rfl

/-- The number of a unit or of a scalar value stands for that code point. -/
theorem numbered_of_spells {digits : Text} {c : CodePoint} (number : Text.SpellsIn 16 digits c.val)
    (written : Text) : numbered written digits = [c] := by
  rw [numbered, Text.numeral_of_spellsIn (Nat.le_refl 16) number, CodePoint.ofNat?_val]

/-- A number below U+10000 is that of a code point with one unit. -/
theorem exists_of_unit {u : Nat} (isUnit : u < 0x10000) :
    ∃ c : CodePoint, c.val = u ∧ c.units = [u] := by
  have named : ∃ c : CodePoint, c.val = u := by
    by_cases isHigh : 0xD800 ≤ u ∧ u < 0xDC00
    · exact ⟨.high ⟨u - 0xD800, by omega⟩, Nat.add_sub_cancel' isHigh.1⟩
    · by_cases isLow : 0xDC00 ≤ u ∧ u < 0xE000
      · exact ⟨.low ⟨u - 0xDC00, by omega⟩, Nat.add_sub_cancel' isLow.1⟩
      · exact ⟨.scalar (Char.ofNatAux u (by unfold Nat.isValidChar; omega)), rfl⟩
  obtain ⟨c, rfl⟩ := named
  exact ⟨c, rfl, if_pos isUnit⟩

/-- What a character stands for after a backslash, unless it begins a longer escape. -/
theorem read_single {c : CodePoint} {t : Text} (notU : c ≠ .scalar 'u') (notX : c ≠ .scalar 'x')
    (alone : c = .scalar '\r' → t.head? ≠ some (.scalar '\n')) : read (c :: t) = (single c, 1) := by
  unfold read
  split
  · rename_i same
    cases same
    exact absurd rfl notU
  · rename_i same
    cases same
    exact absurd rfl notX
  · rename_i same
    cases same
    exact absurd rfl (alone rfl)
  · rename_i same
    cases same
    rfl
  · rename_i same
    cases same

/-- Two digits after `x`. -/
theorem read_two {digits : Text} {c : CodePoint} (number : Text.SpellsIn 16 digits c.val)
    (count : digits.length = 2) (t : Text) :
    read (.scalar 'x' :: digits ++ t) = ([c], (.scalar 'x' :: digits).length) := by
  have found := hexadecimal?_digits (Text.isDigit_of_spellsIn (Nat.le_refl 16) number) t
  rw [count] at found
  rw [List.cons_append, read, found, List.length_cons, count]
  simp only [numbered_of_spells number]

/-- Four digits after `u`. -/
theorem read_four {digits : Text} {c : CodePoint} (number : Text.SpellsIn 16 digits c.val)
    (count : digits.length = 4) (t : Text) :
    read (.scalar 'u' :: digits ++ t) = ([c], (.scalar 'u' :: digits).length) := by
  have each := Text.isDigit_of_spellsIn (Nat.le_refl 16) number
  have found := hexadecimal?_digits each t
  have unbraced : braced? (digits ++ t) = none := by
    cases digits with
    | nil => cases count
    | cons first rest => exact braced?_of_digit (each first List.mem_cons_self) _
  rw [count] at found
  rw [List.cons_append, read, found, unbraced, List.length_cons, count]
  simp only [numbered_of_spells number]

/-- Digits in braces after `u`. -/
theorem read_braced {digits : Text} {c : CodePoint} (number : Text.SpellsIn 16 digits c.val)
    (some : digits ≠ []) (t : Text) :
    let escape := .scalar 'u' :: .scalar '{' :: (digits ++ [.scalar '}'])
    read (escape ++ t) = ([c], escape.length) := by
  intro escape
  have shape : escape ++ t = .scalar 'u' :: .scalar '{' :: (digits ++ .scalar '}' :: t) := by
    simp [escape]
  have length : escape.length = digits.length + 3 := by
    simp [escape]
  rw [shape, length, read, braced?_digits (Text.isDigit_of_spellsIn (Nat.le_refl 16) number) some]
  simp only [numbered_of_spells number]

/-- A control character is read off its letter. -/
theorem read_control {letter c : Char} (listed : (letter, c) ∈ controls) (t : Text) :
    read ([.scalar letter] ++ t) = ([.scalar c], 1) := by
  have each : ∀ p ∈ controls, p.1 ≠ 'u' ∧ p.1 ≠ 'x' ∧ p.1 ≠ '\r' ∧
      single (.scalar p.1) = [.scalar p.2] := by decide
  obtain ⟨notU, notX, notReturn, meaning⟩ := each _ listed
  rw [List.singleton_append, read_single (by simpa using notU) (by simpa using notX), meaning]
  intro same
  exact absurd (CodePoint.scalar.inj same) notReturn

/-- Anything without a meaning of its own is read as itself. -/
theorem read_itself {c : CodePoint} (other : ∀ d ∈ meaningful, c ≠ .scalar d) (t : Text) :
    read ([c] ++ t) = ([c], 1) := by
  have noLineEnd : ¬ [0xA, 0xD, 0x2028, 0x2029].contains c.val = true := by
    intro isLineEnd
    have each : ∀ n ∈ [0xA, 0xD, 0x2028, 0x2029],
        ∃ d ∈ meaningful, CodePoint.ofNat? n = some (.scalar d) := by
      intro n mem
      simp only [List.mem_cons, List.not_mem_nil, or_false] at mem
      rcases mem with rfl | rfl | rfl | rfl
      · exact ⟨'\n', by decide, rfl⟩
      · exact ⟨'\r', by decide, rfl⟩
      · exact ⟨'\u2028', by decide, rfl⟩
      · exact ⟨'\u2029', by decide, rfl⟩
    obtain ⟨d, listed, named⟩ := each c.val (List.contains_iff_mem.mp isLineEnd)
    rw [CodePoint.ofNat?_val] at named
    exact other d listed (Option.some.inj named)
  have meaning : single c = [c] := by
    unfold single
    split
    case h_8 => exact if_neg noLineEnd
    all_goals exact absurd rfl (other _ (by decide))
  rw [List.singleton_append, read_single (other _ (by decide)) (other _ (by decide)), meaning]
  intro same
  exact absurd same (other _ (by decide))

/-- **A piece is read as a whole**, whatever comes after it, and stands for its units. -/
theorem expand_piece {written : Text} {us : List Nat} (isPiece : Piece written us) (t : Text) :
    ∃ meaning : Text, meaning.units = us ∧ expand (written ++ t) = meaning ++ expand t := by
  have alone : ∀ c : CodePoint, Text.units [c] = c.units := fun c => List.flatMap_singleton _ _
  cases isPiece with
  | @raw c notBackslash =>
    refine ⟨[.scalar c], alone _, ?_⟩
    exact expand_raw (fun same => notBackslash (CodePoint.scalar.inj same)) t
  | @two digits u number count =>
    have bound := Text.lt_of_spellsIn (by decide) number
    rw [count] at bound
    obtain ⟨c, rfl, units⟩ := exists_of_unit (u := u) (by omega)
    exact ⟨[c], (alone c).trans units, expand_escape (read_two number count t)⟩
  | @four digits u number count =>
    have bound := Text.lt_of_spellsIn (by decide) number
    rw [count] at bound
    obtain ⟨c, rfl, units⟩ := exists_of_unit (u := u) (by omega)
    exact ⟨[c], (alone c).trans units, expand_escape (read_four number count t)⟩
  | @bracedUnit digits u number some isUnit =>
    obtain ⟨c, rfl, units⟩ := exists_of_unit isUnit
    exact ⟨[c], (alone c).trans units, expand_escape (read_braced number some t)⟩
  | @bracedScalar digits c number some =>
    exact ⟨[.scalar c], alone _, expand_escape (read_braced number some t)⟩
  | @control letter c listed =>
    exact ⟨[.scalar c], alone _, expand_escape (read_control listed t)⟩
  | @itself c other => exact ⟨[c], alone c, expand_escape (read_itself other t)⟩

/-- **An escaped line end vanishes.** -/
theorem expand_lineEnd {ending t : Text} (listed : ending ∈ lineEnds)
    (apart : ending = "\r" → t.head? ≠ some (.scalar '\n')) :
    expand (.scalar '\\' :: ending ++ t) = expand t := by
  have reads : read (ending ++ t) = ([], ending.length) := by
    simp only [lineEnds, List.mem_cons, List.not_mem_nil, or_false] at listed
    rcases listed with rfl | rfl | rfl | rfl | rfl
    · exact read_single (by decide) (by decide) (fun same => absurd same (by decide))
    · exact read_single (by decide) (by decide) (fun _ => apart rfl)
    · rfl
    · exact read_single (by decide) (by decide) (fun same => absurd same (by decide))
    · exact read_single (by decide) (by decide) (fun same => absurd same (by decide))
  exact expand_escape reads

/-! ## The law -/

/-- **An expanded spelling has the units that it spells.** -/
theorem units_expand {t : Text} {s : List Nat} (spells : Spells t s) : (expand t).units = s := by
  induction spells with
  | nil => rw [expand]; rfl
  | @piece written t us s isPiece _ _ ih =>
    obtain ⟨meaning, units, expanded⟩ := expand_piece isPiece t
    rw [expanded, Text.units_append, units, ih]
  | lineEnd listed apart _ ih => rw [expand_lineEnd listed apart, ih]

/-- A text without a backslash is its own expansion. -/
theorem expand_of_plain {t : Text} (plain : .scalar '\\' ∉ t) : expand t = t := by
  induction t with
  | nil => rw [expand]
  | cons c t ih =>
    rw [List.mem_cons, not_or] at plain
    rw [expand_raw (Ne.symm plain.1), ih plain.2]

/-- A spelling without a backslash holds no surrogate. -/
theorem hasSurrogate_of_plain {t : Text} {s : List Nat} (spells : Spells t s)
    (plain : .scalar '\\' ∉ t) : t.hasSurrogate = false := by
  induction spells with
  | nil => rfl
  | @piece written t us s isPiece _ _ ih =>
    rw [List.mem_append, not_or] at plain
    cases isPiece with
    | raw _ => exact ih plain.2
    | _ => exact absurd List.mem_cons_self plain.1
  | lineEnd _ _ _ _ => exact absurd List.mem_cons_self plain

/-- Decoding a spelling keeps its units, and leaves a surrogate exactly if they are not well
formed. -/
theorem units_decode {t : Text} {s : List Nat} (spells : Spells t s) :
    (decode t).units = s ∧ ((decode t).hasSurrogate = true ↔ ¬ Text.WellFormedUnits s) := by
  have units := units_expand spells
  by_cases escaped : t.contains (.scalar '\\') = true
  · rw [decode, if_pos escaped, ← units]
    exact Text.joined?_getD (expand t)
  · have plain : .scalar '\\' ∉ t := fun mem => escaped (List.contains_iff_mem.mpr mem)
    have none := hasSurrogate_of_plain spells plain
    rw [expand_of_plain plain] at units
    rw [decode, if_neg escaped]
    refine ⟨units, ?_⟩
    rw [← units, ← Text.hasSurrogate_joinPairs, Text.joinPairs_of_no_surrogate none]

/-- Quotes around a text are taken off. -/
theorem withoutQuotes_quoted {quote : CodePoint}
    (isQuote : quote = .scalar '"' ∨ quote = .scalar '\x27') (t : Text) :
    Text.withoutQuotes (quote :: t ++ [quote]) = t := by
  have marks : (quote == .scalar '"' || quote == .scalar '\x27') = true := by
    simpa using isQuote
  simp [Text.withoutQuotes, marks]

/-- **String literals denote what they spell.** What stands between quotes and spells 16-bit units
is decoded to a text with exactly these units. The text holds a surrogate if and only if the units
are not well formed. It is also the value of every node whose text is the spelling between two
single or two double quotes. -/
theorem decode_of_spells {t : Text} {s : List Nat} (spells : Spells t s) :
    (decode t).units = s ∧ ((decode t).hasSurrogate = true ↔ ¬ Text.WellFormedUnits s) ∧
      ∀ (source : Source) (node : Tree) (quote : CodePoint),
        quote = .scalar '"' ∨ quote = .scalar '\x27' →
        source.text node = quote :: t ++ [quote] → source.stringValue node = decode t := by
  obtain ⟨units, surrogate⟩ := units_decode spells
  refine ⟨units, surrogate, ?_⟩
  intro source node quote isQuote text
  rw [Source.stringValue, Text.stringValue, text, withoutQuotes_quoted isQuote]

/-- The law for a face that is spelled by its two halves, the one with four digits and the other one
in braces, before an escaped carriage return and a NUL. -/
theorem decode_of_spells_twoHalves :
    let t : Text := "\\uD83D\\u\x7bde00\x7d\\\r\\0"
    let s : List Nat := [0xD83D, 0xDE00, 0]
    let source : Source :=
      { file := "m.js", bytes := (Utf8.encode? ("\x27" ++ t ++ "\x27")).getD [] }
    let node : Tree := { kind := .string, named := true, start := 0, stop := source.bytes.length,
                         fields := [], children := [] }
    Spells t s ∧ source.text node = .scalar '\x27' :: t ++ [.scalar '\x27'] ∧
      (decode t).units = s ∧ decode t = [.scalar '😀', .scalar '\x00'] ∧
      source.stringValue node = decode t := by
  intro t s source node
  have leading : Text.SpellsIn 16 "D83D" 0xD83D := by
    refine ⟨[13, 8, 3, 13], ?_, rfl⟩
    exact .cons ⟨by decide, .inr rfl⟩ (.cons ⟨by decide, .inl rfl⟩
      (.cons ⟨by decide, .inl rfl⟩ (.cons ⟨by decide, .inr rfl⟩ .nil)))
  have trailing : Text.SpellsIn 16 "de00" 0xDE00 := by
    refine ⟨[13, 14, 0, 0], ?_, rfl⟩
    exact .cons ⟨by decide, .inl rfl⟩ (.cons ⟨by decide, .inl rfl⟩
      (.cons ⟨by decide, .inl rfl⟩ (.cons ⟨by decide, .inl rfl⟩ .nil)))
  have nul : Piece "\\0" [0] := .control (show ('0', '\x00') ∈ controls by decide)
  have carriageReturn : Text.ofString "\r" ∈ lineEnds := by decide
  have spells : Spells t s :=
    .piece (.four leading rfl) (fun same => absurd same (by decide))
      (.piece (.bracedUnit trailing (by decide) (by decide)) (fun same => absurd same (by decide))
        (.lineEnd carriageReturn (fun _ => by decide) (.piece nul (fun _ => rfl) .nil)))
  have text : source.text node = .scalar '\x27' :: t ++ [.scalar '\x27'] := by decide +kernel
  obtain ⟨units, -, value⟩ := decode_of_spells spells
  exact ⟨spells, text, units, by decide +kernel, value source node _ (.inr rfl) text⟩

end Escape

end JsxOrigin
