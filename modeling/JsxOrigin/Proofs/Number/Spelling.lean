import JsxOrigin.Proofs.Names.Parentheses
import JsxOrigin.Proofs.Number.Exactness
import JsxOrigin.Proofs.Text.Numeral
import Mathlib.Data.List.TakeWhile

/-!
# Spellings of natural numbers

A natural number has many spellings as a literal: in three bases with a prefix, and in decimal with
or without a point and zeros after it, each with underscores between its digits.
`NumberLiteral.Spells` says which texts spell which number, without mentioning how a literal is
read.

**The law** (`Source.numberKey_of_spells`): all spellings of a number have one key, its decimal
form, and so do the property and the member path that such a literal names. Literals with a prefix
are read as integers (`NumberLiteral.key_prefixed`). Decimal ones go through double precision, which
is exact below 2^53 (`NumberLiteral.key_decimal`).
-/

namespace JsxOrigin

/-! ## Lower case -/

/-- Code points before the capital letters have no lower case of their own. -/
theorem CodePoint.toLower_of_lt {c : CodePoint} (small : c.val < 0x41) : c.toLower = c := by
  have runs : (CaseRun.all.all fun r => 0x41 ≤ r.first) = true := by decide +kernel
  have uncovered : CaseRun.all.find? (·.covers c.val) = none := by
    refine List.find?_eq_none.mpr fun r mem covers => ?_
    have starts := of_decide_eq_true (List.all_eq_true.mp runs r mem)
    simp only [CaseRun.covers, Bool.and_eq_true, decide_eq_true_eq] at covers
    omega
  rw [toLower, uncovered]

theorem Text.lowerAfter_of_lt {t : Text} (small : ∀ c ∈ t, c.val < 0x41) (before : Text) :
    lowerAfter before t = t := by
  induction t generalizing before with
  | nil => rw [lowerAfter]
  | cons c t ih =>
    obtain ⟨first, others⟩ := List.forall_mem_cons.mp small
    have noSigma : c ≠ .scalar 'Σ' := by
      rintro rfl
      exact absurd first (by decide)
    have noDotted : c ≠ .scalar 'İ' := by
      rintro rfl
      exact absurd first (by decide)
    rw [lowerAfter, if_neg noSigma, if_neg noDotted, ih others, CodePoint.toLower_of_lt first]
    rfl

namespace NumberLiteral

/-! ## Spellings -/

/-- Digits with underscores between them. -/
inductive Grouped : Text → Text → Prop
  | single (c : CodePoint) : Grouped [c] [c]
  | cons (c : CodePoint) (marks : Nat) {digits written : Text} (rest : Grouped digits written) :
      Grouped (c :: digits) (c :: (List.replicate marks (.scalar '_') ++ written))

/-- The letters that name a base after a zero. -/
def baseLetters : List (Char × Nat) :=
  [('x', 16), ('X', 16), ('o', 8), ('O', 8), ('b', 2), ('B', 2)]

/-- What may follow the digits of a natural number: nothing, or a point and any number of zeros. -/
inductive NoFraction : Text → Prop
  | nothing : NoFraction []
  | point : NoFraction [.scalar '.']
  | zeros {count : Nat} {written : Text}
      (grouped : Grouped (List.replicate count (.scalar '0')) written) :
      NoFraction (.scalar '.' :: written)

/-- **A text spells a natural number**: with a prefix and digits of its base, any zeros in front of
them, or as a decimal number without zeros in front. The first are limited by the length of the
number, the second by the precision of a double. -/
inductive Spells (n : Nat) : Text → Prop
  | prefixed {letter : Char} {base : Nat} {digits written : Text}
      (listed : (letter, base) ∈ baseLetters) (spelled : Text.SpellsIn base digits n)
      (grouped : Grouped digits written) (short : (Text.ofNat n).length ≤ 4300) :
      Spells n (.scalar '0' :: .scalar letter :: written)
  | decimal {whole rest : Text} (grouped : Grouped (Text.ofNat n) whole) (ends : NoFraction rest)
      (small : n < 2 ^ 53) : Spells n (whole ++ rest)

/-! ## Underscores -/

/-- Without the underscores between them, digits are left. -/
theorem filter_grouped {digits written : Text} (grouped : Grouped digits written)
    (noMark : ∀ c ∈ digits, c ≠ .scalar '_') : written.filter (· ≠ .scalar '_') = digits := by
  induction grouped with
  | single c => exact List.filter_cons_of_pos (decide_eq_true (noMark c List.mem_cons_self))
  | @cons c marks digits written _ ih =>
    obtain ⟨first, others⟩ := List.forall_mem_cons.mp noMark
    rw [List.filter_cons_of_pos (by simpa using first), List.filter_append, ih others,
      List.filter_replicate_of_neg (by decide), List.nil_append]

theorem ne_nil_of_grouped {digits written : Text} (grouped : Grouped digits written) :
    digits ≠ [] := by
  cases grouped <;> exact List.cons_ne_nil _ _

/-- What follows the digits is nothing or a point with zeros, without its underscores. -/
theorem filter_noFraction {rest : Text} (ends : NoFraction rest) :
    rest.filter (· ≠ .scalar '_') = [] ∨
      ∃ zeros, rest.filter (· ≠ .scalar '_') =
        .scalar '.' :: List.replicate zeros (.scalar '0') := by
  cases ends with
  | nothing => exact .inl rfl
  | point => exact .inr ⟨0, rfl⟩
  | @zeros count written grouped =>
    have noMark : ∀ c ∈ List.replicate count (CodePoint.scalar '0'), c ≠ .scalar '_' := by
      intro c mem
      rw [List.eq_of_mem_replicate mem]
      decide
    refine .inr ⟨count, ?_⟩
    rw [List.filter_cons_of_pos (by decide), filter_grouped grouped noMark]

/-! ## Prefixed literals -/

/-- A text in ASCII is written in ASCII already. -/
theorem toAscii?_of_ascii {t : Text} (ascii : ∀ c ∈ t, c.val < 0x80) : toAscii? t = some t := by
  induction t with
  | nil => rfl
  | cons c t ih =>
    obtain ⟨first, others⟩ := List.forall_mem_cons.mp ascii
    rw [toAscii?] at ih ⊢
    rw [List.mapM_cons, if_pos first, ih others]
    rfl

theorem base?_of_listed {letter : Char} {base : Nat} (listed : (letter, base) ∈ baseLetters)
    (t : Text) : base? (.scalar '0' :: .scalar letter :: t) = some base := by
  simp only [baseLetters, List.mem_cons, Prod.mk.injEq, List.not_mem_nil, or_false] at listed
  rcases listed with ⟨rfl, rfl⟩ | ⟨rfl, rfl⟩ | ⟨rfl, rfl⟩ | ⟨rfl, rfl⟩ | ⟨rfl, rfl⟩ | ⟨rfl, rfl⟩ <;>
    rfl

theorem integer?_digits {base : Nat} {digits : Text} (each : ∀ c ∈ digits, c.isDigit base = true)
    (some : digits ≠ []) : integer? base digits = Option.some (Text.numeral base digits) := by
  have taken : digits.takeWhile (CodePoint.isDigit base) = digits :=
    List.takeWhile_eq_self_iff.mpr each
  simp [integer?, taken, some]

/-- **A literal with a prefix** has the decimal form of its number as its key. -/
theorem key_prefixed {n : Nat} {letter : Char} {base : Nat} {digits written : Text}
    (listed : (letter, base) ∈ baseLetters) (spelled : Text.SpellsIn base digits n)
    (grouped : Grouped digits written) (short : (Text.ofNat n).length ≤ digitLimit) :
    key (.scalar '0' :: .scalar letter :: written) = Text.ofNat n := by
  have known : base ≤ 16 ∧ letter ≠ '_' := by
    have each : ∀ p ∈ baseLetters, p.2 ≤ 16 ∧ p.1 ≠ '_' := by decide
    exact each _ listed
  have each := Text.isDigit_of_spellsIn known.1 spelled
  have noMark : ∀ c ∈ digits, c ≠ .scalar '_' := by
    rintro c mem rfl
    exact absurd (each _ mem) (by simp [CodePoint.isDigit, CodePoint.digit?, CodePoint.digitValue?])
  have unmarked : (.scalar '0' :: .scalar letter :: written : Text).filter (· ≠ .scalar '_') =
      .scalar '0' :: .scalar letter :: digits := by
    rw [List.filter_cons_of_pos (by decide), List.filter_cons_of_pos (by simpa using known.2),
      filter_grouped grouped noMark]
  have ascii := toAscii?_of_ascii fun c mem => (CodePoint.val_of_isDigit (each c mem)).2
  have read : (toAscii? digits).bind (integer? base) = some n := by
    rw [ascii, Option.bind_some, integer?_digits each (ne_nil_of_grouped grouped),
      Text.numeral_of_spellsIn known.1 spelled]
  rw [key, unmarked]
  simp only [base?_of_listed listed, List.drop_succ_cons, List.drop_zero, read, if_pos short]

/-! ## Decimal literals -/

/-- Nothing is trimmed off a text without blanks. -/
theorem trimmed_of_solid {t : Text} (solid : ∀ c ∈ t, isOuterBlank c = false) :
    ((t.dropWhile isOuterBlank).reverse.dropWhile isOuterBlank).reverse = t := by
  have kept {u : Text} (solid : ∀ c ∈ u, isOuterBlank c = false) :
      u.dropWhile isOuterBlank = u := by
    cases u with
    | nil => rfl
    | cons c u => exact List.dropWhile_cons_of_neg (by simp [solid c List.mem_cons_self])
  rw [kept solid, kept fun c mem => solid c (List.mem_reverse.mp mem), List.reverse_reverse]

section Numeric

-- The range holds the point and the digits, and no letter, sign, blank or underscore.
variable {t : Text} (numeric : ∀ c ∈ t, 0x2E ≤ c.val ∧ c.val < 0x41)
include numeric

/-- A text of digits and points names no base. -/
theorem base?_of_numeric : base? t = none := by
  unfold base?
  split
  · rename_i c _
    have second := (numeric (.scalar c) (by simp)).2
    have other {letter : Char} (large : 0x41 ≤ letter.toNat) : c ≠ letter := by
      rintro rfl
      exact absurd second (Nat.not_lt.mpr large)
    rw [if_neg (by simp [other]), if_neg (by simp [other]), if_neg (by simp [other])]
  · rfl

/-- A text of digits and points is read as a number without sign. -/
theorem float?_of_numeric : float? t = unsigned? false t := by
  have ascii : toAscii? t = some t := toAscii?_of_ascii fun c mem => by
    have := numeric c mem
    omega
  have solid : ∀ c ∈ t, isOuterBlank c = false := fun c mem => by
    have := numeric c mem
    rw [isOuterBlank, ← Bool.not_eq_true, List.contains_iff_mem]
    simp only [List.mem_cons, List.not_mem_nil, or_false]
    omega
  have signless {sign : CodePoint} {r : Text} (small : sign.val < 0x2E) : t ≠ sign :: r := by
    rintro rfl
    have := numeric sign List.mem_cons_self
    omega
  simp only [float?, ascii, Option.bind_eq_bind, Option.bind_some, trimmed_of_solid solid]
  split
  · exact absurd rfl (signless (by decide))
  · exact absurd rfl (signless (by decide))
  · rfl

/-- A text of digits and points is no word, so that it is read by its digits. -/
theorem unsigned?_of_numeric {digits places : Nat}
    (parts : significand? t = some (digits, places, [])) :
    unsigned? false t = some (.ofDecimal false digits (-(places : Int))) := by
  have lower : t.lower = t := Text.lowerAfter_of_lt (fun c mem => (numeric c mem).2) []
  have noWord {word : String} (lettered : ∃ c ∈ word.toList, 0x41 ≤ c.toNat) :
      ¬ t = Text.ofString word := by
    rintro rfl
    obtain ⟨c, mem, large⟩ := lettered
    exact absurd (numeric (.scalar c) (List.mem_map_of_mem mem)).2 (Nat.not_lt.mpr large)
  have notInfinite : ¬ (t = Text.ofString "inf" ∨ t = Text.ofString "infinity") :=
    not_or.mpr ⟨noWord ⟨'i', by decide, by decide⟩, noWord ⟨'i', by decide, by decide⟩⟩
  have notNan : ¬ t = Text.ofString "nan" := noWord ⟨'n', by decide, by decide⟩
  simp only [unsigned?, lower, if_neg notInfinite, if_neg notNan, parts, Option.bind_eq_bind,
    Option.bind_some, exponent?, Int.zero_sub, Option.pure_def]

end Numeric

section Significand

variable {whole places : Text} (digits : ∀ c ∈ whole, c.isDigit 10 = true) (some : whole ≠ [])
include digits some

theorem significand?_whole : significand? whole = Option.some (Text.numeral 10 whole, 0, []) := by
  have taken : whole.takeWhile (CodePoint.isDigit 10) = whole :=
    List.takeWhile_eq_self_iff.mpr digits
  simp only [significand?, taken, List.drop_length, List.append_nil, List.length_nil]
  exact if_neg (by simp [some])

theorem significand?_point (digits' : ∀ c ∈ places, c.isDigit 10 = true) :
    significand? (whole ++ .scalar '.' :: places) =
      Option.some (Text.numeral 10 (whole ++ places), places.length, []) := by
  have taken : (whole ++ .scalar '.' :: places).takeWhile (CodePoint.isDigit 10) = whole := by
    rw [List.takeWhile_append_of_pos digits, List.takeWhile_cons_of_neg (by decide),
      List.append_nil]
  have taken' : places.takeWhile (CodePoint.isDigit 10) = places :=
    List.takeWhile_eq_self_iff.mpr digits'
  simp only [significand?, taken, taken', List.drop_left, List.drop_length]
  exact if_neg (by simp [some])

end Significand

/-- A decimal literal without its underscores is a text of digits and points, and they give its
number with as many zeros as places. -/
theorem parts_decimal {n : Nat} {whole rest : Text} (grouped : Grouped (Text.ofNat n) whole)
    (ends : NoFraction rest) :
    ∃ t : Text, (whole ++ rest).filter (· ≠ .scalar '_') = t ∧
      (∀ c ∈ t, 0x2E ≤ c.val ∧ c.val < 0x41) ∧
      ∃ zeros, significand? t = some (n * 10 ^ zeros, zeros, []) := by
  have digits : ∀ c ∈ Text.ofNat n, c.isDigit 10 = true := fun c => Text.isDigit_of_mem_ofNat
  have numeric : ∀ c ∈ Text.ofNat n, 0x2E ≤ c.val ∧ c.val < 0x41 := fun c mem => by
    have := Text.val_of_mem_ofNat mem
    omega
  have noMark : ∀ c ∈ Text.ofNat n, c ≠ .scalar '_' := by
    rintro c mem rfl
    exact absurd (numeric _ mem) (by decide)
  have nonempty := ne_nil_of_grouped grouped
  refine ⟨_, rfl, ?_⟩
  rw [List.filter_append, filter_grouped grouped noMark]
  rcases filter_noFraction ends with nothing | ⟨zeros, point⟩
  · rw [nothing, List.append_nil]
    refine ⟨numeric, 0, ?_⟩
    rw [significand?_whole digits nonempty, Text.numeral_ofNat, Nat.pow_zero, Nat.mul_one]
  · have isZero : ∀ c ∈ List.replicate zeros (CodePoint.scalar '0'), c = .scalar '0' :=
      fun c => List.eq_of_mem_replicate
    have digits' : ∀ c ∈ List.replicate zeros (CodePoint.scalar '0'), c.isDigit 10 = true := by
      intro c mem
      rw [isZero c mem]
      decide
    rw [point]
    refine ⟨fun c mem => ?_, zeros, ?_⟩
    · rcases List.mem_append.mp mem with mem | mem
      · exact numeric c mem
      · rcases List.mem_cons.mp mem with rfl | mem
        · decide
        · rw [isZero c mem]
          decide
    · rw [significand?_point digits nonempty digits', Text.numeral_append_zeros, Text.numeral_ofNat,
        List.length_replicate]

/-- **A decimal literal** of a natural number below 2^53 has the decimal form of that number as its
key. -/
theorem key_decimal {n : Nat} {whole rest : Text} (grouped : Grouped (Text.ofNat n) whole)
    (ends : NoFraction rest) (small : n < 2 ^ 53) : key (whole ++ rest) = Text.ofNat n := by
  obtain ⟨t, unmarked, numeric, zeros, parts⟩ := parts_decimal grouped ends
  have inRange : (n : Int).natAbs < Nat.pow 10 21 := by
    have : Nat.pow 10 21 = 1000000000000000000000 := rfl
    omega
  rw [key, unmarked]
  simp only [base?_of_numeric numeric, float?_of_numeric numeric,
    unsigned?_of_numeric numeric parts, Option.map_some, Option.getD_some, floatKey,
    Binary64.toInt?_ofDecimal small, if_pos inRange]
  rfl

/-- **All spellings of a number** have its decimal form as their key. -/
theorem key_of_spells {n : Nat} {t : Text} (spells : Spells n t) : key t = Text.ofNat n := by
  cases spells with
  | prefixed listed spelled grouped short => exact key_prefixed listed spelled grouped short
  | decimal grouped ends small => exact key_decimal grouped ends small

end NumberLiteral

/-! ## The law -/

/-- Whether a node is an access by a number literal; parentheses around the literal do not
matter. -/
structure Tree.IndexedBy (t literal : Tree) : Prop where
  isSubscript : t.kind = .subscript
  index : t.unwrapped? .index = some literal
  isNumber : literal.kind = .number

/-- The path of an access by a number. -/
def AccessPath.indexed (base : AccessPath) (n : Nat) : AccessPath :=
  { base with path := base.path ++ "[" ++ Text.ofNat n ++ "]" }

namespace Source

/-- An access by a number literal adds the key of the literal to the path of its object. -/
theorem accessPath?_indexed (s : Source) {t literal : Tree} (indexed : t.IndexedBy literal)
    {n : Nat} (key : s.numberKey literal = Text.ofNat n) :
    s.accessPath? t = ((t.field? .object).bind s.accessPath?).map (·.indexed n) := by
  obtain ⟨isSubscript, index, isNumber⟩ := indexed
  have step : s.accessStep? t = some ("[" ++ Text.ofNat n ++ "]") := by
    simp [accessStep?, isSubscript, index, isNumber, key]
  rw [accessPath?_eq, isSubscript, if_neg (by decide), if_pos (by decide), step, Option.bind_some]
  cases (t.field? .object).bind s.accessPath? with
  | none => rfl
  | some base => simp [AccessPath.indexed]

/-- **Spellings of a number are one key.** A literal that spells a natural number has the decimal
form of the number as its key: in hexadecimal, octal or binary if that form has at most 4300 digits,
and in decimal if the number is below 2^53. It names the property with that key, and an access by it
has the path of an access by the number, so that neither depends on the spelling. -/
theorem numberKey_of_spells {n : Nat} {s : Source} {literal : Tree}
    (spells : NumberLiteral.Spells n (s.text literal)) :
    s.numberKey literal = Text.ofNat n ∧
      (literal.kind = .number → s.propertyKey? literal = some (Text.ofNat n)) ∧
      ∀ t, t.IndexedBy literal →
        s.accessPath? t = ((t.field? .object).bind s.accessPath?).map (·.indexed n) := by
  have key : s.numberKey literal = Text.ofNat n := NumberLiteral.key_of_spells spells
  refine ⟨key, fun isNumber => ?_, fun t indexed => s.accessPath?_indexed indexed key⟩
  rw [propertyKey?, isNumber, ← key]

/-- The law for `a[0x10]`, `a[0X0_10]`, `a[1_6]`, `a[16.0]` and `a[16]`, which have one path and
name one property. -/
theorem numberKey_of_spells_sixteen :
    let node (kind : Kind) (start stop : Nat) (field : Field) (children : List Tree) : Tree :=
      { kind, named := true, start, stop, fields := [field], children }
    let source (written : Text) : Source :=
      { file := "m.js", bytes := (Utf8.encode? ("a[" ++ written ++ "]")).getD [] }
    let literal (written : Text) := node .number 2 (2 + written.length) .index []
    let access (written : Text) := node .subscript 0 (3 + written.length) .value
      [node .identifier 0 1 .object [], literal written]
    let spellings : List Text := ["0x10", "0X0_10", "1_6", "16.0", "16"]
    ∀ written ∈ spellings,
      NumberLiteral.Spells 16 ((source written).text (literal written)) ∧
      (access written).IndexedBy (literal written) ∧
      (source written).propertyKey? (literal written) = some "16" ∧
      (source written).accessPath? (access written) = some { root := "a", path := "[16]" } := by
  intro node source literal access spellings
  have shown : ∀ written ∈ spellings, (source written).text (literal written) = written ∧
      ((access written).field? .object).bind (source written).accessPath? =
        some { root := "a", path := [] } := by
    decide +kernel
  have spells : ∀ written ∈ spellings, NumberLiteral.Spells 16 written := by
    have zero : CodePoint.IsDigitOf 16 (.scalar '0') 0 := ⟨by decide, .inl rfl⟩
    have one : CodePoint.IsDigitOf 16 (.scalar '1') 1 := ⟨by decide, .inl rfl⟩
    have short : (Text.ofNat 16).length ≤ 4300 := by decide
    have small : 16 < 2 ^ 53 := by decide
    have lower : ('x', 16) ∈ NumberLiteral.baseLetters := by decide
    have upper : ('X', 16) ∈ NumberLiteral.baseLetters := by decide
    have plain : NumberLiteral.Grouped (Text.ofNat 16) "16" := .cons _ 0 (.single _)
    have grouped : NumberLiteral.Grouped (Text.ofNat 16) "1_6" := .cons _ 1 (.single _)
    have place : NumberLiteral.Grouped (List.replicate 1 (.scalar '0')) "0" := .single _
    intro written listed
    simp only [spellings, List.mem_cons, List.not_mem_nil, or_false] at listed
    rcases listed with rfl | rfl | rfl | rfl | rfl
    · exact .prefixed lower ⟨[1, 0], .cons one (.cons zero .nil), rfl⟩ (.cons _ 0 (.single _)) short
    · exact .prefixed upper ⟨[0, 1, 0], .cons zero (.cons one (.cons zero .nil)), rfl⟩
        (.cons _ 1 (.cons _ 0 (.single _))) short
    · exact .decimal grouped .nothing small
    · exact .decimal plain (.zeros place) small
    · exact .decimal plain .nothing small
  intro written listed
  obtain ⟨text, object⟩ := shown written listed
  have literalSpells : NumberLiteral.Spells 16 ((source written).text (literal written)) :=
    text.symm ▸ spells written listed
  have indexed : (access written).IndexedBy (literal written) := ⟨rfl, rfl, rfl⟩
  obtain ⟨-, property, path⟩ := numberKey_of_spells literalSpells
  refine ⟨literalSpells, indexed, property rfl, ?_⟩
  rw [path _ indexed, object]
  rfl

end Source

end JsxOrigin
