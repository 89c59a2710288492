import JsxOrigin.Json.Reader

/-!
# JSON documents

A document is what JSON spells, before a value is made of it: numbers as they are written, strings
piece by piece, objects with every member. It has tokens and a value, and `Document.read` says what
becomes of it within the limits of the reader.

**The law** (`Json.Document.read_of_fits`): a document is read as its value, unless an integer in it
is too long or an array or object in it stands too deep.
-/

namespace JsxOrigin

namespace Json

/-! ## Tokens -/

/-- A token that is a single mark. -/
def mark (c : Char) : Text := [.scalar c]

/-- The letters that may follow a backslash, with what they stand for. -/
def escapes : List (Char × Char) :=
  [('"', '"'), ('\\', '\\'), ('/', '/'), ('b', '\x08'), ('f', '\x0c'), ('n', '\n'), ('r', '\r'),
    ('t', '\t')]

/-- A piece of a string: a character that stands for itself, an escape by a letter, or an escape by
four hexadecimal digits. -/
inductive StringPiece where
  | raw (c : Char) (visible : 0x20 ≤ c.toNat) (plain : c ≠ '"' ∧ c ≠ '\\')
  | escape (letter c : Char) (listed : (letter, c) ∈ escapes)
  | unit (digits : Text) (c : CodePoint) (four : digits.length = 4)
    (hexadecimal : ∀ d ∈ digits, d.isDigit 16 = true) (named : Text.numeral 16 digits = c.val)

namespace StringPiece

/-- How a piece is written. -/
def text : StringPiece → Text
  | raw c _ _ => [.scalar c]
  | escape letter _ _ => [.scalar '\\', .scalar letter]
  | unit digits _ _ _ _ => .scalar '\\' :: .scalar 'u' :: digits

/-- What a piece stands for. -/
def meaning : StringPiece → CodePoint
  | raw c _ _ => .scalar c
  | escape _ c _ => .scalar c
  | unit _ c _ _ _ => c

end StringPiece

/-- A string token. -/
structure StringToken where
  pieces : List StringPiece

namespace StringToken

/-- What stands between the quotes. -/
def body (s : StringToken) : Text := s.pieces.flatMap StringPiece.text

/-- A string token as it is written. -/
def text (s : StringToken) : Text := .scalar '"' :: (s.body ++ [.scalar '"'])

/-- The text that a string token stands for; escapes of both halves of a surrogate pair stand for
one character. -/
def value (s : StringToken) : Text := Text.joinPairs (s.pieces.map StringPiece.meaning)

end StringToken

/-- Decimal digits, at least one. -/
def IsDigits (t : Text) : Prop := t ≠ [] ∧ ∀ c ∈ t, c.isDigit 10 = true

/-- What a number token is made of besides digits. -/
def joints : List CodePoint := [.scalar '-', .scalar '+', .scalar '.', .scalar 'e', .scalar 'E']

/-- The exponent of a number token. -/
structure Exponent where
  letter : Char
  sign : Text
  digits : Text
  isLetter : letter = 'e' ∨ letter = 'E'
  isSign : sign = [] ∨ sign = mark '+' ∨ sign = mark '-'
  isDigits : IsDigits digits

namespace Exponent

/-- An exponent as it is written. -/
def text (e : Exponent) : Text := .scalar e.letter :: (e.sign ++ e.digits)

/-- The number that an exponent stands for. -/
def value (e : Exponent) : Int :=
  let n : Int := Text.numeral 10 e.digits
  if e.sign = mark '-' then -n else n

theorem isDigit_or_joint (e : Exponent) {c : CodePoint} (mem : c ∈ e.text) :
    c.isDigit 10 = true ∨ c ∈ joints := by
  rcases List.mem_cons.mp mem with rfl | mem
  · exact .inr (by rcases e.isLetter with isLetter | isLetter <;> rw [isLetter] <;> decide)
  rcases List.mem_append.mp mem with mem | mem
  · right
    rcases e.isSign with sign | sign | sign <;> rw [sign] at mem
    · cases mem
    · cases List.mem_singleton.mp mem
      decide
    · cases List.mem_singleton.mp mem
      decide
  · exact .inl (e.isDigits.2 c mem)

end Exponent

/-- A number token: digits without a needless zero in front, and possibly a sign, places after a
point and an exponent. -/
structure NumberToken where
  negative : Bool
  whole : Text
  fraction : Option Text
  exponent : Option Exponent
  isWhole : IsDigits whole
  noZero : whole.head? = some (.scalar '0') → whole = mark '0'
  isFraction : ∀ ds ∈ fraction, IsDigits ds

namespace NumberToken

/-- What follows the sign of a number token. -/
def unsigned (n : NumberToken) : Text :=
  n.whole ++ (n.fraction.elim [] (.scalar '.' :: ·) ++ n.exponent.elim [] Exponent.text)

/-- A number token as it is written. -/
def text (n : NumberToken) : Text := if n.negative then .scalar '-' :: n.unsigned else n.unsigned

/-- A number token starts with a digit or a minus. -/
theorem text_start (n : NumberToken) :
    ∃ c cs, n.text = c :: cs ∧ (c.isDigit 10 = true ∨ c = .scalar '-') := by
  obtain ⟨filled, all⟩ := n.isWhole
  obtain ⟨c, ds, isCons⟩ := List.exists_cons_of_ne_nil filled
  rw [text]
  split
  · exact ⟨_, _, rfl, .inr rfl⟩
  · rw [unsigned, isCons]
    exact ⟨c, _, rfl, .inl (all c (by rw [isCons]; exact List.mem_cons_self))⟩

theorem isDigit_or_joint (n : NumberToken) {c : CodePoint} (mem : c ∈ n.text) :
    c.isDigit 10 = true ∨ c ∈ joints := by
  have ofFraction (mem : c ∈ n.fraction.elim [] (.scalar '.' :: ·)) :
      c.isDigit 10 = true ∨ c ∈ joints := by
    cases isFraction : n.fraction with
    | none => simp [isFraction] at mem
    | some ds =>
      rw [isFraction] at mem
      rcases List.mem_cons.mp mem with rfl | mem
      · exact .inr (by decide)
      · exact .inl ((n.isFraction ds isFraction).2 c mem)
  have ofExponent (mem : c ∈ n.exponent.elim [] Exponent.text) :
      c.isDigit 10 = true ∨ c ∈ joints := by
    cases isExponent : n.exponent with
    | none => simp [isExponent] at mem
    | some e =>
      rw [isExponent] at mem
      exact e.isDigit_or_joint mem
  have ofUnsigned (mem : c ∈ n.unsigned) : c.isDigit 10 = true ∨ c ∈ joints := by
    rcases List.mem_append.mp mem with mem | mem
    · exact .inl (n.isWhole.2 c mem)
    rcases List.mem_append.mp mem with mem | mem
    · exact ofFraction mem
    · exact ofExponent mem
  rw [text] at mem
  split at mem
  · rcases List.mem_cons.mp mem with rfl | mem
    · exact .inr (by decide)
    · exact ofUnsigned mem
  · exact ofUnsigned mem

/-- Whether a number token stands for an integer. -/
def isInteger (n : NumberToken) : Bool := n.fraction.isNone && n.exponent.isNone

/-- The number that a number token stands for. -/
def value (n : NumberToken) : Json :=
  if n.isInteger then
    let whole : Int := Text.numeral 10 n.whole
    .int (if n.negative then -whole else whole)
  else
    let places := n.fraction.getD []
    .float (.ofDecimal n.negative (Text.numeral 10 (n.whole ++ places))
      (n.exponent.elim 0 Exponent.value - places.length))

/-- Whether a number token has too many digits for an integer. -/
def isTooLong (n : NumberToken) : Bool :=
  n.isInteger && NumberLiteral.digitLimit < n.whole.length

end NumberToken

/-! ## Documents -/

/-- A JSON document. -/
inductive Document where
  | null
  | bool (b : Bool)
  | number (n : NumberToken)
  | string (s : StringToken)
  | arr (items : List Document)
  | obj (members : List (StringToken × Document))

/-- Induction over the items and the members of a document. -/
@[induction_eliminator]
theorem Document.induct {P : Document → Prop} (null : P .null) (bool : ∀ b, P (.bool b))
    (number : ∀ n, P (.number n)) (string : ∀ s, P (.string s))
    (arr : ∀ items, (∀ d ∈ items, P d) → P (.arr items))
    (obj : ∀ members, (∀ m ∈ members, P m.2) → P (.obj members)) (d : Document) : P d := by
  match d with
  | .null => exact null
  | .bool b => exact bool b
  | .number n => exact number n
  | .string s => exact string s
  | .arr items => exact arr items fun d mem => induct null bool number string arr obj d
  | .obj members =>
    refine obj members fun m mem => ?_
    have inside : sizeOf m.2 < sizeOf m := by
      obtain ⟨key, d⟩ := m
      show sizeOf d < sizeOf (key, d)
      rw [Prod.mk.sizeOf_spec]
      omega
    have smaller := List.sizeOf_lt_of_mem mem
    exact induct null bool number string arr obj m.2
termination_by d

/-- Parts one after another, with commas between them. -/
def separated : List (List Text) → List Text
  | [] => []
  | [part] => part
  | part :: parts => part ++ mark ',' :: separated parts

namespace Document

mutual

/-- The tokens of a document. -/
def tokens : Document → List Text
  | null => ["null"]
  | bool b => [if b then "true" else "false"]
  | number n => [n.text]
  | string s => [s.text]
  | arr items => mark '[' :: (separated (itemTokens items) ++ [mark ']'])
  | obj members => mark '{' :: (separated (memberTokens members) ++ [mark '}'])

/-- The tokens of each item of an array. -/
def itemTokens : List Document → List (List Text)
  | [] => []
  | d :: rest => tokens d :: itemTokens rest

/-- The tokens of each member of an object. -/
def memberTokens : List (StringToken × Document) → List (List Text)
  | [] => []
  | (key, d) :: rest => (key.text :: mark ':' :: tokens d) :: memberTokens rest

end

mutual

/-- The value of a document. -/
def value : Document → Json
  | null => .null
  | bool b => .bool b
  | number n => n.value
  | string s => .str s.value
  | arr items => .arr (itemValues items)
  | obj members => .obj (Table.ofList (memberValues members))

/-- The value of each item of an array. -/
def itemValues : List Document → List Json
  | [] => []
  | d :: rest => value d :: itemValues rest

/-- The name and the value of each member of an object. -/
def memberValues : List (StringToken × Document) → List (Text × Json)
  | [] => []
  | (key, d) :: rest => (key.value, value d) :: memberValues rest

end

mutual

/-- What becomes of a document that is read with room for so many arrays and objects inside each
other: its value, or the first thing in it that goes too far. -/
def read : Nat → Document → Except ReadError Json
  | _, null => .ok .null
  | _, bool b => .ok (.bool b)
  | _, number n => if n.isTooLong then .error .integerTooLong else .ok n.value
  | _, string s => .ok (.str s.value)
  | 0, arr _ => .error .tooDeep
  | 0, obj _ => .error .tooDeep
  | room + 1, arr items => (readItems room items).map .arr
  | room + 1, obj members => (readMembers room members).map fun ms => .obj (Table.ofList ms)

/-- The items of an array, up to the first thing that goes too far. -/
def readItems : Nat → List Document → Except ReadError (List Json)
  | _, [] => .ok []
  | room, d :: rest => do
    let x ← read room d
    let xs ← readItems room rest
    .ok (x :: xs)

/-- The members of an object, up to the first thing that goes too far. -/
def readMembers : Nat → List (StringToken × Document) → Except ReadError (List (Text × Json))
  | _, [] => .ok []
  | room, (key, d) :: rest => do
    let x ← read room d
    let xs ← readMembers room rest
    .ok ((key.value, x) :: xs)

end

/-- A document in which no integer is too long, and in which at most `room` arrays and objects stand
inside each other. -/
inductive Fits : Nat → Document → Prop where
  | null (room : Nat) : Fits room null
  | bool (room : Nat) (b : Bool) : Fits room (bool b)
  | number (room : Nat) {n : NumberToken} (short : n.isTooLong = false) : Fits room (number n)
  | string (room : Nat) (s : StringToken) : Fits room (string s)
  | arr {room : Nat} {items : List Document} (each : ∀ d ∈ items, Fits room d) :
    Fits (room + 1) (arr items)
  | obj {room : Nat} {members : List (StringToken × Document)}
    (each : ∀ m ∈ members, Fits room m.2) : Fits (room + 1) (obj members)

theorem readItems_of_read {room : Nat} {items : List Document}
    (each : ∀ d ∈ items, d.read room = .ok d.value) :
    readItems room items = .ok (itemValues items) := by
  induction items with
  | nil => rw [readItems, itemValues]
  | cons d rest ih =>
    obtain ⟨first, others⟩ := List.forall_mem_cons.mp each
    rw [readItems, itemValues, first, ih others]
    rfl

theorem readMembers_of_read {room : Nat} {members : List (StringToken × Document)}
    (each : ∀ m ∈ members, m.2.read room = .ok m.2.value) :
    readMembers room members = .ok (memberValues members) := by
  induction members with
  | nil => rw [readMembers, memberValues]
  | cons m rest ih =>
    obtain ⟨first, others⟩ := List.forall_mem_cons.mp each
    rw [readMembers, memberValues, first, ih others]
    rfl

/-- A document that fits is read as its value. -/
theorem read_of_fits {room : Nat} {d : Document} (fits : d.Fits room) :
    d.read room = .ok d.value := by
  induction fits with
  | null room => rw [read, value]
  | bool room b => rw [read, value]
  | number room short => rw [read, short, value]; rfl
  | string room s => rw [read, value]
  | arr each ih => rw [read, readItems_of_read ih, value]; rfl
  | obj each ih => rw [read, readMembers_of_read ih, value]; rfl

/-! ## The tokens of a document -/

theorem itemTokens_eq_map (items : List Document) : itemTokens items = items.map tokens := by
  induction items with
  | nil => rfl
  | cons d rest ih => rw [itemTokens, ih, List.map_cons]

theorem memberTokens_eq_map (members : List (StringToken × Document)) :
    memberTokens members = members.map fun m => m.1.text :: mark ':' :: tokens m.2 := by
  induction members with
  | nil => rfl
  | cons m rest ih => rw [memberTokens, ih, List.map_cons]

end Document

theorem separated_cons_cons (p q : List Text) (parts : List (List Text)) :
    separated (p :: q :: parts) = p ++ mark ',' :: separated (q :: parts) := by
  rw [separated]
  simp

theorem separated_start (t : Text) (part : List Text) (parts : List (List Text)) :
    ∃ others, separated ((t :: part) :: parts) = t :: others := by
  cases parts with
  | nil => exact ⟨part, rfl⟩
  | cons q parts => exact ⟨_, separated_cons_cons _ _ _⟩

theorem mem_separated {parts : List (List Text)} {t : Text} (mem : t ∈ separated parts) :
    t = mark ',' ∨ ∃ part ∈ parts, t ∈ part := by
  fun_induction separated parts with
  | case1 => cases mem
  | case2 part => exact .inr ⟨part, List.mem_singleton.mpr rfl, mem⟩
  | case3 part parts _ ih =>
    rcases List.mem_append.mp mem with inFirst | inOthers
    · exact .inr ⟨part, List.mem_cons_self, inFirst⟩
    · rcases List.mem_cons.mp inOthers with isComma | inRest
      · exact .inl isComma
      · rcases ih inRest with isComma | ⟨other, isPart, inOther⟩
        · exact .inl isComma
        · exact .inr ⟨other, List.mem_cons_of_mem _ isPart, inOther⟩

/-- The marks and the words of JSON. -/
def fixedTokens : List Text :=
  [mark '[', mark ']', mark '{', mark '}', mark ':', mark ',', "null", "true", "false"]

/-- A JSON token. -/
inductive IsToken : Text → Prop where
  | fixed {t : Text} (listed : t ∈ fixedTokens) : IsToken t
  | number (n : NumberToken) : IsToken n.text
  | string (s : StringToken) : IsToken s.text

theorem IsToken.ne_nil {t : Text} (isToken : IsToken t) : t ≠ [] := by
  cases isToken with
  | fixed listed =>
    have filled : ∀ t ∈ fixedTokens, t ≠ [] := by decide
    exact filled t listed
  | number n =>
    obtain ⟨c, cs, starts, -⟩ := n.text_start
    rw [starts]
    exact List.cons_ne_nil _ _
  | string s => exact List.cons_ne_nil _ _

theorem isToken_of_mem_brackets {opening closing t : Text} {parts : List (List Text)}
    (opens : opening ∈ fixedTokens) (closes : closing ∈ fixedTokens)
    (each : ∀ part ∈ parts, t ∈ part → IsToken t)
    (mem : t ∈ opening :: (separated parts ++ [closing])) : IsToken t := by
  rcases List.mem_cons.mp mem with rfl | mem
  · exact .fixed opens
  rcases List.mem_append.mp mem with mem | mem
  · rcases mem_separated mem with rfl | ⟨part, isPart, mem⟩
    · exact .fixed (by decide)
    · exact each part isPart mem
  · cases List.mem_singleton.mp mem
    exact .fixed closes

namespace Document

theorem isToken_of_mem (d : Document) {t : Text} (mem : t ∈ d.tokens) : IsToken t := by
  induction d with
  | null =>
    cases List.mem_singleton.mp mem
    exact .fixed (by decide)
  | bool b =>
    cases List.mem_singleton.mp mem
    exact .fixed (by cases b <;> decide)
  | number n =>
    cases List.mem_singleton.mp mem
    exact .number n
  | string s =>
    cases List.mem_singleton.mp mem
    exact .string s
  | arr items ih =>
    refine isToken_of_mem_brackets (by decide) (by decide) (fun part isPart mem => ?_) mem
    rw [itemTokens_eq_map] at isPart
    obtain ⟨item, isItem, rfl⟩ := List.mem_map.mp isPart
    exact ih item isItem mem
  | obj members ih =>
    refine isToken_of_mem_brackets (by decide) (by decide) (fun part isPart mem => ?_) mem
    rw [memberTokens_eq_map] at isPart
    obtain ⟨member, isMember, rfl⟩ := List.mem_map.mp isPart
    rcases List.mem_cons.mp mem with rfl | mem
    · exact .string member.1
    rcases List.mem_cons.mp mem with rfl | mem
    · exact .fixed (by decide)
    · exact ih member isMember mem

end Document

end Json

end JsxOrigin
