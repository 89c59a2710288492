import JsxOrigin.Text.Basic

/-!
# UTF-8

Bytes are read one at a time by a small machine that holds the unfinished character, if any. A byte
that cannot continue it ends a malformed part, and is then read as the start of the next character.
So each longest part that could have begun a character, and no more than that, counts as one
malformed part.
-/

namespace JsxOrigin

/-- Bytes of a file. -/
abbrev Bytes := List UInt8

namespace Utf8

/-- An unfinished character: the bits read so far, the number of bytes still to come, and the range
that the next byte has to lie in. -/
structure Unfinished where
  bits : Nat
  missing : Nat
  least : Nat := 0x80
  most : Nat := 0xBF

/-- What a byte means at the start of a character: a whole character, the start of a longer one, or
neither. -/
inductive Start where
  | whole (c : Char)
  | more (u : Unfinished)
  | malformed

/-- Reads the first byte of a character. The second byte is restricted where a shorter encoding, a
surrogate or a number past U+10FFFF would follow. -/
def start (byte : UInt8) : Start :=
  let b := byte.toNat
  if b < 0x80 then .whole (Char.ofNat b)
  else if b < 0xC2 then .malformed
  else if b < 0xE0 then .more { bits := b - 0xC0, missing := 1 }
  else if b = 0xE0 then .more { bits := 0, missing := 2, least := 0xA0 }
  else if b = 0xED then .more { bits := 0xD, missing := 2, most := 0x9F }
  else if b < 0xF0 then .more { bits := b - 0xE0, missing := 2 }
  else if b = 0xF0 then .more { bits := 0, missing := 3, least := 0x90 }
  else if b < 0xF4 then .more { bits := b - 0xF0, missing := 3 }
  else if b = 0xF4 then .more { bits := 4, missing := 3, most := 0x8F }
  else .malformed

/-- Whether a byte continues an unfinished character. -/
def Unfinished.takes (u : Unfinished) (byte : UInt8) : Bool :=
  u.least ≤ byte.toNat && byte.toNat ≤ u.most

/-- What a byte at the start of a character gives: the characters that are complete then, where
`none` stands for one malformed part, and the one that is unfinished. -/
def feedFirst (byte : UInt8) : List (Option Char) × Option Unfinished :=
  match start byte with
  | .whole c => ([some c], none)
  | .more u => ([], some u)
  | .malformed => ([none], none)

/-- What a byte gives after an unfinished character, if there is one. -/
def feed : Option Unfinished → UInt8 → List (Option Char) × Option Unfinished
  | none, byte => feedFirst byte
  | some u, byte =>
    if u.takes byte then
      let bits := u.bits * 0x40 + (byte.toNat - 0x80)
      if u.missing ≤ 1 then ([some (Char.ofNat bits)], none)
      else ([], some { bits, missing := u.missing - 1 })
    else
      let (complete, unfinished) := feedFirst byte
      (none :: complete, unfinished)

/-- The characters of some bytes after an unfinished one; `none` stands for one malformed part. -/
def readFrom : Option Unfinished → Bytes → List (Option Char)
  | none, [] => []
  | some _, [] => [none]
  | unfinished, byte :: rest =>
    let (complete, unfinished) := feed unfinished byte
    complete ++ readFrom unfinished rest

/-- The characters of some bytes; `none` stands for one malformed part. -/
def read (bytes : Bytes) : List (Option Char) := readFrom none bytes

/-- The text of some bytes, with U+FFFD in place of each malformed part. -/
def decode (bytes : Bytes) : Text :=
  (read bytes).map fun c => .scalar (c.getD '�')

/-! ## Malformed parts -/

/-- Why a part is malformed. -/
inductive Flaw where
  /-- No character starts with the byte. -/
  | start
  /-- The next byte does not continue the character. -/
  | continuation
  /-- The bytes end before the character does. -/
  | ending
deriving DecidableEq

/-- A malformed part: its position and its bytes, of which there is at least one. -/
structure Malformed where
  position : Nat
  first : UInt8
  more : Bytes := []
  flaw : Flaw
deriving DecidableEq

/-- The name of a flaw. -/
def Flaw.name : Flaw → Text
  | start => "invalid start byte"
  | continuation => "invalid continuation byte"
  | ending => "unexpected end of data"

/-- What is wrong with a malformed part. -/
def Malformed.message (m : Malformed) : Text :=
  let hexadecimal : Text := (Nat.toDigits 16 m.first.toNat).map .scalar
  let part : Text :=
    if m.more.isEmpty then "byte 0x" ++ hexadecimal ++ " in position " ++ Text.ofNat m.position
    else "bytes in position " ++ Text.ofNat m.position ++ "-" ++
      Text.ofNat (m.position + m.more.length)
  "\x27utf-8\x27 codec can\x27t decode " ++ part ++ ": " ++ m.flaw.name

/-- The first malformed part of the bytes from a position on; an unfinished character comes with the
bytes that it has so far. -/
def malformedFrom? (position : Nat) : Option (UInt8 × Bytes × Unfinished) → Bytes → Option Malformed
  | none, [] => none
  | some (first, more, _), [] =>
    some { position := position - 1 - more.length, first, more, flaw := .ending }
  | none, byte :: rest =>
    match start byte with
    | .whole _ => malformedFrom? (position + 1) none rest
    | .more u => malformedFrom? (position + 1) (some (byte, [], u)) rest
    | .malformed => some { position, first := byte, flaw := .start }
  | some (first, more, u), byte :: rest =>
    if u.takes byte then
      if u.missing ≤ 1 then malformedFrom? (position + 1) none rest
      else
        let next : Unfinished := { bits := 0, missing := u.missing - 1 }
        malformedFrom? (position + 1) (some (first, more ++ [byte], next)) rest
    else some { position := position - 1 - more.length, first, more, flaw := .continuation }

/-- The first malformed part of some bytes. -/
def malformed? (bytes : Bytes) : Option Malformed := malformedFrom? 0 none bytes

/-- The text of some bytes, or what is malformed in them. -/
def text (bytes : Bytes) : Except Malformed Text :=
  match malformed? bytes with
  | some m => .error m
  | none => .ok (decode bytes)

/-! ## Writing -/

/-- The bytes of a text, if it holds no surrogate. -/
def encode? (t : Text) : Option Bytes :=
  (t.mapM CodePoint.char?).map (·.flatMap String.utf8EncodeChar)

end Utf8

end JsxOrigin
