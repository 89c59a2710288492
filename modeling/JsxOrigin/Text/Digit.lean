import JsxOrigin.Text.Basic

/-!
# Decimal digits

Each script's decimal digits are ten code points in a row, so a digit is known by the zero that it
follows.
-/

namespace JsxOrigin

/-- The zeros of all scripts. -/
def CodePoint.zeros : List Nat := [
  0x30, 0x660, 0x6F0, 0x7C0, 0x966, 0x9E6, 0xA66, 0xAE6, 0xB66, 0xBE6, 0xC66, 0xCE6, 0xD66,
  0xDE6, 0xE50, 0xED0, 0xF20, 0x1040, 0x1090, 0x17E0, 0x1810, 0x1946, 0x19D0, 0x1A80, 0x1A90,
  0x1B50, 0x1BB0, 0x1C40, 0x1C50, 0xA620, 0xA8D0, 0xA900, 0xA9D0, 0xA9F0, 0xAA50, 0xABF0, 0xFF10,
  0x104A0, 0x10D30, 0x11066, 0x110F0, 0x11136, 0x111D0, 0x112F0, 0x11450, 0x114D0, 0x11650,
  0x116C0, 0x11730, 0x118E0, 0x11950, 0x11C50, 0x11D50, 0x11DA0, 0x16A60, 0x16AC0, 0x16B50,
  0x1D7CE, 0x1D7D8, 0x1D7E2, 0x1D7EC, 0x1D7F6, 0x1E140, 0x1E2F0, 0x1E950, 0x1FBF0]

/-- The value of a decimal digit of any script. -/
def CodePoint.decimal? (c : CodePoint) : Option Nat :=
  (CodePoint.zeros.find? fun z => z ≤ c.val && c.val < z + 10).map (c.val - ·)

/-- The value of an ASCII digit or letter as a digit of a base up to 36. -/
def CodePoint.digitValue? : CodePoint → Option Nat
  | .scalar c =>
    if '0' ≤ c ∧ c ≤ '9' then some (c.toNat - '0'.toNat)
    else if 'a' ≤ c ∧ c ≤ 'z' then some (c.toNat - 'a'.toNat + 10)
    else if 'A' ≤ c ∧ c ≤ 'Z' then some (c.toNat - 'A'.toNat + 10)
    else none
  | _ => none

/-- The value of an ASCII digit of a base. -/
def CodePoint.digit? (base : Nat) (c : CodePoint) : Option Nat :=
  c.digitValue?.filter (· < base)

/-- Whether a code point is an ASCII digit of a base. -/
def CodePoint.isDigit (base : Nat) (c : CodePoint) : Bool := (c.digit? base).isSome

/-- The number that digits of a base spell, the most significant one first. Anything that is no
digit counts as zero. -/
def Text.numeral (base : Nat) (digits : Text) : Nat :=
  digits.foldl (fun n c => n * base + (c.digit? base).getD 0) 0

end JsxOrigin
