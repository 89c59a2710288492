/-!
# Code points

A string literal of a script can spell half of a surrogate pair, so a text here is a sequence of
code points and not of Unicode scalar values. A code point is a scalar value or one of the two
kinds of surrogate; each surrogate carries the ten bits that it contributes to a pair.
-/

namespace JsxOrigin

/-- A code point: U+0000 to U+10FFFF, surrogates included. -/
inductive CodePoint where
  /-- A Unicode scalar value. -/
  | scalar (c : Char)
  /-- The leading half of a surrogate pair, U+D800 plus `h`. -/
  | high (h : Fin 0x400)
  /-- The trailing half of a surrogate pair, U+DC00 plus `l`. -/
  | low (l : Fin 0x400)
deriving DecidableEq, Inhabited

namespace CodePoint

instance : Coe Char CodePoint := ⟨scalar⟩

/-- The number of a code point. -/
def val : CodePoint → Nat
  | scalar c => c.toNat
  | high h => 0xD800 + h.val
  | low l => 0xDC00 + l.val

/-- The code point of a number, if it has one. -/
def ofNat? (n : Nat) : Option CodePoint :=
  if hh : 0xD800 ≤ n ∧ n < 0xDC00 then some (high ⟨n - 0xD800, by omega⟩)
  else if hl : 0xDC00 ≤ n ∧ n < 0xE000 then some (low ⟨n - 0xDC00, by omega⟩)
  else if hv : n.isValidChar then some (scalar (Char.ofNatAux n hv))
  else none

/-- Whether a code point is half of a surrogate pair. -/
def isSurrogate : CodePoint → Bool
  | scalar _ => false
  | high _ => true
  | low _ => true

/-- Whether a code point has no bytes in the names and the values that the system knows. The
surrogates that stand for undecodable bytes have. -/
def isUnencodable (c : CodePoint) : Bool :=
  c.isSurrogate && !(0xDC80 ≤ c.val && c.val ≤ 0xDCFF)

/-- The number of bytes of a code point in the names that the system knows. A surrogate that has
bytes stands for one of them. -/
def size : CodePoint → Nat
  | scalar c => c.utf8Size
  | _ => 1

/-- The scalar value that a surrogate pair stands for. -/
def ofPair (h l : Fin 0x400) : CodePoint :=
  scalar (Char.ofNatAux (0x10000 + h.val * 0x400 + l.val) (by
    have := h.isLt
    have := l.isLt
    right
    omega))

/-- The character of a code point that is a scalar value. -/
def char? : CodePoint → Option Char
  | scalar c => some c
  | _ => none

/-- Whether a code point is a scalar value with property `p`. -/
def satisfies (p : Char → Bool) : CodePoint → Bool
  | scalar c => p c
  | _ => false

@[simp] theorem isSurrogate_scalar (c : Char) : (scalar c).isSurrogate = false := rfl

@[simp] theorem satisfies_scalar (p : Char → Bool) (c : Char) : (scalar c).satisfies p = p c := rfl

end CodePoint

end JsxOrigin
