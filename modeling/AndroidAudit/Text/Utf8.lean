/-!
# Bytes as text

Bytes are read as UTF-8. A byte sequence splits into characters and *stray parts*: a stray part is
the longest run of bytes that starts some character's encoding and cannot be completed, or a single
byte that starts none. A text has no stray part.
-/

namespace AndroidAudit.Text

/-- One piece of a byte sequence read as UTF-8. -/
inductive Symbol where
  | char (c : Char)
  /-- Bytes that are no character. -/
  | stray (bytes : List UInt8)
  deriving DecidableEq, Repr

/-- The range of second bytes that may follow a first byte, and how many bytes follow in all. The
ranges leave out overlong forms, surrogates and code points past the last. -/
def tailOf (b : UInt8) : Option (UInt8 × UInt8 × Nat) :=
  if 0xC2 ≤ b && b ≤ 0xDF then some (0x80, 0xBF, 1)
  else if b == 0xE0 then some (0xA0, 0xBF, 2)
  else if b == 0xED then some (0x80, 0x9F, 2)
  else if 0xE1 ≤ b && b ≤ 0xEF then some (0x80, 0xBF, 2)
  else if b == 0xF0 then some (0x90, 0xBF, 3)
  else if b == 0xF4 then some (0x80, 0x8F, 3)
  else if 0xF1 ≤ b && b ≤ 0xF3 then some (0x80, 0xBF, 3)
  else none

/-- The first byte's share of the code point. -/
def leadValue (b : UInt8) : Nat :=
  if b < 0xE0 then b.toNat - 0xC0 else if b < 0xF0 then b.toNat - 0xE0 else b.toNat - 0xF0

/-- The tail bytes that stand at the front, at most `n` of them, the first inside `lo` to `hi`. -/
def takeTail (lo hi : UInt8) : Nat → List UInt8 → List UInt8
  | n + 1, b :: rest => if lo ≤ b && b ≤ hi then b :: takeTail 0x80 0xBF n rest else []
  | _, _ => []

/-- The first symbol of a non-empty byte sequence, and the number of bytes after its first. -/
def firstSymbol (b : UInt8) (rest : List UInt8) : Symbol × Nat :=
  if b < 0x80 then (.char (Char.ofNat b.toNat), 0)
  else match tailOf b with
    | none => (.stray [b], 0)
    | some (lo, hi, n) =>
      let tail := takeTail lo hi n rest
      if tail.length == n then
        (.char (Char.ofNat (tail.foldl (fun v t => v * 64 + (t.toNat - 0x80)) (leadValue b))), n)
      else (.stray (b :: tail), tail.length)

/-- The symbols of a byte sequence. -/
def symbols : List UInt8 → List Symbol
  | [] => []
  | b :: rest =>
    let (s, n) := firstSymbol b rest
    s :: symbols (rest.drop n)
termination_by bs => bs.length
decreasing_by simp only [List.length_drop, List.length_cons]; omega

/-- The character that stands for a symbol: itself, or the replacement character. -/
def Symbol.shown : Symbol → Char
  | .char c => c
  | .stray _ => '\ufffd'

/-- The number of bytes of a symbol. -/
def Symbol.byteCount : Symbol → Nat
  | .char c => c.utf8Size
  | .stray bytes => bytes.length

/-- The character a symbol is, if it is one. -/
def Symbol.char? : Symbol → Option Char
  | .char c => some c
  | .stray _ => none

/-- The text that bytes encode, if every one of them belongs to a character. -/
def decode? (bytes : List UInt8) : Option String := String.fromUTF8? bytes.toByteArray

/-- The encoding of a text. -/
def encode (s : String) : List UInt8 := s.toUTF8.data.toList

theorem decode?_encode (s : String) : decode? (encode s) = some s := by
  have h : (encode s).toByteArray = s.toByteArray := by
    apply ByteArray.ext
    simp [encode, String.toUTF8]
  rw [decode?, String.fromUTF8?, h, dif_pos s.isValidUTF8]
  rfl

end AndroidAudit.Text
