import AndroidAudit.Json.Fault
import AndroidAudit.Text.Hex

/-!
# Strings in a document

A string can be *skipped*, which finds its end, or *read*, which also finds the text it stands for.
Skipping lets half a surrogate pair pass. Both start behind the opening quote.
-/

namespace AndroidAudit.Json

/-- The character that a short escape stands for. -/
def shortEscape? (c : Char) : Option Char :=
  if c = '"' then some '"'
  else if c = '\\' then some '\\'
  else if c = '/' then some '/'
  else if c = 'b' then some '\x08'
  else if c = 'f' then some '\x0c'
  else if c = 'n' then some '\n'
  else if c = 'r' then some '\r'
  else if c = 't' then some '\t'
  else none

/-- The number that four digits stand for. -/
def fourDigits? (a b c d : Char) : Option Nat := do
  let a ← Text.hexValue? a
  let b ← Text.hexValue? b
  let c ← Text.hexValue? c
  let d ← Text.hexValue? d
  some (((a * 16 + b) * 16 + c) * 16 + d)

/-- The fault of an escape whose four bytes, which start here, are not four digits. -/
def hexFault (rest : List Char) (p : Place) : Fault :=
  match p.afterBytes? 4 rest with
  | some q => ⟨.invalidEscape, q⟩
  | none => ⟨.endInString, p.afterAll rest⟩

/-- The place so many bytes further on in the same line. -/
def Place.shift (p : Place) (n : Nat) : Place := ⟨p.line, p.column + n⟩

/-- The cursor behind the closing quote. -/
def skipString : List Char → Place → Except Fault Cursor
  | [], p => .error ⟨.endInString, p⟩
  | c :: rest, p =>
    if c = '"' then .ok ⟨rest, p.shift 1⟩
    else if c = '\\' then
      match rest with
      | [] => .error ⟨.endInString, p.shift 1⟩
      | e :: more =>
        if e = 'u' then
          match more with
          | h₁ :: h₂ :: h₃ :: h₄ :: tail =>
            match fourDigits? h₁ h₂ h₃ h₄ with
            | some _ => skipString tail (p.shift 6)
            | none => .error (hexFault more (p.shift 2))
          | _ => .error (hexFault more (p.shift 2))
        else if (shortEscape? e).isSome then skipString more (p.shift 2)
        else .error ⟨.invalidEscape, (p.shift 1).afterByte e⟩
    else if c.toNat < 32 then .error ⟨.controlCharacter, p⟩
    else skipString rest (p.after c)

/-- The fault of the first half of a surrogate pair without a second one. -/
def pairFault (rest : List Char) (p : Place) : Fault :=
  match rest with
  | [] => ⟨.endInString, p⟩
  | '\\' :: [] => ⟨.endInString, p.shift 1⟩
  | '\\' :: 'u' :: more =>
    match more with
    | h₁ :: h₂ :: h₃ :: h₄ :: _ =>
      match fourDigits? h₁ h₂ h₃ h₄ with
      | some _ => ⟨.loneSurrogate, p.shift 6⟩
      | none => hexFault more (p.shift 2)
    | _ => hexFault more (p.shift 2)
  | '\\' :: c :: _ => ⟨.endOfHexEscape, (p.shift 1).afterByte c⟩
  | c :: _ => ⟨.endOfHexEscape, p.afterByte c⟩

/-- Whether a number is the first half of a surrogate pair. -/
def isHighSurrogate (n : Nat) : Bool := 0xD800 ≤ n && n ≤ 0xDBFF

/-- Whether a number is the second half of a surrogate pair. -/
def isLowSurrogate (n : Nat) : Bool := 0xDC00 ≤ n && n ≤ 0xDFFF

/-- The second half of a pair, if it stands at the front. -/
def secondHalf? : List Char → Option Nat
  | '\\' :: 'u' :: h₁ :: h₂ :: h₃ :: h₄ :: _ => do
    let n ← fourDigits? h₁ h₂ h₃ h₄
    if isLowSurrogate n then some n else none
  | _ => none

/-- Puts a character in front of what was read. -/
def consRead (c : Char) : Except Fault (List Char) → Except Fault (List Char)
  | .ok cs => .ok (c :: cs)
  | .error e => .error e

/-- The text of a string. -/
def readString : List Char → Place → Except Fault (List Char)
  | [], p => .error ⟨.endInString, p⟩
  | c :: rest, p =>
    if c = '"' then .ok []
    else if c = '\\' then
      match rest with
      | [] => .error ⟨.endInString, p.shift 1⟩
      | e :: more =>
        if e = 'u' then
          match more with
          | h₁ :: h₂ :: h₃ :: h₄ :: tail =>
            match fourDigits? h₁ h₂ h₃ h₄ with
            | some n =>
              if isLowSurrogate n then .error ⟨.loneSurrogate, p.shift 6⟩
              else if isHighSurrogate n then
                match secondHalf? tail, tail with
                | some m, _ :: _ :: _ :: _ :: _ :: _ :: after =>
                  consRead (Char.ofNat ((n - 0xD800) * 0x400 + (m - 0xDC00) + 0x10000))
                    (readString after (p.shift 12))
                | _, _ => .error (pairFault tail (p.shift 6))
              else consRead (Char.ofNat n) (readString tail (p.shift 6))
            | none => .error (hexFault more (p.shift 2))
          | _ => .error (hexFault more (p.shift 2))
        else
          match shortEscape? e with
          | some d => consRead d (readString more (p.shift 2))
          | none => .error ⟨.invalidEscape, (p.shift 1).afterByte e⟩
    else if c.toNat < 32 then .error ⟨.controlCharacter, p.afterByte c⟩
    else consRead c (readString rest (p.after c))

end AndroidAudit.Json
