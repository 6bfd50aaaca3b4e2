import AndroidAudit.Text.Utf8

/-!
# Text without what steers a terminal

Sequences that start with the escape character set colours, move the cursor or name the window, and
other controls ring a bell or rub out. A text that does not go to a terminal is shown without them
(`plainText`). Blanks, line ends and all characters that have a shape are kept.
-/

namespace AndroidAudit.Text

/-- What a terminal is in the middle of. -/
inductive TerminalState where
  /-- Showing text. -/
  | ground
  /-- A character of which so many bytes are still to come. -/
  | character (left : Nat)
  | escape
  /-- Behind the escape character and a byte that goes between it and the last one. -/
  | escapeMiddle
  | controlStart
  | controlParameter
  /-- Among the bytes between the parameters and the last byte of a control sequence. -/
  | controlMiddle
  | controlIgnored
  | deviceStart
  | deviceParameter
  /-- Between the parameters and the content of a device string. -/
  | deviceMiddle
  | deviceContent
  | deviceIgnored
  /-- In a command to the system around the terminal. -/
  | systemString
  /-- In a string that is for no one. -/
  | otherString
  deriving DecidableEq, Repr

/-- What becomes of a byte. -/
inductive TerminalAction where
  | print
  /-- It starts a character of more bytes, which is shown. -/
  | start
  | execute
  | take
  deriving DecidableEq, Repr

namespace TerminalState

/-- Whether a byte is a control of its own, wherever it stands. -/
def isControl (b : UInt8) : Bool := b ≤ 0x17 || b == 0x19 || (0x1C ≤ b && b ≤ 0x1F)

/-- Whether a byte is within two others. -/
def within (b lo hi : UInt8) : Bool := lo ≤ b && b ≤ hi

/-- How many bytes a character has that starts with a byte, if it has more than one. -/
def wideCount? (b : UInt8) : Option Nat :=
  if within b 0xC2 0xDF then some 2
  else if within b 0xE0 0xEF then some 3
  else if within b 0xF0 0xF4 then some 4
  else none

/-- What a byte does where text is shown. A state is given if it changes. -/
def groundStep (b : UInt8) : Option TerminalState × TerminalAction :=
  if isControl b then (none, .execute)
  else if within b 0x20 0x7F then (none, .print)
  else match wideCount? b with
    | some n => (some (.character n), .start)
    | none => (none, .take)

/-- What a byte does behind the escape character. -/
def escapeStep (b : UInt8) : Option TerminalState × TerminalAction :=
  if isControl b then (none, .execute)
  else if within b 0x20 0x2F then (some .escapeMiddle, .take)
  else if b == 0x5B then (some .controlStart, .take)
  else if b == 0x5D then (some .systemString, .take)
  else if b == 0x50 then (some .deviceStart, .take)
  else if b == 0x58 || b == 0x5E || b == 0x5F then (some .otherString, .take)
  else if within b 0x30 0x7E then (some .ground, .take)
  else (none, .take)

/-- What a byte does in a control sequence, by what parameters and the bytes behind them lead to. -/
def controlStep (digits marks middles : Option TerminalState) (b : UInt8) :
    Option TerminalState × TerminalAction :=
  if isControl b then (none, .execute)
  else if within b 0x20 0x2F then (middles, .take)
  else if within b 0x30 0x3B then (digits, .take)
  else if within b 0x3C 0x3F then (marks, .take)
  else if within b 0x40 0x7E then (some .ground, .take)
  else (none, .take)

/-- What a byte does at the head of a device string. -/
def deviceStep (digits marks middles : Option TerminalState) (b : UInt8) :
    Option TerminalState × TerminalAction :=
  if within b 0x20 0x2F then (middles, .take)
  else if within b 0x30 0x3B then (digits, .take)
  else if within b 0x3C 0x3F then (marks, .take)
  else if within b 0x40 0x7E then (some .deviceContent, .take)
  else (none, .take)

/-- What a byte does in a state. Three bytes do the same in all of them. -/
def step (s : TerminalState) (b : UInt8) : Option TerminalState × TerminalAction :=
  if b == 0x1B then (some .escape, .take)
  else if b == 0x18 || b == 0x1A then (some .ground, .execute)
  else match s with
    | .ground | .character _ => groundStep b
    | .escape => escapeStep b
    | .escapeMiddle =>
      if isControl b then (none, .execute)
      else if within b 0x30 0x7E then (some .ground, .take)
      else (none, .take)
    | .controlStart =>
      controlStep (some .controlParameter) (some .controlParameter) (some .controlMiddle) b
    | .controlParameter => controlStep none (some .controlIgnored) (some .controlMiddle) b
    | .controlMiddle => controlStep (some .controlIgnored) (some .controlIgnored) none b
    | .controlIgnored => controlStep none none none b
    | .deviceStart =>
      deviceStep (some .deviceParameter) (some .deviceParameter) (some .deviceMiddle) b
    | .deviceParameter => deviceStep none (some .deviceIgnored) (some .deviceMiddle) b
    | .deviceMiddle => deviceStep (some .deviceIgnored) (some .deviceIgnored) none b
    | .deviceContent | .otherString => (if b == 0x9C then some .ground else none, .take)
    | .deviceIgnored => (none, .take)
    | .systemString => (if b == 0x07 then some .ground else none, .take)

end TerminalState

/-- Whether a byte is a blank or ends a line. -/
def isBlankByte (b : UInt8) : Bool :=
  b == 0x20 || b == 0x09 || b == 0x0A || b == 0x0C || b == 0x0D

/-- Whether a byte is kept that has some effect. -/
def isKept (a : TerminalAction) (b : UInt8) : Bool :=
  match a with
  | .print => b != 0x7F
  | .start => true
  | .execute => isBlankByte b
  | .take => false

/-- The state behind a byte that is shown where `s` was left off, or none if the byte is not shown. -/
def showByte (s : TerminalState) (b : UInt8) : Option TerminalState :=
  match s with
  | .character n => some (if n ≤ 1 then .ground else .character (n - 1))
  | _ =>
    match TerminalState.step .ground b with
    | (next, a) =>
      if isKept a b then
        match next with
        | some (.character n) => some (.character (n - 1))
        | _ => some (next.getD s)
      else none

/-- The bytes that are kept. A run of bytes that are shown is looked at as text from its first byte
on, whatever state a line end broke in upon, and the state is taken up again behind the run. -/
def keptBytes (showing : Bool) (s : TerminalState) : List UInt8 → List UInt8
  | [] => []
  | b :: rest =>
    match if showing then showByte s b else none with
    | some next => b :: keptBytes true next rest
    | none =>
      let s := if showing then ((TerminalState.step .ground b).1).getD s else s
      let (next, a) := s.step b
      let s := next.getD s
      if isKept a b then b :: keptBytes true ((showByte s b).getD s) rest
      else keptBytes false s rest

/-- A text without what steers a terminal. -/
def plainText (s : String) : String := (decode? (keptBytes false .ground (encode s))).getD s

end AndroidAudit.Text
