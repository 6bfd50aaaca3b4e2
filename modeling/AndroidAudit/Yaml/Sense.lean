import AndroidAudit.Decimal.Reading
import AndroidAudit.Text.Hex
import AndroidAudit.Yaml.Token

/-!
# What a scalar stands for

A scalar without quotes is taken for nothing, a truth value or a number if it looks like one. A tag
may ask for one of these.
-/

namespace AndroidAudit.Yaml

/-- What a scalar stands for. -/
inductive Sense where
  | null
  | bool (b : Bool)
  /-- A natural number of 64 bits. -/
  | nat (n : Nat)
  /-- The integer `-n`, of 64 bits. -/
  | neg (n : Nat)
  /-- An integer that needs 128 bits. -/
  | wide (n : Int)
  | float (f : Float)
  | text (s : List Char)

/-- The words for nothing. -/
def isNullWord (cs : List Char) : Bool :=
  ["null", "Null", "NULL", "~"].contains (String.ofList cs)

/-- The words for true and false. -/
def boolWord? (cs : List Char) : Option Bool :=
  let s := String.ofList cs
  if ["true", "True", "TRUE"].contains s then some true
  else if ["false", "False", "FALSE"].contains s then some false
  else none

/-- The number that digits of some base stand for. -/
def digits? (base : Nat) (cs : List Char) : Option Nat :=
  if cs.isEmpty then none
  else cs.foldl (fun n c => do
    let d ← Text.hexValue? c
    if d < base then some ((← n) * base + d) else none) (some 0)

/-- The base that two characters announce, and what comes behind them. -/
def based? : List Char → Option (Nat × List Char)
  | '0' :: 'x' :: rest => some (16, rest)
  | '0' :: 'o' :: rest => some (8, rest)
  | '0' :: 'b' :: rest => some (2, rest)
  | _ => none

/-- Digits that are no number, since a zero stands in front of them. -/
def isPadded (cs : List Char) : Bool :=
  let body := match cs with
    | '-' :: rest | '+' :: rest => rest
    | body => body
  match body with
  | '0' :: d :: rest => (d :: rest).all Decimal.isDigit
  | _ => false

/-- The natural number that a text stands for. -/
def natural? (cs : List Char) : Option Nat :=
  let body := match cs with
    | '+' :: rest => rest
    | body => body
  match based? body with
  | some (base, rest) => digits? base rest
  | none => if isPadded cs then none else digits? 10 body

/-- The magnitude of the negative number that a text stands for. -/
def negative? (cs : List Char) : Option Nat :=
  match cs with
  | '-' :: body =>
    match based? body with
    | some (base, rest) => digits? base rest
    | none => if isPadded cs then none else digits? 10 body
  | _ => none

/-- The integer that a text stands for, if it fits into 128 bits. -/
def integer? (cs : List Char) : Option Sense :=
  match natural? cs with
  | some n =>
    if n < UInt64.size then some (.nat n) else if n < Nat.pow 2 128 then some (.wide n) else none
  | none =>
    match negative? cs with
    | some n =>
      if n ≤ Nat.pow 2 63 then some (.neg n) else if n ≤ Nat.pow 2 127 then some (.wide (-n)) else none
    | none => none

/-- The floating point number that a text stands for. -/
def float? (cs : List Char) : Option Float :=
  let body := match cs with
    | '+' :: rest => if atAny ['+', '-'] rest then none else some rest
    | body => some body
  match body with
  | none => none
  | some body =>
    let s := String.ofList cs
    if [".inf", ".Inf", ".INF"].contains (String.ofList body) then some (1.0 / 0.0)
    else if ["-.inf", "-.Inf", "-.INF"].contains s then some (-1.0 / 0.0)
    else if [".nan", ".NaN", ".NAN"].contains s then some (0.0 / 0.0)
    else Decimal.read? body

/-- What a scalar without quotes and without a tag stands for. -/
def plainSense (cs : List Char) : Sense :=
  if cs.isEmpty || isNullWord cs then .null
  else match boolWord? cs with
    | some b => .bool b
    | none => match integer? cs with
      | some i => i
      | none => match if isPadded cs then none else float? cs with
        | some f => .float f
        | none => .text cs

/-- What a scalar stands for. The error is what its tag asks for in vain. -/
def sense (tag : Option Tag) (style : Style) (cs : List Char) : Except String Sense :=
  let require {α : Type} (what : String) (make : α → Sense) : Option α → Except String Sense
    | some v => .ok (make v)
    | none => .error what
  match tag with
  | none => .ok (if style = .plain then plainSense cs else .text cs)
  | some t =>
    if t = Tag.core "bool" then require "a boolean" .bool (boolWord? cs)
    else if t = Tag.core "int" then require "an integer" id (integer? cs)
    else if t = Tag.core "float" then require "a float" .float (float? cs)
    else if t = Tag.core "null" then
      require "null" (fun () => .null) (if isNullWord cs then some () else none)
    else .ok (if t.isMarked ∧ style = .plain then plainSense cs else .text cs)

end AndroidAudit.Yaml
