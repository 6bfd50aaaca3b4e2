import AndroidAudit.Json.Basic
import AndroidAudit.Json.Quotation
import AndroidAudit.Json.Number

/-!
# Documents with their places

A text is first taken apart into an `Item` without regard to what it should hold. Each part keeps the
cursor where it starts and the one where it stops, so that whoever gives it a meaning can say where
something is wrong. Where the text breaks a rule of syntax the tree has a broken part, which holds the
fault met by one who wants the value and the fault met by one who only passes over it: these differ
now and then.
-/

namespace AndroidAudit.Json

/-- How a list or an object ends. -/
inductive Finish where
  | closed (stop : Cursor)
  | broken (read skip : Fault)

mutual

/-- A value and where it starts. -/
inductive Item where
  | mk (start : Cursor) (form : Form)

/-- The forms of values. -/
inductive Form where
  | null (stop : Cursor)
  | bool (b : Bool) (stop : Cursor)
  /-- A number, which may be out of range. -/
  | number (value : Except Fault Number) (stop : Cursor)
  /-- A string, which may be no text. -/
  | text (content : Except Fault (List Char)) (stop : Cursor)
  | array (items : List Item) (finish : Finish)
  | object (members : List Member) (finish : Finish)
  | broken (read skip : Fault)
  /-- Not even the colon that comes before a value. -/
  | absent (fault : Fault)

/-- A member of an object. -/
inductive Member where
  /-- A name, the cursor behind it, and a value. -/
  | mk (key : Except Fault (List Char)) (keyStop : Cursor) (value : Item)

end

/-- Where a value starts. -/
def Item.start : Item → Cursor
  | .mk c _ => c

/-- The form of a value. -/
def Item.form : Item → Form
  | .mk _ f => f

/-- The cursor behind a value that is whole. -/
def Form.stop? : Form → Option Cursor
  | .null c | .bool _ c | .number _ c | .text _ c => some c
  | .array _ (.closed c) | .object _ (.closed c) => some c
  | .array _ (.broken _ _) | .object _ (.broken _ _) | .broken _ _ | .absent _ => none

/-- The cursor behind a value. A value that is not whole has none, and its start stands in. -/
def Item.stop (i : Item) : Cursor := i.form.stop?.getD i.start

/-! ## Passing over values -/

/-- The fault of one who passes over the end of a list or an object. -/
def Finish.skip : Finish → Except Fault Unit
  | .closed _ => .ok ()
  | .broken _ f => .error f

mutual

/-- The fault of one who passes over a value. -/
def Item.skip : Item → Except Fault Unit
  | .mk _ f => f.skip

/-- The fault of one who passes over a form. -/
def Form.skip : Form → Except Fault Unit
  | .null _ | .bool _ _ | .number _ _ | .text _ _ => .ok ()
  | .array items finish => match skipItems items with
    | .ok () => finish.skip
    | .error f => .error f
  | .object members finish => match skipMembers members with
    | .ok () => finish.skip
    | .error f => .error f
  | .broken _ f | .absent f => .error f

/-- The first fault of one who passes over items. -/
def skipItems : List Item → Except Fault Unit
  | [] => .ok ()
  | i :: rest => match i.skip with
    | .ok () => skipItems rest
    | .error f => .error f

/-- The first fault of one who passes over members. -/
def skipMembers : List Member → Except Fault Unit
  | [] => .ok ()
  | .mk _ _ i :: rest => match i.skip with
    | .ok () => skipMembers rest
    | .error f => .error f

end

/-! ## Taking a text apart -/

/-- The rest of a word that is a value. -/
def scanWord : List Char → Cursor → Except Fault Cursor
  | [], c => .ok c
  | w :: word, c =>
    match c.rest with
    | [] => .error (c.faultHere .endInValue)
    | d :: _ => if d = w then scanWord word c.next else .error (c.faultAhead .expectedWord)

/-- A word that is a value. -/
def wordForm (word : List Char) (make : Cursor → Form) (c : Cursor) : Form :=
  match scanWord word c with
  | .ok stop => make stop
  | .error f => .broken f f

/-- A string, from behind its opening quote. -/
def stringForm (c : Cursor) : Form :=
  match skipString c.rest c.place, readString c.rest c.place with
  | .ok stop, content => .text content stop
  | .error skip, .error read => .broken read skip
  | .error skip, .ok _ => .broken skip skip

/-- A number. -/
def numberForm (c : Cursor) : Form :=
  match scanNumber c with
  | .whole value stop => .number value stop
  | .broken read skip => .broken read skip

mutual

/-- The value at the front. The number bounds how deep and how far it goes. -/
def scanItem : Nat → Cursor → Item
  | 0, c => .mk c (.broken (c.faultAhead .endInValue) (c.faultAhead .endInValue))
  | fuel + 1, before =>
    let c := before.skipBlank
    let broken (e : SyntaxError) : Form := .broken (c.faultAhead e) (c.faultAhead e)
    .mk c <| match c.rest with
      | [] => broken .endInValue
      | d :: _ =>
        if d = 'n' then wordForm nullText .null c
        else if d = 't' then wordForm (boolText true) (.bool true) c
        else if d = 'f' then wordForm (boolText false) (.bool false) c
        else if d = '"' then stringForm c.next
        else if d = '[' then
          let (items, finish) := scanItems fuel true c.next
          .array items finish
        else if d = '\x7b' then
          let (members, finish) := scanMembers fuel true c.next
          .object members finish
        else if d = '-' || isDigit d then numberForm c
        else broken .expectedValue

/-- The items of a list, from behind its bracket or behind an item. -/
def scanItems : Nat → Bool → Cursor → List Item × Finish
  | 0, _, c => ([], .broken (c.faultAhead .endInList) (c.faultAhead .endInList))
  | fuel + 1, first, before =>
    let c := before.skipBlank
    let broken (e : SyntaxError) : List Item × Finish :=
      ([], .broken (c.faultAhead e) (c.faultAhead e))
    let go (c : Cursor) : List Item × Finish :=
      let item := scanItem fuel c
      match item.form.stop? with
      | none => ([item], .broken (c.faultAhead .endInList) (c.faultAhead .endInList))
      | some stop =>
        let (items, finish) := scanItems fuel false stop
        (item :: items, finish)
    match c.rest with
    | [] => broken .endInList
    | d :: _ =>
      if d = ']' then ([], .closed c.next)
      else if first then go c
      else if d = ',' then
        let c := c.next.skipBlank
        match c.rest with
        | ']' :: _ => ([], .broken (c.faultAhead .trailingComma) (c.faultAhead .expectedValue))
        | _ => go c
      else broken .expectedListComma

/-- The members of an object, from behind its bracket or behind a member. -/
def scanMembers : Nat → Bool → Cursor → List Member × Finish
  | 0, _, c => ([], .broken (c.faultAhead .endInObject) (c.faultAhead .endInObject))
  | fuel + 1, first, before =>
    let c := before.skipBlank
    let broken (e : SyntaxError) : List Member × Finish :=
      ([], .broken (c.faultAhead e) (c.faultAhead e))
    -- a member, from behind the quote of its name
    let go (c : Cursor) : List Member × Finish :=
      match skipString c.rest c.place, readString c.rest c.place with
      | .error skip, .error read => ([], .broken read skip)
      | .error skip, .ok _ => ([], .broken skip skip)
      | .ok stop, key =>
        let c := stop.skipBlank
        let item : Item := match c.rest with
          | [] => .mk c (.absent (c.faultAhead .endInObject))
          | d :: _ =>
            if d = ':' then scanItem fuel c.next
            else .mk c (.absent (c.faultAhead .expectedColon))
        match item.form.stop? with
        | none => ([.mk key stop item],
            .broken (c.faultAhead .endInObject) (c.faultAhead .endInObject))
        | some after =>
          let (members, finish) := scanMembers fuel false after
          (.mk key stop item :: members, finish)
    match c.rest with
    | [] => broken .endInObject
    | d :: _ =>
      if d = '\x7d' then ([], .closed c.next)
      else if first then
        if d = '"' then go c.next else broken .keyMustBeString
      else if d = ',' then
        let c := c.next.skipBlank
        match c.rest with
        | [] => ([], .broken (c.faultAhead .endInValue) (c.faultAhead .endInObject))
        | '"' :: _ => go c.next
        | '\x7d' :: _ =>
          ([], .broken (c.faultAhead .trailingComma) (c.faultAhead .keyMustBeString))
        | _ => ([], .broken (c.faultAhead .keyMustBeString) (c.faultAhead .keyMustBeString))
      else broken .expectedObjectComma

end

/-- The value at a cursor. Each step of taking it apart uses up a character or is one of two for it,
so twice the length of the text is always enough. -/
def Cursor.item (c : Cursor) : Item := scanItem (2 * c.rest.length + 3) c

/-! ## Ending a list or an object early

One who has all that is wanted, or has met something wrong, still tries to end the list or object
there, and gets as far as the cursor that is given, with a fault if it does not end.
-/

/-- Ends a list at a cursor. -/
def Cursor.endList (before : Cursor) : Cursor × Option Fault :=
  let c := before.skipBlank
  match c.rest with
  | [] => (c, some (c.faultAhead .endInList))
  | ']' :: _ => (c.next, none)
  | ',' :: _ =>
    let c := c.next.skipBlank
    match c.rest with
    | ']' :: _ => (c, some (c.faultAhead .trailingComma))
    | _ => (c, some (c.faultAhead .trailingCharacters))
  | _ => (c, some (c.faultAhead .trailingCharacters))

/-- Ends an object at a cursor. -/
def Cursor.endObject (before : Cursor) : Cursor × Option Fault :=
  let c := before.skipBlank
  match c.rest with
  | [] => (c, some (c.faultAhead .endInObject))
  | '\x7d' :: _ => (c.next, none)
  | ',' :: _ => (c, some (c.faultAhead .trailingComma))
  | _ => (c, some (c.faultAhead .trailingCharacters))

end AndroidAudit.Json
