import Mathlib.Data.Option.Basic
import AndroidAudit.Document.JsonReading
import AndroidAudit.Proofs.JsonTrees

/-!
# Documents read from trees

A document is read item by item, and its items may be faulty in ways that only show when they are
reached. The document of a tree has no such items, so what is read from it is a function of the tree:
`Shape.ofTree?` reads a tree by its shape, and `Shape.readJson_document` says that reading the text gives
the same, errors apart. Each reader of items has its counterpart for trees and a lemma that ties the two
(`readMembers_shows`, `readCases_shows` and so on).
-/

namespace AndroidAudit.Document

open Json

/-! ## Results without their errors -/

section

variable {ε ε' α β : Type}

@[simp] theorem toOption_ok (a : α) : (Except.ok a : Except ε α).toOption = some a := rfl

@[simp] theorem toOption_pure (a : α) : (pure a : Except ε α).toOption = some a := rfl

@[simp] theorem toOption_error (e : ε) : (Except.error e : Except ε α).toOption = none := rfl

@[simp] theorem toOption_bind (x : Except ε α) (f : α → Except ε β) :
    (x >>= f).toOption = x.toOption.bind fun a => (f a).toOption := by
  cases x <;> rfl

@[simp] theorem toOption_map (f : α → β) (x : Except ε α) : (f <$> x).toOption = x.toOption.map f := by
  cases x <;> rfl

@[simp] theorem toOption_mapError (f : ε → ε') (x : Except ε α) :
    (x.mapError f).toOption = x.toOption := by
  cases x <;> rfl

theorem toOption_eq_some_iff {x : Except ε α} {a : α} : x.toOption = some a ↔ x = .ok a := by
  cases x <;> simp

theorem mapM_cons_eq_bind (f : α → Option β) (a : α) (as : List α) :
    (a :: as).mapM f = (f a).bind fun b => (as.mapM f).map (b :: ·) := by
  simp [Option.map_eq_bind]

end

/-! ## Reading trees -/

/-- A number as it is found. -/
def foundNumber : Number → Buffered
  | .nat n => .nat n
  | .neg n => .neg n
  | .float f => .float f

/-- What a tree is at first sight. -/
def glance? : Tree → Option Buffered
  | .null => some .null
  | .bool b => some (.bool b)
  | .number numeral => (numberOf? numeral).map foundNumber
  | .text body => (textOf? body).map .text
  | .array _ => some (.sequence [])
  | .object _ => some (.map [])

/-- The depth inside a list or object. -/
def enter? (depth : Nat) : Option Nat := if depth ≤ 1 then none else some (depth - 1)

mutual

/-- Keeps a value. -/
def buffer? (depth : Nat) : Tree → Option Buffered
  | .array ts => (enter? depth).bind fun depth => (bufferItems? depth ts).map .sequence
  | .object ms => (enter? depth).bind fun depth => (bufferMembers? depth ms).map .map
  | t => glance? t

/-- Keeps items. -/
def bufferItems? (depth : Nat) : List Tree → Option (List Buffered)
  | [] => some []
  | t :: ts => (buffer? depth t).bind fun v => (bufferItems? depth ts).map (v :: ·)

/-- Keeps members. -/
def bufferMembers? (depth : Nat) : List (List Char × Tree) → Option (List (Buffered × Buffered))
  | [] => some []
  | (name, t) :: ms => (textOf? name).bind fun k => (buffer? depth t).bind fun v =>
      (bufferMembers? depth ms).map ((.text k, v) :: ·)

end

/-- Reads a word that names something. -/
def readWord? : Tree → Option String
  | .text body => textOf? body
  | _ => none

/-- Reads a word out of a list: a string, or an object with the word as its only name and null as its
value. -/
def readChoice? (words : List String) (depth : Nat) : Tree → Option (Fin words.length)
  | .text body => (textOf? body).bind fun word => (wordIndex words word).toOption
  | .object [(name, .null)] => (enter? depth).bind fun _ => (textOf? name).bind fun word =>
      (wordIndex words word).toOption
  | _ => none

/-- Reads members one after the other. -/
def readMembers? {σ : Type} (put : String → Tree → σ → Option σ) (ms : List (List Char × Tree))
    (vs : σ) : Option σ :=
  ms.foldlM (fun vs m => (textOf? m.1).bind fun key => put key m.2 vs) vs

theorem readMembers?_cons {σ : Type} (put : String → Tree → σ → Option σ) (name : List Char) (t : Tree)
    (ms : List (List Char × Tree)) (vs : σ) : readMembers? put ((name, t) :: ms) vs =
      (textOf? name).bind fun key => (put key t vs).bind (readMembers? put ms) := by
  rw [readMembers?, List.foldlM_cons]
  exact Option.bind_assoc _ _ _

/-- Reads a member of a table. -/
def readNamed? {β : Type} (read : Tree → Option β) (m : List Char × Tree) : Option (String × β) :=
  (textOf? m.1).bind fun key => (read m.2).map (Prod.mk key)

/-- Which kind a tag names. -/
def readTag? (cases : List Case) (t : Tree) : Option (Fin cases.length) :=
  (readWord? t).bind fun word => (caseIndex cases word).toOption

/-- The tag that is found, of which there may be only one. -/
def findTag? {α : Type} : Option α → List (Option α) → Option (Option α)
  | found, [] => some found
  | none, tag :: tags => tag.bind fun a => findTag? (some a) tags
  | some _, _ :: _ => none

/-- Whether a member has a name. -/
def isNamed (name : String) (m : List Char × Tree) : Bool := textOf? m.1 == some name

/-- Reads a tagged record. -/
def readCases? (name tag : String) (cases : List Case) (depth : Nat) :
    Tree → Option (CasesValue cases)
  | .object ms => (enter? depth).bind fun depth =>
      (findTag? none ((ms.filter (isNamed tag)).map (readTag? cases ·.2))).bind fun found =>
        (bufferMembers? depth (ms.filter (!isNamed tag ·))).bind fun vs =>
          found.bind fun index => (readCase name cases index (.map vs)).toOption
  | .array (t :: ts) => (enter? depth).bind fun depth => (readTag? cases t).bind fun index =>
      (bufferItems? depth ts).bind fun vs => (readCase name cases index (.sequence vs)).toOption
  | _ => none

mutual

/-- Reads a tree by its shape, with so much depth left. -/
def Shape.ofTree? : (s : Shape) → Nat → Tree → Option s.Value
  | .scalar s, _, t => (glance? t).bind fun b => (s.read b).toOption
  | .list item, depth, t =>
    match t with
    | .array ts => (enter? depth).bind fun depth => ts.mapM (item.ofTree? depth)
    | _ => none
  | .table item, depth, t =>
    match t with
    | .object ms => (enter? depth).bind fun depth => ms.mapM (readNamed? (item.ofTree? depth))
    | _ => none
  | .choice words, depth, t => readChoice? words depth t
  | .record _ fields, depth, t =>
    match t with
    | .object ms => (enter? depth).bind fun depth =>
        (readMembers? (fields.putMember? depth) ms fields.blank).bind fun vs => (fields.settle vs).toOption
    | .array ts => (enter? depth).bind fun depth => fields.ofTrees? depth ts
    | _ => none
  | .tagged name tag cases, depth, t => readCases? name tag cases depth t

/-- What becomes of a record with these fields when a member is read. -/
def Fields.putMember? : (f : Fields) → Nat → String → Tree → f.Partial → Option f.Partial
  | .done, _, _, _, vs => some vs
  | .field name _ s rest, depth, key, t, (v, vs) =>
    if key = name then
      match v with
      | some _ => none
      | none => (s.ofTree? depth t).map fun a => (some a, vs)
    else (rest.putMember? depth key t vs).map (Prod.mk v)

/-- Reads the fields of a record from the items of a list. -/
def Fields.ofTrees? : (f : Fields) → Nat → List Tree → Option f.Value
  | .done, _, ts => if ts.isEmpty then some () else none
  | .field name p s rest, depth, t :: ts =>
    (s.ofTree? depth t).bind fun v => (p.settle name (some v)).toOption.bind fun v =>
      (rest.ofTrees? depth ts).map (Prod.mk v)
  | .field name p s rest, depth, [] =>
    (p.settle name (none : Option s.Value)).toOption.bind fun v =>
      (rest.ofTrees? depth []).map (Prod.mk v)

end

/-! ## Items that show trees -/

theorem glance_shows {i : Item} {t : Tree} (h : i.Shows t) : (glance i).toOption = glance? t := by
  cases h with
  | null => rfl
  | bool => rfl
  | @number value _ _ _ h =>
    rw [glance?, ← h]
    cases value with
    | error f => rfl
    | ok n => cases n <;> rfl
  | @text content _ _ _ h =>
    rw [glance?, ← h]
    cases content <;> rfl
  | array => rfl
  | object => rfl

theorem toOption_enter (depth : Nat) (start : Cursor) : (enter depth start).toOption = enter? depth := by
  rw [enter, enter?]
  split <;> rfl

mutual

theorem skip_shows {i : Item} {t : Tree} : i.Shows t → i.skip = .ok ()
  | .null _ _ | .bool _ _ _ | .number _ _ _ | .text _ _ _ => rfl
  | .array _ _ h => by
    rw [Item.skip, Form.skip, skipItems_shows h]
    rfl
  | .object _ _ _ h => by
    rw [Item.skip, Form.skip, skipMembers_shows h]
    rfl

theorem skipItems_shows {c : Cursor} {items : List Item} {ts : List Tree} :
    ItemsShow c items ts → skipItems items = .ok ()
  | .nil _ => rfl
  | .cons _ h hs => by
    rw [skipItems, skip_shows h]
    exact skipItems_shows hs

theorem skipMembers_shows {c : Cursor} {members : List Member} {ms : List (List Char × Tree)} :
    MembersShow c members ms → skipMembers members = .ok ()
  | .nil _ => rfl
  | .cons _ _ h hs => by
    rw [skipMembers, skip_shows h]
    exact skipMembers_shows hs

end

mutual

theorem bufferItem_shows {i : Item} {t : Tree} (depth : Nat) :
    i.Shows t → (bufferItem depth i).toOption = buffer? depth t
  | .null start stop => glance_shows (.null start stop)
  | .bool b start stop => glance_shows (.bool b start stop)
  | .number start stop h => glance_shows (.number start stop h)
  | .text start stop h => glance_shows (.text start stop h)
  | .array start stop h => by
    simp [bufferItem, bufferForm, buffer?, toOption_enter, readFinish, fun d => bufferItems_shows d h,
      Option.map_eq_bind]
  | .object start stop _ h => by
    simp [bufferItem, bufferForm, buffer?, toOption_enter, readFinish, fun d => bufferMembers_shows d h,
      Option.map_eq_bind]

theorem bufferItems_shows {c : Cursor} {items : List Item} {ts : List Tree} (depth : Nat) :
    ItemsShow c items ts → (bufferItems depth items).toOption = bufferItems? depth ts
  | .nil _ => rfl
  | .cons _ h hs => by
    simp [bufferItems, bufferItems?, bufferItem_shows depth h, bufferItems_shows depth hs]

theorem bufferMembers_shows {c : Cursor} {members : List Member} {ms : List (List Char × Tree)}
    (depth : Nat) : MembersShow c members ms →
      (bufferMembers depth members).toOption = bufferMembers? depth ms
  | .nil _ => rfl
  | .cons _ hkey h hs => by
    simp [bufferMembers, bufferMembers?, bufferItem_shows depth h, bufferMembers_shows depth hs, ← hkey,
      Option.bind_map]

end

/-! ## Words -/

theorem readWord_shows {i : Item} {t : Tree} (h : i.Shows t) : (readWord i).toOption = readWord? t := by
  rw [readWord, toOption_bind, glance_shows h]
  cases t with
  | number numeral =>
    cases hn : numberOf? numeral with
    | none => simp [glance?, readWord?, hn]
    | some n => cases n <;> simp [glance?, readWord?, hn, foundNumber]
  | text body => cases hs : textOf? body <;> simp [glance?, readWord?, hs]
  | _ => simp [glance?, readWord?]

theorem readWordIndex_shows {words : List String} {i : Item} {t : Tree} (h : i.Shows t) :
    (readWordIndex words i).toOption =
      (readWord? t).bind fun word => (wordIndex words word).toOption := by
  simp [readWordIndex, readWord_shows h]

theorem readTag_shows {cases : List Case} {i : Item} {t : Tree} (h : i.Shows t) :
    (readTag cases i).toOption = readTag? cases t := by
  simp [readTag, readTag?, readWord_shows h]

/-- The first name of an object is read where it stands. -/
theorem readNameIndex_opens {words : List String} {c : Cursor} {name : List Char} {t : Tree}
    {ms : List (List Char × Tree)} (h : Opens c ((name, t) :: ms)) :
    (readNameIndex words c).toOption =
      (textOf? name).bind fun word => (wordIndex words word).toOption := by
  obtain ⟨hname, tail, q, hskip⟩ := h
  rw [readNameIndex, hskip]
  exact readWordIndex_shows (item_string hname tail q)

theorem toOption_wrongType {α : Type} (i : Item) (expected : String) :
    (wrongType i expected : Except JsonError α).toOption = none := by
  simp [wrongType]

theorem foundNumber_ne_null (n : Number) : foundNumber n ≠ .null := by
  cases n <;> simp [foundNumber]

/-- At first sight, only null is null. -/
theorem glance?_ne_null {t : Tree} (h : t ≠ .null) : glance? t ≠ some .null := by
  cases t with
  | null => exact absurd rfl h
  | number numeral =>
    intro hglance
    obtain ⟨n, -, hn⟩ := Option.map_eq_some_iff.mp hglance
    exact foundNumber_ne_null n hn
  | text body =>
    intro hglance
    obtain ⟨s, -, hs⟩ := Option.map_eq_some_iff.mp hglance
    cases hs
  | _ => simp [glance?]

theorem readChoice_shows {words : List String} {i : Item} {t : Tree} (depth : Nat) (h : i.Shows t) :
    (readChoice words depth i).toOption = readChoice? words depth t := by
  cases h with
  | text start stop h => exact readWordIndex_shows (.text start stop h)
  | object start stop hopens hmembers =>
    cases hmembers with
    | nil => simp [readChoice, readChoice?, Item.form]
    | @cons _ _ _ value name t members ms _ hkey hvalue hrest =>
      simp only [readChoice, Item.form, Item.start, toOption_bind, toOption_enter,
        readNameIndex_opens hopens, glance_shows hvalue]
      by_cases ht : t = .null
      · subst ht
        cases hrest with
        | nil hahead =>
          obtain ⟨rest, hclose⟩ := List.head?_eq_some_iff.mp hahead
          simp [glance?, readChoice?, hclose]
        | cons hahead =>
          -- another member comes next, which the reader refuses
          simp only [glance?, Option.bind_some]
          split
          · rename_i hclose
            exact absurd (congrArg List.head? hclose) hahead
          · simp [readChoice?]
          · simp [readChoice?]
      · have hnone : readChoice? words depth (.object ((name, t) :: ms)) = none := by
          cases t with
          | null => exact absurd rfl ht
          | _ => rfl
        rw [hnone]
        cases hglance : glance? t with
        | none => simp
        | some b =>
          have hb : b ≠ .null := by
            rintro rfl
            exact glance?_ne_null ht hglance
          cases b with
          | null => exact absurd rfl hb
          | _ => simp [toOption_wrongType]
  | _ => rfl

/-! ## Lists and objects -/

section

variable {α : Type} {read : Item → Except JsonError α} {read' : Tree → Option α}

theorem readItems_shows (hread : ∀ {i t}, Item.Shows i t → (read i).toOption = read' t) {c : Cursor}
    {items : List Item} {ts : List Tree} (h : ItemsShow c items ts) :
    (readItems read items).toOption = ts.mapM read' := by
  induction items generalizing c ts with
  | nil => cases h; rfl
  | cons i items ih =>
    cases h with
    | cons _ hi hrest =>
      rw [mapM_cons_eq_bind, ← hread hi, ← ih hrest]
      simp [readItems, settleItem]

theorem readTable_shows (hread : ∀ {i t}, Item.Shows i t → (read i).toOption = read' t) {c : Cursor}
    {members : List Member} {ms : List (List Char × Tree)} (h : MembersShow c members ms) :
    (readTable read members).toOption = ms.mapM (readNamed? read') := by
  induction members generalizing c ms with
  | nil => cases h; rfl
  | cons m members ih =>
    cases h with
    | cons _ hkey hi hrest =>
      rw [mapM_cons_eq_bind, readNamed?, ← hread hi, ← ih hrest, ← hkey]
      simp [readTable, settleMember, Option.bind_map, Option.bind_assoc]

end

/-- What comes of a member of a record. -/
def Put.outcome? {σ : Type} (vs : σ) (i : Item) : Put σ → Option σ
  | .unknown => some vs
  | .taken => none
  | .free store => (store i).toOption

theorem readMembers_shows {σ : Type} {put : String → σ → Put σ} {put' : String → Tree → σ → Option σ}
    (hput : ∀ {i t}, Item.Shows i t → ∀ key vs, (put key vs).outcome? vs i = put' key t vs) {c : Cursor}
    {members : List Member} {ms : List (List Char × Tree)} (h : MembersShow c members ms) (vs : σ) :
    (readMembers put members vs).toOption = readMembers? put' ms vs := by
  induction members generalizing c ms vs with
  | nil => cases h; rfl
  | cons m members ih =>
    cases h with
    | @cons _ _ key i name t _ ms _ hkey hi hrest =>
      rw [readMembers, readMembers?_cons, ← hkey]
      cases key with
      | error f => rfl
      | ok k =>
        simp only [toOption_ok, Option.map_some, Option.bind_some, ← hput hi, toOption_bind,
          toOption_mapError]
        cases put (String.ofList k) vs with
        | unknown => simp [Put.outcome?, skip_shows hi, ih hrest]
        | taken => rfl
        | free store => simp [Put.outcome?, settleMember, ih hrest]

/-! ## Tagged records -/

/-- The tag is found wherever it stands among the members, and the others are kept. -/
theorem readTagged_shows {tag : String} {cases : List Case} {depth : Nat} {c : Cursor}
    {members : List Member} {ms : List (List Char × Tree)} (h : MembersShow c members ms)
    (found : Option (Fin cases.length)) :
    (readTagged tag cases depth members found).toOption =
      (findTag? found ((ms.filter (isNamed tag)).map (readTag? cases ·.2))).bind fun found =>
        (bufferMembers? depth (ms.filter (!isNamed tag ·))).map (Prod.mk found) := by
  induction members generalizing c ms found with
  | nil => cases h; rfl
  | cons m members ih =>
    cases h with
    | @cons _ _ key i name t _ ms _ hkey hi hrest =>
      simp only [readTagged]
      cases key with
      | error f =>
        have hname : textOf? name = none := hkey.symm
        have hother : isNamed tag (name, t) = false := by simp [isNamed, hname]
        simp [hother, bufferMembers?, hname]
      | ok k =>
        have hname : textOf? name = some (String.ofList k) := hkey.symm
        by_cases htag : String.ofList k = tag
        · have hnamed : isNamed tag (name, t) = true := by simp [isNamed, hname, htag]
          cases found with
          | some index => simp [hnamed, htag, findTag?, settleMember]
          | none =>
            simp [hnamed, htag, findTag?, readTag_shows hi, ih hrest, Option.bind_assoc]
        · have hother : isNamed tag (name, t) = false := by simp [isNamed, hname, htag]
          simp only [hother, htag, bufferMembers?, hname, bufferItem_shows depth hi, ih hrest, toOption_ok,
            toOption_bind, toOption_mapError, toOption_pure, Option.bind_some, List.filter_cons, if_false,
            Bool.false_eq_true, Bool.not_false, if_true]
          cases buffer? depth t with
          | none => simp
          | some v => simp [Option.map_eq_bind, Option.bind_assoc]

theorem readCases_shows {name tag : String} {cases : List Case} {depth : Nat} {i : Item} {t : Tree}
    (h : i.Shows t) : (readCases name tag cases depth i).toOption = readCases? name tag cases depth t := by
  cases h with
  | array start stop h =>
    cases h with
    | nil => simp [readCases, readCases?, Item.form, readFinish]
    | cons _ hi hrest =>
      simp [readCases, readCases?, Item.form, Item.start, toOption_enter, readFinish, readTag_shows hi,
        fun d => bufferItems_shows d hrest]
  | object start stop _ h =>
    simp only [readCases, readCases?, Item.form, Item.start, toOption_enter, readFinish, toOption_bind,
      toOption_ok, Option.bind_some, fun d => @readTagged_shows tag cases d _ _ _ h none, Option.bind_assoc,
      Option.bind_map, Function.comp_def]
    refine Option.bind_congr fun d _ => Option.bind_congr fun found _ => Option.bind_congr fun vs _ => ?_
    cases found <;> simp
  | _ => simp [readCases, readCases?, Item.form, toOption_wrongType]

/-! ## Documents -/

theorem endList_eq_none_iff {c : Cursor} : c.endList.2 = none ↔ c.ahead? = some ']' := by
  rw [Cursor.endList, Cursor.ahead?]
  split
  · rename_i hrest
    simp [hrest]
  · rename_i hrest
    simp [hrest]
  · rename_i hrest
    rw [hrest]
    dsimp only
    split <;> simp
  · rename_i hclose _
    cases hrest : c.skipBlank.rest with
    | nil => simp
    | cons d rest =>
      have hd : d ≠ ']' := by
        rintro rfl
        exact hclose rest hrest
      simpa using hd

mutual

/-- An item is read as the tree it shows. -/
theorem Shape.readItem_shows : (s : Shape) → (depth : Nat) → {i : Item} → {t : Tree} → i.Shows t →
    (s.readItem depth i).toOption = s.ofTree? depth t
  | .scalar s, depth, i, t, h => by
    simp [Shape.readItem, Shape.ofTree?, Scalar.readItem, glance_shows h]
  | .list item, depth, i, t, h => by
    have hread (d : Nat) {i : Item} {t : Tree} (h : i.Shows t) := item.readItem_shows d h
    cases h with
    | array start stop h =>
      simp [Shape.readItem, Shape.ofTree?, Item.form, Item.start, toOption_enter, readFinish,
        fun d => readItems_shows (hread d) h]
    | _ => simp [Shape.readItem, Shape.ofTree?, Item.form, toOption_wrongType]
  | .table item, depth, i, t, h => by
    have hread (d : Nat) {i : Item} {t : Tree} (h : i.Shows t) := item.readItem_shows d h
    cases h with
    | object start stop _ h =>
      simp [Shape.readItem, Shape.ofTree?, Item.form, Item.start, toOption_enter, readFinish,
        fun d => readTable_shows (hread d) h]
    | _ => simp [Shape.readItem, Shape.ofTree?, Item.form, toOption_wrongType]
  | .choice words, depth, i, t, h => by
    rw [Shape.readItem, Shape.ofTree?]
    exact readChoice_shows depth h
  | .record name fields, depth, i, t, h => by
    have hput (d : Nat) {i : Item} {t : Tree} (h : i.Shows t) := fields.put_shows d h
    cases h with
    | object start stop _ h =>
      simp [Shape.readItem, Shape.ofTree?, Item.form, Item.start, toOption_enter, readFinish,
        fun d => readMembers_shows (hput d) h]
    | array start stop h =>
      have hpositions (d : Nat) (expected : String) := fields.readPositions_shows d expected 0 stop h
      simp [Shape.readItem, Shape.ofTree?, Item.form, Item.start, toOption_enter, hpositions]
    | _ => simp [Shape.readItem, Shape.ofTree?, Item.form, toOption_wrongType]
  | .tagged name tag cases, depth, i, t, h => by
    rw [Shape.readItem, Shape.ofTree?]
    exact readCases_shows h

theorem Fields.put_shows : (f : Fields) → (depth : Nat) → {i : Item} → {t : Tree} → i.Shows t →
    (key : String) → (vs : f.Partial) → (f.put depth key vs).outcome? vs i = f.putMember? depth key t vs
  | .done, _, _, _, _, _, _ => rfl
  | .field name p s rest, depth, i, t, h, key, (v, vs) => by
    have hrest := rest.put_shows depth h key vs
    have hread := s.readItem_shows depth h
    simp only [Fields.put, Fields.putMember?]
    by_cases hkey : key = name
    · rw [if_pos hkey, if_pos hkey]
      cases v with
      | some a => rfl
      | none => simp [Put.outcome?, hread]
    · rw [if_neg hkey, if_neg hkey, ← hrest]
      cases rest.put depth key vs with
      | unknown => rfl
      | taken => rfl
      | free store => simp [Put.outcome?]

theorem Fields.readPositions_shows : (f : Fields) → (depth : Nat) → (expected : String) → (n : Nat) →
    (stop : Cursor) → {c : Cursor} → {items : List Item} → {ts : List Tree} → ItemsShow c items ts →
    (f.readPositions depth expected n items (.closed stop) c).toOption = f.ofTrees? depth ts
  | .done, depth, expected, n, stop, c, items, ts, h => by
    rw [Fields.readPositions, Fields.ofTrees?]
    cases h with
    | nil hahead =>
      rw [endList_eq_none_iff.mpr hahead]
      rfl
    | cons hahead =>
      cases hend : c.endList.2 with
      | none => exact absurd (endList_eq_none_iff.mp hend) hahead
      | some f => rfl
  | .field name p s rest, depth, expected, n, stop, c, items, ts, h => by
    cases h with
    | nil hahead =>
      have hrest := rest.readPositions_shows depth expected (n + 1) stop (.nil hahead)
      simp [Fields.readPositions, Fields.ofTrees?, readFinish, hrest]
    | cons _ hi hs =>
      have hrest := rest.readPositions_shows depth expected (n + 1) stop hs
      have hread := s.readItem_shows depth hi
      simp [Fields.readPositions, Fields.ofTrees?, settleItem, hread, hrest]

end

/-- A document is read as its tree. -/
theorem Shape.readJson_document (s : Shape) {t : Tree} {document : List Char}
    (h : t.IsDocument document) : (s.readJson document).toOption = s.ofTree? depthLimit t := by
  obtain ⟨hshow, hrest⟩ := h.shows
  rw [Shape.readJson, toOption_bind, s.readItem_shows depthLimit hshow]
  simp [hrest]

end AndroidAudit.Document
