import AndroidAudit.Proofs.JsonTrees

/-!
# Taking written JSON apart

`Spelled` says how a value may be written, blanks between its parts included. A value that is written
so is taken apart into an item that says that value and nothing else (`Form.Says`), and the scan stops
behind it (`item_spelled`). Both ways of writing are spellings (`spelled_compact`,
`spelled_indented`).
-/

namespace AndroidAudit.Json

/-! ## Spellings -/

/-- The comma before what does not come first. -/
def comma (first : Bool) : List Char := if first then [] else [',']

mutual

/-- How a value may be written. -/
inductive Spelled : Json → List Char → Prop where
  | null : Spelled .null nullText
  | bool (b : Bool) : Spelled (.bool b) (boolText b)
  | number {n : Nat} : n < UInt64.size → Spelled (.number n) (digits n)
  | string (s : String) : Spelled (.string s) (quote s)
  | array {items : List Json} {body : List Char} : SpelledItems true items body →
      Spelled (.array items) ('[' :: body)
  | object {members : List (String × Json)} {body : List Char} : SpelledMembers true members body →
      Spelled (.object members) ('\x7b' :: body)

/-- How items may be written, with the bracket that ends their list. -/
inductive SpelledItems : Bool → List Json → List Char → Prop where
  | close {first : Bool} {gap : List Char} : Blank gap → SpelledItems first [] (gap ++ [']'])
  | item {first : Bool} {gap text body : List Char} {j : Json} {rest : List Json} : Blank gap →
      Spelled j text → SpelledItems false rest body →
      SpelledItems first (j :: rest) (comma first ++ (gap ++ (text ++ body)))

/-- How members may be written, with the bracket that ends their object. -/
inductive SpelledMembers : Bool → List (String × Json) → List Char → Prop where
  | close {first : Bool} {gap : List Char} : Blank gap → SpelledMembers first [] (gap ++ ['\x7d'])
  | member {first : Bool} {gap gap' text body : List Char} {k : String} {j : Json}
      {rest : List (String × Json)} : Blank gap → Blank gap' → Spelled j text →
      SpelledMembers false rest body →
      SpelledMembers first ((k, j) :: rest)
        (comma first ++ (gap ++ (quote k ++ ':' :: (gap' ++ (text ++ body)))))

end

/-! ## Spellings among all texts -/

mutual

/-- The tree of a value as it is spelled. -/
def tree : Json → Tree
  | .null => .null
  | .bool b => .bool b
  | .number n => .number (digits n)
  | .string s => .text (s.toList.flatMap escapeChar)
  | .array items => .array (itemTrees items)
  | .object members => .object (memberTrees members)

/-- The trees of items. -/
def itemTrees : List Json → List Tree
  | [] => []
  | j :: rest => j.tree :: itemTrees rest

/-- The trees of members. -/
def memberTrees : List (String × Json) → List (List Char × Tree)
  | [] => []
  | (k, j) :: rest => (k.toList.flatMap escapeChar, j.tree) :: memberTrees rest

end

theorem mem_of_shortEscape? {e c : Char} (h : shortEscape? e = some c) :
    e ∈ ['"', '\\', '/', 'b', 'f', 'n', 'r', 't'] := by
  by_contra hne
  simp only [List.mem_cons, List.not_mem_nil, or_false, not_or] at hne
  simp [shortEscape?, hne] at h

theorem hexDigits_of_fourDigits? {a b c d : Char} {n : Nat} (h : fourDigits? a b c d = some n) :
    HexDigit a ∧ HexDigit b ∧ HexDigit c ∧ HexDigit d := by
  rw [fourDigits?] at h
  obtain ⟨a', ha, h⟩ := Option.bind_eq_some_iff.mp h
  obtain ⟨b', hb, h⟩ := Option.bind_eq_some_iff.mp h
  obtain ⟨c', hc, h⟩ := Option.bind_eq_some_iff.mp h
  obtain ⟨d', hd, -⟩ := Option.bind_eq_some_iff.mp h
  exact ⟨Option.isSome_of_eq_some ha, Option.isSome_of_eq_some hb, Option.isSome_of_eq_some hc,
    Option.isSome_of_eq_some hd⟩

theorem stringBody_escapeChar (c : Char) {body : List Char} (h : StringBody body) :
    StringBody (escapeChar c ++ body) := by
  rcases escapeChar_cases c with ⟨e, hc, -, he⟩ | ⟨-, d, e, hc, hn⟩ | ⟨hc, hquote, hback, hlow⟩
  · rw [hc]
    exact .short (mem_of_shortEscape? he) h
  · rw [hc]
    obtain ⟨ha, hb, hd, he⟩ := hexDigits_of_fourDigits? hn
    exact .code ha hb hd he h
  · rw [hc]
    exact .plain hquote hback (Nat.not_lt.mp hlow) h

theorem stringBody_quote (cs : List Char) : StringBody (cs.flatMap escapeChar) := by
  induction cs with
  | nil => exact .nil
  | cons c cs ih =>
    rw [List.flatMap_cons]
    exact stringBody_escapeChar c ih

theorem textOf?_quote (s : String) : textOf? (s.toList.flatMap escapeChar) = some s := by
  rw [textOf?, readString_quote]
  exact congrArg some String.ofList_toList

theorem numeral_digits (n : Nat) : Numeral (digits n) := by
  have hdigits : Digits (digits n) := ⟨Nat.toDigits_ne_nil, fun c hc => isDigit_of_mem_digits hc⟩
  have hlead : (digits n).head? = some '0' → digits n = ['0'] := by
    intro h
    rcases Nat.eq_zero_or_pos n with rfl | hpos
    · exact Nat.toDigits_zero 10
    · exact absurd h (head?_digits hpos)
  have hnumeral : Numeral ([] ++ (digits n ++ ([] ++ []))) := .mk (by simp) ⟨hdigits, hlead⟩ .absent .absent
  simpa using hnumeral

theorem numberOf?_digits {n : Nat} (h : n < UInt64.size) : numberOf? (digits n) = some (.nat n) := by
  have hend : EndsNumber [] := fun _ h => nomatch h
  obtain ⟨q, hscan⟩ := scanNumber_digits h hend .start
  rw [List.append_nil] at hscan
  rw [numberOf?, hscan]
  rfl

theorem gap_comma {first : Bool} {gap : List Char} (h : Blank gap) : Gap first (comma first ++ gap) := by
  cases first with
  | true => exact .first h
  | false => exact .next blank_nil h

mutual

/-- A spelling of a value is a text of its tree. -/
theorem Spelled.written {j : Json} {text : List Char} : Spelled j text → Written j.tree text
  | .null => .null
  | .bool b => .bool b
  | .number _ => .number (numeral_digits _)
  | .string s => .text (stringBody_quote s.toList)
  | .array h => .array h.written
  | .object h => .object h.written

theorem SpelledItems.written {first : Bool} {js : List Json} {body : List Char} :
    SpelledItems first js body → WrittenItems first (itemTrees js) body
  | .close hgap => .close hgap
  | .item hgap hj hbody => by
    rw [← List.append_assoc]
    exact .item (gap_comma hgap) hj.written hbody.written

theorem SpelledMembers.written {first : Bool} {js : List (String × Json)} {body : List Char} :
    SpelledMembers first js body → WrittenMembers first (memberTrees js) body
  | .close hgap => .close hgap
  | @SpelledMembers.member _ gap gap' text body k j rest hgap hgap' hj hbody => by
    have hmember : WrittenMembers first (memberTrees ((k, j) :: rest)) _ :=
      .member (gap_comma hgap) (stringBody_quote k.toList) blank_nil hgap' hj.written hbody.written
    simpa [quote] using hmember

end

/-! ## What items say -/

mutual

/-- What a form says, whatever the places in it. -/
inductive Form.Says : Form → Json → Prop where
  | null (stop : Cursor) : Form.Says (.null stop) .null
  | bool (b : Bool) (stop : Cursor) : Form.Says (.bool b stop) (.bool b)
  | number (n : Nat) (stop : Cursor) : Form.Says (.number (.ok (.nat n)) stop) (.number n)
  | text (s : String) (stop : Cursor) : Form.Says (.text (.ok s.toList) stop) (.string s)
  | array {items : List Item} {js : List Json} (stop : Cursor) : ItemsSay items js →
      Form.Says (.array items (.closed stop)) (.array js)
  | object {members : List Member} {js : List (String × Json)} (stop : Cursor) :
      MembersSay members js → Form.Says (.object members (.closed stop)) (.object js)

/-- What items say, one by one. -/
inductive ItemsSay : List Item → List Json → Prop where
  | nil : ItemsSay [] []
  | cons {start : Cursor} {form : Form} {j : Json} {items : List Item} {js : List Json} :
      form.Says j → ItemsSay items js → ItemsSay (.mk start form :: items) (j :: js)

/-- What members say, one by one. -/
inductive MembersSay : List Member → List (String × Json) → Prop where
  | nil : MembersSay [] []
  | cons {k : String} {keyStop start : Cursor} {form : Form} {j : Json} {members : List Member}
      {js : List (String × Json)} : form.Says j → MembersSay members js →
      MembersSay (.mk (.ok k.toList) keyStop (.mk start form) :: members) ((k, j) :: js)

end

theorem eq_ok_of_toOption {s : String} {content : Except Fault (List Char)}
    (h : content.toOption.map String.ofList = some s) : content = .ok s.toList := by
  cases content with
  | error f => cases h
  | ok cs => rw [← Option.some.inj h, String.toList_ofList]

mutual

/-- An item that shows the tree of a spelled value says that value. -/
theorem Spelled.said {j : Json} {text : List Char} {start : Cursor} {form : Form} :
    Spelled j text → (Item.mk start form).Shows j.tree → form.Says j
  | .null, .null _ stop => .null stop
  | .bool b, .bool _ _ stop => .bool b stop
  | .number hn, @Item.Shows.number value _ _ stop h => by
    rw [numberOf?_digits hn] at h
    cases value with
    | error f => cases h
    | ok v =>
      rw [Option.some.inj h]
      exact .number _ stop
  | .string s, .text _ stop h => by
    rw [eq_ok_of_toOption (h.trans (textOf?_quote s))]
    exact .text s stop
  | .array hitems, .array _ stop h => .array stop (hitems.said h)
  | .object hmembers, .object _ stop _ h => .object stop (hmembers.said h)

theorem SpelledItems.said {first : Bool} {js : List Json} {body : List Char} {c : Cursor}
    {items : List Item} :
    SpelledItems first js body → ItemsShow c items (itemTrees js) → ItemsSay items js
  | .close _, .nil _ => .nil
  | .item _ hj hbody, @ItemsShow.cons _ (.mk _ _) _ _ _ _ hshow hshows =>
    .cons (hj.said hshow) (hbody.said hshows)

theorem SpelledMembers.said {first : Bool} {js : List (String × Json)} {body : List Char} {c : Cursor}
    {members : List Member} :
    SpelledMembers first js body → MembersShow c members (memberTrees js) → MembersSay members js
  | .close _, .nil _ => .nil
  | .member _ _ hj hbody, @MembersShow.cons _ _ _ (.mk _ _) _ _ _ _ _ hkey hshow hshows => by
    rw [eq_ok_of_toOption (hkey.trans (textOf?_quote _))]
    exact .cons (hj.said hshow) (hbody.said hshows)

end

/-- A document that is a spelled value is taken apart to its end. -/
theorem item_spelled {j : Json} {text : List Char} (h : Spelled j text) :
    ∃ start form, (Cursor.ofText text).item = .mk start form ∧ form.Says j ∧
      (Item.mk start form).stop.skipBlank.rest = [] := by
  have hdocument : j.tree.IsDocument text := ⟨[], text, [], blank_nil, h.written, blank_nil, by simp⟩
  obtain ⟨hshow, hrest⟩ := hdocument.shows
  cases hitem : (Cursor.ofText text).item with
  | mk start form =>
    rw [hitem] at hshow hrest
    exact ⟨start, form, rfl, h.said hshow, hrest⟩

/-! ## Writing -/

mutual

/-- The numbers of a value fit into 64 bits. -/
def Fits : Json → Prop
  | .number n => n < UInt64.size
  | .array items => fitsItems items
  | .object members => fitsMembers members
  | .null | .bool _ | .string _ => True

/-- The numbers of items fit into 64 bits. -/
def fitsItems : List Json → Prop
  | [] => True
  | j :: rest => j.Fits ∧ fitsItems rest

/-- The numbers of members fit into 64 bits. -/
def fitsMembers : List (String × Json) → Prop
  | [] => True
  | (_, j) :: rest => j.Fits ∧ fitsMembers rest

end

mutual

/-- What is written in one line is a spelling. -/
theorem spelled_compact : (j : Json) → j.Fits → Spelled j j.compact
  | .null, _ => .null
  | .bool b, _ => .bool b
  | .number _, h => .number h
  | .string s, _ => .string s
  | .array items, h => .array (spelledItems_compact true items h)
  | .object members, h => .object (spelledMembers_compact true members h)

theorem spelledItems_compact (first : Bool) : (items : List Json) → fitsItems items →
    SpelledItems first items (compactItems first items ++ [']'])
  | [], _ => .close blank_nil
  | j :: rest, h => by
    have hitem : SpelledItems first (j :: rest) _ :=
      .item blank_nil (spelled_compact j h.1) (spelledItems_compact false rest h.2)
    simpa [compactItems, comma] using hitem

theorem spelledMembers_compact (first : Bool) : (members : List (String × Json)) →
    fitsMembers members → SpelledMembers first members (compactMembers first members ++ ['\x7d'])
  | [], _ => .close blank_nil
  | (k, j) :: rest, h => by
    have hmember : SpelledMembers first ((k, j) :: rest) _ :=
      .member blank_nil blank_nil (spelled_compact j h.1) (spelledMembers_compact false rest h.2)
    simpa [compactMembers, comma] using hmember

end

theorem blank_newline (level : Nat) : Blank (newline level) := by
  intro c hc
  rcases List.mem_cons.mp hc with rfl | hc
  · decide
  · rw [(List.mem_replicate.mp hc).2]
    decide

theorem blank_space : Blank [' '] := by
  intro c hc
  rw [List.mem_singleton.mp hc]
  decide

mutual

/-- What is written over several lines is a spelling. -/
theorem spelled_indented (level : Nat) : (j : Json) → j.Fits → Spelled j (j.indented level)
  | .null, _ => .null
  | .bool b, _ => .bool b
  | .number _, h => .number h
  | .string s, _ => .string s
  | .array [], _ => .array (.close blank_nil)
  | .array (j :: rest), h => by
    have hbody := spelledItems_indented (level + 1) level true (j :: rest) h
    simpa [indented] using Spelled.array hbody
  | .object [], _ => .object (.close blank_nil)
  | .object (m :: rest), h => by
    have hbody := spelledMembers_indented (level + 1) level true (m :: rest) h
    simpa [indented] using Spelled.object hbody

theorem spelledItems_indented (level outer : Nat) (first : Bool) : (items : List Json) →
    fitsItems items →
    SpelledItems first items (indentedItems level first items ++ (newline outer ++ [']']))
  | [], _ => .close (blank_newline outer)
  | j :: rest, h => by
    have hitem : SpelledItems first (j :: rest) _ :=
      .item (blank_newline level) (spelled_indented level j h.1)
        (spelledItems_indented level outer false rest h.2)
    simpa [indentedItems, comma] using hitem

theorem spelledMembers_indented (level outer : Nat) (first : Bool) :
    (members : List (String × Json)) → fitsMembers members →
    SpelledMembers first members (indentedMembers level first members ++ (newline outer ++ ['\x7d']))
  | [], _ => .close (blank_newline outer)
  | (k, j) :: rest, h => by
    have hmember : SpelledMembers first ((k, j) :: rest) _ :=
      .member (blank_newline level) blank_space (spelled_indented level j h.1)
        (spelledMembers_indented level outer false rest h.2)
    simpa [indentedMembers, comma] using hmember

end

end AndroidAudit.Json
