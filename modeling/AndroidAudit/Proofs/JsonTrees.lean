import AndroidAudit.Proofs.JsonLiterals

/-!
# JSON texts and their trees

`Written` is the grammar of JSON: which texts a `Tree` has, with blanks where they may stand. Numbers
and strings stand in a tree as they are spelled, so a tree keeps all of a text but its blanks.

A document of a tree is taken apart into an item that shows just that tree (`Tree.IsDocument.shows`).
`scans` proves it for values, items and members at once, by induction on the fuel of the scan: each
step lemma (`scansItem_succ`, `scansItems_succ`, `scansMembers_succ`) takes the others at less fuel.
-/

namespace AndroidAudit.Json

/-! ## Texts -/

/-- What a text says and how its numbers and strings are spelled, but for the blanks between its
parts. -/
inductive Tree where
  | null
  | bool (b : Bool)
  | number (numeral : List Char)
  /-- A string, by what stands between its quotes. -/
  | text (body : List Char)
  | array (items : List Tree)
  /-- An object, its names by what stands between their quotes. -/
  | object (members : List (List Char × Tree))

/-- What comes before an item or a member: blanks, and a comma among them unless it is the first. -/
inductive Gap : Bool → List Char → Prop where
  | first {gap : List Char} : Blank gap → Gap true gap
  | next {before after : List Char} : Blank before → Blank after → Gap false (before ++ ',' :: after)

mutual

/-- The texts of a tree. -/
inductive Written : Tree → List Char → Prop where
  | null : Written .null nullText
  | bool (b : Bool) : Written (.bool b) (boolText b)
  | number {numeral : List Char} : Numeral numeral → Written (.number numeral) numeral
  | text {body : List Char} : StringBody body → Written (.text body) ('"' :: (body ++ ['"']))
  | array {ts : List Tree} {body : List Char} : WrittenItems true ts body →
      Written (.array ts) ('[' :: body)
  | object {ms : List (List Char × Tree)} {body : List Char} : WrittenMembers true ms body →
      Written (.object ms) ('\x7b' :: body)

/-- The texts of items, with the bracket that ends their list. -/
inductive WrittenItems : Bool → List Tree → List Char → Prop where
  | close {first : Bool} {gap : List Char} : Blank gap → WrittenItems first [] (gap ++ [']'])
  | item {first : Bool} {gap text body : List Char} {t : Tree} {ts : List Tree} : Gap first gap →
      Written t text → WrittenItems false ts body →
      WrittenItems first (t :: ts) (gap ++ (text ++ body))

/-- The texts of members, with the bracket that ends their object. -/
inductive WrittenMembers : Bool → List (List Char × Tree) → List Char → Prop where
  | close {first : Bool} {gap : List Char} : Blank gap → WrittenMembers first [] (gap ++ ['\x7d'])
  | member {first : Bool} {gap name before after text body : List Char} {t : Tree}
      {ms : List (List Char × Tree)} : Gap first gap → StringBody name → Blank before → Blank after →
      Written t text → WrittenMembers false ms body →
      WrittenMembers first ((name, t) :: ms)
        (gap ++ '"' :: (name ++ '"' :: (before ++ ':' :: (after ++ (text ++ body)))))

end

/-- The documents of a tree, blanks around it included. -/
def Tree.IsDocument (t : Tree) (document : List Char) : Prop :=
  ∃ before text after, Blank before ∧ Written t text ∧ Blank after ∧
    document = before ++ (text ++ after)

/-- A character that can start a value. -/
def StartsValue (c : Char) : Prop := c ∈ ['n', 't', 'f', '"', '[', '\x7b', '-'] ∨ isDigit c = true

/-- What starts a value is no blank and ends no list. -/
theorem StartsValue.ne {c : Char} (h : StartsValue c) : Cursor.isBlank c = false ∧ c ≠ ']' := by
  rcases h with h | h
  · simp only [List.mem_cons, List.not_mem_nil, or_false] at h
    rcases h with rfl | rfl | rfl | rfl | rfl | rfl | rfl <;> decide
  · refine ⟨?_, isDigit_ne h (by decide)⟩
    simp [Cursor.isBlank, isDigit_ne h (d := ' ') (by decide), isDigit_ne h (d := '\n') (by decide),
      isDigit_ne h (d := '\t') (by decide), isDigit_ne h (d := '\r') (by decide)]

theorem Numeral.head {numeral : List Char} (h : Numeral numeral) :
    ∃ c rest, numeral = c :: rest ∧ (c = '-' ∨ isDigit c = true) := by
  cases h with
  | mk hsign hwhole =>
    simp only [List.mem_cons, List.not_mem_nil, or_false] at hsign
    rcases hsign with rfl | rfl
    · obtain ⟨d, ds, rfl⟩ := List.exists_cons_of_ne_nil hwhole.digits.1
      exact ⟨d, _, rfl, .inr (hwhole.digits.2 d List.mem_cons_self)⟩
    · exact ⟨'-', _, rfl, .inl rfl⟩

theorem Written.head {t : Tree} {text : List Char} (h : Written t text) :
    ∃ c rest, text = c :: rest ∧ StartsValue c := by
  cases h with
  | null => exact ⟨_, _, rfl, .inl (by decide)⟩
  | bool b => cases b <;> exact ⟨_, _, rfl, .inl (by decide)⟩
  | number h =>
    obtain ⟨c, rest, hnumeral, hc⟩ := h.head
    exact ⟨c, rest, hnumeral, hc.imp (fun hc => by rw [hc]; decide) id⟩
  | text _ => exact ⟨_, _, rfl, .inl (by decide)⟩
  | array _ => exact ⟨_, _, rfl, .inl (by decide)⟩
  | object _ => exact ⟨_, _, rfl, .inl (by decide)⟩

/-- What follows an item or a member does not go on with a number. -/
theorem Gap.endsNumber {gap : List Char} (h : Gap false gap) (tail : List Char) :
    EndsNumber (gap ++ tail) := by
  cases h with
  | next hbefore _ =>
    rw [List.append_assoc]
    exact endsNumber_blank hbefore (endsNumber_cons (by decide))

theorem WrittenItems.endsNumber {ts : List Tree} {body : List Char} (h : WrittenItems false ts body)
    (tail : List Char) : EndsNumber (body ++ tail) := by
  cases h with
  | close hgap =>
    rw [List.append_assoc]
    exact endsNumber_blank hgap (endsNumber_cons (by decide))
  | item hgap =>
    rw [List.append_assoc]
    exact hgap.endsNumber _

theorem WrittenMembers.endsNumber {ms : List (List Char × Tree)} {body : List Char}
    (h : WrittenMembers false ms body) (tail : List Char) : EndsNumber (body ++ tail) := by
  cases h with
  | close hgap =>
    rw [List.append_assoc]
    exact endsNumber_blank hgap (endsNumber_cons (by decide))
  | member hgap =>
    rw [List.append_assoc]
    exact hgap.endsNumber _

/-! ## What is taken apart -/

/-- The character that comes next, blanks aside. -/
def Cursor.ahead? (c : Cursor) : Option Char := c.skipBlank.rest.head?

/-- The first name of an object, if there is one, comes next. -/
def Opens (c : Cursor) : List (List Char × Tree) → Prop
  | [] => True
  | (name, _) :: _ => StringBody name ∧ ∃ tail q, c.skipBlank = ⟨'"' :: (name ++ '"' :: tail), q⟩

mutual

/-- An item that shows a tree, whatever the places in it. The cursors in it see what the tree has next,
since some readers look at the text again. -/
inductive Item.Shows : Item → Tree → Prop where
  | null (start stop : Cursor) : Item.Shows (.mk start (.null stop)) .null
  | bool (b : Bool) (start stop : Cursor) : Item.Shows (.mk start (.bool b stop)) (.bool b)
  | number {value : Except Fault Number} {numeral : List Char} (start stop : Cursor) :
      value.toOption = numberOf? numeral →
      Item.Shows (.mk start (.number value stop)) (.number numeral)
  | text {content : Except Fault (List Char)} {body : List Char} (start stop : Cursor) :
      content.toOption.map String.ofList = textOf? body →
      Item.Shows (.mk start (.text content stop)) (.text body)
  | array {items : List Item} {ts : List Tree} (start stop : Cursor) : ItemsShow start.next items ts →
      Item.Shows (.mk start (.array items (.closed stop))) (.array ts)
  | object {members : List Member} {ms : List (List Char × Tree)} (start stop : Cursor) :
      Opens start.next ms → MembersShow start.next members ms →
      Item.Shows (.mk start (.object members (.closed stop))) (.object ms)

/-- Items behind a cursor that show trees, one by one. -/
inductive ItemsShow : Cursor → List Item → List Tree → Prop where
  | nil {c : Cursor} : c.ahead? = some ']' → ItemsShow c [] []
  | cons {c : Cursor} {i : Item} {t : Tree} {items : List Item} {ts : List Tree} :
      c.ahead? ≠ some ']' → i.Shows t → ItemsShow i.stop items ts →
      ItemsShow c (i :: items) (t :: ts)

/-- Members behind a cursor that show trees by name, one by one. -/
inductive MembersShow : Cursor → List Member → List (List Char × Tree) → Prop where
  | nil {c : Cursor} : c.ahead? = some '\x7d' → MembersShow c [] []
  | cons {c keyStop : Cursor} {key : Except Fault (List Char)} {i : Item} {name : List Char} {t : Tree}
      {members : List Member} {ms : List (List Char × Tree)} : c.ahead? ≠ some '\x7d' →
      key.toOption.map String.ofList = textOf? name → i.Shows t → MembersShow i.stop members ms →
      MembersShow c (.mk key keyStop i :: members) ((name, t) :: ms)

end

/-! ## Scans -/

/-- With so much fuel, a written value is taken apart. -/
def ScansItem (fuel : Nat) : Prop :=
  ∀ {t : Tree} {gap text tail : List Char} (p : Place), Written t text → Blank gap → EndsNumber tail →
    2 * text.length ≤ fuel → ∃ i q, scanItem fuel ⟨gap ++ (text ++ tail), p⟩ = i ∧ i.Shows t ∧
      i.form.stop? = some ⟨tail, q⟩

/-- With so much fuel, written items are taken apart. -/
def ScansItems (fuel : Nat) : Prop :=
  ∀ {first : Bool} {ts : List Tree} {body : List Char} (tail : List Char) (p : Place),
    WrittenItems first ts body → 2 * body.length + 1 ≤ fuel →
    ∃ items q, scanItems fuel first ⟨body ++ tail, p⟩ = (items, .closed ⟨tail, q⟩) ∧
      ItemsShow ⟨body ++ tail, p⟩ items ts

/-- With so much fuel, written members are taken apart. -/
def ScansMembers (fuel : Nat) : Prop :=
  ∀ {first : Bool} {ms : List (List Char × Tree)} {body : List Char} (tail : List Char) (p : Place),
    WrittenMembers first ms body → 2 * body.length + 1 ≤ fuel →
    ∃ members q, scanMembers fuel first ⟨body ++ tail, p⟩ = (members, .closed ⟨tail, q⟩) ∧
      MembersShow ⟨body ++ tail, p⟩ members ms

theorem skipBlank_written {t : Tree} {gap text : List Char} (h : Written t text) (hgap : Blank gap)
    (tail : List Char) (p : Place) :
    ∃ q, Cursor.skipBlank ⟨gap ++ (text ++ tail), p⟩ = ⟨text ++ tail, q⟩ := by
  obtain ⟨c, rest, rfl, hc⟩ := h.head
  exact skipBlank_cons hc.ne.1 hgap _ p

theorem wordForm_append (word tail : List Char) (make : Cursor → Form) (p : Place) :
    ∃ q, wordForm word make ⟨word ++ tail, p⟩ = make ⟨tail, q⟩ := by
  obtain ⟨q, hq⟩ := scanWord_append word tail p
  exact ⟨q, by rw [wordForm, hq]⟩

theorem stringForm_body {body : List Char} (h : StringBody body) (tail : List Char) (p : Place) :
    ∃ content q, stringForm ⟨body ++ '"' :: tail, p⟩ = .text content ⟨tail, q⟩ ∧
      content.toOption.map String.ofList = textOf? body := by
  obtain ⟨q, hskip⟩ := skipString_body h tail p
  exact ⟨_, q, by rw [stringForm, hskip], readString_body h tail p⟩

theorem numberForm_numeral {numeral tail : List Char} (h : Numeral numeral) (htail : EndsNumber tail)
    (p : Place) : ∃ value q, numberForm ⟨numeral ++ tail, p⟩ = .number value ⟨tail, q⟩ ∧
      value.toOption = numberOf? numeral := by
  obtain ⟨v, q, hscan, hv⟩ := reads_scanNumber h tail p htail
  exact ⟨v, q, by rw [numberForm, hscan], hv⟩

/-- Where a numeral starts, a number is scanned. -/
theorem scanItem_number {c : Char} (hc : c = '-' ∨ isDigit c = true) (fuel : Nat) (rest : List Char)
    (p : Place) : scanItem (fuel + 1) ⟨c :: rest, p⟩ = .mk ⟨c :: rest, p⟩ (numberForm ⟨c :: rest, p⟩) := by
  have hstart : StartsValue c := hc.imp (fun hc => by rw [hc]; decide) id
  have hskip : Cursor.skipBlank ⟨c :: rest, p⟩ = ⟨c :: rest, p⟩ := by
    simp [Cursor.skipBlank, Cursor.span, Cursor.spanFrom, hstart.ne.1]
  have hne {d : Char} (hd : isDigit d = false) (hminus : d ≠ '-') : c ≠ d := by
    rcases hc with rfl | hc
    · exact Ne.symm hminus
    · exact isDigit_ne hc hd
  have hnumber : (decide (c = '-') || isDigit c) = true := by
    rcases hc with rfl | hc
    · rfl
    · rw [hc, Bool.or_true]
  rw [scanItem, hskip]
  refine congrArg (Item.mk _) ?_
  simp only [hnumber, hne (d := 'n') (by decide) (by decide), hne (d := 't') (by decide) (by decide),
    hne (d := 'f') (by decide) (by decide), hne (d := '"') (by decide) (by decide),
    hne (d := '[') (by decide) (by decide), hne (d := '\x7b') (by decide) (by decide), if_false, if_true]

theorem WrittenMembers.opens {ms : List (List Char × Tree)} {body : List Char}
    (h : WrittenMembers true ms body) (tail : List Char) (p : Place) : Opens ⟨body ++ tail, p⟩ ms := by
  cases h with
  | close => trivial
  | @member _ gap name before after text body _ _ hgap hname =>
    cases hgap with
    | first hgap =>
      obtain ⟨q, hskip⟩ := skipBlank_cons (c := '"') (by decide) hgap
        (name ++ '"' :: (before ++ ':' :: (after ++ (text ++ body))) ++ tail) p
      refine ⟨hname, before ++ ':' :: (after ++ (text ++ body)) ++ tail, q, ?_⟩
      simpa using hskip

theorem scanItem_of_skipBlank {c c' : Cursor} (h : c.skipBlank = c') (h' : c'.skipBlank = c')
    (fuel : Nat) : scanItem (fuel + 1) c = scanItem (fuel + 1) c' := by
  rw [scanItem, scanItem, h, h']

/-- One step of taking a value apart, by the ways a value is written. -/
theorem scansItem_succ {fuel : Nat} (hitems : ScansItems fuel) (hmembers : ScansMembers fuel) :
    ScansItem (fuel + 1) := by
  intro t gap text tail p h hgap htail hfuel
  obtain ⟨q, hskip⟩ := skipBlank_written h hgap tail p
  have hstay : Cursor.skipBlank ⟨text ++ tail, q⟩ = ⟨text ++ tail, q⟩ := by
    obtain ⟨c, rest, rfl, hc⟩ := h.head
    simp [Cursor.skipBlank, Cursor.span, Cursor.spanFrom, hc.ne.1]
  rw [scanItem_of_skipBlank hskip hstay]
  cases h with
  | null =>
    obtain ⟨q', hq'⟩ := wordForm_append nullText tail .null q
    exact ⟨.mk _ (.null ⟨tail, q'⟩), q', congrArg (Item.mk _) hq', .null _ _, rfl⟩
  | bool b =>
    obtain ⟨q', hq'⟩ := wordForm_append (boolText b) tail (.bool b) q
    cases b <;> exact ⟨.mk _ (.bool _ ⟨tail, q'⟩), q', congrArg (Item.mk _) hq', .bool _ _ _, rfl⟩
  | number h =>
    obtain ⟨v, q', hq', hv⟩ := numberForm_numeral h htail q
    obtain ⟨c, rest, rfl, hc⟩ := h.head
    exact ⟨_, q', (scanItem_number hc fuel _ q).trans (congrArg (Item.mk _) hq'), .number _ _ hv, rfl⟩
  | @text body hbody =>
    obtain ⟨content, q', hq', hcontent⟩ := stringForm_body hbody tail (q.after '"')
    refine ⟨.mk ⟨'"' :: (body ++ ['"']) ++ tail, q⟩ (.text content ⟨tail, q'⟩), q', ?_,
      .text _ _ hcontent, rfl⟩
    have htext : '"' :: (body ++ ['"']) ++ tail = '"' :: (body ++ '"' :: tail) := by simp
    rw [htext]
    exact congrArg (Item.mk _) hq'
  | @array ts body hbody =>
    have hless : 2 * body.length + 1 ≤ fuel := by
      rw [List.length_cons] at hfuel
      omega
    obtain ⟨items, q', hscan, hshow⟩ := hitems tail (q.after '[') hbody hless
    refine ⟨.mk ⟨'[' :: body ++ tail, q⟩ (.array items (.closed ⟨tail, q'⟩)), q',
      congrArg (Item.mk _) ?_, .array _ _ hshow, rfl⟩
    exact congrArg (fun r : List Item × Finish => Form.array r.1 r.2) hscan
  | @object ms body hbody =>
    have hless : 2 * body.length + 1 ≤ fuel := by
      rw [List.length_cons] at hfuel
      omega
    obtain ⟨members, q', hscan, hshow⟩ := hmembers tail (q.after '\x7b') hbody hless
    refine ⟨.mk ⟨'\x7b' :: body ++ tail, q⟩ (.object members (.closed ⟨tail, q'⟩)), q',
      congrArg (Item.mk _) ?_, .object _ _ (hbody.opens tail _) hshow, rfl⟩
    exact congrArg (fun r : List Member × Finish => Form.object r.1 r.2) hscan

theorem ahead?_of_skipBlank {c c' : Cursor} (h : c.skipBlank = c') : c.ahead? = c'.rest.head? :=
  congrArg (fun c : Cursor => c.rest.head?) h

theorem Item.stop_of_stop? {i : Item} {c : Cursor} (h : i.form.stop? = some c) : i.stop = c := by
  rw [Item.stop, h, Option.getD_some]

/-- One step of taking items apart. -/
theorem scansItems_succ {fuel : Nat} (hitem : ScansItem fuel) (hitems : ScansItems fuel) :
    ScansItems (fuel + 1) := by
  intro first ts body tail p h hfuel
  cases h with
  | @close _ gap hgap =>
    obtain ⟨q, hskip⟩ := skipBlank_cons (c := ']') (by decide) hgap tail p
    rw [List.append_assoc, List.singleton_append]
    refine ⟨[], q.after ']', ?_, .nil (ahead?_of_skipBlank hskip)⟩
    rw [scanItems, hskip]
    rfl
  | @item _ gap text body t rest hgap ht hbody =>
    obtain ⟨d, ds, hd, hstart⟩ := ht.head
    have hpos : 0 < text.length := by rw [hd]; exact Nat.succ_pos _
    simp only [List.length_append] at hfuel
    -- the item and those after it, from where the item starts
    have hgo (q : Place) : ∃ item items stop q', scanItem fuel ⟨text ++ (body ++ tail), q⟩ = item ∧
        item.form.stop? = some stop ∧ scanItems fuel false stop = (items, .closed ⟨tail, q'⟩) ∧
        item.Shows t ∧ ItemsShow item.stop items rest := by
      obtain ⟨item, q₁, hscan, hshow, hstop⟩ :=
        hitem q ht blank_nil (hbody.endsNumber tail) (by omega)
      obtain ⟨items, q', hrest, hshows⟩ := hitems tail q₁ hbody (by omega)
      exact ⟨item, items, _, q', hscan, hstop, hrest, hshow, Item.stop_of_stop? hstop ▸ hshows⟩
    have htext : gap ++ (text ++ body) ++ tail = gap ++ (text ++ (body ++ tail)) := by simp
    rw [htext]
    subst hd
    cases hgap with
    | first hgap =>
      obtain ⟨q, hskip⟩ := skipBlank_written ht hgap (body ++ tail) p
      obtain ⟨item, items, stop, q', hscan, hstop, hrest, hshow, hshows⟩ := hgo q
      refine ⟨item :: items, q', ?_, .cons ?_ hshow hshows⟩
      · rw [List.cons_append] at hscan hskip
        rw [List.cons_append, scanItems, hskip]
        simp only [hstart.ne.2, if_false, if_true, hscan, hstop, hrest]
      · rw [ahead?_of_skipBlank hskip]
        exact fun h => hstart.ne.2 (Option.some.inj h)
    | @next before after hbefore hafter =>
      obtain ⟨q, hcomma⟩ := skipBlank_cons (c := ',') (by decide) hbefore
        (after ++ (d :: ds ++ (body ++ tail))) p
      obtain ⟨q₁, hskip⟩ := skipBlank_written ht hafter (body ++ tail) (q.after ',')
      obtain ⟨item, items, stop, q', hscan, hstop, hrest, hshow, hshows⟩ := hgo q₁
      rw [List.append_assoc, List.cons_append]
      refine ⟨item :: items, q', ?_, .cons ?_ hshow hshows⟩
      · rw [List.cons_append] at hscan hskip hcomma
        rw [List.cons_append, scanItems, hcomma]
        simp only [Cursor.next, hskip, Char.reduceEq, Bool.false_eq_true, if_false, if_true]
        split
        · rename_i hd
          exact absurd (List.cons.inj hd).1 hstart.ne.2
        · simp only [hscan, hstop, hrest]
      · rw [ahead?_of_skipBlank hcomma]
        simp

/-- One step of taking members apart. -/
theorem scansMembers_succ {fuel : Nat} (hitem : ScansItem fuel) (hmembers : ScansMembers fuel) :
    ScansMembers (fuel + 1) := by
  intro first ms body tail p h hfuel
  cases h with
  | @close _ gap hgap =>
    obtain ⟨q, hskip⟩ := skipBlank_cons (c := '\x7d') (by decide) hgap tail p
    rw [List.append_assoc, List.singleton_append]
    refine ⟨[], q.after '\x7d', ?_, .nil (ahead?_of_skipBlank hskip)⟩
    rw [scanMembers, hskip]
    rfl
  | @member _ gap name before after text body t rest hgap hname hbefore hafter ht hbody =>
    obtain ⟨d, ds, hd, -⟩ := ht.head
    have hpos : 0 < text.length := by rw [hd]; exact Nat.succ_pos _
    simp only [List.length_append, List.length_cons] at hfuel
    have htext : gap ++ '"' :: (name ++ '"' :: (before ++ ':' :: (after ++ (text ++ body)))) ++ tail =
        gap ++ '"' :: (name ++ '"' :: (before ++ ':' :: (after ++ (text ++ (body ++ tail))))) := by
      simp
    rw [htext]
    -- the member and those after it, from behind the quote of its name
    have hgo (q : Place) : ∃ key stop q₁ item members next q',
        readString (name ++ '"' :: (before ++ ':' :: (after ++ (text ++ (body ++ tail))))) q = key ∧
        skipString (name ++ '"' :: (before ++ ':' :: (after ++ (text ++ (body ++ tail))))) q =
          .ok stop ∧
        stop.skipBlank = ⟨':' :: (after ++ (text ++ (body ++ tail))), q₁⟩ ∧
        scanItem fuel ⟨after ++ (text ++ (body ++ tail)), q₁.after ':'⟩ = item ∧
        item.form.stop? = some next ∧
        scanMembers fuel false next = (members, .closed ⟨tail, q'⟩) ∧
        key.toOption.map String.ofList = textOf? name ∧ item.Shows t ∧
        MembersShow item.stop members rest := by
      obtain ⟨q₀, hquote⟩ :=
        skipString_body hname (before ++ ':' :: (after ++ (text ++ (body ++ tail)))) q
      obtain ⟨q₁, hcolon⟩ := skipBlank_cons (c := ':') (by decide) hbefore
        (after ++ (text ++ (body ++ tail))) q₀
      obtain ⟨item, q₂, hscan, hshow, hstop⟩ :=
        hitem (q₁.after ':') ht hafter (hbody.endsNumber tail) (by omega)
      obtain ⟨members, q', hrest, hshows⟩ := hmembers tail q₂ hbody (by omega)
      exact ⟨_, _, q₁, item, members, _, q', rfl, hquote, hcolon, hscan, hstop, hrest,
        readString_body hname _ q, hshow, Item.stop_of_stop? hstop ▸ hshows⟩
    generalize name ++ '"' :: (before ++ ':' :: (after ++ (text ++ (body ++ tail)))) = named at hgo ⊢
    cases hgap with
    | first hgap =>
      obtain ⟨q, hskip⟩ := skipBlank_cons (c := '"') (by decide) hgap named p
      obtain ⟨key, stop, q₁, item, members, next, q', hread, hquote, hcolon, hscan, hstop, hrest, hkey,
        hshow, hshows⟩ := hgo (q.after '"')
      refine ⟨.mk key stop item :: members, q', ?_, .cons ?_ hkey hshow hshows⟩
      · rw [scanMembers, hskip]
        simp only [Cursor.next, Char.reduceEq, if_false, if_true, hread, hquote, hcolon, hscan, hstop,
          hrest]
      · rw [ahead?_of_skipBlank hskip]
        simp
    | @next before' after' hbefore' hafter' =>
      obtain ⟨q₀, hcomma⟩ := skipBlank_cons (c := ',') (by decide) hbefore' (after' ++ '"' :: named) p
      obtain ⟨q, hskip⟩ := skipBlank_cons (c := '"') (by decide) hafter' named (q₀.after ',')
      obtain ⟨key, stop, q₁, item, members, next, q', hread, hquote, hcolon, hscan, hstop, hrest, hkey,
        hshow, hshows⟩ := hgo (q.after '"')
      rw [List.append_assoc, List.cons_append]
      refine ⟨.mk key stop item :: members, q', ?_, .cons ?_ hkey hshow hshows⟩
      · rw [scanMembers, hcomma]
        simp only [Cursor.next, Char.reduceEq, Bool.false_eq_true, if_false, if_true, hskip, hread,
          hquote, hcolon, hscan, hstop, hrest]
      · rw [ahead?_of_skipBlank hcomma]
        simp

/-- By induction on the fuel, which each step uses up by one. -/
theorem scans (fuel : Nat) : ScansItem fuel ∧ ScansItems fuel ∧ ScansMembers fuel := by
  induction fuel with
  | zero =>
    refine ⟨fun {t gap text tail} p h _ _ hfuel => ?_, fun tail p _ hfuel => ?_, fun tail p _ hfuel => ?_⟩
    · obtain ⟨c, rest, rfl, -⟩ := h.head
      rw [List.length_cons] at hfuel
      omega
    · omega
    · omega
  | succ fuel ih =>
    obtain ⟨hitem, hitems, hmembers⟩ := ih
    exact ⟨scansItem_succ hitems hmembers, scansItems_succ hitem hitems,
      scansMembers_succ hitem hmembers⟩

/-- A document is taken apart into an item that shows its tree, and blanks are left behind it. -/
theorem Tree.IsDocument.shows {t : Tree} {document : List Char} (h : t.IsDocument document) :
    (Cursor.ofText document).item.Shows t ∧
      (Cursor.ofText document).item.stop.skipBlank.rest = [] := by
  obtain ⟨before, text, after, hbefore, htext, hafter, rfl⟩ := h
  have hend : EndsNumber after := by
    have hnil : EndsNumber [] := fun _ h => nomatch h
    simpa using endsNumber_blank hafter hnil
  have hlength : 2 * text.length ≤ 2 * (before ++ (text ++ after)).length + 3 := by
    simp only [List.length_append]
    omega
  obtain ⟨i, q, hscan, hshow, hstop⟩ := (scans _).1 .start htext hbefore hend hlength
  have hitem : (Cursor.ofText (before ++ (text ++ after))).item = i := hscan
  rw [hitem, Item.stop_of_stop? hstop]
  refine ⟨hshow, ?_⟩
  obtain ⟨q', hskip⟩ := @skipBlank_append after [] hafter (fun _ h => nomatch h) q
  rw [List.append_nil] at hskip
  rw [hskip]

/-- A string that comes next is an item of its own. -/
theorem item_string {body : List Char} (h : StringBody body) (tail : List Char) (p : Place) :
    (Cursor.item ⟨'"' :: (body ++ '"' :: tail), p⟩).Shows (.text body) := by
  obtain ⟨content, q, hform, hcontent⟩ := stringForm_body h tail (p.after '"')
  have hitem : Cursor.item ⟨'"' :: (body ++ '"' :: tail), p⟩ = .mk _ (.text content ⟨tail, q⟩) :=
    congrArg (Item.mk _) hform
  rw [hitem]
  exact .text _ _ hcontent

end AndroidAudit.Json
