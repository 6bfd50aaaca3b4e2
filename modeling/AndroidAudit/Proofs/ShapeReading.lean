import AndroidAudit.Document.JsonReading
import AndroidAudit.Document.JsonWriting
import AndroidAudit.Proofs.JsonScanning

/-!
# Reading a document by its shape

An item that says what is written of a value is read as that value (`Shape.readItem_toJson`), for
every shape whose names are distinct (`Shape.WellFormed`) and that is not too deep (`Shape.height`).

Fields may be left out, so reading a record is followed field by field: members with other names leave
a field as it is (`readMembers_other`), and the same goes for the fields of a tagged record, which are
kept until the tag is known (`readEntries_other`).
-/

namespace AndroidAudit.Document

open Json

/-! ## Scalars -/

/-- An atom as it is found. -/
def Atom.buffered : (a : Atom) → a.Value → Buffered
  | .text, s => .text s
  | .flag, b => .bool b
  | .number _, n => .nat n.val

/-- A scalar as it is found. -/
def Scalar.buffered : (s : Scalar) → s.Value → Buffered
  | .plain a, v => a.buffered v
  | .nullable _, none => .null
  | .nullable a, some v => a.buffered v

theorem Atom.read_buffered (a : Atom) (v : a.Value) : a.read (a.buffered v) = .ok v := by
  cases a with
  | text => rfl
  | flag => rfl
  | number w => exact dif_pos v.isLt

theorem Scalar.read_buffered (s : Scalar) (v : s.Value) : s.read (s.buffered v) = .ok v := by
  cases s with
  | plain a => exact a.read_buffered v
  | nullable a =>
    cases v with
    | none => rfl
    | some v =>
      have hread : (Scalar.nullable a).read (a.buffered v) = (a.read (a.buffered v)).map some := by
        cases a <;> rfl
      rw [buffered, hread, a.read_buffered]
      rfl

theorem Atom.glance_toJson {a : Atom} {v : a.Value} {form : Form} (h : form.Says (a.toJson v))
    (start : Cursor) : glance (.mk start form) = .ok (a.buffered v) := by
  cases a with
  | text =>
    cases h
    exact congrArg (fun s => Except.ok (Buffered.text s)) String.ofList_toList
  | flag => cases h; rfl
  | number w => cases h; rfl

/-- At first sight, an item is what is written of its scalar. -/
theorem Scalar.glance_toJson {s : Scalar} {v : s.Value} {form : Form} (h : form.Says (s.toJson v))
    (start : Cursor) : glance (.mk start form) = .ok (s.buffered v) := by
  cases s with
  | plain a => exact Atom.glance_toJson h start
  | nullable a =>
    cases v with
    | none => cases h; rfl
    | some v => exact Atom.glance_toJson h start

theorem Scalar.bufferItem_toJson {s : Scalar} {v : s.Value} {form : Form} (h : form.Says (s.toJson v))
    (start : Cursor) (depth : Nat) : bufferItem depth (.mk start form) = .ok (s.buffered v) := by
  rw [← s.glance_toJson h start]
  cases s with
  | plain a => cases a <;> cases h <;> rfl
  | nullable a =>
    cases v with
    | none => cases h; rfl
    | some v => cases a <;> cases h <;> rfl

theorem Scalar.readItem_toJson {s : Scalar} {v : s.Value} {form : Form} (h : form.Says (s.toJson v))
    (start : Cursor) : s.readItem (.mk start form) = .ok v := by
  rw [readItem, s.glance_toJson h start]
  exact congrArg (Except.mapError _) (s.read_buffered v)

/-! ## Words -/

theorem findIdx?_get {words : List String} (h : words.Nodup) (i : Fin words.length) :
    words.findIdx? (· == words.get i) = some i.val := by
  rw [List.findIdx?_eq_some_iff_getElem]
  refine ⟨i.isLt, by simp, fun j hj => ?_⟩
  have hne := List.pairwise_iff_getElem.mp h j i.val (Nat.lt_trans hj i.isLt) i.isLt hj
  simpa using hne

theorem wordIndex_get {words : List String} (h : words.Nodup) (i : Fin words.length) :
    wordIndex words (words.get i) = .ok i := by
  unfold wordIndex
  split
  · rename_i k hk
    rw [findIdx?_get h, Option.some.injEq] at hk
    exact congrArg Except.ok (Fin.ext hk.symm)
  · rename_i hk
    rw [findIdx?_get h] at hk
    cases hk

theorem readWord_string {word : String} {form : Form} (h : form.Says (.string word)) (start : Cursor) :
    readWord (.mk start form) = .ok word := by
  have hglance := Scalar.glance_toJson (s := .plain .text) (v := word) h start
  rw [readWord, hglance]
  rfl

theorem readChoice_get {words : List String} (hwords : words.Nodup) {i : Fin words.length}
    {form : Form} (h : form.Says (.string (words.get i))) (start : Cursor) (depth : Nat) :
    readChoice words depth (.mk start form) = .ok i := by
  have hindex : readWordIndex words (.mk start form) = .ok i := by
    rw [readWordIndex, readWord_string h]
    exact congrArg (Except.mapError _) (wordIndex_get hwords i)
  cases h
  exact hindex

/-! ## Shapes that can be read back -/

/-- The names of fields. -/
def Fields.names : Fields → List String
  | .done => []
  | .field name _ _ rest => name :: rest.names

/-- A kind of a tagged record whose fields have distinct names, other than that of the tag. -/
def Case.WellFormed (tag : String) (c : Case) : Prop :=
  (c.slots.map (·.name)).Nodup ∧ tag ∉ c.slots.map (·.name)

mutual

/-- A shape in which names, words and tags that stand side by side are distinct. -/
def Shape.WellFormed : Shape → Prop
  | .scalar _ => True
  | .list item => item.WellFormed
  | .table item => item.WellFormed
  | .choice words => words.Nodup
  | .record _ fields => fields.WellFormed
  | .tagged _ tag cases => (cases.map (·.tag)).Nodup ∧ ∀ c ∈ cases, c.WellFormed tag

/-- Fields with distinct names and well-formed shapes. -/
def Fields.WellFormed : Fields → Prop
  | .done => True
  | .field name _ s rest => name ∉ rest.names ∧ s.WellFormed ∧ rest.WellFormed

end

instance (tag : String) (c : Case) : Decidable (c.WellFormed tag) :=
  inferInstanceAs (Decidable (_ ∧ _))

mutual

def Shape.decidableWellFormed : (s : Shape) → Decidable s.WellFormed
  | .scalar _ => .isTrue trivial
  | .list item => item.decidableWellFormed
  | .table item => item.decidableWellFormed
  | .choice words => inferInstanceAs (Decidable words.Nodup)
  | .record _ fields => fields.decidableWellFormed
  | .tagged _ tag cases =>
    inferInstanceAs (Decidable ((cases.map (·.tag)).Nodup ∧ ∀ c ∈ cases, c.WellFormed tag))

def Fields.decidableWellFormed : (f : Fields) → Decidable f.WellFormed
  | .done => .isTrue trivial
  | .field name _ s rest =>
    have := s.decidableWellFormed
    have := rest.decidableWellFormed
    inferInstanceAs (Decidable (name ∉ rest.names ∧ s.WellFormed ∧ rest.WellFormed))

end

instance (s : Shape) : Decidable s.WellFormed := s.decidableWellFormed

mutual

/-- How many lists and objects may stand inside each other in a document. -/
def Shape.height : Shape → Nat
  | .scalar _ => 0
  | .list item => item.height + 1
  | .table item => item.height + 1
  | .choice _ => 0
  | .record _ fields => fields.height + 1
  | .tagged _ _ _ => 1

/-- The same for what the fields of a record hold. -/
def Fields.height : Fields → Nat
  | .done => 0
  | .field _ _ s rest => max s.height rest.height

end

theorem enter_of_lt {height depth : Nat} (h : height + 1 < depth) (start : Cursor) :
    enter depth start = .ok (depth - 1) :=
  if_neg (by omega)

/-! ## Lists and tables -/

section

variable {α : Type} {write : α → Json} {read : Item → Except JsonError α}

theorem readItems_map (hread : ∀ v start form, Form.Says form (write v) → read (.mk start form) = .ok v)
    {vs : List α} {items : List Item} (h : ItemsSay items (vs.map write)) :
    readItems read items = .ok vs := by
  induction vs generalizing items with
  | nil => cases h; rfl
  | cons v vs ih =>
    cases h with
    | cons hv hvs => rw [readItems, hread v _ _ hv, ih hvs]; rfl

theorem readTable_map (hread : ∀ v start form, Form.Says form (write v) → read (.mk start form) = .ok v)
    {vs : List (String × α)} {members : List Member}
    (h : MembersSay members (vs.map fun e => (e.1, write e.2))) :
    readTable read members = .ok vs := by
  induction vs generalizing members with
  | nil => cases h; rfl
  | cons v vs ih =>
    cases h with
    | cons hv hvs =>
      rw [readTable, hread v.2 _ _ hv, ih hvs]
      show Except.ok ((String.ofList v.1.toList, v.2) :: vs) = _
      rw [String.ofList_toList]

end

/-! ## Records -/

/-- What has been read of a field when it is done. -/
def Presence.filled {α : Type} : (p : Presence) → p.Value α → Option α
  | .required, v => some v
  | .optional, v => v

/-- What has been read of a record when all of it has been. -/
def Fields.filled : (f : Fields) → f.Value → f.Partial
  | .done, () => ()
  | .field _ p _ rest, (v, vs) => (p.filled v, rest.filled vs)

theorem Presence.settle_filled {α : Type} (name : String) (p : Presence) (v : p.Value α) :
    p.settle name (p.filled v) = .ok v := by
  cases p <;> rfl

theorem Fields.settle_filled (f : Fields) (v : f.Value) : f.settle (f.filled v) = .ok v := by
  match f, v with
  | .done, () => rfl
  | .field name p s rest, (v, vs) =>
    rw [filled, settle, p.settle_filled, rest.settle_filled vs]
    rfl

/-- A field is one member if it is there, and else none. -/
theorem Presence.toMember_eq {α : Type} (name : String) (write : α → Json) (p : Presence)
    (v : p.Value α) :
    p.toMember name write v = (p.filled v).toList.map fun a => (name, write a) := by
  cases p with
  | required => rfl
  | optional => cases v <;> rfl

theorem Fields.mem_names_of_toJson {f : Fields} {v : f.Value} {e : String × Json}
    (h : e ∈ f.toJson v) : e.1 ∈ f.names := by
  match f, v with
  | .done, () => cases h
  | .field name p s rest, (v, vs) =>
    rw [Fields.toJson, p.toMember_eq] at h
    rcases List.mem_append.mp h with h | h
    · obtain ⟨a, -, rfl⟩ := List.mem_map.mp h
      exact List.mem_cons_self
    · exact List.mem_cons_of_mem _ (rest.mem_names_of_toJson h)

/-- Members with other names leave a field as it is. -/
theorem readMembers_other {name : String} {p : Presence} {s : Shape} {rest : Fields} (depth : Nat)
    (v : Option s.Value) {members : List Member} {js : List (String × Json)}
    (h : MembersSay members js) (hname : ∀ e ∈ js, e.1 ≠ name) (vs : rest.Partial) :
    readMembers ((Fields.field name p s rest).put depth) members (v, vs) =
      (readMembers (rest.put depth) members vs).map (Prod.mk v) := by
  induction js generalizing members vs with
  | nil => cases h; rfl
  | cons e js ih =>
    obtain ⟨hne, hnames⟩ := List.forall_mem_cons.mp hname
    cases h with
    | @cons k keyStop start form j members _ hform hrest =>
      have hput : (Fields.field name p s rest).put depth k (v, vs) = _ := if_neg hne
      have hkey : (Except.mapError JsonError.ofFault (.ok k.toList)) = .ok k.toList := rfl
      rw [readMembers, readMembers, hkey]
      simp only [bind, Except.bind, String.ofList_toList, hput]
      cases hrp : rest.put depth k vs with
      | unknown =>
        cases (Item.mk start form).skip with
        | error e => rfl
        | ok _ => exact ih hrest hnames vs
      | taken => rfl
      | free store =>
        cases hstore : store (.mk start form) with
        | error e => simp [hstore, settleMember, Except.mapError, Except.map]
        | ok vs' => simpa [hstore, settleMember, Except.mapError, pure, Except.pure]
            using ih hrest hnames vs'

/-- A member with the name of an unread field fills it, and the others are read as before. -/
theorem readMembers_first {name : String} {p : Presence} {s : Shape} {rest : Fields} {depth : Nat}
    {v : s.Value} {start : Cursor} {form : Form} (hv : s.readItem depth (.mk start form) = .ok v)
    (keyStop : Cursor) {members : List Member} {js : List (String × Json)}
    (h : MembersSay members js) (hname : ∀ e ∈ js, e.1 ≠ name) {vs vs' : rest.Partial}
    (hrest : readMembers (rest.put depth) members vs = .ok vs') :
    readMembers ((Fields.field name p s rest).put depth)
      (.mk (.ok name.toList) keyStop (.mk start form) :: members) (none, vs) = .ok (some v, vs') := by
  have hput : (Fields.field name p s rest).put depth name (none, vs) =
      .free fun i => do return (some (← s.readItem depth i), vs) := if_pos rfl
  simp only [readMembers, Except.mapError, bind, Except.bind, String.ofList_toList, hput, hv, pure,
    Except.pure, settleMember]
  rw [readMembers_other depth (some v) h hname, hrest]
  rfl

/-! ## Tagged records -/

/-- The fields of a tagged record as they are kept, less those that are left out. -/
def slotsBuffered : (slots : List Slot) → SlotsValue slots → List (Buffered × Buffered)
  | [], () => []
  | s :: rest, (v, vs) =>
    ((s.presence.filled v).toList.map fun a => (.text s.name, s.scalar.buffered a)) ++
      slotsBuffered rest vs

/-- What has been read of the fields of a tagged record when all of it has been. -/
def slotsFilled : (slots : List Slot) → SlotsValue slots → SlotsPartial slots
  | [], () => ()
  | s :: rest, (v, vs) => (s.presence.filled v, slotsFilled rest vs)

theorem settleSlots_filled (slots : List Slot) (v : SlotsValue slots) :
    settleSlots slots (slotsFilled slots v) = .ok v := by
  match slots, v with
  | [], () => rfl
  | s :: rest, (v, vs) =>
    rw [slotsFilled, settleSlots, s.presence.settle_filled, settleSlots_filled rest vs]
    rfl

theorem mem_slotsBuffered {slots : List Slot} {v : SlotsValue slots} {e : Buffered × Buffered}
    (h : e ∈ slotsBuffered slots v) : ∃ k ∈ slots.map (·.name), e.1 = .text k := by
  match slots, v with
  | [], () => cases h
  | s :: rest, (v, vs) =>
    rcases List.mem_append.mp h with h | h
    · obtain ⟨a, -, rfl⟩ := List.mem_map.mp h
      exact ⟨s.name, List.mem_cons_self, rfl⟩
    · obtain ⟨k, hk, he⟩ := mem_slotsBuffered h
      exact ⟨k, List.mem_cons_of_mem _ hk, he⟩

/-- Entries with other names leave a field as it is. -/
theorem readEntries_other {s : Slot} {rest : List Slot} (v : Option s.scalar.Value)
    {entries : List (Buffered × Buffered)}
    (h : ∀ e ∈ entries, ∃ k, k ≠ s.name ∧ e.1 = .text k) (vs : SlotsPartial rest) :
    readEntries (s :: rest) entries (v, vs) = (readEntries rest entries vs).map (Prod.mk v) := by
  induction entries generalizing vs with
  | nil => rfl
  | cons e entries ih =>
    obtain ⟨⟨k, hk, he⟩, hrest⟩ := List.forall_mem_cons.mp h
    obtain ⟨key, b⟩ := e
    have hkey : key = .text k := he
    subst hkey
    have hindex : (s :: rest).findIdx? (·.name == k) = (rest.findIdx? (·.name == k)).map (· + 1) := by
      simp [List.findIdx?_cons, beq_eq_false_iff_ne.mpr hk.symm]
    rw [readEntries, readEntries]
    simp only [bind, Except.bind, slotIndex?, hindex]
    cases rest.findIdx? (·.name == k) with
    | none => exact ih hrest vs
    | some i =>
      cases hput : putSlot rest i b vs with
      | error m => simp [putSlot, hput, bind, Except.bind, Except.map]
      | ok vs' => simpa [putSlot, hput, bind, Except.bind, pure, Except.pure] using ih hrest vs'

theorem readEntries_first (s : Slot) (rest : List Slot) (v : s.scalar.Value)
    (entries : List (Buffered × Buffered)) (vs : SlotsPartial rest) :
    readEntries (s :: rest) ((.text s.name, s.scalar.buffered v) :: entries) (none, vs) =
      readEntries (s :: rest) entries (some v, vs) := by
  have hindex : (s :: rest).findIdx? (·.name == s.name) = some 0 := by simp [List.findIdx?_cons]
  have hput : putSlot (s :: rest) 0 (s.scalar.buffered v) (none, vs) = .ok (some v, vs) := by
    rw [putSlot, s.scalar.read_buffered]
    rfl
  rw [readEntries]
  simp only [bind, Except.bind, slotIndex?, hindex, hput]

/-- The fields of a tagged record are read from what was kept of them. -/
theorem readEntries_buffered (slots : List Slot) (h : (slots.map (·.name)).Nodup) (v : SlotsValue slots) :
    readEntries slots (slotsBuffered slots v) (slotsBlank slots) = .ok (slotsFilled slots v) := by
  match slots, v with
  | [], () => rfl
  | s :: rest, (v, vs) =>
    obtain ⟨hnot, hrest⟩ := List.nodup_cons.mp h
    have hother : ∀ e ∈ slotsBuffered rest vs, ∃ k, k ≠ s.name ∧ e.1 = .text k := by
      intro e he
      obtain ⟨k, hk, hkey⟩ := mem_slotsBuffered he
      exact ⟨k, fun (hks : k = s.name) => hnot (show s.name ∈ _ from hks ▸ hk), hkey⟩
    have hread (w : Option s.scalar.Value) :
        readEntries (s :: rest) (slotsBuffered rest vs) (w, slotsBlank rest) =
          .ok (w, slotsFilled rest vs) := by
      rw [readEntries_other w hother, readEntries_buffered rest hrest vs]
      rfl
    rw [slotsBuffered, slotsFilled]
    cases s.presence.filled v with
    | none => exact hread none
    | some a => exact (readEntries_first s rest a _ _).trans (hread _)

theorem Case.read_buffered (name tag : String) {c : Case} (h : c.WellFormed tag)
    (v : SlotsValue c.slots) : c.read name (.map (slotsBuffered c.slots v)) = .ok v := by
  obtain ⟨word, title, slots⟩ := c
  rw [Case.read]
  cases slots with
  | nil => rfl
  | cons s rest =>
    have hread := readEntries_buffered (s :: rest) h.1 v
    simp only [List.isEmpty_cons, Bool.false_eq_true, if_false, hread, bind, Except.bind,
      settleSlots_filled, Except.mapError]

/-- The number of the kind that a tagged record is of. -/
def caseOf : (cases : List Case) → CasesValue cases → Fin cases.length
  | _ :: _, .inl _ => ⟨0, Nat.succ_pos _⟩
  | _ :: rest, .inr v => (caseOf rest v).succ

/-- The fields of a tagged record as they are kept. -/
def casesBuffered : (cases : List Case) → CasesValue cases → List (Buffered × Buffered)
  | c :: _, .inl v => slotsBuffered c.slots v
  | _ :: rest, .inr v => casesBuffered rest v

theorem readCase_buffered (name tag : String) (cases : List Case) (h : ∀ c ∈ cases, c.WellFormed tag)
    (v : CasesValue cases) :
    readCase name cases (caseOf cases v) (.map (casesBuffered cases v)) = .ok v := by
  match cases, v with
  | c :: rest, .inl v =>
    rw [caseOf, casesBuffered, readCase, Case.read_buffered name tag (h c List.mem_cons_self)]
    rfl
  | c :: rest, .inr v =>
    have hrest := readCase_buffered name tag rest (fun c hc => h c (List.mem_cons_of_mem _ hc)) v
    show (do return Sum.inr (← readCase name rest (caseOf rest v) (.map (casesBuffered rest v)))) = _
    rw [hrest]
    rfl

theorem caseIndex_get {cases : List Case} (h : (cases.map (·.tag)).Nodup) (i : Fin cases.length) :
    caseIndex cases (cases.get i).tag = .ok i := by
  have hindex : cases.findIdx? (·.tag == (cases.get i).tag) = some i.val := by
    have hmap := findIdx?_get h ⟨i.val, by simp⟩
    rw [List.findIdx?_map] at hmap
    simpa [Function.comp_def] using hmap
  unfold caseIndex
  split
  · rename_i k hk
    rw [hindex, Option.some.injEq] at hk
    exact congrArg Except.ok (Fin.ext hk.symm)
  · rename_i hk
    rw [hindex] at hk
    cases hk

theorem casesToJson_eq (tag : String) (cases : List Case) (v : CasesValue cases) :
    ∃ slots, ∃ vs : SlotsValue slots, (∃ c ∈ cases, c.slots = slots) ∧
      casesToJson tag cases v =
        (tag, .string (cases.get (caseOf cases v)).tag) :: slotsToJson slots vs ∧
      casesBuffered cases v = slotsBuffered slots vs := by
  match cases, v with
  | c :: rest, .inl v => exact ⟨c.slots, v, ⟨c, List.mem_cons_self, rfl⟩, rfl, rfl⟩
  | c :: rest, .inr v =>
    obtain ⟨slots, vs, ⟨d, hd, hslots⟩, hjson, hkept⟩ := casesToJson_eq tag rest v
    exact ⟨slots, vs, ⟨d, List.mem_cons_of_mem _ hd, hslots⟩, hjson, hkept⟩

theorem readTagged_cons {tag k : String} (hk : k ≠ tag) {cases : List Case} {depth : Nat} {s : Scalar}
    {v : s.Value} {form : Form} (hform : form.Says (s.toJson v)) (keyStop start : Cursor)
    {members : List Member} {found : Option (Fin cases.length)} {entries : List (Buffered × Buffered)}
    (h : readTagged tag cases depth members found = .ok (found, entries)) :
    readTagged tag cases depth (.mk (.ok k.toList) keyStop (.mk start form) :: members) found =
      .ok (found, (.text k, s.buffered v) :: entries) := by
  simp only [readTagged, Except.mapError, bind, Except.bind, String.ofList_toList, hk, if_false,
    s.bufferItem_toJson hform, h]
  rfl

/-- Past the tag, the members of a tagged record are kept. -/
theorem readTagged_slots {tag : String} {cases : List Case} {depth : Nat} (slots : List Slot)
    (htag : tag ∉ slots.map (·.name)) (vs : SlotsValue slots) {members : List Member}
    (h : MembersSay members (slotsToJson slots vs)) (found : Option (Fin cases.length)) :
    readTagged tag cases depth members found = .ok (found, slotsBuffered slots vs) := by
  match slots, vs with
  | [], () => cases h; rfl
  | s :: rest, (v, vs) =>
    rw [List.map_cons, List.mem_cons, not_or] at htag
    rw [slotsToJson, s.presence.toMember_eq] at h
    rw [slotsBuffered]
    cases hv : s.presence.filled v with
    | none =>
      rw [hv] at h
      exact readTagged_slots rest htag.2 vs h found
    | some a =>
      rw [hv] at h
      cases h with
      | cons ha hvs =>
        exact readTagged_cons (Ne.symm htag.1) ha _ _ (readTagged_slots rest htag.2 vs hvs found)

theorem readCases_toJson {name tag : String} {cases : List Case} (htags : (cases.map (·.tag)).Nodup)
    (hcases : ∀ c ∈ cases, c.WellFormed tag) {v : CasesValue cases} {form : Form}
    (h : form.Says (.object (casesToJson tag cases v))) (start : Cursor) {depth : Nat}
    (hdepth : 1 < depth) : readCases name tag cases depth (.mk start form) = .ok v := by
  obtain ⟨slots, vs, ⟨c, hc, rfl⟩, hjson, hkept⟩ := casesToJson_eq tag cases v
  have hcase := readCase_buffered name tag cases hcases v
  rw [hjson] at h
  cases h with
  | object stop hmembers =>
    cases hmembers with
    | @cons _ keyStop start' form' _ members _ htag hrest =>
      have hfound : readTag cases (.mk start' form') = .ok (caseOf cases v) := by
        rw [readTag, readWord_string htag]
        exact congrArg (Except.mapError _) (caseIndex_get htags _)
      have hkeep : readTagged tag cases (depth - 1) members (some (caseOf cases v)) =
          .ok (some (caseOf cases v), casesBuffered cases v) := by
        rw [hkept]
        exact readTagged_slots c.slots (hcases c hc).2 vs hrest _
      rw [readCases]
      simp only [Item.form, Item.start, enter_of_lt hdepth, bind, Except.bind, readTagged,
        Except.mapError, String.ofList_toList, if_true, hfound, hkeep, readFinish, hcase]

/-! ## Documents -/

mutual

/-- What is written of a value is read as that value. -/
theorem Shape.readItem_toJson : (s : Shape) → s.WellFormed → (v : s.Value) → {depth : Nat} →
    s.height < depth → (start : Cursor) → {form : Form} → form.Says (s.toJson v) →
    s.readItem depth (.mk start form) = .ok v
  | .scalar s, _, v, depth, _, start, form, h => by
    rw [Shape.readItem]
    exact s.readItem_toJson h start
  | .list item, hwf, vs, depth, hdepth, start, form, h => by
    have hread : ∀ v start form, Form.Says form (item.toJson v) →
        item.readItem (depth - 1) (.mk start form) = .ok v := fun v start _ =>
      item.readItem_toJson hwf v (Nat.lt_sub_of_add_lt hdepth) start
    cases h with
    | array stop hitems =>
      have hitems := readItems_map hread hitems
      simp only [Shape.readItem, Item.form, Item.start, enter_of_lt hdepth, bind, Except.bind, hitems,
        readFinish]
      rfl
  | .table item, hwf, vs, depth, hdepth, start, form, h => by
    have hread : ∀ v start form, Form.Says form (item.toJson v) →
        item.readItem (depth - 1) (.mk start form) = .ok v := fun v start _ =>
      item.readItem_toJson hwf v (Nat.lt_sub_of_add_lt hdepth) start
    cases h with
    | object stop hmembers =>
      have hmembers := readTable_map hread hmembers
      simp only [Shape.readItem, Item.form, Item.start, enter_of_lt hdepth, bind, Except.bind, hmembers,
        readFinish]
      rfl
  | .choice words, hwf, i, depth, _, start, form, h => by
    rw [Shape.readItem]
    exact readChoice_get hwf h start depth
  | .record name fields, hwf, v, depth, hdepth, start, form, h => by
    cases h with
    | object stop hmembers =>
      have hmembers := fields.readMembers_toJson hwf v (Nat.lt_sub_of_add_lt hdepth) hmembers
      simp only [Shape.readItem, Item.form, Item.start, enter_of_lt hdepth, bind, Except.bind, hmembers,
        readFinish, fields.settle_filled]
      rfl
  | .tagged name tag cases, hwf, v, depth, hdepth, start, form, h => by
    rw [Shape.readItem]
    exact readCases_toJson hwf.1 hwf.2 h start hdepth

/-- What is written of a record's fields is read field by field. -/
theorem Fields.readMembers_toJson : (f : Fields) → f.WellFormed → (v : f.Value) → {depth : Nat} →
    f.height < depth → {members : List Member} → MembersSay members (f.toJson v) →
    readMembers (f.put depth) members f.blank = .ok (f.filled v)
  | .done, _, (), depth, _, members, h => by
    cases h
    rfl
  | .field name p s rest, hwf, (v, vs), depth, hdepth, members, h => by
    obtain ⟨hname, hs, hrest⟩ := hwf
    have hread := fun v => s.readItem_toJson hs v (Nat.lt_of_le_of_lt (Nat.le_max_left _ _) hdepth)
    have hfields : ∀ {members}, MembersSay members (rest.toJson vs) →
        readMembers (rest.put depth) members rest.blank = .ok (rest.filled vs) :=
      rest.readMembers_toJson hrest vs (Nat.lt_of_le_of_lt (Nat.le_max_right _ _) hdepth)
    have hother : ∀ e ∈ rest.toJson vs, e.1 ≠ name := fun e he heq =>
      hname (heq ▸ rest.mem_names_of_toJson he)
    rw [Fields.toJson, p.toMember_eq] at h
    rw [Fields.filled, Fields.blank]
    cases hv : p.filled v with
    | none =>
      rw [hv] at h
      rw [readMembers_other depth none h hother, hfields h]
      rfl
    | some a =>
      rw [hv] at h
      cases h with
      | cons ha hvs => exact readMembers_first (hread a _ ha) _ hvs hother (hfields hvs)

end

end AndroidAudit.Document
