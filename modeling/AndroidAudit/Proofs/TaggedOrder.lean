import AndroidAudit.Proofs.Rearrangement

/-!
# Tagged records in any order

The members of a tagged record are kept until its tag is known, and read then. A tagged record is read
the same when it is rearranged (`readCases?_rearranged`): its tag is found wherever it stands
(`findTag?_rearranged`), and so are its fields (`readCase_rearranged`).

What is kept of a list or an object does depend on the order of members in it. But fields are scalars,
which no list or object is read as, so values may be kept without their parts (`Buffered.shallow`), and
these do not change (`map_shallow_buffer?_rearranged`).
-/

namespace AndroidAudit.Document

open Json

/-! ## Values kept for later -/

/-- A value without the parts of lists and objects. -/
def Buffered.shallow : Buffered → Buffered
  | .sequence _ => .sequence []
  | .map _ => .map []
  | b => b

theorem Atom.read_shallow (a : Atom) (b : Buffered) : a.read b.shallow = a.read b := by
  cases a <;> cases b <;> rfl

/-- Scalars are read without a look at the parts of lists and objects. -/
theorem Scalar.read_shallow (s : Scalar) (b : Buffered) : s.read b.shallow = s.read b := by
  cases s with
  | plain a => exact a.read_shallow b
  | nullable a =>
    cases b with
    | sequence items => exact congrArg (Except.map some) (a.read_shallow (.sequence items))
    | map entries => exact congrArg (Except.map some) (a.read_shallow (.map entries))
    | _ => rfl

theorem map_shallow_glance? (t : Tree) : (glance? t).map Buffered.shallow = glance? t := by
  cases t with
  | number numeral =>
    cases hn : numberOf? numeral with
    | none => simp [glance?, hn]
    | some n => cases n <;> simp [glance?, hn, foundNumber, Buffered.shallow]
  | text body => cases hs : textOf? body <;> simp [glance?, hs, Buffered.shallow]
  | _ => rfl

/-- A value that is kept is, but for its parts, what it is at first sight. -/
theorem map_shallow_buffer? (depth : Nat) (t : Tree) :
    (buffer? depth t).map Buffered.shallow = (buffer? depth t).bind fun _ => glance? t := by
  have hleaf (t : Tree) : (glance? t).map Buffered.shallow = (glance? t).bind fun _ => glance? t := by
    rw [map_shallow_glance?]
    cases glance? t <;> rfl
  cases t with
  | array ts =>
    rw [buffer?]
    cases enter? depth with
    | none => rfl
    | some d => cases hts : bufferItems? d ts <;> simp [hts, glance?, Buffered.shallow]
  | object ms =>
    rw [buffer?]
    cases enter? depth with
    | none => rfl
    | some d => cases hms : bufferMembers? d ms <;> simp [hms, glance?, Buffered.shallow]
  | null => exact hleaf .null
  | bool b => exact hleaf (.bool b)
  | number numeral => exact hleaf (.number numeral)
  | text body => exact hleaf (.text body)

theorem isSome_bufferItems? {depth : Nat} {ts : List Tree} :
    (bufferItems? depth ts).isSome ↔ ∀ t ∈ ts, (buffer? depth t).isSome := by
  induction ts with
  | nil => simp [bufferItems?]
  | cons t ts ih =>
    rw [bufferItems?, List.forall_mem_cons, ← ih]
    cases buffer? depth t <;> simp

theorem isSome_bufferMembers? {depth : Nat} {ms : List (List Char × Tree)} :
    (bufferMembers? depth ms).isSome ↔ ∀ m ∈ ms, (textOf? m.1).isSome ∧ (buffer? depth m.2).isSome := by
  induction ms with
  | nil => simp [bufferMembers?]
  | cons m ms ih =>
    rw [bufferMembers?, List.forall_mem_cons, ← ih]
    cases textOf? m.1 <;> cases buffer? depth m.2 <;> simp

theorem Plain.isSome_buffer? {t : Tree} (h : Plain t) (depth : Nat) : (buffer? depth t).isSome := by
  cases h with
  | null => rfl
  | bool b => rfl
  | text h => simp [buffer?, glance?, h]

mutual

/-- What can be kept can be kept when it is rearranged. Nothing is put into it, since no shape tells how
it is read. -/
theorem isSome_buffer?_rearranged {s : Option Shape} {t t' : Tree} (depth : Nat) (hs : s = none) :
    Rearranged s t t' → ((buffer? depth t).isSome ↔ (buffer? depth t').isSome)
  | .null => .rfl
  | .bool _ => .rfl
  | .number _ => .rfl
  | .text _ => .rfl
  | .array h => by
    simp only [buffer?]
    cases enter? depth with
    | none => rfl
    | some d =>
      have hitems := isSome_buffer?_items d (fun i => by rw [hs]; rfl) h
      simpa [isSome_bufferItems?] using hitems
  | @Rearranged.object _ _ inner added ms' h hadded hperm => by
    have hadded : added = [] := eq_nil_of_insertable hadded fun name => by rw [hs]; exact not_false
    rw [hadded, List.append_nil] at hperm
    simp only [buffer?]
    cases enter? depth with
    | none => rfl
    | some d =>
      have hmembers := isSome_buffer?_members d hs h
      simp only [Option.bind_some, Option.isSome_map, isSome_bufferMembers?, ← hperm.mem_iff, hmembers]

theorem isSome_buffer?_items {shapes : Nat → Option Shape} {ts ts' : List Tree} (depth : Nat)
    (hshapes : ∀ i, shapes i = none) : RearrangedItems shapes ts ts' →
      ((∀ t ∈ ts, (buffer? depth t).isSome) ↔ ∀ t ∈ ts', (buffer? depth t).isSome)
  | .nil => .rfl
  | .cons h hs => by
    rw [List.forall_mem_cons, List.forall_mem_cons, isSome_buffer?_rearranged depth (hshapes 0) h,
      isSome_buffer?_items depth (fun i => hshapes (i + 1)) hs]

theorem isSome_buffer?_members {s : Option Shape} {ms ms' : List (List Char × Tree)} (depth : Nat)
    (hs : s = none) : RearrangedMembers s ms ms' →
      ((∀ m ∈ ms, (textOf? m.1).isSome ∧ (buffer? depth m.2).isSome) ↔
        ∀ m ∈ ms', (textOf? m.1).isSome ∧ (buffer? depth m.2).isSome)
  | .nil => .rfl
  | .cons h hrest => by
    rw [List.forall_mem_cons, List.forall_mem_cons,
      isSome_buffer?_rearranged depth (by rw [hs]; rfl) h, isSome_buffer?_members depth hs hrest]

end

/-- What is kept is the same, but for its parts, when it is rearranged. -/
theorem map_shallow_buffer?_rearranged {t t' : Tree} (depth : Nat) (h : Rearranged none t t') :
    (buffer? depth t).map Buffered.shallow = (buffer? depth t').map Buffered.shallow := by
  have hsome := isSome_buffer?_rearranged depth rfl h
  rw [map_shallow_buffer?, map_shallow_buffer?, glance?_rearranged h]
  cases hb : buffer? depth t <;> cases hb' : buffer? depth t' <;> simp_all

/-! ## Tagged records -/

/-- Keeps a member without the parts of its value. -/
def keep? (depth : Nat) (m : List Char × Tree) : Option (Buffered × Buffered) :=
  (textOf? m.1).bind fun k => ((buffer? depth m.2).map Buffered.shallow).map (Prod.mk (.text k))

theorem map_shallow_bufferMembers? (depth : Nat) (ms : List (List Char × Tree)) :
    (bufferMembers? depth ms).map (List.map fun e => (e.1, e.2.shallow)) = ms.mapM (keep? depth) := by
  induction ms with
  | nil => rfl
  | cons m ms ih =>
    rw [mapM_cons_eq_bind, ← ih, bufferMembers?, keep?]
    cases textOf? m.1 with
    | none => rfl
    | some k =>
      cases buffer? depth m.2 with
      | none => rfl
      | some v => cases bufferMembers? depth ms <;> simp

section

variable {slots : List Slot}

theorem putSlot_shallow (slots : List Slot) (i : Nat) (b : Buffered) (vs : SlotsPartial slots) :
    putSlot slots i b.shallow vs = putSlot slots i b vs := by
  match slots, i, vs with
  | [], _, _ => rfl
  | s :: rest, 0, (v, vs) => simp only [putSlot, s.scalar.read_shallow]
  | s :: rest, i + 1, (v, vs) => simp only [putSlot, putSlot_shallow rest i b vs]

/-- What becomes of the fields of a tagged record when an entry is read. -/
def entryStep? (slots : List Slot) (vs : SlotsPartial slots) (e : Buffered × Buffered) :
    Option (SlotsPartial slots) :=
  (slotIndex? slots e.1).toOption.bind fun index =>
    index.elim (some vs) fun i => (putSlot slots i e.2 vs).toOption

theorem toOption_readEntries (entries : List (Buffered × Buffered)) (vs : SlotsPartial slots) :
    (readEntries slots entries vs).toOption = entries.foldlM (entryStep? slots) vs := by
  induction entries generalizing vs with
  | nil => rfl
  | cons e entries ih =>
    rw [readEntries, List.foldlM_cons, toOption_bind, entryStep?]
    cases (slotIndex? slots e.1).toOption with
    | none => rfl
    | some index =>
      cases index with
      | none => exact ih vs
      | some i => simp [ih]

theorem entryStep?_shallow (vs : SlotsPartial slots) (e : Buffered × Buffered) :
    entryStep? slots vs (e.1, e.2.shallow) = entryStep? slots vs e := by
  simp only [entryStep?, putSlot_shallow]

/-- Two fields can be read in either order. If they are the same field, it is read twice either way. -/
theorem putSlot_comm (slots : List Slot) (i j : Nat) (a b : Buffered) (vs : SlotsPartial slots) :
    (putSlot slots i a vs).toOption.bind (fun vs => (putSlot slots j b vs).toOption) =
      (putSlot slots j b vs).toOption.bind (fun vs => (putSlot slots i a vs).toOption) := by
  match slots, i, j, vs with
  | [], _, _, _ => rfl
  | s :: rest, 0, 0, (v, vs) =>
    cases v with
    | some v => rfl
    | none => cases ha : s.scalar.read a <;> cases hb : s.scalar.read b <;> simp [putSlot, ha, hb]
  | s :: rest, 0, j + 1, (v, vs) =>
    cases v with
    | some v => cases hb : putSlot rest j b vs <;> simp [putSlot, hb]
    | none =>
      cases ha : s.scalar.read a <;> cases hb : putSlot rest j b vs <;> simp [putSlot, ha, hb]
  | s :: rest, i + 1, 0, (v, vs) =>
    cases v with
    | some v => cases ha : putSlot rest i a vs <;> simp [putSlot, ha]
    | none =>
      cases ha : putSlot rest i a vs <;> cases hb : s.scalar.read b <;> simp [putSlot, ha, hb]
  | s :: rest, i + 1, j + 1, (v, vs) =>
    have hrest := putSlot_comm rest i j a b vs
    have hmap := congrArg (Option.map (Prod.mk v)) hrest
    simpa [putSlot, Option.map_bind, Option.bind_map, Function.comp_def] using hmap

theorem entryStep?_comm (vs : SlotsPartial slots) (e e' : Buffered × Buffered) :
    (entryStep? slots vs e).bind (entryStep? slots · e') =
      (entryStep? slots vs e').bind (entryStep? slots · e) := by
  simp only [entryStep?]
  cases (slotIndex? slots e.1).toOption with
  | none => cases (slotIndex? slots e'.1).toOption <;> simp
  | some i =>
    cases (slotIndex? slots e'.1).toOption with
    | none => simp
    | some j =>
      cases i with
      | none => cases j <;> simp
      | some i =>
        cases j with
        | none => simp
        | some j => simpa using putSlot_comm slots i j e.2 e'.2 vs

theorem entryStep?_undeclared {name : String} (h : name ∉ slots.map (·.name)) (b : Buffered)
    (vs : SlotsPartial slots) : entryStep? slots vs (.text name, b) = some vs := by
  have hindex : slots.findIdx? (·.name == name) = none := by
    simp only [List.findIdx?_eq_none_iff, beq_eq_false_iff_ne]
    exact fun s hs heq => h (List.mem_map.mpr ⟨s, hs, heq⟩)
  simp [entryStep?, slotIndex?, hindex]

/-- A kind of a tagged record is read the same from entries that lead to the same fields. -/
theorem Case.read_congr (name : String) {c : Case} {entries entries' : List (Buffered × Buffered)}
    (h : ∀ vs, entries.foldlM (entryStep? c.slots) vs = entries'.foldlM (entryStep? c.slots) vs) :
    (c.read name (.map entries)).toOption = (c.read name (.map entries')).toOption := by
  rw [Case.read, Case.read]
  split
  · rfl
  · rw [toOption_bind, toOption_bind, toOption_readEntries, toOption_readEntries, h]

theorem readCase_congr (name : String) {b b' : Buffered} (cases : List Case)
    (h : ∀ c ∈ cases, (c.read name b).toOption = (c.read name b').toOption) (i : Fin cases.length) :
    (readCase name cases i b).toOption = (readCase name cases i b').toOption := by
  match cases, i with
  | c :: rest, ⟨0, _⟩ =>
    rw [readCase, readCase]
    simp [h c List.mem_cons_self]
  | c :: rest, ⟨i + 1, hi⟩ =>
    have hrest := readCase_congr name rest (fun c hc => h c (List.mem_cons_of_mem _ hc))
      ⟨i, Nat.lt_of_succ_lt_succ hi⟩
    rw [readCase, readCase]
    simp [hrest]

end

section

variable (name : String) (cases : List Case) (i : Fin cases.length)

theorem readCase_shallow (entries : List (Buffered × Buffered)) :
    (readCase name cases i (.map (entries.map fun e => (e.1, e.2.shallow)))).toOption =
      (readCase name cases i (.map entries)).toOption := by
  refine readCase_congr name cases (fun c _ => Case.read_congr name fun vs => ?_) i
  rw [List.foldlM_map]
  simp only [entryStep?_shallow]

theorem readCase_perm {entries entries' : List (Buffered × Buffered)} (h : entries.Perm entries') :
    (readCase name cases i (.map entries)).toOption =
      (readCase name cases i (.map entries')).toOption :=
  readCase_congr name cases
    (fun _ _ => Case.read_congr name fun vs => foldlM_perm entryStep?_comm h vs) i

theorem readCase_undeclared {entries added : List (Buffered × Buffered)}
    (h : ∀ e ∈ added, ∃ k, e.1 = .text k ∧ ∀ c ∈ cases, k ∉ c.slots.map (·.name)) :
    (readCase name cases i (.map (entries ++ added))).toOption =
      (readCase name cases i (.map entries)).toOption := by
  refine readCase_congr name cases (fun c hc => Case.read_congr name fun vs => ?_) i
  refine foldlM_append_idle (fun e he vs => ?_) vs
  obtain ⟨k, hk, hnames⟩ := h e he
  obtain ⟨key, b⟩ := e
  subst hk
  exact entryStep?_undeclared (hnames c hc) b vs

end

theorem readPositions_shallow (expected : String) (slots : List Slot) (i : Nat) (items : List Buffered) :
    readPositions expected slots i (items.map Buffered.shallow) = readPositions expected slots i items := by
  induction slots generalizing i items with
  | nil => simp [readPositions]
  | cons s slots ih =>
    cases items with
    | nil => rfl
    | cons b items =>
      simp only [readPositions, List.map_cons, List.drop_succ_cons, List.drop_zero, ih,
        s.scalar.read_shallow]

/-- Only whether there is one tag matters, and which. -/
theorem findTag?_perm {α : Type} {tags tags' : List (Option α)} (h : tags.Perm tags') :
    findTag? none tags = findTag? none tags' := by
  have hmany {a b : Option α} {rest : List (Option α)} : findTag? none (a :: b :: rest) = none := by
    cases a <;> rfl
  match tags, tags', h with
  | [], tags', h => rw [h.nil_eq]
  | [a], tags', h => rw [List.singleton_perm.mp h]
  | a :: b :: rest, tags', h =>
    rw [hmany]
    match tags', h.length_eq with
    | c :: d :: rest', _ => rw [hmany]

theorem readTag?_rearranged {s : Option Shape} {t t' : Tree} (cases : List Case) (h : Rearranged s t t') :
    readTag? cases t = readTag? cases t' := by
  cases h <;> rfl

theorem keep?_rearranged {t t' : Tree} (depth : Nat) (h : Rearranged none t t')
    (name : List Char) : keep? depth (name, t) = keep? depth (name, t') := by
  rw [keep?, keep?, map_shallow_buffer?_rearranged depth h]

section

variable {name tag : String} {cases : List Case} {depth : Nat}

/-- What is kept of members that are put in. -/
theorem exists_keep? {added : List (List Char × Tree)}
    (h : ∀ m ∈ added, Insertable (some (.tagged name tag cases)) m) :
    ∃ es, added.mapM (keep? depth) = some es ∧
      ∀ e ∈ es, ∃ k, e.1 = .text k ∧ Undeclared (some (.tagged name tag cases)) k := by
  refine exists_mapM fun m hm => ?_
  obtain ⟨⟨key, hkey, hunknown⟩, hplain⟩ := h m hm
  obtain ⟨b, hb⟩ := Option.isSome_iff_exists.mp ((hplain trivial).isSome_buffer? depth)
  exact ⟨(.text key, b.shallow), by simp [keep?, hkey, hb], key, rfl, hunknown⟩

theorem bind_readCase_keep? (i : Fin cases.length) (ms : List (List Char × Tree)) :
    (bufferMembers? depth ms).bind (fun vs => (readCase name cases i (.map vs)).toOption) =
      (ms.mapM (keep? depth)).bind fun vs => (readCase name cases i (.map vs)).toOption := by
  rw [← map_shallow_bufferMembers?]
  cases bufferMembers? depth ms with
  | none => rfl
  | some vs => exact (readCase_shallow name cases i vs).symm

theorem filter_isNamed_added {added : List (List Char × Tree)}
    (h : ∀ m ∈ added, Insertable (some (.tagged name tag cases)) m) :
    added.filter (isNamed tag) = [] ∧ added.filter (!isNamed tag ·) = added := by
  have hother : ∀ m ∈ added, isNamed tag m = false := by
    intro m hm
    obtain ⟨⟨key, hkey, hne, -⟩, -⟩ := h m hm
    simpa [isNamed, hkey] using hne
  exact ⟨List.filter_eq_nil_iff.mpr fun m hm => by simp [hother m hm],
    List.filter_eq_self.mpr fun m hm => by simp [hother m hm]⟩

/-- The tag is found wherever it stands. -/
theorem findTag?_rearranged {ms inner added ms' : List (List Char × Tree)}
    (h : RearrangedMembers (some (.tagged name tag cases)) ms inner)
    (hadded : ∀ m ∈ added, Insertable (some (.tagged name tag cases)) m)
    (hperm : (inner ++ added).Perm ms') :
    findTag? none ((ms.filter (isNamed tag)).map (readTag? cases ·.2)) =
      findTag? none ((ms'.filter (isNamed tag)).map (readTag? cases ·.2)) := by
  have hinner : RearrangedMembers _ (ms.filter (isNamed tag)) (inner.filter (isNamed tag)) :=
    h.filter fun _ _ _ => rfl
  have htags : ((inner ++ added).filter (isNamed tag)).Perm (ms'.filter (isNamed tag)) := hperm.filter _
  rw [List.filter_append, (filter_isNamed_added hadded).1, List.append_nil] at htags
  rw [map_members_rearranged (fun _ h => readTag?_rearranged cases h) hinner]
  exact findTag?_perm (htags.map _)

/-- The fields of a kind are read wherever they stand. -/
theorem readCase_rearranged {ms inner added ms' : List (List Char × Tree)}
    (h : RearrangedMembers (some (.tagged name tag cases)) ms inner)
    (hadded : ∀ m ∈ added, Insertable (some (.tagged name tag cases)) m)
    (hperm : (inner ++ added).Perm ms') (i : Fin cases.length) :
    (bufferMembers? depth (ms.filter (!isNamed tag ·))).bind
        (fun vs => (readCase name cases i (.map vs)).toOption) =
      (bufferMembers? depth (ms'.filter (!isNamed tag ·))).bind
        fun vs => (readCase name cases i (.map vs)).toOption := by
  obtain ⟨es, hes, hunknown⟩ := exists_keep? hadded
  have hinner : RearrangedMembers _ (ms.filter (!isNamed tag ·)) (inner.filter (!isNamed tag ·)) :=
    h.filter fun _ _ _ => rfl
  calc (bufferMembers? depth (ms.filter (!isNamed tag ·))).bind
        (fun vs => (readCase name cases i (.map vs)).toOption)
    _ = ((ms.filter (!isNamed tag ·)).mapM (keep? depth)).bind fun vs =>
          (readCase name cases i (.map vs)).toOption := bind_readCase_keep? i _
    _ = ((inner.filter (!isNamed tag ·)).mapM (keep? depth)).bind fun vs =>
          (readCase name cases i (.map vs)).toOption := by
      have hkept : (ms.filter (!isNamed tag ·)).map (keep? depth) =
          (inner.filter (!isNamed tag ·)).map (keep? depth) :=
        map_members_rearranged (s := some (.tagged name tag cases))
          (fun _ h => keep?_rearranged depth h _) hinner
      rw [mapM_congr_map hkept]
    _ = (((inner ++ added).filter (!isNamed tag ·)).mapM (keep? depth)).bind fun vs =>
          (readCase name cases i (.map vs)).toOption := by
      rw [List.filter_append, (filter_isNamed_added hadded).2, List.mapM_append, hes]
      cases (inner.filter (!isNamed tag ·)).mapM (keep? depth) with
      | none => rfl
      | some vs =>
        refine (readCase_undeclared name cases i fun e he => ?_).symm
        obtain ⟨k, hk, -, hnames⟩ := hunknown e he
        exact ⟨k, hk, hnames⟩
    _ = ((ms'.filter (!isNamed tag ·)).mapM (keep? depth)).bind fun vs =>
          (readCase name cases i (.map vs)).toOption :=
      bind_mapM_perm (hperm.filter _) fun _ _ _ hvs => readCase_perm name cases i hvs
    _ = _ := (bind_readCase_keep? i _).symm

theorem map_shallow_bufferItems? (depth : Nat) (ts : List Tree) :
    (bufferItems? depth ts).map (List.map Buffered.shallow) =
      ts.mapM fun t => (buffer? depth t).map Buffered.shallow := by
  induction ts with
  | nil => rfl
  | cons t ts ih =>
    rw [mapM_cons_eq_bind, ← ih, bufferItems?]
    cases buffer? depth t with
    | none => rfl
    | some v => cases bufferItems? depth ts <;> simp

theorem bind_readCase_items (i : Fin cases.length) (ts : List Tree) :
    (bufferItems? depth ts).bind (fun vs => (readCase name cases i (.sequence vs)).toOption) =
      (ts.mapM fun t => (buffer? depth t).map Buffered.shallow).bind
        fun vs => (readCase name cases i (.sequence vs)).toOption := by
  rw [← map_shallow_bufferItems?]
  cases bufferItems? depth ts with
  | none => rfl
  | some vs =>
    refine readCase_congr name cases (fun c _ => ?_) i
    simp only [Case.read, readPositions_shallow]

theorem readCase_items_rearranged {ts ts' : List Tree} (h : RearrangedItems (fun _ => none) ts ts')
    (i : Fin cases.length) :
    (bufferItems? depth ts).bind (fun vs => (readCase name cases i (.sequence vs)).toOption) =
      (bufferItems? depth ts').bind fun vs => (readCase name cases i (.sequence vs)).toOption := by
  rw [bind_readCase_items, bind_readCase_items,
    mapM_congr_map (map_items_rearranged (fun _ h => map_shallow_buffer?_rearranged depth h) h)]

/-- A tagged record is read the same when it is rearranged. -/
theorem readCases?_rearranged {t t' : Tree} (h : Rearranged (some (.tagged name tag cases)) t t') :
    readCases? name tag cases depth t = readCases? name tag cases depth t' := by
  cases h with
  | array h =>
    cases h with
    | nil => rfl
    | cons h hs =>
      simp only [readCases?, readTag?_rearranged cases h, readCase_items_rearranged hs]
  | object h hadded hperm =>
    simp only [readCases?, findTag?_rearranged h hadded hperm]
    refine Option.bind_congr fun d _ => Option.bind_congr fun found _ => ?_
    cases found with
    | none => simp
    | some i => exact readCase_rearranged h hadded hperm i
  | _ => rfl

end

end AndroidAudit.Document
