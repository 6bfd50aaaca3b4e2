import AndroidAudit.Format.Code
import AndroidAudit.Format.Report
import AndroidAudit.Proofs.RoundTrip
import AndroidAudit.Proofs.TableOrder
import AndroidAudit.Proofs.TaggedOrder

/-!
# The order of members does not matter

Settings, units of code and reports are read the same when the members of objects change places and
unknown ones are put in (`member_order_ignored`).

Shapes are followed down from the root. Records are read member by member, and members that name
different fields can be read in either order (`Fields.putMember?_comm`). A table is read as a list of its
entries in the order in which they stand, so what is read from a rearranged document is the same only up
to the order of tables (`Shape.ofTree?_rearranged`). Names do not repeat in a table here; if they did,
the last entry of a name would count.

What an unknown member of a record holds is passed over unread. In a tagged record it is kept, and names are
always read, so half a surrogate pair is refused there (`unpaired_surrogate_refused`).
-/

namespace AndroidAudit

open Document

namespace Document

open Json

/-! ## Records on the way -/

/-- The values of the fields read so far with their tables in rising order of their names. -/
def Fields.sortPartial : (f : Fields) → f.Partial → f.Partial
  | .done, () => ()
  | .field _ _ s rest, (v, vs) => (v.map s.sortTables, rest.sortPartial vs)

theorem Presence.settle_map {α β : Type} (name : String) (f : α → β) (p : Presence) (v : Option α) :
    (p.settle name v).toOption.map (p.mapValue f) = (p.settle name (v.map f)).toOption := by
  cases p <;> cases v <;> rfl

theorem Fields.settle_sortPartial (f : Fields) (vs : f.Partial) :
    (f.settle vs).toOption.map f.sortTables = (f.settle (f.sortPartial vs)).toOption := by
  match f, vs with
  | .done, () => rfl
  | .field name p s rest, (v, vs) =>
    rw [sortPartial, settle, settle]
    simp only [toOption_bind, toOption_pure, ← p.settle_map, ← rest.settle_sortPartial vs]
    cases (p.settle name v).toOption <;> cases (rest.settle vs).toOption <;> rfl

/-- Fields that are the same but for the order of tables make the same record but for that order. -/
theorem Fields.settle_congr (f : Fields) {vs ws : Option f.Partial}
    (h : vs.map f.sortPartial = ws.map f.sortPartial) :
    (vs.bind fun vs => (f.settle vs).toOption).map f.sortTables =
      (ws.bind fun ws => (f.settle ws).toOption).map f.sortTables := by
  have hsettle (vs : Option f.Partial) : (vs.bind fun vs => (f.settle vs).toOption).map f.sortTables =
      (vs.map f.sortPartial).bind fun vs => (f.settle vs).toOption := by
    cases vs with
    | none => rfl
    | some vs => exact f.settle_sortPartial vs
  rw [hsettle, hsettle, h]

/-! ## Records -/

/-- Two members can be read in either order. If they name one field, it is read twice either way. -/
theorem Fields.putMember?_comm (f : Fields) (depth : Nat) (k k' : String) (t t' : Tree) (vs : f.Partial) :
    (f.putMember? depth k t vs).bind (f.putMember? depth k' t') =
      (f.putMember? depth k' t' vs).bind (f.putMember? depth k t) := by
  match f, vs with
  | .done, _ => rfl
  | .field name p s rest, (v, vs) =>
    have hrest := rest.putMember?_comm depth k k' t t' vs
    by_cases hk : k = name
    · by_cases hk' : k' = name
      · cases v with
        | some v => simp [putMember?, hk, hk']
        | none =>
          cases ha : s.ofTree? depth t <;> cases hb : s.ofTree? depth t' <;>
            simp [putMember?, hk, hk', ha, hb]
      · cases v with
        | some v => cases hb : rest.putMember? depth k' t' vs <;> simp [putMember?, hk, hk', hb]
        | none =>
          cases ha : s.ofTree? depth t <;> cases hb : rest.putMember? depth k' t' vs <;>
            simp [putMember?, hk, hk', ha, hb]
    · by_cases hk' : k' = name
      · cases v with
        | some v => cases ha : rest.putMember? depth k t vs <;> simp [putMember?, hk, hk', ha]
        | none =>
          cases ha : rest.putMember? depth k t vs <;> cases hb : s.ofTree? depth t' <;>
            simp [putMember?, hk, hk', ha, hb]
      · have hmap := congrArg (Option.map (Prod.mk v)) hrest
        simpa [putMember?, hk, hk', Option.map_bind, Option.bind_map, Function.comp_def] using hmap

theorem Fields.putMember?_undeclared {f : Fields} {key : String} (h : key ∉ f.names) (depth : Nat)
    (t : Tree) (vs : f.Partial) : f.putMember? depth key t vs = some vs := by
  match f, vs with
  | .done, _ => rfl
  | .field name p s rest, (v, vs) =>
    rw [names, List.mem_cons, not_or] at h
    simp [putMember?, h.1, rest.putMember?_undeclared h.2 depth t vs]

theorem Fields.readMembers?_perm (f : Fields) (depth : Nat) {ms ms' : List (List Char × Tree)}
    (h : ms.Perm ms') (vs : f.Partial) :
    readMembers? (f.putMember? depth) ms vs = readMembers? (f.putMember? depth) ms' vs := by
  refine foldlM_perm (fun vs m m' => ?_) h vs
  cases textOf? m.1 with
  | none => cases textOf? m'.1 <;> simp
  | some k =>
    cases textOf? m'.1 with
    | none => simp
    | some k' => simpa using f.putMember?_comm depth k k' m.2 m'.2 vs

theorem Fields.readMembers?_added {name : String} {f : Fields} (depth : Nat)
    {ms added : List (List Char × Tree)} (h : ∀ m ∈ added, Insertable (some (.record name f)) m)
    (vs : f.Partial) :
    readMembers? (f.putMember? depth) (ms ++ added) vs = readMembers? (f.putMember? depth) ms vs := by
  refine foldlM_append_idle (fun m hm vs => ?_) vs
  obtain ⟨⟨key, hkey, hunknown⟩, -⟩ := h m hm
  rw [hkey]
  exact putMember?_undeclared hunknown depth m.2 vs

/-- Members that are rearranged, one by one, lead to the same fields but for the order of tables, if
each step does. -/
theorem Fields.readMembers?_rearranged {name : String} {f : Fields} {depth : Nat}
    (hstep : ∀ {key t t'} {vs ws : f.Partial}, Rearranged (f.shapeOf? key) t t' → Distinct t →
      f.sortPartial vs = f.sortPartial ws →
      (f.putMember? depth key t vs).map f.sortPartial = (f.putMember? depth key t' ws).map f.sortPartial)
    {ms ms' : List (List Char × Tree)} {vs ws : f.Partial}
    (h : RearrangedMembers (some (.record name f)) ms ms')
    (hdistinct : ∀ m ∈ ms, Distinct m.2) (heq : f.sortPartial vs = f.sortPartial ws) :
    (readMembers? (f.putMember? depth) ms vs).map f.sortPartial =
      (readMembers? (f.putMember? depth) ms' ws).map f.sortPartial := by
  induction ms generalizing ms' vs ws with
  | nil =>
    cases h
    exact congrArg some heq
  | cons m ms ih =>
    obtain ⟨hm, hms⟩ := List.forall_mem_cons.mp hdistinct
    cases h with
    | @cons _ name t t' _ ms' h hs =>
      rw [readMembers?_cons, readMembers?_cons]
      cases hkey : textOf? name with
      | none => rfl
      | some key =>
        rw [hkey] at h
        have hput := hstep h hm heq
        simp only [Option.bind_some]
        cases hvs : f.putMember? depth key t vs with
        | none =>
          rw [hvs] at hput
          rw [Option.map_eq_none_iff.mp hput.symm]
          rfl
        | some vs' =>
          rw [hvs] at hput
          obtain ⟨ws', hws, heq'⟩ := Option.map_eq_some_iff.mp hput.symm
          rw [hws]
          exact ih hs hms heq'.symm

theorem mapM_map_comp {β γ δ : Type} (f : β → Option γ) (g : γ → δ) (as : List β) :
    (as.mapM f).map (List.map g) = as.mapM fun a => (f a).map g := by
  induction as with
  | nil => rfl
  | cons a as ih =>
    rw [mapM_cons_eq_bind, mapM_cons_eq_bind, ← ih]
    cases f a <;> cases as.mapM f <;> rfl

theorem readNamed?_map {β γ : Type} (read : Tree → Option β) (f : β → γ) (m : List Char × Tree) :
    (readNamed? read m).map (fun e => (e.1, f e.2)) = readNamed? (fun t => (read t).map f) m := by
  rw [readNamed?, readNamed?]
  cases textOf? m.1 <;> cases read m.2 <;> rfl

theorem map_fst_readNamed? {β : Type} {read : Tree → Option β} {ms : List (List Char × Tree)}
    {es : List (String × β)} (h : ms.mapM (readNamed? read) = some es) :
    es.map (·.1) = ms.filterMap (textOf? ·.1) := by
  induction ms generalizing es with
  | nil => cases h; rfl
  | cons m ms ih =>
    obtain ⟨e, rest, he, hrest, rfl⟩ := mapM_eq_some_cons.mp h
    obtain ⟨key, hkey, hvalue⟩ := Option.bind_eq_some_iff.mp he
    obtain ⟨v, -, rfl⟩ := Option.map_eq_some_iff.mp hvalue
    rw [List.map_cons, ih hrest]
    simp [hkey]

/-- A table of distinct names is the same when it is rearranged, if its values are. -/
theorem map_ofList_rearranged {item : Shape} {β : Type} {read : Tree → Option β}
    (hread : ∀ {t t'}, Rearranged (some item) t t' → Distinct t → read t = read t')
    {ms ms' : List (List Char × Tree)} (h : Rearranged (some (.table item)) (.object ms) (.object ms'))
    (hdistinct : Distinct (.object ms)) :
    (ms.mapM (readNamed? read)).map NameMap.ofList = (ms'.mapM (readNamed? read)).map NameMap.ofList := by
  cases h with
  | @object _ _ inner added _ h hadded hperm =>
    cases hdistinct with
    | object hnodup hdistinct =>
      rw [eq_nil_of_insertable hadded fun _ => not_false, List.append_nil] at hperm
      have hinner : ms.mapM (readNamed? read) = inner.mapM (readNamed? read) := by
        refine mapM_congr_map (map_members_rearranged (fun hm h => ?_) h)
        simp only [readNamed?, hread h (hdistinct _ hm)]
      rw [Option.map_eq_bind, Option.map_eq_bind, hinner]
      refine bind_mapM_perm hperm fun es es' hes hperm => ?_
      have hkeys : (es.map (·.1)).Nodup := map_fst_readNamed? (hinner.trans hes) ▸ hnodup
      exact congrArg some (NameMap.ofList_perm hperm hkeys)

theorem readChoice?_many (words : List String) (depth : Nat) (m m' : List Char × Tree)
    (ms : List (List Char × Tree)) : readChoice? words depth (.object (m :: m' :: ms)) = none := by
  obtain ⟨name, t⟩ := m
  cases t <;> rfl

/-- An object that stands for a word has one member, and nothing is put into it. -/
theorem readChoice?_rearranged {words : List String} {t t' : Tree} (depth : Nat)
    (h : Rearranged (some (.choice words)) t t') :
    readChoice? words depth t = readChoice? words depth t' := by
  cases h with
  | @object _ ms inner added ms' h hadded hperm =>
    rw [eq_nil_of_insertable hadded fun _ => not_false, List.append_nil] at hperm
    cases h with
    | nil => rw [hperm.nil_eq]
    | cons h hs =>
      cases hs with
      | nil =>
        rw [← List.singleton_perm.mp hperm]
        cases h <;> rfl
      | cons _ _ =>
        rw [readChoice?_many]
        match ms', hperm.length_eq with
        | m :: m' :: rest, _ => rw [readChoice?_many]
  | _ => rfl

theorem Shape.map_sortTables_readNamed? (item : Shape) (depth : Nat) (ms : List (List Char × Tree)) :
    (ms.mapM (readNamed? (item.ofTree? depth))).map (Shape.table item).sortTables =
      ((ms.mapM (readNamed? fun t => (item.ofTree? depth t).map item.sortTables)).map
        NameMap.ofList).map NameMap.entries := by
  have hread := funext (readNamed?_map (item.ofTree? depth) item.sortTables)
  rw [← hread, ← mapM_map_comp, Option.map_map, Option.map_map]
  rfl

theorem Fields.map_sortTables_ofTrees? (name : String) (p : Presence) (s : Shape) (rest : Fields)
    (depth : Nat) (t : Tree) (ts : List Tree) :
    ((Fields.field name p s rest).ofTrees? depth (t :: ts)).map (Fields.field name p s rest).sortTables =
      ((s.ofTree? depth t).map s.sortTables).bind fun v => (p.settle name (some v)).toOption.bind fun v =>
        ((rest.ofTrees? depth ts).map rest.sortTables).map (Prod.mk v) := by
  rw [Fields.ofTrees?]
  cases s.ofTree? depth t with
  | none => rfl
  | some v => cases p <;> cases rest.ofTrees? depth ts <;> rfl

mutual

/-- A document is read the same when it is rearranged, but for the order of tables. -/
theorem Shape.ofTree?_rearranged : (s : Shape) → (depth : Nat) → {t t' : Tree} →
    Rearranged (some s) t t' → Distinct t →
    (s.ofTree? depth t).map s.sortTables = (s.ofTree? depth t').map s.sortTables
  | .scalar s, depth, t, t', h, _ => by
    rw [Shape.ofTree?, Shape.ofTree?, glance?_rearranged h]
  | .list item, depth, t, t', h, hdistinct => by
    -- The recursive call stands before the cases on `h`, where it is seen to be on a part of the shape.
    have hitem (d : Nat) {t t' : Tree} (h : Rearranged (some item) t t') := item.ofTree?_rearranged d h
    cases h with
    | @array _ ts ts' h =>
      cases hdistinct with
      | array hdistinct =>
        simp only [Shape.ofTree?, Option.map_bind, Function.comp_def]
        refine Option.bind_congr fun d _ => ?_
        have hitems : (ts.mapM fun t => (item.ofTree? d t).map item.sortTables) =
            ts'.mapM fun t => (item.ofTree? d t).map item.sortTables :=
          mapM_congr_map (map_items_rearranged (fun ht h => hitem d h (hdistinct _ ht)) h)
        rw [← mapM_map_comp, ← mapM_map_comp] at hitems
        exact hitems
    | _ => rfl
  | .table item, depth, t, t', h, hdistinct => by
    have hitem (d : Nat) {t t' : Tree} (h : Rearranged (some item) t t') := item.ofTree?_rearranged d h
    cases h with
    | @object _ ms _ _ ms' h hadded hperm =>
      simp only [Shape.ofTree?, Option.map_bind, Function.comp_def]
      refine Option.bind_congr fun d _ => ?_
      rw [item.map_sortTables_readNamed?, item.map_sortTables_readNamed?]
      exact congrArg _ (map_ofList_rearranged (fun h ht => hitem d h ht) (.object h hadded hperm) hdistinct)
    | _ => rfl
  | .choice words, depth, t, t', h, _ => by
    rw [Shape.ofTree?, Shape.ofTree?, readChoice?_rearranged depth h]
  | .record name fields, depth, t, t', h, hdistinct => by
    have hput (d : Nat) {key : String} {t t' : Tree} {vs ws : fields.Partial}
      (h : Rearranged (fields.shapeOf? key) t t') := @Fields.putMember?_rearranged fields d key t t' vs ws h
    have hpositions (d : Nat) {ts ts' : List Tree} (h : RearrangedItems fields.shapeAt? ts ts') :=
      fields.ofTrees?_rearranged d h
    cases h with
    | @object _ ms inner added ms' h hadded hperm =>
      cases hdistinct with
      | object _ hdistinct =>
        simp only [Shape.ofTree?]
        cases enter? depth with
        | none => rfl
        | some d =>
          have hmembers := Fields.readMembers?_rearranged (hput d) h hdistinct
            (rfl : fields.sortPartial fields.blank = _)
          have horder : readMembers? (fields.putMember? d) ms' fields.blank =
              readMembers? (fields.putMember? d) inner fields.blank := by
            rw [← fields.readMembers?_perm d hperm, Fields.readMembers?_added d hadded]
          rw [← horder] at hmembers
          exact fields.settle_congr hmembers
    | array h =>
      cases hdistinct with
      | array hdistinct =>
        simp only [Shape.ofTree?, Option.map_bind, Function.comp_def]
        exact Option.bind_congr fun d _ => hpositions d h hdistinct
    | _ => rfl
  | .tagged name tag cases, depth, t, t', h, _ => by
    rw [Shape.ofTree?, Shape.ofTree?, readCases?_rearranged h]

theorem Fields.putMember?_rearranged : (f : Fields) → (depth : Nat) → {key : String} → {t t' : Tree} →
    {vs ws : f.Partial} → Rearranged (f.shapeOf? key) t t' → Distinct t →
    f.sortPartial vs = f.sortPartial ws →
    (f.putMember? depth key t vs).map f.sortPartial = (f.putMember? depth key t' ws).map f.sortPartial
  | .done, _, _, _, _, _, _, _, _, _ => rfl
  | .field name p s rest, depth, key, t, t', (v, vs), (w, ws), h, hdistinct, heq => by
    obtain ⟨hv, hvs⟩ := Prod.mk.inj heq
    rw [Fields.shapeOf?] at h
    simp only [Fields.putMember?]
    split at h
    case isTrue hkey =>
      have hvalue := s.ofTree?_rearranged depth h hdistinct
      have hfield := congrArg (Option.map fun a => (some a, rest.sortPartial vs)) hvalue
      rw [if_pos hkey, if_pos hkey]
      cases v with
      | none =>
        rw [Option.map_eq_none_iff.mp hv.symm]
        simpa [Option.map_map, Function.comp_def, Fields.sortPartial, hvs] using hfield
      | some v =>
        obtain ⟨w, rfl, -⟩ := Option.map_eq_some_iff.mp hv.symm
        rfl
    case isFalse hkey =>
      have hrest := rest.putMember?_rearranged depth h hdistinct hvs
      have hfields := congrArg (Option.map (Prod.mk (v.map s.sortTables))) hrest
      rw [if_neg hkey, if_neg hkey]
      simpa [Option.map_map, Function.comp_def, Fields.sortPartial, hv] using hfields

theorem Fields.ofTrees?_rearranged : (f : Fields) → (depth : Nat) → {ts ts' : List Tree} →
    RearrangedItems f.shapeAt? ts ts' → (∀ t ∈ ts, Distinct t) →
    (f.ofTrees? depth ts).map f.sortTables = (f.ofTrees? depth ts').map f.sortTables
  | .done, depth, ts, ts', h, _ => by
    cases h <;> rfl
  | .field name p s rest, depth, ts, ts', h, hdistinct => by
    cases h with
    | nil => rfl
    | cons h hs =>
      obtain ⟨ht, hts⟩ := List.forall_mem_cons.mp hdistinct
      rw [Fields.map_sortTables_ofTrees?, Fields.map_sortTables_ofTrees?, s.ofTree?_rearranged depth h ht,
        rest.ofTrees?_rearranged depth hs hts]

end

/-! ## Values as they are written -/

mutual

/-- Whether no object in a value has two members with one name. -/
def distinctNames : Json → Bool
  | .array items => itemsDistinct items
  | .object members => decide (members.map (·.1)).Nodup && membersDistinct members
  | .null | .bool _ | .number _ | .string _ => true

/-- Whether no object in items has two members with one name. -/
def itemsDistinct : List Json → Bool
  | [] => true
  | j :: rest => distinctNames j && itemsDistinct rest

/-- Whether no object in members has two members with one name. -/
def membersDistinct : List (String × Json) → Bool
  | [] => true
  | (_, j) :: rest => distinctNames j && membersDistinct rest

end

theorem textOf?_memberTrees (members : List (String × Json)) :
    (memberTrees members).filterMap (textOf? ·.1) = members.map (·.1) := by
  induction members with
  | nil => rfl
  | cons m members ih => simp [memberTrees, textOf?_quote, ih]

mutual

theorem distinct_tree : (j : Json) → distinctNames j = true → Distinct j.tree
  | .null, _ => .null
  | .bool b, _ => .bool b
  | .number n, _ => .number (digits n)
  | .string s, _ => .text (s.toList.flatMap escapeChar)
  | .array items, h => .array (distinct_itemTrees items h)
  | .object members, h => by
    rw [distinctNames, Bool.and_eq_true, decide_eq_true_iff, ← textOf?_memberTrees] at h
    exact .object h.1 (distinct_memberTrees members h.2)

theorem distinct_itemTrees : (items : List Json) → itemsDistinct items = true →
    ∀ t ∈ itemTrees items, Distinct t
  | [], _ => by simp [itemTrees]
  | j :: rest, h => by
    rw [itemsDistinct, Bool.and_eq_true] at h
    exact List.forall_mem_cons.mpr ⟨distinct_tree j h.1, distinct_itemTrees rest h.2⟩

theorem distinct_memberTrees : (members : List (String × Json)) → membersDistinct members = true →
    ∀ m ∈ memberTrees members, Distinct m.2
  | [], _ => by simp [memberTrees]
  | (_, j) :: rest, h => by
    rw [membersDistinct, Bool.and_eq_true] at h
    exact List.forall_mem_cons.mpr ⟨distinct_tree j h.1, distinct_memberTrees rest h.2⟩

end

theorem isDocument_compactText {j : Json} (h : j.Fits) : j.tree.IsDocument j.compactText.toList := by
  rw [compactText, String.toList_ofList]
  exact ⟨[], j.compact, [], blank_nil, (spelled_compact j h).written, blank_nil, by simp⟩

theorem RearrangedMembers.named {s : Option Shape} {key : String} {t t' : Tree}
    {ms ms' : List (List Char × Tree)} (h : Rearranged (memberShape? s (some key)) t t')
    (hs : RearrangedMembers s ms ms') :
    RearrangedMembers s ((key.toList.flatMap escapeChar, t) :: ms)
      ((key.toList.flatMap escapeChar, t') :: ms') := by
  rw [← textOf?_quote key] at h
  exact .cons h hs

theorem insertable_singleton {s : Option Shape} {key : String} {t : Tree} (h : Undeclared s key)
    (ht : IsTagged s → Plain t) : ∀ m ∈ [(key.toList.flatMap escapeChar, t)], Insertable s m :=
  List.forall_mem_singleton.mpr ⟨⟨key, textOf?_quote key, h⟩, ht⟩

/-! ## Codecs -/

namespace Codec

variable {α : Type}

/-- The order of members does not matter, and neither do members that are not declared. -/
structure IgnoresOrder (c : Codec α) : Prop where
  /-- A text stands for the same value when it is rearranged, and if it stands for none, it does so
  after. -/
  readJson_iff : ∀ {t t' : Tree} {text text' : String}, t.IsDocument text.toList → Distinct t →
    Rearranged (some c.shape) t t' → t'.IsDocument text'.toList →
    ∀ a, c.readJson text = .ok a ↔ c.readJson text' = .ok a
  /-- What is written of a value stands for it in any order. -/
  readJson_written : ∀ {a : α} {t' : Tree} {text' : String}, Distinct (c.toJson a).tree →
    Rearranged (some c.shape) (c.toJson a).tree t' → t'.IsDocument text'.toList →
    c.readJson text' = .ok a

theorem toOption_readJson (c : Codec α) {t : Tree} {text : String} (h : t.IsDocument text.toList) :
    (c.readJson text).toOption = (c.shape.ofTree? depthLimit t).map c.ofValue := by
  rw [← Shape.readJson_document c.shape h, Codec.readJson]
  exact toOption_map c.ofValue _

theorem Unordered.readJson_iff {c : Codec α} (hc : c.Unordered) {t t' : Tree} {text text' : String}
    (hdocument : t.IsDocument text.toList) (hdistinct : Distinct t)
    (h : Rearranged (some c.shape) t t') (hdocument' : t'.IsDocument text'.toList) (a : α) :
    c.readJson text = .ok a ↔ c.readJson text' = .ok a := by
  have hsorted (v : Option c.shape.Value) : v.map c.ofValue = (v.map c.shape.sortTables).map c.ofValue := by
    rw [Option.map_map]
    exact congrArg (Option.map · v) (funext fun v => (hc v).symm)
  have hread : (c.readJson text).toOption = (c.readJson text').toOption := by
    rw [c.toOption_readJson hdocument, c.toOption_readJson hdocument', hsorted,
      c.shape.ofTree?_rearranged depthLimit h hdistinct, ← hsorted]
  rw [← toOption_eq_some_iff, ← toOption_eq_some_iff, hread]

theorem Unordered.ignoresOrder {c : Codec α} (hc : c.Unordered) (hwf : c.shape.WellFormed)
    (hheight : c.shape.height < depthLimit) : c.IgnoresOrder := by
  refine ⟨hc.readJson_iff, fun {a t' text'} hdistinct h hdocument' => ?_⟩
  have hfits : (c.toJson a).Fits := c.shape.fits_toJson (c.toValue a)
  have hread : c.readJson (c.compact a) = .ok a := c.readJson_spelled hwf hheight (spelled_compact _ hfits)
  exact (hc.readJson_iff (isDocument_compactText hfits) hdistinct h hdocument' a).mp hread

end Codec

end Document

/-- The order of members does not matter in settings, units of code and reports, and neither do members
that they do not declare. -/
theorem member_order_ignored : ProjectConfig.codec.IgnoresOrder ∧ AnalysisUnits.codec.IgnoresOrder ∧
    AuditReport.codec.IgnoresOrder := by
  have hunits : AnalysisUnits.codec.Unordered := Codec.unordered_of_tableFree (by decide)
  have hreport : AuditReport.codec.Unordered := Codec.unordered_of_tableFree (by decide)
  exact ⟨ProjectConfig.unordered_codec.ignoresOrder (by decide) (by decide),
    hunits.ignoresOrder (by decide) (by decide), hreport.ignoresOrder (by decide) (by decide)⟩

/-- Units with an instruction whose kind stands last, behind a member that instructions do not have. -/
theorem member_order_ignored_instruction :
    AnalysisUnits.codec.readJson (Json.compactText (.object
      [ ("note", .null), ("call_sites", .array []), ("types", .array []),
        ("classes", .array [.object
          [ ("methods", .array [.object
              [ ("instructions", .array [.object
                  [("seen", .bool true), ("opcode", .string "nop"), ("kind", .string "other")]]),
                ("declaring_type", .string ""), ("name", .string "run") ]]),
            ("interfaces", .array []), ("name", .string "A") ]]) ])) =
      .ok ⟨[⟨"A", [], [⟨"run", "", [.other "nop"]⟩]⟩], [], []⟩ := by
  have hnone {s : Option Shape} : ∀ m ∈ ([] : List (List Char × Json.Tree)), Insertable s m := by simp
  have hinstruction : Rearranged (some Instruction.codec.shape)
      (Json.object [("kind", .string "other"), ("opcode", .string "nop")]).tree
      (Json.object [("seen", .bool true), ("opcode", .string "nop"), ("kind", .string "other")]).tree :=
    .object (.named (.text _) (.named (.text _) .nil)) (insertable_singleton (by decide) fun _ => .bool true)
      (List.reverse_perm _).symm
  refine member_order_ignored.2.1.readJson_written (distinct_tree _ (by decide)) ?_
    (isDocument_compactText (by simp [Json.Fits, Json.fitsItems, Json.fitsMembers]))
  -- All members are in reverse order, those that are put in at the front.
  refine .object (.named (.array (.cons ?_ .nil)) (.named (.array .nil) (.named (.array .nil) .nil)))
    (insertable_singleton (by decide) fun _ => .null) (List.reverse_perm _).symm
  refine .object (.named (.text _) (.named (.array .nil) (.named (.array (.cons ?_ .nil)) .nil))) hnone
    (List.reverse_perm _).symm
  exact .object (.named (.text _) (.named (.text _) (.named (.array (.cons hinstruction .nil)) .nil)))
    hnone (List.reverse_perm _).symm

/-- The text of units with one instruction, by the text of this. -/
def unitsText (instruction : String) : String :=
  "\x7b\"classes\":[\x7b\"name\":\"A\",\"methods\":[\x7b\"name\":\"m\",\"instructions\":[" ++ instruction ++
    "]\x7d]\x7d]\x7d"

/-- Half a surrogate pair is refused in an unknown member of an instruction, and in the name of an unknown
member of any record. -/
theorem unpaired_surrogate_refused :
    AnalysisUnits.codec.readJson (unitsText "\x7b\"kind\":\"label\"\x7d") =
        .ok ⟨[⟨"A", [], [⟨"m", "", [.label]⟩]⟩], [], []⟩ ∧
      (AnalysisUnits.codec.readJson
        (unitsText "\x7b\"kind\":\"label\",\"x\":\"\\ud800\"\x7d")).toOption = none ∧
      AnalysisUnits.codec.readJson "\x7b\x7d" = .ok ⟨[], [], []⟩ ∧
      (AnalysisUnits.codec.readJson "\x7b\"\\ud800\":null\x7d").toOption = none := by
  refine ⟨toOption_eq_some_iff.mp ?_, ?_, toOption_eq_some_iff.mp ?_, ?_⟩ <;> decide +kernel

end AndroidAudit
