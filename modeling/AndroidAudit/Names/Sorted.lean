/-!
# Sorted names

A `NameSet` is a set of names and a `NameMap` a table from names, both kept in rising order of their
names, so that equal sets and equal tables are equal values. Writing a name that a table already has
replaces what it held.
-/

namespace AndroidAudit

theorem lt_of_not_lt_of_ne {a b : String} (h : ¬ a < b) (hne : a ≠ b) : b < a := by
  rcases String.le_total a b with h' | h'
  · exact absurd (String.le_antisymm h' (String.not_lt.mp h)) hne
  · exact Decidable.byContradiction fun hba =>
      hne (String.le_antisymm (String.not_lt.mp hba) (String.not_lt.mp h))

/-! ## Tables -/

/-- A table from names to values, in rising order of the names. -/
structure NameMap (α : Type) where
  entries : List (String × α)
  sorted : entries.Pairwise (fun a b => a.1 < b.1)
  deriving DecidableEq

namespace NameMap

variable {α : Type}

/-- Puts a name and its value in place, over a value that the name already has. -/
def insertEntry (k : String) (v : α) : List (String × α) → List (String × α)
  | [] => [(k, v)]
  | (k', v') :: rest =>
    if k < k' then (k, v) :: (k', v') :: rest
    else if k = k' then (k, v) :: rest
    else (k', v') :: insertEntry k v rest

theorem mem_insertEntry {k : String} {v : α} {es : List (String × α)} {e : String × α}
    (h : e ∈ insertEntry k v es) : e = (k, v) ∨ e ∈ es := by
  induction es with
  | nil => simpa [insertEntry] using h
  | cons e' rest ih =>
    simp only [insertEntry] at h
    split at h
    · simpa using h
    · split at h
      · rcases List.mem_cons.mp h with h | h
        · exact .inl h
        · exact .inr (List.mem_cons_of_mem _ h)
      · rcases List.mem_cons.mp h with h | h
        · exact .inr (h ▸ List.mem_cons_self)
        · rcases ih h with h | h
          · exact .inl h
          · exact .inr (List.mem_cons_of_mem _ h)

theorem sorted_insertEntry (k : String) (v : α) {es : List (String × α)}
    (h : es.Pairwise (fun a b => a.1 < b.1)) :
    (insertEntry k v es).Pairwise (fun a b => a.1 < b.1) := by
  induction es with
  | nil => simp [insertEntry]
  | cons e rest ih =>
    obtain ⟨he, hrest⟩ := List.pairwise_cons.mp h
    simp only [insertEntry]
    split
    · next hlt =>
      refine List.pairwise_cons.mpr ⟨fun x hx => ?_, h⟩
      rcases List.mem_cons.mp hx with hx | hx
      · exact hx ▸ hlt
      · exact String.lt_trans hlt (he x hx)
    · next hnlt =>
      split
      · next heq => exact List.pairwise_cons.mpr ⟨fun x hx => heq ▸ he x hx, hrest⟩
      · next hne =>
        refine List.pairwise_cons.mpr ⟨fun x hx => ?_, ih hrest⟩
        rcases mem_insertEntry hx with hx | hx
        · exact hx ▸ lt_of_not_lt_of_ne hnlt hne
        · exact he x hx

/-- The table that holds nothing. -/
def empty : NameMap α := ⟨[], .nil⟩

/-- The table with one name written. -/
def insert (m : NameMap α) (k : String) (v : α) : NameMap α :=
  ⟨insertEntry k v m.entries, sorted_insertEntry k v m.sorted⟩

/-- What the table holds for a name. -/
def get? (m : NameMap α) (k : String) : Option α := m.entries.lookup k

/-- The table of a list of writes, the later ones over the earlier. -/
def ofList (es : List (String × α)) : NameMap α :=
  es.foldl (fun m e => m.insert e.1 e.2) empty

/-- The names of a table, in rising order. -/
def names (m : NameMap α) : List String := m.entries.map (·.1)

@[ext] theorem ext {m m' : NameMap α} (h : m.entries = m'.entries) : m = m' := by
  cases m; cases m'; simp_all

theorem lookup_insertEntry (k : String) (v : α) (es : List (String × α)) (k' : String) :
    (insertEntry k v es).lookup k' = if k' = k then some v else es.lookup k' := by
  by_cases h : k' = k
  · subst h
    rw [if_pos rfl]
    induction es with
    | nil => simp [insertEntry]
    | cons e rest ih =>
      obtain ⟨k, v'⟩ := e
      simp only [insertEntry]
      split
      · simp
      · split
        · simp
        · next hne =>
          have hb : (k' == k) = false := beq_eq_false_iff_ne.mpr hne
          simp only [List.lookup_cons, hb, ih]
  · have hb : (k' == k) = false := beq_eq_false_iff_ne.mpr h
    rw [if_neg h]
    induction es with
    | nil => simp [insertEntry, List.lookup_cons, hb]
    | cons e rest ih =>
      obtain ⟨k₁, v'⟩ := e
      simp only [insertEntry]
      split
      · rw [List.lookup_cons, hb]
      · split
        · next heq =>
          rw [List.lookup_cons, List.lookup_cons, ← heq, hb]
        · rw [List.lookup_cons, List.lookup_cons, ih]

/-- A table holds what was written, and else what it held. -/
theorem get?_insert (m : NameMap α) (k : String) (v : α) (k' : String) :
    (m.insert k v).get? k' = if k' = k then some v else m.get? k' :=
  lookup_insertEntry k v m.entries k'

/-- A name greater than all others goes to the end. -/
theorem insertEntry_of_lt {k : String} {v : α} {es : List (String × α)}
    (h : ∀ e ∈ es, e.1 < k) : insertEntry k v es = es ++ [(k, v)] := by
  induction es with
  | nil => rfl
  | cons e rest ih =>
    have he : e.1 < k := h e List.mem_cons_self
    have hne : k ≠ e.1 := fun heq => String.lt_irrefl k (by rw [heq] at he ⊢; exact he)
    simp only [insertEntry, String.lt_asymm he, hne, if_false, List.cons_append]
    rw [ih fun x hx => h x (List.mem_cons_of_mem _ hx)]

/-- Writing entries that rise from those of a table puts them behind these. -/
theorem entries_foldl_insert (m : NameMap α) (es : List (String × α))
    (h : (m.entries ++ es).Pairwise (fun a b => a.1 < b.1)) :
    (es.foldl (fun m e => m.insert e.1 e.2) m).entries = m.entries ++ es := by
  induction es generalizing m with
  | nil => simp
  | cons e rest ih =>
    have hm : (m.insert e.1 e.2).entries = m.entries ++ [e] :=
      insertEntry_of_lt fun x hx => (List.pairwise_append.mp h).2.2 x hx e List.mem_cons_self
    rw [List.foldl_cons, ih (m.insert e.1 e.2) (by rw [hm]; simpa using h), hm]
    simp

/-- Writing the entries of a table anew gives the table. -/
theorem ofList_entries (m : NameMap α) : ofList m.entries = m :=
  ext (by rw [ofList, entries_foldl_insert empty m.entries m.sorted]; rfl)

end NameMap

/-! ## Sets -/

/-- A set of names, in rising order. -/
structure NameSet where
  names : List String
  sorted : names.Pairwise (· < ·)
  deriving DecidableEq

namespace NameSet

/-- Puts a name in place, unless it is there. -/
def insertName (k : String) : List String → List String
  | [] => [k]
  | k' :: rest =>
    if k < k' then k :: k' :: rest
    else if k = k' then k' :: rest
    else k' :: insertName k rest

theorem mem_insertName {k x : String} {ks : List String} (h : x ∈ insertName k ks) :
    x = k ∨ x ∈ ks := by
  induction ks with
  | nil => simpa [insertName] using h
  | cons k' rest ih =>
    simp only [insertName] at h
    split at h
    · simpa using h
    · split at h
      · exact .inr h
      · rcases List.mem_cons.mp h with h | h
        · exact .inr (h ▸ List.mem_cons_self)
        · rcases ih h with h | h
          · exact .inl h
          · exact .inr (List.mem_cons_of_mem _ h)

theorem sorted_insertName (k : String) {ks : List String} (h : ks.Pairwise (· < ·)) :
    (insertName k ks).Pairwise (· < ·) := by
  induction ks with
  | nil => simp [insertName]
  | cons k' rest ih =>
    obtain ⟨hk, hrest⟩ := List.pairwise_cons.mp h
    simp only [insertName]
    split
    · next hlt =>
      refine List.pairwise_cons.mpr ⟨fun x hx => ?_, h⟩
      rcases List.mem_cons.mp hx with hx | hx
      · exact hx ▸ hlt
      · exact String.lt_trans hlt (hk x hx)
    · next hnlt =>
      split
      · exact h
      · next hne =>
        refine List.pairwise_cons.mpr ⟨fun x hx => ?_, ih hrest⟩
        rcases mem_insertName hx with hx | hx
        · exact hx ▸ lt_of_not_lt_of_ne hnlt hne
        · exact hk x hx

/-- The set without names. -/
def empty : NameSet := ⟨[], .nil⟩

/-- The set with one name more. -/
def insert (s : NameSet) (k : String) : NameSet :=
  ⟨insertName k s.names, sorted_insertName k s.sorted⟩

/-- The set of the names of a list. -/
def ofList (ks : List String) : NameSet := ks.foldl insert empty

/-- Whether a name is in the set. -/
def contains (s : NameSet) (k : String) : Bool := s.names.contains k

/-- Whether the set has no name. -/
def isEmpty (s : NameSet) : Bool := s.names.isEmpty

@[ext] theorem ext {s s' : NameSet} (h : s.names = s'.names) : s = s' := by
  cases s; cases s'; simp_all

theorem mem_insertName_iff {k x : String} {ks : List String} :
    x ∈ insertName k ks ↔ x = k ∨ x ∈ ks := by
  refine ⟨mem_insertName, fun h => ?_⟩
  induction ks with
  | nil => simpa [insertName] using h
  | cons k' rest ih =>
    simp only [insertName]
    split
    · simpa using h
    · split
      · next heq => rcases h with rfl | h <;> simp_all
      · rcases h with rfl | h
        · exact List.mem_cons_of_mem _ (ih (.inl rfl))
        · rcases List.mem_cons.mp h with h | h
          · exact h ▸ List.mem_cons_self
          · exact List.mem_cons_of_mem _ (ih (.inr h))

theorem contains_insert (s : NameSet) (k x : String) :
    (s.insert k).contains x = (x == k || s.contains x) := by
  rw [Bool.eq_iff_iff]
  simp [contains, insert, mem_insertName_iff]

theorem mem_foldl_insert {s : NameSet} {ks : List String} {x : String} :
    x ∈ (ks.foldl insert s).names ↔ x ∈ s.names ∨ x ∈ ks := by
  induction ks generalizing s with
  | nil => simp
  | cons k rest ih =>
    rw [List.foldl_cons, ih, insert, mem_insertName_iff, List.mem_cons, or_comm (a := x = k), or_assoc]

theorem mem_ofList {ks : List String} {x : String} : x ∈ (ofList ks).names ↔ x ∈ ks := by
  simp [ofList, mem_foldl_insert, empty]

/-- A name greater than all others goes to the end. -/
theorem insertName_of_lt {k : String} {ks : List String} (h : ∀ x ∈ ks, x < k) :
    insertName k ks = ks ++ [k] := by
  induction ks with
  | nil => rfl
  | cons x rest ih =>
    have hx : x < k := h x List.mem_cons_self
    have hne : k ≠ x := fun heq => String.lt_irrefl k (by rw [heq] at hx ⊢; exact hx)
    simp only [insertName, String.lt_asymm hx, hne, if_false, List.cons_append]
    rw [ih fun y hy => h y (List.mem_cons_of_mem _ hy)]

/-- Adding names that rise from those of a set puts them behind these. -/
theorem names_foldl_insert (s : NameSet) (ks : List String)
    (h : (s.names ++ ks).Pairwise (· < ·)) : (ks.foldl insert s).names = s.names ++ ks := by
  induction ks generalizing s with
  | nil => simp
  | cons k rest ih =>
    have hs : (s.insert k).names = s.names ++ [k] :=
      insertName_of_lt fun x hx => (List.pairwise_append.mp h).2.2 x hx k List.mem_cons_self
    rw [List.foldl_cons, ih (s.insert k) (by rw [hs]; simpa using h), hs]
    simp

/-- Adding the names of a set anew gives the set. -/
theorem ofList_names (s : NameSet) : ofList s.names = s :=
  ext (by rw [ofList, names_foldl_insert empty s.names s.sorted]; rfl)

end NameSet

end AndroidAudit
