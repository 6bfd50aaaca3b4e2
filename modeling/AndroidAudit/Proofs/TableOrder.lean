import Mathlib.Data.List.Nodup
import Mathlib.Data.List.Perm.Basic
import AndroidAudit.Format.Project

/-!
# The order of tables does not matter

What is read from a table is a list of its entries, as they stand in the document. `Shape.sortTables` puts
the tables of a value in order, and `Codec.Unordered` says that a value is the same when this is done
first. It holds where there are no tables (`Codec.unordered_of_tableFree`) and for the table of settings,
which a `NameMap` is made of (`ProjectConfig.unordered_codec`). Entries with distinct names give the same
map in any order (`NameMap.ofList_perm`).
-/

namespace AndroidAudit

/-! ## Tables -/

namespace NameMap

variable {α β : Type}

/-- A new name is put among the others. -/
theorem perm_insertEntry {k : String} {v : α} {es : List (String × α)} (h : k ∉ es.map (·.1)) :
    (insertEntry k v es).Perm ((k, v) :: es) := by
  induction es with
  | nil => rfl
  | cons e es ih =>
    rw [List.map_cons, List.mem_cons, not_or] at h
    rw [insertEntry]
    split
    · rfl
    · rw [if_neg h.1]
      exact ((ih h.2).cons e).trans (.swap _ _ _)

theorem perm_foldl_insert {es : List (String × α)} {m : NameMap α}
    (h : ((es ++ m.entries).map (·.1)).Nodup) :
    (es.foldl (fun m e => m.insert e.1 e.2) m).entries.Perm (es ++ m.entries) := by
  induction es generalizing m with
  | nil => rfl
  | cons e es ih =>
    rw [List.cons_append, List.map_cons, List.nodup_cons] at h
    have hnew : e.1 ∉ m.entries.map (·.1) := fun he => h.1 (by simp [he])
    have hinsert : (m.insert e.1 e.2).entries.Perm (e :: m.entries) := perm_insertEntry hnew
    have hmiddle : (es ++ (m.insert e.1 e.2).entries).Perm (e :: (es ++ m.entries)) :=
      (hinsert.append_left es).trans List.perm_middle
    rw [List.foldl_cons]
    refine (ih ?_).trans hmiddle
    rw [(hmiddle.map _).nodup_iff, List.map_cons, List.nodup_cons]
    exact h

/-- Writes of distinct names give the same table in any order. -/
theorem ofList_perm {es es' : List (String × α)} (h : es.Perm es') (hes : (es.map (·.1)).Nodup) :
    ofList es = ofList es' := by
  have hentries {es : List (String × α)} (hes : (es.map (·.1)).Nodup) : (ofList es).entries.Perm es := by
    have hperm : (ofList es).entries.Perm (es ++ []) := perm_foldl_insert (by simpa [empty] using hes)
    simpa using hperm
  have hperm := (hentries hes).trans (h.trans (hentries ((h.map _).nodup_iff.mp hes)).symm)
  have hasymm : ∀ a b : String × α, a ∈ (ofList es).entries → b ∈ (ofList es').entries →
      a.1 < b.1 → b.1 < a.1 → a = b :=
    fun a b _ _ hab hba => absurd hba (String.lt_asymm hab)
  exact ext (hperm.eq_of_pairwise hasymm (ofList es).sorted (ofList es').sorted)

theorem insertEntry_map (f : α → β) (k : String) (v : α) (es : List (String × α)) :
    insertEntry k (f v) (es.map fun e => (e.1, f e.2)) =
      (insertEntry k v es).map fun e => (e.1, f e.2) := by
  induction es with
  | nil => rfl
  | cons e es ih =>
    simp only [insertEntry, List.map_cons]
    split
    · rfl
    · split
      · rfl
      · rw [ih]; rfl

theorem entries_ofList_map (f : α → β) (es : List (String × α)) :
    (ofList (es.map fun e => (e.1, f e.2))).entries = (ofList es).entries.map fun e => (e.1, f e.2) := by
  have hfold (m : NameMap α) (n : NameMap β) (h : n.entries = m.entries.map fun e => (e.1, f e.2)) :
      ((es.map fun e => (e.1, f e.2)).foldl (fun m e => m.insert e.1 e.2) n).entries =
        (es.foldl (fun m e => m.insert e.1 e.2) m).entries.map fun e => (e.1, f e.2) := by
    induction es generalizing m n with
    | nil => exact h
    | cons e es ih =>
      refine ih (m.insert e.1 e.2) (n.insert e.1 (f e.2)) ?_
      exact (congrArg (insertEntry e.1 (f e.2)) h).trans (insertEntry_map f e.1 e.2 m.entries)
  exact hfold empty empty rfl

end NameMap

namespace Document

/-! ## Values up to the order of tables -/

/-- What a field holds, changed if it is there. -/
def Presence.mapValue {α β : Type} (f : α → β) : (p : Presence) → p.Value α → p.Value β
  | .required, v => f v
  | .optional, v => Option.map f v

mutual

/-- A value with its tables in rising order of their names. -/
def Shape.sortTables : (s : Shape) → s.Value → s.Value
  | .scalar _, v => v
  | .list item, vs => List.map item.sortTables vs
  | .table item, vs => (NameMap.ofList (List.map (fun e => (e.1, item.sortTables e.2)) vs)).entries
  | .choice _, v => v
  | .record _ fields, v => fields.sortTables v
  | .tagged _ _ _, v => v

/-- The values of fields with their tables in rising order of their names. -/
def Fields.sortTables : (f : Fields) → f.Value → f.Value
  | .done, () => ()
  | .field _ p s rest, (v, vs) => (p.mapValue s.sortTables v, rest.sortTables vs)

end

mutual

/-- Whether a document has no tables. -/
def Shape.tableFree : Shape → Bool
  | .list item => item.tableFree
  | .table _ => false
  | .record _ fields => fields.tableFree
  | .scalar _ | .choice _ | .tagged _ _ _ => true

/-- Whether fields hold no tables. -/
def Fields.tableFree : Fields → Bool
  | .done => true
  | .field _ _ s rest => s.tableFree && rest.tableFree

end

theorem Presence.mapValue_id {α : Type} {f : α → α} (h : ∀ a, f a = a) (p : Presence) (v : p.Value α) :
    p.mapValue f v = v := by
  cases p with
  | required => exact h v
  | optional => exact (congrArg (Option.map · v) (funext h)).trans (Option.map_id_apply)

mutual

theorem Shape.sortTables_of_tableFree : (s : Shape) → s.tableFree = true → (v : s.Value) →
    s.sortTables v = v
  | .scalar _, _, _ => rfl
  | .list item, h, vs => by
    have hitem := item.sortTables_of_tableFree h
    exact (congrArg (List.map · vs) (funext hitem)).trans (List.map_id vs)
  | .choice _, _, _ => rfl
  | .record _ fields, h, v => fields.sortTables_of_tableFree h v
  | .tagged _ _ _, _, _ => rfl

theorem Fields.sortTables_of_tableFree : (f : Fields) → f.tableFree = true → (v : f.Value) →
    f.sortTables v = v
  | .done, _, _ => rfl
  | .field _ p s rest, h, (v, vs) => by
    rw [Fields.tableFree, Bool.and_eq_true] at h
    rw [Fields.sortTables, Presence.mapValue_id (s.sortTables_of_tableFree h.1),
      rest.sortTables_of_tableFree h.2]

end

namespace Codec

variable {α : Type}

/-- Whether values do not depend on the order of the tables they are read from. -/
def Unordered (c : Codec α) : Prop := ∀ v, c.ofValue (c.shape.sortTables v) = c.ofValue v

theorem unordered_of_tableFree {c : Codec α} (h : c.shape.tableFree = true) : c.Unordered :=
  fun v => congrArg c.ofValue (c.shape.sortTables_of_tableFree h v)

theorem unordered_table {c : Codec α} (h : c.Unordered) : c.table.Unordered := by
  intro (es : List (String × c.shape.Value))
  have hvalues : (List.map (fun e => (e.1, c.shape.sortTables e.2)) es).map (fun e => (e.1, c.ofValue e.2)) =
      List.map (fun e => (e.1, c.ofValue e.2)) es := by
    rw [List.map_map]
    exact List.map_congr_left fun e _ => congrArg (Prod.mk e.1) (h e.2)
  calc c.table.ofValue (c.table.shape.sortTables es)
    _ = NameMap.ofList ((NameMap.ofList (List.map (fun e => (e.1, c.shape.sortTables e.2)) es)).entries.map
          fun e => (e.1, c.ofValue e.2)) := rfl
    _ = NameMap.ofList (NameMap.ofList (List.map (fun e => (e.1, c.ofValue e.2)) es)).entries := by
      rw [← NameMap.entries_ofList_map, hvalues]
    _ = c.table.ofValue es := NameMap.ofList_entries _

end Codec

end Document

open Document

theorem ProjectConfig.unordered_codec : ProjectConfig.codec.Unordered := by
  rintro ⟨name, description, version, report, disabled, overrides, policy, calls, ⟨⟩⟩
  have hfree (s : Shape) (h : s.tableFree = true) : s.sortTables = id :=
    funext (s.sortTables_of_tableFree h)
  have hseverity : Severity.codec.Unordered := Codec.unordered_of_tableFree (by decide)
  have htable : Option.map (Codec.table Severity.codec).ofValue
      (Option.map (Codec.table Severity.codec).shape.sortTables overrides) =
        Option.map (Codec.table Severity.codec).ofValue overrides := by
    rw [Option.map_map]
    exact congrArg (Option.map · overrides) (funext (Codec.unordered_table hseverity))
  show ProjectConfig.codec.ofValue (name, Option.map Shape.nullableText.sortTables description, version,
    Option.map Shape.flag.sortTables report, Option.map Codec.names.shape.sortTables disabled,
    Option.map (Codec.table Severity.codec).shape.sortTables overrides,
    Option.map NativeCodePolicy.codec.shape.sortTables policy,
    Option.map (Codec.list UnsafeCall.codec).shape.sortTables calls, ()) = _
  rw [hfree .nullableText rfl, hfree .flag rfl, hfree Codec.names.shape rfl,
    hfree NativeCodePolicy.codec.shape rfl, hfree (Codec.list UnsafeCall.codec).shape rfl]
  simp only [ProjectConfig.codec, Option.map_id_fun, id_eq, htable]

end AndroidAudit
