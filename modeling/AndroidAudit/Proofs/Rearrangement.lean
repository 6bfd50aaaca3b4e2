import Mathlib.Data.List.Perm.Basic
import AndroidAudit.Proofs.DocumentTrees
import AndroidAudit.Proofs.ShapeReading

/-!
# Rearranged documents

`Rearranged s t t'` says that `t'` is `t` with the members of objects in another order, at any depth, and
with members put into records that the shape `s` does not declare. Where no shape tells how a value is
read, as in unknown members and in the fields of tagged records, members only change places.

Members are read one after the other. Steps that commute lead to the same end in any order
(`foldlM_perm`), and so do steps that lead nowhere, wherever they stand (`foldlM_append_idle`).
-/

namespace AndroidAudit.Document

open Json

/-! ## What may be done to a document -/

/-- The shape of the field with a name. -/
def Fields.shapeOf? : Fields → String → Option Shape
  | .done, _ => none
  | .field name _ s rest, key => if key = name then some s else rest.shapeOf? key

/-- The shape of the field at a position. -/
def Fields.shapeAt? : Fields → Nat → Option Shape
  | .done, _ => none
  | .field _ _ s _, 0 => some s
  | .field _ _ _ rest, i + 1 => rest.shapeAt? i

/-- The shape that a member of an object is read by, if it is read by any: members with unknown names
are passed over, and those of tagged records are kept as they are found. -/
def memberShape? : Option Shape → Option String → Option Shape
  | some (.table item), _ => some item
  | some (.record _ fields), some name => fields.shapeOf? name
  | _, _ => none

/-- The shapes that the items of a list are read by. -/
def itemShape? : Option Shape → Nat → Option Shape
  | some (.list item), _ => some item
  | some (.record _ fields), i => fields.shapeAt? i
  | _, _ => none

/-- A name that the documents of a shape do not declare. Only records have unknown members. -/
def Undeclared : Option Shape → String → Prop
  | some (.record _ fields), name => name ∉ fields.names
  | some (.tagged _ tag cases), name => name ≠ tag ∧ ∀ c ∈ cases, name ∉ c.slots.map (·.name)
  | _, _ => False

instance Undeclared.decidable : (s : Option Shape) → (name : String) → Decidable (Undeclared s name)
  | some (.record _ fields), name => inferInstanceAs (Decidable (name ∉ fields.names))
  | some (.tagged _ tag cases), name =>
    inferInstanceAs (Decidable (name ≠ tag ∧ ∀ c ∈ cases, name ∉ c.slots.map (·.name)))
  | some (.scalar _), _ | some (.list _), _ | some (.table _), _ | some (.choice _), _ | none, _ =>
    inferInstanceAs (Decidable False)

/-- A text, a truth value or null. A string with half a surrogate pair is no text. -/
inductive Plain : Tree → Prop where
  | null : Plain .null
  | bool (b : Bool) : Plain (.bool b)
  | text {body : List Char} {s : String} : textOf? body = some s → Plain (.text body)

/-- The shape of a tagged record. -/
def IsTagged : Option Shape → Prop
  | some (.tagged _ _ _) => True
  | _ => False

/-- A member that may be put into an object of a shape. Records pass over unknown members, whatever they
hold. Tagged records keep them, so what they hold must be readable. -/
def Insertable (s : Option Shape) (m : List Char × Tree) : Prop :=
  (∃ name, textOf? m.1 = some name ∧ Undeclared s name) ∧ (IsTagged s → Plain m.2)

mutual

/-- A tree of a shape with the members of objects in another order, at any depth, and with members put
into records that these do not declare. -/
inductive Rearranged : Option Shape → Tree → Tree → Prop where
  | null {s : Option Shape} : Rearranged s .null .null
  | bool {s : Option Shape} (b : Bool) : Rearranged s (.bool b) (.bool b)
  | number {s : Option Shape} (numeral : List Char) : Rearranged s (.number numeral) (.number numeral)
  | text {s : Option Shape} (body : List Char) : Rearranged s (.text body) (.text body)
  | array {s : Option Shape} {ts ts' : List Tree} : RearrangedItems (itemShape? s) ts ts' →
      Rearranged s (.array ts) (.array ts')
  | object {s : Option Shape} {ms inner added ms' : List (List Char × Tree)} :
      RearrangedMembers s ms inner → (∀ m ∈ added, Insertable s m) → (inner ++ added).Perm ms' →
      Rearranged s (.object ms) (.object ms')

/-- Items of some shapes, one by one. -/
inductive RearrangedItems : (Nat → Option Shape) → List Tree → List Tree → Prop where
  | nil {shapes : Nat → Option Shape} : RearrangedItems shapes [] []
  | cons {shapes : Nat → Option Shape} {t t' : Tree} {ts ts' : List Tree} :
      Rearranged (shapes 0) t t' → RearrangedItems (fun i => shapes (i + 1)) ts ts' →
      RearrangedItems shapes (t :: ts) (t' :: ts')

/-- Members of an object of a shape, one by one. -/
inductive RearrangedMembers : Option Shape → List (List Char × Tree) → List (List Char × Tree) → Prop where
  | nil {s : Option Shape} : RearrangedMembers s [] []
  | cons {s : Option Shape} {name : List Char} {t t' : Tree} {ms ms' : List (List Char × Tree)} :
      Rearranged (memberShape? s (textOf? name)) t t' → RearrangedMembers s ms ms' →
      RearrangedMembers s ((name, t) :: ms) ((name, t') :: ms')

end

/-- No object of a tree has two members with one name. -/
inductive Distinct : Tree → Prop where
  | null : Distinct .null
  | bool (b : Bool) : Distinct (.bool b)
  | number (numeral : List Char) : Distinct (.number numeral)
  | text (body : List Char) : Distinct (.text body)
  | array {ts : List Tree} : (∀ t ∈ ts, Distinct t) → Distinct (.array ts)
  | object {ms : List (List Char × Tree)} : (ms.filterMap (textOf? ·.1)).Nodup →
      (∀ m ∈ ms, Distinct m.2) → Distinct (.object ms)

theorem eq_nil_of_insertable {s : Option Shape} {added : List (List Char × Tree)}
    (hadded : ∀ m ∈ added, Insertable s m) (h : ∀ name, ¬ Undeclared s name) : added = [] := by
  refine List.eq_nil_iff_forall_not_mem.mpr fun m hm => ?_
  obtain ⟨⟨name, -, hname⟩, -⟩ := hadded m hm
  exact h name hname

/-! ## Steps in any order -/

section

variable {σ β γ : Type}

/-- Steps that can be taken in any order lead to the same end. -/
theorem foldlM_perm {step : σ → β → Option σ}
    (hcomm : ∀ s a b, (step s a).bind (step · b) = (step s b).bind (step · a)) {as bs : List β}
    (h : as.Perm bs) (s : σ) : as.foldlM step s = bs.foldlM step s := by
  induction h generalizing s with
  | nil => rfl
  | cons a _ ih => simp only [List.foldlM_cons, ih]
  | swap a b as =>
    have hswap := congrArg (Option.bind · fun s => as.foldlM step s) (hcomm s b a)
    simpa [Option.bind_assoc] using hswap
  | trans _ _ ih₁ ih₂ => exact (ih₁ s).trans (ih₂ s)

/-- Steps that lead nowhere may be left out at the end. -/
theorem foldlM_append_idle {step : σ → β → Option σ} {as bs : List β}
    (h : ∀ b ∈ bs, ∀ s, step s b = some s) (s : σ) : (as ++ bs).foldlM step s = as.foldlM step s := by
  have hidle (s : σ) : bs.foldlM step s = some s := by
    induction bs with
    | nil => rfl
    | cons b bs ih =>
      obtain ⟨hb, hbs⟩ := List.forall_mem_cons.mp h
      rw [List.foldlM_cons, hb]
      exact ih hbs
  rw [List.foldlM_append]
  simp [hidle]

theorem mapM_eq_some_cons {f : β → Option γ} {a : β} {as : List β} {vs : List γ} :
    (a :: as).mapM f = some vs ↔ ∃ v ws, f a = some v ∧ as.mapM f = some ws ∧ v :: ws = vs := by
  rw [mapM_cons_eq_bind]
  simp [Option.bind_eq_some_iff, Option.map_eq_some_iff]

/-- What is made of a list in another order is in that order. -/
theorem mapM_perm {f : β → Option γ} {as bs : List β} (h : as.Perm bs) {vs : List γ}
    (hvs : as.mapM f = some vs) : ∃ ws, bs.mapM f = some ws ∧ vs.Perm ws := by
  induction h generalizing vs with
  | nil => exact ⟨vs, hvs, .refl _⟩
  | cons a _ ih =>
    obtain ⟨v, us, ha, hus, rfl⟩ := mapM_eq_some_cons.mp hvs
    obtain ⟨ws, hws, hperm⟩ := ih hus
    exact ⟨v :: ws, mapM_eq_some_cons.mpr ⟨v, ws, ha, hws, rfl⟩, hperm.cons v⟩
  | swap a b as =>
    obtain ⟨v, _, hb, hrest, rfl⟩ := mapM_eq_some_cons.mp hvs
    obtain ⟨w, us, ha, hus, rfl⟩ := mapM_eq_some_cons.mp hrest
    have hswap : (b :: as).mapM f = some (v :: us) := mapM_eq_some_cons.mpr ⟨v, us, hb, hus, rfl⟩
    exact ⟨w :: v :: us, mapM_eq_some_cons.mpr ⟨w, _, ha, hswap, rfl⟩, .swap w v us⟩
  | trans _ _ ih₁ ih₂ =>
    obtain ⟨us, hus, hperm⟩ := ih₁ hvs
    obtain ⟨ws, hws, hperm'⟩ := ih₂ hus
    exact ⟨ws, hws, hperm.trans hperm'⟩

/-- What does not depend on the order of what is made of a list does not depend on its order. -/
theorem bind_mapM_perm {f : β → Option γ} {k : List γ → Option σ} {as bs : List β} (h : as.Perm bs)
    (hk : ∀ vs ws, as.mapM f = some vs → vs.Perm ws → k vs = k ws) :
    (as.mapM f).bind k = (bs.mapM f).bind k := by
  cases hvs : as.mapM f with
  | some vs =>
    obtain ⟨ws, hws, hperm⟩ := mapM_perm h hvs
    rw [hws]
    exact hk vs ws hvs hperm
  | none =>
    cases hws : bs.mapM f with
    | none => rfl
    | some ws =>
      obtain ⟨vs, hvs', -⟩ := mapM_perm h.symm hws
      rw [hvs] at hvs'
      cases hvs'

theorem exists_mapM {f : β → Option γ} {P : γ → Prop} {as : List β}
    (h : ∀ a ∈ as, ∃ v, f a = some v ∧ P v) : ∃ vs, as.mapM f = some vs ∧ ∀ v ∈ vs, P v := by
  induction as with
  | nil => exact ⟨[], rfl, by simp⟩
  | cons a as ih =>
    obtain ⟨⟨v, hv, hP⟩, hrest⟩ := List.forall_mem_cons.mp h
    obtain ⟨vs, hvs, hall⟩ := ih hrest
    exact ⟨v :: vs, mapM_eq_some_cons.mpr ⟨v, vs, hv, hvs, rfl⟩, List.forall_mem_cons.mpr ⟨hP, hall⟩⟩

theorem mapM_congr_map {f : β → Option γ} {as bs : List β} (h : as.map f = bs.map f) :
    as.mapM f = bs.mapM f := by
  have hid (as : List β) : as.mapM f = (as.map f).mapM id := by
    rw [List.mapM_map]
    rfl
  rw [hid, hid, h]

end

/-! ## One by one -/

theorem glance?_rearranged {s : Option Shape} {t t' : Tree} (h : Rearranged s t t') :
    glance? t = glance? t' := by
  cases h <;> rfl

theorem map_items_rearranged {β : Type} {f : Tree → β} {shapes : Nat → Option Shape} {ts ts' : List Tree}
    (hf : ∀ {i t t'}, t ∈ ts → Rearranged (shapes i) t t' → f t = f t')
    (h : RearrangedItems shapes ts ts') : ts.map f = ts'.map f := by
  induction ts generalizing shapes ts' with
  | nil => cases h; rfl
  | cons t ts ih =>
    cases h with
    | cons h hs =>
      rw [List.map_cons, List.map_cons, hf List.mem_cons_self h,
        ih (fun ht h => hf (List.mem_cons_of_mem _ ht) h) hs]

theorem map_members_rearranged {β : Type} {f : List Char × Tree → β} {s : Option Shape}
    {ms ms' : List (List Char × Tree)}
    (hf : ∀ {name t t'}, (name, t) ∈ ms → Rearranged (memberShape? s (textOf? name)) t t' →
      f (name, t) = f (name, t'))
    (h : RearrangedMembers s ms ms') : ms.map f = ms'.map f := by
  induction ms generalizing ms' with
  | nil => cases h; rfl
  | cons m ms ih =>
    cases h with
    | cons h hs =>
      rw [List.map_cons, List.map_cons, hf List.mem_cons_self h,
        ih (fun hm h => hf (List.mem_cons_of_mem _ hm) h) hs]

theorem RearrangedMembers.filter {s : Option Shape} {ms ms' : List (List Char × Tree)}
    {p : List Char × Tree → Bool} (hp : ∀ name t t', p (name, t) = p (name, t')) :
    RearrangedMembers s ms ms' → RearrangedMembers s (ms.filter p) (ms'.filter p)
  | .nil => .nil
  | @RearrangedMembers.cons _ name t t' ms ms' h hs => by
    have hrest := RearrangedMembers.filter hp hs
    rw [List.filter_cons, List.filter_cons, hp name t t']
    split
    · exact .cons h hrest
    · exact hrest

end AndroidAudit.Document
