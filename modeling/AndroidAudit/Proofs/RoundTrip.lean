import AndroidAudit.Format.Code
import AndroidAudit.Format.Project
import AndroidAudit.Format.Report
import AndroidAudit.Proofs.ShapeReading

/-!
# Documents round trip

What a codec writes, it reads back: `Codec.roundTrips`, for every codec whose shape is well formed and
less deep than a document may be. `json_round_trip` is the case of the documents that an audit reads and
writes.

The argument has two halves. The text of a value is a spelling of its JSON (`spelled_compact`,
`spelled_indented`), for which its numbers have to fit into 64 bits (`Shape.fits_toJson`), and a spelling
is read by its shape as the value that it was written for (`Shape.readJson_spelled`).
-/

namespace AndroidAudit

open Json

/-! ## Numbers that fit -/

theorem Json.fitsItems_iff {items : List Json} : fitsItems items ↔ ∀ j ∈ items, j.Fits := by
  induction items with
  | nil => simp [fitsItems]
  | cons j items ih => rw [fitsItems, ih, List.forall_mem_cons]

theorem Json.fitsMembers_iff {members : List (String × Json)} :
    fitsMembers members ↔ ∀ m ∈ members, m.2.Fits := by
  induction members with
  | nil => simp [fitsMembers]
  | cons m members ih => rw [fitsMembers, ih, List.forall_mem_cons]

namespace Document

theorem Width.size_le (w : Width) : w.size ≤ UInt64.size := by
  cases w <;> decide

theorem Atom.fits_toJson (a : Atom) (v : a.Value) : (a.toJson v).Fits := by
  match a, v with
  | .text, _ => trivial
  | .flag, _ => trivial
  | .number w, n => exact Nat.lt_of_lt_of_le n.isLt w.size_le

theorem Scalar.fits_toJson (s : Scalar) (v : s.Value) : (s.toJson v).Fits := by
  match s, v with
  | .plain a, v => exact a.fits_toJson v
  | .nullable a, some v => exact a.fits_toJson v
  | .nullable _, none => trivial

theorem Presence.fits_toMember {α : Type} {name : String} {write : α → Json} {p : Presence}
    {v : p.Value α} (h : ∀ a, (write a).Fits) : ∀ m ∈ p.toMember name write v, m.2.Fits := by
  rw [p.toMember_eq]
  intro m hm
  obtain ⟨a, -, rfl⟩ := List.mem_map.mp hm
  exact h a

theorem fits_slotsToJson (slots : List Slot) (v : SlotsValue slots) :
    ∀ m ∈ slotsToJson slots v, m.2.Fits := by
  match slots, v with
  | [], () => exact fun _ h => nomatch h
  | s :: rest, (v, vs) =>
    exact List.forall_mem_append.mpr
      ⟨s.presence.fits_toMember s.scalar.fits_toJson, fits_slotsToJson rest vs⟩

theorem fits_casesToJson (tag : String) (cases : List Case) (v : CasesValue cases) :
    ∀ m ∈ casesToJson tag cases v, m.2.Fits := by
  obtain ⟨slots, vs, -, hjson, -⟩ := casesToJson_eq tag cases v
  rw [hjson]
  exact List.forall_mem_cons.mpr ⟨trivial, fits_slotsToJson slots vs⟩

mutual

/-- The numbers of a document fit into 64 bits. -/
theorem Shape.fits_toJson : (s : Shape) → (v : s.Value) → (s.toJson v).Fits
  | .scalar s, v => s.fits_toJson v
  | .list item, vs => by
    refine fitsItems_iff.mpr fun j hj => ?_
    obtain ⟨v, -, rfl⟩ := List.mem_map.mp hj
    exact item.fits_toJson v
  | .table item, vs => by
    refine fitsMembers_iff.mpr fun m hm => ?_
    obtain ⟨e, -, rfl⟩ := List.mem_map.mp hm
    exact item.fits_toJson e.2
  | .choice _, _ => trivial
  | .record _ fields, v => fitsMembers_iff.mpr (fields.fits_toJson v)
  | .tagged _ tag cases, v => fitsMembers_iff.mpr (fits_casesToJson tag cases v)

theorem Fields.fits_toJson : (f : Fields) → (v : f.Value) → ∀ m ∈ f.toJson v, m.2.Fits
  | .done, () => fun _ h => nomatch h
  | .field _ p s rest, (_, vs) =>
    List.forall_mem_append.mpr ⟨p.fits_toMember s.fits_toJson, rest.fits_toJson vs⟩

end

/-! ## Texts -/

/-- A spelling of what is written of a value is read as that value. -/
theorem Shape.readJson_spelled {s : Shape} (hwf : s.WellFormed) (hheight : s.height < depthLimit)
    {v : s.Value} {text : List Char} (h : Spelled (s.toJson v) text) : s.readJson text = .ok v := by
  obtain ⟨start, form, hitem, hsays, hrest⟩ := item_spelled h
  have hread := s.readItem_toJson hwf v hheight start hsays
  rw [Shape.readJson]
  simp only [hitem, hread, bind, Except.bind]
  rw [hrest]
  rfl

/-- What a codec writes, it reads back. -/
structure Codec.RoundTrips {α : Type} (c : Codec α) : Prop where
  readJson_compact : ∀ a, c.readJson (c.compact a) = .ok a
  readJson_pretty : ∀ a, c.readJson (c.pretty a) = .ok a
  /-- What was read from any text is written and read again without a change. -/
  rewritten : ∀ text a, c.readJson text = .ok a → ∀ again ∈ [c.compact a, c.pretty a],
    ∃ b, c.readJson again = .ok b ∧ b = a ∧ c.compact b = c.compact a

theorem Codec.readJson_spelled {α : Type} {c : Codec α} (hwf : c.shape.WellFormed)
    (hheight : c.shape.height < depthLimit) {a : α} {text : List Char}
    (h : Spelled (c.toJson a) text) : c.readJson (String.ofList text) = .ok a := by
  rw [Codec.readJson, String.toList_ofList, Shape.readJson_spelled hwf hheight h]
  exact congrArg Except.ok (c.ofValue_toValue a)

theorem Codec.roundTrips {α : Type} (c : Codec α) (hwf : c.shape.WellFormed)
    (hheight : c.shape.height < depthLimit) : c.RoundTrips := by
  have hfits : ∀ a, (c.toJson a).Fits := fun a => c.shape.fits_toJson (c.toValue a)
  have hcompact : ∀ a, c.readJson (c.compact a) = .ok a := fun a =>
    c.readJson_spelled hwf hheight (spelled_compact _ (hfits a))
  have hpretty : ∀ a, c.readJson (c.pretty a) = .ok a := fun a =>
    c.readJson_spelled hwf hheight (spelled_indented 0 _ (hfits a))
  refine ⟨hcompact, hpretty, fun text a _ again hagain => ⟨a, ?_, rfl, rfl⟩⟩
  rcases List.mem_pair.mp hagain with rfl | rfl
  · exact hcompact a
  · exact hpretty a

end Document

/-- Settings, units of code and reports round trip, and so does every part of them. -/
theorem json_round_trip :
    ProjectConfig.codec.RoundTrips ∧ AnalysisUnits.codec.RoundTrips ∧ AuditReport.codec.RoundTrips ∧
    NativeCodePolicy.codec.RoundTrips ∧ UnsafeCall.codec.RoundTrips ∧ Severity.codec.RoundTrips ∧
    Instruction.codec.RoundTrips ∧ MethodBody.codec.RoundTrips ∧ ClassUnit.codec.RoundTrips ∧
    TypeRecord.codec.RoundTrips ∧ CallSite.codec.RoundTrips ∧
    Location.codec.RoundTrips ∧ Finding.codec.RoundTrips := by
  refine ⟨?_, ?_, ?_, ?_, ?_, ?_, ?_, ?_, ?_, ?_, ?_, ?_, ?_⟩ <;>
    exact Document.Codec.roundTrips _ (by decide) (by decide)

end AndroidAudit
