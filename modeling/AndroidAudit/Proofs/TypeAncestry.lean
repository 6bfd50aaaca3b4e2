import Mathlib.Data.List.DropRight
import Mathlib.Data.List.Perm.Subperm
import Mathlib.Logic.Relation
import AndroidAudit.Model.TypeGraph

/-!
# Which types are above a type

A climb goes up type by type and keeps those it has gone on from. In every round these are closed but
for the type that the climb is at (`Climb.Sound`), so when the climb can go on no further it has met all
that is above its start. They are different types of the graph, so it goes on no more often than the
graph has types:

* `isSubclassOf_exact`: a climb comes to an answer, which is yes if and only if links lead up from its
  start to the type that is looked for, be the graph what it may;
* `isSubclassOf_least_order`: the answers make the least order of types that has each of them below its
  superclass, and in it the types above a type are a chain;
* `link_ofRecords`: in the graph of some records, a link is what the last record that says
  something of the type says;
* `isSubclassOf_append`: records on types of which nothing was said take nothing away.

All rest on a dotted name being its own dotted name (`normalizeTypeName_idem`).
-/

namespace AndroidAudit

open Relation (ReflTransGen)

/-! ## Dotted names -/

namespace Text

theorem trimEnd_eq_rdropWhile (s : List Char) : trimEnd s = s.rdropWhile isBlank := rfl

/-- Nothing is left to trim at the two ends of a trimmed text. -/
theorem trim_trim (s : List Char) : trim (trim s) = trim s := by
  have hhead : (trim s).dropWhile isBlank = trim s := by
    -- a trimmed text starts as the text does behind its first blanks
    obtain ⟨cut, hcut⟩ : trim s <+: s.dropWhile isBlank := List.rdropWhile_prefix isBlank _
    cases htrim : trim s with
    | nil => rfl
    | cons c rest =>
      have hfirst := List.head?_dropWhile_not isBlank s
      rw [← hcut, htrim, List.cons_append, List.head?_cons] at hfirst
      exact List.dropWhile_cons_of_neg (by simpa using hfirst)
  rw [trim, hhead, trim, trimEnd_eq_rdropWhile, trimEnd_eq_rdropWhile, List.rdropWhile_idempotent]

end Text

theorem isBlank_dotForSlash (c : Char) : Text.isBlank (dotForSlash c) = Text.isBlank c := by
  unfold dotForSlash
  split
  · next h => subst h; decide
  · rfl

theorem trim_map_dotForSlash (s : List Char) :
    Text.trim (s.map dotForSlash) = (Text.trim s).map dotForSlash := by
  have hblank : Text.isBlank ∘ dotForSlash = Text.isBlank := funext isBlank_dotForSlash
  simp only [Text.trim, Text.trimEnd, List.dropWhile_map, ← List.map_reverse, hblank]

theorem dotForSlash_dotForSlash (c : Char) : dotForSlash (dotForSlash c) = dotForSlash c := by
  unfold dotForSlash
  split
  · rfl
  · rfl

theorem normalizeTypeName_idem (name : String) :
    normalizeTypeName (normalizeTypeName name) = normalizeTypeName name := by
  have hdots : dotForSlash ∘ dotForSlash = dotForSlash := funext dotForSlash_dotForSlash
  rw [normalizeTypeName, normalizeTypeName, String.toList_ofList, trim_map_dotForSlash,
    Text.trim_trim, List.map_map, hdots]

/-! ## Climbs -/

namespace TypeGraph

/-- One step up, by dotted names. -/
def next? (g : TypeGraph) (type : String) : Option String := (g.superclass? type).map normalizeTypeName

/-- A type is directly below another. -/
def Link (g : TypeGraph) (a b : String) : Prop := g.next? a = some b

/-- What holds of a climb in every round, if it has started at `start` and has not met `target`. -/
structure Climb.Sound (g : TypeGraph) (start target : String) (c : Climb) : Prop where
  dotted : normalizeTypeName c.current = c.current
  reached : ReflTransGen g.Link start c.current
  nodup : c.seen.Nodup
  /-- A type that the climb has gone on from is one of which the graph knows a superclass. -/
  known : c.seen ⊆ g.parents.names
  missed : target ∉ c.seen
  started : start ∈ c.current :: c.seen
  /-- Nothing is above a type that the climb has gone on from but what it has met. -/
  closed : ∀ a ∈ c.seen, ∀ b, g.Link a b → b ∈ c.current :: c.seen

section

variable {g : TypeGraph} {start target : String} {c : Climb}

/-- How a round ends: with the type that is looked for, with a repetition or at a type of which no
superclass is known, or one type higher. -/
theorem climbOn_cases (g : TypeGraph) (target : String) (c : Climb) :
    (g.climbOn target c = .inl true ∧ c.current = target) ∨
    (g.climbOn target c = .inl false ∧ c.current ≠ target ∧
      (c.current ∈ c.seen ∨ ∀ b, ¬ g.Link c.current b)) ∨
    (∃ b, g.climbOn target c = .inr ⟨b, c.current :: c.seen⟩ ∧ c.current ≠ target ∧
      c.current ∉ c.seen ∧ g.Link c.current b) := by
  unfold climbOn Link next?
  by_cases htarget : c.current = target
  · exact .inl ⟨if_pos htarget, htarget⟩
  · by_cases hseen : c.current ∈ c.seen
    · exact .inr (.inl ⟨by simp [htarget, hseen], htarget, .inl hseen⟩)
    · cases hsuper : g.superclass? c.current with
      | none => exact .inr (.inl ⟨by simp [htarget, hseen], htarget, .inr (by simp)⟩)
      | some parent =>
        exact .inr (.inr ⟨normalizeTypeName parent, by simp [htarget, hseen], htarget, hseen, rfl⟩)

theorem mem_names_of_link {a b : String} (ha : normalizeTypeName a = a) (h : g.Link a b) :
    a ∈ g.parents.names := by
  obtain ⟨spelled, hsuper, -⟩ := Option.map_eq_some_iff.mp h
  rw [superclass?, ha, NameMap.get?] at hsuper
  obtain ⟨l₁, l₂, hentries, -⟩ := List.lookup_eq_some_iff.mp hsuper
  rw [NameMap.names, hentries]
  simp

theorem normalizeTypeName_of_link {a b : String} (h : g.Link a b) : normalizeTypeName b = b := by
  obtain ⟨spelled, -, rfl⟩ := Option.map_eq_some_iff.mp h
  exact normalizeTypeName_idem spelled

namespace Climb.Sound

theorem init (g : TypeGraph) (type target : String) :
    Climb.Sound g (normalizeTypeName type) target ⟨normalizeTypeName type, []⟩ where
  dotted := normalizeTypeName_idem type
  reached := .refl
  nodup := .nil
  known := List.nil_subset _
  missed := List.not_mem_nil
  started := List.mem_singleton_self _
  closed := by simp

/-- A climb that goes on stays sound. -/
theorem step (h : Climb.Sound g start target c) (htarget : c.current ≠ target)
    (hseen : c.current ∉ c.seen) {b : String} (hlink : g.Link c.current b) :
    Climb.Sound g start target ⟨b, c.current :: c.seen⟩ where
  dotted := normalizeTypeName_of_link hlink
  reached := h.reached.tail hlink
  nodup := List.nodup_cons.mpr ⟨hseen, h.nodup⟩
  known := List.cons_subset.mpr ⟨mem_names_of_link h.dotted hlink, h.known⟩
  missed := by
    rw [List.mem_cons, not_or]
    exact ⟨htarget.symm, h.missed⟩
  started := List.mem_cons_of_mem _ h.started
  closed := by
    intro a ha d hd
    rcases List.mem_cons.mp ha with rfl | ha
    · obtain rfl : b = d := Option.some.inj (hlink.symm.trans hd)
      exact List.mem_cons_self
    · exact List.mem_cons_of_mem _ (h.closed a ha d hd)

/-- A climb that can go on no further has met all that is above its start. -/
theorem not_reached (h : Climb.Sound g start target c) (htarget : c.current ≠ target)
    (hend : c.current ∈ c.seen ∨ ∀ b, ¬ g.Link c.current b) : ¬ ReflTransGen g.Link start target := by
  have hmet : ∀ b, ReflTransGen g.Link start b → b ∈ c.current :: c.seen := by
    intro b hb
    induction hb with
    | refl => exact h.started
    | tail _ hlink ih =>
      rcases List.mem_cons.mp ih with rfl | ha
      · rcases hend with hseen | hnone
        · exact h.closed _ hseen _ hlink
        · exact absurd hlink (hnone _)
      · exact h.closed _ ha _ hlink
  intro hreach
  rcases List.mem_cons.mp (hmet target hreach) with heq | hseen
  · exact htarget heq.symm
  · exact h.missed hseen

theorem length_seen_le (h : Climb.Sound g start target c) :
    c.seen.length ≤ g.parents.entries.length := by
  have hle := (h.nodup.subperm h.known).length_le
  rwa [NameMap.names, List.length_map] at hle

end Climb.Sound

/-- A climb comes to the right answer once it has more rounds than the graph has types that it has not
gone on from. -/
theorem Climb.Sound.climb? (h : Climb.Sound g start target c) (rounds : Nat)
    (hrounds : g.parents.entries.length < c.seen.length + rounds) :
    ∃ answer, g.climb? target rounds c = some answer ∧
      (answer = true ↔ ReflTransGen g.Link start target) := by
  induction rounds generalizing c with
  | zero => exact absurd h.length_seen_le (Nat.not_le.mpr hrounds)
  | succ rounds ih =>
    rw [TypeGraph.climb?]
    rcases g.climbOn_cases target c with ⟨hround, rfl⟩ | ⟨hround, htarget, hend⟩ |
      ⟨b, hround, htarget, hseen, hlink⟩
    · exact ⟨true, by rw [hround], by simpa using h.reached⟩
    · exact ⟨false, by rw [hround], by simpa using h.not_reached htarget hend⟩
    · rw [hround]
      refine ih (h.step htarget hseen hlink) ?_
      rw [List.length_cons]
      omega

/-- More rounds do not change an answer. -/
theorem climb?_add {rounds : Nat} {answer : Bool} (h : g.climb? target rounds c = some answer)
    (more : Nat) : g.climb? target (rounds + more) c = some answer := by
  induction rounds generalizing c with
  | zero => cases h
  | succ rounds ih =>
    rw [Nat.succ_add, climb?]
    rw [climb?] at h
    cases hround : g.climbOn target c with
    | inl a =>
      rw [hround] at h
      exact h
    | inr higher =>
      rw [hround] at h
      exact ih h

end

variable (g : TypeGraph)

/-- The rounds that `isSubclassOf` allows a climb are enough for the right answer. -/
theorem climb?_isSubclassOf (type ancestor : String) :
    g.climb? (normalizeTypeName ancestor) (g.parents.entries.length + 1) ⟨normalizeTypeName type, []⟩ =
        some (g.isSubclassOf type ancestor) ∧
      (g.isSubclassOf type ancestor = true ↔
        ReflTransGen g.Link (normalizeTypeName type) (normalizeTypeName ancestor)) := by
  have hsound := Climb.Sound.init g type (normalizeTypeName ancestor)
  obtain ⟨answer, hanswer, hiff⟩ := hsound.climb? (g.parents.entries.length + 1) (by simp)
  have hsame : g.isSubclassOf type ancestor = answer := by rw [isSubclassOf, hanswer, Option.getD_some]
  rw [hsame]
  exact ⟨hanswer, hiff⟩

/-- A type is another one or below it if and only if links lead up from the one to the other. -/
theorem isSubclassOf_iff (type ancestor : String) :
    g.isSubclassOf type ancestor = true ↔
      ReflTransGen g.Link (normalizeTypeName type) (normalizeTypeName ancestor) :=
  (g.climb?_isSubclassOf type ancestor).2

/-- A climb comes to an answer, at the latest one round after it has gone on from each type of the
graph, and more rounds do not change it. The answer is yes if and only if links lead up from the type
where the climb starts to the one that is looked for, be there rings in the graph or not. -/
theorem isSubclassOf_exact (type ancestor : String) :
    (∃ rounds ≤ g.parents.entries.length + 1, ∀ more,
      g.climb? (normalizeTypeName ancestor) (rounds + more) ⟨normalizeTypeName type, []⟩ =
        some (g.isSubclassOf type ancestor)) ∧
      (g.isSubclassOf type ancestor = true ↔
        ReflTransGen g.Link (normalizeTypeName type) (normalizeTypeName ancestor)) := by
  obtain ⟨hanswer, hiff⟩ := g.climb?_isSubclassOf type ancestor
  exact ⟨⟨_, Nat.le_refl _, climb?_add hanswer⟩, hiff⟩

theorem isSubclassOf_self (type : String) : g.isSubclassOf type type = true :=
  (g.isSubclassOf_iff type type).mpr .refl

/-! ## The order of types -/

/-- An order of types by which a type is at or below another: it does not tell spellings apart, and it
has each type below the superclass that the graph names. -/
structure Ordered (g : TypeGraph) (below : String → String → Prop) : Prop where
  respelled : ∀ a b, normalizeTypeName a = normalizeTypeName b → below a b
  trans : ∀ a b c, below a b → below b c → below a c
  superclass : ∀ a b, g.superclass? a = some b → below a b

theorem rightUnique_link : Relator.RightUnique g.Link := by
  intro a b c hb hc
  exact Option.some.inj (hb.symm.trans hc)

theorem link_of_superclass? {type super : String} (h : g.superclass? type = some super) :
    g.Link (normalizeTypeName type) (normalizeTypeName super) := by
  rw [Link, next?, superclass?, normalizeTypeName_idem, ← superclass?, h, Option.map_some]

theorem ordered_isSubclassOf : g.Ordered fun a b => g.isSubclassOf a b = true where
  respelled a b h := by rw [isSubclassOf_iff, h]
  trans a b c hab hbc := by
    rw [isSubclassOf_iff] at hab hbc ⊢
    exact hab.trans hbc
  superclass a b h := by
    rw [isSubclassOf_iff]
    exact .single (g.link_of_superclass? h)

/-- What links lead up to from a type is above it by every order. -/
theorem Ordered.of_reached {g : TypeGraph} {below : String → String → Prop} (h : g.Ordered below)
    {type super : String} (hreach : ReflTransGen g.Link (normalizeTypeName type) super) :
    below type super := by
  induction hreach with
  | refl => exact h.respelled _ _ (normalizeTypeName_idem type).symm
  | tail _ hlink ih =>
    -- up to the superclass as it is spelled in the graph, and from there to its dotted name
    obtain ⟨spelled, hsuper, rfl⟩ := Option.map_eq_some_iff.mp hlink
    have hdotted : below spelled (normalizeTypeName spelled) :=
      h.respelled _ _ (normalizeTypeName_idem spelled).symm
    exact h.trans _ _ _ ih (h.trans _ _ _ (h.superclass _ _ hsuper) hdotted)

/-- Being another type or extending it is an order of types, in every spelling of them, and it is the
least one: what it has of two types, every order of the graph has. Above a type there is one chain: of
two types above it, one is above the other. Rings in the graph make no exception. -/
theorem isSubclassOf_least_order :
    g.Ordered (fun a b => g.isSubclassOf a b = true) ∧
    (∀ a b c, g.isSubclassOf a b = true → g.isSubclassOf a c = true →
      g.isSubclassOf b c = true ∨ g.isSubclassOf c b = true) ∧
    ∀ below, g.Ordered below → ∀ a b, g.isSubclassOf a b = true → below a b := by
  refine ⟨g.ordered_isSubclassOf, fun a b c hab hac => ?_, fun below h a b hab => ?_⟩
  · rw [isSubclassOf_iff] at hab hac ⊢
    rw [isSubclassOf_iff]
    exact ReflTransGen.total_of_right_unique g.rightUnique_link hab hac
  · rw [isSubclassOf_iff] at hab
    exact h.trans _ _ _ (h.of_reached hab) (h.respelled _ _ (normalizeTypeName_idem b))

/-- Two types lead to a ring of two others. The laws hold on the way into the ring and in it, and nothing
but itself is at or below the type that no other one extends. -/
theorem isSubclassOf_least_order_ring :
    let g := ofRecords [⟨"a/Leaf", some "a/Stem"⟩, ⟨"a/Stem", some " a.Left"⟩, ⟨"a/Left", some "a/Right"⟩,
      ⟨"a.Right ", some "a.Left"⟩]
    g.isSubclassOf " a/Leaf" "a.Leaf" = true ∧
      g.isSubclassOf "a.Leaf" "a.Left" = true ∧ g.isSubclassOf "a.Left" "a.Right" = true ∧
      g.isSubclassOf "a.Leaf" "a.Right" = true ∧
      g.isSubclassOf "a.Right" "a.Stem" = false ∧ g.isSubclassOf "a.Stem" "a.Right" = true ∧
      ∀ a, g.isSubclassOf a "a.Leaf" = true → normalizeTypeName a = "a.Leaf" := by
  intro g
  obtain ⟨horder, hchain, hleast⟩ := g.isSubclassOf_least_order
  have hleaf : g.isSubclassOf "a.Leaf" "a.Left" = true := by decide +kernel
  have hleft : g.isSubclassOf "a.Left" "a.Right" = true := by decide +kernel
  have hright := horder.trans _ _ _ hleaf hleft
  have hstem : g.isSubclassOf "a.Leaf" "a.Stem" = true := by decide +kernel
  have hnot : g.isSubclassOf "a.Right" "a.Stem" = false := by decide +kernel
  have hsupers : ∀ entry ∈ g.parents.entries, normalizeTypeName entry.2 ≠ "a.Leaf" := by decide +kernel
  -- an order of the graph in which the leaf is above nothing else
  have hbelow : g.Ordered fun a b => normalizeTypeName b = "a.Leaf" → normalizeTypeName a = "a.Leaf" :=
    { respelled := fun a b h hb => h.trans hb
      trans := fun a b c hab hbc hc => hab (hbc hc)
      superclass := by
        intro a b h hb
        obtain ⟨before, after, hentries, -⟩ := List.lookup_eq_some_iff.mp h
        exact absurd hb (hsupers (normalizeTypeName a, b) (by rw [hentries]; simp)) }
  refine ⟨horder.respelled _ _ (by decide +kernel), hleaf, hleft, hright, hnot, ?_, fun a h => ?_⟩
  · exact (hchain _ _ _ hstem hright).resolve_right (by rw [hnot]; exact Bool.false_ne_true)
  · exact hleast _ hbelow a "a.Leaf" h (by decide +kernel)

end TypeGraph

/-! ## Records -/

/-- What records say of a type: the last of them that names the type with a superclass gives that one.
Names are compared and given as dotted ones. -/
def LastSaid (records : List TypeRecord) (type super : String) : Prop :=
  ∃ before record after spelled, records = before ++ record :: after ∧
    record.superclass = some spelled ∧ normalizeTypeName record.name = type ∧
    normalizeTypeName spelled = super ∧
    ∀ later ∈ after, later.superclass ≠ none → normalizeTypeName later.name ≠ type

theorem not_lastSaid_nil (type super : String) : ¬ LastSaid [] type super := by
  rintro ⟨before, record, after, spelled, h, -⟩
  simp at h

/-- What one more record changes in what is said of a type. -/
theorem lastSaid_concat (records : List TypeRecord) (record : TypeRecord) (type super : String) :
    LastSaid (records ++ [record]) type super ↔
      (∃ spelled, record.superclass = some spelled ∧ normalizeTypeName record.name = type ∧
        normalizeTypeName spelled = super) ∨
      ((record.superclass ≠ none → normalizeTypeName record.name ≠ type) ∧
        LastSaid records type super) := by
  constructor
  · rintro ⟨before, r, after, spelled, hrecords, hsuper, hname, hspelled, hlater⟩
    rcases after.eq_nil_or_concat with rfl | ⟨after, last, rfl⟩
    · obtain ⟨-, hlast⟩ := List.append_inj' hrecords rfl
      obtain rfl : record = r := by simpa using hlast
      exact .inl ⟨spelled, hsuper, hname, hspelled⟩
    · have hsplit : records ++ [record] = (before ++ r :: after) ++ [last] := by
        rw [hrecords]
        simp
      obtain ⟨hrest, hlast⟩ := List.append_inj' hsplit rfl
      obtain rfl : record = last := by simpa using hlast
      exact .inr ⟨hlater record (by simp), before, r, after, spelled, hrest, hsuper, hname, hspelled,
        fun later hmem => hlater later (by simp [hmem])⟩
  · rintro (⟨spelled, hsuper, hname, hspelled⟩ | ⟨hnot, before, r, after, spelled, rfl, hsuper, hname,
      hspelled, hlater⟩)
    · exact ⟨records, record, [], spelled, rfl, hsuper, hname, hspelled, by simp⟩
    · refine ⟨before, r, after ++ [record], spelled, by simp, hsuper, hname, hspelled, ?_⟩
      intro later hmem
      rcases List.mem_append.mp hmem with hmem | hmem
      · exact hlater later hmem
      · obtain rfl := List.mem_singleton.mp hmem
        exact hnot

/-- Further records are on new types: where they name a superclass, the earlier ones name none. -/
def OnNewTypes (records more : List TypeRecord) : Prop :=
  ∀ later ∈ more, later.superclass ≠ none →
    ∀ earlier ∈ records, earlier.superclass ≠ none →
      normalizeTypeName later.name ≠ normalizeTypeName earlier.name

instance (records more : List TypeRecord) : Decidable (OnNewTypes records more) :=
  inferInstanceAs (Decidable (∀ later ∈ more, _))

/-- Records on new types leave what is said. -/
theorem LastSaid.append {records more : List TypeRecord} {type super : String}
    (h : LastSaid records type super) (hnew : OnNewTypes records more) :
    LastSaid (records ++ more) type super := by
  obtain ⟨before, record, after, spelled, rfl, hsuper, hname, hspelled, hlater⟩ := h
  refine ⟨before, record, after ++ more, spelled, by simp, hsuper, hname, hspelled, ?_⟩
  intro later hmem hsays
  rcases List.mem_append.mp hmem with hmem | hmem
  · exact hlater later hmem hsays
  · rw [← hname]
    exact hnew later hmem hsays record (by simp) (by simp [hsuper])

namespace TypeGraph

/-- The graph of some records holds what they say last. -/
theorem get?_ofRecords (records : List TypeRecord) (type super : String) :
    (ofRecords records).parents.get? type = some super ↔ LastSaid records type super := by
  induction records using List.reverseRecOn with
  | nil => simp [ofRecords, empty, NameMap.empty, NameMap.get?, not_lastSaid_nil]
  | append_singleton records record ih =>
    rw [lastSaid_concat, ← ih, ofRecords, List.foldl_append, List.foldl_cons, List.foldl_nil, ← ofRecords]
    cases hsuper : record.superclass with
    | none => simp
    | some spelled =>
      simp only [insert, NameMap.get?_insert]
      by_cases hname : type = normalizeTypeName record.name
      · subst hname
        simp
      · simp [hname, Ne.symm hname]

/-- A link in the graph of some records is what they say last. -/
theorem link_ofRecords (records : List TypeRecord) {type : String} (htype : normalizeTypeName type = type)
    (super : String) : (ofRecords records).Link type super ↔ LastSaid records type super := by
  rw [Link, next?, superclass?, htype]
  constructor
  · intro h
    obtain ⟨stored, hstored, rfl⟩ := Option.map_eq_some_iff.mp h
    rw [get?_ofRecords] at hstored
    obtain ⟨before, record, after, spelled, hrecords, hsuper, hname, rfl, hlater⟩ := hstored
    exact ⟨before, record, after, spelled, hrecords, hsuper, hname, (normalizeTypeName_idem spelled).symm,
      hlater⟩
  · intro h
    rw [(get?_ofRecords records type super).mpr h, Option.map_some]
    obtain ⟨before, record, after, spelled, -, -, -, rfl, -⟩ := h
    rw [normalizeTypeName_idem]

/-- In the graph of some records, a type is another one or below it if and only if what the records say
last leads up from the one to the other. -/
theorem isSubclassOf_ofRecords (records : List TypeRecord) (type ancestor : String) :
    (ofRecords records).isSubclassOf type ancestor = true ↔
      ReflTransGen (LastSaid records) (normalizeTypeName type) (normalizeTypeName ancestor) := by
  rw [isSubclassOf_iff]
  constructor
  · intro h
    -- from a dotted name on, every type that is met is a dotted name
    have hboth : ∀ b, ReflTransGen (ofRecords records).Link (normalizeTypeName type) b →
        normalizeTypeName b = b ∧ ReflTransGen (LastSaid records) (normalizeTypeName type) b := by
      intro b hb
      induction hb with
      | refl => exact ⟨normalizeTypeName_idem type, .refl⟩
      | tail _ hlink ih =>
        have hsaid := (link_ofRecords records ih.1 _).mp hlink
        refine ⟨?_, ih.2.tail hsaid⟩
        obtain ⟨-, -, -, spelled, -, -, -, rfl, -⟩ := hsaid
        exact normalizeTypeName_idem spelled
    exact (hboth _ h).2
  · intro h
    refine ReflTransGen.mono (fun a b hsaid => (link_ofRecords records ?_ b).mpr hsaid) _ _ h
    obtain ⟨-, record, -, -, -, -, rfl, -, -⟩ := hsaid
    exact normalizeTypeName_idem record.name

/-- A type stays below another when more is known of types of which nothing was. The new links may lead
on from where a climb ended, and back to where it was. -/
theorem isSubclassOf_append {records more : List TypeRecord} (hnew : OnNewTypes records more)
    {type ancestor : String} (h : (ofRecords records).isSubclassOf type ancestor = true) :
    (ofRecords (records ++ more)).isSubclassOf type ancestor = true := by
  rw [isSubclassOf_ofRecords] at h ⊢
  exact ReflTransGen.mono (fun _ _ hsaid => hsaid.append hnew) _ _ h

end TypeGraph

end AndroidAudit
