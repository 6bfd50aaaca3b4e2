import AndroidAudit.Proofs.TableOrder
import AndroidAudit.Proofs.TypeAncestry

/-!
# A type graph holds what was said last

Records, and links that are inserted one by one, say which type extends which, in whatever spelling. The
table of the graph is that of all these links between dotted names, in the order in which they come
(`TypeGraph.insertAll_ofRecords`). What holds of a table of writes thus holds of a graph: it has no entry
that was not written (`NameMap.mem_of_mem_ofList`), of the writes of one name the last one counts
(`NameMap.get?_ofList`), and writes of distinct names may come in any order (`NameMap.ofList_perm`).
`TypeGraph.last_link_wins` says so of types and their superclasses.
-/

namespace AndroidAudit

/-! ## Writes to a table -/

namespace NameMap

variable {α : Type}

theorem ofList_concat (es : List (String × α)) (e : String × α) :
    ofList (es ++ [e]) = (ofList es).insert e.1 e.2 := by
  rw [ofList, List.foldl_append, ← ofList, List.foldl_cons, List.foldl_nil]

/-- A table has no entry that was not written. -/
theorem mem_of_mem_ofList {es : List (String × α)} {e : String × α} (h : e ∈ (ofList es).entries) :
    e ∈ es := by
  induction es using List.reverseRecOn with
  | nil => exact h
  | append_singleton es last ih =>
    rw [ofList_concat] at h
    rw [List.mem_append, List.mem_singleton]
    exact (mem_insertEntry h).symm.imp_left ih

/-- Of the writes of one name, the last one counts. -/
theorem get?_ofList (es : List (String × α)) (k : String) :
    (ofList es).get? k = (es.findRev? fun e => e.1 == k).map (·.2) := by
  rw [List.findRev?_eq_find?_reverse]
  -- from the end, where a search backwards starts
  induction es using List.reverseRecOn with
  | nil => rfl
  | append_singleton es last ih =>
    rw [ofList_concat, get?_insert, ih, List.reverse_concat]
    by_cases hlast : last.1 = k
    · rw [if_pos hlast.symm, List.find?_cons_of_pos (by simpa using hlast), Option.map_some]
    · rw [if_neg (Ne.symm hlast), List.find?_cons_of_neg (by simpa using hlast)]

end NameMap

/-! ## Links -/

/-- Which type a record has extend which, if it names a superclass. -/
def TypeRecord.link? (r : TypeRecord) : Option (String × String) := r.superclass.map fun s => (r.name, s)

/-- A link between the dotted names of its types. -/
def dottedLink (l : String × String) : String × String := (normalizeTypeName l.1, normalizeTypeName l.2)

/-- The last of some links that starts at a type, in whatever spelling. -/
def lastLink? (links : List (String × String)) (type : String) : Option (String × String) :=
  links.findRev? fun l => normalizeTypeName l.1 == normalizeTypeName type

theorem findRev?_dottedLink (links : List (String × String)) (type : String) :
    ((links.map dottedLink).findRev? fun e => e.1 == normalizeTypeName type) =
      (lastLink? links type).map dottedLink := by
  rw [lastLink?, List.findRev?_eq_find?_reverse, List.findRev?_eq_find?_reverse, ← List.map_reverse,
    List.find?_map]
  simp only [Function.comp_def, dottedLink]

/-- A record without a superclass gives no link. -/
theorem filterMap_link?_filter (records : List TypeRecord) :
    (records.filter (·.superclass.isSome)).filterMap TypeRecord.link? =
      records.filterMap TypeRecord.link? := by
  rw [List.filterMap_filter]
  refine List.filterMap_congr fun r _ => ?_
  cases hsuper : r.superclass with
  | none => simp [TypeRecord.link?, hsuper]
  | some s => simp

/-- Records of distinct types give links that start at distinct types. -/
theorem nodup_dottedLink {records : List TypeRecord}
    (h : records.Pairwise fun r r' => normalizeTypeName r.name ≠ normalizeTypeName r'.name) :
    (((records.filterMap TypeRecord.link?).map dottedLink).map (·.1)).Nodup := by
  rw [List.map_map, List.Nodup, List.pairwise_map, List.pairwise_filterMap]
  refine h.imp fun {r r'} hne l hl l' hl' => ?_
  obtain ⟨s, -, rfl⟩ := Option.map_eq_some_iff.mp hl
  obtain ⟨s', -, rfl⟩ := Option.map_eq_some_iff.mp hl'
  exact hne

/-! ## Graphs -/

namespace TypeGraph

/-- The graph that also knows some links, the later ones over the earlier. -/
def insertAll (g : TypeGraph) (links : List (String × String)) : TypeGraph :=
  links.foldl (fun g l => g.insert l.1 l.2) g

/-- To insert links is to write their dotted names, one after another. -/
theorem parents_insertAll (g : TypeGraph) (links : List (String × String)) :
    (g.insertAll links).parents =
      (links.map dottedLink).foldl (fun m e => m.insert e.1 e.2) g.parents := by
  induction links generalizing g with
  | nil => rfl
  | cons l links ih => exact ih (g.insert l.1 l.2)

theorem insertAll_append (g : TypeGraph) (links more : List (String × String)) :
    g.insertAll (links ++ more) = (g.insertAll links).insertAll more :=
  List.foldl_append

theorem insertAll_empty (links : List (String × String)) :
    empty.insertAll links = ⟨.ofList (links.map dottedLink)⟩ :=
  congrArg mk (parents_insertAll empty links)

/-- The graph of some records is made by inserting the links that they give. -/
theorem ofRecords_eq_insertAll (records : List TypeRecord) :
    ofRecords records = empty.insertAll (records.filterMap TypeRecord.link?) := by
  rw [insertAll, List.foldl_filterMap, ofRecords]
  -- both go through the records, and are alike in what they do with one
  congr
  funext g r
  rw [TypeRecord.link?]
  cases r.superclass with
  | none => rfl
  | some s => rfl

/-- A graph is the table of all links, between dotted names and in the order in which they come. -/
theorem insertAll_ofRecords (records : List TypeRecord) (links : List (String × String)) :
    (ofRecords records).insertAll links =
      ⟨.ofList ((records.filterMap TypeRecord.link? ++ links).map dottedLink)⟩ := by
  rw [ofRecords_eq_insertAll, ← insertAll_append, insertAll_empty]

theorem superclass?_insertAll_ofRecords (records : List TypeRecord) (links : List (String × String))
    (type : String) :
    ((ofRecords records).insertAll links).superclass? type =
      (lastLink? (records.filterMap TypeRecord.link? ++ links) type).map
        fun l => normalizeTypeName l.2 := by
  rw [insertAll_ofRecords, superclass?, NameMap.get?_ofList, findRev?_dottedLink, Option.map_map]
  rfl

/-- A graph holds dotted names alone. -/
theorem dotted_of_mem_parents {records : List TypeRecord} {links : List (String × String)}
    {entry : String × String} (h : entry ∈ ((ofRecords records).insertAll links).parents.entries) :
    normalizeTypeName entry.1 = entry.1 ∧ normalizeTypeName entry.2 = entry.2 := by
  rw [insertAll_ofRecords] at h
  obtain ⟨l, -, rfl⟩ := List.mem_map.mp (NameMap.mem_of_mem_ofList h)
  exact ⟨normalizeTypeName_idem l.1, normalizeTypeName_idem l.2⟩

/-- Records of distinct types make the same graph in any order. -/
theorem ofRecords_perm {records records' : List TypeRecord} (h : records.Perm records')
    (hdistinct : records.Pairwise fun r r' => normalizeTypeName r.name ≠ normalizeTypeName r'.name) :
    ofRecords records = ofRecords records' := by
  have hlinks := (h.filterMap TypeRecord.link?).map dottedLink
  rw [ofRecords_eq_insertAll, ofRecords_eq_insertAll, insertAll_empty, insertAll_empty,
    NameMap.ofList_perm hlinks (nodup_dottedLink hdistinct)]

/-- A graph is made of records and of links that are inserted after them. All names that it holds are
dotted ones, and the dotted spelling of such a name is the name itself. Of all links that start at a type,
however they spell it, the last one gives the superclass, by its dotted name, and where there is no such
link there is no superclass. Records without a superclass count for nothing, and records of distinct types
may come in any order. -/
theorem last_link_wins (records : List TypeRecord) (inserted : List (String × String)) :
    let g := (ofRecords records).insertAll inserted
    (∀ name, normalizeTypeName (normalizeTypeName name) = normalizeTypeName name) ∧
    (∀ entry ∈ g.parents.entries,
      normalizeTypeName entry.1 = entry.1 ∧ normalizeTypeName entry.2 = entry.2) ∧
    (∀ type, g.superclass? type =
      (lastLink? (records.filterMap TypeRecord.link? ++ inserted) type).map
        fun l => normalizeTypeName l.2) ∧
    (ofRecords (records.filter (·.superclass.isSome))).insertAll inserted = g ∧
    ∀ records', records.Perm records' →
      (records.Pairwise fun r r' => normalizeTypeName r.name ≠ normalizeTypeName r'.name) →
      (ofRecords records').insertAll inserted = g := by
  refine ⟨normalizeTypeName_idem, fun _ => dotted_of_mem_parents,
    superclass?_insertAll_ofRecords records inserted, ?_, fun records' hperm hdistinct => ?_⟩
  · rw [ofRecords_eq_insertAll, filterMap_link?_filter, ← ofRecords_eq_insertAll]
  · rw [ofRecords_perm hperm hdistinct]

/-- A record and two insertions are on the leaf, each in a spelling of its own, and the last of them counts.
On the root there is a record without a superclass, and none is known. -/
theorem last_link_wins_demo :
    let records : List TypeRecord :=
      [⟨"a/Leaf", some "a/Stem"⟩, ⟨" b.Root", none⟩, ⟨"a/Stem\u3000", some "\tb/Root"⟩]
    let inserted := [("a.Leaf\n", "c/Twig"), ("c.Twig", "a.Stem"), ("\u00a0a/Leaf", "c/Bud ")]
    let g := (ofRecords records).insertAll inserted
    (records.Pairwise fun r r' => normalizeTypeName r.name ≠ normalizeTypeName r'.name) ∧
      ("a.Leaf", "c.Bud") ∈ g.parents.entries ∧ normalizeTypeName "c.Bud" = "c.Bud" ∧
      g.superclass? " a/Leaf" = some "c.Bud" ∧ g.superclass? "a.Stem" = some "b.Root" ∧
      g.superclass? "b/Root" = none ∧
      (ofRecords [⟨"a/Leaf", some "a/Stem"⟩, ⟨"a/Stem\u3000", some "\tb/Root"⟩]).insertAll inserted = g ∧
      (ofRecords records.reverse).insertAll inserted = g := by
  intro records inserted g
  obtain ⟨-, hdotted, hsuper, hidle, hperm⟩ := last_link_wins records inserted
  have hdistinct : records.Pairwise fun r r' => normalizeTypeName r.name ≠ normalizeTypeName r'.name := by
    decide +kernel
  have hleaf : ("a.Leaf", "c.Bud") ∈ g.parents.entries := by decide +kernel
  refine ⟨hdistinct, hleaf, (hdotted _ hleaf).2, (hsuper _).trans ?_, (hsuper _).trans ?_,
    (hsuper _).trans ?_, hidle, hperm _ records.reverse_perm.symm hdistinct⟩
  · decide +kernel
  · decide +kernel
  · decide +kernel

-- of records on one type the order counts
example : ofRecords [⟨"a/B", some "C"⟩, ⟨"a.B", some "D"⟩] ≠
    ofRecords [⟨"a.B", some "D"⟩, ⟨"a/B", some "C"⟩] := by decide +kernel

end TypeGraph

end AndroidAudit
