import Mathlib.Data.List.Forall2
import AndroidAudit.Proofs.StandardRules
import AndroidAudit.Proofs.TypeAncestry

/-!
# What is reported of calls

`CallReport` says what a call should give, in terms of the calls known to be unsafe and of the records on
types, and of no search: a call that some of the unsafe calls cover gives one finding, in the words of
the first of them, and any other call gives none. `scanUnits_calls` says that what the standard rules
report of the calls of some units is this, call by call.

A call of a method that no unsafe call lists gives nothing, whatever its class, so it may be left out
before it is looked at, and no other method is like that (`scanUnits_callsOf_applicable`).

The calls that a project adds come last, so they have a say only in what is let pass without them
(`check?_foldl_register`), and no finding is lost or altered by them (`findings_outlast_registering`).

More that is known of types takes no finding away either (`calls_stay_reported`), but it may give the say
to an unsafe call that stands before the one that had it (`find?_append_records`).
-/

namespace AndroidAudit

open Relation (ReflTransGen)

/-- An unsafe call covers the call of a method on a class: it lists the method, and its class is at or
above that of the call, by what the records say last of each type on the way. -/
structure UnsafeCall.Covers (records : List TypeRecord) (className method : String)
    (target : UnsafeCall) : Prop where
  listed : method ∈ target.methods.names
  above : ReflTransGen (LastSaid records) (normalizeTypeName className)
    (normalizeTypeName target.className)

/-- The finding on a call of a method, for which the alternative should be called. -/
def loadFinding (location : SourceLocation) (method alternative : String) : Finding where
  ruleId := "UnsafeDynamicallyLoadedCode"
  severity := .warning
  location := .source location.file location.line location.column
  message := "Dynamically loading code using `" ++ method ++ "` is risky, please use `" ++ alternative
    ++ "` instead when possible"

/-- What a call gives. -/
inductive CallReport (targets : List UnsafeCall) (records : List TypeRecord) (site : CallSite) :
    List Finding → Prop where
  /-- The first unsafe call that covers it has the say. -/
  | covered {className method : String} {before after : List UnsafeCall} {target : UnsafeCall}
      (hclass : site.className = some className) (hmethod : site.method = some method)
      (htargets : targets = before ++ target :: after)
      (hcovers : target.Covers records className method)
      (hfirst : ∀ earlier ∈ before, ¬ earlier.Covers records className method) :
      CallReport targets records site [loadFinding site.location method target.alternative]
  /-- Its class or its method is unknown, or no unsafe call covers it. -/
  | clear (h : ∀ className method, site.className = some className → site.method = some method →
        ∀ target ∈ targets, ¬ target.Covers records className method) :
      CallReport targets records site []

/-- The calls that are unsafe to a project: the two that load code, and then its own. -/
def ProjectConfig.allUnsafeCalls (c : ProjectConfig) : List UnsafeCall :=
  [ ⟨"java.lang.Runtime", .ofList ["load"], "loadLibrary"⟩,
    ⟨"java.lang.System", .ofList ["load"], "loadLibrary"⟩ ] ++ c.unsafeCalls

namespace CallRegistry

theorem targets_foldl_register (r : CallRegistry) (more : List UnsafeCall) :
    (more.foldl register r).targets = r.targets ++ more := by
  induction more generalizing r with
  | nil => simp
  | cons target more ih => rw [List.foldl_cons, ih, register, List.append_assoc, List.singleton_append]

theorem targets_callRegistry (c : ProjectConfig) : c.callRegistry.targets = c.allUnsafeCalls :=
  targets_foldl_register builtin c.unsafeCalls

/-- The test that an entry of a registry is put to. -/
theorem fits_iff_covers (records : List TypeRecord) (className method : String) (target : UnsafeCall) :
    (target.methods.contains method &&
        (TypeGraph.ofRecords records).isSubclassOf className target.className) = true ↔
      target.Covers records className method := by
  rw [Bool.and_eq_true, TypeGraph.isSubclassOf_ofRecords, NameSet.contains, List.contains_iff_mem]
  constructor
  · rintro ⟨hlisted, habove⟩
    exact ⟨hlisted, habove⟩
  · rintro ⟨hlisted, habove⟩
    exact ⟨hlisted, habove⟩

theorem find?_eq_none_iff {r : CallRegistry} {records : List TypeRecord} {className method : String} :
    r.find? (TypeGraph.ofRecords records).isSubclassOf className method = none ↔
      ∀ target ∈ r.targets, ¬ target.Covers records className method := by
  simp only [find?, List.find?_eq_none, fits_iff_covers]

theorem find?_eq_some_iff {r : CallRegistry} {records : List TypeRecord} {className method : String}
    {target : UnsafeCall} :
    r.find? (TypeGraph.ofRecords records).isSubclassOf className method = some target ↔
      target.Covers records className method ∧ ∃ before after, r.targets = before ++ target :: after ∧
        ∀ earlier ∈ before, ¬ earlier.Covers records className method := by
  simp only [find?, List.find?_eq_some_iff_append, fits_iff_covers, Bool.not_eq_true',
    ← Bool.not_eq_true]

/-- A registry reports of a call what the call should give. -/
theorem callReport_check? (r : CallRegistry) (records : List TypeRecord) (site : CallSite) :
    CallReport r.targets records site
      (r.check? (TypeGraph.ofRecords records).isSubclassOf site).toList := by
  cases hcheck : r.check? (TypeGraph.ofRecords records).isSubclassOf site with
  | some f =>
    obtain ⟨className, method, target, hclass, hmethod, hfind, rfl⟩ := check?_eq_some.mp hcheck
    obtain ⟨hcovers, before, after, htargets, hfirst⟩ := find?_eq_some_iff.mp hfind
    exact .covered hclass hmethod htargets hcovers hfirst
  | none =>
    refine .clear fun className method hclass hmethod => find?_eq_none_iff.mp ?_
    rw [Option.eq_none_iff_forall_ne_some]
    intro target hfind
    have hsome := check?_eq_some.mpr ⟨className, method, target, hclass, hmethod, hfind, rfl⟩
    rw [hcheck] at hsome
    cases hsome

end CallRegistry

/-- What the standard rules report of the calls of some units follows what they report of the classes. It
is made up of what each call gives, in the order of the calls, and no other finding is of its issue. -/
theorem scanUnits_calls (c : ProjectConfig) (u : AnalysisUnits) :
    ∃ reports : List (List Finding),
      List.Forall₂ (CallReport c.allUnsafeCalls u.types) u.callSites reports ∧
      c.scanUnits .standard u = c.scanUnits .standard { u with callSites := [] } ++ reports.flatten ∧
      reports.flatten =
        (c.scanUnits .standard u).filter (·.ruleId = "UnsafeDynamicallyLoadedCode") := by
  let report (site : CallSite) : List Finding :=
    (c.callRegistry.check? u.typeGraph.isSubclassOf site).toList
  have hflatten : (u.callSites.map report).flatten =
      callFindings c.callRegistry u.typeGraph u.callSites := by
    rw [callFindings, List.filterMap_eq_flatMap_toList, List.flatMap_def]
  refine ⟨u.callSites.map report, ?_, ?_, ?_⟩
  · rw [List.forall₂_map_right_iff, List.forall₂_same]
    intro site _
    rw [← CallRegistry.targets_callRegistry]
    exact c.callRegistry.callReport_check? u.types site
  · rw [hflatten, scanUnits_standard, scanUnits_standard]
    simp [callFindings]
  · have hclasses : (classFindings u.classes).filter (·.ruleId = "UnsafeDynamicallyLoadedCode") = [] := by
      refine List.filter_eq_nil_iff.mpr fun f hf => ?_
      rw [ruleId_of_mem_classFindings hf]
      decide
    have hcalls : (callFindings c.callRegistry u.typeGraph u.callSites).filter
        (·.ruleId = "UnsafeDynamicallyLoadedCode") =
          callFindings c.callRegistry u.typeGraph u.callSites := by
      refine List.filter_eq_self.mpr fun f hf => ?_
      rw [ruleId_of_mem_callFindings hf]
      decide
    rw [hflatten, scanUnits_standard, List.filter_append, hclasses, hcalls, List.nil_append]

/-! ## Calls that need no look -/

/-- The units without the calls of which the method is unknown or none of the given ones. -/
def AnalysisUnits.callsOf (u : AnalysisUnits) (methods : NameSet) : AnalysisUnits :=
  { u with callSites := u.callSites.filter fun site => site.method.any methods.contains }

namespace CallRegistry

theorem mem_applicableMethods {r : CallRegistry} {method : String} :
    method ∈ r.applicableMethods.names ↔ ∃ target ∈ r.targets, method ∈ target.methods.names := by
  rw [applicableMethods, NameSet.mem_ofList, List.mem_flatMap]

/-- A call that is reported calls a method that some entry lists. -/
theorem applicable_of_check? {r : CallRegistry} {isBelow : String → String → Bool} {site : CallSite}
    (h : (r.check? isBelow site).isSome) : site.method.any r.applicableMethods.contains = true := by
  obtain ⟨f, hf⟩ := Option.isSome_iff_exists.mp h
  obtain ⟨className, method, target, -, hmethod, hfind, -⟩ := check?_eq_some.mp hf
  have hfits := List.find?_some hfind
  rw [Bool.and_eq_true, NameSet.contains, List.contains_iff_mem] at hfits
  rw [hmethod, Option.any_some, NameSet.contains, List.contains_iff_mem]
  exact mem_applicableMethods.mpr ⟨target, List.mem_of_find?_eq_some hfind, hfits.1⟩

/-- A method that some entry lists is reported when it is called on the class of the entry itself. -/
theorem check?_isSome_of_listed {r : CallRegistry} {target : UnsafeCall} (htarget : target ∈ r.targets)
    {method : String} (hlisted : method ∈ target.methods.names) (g : TypeGraph)
    (location : SourceLocation) :
    (r.check? g.isSubclassOf ⟨some target.className, some method, location⟩).isSome := by
  have hfits : (target.methods.contains method &&
      g.isSubclassOf target.className target.className) = true := by
    rw [g.isSubclassOf_self, Bool.and_true, NameSet.contains, List.contains_iff_mem]
    exact hlisted
  rw [check?, Option.isSome_map, find?, List.find?_isSome]
  exact ⟨target, htarget, hfits⟩

end CallRegistry

theorem callFindings_filter (r : CallRegistry) (g : TypeGraph) (sites : List CallSite) :
    callFindings r g (sites.filter fun site => site.method.any r.applicableMethods.contains) =
      callFindings r g sites := by
  rw [callFindings, callFindings, List.filterMap_filter]
  refine List.filterMap_congr fun site _ => ?_
  split
  · rfl
  · next hother =>
    refine (Option.not_isSome_iff_eq_none.mp fun hsome => hother ?_).symm
    exact CallRegistry.applicable_of_check? hsome

/-- Calls may be left out by the name of their method alone. Without the calls of methods that no unsafe
call of a project lists, the standard rules report the same of any units, and no listed method may be
left out besides: each is reported when it is called on some class, whatever is known of types. -/
theorem scanUnits_callsOf_applicable (c : ProjectConfig) :
    (∀ u : AnalysisUnits,
      c.scanUnits .standard (u.callsOf c.callRegistry.applicableMethods) = c.scanUnits .standard u) ∧
    ∀ method : String, method ∈ c.callRegistry.applicableMethods.names ↔
      ∃ className, ∀ (g : TypeGraph) (location : SourceLocation),
        (c.callRegistry.check? g.isSubclassOf ⟨some className, some method, location⟩).isSome := by
  refine ⟨fun u => ?_, fun method => ⟨fun hlisted => ?_, ?_⟩⟩
  · rw [scanUnits_standard, scanUnits_standard]
    exact congrArg (classFindings u.classes ++ ·)
      (callFindings_filter c.callRegistry u.typeGraph u.callSites)
  · obtain ⟨target, htarget, hmethod⟩ := CallRegistry.mem_applicableMethods.mp hlisted
    exact ⟨target.className, fun g location =>
      CallRegistry.check?_isSome_of_listed htarget hmethod g location⟩
  · rintro ⟨className, hreported⟩
    have hany := CallRegistry.applicable_of_check? (hreported .empty ⟨"", 0, 0⟩)
    exact List.contains_iff_mem.mp hany

/-! ## Calls that are registered later -/

namespace CallRegistry

theorem find?_foldl_register (r : CallRegistry) (more : List UnsafeCall)
    (isBelow : String → String → Bool) (className method : String) :
    (more.foldl register r).find? isBelow className method =
      (r.find? isBelow className method).or (find? ⟨more⟩ isBelow className method) := by
  rw [find?, targets_foldl_register, List.find?_append]
  rfl

/-- What a grown registry reports of a call is what it reported before, or else what the new entries
report. -/
theorem check?_foldl_register (r : CallRegistry) (more : List UnsafeCall)
    (isBelow : String → String → Bool) (site : CallSite) :
    (more.foldl register r).check? isBelow site =
      (r.check? isBelow site).or (check? ⟨more⟩ isBelow site) := by
  unfold check?
  cases site.className with
  | none => rfl
  | some className =>
    cases site.method with
    | none => rfl
    | some method => simp only [find?_foldl_register, Option.map_or]

end CallRegistry

/-- What is picked from a list stays, up to what is asked of it, if each element that gave something gives
something alike. -/
theorem sublist_map_filterMap {α β γ : Type} {f g : α → Option β} (k : β → γ)
    (h : ∀ a b, f a = some b → ∃ c, g a = some c ∧ k c = k b) (l : List α) :
    ((l.filterMap f).map k).Sublist ((l.filterMap g).map k) := by
  induction l with
  | nil => exact .slnil
  | cons a l ih =>
    rw [List.filterMap_cons, List.filterMap_cons]
    cases hf : f a with
    | some b =>
      obtain ⟨c, hg, hk⟩ := h a b hf
      simp only [hg, List.map_cons, hk]
      exact ih.cons_cons _
    | none =>
      cases g a with
      | some c => exact ih.cons _
      | none => exact ih

theorem callFindings_sublist (r : CallRegistry) (more : List UnsafeCall) (g : TypeGraph)
    (sites : List CallSite) :
    (callFindings r g sites).Sublist (callFindings (more.foldl CallRegistry.register r) g sites) := by
  have hkept := sublist_map_filterMap id (f := r.check? g.isSubclassOf)
    (g := (more.foldl CallRegistry.register r).check? g.isSubclassOf)
    (fun site f hf => ⟨f, by rw [CallRegistry.check?_foldl_register, hf, Option.some_or], rfl⟩) sites
  rwa [List.map_id, List.map_id] at hkept

/-- No finding on a call is lost or altered by what is registered later: a call that was reported is
reported in the same finding, whatever is known of types, and a call that was let pass is judged by the
new entries alone. So each finding of the two calls that always are unsafe stays as it is under those of
a project, and a scan of units reports what it does without these, in the same order. -/
theorem findings_outlast_registering :
    (∀ (r : CallRegistry) (more : List UnsafeCall) (isBelow : String → String → Bool) (site : CallSite),
      (∀ f, r.check? isBelow site = some f →
        (more.foldl CallRegistry.register r).check? isBelow site = some f) ∧
      (r.check? isBelow site = none → (more.foldl CallRegistry.register r).check? isBelow site =
        CallRegistry.check? ⟨more⟩ isBelow site)) ∧
    (∀ (c : ProjectConfig) (isBelow : String → String → Bool) (site : CallSite) (f : Finding),
      CallRegistry.builtin.check? isBelow site = some f →
        c.callRegistry.check? isBelow site = some f) ∧
    ∀ (c : ProjectConfig) (u : AnalysisUnits),
      (({ c with unsafeCalls := [] } : ProjectConfig).scanUnits .standard u).Sublist
        (c.scanUnits .standard u) := by
  have hkept (r : CallRegistry) (more : List UnsafeCall) (isBelow : String → String → Bool)
      (site : CallSite) (f : Finding) (hf : r.check? isBelow site = some f) :
      (more.foldl CallRegistry.register r).check? isBelow site = some f := by
    rw [CallRegistry.check?_foldl_register, hf, Option.some_or]
  refine ⟨fun r more isBelow site => ⟨hkept r more isBelow site, fun hpass => ?_⟩,
    fun c => hkept .builtin c.unsafeCalls, fun c u => ?_⟩
  · rw [CallRegistry.check?_foldl_register, hpass, Option.none_or]
  · rw [scanUnits_standard, scanUnits_standard]
    exact (callFindings_sublist .builtin c.unsafeCalls u.typeGraph u.callSites).append_left _

/-- Two further entries name the class of a first entry and one above it. They would report a call that a
first entry reports in other words, and they only get to report one that none of the first does. -/
theorem findings_outlast_registering_loader :
    let more : List UnsafeCall :=
      [⟨"java.lang.Object", .ofList ["load"], "open"⟩, ⟨"java/lang/Runtime", .ofList ["load"], "exec"⟩]
    let c : ProjectConfig := { ProjectConfig.ofName "demo" with unsafeCalls := more }
    let g := TypeGraph.ofRecords
      [⟨"a/Loader", some "java/lang/Runtime"⟩, ⟨"java.lang.Runtime", some "java.lang.Object"⟩,
        ⟨"a/Store", some "java/lang/Object"⟩]
    let loader : CallSite := ⟨some "a.Loader", some "load", ⟨"L.kt", 3, 5⟩⟩
    let store : CallSite := ⟨some "a.Store", some "load", ⟨"L.kt", 8, 1⟩⟩
    let builtin := CallRegistry.builtin
    let grown := more.foldl CallRegistry.register builtin
    CallRegistry.check? ⟨more⟩ g.isSubclassOf loader = some (loadFinding loader.location "load" "open") ∧
      grown.check? g.isSubclassOf loader = some (loadFinding loader.location "load" "loadLibrary") ∧
      c.callRegistry.check? g.isSubclassOf loader =
        some (loadFinding loader.location "load" "loadLibrary") ∧
      builtin.check? g.isSubclassOf store = none ∧
      grown.check? g.isSubclassOf store = CallRegistry.check? ⟨more⟩ g.isSubclassOf store ∧
      CallRegistry.check? ⟨more⟩ g.isSubclassOf store =
        some (loadFinding store.location "load" "open") := by
  intro more c g loader store builtin grown
  obtain ⟨hgrown, hproject, -⟩ := findings_outlast_registering
  have hloader : builtin.check? g.isSubclassOf loader =
      some (loadFinding loader.location "load" "loadLibrary") := by decide +kernel
  have hstore : builtin.check? g.isSubclassOf store = none := by decide +kernel
  exact ⟨by decide +kernel, (hgrown builtin more _ loader).1 _ hloader, hproject c _ loader _ hloader,
    hstore, (hgrown builtin more _ store).2 hstore, by decide +kernel⟩

/-! ## Calls when more is known of types -/

section

variable {records more : List TypeRecord}

theorem UnsafeCall.Covers.append {className method : String} {target : UnsafeCall}
    (h : target.Covers records className method) (hnew : OnNewTypes records more) :
    target.Covers (records ++ more) className method := by
  rw [← CallRegistry.fits_iff_covers, Bool.and_eq_true] at h ⊢
  exact ⟨h.1, TypeGraph.isSubclassOf_append hnew h.2⟩

/-- When more is known of types, the entry that had the say still has it, unless one before it comes to
cover the call. -/
theorem CallRegistry.find?_append_records {r : CallRegistry} (hnew : OnNewTypes records more)
    {className method : String} {target : UnsafeCall}
    (h : r.find? (TypeGraph.ofRecords records).isSubclassOf className method = some target) :
    ∃ before after, r.targets = before ++ target :: after ∧
      r.find? (TypeGraph.ofRecords (records ++ more)).isSubclassOf className method =
        ((mk before).find? (TypeGraph.ofRecords (records ++ more)).isSubclassOf className method).or
          (some target) := by
  obtain ⟨hcovers, before, after, htargets, -⟩ := find?_eq_some_iff.mp h
  have hfits := (fits_iff_covers _ _ _ _).mpr (hcovers.append hnew)
  refine ⟨before, after, htargets, ?_⟩
  simp only [find?, htargets, List.find?_append, List.find?_cons, hfits]

/-- A call that is reported stays so when more is known of types, perhaps in other words. -/
theorem CallRegistry.check?_append_records {r : CallRegistry} (hnew : OnNewTypes records more)
    {site : CallSite} {f : Finding}
    (h : r.check? (TypeGraph.ofRecords records).isSubclassOf site = some f) :
    ∃ message, r.check? (TypeGraph.ofRecords (records ++ more)).isSubclassOf site =
      some { f with message := message } := by
  obtain ⟨className, method, target, hclass, hmethod, hfind, rfl⟩ := check?_eq_some.mp h
  obtain ⟨before, -, -, hgrown⟩ := find?_append_records hnew hfind
  rw [Option.or_some] at hgrown
  exact ⟨_, check?_eq_some.mpr ⟨className, method, _, hclass, hmethod, hgrown, rfl⟩⟩

theorem callFindings_append_records (r : CallRegistry) (hnew : OnNewTypes records more)
    (sites : List CallSite) :
    ((callFindings r (.ofRecords records) sites).map Finding.key).Sublist
      ((callFindings r (.ofRecords (records ++ more)) sites).map Finding.key) := by
  refine sublist_map_filterMap Finding.key (fun site f hf => ?_) sites
  obtain ⟨message, hgrown⟩ := CallRegistry.check?_append_records hnew hf
  exact ⟨_, hgrown, rfl⟩

end

/-- No finding on a call is lost by what becomes known of types besides: under records on new types in
any order, with rings or without, a call that was reported is reported in a finding that differs from the
one before at most in its words. So a scan of units reports issues at the places where it did without the
further records, in the same order. -/
theorem calls_stay_reported (c : ProjectConfig) (records more : List TypeRecord)
    (hnew : OnNewTypes records more) :
    (∀ (site : CallSite) (f : Finding),
      c.callRegistry.check? (TypeGraph.ofRecords records).isSubclassOf site = some f →
        ∃ message, c.callRegistry.check? (TypeGraph.ofRecords (records ++ more)).isSubclassOf site =
          some { f with message := message }) ∧
    ∀ (classes : List ClassUnit) (sites : List CallSite),
      ((c.scanUnits .standard ⟨classes, records, sites⟩).map Finding.key).Sublist
        ((c.scanUnits .standard ⟨classes, records ++ more, sites⟩).map Finding.key) := by
  refine ⟨fun site f => CallRegistry.check?_append_records hnew, fun classes sites => ?_⟩
  rw [scanUnits_standard, scanUnits_standard, List.map_append, List.map_append]
  exact (callFindings_append_records c.callRegistry hnew sites).append_left _

/-- A call on a class below one of the project's own unsafe calls. Further records lead on from that class
to one of the calls that always are unsafe, and back: the call is reported as before, but in the words of
the other entry. -/
theorem calls_stay_reported_ring :
    let c : ProjectConfig :=
      { ProjectConfig.ofName "demo" with unsafeCalls := [⟨"a/Loader", .ofList ["load"], "open"⟩] }
    let records : List TypeRecord := [⟨"a/Plugins", some "a/Loader"⟩, ⟨"a/Loader", none⟩]
    let more : List TypeRecord :=
      [⟨"java/lang/System", some "a/Plugins"⟩, ⟨"a.Loader", some "java.lang.System"⟩, ⟨"a/Plugins", none⟩]
    let site : CallSite := ⟨some "a.Plugins", some "load", ⟨"P.kt", 3, 5⟩⟩
    let before := loadFinding site.location "load" "open"
    let after := loadFinding site.location "load" "loadLibrary"
    OnNewTypes records more ∧
      c.callRegistry.check? (TypeGraph.ofRecords records).isSubclassOf site = some before ∧
      after = { before with message := after.message } ∧
      c.callRegistry.check? (TypeGraph.ofRecords (records ++ more)).isSubclassOf site = some after := by
  intro c records more site before after
  have hnew : OnNewTypes records more := by decide +kernel
  have hbefore : c.callRegistry.check? (TypeGraph.ofRecords records).isSubclassOf site = some before := by
    decide +kernel
  have hafter : c.callRegistry.check? (TypeGraph.ofRecords (records ++ more)).isSubclassOf site =
      some after := by decide +kernel
  obtain ⟨message, hstays⟩ := (calls_stay_reported c records more hnew).1 site before hbefore
  have hsame : after = { before with message := message } := Option.some.inj (hafter.symm.trans hstays)
  exact ⟨hnew, hbefore, by rw [hsame], hafter⟩

end AndroidAudit
