import AndroidAudit.Model.Finding

/-!
# The order of findings

Findings are sorted by their key, the issue and the location. The order of the keys is a linear one
(`Location.order_eq_iff` and the instances of `Std.TransCmp`), and the sort is stable, so a sorted
list is known from what it holds for each key:

* `filter_key_sortFindings`: for each key the sort keeps the findings of that key as they were;
* `eq_of_filter_key`: two sorted lists with the same findings for each key are equal;
* `filter_key_of_perm`: where the key of a finding tells the whole of it, a list and the same list in
  another order have the same findings for each key.
-/

namespace AndroidAudit

open Std (TransCmp OrientedCmp)

/-! ## Locations -/

namespace Location

/-- The place of a kind of location among the kinds. -/
def rank : Location → Nat
  | .method _ _ => 0
  | .source _ _ _ => 1
  | .file _ => 2

/-- The first text of a location. -/
def subject : Location → String
  | .method c _ => c
  | .source f _ _ => f
  | .file p => p

/-- The method of a location, if it is one of a method. -/
def member : Location → String
  | .method _ m => m
  | _ => ""

/-- The line of a location, if it is one in a source file. -/
def row : Location → UInt32
  | .source _ l _ => l
  | _ => 0

/-- The column of a location, if it is one in a source file. -/
def column : Location → UInt32
  | .source _ _ c => c
  | _ => 0

/-- The order of locations compares the kind and then one field after another. A field that a kind
does not have is the same in all its locations and decides nothing. -/
theorem order_eq_compareLex :
    order = compareLex (compareOn rank) (compareLex (compareOn subject)
      (compareLex (compareOn member) (compareLex (compareOn row) (compareOn column)))) := by
  funext a b
  cases a <;> cases b <;>
    simp [order, compareLex, compareOn, rank, subject, member, row, column,
      Ordering.then_assoc] <;> rfl

instance : TransCmp order := by
  rw [order_eq_compareLex]
  infer_instance

theorem order_eq_iff {a b : Location} : a.order b = .eq ↔ a = b := by
  cases a <;> cases b <;> simp [order, Ordering.then_eq_eq, and_assoc]

end Location

/-! ## Findings -/

namespace Finding

/-- What a finding is sorted by. -/
def key (f : Finding) : String × Location := (f.ruleId, f.location)

theorem order_eq_compareLex : order = compareLex (compareOn ruleId)
    (fun a b => a.location.order b.location) := rfl

instance : TransCmp fun a b : Finding => a.location.order b.location where
  eq_swap := OrientedCmp.eq_swap
  isLE_trans := TransCmp.isLE_trans

instance : TransCmp order := by
  rw [order_eq_compareLex]
  infer_instance

theorem order_eq_iff {a b : Finding} : a.order b = .eq ↔ a.key = b.key := by
  simp [order, key, Ordering.then_eq_eq, Location.order_eq_iff]

/-- Whether a finding may stand before another in a sorted list. -/
def before (a b : Finding) : Bool := a.order b != .gt

theorem before_eq_isLE (a b : Finding) : a.before b = (a.order b).isLE := by
  unfold before
  cases a.order b <;> rfl

theorem before_trans (a b c : Finding) (h₁ : a.before b = true) (h₂ : b.before c = true) :
    a.before c = true := by
  rw [before_eq_isLE] at h₁ h₂ ⊢
  exact TransCmp.isLE_trans h₁ h₂

theorem before_total (a b : Finding) : (a.before b || b.before a) = true := by
  have hs : b.order a = (a.order b).swap := OrientedCmp.eq_swap
  unfold before
  rw [hs]
  cases a.order b <;> rfl

theorem before_of_key_eq {a b : Finding} (h : a.key = b.key) : a.before b = true := by
  unfold before
  rw [order_eq_iff.mpr h]
  rfl

theorem key_eq_of_before {a b : Finding} (h₁ : a.before b = true) (h₂ : b.before a = true) :
    a.key = b.key := by
  rw [before_eq_isLE] at h₁ h₂
  exact order_eq_iff.mp (OrientedCmp.isLE_antisymm h₁ h₂)

end Finding

/-! ## Sorting -/

theorem sortFindings_eq (fs : List Finding) : sortFindings fs = fs.mergeSort Finding.before := rfl

theorem sortFindings_perm (fs : List Finding) : (sortFindings fs).Perm fs := by
  rw [sortFindings_eq]
  exact List.mergeSort_perm fs _

theorem sortFindings_pairwise (fs : List Finding) :
    (sortFindings fs).Pairwise fun a b => a.before b = true := by
  rw [sortFindings_eq]
  exact List.pairwise_mergeSort Finding.before_trans Finding.before_total fs

/-- The sort is stable: the findings of one key stay as they were. -/
theorem filter_key_sortFindings (fs : List Finding) (k : String × Location) :
    (sortFindings fs).filter (·.key = k) = fs.filter (·.key = k) := by
  have hlike : (fs.filter (·.key = k)).Pairwise fun a b => a.before b = true := by
    refine List.pairwise_of_forall_mem_list fun a ha b hb => Finding.before_of_key_eq ?_
    have hka := (List.mem_filter.mp ha).2
    have hkb := (List.mem_filter.mp hb).2
    rw [decide_eq_true_eq] at hka hkb
    rw [hka, hkb]
  have hsub : (fs.filter (·.key = k)).Sublist (sortFindings fs) := by
    rw [sortFindings_eq]
    exact List.sublist_mergeSort Finding.before_trans Finding.before_total hlike
      List.filter_sublist
  have hsub' := hsub.filter (·.key = k)
  rw [List.filter_filter] at hsub'
  simp only [Bool.and_self] at hsub'
  exact (hsub'.eq_of_length ((sortFindings_perm fs).filter _).length_eq.symm).symm

/-- A sorted list is known from what it holds for each key. -/
theorem eq_of_filter_key {fs gs : List Finding} (hf : fs.Pairwise fun a b => a.before b = true)
    (hg : gs.Pairwise fun a b => a.before b = true)
    (h : ∀ k, fs.filter (·.key = k) = gs.filter (·.key = k)) : fs = gs := by
  induction fs generalizing gs with
  | nil =>
    cases gs with
    | nil => rfl
    | cons g gs =>
      have hk := h g.key
      simp at hk
  | cons f fs ih =>
    cases gs with
    | nil =>
      have hk := h f.key
      simp at hk
    | cons g gs =>
      obtain ⟨hf₁, hf₂⟩ := List.pairwise_cons.mp hf
      obtain ⟨hg₁, hg₂⟩ := List.pairwise_cons.mp hg
      -- each head has a finding of its key in the other list, so neither comes after the other
      have hfg : f.before g = true := by
        have hm : g ∈ (f :: fs).filter (·.key = g.key) := by rw [h g.key]; simp
        rcases List.mem_cons.mp (List.mem_filter.mp hm).1 with rfl | hm
        · exact Finding.before_of_key_eq rfl
        · exact hf₁ g hm
      have hgf : g.before f = true := by
        have hm : f ∈ (g :: gs).filter (·.key = f.key) := by rw [← h f.key]; simp
        rcases List.mem_cons.mp (List.mem_filter.mp hm).1 with rfl | hm
        · exact Finding.before_of_key_eq rfl
        · exact hg₁ f hm
      have hkey := Finding.key_eq_of_before hfg hgf
      have hhead : f = g := by
        have hk := h f.key
        rw [List.filter_cons_of_pos (by simp), List.filter_cons_of_pos (by simp [hkey])] at hk
        exact (List.cons.inj hk).1
      subst hhead
      refine congrArg (f :: ·) (ih hf₂ hg₂ fun k => ?_)
      have hk := h k
      by_cases e : f.key = k
      · rw [List.filter_cons_of_pos (by simpa using e), List.filter_cons_of_pos (by simpa using e)] at hk
        exact (List.cons.inj hk).2
      · rw [List.filter_cons_of_neg (by simpa using e), List.filter_cons_of_neg (by simpa using e)] at hk
        exact hk

/-- Where the key of a finding tells the whole of it, the order in which findings come does not
matter to what there is for each key. -/
theorem filter_key_of_perm {fs gs : List Finding} (hp : fs.Perm gs)
    (h : ∀ f ∈ fs, ∀ g ∈ fs, f.key = g.key → f = g) (k : String × Location) :
    fs.filter (·.key = k) = gs.filter (·.key = k) := by
  have hp' := hp.filter (·.key = k)
  have hone : ∀ f ∈ fs.filter (·.key = k), ∀ g ∈ fs.filter (·.key = k), f = g := by
    intro f hf g hg
    obtain ⟨hf, hkf⟩ := List.mem_filter.mp hf
    obtain ⟨hg, hkg⟩ := List.mem_filter.mp hg
    rw [decide_eq_true_eq] at hkf hkg
    exact h f hf g hg (by rw [hkf, hkg])
  generalize fs.filter (·.key = k) = as at hp' hone
  generalize gs.filter (·.key = k) = bs at hp'
  cases as with
  | nil => exact (List.nil_perm.mp hp').symm
  | cons a as =>
    have ha : a :: as = List.replicate (a :: as).length a :=
      List.eq_replicate_of_mem fun b hb => hone b hb a List.mem_cons_self
    rw [ha] at hp' ⊢
    exact (List.replicate_perm.mp hp')

end AndroidAudit
