import Mathlib.Data.List.Forall2
import AndroidAudit.Path.Basic
import AndroidAudit.Text.AsciiCase

/-!
# Letters in either case

Two texts are the same but for case if they differ at most in letters A to Z that are capital in the one
and small in the other, each letter for itself (`SameButCase`). Texts are told alike by their folded
forms, which comes to the same (`eqFoldCase_iff_sameButCase`).

The letters of a path may be changed where it is read as symbols or in the bytes that spell it. The same
bytes are characters then and the same are stray (`sameButCase_ofBytes`), since no letter is part of a
longer encoding.
-/

namespace AndroidAudit

open Text (Symbol)

namespace Text

/-! ## Texts -/

/-- The same code, or the codes of one of the letters A to Z as a capital and as a small letter. -/
def SameLetter (a b : Nat) : Prop :=
  a = b ∨ (65 ≤ a ∧ a ≤ 90 ∧ b = a + 32) ∨ (65 ≤ b ∧ b ≤ 90 ∧ a = b + 32)

instance (a b : Nat) : Decidable (SameLetter a b) := inferInstanceAs (Decidable (_ ∨ _))

/-- Whether a character is one of the letters A to Z, capital or small. -/
def isLetter (c : Char) : Bool :=
  (65 ≤ c.toNat ∧ c.toNat ≤ 90) ∨ (97 ≤ c.toNat ∧ c.toNat ≤ 122)

/-- Two texts that differ at most in the case of letters A to Z. -/
def SameButCase (a b : String) : Prop :=
  List.Forall₂ (fun c d => SameLetter c.toNat d.toNat) a.toList b.toList

instance (a b : String) : Decidable (SameButCase a b) := inferInstanceAs (Decidable (List.Forall₂ _ _ _))

theorem toNat_toLower (c : Char) :
    c.toLower.toNat = if 65 ≤ c.toNat ∧ c.toNat ≤ 90 then c.toNat + 32 else c.toNat := by
  have hcapital : c.val ≥ 'A'.val ∧ c.val ≤ 'Z'.val ↔ 65 ≤ c.toNat ∧ c.toNat ≤ 90 := by
    rw [ge_iff_le, UInt32.le_iff_toNat_le, UInt32.le_iff_toNat_le]
    rfl
  unfold Char.toLower
  split
  · next h =>
    rw [hcapital] at h
    rw [if_pos h]
    show (c.val + 32).toNat = c.val.toNat + 32
    have hle : c.val.toNat ≤ 90 := h.2
    have hstep : (32 : UInt32).toNat = 32 := rfl
    rw [UInt32.toNat_add, hstep]
    exact Nat.mod_eq_of_lt (by omega)
  · next h => rw [if_neg (mt hcapital.mpr h)]

theorem toLower_eq_iff {c d : Char} : c.toLower = d.toLower ↔ SameLetter c.toNat d.toNat := by
  rw [← Char.toNat_inj, toNat_toLower, toNat_toLower, SameLetter]
  split <;> split <;> omega

/-- A character that is no letter has no other case. -/
theorem SameLetter.eq_iff {c d e : Char} (h : SameLetter c.toNat d.toNat) (he : isLetter e = false) :
    c = e ↔ d = e := by
  rw [isLetter, decide_eq_false_iff_not] at he
  rw [← Char.toNat_inj, ← Char.toNat_inj]
  unfold SameLetter at h
  omega

theorem foldCase_eq_iff {a b : List Char} :
    foldCase a = foldCase b ↔ List.Forall₂ (fun c d => SameLetter c.toNat d.toNat) a b := by
  rw [foldCase, foldCase, ← List.forall₂_eq_eq_eq, List.forall₂_map_left_iff,
    List.forall₂_map_right_iff]
  simp only [toLower_eq_iff]

theorem eqFoldCase_iff_sameButCase {a b : String} : eqFoldCase a b = true ↔ SameButCase a b := by
  rw [eqFoldCase_iff, foldCase_eq_iff, SameButCase]

/-! ## Symbols -/

/-- A character in either case, or the same stray bytes. -/
inductive Symbol.Recased : Symbol → Symbol → Prop where
  | char {c d : Char} (h : SameLetter c.toNat d.toNat) : Recased (.char c) (.char d)
  | stray (bytes : List UInt8) : Recased (.stray bytes) (.stray bytes)

theorem Symbol.Recased.refl (s : Symbol) : s.Recased s := by
  cases s with
  | char c => exact .char (.inl rfl)
  | stray bytes => exact .stray bytes

theorem Symbol.Recased.shown {s t : Symbol} (h : s.Recased t) : SameLetter s.shown.toNat t.shown.toNat := by
  cases h with
  | char h => exact h
  | stray bytes => exact .inl rfl

theorem Symbol.Recased.eq_char_iff {s t : Symbol} (h : s.Recased t) {c : Char} (hc : isLetter c = false) :
    s = .char c ↔ t = .char c := by
  cases h with
  | char h => simp only [Symbol.char.injEq, h.eq_iff hc]
  | stray bytes => rfl

/-! ## Bytes -/

/-- Bytes that differ at most in the case of letters A to Z. -/
def RecasedBytes (a b : List UInt8) : Prop :=
  List.Forall₂ (fun x y => SameLetter x.toNat y.toNat) a b

theorem eq_of_sameLetter {a b : UInt8} (h : SameLetter a.toNat b.toNat) (ha : 0x80 ≤ a) : a = b := by
  have ha : 128 ≤ a.toNat := UInt8.le_iff_toNat_le.mp ha
  have hb := b.toNat_lt
  rw [← UInt8.toNat_inj]
  unfold SameLetter at h
  omega

theorem SameLetter.symm {a b : Nat} (h : SameLetter a b) : SameLetter b a := by
  rcases h with h | h | h
  · exact .inl h.symm
  · exact .inr (.inr h)
  · exact .inr (.inl h)

/-- The bytes that complete an encoding are no letters. -/
theorem takeTail_recased {a b : List UInt8} (h : RecasedBytes a b) {lo : UInt8} (hlo : 0x80 ≤ lo)
    (hi : UInt8) (n : Nat) : takeTail lo hi n a = takeTail lo hi n b := by
  induction h generalizing lo hi n with
  | nil => rfl
  | @cons x y a b hxy _ ih =>
    cases n with
    | zero => rfl
    | succ n =>
      by_cases hx : 0x80 ≤ x
      · obtain rfl := eq_of_sameLetter hxy hx
        rw [takeTail, takeTail, ih (by decide) 0xBF n]
      · -- below the range, in either case
        have hy : ¬ 0x80 ≤ y := fun hy => hx (eq_of_sameLetter hxy.symm hy ▸ hy)
        have hout (z : UInt8) (hz : ¬ 0x80 ≤ z) : (decide (lo ≤ z) && decide (z ≤ hi)) = false := by
          rw [decide_eq_false (fun hle => hz (UInt8.le_trans hlo hle)), Bool.false_and]
        rw [takeTail, takeTail, hout x hx, hout y hy]
        rfl

theorem le_of_tailOf {b lo hi : UInt8} {n : Nat} (h : tailOf b = some (lo, hi, n)) : 0x80 ≤ lo := by
  have hranges : (tailOf b).all (fun range => 0x80 ≤ range.1) = true := by
    simp only [tailOf, apply_ite (Option.all _), Option.all_some, Option.all_none]
    simp
  rw [h] at hranges
  exact of_decide_eq_true hranges

theorem toNat_ofNat_of_lt {n : Nat} (h : n < 128) : (Char.ofNat n).toNat = n := by
  have hvalid : n.isValidChar := .inl (by omega)
  rw [Char.ofNat, dif_pos hvalid]
  rfl

/-- A letter is a symbol by itself, and all other symbols stay the same. -/
theorem firstSymbol_recased {x y : UInt8} {a b : List UInt8} (hxy : SameLetter x.toNat y.toNat)
    (h : RecasedBytes a b) :
    (firstSymbol x a).1.Recased (firstSymbol y b).1 ∧ (firstSymbol x a).2 = (firstSymbol y b).2 := by
  by_cases hx : x < 0x80
  · have hx' : x.toNat < 128 := UInt8.lt_iff_toNat_lt.mp hx
    have hy' : y.toNat < 128 := by
      unfold SameLetter at hxy
      omega
    have hy : y < 0x80 := UInt8.lt_iff_toNat_lt.mpr hy'
    rw [firstSymbol, firstSymbol, if_pos hx, if_pos hy]
    refine ⟨.char ?_, rfl⟩
    rwa [toNat_ofNat_of_lt hx', toNat_ofNat_of_lt hy']
  · obtain rfl := eq_of_sameLetter hxy (UInt8.not_lt.mp hx)
    have hsame : firstSymbol x a = firstSymbol x b := by
      rw [firstSymbol, firstSymbol]
      cases htail : tailOf x with
      | none => rfl
      | some range =>
        obtain ⟨lo, hi, n⟩ := range
        simp only [takeTail_recased h (le_of_tailOf htail) hi n]
    rw [hsame]
    exact ⟨.refl _, rfl⟩

theorem symbols_recased {a b : List UInt8} (h : RecasedBytes a b) :
    List.Forall₂ Symbol.Recased (symbols a) (symbols b) := by
  fun_induction symbols a generalizing b with
  | case1 =>
    obtain rfl := List.forall₂_nil_left_iff.mp h
    rw [symbols]
    exact .nil
  | case2 x a s n hfirst ih =>
    obtain ⟨y, b, hxy, hab, rfl⟩ := List.forall₂_cons_left_iff.mp h
    obtain ⟨hsymbol, hlength⟩ := firstSymbol_recased hxy hab
    rw [hfirst] at hsymbol hlength
    rw [symbols]
    simp only [← hlength]
    exact .cons hsymbol (ih (List.forall₂_drop n hab))

end Text

/-! ## Paths -/

namespace Path

/-- Two spellings of a path that differ at most in the case of letters A to Z. -/
def SameButCase (p q : Path) : Prop := List.Forall₂ Symbol.Recased p.symbols q.symbols

theorem sameButCase_ofBytes {a b : List UInt8} (h : Text.RecasedBytes a b) :
    (ofBytes a).SameButCase (ofBytes b) := Text.symbols_recased h

end Path

end AndroidAudit
