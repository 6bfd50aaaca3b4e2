import Mathlib.Data.List.Lex
import Mathlib.Tactic.SplitIfs
import AndroidAudit.Text.Utf8

/-!
# The order of texts

Texts are compared character by character, which is the same as byte by byte in UTF-8
(`compare_eq_lt_iff`). It is enough that the bytes of the lesser of two characters come first whatever
follows them (`bytesPrecede_of_lt`): the first characters in which texts differ then decide in both ways.
-/

namespace AndroidAudit.Text

/-- Whether bytes come before others: the first that differ decide, and where none do the shorter come
first. -/
abbrev BytesPrecede (xs ys : List UInt8) : Prop := List.Lex (· < ·) xs ys

/-- Whether a text comes before another, by their bytes. -/
def Precedes (a b : String) : Prop := BytesPrecede (encode a) (encode b)

theorem encode_eq_flatMap (s : String) : encode s = s.toList.flatMap String.utf8EncodeChar := by
  rw [encode, String.toUTF8, ← String.utf8Encode_toList, List.utf8Encode]
  simp

theorem bytesPrecede_cons {m n : Nat} {xs ys : List UInt8} (hm : m < 256) (hn : n < 256) :
    BytesPrecede (.ofNat m :: xs) (.ofNat n :: ys) ↔ m < n ∨ m = n ∧ BytesPrecede xs ys := by
  have hlt : UInt8.ofNat m < UInt8.ofNat n ↔ m < n := by
    rw [UInt8.lt_iff_toNat_lt, UInt8.toNat_ofNat_of_lt' hm, UInt8.toNat_ofNat_of_lt' hn]
  have heq : UInt8.ofNat m = UInt8.ofNat n ↔ m = n := by
    rw [← UInt8.toNat_inj, UInt8.toNat_ofNat_of_lt' hm, UInt8.toNat_ofNat_of_lt' hn]
  rw [BytesPrecede, List.cons_lex_cons_iff, hlt, heq]

/-- The bytes of the lesser character come first, whatever follows. -/
theorem bytesPrecede_of_lt {c d : Char} (h : c < d) (xs ys : List UInt8) :
    BytesPrecede (String.utf8EncodeChar c ++ xs) (String.utf8EncodeChar d ++ ys) := by
  have hlt : c.val.toNat < d.val.toNat := h
  have hd : d.val.toNat < 0x110000 := by
    rcases d.valid with hd | hd
    · exact Nat.lt_trans hd (by decide)
    · exact hd.2
  -- every byte holds the six bits above those of the bytes after it
  have hthird (v : Nat) : v / 4096 = v / 64 / 64 := by omega
  have hfourth (v : Nat) : v / 262144 = v / 64 / 64 / 64 := by omega
  simp only [String.utf8EncodeChar, hthird, hfourth]
  -- the longer encoding has the greater first byte; in two of one length the highest bits come first
  split_ifs
  all_goals
    simp (disch := omega) only [List.cons_append, List.nil_append, bytesPrecede_cons]
    omega

theorem bytesPrecede_flatMap {cs ds : List Char} (h : List.Lex (· < ·) cs ds) :
    BytesPrecede (cs.flatMap String.utf8EncodeChar) (ds.flatMap String.utf8EncodeChar) := by
  induction h with
  | @nil d ds =>
    obtain ⟨b, bs, hd⟩ := List.exists_cons_of_ne_nil (String.utf8EncodeChar_ne_nil (c := d))
    rw [List.flatMap_cons, hd]
    exact .nil
  | rel hlt => exact bytesPrecede_of_lt hlt _ _
  | cons _ ih => exact ih.append_left _ _

theorem precedes_of_compare {a b : String} (h : compare a b = .lt) : Precedes a b := by
  rw [Precedes, encode_eq_flatMap, encode_eq_flatMap]
  exact bytesPrecede_flatMap (compareOfLessAndEq_eq_lt.mp h)

/-- Texts are in the order of their bytes. -/
theorem compare_eq_lt_iff {a b : String} : compare a b = .lt ↔ Precedes a b := by
  refine ⟨precedes_of_compare, fun h => ?_⟩
  have hasymm : ¬ Precedes b a := List.lex_asymm UInt8.lt_asymm h
  cases hab : compare a b with
  | lt => rfl
  | eq =>
    obtain rfl := Std.LawfulEqCmp.eq_of_compare hab
    exact absurd h hasymm
  | gt => exact absurd (precedes_of_compare (Std.OrientedCmp.gt_iff_lt.mp hab)) hasymm

end AndroidAudit.Text
