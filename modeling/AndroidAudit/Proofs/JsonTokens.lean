import Mathlib.Data.List.Basic
import Mathlib.Tactic.SplitIfs
import AndroidAudit.Json.Source

/-!
# Reading back the parts of a JSON text

What is written of a string, a number or a word is read back, whatever text follows, and the reading
stops where that text starts. Where it stops is told up to the place (`q` in the statements), since
only faults name places.

* `readString_quote`: strings, as they are written;
* `scanNumber_digits`: natural numbers below `2^64`, if what follows does not go on with the number;
* `scanWord_append`: words;
* `skipBlank_append`: blanks are passed over.
-/

namespace AndroidAudit.Json

/-! ## Runs of characters -/

theorem spanFrom_append {f : Char → Bool} {cs tail : List Char} (h : ∀ c ∈ cs, f c = true)
    (htail : ∀ c, tail.head? = some c → f c = false) (p : Place) :
    ∃ q, Cursor.spanFrom f (cs ++ tail) p = (cs, ⟨tail, q⟩) := by
  induction cs generalizing p with
  | nil =>
    cases tail with
    | nil => exact ⟨p, rfl⟩
    | cons c tail => exact ⟨p, by simp [Cursor.spanFrom, htail c rfl]⟩
  | cons c cs ih =>
    obtain ⟨hc, h⟩ := List.forall_mem_cons.mp h
    obtain ⟨q, hq⟩ := ih h (p.after c)
    exact ⟨q, by simp [Cursor.spanFrom, hc, hq]⟩

/-- Characters that may stand between any two parts of a document. -/
def Blank (cs : List Char) : Prop := ∀ c ∈ cs, Cursor.isBlank c = true

theorem skipBlank_append {cs tail : List Char} (h : Blank cs)
    (htail : ∀ c, tail.head? = some c → Cursor.isBlank c = false) (p : Place) :
    ∃ q, Cursor.skipBlank ⟨cs ++ tail, p⟩ = ⟨tail, q⟩ := by
  obtain ⟨q, hq⟩ := spanFrom_append h htail p
  exact ⟨q, by rw [Cursor.skipBlank, Cursor.span, hq]⟩

theorem blank_nil : Blank [] := fun _ h => nomatch h

theorem skipBlank_cons {c : Char} (hc : Cursor.isBlank c = false) {gap : List Char} (hgap : Blank gap)
    (tail : List Char) (p : Place) :
    ∃ q, Cursor.skipBlank ⟨gap ++ c :: tail, p⟩ = ⟨c :: tail, q⟩ := by
  refine skipBlank_append hgap (fun d hd => ?_) p
  rw [← Option.some.inj hd]
  exact hc

theorem scanWord_append (word tail : List Char) (p : Place) :
    ∃ q, scanWord word ⟨word ++ tail, p⟩ = .ok ⟨tail, q⟩ := by
  induction word generalizing p with
  | nil => exact ⟨p, rfl⟩
  | cons w word ih =>
    obtain ⟨q, hq⟩ := ih (p.after w)
    exact ⟨q, by simpa [scanWord, Cursor.next] using hq⟩

/-! ## Strings -/

theorem fourDigits?_hexDigit {n : Nat} (h : n < 32) :
    fourDigits? '0' '0' (Text.hexDigit (n / 16)) (Text.hexDigit (n % 16)) = some n := by
  revert n
  decide

/-- How a character is written: with a short escape, with its number, or as itself. -/
theorem escapeChar_cases (c : Char) :
    (∃ e, escapeChar c = ['\\', e] ∧ e ≠ 'u' ∧ shortEscape? e = some c) ∨
    (c.toNat < 32 ∧ ∃ d e, escapeChar c = ['\\', 'u', '0', '0', d, e] ∧
      fourDigits? '0' '0' d e = some c.toNat) ∨
    (escapeChar c = [c] ∧ c ≠ '"' ∧ c ≠ '\\' ∧ ¬ c.toNat < 32) := by
  rw [escapeChar]
  by_cases h₁ : c = '"'
  · rw [if_pos h₁]
    exact .inl ⟨_, rfl, by decide, by rw [h₁]; decide⟩
  rw [if_neg h₁]
  by_cases h₂ : c = '\\'
  · rw [if_pos h₂]
    exact .inl ⟨_, rfl, by decide, by rw [h₂]; decide⟩
  rw [if_neg h₂]
  by_cases h₃ : c = '\x08'
  · rw [if_pos h₃]
    exact .inl ⟨_, rfl, by decide, by rw [h₃]; decide⟩
  rw [if_neg h₃]
  by_cases h₄ : c = '\x0c'
  · rw [if_pos h₄]
    exact .inl ⟨_, rfl, by decide, by rw [h₄]; decide⟩
  rw [if_neg h₄]
  by_cases h₅ : c = '\n'
  · rw [if_pos h₅]
    exact .inl ⟨_, rfl, by decide, by rw [h₅]; decide⟩
  rw [if_neg h₅]
  by_cases h₆ : c = '\r'
  · rw [if_pos h₆]
    exact .inl ⟨_, rfl, by decide, by rw [h₆]; decide⟩
  rw [if_neg h₆]
  by_cases h₇ : c = '\t'
  · rw [if_pos h₇]
    exact .inl ⟨_, rfl, by decide, by rw [h₇]; decide⟩
  rw [if_neg h₇]
  by_cases h₈ : c.toNat < 32
  · rw [if_pos h₈]
    exact .inr (.inl ⟨h₈, _, _, rfl, fourDigits?_hexDigit h₈⟩)
  rw [if_neg h₈]
  exact .inr (.inr ⟨rfl, h₁, h₂, h₈⟩)

theorem readString_escapeChar (c : Char) (rest : List Char) (p : Place) :
    ∃ q, readString (escapeChar c ++ rest) p = consRead c (readString rest q) := by
  rcases escapeChar_cases c with ⟨e, hc, hu, he⟩ | ⟨hlow, d, e, hc, hn⟩ | ⟨hc, hq, hb, hn⟩
  · refine ⟨p.shift 2, ?_⟩
    rw [hc, readString.eq_def]
    simp [hu, he]
  · have hsmall : isLowSurrogate c.toNat = false ∧ isHighSurrogate c.toNat = false := by
      simp only [isLowSurrogate, isHighSurrogate, Bool.and_eq_false_iff, decide_eq_false_iff_not]
      omega
    refine ⟨p.shift 6, ?_⟩
    rw [hc, readString.eq_def]
    simp [hn, hsmall]
  · refine ⟨p.after c, ?_⟩
    rw [hc, readString.eq_def]
    simp [hq, hb, hn]

/-- From behind its opening quote, a string is read as the text that was written. -/
theorem readString_quote (cs tail : List Char) (p : Place) :
    readString (cs.flatMap escapeChar ++ '"' :: tail) p = .ok cs := by
  induction cs generalizing p with
  | nil => rw [readString.eq_def]; simp
  | cons c cs ih =>
    rw [List.flatMap_cons, List.append_assoc]
    obtain ⟨q₁, h₁⟩ := readString_escapeChar c (cs.flatMap escapeChar ++ '"' :: tail) p
    rw [h₁, ih q₁]
    rfl

/-! ## Numbers -/

theorem isDigit_ne {c d : Char} (h : isDigit c = true) (hd : isDigit d = false) : c ≠ d := by
  rintro rfl
  rw [h] at hd
  cases hd

theorem isDigit_of_mem_digits {n : Nat} {c : Char} (h : c ∈ digits n) : isDigit c = true := by
  have hc : c.isDigit = true := Nat.isDigit_of_mem_toDigits (by decide) (by decide) h
  rw [Char.isDigit, Bool.and_eq_true, decide_eq_true_eq, decide_eq_true_eq] at hc
  rw [isDigit, Bool.and_eq_true, decide_eq_true_eq, decide_eq_true_eq]
  exact hc

theorem le_ofDigitChars (ds : List Char) (n : Nat) : n ≤ Nat.ofDigitChars 10 ds n := by
  induction ds generalizing n with
  | nil => exact Nat.le_refl n
  | cons d ds ih =>
    have hstep := ih (10 * n + (d.toNat - '0'.toNat))
    rw [Nat.ofDigitChars_cons]
    omega

/-- Digits are put together to the number they stand for, as long as it fits. -/
theorem appendDigits_eq {ds : List Char} {n : Nat} (h : Nat.ofDigitChars 10 ds n < UInt64.size) :
    appendDigits n ds = (Nat.ofDigitChars 10 ds n, 0) := by
  induction ds generalizing n with
  | nil => rfl
  | cons d ds ih =>
    have hvalue : n * 10 + digitValue d = 10 * n + (d.toNat - '0'.toNat) := by
      rw [Nat.mul_comm]
      rfl
    rw [Nat.ofDigitChars_cons] at h ⊢
    have hle := le_ofDigitChars ds (10 * n + (d.toNat - '0'.toNat))
    rw [appendDigits, hvalue, if_pos (Nat.lt_of_le_of_lt hle h), ih h]

/-- A number that is not zero is written without a zero in front. -/
theorem head?_digits {n : Nat} (h : 0 < n) : (digits n).head? ≠ some '0' := by
  induction n using Nat.strongRecOn with
  | ind n ih =>
    rw [digits, Nat.toDigits_eq_if (by decide)]
    split
    · rename_i hn
      have hdigit : ∀ k < 10, 0 < k → Nat.digitChar k ≠ '0' := by decide
      simpa using hdigit n hn h
    · rw [List.head?_append_of_ne_nil _ Nat.toDigits_ne_nil]
      exact ih (n / 10) (by omega) (by omega)

/-- A text that does not go on with a number. -/
def EndsNumber (tail : List Char) : Prop :=
  ∀ c, tail.head? = some c → isDigit c = false ∧ c ≠ '.' ∧ c ≠ 'e' ∧ c ≠ 'E'

theorem endsNumber_cons {c : Char} {tail : List Char}
    (h : isDigit c = false ∧ c ≠ '.' ∧ c ≠ 'e' ∧ c ≠ 'E') : EndsNumber (c :: tail) := by
  intro d hd
  rw [← Option.some.inj hd]
  exact h

theorem endsNumber_blank {gap tail : List Char} (h : Blank gap) (htail : EndsNumber tail) :
    EndsNumber (gap ++ tail) := by
  cases gap with
  | nil => exact htail
  | cons c gap =>
    have hc := h c List.mem_cons_self
    simp only [Cursor.isBlank, Bool.or_eq_true, decide_eq_true_eq] at hc
    refine endsNumber_cons ?_
    rcases hc with ((rfl | rfl) | rfl) | rfl <;> decide

theorem scanNumber_of_isDigit {d : Char} (hd : isDigit d = true) (rest : List Char) (p : Place) :
    scanNumber ⟨d :: rest, p⟩ = scanUnsigned false ⟨d :: rest, p⟩ := by
  rw [scanNumber]
  split
  · rename_i hrest
    exact absurd (List.cons.inj hrest).1 (isDigit_ne hd (by decide))
  · rfl

/-- A natural number that fits is read back. -/
theorem scanNumber_digits {n : Nat} (hn : n < UInt64.size) {tail : List Char} (htail : EndsNumber tail)
    (p : Place) : ∃ q, scanNumber ⟨digits n ++ tail, p⟩ = .whole (.ok (.nat n)) ⟨tail, q⟩ := by
  obtain ⟨q, hspan⟩ := spanFrom_append (fun c hc => isDigit_of_mem_digits hc)
    (fun c hc => (htail c hc).1) p
  have happend : appendDigits 0 (digits n) = (n, 0) := by
    have hvalue : Nat.ofDigitChars 10 (digits n) 0 = n := Nat.ofDigitChars_ten_toDigits
    rw [appendDigits_eq (by rwa [hvalue]), hvalue]
  obtain ⟨d, ds, hds⟩ := List.exists_cons_of_ne_nil (Nat.toDigits_ne_nil (n := n) (b := 10))
  have hdigits : digits n = d :: ds := hds
  have hd : isDigit d = true := isDigit_of_mem_digits (hdigits ▸ List.mem_cons_self)
  have hlead : ds = [] ∨ d ≠ '0' := by
    rcases Nat.eq_zero_or_pos n with rfl | hpos
    · have hzero : digits 0 = ['0'] := Nat.toDigits_zero 10
      exact .inl (List.cons.inj (hdigits.symm.trans hzero)).2
    · refine .inr fun hd => head?_digits hpos ?_
      rw [hdigits, hd]
      rfl
  refine ⟨q, ?_⟩
  have hsign : scanNumber ⟨digits n ++ tail, p⟩ = scanUnsigned false ⟨digits n ++ tail, p⟩ := by
    rw [hdigits]
    exact scanNumber_of_isDigit hd _ p
  rw [hsign, scanUnsigned, Cursor.span, hspan]
  simp only [happend]
  split
  · rename_i hnil
    rw [hdigits] at hnil
    cases hnil
  · rename_i e es hzero
    rw [hdigits] at hzero
    obtain ⟨rfl, rfl⟩ := List.cons.inj hzero
    rcases hlead with h | h
    · cases h
    · exact absurd rfl h
  · -- nothing of a fraction or an exponent follows
    split
    · exact absurd rfl (htail _ rfl).2.1
    · exact absurd rfl (htail _ rfl).2.2.1
    · exact absurd rfl (htail _ rfl).2.2.2
    · rfl

end AndroidAudit.Json
