import Mathlib.Data.List.Basic
import AndroidAudit.Proofs.JsonTokens

/-!
# Strings and numbers of JSON texts

`StringBody` and `Numeral` say which strings and numbers a JSON text may hold. Every such string is
passed over (`skipString_body`) and read (`readString_body`) up to its closing quote, and every such
number is read up to what follows it (`reads_scanNumber`).

What is read depends on the string or number alone: `textOf?` and `numberOf?` are what the readers give
where nothing follows. Only faults name places, so results are told up to them (`Steady`, `Reads`).
-/

namespace AndroidAudit.Json

/-! ## Strings -/

/-- A digit of an escape. -/
def HexDigit (c : Char) : Prop := (Text.hexValue? c).isSome = true

/-- What may stand between the quotes of a string. -/
inductive StringBody : List Char → Prop where
  | nil : StringBody []
  | plain {c : Char} {body : List Char} : c ≠ '"' → c ≠ '\\' → 32 ≤ c.toNat → StringBody body →
      StringBody (c :: body)
  | short {e : Char} {body : List Char} : e ∈ ['"', '\\', '/', 'b', 'f', 'n', 'r', 't'] →
      StringBody body → StringBody ('\\' :: e :: body)
  | code {a b c d : Char} {body : List Char} : HexDigit a → HexDigit b → HexDigit c → HexDigit d →
      StringBody body → StringBody ('\\' :: 'u' :: a :: b :: c :: d :: body)

/-- The text that a string stands for, by what stands between its quotes. Half a surrogate pair stands
for none. -/
def textOf? (body : List Char) : Option String :=
  (readString (body ++ ['"']) .start).toOption.map String.ofList

theorem exists_shortEscape? {e : Char} (h : e ∈ ['"', '\\', '/', 'b', 'f', 'n', 'r', 't']) :
    e ≠ 'u' ∧ ∃ c, shortEscape? e = some c := by
  simp only [List.mem_cons, List.not_mem_nil, or_false] at h
  rcases h with rfl | rfl | rfl | rfl | rfl | rfl | rfl | rfl <;> exact ⟨by decide, _, rfl⟩

theorem exists_fourDigits? {a b c d : Char} (ha : HexDigit a) (hb : HexDigit b) (hc : HexDigit c)
    (hd : HexDigit d) : ∃ n, fourDigits? a b c d = some n := by
  obtain ⟨a', ha⟩ := Option.isSome_iff_exists.mp ha
  obtain ⟨b', hb⟩ := Option.isSome_iff_exists.mp hb
  obtain ⟨c', hc⟩ := Option.isSome_iff_exists.mp hc
  obtain ⟨d', hd⟩ := Option.isSome_iff_exists.mp hd
  exact ⟨_, by rw [fourDigits?, ha, hb, hc, hd]; rfl⟩

/-- From behind its opening quote, a string is passed over up to what follows its closing quote. -/
theorem skipString_body {body : List Char} (h : StringBody body) (tail : List Char) (p : Place) :
    ∃ q, skipString (body ++ '"' :: tail) p = .ok ⟨tail, q⟩ := by
  induction h generalizing p with
  | nil => exact ⟨p.shift 1, by rw [List.nil_append, skipString.eq_def]; simp⟩
  | @plain c body hquote hback hlow _ ih =>
    obtain ⟨q, hq⟩ := ih (p.after c)
    refine ⟨q, ?_⟩
    rw [List.cons_append, skipString.eq_def]
    simpa [hquote, hback, Nat.not_lt.mpr hlow] using hq
  | short he _ ih =>
    obtain ⟨hu, c, hc⟩ := exists_shortEscape? he
    obtain ⟨q, hq⟩ := ih (p.shift 2)
    refine ⟨q, ?_⟩
    rw [List.cons_append, List.cons_append, skipString.eq_def]
    simpa [hu, hc] using hq
  | code ha hb hc hd _ ih =>
    obtain ⟨n, hn⟩ := exists_fourDigits? ha hb hc hd
    obtain ⟨q, hq⟩ := ih (p.shift 6)
    exact ⟨q, by simp only [List.cons_append]; rw [skipString.eq_def]; simpa [hn] using hq⟩

theorem toOption_consRead (c : Char) (r : Except Fault (List Char)) :
    (consRead c r).toOption = r.toOption.map (c :: ·) := by
  cases r <;> rfl

theorem secondHalf?_append {body : List Char} (h : StringBody body) (tail : List Char) :
    secondHalf? (body ++ '"' :: tail) = secondHalf? body := by
  cases h with
  | nil => rfl
  | plain _ hback _ _ => simp [secondHalf?, hback]
  | short he _ => simp [secondHalf?, (exists_shortEscape? he).1]
  | code => rfl

theorem exists_of_secondHalf? {body : List Char} {m : Nat} (h : secondHalf? body = some m) :
    ∃ a b c d rest, body = '\\' :: 'u' :: a :: b :: c :: d :: rest := by
  rw [secondHalf?.eq_def] at h
  split at h
  · exact ⟨_, _, _, _, _, rfl⟩
  · cases h

section

variable {a b c d : Char} {n : Nat}

theorem readString_code (hn : fourDigits? a b c d = some n) (hlow : isLowSurrogate n = false)
    (hhigh : isHighSurrogate n = false) (rest : List Char) (p : Place) :
    readString ('\\' :: 'u' :: a :: b :: c :: d :: rest) p =
      consRead (Char.ofNat n) (readString rest (p.shift 6)) := by
  rw [readString.eq_def]
  simp [hn, hlow, hhigh]

theorem readString_low (hn : fourDigits? a b c d = some n) (hlow : isLowSurrogate n = true)
    (rest : List Char) (p : Place) :
    (readString ('\\' :: 'u' :: a :: b :: c :: d :: rest) p).toOption = none := by
  rw [readString.eq_def]
  simp [hn, hlow, Except.toOption]

/-- The first half of a pair is read together with the second. -/
theorem readString_high (hn : fourDigits? a b c d = some n) (hlow : isLowSurrogate n = false)
    (hhigh : isHighSurrogate n = true) (rest : List Char) (p : Place) :
    (readString ('\\' :: 'u' :: a :: b :: c :: d :: rest) p).toOption =
      (secondHalf? rest).bind fun m => (readString (rest.drop 6) (p.shift 12)).toOption.map
        (Char.ofNat ((n - 0xD800) * 0x400 + (m - 0xDC00) + 0x10000) :: ·) := by
  rw [readString.eq_def]
  cases hm : secondHalf? rest with
  | none => simp [hn, hlow, hhigh, hm, Except.toOption]
  | some m =>
    obtain ⟨a', b', c', d', after, rfl⟩ := exists_of_secondHalf? hm
    simp [hn, hlow, hhigh, hm, toOption_consRead]

end

/-- What a string is read as depends neither on its place nor on what follows it. -/
def Steady (body : List Char) : Prop :=
  ∀ tail tail' p p', (readString (body ++ '"' :: tail) p).toOption =
    (readString (body ++ '"' :: tail') p').toOption

/-- A character in front, for one that is read together with the half after it the body behind both. -/
theorem StringBody.steady {body : List Char} (h : StringBody body) :
    Steady body ∧ ∀ a b c d rest, body = '\\' :: 'u' :: a :: b :: c :: d :: rest → Steady rest := by
  induction h with
  | nil =>
    refine ⟨fun tail tail' p p' => ?_, by simp⟩
    rw [List.nil_append, List.nil_append, readString.eq_def, readString.eq_def]
    simp
  | @plain c body hquote hback hlow _ ih =>
    refine ⟨fun tail tail' p p' => ?_, by simp [hback]⟩
    have hstep (tail : List Char) (p : Place) : (readString (c :: body ++ '"' :: tail) p) =
        consRead c (readString (body ++ '"' :: tail) (p.after c)) := by
      rw [List.cons_append, readString.eq_def]
      simp [hquote, hback, Nat.not_lt.mpr hlow]
    rw [hstep, hstep, toOption_consRead, toOption_consRead, ih.1]
  | @short e body he _ ih =>
    obtain ⟨hu, c, hc⟩ := exists_shortEscape? he
    refine ⟨fun tail tail' p p' => ?_, by simp [hu]⟩
    have hstep (tail : List Char) (p : Place) : (readString ('\\' :: e :: body ++ '"' :: tail) p) =
        consRead c (readString (body ++ '"' :: tail) (p.shift 2)) := by
      rw [List.cons_append, List.cons_append, readString.eq_def]
      simp [hu, hc]
    rw [hstep, hstep, toOption_consRead, toOption_consRead, ih.1]
  | @code a b c d body ha hb hc hd hbody ih =>
    obtain ⟨n, hn⟩ := exists_fourDigits? ha hb hc hd
    refine ⟨fun tail tail' p p' => ?_, fun _ _ _ _ rest hrest => ?_⟩
    · simp only [List.cons_append]
      cases hlow : isLowSurrogate n with
      | true => rw [readString_low hn hlow, readString_low hn hlow]
      | false =>
        cases hhigh : isHighSurrogate n with
        | false =>
          rw [readString_code hn hlow hhigh, readString_code hn hlow hhigh, toOption_consRead,
            toOption_consRead, ih.1]
        | true =>
          rw [readString_high hn hlow hhigh, readString_high hn hlow hhigh, secondHalf?_append hbody,
            secondHalf?_append hbody]
          cases hm : secondHalf? body with
          | none => rfl
          | some m =>
            obtain ⟨a', b', c', d', after, rfl⟩ := exists_of_secondHalf? hm
            have hafter := ih.2 _ _ _ _ _ rfl tail tail' (p.shift 12) (p'.shift 12)
            exact congrArg (Option.map _) hafter
    · simp only [List.cons.injEq] at hrest
      exact hrest.2.2.2.2.2.2 ▸ ih.1

/-- From behind its opening quote, a string is read as the text it stands for. -/
theorem readString_body {body : List Char} (h : StringBody body) (tail : List Char) (p : Place) :
    (readString (body ++ '"' :: tail) p).toOption.map String.ofList = textOf? body :=
  congrArg (Option.map String.ofList) (h.steady.1 tail [] p .start)

/-! ## Numbers -/

/-- One digit or more. -/
def Digits (ds : List Char) : Prop := ds ≠ [] ∧ ∀ c ∈ ds, isDigit c = true

/-- The digits of a numeral before its point. Only zero starts with a zero. -/
structure Whole (ds : List Char) : Prop where
  digits : Digits ds
  lead : ds.head? = some '0' → ds = ['0']

/-- The fraction of a numeral. -/
inductive Fraction : List Char → Prop where
  | absent : Fraction []
  | point {ds : List Char} : Digits ds → Fraction ('.' :: ds)

/-- The power of ten of a numeral. -/
inductive Power : List Char → Prop where
  | absent : Power []
  | letter {e : Char} {sign ds : List Char} : e ∈ ['e', 'E'] → sign ∈ [[], ['+'], ['-']] → Digits ds →
      Power (e :: (sign ++ ds))

/-- How a number may be written. -/
inductive Numeral : List Char → Prop where
  | mk {sign whole fraction power : List Char} : sign ∈ [[], ['-']] → Whole whole →
      Fraction fraction → Power power → Numeral (sign ++ (whole ++ (fraction ++ power)))

/-- The number that a numeral stands for. There is none if it is out of range. -/
def numberOf? (numeral : List Char) : Option Number :=
  match scanNumber ⟨numeral, .start⟩ with
  | .whole value _ => value.toOption
  | .broken _ _ => none

/-- A scan that takes a part of a numeral to a number, whatever its place and what follows it. -/
def Reads (scan : Cursor → NumberScan) (part : List Char) (value : Option Number) : Prop :=
  ∀ tail p, EndsNumber tail → ∃ v q, scan ⟨part ++ tail, p⟩ = .whole v ⟨tail, q⟩ ∧ v.toOption = value

/-- Where the exponent has too many digits depends on its place, but not whether it has. -/
theorem exponentValue_steady (n : Nat) (ds : List Char) :
    (∃ e, ∀ p, exponentValue n p ds = .ok e) ∨ ∀ p, ∃ q, exponentValue n p ds = .error q := by
  induction ds generalizing n with
  | nil => exact .inl ⟨n, fun _ => rfl⟩
  | cons d ds ih =>
    by_cases h : n * 10 + digitValue d ≤ 2147483647
    · have hstep (p : Place) : exponentValue n p (d :: ds) =
          exponentValue (n * 10 + digitValue d) (p.after d) ds := by rw [exponentValue, if_pos h]
      rcases ih (n * 10 + digitValue d) with ⟨e, he⟩ | herr
      · exact .inl ⟨e, fun p => (hstep p).trans (he _)⟩
      · exact .inr fun p => (herr (p.after d)).imp fun _ hq => (hstep p).trans hq
    · exact .inr fun p => ⟨p.after d, by rw [exponentValue, if_neg h]⟩

/-- The exponent that its digits and its sign make. -/
def signedExponent (below : Bool) (shift : Int) : Except Place Nat → Exponent
  | .ok e => .exact (if below then shift - e else shift + e)
  | .error p => if below then .tiny else .huge p

section

variable (negative : Bool) (significand : Nat)

theorem toOption_makeFloat (e : Int) (stop stop' : Cursor) :
    (makeFloat negative significand (.exact e) stop).toOption =
      (makeFloat negative significand (.exact e) stop').toOption := by
  rw [makeFloat, makeFloat]
  cases scaleFloat? significand.toUInt64.toFloat e <;> rfl

theorem toOption_makeFloat_huge (p p' : Place) (stop stop' : Cursor) :
    (makeFloat negative significand (.huge p) stop).toOption =
      (makeFloat negative significand (.huge p') stop').toOption := by
  rw [makeFloat, makeFloat]
  by_cases h : significand = 0
  · rw [if_pos h, if_pos h]
  · rw [if_neg h, if_neg h]
    rfl

theorem exists_signedExponent (below : Bool) (shift : Int) (ds : List Char) : ∃ value, ∀ p stop,
    (makeFloat negative significand (signedExponent below shift (exponentValue 0 p ds)) stop).toOption =
      value := by
  rcases exponentValue_steady 0 ds with ⟨e, he⟩ | herr
  · refine ⟨(makeFloat negative significand (signedExponent below shift (.ok e)) ⟨[], .start⟩).toOption,
      fun p stop => ?_⟩
    rw [he]
    exact toOption_makeFloat negative significand _ stop _
  · refine ⟨(makeFloat negative significand (signedExponent below shift (.error .start))
      ⟨[], .start⟩).toOption, fun p stop => ?_⟩
    obtain ⟨q, hq⟩ := herr p
    rw [hq]
    cases below with
    | true => rfl
    | false => exact toOption_makeFloat_huge negative significand _ _ _ _

theorem scanExponent_digits (shift : Int) {sign ds : List Char} (hsign : sign ∈ [[], ['+'], ['-']])
    (hds : Digits ds) : ∃ below, ∀ tail p, EndsNumber tail → ∃ p' q,
      scanExponent negative significand shift ⟨sign ++ ds ++ tail, p⟩ =
        .whole (makeFloat negative significand (signedExponent below shift (exponentValue 0 p' ds))
          ⟨tail, q⟩) ⟨tail, q⟩ := by
  obtain ⟨hne, hall⟩ := hds
  have hspan {tail : List Char} (htail : EndsNumber tail) (p : Place) :
      ∃ q, Cursor.span isDigit ⟨ds ++ tail, p⟩ = (ds, ⟨tail, q⟩) :=
    spanFrom_append hall (fun c hc => (htail c hc).1) p
  have hempty : ds.isEmpty = false := by simpa using hne
  simp only [List.mem_cons, List.not_mem_nil, or_false] at hsign
  rcases hsign with rfl | rfl | rfl
  · refine ⟨false, fun tail p htail => ?_⟩
    obtain ⟨q, hq⟩ := hspan htail p
    refine ⟨p, q, ?_⟩
    obtain ⟨d, ds', rfl⟩ := List.exists_cons_of_ne_nil hne
    have hd := hall d List.mem_cons_self
    rw [List.nil_append, scanExponent]
    split
    rename_i below c hsign
    split at hsign
    · rename_i heq
      exact absurd (List.cons.inj heq).1 (isDigit_ne hd (by decide))
    · rename_i heq
      exact absurd (List.cons.inj heq).1 (isDigit_ne hd (by decide))
    · obtain ⟨rfl, rfl⟩ := Prod.mk.inj hsign
      simp only [hq, hempty]
      cases exponentValue 0 p (d :: ds') <;> rfl
  · refine ⟨false, fun tail p htail => ?_⟩
    obtain ⟨q, hq⟩ := hspan htail (p.after '+')
    refine ⟨p.after '+', q, ?_⟩
    simp only [scanExponent, List.cons_append, List.nil_append, Cursor.next, hq, hempty]
    cases exponentValue 0 (p.after '+') ds <;> rfl
  · refine ⟨true, fun tail p htail => ?_⟩
    obtain ⟨q, hq⟩ := hspan htail (p.after '-')
    refine ⟨p.after '-', q, ?_⟩
    simp only [scanExponent, List.cons_append, List.nil_append, Cursor.next, hq, hempty]
    cases exponentValue 0 (p.after '-') ds <;> rfl

theorem reads_scanExponent (shift : Int) {sign ds : List Char} (hsign : sign ∈ [[], ['+'], ['-']])
    (hds : Digits ds) : ∃ value, Reads (scanExponent negative significand shift) (sign ++ ds) value := by
  obtain ⟨below, hscan⟩ := scanExponent_digits negative significand shift hsign hds
  obtain ⟨value, hvalue⟩ := exists_signedExponent negative significand below shift ds
  refine ⟨value, fun tail p htail => ?_⟩
  obtain ⟨p', q, h⟩ := hscan tail p htail
  exact ⟨_, q, h, hvalue p' _⟩

theorem reads_scanTail (shift : Int) {power : List Char} (h : Power power) :
    ∃ value, Reads (scanTail negative significand shift) power value := by
  cases h with
  | absent =>
    refine ⟨(makeFloat negative significand (.exact shift) ⟨[], .start⟩).toOption,
      fun tail p htail => ⟨_, p, ?_, toOption_makeFloat negative significand shift ⟨tail, p⟩ _⟩⟩
    rw [List.nil_append, scanTail]
    split
    · rename_i heq
      exact absurd rfl (htail _ (congrArg List.head? heq)).2.2.1
    · rename_i heq
      exact absurd rfl (htail _ (congrArg List.head? heq)).2.2.2
    · rfl
  | @letter e sign ds he hsign hds =>
    obtain ⟨value, hvalue⟩ := reads_scanExponent negative significand shift hsign hds
    simp only [List.mem_cons, List.not_mem_nil, or_false] at he
    refine ⟨value, fun tail p htail => ?_⟩
    obtain ⟨v, q, hscan, hv⟩ := hvalue tail (p.after e) htail
    refine ⟨v, q, ?_, hv⟩
    rcases he with rfl | rfl <;> exact hscan

theorem head?_power {power tail : List Char} (h : Power power) (htail : EndsNumber tail) {c : Char}
    (hc : (power ++ tail).head? = some c) : isDigit c = false ∧ c ≠ '.' := by
  cases h with
  | absent => exact ⟨(htail c hc).1, (htail c hc).2.1⟩
  | letter he =>
    rw [← Option.some.inj hc]
    simp only [List.mem_cons, List.not_mem_nil, or_false] at he
    rcases he with rfl | rfl <;> decide

theorem head?_fraction {fraction power tail : List Char} (h : Fraction fraction) (hpower : Power power)
    (htail : EndsNumber tail) {c : Char} (hc : (fraction ++ (power ++ tail)).head? = some c) :
    isDigit c = false := by
  cases h with
  | absent => exact (head?_power hpower htail hc).1
  | point _ =>
    rw [← Option.some.inj hc]
    decide

end

section

variable {whole : List Char} (hwhole : Whole whole)

include hwhole

theorem Whole.ne_cons (c : Char) (cs : List Char) : whole ≠ '0' :: c :: cs := by
  rintro rfl
  cases hwhole.lead rfl

theorem Whole.span {rest : List Char} (hrest : ∀ c, rest.head? = some c → isDigit c = false)
    (p : Place) : ∃ q, Cursor.span isDigit ⟨whole ++ rest, p⟩ = (whole, ⟨rest, q⟩) :=
  spanFrom_append hwhole.digits.2 hrest p

theorem reads_fraction (negative : Bool) {ds power : List Char} (hds : Digits ds)
    (hpower : Power power) :
    ∃ value, Reads (scanUnsigned negative) (whole ++ ('.' :: ds ++ power)) value := by
  have hnil := hwhole.digits.1
  have hlead := hwhole.ne_cons
  obtain ⟨n, extra, happend⟩ : ∃ n k, appendDigits 0 whole = (n, k) := ⟨_, _, rfl⟩
  obtain ⟨m, dropped, happend'⟩ : ∃ m k, appendDigits n ds = (m, k) := ⟨_, _, rfl⟩
  obtain ⟨value, hvalue⟩ :=
    reads_scanTail negative m ((extra : Int) - (ds.length - dropped : Nat)) hpower
  refine ⟨value, fun tail p htail => ?_⟩
  obtain ⟨q, hq⟩ := hwhole.span (fun c hc => head?_fraction (.point hds) hpower htail hc) p
  obtain ⟨q₁, hq₁⟩ : ∃ q₁, Cursor.span isDigit ⟨ds ++ (power ++ tail), q.after '.'⟩ =
      (ds, ⟨power ++ tail, q₁⟩) :=
    spanFrom_append hds.2 (fun c hc => (head?_power hpower htail hc).1) _
  obtain ⟨v, q₂, hscan, hv⟩ := hvalue tail q₁ htail
  have hempty : ds.isEmpty = false := by simpa using hds.1
  refine ⟨v, q₂, ?_, hv⟩
  rw [List.append_assoc, List.append_assoc, scanUnsigned, hq]
  simp only [happend, List.cons_append, Cursor.next, hq₁, hempty, happend']
  exact hscan

theorem reads_power (negative : Bool) {e : Char} {sign ds : List Char} (he : e ∈ ['e', 'E'])
    (hsign : sign ∈ [[], ['+'], ['-']]) (hds : Digits ds) :
    ∃ value, Reads (scanUnsigned negative) (whole ++ e :: (sign ++ ds)) value := by
  have hnil := hwhole.digits.1
  have hlead := hwhole.ne_cons
  obtain ⟨n, extra, happend⟩ : ∃ n k, appendDigits 0 whole = (n, k) := ⟨_, _, rfl⟩
  obtain ⟨value, hvalue⟩ := reads_scanExponent negative n extra hsign hds
  refine ⟨value, fun tail p htail => ?_⟩
  obtain ⟨q, hq⟩ := hwhole.span (fun c hc => head?_fraction .absent (.letter he hsign hds) htail hc) p
  obtain ⟨v, q₁, hscan, hv⟩ := hvalue tail (q.after e) htail
  refine ⟨v, q₁, ?_, hv⟩
  rw [List.nil_append] at hq
  rw [List.append_assoc, scanUnsigned, hq]
  simp only [List.mem_cons, List.not_mem_nil, or_false] at he
  rcases he with rfl | rfl <;> simp only [happend, List.cons_append, Cursor.next] <;> exact hscan

/-- A numeral with neither a fraction nor a power of ten, by whether it fits and by its sign. -/
theorem reads_integer (negative : Bool) : ∃ value, Reads (scanUnsigned negative) whole value := by
  have hnil := hwhole.digits.1
  have hlead := hwhole.ne_cons
  obtain ⟨n, extra, happend⟩ : ∃ n k, appendDigits 0 whole = (n, k) := ⟨_, _, rfl⟩
  have hscan (tail : List Char) (p : Place) (htail : EndsNumber tail) : ∃ q,
      scanUnsigned negative ⟨whole ++ tail, p⟩ =
        if extra ≠ 0 then scanTail negative n extra ⟨tail, q⟩
        else if !negative then .whole (.ok (.nat n)) ⟨tail, q⟩
        else if 0 < n ∧ n ≤ Nat.pow 2 63 then .whole (.ok (.neg n)) ⟨tail, q⟩
        else .whole (.ok (.float (-n.toUInt64.toFloat))) ⟨tail, q⟩ := by
    obtain ⟨q, hq⟩ := hwhole.span (fun c hc => (htail c hc).1) p
    refine ⟨q, ?_⟩
    rw [scanUnsigned, hq]
    simp only [happend]
    split
    · exact absurd rfl (htail _ rfl).2.1
    · exact absurd rfl (htail _ rfl).2.2.1
    · exact absurd rfl (htail _ rfl).2.2.2
    · rfl
  by_cases hextra : extra ≠ 0
  · obtain ⟨value, hvalue⟩ := reads_scanTail negative n extra .absent
    refine ⟨value, fun tail p htail => ?_⟩
    obtain ⟨q, hq⟩ := hscan tail p htail
    rw [hq, if_pos hextra]
    exact hvalue tail q htail
  -- the numeral is one number, however it is placed
  suffices hone : ∃ v : Number, ∀ tail p, EndsNumber tail →
      ∃ q, scanUnsigned negative ⟨whole ++ tail, p⟩ = .whole (.ok v) ⟨tail, q⟩ by
    obtain ⟨v, hv⟩ := hone
    refine ⟨some v, fun tail p htail => ?_⟩
    obtain ⟨q, hq⟩ := hv tail p htail
    exact ⟨_, q, hq, rfl⟩
  simp only [if_neg hextra] at hscan
  cases negative with
  | false => exact ⟨.nat n, hscan⟩
  | true =>
    by_cases hrange : 0 < n ∧ n ≤ Nat.pow 2 63
    · simp only [if_pos hrange] at hscan
      exact ⟨.neg n, hscan⟩
    · simp only [if_neg hrange] at hscan
      exact ⟨_, hscan⟩

end

theorem reads_scanUnsigned (negative : Bool) {whole fraction power : List Char} (hwhole : Whole whole)
    (hfraction : Fraction fraction) (hpower : Power power) :
    ∃ value, Reads (scanUnsigned negative) (whole ++ (fraction ++ power)) value := by
  cases hfraction with
  | point hds => exact reads_fraction hwhole negative hds hpower
  | absent =>
    cases hpower with
    | letter he hsign hds => exact reads_power hwhole negative he hsign hds
    | absent =>
      rw [List.append_nil, List.append_nil]
      exact reads_integer hwhole negative

theorem reads_scanNumber {numeral : List Char} (h : Numeral numeral) :
    Reads scanNumber numeral (numberOf? numeral) := by
  obtain ⟨value, hvalue⟩ : ∃ value, Reads scanNumber numeral value := by
    cases h with
    | @mk sign whole fraction power hsign hwhole hfraction hpower =>
      simp only [List.mem_cons, List.not_mem_nil, or_false] at hsign
      rcases hsign with rfl | rfl
      · obtain ⟨value, hvalue⟩ := reads_scanUnsigned false hwhole hfraction hpower
        refine ⟨value, fun tail p htail => ?_⟩
        obtain ⟨d, ds, rfl⟩ := List.exists_cons_of_ne_nil hwhole.digits.1
        have hd := hwhole.digits.2 d List.mem_cons_self
        obtain ⟨v, q, hscan, hv⟩ := hvalue tail p htail
        exact ⟨v, q, (scanNumber_of_isDigit hd _ p).trans hscan, hv⟩
      · obtain ⟨value, hvalue⟩ := reads_scanUnsigned true hwhole hfraction hpower
        exact ⟨value, fun tail p htail => hvalue tail (p.after '-') htail⟩
  have hend : EndsNumber [] := fun _ h => nomatch h
  obtain ⟨v, q, hscan, hv⟩ := hvalue [] .start hend
  rw [List.append_nil] at hscan
  have hnumber : numberOf? numeral = value := by
    rw [numberOf?, hscan]
    exact hv
  rwa [hnumber]

end AndroidAudit.Json
