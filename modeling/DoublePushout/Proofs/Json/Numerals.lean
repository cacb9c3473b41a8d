import DoublePushout.Json.Number

/-!
# `DoublePushout.Proofs.Json.Numerals`: numbers that are written and read back

A handle is written by its decimal digits. `readNumeral_decimal` says that reading stops behind
them, as far as what follows cannot continue a number (`EndsNumber`), and `classify_decimal` that
a number below 2 ^ 64 is kept exactly. The latter has to rule out that the number counts as
unbounded, which is decided on rounded values: rounding adds at most 2 ^ 11 to such a number.
-/

set_option autoImplicit false

namespace DoublePushout.Json

/-! ### Decimal digits -/

/-- The character of a digit has the value of the digit. -/
theorem digitValue_digitChar {d : Nat} (h : d < 10) : digitValue (digitChar d) = d := by
  have hall : ∀ d < 10, digitValue (digitChar d) = d := by decide
  exact hall d h

/-- The character of a digit is one. -/
theorem isDigit_digitChar {d : Nat} (h : d < 10) : (digitChar d).isDigit = true := by
  have hall : ∀ d < 10, (digitChar d).isDigit = true := by decide
  exact hall d h

/-- Only the digit zero is written as a zero. -/
theorem digitChar_ne_zero {d : Nat} (h : d < 10) (hd : d ≠ 0) : digitChar d ≠ '0' := by
  have hall : ∀ d < 10, d ≠ 0 → digitChar d ≠ '0' := by decide
  exact hall d h hd

/-- What is written is digits, with no zero in front of others. -/
theorem decimal_digits (n : Nat) : (∀ c ∈ decimal n, c.isDigit = true) ∧
    ∃ c cs, decimal n = c :: cs ∧ (c = '0' → cs = []) ∧ (n ≠ 0 → c ≠ '0') := by
  fun_induction decimal n with
  | case1 n h =>
    exact ⟨by simpa using isDigit_digitChar h, _, _, rfl, fun _ => rfl, digitChar_ne_zero h⟩
  | case2 n h ih =>
    obtain ⟨hdigits, c, cs, heq, -, hne⟩ := ih
    have hc : c ≠ '0' := hne (by omega)
    refine ⟨fun d hd => ?_, c, cs ++ [digitChar (n % 10)], by rw [heq]; rfl,
      fun hzero => absurd hzero hc, fun _ => hc⟩
    rcases List.mem_append.1 hd with hd | hd
    · exact hdigits d hd
    · rw [List.mem_singleton.1 hd]
      exact isDigit_digitChar (Nat.mod_lt n (by decide))

/-- The digits write the number. -/
theorem ofDigits_decimal (n : Nat) : ofDigits (decimal n) = n := by
  fun_induction decimal n with
  | case1 n h =>
    show 10 * 0 + digitValue (digitChar n) = n
    rw [digitValue_digitChar h]
    omega
  | case2 n h ih =>
    rw [ofDigits] at ih
    rw [ofDigits, List.foldl_append, ih]
    show 10 * (n / 10) + digitValue (digitChar (n % 10)) = n
    rw [digitValue_digitChar (Nat.mod_lt n (by decide))]
    omega

/-! ### Reading a numeral -/

/-- The text does not continue a number. -/
def EndsNumber (cs : List Char) : Prop :=
  ∀ c, cs.head? = some c → c.isDigit = false ∧ c ≠ '.' ∧ c ≠ 'e' ∧ c ≠ 'E'

/-- A number ends before any character that cannot go on with it. -/
theorem endsNumber_cons {c : Char} {cs : List Char}
    (h : c.isDigit = false ∧ c ≠ '.' ∧ c ≠ 'e' ∧ c ≠ 'E') : EndsNumber (c :: cs) := by
  intro d hd
  obtain rfl := Option.some.inj hd
  exact h

/-- A number ends where the text ends. -/
theorem endsNumber_nil : EndsNumber [] := by
  intro c hc
  cases hc

variable {cs : List Char}

/-- Digits are read up to where the number ends. -/
theorem EndsNumber.spanDigits_append (h : EndsNumber cs) {ds : List Char}
    (hds : ∀ c ∈ ds, c.isDigit = true) : spanDigits (ds ++ cs) = (ds, cs) := by
  have hstop : cs.takeWhile Char.isDigit = [] ∧ cs.dropWhile Char.isDigit = cs := by
    cases cs with
    | nil => exact ⟨rfl, rfl⟩
    | cons c cs =>
      have hc := (h c rfl).1
      simp [hc]
  rw [spanDigits, List.takeWhile_append_of_pos hds, List.dropWhile_append_of_pos hds, hstop.1,
    hstop.2, List.append_nil]

/-- Where a number ends there is no fraction. -/
theorem EndsNumber.readFraction_eq (h : EndsNumber cs) : readFraction cs = some ([], cs) := by
  unfold readFraction
  split
  · exact absurd rfl (h '.' rfl).2.1
  · rfl

/-- Where a number ends there is no exponent. -/
theorem EndsNumber.readExponent_eq (h : EndsNumber cs) : readExponent cs = some (none, cs) := by
  unfold readExponent
  split
  · exact absurd rfl (h 'e' rfl).2.2.1
  · exact absurd rfl (h 'E' rfl).2.2.2
  · rfl

/-- A written number is read up to its end. -/
theorem readNumeral_decimal (h : EndsNumber cs) (n : Nat) :
    readNumeral (decimal n ++ cs) = some (⟨false, decimal n, [], none⟩, cs) := by
  obtain ⟨hdigits, c, ds, heq, hzero, -⟩ := decimal_digits n
  have hspan := h.spanDigits_append hdigits
  have hwhole : readWhole (decimal n ++ cs) = some (decimal n, cs) := by
    rw [readWhole, hspan, heq]
    split
    · next hnil => cases hnil
    · next htwo =>
      cases htwo
      cases hzero rfl
    · next hthree =>
      cases hthree
      rfl
  -- A digit is no minus sign, so the numeral is read as one without a sign.
  have hsign : c ≠ '-' := by
    rintro rfl
    have hdash := hdigits '-' (by rw [heq]; simp)
    exact absurd hdash (by decide)
  rw [readNumeral]
  · rw [hwhole]
    show (readFraction cs).bind _ = _
    rw [h.readFraction_eq]
    show (readExponent cs).bind _ = _
    rw [h.readExponent_eq]
    rfl
  · intro r hr
    rw [heq] at hr
    exact hsign (List.cons.inj hr).1

/-! ### Keeping a number exactly -/

/-- Reading further digits never makes a number smaller. -/
theorem le_foldl_digits (ds : List Char) :
    ∀ v, v ≤ ds.foldl (fun v c => 10 * v + digitValue c) v := by
  induction ds with
  | nil => exact fun v => Nat.le_refl v
  | cons d ds ih => exact fun v => Nat.le_trans (by omega) (ih (10 * v + digitValue d))

/-- Digits that stay below 2 ^ 64 are all taken in. -/
theorem absorb_eq (ds : List Char) : ∀ v,
    ds.foldl (fun v c => 10 * v + digitValue c) v < Nat.pow 2 64 →
    absorb v ds = (ds.foldl (fun v c => 10 * v + digitValue c) v, []) := by
  induction ds with
  | nil => exact fun v _ => rfl
  | cons d ds ih =>
    intro v hlt
    have hstep : 10 * v + digitValue d < Nat.pow 2 64 :=
      Nat.lt_of_le_of_lt (le_foldl_digits ds _) hlt
    rw [absorb, if_pos hstep]
    exact ih _ hlt

/-- Rounding to 53 bits adds no more than the unit in the last place. -/
theorem roundTo53_le (n : Nat) : roundTo53 n ≤ n + Nat.pow 2 (n.log2 + 1 - 53) := by
  have hlow : n / Nat.pow 2 (n.log2 + 1 - 53) * Nat.pow 2 (n.log2 + 1 - 53) ≤ n :=
    Nat.div_mul_le_self _ _
  rw [roundTo53]
  split
  · rw [Nat.add_mul]
    omega
  · omega

/-- No 64-bit number is rounded up to infinity. -/
theorem roundTo53_lt {n : Nat} (h : n < Nat.pow 2 64) : roundTo53 n < infinityBound := by
  have hlog : n.log2 < 64 := by
    rcases Nat.eq_zero_or_pos n with rfl | hpos
    · decide
    · exact (Nat.log2_lt (Nat.ne_of_gt hpos)).2 h
  have hunit : Nat.pow 2 (n.log2 + 1 - 53) ≤ Nat.pow 2 11 :=
    Nat.pow_le_pow_right (by decide) (by omega)
  have hbound : Nat.pow 2 64 + Nat.pow 2 11 ≤ infinityBound := by decide +kernel
  have hle := roundTo53_le n
  omega

/-- A written number below 2 ^ 64 is kept exactly. -/
theorem classify_decimal {n : Nat} (h : n < Nat.pow 2 64) :
    Numeral.classify ⟨false, decimal n, [], none⟩ = .natural n := by
  have hvalue := ofDigits_decimal n
  have habsorb : absorb 0 (decimal n) = (n, []) := by
    rw [absorb_eq (decimal n) 0 (by rw [← ofDigits, hvalue]; exact h), ← ofDigits, hvalue]
  have hbounded : Numeral.isUnbounded ⟨false, decimal n, [], none⟩ = false := by
    have hlt := roundTo53_lt h
    have hone : roundTo53 (Nat.pow 10 (Int.toNat 0)) = 1 := by decide
    have hle : ¬ infinityBound ≤ roundTo53 n * roundTo53 (Nat.pow 10 (Int.toNat 0)) := by
      rw [hone]
      omega
    rw [Numeral.isUnbounded]
    simp only [habsorb, absorb]
    -- There are no digits left over and no exponent, so the scale is zero.
    show (decide (n ≠ 0) && true && (false || decide (infinityBound ≤ roundTo53 n *
      roundTo53 (Nat.pow 10 (Int.toNat 0))))) = false
    rw [decide_eq_false hle]
    simp
  rw [Numeral.classify, hbounded]
  simp [hvalue, h]

end DoublePushout.Json
