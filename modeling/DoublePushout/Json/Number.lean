/-!
# `DoublePushout.Json.Number`: numbers in JSON text

A number is read for what it can be used as. An integer that fits 64 bits without a sign, or 64
bits with one, is kept exactly; any other number is only known to be `floating`, because nothing
here reads a fraction. A number whose magnitude exceeds every binary64 value is `unbounded`, and a
reader that needs its value refuses the text.

Whether a number is unbounded is decided on the decimal that binary64 arithmetic sees: the leading
digits that fit 64 bits, rounded to 53 bits, times the rounded power of ten. The test is exact, in
natural numbers.
-/

set_option autoImplicit false

namespace DoublePushout.Json

/-- What a number in JSON text can be used as. -/
inductive Number where
  /-- An integer from 0 up to 2 ^ 64, the limit excluded. -/
  | natural (n : Nat)
  /-- The integer `-n`, for `n` from 1 to 2 ^ 63. -/
  | negative (n : Nat)
  /-- Any other number in the range of binary64. -/
  | floating
  /-- A number beyond the range of binary64. -/
  | unbounded
  deriving DecidableEq, Repr

/-! ### Decimal digits -/

/-- The value of a decimal digit. -/
def digitValue (c : Char) : Nat := c.toNat - '0'.toNat

/-- The digit of a value below ten. -/
def digitChar (d : Nat) : Char := Char.ofNat ('0'.toNat + d)

/-- The number that a row of decimal digits writes. -/
def ofDigits (ds : List Char) : Nat := ds.foldl (fun v c => 10 * v + digitValue c) 0

/-- The decimal digits of a number, without leading zeros. -/
def decimal (n : Nat) : List Char :=
  if n < 10 then [digitChar n] else decimal (n / 10) ++ [digitChar (n % 10)]

/-! ### Numerals -/

/-- The parts of a number as written. -/
structure Numeral where
  /-- Whether a minus sign comes first. -/
  negative : Bool
  /-- The digits before the point. -/
  whole : List Char
  /-- The digits after the point; none if there is no point. -/
  fraction : List Char
  /-- The exponent, if one is written. -/
  exponent : Option Int
  deriving DecidableEq, Repr

/-- Splits off the digits at the front. -/
def spanDigits (cs : List Char) : List Char × List Char :=
  (cs.takeWhile Char.isDigit, cs.dropWhile Char.isDigit)

/-- Reads the digits before the point: at least one, and a zero only alone. -/
def readWhole (cs : List Char) : Option (List Char × List Char) :=
  match spanDigits cs with
  | ([], _) => none
  | ('0' :: _ :: _, _) => none
  | (ds, rest) => some (ds, rest)

/-- Reads a point and at least one digit after it, if a point comes next. -/
def readFraction : List Char → Option (List Char × List Char)
  | '.' :: cs =>
    match spanDigits cs with
    | ([], _) => none
    | (ds, rest) => some (ds, rest)
  | cs => some ([], cs)

/-- Reads an optional sign and at least one digit. -/
def readSigned (cs : List Char) : Option (Int × List Char) :=
  let (negative, cs) := match cs with
    | '+' :: r => (false, r)
    | '-' :: r => (true, r)
    | r => (false, r)
  match spanDigits cs with
  | ([], _) => none
  | (ds, rest) => some (if negative then -(ofDigits ds : Int) else ofDigits ds, rest)

/-- Reads an exponent, if one comes next. -/
def readExponent : List Char → Option (Option Int × List Char)
  | 'e' :: cs => (readSigned cs).map fun (e, rest) => (some e, rest)
  | 'E' :: cs => (readSigned cs).map fun (e, rest) => (some e, rest)
  | cs => some (none, cs)

/-- Reads a number from the front of a text, as far as it goes. -/
def readNumeral (cs : List Char) : Option (Numeral × List Char) := do
  let (negative, cs) := match cs with
    | '-' :: r => (true, r)
    | r => (false, r)
  let (whole, cs) ← readWhole cs
  let (fraction, cs) ← readFraction cs
  let (exponent, cs) ← readExponent cs
  return (⟨negative, whole, fraction, exponent⟩, cs)

/-! ### What a numeral leaves

Each reader returns the text after what it read, and that text is no longer than the one it was
given. -/

/-- What is left behind the digits is no longer than the text. -/
theorem spanDigits_length (cs : List Char) : (spanDigits cs).2.length ≤ cs.length :=
  (List.dropWhile_suffix _).length_le

/-- A whole number takes at least one character. -/
theorem readWhole_length {cs ds rest : List Char} (h : readWhole cs = some (ds, rest)) :
    rest.length < cs.length := by
  have hsplit : cs.takeWhile Char.isDigit ++ cs.dropWhile Char.isDigit = cs :=
    List.takeWhile_append_dropWhile
  unfold readWhole spanDigits at h
  split at h
  · cases h
  · cases h
  · next ds' rest' hne _ heq =>
    cases h
    have hds := congrArg Prod.fst heq
    have hrest := congrArg Prod.snd heq
    dsimp only at hds hrest
    rw [← hsplit, hds, hrest, List.length_append]
    -- The case without digits was refused above.
    cases ds with
    | nil => exact (hne rfl).elim
    | cons => simp

/-- A fraction leaves no more than there was. -/
theorem readFraction_length {cs ds rest : List Char} (h : readFraction cs = some (ds, rest)) :
    rest.length ≤ cs.length := by
  unfold readFraction at h
  split at h
  · next r =>
    have := spanDigits_length r
    split at h
    · cases h
    · next heq =>
      cases h
      rw [heq] at this
      exact Nat.le_succ_of_le this
  · cases h; exact Nat.le_refl _

/-- A signed exponent leaves no more than there was. -/
theorem readSigned_length {cs rest : List Char} {e : Int} (h : readSigned cs = some (e, rest)) :
    rest.length ≤ cs.length := by
  unfold readSigned at h
  split at h
  next cs' heq =>
    have hle : cs'.length ≤ cs.length := by
      split at heq <;> cases heq <;> simp
    have := spanDigits_length cs'
    split at h
    · cases h
    · next hspan =>
      cases h
      rw [hspan] at this
      exact Nat.le_trans this hle

/-- An exponent, if there is one, leaves no more than there was. -/
theorem readExponent_length {cs rest : List Char} {e : Option Int}
    (h : readExponent cs = some (e, rest)) : rest.length ≤ cs.length := by
  unfold readExponent at h
  split at h
  · simp only [Option.map_eq_some_iff, Prod.exists, Prod.mk.injEq] at h
    obtain ⟨_, _, hr, _, rfl⟩ := h
    have := readSigned_length hr
    simp only [List.length_cons]
    omega
  · simp only [Option.map_eq_some_iff, Prod.exists, Prod.mk.injEq] at h
    obtain ⟨_, _, hr, _, rfl⟩ := h
    have := readSigned_length hr
    simp only [List.length_cons]
    omega
  · cases h; exact Nat.le_refl _

/-- A numeral takes at least one character. -/
theorem readNumeral_length {cs rest : List Char} {x : Numeral}
    (h : readNumeral cs = some (x, rest)) : rest.length < cs.length := by
  unfold readNumeral at h
  split at h
  next cs' heq =>
    have hle : cs'.length ≤ cs.length := by
      split at heq <;> cases heq <;> simp
    simp only [Option.bind_eq_bind, Option.bind_eq_some_iff, Prod.exists, Option.pure_def,
      Option.some.injEq, Prod.mk.injEq] at h
    obtain ⟨_, _, hw, _, _, hf, _, _, he, _, rfl⟩ := h
    have := readWhole_length hw
    have := readFraction_length hf
    have := readExponent_length he
    omega

/-! ### The range of binary64 -/

/-- A number rounded to 53 significant bits, a tie to the even neighbour. -/
def roundTo53 (n : Nat) : Nat :=
  let excess := n.log2 + 1 - 53
  let unit := Nat.pow 2 excess
  let low := n / unit
  let up := unit < 2 * (n % unit) || (unit == 2 * (n % unit) && low % 2 == 1)
  (if up then low + 1 else low) * unit

/-- Half a unit above the largest binary64 value: what reaches it rounds to infinity. -/
def infinityBound : Nat := Nat.pow 2 1024 - Nat.pow 2 970

/-- Appends digits to a number while it stays below 2 ^ 64, and returns those left over. -/
def absorb : Nat → List Char → Nat × List Char
  | v, [] => (v, [])
  | v, c :: cs =>
    if 10 * v + digitValue c < Nat.pow 2 64 then absorb (10 * v + digitValue c) cs
    else (v, c :: cs)

/-- Whether a numeral exceeds every binary64 value. -/
def Numeral.isUnbounded (x : Numeral) : Bool :=
  let (v, droppedWhole) := absorb 0 x.whole
  let (v, droppedFraction) := absorb v x.fraction
  let scale : Int :=
    droppedWhole.length - (x.fraction.length - droppedFraction.length : Nat) + x.exponent.getD 0
  v ≠ 0 && 0 ≤ scale &&
    (308 < scale || infinityBound ≤ roundTo53 v * roundTo53 (Nat.pow 10 scale.toNat))

/-- What a numeral can be used as. -/
def Numeral.classify (x : Numeral) : Number :=
  let n := ofDigits x.whole
  if x.isUnbounded then .unbounded
  else if x.fraction ≠ [] ∨ x.exponent.isSome then .floating
  else if x.negative then if 0 < n ∧ n ≤ Nat.pow 2 63 then .negative n else .floating
  else if n < Nat.pow 2 64 then .natural n
  else .floating

end DoublePushout.Json
