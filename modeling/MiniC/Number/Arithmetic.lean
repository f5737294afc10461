import MiniC.Number

/-! Arithmetic. Integers are exact but held to a width; as soon as one operand is a binary64 number
both are, and the result is rounded. Main statement: the guarded power of an integer is its
power. -/

namespace MiniC.Number

def bitLength (n : Int) : Nat := if n = 0 then 0 else n.natAbs.log2 + 1

theorem bitLength_le_iff {n : Int} {bits : Nat} : bitLength n ≤ bits ↔ n.natAbs < 2 ^ bits := by
  unfold bitLength
  split
  · rename_i h
    rw [h]
    exact iff_of_true (Nat.zero_le _) (Nat.two_pow_pos _)
  · rename_i h
    rw [Nat.succ_le_iff, Nat.log2_lt (by omega)]

def bounded (maxBits : Int) : Number → Except Fault Number
  | int n => if maxBits < bitLength n then .error (.tooWide maxBits) else .ok (int n)
  | float x => .ok (float x)

def toFloat : Number → Except Fault Float
  | int n => match Decimal.ofInt? n with
    | some x => .ok x
    | none => .error .integerTooLarge
  | float x => .ok x

def toFloats (a b : Number) : Except Fault (Float × Float) := do
  let x ← a.toFloat
  let y ← b.toFloat
  return (x, y)

def add (maxBits : Int) : Number → Number → Except Fault Number
  | int a, int b => bounded maxBits (int (a + b))
  | a, b => do
    let (x, y) ← toFloats a b
    return float (x + y)

def sub (maxBits : Int) : Number → Number → Except Fault Number
  | int a, int b => bounded maxBits (int (a - b))
  | a, b => do
    let (x, y) ← toFloats a b
    return float (x - y)

def mul (maxBits : Int) : Number → Number → Except Fault Number
  | int a, int b => bounded maxBits (int (a * b))
  | a, b => do
    let (x, y) ← toFloats a b
    return float (x * y)

def neg : Number → Number
  | int a => int (-a)
  | float x => float (-x)

def truncDiv (a b : Int) : Except Fault Int :=
  if b = 0 then .error .wholeByZero
  else
    let q : Int := (a.natAbs / b.natAbs : Nat)
    .ok (if decide (a < 0) = decide (b < 0) then q else -q)

theorem truncDiv_eq (a : Int) {b : Int} (hb : b ≠ 0) : truncDiv a b = .ok (a.tdiv b) := by
  have hneg (n : Nat) : (Int.negSucc n < 0) = True := eq_true (Int.negSucc_lt_zero n)
  have hpos (n : Nat) : (Int.ofNat n < 0) = False := eq_false (Int.not_lt.2 (Int.natCast_nonneg n))
  rw [truncDiv, if_neg hb]
  cases a with
  | ofNat m =>
    cases b with
    | ofNat n => rfl
    | negSucc n => simp only [hneg, hpos]; rfl
  | negSucc m =>
    cases b with
    | ofNat n => simp only [hneg, hpos]; rfl
    | negSucc n => simp only [hneg]; rfl

def floatRemainder (x y : Float) : Except Fault Float :=
  match Decimal.parts x, Decimal.parts y with
  | .nan, _ | _, .nan => .ok Decimal.notANumber
  | .infinite _, _ => .error .remainderUndefined
  | .finite .., .infinite _ => .ok x
  | .finite negative m e, .finite _ k d =>
    if k = 0 then .error .remainderUndefined
    else
      let low := min e d
      let r := m * 2 ^ (e - low).toNat % (k * 2 ^ (d - low).toNat)
      .ok (Decimal.nearest negative (.scale r 2 low))

def remainder : Number → Number → Except Fault Number
  | int a, int b => do
    let q ← truncDiv a b
    return int (a - b * q)
  | a, b => do
    let (x, y) ← toFloats a b
    return float (← floatRemainder x y)

def truncate : Number → Except Fault Int
  | int n => .ok n
  | float x =>
    match Decimal.truncate? x with
    | some n => .ok n
    | none => .error (if (float x).isNaN then .nanNotWhole else .infinityNotWhole)

def realDiv : Number → Number → Except Fault Number
  | int a, int b =>
    match Decimal.nearest? (decide (a < 0) != decide (b < 0)) ⟨a.natAbs, b.natAbs⟩ with
    | some x => .ok (float x)
    | none => .error .quotientTooLarge
  | a, b => do
    let (x, y) ← toFloats a b
    return float (x / y)

def wholeDiv : Number → Number → Except Fault Number
  | int a, int b => do return int (← truncDiv a b)
  | a, b => do
    let (x, y) ← toFloats a b
    return int (← truncate (float (x / y)))

/-- The power of an integer; bases without a width are not multiplied out. -/
def intPower (a : Int) (n : Nat) : Int :=
  if n = 0 then 1
  else if a.natAbs ≤ 1 then if a = -1 ∧ n % 2 = 0 then 1 else a
  else a ^ n

def isOddWhole (x : Float) : Bool :=
  match Decimal.truncate? x with
  | some n => Decimal.isWhole x && n % 2 != 0
  | none => false

/-- A power of a negative base with a fractional exponent is not real, unless it is out of range. -/
def complexPower (x y : Float) : Except Fault Float :=
  if ((-x).pow y).isInf then .error .complexTooLarge
  else .error (.notReal (Decimal.text x) (Decimal.text y))

def finitePower (x y : Float) : Except Fault Float :=
  let negative := Decimal.isNegative x && isOddWhole y
  let signed (r : Float) := if negative then -r else r
  if x.abs == 1.0 then .ok (signed 1.0)
  else
    let r := x.abs.pow y
    if r.isInf then .error .powerTooLarge else .ok (signed r)

def floatPower (x y : Float) : Except Fault Float :=
  if y == 0.0 then .ok 1.0
  else if x.isNaN then .ok x
  else if y.isNaN then .ok (if x == 1.0 then 1.0 else y)
  else if y.isInf then
    if x.abs == 1.0 then .ok 1.0
    else .ok (if decide (0.0 < y) = decide (1.0 < x.abs) then y.abs else 0.0)
  else if x.isInf then
    if 0.0 < y then .ok (if isOddWhole y then x else x.abs)
    else .ok (if isOddWhole y && Decimal.isNegative x then -0.0 else 0.0)
  else if x == 0.0 then
    if y < 0.0 then .error .zeroToNegative else .ok (if isOddWhole y then x else 0.0)
  else if x < 0.0 && !Decimal.isWhole y then complexPower x y
  else finitePower x y

/-- Least width of a power of an integer; the power is not computed if even this is too wide. -/
def powerWidth (a : Int) (n : Nat) : Int := ((bitLength a : Int) - 1) * n

def realPower (a b : Number) : Except Fault Number := do
  let (x, y) ← toFloats a b
  match floatPower x y with
  | .ok r => return float r
  | .error (.notReal _ _) => .error (.notReal a.text b.text)
  | .error f => .error f

def power (maxBits : Int) : Number → Number → Except Fault Number
  | int a, int b =>
    if b < 0 then realPower (int a) (int b)
    else if 0 < b ∧ maxBits ≤ powerWidth a b.toNat then .error (.tooWide maxBits)
    else bounded maxBits (int (intPower a b.toNat))
  | a, b => realPower a b

theorem neg_one_pow_eq (n : Nat) : (-1 : Int) ^ n = if n % 2 = 0 then 1 else -1 := by
  induction n with
  | zero => rfl
  | succ n ih =>
    rw [Int.pow_succ, ih]
    rcases Nat.mod_two_eq_zero_or_one n with h | h
    · rw [if_pos h, if_neg (by omega)]; rfl
    · rw [if_neg (by omega), if_pos (by omega)]; rfl

theorem intPower_eq (a : Int) (n : Nat) : intPower a n = a ^ n := by
  unfold intPower
  split
  · next h => simp [h]
  · next h =>
    split
    · next ha =>
      have : a = 0 ∨ a = 1 ∨ a = -1 := by omega
      rcases this with rfl | rfl | rfl
      · simp [Int.zero_pow h]
      · rw [Int.one_pow]; rfl
      · simp [neg_one_pow_eq]
    · rfl

end MiniC.Number
