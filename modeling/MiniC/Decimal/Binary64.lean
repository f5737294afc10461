/-! Binary64 numbers as exact fractions, and the nearest of them to a fraction. -/

-- Powers are those of the core library, also where a module sees Mathlib's.
attribute [instance (high), default_instance high] instPowNat

namespace MiniC.Decimal

def roundDiv (num den : Nat) : Nat :=
  let q := num / den
  let r := num % den
  if 2 * r > den ∨ (2 * r = den ∧ q % 2 = 1) then q + 1 else q

inductive Parts
  | nan
  | infinite (negative : Bool)
  | finite (negative : Bool) (mantissa : Nat) (exponent : Int)
deriving DecidableEq

def partsOfBits (b : Nat) : Parts :=
  let negative : Bool := 2 ^ 63 ≤ b
  let e : Nat := b / 2 ^ 52 % 2048
  let m := b % 2 ^ 52
  if e = 2047 then if m = 0 then .infinite negative else .nan
  else if e = 0 then .finite negative m (-1074)
  else .finite negative (m + 2 ^ 52) (e - 1075)

def parts (x : Float) : Parts := partsOfBits x.toBits.toNat

def isNegative (x : Float) : Bool := 2 ^ 63 ≤ x.toBits.toNat

structure Fraction where
  num : Nat
  den : Nat
deriving DecidableEq

def Fraction.scale (m : Nat) (base : Nat) (e : Int) : Fraction :=
  if 0 ≤ e then ⟨m * base ^ e.toNat, 1⟩ else ⟨m, base ^ (-e).toNat⟩

def magnitude (x : Float) : Fraction :=
  match parts x with
  | .finite _ m e => .scale m 2 e
  | _ => ⟨0, 1⟩

/-- Exponents of two for a 53-bit quotient: the one that gives it, or the least there is. -/
def scaleOf (f : Fraction) : Int :=
  let e : Int := (f.num.log2 : Int) - f.den.log2 - 53
  let q := if 0 ≤ e then f.num / (f.den * 2 ^ e.toNat) else f.num * 2 ^ (-e).toNat / f.den
  max (-1074) (if 2 ^ 53 ≤ q then e + 1 else e)

def nearestBits? (f : Fraction) : Option Nat :=
  if f.num = 0 then some 0
  else
    let e := scaleOf f
    let q :=
      if 0 ≤ e then roundDiv f.num (f.den * 2 ^ e.toNat)
      else roundDiv (f.num * 2 ^ (-e).toNat) f.den
    let bits := (e + 1074).toNat * 2 ^ 52 + q
    if bits < 2047 * 2 ^ 52 then some bits else none

def ofSignedBits (negative : Bool) (bits : Nat) : Float :=
  Float.ofBits (UInt64.ofNat (if negative then bits + 2 ^ 63 else bits))

def nearest? (negative : Bool) (f : Fraction) : Option Float :=
  (nearestBits? f).map (ofSignedBits negative)

def infinity (negative : Bool) : Float := ofSignedBits negative (2047 * 2 ^ 52)

def notANumber : Float := Float.ofBits (UInt64.ofNat (2047 * 2 ^ 52 + 2 ^ 51))

def nearest (negative : Bool) (f : Fraction) : Float :=
  (nearest? negative f).getD (infinity negative)

def ofInt? (n : Int) : Option Float := nearest? (n < 0) ⟨n.natAbs, 1⟩

def truncate? (x : Float) : Option Int :=
  match parts x with
  | .finite negative m e =>
    let f := Fraction.scale m 2 e
    let q : Int := (f.num / f.den : Nat)
    some (if negative then -q else q)
  | _ => none

def isWhole (x : Float) : Bool :=
  match parts x with
  | .finite _ m e => let f := Fraction.scale m 2 e; f.num % f.den = 0
  | _ => false

end MiniC.Decimal
