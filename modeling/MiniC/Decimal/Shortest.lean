import MiniC.Decimal.Binary64

/-! The shortest decimal of a binary64 number: the fewest digits that read back as the same number,
and of those the nearest to it. -/

namespace MiniC.Decimal

/-- Decimal digits with a point: the number `0.d₁d₂…` times `10 ^ point`. -/
structure Digits where
  digits : List Char
  point : Int
deriving DecidableEq

def digitsOf (n : Nat) : List Char := Nat.toDigits 10 n

def digitCount (n : Nat) : Nat := (digitsOf n).length

def pointOf (f : Fraction) : Int :=
  if f.den ≤ f.num then digitCount (f.num / f.den)
  else
    let k := digitCount (f.den / f.num) - 1
    if f.num * 10 ^ k = f.den then 1 - k else -k

def inUnits (f : Fraction) (e : Int) : Fraction :=
  if 0 ≤ e then ⟨f.num, f.den * 10 ^ e.toNat⟩ else ⟨f.num * 10 ^ (-e).toNat, f.den⟩

def readsBack (bits : Nat) (c : Nat) (e : Int) : Bool := nearestBits? (.scale c 10 e) = some bits

def Digits.ofUnits (c : Nat) (e : Int) : Digits :=
  let ds := digitsOf c
  ⟨(ds.reverse.dropWhile (· = '0')).reverse, ds.length + e⟩

/-- Tries the grids of `count` digits and more, `fuel` of them: the two grid points around the
fraction, the nearer first. -/
def shortestFrom (bits : Nat) (f : Fraction) (point : Int) : Nat → Nat → Digits
  | 0, count =>
    .ofUnits (roundDiv (inUnits f (point - count)).num (inUnits f (point - count)).den)
      (point - count)
  | fuel + 1, count =>
    let e := point - count
    let u := inUnits f e
    let near := roundDiv u.num u.den
    let low := u.num / u.den
    let far := if near = low then low + 1 else low
    if readsBack bits near e then .ofUnits near e
    else if readsBack bits far e then .ofUnits far e
    else shortestFrom bits f point fuel (count + 1)

def shortest (x : Float) : Digits :=
  let f := magnitude x
  shortestFrom (x.toBits.toNat % 2 ^ 63) f (pointOf f) 17 1

end MiniC.Decimal
