import MiniC.Decimal.Shortest

/-! How numbers are set as text: positional, with a fixed number of places, or with an exponent. -/

namespace MiniC.Decimal

def zeros (n : Nat) : List Char := List.replicate n '0'

def exponentText (e : Int) : List Char :=
  let ds := digitsOf e.natAbs
  (if e < 0 then '-' else '+') :: (zeros (2 - ds.length) ++ ds)

def pointed (keepPoint : Bool) (whole places : List Char) : List Char :=
  if places.isEmpty && !keepPoint then whole else whole ++ '.' :: places

def scientific (mark : Char) (keepPoint : Bool) (ds : List Char) (e : Int) : List Char :=
  pointed keepPoint (ds.take 1) (ds.drop 1) ++ mark :: exponentText e

def positional (d : Digits) : List Char :=
  let n := d.point.toNat
  if d.point ≤ 0 then '0' :: '.' :: (zeros (-d.point).toNat ++ d.digits)
  else if d.digits.length ≤ n then d.digits ++ zeros (n - d.digits.length) ++ ['.', '0']
  else d.digits.take n ++ '.' :: d.digits.drop n

def isPositional (d : Digits) : Bool := -4 < d.point && d.point ≤ 16

def signText (negative : Bool) : List Char := if negative then ['-'] else []

def text (x : Float) : String :=
  match parts x with
  | .nan => "nan"
  | .infinite negative => String.ofList (signText negative ++ "inf".toList)
  | .finite negative m _ =>
    let body :=
      if m = 0 then ['0', '.', '0']
      else
        let d := shortest x
        if isPositional d then positional d else scientific 'e' false d.digits (d.point - 1)
    String.ofList (signText negative ++ body)

def fixed (keepPoint : Bool) (places : Nat) (f : Fraction) : List Char :=
  let ds := digitsOf (roundDiv (f.num * 10 ^ places) f.den)
  let ds := zeros (places + 1 - ds.length) ++ ds
  pointed keepPoint (ds.take (ds.length - places)) (ds.drop (ds.length - places))

def rounded (count : Nat) (f : Fraction) : List Char × Int :=
  if f.num = 0 then (zeros count, 0)
  else
    let point := pointOf f
    let u := inUnits f (point - count)
    let ds := digitsOf (roundDiv u.num u.den)
    (ds.take count, point - 1 + (ds.length - count : Nat))

def exponential (mark : Char) (keepPoint : Bool) (places : Nat) (f : Fraction) : List Char :=
  let r := rounded (places + 1) f
  scientific mark keepPoint r.1 r.2

def dropZeros (ds : List Char) : List Char := (ds.reverse.dropWhile (· = '0')).reverse

def general (mark : Char) (alternate : Bool) (count : Nat) (f : Fraction) : List Char :=
  let count := max count 1
  let r := rounded count f
  let keep (ds : List Char) := if alternate then ds else dropZeros ds
  if -4 ≤ r.2 && r.2 < count then
    if r.2 < 0 then pointed alternate ['0'] (keep (zeros (-r.2 - 1).toNat ++ r.1))
    else
      let n := r.2.toNat + 1
      pointed alternate (r.1.take n) (keep (r.1.drop n))
  else pointed alternate (r.1.take 1) (keep (r.1.drop 1)) ++ mark :: exponentText r.2

end MiniC.Decimal
