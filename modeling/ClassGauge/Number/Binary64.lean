/-! # Quotients as doubles

An average is the quotient of two doubles, itself rounded to a double. Everything here is exact
arithmetic on natural numbers: a positive double is its significand times a power of two, and each
rounding goes to the nearest value, a tie to the even one.

* `Binary64.ofNat`, `Binary64.div`: the double nearest to a number and to a quotient;
* `Binary64.bits`: the bit pattern;
* `Binary64.toFixed`: the exact value with a fixed number of places.
-/

namespace ClassGauge

/-- The integer nearest to `num / den`; a tie goes to the even one. -/
def roundHalfEven (num den : Nat) : Nat :=
  let q := num / den
  let twice := 2 * (num % den)
  if den < twice ∨ (twice = den ∧ q % 2 = 1) then q + 1 else q

/-- The double `significand * 2 ^ exponent`, which is not negative. It is zero or has a significand
of 53 bits. -/
structure Binary64 where
  significand : Nat
  exponent : Int
  deriving DecidableEq, Repr

namespace Binary64

def precision : Nat := 53

def leastSignificand : Nat := Nat.pow 2 (precision - 1)

/-- The numerator and the denominator of `num / den / 2 ^ e`. -/
def scaleDown (num den : Nat) (e : Int) : Nat × Nat :=
  if 0 ≤ e then (num, den * Nat.pow 2 e.toNat) else (num * Nat.pow 2 (-e).toNat, den)

/-- The double nearest to `num / den`, where `den` is not zero. -/
def ofQuotient (num den : Nat) : Binary64 :=
  if num = 0 then ⟨0, 0⟩
  else
    -- The quotient lies between `2 ^ (k - 1)` and `2 ^ (k + 1)`.
    let k : Int := (Nat.log2 num : Int) - Nat.log2 den
    let (n, d) := scaleDown num den (k - precision)
    let e := if n / d < 2 * leastSignificand then k - precision else k - precision + 1
    let (n, d) := scaleDown num den e
    let m := roundHalfEven n d
    if m = 2 * leastSignificand then ⟨leastSignificand, e + 1⟩ else ⟨m, e⟩

def ofNat (n : Nat) : Binary64 := ofQuotient n 1

def fraction (x : Binary64) : Nat × Nat :=
  scaleDown x.significand 1 (-x.exponent)

/-- The double nearest to `x / y`, where `y` is not zero. -/
def div (x y : Binary64) : Binary64 :=
  let (a, b) := x.fraction
  let (c, d) := y.fraction
  ofQuotient (a * d) (b * c)

/-- The bit pattern: the sign, eleven bits of exponent, and the significand without its first
bit. -/
def bits (x : Binary64) : Nat :=
  if x.significand = 0 then 0
  else (x.exponent + 1075).toNat * leastSignificand + (x.significand - leastSignificand)

/-- The value with `places` decimal places, a tie going to the even last digit. -/
def toFixed (places : Nat) (x : Binary64) : String :=
  let unit := Nat.pow 10 places
  let (n, d) := x.fraction
  let scaled := roundHalfEven (n * unit) d
  let decimals := toString (scaled % unit)
  toString (scaled / unit) ++ "." ++
    String.ofList (List.replicate (places - decimals.length) '0') ++ decimals

end Binary64

end ClassGauge
