/-! # Digits

Digits of a base up to 36: the figures, and behind them letters in alphabetical order.
-/

namespace ClassGauge

/-- The value of a digit in base `base`; capital and small letters mean the same. -/
def digitValue? (base : Nat) (c : Char) : Option Nat :=
  let value :=
    if '0' ≤ c ∧ c ≤ '9' then c.toNat - 48
    else if 'a' ≤ c ∧ c ≤ 'z' then c.toNat - 87
    else if 'A' ≤ c ∧ c ≤ 'Z' then c.toNat - 55
    else base
  if value < base then some value else none

/-- The digit for a value below 36, with small letters. -/
def digitChar (n : Nat) : Char :=
  if n < 10 then Char.ofNat (48 + n) else Char.ofNat (87 + n)

theorem digitValue?_digitChar : ∀ n < 16, digitValue? 16 (digitChar n) = some n := by
  decide

/-- The number that digits write, the first the highest. -/
def numberOfDigits? (base : Nat) (digits : List Char) : Option Nat :=
  (digits.mapM (digitValue? base)).map fun values => values.foldl (base * · + ·) 0

end ClassGauge
