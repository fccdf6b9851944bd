import ObjectModel.Number.Decimal

/-!
The shortest decimal that reads back as a given binary64 number. For one digit, two digits and so
on, the two decimals of that length around the number are tried by reading them back.
-/

namespace ObjectModel

namespace Decimal

def stripZeros (d : Decimal) : Decimal :=
  if d.coefficient ≠ 0 ∧ d.coefficient % 10 = 0 then
    stripZeros ⟨d.coefficient / 10, d.exponent + 1⟩
  else
    d
termination_by d.coefficient
decreasing_by omega

def leadingPower (num den : Nat) : Int :=
  let guess : Int := (digitCount num : Int) - digitCount den
  if scaleUp 10 num (-guess) < scaleUp 10 den guess then guess - 1 else guess

end Decimal

namespace Binary64

def exactDecimal (mantissa : Nat) (exponent : Int) : Decimal :=
  ⟨scaleUp 5 (scaleUp 2 mantissa exponent) (-exponent), min exponent 0⟩

/--
The decimal with the given number of digits that reads back as the magnitude
`mantissa * 2 ^ exponent`: the one below or the one above it. Of two the nearer is taken, and the
even one of two equally near ones.
-/
def nearestOfLength? (mantissa : Nat) (exponent : Int) (length : Nat) : Option Decimal :=
  let (num, den) := magnitude mantissa exponent
  let power := Decimal.leadingPower num den - length + 1
  let n := scaleUp 10 num (-power)
  let d := scaleUp 10 den power
  let below : Decimal := ⟨n / d, power⟩
  let above : Decimal := ⟨n / d + 1, power⟩
  let rest := 2 * (n % d)
  let order :=
    if rest < d ∨ (rest = d ∧ below.coefficient % 2 = 0) then [below, above] else [above, below]
  order.find? readsBack
where
  readsBack (decimal : Decimal) : Bool :=
    match decimal.toBinary64 false with
    | .finite _ m e _ => m == mantissa && e == exponent
    | _ => false

def shortest (mantissa : Nat) (exponent : Int) : Decimal :=
  let found := (List.range 17).findSome? fun i => nearestOfLength? mantissa exponent (i + 1)
  (found.getD (exactDecimal mantissa exponent)).stripZeros

end Binary64

end ObjectModel
