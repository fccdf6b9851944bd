/-!
Binary64 numbers as exact data. A finite number is a sign, a mantissa and an exponent, chosen so
that each magnitude has one pair; equality of the data is then equality of sign and value.
`Binary64.round` is the number nearest to a fraction.
-/

namespace ObjectModel

def scaleUp (base n : Nat) (exponent : Int) : Nat :=
  n * Nat.pow base exponent.toNat

namespace Binary64

def leastNormal : Nat := 0x10000000000000

/--
The pairs that stand for a finite magnitude `mantissa * 2 ^ exponent`: 53 bits, all of them used
unless the exponent is already the least one.
-/
def Canonical (mantissa : Nat) (exponent : Int) : Prop :=
  mantissa < 2 * leastNormal ∧ -1074 ≤ exponent ∧ exponent ≤ 971 ∧
    (leastNormal ≤ mantissa ∨ exponent = -1074)

instance (mantissa : Nat) (exponent : Int) : Decidable (Canonical mantissa exponent) := by
  unfold Canonical
  infer_instance

end Binary64

inductive Binary64
  | nan
  | infinity (negative : Bool)
  | finite (negative : Bool) (mantissa : Nat) (exponent : Int)
      (canonical : Binary64.Canonical mantissa exponent)
deriving DecidableEq

namespace Binary64

def zero (negative : Bool) : Binary64 :=
  .finite negative 0 (-1074) (by decide)

instance : Inhabited Binary64 := ⟨zero false⟩

def isNaN : Binary64 → Bool
  | .nan => true
  | _ => false

def isZero : Binary64 → Bool
  | .finite _ mantissa _ _ => mantissa == 0
  | _ => false

def isNegativeZero : Binary64 → Bool
  | .finite true mantissa _ _ => mantissa == 0
  | _ => false

def magnitude (mantissa : Nat) (exponent : Int) : Nat × Nat :=
  (scaleUp 2 mantissa exponent, scaleUp 2 1 (-exponent))

def toInt? : Binary64 → Option Int
  | .finite negative mantissa exponent _ =>
    let (num, den) := magnitude mantissa exponent
    if num % den = 0 then
      some (if negative then -((num / den : Nat) : Int) else ((num / den : Nat) : Int))
    else
      none
  | _ => none

def rescale (num den : Nat) (exponent : Int) : Nat × Nat :=
  (scaleUp 2 num (-exponent), scaleUp 2 den exponent)

def roundHalfEven (num den : Nat) : Nat :=
  let floor := num / den
  let rest := 2 * (num % den)
  if rest < den then floor
  else if den < rest then floor + 1
  else floor + floor % 2

/--
The exponent at which `num / den` has 53 bits before the point, or the least exponent when that is
greater. The difference of the binary logarithms overshoots it by one at most.
-/
def exponentFor (num den : Nat) : Int :=
  let guess : Int := (num.log2 : Int) - den.log2 - 52
  let (n, d) := rescale num den guess
  max (if n < leastNormal * d then guess - 1 else guess) (-1074)

def ofRounded (negative : Bool) (mantissa : Nat) (exponent : Int) : Binary64 :=
  if mantissa = 2 * leastNormal then go leastNormal (exponent + 1) else go mantissa exponent
where
  go (mantissa : Nat) (exponent : Int) : Binary64 :=
    if canonical : Canonical mantissa exponent then
      .finite negative mantissa exponent canonical
    else
      .infinity negative

def round (negative : Bool) (num den : Nat) : Binary64 :=
  if num = 0 then
    zero negative
  else
    let exponent := exponentFor num den
    let (n, d) := rescale num den exponent
    ofRounded negative (roundHalfEven n d) exponent

end Binary64

end ObjectModel
