import ObjectModel.Number.Binary64

/-!
Decimals: a coefficient and a power of ten, their reading from text, and the binary64 number
nearest to one.
-/

namespace ObjectModel

structure Decimal where
  coefficient : Nat
  exponent : Int
deriving DecidableEq, Repr, Inhabited

namespace Decimal

def digitCount (n : Nat) : Nat :=
  (Nat.toDigits 10 n).length

/--
The binary64 number nearest to a decimal. From `10 ^ 309` on that is infinity and below `10 ^ -324`
it is zero, so that a long exponent costs nothing.
-/
def toBinary64 (negative : Bool) (d : Decimal) : Binary64 :=
  let length : Int := digitCount d.coefficient
  if d.coefficient = 0 ∨ length + d.exponent ≤ -324 then
    .zero negative
  else if 310 ≤ length + d.exponent then
    .infinity negative
  else
    .round negative (scaleUp 10 d.coefficient d.exponent) (scaleUp 10 1 (-d.exponent))

def ofDigits (digits : List Char) : Nat :=
  digits.foldl (fun n c => 10 * n + (c.toNat - '0'.toNat)) 0

def splitSign : List Char → Bool × List Char
  | '-' :: rest => (true, rest)
  | '+' :: rest => (false, rest)
  | text => (false, text)

def readExponent? : List Char → Option Int
  | [] => some 0
  | mark :: rest =>
    let (negative, digits) := splitSign rest
    if mark.toLower = 'e' ∧ digits ≠ [] ∧ digits.all Char.isDigit then
      some (if negative then -(ofDigits digits : Int) else ofDigits digits)
    else
      none

def read? (text : List Char) : Option Decimal :=
  let (whole, rest) := text.span Char.isDigit
  let (fraction, rest) :=
    match rest with
    | '.' :: rest => rest.span Char.isDigit
    | rest => ([], rest)
  if whole ++ fraction = [] then
    none
  else
    (readExponent? rest).map fun exponent =>
      ⟨ofDigits (whole ++ fraction), exponent - fraction.length⟩

end Decimal

def Binary64.read? (text : String) : Option Binary64 :=
  let (negative, body) := Decimal.splitSign text.toList
  let word := String.ofList (body.map Char.toLower)
  if word = "nan" then
    some .nan
  else if word = "inf" ∨ word = "infinity" then
    some (.infinity negative)
  else
    (Decimal.read? body).map (Decimal.toBinary64 negative)

end ObjectModel
