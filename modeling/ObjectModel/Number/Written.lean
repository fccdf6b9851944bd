import ObjectModel.Number.Shortest

/-!
How numbers are written: integers in decimal, other numbers by their shortest digits, with a point
or an exponent in every finite one.
-/

namespace ObjectModel

namespace Decimal

def writtenExponent (power : Int) : String :=
  let digits := toString power.natAbs
  let padded := if power.natAbs < 10 then "0" ++ digits else digits
  (if power < 0 then "e-" else "e+") ++ padded

/--
The text of a decimal. When its first digit stands for `10 ^ -4` up to `10 ^ 15` the point is
written in its place, followed by a zero if nothing else follows it; otherwise an exponent is
written.
-/
def written (d : Decimal) : String :=
  let digits := Nat.toDigits 10 d.coefficient
  let power := d.exponent + digits.length - 1
  if -4 ≤ power ∧ power < 16 then
    if 0 ≤ d.exponent then
      String.ofList (digits ++ zeros d.exponent.toNat) ++ ".0"
    else if 0 ≤ power then
      let whole := (power + 1).toNat
      String.ofList (digits.take whole ++ '.' :: digits.drop whole)
    else
      String.ofList ('0' :: '.' :: zeros (-power - 1).toNat ++ digits)
  else
    match digits with
    | [first] => String.ofList [first] ++ writtenExponent power
    | first :: rest => String.ofList (first :: '.' :: rest) ++ writtenExponent power
    | [] => writtenExponent power
where
  zeros (count : Nat) : List Char := List.replicate count '0'

end Decimal

def Binary64.written : Binary64 → String
  | .nan => "nan"
  | .infinity negative => signed negative "inf"
  | .finite negative mantissa exponent _ =>
    signed negative (if mantissa = 0 then "0.0" else (shortest mantissa exponent).written)
where
  signed (negative : Bool) (text : String) : String := if negative then "-" ++ text else text

end ObjectModel
