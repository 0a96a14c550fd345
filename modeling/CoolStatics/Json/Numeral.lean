import CoolStatics.Json.Basic

/-!
Numbers in JSON text. A number without fraction and exponent is an integer if it fits 64 bits,
signed where it has a minus sign and unsigned where it has none; minus zero is not an integer.
Every other number is a double, which has to be finite.
-/
namespace CoolStatics.Json

/-- The parts of a number as it is written, digits by their values. -/
structure Numeral where
  negative : Bool
  whole : List Nat
  fraction : List Nat
  exponent : Int
  /-- Whether neither a fraction nor an exponent is written. -/
  plain : Bool

namespace Numeral

def ofDigits (ds : List Nat) : Nat := ds.foldl (fun v d => v * 10 + d) 0

/-- Appends digits as long as the result fits 64 bits; also how many digits are left over. -/
def append (significand : Nat) : List Nat → Nat × Nat
  | [] => (significand, 0)
  | d :: rest =>
    if significand * 10 + d < UInt64.size then append (significand * 10 + d) rest
    else (significand, rest.length + 1)

/-- The nearest natural number with at most 53 significant bits; a tie goes to the even one. -/
def round53 (n : Nat) : Nat :=
  if n < 1 <<< 53 then n
  else
    let unit := 1 <<< (n.log2 - 52)
    let q := n / unit
    let r := n % unit
    if unit < 2 * r ∨ (unit = 2 * r ∧ q % 2 = 1) then (q + 1) * unit else q * unit

/-- The least number that rounds to infinity as a double. -/
def infinite : Nat := ((1 <<< 54) - 1) <<< 970

/-- Whether the number is too large for a double. Digits that do not fit into the significand count
by their place only, and significand and power of ten are rounded before they are multiplied. -/
def overflows (n : Numeral) : Bool :=
  let (wholePart, scaled) := append 0 n.whole
  let (significand, dropped) := append wholePart n.fraction
  let power := n.exponent + scaled - (n.fraction.length - dropped)
  significand ≠ 0 && 0 ≤ power &&
    (308 < power || infinite ≤ round53 significand * round53 (Nat.pow 10 power.toNat))

/-- The integer that is written, if it counts as one. -/
def int? (n : Numeral) : Option Int :=
  let value := ofDigits n.whole
  if !n.plain then none
  else if n.negative then
    if 0 < value ∧ 2 * value ≤ UInt64.size then some (-(value : Int)) else none
  else if value < UInt64.size then some value else none

end Numeral
end CoolStatics.Json
