/-!
# The fewest digits that read back

A finite double is `m · 2 ^ q` for whole numbers `m` and `q`, and the decimals that round to it
form an interval, its ends included exactly when `m` is even. Among the decimals in that interval
those with the fewest digits are preferred, and of these the nearest to the double. The search
tries one digit, two digits, and so on: on each decimal grid only the two neighbours of the
double can be the first to lie in the interval, and seventeen digits always suffice. Everything
is exact arithmetic on whole numbers; the scale `4 · 10 ^ s` clears every denominator.
-/

namespace HttpEngine.Decimal

/-- A positive double, as the integer `m` and exponent `q` of `m · 2 ^ q`, with the interval of
numbers that round to it. Numbers are counted in units of `2 ^ (q - 2)`. -/
structure Rounding where
  value : Nat
  low : Nat
  high : Nat
  exponent : Int
  closed : Bool

/-- The rounding interval of the double whose bits, sign apart, are `bits`. -/
def Rounding.ofBits (bits : Nat) : Rounding :=
  let fraction : Nat := bits % 0x10000000000000
  let biased : Nat := bits / 0x10000000000000 % 0x800
  let m : Nat := if biased = 0 then fraction else fraction + 0x10000000000000
  let q : Int := (if biased = 0 then 1 else (biased : Int)) - 1075
  let belowIsCloser := fraction = 0 ∧ 1 < biased
  ⟨4 * m, if belowIsCloser then 4 * m - 1 else 4 * m - 2, 4 * m + 2, q - 2, m % 2 = 0⟩

/-- Whether `num / den` lies in the interval, all numbers being over one denominator. -/
def Rounding.holds (r : Rounding) (unit point : Nat) : Bool :=
  if r.closed then r.low * unit ≤ point && point ≤ r.high * unit
  else r.low * unit < point && point < r.high * unit

/-- How often ten divides into `n` before nothing is left: the number of its decimal digits. -/
def digitCount (n : Nat) : Nat := (Nat.toDigits 10 n).length

/-- The power of ten of the first digit of `num / den`, if it is at least `10 ^ (-400)`. -/
def leadingPower (num den : Nat) : Int :=
  if den ≤ num then (digitCount (num / den) : Int) - 1
  else
    let shifted := num * Nat.pow 10 400 / den
    (digitCount shifted : Int) - 401

/-- The point of the grid `10 ^ power` that reads back and is nearest, if there is one. -/
def nearestOn (r : Rounding) (power : Int) : Option Nat :=
  -- Units of `2 ^ exponent` and of `10 ^ power` are both made whole.
  let two := if 0 ≤ r.exponent then Nat.pow 2 r.exponent.toNat else 1
  let half := if 0 ≤ r.exponent then 1 else Nat.pow 2 (-r.exponent).toNat
  let ten := if 0 ≤ power then Nat.pow 10 power.toNat else 1
  let tenth := if 0 ≤ power then 1 else Nat.pow 10 (-power).toNat
  let unit := two * tenth
  let grid := ten * half
  let below := r.value * unit / grid
  let above := below + 1
  let inBelow := r.holds unit (below * grid) && below != 0
  let inAbove := r.holds unit (above * grid)
  if inBelow && inAbove then
    let twice := 2 * (r.value * unit - below * grid)
    if twice < grid then some below
    else if grid < twice then some above
    else some (if below % 2 = 0 then below else above)
  else if inBelow then some below
  else if inAbove then some above
  else none

/-- The first hit of grids with `digits`, `digits + 1`, … digits, at most `fuel` of them. -/
def searchGrids (r : Rounding) (leading : Int) : Nat → Nat → Option (Nat × Int)
  | 0, _ => none
  | fuel + 1, digits =>
    let power := leading - digits + 1
    match nearestOn r power with
    | some point => some (point, power)
    | none => searchGrids r leading fuel (digits + 1)

/-- Digits without trailing zeros, with the power of ten of the last one that is left. -/
def stripZeros : List Char → Int → List Char × Int
  | '0' :: rest, power => stripZeros rest (power + 1)
  | ds, power => (ds.reverse, power)

/-- The fewest digits that read back as a positive double, and the power of ten of the last of
them. -/
def shortest (bits : Nat) : List Char × Int :=
  let r := Rounding.ofBits bits
  let num := r.value * (if 0 ≤ r.exponent then Nat.pow 2 r.exponent.toNat else 1)
  let den := if 0 ≤ r.exponent then 1 else Nat.pow 2 (-r.exponent).toNat
  match searchGrids r (leadingPower num den) 17 1 with
  | some (point, power) => stripZeros (Nat.toDigits 10 point).reverse power
  | none => (['0'], 0)

end HttpEngine.Decimal
