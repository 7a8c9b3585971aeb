/-!
# Binary floating-point numbers

A document may hold numbers with a fraction or an exponent. They denote the nearest binary64
number, and what the library does with them afterwards is exact: compare, truncate, print.

## Main definitions

* `Binary64` — a signed zero, a finite number `± mantissa · 2 ^ exponent`, an infinity or no number
* `Binary64.ofDecimal` — the binary64 number nearest to `digits · 10 ^ exponent`
* `Binary64.toRat?` — the exact value of a finite number
* `Binary64.shortest` — the fewest decimal digits that denote the number
* `Binary64.toText` — the number in positional or scientific form
-/

namespace Abacus

/-- The integer nearest to `num / den`; of two that are equally near, the even one. -/
def roundHalfEven (num den : Nat) : Nat :=
  let quotient := num / den
  let remainder := num % den
  if 2 * remainder < den then quotient
  else if den < 2 * remainder then quotient + 1
  else if quotient % 2 = 0 then quotient
  else quotient + 1

/-- A binary64 number. A finite one is `± mantissa · 2 ^ exponent`, with the mantissa below
`2 ^ 53` and, where the exponent is not the least one, at least `2 ^ 52`. -/
inductive Binary64
  | finite (negative : Bool) (mantissa : Nat) (exponent : Int)
  | infinity (negative : Bool)
  | nan
  deriving DecidableEq

namespace Binary64

/-- The exponent of the numbers next to zero. -/
def leastExponent : Int := -1074

/-- The exponent of the largest finite numbers. -/
def greatestExponent : Int := 971

/-- The fraction `num / den` measured in units of `2 ^ exponent`. -/
def inUnits (num den : Nat) (exponent : Int) : Nat × Nat :=
  if 0 ≤ exponent then (num, den * Nat.pow 2 exponent.toNat)
  else (num * Nat.pow 2 (-exponent).toNat, den)

/-- The exponent at which `num / den` has a mantissa of 53 bits, or the least exponent if that
is larger. -/
def exponentOf (num den : Nat) : Int :=
  let guess := max ((Nat.log2 num : Int) - (Nat.log2 den : Int) - 53) leastExponent
  let (n, d) := inUnits num den guess
  if Nat.pow 2 53 ≤ n / d then guess + 1 else guess

/-- The binary64 number nearest to `± num / den`, ties going to the even mantissa. -/
def ofRatio (negative : Bool) (num den : Nat) : Binary64 :=
  let exponent := exponentOf num den
  let (n, d) := inUnits num den exponent
  let rounded := roundHalfEven n d
  let (mantissa, exponent) :=
    if rounded = Nat.pow 2 53 then (Nat.pow 2 52, exponent + 1) else (rounded, exponent)
  if greatestExponent < exponent then .infinity negative else .finite negative mantissa exponent

/-- The binary64 number nearest to `± digits · 10 ^ exponent`. Far outside the range of finite
numbers the answer is an infinity or a zero, whatever the digits. -/
def ofDecimal (negative : Bool) (digits : Nat) (exponent : Int) : Binary64 :=
  let magnitude : Int := (Nat.toDigits 10 digits).length + exponent
  if digits = 0 ∨ magnitude < -400 then .finite negative 0 leastExponent
  else if 400 < magnitude then .infinity negative
  else if 0 ≤ exponent then ofRatio negative (digits * Nat.pow 10 exponent.toNat) 1
  else ofRatio negative digits (Nat.pow 10 (-exponent).toNat)

/-- The size of a finite number as a fraction. -/
def ratio (mantissa : Nat) (exponent : Int) : Nat × Nat :=
  if 0 ≤ exponent then (mantissa * Nat.pow 2 exponent.toNat, 1)
  else (mantissa, Nat.pow 2 (-exponent).toNat)

/-- The exact value of a finite number. -/
def toRat? : Binary64 → Option Rat
  | .finite negative mantissa exponent =>
    let (num, den) := ratio mantissa exponent
    some (mkRat (if negative then -(num : Int) else num) den)
  | .infinity _ => none
  | .nan => none

/-- The whole part of a finite number, the fraction cut off. -/
def truncate? : Binary64 → Option Int
  | .finite negative mantissa exponent =>
    let (num, den) := ratio mantissa exponent
    some (if negative then -((num / den : Nat) : Int) else (num / den : Nat))
  | .infinity _ => none
  | .nan => none

/-- Whether the number is a zero of either sign. -/
def isZero : Binary64 → Bool
  | .finite _ mantissa _ => mantissa = 0
  | .infinity _ => false
  | .nan => false

/-! ### Decimal text -/

/-- The power of ten just above a positive fraction: the `p` with
`10 ^ (p - 1) ≤ num / den < 10 ^ p`. -/
def decimalPoint (num den : Nat) : Int :=
  let guess : Int := (Nat.toDigits 10 num).length - (Nat.toDigits 10 den).length
  let below :=
    if 0 ≤ guess then num < den * Nat.pow 10 guess.toNat
    else num * Nat.pow 10 (-guess).toNat < den
  if below then guess else guess + 1

/-- The two neighbours of a positive fraction on the grid of multiples of `10 ^ exponent`, the
nearer one first. -/
def decimalNeighbours (num den : Nat) (exponent : Int) : List Nat :=
  let (n, d) :=
    if 0 ≤ exponent then (num, den * Nat.pow 10 exponent.toNat)
    else (num * Nat.pow 10 (-exponent).toNat, den)
  let nearer := roundHalfEven n d
  if nearer = n / d then [nearer, nearer + 1] else [nearer, n / d]

/-- The decimal with the fewest digits that denotes the positive number
`mantissa · 2 ^ exponent`, as digits and a power of ten; of several the nearest. Seventeen digits
always suffice. -/
def shortest (mantissa : Nat) (exponent : Int) : Nat × Int :=
  let (num, den) := ratio mantissa exponent
  let point := decimalPoint num den
  let candidates := (List.range 17).flatMap fun k =>
    let grid := point - (k + 1 : Nat)
    (decimalNeighbours num den grid).map fun digits => (digits, grid)
  (candidates.find? fun (digits, grid) =>
    ofDecimal false digits grid = .finite false mantissa exponent).getD (num / den, 0)

/-- Positional form of the digits `ds` with the decimal point after the first `point` of them. -/
def positional (ds : List Char) (point : Int) : List Char :=
  if point ≤ 0 then "0.".toList ++ List.replicate (-point).toNat '0' ++ ds
  else if ds.length ≤ point.toNat then
    ds ++ List.replicate (point.toNat - ds.length) '0' ++ ".0".toList
  else ds.take point.toNat ++ ['.'] ++ ds.drop point.toNat

/-- Scientific form: one digit before the point, an exponent with a sign and two or more
digits. -/
def scientific (ds : List Char) (point : Int) : List Char :=
  let fraction := if ds.length ≤ 1 then [] else '.' :: ds.drop 1
  let power := point - 1
  let size := Nat.toDigits 10 power.natAbs
  ds.take 1 ++ fraction ++ ['e', if power < 0 then '-' else '+'] ++
    List.replicate (2 - size.length) '0' ++ size

/-- The number as text: the fewest digits that denote it, positional for decimal points from
three places before the first digit to sixteen after it, scientific otherwise. -/
def toText : Binary64 → String
  | .nan => "nan"
  | .infinity negative => if negative then "-inf" else "inf"
  | .finite negative mantissa exponent =>
    let unsigned :=
      if mantissa = 0 then "0.0".toList
      else
        let (digits, grid) := shortest mantissa exponent
        let ds := Nat.toDigits 10 digits
        let point : Int := ds.length + grid
        let ds := (ds.reverse.dropWhile (· = '0')).reverse
        if -4 < point ∧ point ≤ 16 then positional ds point else scientific ds point
    String.ofList (if negative then '-' :: unsigned else unsigned)

end Binary64

end Abacus
