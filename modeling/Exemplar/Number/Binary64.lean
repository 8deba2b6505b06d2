/-!
# Double-precision numbers

A number with a fraction or an exponent is kept as the sixty-four bits
of the double nearest to it. Reading and writing decimals are exact
arithmetic on natural numbers: `ofDecimal` rounds `m · 10^e` to the
nearest double, ties going to the even significand, and `shortest`
finds the fewest decimal digits that `ofDecimal` would read back as the
same double, the nearest such decimal if there are several. Nothing is
ever added or multiplied, so no floating-point operation is needed.

A double that is neither infinite nor undefined is `significand · 2^scale`
up to its sign. The doubles next to it lie one unit of `2^scale` away –
half a unit below, if the significand is the least of its exponent – and
the decimals that read back as it are those at most half way to them,
the half way points included exactly when the significand is even.
-/

namespace Exemplar

/-- **A double**, by its bits: sign, eleven bits of exponent, fifty-two
bits of fraction. -/
structure Binary64 where
  bits : UInt64
  deriving DecidableEq, Inhabited

namespace Binary64

/-- The sign bit. -/
def isNegative (x : Binary64) : Bool := x.bits.toNat ≥ Nat.pow 2 63

/-- The bits without the sign. -/
def magnitude (x : Binary64) : Nat := x.bits.toNat % Nat.pow 2 63

/-- The exponent field. -/
def exponentField (x : Binary64) : Nat := x.magnitude / Nat.pow 2 52

/-- The fraction field. -/
def fraction (x : Binary64) : Nat := x.magnitude % Nat.pow 2 52

/-- Zero of either sign. -/
def isZero (x : Binary64) : Bool := x.magnitude == 0

/-- Infinite or undefined. -/
def isSpecial (x : Binary64) : Bool := x.exponentField == 2047

/-- Undefined: the special values other than the infinities. -/
def isUndefined (x : Binary64) : Bool := x.isSpecial && x.fraction != 0

/-- **The significand**: the whole number of units of `2^scale`. -/
def significand (x : Binary64) : Nat :=
  if x.exponentField = 0 then x.fraction else x.fraction + Nat.pow 2 52

/-- **The scale**: the power of two that the significand counts. -/
def scale (x : Binary64) : Int :=
  (if x.exponentField = 0 then 1 else x.exponentField : Nat) - (1075 : Int)

/-- The bits of a magnitude, with a sign put on. -/
def ofMagnitude (negative : Bool) (bits : Nat) : Binary64 :=
  ⟨UInt64.ofNat (if negative then bits + Nat.pow 2 63 else bits)⟩

/-- The magnitude of the infinities. -/
def infinityBits : Nat := 2047 * Nat.pow 2 52

/-- The infinity of the given sign. -/
def infinity (negative : Bool) : Binary64 := ofMagnitude negative infinityBits

/-- The undefined number. -/
def undefined : Binary64 := ofMagnitude false (infinityBits + Nat.pow 2 51)

/-! ## From decimals -/

/-- **The quotient rounded to the nearest whole number**, a half going to
the even neighbour. -/
def roundDiv (num den : Nat) : Nat :=
  let q := num / den
  let r := num % den
  if 2 * r < den then q else if den < 2 * r then q + 1 else q + q % 2

/-- The greatest `k` with `2^k ≤ num / den`, for positive arguments. -/
def log2Ratio (num den : Nat) : Int :=
  let k := (num.log2 : Int) - den.log2
  let reached := if 0 ≤ k then den * Nat.pow 2 k.toNat ≤ num
    else den ≤ num * Nat.pow 2 (-k).toNat
  if reached then k else k - 1

/-- The magnitude bits of the double nearest to `num / den`. The unit is
`2^scale` for the scale that leaves fifty-three binary digits, or the
least scale there is; a significand that rounds up to the next power of
two carries into the exponent field by itself. -/
def ratioBits (num den : Nat) : Nat :=
  let s := max (log2Ratio num den - 52) (-1074)
  let m := if 0 ≤ s then roundDiv num (den * Nat.pow 2 s.toNat)
    else roundDiv (num * Nat.pow 2 (-s).toNat) den
  min ((s + 1074).toNat * Nat.pow 2 52 + m) infinityBits

/-- The number of decimal digits. -/
def decimalLength (n : Nat) : Nat := (Nat.toDigits 10 n).length

/-- **The double nearest to `m · 10^e`**. Exponents far beyond the range
of doubles are settled by the number of digits alone. -/
def ofDecimal (negative : Bool) (m : Nat) (e : Int) : Binary64 :=
  let reach := (decimalLength m : Int) + e
  if m = 0 ∨ reach < -330 then ofMagnitude negative 0
  else if 310 < reach then infinity negative
  else if 0 ≤ e then ofMagnitude negative (ratioBits (m * Nat.pow 10 e.toNat) 1)
  else ofMagnitude negative (ratioBits m (Nat.pow 10 (-e).toNat))

/-! ## To decimals -/

/-- **A decimal**: `digits · 10^exponent`. -/
structure Decimal where
  digits : Nat
  exponent : Int
  deriving DecidableEq, Repr

/-- The greatest `k` with `10^k ≤ num / den`, for positive arguments. -/
def log10Ratio (num den : Nat) : Int :=
  if den ≤ num then decimalLength (num / den) - (1 : Int)
  else -(decimalLength ((den + num - 1) / num - 1) : Int)

/-- **The nearest multiple of `10^t` that reads back**, if there is one.
`low`, `mid` and `high` are four times the significand and its two half
way points, in units of `2^q`. Only the two multiples around the number
can be nearest, and if any multiple lies between the half way points, so
does one of these. -/
def onGrid? (low mid high : Nat) (q t : Int) (closed : Bool) : Option Decimal :=
  let binary (n : Nat) := n * Nat.pow 2 q.toNat * Nat.pow 10 (-t).toNat
  let decimal (k : Nat) := k * Nat.pow 2 (-q).toNat * Nat.pow 10 t.toNat
  let inside (k : Nat) := if closed
    then binary low ≤ decimal k ∧ decimal k ≤ binary high
    else binary low < decimal k ∧ decimal k < binary high
  let k := binary mid / decimal 1
  let below := binary mid - decimal k
  let above := decimal (k + 1) - binary mid
  let down := below < above ∨ (below = above ∧ k % 2 = 0)
  if inside k ∧ (down ∨ ¬ inside (k + 1)) then some ⟨k, t⟩
  else if inside (k + 1) then some ⟨k + 1, t⟩
  else none

/-- The first grid that holds a decimal which reads back: from the
coarsest, on which the number has one digit, to ever finer ones. -/
def firstOnGrid (low mid high : Nat) (q : Int) (closed : Bool) : Nat → Int → Decimal
  | 0, t => ⟨0, t⟩
  | n + 1, t =>
    match onGrid? low mid high q t closed with
    | some d => d
    | none => firstOnGrid low mid high q closed n (t - 1)

/-- **The shortest decimal that reads back** as the magnitude of a finite
double. Seventeen digits always suffice. -/
def shortest (x : Binary64) : Decimal :=
  if x.isZero then ⟨0, 0⟩
  else
    let m := x.significand
    let q := x.scale - 2
    let low := if x.fraction = 0 ∧ 1 < x.exponentField then 4 * m - 1 else 4 * m - 2
    let t := log10Ratio (4 * m * Nat.pow 2 q.toNat) (Nat.pow 2 (-q).toNat)
    firstOnGrid low (4 * m) (4 * m + 2) q (m % 2 == 0) 17 t

/-! ## Written form -/

/-- **How a double is written**: the decimal exponents that are written
without a power of ten, and the words for what is not finite. -/
structure Style where
  /-- The least exponent of the first digit written positionally. -/
  least : Int
  /-- The first exponent too large for that. -/
  beyond : Int
  /-- The word for the undefined number. -/
  undefinedWord : String
  /-- The word for infinity. -/
  infinityWord : String

/-- Zeros at the end of the digits are dropped, the last digit kept. -/
def trimZeros (digits : List Char) : List Char :=
  match (digits.reverse.dropWhile (· == '0')).reverse with
  | [] => ['0']
  | ds => ds

/-- The digits of a positional number: the point after `point + 1`
digits, zeros filling up, and at least one digit on either side. -/
def positional (digits : List Char) (point : Int) : List Char :=
  if point < 0 then '0' :: '.' :: List.replicate (-point - 1).toNat '0' ++ digits
  else
    let n := point.toNat + 1
    let whole := digits.take n ++ List.replicate (n - digits.length) '0'
    let rest := digits.drop n
    whole ++ '.' :: if rest.isEmpty then ['0'] else rest

/-- The digits before a power of ten: one, and the others behind a
point. -/
def scientific (digits : List Char) (point : Int) : List Char :=
  let mantissa := match digits with
    | [d] => [d]
    | d :: ds => d :: '.' :: ds
    | [] => ['0']
  let power := Nat.toDigits 10 point.natAbs
  let sign := if point < 0 then '-' else '+'
  mantissa ++ 'e' :: sign :: List.replicate (2 - power.length) '0' ++ power

/-- **The written form** of a double: its shortest digits, positional for
exponents within the bounds, with a point always, and with a power of ten
of at least two digits beyond them. -/
def write (style : Style) (x : Binary64) : String :=
  let sign := if x.isNegative then "-" else ""
  if x.isUndefined then style.undefinedWord
  else if x.isSpecial then sign ++ style.infinityWord
  else
    let d := x.shortest
    let all := Nat.toDigits 10 d.digits
    let point := d.exponent + all.length - 1
    let digits := trimZeros all
    let body := if style.least ≤ point ∧ point < style.beyond
      then positional digits point else scientific digits point
    sign ++ String.ofList body

end Binary64

end Exemplar
