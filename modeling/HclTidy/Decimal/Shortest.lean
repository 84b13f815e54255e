import HclTidy.Text.Basic

/-!
# The shortest decimal of a binary fraction

A binary64 number is `mantissa * 2 ^ exponent`. The reals that round to it form an interval whose
ends belong to it when the mantissa is even. `shortest` looks for the fewest digits with which some
decimal lies in that interval, and of two such decimals takes the nearer; all comparisons are exact.
-/

set_option autoImplicit false

namespace HclTidy.Decimal

/-- A positive binary64 number as `mantissa * 2 ^ exponent`. -/
structure Binary where
  mantissa : Nat
  exponent : Int

/-- The digits `digits * 10 ^ exponent`. -/
structure Scientific where
  digits : Nat
  exponent : Int

/-- The leading bit of a mantissa of full length. -/
def hiddenBit : Nat := 0x10000000000000

/-- The number without its sign; 0 has mantissa 0. -/
def Binary.ofFloat (x : Float) : Binary :=
  let bits : Nat := x.toBits.toNat
  let fraction : Nat := bits % hiddenBit
  let field : Nat := bits / hiddenBit % 2048
  if field = 0 then ⟨fraction, -1074⟩ else ⟨fraction + hiddenBit, (field : Int) - 1075⟩

/-- The number, with a minus sign if `negative` is set, is the integer `n`. -/
def Binary.isInt (b : Binary) (negative : Bool) (n : Int) : Bool :=
  let mantissa : Int := if negative then -(b.mantissa : Int) else b.mantissa
  if 0 ≤ b.exponent then mantissa * (Nat.pow 2 b.exponent.toNat : Nat) = n
  else mantissa = n * (Nat.pow 2 (-b.exponent).toNat : Nat)

/-- A ratio that is compared with decimals: `numerator / denominator`. -/
structure Ratio where
  numerator : Nat
  denominator : Nat

def Ratio.scale (n : Nat) (base : Nat) (exponent : Int) : Ratio :=
  if 0 ≤ exponent then ⟨n * Nat.pow base exponent.toNat, 1⟩ else ⟨n, Nat.pow base (-exponent).toNat⟩

def Ratio.lt (a b : Ratio) : Bool := a.numerator * b.denominator < b.numerator * a.denominator

def Ratio.le (a b : Ratio) : Bool := a.numerator * b.denominator ≤ b.numerator * a.denominator

/-- The interval of reals that round to the number, in quarters of its last place. -/
def Binary.contains (b : Binary) (r : Ratio) : Bool :=
  let isNarrow := b.mantissa = hiddenBit && -1074 < b.exponent
  let low := 4 * b.mantissa - if isNarrow then 1 else 2
  let low := Ratio.scale low 2 (b.exponent - 2)
  let high := Ratio.scale (4 * b.mantissa + 2) 2 (b.exponent - 2)
  if b.mantissa % 2 = 0 then low.le r && r.le high else low.lt r && r.lt high

/-- The decimal exponent of the leading digit, starting from a guess that is not too large. -/
def leadingExponent (r : Ratio) : Nat → Int → Int
  | 0, e => e
  | steps + 1, e => if (Ratio.scale 1 10 (e + 1)).le r then leadingExponent r steps (e + 1) else e

/-- The nearest decimal with a given last place that lies in the interval. -/
def onGrid? (b : Binary) (place : Int) : Option Scientific :=
  let value := Ratio.scale b.mantissa 2 b.exponent
  let unit := Ratio.scale 1 10 place
  let scaled : Ratio := ⟨value.numerator * unit.denominator, value.denominator * unit.numerator⟩
  let below := scaled.numerator / scaled.denominator
  let remainder := scaled.numerator % scaled.denominator
  let lowIn := b.contains (Ratio.scale below 10 place)
  let highIn := b.contains (Ratio.scale (below + 1) 10 place)
  if lowIn && (!highIn || 2 * remainder ≤ scaled.denominator) then some ⟨below, place⟩
  else if highIn then some ⟨below + 1, place⟩
  else none

/-- The decimal with the fewest digits that reads back as the number. -/
def shortest (b : Binary) : Scientific :=
  let value := Ratio.scale b.mantissa 2 b.exponent
  let leading := leadingExponent value 700 (-325)
  ((List.range 17).findSome? fun n => onGrid? b (leading - (n : Nat))).getD ⟨0, 0⟩

/-- The digits without trailing zeros, and the exponent of the first one. -/
def Scientific.normal (s : Scientific) : Text × Int :=
  let digits := Text.ofNat s.digits
  let kept := (digits.reverse.dropWhile (· = '0')).reverse
  (kept, s.exponent + digits.length - 1)

end HclTidy.Decimal
