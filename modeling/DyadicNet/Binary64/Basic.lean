import DyadicNet.Rounding

/-!
# Double precision numbers

A double is one of finitely many rationals `± m · 2ᵉ`, an infinity, or not a number.  Here it is
given as exactly that, not as a bit pattern, and **arithmetic is exact arithmetic followed by one
rounding**: `x + y` is the double nearest to the rational sum.

## Main definitions

* `Binary64` — the type; a finite value carries its significand, its exponent and the proof that
  this pair is the one a double uses for it;
* `Binary64.toRat` — the value of a finite double;
* `Binary64.ofMagnitude`, `Binary64.ofRat` — the nearest double, ties to the even significand,
  overflowing to an infinity;
* addition, subtraction, multiplication and division, and the comparisons, in which *not a
  number* is unordered;
* `Binary64.roundEven`, `Binary64.toInt` — rounding to an integral double, and conversion to a
  bounded integer.

## Design notes

Equality of this type is identity: `0` and `-0` differ, and not a number equals itself.  Numeric
equality is `Binary64.eq`.  There is one *not a number*; its sign and payload are not modelled,
because nothing ever reads them.
-/

namespace DyadicNet

/-- The pairs in which a finite double holds its magnitude `m · 2ᵉ`: 53 bits of significand, all
of them used unless the exponent is already the least one. -/
def Binary64.Canonical (m : Nat) (e : Int) : Prop :=
  m < twoPow 53 ∧ -1074 ≤ e ∧ e ≤ 971 ∧ (m < twoPow 52 → e = -1074)

instance (m : Nat) (e : Int) : Decidable (Binary64.Canonical m e) := by
  unfold Binary64.Canonical
  infer_instance

/-- A double precision number.  In the finite case the value is `± significand · 2 ^ exponent`. -/
inductive Binary64 where
  /-- Not a number. -/
  | nan
  /-- Positive or negative infinity. -/
  | infinity (negative : Bool)
  /-- A finite number; zero has significand `0` and keeps its sign. -/
  | finite (negative : Bool) (significand : Nat) (exponent : Int)
      (canonical : Binary64.Canonical significand exponent)
deriving DecidableEq

namespace Binary64

/-! ### Parts of a number -/

/-- Zero with the given sign. -/
def zero (negative : Bool) : Binary64 :=
  .finite negative 0 (-1074) (by decide)

instance : Inhabited Binary64 := ⟨zero false⟩

/-- Whether the sign is minus; *not a number* has no sign. -/
def isNegative : Binary64 → Bool
  | .nan => false
  | .infinity negative => negative
  | .finite negative _ _ _ => negative

/-- Whether this is *not a number*. -/
def isNaN : Binary64 → Bool
  | .nan => true
  | _ => false

/-- Whether this is neither an infinity nor *not a number*. -/
def isFinite : Binary64 → Bool
  | .finite .. => true
  | _ => false

/-- The exact magnitude of a finite number, and `0` for the others. -/
def magnitude : Binary64 → Rat
  | .finite _ m e _ => (m : Rat) * 2 ^ e
  | _ => 0

/-- The exact value of a finite number, and `0` for the others. -/
def toRat (x : Binary64) : Rat :=
  if x.isNegative then -x.magnitude else x.magnitude

/-! ### The nearest double -/

/-- The exponent of the largest power of two that does not exceed the positive rational `q`. -/
def floorLog2 (q : Rat) : Int :=
  let guess : Int := (q.num.natAbs.log2 : Int) - (q.den.log2 : Int)
  if (2 : Rat) ^ guess ≤ q then guess else guess - 1

/-- The exponent of the last significand bit of the doubles around the positive rational `q`. -/
def lastPlace (q : Rat) : Int :=
  max (-1074) (floorLog2 q - 52)

/-- The double of the given sign that is nearest to the magnitude `q ≥ 0`.  A significand that
rounds up to 54 bits moves to the next exponent; an exponent past the greatest is an infinity. -/
def ofMagnitude (negative : Bool) (q : Rat) : Binary64 :=
  if q = 0 then zero negative
  else
    let e := lastPlace q
    let m := (roundHalfEven (q / 2 ^ e)).toNat
    if h : Canonical m e then .finite negative m e h
    else if h : m = twoPow 53 ∧ Canonical (twoPow 52) (e + 1) then
      .finite negative (twoPow 52) (e + 1) h.2
    else .infinity negative

/-- The double nearest to `q`, with `0` for zero. -/
def ofRat (q : Rat) : Binary64 :=
  if q < 0 then ofMagnitude true (-q) else ofMagnitude false q

/-- The double nearest to an integer. -/
def ofInt (n : Int) : Binary64 :=
  ofRat n

/-! ### Arithmetic -/

/-- The same number with the opposite sign. -/
def neg : Binary64 → Binary64
  | .nan => .nan
  | .infinity negative => .infinity (!negative)
  | .finite negative m e h => .finite (!negative) m e h

/-- The same number without its sign. -/
def abs : Binary64 → Binary64
  | .nan => .nan
  | .infinity _ => .infinity false
  | .finite _ m e h => .finite false m e h

/-- The nearest double to the sum.  A sum of zero is negative only if both terms are. -/
def add (x y : Binary64) : Binary64 :=
  match x, y with
  | .nan, _ => .nan
  | _, .nan => .nan
  | .infinity s, .infinity t => if s = t then .infinity s else .nan
  | .infinity s, .finite .. => .infinity s
  | .finite .., .infinity t => .infinity t
  | .finite s _ _ _, .finite t _ _ _ =>
    if x.toRat + y.toRat = 0 then zero (s && t) else ofRat (x.toRat + y.toRat)

/-- The nearest double to the difference. -/
def sub (x y : Binary64) : Binary64 :=
  add x y.neg

/-- The nearest double to the product, with the product of the signs. -/
def mul (x y : Binary64) : Binary64 :=
  match x, y with
  | .nan, _ => .nan
  | _, .nan => .nan
  | .infinity s, .infinity t => .infinity (s != t)
  | .infinity s, .finite t m _ _ => if m = 0 then .nan else .infinity (s != t)
  | .finite s m _ _, .infinity t => if m = 0 then .nan else .infinity (s != t)
  | .finite s _ _ _, .finite t _ _ _ => ofMagnitude (s != t) (x.magnitude * y.magnitude)

/-- The nearest double to the quotient, with the product of the signs.  A nonzero number divided
by zero is an infinity. -/
def div (x y : Binary64) : Binary64 :=
  match x, y with
  | .nan, _ => .nan
  | _, .nan => .nan
  | .infinity _, .infinity _ => .nan
  | .infinity s, .finite t _ _ _ => .infinity (s != t)
  | .finite s _ _ _, .infinity t => zero (s != t)
  | .finite s m _ _, .finite t n _ _ =>
    if n = 0 then (if m = 0 then .nan else .infinity (s != t))
    else ofMagnitude (s != t) (x.magnitude / y.magnitude)

instance : Neg Binary64 := ⟨neg⟩
instance : Add Binary64 := ⟨add⟩
instance : Sub Binary64 := ⟨sub⟩
instance : Mul Binary64 := ⟨mul⟩
instance : Div Binary64 := ⟨div⟩

/-- The sum of a list from left to right, rounded at every step.  It starts from minus zero, the
number that changes nothing it is added to. -/
def sum (xs : List Binary64) : Binary64 :=
  xs.foldl (· + ·) (zero true)

/-! ### Comparison -/

/-- How two numbers compare by value; `none` if one of them is *not a number*. -/
def compare? (x y : Binary64) : Option Ordering :=
  match x, y with
  | .nan, _ => none
  | _, .nan => none
  | .infinity s, .infinity t =>
    some (if s = t then .eq else if s then .lt else .gt)
  | .infinity s, .finite .. => some (if s then .lt else .gt)
  | .finite .., .infinity t => some (if t then .gt else .lt)
  | .finite .., .finite .. =>
    some (if x.toRat < y.toRat then .lt else if x.toRat = y.toRat then .eq else .gt)

/-- `x < y` by value. -/
def lt (x y : Binary64) : Bool :=
  x.compare? y == some .lt

/-- `x ≤ y` by value. -/
def le (x y : Binary64) : Bool :=
  x.lt y || x.compare? y == some .eq

/-- `x = y` by value: zeros of either sign are equal, and *not a number* equals nothing. -/
def eq (x y : Binary64) : Bool :=
  x.compare? y == some .eq

/-- The greater of two numbers, of two equal ones the second; *not a number* yields to the other
one. -/
def maxNum (x y : Binary64) : Binary64 :=
  if y.isNaN || y.lt x then x else y

/-- The lesser of two numbers, of two equal ones the second; *not a number* yields to the other
one. -/
def minNum (x y : Binary64) : Binary64 :=
  if y.isNaN || x.lt y then x else y

/-- The nearest number of the interval from `lo` to `hi`; *not a number* stays. -/
def clamp (x lo hi : Binary64) : Binary64 :=
  if x.lt lo then lo else if hi.lt x then hi else x

/-! ### Integers -/

/-- The nearest integral number, ties to even.  The sign is kept, also when the result is zero. -/
def roundEven : Binary64 → Binary64
  | .finite negative m e h =>
    ofMagnitude negative (roundHalfEven (magnitude (.finite negative m e h)))
  | x => x

/-- The least integral number that is not less.  The sign is kept, also when the result is zero. -/
def ceil : Binary64 → Binary64
  | .finite negative m e h =>
    let q := magnitude (.finite negative m e h)
    ofMagnitude negative (if negative then q.floor else q.ceil)
  | x => x

/-- Whether this is a finite number with an integer value. -/
def isIntegral : Binary64 → Bool
  | .finite negative m e h => (magnitude (.finite negative m e h)).den == 1
  | _ => false

/-- The integer part, brought into the range from `lo` to `hi`; *not a number* counts as zero. -/
def toInt (lo hi : Int) : Binary64 → Int
  | .nan => clampInt lo hi 0
  | .infinity negative => if negative then lo else hi
  | .finite negative m e h =>
    let whole := (magnitude (.finite negative m e h)).floor
    clampInt lo hi (if negative then -whole else whole)

/-- The integer part as a 64-bit integer. -/
def toInt64 (x : Binary64) : Int :=
  x.toInt (signedMin 64) (signedMax 64)

/-! ### Powers of two -/

/-- The power `2 ^ e`; infinite from `2 ^ 1024` on.  A negative power is the reciprocal of the
positive one, so that it is `0` from `2 ^ (-1024)` down. -/
def powerOfTwo (e : Int) : Binary64 :=
  if 0 ≤ e then positivePower e.toNat
  else ofInt 1 / positivePower (-e).toNat
where
  /-- A power with an exponent that is not negative. -/
  positivePower (n : Nat) : Binary64 :=
    if n < 1024 then ofInt (twoPow n) else .infinity false

/-- The exponent of a number whose magnitude is a power of two. -/
def exactLog2 : Binary64 → Option Int
  | .finite _ m e _ => if m ≠ 0 ∧ m = twoPow m.log2 then some (e + m.log2) else none
  | _ => none

/-- Whether the magnitude is a power of two. -/
def isPowerOfTwo (x : Binary64) : Bool :=
  x.exactLog2.isSome

end Binary64

end DyadicNet
