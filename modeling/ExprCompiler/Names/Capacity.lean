/-! Sizes of symbol tables. They are primes, so that every step from slot to slot visits the
whole table: up to 25229 from a fixed ladder, and found by trial division above it.
-/

namespace ExprCompiler.Capacity

/-- Table sizes, each about twice the one before. -/
def ladder : List Nat :=
  [11, 23, 53, 107, 211, 421, 853, 1699, 3209, 6553, 12409, 25229]

/-- Whether none of the divisors `divisor`, `divisor + 2`, … up to the square root of
`number` divides it.
-/
def hasNoDivisorFrom (number divisor : Nat) : Bool :=
  if number < divisor * divisor then true
  else if number % divisor = 0 then false
  else hasNoDivisorFrom number (divisor + 2)
termination_by number + 2 - divisor
decreasing_by
  have := Nat.le_mul_self divisor
  omega

/-- Whether `number` is prime, by trial division by 2 and by odd numbers. -/
def isPrime (number : Nat) : Bool :=
  if number < 2 then false
  else if number % 2 = 0 then number = 2
  else hasNoDivisorFrom number 3

/-- The first prime among `candidate` and the numbers after it, of which it tries
`attempts`.
-/
def searchPrime (candidate : Nat) : Nat → Nat
  | 0 => candidate
  | attempts + 1 =>
      if isPrime candidate then candidate else searchPrime (candidate + 1) attempts

/-- The least prime that is at least `number`. There is one below twice the number, or 2. -/
def primeFrom (number : Nat) : Nat :=
  let candidate := max number 2
  searchPrime candidate candidate

/-- The size of a table that is to hold `hint` slots: the first of the ladder that suffices,
or else the next prime.
-/
def forHint (hint : Nat) : Nat :=
  (ladder.find? (hint ≤ ·)).getD (primeFrom hint)

/-- The largest size that a 64-bit word can count. -/
def largest : Nat :=
  0xFFFFFFFFFFFFFFFF

/-- The size to grow to: the next of the ladder, and above it the first prime from twice the
size on.
-/
def next (size : Nat) : Nat :=
  (ladder.find? (size < ·)).getD (primeFrom (min (2 * size) largest))

end ExprCompiler.Capacity
