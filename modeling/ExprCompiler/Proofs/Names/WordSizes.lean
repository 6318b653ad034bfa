import ExprCompiler.Proofs.Names.PrimeSizes

/-! Finding the sizes of symbol tables with the numbers that a word can count. Here the searches
have no count of steps to take, and fail as soon as a number gets too large. Main statement: from
every size up to `2 ^ 61` they find the least prime that is asked for, without any number too large.
-/

namespace ExprCompiler.Capacity

/-- Trial division by `divisor`, `divisor + 2`, … up to the square root of `number`. It fails where
a square or a divisor is too large for a word, and so it ends.
-/
def hasNoDivisorFrom? (number divisor : Nat) : Option Bool :=
  if largest < divisor * divisor then none
  else if number < divisor * divisor then some true
  else if number % divisor = 0 then some false
  else if largest < divisor + 2 then none
  else hasNoDivisorFrom? number (divisor + 2)
termination_by largest - divisor

/-- Whether `number` is prime. -/
def isPrime? (number : Nat) : Option Bool :=
  if number < 2 then some false
  else if number % 2 = 0 then some (number = 2)
  else hasNoDivisorFrom? number 3

/-- Tries `candidate` and the numbers after it, until one is prime or too large for a word. -/
def searchPrime? (candidate : Nat) : Option Nat := do
  if ← isPrime? candidate then
    return candidate
  else if largest < candidate + 1 then
    none
  else
    searchPrime? (candidate + 1)
termination_by largest - candidate

/-- The size of a table that is to hold `hint` slots. -/
def forHint? (hint : Nat) : Option Nat :=
  match ladder.find? (hint ≤ ·) with
  | some size => some size
  | none => searchPrime? (max hint 2)

/-- The size to grow to. Twice the size is cut to what a word can count. -/
def next? (size : Nat) : Option Nat :=
  match ladder.find? (size < ·) with
  | some larger => some larger
  | none => searchPrime? (max (min (2 * size) largest) 2)

/-- No square is too large for a word: while trial division goes on, the divisor stays below the
square root of a number with 63 bits. By induction on the divisors tried.
-/
theorem hasNoDivisorFrom?_eq {number divisor : Nat} (bounded : number < 2 ^ 63)
    (small : divisor < 2 ^ 32)
    : hasNoDivisorFrom? number divisor = some (hasNoDivisorFrom number divisor) := by
  have counted {divisor : Nat} (small : divisor < 2 ^ 32) : ¬ largest < divisor * divisor := by
    have square : divisor * divisor ≤ (2 ^ 32 - 1) * (2 ^ 32 - 1) :=
      Nat.mul_self_le_mul_self (by omega)
    unfold largest
    omega
  fun_induction hasNoDivisorFrom number divisor with
  | case1 divisor tooLarge =>
      rw [hasNoDivisorFrom?, if_neg (counted small), if_pos tooLarge]
  | case2 divisor notTooLarge divides =>
      rw [hasNoDivisorFrom?, if_neg (counted small), if_neg notTooLarge, if_pos divides]
  | case3 divisor notTooLarge notDivides ih =>
      have nextSmall : divisor + 2 < 2 ^ 32 := by
        by_contra large
        have square : (2 ^ 32 - 2) * (2 ^ 32 - 2) ≤ divisor * divisor :=
          Nat.mul_self_le_mul_self (by omega)
        omega
      have nextCounted : ¬ largest < divisor + 2 := by
        unfold largest
        omega
      rw [hasNoDivisorFrom?, if_neg (counted small), if_neg notTooLarge, if_neg notDivides,
        if_neg nextCounted, ih nextSmall]

theorem isPrime?_eq {number : Nat} (bounded : number < 2 ^ 63)
    : isPrime? number = some (isPrime number) := by
  unfold isPrime? isPrime
  rw [hasNoDivisorFrom?_eq bounded (by decide)]
  split
  · rfl
  · split <;> rfl

/-- The search ends at the least prime, if a word counts it. By induction on the distance to it.
-/
theorem searchPrime?_eq {candidate prime : Nat} (bounded : prime < 2 ^ 63)
    (least : IsLeast { prime : Nat | prime.Prime ∧ candidate ≤ prime } prime)
    : searchPrime? candidate = some prime := by
  induction distance : prime - candidate generalizing candidate with
  | zero =>
      obtain rfl : prime = candidate := le_antisymm (Nat.le_of_sub_eq_zero distance) least.1.2
      rw [searchPrime?, isPrime?_eq bounded]
      simp [isPrime_iff.mpr least.1.1]
  | succ distance ih =>
      have notPrime : isPrime candidate = false := by
        rw [← Bool.not_eq_true, isPrime_iff]
        intro candidatePrime
        have atMost := least.2 ⟨candidatePrime, le_rfl⟩
        omega
      have leastFromNext
          : IsLeast { prime : Nat | prime.Prime ∧ candidate + 1 ≤ prime } prime := by
        refine ⟨⟨least.1.1, by omega⟩, fun other larger => ?_⟩
        exact least.2 ⟨larger.1, Nat.le_of_succ_le larger.2⟩
      have nextCounted : ¬ largest < candidate + 1 := by
        unfold largest
        omega
      rw [searchPrime?, isPrime?_eq (by omega)]
      simp only [Option.bind_eq_bind, Option.bind_some, notPrime, if_neg nextCounted,
        Bool.false_eq_true, if_false]
      exact ih leastFromNext (by omega)

/-- The prime that is found is below twice the number, so that a word counts it. -/
theorem primeFrom_lt {number : Nat} (bounded : number ≤ 2 ^ 62) : primeFrom number < 2 ^ 63 := by
  obtain ⟨prime, isPrime, above, below⟩ :=
    Nat.exists_prime_lt_and_le_two_mul (max number 2) (by omega)
  have notTwice : prime ≠ 2 ^ 63 := by
    rintro rfl
    exact absurd isPrime (Nat.Prime.not_prime_pow (by decide))
  have least := (isLeast_primeFrom number).2 ⟨isPrime, above.le⟩
  omega

theorem searchPrime?_primeFrom {number : Nat} (bounded : number ≤ 2 ^ 62)
    : searchPrime? (max number 2) = some (primeFrom number) :=
  searchPrime?_eq (primeFrom_lt bounded) (isLeast_primeFrom number)

/-- The first size of the ladder that passes a test is the least one, as the ladder goes up. -/
theorem isLeast_of_find?_ladder {test : Nat → Bool} {size : Nat}
    (found : ladder.find? test = some size)
    : IsLeast { size | size ∈ ladder ∧ test size } size := by
  refine ⟨⟨List.mem_of_find?_eq_some found, List.find?_some found⟩, ?_⟩
  rintro other ⟨onLadder, passes⟩
  obtain ⟨_, before, after, split, refused⟩ := List.find?_eq_some_iff_append.mp found
  have ascending : ladder.Pairwise (· < ·) := by decide
  rw [split] at onLadder ascending
  rcases List.mem_append.mp onLadder with isBefore | isFromHere
  · exact absurd passes (by simpa using refused other isBefore)
  · rcases List.mem_cons.mp isFromHere with rfl | isAfter
    · exact le_rfl
    · exact (List.rel_of_pairwise_cons (List.pairwise_append.mp ascending).2.1 isAfter).le

/-- What is asked of the size to grow to: it is the least prime of the ladder above the size, and
beyond the ladder the least prime from twice the size on.
-/
structure IsNextSize (size result : Nat) : Prop where
  prime : result.Prime
  larger : size < result
  onLadder : size < 25229 → IsLeast { prime | prime ∈ ladder ∧ size < prime } result
  beyond : 25229 ≤ size → IsLeast { prime : Nat | prime.Prime ∧ 2 * size ≤ prime } result

/-- What is asked of the size of a new table: it is the least prime of the ladder from the hint on,
and beyond the ladder the least prime from the hint on.
-/
structure IsHintSize (hint result : Nat) : Prop where
  prime : result.Prime
  onLadder : hint ≤ 25229 → IsLeast { prime | prime ∈ ladder ∧ hint ≤ prime } result
  beyond : 25229 < hint → IsLeast { prime : Nat | prime.Prime ∧ hint ≤ prime } result

theorem le_of_mem_ladder {size : Nat} (onLadder : size ∈ ladder) : size ≤ 25229 := by
  have all : ∀ size ∈ ladder, size ≤ 25229 := by decide
  exact all size onLadder

theorem isHintSize_forHint {hint : Nat} (bounded : hint ≤ 2 ^ 62)
    : forHint? hint = some (forHint hint) ∧ IsHintSize hint (forHint hint) := by
  have prime := prime_forHint hint
  unfold forHint? forHint at *
  cases found : ladder.find? (hint ≤ ·) with
  | some size =>
      have least : IsLeast { prime | prime ∈ ladder ∧ hint ≤ prime } size := by
        simpa using isLeast_of_find?_ladder found
      have atMost := le_of_mem_ladder least.1.1
      have atLeast := least.1.2
      rw [found] at prime
      exact ⟨rfl, prime, fun _ => least, fun beyond => by omega⟩
  | none =>
      have beyond : 25229 < hint := by simpa using List.find?_eq_none.mp found 25229 (by decide)
      have least := isLeast_primeFrom hint
      rw [max_eq_left (by omega)] at least
      rw [found] at prime
      exact ⟨searchPrime?_primeFrom bounded, prime, fun _ => by omega, fun _ => least⟩

theorem isNextSize_next {size : Nat} (bounded : size ≤ 2 ^ 61)
    : next? size = some (next size) ∧ IsNextSize size (next size) := by
  have prime := prime_next size
  have counted : min (2 * size) largest = 2 * size := by
    unfold largest
    omega
  unfold next? next at *
  rw [counted] at prime ⊢
  cases found : ladder.find? (size < ·) with
  | some larger =>
      have least : IsLeast { prime | prime ∈ ladder ∧ size < prime } larger := by
        simpa using isLeast_of_find?_ladder found
      have atMost := le_of_mem_ladder least.1.1
      have increases := least.1.2
      rw [found] at prime
      exact ⟨rfl, prime, increases, fun _ => least, fun beyond => by omega⟩
  | none =>
      have beyond : 25229 ≤ size := by simpa using List.find?_eq_none.mp found 25229 (by decide)
      have least := isLeast_primeFrom (2 * size)
      rw [max_eq_left (by omega)] at least
      have doubles := least.1.2
      rw [found] at prime
      exact ⟨searchPrime?_primeFrom (by omega), prime, by simp only [Option.getD_none]; omega,
        fun _ => by omega, fun _ => least⟩

/-- Up to `2 ^ 61` both searches end, count nothing that a word cannot, and find the prime that is
asked for.
-/
theorem sizes_least_primes (number : Nat) (bounded : number ≤ 2 ^ 61)
    : (next? number = some (next number) ∧ IsNextSize number (next number))
      ∧ forHint? number = some (forHint number) ∧ IsHintSize number (forHint number) :=
  ⟨isNextSize_next bounded, isHintSize_forHint (by omega)⟩

/-- Where the ladder ends, a new table still gets its last size, and a table of that size grows to
the first prime from twice the size on.
-/
theorem sizes_least_primes_ladderEnd
    : 25229 ≤ 2 ^ 61 ∧ next? 25229 = some 50459 ∧ forHint? 25229 = some 25229 := by
  obtain ⟨⟨grows, isNext⟩, fits, isHint⟩ := sizes_least_primes 25229 (by decide)
  have least := isNext.beyond le_rfl
  have atMost : next 25229 ≤ 50459 := least.2 ⟨by norm_num, by decide⟩
  have notTwice : next 25229 ≠ 2 * 25229 := fun same =>
    Nat.not_prime_mul (by decide) (by decide) (same ▸ least.1.1)
  have doubles := least.1.2
  have nextSize : next 25229 = 50459 := by omega
  have hintSize : forHint 25229 = 25229 :=
    le_antisymm ((isHint.onLadder le_rfl).2 ⟨by decide, le_rfl⟩) (isHint.onLadder le_rfl).1.2
  exact ⟨by decide, by rw [grows, nextSize], by rw [fits, hintSize]⟩

end ExprCompiler.Capacity
