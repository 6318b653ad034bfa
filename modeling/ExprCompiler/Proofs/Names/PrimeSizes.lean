import ExprCompiler.Names.Capacity
import Mathlib.NumberTheory.Bertrand

/-! The sizes of symbol tables are primes, and each is larger than the one before by at least
two. Trial division finds primes, and the search for the next one ends by Bertrand's postulate.
-/

namespace ExprCompiler.Capacity

/-- Trial division from some divisor on finds no divisor up to the square root, by induction on
the divisors tried.
-/
theorem hasNoDivisorFrom_iff {number divisor : Nat}
    : hasNoDivisorFrom number divisor = true
      ↔ ∀ further, (divisor + 2 * further) * (divisor + 2 * further) ≤ number →
          ¬divisor + 2 * further ∣ number := by
  fun_induction hasNoDivisorFrom number divisor with
  | case1 divisor tooLarge =>
      refine iff_of_true rfl fun further small => ?_
      have larger : divisor * divisor ≤ (divisor + 2 * further) * (divisor + 2 * further) :=
        Nat.mul_self_le_mul_self (Nat.le_add_right _ _)
      omega
  | case2 divisor small divides =>
      refine iff_of_false (by simp) fun noDivisor => ?_
      exact noDivisor 0 (by simpa using small) (Nat.dvd_of_mod_eq_zero divides)
  | case3 divisor small notDivides ih =>
      rw [ih]
      constructor
      · intro noDivisor further
        cases further with
        | zero => exact fun _ divides => notDivides (Nat.mod_eq_zero_of_dvd divides)
        | succ further =>
            have next : divisor + 2 * (further + 1) = divisor + 2 + 2 * further := by ring
            rw [next]
            exact noDivisor further
      · intro noDivisor further
        have next : divisor + 2 + 2 * further = divisor + 2 * (further + 1) := by ring
        rw [next]
        exact noDivisor (further + 1)

/-- Trial division decides primality. An odd number has no even divisor, so the odd ones from 3
on are all that has to be tried.
-/
theorem isPrime_iff {number : Nat} : isPrime number = true ↔ number.Prime := by
  unfold isPrime
  split
  · next small => exact iff_of_false (by simp) fun prime => by have := prime.two_le; omega
  · next large =>
      split
      · next even =>
          rw [decide_eq_true_iff]
          constructor
          · rintro rfl
            exact Nat.prime_two
          · intro prime
            exact ((Nat.prime_dvd_prime_iff_eq Nat.prime_two prime).mp
              (Nat.dvd_of_mod_eq_zero even)).symm
      · next odd =>
          rw [hasNoDivisorFrom_iff, Nat.prime_def_le_sqrt]
          constructor
          · intro noDivisor
            refine ⟨by omega, fun divisor atLeastTwo belowRoot divides => ?_⟩
            have oddDivisor : divisor % 2 ≠ 0 := by
              intro evenDivisor
              have even := (Nat.dvd_of_mod_eq_zero evenDivisor).trans divides
              omega
            obtain ⟨further, rfl⟩ : ∃ further, divisor = 3 + 2 * further :=
              ⟨(divisor - 3) / 2, by omega⟩
            exact noDivisor further (Nat.le_sqrt.mp belowRoot) divides
          · rintro ⟨_, noDivisor⟩ further belowRoot
            exact noDivisor _ (by omega) (Nat.le_sqrt.mpr belowRoot)

/-- The search finds the least prime from its first candidate on, if there is one among those it
tries. By induction on their number.
-/
theorem isLeast_searchPrime {candidate attempts prime : Nat} (isPrime : prime.Prime)
    (above : candidate ≤ prime) (tried : prime < candidate + attempts)
    : IsLeast { prime : Nat | prime.Prime ∧ candidate ≤ prime }
        (searchPrime candidate attempts) := by
  induction attempts generalizing candidate with
  | zero => omega
  | succ attempts ih =>
      unfold searchPrime
      split
      · next found => exact ⟨⟨isPrime_iff.mp found, le_rfl⟩, fun _ larger => larger.2⟩
      · next notPrime =>
          have notHere {other : Nat} (otherPrime : other.Prime) (atLeast : candidate ≤ other)
              : candidate + 1 ≤ other := by
            refine Nat.lt_of_le_of_ne atLeast ?_
            rintro rfl
            exact notPrime (isPrime_iff.mpr otherPrime)
          obtain ⟨⟨found, atLeast⟩, least⟩ := ih (notHere isPrime above) (by omega)
          exact ⟨⟨found, by omega⟩, fun other larger =>
            least ⟨larger.1, notHere larger.1 larger.2⟩⟩

/-- The search for the next prime finds it: by Bertrand's postulate there is one below twice the
first candidate.
-/
theorem isLeast_primeFrom (number : Nat)
    : IsLeast { prime : Nat | prime.Prime ∧ max number 2 ≤ prime } (primeFrom number) := by
  have positive : max number 2 ≠ 0 := by omega
  obtain ⟨prime, isPrime, above, below⟩ :=
    Nat.exists_prime_lt_and_le_two_mul (max number 2) positive
  have notTwice : prime ≠ 2 * max number 2 := by
    rintro rfl
    have two := (Nat.prime_dvd_prime_iff_eq Nat.prime_two isPrime).mp (Nat.dvd_mul_right 2 _)
    omega
  exact isLeast_searchPrime isPrime above.le (by omega)

theorem primeFrom_spec (number : Nat) : (primeFrom number).Prime ∧ number ≤ primeFrom number :=
  ⟨(isLeast_primeFrom number).1.1, (le_max_left _ _).trans (isLeast_primeFrom number).1.2⟩

theorem prime_of_mem_ladder {size : Nat} (onLadder : size ∈ ladder) : size.Prime := by
  fin_cases onLadder <;> norm_num

theorem prime_forHint (hint : Nat) : (forHint hint).Prime := by
  unfold forHint
  cases found : ladder.find? (hint ≤ ·) with
  | some size => exact prime_of_mem_ladder (List.mem_of_find?_eq_some found)
  | none => exact (primeFrom_spec hint).1

theorem prime_next (size : Nat) : (next size).Prime := by
  unfold next
  cases found : ladder.find? (size < ·) with
  | some larger => exact prime_of_mem_ladder (List.mem_of_find?_eq_some found)
  | none => exact (primeFrom_spec _).1

/-- A table does not shrink, unless it has more slots than a word can count. -/
theorem min_largest_le_next (size : Nat) : min size largest ≤ next size := by
  unfold next
  cases found : ladder.find? (size < ·) with
  | some larger =>
      have increases : size < larger := by simpa using List.find?_some found
      simp only [Option.getD_some]
      omega
  | none =>
      have doubles := (primeFrom_spec (min (2 * size) largest)).2
      simp only [Option.getD_none]
      omega

/-- A table grows by at least two slots, as long as a word can count them. Of two odd primes one
cannot follow the other directly.
-/
theorem add_two_le_next {size : Nat} (isPrime : size.Prime) (bounded : size < 2 ^ 63)
    : size + 2 ≤ next size := by
  have atLeastTwo := isPrime.two_le
  unfold next
  cases found : ladder.find? (size < ·) with
  | some larger =>
      have increases : size < larger := by simpa using List.find?_some found
      have onLadder := List.mem_of_find?_eq_some found
      have large : ∀ size ∈ ladder, 11 ≤ size := by decide
      have atLeast := large larger onLadder
      have parity := isPrime.eq_two_or_odd
      have nextParity := (prime_of_mem_ladder onLadder).eq_two_or_odd
      simp only [Option.getD_some]
      omega
  | none =>
      have doubles := (primeFrom_spec (min (2 * size) largest)).2
      have counted : 2 * size ≤ largest := by
        unfold largest
        omega
      simp only [Option.getD_none]
      omega

end ExprCompiler.Capacity
