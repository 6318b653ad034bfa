import ExprCompiler.Names.Table
import Mathlib.Data.Fintype.EquivFin
import Mathlib.Data.Nat.ModEq
import Mathlib.Data.Nat.Prime.Basic

/-! The slots that are visited for a name. In a table of prime size they are all slots, each one
once. A search for a name ends at the first slot that holds it, and a search for a free place at
the first slot that was never used.
-/

namespace ExprCompiler

namespace Probe

theorem index_lt (probe : Probe) (notEmpty : 0 < probe.size) (visited : Nat)
    : probe.index visited < probe.size :=
  Nat.mod_lt _ notEmpty

/-- The step of a name is positive and smaller than the size. -/
theorem step_ofName (name : String) {size : Nat} (large : 2 ≤ size)
    : 0 < (ofName name size).step ∧ (ofName name size).step < size := by
  have notSmall : ¬size ≤ 1 := by omega
  have remainder := Nat.mod_lt (polynomialHash 0 65599 name).toNat (show 0 < size - 1 by omega)
  simp only [ofName, notSmall, if_false]
  omega

/-- In a table of prime size no slot is visited twice: the steps between two visits of one slot
would add up to a multiple of the size.
-/
theorem index_injective (name : String) {size first second : Nat} (prime : size.Prime)
    (firstBound : first < size) (secondBound : second < size)
    (same : (ofName name size).index first = (ofName name size).index second)
    : first = second := by
  obtain ⟨positive, small⟩ := step_ofName name prime.two_le
  have coprime : Nat.gcd size (ofName name size).step = 1 :=
    (Nat.Prime.coprime_iff_not_dvd prime).mpr (Nat.not_dvd_of_pos_of_lt positive small)
  have congruent
      : Nat.ModEq size (first * (ofName name size).step) (second * (ofName name size).step) :=
    Nat.ModEq.add_left_cancel' (ofName name size).home same
  exact (congruent.cancel_right_of_coprime coprime).eq_of_lt_of_lt firstBound secondBound

/-- In a table of prime size every slot is visited. -/
theorem exists_index_eq (name : String) {size index : Nat} (prime : size.Prime)
    (bound : index < size)
    : ∃ visited < size, (ofName name size).index visited = index := by
  have visit (visited : Fin size) : (ofName name size).index visited < size :=
    index_lt (ofName name size) prime.pos visited
  have injective : Function.Injective fun visited : Fin size =>
      (⟨(ofName name size).index visited, visit visited⟩ : Fin size) := by
    intro first second same
    exact Fin.ext (index_injective name prime first.isLt second.isLt (Fin.mk.inj same))
  obtain ⟨visited, found⟩ := Finite.surjective_of_injective injective ⟨index, bound⟩
  exact ⟨visited, visited.isLt, Fin.mk.inj found⟩

end Probe

namespace Slots

variable {slots : Array Slot} {name : String} {probe : Probe}

/-- What a search finds is in the slot that it gives and has the name, by induction on the slots
to visit.
-/
theorem getElem?_of_findFrom {visited count index : Nat} {symbol : Symbol}
    (found : findFrom slots name probe visited count = some (index, symbol))
    : slots[index]? = some (.occupied symbol) ∧ symbol.name = name := by
  fun_induction findFrom slots name probe visited count with
  | case1 => cases found
  | case2 visited count symbol present sameName =>
      cases found
      exact ⟨present, sameName⟩
  | case3 _ _ _ _ _ ih => exact ih found
  | case4 _ _ _ ih => exact ih found
  | case5 => cases found
  | case6 => cases found

/-- A search finds what one of the slots to visit holds, if the slots before it are in use for
other names. By induction on the number of those slots.
-/
theorem findFrom_eq_some {visited count target : Nat} {symbol : Symbol}
    (present : slots[probe.index target]? = some (.occupied symbol)) (hasName : symbol.name = name)
    (notBefore : visited ≤ target) (bound : target < visited + count)
    (passes : ∀ between, visited ≤ between → between < target →
      slots[probe.index between]? = some .tombstone
      ∨ ∃ other, slots[probe.index between]? = some (.occupied other) ∧ other.name ≠ name)
    : findFrom slots name probe visited count = some (probe.index target, symbol) := by
  induction count generalizing visited with
  | zero => omega
  | succ count ih =>
      rcases Nat.eq_or_lt_of_le notBefore with rfl | later
      · simp [findFrom, present, hasName]
      · have rest := ih later (by omega) fun between after => passes between (by omega)
        rcases passes visited le_rfl later with tombstone | ⟨other, occupied, otherName⟩
        · simpa [findFrom, tombstone] using rest
        · simpa [findFrom, occupied, otherName] using rest

/-- A search for a free place gives the first slot on the way that was never used, by induction on
the slots to visit.
-/
theorem exists_visited_of_vacancyFrom {visited count index : Nat}
    (found : vacancyFrom slots probe visited count = some index)
    : ∃ target, visited ≤ target ∧ target < visited + count ∧ probe.index target = index
        ∧ slots[index]? = some .empty
        ∧ ∀ between, visited ≤ between → between < target →
            slots[probe.index between]? ≠ some .empty := by
  fun_induction vacancyFrom slots probe visited count with
  | case1 => cases found
  | case2 visited count isEmpty =>
      cases found
      exact ⟨visited, le_rfl, by omega, rfl, isEmpty, by omega⟩
  | case3 visited count inUse ih =>
      obtain ⟨target, after, bound, isIndex, isEmpty, before⟩ := ih found
      refine ⟨target, by omega, by omega, isIndex, isEmpty, ?_⟩
      intro between notBefore less
      rcases Nat.eq_or_lt_of_le notBefore with rfl | later
      · exact inUse
      · exact before between later less

/-- A search for a free place succeeds if one of the slots to visit was never used, by induction
on the slots to visit.
-/
theorem vacancyFrom_isSome {visited count target : Nat} (notBefore : visited ≤ target)
    (bound : target < visited + count) (isEmpty : slots[probe.index target]? = some .empty)
    : (vacancyFrom slots probe visited count).isSome := by
  induction count generalizing visited with
  | zero => omega
  | succ count ih =>
      unfold vacancyFrom
      split
      · rfl
      · next inUse =>
          rcases Nat.eq_or_lt_of_le notBefore with rfl | later
          · exact absurd isEmpty inUse
          · exact ih later (by omega)

end Slots

end ExprCompiler
