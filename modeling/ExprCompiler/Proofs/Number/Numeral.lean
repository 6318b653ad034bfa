import Mathlib.Data.List.Induction
import Mathlib.Data.List.TakeWhile
import Mathlib.Tactic.Ring

/-! Numerals read from their characters, in any base up to sixteen. Main statements: a written
number reads back, zeros in front of it add nothing, and zeros behind it scale it.
-/

namespace ExprCompiler

/-- The characters before the first separator, and those after it if there is one. -/
def cut (separator : Char) (chars : List Char) : List Char × Option (List Char) :=
  (chars.takeWhile (· ≠ separator), (chars.dropWhile (· ≠ separator)).tail?)

theorem cut_append {separator : Char} {before : List Char} (absent : separator ∉ before)
    (after : List Char)
    : cut separator (before ++ separator :: after) = (before, some after) := by
  have differ : ∀ char ∈ before, decide (char ≠ separator) = true := by
    intro char member
    exact decide_eq_true fun same => absent (same ▸ member)
  unfold cut
  rw [List.takeWhile_append_of_pos differ, List.dropWhile_append_of_pos differ]
  simp

theorem cut_of_not_mem {separator : Char} {chars : List Char} (absent : separator ∉ chars)
    : cut separator chars = (chars, none) := by
  have differ : ∀ char ∈ chars, decide (char ≠ separator) = true := by
    intro char member
    exact decide_eq_true fun same => absent (same ▸ member)
  unfold cut
  rw [List.takeWhile_eq_self_iff.mpr differ, List.dropWhile_eq_nil_iff.mpr differ]
  rfl

/-- The value of a digit. -/
def digit? (base : Nat) (char : Char) : Option Nat :=
  (List.range base).find? fun digit => Nat.digitChar digit = char

/-- The value of digits that follow digits of the value `value`. -/
def digitsAfter? (base value : Nat) (chars : List Char) : Option Nat :=
  chars.foldlM (fun value char => (digit? base char).map (base * value + ·)) value

/-- The value of a numeral, which has at least one digit. -/
def numeral? (base : Nat) (chars : List Char) : Option Nat :=
  if chars.isEmpty then none else digitsAfter? base 0 chars

theorem digit?_digitChar {base digit : Nat} (small : base ≤ 16) (below : digit < base)
    : digit? base (Nat.digitChar digit) = some digit := by
  have all : ∀ base ≤ 16, ∀ digit < base, digit? base (Nat.digitChar digit) = some digit := by
    decide
  exact all base small digit below

theorem digitChar_of_digit? {base digit : Nat} {char : Char}
    (isDigit : digit? base char = some digit)
    : digit < base ∧ Nat.digitChar digit = char := by
  have found := List.find?_some isDigit
  have member := List.mem_of_find?_eq_some isDigit
  exact ⟨List.mem_range.mp member, of_decide_eq_true found⟩

theorem digitsAfter?_append (base value : Nat) (first second : List Char)
    : digitsAfter? base value (first ++ second)
      = (digitsAfter? base value first).bind (digitsAfter? base · second) :=
  List.foldlM_append

/-- Digits that have a value are digits. -/
theorem isSome_digit?_of_mem {base value total : Nat} {chars : List Char} {char : Char}
    (read : digitsAfter? base value chars = some total) (member : char ∈ chars)
    : (digit? base char).isSome = true := by
  induction chars generalizing value with
  | nil => cases member
  | cons first later ih =>
      simp only [digitsAfter?, List.foldlM_cons] at read
      cases isDigit : digit? base first with
      | none => simp [isDigit] at read
      | some digit =>
          rcases List.mem_cons.mp member with rfl | isLater
          · rw [isDigit]
            rfl
          · simp only [isDigit, Option.map_some] at read
            exact ih read isLater

/-- Written digits read back, by induction over the digits from the last one. -/
theorem digitsAfter?_toDigits {base : Nat} (atLeastTwo : 1 < base) (small : base ≤ 16)
    (number : Nat)
    : digitsAfter? base 0 (Nat.toDigits base number) = some number := by
  induction number using Nat.strongRecOn with
  | ind number ih =>
      rcases Nat.lt_or_ge number base with below | above
      · rw [Nat.toDigits_of_lt_base below]
        simp [digitsAfter?, digit?_digitChar small below]
      · have shorter := ih (number / base) (Nat.div_lt_self (by omega) atLeastTwo)
        have lastDigit := digit?_digitChar small (Nat.mod_lt number (by omega))
        rw [Nat.toDigits_of_base_le atLeastTwo above, digitsAfter?_append, shorter]
        simp [digitsAfter?, lastDigit, Nat.div_add_mod]

theorem numeral?_toDigits {base : Nat} (atLeastTwo : 1 < base) (small : base ≤ 16)
    (number : Nat)
    : numeral? base (Nat.toDigits base number) = some number := by
  rw [numeral?, if_neg (by simp)]
  exact digitsAfter?_toDigits atLeastTwo small number

theorem digitsAfter?_zeros {base : Nat} (positive : 0 < base) (small : base ≤ 16)
    (value count : Nat)
    : digitsAfter? base value (List.replicate count '0') = some (value * base ^ count) := by
  have zero : digit? base '0' = some 0 := digit?_digitChar small positive
  induction count generalizing value with
  | zero => simp [digitsAfter?]
  | succ count ih =>
      rw [List.replicate_succ, digitsAfter?, List.foldlM_cons, zero]
      refine (ih (base * value + 0)).trans ?_
      congr 1
      ring

/-- Digits before a numeral scale by its length. -/
theorem digitsAfter?_eq (base value : Nat) (chars : List Char)
    : digitsAfter? base value chars
      = (digitsAfter? base 0 chars).map (value * base ^ chars.length + ·) := by
  induction chars using List.reverseRecOn with
  | nil => simp [digitsAfter?]
  | append_singleton earlier last ih =>
      rw [digitsAfter?_append, digitsAfter?_append, ih]
      cases digitsAfter? base 0 earlier with
      | none => rfl
      | some before =>
          cases isDigit : digit? base last with
          | none => simp [digitsAfter?, isDigit]
          | some digit =>
              simp only [Option.map_some, Option.bind_some, digitsAfter?, List.foldlM_cons,
                List.foldlM_nil, isDigit, List.length_append, List.length_singleton]
              simp only [Option.pure_def, Option.bind_eq_bind, Option.bind_some, Option.map_some,
                Option.some.injEq]
              ring

/-- No digit is one of the characters that stand beside numerals. -/
theorem not_mem_of_digit? {base : Nat} (small : base ≤ 16) {char : Char} {chars : List Char}
    (digits : ∀ digit ∈ chars, (digit? base digit).isSome = true)
    (noDigit : ∀ digit < 16, Nat.digitChar digit ≠ char)
    : char ∉ chars := by
  intro member
  obtain ⟨digit, isDigit⟩ := Option.isSome_iff_exists.mp (digits char member)
  obtain ⟨below, same⟩ := digitChar_of_digit? isDigit
  exact noDigit digit (Nat.lt_of_lt_of_le below small) same

theorem isSome_digit?_toDigits {base : Nat} (atLeastTwo : 1 < base) (small : base ≤ 16)
    (number : Nat)
    : ∀ char ∈ Nat.toDigits base number, (digit? base char).isSome = true :=
  fun _ member => isSome_digit?_of_mem (digitsAfter?_toDigits atLeastTwo small number) member

/-- The value of a decimal numeral that may have a sign. -/
def signed? : List Char → Option Int
  | '-' :: chars => (numeral? 10 chars).map fun value => -(value : Int)
  | '+' :: chars => (numeral? 10 chars).map fun value => (value : Int)
  | chars => (numeral? 10 chars).map fun value => (value : Int)

theorem numeral?_repr (number : Nat) : numeral? 10 (Nat.repr number).toList = some number := by
  rw [Nat.toList_repr]
  exact numeral?_toDigits (by decide) (by decide) number

theorem signed?_minus (number : Nat)
    : signed? ('-' :: (Nat.repr number).toList) = some (-(number : Int)) := by
  rw [signed?, numeral?_repr]
  rfl

theorem signed?_plus (number : Nat)
    : signed? ('+' :: (Nat.repr number).toList) = some (number : Int) := by
  rw [signed?, numeral?_repr]
  rfl

/-- A numeral without a sign starts with a digit, so that it is not taken for a signed one. -/
theorem signed?_repr (number : Nat) : signed? (Nat.repr number).toList = some (number : Int) := by
  have read := numeral?_repr number
  have digits := isSome_digit?_toDigits (by decide) (by decide : 10 ≤ 16) number
  rw [Nat.toList_repr] at read ⊢
  unfold signed?
  split
  · next chars same =>
      rw [same] at digits
      exact absurd (digits '-' List.mem_cons_self) (by decide)
  · next chars same =>
      rw [same] at digits
      exact absurd (digits '+' List.mem_cons_self) (by decide)
  · rw [read]
    rfl

/-- A written integer reads back. -/
theorem signed?_toString (number : Int) : signed? (toString number).toList = some number := by
  cases number with
  | ofNat number => exact signed?_repr number
  | negSucc number =>
      have written : (toString (Int.negSucc number)).toList
          = '-' :: (Nat.repr (number + 1)).toList := by
        change ("-" ++ Nat.repr (number + 1)).toList = _
        rw [String.toList_append]
        rfl
      rw [written, signed?_minus]
      rfl

end ExprCompiler
