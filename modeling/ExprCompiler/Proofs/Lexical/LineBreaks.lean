import Mathlib.Control.Monad.Basic
import ExprCompiler.Proofs.Lexical.Comments

/-! Line breaks between tokens. Main statement: a token is marked exactly if the token before it is
a line break, or a block comment holds one that the same reading has skipped. Comments that a
reading skips before it meets a fault do not count, and only these make the difference to all
comments between two tokens.
-/

namespace ExprCompiler.Scanner

open Lexical (leadingComments)

variable {scanner : Scanner}

/-- The last token that a number of readings gave. -/
def lastToken? (scanner : Scanner) : Nat → Option Token
  | 0 => none
  | count + 1 =>
      match (scanner.after count).next.1 with
      | .ok token => some token
      | .error _ => scanner.lastToken? count

/-- The block comments that were skipped since the last token of a number of readings, each by a
reading that met a fault.
-/
def commentsBeforeFaults (scanner : Scanner) : Nat → List (List UInt8)
  | 0 => []
  | count + 1 =>
      match (scanner.after count).next.1 with
      | .ok _ => []
      | .error _ =>
          scanner.commentsBeforeFaults count ++ leadingComments (scanner.after count).rest

/-- Whether the last token of a number of readings is a line break. -/
def EndsLine (scanner : Scanner) (count : Nat) : Prop :=
  ∃ token, scanner.lastToken? count = some token ∧ token.kind = .endOfLine

/-- Whether a line break lies between the last token of a number of readings and the next one:
that token is a line break, or a block comment between the two holds one.
-/
def FollowsBreak (scanner : Scanner) (count : Nat) : Prop :=
  scanner.EndsLine count
  ∨ ∃ comment ∈ scanner.commentsBeforeFaults count ++ leadingComments (scanner.after count).rest,
      0x0A ∈ comment

/-- One more reading at the end, by induction on their number. -/
theorem after_succ (scanner : Scanner) (count : Nat)
    : scanner.after (count + 1) = (scanner.after count).next.2 := by
  induction count generalizing scanner with
  | zero => rfl
  | succ count ih => exact ih scanner.next.2

/-- What one reading does to the mark that is carried on. -/
theorem next_afterNewline_eq (scanner : Scanner)
    : scanner.next.2.afterNewline
      = match scanner.next.1 with
        | .ok token => decide (token.kind = .endOfLine)
        | .error _ => scanner.afterNewline := by
  rw [next_afterNewline, next_fst]
  cases scanner.run.verdict <;> rfl

/-- The mark that is carried on says whether the last token was a line break, by induction on the
number of readings.
-/
theorem afterNewline_after_iff (unmarked : scanner.afterNewline = false) (count : Nat)
    : (scanner.after count).afterNewline = true ↔ scanner.EndsLine count := by
  induction count with
  | zero => simp [after, unmarked, EndsLine, lastToken?]
  | succ count ih =>
      rw [after_succ, next_afterNewline_eq, EndsLine, lastToken?]
      cases (scanner.after count).next.1 with
      | ok token => simp
      | error error => exact ih

/-- A token is marked if the mark is carried on to it, or if a comment before it holds a line
break.
-/
theorem afterNewline_of_next_eq_ok {token : Token} (reads : scanner.next.1 = .ok token)
    : token.afterNewline = true
      ↔ scanner.afterNewline = true
        ∨ ∃ comment ∈ leadingComments scanner.rest, 0x0A ∈ comment := by
  have sawNewline : scanner.run.lexeme.sawNewline
      = (leadingComments scanner.rest).any (·.contains 0x0A) :=
    Lexical.sawNewline_run_start ..
  rw [next_fst] at reads
  split at reads
  · cases reads
  · cases reads
    simp [sawNewline]

/-- In every scan of every source, a token is marked exactly if the token before it is a line
break, or a block comment that the same reading skips before it holds one. So the mark says
whether a line break lies between the two tokens unless the only one is in a comment before a
fault.
-/
theorem afterNewline_reading (source : List UInt8) (count : Nat) {token : Token}
    (reads : (({ rest := source } : Scanner).after count).next.1 = .ok token)
    : let scanner : Scanner := { rest := source }
      (token.afterNewline = true
        ↔ scanner.EndsLine count
          ∨ ∃ comment ∈ leadingComments (scanner.after count).rest, 0x0A ∈ comment)
      ∧ ((token.afterNewline = true ↔ scanner.FollowsBreak count)
        ↔ ((∃ comment ∈ scanner.commentsBeforeFaults count, 0x0A ∈ comment)
          → token.afterNewline = true)) := by
  intro scanner
  have marked := afterNewline_of_next_eq_ok reads
  rw [afterNewline_after_iff rfl] at marked
  refine ⟨marked, ?_⟩
  have between : scanner.FollowsBreak count
      ↔ (∃ comment ∈ scanner.commentsBeforeFaults count, 0x0A ∈ comment)
        ∨ token.afterNewline = true := by
    rw [marked, FollowsBreak]
    simp only [List.mem_append, or_and_right, exists_or]
    exact or_left_comm
  rw [between]
  constructor
  · intro rule inFault
    exact rule.mpr (.inl inFault)
  · intro condition
    exact ⟨.inr, (Or.elim · condition id)⟩

/-- In `a ? /*⏎*/ b` the fault comes before the comment, and the second name is marked. -/
theorem afterNewline_reading_after_fault
    : let source := Utf8.encode "a ? /*\n*/ b"
      ∃ token, (({ rest := source } : Scanner).after 2).next.1 = .ok token
        ∧ token.afterNewline = true ∧ ({ rest := source } : Scanner).FollowsBreak 2 := by
  intro source
  have reads : (({ rest := source } : Scanner).after 2).next.1
      = .ok { kind := .identifier "b", afterNewline := true, location := ⟨2, 4⟩ } := by
    decide +kernel
  obtain ⟨-, rule⟩ := afterNewline_reading source 2 reads
  exact ⟨_, reads, rfl, (rule.mpr fun _ => rfl).mp rfl⟩

/-- In `a /*⏎*/ ? b` a line break lies between the two names, but the fault at the question mark
forgets it.
-/
theorem afterNewline_reading_forgotten
    : let source := Utf8.encode "a /*\n*/ ? b"
      ∃ token, (({ rest := source } : Scanner).after 2).next.1 = .ok token
        ∧ token.afterNewline = false ∧ ({ rest := source } : Scanner).FollowsBreak 2 := by
  intro source
  refine ⟨{ kind := .identifier "b", location := ⟨2, 6⟩ }, by decide +kernel, rfl, .inr ?_⟩
  refine ⟨Utf8.encode "/*\n*/", ?_, by decide +kernel⟩
  decide +kernel

end ExprCompiler.Scanner
