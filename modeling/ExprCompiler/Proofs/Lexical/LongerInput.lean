import ExprCompiler.Proofs.Lexical.Comments

/-! Reading from a longer input. Main statement: a token that was not ended by the end of input is
read in the same way if more bytes follow.
-/

namespace ExprCompiler

namespace Lexical

/-- The end of input is never a line break, in any state. -/
theorem atEnd_verdict_ne (state : State) (lexeme : Lexeme) (here : Location)
    : (state.atEnd lexeme here).verdict ≠ .ok .endOfLine := by
  cases state with
  | pending unfinished =>
      intro isBreak
      have ends := unfinished.endsInToken_verdict lexeme
      have verdict : (State.atEnd (.pending unfinished) lexeme here).verdict
          = unfinished.verdict lexeme := rfl
      rw [← verdict, isBreak] at ends
      exact ends.1 rfl
  | start | lineComment | blockComment phase | string phase => nofun

/-- A run that ends before the end of input, or at a line break, leaves what follows unread. By
induction on the bytes: a byte decides without those after it.
-/
theorem run_append {state : State} {lexeme : Lexeme} {here : Location} {bytes : List UInt8}
    (short : (run state lexeme here bytes).rest ≠ []
      ∨ (run state lexeme here bytes).verdict = .ok .endOfLine)
    (more : List UInt8)
    : run state lexeme here (bytes ++ more)
      = { run state lexeme here bytes with
          rest := (run state lexeme here bytes).rest ++ more } := by
  induction bytes generalizing state lexeme here with
  | nil =>
      rcases short with left | isBreak
      · exact absurd rfl left
      · exact absurd isBreak (atEnd_verdict_ne state lexeme here)
  | cons byte rest ih =>
      rw [List.cons_append, run]
      rw [run] at short ⊢
      cases step : state.step lexeme here byte with
      | next following grown =>
          rw [step] at short
          exact ih short
      | done ending => cases unread : ending.unread <;> simp [unread]

end Lexical

namespace Scanner

/-- A scanner with more bytes after those that it has. -/
def followedBy (scanner : Scanner) (more : List UInt8) : Scanner :=
  { scanner with rest := scanner.rest ++ more }

/-- Whether the end of input may have ended the last token: nothing is left, and the last token was
no line break.
-/
def sawEnd (scanner : Scanner) : Bool :=
  scanner.rest.isEmpty && !scanner.afterNewline

/-- After the end of input there is nothing but the end of file. -/
theorem sawEnd_next {scanner : Scanner} (ended : scanner.sawEnd = true)
    : scanner.next.2.sawEnd = true := by
  simp only [sawEnd, Bool.and_eq_true, List.isEmpty_iff] at ended
  simp [sawEnd, next, ended.1, Lexical.run, Lexical.State.atEnd]

/-- A token that the end of input did not end is read in the same way before more bytes. -/
theorem next_followedBy {scanner after : Scanner} {token : Token}
    (reading : scanner.next = (.ok token, after)) (short : after.sawEnd = false)
    (more : List UInt8)
    : (scanner.followedBy more).next = (.ok token, after.followedBy more) := by
  have isShort : scanner.run.rest ≠ [] ∨ scanner.run.verdict = .ok .endOfLine := by
    have isAfter : scanner.next.2 = after := congrArg Prod.snd reading
    have isToken : scanner.next.1 = .ok token := congrArg Prod.fst reading
    rw [← isAfter, sawEnd, next_rest, next_afterNewline] at short
    rw [next_fst] at isToken
    cases verdict : scanner.run.verdict with
    | error fault => simp [verdict] at isToken
    | ok kind =>
        by_cases isBreak : kind = .endOfLine
        · exact .inr (congrArg _ isBreak)
        · refine .inl fun nothing => ?_
          rw [← run, nothing] at short
          simp [verdict, isBreak] at short
  have longer := Lexical.run_append isShort more
  unfold next at reading ⊢
  simp only [followedBy, longer]
  generalize Lexical.run .start scanner.lexeme.reset scanner.location scanner.rest = ended
    at reading ⊢
  dsimp only at reading
  split at reading
  · cases reading
  · cases reading
    simp_all

end Scanner

end ExprCompiler
