import ExprCompiler.Lexical.Lookahead

/-! The tokens that a source hands out one after the other, as a list. -/

namespace ExprCompiler

/-- Reading from a source gives some tokens without a fault, and what is left after them. -/
inductive Reads {Source : Type} [TokenSource Source] : Source → List Token → Source → Prop
  | nil {source : Source}
    : Reads source [] source
  | cons {source next rest : Source} {token : Token} {tokens : List Token}
    (reading : TokenSource.next source = (.ok token, next))
    (following : Reads next tokens rest)
    : Reads source (token :: tokens) rest

/-- A list of tokens hands out its tokens and ends at the last one, by induction on the list. -/
theorem Lookahead.reads_tokens (tokens : List Token) (location : Location)
    : Reads (⟨tokens, location⟩ : Lookahead) tokens
        ⟨[], (tokens.getLast?.map Token.location).getD location⟩ := by
  induction tokens generalizing location with
  | nil => exact .nil
  | cons token tokens ih =>
      have following := ih token.location
      rw [List.getLast?_cons]
      cases last : tokens.getLast? with
      | none =>
          rw [last] at following
          exact .cons rfl following
      | some final =>
          rw [last] at following
          exact .cons rfl following

end ExprCompiler
