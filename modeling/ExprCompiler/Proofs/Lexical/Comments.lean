import ExprCompiler.Proofs.Lexical.Resumption

/-! Block comments by a rule of their own: read from left to right, a slash and a star open one and
a star and a slash close one, and each byte is used once. Main statement: the automaton skips the
comments that the rule finds before a token, and has seen a line break exactly if one of them holds
one.
-/

namespace ExprCompiler.Lexical

/-- Splits bytes inside of block comments, of which `depth` are open, after the end of the
outermost one. There may be none.
-/
def closeComment? (depth : UInt32) : List UInt8 → Option (List UInt8 × List UInt8)
  | [] => none
  | [_] => none
  | first :: second :: rest =>
      if first = 0x2A ∧ second = 0x2F then
        if depth = 1 then some ([first, second], rest)
        else (closeComment? (depth - 1) rest).map fun split => ([first, second] ++ split.1, split.2)
      else if first = 0x2F ∧ second = 0x2A then
        (closeComment? (depth + 1) rest).map fun split => ([first, second] ++ split.1, split.2)
      else (closeComment? depth (second :: rest)).map fun split => ([first] ++ split.1, split.2)

/-- Closing a comment splits the bytes, by induction on them. -/
theorem append_of_closeComment? {depth : UInt32} {bytes comment later : List UInt8}
    (closes : closeComment? depth bytes = some (comment, later))
    : comment ++ later = bytes := by
  fun_induction closeComment? depth bytes generalizing comment with
  | case1 | case2 => cases closes
  | case3 =>
      cases closes
      rfl
  | case4 depth _ _ rest _ _ ih | case5 depth _ _ rest _ _ ih | case6 depth _ _ rest _ _ ih =>
      obtain ⟨⟨inner, after⟩, split, same⟩ := Option.map_eq_some_iff.mp closes
      cases same
      simpa using ih split

/-- The block comments that stand, among blanks, before the first token of some bytes. The last
one may have no end.
-/
def leadingComments (bytes : List UInt8) : List (List UInt8) :=
  match bytes with
  | [] => []
  | [_] => []
  | first :: second :: rest =>
      if isBlank first then leadingComments (second :: rest)
      else if first = 0x2F ∧ second = 0x2A then
        match _closes : closeComment? 1 rest with
        | some (comment, later) => ([first, second] ++ comment) :: leadingComments later
        | none => [first :: second :: rest]
      else []
termination_by bytes.length
decreasing_by
  · simp
  · have split := congrArg List.length (append_of_closeComment? _closes)
    simp only [List.length_append, List.length_cons] at split ⊢
    omega

-----------------------------------------------------------------------------------------
-- The automaton in a comment
-----------------------------------------------------------------------------------------

theorem ofUInt8_injective : Function.Injective Char.ofUInt8 := by
  intro first second same
  have values := congrArg (fun char => char.val.toNat) same
  exact UInt8.toNat_inj.mp values

theorem ofUInt8_eq_star (byte : UInt8) : Char.ofUInt8 byte = '*' ↔ byte = 0x2A :=
  ofUInt8_injective.eq_iff' rfl

theorem ofUInt8_eq_slash (byte : UInt8) : Char.ofUInt8 byte = '/' ↔ byte = 0x2F :=
  ofUInt8_injective.eq_iff' rfl

theorem ofUInt8_eq_newline (byte : UInt8) : Char.ofUInt8 byte = '\n' ↔ byte = 0x0A :=
  ofUInt8_injective.eq_iff' rfl

/-- Where a comment stands after a byte that is not the second of a pair. -/
def CommentPhase.after (byte : UInt8) : CommentPhase :=
  if byte = 0x2A then .star else if byte = 0x2F then .slash else .body

theorem CommentPhase.after_eq_star_iff (byte : UInt8) : after byte = .star ↔ byte = 0x2A := by
  unfold after
  grind

theorem CommentPhase.after_eq_slash_iff (byte : UInt8) : after byte = .slash ↔ byte = 0x2F := by
  unfold after
  grind

/-- Notes whether some bytes of a comment hold a line break. -/
def Lexeme.sawComment (lexeme : Lexeme) (comment : List UInt8) : Lexeme :=
  { lexeme with sawNewline := lexeme.sawNewline || comment.contains 0x0A }

theorem Lexeme.sawComment_append (lexeme : Lexeme) (front back : List UInt8)
    : (lexeme.sawComment front).sawComment back = lexeme.sawComment (front ++ back) := by
  simp [sawComment, Bool.or_assoc]

theorem Lexeme.sawComment_of_not_mem (lexeme : Lexeme) {comment : List UInt8}
    (noBreak : 0x0A ∉ comment)
    : lexeme.sawComment comment = lexeme := by
  simp [sawComment, noBreak]

/-- Bytes without a line break make no difference. -/
theorem Lexeme.sawComment_skip (lexeme : Lexeme) (front back : List UInt8)
    (noBreak : 0x0A ∉ front)
    : lexeme.sawComment (front ++ back) = lexeme.sawComment back := by
  rw [← sawComment_append, lexeme.sawComment_of_not_mem noBreak]

variable {lexeme : Lexeme} {here : Location}

theorem commentBody_eq (lexeme : Lexeme) (byte : UInt8)
    : commentBody lexeme byte
      = .next (.blockComment (.after byte)) (lexeme.sawComment [byte]) := by
  by_cases isStar : byte = 0x2A
  · subst isStar
    rw [lexeme.sawComment_of_not_mem (by decide)]
    rfl
  · by_cases isSlash : byte = 0x2F
    · subst isSlash
      rw [lexeme.sawComment_of_not_mem (by decide)]
      rfl
    · by_cases isBreak : byte = 0x0A
      · subst isBreak
        simp [Lexeme.sawComment, commentBody, CommentPhase.after]
        rfl
      · have other : CommentPhase.after byte = .body := by
          rw [CommentPhase.after, if_neg isStar, if_neg isSlash]
        rw [lexeme.sawComment_of_not_mem (by simpa using Ne.symm isBreak), other]
        unfold commentBody
        split
        · next char => exact absurd ((ofUInt8_eq_star byte).mp char) isStar
        · next char => exact absurd ((ofUInt8_eq_slash byte).mp char) isSlash
        · next char => exact absurd ((ofUInt8_eq_newline byte).mp char) isBreak
        · rfl

/-- A byte that does not complete a pair is read as if no pair had begun. -/
theorem CommentPhase.step_eq_commentBody {phase : CommentPhase} {byte : UInt8}
    (notClosing : ¬(phase = .star ∧ byte = 0x2F)) (notOpening : ¬(phase = .slash ∧ byte = 0x2A))
    : phase.step lexeme byte = commentBody lexeme byte := by
  unfold CommentPhase.step
  split
  · next char => exact absurd ⟨rfl, (ofUInt8_eq_slash byte).mp char⟩ notClosing
  · next char => exact absurd ⟨rfl, (ofUInt8_eq_star byte).mp char⟩ notOpening
  · rfl

theorem State.step_blockComment (phase : CommentPhase) (lexeme : Lexeme) (here : Location)
    (byte : UInt8)
    : State.step (.blockComment phase) lexeme here byte = phase.step lexeme byte :=
  rfl

/-- Whether a byte completes a pair does not matter before any other byte. -/
theorem run_after_eq_run_body {first second : UInt8} {rest : List UInt8}
    (notClosing : ¬(first = 0x2A ∧ second = 0x2F)) (notOpening : ¬(first = 0x2F ∧ second = 0x2A))
    : run (.blockComment (.after first)) lexeme here (second :: rest)
      = run (.blockComment .body) lexeme here (second :: rest) := by
  rw [← CommentPhase.after_eq_star_iff] at notClosing
  rw [← CommentPhase.after_eq_slash_iff] at notOpening
  rw [run, run, State.step_blockComment, State.step_blockComment,
    CommentPhase.step_eq_commentBody notClosing notOpening,
    CommentPhase.step_eq_commentBody (by simp) (by simp)]

theorem run_body_cons (lexeme : Lexeme) (here : Location) (byte : UInt8) (rest : List UInt8)
    : run (.blockComment .body) lexeme here (byte :: rest)
      = run (.blockComment (.after byte)) (lexeme.sawComment [byte]) (here.advance byte) rest := by
  rw [run, State.step_blockComment, CommentPhase.step_eq_commentBody (by simp) (by simp),
    commentBody_eq]

/-- A star and a slash close a comment. -/
theorem run_body_close (lexeme : Lexeme) (here : Location) (rest : List UInt8)
    : run (.blockComment .body) lexeme here (0x2A :: 0x2F :: rest)
      = run (if lexeme.depth = 1 then .start else .blockComment .body)
          { lexeme with depth := lexeme.depth - 1 } (here.afterBytes [0x2A, 0x2F]) rest := by
  have outermost : lexeme.depth - 1 = 0 ↔ lexeme.depth = 1 := by
    rw [UInt32.sub_eq_iff_eq_add, UInt32.zero_add]
  rw [run_body_cons, lexeme.sawComment_of_not_mem (by decide)]
  simp only [← outermost]
  rfl

theorem run_body_open (lexeme : Lexeme) (here : Location) (rest : List UInt8)
    : run (.blockComment .body) lexeme here (0x2F :: 0x2A :: rest)
      = run (.blockComment .body) { lexeme with depth := lexeme.depth + 1 }
          (here.afterBytes [0x2F, 0x2A]) rest := by
  rw [run_body_cons, lexeme.sawComment_of_not_mem (by decide)]
  rfl

/-- The automaton goes on right after the end of a comment, by induction on its bytes. -/
theorem run_body_of_closes {depth : UInt32} {bytes comment later : List UInt8}
    (closes : closeComment? depth bytes = some (comment, later)) (isDepth : lexeme.depth = depth)
    : run (.blockComment .body) lexeme here bytes
      = run .start { lexeme.sawComment comment with depth := 0 } (here.afterBytes comment)
          later := by
  fun_induction closeComment? depth bytes generalizing lexeme here comment with
  | case1 | case2 => cases closes
  | case3 first second rest isClose =>
      obtain ⟨rfl, rfl⟩ := isClose
      cases closes
      rw [run_body_close, if_pos isDepth, isDepth, lexeme.sawComment_of_not_mem (by decide)]
      rfl
  | case4 depth first second rest isClose inner ih =>
      obtain ⟨rfl, rfl⟩ := isClose
      obtain ⟨⟨comment, later⟩, closesInner, same⟩ := Option.map_eq_some_iff.mp closes
      cases same
      rw [run_body_close, if_neg (isDepth ▸ inner), ih closesInner (congrArg (· - 1) isDepth),
        lexeme.sawComment_skip _ _ (by decide)]
      rfl
  | case5 depth first second rest _ isOpen ih =>
      obtain ⟨rfl, rfl⟩ := isOpen
      obtain ⟨⟨comment, later⟩, closesInner, same⟩ := Option.map_eq_some_iff.mp closes
      cases same
      rw [run_body_open, ih closesInner (congrArg (· + 1) isDepth),
        lexeme.sawComment_skip _ _ (by decide)]
      rfl
  | case6 depth first second rest notClosing notOpening ih =>
      obtain ⟨⟨comment, later⟩, closesLater, same⟩ := Option.map_eq_some_iff.mp closes
      cases same
      rw [run_body_cons, run_after_eq_run_body notClosing notOpening, ← lexeme.sawComment_append]
      exact ih closesLater isDepth

/-- Without an end of the comment the automaton reaches the end of input, by induction on the
bytes.
-/
theorem run_body_of_open (lexeme : Lexeme) (here : Location) {depth : UInt32} {bytes : List UInt8}
    (isOpen : closeComment? depth bytes = none) (isDepth : lexeme.depth = depth)
    : ∃ lastDepth,
        run (.blockComment .body) lexeme here bytes
          = {
              verdict := .ok .endOfFile
              lexeme :=
                { lexeme.sawComment bytes with
                  depth := lastDepth, start := here.afterBytes bytes }
              stoppedAt := here.afterBytes bytes
              rest := []
              next := here.afterBytes bytes
              leftCommentOpen := true } := by
  fun_induction closeComment? depth bytes generalizing lexeme here with
  | case1 => exact ⟨lexeme.depth, by rw [lexeme.sawComment_of_not_mem (by decide)]; rfl⟩
  | case2 byte => exact ⟨lexeme.depth, by rw [run_body_cons]; rfl⟩
  | case3 => cases isOpen
  | case4 depth first second rest isClose inner ih =>
      obtain ⟨rfl, rfl⟩ := isClose
      have same : lexeme.sawComment (0x2A :: 0x2F :: rest) = lexeme.sawComment rest :=
        lexeme.sawComment_skip [0x2A, 0x2F] rest (by decide)
      rw [run_body_close, if_neg (isDepth ▸ inner), same]
      exact ih _ _ (Option.map_eq_none_iff.mp isOpen) (congrArg (· - 1) isDepth)
  | case5 depth first second rest _ opens ih =>
      obtain ⟨rfl, rfl⟩ := opens
      have same : lexeme.sawComment (0x2F :: 0x2A :: rest) = lexeme.sawComment rest :=
        lexeme.sawComment_skip [0x2F, 0x2A] rest (by decide)
      rw [run_body_open, same]
      exact ih _ _ (Option.map_eq_none_iff.mp isOpen) (congrArg (· + 1) isDepth)
  | case6 depth first second rest notClosing notOpening ih =>
      have same : lexeme.sawComment (first :: second :: rest)
          = (lexeme.sawComment [first]).sawComment (second :: rest) :=
        (lexeme.sawComment_append [first] _).symm
      rw [run_body_cons, run_after_eq_run_body notClosing notOpening, same]
      exact ih _ _ (Option.map_eq_none_iff.mp isOpen) isDepth

-----------------------------------------------------------------------------------------
-- The automaton elsewhere
-----------------------------------------------------------------------------------------

/-- Whether a token has begun for sure: a slash may still open a comment. -/
def State.isSettled : State → Bool
  | .start | .lineComment | .blockComment _ | .pending .slash => false
  | .pending _ | .string _ => true

/-- Whether a token that has begun can end so: as neither a line break nor the end of file, and an
open comment is not its fault.
-/
def EndsInToken : Except LexicalFault TokenKind → Prop
  | .ok kind => kind ≠ .endOfLine ∧ kind ≠ .endOfFile
  | .error fault => fault ≠ .unterminatedBlockComment

/-- A lexeme of which more was read: its place and the comments before it are the same. -/
structure Lexeme.Continues (lexeme grown : Lexeme) : Prop where
  start : grown.start = lexeme.start
  sawNewline : grown.sawNewline = lexeme.sawNewline

theorem Lexeme.Continues.rfl {lexeme : Lexeme} : lexeme.Continues lexeme :=
  ⟨Eq.refl _, Eq.refl _⟩

theorem Lexeme.Continues.trans {first second third : Lexeme} (earlier : first.Continues second)
    (later : second.Continues third)
    : first.Continues third :=
  ⟨later.start.trans earlier.start, later.sawNewline.trans earlier.sawNewline⟩

/-- A step that stays in a token, or ends it. -/
def Step.StaysInToken (lexeme : Lexeme) : Step → Prop
  | .next state grown => state.isSettled = true ∧ lexeme.Continues grown
  | .done ending => EndsInToken ending.verdict ∧ lexeme.Continues ending.lexeme

theorem Pending.endsInToken_verdict (pending : Pending) (lexeme : Lexeme)
    : EndsInToken (pending.verdict lexeme) := by
  cases pending with
  | name =>
      simp only [Pending.verdict, nameToken, Lexeme.take]
      split
      · simp [EndsInToken]
      · split <;> simp [EndsInToken]
  | integer =>
      simp only [Pending.verdict, integerVerdict]
      split <;> simp [EndsInToken]
  | fraction | exponent =>
      simp only [Pending.verdict, doubleVerdict]
      split <;> simp [EndsInToken]
  | less | greater | bang | question | assign | minus | slash | underscore | point
  | exponentMark | exponentSign | emptyString => simp [Pending.verdict, EndsInToken]

theorem Pending.continues_ending (pending : Pending) (lexeme : Lexeme)
    : lexeme.Continues (pending.ending lexeme).lexeme := by
  unfold Pending.ending
  dsimp only
  split
  · exact ⟨nameToken_snd_start lexeme, nameToken_snd_sawNewline lexeme⟩
  · exact .rfl

/-- A byte that continues a pending lexeme other than a slash opens no comment. -/
theorem Pending.staysInToken_continued {pending : Pending} (notSlash : pending ≠ .slash)
    {byte : UInt8} {step : Step} (continues : pending.continued? lexeme byte = some step)
    : step.StaysInToken lexeme := by
  cases pending with
  | slash => exact absurd rfl notSlash
  | less | greater | bang | question | assign | minus =>
      simp only [Pending.continued?, extendSign?] at continues
      split at continues
      · cases continues
        exact ⟨by simp [EndsInToken], .rfl⟩
      · cases continues
  | underscore | integer | point | fraction | exponentMark | exponentSign | exponent =>
      simp only [Pending.continued?, Pending.grow] at continues
      grind [Step.StaysInToken, State.isSettled, Lexeme.push, Lexeme.Continues]
  | name =>
      simp only [Pending.continued?, Pending.grow, nilableType?] at continues
      grind [Step.StaysInToken, State.isSettled, Lexeme.push, Step.accept, Lexeme.Continues,
        EndsInToken]
  | emptyString =>
      simp only [Pending.continued?] at continues
      grind [Step.StaysInToken, State.isSettled, Lexeme.Continues]

theorem Pending.staysInToken_step {pending : Pending} (notSlash : pending ≠ .slash)
    (lexeme : Lexeme) (byte : UInt8)
    : (pending.step lexeme byte).StaysInToken lexeme := by
  unfold Pending.step
  cases continues : pending.continued? lexeme byte with
  | none => exact ⟨pending.endsInToken_verdict lexeme, pending.continues_ending lexeme⟩
  | some step => exact Pending.staysInToken_continued notSlash continues

theorem StringForm.isSettled_body (form : StringForm) : form.body.isSettled = true := by
  cases form <;> rfl

theorem staysInToken_singleText (lexeme : Lexeme) (byte : UInt8)
    : (singleText lexeme byte).StaysInToken lexeme := by
  unfold singleText
  split
  · exact ⟨⟨nofun, nofun⟩, rfl, rfl⟩
  · exact ⟨rfl, .rfl⟩
  · split
    · exact ⟨nofun, .rfl⟩
    · exact ⟨rfl, rfl, rfl⟩

theorem staysInToken_multiText (lexeme : Lexeme) (byte : UInt8)
    : (multiText lexeme byte).StaysInToken lexeme := by
  unfold multiText
  split <;> exact ⟨rfl, rfl, rfl⟩

theorem staysInToken_escapeStep (form : StringForm) (lexeme : Lexeme) (byte : UInt8)
    : (escapeStep form lexeme byte).StaysInToken lexeme := by
  unfold escapeStep
  split
  · exact ⟨rfl, .rfl⟩
  · exact ⟨form.isSettled_body, rfl, rfl⟩
  · exact ⟨nofun, .rfl⟩

theorem staysInToken_hexStep (form : StringForm) (lexeme : Lexeme) (byte : UInt8)
    : (hexStep form lexeme byte).StaysInToken lexeme := by
  unfold hexStep
  split
  · split
    · exact ⟨nofun, .rfl⟩
    · exact ⟨rfl, rfl, rfl⟩
  · split
    · split
      · exact ⟨form.isSettled_body, rfl, rfl⟩
      · exact ⟨nofun, .rfl⟩
    · exact ⟨nofun, .rfl⟩

theorem StringPhase.staysInToken_step (phase : StringPhase) (lexeme : Lexeme) (byte : UInt8)
    : (phase.step lexeme byte).StaysInToken lexeme := by
  cases phase with
  | opened =>
      simp only [StringPhase.step]
      split
      · exact ⟨rfl, .rfl⟩
      · exact staysInToken_singleText lexeme byte
  | body => exact staysInToken_singleText lexeme byte
  | delimiter =>
      simp only [StringPhase.step]
      split
      · exact ⟨rfl, .rfl⟩
      · exact ⟨by simp [EndsInToken], .rfl⟩
  | lineStart | lineQuote =>
      simp only [StringPhase.step]
      split
      · exact ⟨rfl, rfl, rfl⟩
      · exact staysInToken_multiText lexeme byte
  | lineQuotes =>
      simp only [StringPhase.step]
      split
      · exact ⟨by simp [EndsInToken, Lexeme.take], rfl, rfl⟩
      · exact staysInToken_multiText lexeme byte
  | multiBody => exact staysInToken_multiText lexeme byte
  | escape form => exact staysInToken_escapeStep form lexeme byte
  | hexOpen form =>
      simp only [StringPhase.step]
      split
      · exact ⟨rfl, rfl, rfl⟩
      · exact ⟨by simp [EndsInToken], .rfl⟩
  | hex form => exact staysInToken_hexStep form lexeme byte

theorem State.staysInToken_step {state : State} (settled : state.isSettled = true)
    (lexeme : Lexeme) (here : Location) (byte : UInt8)
    : (state.step lexeme here byte).StaysInToken lexeme := by
  cases state with
  | start | lineComment | blockComment phase => cases settled
  | pending unfinished =>
      refine Pending.staysInToken_step ?_ lexeme byte
      rintro rfl
      cases settled
  | string phase => exact phase.staysInToken_step lexeme byte

/-- Once a token has begun, its place stays, line breaks no longer count, and it ends as a token.
By induction on the bytes.
-/
theorem run_of_isSettled {state : State} (settled : state.isSettled = true) (lexeme : Lexeme)
    (here : Location) (bytes : List UInt8)
    : EndsInToken (run state lexeme here bytes).verdict
      ∧ lexeme.Continues (run state lexeme here bytes).lexeme := by
  induction bytes generalizing state lexeme here with
  | nil =>
      cases state with
      | pending unfinished =>
          exact ⟨unfinished.endsInToken_verdict lexeme, unfinished.continues_ending lexeme⟩
      | string phase => exact ⟨nofun, .rfl⟩
      | start | lineComment | blockComment phase => cases settled
  | cons byte rest ih =>
      have stays := state.staysInToken_step settled lexeme here byte
      rw [run]
      cases step : state.step lexeme here byte with
      | next state grown =>
          rw [step] at stays
          obtain ⟨ends, continues⟩ := ih stays.1 grown (here.advance byte)
          exact ⟨ends, stays.2.trans continues⟩
      | done ending =>
          rw [step] at stays
          exact stays

theorem isSettled_of_pendingSign? {char : Char} {pending : Pending} (notSlash : char ≠ '/')
    (begins : pendingSign? char = some pending)
    : (State.pending pending).isSettled = true := by
  unfold pendingSign? at begins
  split at begins <;> cases begins <;> first | rfl | exact absurd rfl notSlash

/-- A first byte other than a slash or a newline begins a token for sure. -/
theorem staysInToken_firstByte (lexeme : Lexeme) {byte : UInt8} (notSlash : byte ≠ 0x2F)
    (notNewline : byte ≠ 0x0A)
    : (firstByte lexeme byte).StaysInToken lexeme := by
  unfold firstByte
  dsimp only
  split
  · next isNewline => exact absurd ((ofUInt8_eq_newline byte).mp isNewline) notNewline
  · split
    · exact ⟨rfl, rfl, rfl⟩
    · split
      · exact ⟨rfl, rfl, rfl⟩
      · split
        · exact ⟨rfl, rfl, rfl⟩
        · split
          · exact ⟨rfl, .rfl⟩
          · split
            · next begins =>
                have isOther := mt (ofUInt8_eq_slash byte).mp notSlash
                exact ⟨isSettled_of_pendingSign? isOther begins, .rfl⟩
            · exact ⟨⟨nofun, nofun⟩, .rfl⟩
            · exact ⟨nofun, .rfl⟩

/-- A comment up to the end of the line is skipped, and the line break or the end of input after it
is a token. By induction on the bytes.
-/
theorem run_lineComment (lexeme : Lexeme) (here : Location) (bytes : List UInt8)
    : run .lineComment lexeme here bytes
      = let place := here.afterBytes (bytes.takeWhile (· ≠ 0x0A))
        match bytes.dropWhile (· ≠ 0x0A) with
        | [] =>
            {
              verdict := .ok .endOfFile, lexeme := { lexeme with start := place }
              stoppedAt := place, rest := [], next := place }
        | newline :: rest =>
            {
              verdict := .ok .endOfLine, lexeme := { lexeme with start := place }
              stoppedAt := place, rest, next := place.advance newline } := by
  induction bytes generalizing here with
  | nil => rfl
  | cons byte rest ih =>
      by_cases isNewline : byte = 0x0A
      · subst isNewline
        rfl
      · have step : State.lineComment.step lexeme here byte = .next .lineComment lexeme := by
          rw [State.step, if_neg isNewline]
        rw [run, step, List.takeWhile_cons_of_pos (by simpa using isNewline),
          List.dropWhile_cons_of_pos (by simpa using isNewline)]
        exact ih (here.advance byte)

-----------------------------------------------------------------------------------------
-- Comments before a token
-----------------------------------------------------------------------------------------

theorem State.step_start (lexeme : Lexeme) (here : Location) {byte : UInt8}
    (notBlank : isBlank byte = false)
    : State.start.step lexeme here byte = firstByte { lexeme with start := here } byte := by
  rw [State.step, if_neg (by simp [notBlank])]

theorem run_start_blank (lexeme : Lexeme) (here : Location) {byte : UInt8}
    (blank : isBlank byte = true) (rest : List UInt8)
    : run .start lexeme here (byte :: rest) = run .start lexeme (here.advance byte) rest := by
  rw [run, State.step, if_pos blank]

theorem run_start_openComment (lexeme : Lexeme) (here : Location) (rest : List UInt8)
    : run .start lexeme here (0x2F :: 0x2A :: rest)
      = run (.blockComment .body)
          { lexeme with start := here, depth := 1, commentStart := here }
          (here.afterBytes [0x2F, 0x2A]) rest :=
  rfl

theorem openComment?_eq_none (lexeme : Lexeme) {byte : UInt8} (notSlash : byte ≠ 0x2F)
    (notStar : byte ≠ 0x2A)
    : openComment? lexeme byte = none := by
  unfold openComment?
  split
  · next char => exact absurd ((ofUInt8_eq_slash byte).mp char) notSlash
  · next char => exact absurd ((ofUInt8_eq_star byte).mp char) notStar
  · rfl

/-- A comment up to the end of the line keeps what is known of line breaks in comments. -/
theorem sawNewline_run_lineComment (lexeme : Lexeme) (here : Location) (bytes : List UInt8)
    : (run .lineComment lexeme here bytes).lexeme.sawNewline = lexeme.sawNewline := by
  rw [run_lineComment]
  dsimp only
  split <;> rfl

/-- A slash is a sign or begins a comment up to the end of the line, unless a star follows. -/
theorem sawNewline_run_slash (lexeme : Lexeme) (here : Location) {second : UInt8}
    (notStar : second ≠ 0x2A) (rest : List UInt8)
    : (run (.pending .slash) lexeme here (second :: rest)).lexeme.sawNewline
      = lexeme.sawNewline := by
  have step : (State.pending .slash).step lexeme here second
      = (openComment? lexeme second).getD (.done (Pending.slash.ending lexeme)) :=
    rfl
  by_cases isSlash : second = 0x2F
  · subst isSlash
    exact sawNewline_run_lineComment ..
  · rw [run, step, openComment?_eq_none lexeme isSlash notStar]
    rfl

/-- A token without a comment before it keeps what is known of line breaks in comments. -/
theorem sawNewline_run_start_of_token (lexeme : Lexeme) (here : Location) {first : UInt8}
    {rest : List UInt8} (notBlank : isBlank first = false)
    (notComment : ¬(first = 0x2F ∧ rest.head? = some 0x2A))
    : (run .start lexeme here (first :: rest)).lexeme.sawNewline = lexeme.sawNewline := by
  have step := State.step_start lexeme here notBlank
  by_cases isSlash : first = 0x2F
  · subst isSlash
    cases rest with
    | nil => rfl
    | cons second rest =>
        have notStar : second ≠ 0x2A := by
          intro isStar
          exact notComment ⟨rfl, congrArg some isStar⟩
        exact sawNewline_run_slash _ _ notStar rest
  · by_cases isNewline : first = 0x0A
    · subst isNewline
      rfl
    · have stays := staysInToken_firstByte { lexeme with start := here } isSlash isNewline
      rw [run, step]
      cases begun : firstByte { lexeme with start := here } first with
      | next state grown =>
          rw [begun] at stays
          exact (stays.2.trans (run_of_isSettled stays.1 ..).2).sawNewline
      | done ending =>
          rw [begun] at stays
          exact stays.2.sawNewline

/-- The automaton has seen a line break before a token exactly if one of the comments there holds
one. By induction on the comments.
-/
theorem sawNewline_run_start (lexeme : Lexeme) (here : Location) (bytes : List UInt8)
    : (run .start lexeme here bytes).lexeme.sawNewline
      = (lexeme.sawNewline || (leadingComments bytes).any (·.contains 0x0A)) := by
  fun_induction leadingComments bytes generalizing lexeme here with
  | case1 => exact (Bool.or_false _).symm
  | case2 byte =>
      cases blank : isBlank byte with
      | true =>
          rw [run_start_blank _ _ blank]
          exact (Bool.or_false _).symm
      | false =>
          rw [sawNewline_run_start_of_token lexeme here blank (by simp)]
          exact (Bool.or_false _).symm
  | case3 first second rest blank ih => rw [run_start_blank _ _ blank, ih]
  | case4 first second rest notBlank isOpen comment later closes ih =>
      obtain ⟨rfl, rfl⟩ := isOpen
      rw [run_start_openComment, run_body_of_closes closes rfl, ih]
      simp [Lexeme.sawComment, Bool.or_assoc]
  | case5 first second rest notBlank isOpen unclosed =>
      obtain ⟨rfl, rfl⟩ := isOpen
      rw [run_start_openComment]
      obtain ⟨lastDepth, ends⟩ :=
        run_body_of_open { lexeme with start := here, depth := 1, commentStart := here }
          (here.afterBytes [0x2F, 0x2A]) unclosed rfl
      rw [ends]
      simp [Lexeme.sawComment]
  | case6 first second rest notBlank notOpen =>
      rw [sawNewline_run_start_of_token lexeme here (by simpa using notBlank)
        (by simpa using notOpen)]
      exact (Bool.or_false _).symm

end ExprCompiler.Lexical
