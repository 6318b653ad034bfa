import ExprCompiler.Proofs.Lexical.Positions
import ExprCompiler.Proofs.Lexical.StringItems

/-! What string literals stand for. Main statement: a literal on one line or on several is read as
the text of its items, and nothing after it is read; every string that is ever read was written as
such a literal.
-/

namespace ExprCompiler

namespace Lexical

/-- A string literal: items between quotes, items between lines of three quotes, or no item between
two such lines.
-/
inductive StringLiteral where
  | single (items : List LiteralItem)
  | multi (items : List LiteralItem)
  | multiEmpty
deriving DecidableEq, Repr

namespace StringLiteral

/-- The bytes of a literal in a source. -/
def bytes : StringLiteral → List UInt8
  | single items => 0x22 :: (items.flatMap LiteralItem.source ++ [0x22])
  | multi items =>
      0x22 :: 0x22 :: 0x22 :: 0x0A
        :: (items.flatMap LiteralItem.source ++ [0x0A, 0x22, 0x22, 0x22])
  | multiEmpty => [0x22, 0x22, 0x22, 0x0A, 0x22, 0x22, 0x22]

/-- The bytes that a literal stands for. -/
def value : StringLiteral → List UInt8
  | single items | multi items => items.flatMap LiteralItem.value
  | multiEmpty => []

theorem exists_bytes_eq (literal : StringLiteral) : ∃ rest, literal.bytes = 0x22 :: rest := by
  cases literal <;> exact ⟨_, rfl⟩

/-- Whether a literal may be written before some bytes. On one line its own bytes are neither quotes
nor backslashes nor control characters, and two quotes are no literal before a third one. On several
lines its own bytes are no backslashes, and no line starts with three of its own quotes.
-/
def IsWritten (later : List UInt8) : StringLiteral → Prop
  | single items =>
      (∀ byte, .raw byte ∈ items → isPlain byte) ∧ (items = [] → later.head? ≠ some 0x22)
  | multi items =>
      (∀ byte, .raw byte ∈ items → byte ≠ 0x5C)
      ∧ ¬closingLine <:+: some 0x0A :: items.map LiteralItem.raw?
  | multiEmpty => True

end StringLiteral

-----------------------------------------------------------------------------------------
-- Reading literals
-----------------------------------------------------------------------------------------

variable {lexeme : Lexeme} {here : Location} {form : StringForm} {bytes later : List UInt8}
  {kind : TokenKind}

/-- The text that is left when a quote closes a literal: a line of two quotes is not part of it. -/
def StringPhase.closedText (text : List UInt8) : StringPhase → List UInt8
  | .lineQuotes => text.take (text.length - 3)
  | _ => text

theorem StringPhase.closedText_append (text : List UInt8)
    : lineQuotes.closedText (text ++ [0x0A, 0x22, 0x22]) = text := by
  simp [closedText]

theorem run_closing {last : StringPhase} (closes : last.closes = true) (lexeme : Lexeme)
    (here : Location) (rest : List UInt8)
    : (run (.string last) lexeme here (0x22 :: rest)).verdict
        = .ok (.string (Utf8.decodeLossy (last.closedText lexeme.text.toList)))
      ∧ (run (.string last) lexeme here (0x22 :: rest)).rest = rest := by
  cases last with
  | body => exact ⟨rfl, rfl⟩
  | lineQuotes =>
      refine ⟨?_, rfl⟩
      have closed : ((lexeme.text.push 0x22).retract 4).toList
          = lexeme.text.toList.take (lexeme.text.toList.length - 3) := by
        simp [ByteBuffer.retract, ByteBuffer.push, ByteBuffer.toList, ByteBuffer.size]
      rw [StringPhase.closedText, ← closed]
      rfl
  | opened | delimiter | lineStart | lineQuote | multiBody | escape _ | hexOpen _ | hex _ =>
      cases closes

/-- A text from one phase on, up to the quote that closes the literal. -/
theorem ReadsItems.run_closing {phase last : StringPhase} {items : List LiteralItem}
    (reads : ReadsItems phase items last) (isText : phase.form? = some form)
    (closes : last.closes = true) (lexeme : Lexeme) (here : Location) (later : List UInt8)
    : (run (.string phase) lexeme here
          (items.flatMap LiteralItem.source ++ 0x22 :: later)).verdict
        = .ok (.string (Utf8.decodeLossy
            (last.closedText (lexeme.text.toList ++ items.flatMap LiteralItem.value))))
      ∧ (run (.string phase) lexeme here
          (items.flatMap LiteralItem.source ++ 0x22 :: later)).rest = later := by
  obtain ⟨grown, there, isGrown, runs⟩ := reads.leads isText lexeme here (0x22 :: later)
  rw [runs, ← isGrown]
  exact Lexical.run_closing closes grown there later

/-- Quotes right after another are an empty literal if there is no third one. -/
theorem run_emptyString (lexeme : Lexeme) (here : Location) (notQuote : later.head? ≠ some 0x22)
    : (run (.pending .emptyString) lexeme here later).verdict = .ok (.string "")
      ∧ (run (.pending .emptyString) lexeme here later).rest = later := by
  cases later with
  | nil => exact ⟨rfl, rfl⟩
  | cons byte rest =>
      have notContinued : Pending.emptyString.continued? lexeme byte = none := by
        refine if_neg (mt (ofUInt8_eq_quote byte).mp ?_)
        rintro rfl
        exact notQuote rfl
      have ends : (State.pending .emptyString).step lexeme here byte
          = .done (Pending.emptyString.ending lexeme) := by
        rw [State.step, Pending.step, notContinued]
        rfl
      rw [run, ends]
      exact ⟨rfl, rfl⟩

/-- A first byte other than a quote is the first of a text on one line. -/
theorem run_opened {byte : UInt8} (notQuote : byte ≠ 0x22) (lexeme : Lexeme) (here : Location)
    (rest : List UInt8)
    : run (.string .opened) lexeme here (byte :: rest)
      = run (.string .body) lexeme here (byte :: rest) := by
  have same : (State.string .opened).step lexeme here byte
      = (State.string .body).step lexeme here byte :=
    if_neg (mt (ofUInt8_eq_quote byte).mp notQuote)
  rw [run, run, same]

theorem run_single {items : List LiteralItem} (plain : ∀ byte, .raw byte ∈ items → isPlain byte)
    (noThird : items = [] → later.head? ≠ some 0x22) (lexeme : Lexeme) (here : Location)
    (noText : lexeme.text.toList = [])
    : (run (.string .opened) lexeme here
          (items.flatMap LiteralItem.source ++ 0x22 :: later)).verdict
        = .ok (.string (Utf8.decodeLossy (items.flatMap LiteralItem.value)))
      ∧ (run (.string .opened) lexeme here
          (items.flatMap LiteralItem.source ++ 0x22 :: later)).rest = later := by
  cases items with
  | nil =>
      have nothing : Utf8.decodeLossy [] = "" := Utf8.decodeLossy_encode ""
      rw [List.flatMap_nil, List.flatMap_nil, nothing]
      exact run_emptyString lexeme (here.advance 0x22) (noThird rfl)
  | cons item items =>
      have notQuote : item ≠ .raw 0x22 := by
        rintro rfl
        exact (plain 0x22 List.mem_cons_self).2.1 rfl
      have reads := (readsItems_body_iff.mpr ⟨rfl, plain⟩).run_closing rfl rfl lexeme here later
      obtain ⟨first, rest, isSource, isFirst⟩ := item.exists_source_eq notQuote
      rw [noText, List.flatMap_cons, isSource, List.append_assoc, List.cons_append] at reads
      rw [List.flatMap_cons, isSource, List.append_assoc, List.cons_append, run_opened isFirst]
      exact reads

theorem run_multi {items : List LiteralItem} (reads : ReadsItems .lineStart items .lineQuotes)
    (lexeme : Lexeme) (here : Location) (noText : lexeme.text.toList = [])
    : (run (.string .lineStart) lexeme here
          (items.flatMap LiteralItem.source ++ 0x22 :: later)).verdict
        = .ok (.string (Utf8.decodeLossy
            (StringPhase.lineQuotes.closedText (items.flatMap LiteralItem.value))))
      ∧ (run (.string .lineStart) lexeme here
          (items.flatMap LiteralItem.source ++ 0x22 :: later)).rest = later := by
  have runs := reads.run_closing rfl rfl lexeme here later
  rw [noText] at runs
  exact runs

/-- The automaton reads a literal as what it stands for and nothing after it. -/
theorem run_literal {literal : StringLiteral} (written : literal.IsWritten later) (lexeme : Lexeme)
    (here : Location) (noText : lexeme.text.toList = [])
    : (run .start lexeme here (literal.bytes ++ later)).verdict
        = .ok (.string (Utf8.decodeLossy literal.value))
      ∧ (run .start lexeme here (literal.bytes ++ later)).rest = later := by
  cases literal with
  | single items =>
      rw [StringLiteral.bytes, List.cons_append, List.append_assoc]
      exact run_single written.1 written.2 { lexeme with start := here } (here.advance 0x22) noText
  | multi items =>
      have runs := @run_multi later _ (readsItems_lineStart_iff.mpr (.inr ⟨items, rfl, written⟩))
        { lexeme with start := here } (here.afterBytes [0x22, 0x22, 0x22, 0x0A]) noText
      rw [List.flatMap_append, List.flatMap_append, List.append_assoc] at runs
      have isText : StringPhase.lineQuotes.closedText
          (items.flatMap LiteralItem.value
            ++ [LiteralItem.raw 0x0A, .raw 0x22, .raw 0x22].flatMap LiteralItem.value)
            = items.flatMap LiteralItem.value :=
        StringPhase.closedText_append _
      rw [isText] at runs
      simp only [StringLiteral.bytes, List.cons_append, List.append_assoc]
      exact runs
  | multiEmpty =>
      exact run_multi (readsItems_lineStart_iff.mpr (.inl rfl)) { lexeme with start := here }
        (here.afterBytes [0x22, 0x22, 0x22, 0x0A]) noText

theorem ReadsItems.form?_eq {phase last : StringPhase} {items : List LiteralItem}
    (reads : ReadsItems phase items last) (isText : phase.form? = some form)
    : last.form? = some form := by
  induction reads with
  | nil => exact isText
  | cons _ _ ih => exact ih (StringPhase.form?_after isText _)

theorem exists_single_of_run
    (reads : (run (.string .body) lexeme here bytes).verdict = .ok kind)
    (notQuote : bytes.head? ≠ some 0x22)
    : ∃ (literal : StringLiteral) (later : List UInt8),
        literal.IsWritten later ∧ 0x22 :: bytes = literal.bytes ++ later := by
  obtain ⟨items, last, rest, readsItems, -, rfl⟩ := exists_readsItems_of_run rfl reads
  obtain ⟨-, plain⟩ := readsItems_body_iff.mp readsItems
  refine ⟨.single items, rest, ⟨plain, ?_⟩, ?_⟩
  · rintro rfl
    exact absurd rfl notQuote
  · rw [StringLiteral.bytes, List.cons_append, List.append_assoc, List.singleton_append]

theorem exists_multi_of_run
    (reads : (run (.string .lineStart) lexeme here bytes).verdict = .ok kind)
    : ∃ (literal : StringLiteral) (later : List UInt8),
        literal.IsWritten later
        ∧ 0x22 :: 0x22 :: 0x22 :: 0x0A :: bytes = literal.bytes ++ later := by
  obtain ⟨items, last, rest, readsItems, closes, rfl⟩ := exists_readsItems_of_run rfl reads
  have isText := readsItems.form?_eq rfl
  obtain rfl : last = .lineQuotes := by
    cases last with
    | lineQuotes => rfl
    | body | opened | delimiter | escape _ | hexOpen _ | hex _ => cases isText
    | lineStart | lineQuote | multiBody => cases closes
  rcases readsItems_lineStart_iff.mp readsItems with rfl | ⟨body, rfl, written⟩
  · exact ⟨.multiEmpty, rest, trivial, rfl⟩
  · refine ⟨.multi body, rest, written, ?_⟩
    simp [StringLiteral.bytes, LiteralItem.source]

/-- What a quote begins is a literal, if it is a token at all. -/
theorem exists_literal_of_run
    (reads : (run .start lexeme here (0x22 :: bytes)).verdict = .ok kind)
    : ∃ (literal : StringLiteral) (later : List UInt8),
        literal.IsWritten later ∧ 0x22 :: bytes = literal.bytes ++ later := by
  cases bytes with
  | nil => cases reads
  | cons second bytes =>
      by_cases isSecond : second = 0x22
      · subst isSecond
        by_cases isThird : bytes.head? = some 0x22
        · obtain ⟨bytes, rfl⟩ := List.head?_eq_some_iff.mp isThird
          cases bytes with
          | nil => cases reads
          | cons fourth bytes =>
              have opened : (run (.string .delimiter) { lexeme with start := here }
                  (here.afterBytes [0x22, 0x22, 0x22]) (fourth :: bytes)).verdict = .ok kind :=
                reads
              have isBreak : Char.ofUInt8 fourth = '\n' := by
                by_contra notBreak
                exact step_ne_reject opened _ _ (if_neg notBreak)
              obtain rfl := (ofUInt8_eq_newline fourth).mp isBreak
              exact exists_multi_of_run reads
        · exact ⟨.single [], bytes, ⟨by simp, fun _ => isThird⟩, rfl⟩
      · have inBody := congrArg Run.verdict (run_opened isSecond { lexeme with start := here }
          (here.advance 0x22) bytes)
        refine exists_single_of_run (inBody.symm.trans reads) ?_
        exact fun same => isSecond (Option.some.inj same)

-----------------------------------------------------------------------------------------
-- Tokens that are no strings
-----------------------------------------------------------------------------------------

/-- Whether a pending lexeme can only become a token other than a string: two quotes may, and after
a slash there may be a comment and then any token.
-/
def Pending.isNoString (pending : Pending) : Bool :=
  pending ≠ .emptyString ∧ pending ≠ .slash

theorem Pending.verdict_ne_string {pending : Pending} (noString : pending ≠ .emptyString)
    (lexeme : Lexeme) (text : String)
    : pending.verdict lexeme ≠ .ok (.string text) := by
  cases pending with
  | emptyString => exact absurd rfl noString
  | name =>
      simp only [Pending.verdict, nameToken_fst, nameKind]
      split
      · simp
      · split <;> simp
  | integer =>
      simp only [Pending.verdict, integerVerdict]
      split <;> simp
  | fraction | exponent =>
      simp only [Pending.verdict, doubleVerdict]
      split <;> simp
  | less | greater | bang | question | assign | minus | slash | underscore | point
  | exponentMark | exponentSign => simp [Pending.verdict]

/-- A byte that continues such a lexeme leaves it one, or completes a sign or the name of a type. -/
theorem Pending.continued?_cases {pending : Pending} (noString : pending.isNoString = true)
    {byte : UInt8} {step : Step} (continues : pending.continued? lexeme byte = some step)
    : (∃ after grown, after.isNoString = true ∧ step = .next (.pending after) grown)
      ∨ ∃ kind last, (∀ text, kind ≠ .string text) ∧ step = .accept kind last := by
  have grows {after : Pending} (afterNoString : after.isNoString = true)
      (grown : after.grow lexeme byte = some step)
      : ∃ after grown, after.isNoString = true ∧ step = .next (.pending after) grown :=
    ⟨after, _, afterNoString, (Option.some.inj grown).symm⟩
  cases pending with
  | slash | emptyString => cases noString
  | less | greater | bang | question | assign | minus =>
      simp only [Pending.continued?, extendSign?] at continues
      split at continues
      · exact .inr ⟨_, lexeme, by simp, (Option.some.inj continues).symm⟩
      · cases continues
  | underscore | point | exponentSign | exponent =>
      simp only [Pending.continued?] at continues
      split at continues
      · exact .inl (grows rfl continues)
      · cases continues
  | fraction | exponentMark =>
      simp only [Pending.continued?] at continues
      split at continues
      · exact .inl (grows rfl continues)
      · split at continues
        · exact .inl (grows rfl continues)
        · cases continues
  | integer =>
      simp only [Pending.continued?] at continues
      split at continues
      · exact .inl (grows rfl continues)
      · split at continues
        · exact .inl (grows rfl continues)
        · split at continues
          · exact .inl (grows rfl continues)
          · cases continues
  | name =>
      simp only [Pending.continued?, nilableType?] at continues
      split at continues
      · exact .inl (grows rfl continues)
      · split at continues
        · split at continues
          · exact .inr ⟨_, lexeme, by simp, (Option.some.inj continues).symm⟩
          · cases continues
        · cases continues

/-- By induction on the bytes that continue the lexeme. -/
theorem run_pending_ne_string {pending : Pending} (noString : pending.isNoString = true)
    (lexeme : Lexeme) (here : Location) (bytes : List UInt8) (text : String)
    : (run (.pending pending) lexeme here bytes).verdict ≠ .ok (.string text) := by
  induction bytes generalizing pending lexeme here with
  | nil => exact Pending.verdict_ne_string (by rintro rfl; cases noString) lexeme text
  | cons byte bytes ih =>
      rw [run, State.step, Pending.step]
      cases continues : pending.continued? lexeme byte with
      | none => exact Pending.verdict_ne_string (by rintro rfl; cases noString) lexeme text
      | some step =>
          rcases Pending.continued?_cases noString continues with
            ⟨after, grown, afterNoString, rfl⟩ | ⟨kind, last, noText, rfl⟩
          · exact ih afterNoString grown (here.advance byte)
          · exact fun same => noText text (Except.ok.inj same)

theorem isNoString_of_pendingSign? {char : Char} {pending : Pending} (notSlash : char ≠ '/')
    (begins : pendingSign? char = some pending)
    : pending.isNoString = true := by
  have settled := isSettled_of_pendingSign? notSlash begins
  cases pending with
  | slash => cases settled
  | emptyString =>
      unfold pendingSign? at begins
      split at begins <;> cases begins
  | less | greater | bang | question | assign | minus | underscore | name | integer | point
  | fraction | exponentMark | exponentSign | exponent => rfl

theorem firstByte_cases {byte : UInt8} (notQuote : byte ≠ 0x22) (notSlash : byte ≠ 0x2F)
    (lexeme : Lexeme)
    : (∃ pending grown,
        pending.isNoString = true ∧ firstByte lexeme byte = .next (.pending pending) grown)
      ∨ ∃ verdict, (∀ text, verdict ≠ .ok (.string text))
          ∧ firstByte lexeme byte = .done { verdict, lexeme } := by
  have noQuote : Char.ofUInt8 byte ≠ '"' := mt (ofUInt8_eq_quote byte).mp notQuote
  have noSlash : Char.ofUInt8 byte ≠ '/' := mt (ofUInt8_eq_slash byte).mp notSlash
  unfold firstByte
  dsimp only
  rw [if_neg noQuote]
  split
  · exact .inr ⟨_, by simp, rfl⟩
  · split
    · exact .inl ⟨.name, _, rfl, rfl⟩
    · split
      · exact .inl ⟨.underscore, _, rfl, rfl⟩
      · split
        · exact .inl ⟨.integer, _, rfl, rfl⟩
        · split
          · next begins => exact .inl ⟨_, _, isNoString_of_pendingSign? noSlash begins, rfl⟩
          · exact .inr ⟨_, by simp, rfl⟩
          · exact .inr ⟨_, by simp, rfl⟩

/-- Only a quote begins a string. -/
theorem run_start_ne_string {first : UInt8} {rest : List UInt8} (notBlank : isBlank first = false)
    (notQuote : first ≠ 0x22)
    (notComment : ∀ second ∈ rest.head?, first = 0x2F → second ≠ 0x2A ∧ second ≠ 0x2F)
    (lexeme : Lexeme) (here : Location) (text : String)
    : (run .start lexeme here (first :: rest)).verdict ≠ .ok (.string text) := by
  by_cases isSlash : first = 0x2F
  · subst isSlash
    cases rest with
    | nil =>
        have isSign : (run .start lexeme here [0x2F]).verdict = .ok (.operator .slash) := rfl
        rw [isSign]
        simp
    | cons second rest =>
        obtain ⟨notStar, notSlash⟩ := notComment second rfl rfl
        rw [run_start_slash lexeme here notStar notSlash]
        simp
  · rw [run, State.step_start lexeme here notBlank]
    rcases firstByte_cases notQuote isSlash { lexeme with start := here } with
      ⟨pending, grown, noString, begins⟩ | ⟨verdict, noString, ends⟩
    · rw [begins]
      exact run_pending_ne_string noString grown (here.advance first) rest text
    · rw [ends]
      exact noString text

/-- A string that is read where no gap is stands there as a literal. -/
theorem exists_literal_of_token {first : UInt8} {rest : List UInt8} {text : String}
    {lexeme : Lexeme} {here : Location} (noText : lexeme.text.toList = [])
    (notBlank : isBlank first = false)
    (notComment : ∀ second ∈ rest.head?, first = 0x2F → second ≠ 0x2A ∧ second ≠ 0x2F)
    (reads : (run .start lexeme here (first :: rest)).verdict = .ok (.string text))
    : ∃ literal : StringLiteral,
        literal.IsWritten (run .start lexeme here (first :: rest)).rest
        ∧ first :: rest = literal.bytes ++ (run .start lexeme here (first :: rest)).rest
        ∧ text = Utf8.decodeLossy literal.value := by
  obtain rfl : first = 0x22 := by
    by_contra notQuote
    exact run_start_ne_string notBlank notQuote notComment lexeme here text reads
  obtain ⟨literal, later, written, split⟩ := exists_literal_of_run reads
  obtain ⟨isKind, isRest⟩ := run_literal written lexeme here noText
  rw [← split] at isKind isRest
  rw [isRest]
  rw [isKind] at reads
  cases reads
  exact ⟨literal, written, split, rfl⟩

/-- A string in a source is a literal after a gap. By induction on the comments in the gap. -/
theorem exists_literal_of_string (lexeme : Lexeme) (here : Location) {bytes : List UInt8}
    {text : String} (noText : lexeme.text.toList = [])
    (reads : (run .start lexeme here bytes).verdict = .ok (.string text))
    : ∃ literal : StringLiteral,
        literal.IsWritten (run .start lexeme here bytes).rest
        ∧ bytes = leadingGap bytes ++ literal.bytes ++ (run .start lexeme here bytes).rest
        ∧ text = Utf8.decodeLossy literal.value := by
  fun_induction leadingGap bytes generalizing lexeme here with
  | case1 => cases reads
  | case2 byte blank =>
      rw [run_start_blank _ _ blank] at reads
      cases reads
  | case3 byte notBlank =>
      exact exists_literal_of_token noText (by simpa using notBlank) (by simp) reads
  | case4 first second rest blank ih =>
      rw [run_start_blank _ _ blank] at reads ⊢
      obtain ⟨literal, written, split, isText⟩ := ih lexeme (here.advance first) noText reads
      exact ⟨literal, written, congrArg (first :: ·) split, isText⟩
  | case5 first second rest notBlank isOpen comment later closes ih =>
      obtain ⟨rfl, rfl⟩ := isOpen
      rw [run_start_openComment, run_body_of_closes closes rfl] at reads ⊢
      obtain ⟨literal, written, split, isText⟩ := ih _ _ (by exact noText) reads
      refine ⟨literal, written, ?_, isText⟩
      have isRest := append_of_closeComment? closes
      rw [split] at isRest
      rw [← isRest]
      simp
  | case6 first second rest notBlank isOpen unclosed =>
      obtain ⟨rfl, rfl⟩ := isOpen
      rw [run_start_openComment] at reads
      obtain ⟨lastDepth, ends⟩ :=
        run_body_of_open { lexeme with start := here, depth := 1, commentStart := here }
          (here.afterBytes [0x2F, 0x2A]) unclosed rfl
      rw [ends] at reads
      cases reads
  | case7 first second rest notBlank notOpen isLine =>
      obtain ⟨rfl, rfl⟩ := isLine
      have inLine : (run .lineComment { lexeme with start := here } (here.afterBytes [0x2F, 0x2F])
          rest).verdict = .ok (.string text) :=
        reads
      rw [run_lineComment] at inLine
      dsimp only at inLine
      split at inLine <;> cases inLine
  | case8 first second rest notBlank notOpen notLine =>
      refine exists_literal_of_token noText (by simpa using notBlank) ?_ reads
      rintro _ ⟨⟩ isSlash
      exact ⟨fun isStar => notOpen ⟨isSlash, isStar⟩, fun again => notLine ⟨isSlash, again⟩⟩

end Lexical

namespace Scanner

open Lexical (LiteralItem StringLiteral leadingGap)

/-- String literals are read item by item. Wherever a literal is written, the next reading is its
text, the bytes of its items read as UTF-8, and what comes after the literal is unread. Every string
that is read comes from such a literal after blanks and comments.
-/
theorem next_string
    : (∀ (scanner : Scanner) (literal : StringLiteral) (later : List UInt8),
        literal.IsWritten later → scanner.rest = literal.bytes ++ later →
          scanner.next.1
            = .ok {
                kind := .string (Utf8.decodeLossy literal.value)
                afterNewline := scanner.afterNewline
                location := scanner.location }
          ∧ scanner.next.2.rest = later)
      ∧ ∀ (scanner : Scanner) (token : Token) (text : String),
          scanner.next.1 = .ok token → token.kind = .string text →
            ∃ literal : StringLiteral,
              literal.IsWritten scanner.next.2.rest
              ∧ scanner.rest
                = leadingGap scanner.rest ++ literal.bytes ++ scanner.next.2.rest
              ∧ text = Utf8.decodeLossy literal.value := by
  refine ⟨fun scanner literal later written rest => ?_, fun scanner token text reads isText => ?_⟩
  · obtain ⟨isKind, isRest⟩ :=
      Lexical.run_literal written scanner.lexeme.reset scanner.location rfl
    obtain ⟨bytes, isFirst⟩ := literal.exists_bytes_eq
    have isStart := (@Lexical.run_start_of_token scanner.lexeme.reset scanner.location 0x22
      (bytes ++ later) rfl (by decide) (by simp)).2
    have noBreak := @Lexical.sawNewline_run_start_of_token scanner.lexeme.reset scanner.location
      0x22 (bytes ++ later) rfl (by simp)
    rw [← List.cons_append, ← isFirst, ← rest] at isStart noBreak
    rw [← rest] at isKind isRest
    refine ⟨?_, (next_rest scanner).trans isRest⟩
    rw [next_fst]
    unfold run
    rw [isKind, isStart, noBreak]
    simp [Lexical.Lexeme.reset]
  · rw [next_fst] at reads
    cases verdict : scanner.run.verdict with
    | error fault =>
        rw [verdict] at reads
        cases reads
    | ok kind =>
        rw [verdict] at reads
        cases reads
        obtain rfl : kind = .string text := isText
        rw [next_rest]
        exact Lexical.exists_literal_of_string scanner.lexeme.reset scanner.location rfl verdict

/-- A literal on several lines in which three quotes come after an escaped line break, a line
starts with two quotes and an escape, and the last line is empty. The other way round, the string
after a comment comes from a literal up to the unread bytes.
-/
theorem next_string_multi
    : (ofBytes (Utf8.encode
          "\"\"\"\n\\n\"\"\"\n\"\"\\u\x7b141\x7d\n\n\"\"\"\"b\"")).next.1
        = .ok { kind := .string "\n\"\"\"\n\"\"A\n", afterNewline := false, location := .start }
      ∧ ∃ literal : StringLiteral,
          literal.IsWritten (Utf8.encode " + x")
          ∧ Utf8.encode "/**/\"\\t\" + x"
            = leadingGap (Utf8.encode "/**/\"\\t\" + x") ++ literal.bytes ++ Utf8.encode " + x"
          ∧ Utf8.decodeLossy literal.value = "\t" := by
  obtain ⟨reads, arises⟩ := next_string
  have items : ∃ items : List LiteralItem,
      StringLiteral.IsWritten (Utf8.encode "\"b\"") (.multi items)
      ∧ Utf8.encode "\"\"\"\n\\n\"\"\"\n\"\"\\u\x7b141\x7d\n\n\"\"\"\"b\""
        = (StringLiteral.multi items).bytes ++ Utf8.encode "\"b\""
      ∧ items.flatMap LiteralItem.value = Utf8.encode "\n\"\"\"\n\"\"A\n" := by
    refine ⟨[.simple .newline, .raw 0x22, .raw 0x22, .raw 0x22, .raw 0x0A, .raw 0x22, .raw 0x22,
      .code ⟨[⟨1, false⟩, ⟨4, false⟩, ⟨1, false⟩], by decide, by decide⟩, .raw 0x0A],
      ⟨?_, ?_⟩, ?_, ?_⟩
    · intro byte member
      simp only [List.mem_cons, LiteralItem.raw.injEq, List.not_mem_nil, reduceCtorEq, or_false,
        false_or] at member
      rcases member with rfl | rfl | rfl | rfl | rfl | rfl | rfl <;> decide
    · decide
    · decide
    · decide
  obtain ⟨items, written, isSource, isValue⟩ := items
  refine ⟨?_, ?_⟩
  · have isText : Utf8.decodeLossy (StringLiteral.multi items).value = "\n\"\"\"\n\"\"A\n" := by
      rw [StringLiteral.value, isValue, Utf8.decodeLossy_encode]
    have read := reads (ofBytes ((StringLiteral.multi items).bytes ++ Utf8.encode "\"b\""))
      (.multi items) (Utf8.encode "\"b\"") written rfl
    rw [isText] at read
    rw [isSource]
    exact read.1
  · obtain ⟨literal, isWritten, split, isText⟩ :=
      arises (ofBytes (Utf8.encode "/**/\"\\t\" + x"))
        { kind := .string "\t", afterNewline := false, location := ⟨1, 5⟩ } "\t"
        (by decide +kernel) rfl
    have isLater : (ofBytes (Utf8.encode "/**/\"\\t\" + x")).next.2.rest = Utf8.encode " + x" := by
      decide +kernel
    rw [isLater] at isWritten split
    exact ⟨literal, isWritten, split, isText.symm⟩

end Scanner

end ExprCompiler
