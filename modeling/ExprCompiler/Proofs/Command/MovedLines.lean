import ExprCompiler.Proofs.Command.CompiledLines
import ExprCompiler.Proofs.Expression.TokenPlaces
import ExprCompiler.Proofs.Lexical.Positions

/-! Lines that stand further down in a text. Main statement: wherever some lines start, they have
the same codes, and their first error has the same code.
-/

namespace ExprCompiler

namespace Location

/-- A place in a text that starts at `origin`, and the same place if it starts at the beginning. -/
structure IsMovedTo (origin place fresh : Location) : Prop where
  moved : place = fresh.movedTo origin
  counted : fresh.IsCounted

variable {origin first second freshFirst freshSecond : Location}

theorem IsCounted.afterBytes {location : Location} (counted : location.IsCounted)
    (bytes : List UInt8)
    : (location.afterBytes bytes).IsCounted := by
  induction bytes generalizing location with
  | nil => exact counted
  | cons byte bytes ih => exact ih (counted.advance byte)

theorem notAfter_of_line_lt (before : first.line < second.line)
    : first.notAfter second = true ∧ second.notAfter first = false := by
  simp only [Location.notAfter, Bool.or_eq_true, Bool.and_eq_true, decide_eq_true_eq,
    Bool.or_eq_false_iff, Bool.and_eq_false_iff, decide_eq_false_iff_not]
  omega

/-- The line of a moved place. -/
theorem line_movedTo (location origin : Location)
    : (location.movedTo origin).line = origin.line + location.line - 1 := by
  unfold movedTo
  split
  · next isFirst => simp [isFirst]
  · rfl

/-- Moving keeps places on one line on one line, and others apart. -/
theorem IsMovedTo.line_eq_iff (isFirst : IsMovedTo origin first freshFirst)
    (isSecond : IsMovedTo origin second freshSecond)
    : first.line = second.line ↔ freshFirst.line = freshSecond.line := by
  have firstLine := isFirst.counted.1
  have secondLine := isSecond.counted.1
  rw [isFirst.moved, isSecond.moved, line_movedTo, line_movedTo]
  omega

/-- Moving keeps the order of places. -/
theorem IsMovedTo.notAfter (isFirst : IsMovedTo origin first freshFirst)
    (isSecond : IsMovedTo origin second freshSecond)
    : first.notAfter second = freshFirst.notAfter freshSecond := by
  have sameLine := isFirst.line_eq_iff isSecond
  obtain ⟨rfl, linePositive, columnPositive⟩ := isFirst
  obtain ⟨rfl, otherLinePositive, otherColumnPositive⟩ := isSecond
  have columns : freshFirst.line = freshSecond.line →
      ((freshFirst.movedTo origin).column ≤ (freshSecond.movedTo origin).column
        ↔ freshFirst.column ≤ freshSecond.column) := by
    intro same
    unfold movedTo
    rw [same]
    split
    · simp only
      omega
    · exact Iff.rfl
  rw [Bool.eq_iff_iff]
  simp only [Location.notAfter, Bool.or_eq_true, Bool.and_eq_true, decide_eq_true_eq]
  rw [sameLine, and_congr_right columns, line_movedTo, line_movedTo]
  refine or_congr_left ?_
  omega

theorem IsMovedTo.line_pos (originCounted : origin.IsCounted)
    (isFirst : IsMovedTo origin first freshFirst)
    : 1 ≤ first.line ∧ 1 ≤ freshFirst.line := by
  have originLine := originCounted.1
  have firstLine := isFirst.counted.1
  rw [isFirst.moved, line_movedTo]
  omega

end Location

open Location (IsMovedTo)

variable {origin : Location}

namespace Scanner

theorem isCounted_next {scanner : Scanner} (counted : scanner.location.IsCounted)
    : scanner.next.1.location.IsCounted := by
  rw [next_fst]
  cases verdict : scanner.run.verdict with
  | error fault =>
      obtain ⟨read, -, -, -, -, -, -, stoppedAt⟩ :=
        Lexical.exists_stops .start scanner.lexeme.reset scanner.location scanner.rest
      exact stoppedAt ▸ counted.afterBytes read
  | ok kind =>
      obtain ⟨bytes, takes⟩ := Lexical.exists_takesAfter_leadingGap _ _ verdict
      exact takes.start ▸ counted.afterBytes _

/-- A scanner reads what a new one on the same bytes does, with its places moved. -/
theorem readsAlike_resumes (origin : Location)
    : ReadsAlike (IsMovedTo origin) (Resumes origin) := by
  intro scanner fresh resumes
  refine ⟨?_, resumes.next⟩
  have counted := isCounted_next resumes.counted
  change Reading.Alike _ scanner.next.1 fresh.next.1
  rw [next_fst] at counted
  rw [next_fst, next_fst, resumes.run.verdict]
  cases verdict : fresh.run.verdict with
  | error fault =>
      rw [verdict] at counted
      exact .error fault ⟨resumes.run.stoppedAt, counted⟩
  | ok kind =>
      rw [verdict] at counted
      exact .ok ⟨rfl, resumes.run.start kind verdict, counted⟩

variable {scanner fresh rest : Scanner}

theorem Resumes.next_alike (resumes : scanner.Resumes origin fresh) {result : Reading}
    (reading : scanner.next = (result, rest))
    : ∃ freshResult freshRest,
        fresh.next = (freshResult, freshRest)
        ∧ result.Alike (IsMovedTo origin) freshResult
        ∧ rest.Resumes origin freshRest := by
  obtain ⟨readings, rests⟩ := readsAlike_resumes origin scanner fresh resumes
  change Reading.Alike _ scanner.next.1 fresh.next.1 at readings
  change scanner.next.2.Resumes origin fresh.next.2 at rests
  rw [reading] at readings rests
  exact ⟨_, _, rfl, readings, rests⟩

theorem Resumes.next_of_ok (resumes : scanner.Resumes origin fresh) {token : Token}
    (reading : scanner.next = (.ok token, rest))
    : ∃ freshToken freshRest,
        fresh.next = (.ok freshToken, freshRest)
        ∧ token.Alike (IsMovedTo origin) freshToken
        ∧ rest.Resumes origin freshRest := by
  obtain ⟨_, freshRest, freshReading, alike, rests⟩ := resumes.next_alike reading
  cases alike with
  | ok tokens => exact ⟨_, freshRest, freshReading, tokens, rests⟩

theorem Resumes.next_of_error (resumes : scanner.Resumes origin fresh) {error : LexicalError}
    (reading : scanner.next = (.error error, rest))
    : ∃ freshError freshRest,
        fresh.next = (.error freshError, freshRest)
        ∧ (ErrorEvent.lexical error).Alike (IsMovedTo origin) (.lexical freshError)
        ∧ rest.Resumes origin freshRest := by
  obtain ⟨_, freshRest, freshReading, alike, rests⟩ := resumes.next_alike reading
  cases alike with
  | error fault moved => exact ⟨_, freshRest, freshReading, ⟨rfl, rfl, .some moved⟩, rests⟩

end Scanner

-----------------------------------------------------------------------------------------
-- Reports
-----------------------------------------------------------------------------------------

/-- Tests that agree find problems with the same code. -/
theorem find?_alike {place : Location → Location → Prop} {diagnostics fresh : List Diagnostic}
    (alike : List.Forall₂ (Diagnostic.Alike place) diagnostics fresh)
    {test freshTest : Diagnostic → Bool}
    (sameTest
      : ∀ first freshFirst, first.Alike place freshFirst → test first = freshTest freshFirst)
    : (diagnostics.find? test).map Diagnostic.code
      = (fresh.find? freshTest).map Diagnostic.code := by
  induction alike with
  | nil => rfl
  | @cons first freshFirst _ _ isFirst _ ih =>
      rw [List.find?_cons, List.find?_cons, sameTest _ _ isFirst]
      cases freshTest freshFirst with
      | true => exact congrArg some isFirst.code
      | false => exact ih

section Reports

variable (originCounted : origin.IsCounted)

include originCounted

/-- Problems at moved places are sorted like those at the places themselves. -/
theorem Diagnostic.Alike.notAfter {first second freshFirst freshSecond : Diagnostic}
    (isFirst : first.Alike (IsMovedTo origin) freshFirst)
    (isSecond : second.Alike (IsMovedTo origin) freshSecond)
    : first.location.notAfter second.location
        = freshFirst.location.notAfter freshSecond.location
      ∧ (first.line = second.line ↔ freshFirst.line = freshSecond.line) := by
  have atFirst := isFirst.location?
  have atSecond := isSecond.location?
  unfold Diagnostic.line Diagnostic.location
  generalize first.location? = firstPlace, freshFirst.location? = freshFirstPlace at atFirst ⊢
  generalize second.location? = secondPlace, freshSecond.location? = freshSecondPlace at atSecond ⊢
  cases atFirst with
  | none =>
      cases atSecond with
      | none => exact ⟨rfl, Iff.rfl⟩
      | @some place freshPlace moved =>
          obtain ⟨positive, freshPositive⟩ := moved.line_pos originCounted
          have before : Location.unknown.line < place.line := positive
          have freshBefore : Location.unknown.line < freshPlace.line := freshPositive
          exact ⟨(Location.notAfter_of_line_lt before).1.trans
            (Location.notAfter_of_line_lt freshBefore).1.symm,
            iff_of_false (Nat.ne_of_lt before) (Nat.ne_of_lt freshBefore)⟩
  | @some place freshPlace moved =>
      cases atSecond with
      | none =>
          obtain ⟨positive, freshPositive⟩ := moved.line_pos originCounted
          have before : Location.unknown.line < place.line := positive
          have freshBefore : Location.unknown.line < freshPlace.line := freshPositive
          exact ⟨(Location.notAfter_of_line_lt before).2.trans
            (Location.notAfter_of_line_lt freshBefore).2.symm,
            iff_of_false (Nat.ne_of_gt before) (Nat.ne_of_gt freshBefore)⟩
      | some otherMoved => exact ⟨moved.notAfter otherMoved, moved.line_eq_iff otherMoved⟩

theorem Diagnostic.Alike.repeats {later earlier freshLater freshEarlier : Diagnostic}
    (isLater : later.Alike (IsMovedTo origin) freshLater)
    (isEarlier : earlier.Alike (IsMovedTo origin) freshEarlier)
    : later.repeats earlier = freshLater.repeats freshEarlier := by
  rw [Diagnostic.repeats, Diagnostic.repeats, isLater.message, isEarlier.message,
    decide_eq_decide.mpr (isEarlier.notAfter originCounted isLater).2]

theorem dropRepeats_alike {diagnostics fresh : List Diagnostic}
    (alike : List.Forall₂ (Diagnostic.Alike (IsMovedTo origin)) diagnostics fresh)
    : List.Forall₂ (Diagnostic.Alike (IsMovedTo origin)) (dropRepeats diagnostics)
        (dropRepeats fresh) := by
  induction alike with
  | nil => exact .nil
  | cons first _ ih =>
      rw [dropRepeats_cons, dropRepeats_cons]
      refine .cons first (List.rel_filter ?_ ih)
      intro later freshLater isLater
      dsimp only
      rw [isLater.repeats originCounted first]

theorem all_inOrder_alike {diagnostics fresh : List Diagnostic}
    (alike : List.Forall₂ (Diagnostic.Alike (IsMovedTo origin)) diagnostics fresh)
    {first freshFirst : Diagnostic} (isFirst : first.Alike (IsMovedTo origin) freshFirst)
    : diagnostics.all first.inOrder = fresh.all freshFirst.inOrder := by
  induction alike with
  | nil => rfl
  | cons second _ ih =>
      rw [List.all_cons, List.all_cons, ih, ← Diagnostic.notAfter_eq_inOrder,
        ← Diagnostic.notAfter_eq_inOrder, (isFirst.notAfter originCounted second).1]

/-- The leftmost problems of batches that are alike have the same code. -/
theorem leftmost?_alike {batch fresh : List ErrorEvent}
    (alike : List.Forall₂ (ErrorEvent.Alike (IsMovedTo origin)) batch fresh)
    : (leftmost? batch).map Diagnostic.code = (leftmost? fresh).map Diagnostic.code := by
  have diagnostics : List.Forall₂ (Diagnostic.Alike (IsMovedTo origin)) (diagnosticsOf batch)
      (diagnosticsOf fresh) :=
    List.forall₂_map_left_iff.mpr (List.forall₂_map_right_iff.mpr alike)
  have kept := dropRepeats_alike originCounted diagnostics
  exact find?_alike kept fun _ _ isFirst => all_inOrder_alike originCounted kept isFirst

end Reports

-----------------------------------------------------------------------------------------
-- Lines
-----------------------------------------------------------------------------------------

variable {scopes : ScopeStack} {scanner fresh : Scanner}

theorem skipLine_eq (scanner : Scanner)
    : skipLine scanner
      = match scanner.next with
        | (.error error, rest) => (.error error, rest)
        | (.ok token, rest) =>
            if token.kind.endsLine then (.ok (), rest) else skipLine rest := by
  rw [skipLine]
  split <;> simp_all

/-- The rests of lines are skipped alike, by induction over the tokens skipped. -/
theorem skipLine_alike (resumes : scanner.Resumes origin fresh)
    : (skipLine scanner).2.Resumes origin (skipLine fresh).2
      ∧ (skipLine scanner).1.isOk = (skipLine fresh).1.isOk
      ∧ List.Forall₂ (ErrorEvent.Alike (IsMovedTo origin)) (skipEvents scanner)
          (skipEvents fresh) := by
  unfold skipEvents
  fun_induction skipLine scanner generalizing fresh with
  | case1 scanner error rest reading =>
      obtain ⟨freshError, freshRest, freshReading, events, rests⟩ := resumes.next_of_error reading
      rw [skipLine_eq fresh, freshReading]
      exact ⟨rests, rfl, .cons events .nil⟩
  | case2 scanner token rest reading ends =>
      obtain ⟨freshToken, freshRest, freshReading, tokens, rests⟩ := resumes.next_of_ok reading
      rw [tokens.kind] at ends
      rw [skipLine_eq fresh, freshReading]
      dsimp only
      rw [if_pos ends]
      exact ⟨rests, rfl, .nil⟩
  | case3 scanner token rest reading goesOn ih =>
      obtain ⟨freshToken, freshRest, freshReading, tokens, rests⟩ := resumes.next_of_ok reading
      rw [tokens.kind] at goesOn
      rw [skipLine_eq fresh, freshReading]
      dsimp only
      rw [if_neg goesOn]
      exact ih rests

theorem parseExpression_alike {first freshFirst : Token}
    (tokens : first.Alike (IsMovedTo origin) freshFirst) (resumes : scanner.Resumes origin fresh)
    : Parser.EndsAlike (IsMovedTo origin) (Scanner.Resumes origin)
        (parseExpression scopes first scanner) (parseExpression scopes freshFirst fresh)
      ∧ List.Forall₂ (ErrorEvent.Alike (IsMovedTo origin))
          (Parser.parseEvents scopes {} first scanner)
          (Parser.parseEvents scopes {} freshFirst fresh) := by
  have start : ({} : Parser).Alike (IsMovedTo origin) {} := ⟨⟨.nil, rfl⟩, rfl, rfl⟩
  exact start.parseFrom (Scanner.readsAlike_resumes origin) tokens resumes

/-- Terminators that are alike end lines alike. -/
theorem finishLine_alike {terminator? freshTerminator? : Option Token}
    (terminators : Option.Rel (Token.Alike (IsMovedTo origin)) terminator? freshTerminator?)
    (resumes : scanner.Resumes origin fresh) (compilation freshCompilation : Compilation)
    : (finishLine compilation terminator? scanner).scanner.Resumes origin
          (finishLine freshCompilation freshTerminator? fresh).scanner
      ∧ (finishLine compilation terminator? scanner).continues
        = (finishLine freshCompilation freshTerminator? fresh).continues
      ∧ List.Forall₂ (ErrorEvent.Alike (IsMovedTo origin)) (terminatorEvents terminator? scanner)
          (terminatorEvents freshTerminator? fresh) := by
  unfold finishLine terminatorEvents TokenKind.endsLine
  cases terminators with
  | none => exact ⟨resumes, rfl, .nil⟩
  | @some token freshToken tokens =>
      dsimp only
      rw [tokens.kind]
      by_cases isFile : freshToken.kind = .endOfFile
      · rw [isFile]
        exact ⟨resumes, rfl, .nil⟩
      by_cases isLine : freshToken.kind = .endOfLine
      · rw [isLine]
        exact ⟨resumes, rfl, .nil⟩
      have trailing : (ErrorEvent.trailingToken token).Alike (IsMovedTo origin)
          (.trailingToken freshToken) := by
        refine ⟨rfl, ?_, .some tokens.location⟩
        simp only [ErrorEvent.diagnostic, Diagnostic.errorAt, tokens.kind]
      obtain ⟨rests, sameEnd, skipped⟩ := skipLine_alike resumes
      simp only [isFile, isLine, if_false]
      generalize skipLine scanner = result, skipLine fresh = freshResult at rests sameEnd ⊢
      obtain ⟨ended, rest⟩ := result
      obtain ⟨freshEnded, freshRest⟩ := freshResult
      cases ended with
      | error error =>
          cases freshEnded with
          | error freshError => exact ⟨rests, rfl, .cons trailing skipped⟩
          | ok done => cases sameEnd
      | ok done =>
          cases freshEnded with
          | error freshError => cases sameEnd
          | ok freshDone => exact ⟨rests, rfl, .cons trailing skipped⟩

/-- A line has the same codes wherever it stands, its events are alike, and it ends alike. -/
theorem compileLine_alike (scopes : ScopeStack) (resumes : scanner.Resumes origin fresh)
    (compilation freshCompilation : Compilation)
    : (compileLine scopes compilation scanner).scanner.Resumes origin
          (compileLine scopes freshCompilation fresh).scanner
      ∧ (compileLine scopes compilation scanner).continues
        = (compileLine scopes freshCompilation fresh).continues
      ∧ lineCodes scopes scanner = lineCodes scopes fresh
      ∧ List.Forall₂ (List.Forall₂ (ErrorEvent.Alike (IsMovedTo origin)))
          (lineBatches scopes scanner) (lineBatches scopes fresh) := by
  unfold compileLine lineCodes lineBatches TokenKind.endsLine
  cases reading : scanner.next with
  | mk result rest =>
  cases result with
  | error error =>
      obtain ⟨freshError, freshRest, freshReading, events, rests⟩ := resumes.next_of_error reading
      rw [freshReading]
      exact ⟨rests, rfl, rfl, .cons (.cons events .nil) .nil⟩
  | ok first =>
      obtain ⟨freshFirst, freshRest, freshReading, tokens, rests⟩ := resumes.next_of_ok reading
      rw [freshReading]
      dsimp only
      rw [tokens.kind]
      by_cases isFile : freshFirst.kind = .endOfFile
      · rw [isFile]
        exact ⟨rests, rfl, rfl, .nil⟩
      by_cases isLine : freshFirst.kind = .endOfLine
      · rw [isLine]
        exact ⟨rests, rfl, rfl, .nil⟩
      obtain ⟨ends, events⟩ := parseExpression_alike tokens rests
      obtain ⟨finished, sameEnd, afterwards⟩ := finishLine_alike ends.terminator? ends.source
        (compilation.addExpression _) (freshCompilation.addExpression _)
      simp only [isFile, isLine, if_false]
      refine ⟨finished, sameEnd, congrArg ([·]) ends.code, .cons events ?_⟩
      exact List.forall₂_map_left_iff.mpr (List.forall₂_map_right_iff.mpr
        (afterwards.imp fun _ _ event => .cons event .nil))

/-- Lines that end alike are followed by lines at the same bytes. -/
theorem exists_compileLine_eq {compilation compiled : Compilation} {rest : Scanner} {more : Bool}
    (line : compileLine scopes compilation scanner = ⟨compiled, rest, more⟩)
    (resumes : scanner.Resumes origin fresh)
    : ∃ freshCompiled freshRest,
        compileLine scopes compilation fresh = ⟨freshCompiled, freshRest, more⟩
        ∧ rest.Resumes origin freshRest := by
  obtain ⟨rests, sameEnd, -⟩ := compileLine_alike scopes resumes compilation compilation
  rw [line] at rests sameEnd
  obtain rfl : more = (compileLine scopes compilation fresh).continues := sameEnd
  exact ⟨_, _, rfl, rests⟩

/-- The lines of a run start at the same bytes, by induction over them. -/
theorem lineStarts_alike (scopes : ScopeStack) (resumes : scanner.Resumes origin fresh)
    : List.Forall₂ (Scanner.Resumes origin) (lineStarts scopes scanner)
        (lineStarts scopes fresh) := by
  fun_induction lineStarts scopes scanner generalizing fresh with
  | case1 scanner compiled rest line ih =>
      obtain ⟨freshCompiled, freshRest, freshLine, rests⟩ := exists_compileLine_eq line resumes
      rw [lineStarts_eq freshLine, if_pos rfl]
      exact .cons resumes (ih rests)
  | case2 scanner compiled rest line =>
      obtain ⟨freshCompiled, freshRest, freshLine, -⟩ := exists_compileLine_eq line resumes
      rw [lineStarts_eq freshLine, if_neg Bool.false_ne_true]
      exact .cons resumes .nil

/-- The codes of a run do not depend on where it starts. -/
theorem runCodes_alike (scopes : ScopeStack) (resumes : scanner.Resumes origin fresh)
    : runCodes scopes scanner = runCodes scopes fresh := by
  have starts := lineStarts_alike scopes resumes
  unfold runCodes
  generalize lineStarts scopes scanner = all, lineStarts scopes fresh = allFresh at starts ⊢
  induction starts with
  | nil => rfl
  | cons start _ ih =>
      rw [List.flatMap_cons, List.flatMap_cons, ih,
        (compileLine_alike scopes start { queue := {} } { queue := {} }).2.2.1]

theorem runBatches_alike (scopes : ScopeStack) (resumes : scanner.Resumes origin fresh)
    : List.Forall₂ (List.Forall₂ (ErrorEvent.Alike (IsMovedTo origin)))
        (runBatches scopes scanner) (runBatches scopes fresh) := by
  rw [runBatches_eq_flatMap, runBatches_eq_flatMap]
  exact List.rel_flatMap (lineStarts_alike scopes resumes) fun _ _ start =>
    (compileLine_alike scopes start { queue := {} } { queue := {} }).2.2.2

/-- The code of the first problem in the first batch that holds an event. -/
def firstCode? (batches : List (List ErrorEvent)) : Option ErrorCode :=
  ((firstBatch? batches).bind leftmost?).map Diagnostic.code

/-- Batches that are alike have the same first code: the same batch is the first, and in it problems
are sorted alike.
-/
theorem firstCode?_alike (originCounted : origin.IsCounted)
    {batches others : List (List ErrorEvent)}
    (alike : List.Forall₂ (List.Forall₂ (ErrorEvent.Alike (IsMovedTo origin))) batches others)
    : firstCode? batches = firstCode? others := by
  induction alike with
  | nil => rfl
  | cons batch _ ih =>
      cases batch with
      | nil => exact ih
      | cons event events => exact leftmost?_alike originCounted (.cons event events)

end ExprCompiler
