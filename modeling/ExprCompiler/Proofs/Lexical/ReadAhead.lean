import ExprCompiler.Command.TokenReport
import ExprCompiler.Lexical.Lookahead
import ExprCompiler.Proofs.Lexical.Positions

/-! Reading ahead. Main statement: however a buffer between a scanner and its reader is filled, read
and put back into, no token is lost, repeated or moved, also when a fault stops a filling.
-/

namespace ExprCompiler

theorem Scanner.firstReadings_add (scanner : Scanner) (first second : Nat)
    : scanner.firstReadings (first + second)
      = scanner.firstReadings first ++ (scanner.after first).firstReadings second := by
  induction first generalizing scanner with
  | zero =>
      rw [Nat.zero_add]
      rfl
  | succ first ih =>
      rw [Nat.succ_add]
      exact congrArg (scanner.next.1 :: ·) (ih scanner.next.2)

theorem readTokens_append (first second : List Reading)
    : readTokens (first ++ second) = readTokens first ++ readTokens second :=
  List.filterMap_append

namespace Lookahead

/-- What filling does in a number of readings: it adds their tokens. Without a fault there are
enough, or the source has ended; otherwise the last reading was the only fault.
-/
structure Fills (ahead : Lookahead) (scanner : Scanner) (enough calls : Nat)
    (result : Except LexicalError Unit × Lookahead × Scanner) : Prop where
  reached : result.2.2 = scanner.after calls
  tokens : result.2.1.tokens = ahead.tokens ++ readTokens (scanner.firstReadings calls)
  filled
    : result.1 = .ok () →
        readFaults (scanner.firstReadings calls) = []
        ∧ (enough ≤ result.2.1.tokens.length
          ∨ ∃ last, result.2.1.tokens.getLast? = some last ∧ last.kind = .endOfFile)
  failed
    : ∀ error, result.1 = .error error →
        ∃ earlier,
          calls = earlier + 1
          ∧ readFaults (scanner.firstReadings earlier) = []
          ∧ (scanner.after earlier).next.1 = .error error

theorem exists_last_of_endsSource {ahead : Lookahead} (ends : ahead.endsSource = true)
    : ∃ last, ahead.tokens.getLast? = some last ∧ last.kind = .endOfFile := by
  unfold endsSource at ends
  cases isLast : ahead.tokens.getLast? with
  | none => simp [isLast] at ends
  | some last => exact ⟨last, rfl, by simpa [isLast] using ends⟩

/-- A buffer that needs nothing stays as it is. -/
theorem fills_nothing {ahead : Lookahead} (scanner : Scanner) {enough : Nat}
    (isFull : enough ≤ ahead.tokens.length
      ∨ ∃ last, ahead.tokens.getLast? = some last ∧ last.kind = .endOfFile)
    : ahead.Fills scanner enough 0 (.ok (), ahead, scanner) where
  reached := rfl
  tokens := (List.append_nil _).symm
  filled := fun _ => ⟨rfl, isFull⟩
  failed := fun _ fails => by cases fails

/-- A fault right away adds nothing. -/
theorem fills_fault {ahead : Lookahead} {scanner after : Scanner} {error : LexicalError}
    (reads : scanner.next = (.error error, after)) (enough : Nat)
    : ahead.Fills scanner enough 1 (.error error, ahead, after) where
  reached := (congrArg Prod.snd reads).symm
  tokens := by simp [Scanner.firstReadings, readTokens, reads]
  filled := fun succeeds => by cases succeeds
  failed := by
    rintro _ ⟨⟩
    exact ⟨0, rfl, rfl, congrArg Prod.fst reads⟩

/-- A token is added before all later ones. -/
theorem Fills.prepend {ahead : Lookahead} {scanner after : Scanner} {token : Token}
    (reads : scanner.next = (.ok token, after)) {enough calls : Nat}
    {result : Except LexicalError Unit × Lookahead × Scanner}
    (later : (ahead.push token).Fills after enough calls result)
    : ahead.Fills scanner enough (calls + 1) result := by
  have noFault (count : Nat) (none : readFaults (after.firstReadings count) = [])
      : readFaults (scanner.firstReadings (count + 1)) = [] := by
    rw [Scanner.firstReadings, reads]
    exact none
  refine ⟨?_, ?_, fun succeeds => ?_, fun error fails => ?_⟩
  · rw [later.reached, Scanner.after, reads]
  · rw [later.tokens, push, List.append_assoc, Scanner.firstReadings, reads]
    rfl
  · obtain ⟨none, isFull⟩ := later.filled succeeds
    exact ⟨noFault calls none, isFull⟩
  · obtain ⟨earlier, rfl, none, isFault⟩ := later.failed error fails
    refine ⟨earlier + 1, rfl, noFault earlier none, ?_⟩
    rw [Scanner.after, reads]
    exact isFault

/-- By induction on the number of tokens that are missing. -/
theorem exists_fills_fillBy (ahead : Lookahead) (scanner : Scanner) (missing : Nat)
    : ∃ calls,
        ahead.Fills scanner (ahead.tokens.length + missing) calls
          (ahead.fillBy scanner missing) := by
  induction missing generalizing ahead scanner with
  | zero => exact ⟨0, fills_nothing scanner (.inl (Nat.le_refl _))⟩
  | succ missing ih =>
      rw [fillBy]
      split
      · next ends =>
          exact ⟨0, fills_nothing scanner (.inr (exists_last_of_endsSource ends))⟩
      · split
        · next error after reads => exact ⟨1, fills_fault reads _⟩
        · next token after reads =>
            obtain ⟨calls, fills⟩ := ih (ahead.push token) after
            refine ⟨calls + 1, Fills.prepend reads ?_⟩
            have length : (ahead.push token).tokens.length + missing
                = ahead.tokens.length + (missing + 1) := by
              simp [push]
              omega
            rw [← length]
            exact fills

theorem exists_fills_fill (ahead : Lookahead) (scanner : Scanner) (count : Nat)
    : ∃ calls, ahead.Fills scanner count calls (ahead.fill scanner count) := by
  obtain ⟨calls, fills⟩ := ahead.exists_fills_fillBy scanner (count - ahead.tokens.length)
  refine ⟨calls, { fills with filled := fun succeeds => ?_ }⟩
  obtain ⟨none, isFull⟩ := fills.filled succeeds
  exact ⟨none, isFull.imp_left (Nat.le_trans (by omega))⟩

theorem toList_append_pop (ahead : Lookahead)
    : ahead.pop.1.toList ++ ahead.pop.2.tokens = ahead.tokens := by
  obtain ⟨tokens, location⟩ := ahead
  cases tokens <;> rfl

theorem cons_next {ahead : Lookahead} (notEmpty : ahead.tokens ≠ [])
    : ahead.next.1 :: ahead.next.2.tokens = ahead.tokens := by
  obtain ⟨tokens, location⟩ := ahead
  cases tokens with
  | nil => exact absurd rfl notEmpty
  | cons token tokens => rfl

end Lookahead

/-- A scanner with a buffer of tokens that were read ahead, and the tokens that were handed out and
not put back, first to last.
-/
structure BufferedScan where
  scanner : Scanner
  ahead : Lookahead := {}
  handedOut : List Token := []
deriving DecidableEq, Repr

/-- What a reader may ask of a buffer. The token that was handed out last may be put back. -/
inductive BufferRequest where
  | fill (count : Nat)
  | peek
  | pop
  | next
  | putBack
deriving DecidableEq, Repr

namespace BufferedScan

/-- Does what is asked, unless it is not allowed: reading on from an empty buffer, and putting back
when nothing is handed out.
-/
def perform? (scan : BufferedScan) : BufferRequest → Option BufferedScan
  | .fill count =>
      let filled := scan.ahead.fill scan.scanner count
      some { scan with ahead := filled.2.1, scanner := filled.2.2 }
  | .peek => some scan
  | .pop =>
      let popped := scan.ahead.pop
      some { scan with ahead := popped.2, handedOut := scan.handedOut ++ popped.1.toList }
  | .next =>
      if scan.ahead.tokens = [] then none
      else
        let taken := scan.ahead.next
        some { scan with ahead := taken.2, handedOut := scan.handedOut ++ [taken.1] }
  | .putBack =>
      scan.handedOut.getLast?.map fun token =>
        { scan with
          ahead := scan.ahead.pushFront token
          handedOut := scan.handedOut.dropLast }

/-- Does what is asked, one request after the other. -/
def performAll? (scan : BufferedScan) (requests : List BufferRequest) : Option BufferedScan :=
  requests.foldlM perform? scan

/-- The tokens of a number of readings are those handed out and then those that wait, and the
scanner stands after these readings.
-/
structure Holds (scan : BufferedScan) (fresh : Scanner) (calls : Nat) : Prop where
  reached : scan.scanner = fresh.after calls
  tokens : scan.handedOut ++ scan.ahead.tokens = readTokens (fresh.firstReadings calls)

variable {scan after : BufferedScan} {fresh : Scanner} {calls : Nat}

/-- One request keeps the tokens in order: filling moves them from the scanner to the buffer, and
the others move them across the front of the buffer.
-/
theorem Holds.perform (holds : scan.Holds fresh calls) {request : BufferRequest}
    (performed : scan.perform? request = some after)
    : ∃ more, after.Holds fresh (calls + more) := by
  have reached := holds.reached
  have tokens := holds.tokens
  cases request with
  | fill count =>
      obtain rfl := Option.some.inj performed
      obtain ⟨more, fills⟩ := scan.ahead.exists_fills_fill scan.scanner count
      refine ⟨more, ?_, ?_⟩
      · rw [Scanner.after_add, ← reached]
        exact fills.reached
      · rw [Scanner.firstReadings_add, readTokens_append, ← tokens, ← reached,
          List.append_assoc, ← fills.tokens]
  | peek =>
      obtain rfl := Option.some.inj performed
      exact ⟨0, holds⟩
  | pop =>
      obtain rfl := Option.some.inj performed
      refine ⟨0, reached, Eq.trans ?_ tokens⟩
      rw [List.append_assoc, scan.ahead.toList_append_pop]
  | next =>
      rw [perform?] at performed
      split at performed
      · cases performed
      · next notEmpty =>
          obtain rfl := Option.some.inj performed
          refine ⟨0, reached, Eq.trans ?_ tokens⟩
          rw [List.append_assoc, List.singleton_append, Lookahead.cons_next notEmpty]
  | putBack =>
      obtain ⟨token, isLast, rfl⟩ := Option.map_eq_some_iff.mp performed
      refine ⟨0, reached, Eq.trans ?_ tokens⟩
      obtain ⟨earlier, isEarlier⟩ := List.getLast?_eq_some_iff.mp isLast
      rw [isEarlier, Lookahead.pushFront, List.dropLast_concat, List.append_assoc,
        List.singleton_append]

/-- Any requests keep the tokens in order, by induction on them. -/
theorem Holds.performAll (holds : scan.Holds fresh calls) {requests : List BufferRequest}
    (performed : scan.performAll? requests = some after)
    : ∃ more, after.Holds fresh (calls + more) := by
  induction requests generalizing scan calls with
  | nil =>
      obtain rfl := Option.some.inj performed
      exact ⟨0, holds⟩
  | cons request requests ih =>
      rw [performAll?, List.foldlM_cons] at performed
      obtain ⟨middle, first, later⟩ := Option.bind_eq_some_iff.mp performed
      obtain ⟨more, stillHolds⟩ := holds.perform first
      obtain ⟨further, lastHolds⟩ := ih stillHolds later
      rw [Nat.add_assoc] at lastHolds
      exact ⟨more + further, lastHolds⟩

/-- A buffer before a new scanner. -/
def ofBytes (source : List UInt8) : BufferedScan where
  scanner := .ofBytes source

/-- Reading ahead makes no difference. After any requests that are allowed, the tokens handed out,
then those that wait, and then those that the scanner still gives in any number of readings are
those that a new scanner gives when it is read past all faults. The buffer shows the next of them.
Filling it again adds what the scanner gives: without a fault there is enough then, or the source
has ended, and with a fault the tokens before it wait and the scanner stands after it.
-/
theorem tokens_in_order {source : List UInt8} {requests : List BufferRequest}
    {scan : BufferedScan} (performed : (ofBytes source).performAll? requests = some scan)
    : ∃ calls,
        scan.scanner = (Scanner.ofBytes source).after calls
        ∧ (∀ more,
            scan.handedOut ++ scan.ahead.tokens ++ readTokens (scan.scanner.firstReadings more)
              = readTokens ((Scanner.ofBytes source).firstReadings (calls + more)))
        ∧ scan.ahead.peek?
          = (readTokens ((Scanner.ofBytes source).firstReadings calls))[scan.handedOut.length]?
        ∧ ∀ count, ∃ added,
            scan.ahead.Fills scan.scanner count added (scan.ahead.fill scan.scanner count) := by
  have atStart : (ofBytes source).Holds (.ofBytes source) 0 := ⟨rfl, rfl⟩
  obtain ⟨calls, holds⟩ := atStart.performAll performed
  rw [Nat.zero_add] at holds
  refine ⟨calls, holds.reached, fun more => ?_, ?_, fun count => ?_⟩
  · rw [Scanner.firstReadings_add, readTokens_append, ← holds.tokens, ← holds.reached]
  · rw [← holds.tokens, List.getElem?_append_right (Nat.le_refl _), Nat.sub_self]
    exact List.head?_eq_getElem?
  · exact scan.ahead.exists_fills_fill scan.scanner count

/-- The question mark stops the first filling after one token. That token and the next are handed
out and put back, and the second filling has read on after the fault.
-/
theorem tokens_in_order_putBack
    : ∃ scan,
        (ofBytes (Utf8.encode "a ? b c")).performAll?
            [.fill 3, .pop, .fill 2, .pop, .putBack, .putBack, .next]
          = some scan
        ∧ scan.handedOut.map Token.kind = [.identifier "a"]
        ∧ scan.ahead.tokens.map Token.kind = [.identifier "b", .identifier "c"]
        ∧ ∃ calls,
            scan.scanner = (Scanner.ofBytes (Utf8.encode "a ? b c")).after calls
            ∧ ∀ more,
                scan.handedOut ++ scan.ahead.tokens
                    ++ readTokens (scan.scanner.firstReadings more)
                  = readTokens
                      ((Scanner.ofBytes (Utf8.encode "a ? b c")).firstReadings (calls + more)) := by
  have kinds : ((ofBytes (Utf8.encode "a ? b c")).performAll?
        [.fill 3, .pop, .fill 2, .pop, .putBack, .putBack, .next]).map
          (fun scan => (scan.handedOut.map Token.kind, scan.ahead.tokens.map Token.kind))
      = some ([.identifier "a"], [.identifier "b", .identifier "c"]) := by
    decide +kernel
  obtain ⟨scan, performed, areKinds⟩ := Option.map_eq_some_iff.mp kinds
  obtain ⟨calls, reached, tokens, -⟩ := tokens_in_order performed
  exact ⟨scan, performed, congrArg Prod.fst areKinds, congrArg Prod.snd areKinds, calls, reached,
    tokens⟩

end BufferedScan

end ExprCompiler
