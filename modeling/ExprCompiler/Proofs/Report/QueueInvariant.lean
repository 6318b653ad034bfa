import ExprCompiler.Proofs.Report.ErrorLimit

/-! The rules of a queue, stated on a log of what it was offered and what it handed out. Main
statement: in every run each answer follows the rules, and the queue holds what the log says it
should.
-/

namespace ExprCompiler

/-- What can be asked of a queue. -/
inductive QueueRequest where
  | add (diagnostic : Diagnostic)
  | addAll (diagnostics : List Diagnostic)
  | flush

/-- What happens in a run: a diagnostic is offered and kept or refused, or what was kept is handed
out.
-/
inductive QueueEvent where
  | offered (diagnostic : Diagnostic) (kept : Bool)
  | flushed (handedOut : List Diagnostic)

/-- The events while several diagnostics are offered. -/
def DiagnosticQueue.offers (queue : DiagnosticQueue) : List Diagnostic → List QueueEvent
  | [] => []
  | diagnostic :: later =>
      .offered diagnostic (queue.accepts diagnostic) :: (queue.add diagnostic).offers later

/-- A queue and the log of all that happened to it. -/
structure QueueRun where
  queue : DiagnosticQueue
  log : List QueueEvent := []

namespace QueueRun

/-- Answers a request. -/
def perform (run : QueueRun) : QueueRequest → QueueRun
  | .add diagnostic =>
      { queue := run.queue.add diagnostic
        log := run.log ++ [.offered diagnostic (run.queue.accepts diagnostic)] }
  | .addAll diagnostics =>
      { queue := run.queue.addAll diagnostics, log := run.log ++ run.queue.offers diagnostics }
  | .flush => { queue := run.queue.flush.2, log := run.log ++ [.flushed run.queue.flush.1] }

/-- The run after all requests to a new queue. -/
def after (config : QueueConfig) (requests : List QueueRequest) : QueueRun :=
  requests.foldl perform { queue := { config } }

end QueueRun

/-- What one event does to the diagnostics that wait to be handed out. -/
def QueueEvent.wait (waiting : List Diagnostic) : QueueEvent → List Diagnostic
  | .offered diagnostic true => waiting ++ [diagnostic]
  | .offered _ false => waiting
  | .flushed _ => []

/-- The diagnostics kept since the last flush, oldest first. -/
def waitingAfter (log : List QueueEvent) : List Diagnostic :=
  log.foldl QueueEvent.wait []

/-- The code of an error that is offered, kept or not. -/
def QueueEvent.errorCode? : QueueEvent → Option ErrorCode
  | .offered diagnostic _ => if diagnostic.isError then some diagnostic.code else none
  | .flushed _ => none

/-- Diagnostics by place, and those at one place as they came. A missing place counts as `0:0`, so
that it comes before all lines and columns, which count from 1.
-/
structure IsSortedByPlace (diagnostics sorted : List Diagnostic) : Prop where
  perm : sorted.Perm diagnostics
  ascending
    : sorted.Pairwise fun earlier later =>
        earlier.location.line < later.location.line
          ∨ earlier.location.line = later.location.line
            ∧ earlier.location.column ≤ later.location.column
  missingFirst
    : sorted.Pairwise fun earlier later => later.location? = none →
        ∀ place, earlier.location? = some place → place = ⟨0, 0⟩
  stable
    : ∀ place, sorted.filter (·.location = place) = diagnostics.filter (·.location = place)

/-- An event that obeys the rules, with some diagnostics waiting. An error is refused at the limit,
and anything that repeats the line and the message of a waiting diagnostic if repetitions are
dropped; nothing else is.
-/
def QueueEvent.Obeys (config : QueueConfig) (waiting : List Diagnostic) : QueueEvent → Prop
  | .offered diagnostic kept =>
      kept = false
        ↔ (diagnostic.isError = true ∧ 0 < config.errorLimit
            ∧ config.errorLimit ≤ waiting.countP Diagnostic.isError)
          ∨ (config.deduplicate = true
            ∧ ∃ earlier ∈ waiting, earlier.line = diagnostic.line
              ∧ earlier.message = diagnostic.message)
  | .flushed handedOut => IsSortedByPlace waiting handedOut

/-- A log in which every event obeys the rules. -/
inductive LawfulLog (config : QueueConfig) : List QueueEvent → Prop where
  | nil : LawfulLog config []
  | snoc {log : List QueueEvent} {event : QueueEvent}
      : LawfulLog config log → event.Obeys config (waitingAfter log) →
        LawfulLog config (log ++ [event])

/-- A queue that is as its log says. -/
structure QueueRun.Sound (config : QueueConfig) (run : QueueRun) : Prop where
  lawful : LawfulLog config run.log
  kept : run.queue.kept = waitingAfter run.log
  counted : run.queue.errorCount = run.queue.kept.countP Diagnostic.isError
  limited : 0 < config.errorLimit → run.queue.errorCount ≤ config.errorLimit
  noRepeats
    : config.deduplicate = true →
        run.queue.kept.Pairwise fun earlier later =>
          ¬(earlier.line = later.line ∧ earlier.message = later.message)
  firstError : run.queue.firstError.code? = run.log.findSome? QueueEvent.errorCode?
  sameConfig : run.queue.config = config

theorem waitingAfter_snoc (log : List QueueEvent) (event : QueueEvent)
    : waitingAfter (log ++ [event]) = event.wait (waitingAfter log) := by
  simp [waitingAfter]

namespace DiagnosticQueue

/-- What a flush hands out is sorted by place. -/
theorem isSortedByPlace_flush (queue : DiagnosticQueue)
    : IsSortedByPlace queue.kept queue.flush.1 := by
  have trans : ∀ first second third : Diagnostic,
      first.location.notAfter second.location → second.location.notAfter third.location →
        first.location.notAfter third.location :=
    fun _ _ _ => Location.notAfter_trans
  have total : ∀ first second : Diagnostic,
      first.location.notAfter second.location || second.location.notAfter first.location :=
    fun _ _ => Location.notAfter_total ..
  have ascending := List.pairwise_mergeSort trans total queue.kept
  refine ⟨List.mergeSort_perm .., ascending.imp ?_, ascending.imp ?_, ?_⟩
  · intro earlier later inOrder
    simpa [Location.notAfter] using inOrder
  · intro earlier later inOrder missing place isPlace
    obtain ⟨line, column⟩ := place
    have least : line = 0 ∧ column = 0 := by
      simpa [Diagnostic.location, missing, isPlace, Location.notAfter, Location.unknown]
        using inOrder
    rw [least.1, least.2]
  · intro place
    refine filter_mergeSort trans total queue.kept fun first _ second _ isFirst isSecond => ?_
    rw [of_decide_eq_true isFirst, of_decide_eq_true isSecond]
    simpa using Location.notAfter_total place place

/-- The two reasons to refuse a diagnostic. -/
theorem accepts_eq_false_iff (queue : DiagnosticQueue) (diagnostic : Diagnostic)
    : queue.accepts diagnostic = false
      ↔ (diagnostic.isError = true ∧ 0 < queue.config.errorLimit
          ∧ queue.config.errorLimit ≤ queue.errorCount)
        ∨ (queue.config.deduplicate = true
          ∧ ∃ earlier ∈ queue.kept, earlier.line = diagnostic.line
            ∧ earlier.message = diagnostic.message) := by
  simp only [accepts, limitReached, isDuplicate, Diagnostic.repeats, Bool.and_eq_false_iff,
    Bool.not_eq_false', Bool.and_eq_true, decide_eq_true_eq, List.any_eq_true]

end DiagnosticQueue

namespace QueueRun

variable {config : QueueConfig} {run : QueueRun}

theorem sound_start (config : QueueConfig) : Sound config { queue := { config } } where
  lawful := .nil
  kept := rfl
  counted := rfl
  limited _ := Nat.zero_le _
  noRepeats _ := .nil
  firstError := rfl
  sameConfig := rfl

namespace Sound

/-- A queue answers an offer by the rules. -/
theorem obeys_offered (sound : run.Sound config) (diagnostic : Diagnostic)
    : (QueueEvent.offered diagnostic (run.queue.accepts diagnostic)).Obeys config
        (waitingAfter run.log) := by
  have refused := run.queue.accepts_eq_false_iff diagnostic
  rw [sound.sameConfig, sound.counted, sound.kept] at refused
  exact refused

/-- An offer keeps a queue sound. What is refused changes nothing but the first error; what is kept
is no error beyond the limit, and repeats nothing if repetitions are dropped.
-/
theorem add (sound : run.Sound config) (diagnostic : Diagnostic)
    : (run.perform (.add diagnostic)).Sound config := by
  have refused := run.queue.accepts_eq_false_iff diagnostic
  rw [sound.sameConfig] at refused
  refine {
    lawful := sound.lawful.snoc (sound.obeys_offered diagnostic)
    kept := ?_, counted := ?_, limited := ?_, noRepeats := ?_, firstError := ?_
    sameConfig := (run.queue.config_add diagnostic).trans sound.sameConfig }
  all_goals simp only [perform]
  · rw [DiagnosticQueue.kept_add, waitingAfter_snoc, sound.kept]
    cases run.queue.accepts diagnostic <;> simp [QueueEvent.wait]
  · rw [DiagnosticQueue.errorCount_add, DiagnosticQueue.kept_add, sound.counted, List.countP_append]
    cases run.queue.accepts diagnostic <;> simp [List.countP_cons]
  · intro hasLimit
    have limited := sound.limited hasLimit
    rw [DiagnosticQueue.errorCount_add]
    cases accepted : run.queue.accepts diagnostic with
    | false => simpa using limited
    | true =>
        cases isError : diagnostic.isError with
        | false => simpa using limited
        | true =>
            have below : ¬config.errorLimit ≤ run.queue.errorCount := by
              intro reached
              have refusal := refused.mpr (.inl ⟨isError, hasLimit, reached⟩)
              exact Bool.noConfusion (accepted.symm.trans refusal)
            simp only [Bool.and_self, if_true]
            omega
  · intro deduplicates
    have noRepeats := sound.noRepeats deduplicates
    rw [DiagnosticQueue.kept_add]
    cases accepted : run.queue.accepts diagnostic with
    | false => simpa using noRepeats
    | true =>
        refine List.pairwise_append.mpr ⟨noRepeats, List.pairwise_singleton .., ?_⟩
        intro earlier isKept later isNew repeated
        rw [List.mem_singleton.mp isNew] at repeated
        have refusal := refused.mpr (.inr ⟨deduplicates, earlier, isKept, repeated⟩)
        exact Bool.noConfusion (accepted.symm.trans refusal)
  · rw [DiagnosticQueue.firstError_add, List.findSome?_append, ← sound.firstError]
    cases isError : diagnostic.isError with
    | false => simp [QueueEvent.errorCode?, isError]
    | true =>
        cases remembered : run.queue.firstError.code? <;>
          simp [QueueEvent.errorCode?, isError, FirstError.record, FirstError.isSet, remembered]

/-- A flush hands out all that waits, and leaves nothing but the first error. -/
theorem flush (sound : run.Sound config) : (run.perform .flush).Sound config where
  lawful := by
    refine sound.lawful.snoc ?_
    have sorted := run.queue.isSortedByPlace_flush
    rw [sound.kept] at sorted
    exact sorted
  kept := (waitingAfter_snoc run.log (.flushed run.queue.flush.1)).symm
  counted := rfl
  limited _ := Nat.zero_le _
  noRepeats _ := .nil
  firstError := by
    simp only [perform, List.findSome?_append, DiagnosticQueue.flush]
    simpa [QueueEvent.errorCode?] using sound.firstError
  sameConfig := sound.sameConfig

end Sound

/-- Offering several diagnostics is offering the first one and then the others. -/
theorem perform_addAll_cons (run : QueueRun) (diagnostic : Diagnostic) (later : List Diagnostic)
    : run.perform (.addAll (diagnostic :: later))
      = (run.perform (.add diagnostic)).perform (.addAll later) := by
  simp [perform, DiagnosticQueue.offers, DiagnosticQueue.addAll]

namespace Sound

/-- By induction on the diagnostics that are offered. -/
theorem addAll (sound : run.Sound config) (diagnostics : List Diagnostic)
    : (run.perform (.addAll diagnostics)).Sound config := by
  induction diagnostics generalizing run with
  | nil => simpa [QueueRun.perform, DiagnosticQueue.offers] using sound
  | cons diagnostic later ih =>
      rw [perform_addAll_cons]
      exact ih (sound.add diagnostic)

theorem perform (sound : run.Sound config) (request : QueueRequest)
    : (run.perform request).Sound config := by
  cases request with
  | add diagnostic => exact sound.add diagnostic
  | addAll diagnostics => exact sound.addAll diagnostics
  | flush => exact sound.flush

/-- By induction on the requests. -/
theorem performAll (sound : run.Sound config) (requests : List QueueRequest)
    : (requests.foldl QueueRun.perform run).Sound config := by
  induction requests generalizing run with
  | nil => exact sound
  | cons request later ih => exact ih (sound.perform request)

end Sound

/-- Nothing is struck from a log, by induction on the requests. -/
theorem exists_log_performAll (run : QueueRun) (requests : List QueueRequest)
    : ∃ more, (requests.foldl perform run).log = run.log ++ more := by
  induction requests generalizing run with
  | nil => exact ⟨[], (List.append_nil _).symm⟩
  | cons request later ih =>
      obtain ⟨more, isMore⟩ := ih (run.perform request)
      obtain ⟨events, isLog⟩ : ∃ events, (run.perform request).log = run.log ++ events := by
        cases request <;> exact ⟨_, rfl⟩
      exact ⟨events ++ more, by rw [List.foldl_cons, isMore, isLog, List.append_assoc]⟩

/-- After every run a queue is as its log says, and the log obeys the rules. A first error stays the
first error, whatever is asked later.
-/
theorem sound_after (config : QueueConfig) (requests later : List QueueRequest)
    : (after config requests).Sound config
      ∧ ∃ code?, (after config (requests ++ later)).queue.firstError.code?
          = (after config requests).queue.firstError.code?.or code? := by
  have sound : (after config requests).Sound config := (sound_start config).performAll requests
  have soundLater : (after config (requests ++ later)).Sound config :=
    (sound_start config).performAll (requests ++ later)
  obtain ⟨more, isMore⟩ := exists_log_performAll (after config requests) later
  have longer : (after config (requests ++ later)).log = (after config requests).log ++ more := by
    rw [← isMore, after, List.foldl_append]
    rfl
  refine ⟨sound, more.findSome? QueueEvent.errorCode?, ?_⟩
  rw [soundLater.firstError, longer, List.findSome?_append, ← sound.firstError]

end QueueRun

end ExprCompiler
