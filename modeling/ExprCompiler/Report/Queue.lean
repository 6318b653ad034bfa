import ExprCompiler.Report.Diagnostic

/-! Diagnostics on their way to the reader. A queue may limit the errors it keeps and may
drop repetitions; whatever it keeps, it remembers the code of the first error it was offered.
-/

namespace ExprCompiler

/-- Remembers the first error code it is told. -/
structure FirstError where
  code? : Option ErrorCode := none
deriving DecidableEq, Repr, Inhabited

namespace FirstError

/-- Whether an error code is remembered. -/
def isSet (first : FirstError) : Bool :=
  first.code?.isSome

/-- The exit code of a run: 0 without an error. -/
def exitCode (first : FirstError) : Nat :=
  (first.code?.map ErrorCode.exitCode).getD 0

/-- Remembers `code` unless one is remembered already. -/
def record (first : FirstError) (code : ErrorCode) : FirstError :=
  if first.isSet then first else ⟨some code⟩

end FirstError

/-- What a queue filters. -/
structure QueueConfig where
  /-- How many errors are kept at most; 0 stands for no limit. -/
  errorLimit : Nat := 0
  /-- Whether a repeated message on one line is dropped. -/
  deduplicate : Bool := true
deriving DecidableEq, Repr, Inhabited

/-- Filters nothing. -/
def QueueConfig.unlimited : QueueConfig where
  errorLimit := 0
  deduplicate := false

/-- The diagnostics kept since the last flush, oldest first, with the number of errors among
them, and the first error ever offered.
-/
structure DiagnosticQueue where
  config : QueueConfig := {}
  kept : List Diagnostic := []
  errorCount : Nat := 0
  firstError : FirstError := {}
deriving DecidableEq, Repr, Inhabited

namespace DiagnosticQueue

/-- Whether no further error is kept before the next flush. -/
def limitReached (queue : DiagnosticQueue) : Bool :=
  0 < queue.config.errorLimit && queue.config.errorLimit ≤ queue.errorCount

/-- Whether any error was ever offered. -/
def hasErrors (queue : DiagnosticQueue) : Bool :=
  queue.firstError.isSet

/-- Whether `diagnostic` repeats one that is kept. -/
def isDuplicate (queue : DiagnosticQueue) (diagnostic : Diagnostic) : Bool :=
  queue.kept.any diagnostic.repeats

/-- Whether `diagnostic` would be kept: an error stops at the limit, and any diagnostic at a
repetition if those are dropped.
-/
def accepts (queue : DiagnosticQueue) (diagnostic : Diagnostic) : Bool :=
  !(diagnostic.isError && queue.limitReached)
    && !(queue.config.deduplicate && queue.isDuplicate diagnostic)

/-- Offers a diagnostic. An error is remembered as the first one even if it is not kept. -/
def add (queue : DiagnosticQueue) (diagnostic : Diagnostic) : DiagnosticQueue :=
  let firstError :=
    if diagnostic.isError then queue.firstError.record diagnostic.code
    else queue.firstError
  if queue.accepts diagnostic then
    { queue with
      kept := queue.kept ++ [diagnostic]
      errorCount := queue.errorCount + if diagnostic.isError then 1 else 0
      firstError }
  else { queue with firstError }

/-- Offers several diagnostics in order. -/
def addAll (queue : DiagnosticQueue) (diagnostics : List Diagnostic) : DiagnosticQueue :=
  diagnostics.foldl add queue

/-- Hands out what was kept, by place; diagnostics at one place stay in order. -/
def flush (queue : DiagnosticQueue) : List Diagnostic × DiagnosticQueue :=
  (queue.kept.mergeSort fun left right => left.location.notAfter right.location,
    { queue with kept := [], errorCount := 0 })

end DiagnosticQueue

end ExprCompiler
