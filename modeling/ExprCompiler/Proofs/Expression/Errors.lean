import ExprCompiler.Expression.Parser
import ExprCompiler.Proofs.Report.QueueHistory

/-! Errors that a parser meets. Every problem that it reports is one, and no step forgets one. -/

namespace ExprCompiler

/-- The problem of a check is an error. -/
theorem Reduction.isError_of_ofCheck {location : Location} {check : Except TypeFault Checked}
    {problem : Diagnostic} (reported : (ofCheck location check).problem? = some problem)
    : problem.isError = true := by
  cases check with
  | ok checked => cases reported
  | error fault =>
      cases reported
      rfl

/-- The problem of a reduction is an error. -/
theorem Reduction.isError_of_ofHandle {scopes : ScopeStack} {handle : List StackItem}
    {problem : Diagnostic} (reported : (ofHandle scopes handle).problem? = some problem)
    : problem.isError = true := by
  unfold ofHandle at reported
  split at reported
  · exact isError_of_ofCheck reported
  · exact isError_of_ofCheck reported
  · cases reported
  · exact isError_of_ofCheck reported
  · obtain ⟨_, rfl⟩ := by simpa using reported
    rfl

namespace Parser

/-- The parser after a token. -/
def Progress.state : Progress → Parser
  | .more parser | .done parser => parser

theorem hasErrors_report (parser : Parser) (fault : ParseFault) (location : Location)
    : (parser.report fault location).diagnostics.hasErrors = true :=
  DiagnosticQueue.hasErrors_add rfl

/-- If no error is known after a reduction, it had no problem, and none was known before. -/
theorem sound_of_reduce {scopes : ScopeStack} {parser : Parser}
    (sound : (parser.reduce scopes).diagnostics.hasErrors = false)
    : (Reduction.ofHandle scopes parser.stack.popHandle.1).problem? = none
      ∧ parser.diagnostics.hasErrors = false := by
  simp only [reduce] at sound
  cases reported : (Reduction.ofHandle scopes parser.stack.popHandle.1).problem? with
  | none =>
      rw [reported] at sound
      exact ⟨rfl, sound⟩
  | some problem =>
      have errors : (parser.diagnostics.add problem).hasErrors = true :=
        DiagnosticQueue.hasErrors_add (Reduction.isError_of_ofHandle reported)
      simp [reported, errors] at sound

end Parser

end ExprCompiler
