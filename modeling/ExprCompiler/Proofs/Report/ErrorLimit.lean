import Mathlib.Data.List.Perm.Subperm
import ExprCompiler.Proofs.Report.QueueHistory

/-! Queues with a limit. Main statement: offered some errors and then some warnings that repeat none
of them, a queue keeps the first errors of those that it would keep without its limit, and all the
warnings.
-/

namespace ExprCompiler

/-- A configuration that limits nothing. -/
def QueueConfig.withoutLimit (config : QueueConfig) : QueueConfig :=
  { config with errorLimit := 0 }

/-- What is kept with a limit, compared with all that is kept without it: nothing else, all
warnings, and as many errors as the limit allows.
-/
structure QueueConfig.Trims (config : QueueConfig) (all kept : List Diagnostic) : Prop where
  included : kept.Subperm all
  warnings
    : (kept.filter fun diagnostic => !diagnostic.isError).Perm
        (all.filter fun diagnostic => !diagnostic.isError)
  errors
    : 0 < config.errorLimit →
        kept.countP Diagnostic.isError = min config.errorLimit (all.countP Diagnostic.isError)

namespace DiagnosticQueue

theorem kept_add (queue : DiagnosticQueue) (diagnostic : Diagnostic)
    : (queue.add diagnostic).kept
      = queue.kept ++ if queue.accepts diagnostic then [diagnostic] else [] := by
  simp only [add]
  split <;> simp

theorem errorCount_add (queue : DiagnosticQueue) (diagnostic : Diagnostic)
    : (queue.add diagnostic).errorCount
      = queue.errorCount + if queue.accepts diagnostic && diagnostic.isError then 1 else 0 := by
  simp only [add]
  split <;> simp_all

/-- Two queues after the same offers, one with a limit and one without. Both keep errors and then
warnings: the same warnings, and one queue keeps the first errors of the other.
-/
structure Follows (limited full : DiagnosticQueue) (errors warnings : List Diagnostic) : Prop where
  config : full.config = limited.config.withoutLimit
  hasLimit : 0 < limited.config.errorLimit
  keptFull : full.kept = errors ++ warnings
  keptLimited : limited.kept = errors.take limited.config.errorLimit ++ warnings
  count : limited.errorCount = (errors.take limited.config.errorLimit).length
  areErrors : ∀ diagnostic ∈ errors, diagnostic.isError = true
  areWarnings : ∀ diagnostic ∈ warnings, diagnostic.isError = false

variable {limited full : DiagnosticQueue} {errors warnings : List Diagnostic}
  {diagnostic : Diagnostic}

/-- Up to the limit both queues decide alike; from then on, one of them keeps no more errors. -/
theorem Follows.add_error (follows : Follows limited full errors [])
    (isError : diagnostic.isError = true)
    : Follows (limited.add diagnostic) (full.add diagnostic)
        (errors ++ if full.accepts diagnostic then [diagnostic] else []) [] := by
  have keptFull := follows.keptFull
  have keptLimited := follows.keptLimited
  have sameRule : full.config.deduplicate = limited.config.deduplicate := by
    rw [follows.config]
    rfl
  have noLimit : full.config.errorLimit = 0 := by rw [follows.config]; rfl
  have decides : limited.accepts diagnostic
      = (decide (errors.length < limited.config.errorLimit) && full.accepts diagnostic) := by
    by_cases room : errors.length < limited.config.errorLimit
    · have noneLost := List.take_of_length_le (Nat.le_of_lt room)
      have sameKept : full.kept = limited.kept := by rw [keptFull, keptLimited, noneLost]
      have below : limited.limitReached = false := by
        simp [limitReached, follows.count, noneLost, room]
      have unlimited : full.limitReached = false := by simp [limitReached, noLimit]
      simp [accepts, below, unlimited, room, isDuplicate, sameKept, sameRule]
    · have reached : limited.limitReached = true := by
        simp [limitReached, follows.count, follows.hasLimit, Nat.le_of_not_lt room]
      simp [accepts, reached, isError, room]
  refine {
    config := by rw [config_add, config_add, follows.config]
    hasLimit := by rw [config_add]; exact follows.hasLimit
    keptFull := by rw [kept_add, keptFull, List.append_nil, List.append_nil]
    keptLimited := ?_
    count := ?_
    areErrors := ?_
    areWarnings := fun _ member => absurd member List.not_mem_nil }
  · rw [kept_add, keptLimited, decides, config_add, List.append_nil, List.append_nil,
      List.take_append]
    by_cases room : errors.length < limited.config.errorLimit
    · have one : 1 ≤ limited.config.errorLimit - errors.length := by omega
      cases full.accepts diagnostic <;> simp [room, List.take_of_length_le, one]
    · simp [room, Nat.sub_eq_zero_of_le (Nat.le_of_not_lt room)]
  · rw [errorCount_add, follows.count, decides, config_add, isError, List.take_append]
    by_cases room : errors.length < limited.config.errorLimit
    · have one : 1 ≤ limited.config.errorLimit - errors.length := by omega
      cases full.accepts diagnostic <;> simp [room, List.take_of_length_le, one]
    · simp [room, Nat.sub_eq_zero_of_le (Nat.le_of_not_lt room)]
  · intro error member
    rcases List.mem_append.mp member with isOld | isNew
    · exact follows.areErrors error isOld
    · split at isNew
      · rwa [List.mem_singleton.mp isNew]
      · cases isNew

/-- Both queues decide alike about a warning that repeats no error. -/
theorem Follows.add_warning (follows : Follows limited full errors warnings)
    (isWarning : diagnostic.isError = false)
    (apart : ∀ error ∈ errors, diagnostic.repeats error = false)
    : Follows (limited.add diagnostic) (full.add diagnostic) errors
        (warnings ++ if full.accepts diagnostic then [diagnostic] else []) := by
  have sameRule : full.config.deduplicate = limited.config.deduplicate := by
    rw [follows.config]
    rfl
  have noRepeat : ∀ kept : List Diagnostic, (∀ error ∈ kept, error ∈ errors) →
      (kept ++ warnings).any diagnostic.repeats = warnings.any diagnostic.repeats := by
    intro kept among
    rw [List.any_append, List.any_eq_false.mpr fun error member => by
      simp [apart error (among error member)], Bool.false_or]
  have decides : limited.accepts diagnostic = full.accepts diagnostic := by
    simp only [accepts, isDuplicate, follows.keptFull, follows.keptLimited, sameRule, isWarning,
      Bool.false_and, noRepeat errors fun _ => id,
      noRepeat (errors.take _) fun _ => List.mem_of_mem_take]
  refine {
    config := by rw [config_add, config_add, follows.config]
    hasLimit := by rw [config_add]; exact follows.hasLimit
    keptFull := by rw [kept_add, follows.keptFull, List.append_assoc]
    keptLimited := by
      rw [kept_add, follows.keptLimited, decides, config_add, List.append_assoc]
    count := by rw [errorCount_add, isWarning, Bool.and_false, config_add]; exact follows.count
    areErrors := follows.areErrors
    areWarnings := ?_ }
  intro warning member
  rcases List.mem_append.mp member with isOld | isNew
  · exact follows.areWarnings warning isOld
  · split at isNew
    · rwa [List.mem_singleton.mp isNew]
    · cases isNew

/-- By induction on the errors that are offered. -/
theorem Follows.addAll_errors (follows : Follows limited full errors []) {offers : List Diagnostic}
    (areErrors : ∀ diagnostic ∈ offers, diagnostic.isError = true)
    : ∃ kept, Follows (limited.addAll offers) (full.addAll offers) (errors ++ kept) []
        ∧ ∀ error ∈ kept, error ∈ offers := by
  induction offers generalizing limited full errors with
  | nil => exact ⟨[], by rwa [List.append_nil], nofun⟩
  | cons diagnostic offers ih =>
      obtain ⟨isError, others⟩ := List.forall_mem_cons.mp areErrors
      obtain ⟨kept, follows, among⟩ := ih (follows.add_error isError) others
      refine ⟨_, List.append_assoc .. ▸ follows, ?_⟩
      intro error member
      rcases List.mem_append.mp member with isNew | isLater
      · split at isNew
        · exact List.mem_singleton.mp isNew ▸ List.mem_cons_self
        · cases isNew
      · exact List.mem_cons_of_mem _ (among error isLater)

/-- By induction on the warnings that are offered. -/
theorem Follows.addAll_warnings (follows : Follows limited full errors warnings)
    {offers : List Diagnostic} (areWarnings : ∀ diagnostic ∈ offers, diagnostic.isError = false)
    (apart : ∀ diagnostic ∈ offers, ∀ error ∈ errors, diagnostic.repeats error = false)
    : ∃ kept, Follows (limited.addAll offers) (full.addAll offers) errors kept := by
  induction offers generalizing limited full warnings with
  | nil => exact ⟨warnings, follows⟩
  | cons diagnostic offers ih =>
      obtain ⟨isWarning, others⟩ := List.forall_mem_cons.mp areWarnings
      obtain ⟨isApart, othersApart⟩ := List.forall_mem_cons.mp apart
      exact ih (follows.add_warning isWarning isApart) others othersApart

/-- What two such queues hand out. -/
theorem Follows.trims (follows : Follows limited full errors warnings)
    : limited.config.Trims full.flush.1 limited.flush.1 := by
  have sortedFull : full.flush.1.Perm (errors ++ warnings) :=
    (List.mergeSort_perm ..).trans (.of_eq follows.keptFull)
  have sortedLimited : limited.flush.1.Perm (errors.take limited.config.errorLimit ++ warnings) :=
    (List.mergeSort_perm ..).trans (.of_eq follows.keptLimited)
  have noWarnings : ∀ kept : List Diagnostic, (∀ error ∈ kept, error ∈ errors) →
      (kept ++ warnings).filter (fun diagnostic => !diagnostic.isError) = warnings := by
    intro kept among
    rw [List.filter_append, List.filter_eq_nil_iff.mpr fun error member => by
      simp [follows.areErrors error (among error member)], List.nil_append]
    exact List.filter_eq_self.mpr fun warning member => by
      simp [follows.areWarnings warning member]
  have onlyErrors : ∀ kept : List Diagnostic, (∀ error ∈ kept, error ∈ errors) →
      (kept ++ warnings).countP Diagnostic.isError = kept.length := by
    intro kept among
    rw [List.countP_append, List.countP_eq_length.mpr fun error member =>
      follows.areErrors error (among error member), List.countP_eq_zero.mpr fun warning member => by
      simp [follows.areWarnings warning member], Nat.add_zero]
  have first : ∀ error ∈ errors.take limited.config.errorLimit, error ∈ errors :=
    fun _ => List.mem_of_mem_take
  constructor
  · refine (sortedLimited.subperm.trans ?_).trans sortedFull.symm.subperm
    exact ((List.take_sublist ..).append_right warnings).subperm
  · refine (sortedLimited.filter _).trans ((List.Perm.of_eq ?_).trans (sortedFull.symm.filter _))
    rw [noWarnings _ first, noWarnings _ fun _ => id]
  · intro _
    rw [sortedLimited.countP_eq, sortedFull.countP_eq, onlyErrors _ first, onlyErrors _ fun _ => id,
      List.length_take]

/-- Of some errors and then some warnings that repeat none of them, a new queue keeps what its limit
leaves.
-/
theorem flush_addAll_trims (config : QueueConfig) {errors warnings : List Diagnostic}
    (areErrors : ∀ diagnostic ∈ errors, diagnostic.isError = true)
    (areWarnings : ∀ diagnostic ∈ warnings, diagnostic.isError = false)
    (apart : ∀ diagnostic ∈ warnings, ∀ error ∈ errors, diagnostic.repeats error = false)
    : config.Trims
        (({ config := config.withoutLimit } : DiagnosticQueue).addAll (errors ++ warnings)).flush.1
        (({ config } : DiagnosticQueue).addAll (errors ++ warnings)).flush.1 := by
  cases limit : config.errorLimit with
  | zero =>
      have same : config.withoutLimit = config := by rw [QueueConfig.withoutLimit, ← limit]
      rw [same]
      exact ⟨.refl _, .refl _, fun hasLimit => absurd limit (Nat.ne_of_gt hasLimit)⟩
  | succ limit' =>
      have start : Follows ({ config } : DiagnosticQueue)
          ({ config := config.withoutLimit } : DiagnosticQueue) [] [] := {
        config := rfl, hasLimit := by simp [limit], keptFull := rfl, keptLimited := by simp
        count := by simp
        areErrors := fun _ member => absurd member List.not_mem_nil
        areWarnings := fun _ member => absurd member List.not_mem_nil }
      obtain ⟨keptErrors, followsErrors, among⟩ := start.addAll_errors areErrors
      obtain ⟨keptWarnings, follows⟩ := followsErrors.addAll_warnings areWarnings
        fun warning isWarning error isError => apart warning isWarning error (among error isError)
      have trims := follows.trims
      rw [← addAll_append, ← addAll_append, config_addAll] at trims
      exact trims

end DiagnosticQueue

end ExprCompiler
