import ExprCompiler.Report.Queue

/-! What a queue keeps of all the diagnostics it was offered. The first error is that of the
first error-severity diagnostic, and a queue without a limit keeps everything but
repetitions.
-/

namespace ExprCompiler

/-- A list of diagnostics without those that repeat the line and message of an earlier one. -/
def dropRepeats : List Diagnostic → List Diagnostic
  | [] => []
  | diagnostic :: later =>
      diagnostic :: (dropRepeats later).filter fun repeated =>
        ¬(repeated.line = diagnostic.line ∧ repeated.message = diagnostic.message)

theorem dropRepeats_cons (diagnostic : Diagnostic) (later : List Diagnostic)
    : dropRepeats (diagnostic :: later)
      = diagnostic :: (dropRepeats later).filter fun repeated =>
          !repeated.repeats diagnostic := by
  simp [dropRepeats, Diagnostic.repeats, eq_comm]

/-- What is left without repetitions was there before, by induction on the list. -/
theorem mem_of_mem_dropRepeats {diagnostic : Diagnostic} {diagnostics : List Diagnostic}
    (member : diagnostic ∈ dropRepeats diagnostics)
    : diagnostic ∈ diagnostics := by
  induction diagnostics with
  | nil => exact member
  | cons first later ih =>
      rcases List.mem_cons.mp member with isFirst | isLater
      · exact isFirst ▸ List.mem_cons_self
      · exact List.mem_cons_of_mem first (ih (List.mem_filter.mp isLater).1)

theorem dropRepeats_sublist (diagnostics : List Diagnostic)
    : (dropRepeats diagnostics).Sublist diagnostics := by
  induction diagnostics with
  | nil => exact .slnil
  | cons first later ih => exact (List.filter_sublist.trans ih).cons_cons first

/-- Nothing is dropped exactly when nothing is repeated, by induction on the list. -/
theorem dropRepeats_eq_self_iff (diagnostics : List Diagnostic)
    : dropRepeats diagnostics = diagnostics
      ↔ diagnostics.Pairwise fun earlier later => later.repeats earlier = false := by
  induction diagnostics with
  | nil => simp [dropRepeats]
  | cons first later ih =>
      rw [List.pairwise_cons, ← ih, dropRepeats_cons, List.cons_inj_right]
      constructor
      · intro kept
        have noShorter : later.length ≤ (dropRepeats later).length :=
          Nat.le_trans (Nat.le_of_eq (congrArg List.length kept).symm) (List.length_filter_le ..)
        have nothingLater := (dropRepeats_sublist later).eq_of_length_le noShorter
        rw [nothingLater] at kept
        refine ⟨fun repeated member => ?_, nothingLater⟩
        simpa using List.filter_eq_self.mp kept repeated member
      · rintro ⟨noRepeat, kept⟩
        rw [kept]
        exact List.filter_eq_self.mpr fun repeated member => by simp [noRepeat repeated member]

/-- What repeats a repetition repeats the original. -/
theorem Diagnostic.repeats_trans {first second third : Diagnostic}
    (later : third.repeats second) (earlier : second.repeats first)
    : third.repeats first := by
  simp only [repeats, Bool.and_eq_true, decide_eq_true_eq] at *
  exact ⟨earlier.1.trans later.1, earlier.2.trans later.2⟩

/-- Whether two diagnostics are in the order of their places: by line, then by column. -/
def Diagnostic.inOrder (first second : Diagnostic) : Bool :=
  first.location.line < second.location.line
    ∨ first.location.line = second.location.line
      ∧ first.location.column ≤ second.location.column

theorem Diagnostic.notAfter_eq_inOrder (first second : Diagnostic)
    : first.location.notAfter second.location = first.inOrder second := by
  simp [Location.notAfter, inOrder]

theorem Location.notAfter_trans {first second third : Location}
    (before : first.notAfter second = true) (after : second.notAfter third = true)
    : first.notAfter third = true := by
  simp only [notAfter, Bool.or_eq_true, Bool.and_eq_true, decide_eq_true_eq] at *
  omega

theorem Location.notAfter_total (first second : Location)
    : (first.notAfter second || second.notAfter first) = true := by
  simp only [notAfter, Bool.or_eq_true, Bool.and_eq_true, decide_eq_true_eq]
  omega

section Sorting

variable {Item : Type} {notAfter : Item → Item → Bool}
  (trans : ∀ first second third, notAfter first second → notAfter second third →
    notAfter first third)
  (total : ∀ first second, notAfter first second || notAfter second first)

include trans total

/-- Sorting keeps the order of items of which none comes after another. -/
theorem filter_mergeSort (items : List Item) {test : Item → Bool}
    (alike : ∀ first ∈ items, ∀ second ∈ items, test first → test second →
      notAfter first second)
    : (items.mergeSort notAfter).filter test = items.filter test := by
  have inOrder : (items.filter test).Pairwise fun first second => notAfter first second := by
    rw [List.pairwise_filter]
    exact List.pairwise_of_forall_mem_list fun first isItem second isOther isFirst isSecond =>
      alike first isItem second isOther isFirst isSecond
  have kept := (List.sublist_mergeSort trans total inOrder List.filter_sublist).filter test
  simp only [List.filter_filter, Bool.and_self] at kept
  exact (kept.eq_of_length ((items.mergeSort_perm notAfter).filter test).length_eq.symm).symm

/-- A sorted list starts with the first of the least: sorting keeps the order of the least ones,
and everything else comes after them.
-/
theorem head?_mergeSort (items : List Item)
    : (items.mergeSort notAfter).head?
      = items.find? fun item => items.all fun other => notAfter item other := by
  let isLeast : Item → Bool := fun item => items.all fun other => notAfter item other
  have sameLeast : (items.mergeSort notAfter).filter isLeast = items.filter isLeast :=
    filter_mergeSort trans total items fun _ _ second isItem isFirst _ =>
      List.all_eq_true.mp isFirst second isItem
  rw [← List.head?_filter, ← sameLeast]
  cases result : items.mergeSort notAfter with
  | nil => rfl
  | cons first later =>
      have firstIsLeast : isLeast first = true := by
        refine List.all_eq_true.mpr fun other member => ?_
        have inOrder := List.pairwise_mergeSort trans total items
        rw [result] at inOrder
        rcases List.mem_cons.mp (result ▸ (items.mergeSort_perm notAfter).mem_iff.mpr member)
          with isFirst | isLater
        · rw [isFirst]
          simpa using total first first
        · exact List.rel_of_pairwise_cons inOrder isLater
      rw [List.filter_cons_of_pos firstIsLeast]
      rfl

end Sorting

/-- A status is the code that it holds. -/
theorem FirstError.eq_of_code? {first second : FirstError} (same : first.code? = second.code?)
    : first = second :=
  congrArg FirstError.mk same

namespace DiagnosticQueue

/-- The first error after an offer is the one before it, if there was one. -/
theorem firstError_add (queue : DiagnosticQueue) (diagnostic : Diagnostic)
    : (queue.add diagnostic).firstError
      = if diagnostic.isError then queue.firstError.record diagnostic.code
        else queue.firstError := by
  simp only [add]
  split <;> rfl

/-- An error that was offered is never forgotten. -/
theorem hasErrors_add {queue : DiagnosticQueue} {diagnostic : Diagnostic}
    (error : diagnostic.isError = true)
    : (queue.add diagnostic).hasErrors = true := by
  rw [hasErrors, firstError_add, if_pos error, FirstError.record]
  split
  · next set => exact set
  · rfl

@[simp] theorem config_add (queue : DiagnosticQueue) (diagnostic : Diagnostic)
    : (queue.add diagnostic).config = queue.config := by
  simp only [add]
  split <;> rfl

@[simp] theorem addAll_nil (queue : DiagnosticQueue) : queue.addAll [] = queue := rfl

/-- Offering one list after another is offering both. -/
theorem addAll_append (queue : DiagnosticQueue) (first second : List Diagnostic)
    : queue.addAll (first ++ second) = (queue.addAll first).addAll second :=
  List.foldl_append

theorem config_addAll (queue : DiagnosticQueue) (diagnostics : List Diagnostic)
    : (queue.addAll diagnostics).config = queue.config := by
  induction diagnostics generalizing queue with
  | nil => rfl
  | cons diagnostic later ih => exact (ih _).trans (config_add queue diagnostic)

/-- Whatever a queue keeps, it remembers the code of the first error it was offered. By
induction on the offers.
-/
theorem firstError_addAll (queue : DiagnosticQueue) (diagnostics : List Diagnostic)
    : (queue.addAll diagnostics).firstError.code?
      = queue.firstError.code?.or ((diagnostics.find? Diagnostic.isError).map Diagnostic.code) := by
  induction diagnostics generalizing queue with
  | nil => simp [addAll]
  | cons diagnostic later ih =>
      have next := ih (queue.add diagnostic)
      rw [firstError_add] at next
      rw [show queue.addAll (diagnostic :: later) = (queue.add diagnostic).addAll later from rfl,
        next]
      cases isError : diagnostic.isError with
      | false => simp [isError]
      | true =>
          cases remembered : queue.firstError.code? <;>
            simp [isError, FirstError.record, FirstError.isSet, remembered]

/-- A new queue that was offered only errors remembers the code of the first one. -/
theorem firstError_addAll_errors {errors : List Diagnostic}
    (allErrors : ∀ error ∈ errors, error.isError)
    : (({} : DiagnosticQueue).addAll errors).firstError
      = ⟨errors.head?.map Diagnostic.code⟩ := by
  have remembered := firstError_addAll {} errors
  cases errors with
  | nil => rfl
  | cons error later =>
      rw [List.find?_cons_of_pos (allErrors error (by simp))] at remembered
      exact congrArg FirstError.mk remembered

/-- A queue without a limit that drops repetitions refuses exactly those. -/
theorem kept_add_deduplicating {queue : DiagnosticQueue} (filters : queue.config = {})
    (diagnostic : Diagnostic)
    : (queue.add diagnostic).kept
      = if queue.isDuplicate diagnostic then queue.kept else queue.kept ++ [diagnostic] := by
  cases duplicate : queue.isDuplicate diagnostic <;>
    simp [add, accepts, limitReached, filters, duplicate]

/-- After an offer, what repeats it counts as a repetition too. If the offer itself was refused,
it repeats one that is kept, and so does whatever repeats it.
-/
theorem isDuplicate_add_deduplicating {queue : DiagnosticQueue} (filters : queue.config = {})
    (diagnostic other : Diagnostic)
    : (queue.add diagnostic).isDuplicate other
      = (queue.isDuplicate other || other.repeats diagnostic) := by
  rw [isDuplicate, kept_add_deduplicating filters]
  cases duplicate : queue.isDuplicate diagnostic with
  | false => simp [isDuplicate]
  | true =>
      obtain ⟨original, member, repeated⟩ := List.any_eq_true.mp duplicate
      have absorbed (again : other.repeats diagnostic = true) : queue.isDuplicate other = true :=
        List.any_eq_true.mpr ⟨original, member, Diagnostic.repeats_trans again repeated⟩
      cases again : other.repeats diagnostic with
      | false => simp [isDuplicate]
      | true => simpa [isDuplicate] using absorbed again

/-- A queue without a limit keeps, after what it had, the first of all diagnostics that repeat
each other and nothing it has. By induction on the offers.
-/
theorem kept_addAll_deduplicating {queue : DiagnosticQueue} (filters : queue.config = {})
    (diagnostics : List Diagnostic)
    : (queue.addAll diagnostics).kept
      = queue.kept
        ++ (dropRepeats diagnostics).filter (fun diagnostic => !queue.isDuplicate diagnostic) := by
  induction diagnostics generalizing queue with
  | nil => simp [addAll, dropRepeats]
  | cons diagnostic later ih =>
      have next := ih ((config_add queue diagnostic).trans filters)
      simp only [isDuplicate_add_deduplicating filters, Bool.not_or] at next
      rw [show queue.addAll (diagnostic :: later) = (queue.add diagnostic).addAll later from rfl,
        next, kept_add_deduplicating filters, dropRepeats_cons, List.filter_cons,
        List.filter_filter]
      cases queue.isDuplicate diagnostic <;> simp

/-- A new queue hands out what it was offered without repetitions, by place. -/
theorem flush_addAll_new (diagnostics : List Diagnostic)
    : (({} : DiagnosticQueue).addAll diagnostics).flush.1
      = (dropRepeats diagnostics).mergeSort Diagnostic.inOrder := by
  have kept : (({} : DiagnosticQueue).addAll diagnostics).kept = _ :=
    kept_addAll_deduplicating rfl diagnostics
  have all
      : (dropRepeats diagnostics).filter
          (fun diagnostic => !({} : DiagnosticQueue).isDuplicate diagnostic)
        = dropRepeats diagnostics :=
    List.filter_eq_self.mpr (by simp [isDuplicate])
  simp only [flush, kept, all, Diagnostic.notAfter_eq_inOrder]
  rfl

/-- A queue that filters nothing keeps everything, by induction on the offers. -/
theorem kept_addAll_unlimited {queue : DiagnosticQueue} (unfiltered : queue.config = .unlimited)
    (diagnostics : List Diagnostic)
    : (queue.addAll diagnostics).kept = queue.kept ++ diagnostics := by
  induction diagnostics generalizing queue with
  | nil => exact (List.append_nil _).symm
  | cons diagnostic later ih =>
      have next := ih ((config_add queue diagnostic).trans unfiltered)
      rw [show queue.addAll (diagnostic :: later) = (queue.add diagnostic).addAll later from rfl,
        next]
      simp [add, accepts, limitReached, unfiltered, QueueConfig.unlimited]

end DiagnosticQueue

end ExprCompiler
