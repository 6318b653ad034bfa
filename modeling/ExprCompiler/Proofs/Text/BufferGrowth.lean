import ExprCompiler.Text.Buffer
import Mathlib.Order.Bounds.Basic
import Mathlib.Tactic.Ring

/-! The room of a byte buffer. It depends on the greatest number of bytes that the buffer held since
it was made, and not on what it holds now. Main statement: after all edits a buffer holds the bytes
that were written and not dropped, and its room is the first one with which it was made, doubled as
often as the bytes needed it and no more.
-/

namespace ExprCompiler

/-- How a buffer is made. -/
inductive BufferOrigin where
  | usual
  | withCapacity (capacity : Nat)
  | ofText (text : String)
deriving DecidableEq, Repr

/-- What can be done to a buffer. -/
inductive BufferEdit where
  | push (byte : UInt8)
  | pushChar (char : Char)
  | pushText (text : String)
  | retract (count : Nat)
  | clear
  | takeText
deriving DecidableEq, Repr

namespace BufferOrigin

/-- The buffer as it is made. -/
def buffer : BufferOrigin → ByteBuffer
  | .usual => {}
  | .withCapacity capacity => .withCapacity capacity
  | .ofText text => .ofText text

end BufferOrigin

/-- The bytes that an edit adds at the end, if it is one that adds. -/
def BufferEdit.added? : BufferEdit → Option (List UInt8)
  | .push byte => some [byte]
  | .pushChar char => some (String.utf8EncodeChar char)
  | .pushText text => some text.toUTF8.data.toList
  | .retract _ | .clear | .takeText => none

/-- The buffer after an edit. -/
def ByteBuffer.perform (buffer : ByteBuffer) : BufferEdit → ByteBuffer
  | .push byte => buffer.push byte
  | .pushChar char => buffer.pushChar char
  | .pushText text => buffer.pushText text
  | .retract count => buffer.retract count
  | .clear => buffer.clear
  | .takeText => buffer.takeText.2

/-- The buffer after all edits. -/
def ByteBuffer.run (buffer : ByteBuffer) (edits : List BufferEdit) : ByteBuffer :=
  edits.foldl perform buffer

/-- What is known of a buffer from its edits: the bytes that were written and not dropped, the room
it was made with, and how many bytes it held since then, the latest number first.
-/
structure BufferHistory where
  bytes : List UInt8 := []
  start : Nat := 8
  lengths : List Nat := [0]
  start_pos : 0 < start := by decide
  length_mem : bytes.length ∈ lengths := by decide

namespace BufferHistory

/-- Other bytes in the same buffer. -/
def hold (history : BufferHistory) (bytes : List UInt8) : BufferHistory :=
  { history with
    bytes
    lengths := bytes.length :: history.lengths
    length_mem := List.mem_cons_self }

/-- The history of a buffer that was just made. -/
def ofOrigin : BufferOrigin → BufferHistory
  | .usual => {}
  | .withCapacity capacity =>
      { start := max capacity 1, start_pos := Nat.lt_of_lt_of_le Nat.one_pos (Nat.le_max_right ..) }
  | .ofText text => ({} : BufferHistory).hold text.toUTF8.data.toList

/-- One more edit. Handing the text over leaves a buffer without a history. -/
def record (history : BufferHistory) : BufferEdit → BufferHistory
  | .push byte => history.hold (history.bytes ++ [byte])
  | .pushChar char => history.hold (history.bytes ++ String.utf8EncodeChar char)
  | .pushText text => history.hold (history.bytes ++ text.toUTF8.data.toList)
  | .retract count =>
      history.hold
        (history.bytes.take (history.bytes.length - min count history.bytes.length))
  | .clear => history.hold []
  | .takeText => {}

/-- The history of a buffer after all edits. -/
def after (origin : BufferOrigin) (edits : List BufferEdit) : BufferHistory :=
  edits.foldl record (ofOrigin origin)

/-- The room that a history calls for: the first one, doubled as few times as possible for every
number of bytes that was held.
-/
def CallsFor (history : BufferHistory) (capacity : Nat) : Prop :=
  ∃ doublings,
    IsLeast { doublings | ∀ length ∈ history.lengths, length ≤ history.start * 2 ^ doublings }
        doublings
      ∧ capacity = history.start * 2 ^ doublings

end BufferHistory

/-- The loop that makes room: as long as `needed` bytes do not fit, the room is doubled. No room may
reach `2 ^ 63`, as nothing of that size can be allocated. There is a run of the loop only if it
ends.
-/
inductive MakesRoom (needed : Nat) : Nat → Nat → Prop where
  | enough {capacity : Nat} (fits : needed ≤ capacity) : MakesRoom needed capacity capacity
  | double {capacity result : Nat} (short : capacity < needed) (allocable : 2 * capacity < 2 ^ 63)
      (following : MakesRoom needed (2 * capacity) result) : MakesRoom needed capacity result

/-- A buffer with the bytes and the room that its history says. -/
structure ByteBuffer.Matches (buffer : ByteBuffer) (history : BufferHistory) : Prop where
  content : buffer.toList = history.bytes
  room : history.CallsFor buffer.capacity

/-- What holds of every buffer in use. -/
structure ByteBuffer.Follows (buffer : ByteBuffer) (history : BufferHistory) : Prop
    extends buffer.Matches history where
  fits : buffer.size ≤ buffer.capacity
  /-- Only handing the text over may leave less room. -/
  keeps : ∀ edit ≠ .takeText, buffer.capacity ≤ (buffer.perform edit).capacity
  /-- Dropping bytes leaves the room as it is. -/
  drops
    : ∀ edit ≠ .takeText, edit.added? = none →
        (buffer.perform edit).capacity = buffer.capacity
  /-- Adding bytes makes room for them, and the loop that does it ends. -/
  grows
    : ∀ edit added, edit.added? = some added → buffer.size + added.length < 2 ^ 62 →
        MakesRoom (buffer.size + added.length) (max buffer.capacity 1)
          (buffer.perform edit).capacity

namespace ByteBuffer

/-- Doubling stops as soon as the bytes fit, by induction on the doublings. -/
theorem exists_doubleUntil_eq {capacity : Nat} (positive : 0 < capacity) (needed : Nat)
    : ∃ doublings, IsLeast { doublings | needed ≤ capacity * 2 ^ doublings } doublings
        ∧ doubleUntil capacity needed = capacity * 2 ^ doublings := by
  fun_induction doubleUntil capacity needed with
  | case1 capacity fits => exact ⟨0, ⟨by simpa using fits, fun _ _ => Nat.zero_le _⟩, by simp⟩
  | case2 capacity short ih =>
      simp only [positive.ne', dite_false, if_false] at ih ⊢
      obtain ⟨doublings, ⟨enough, least⟩, result⟩ := ih (by omega)
      have shift (further : Nat) : 2 * capacity * 2 ^ further = capacity * 2 ^ (further + 1) := by
        ring
      refine ⟨doublings + 1, ⟨?_, ?_⟩, by rw [result, shift]⟩
      · rw [Set.mem_ofPred_eq, ← shift]
        exact enough
      · intro other otherEnough
        cases other with
        | zero => exact absurd (by simpa using otherEnough) short
        | succ other =>
            rw [Set.mem_ofPred_eq, ← shift] at otherEnough
            exact Nat.succ_le_succ (least otherEnough)

/-- The loop ends with the same room, by induction on the doublings. No room gets too large: the one
before it was smaller than what is needed.
-/
theorem makesRoom_doubleUntil {capacity needed : Nat} (positive : 0 < capacity)
    (bounded : needed < 2 ^ 62)
    : MakesRoom needed capacity (doubleUntil capacity needed) := by
  fun_induction doubleUntil capacity needed with
  | case1 capacity fits => exact .enough fits
  | case2 capacity short ih =>
      simp only [positive.ne', dite_false, if_false] at ih ⊢
      exact .double (by omega) (by omega) (ih (by omega))

end ByteBuffer

namespace BufferHistory

variable {history : BufferHistory} {capacity : Nat}

theorem CallsFor.pos (calls : history.CallsFor capacity) : 0 < capacity := by
  obtain ⟨doublings, _, rfl⟩ := calls
  exact Nat.mul_pos history.start_pos (Nat.two_pow_pos doublings)

/-- A buffer has room for its bytes, as it holds them now. -/
theorem CallsFor.length_le (calls : history.CallsFor capacity)
    : history.bytes.length ≤ capacity := by
  obtain ⟨doublings, ⟨enough, _⟩, rfl⟩ := calls
  exact enough _ history.length_mem

/-- Doubling until the new bytes fit gives the room that the longer history calls for. The doublings
before are needed still, so those that come last are as few as possible.
-/
theorem CallsFor.hold (calls : history.CallsFor capacity) (bytes : List UInt8)
    : (history.hold bytes).CallsFor (ByteBuffer.doubleUntil capacity bytes.length) := by
  obtain ⟨further, ⟨enough, least⟩, result⟩ :=
    ByteBuffer.exists_doubleUntil_eq calls.pos bytes.length
  obtain ⟨doublings, ⟨enoughBefore, leastBefore⟩, rfl⟩ := calls
  have split (more : Nat)
      : history.start * 2 ^ doublings * 2 ^ more = history.start * 2 ^ (doublings + more) := by
    ring
  refine ⟨doublings + further, ⟨?_, ?_⟩, by rw [result, split]; rfl⟩
  · refine List.forall_mem_cons.mpr ⟨?_, fun length member => ?_⟩
    · exact le_of_le_of_eq enough (split further)
    · calc length ≤ history.start * 2 ^ doublings := enoughBefore length member
        _ ≤ history.start * 2 ^ (doublings + further) :=
          Nat.mul_le_mul_left _ (Nat.pow_le_pow_right Nat.two_pos (Nat.le_add_right ..))
  · intro other otherEnough
    obtain ⟨fitsNew, fitsBefore⟩ := List.forall_mem_cons.mp otherEnough
    obtain ⟨more, rfl⟩ := Nat.exists_eq_add_of_le (leastBefore fitsBefore)
    exact Nat.add_le_add_left (least (le_of_le_of_eq fitsNew (split more).symm)) doublings

/-- The room stays as it is with bytes that fit. -/
theorem CallsFor.hold_of_le (calls : history.CallsFor capacity) {bytes : List UInt8}
    (fits : bytes.length ≤ capacity)
    : (history.hold bytes).CallsFor capacity := by
  have held := calls.hold bytes
  rwa [ByteBuffer.doubleUntil, if_pos fits] at held

/-- A new buffer has the room it was made with. -/
theorem calls_start (history : BufferHistory) (onlyEmpty : history.lengths = [0])
    : history.CallsFor history.start :=
  ⟨0, ⟨by simp [onlyEmpty], fun _ _ => Nat.zero_le _⟩, by simp⟩

end BufferHistory

theorem Utf8.encode_eq_toUTF8 (text : String) : encode text = text.toUTF8.data.toList := by
  rw [String.toUTF8, ← String.utf8Encode_toList, List.utf8Encode, List.data_toByteArray]
  rfl

namespace ByteBuffer

variable {buffer : ByteBuffer} {history : BufferHistory}

/-- All edits that add bytes append them in the same way. -/
theorem perform_of_added {edit : BufferEdit} {added : List UInt8} (adds : edit.added? = some added)
    (buffer : ByteBuffer)
    : buffer.perform edit = buffer.append added := by
  cases edit with
  | push byte =>
      cases adds
      simp [perform, push, append]
  | pushChar char =>
      cases adds
      rfl
  | pushText text =>
      obtain rfl := Option.some.inj adds
      rw [perform, pushText, Utf8.encode_eq_toUTF8]
  | retract | clear | takeText => cases adds

theorem record_of_added {edit : BufferEdit} {added : List UInt8} (adds : edit.added? = some added)
    (history : BufferHistory)
    : history.record edit = history.hold (history.bytes ++ added) := by
  cases edit <;> cases adds <;> rfl

/-- Dropping bytes leaves the room as it is. -/
theorem capacity_of_dropped {edit : BufferEdit} (notTaken : edit ≠ .takeText)
    (addsNothing : edit.added? = none) (buffer : ByteBuffer)
    : (buffer.perform edit).capacity = buffer.capacity := by
  cases edit with
  | push | pushChar | pushText => cases addsNothing
  | retract | clear => rfl
  | takeText => exact absurd rfl notTaken

namespace Matches

theorem length_bytes (matched : buffer.Matches history) : history.bytes.length = buffer.size := by
  rw [← matched.content]
  rfl

theorem append (matched : buffer.Matches history) (added : List UInt8)
    : (buffer.append added).Matches (history.hold (history.bytes ++ added)) where
  content := by
    rw [← matched.content]
    simp [ByteBuffer.append, toList, BufferHistory.hold]
  room := by
    have held := matched.room.hold (history.bytes ++ added)
    rwa [List.length_append, matched.length_bytes] at held

/-- An edit keeps what is known of the buffer. Bytes that are dropped leave fewer than there is room
for.
-/
theorem perform (matched : buffer.Matches history) (edit : BufferEdit)
    : (buffer.perform edit).Matches (history.record edit) := by
  cases adds : edit.added? with
  | some added =>
      rw [perform_of_added adds, record_of_added adds]
      exact matched.append added
  | none =>
      cases edit with
      | push | pushChar | pushText => cases adds
      | retract count =>
          refine ⟨?_, matched.room.hold_of_le ?_⟩
          · have kept : buffer.size - count = buffer.size - min count buffer.size := by omega
            rw [BufferHistory.record, BufferHistory.hold, matched.length_bytes, ← kept,
              ← matched.content]
            simp [ByteBuffer.perform, retract, toList]
          · exact (List.length_take_le' ..).trans matched.room.length_le
      | clear => exact ⟨rfl, matched.room.hold_of_le (Nat.zero_le _)⟩
      | takeText => exact ⟨rfl, BufferHistory.calls_start {} rfl⟩

/-- All edits keep it, by induction on them. -/
theorem run (matched : buffer.Matches history) (edits : List BufferEdit)
    : (buffer.run edits).Matches (edits.foldl BufferHistory.record history) := by
  induction edits generalizing buffer history with
  | nil => exact matched
  | cons edit edits ih => exact ih (matched.perform edit)

/-- A buffer that matches its history has room for what it holds, and makes room for more. -/
theorem follows (matched : buffer.Matches history) : buffer.Follows history where
  toMatches := matched
  fits := matched.length_bytes ▸ matched.room.length_le
  keeps := by
    intro edit notTaken
    cases adds : edit.added? with
    | some added =>
        obtain ⟨doublings, _, result⟩ :=
          exists_doubleUntil_eq matched.room.pos (buffer.size + added.length)
        rw [perform_of_added adds, ByteBuffer.append, result]
        exact Nat.le_mul_of_pos_right _ (Nat.two_pow_pos doublings)
    | none => exact (capacity_of_dropped notTaken adds buffer).ge
  drops _ notTaken addsNothing := capacity_of_dropped notTaken addsNothing buffer
  grows := by
    intro edit added adds bounded
    rw [perform_of_added adds, max_eq_left matched.room.pos]
    exact makesRoom_doubleUntil matched.room.pos bounded

end Matches

theorem matches_origin (origin : BufferOrigin) : origin.buffer.Matches (.ofOrigin origin) := by
  have usual : ({} : ByteBuffer).Matches {} := ⟨rfl, BufferHistory.calls_start {} rfl⟩
  cases origin with
  | usual => exact usual
  | withCapacity capacity => exact ⟨rfl, BufferHistory.calls_start _ rfl⟩
  | ofText text => exact usual.perform (.pushText text)

/-- After all edits a buffer holds the bytes that its history says and has the room that it calls
for.
-/
theorem follows_history (origin : BufferOrigin) (edits : List BufferEdit)
    : (origin.buffer.run edits).Follows (.after origin edits) :=
  ((matches_origin origin).run edits).follows

end ByteBuffer

end ExprCompiler
