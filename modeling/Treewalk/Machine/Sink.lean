import Treewalk.Diagnostic

/-!
# Sinks

A sink takes the bytes a program writes.  It may have room for a limited
number of bytes only: a write that does not fit leaves what does fit and fails.
It may also allow a limited number of flushes.
-/

namespace Treewalk

/-- Where output goes. -/
structure Sink where
  written : ByteArray
  /-- How many bytes the sink can hold, if that is limited. -/
  capacity : Option Nat
  /-- How many more flushes succeed, if that is limited. -/
  flushes : Option Nat

namespace Sink

/-- An empty sink that never fails. -/
def unlimited : Sink :=
  ⟨ByteArray.empty, none, none⟩

/-- An empty sink with given limits. -/
def limited (capacity flushes : Option Nat) : Sink :=
  ⟨ByteArray.empty, capacity, flushes⟩

/-- The failure of a write that does not fit. -/
def full : StreamError :=
  ⟨"sink full"⟩

/-- The failure of a flush. -/
def flushFailed : StreamError :=
  ⟨"flush failed"⟩

/-- Write bytes: the sink afterwards, and the failure if they did not fit. -/
def write (sink : Sink) (bytes : ByteArray) : Sink × Option StreamError :=
  match sink.capacity with
  | none => ({ sink with written := sink.written ++ bytes }, none)
  | some capacity =>
    let room := capacity - sink.written.size
    if bytes.size ≤ room then
      ({ sink with written := sink.written ++ bytes }, none)
    else
      ({ sink with written := sink.written ++ bytes.extract 0 room }, some full)

/-- Write a text in its encoding as bytes. -/
def writeText (sink : Sink) (text : String) : Sink × Option StreamError :=
  sink.write text.toUTF8

/-- Flush: the sink afterwards, and the failure if flushes are used up. -/
def flush (sink : Sink) : Sink × Option StreamError :=
  match sink.flushes with
  | none => (sink, none)
  | some 0 => (sink, some flushFailed)
  | some (more + 1) => ({ sink with flushes := some more }, none)

/-! ## Growth -/

/-- Bytes have been added to what the sink held. -/
def Grows (sink later : Sink) : Prop :=
  ∃ added, later = { sink with written := sink.written ++ added }

theorem Grows.refl (sink : Sink) : sink.Grows sink :=
  ⟨.empty, by rw [ByteArray.append_empty]⟩

theorem Grows.trans {sink later last : Sink} (grows : sink.Grows later)
    (further : later.Grows last) : sink.Grows last := by
  rcases grows with ⟨added, rfl⟩
  rcases further with ⟨more, rfl⟩
  exact ⟨added ++ more, by rw [ByteArray.append_assoc]⟩

/-- Writing only adds to what a sink holds. -/
theorem grows_write (sink : Sink) (bytes : ByteArray) : sink.Grows (sink.write bytes).1 := by
  unfold write
  split
  · exact ⟨bytes, rfl⟩
  · simp only
    split
    · exact ⟨bytes, rfl⟩
    · exact ⟨_, rfl⟩

/-- A sink that grows is flushed as before. -/
theorem Grows.flushes {sink later : Sink} (grows : sink.Grows later) :
    later.flushes = sink.flushes := by
  rcases grows with ⟨added, rfl⟩
  rfl

end Sink

end Treewalk
