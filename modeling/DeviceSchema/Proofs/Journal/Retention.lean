import Mathlib.Data.List.DropRight
import DeviceSchema.Journal.Log

/-! # What a log retains

A log does not know how many events it was given.  It keeps the last of them, and as many as it
may, because dropping early is as good as dropping late: whatever a full log gives up would not be
among the last events after one more either (`rtake_append_rtake`).  So behind any events it is the
**recent** part of them (`Sink.Recalls`), which one more event preserves whether or not the sink
takes it.  `Sink.toList_addAll` states this for all sequences of events.
-/
namespace DeviceSchema

/-- The last entries of a list do not depend on what was dropped before others were added. -/
theorem rtake_append_rtake {α : Type} (xs ys : List α) (n : Nat) :
    (xs.rtake n ++ ys).rtake n = (xs ++ ys).rtake n := by
  simp only [List.rtake_eq_reverse_take_reverse, List.reverse_append, List.reverse_reverse,
    List.take_append, List.take_take]
  congr 3
  omega

theorem length_rtake {α : Type} (xs : List α) (n : Nat) :
    (xs.rtake n).length = min xs.length n := by
  rw [List.rtake, List.length_drop]
  omega

namespace Log

/-- A log that gives up its oldest events and takes one. -/
theorem toList_extract_push (log : Log) (excess : Nat) (event : Event) :
    Log.toList ⟨(log.events.extract excess log.size).push event⟩ =
      log.toList.drop excess ++ [event] := by
  rw [toList, Array.toList_push, Array.toList_extract, List.extract_eq_take_drop,
    List.take_of_length_le (by simp [size])]
  rfl

/-- **A log with one more event holds the last events of those that it held and the new one.** -/
theorem toList_add (log : Log) (event : Event) :
    (log.add event).toList = (log.toList ++ [event]).rtake Ceiling.logEvents := by
  have hroom : 0 < Ceiling.logEvents := by decide
  have hsize : log.size = log.toList.length := Array.length_toList.symm
  rw [List.rtake, List.length_append, List.length_singleton, ← hsize, add]
  split
  case isTrue hfits =>
    rw [hfits, List.drop_zero]
    exact Array.toList_push
  case isFalse =>
    -- A full log holds at least as many events as it has to give up.
    rw [toList_extract_push, List.drop_append_of_le_length (by omega)]

end Log

namespace Sink
variable {sink : Sink} {history : List Event}

/-- The sink holds the last events of a history, as many as a log keeps. -/
def Recalls (sink : Sink) (history : List Event) : Prop :=
  sink.log.toList = history.rtake Ceiling.logEvents

theorem least_add (sink : Sink) (event : Event) : (sink.add event).least = sink.least := by
  unfold add
  split <;> rfl

/-- An event that passes becomes part of what the sink recalls, and any other leaves no trace. -/
theorem Recalls.add (h : sink.Recalls history) (event : Event) :
    (sink.add event).Recalls (history ++ [event].filter (·.level.rank ≤ sink.least.rank)) := by
  rw [Sink.add, List.filter_singleton, Level.passes]
  split
  case isTrue hpasses =>
    rw [hpasses, Recalls, Log.toList_add, h, rtake_append_rtake]
    rfl
  case isFalse hstopped =>
    rw [Bool.not_eq_true] at hstopped
    rw [hstopped, Bool.cond_false, List.append_nil]
    exact h

theorem Recalls.addAll (h : sink.Recalls history) (events : List Event) :
    (sink.addAll events).Recalls
      (history ++ events.filter (·.level.rank ≤ sink.least.rank)) := by
  induction events generalizing sink history with
  | nil => simpa [Sink.addAll] using h
  | cons event rest ih =>
    have hrest := ih (h.add event)
    rwa [least_add, List.append_assoc, ← List.filter_append] at hrest

/-- **Behind any events, a sink over a new log holds the last 10000 of those that pass its least
level, or all of them if there are fewer, in their order.** -/
theorem toList_addAll (least : Level) (events : List Event) :
    let wanted := events.filter (·.level.rank ≤ least.rank)
    let log := (addAll { least } events).log
    log.toList = wanted.rtake (min wanted.length 10000) ∧ log.toList <:+ wanted ∧
      log.size = min wanted.length 10000 := by
  intro wanted log
  have hnew : ({ least } : Sink).Recalls [] := (List.rtake_nil _).symm
  have hrecalls : log.toList = wanted.rtake 10000 := hnew.addAll events
  have hlength : wanted.length - min wanted.length 10000 = wanted.length - 10000 := by omega
  refine ⟨?_, ?_, ?_⟩
  · rw [hrecalls, List.rtake, List.rtake, hlength]
  · rw [hrecalls]
    exact List.drop_suffix _ _
  · rw [Log.size, ← Array.length_toList]
    exact (congrArg List.length hrecalls).trans (length_rtake wanted 10000)

end Sink
end DeviceSchema
