import Mathlib.Data.List.Basic
import Mathlib.Tactic.Common

/-!
A log that only grows at its end, and a reader that joins it once and from then on reads it
entry by entry.
-/

namespace ByteborneWorld.Feed

variable {α : Type*}

/-- A reader: where it joined the log, how far it has come, and what it has read. -/
structure Reader (α : Type*) where
  start : ℕ
  upTo : ℕ
  got : List α

/-- One step of a log and one of its readers. -/
inductive Step : List α → Reader α → List α → Reader α → Prop
  | idle {log r} : Step log r log r
  | publish {log r} (x : α) : Step log r (log ++ [x]) r
  /-- the reader joins at the end of the log -/
  | join {log r} (h : r.got = []) : Step log r log ⟨log.length, log.length, []⟩
  | next {log r x} (h : log[r.upTo]? = some x) :
      Step log r log ⟨r.start, r.upTo + 1, r.got ++ [x]⟩

/-- The reader has read the log from where it joined up to where it is. -/
structure Reader.InStep (log : List α) (r : Reader α) : Prop where
  start_le : r.start ≤ r.upTo
  upTo_le : r.upTo ≤ log.length
  got_eq : r.got = (log.take r.upTo).drop r.start

variable {log log' : List α} {r r' : Reader α}

/-- **No step makes a gap, a repetition or a wrong order.** -/
theorem Reader.InStep.step (h : r.InStep log) (hs : Step log r log' r') : r'.InStep log' := by
  cases hs with
  | idle => exact h
  | publish x =>
    refine ⟨h.start_le, Nat.le_trans h.upTo_le (by simp), ?_⟩
    rw [List.take_append_of_le_length h.upTo_le, h.got_eq]
  | join => exact ⟨Nat.le_refl _, Nat.le_refl _, by simp⟩
  | next hx =>
    obtain ⟨hlt, rfl⟩ := List.getElem?_eq_some_iff.mp hx
    refine ⟨Nat.le_succ_of_le h.start_le, hlt, ?_⟩
    rw [h.got_eq, List.take_succ_eq_append_getElem hlt,
      List.drop_append_of_le_length (by simp [h.start_le, h.upTo_le])]

end ByteborneWorld.Feed
