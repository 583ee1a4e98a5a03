import ByteborneWorld.Lts

/-!
A queue without a bound: cells are put at its back and taken from its front, any number at a
time.
-/

namespace ByteborneWorld.Fifo

open ByteborneWorld.Lts

variable {α : Type*}

inductive Op (α : Type*)
  | put (xs : List α)
  | take (n : ℕ)

def step (q : List α) : Op α → Option (List α)
  | .put xs => some (q ++ xs)
  | .take n => if n ≤ q.length then some (q.drop n) else none

def putAll : List (Op α) → List α
  | [] => []
  | .put xs :: ops => xs ++ putAll ops
  | .take _ :: ops => putAll ops

def takenAll : List (Op α) → ℕ
  | [] => 0
  | .put _ :: ops => takenAll ops
  | .take n :: ops => n + takenAll ops

/-- **A queue holds what was put into it, less what was taken from its front**, and no more was
taken than there was. -/
theorem run_eq_some {q q' : List α} {ops : List (Op α)} (h : run step q ops = some q') :
    takenAll ops ≤ (q ++ putAll ops).length ∧ q' = (q ++ putAll ops).drop (takenAll ops) := by
  induction ops generalizing q with
  | nil => cases h; simp [putAll, takenAll]
  | cons op ops ih =>
    obtain ⟨q₁, hs, h'⟩ := run_cons_some h
    cases op with
    | put xs =>
      cases hs
      simpa [putAll, takenAll] using ih h'
    | take n =>
      obtain ⟨hn, hq⟩ := Option.ite_none_right_eq_some.mp hs
      obtain rfl : q.drop n = q₁ := Option.some.inj hq
      obtain ⟨hle, rfl⟩ := ih h'
      have hcomm : q.drop n ++ putAll ops = (q ++ putAll ops).drop n :=
        (List.drop_append_of_le_length hn).symm
      simp only [List.length_append, List.length_drop] at hle
      refine ⟨by simp only [putAll, takenAll, List.length_append]; omega, ?_⟩
      rw [hcomm, List.drop_drop]
      rfl

end ByteborneWorld.Fifo
