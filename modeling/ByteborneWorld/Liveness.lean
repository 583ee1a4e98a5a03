import Mathlib.Order.WellFounded
import Mathlib.Tactic.Common
import ByteborneWorld.Lts

/-!
Infinite runs of labelled transition systems in which some groups of actions are treated fairly,
and the rule for what such runs come to in the end.
-/

namespace ByteborneWorld.Liveness

open ByteborneWorld.Lts

variable {σ α : Type*} {step : σ → α → Option σ}

/-- An infinite run: at each time an action is taken, or nothing happens. -/
structure Execution (step : σ → α → Option σ) where
  state : ℕ → σ
  act : ℕ → Option α
  next : ∀ n, (act n).elim (some (state n)) (step (state n)) = some (state (n + 1))

def Enabled (step : σ → α → Option σ) (A : α → Prop) (s : σ) : Prop :=
  ∃ a s', A a ∧ step s a = some s'

namespace Execution

variable (e : Execution step)

/-- A group that can act from some time on acts. -/
def WeaklyFair (A : α → Prop) : Prop :=
  ∀ n, (∀ m ≥ n, Enabled step A (e.state m)) → ∃ m ≥ n, ∃ a, e.act m = some a ∧ A a

variable {e}

lemma next_none {n : ℕ} (h : e.act n = none) : e.state (n + 1) = e.state n := by
  have hn := e.next n
  rw [h] at hn
  exact (Option.some.inj hn).symm

lemma next_some {n : ℕ} {a : α} (h : e.act n = some a) :
    step (e.state n) a = some (e.state (n + 1)) := by
  have hn := e.next n
  rwa [h] at hn

/-- **The invariant rule for infinite runs.** -/
theorem invariant {I : σ → Prop} {n : ℕ} (h : I (e.state n))
    (keep : ∀ m ≥ n, ∀ a s', I (e.state m) → e.act m = some a →
      step (e.state m) a = some s' → I s') {m : ℕ} (hm : n ≤ m) : I (e.state m) := by
  induction hm with
  | refl => exact h
  | @step m hm ih =>
    cases ha : e.act m with
    | none => rwa [next_none ha]
    | some a => exact keep m hm a _ ih ha (next_some ha)

lemma reachable {init : σ} (h : Reachable step init (e.state 0)) (n : ℕ) :
    Reachable step init (e.state n) :=
  invariant h (fun _ _ _ _ hI _ hs => hI.next hs) (Nat.zero_le n)

end Execution

section Rank

variable {ι R : Type*} [Preorder R] {e : Execution step}
  {I goal : σ → Prop} {rank : σ → R} {helper : σ → ι} {group : ι → α → Prop}

/-- A step that helps brings the rank down; any other leaves it where it is or brings it down
too, and as long as it stays the same group is waited for. -/
structure Progress (step : σ → α → Option σ) (I goal : σ → Prop) (rank : σ → R)
    (helper : σ → ι) (group : ι → α → Prop) : Prop where
  enabled : ∀ s, I s → ¬goal s → Enabled step (group (helper s)) s
  step : ∀ s a s', I s → ¬goal s → step s a = some s' → rank s' < rank s ∨
    rank s' = rank s ∧ helper s' = helper s ∧ ¬group (helper s) a

variable {n : ℕ}

lemma stays_or_falls (h : Progress step I goal rank helper group)
    (hI : ∀ m ≥ n, I (e.state m)) (hgoal : ∀ m ≥ n, ¬goal (e.state m)) {m : ℕ} (hm : n ≤ m) :
    (∃ k ≥ n, rank (e.state k) < rank (e.state n)) ∨
      rank (e.state m) = rank (e.state n) ∧ helper (e.state m) = helper (e.state n) := by
  induction hm with
  | refl => exact .inr ⟨rfl, rfl⟩
  | @step m hm ih =>
    rcases ih with hfall | ⟨hr, hh⟩
    · exact .inl hfall
    · cases ha : e.act m with
      | none => exact .inr (by rw [Execution.next_none ha]; exact ⟨hr, hh⟩)
      | some a =>
        rcases h.step _ a _ (hI m hm) (hgoal m hm) (Execution.next_some ha) with
          hlt | ⟨hr', hh', -⟩
        · exact .inl ⟨m + 1, Nat.le_succ_of_le hm, hr ▸ hlt⟩
        · exact .inr ⟨hr'.trans hr, hh'.trans hh⟩

/-- Short of the goal the rank falls, as the group that is waited for acts. -/
lemma falls (h : Progress step I goal rank helper group) (hI : ∀ m ≥ n, I (e.state m))
    (hgoal : ∀ m ≥ n, ¬goal (e.state m)) (hfair : ∀ i, e.WeaklyFair (group i)) :
    ∃ k ≥ n, rank (e.state k) < rank (e.state n) := by
  by_contra hno
  have hstay : ∀ m ≥ n, rank (e.state m) = rank (e.state n) ∧
      helper (e.state m) = helper (e.state n) :=
    fun m hm => (stays_or_falls h hI hgoal hm).resolve_left hno
  obtain ⟨m, hm, a, ha, hA⟩ := hfair (helper (e.state n)) n fun m hm => by
    rw [← (hstay m hm).2]
    exact h.enabled _ (hI m hm) (hgoal m hm)
  rcases h.step _ a _ (hI m hm) (hgoal m hm) (Execution.next_some ha) with hlt | ⟨-, -, hnot⟩
  · exact hno ⟨m + 1, Nat.le_succ_of_le hm, (hstay m hm).1 ▸ hlt⟩
  · exact hnot ((hstay m hm).2 ▸ hA)

/-- **The rule of the rank.** If the groups that help are treated fairly, an infinite run comes
to the goal. -/
theorem eventually_of_progress [WellFoundedLT R] (h : Progress step I goal rank helper group)
    (hI : ∀ m ≥ n, I (e.state m)) (hfair : ∀ i, e.WeaklyFair (group i)) :
    ∃ m ≥ n, goal (e.state m) := by
  by_contra! hgoal
  suffices hmain : ∀ r : R, ∀ m ≥ n, rank (e.state m) = r → False from hmain _ n (le_refl n) rfl
  intro r
  induction r using WellFoundedLT.induction with
  | ind r ih =>
    rintro m hm rfl
    obtain ⟨k, hk, hlt⟩ := falls h (fun l hl => hI l (hm.trans hl))
      (fun l hl => hgoal l (hm.trans hl)) hfair
    exact ih _ hlt k (hm.trans hk) rfl

end Rank

/-! ### Runs that end -/

lemma isSome_run_take {s : σ} {as : List α} (h : (run step s as).isSome) (k : ℕ) :
    (run step s (as.take k)).isSome := by
  rw [← List.take_append_drop k as, run_append] at h
  exact Option.isSome_of_isSome_bind h

/-- A run from a state, after which nothing happens any more. -/
def Execution.ofRun (s : σ) (as : List α) (h : (run step s as).isSome) : Execution step where
  state k := (run step s (as.take k)).get (isSome_run_take h k)
  act k := as[k]?
  next k := by
    cases ha : as[k]? with
    | none =>
      have hlen := List.getElem?_eq_none_iff.mp ha
      simp [List.take_of_length_le hlen, List.take_of_length_le (Nat.le_succ_of_le hlen)]
    | some a =>
      have htake : as.take (k + 1) = as.take k ++ [a] := by simp [List.take_add_one, ha]
      obtain ⟨t, ht⟩ := Option.isSome_iff_exists.mp (isSome_run_take h k)
      simp only [htake, run_append, ht, Option.bind_some, run_cons, run_nil, Option.bind_fun_some,
        Option.elim_some, Option.get_some, Option.some_get]

/-- Every group is treated fairly that has nothing to do in the end. -/
lemma weaklyFair_ofRun {s t : σ} {as : List α} (h : (run step s as).isSome)
    (ht : run step s as = some t) {A : α → Prop} (hA : ¬Enabled step A t) :
    (Execution.ofRun s as h).WeaklyFair A := by
  intro n hen
  refine absurd ?_ hA
  have hend := hen (n + as.length) (Nat.le_add_right _ _)
  have hstate : (Execution.ofRun s as h).state (n + as.length) = t := by
    have hlen : as.length ≤ n + as.length := Nat.le_add_left _ _
    simp [Execution.ofRun, List.take_of_length_le hlen, ht]
  rwa [hstate] at hend

end ByteborneWorld.Liveness
