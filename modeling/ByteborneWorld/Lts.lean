import Mathlib.Data.List.Induction
import Mathlib.Tactic.Common

/-!
Deterministic labelled transition systems, given by a partial step function, and the
rules for what holds along their runs.

A run is the list of its actions: the action carries every choice the environment makes,
so the states are determined by it. `step s a = none` says that `a` is not enabled in `s`.
-/

namespace ByteborneWorld.Lts

variable {σ α τ β : Type*}

/-- The state after a list of actions. -/
def run (step : σ → α → Option σ) : σ → List α → Option σ
  | s, [] => some s
  | s, a :: as => (step s a).bind fun s' => run step s' as

def Reachable (step : σ → α → Option σ) (init s : σ) : Prop :=
  ∃ as, run step init as = some s

/-- `P` holds of every step a list of actions makes. -/
def Along (step : σ → α → Option σ) (P : σ → α → Prop) : σ → List α → Prop
  | _, [] => True
  | s, a :: as => P s a ∧ ∀ s', step s a = some s' → Along step P s' as

variable {step : σ → α → Option σ}

@[simp] lemma run_nil (s : σ) : run step s [] = some s := rfl

@[simp] lemma run_cons (s : σ) (a : α) (as : List α) :
    run step s (a :: as) = (step s a).bind fun s' => run step s' as := rfl

lemma run_append (s : σ) (as bs : List α) :
    run step s (as ++ bs) = (run step s as).bind fun s' => run step s' bs := by
  induction as generalizing s with
  | nil => rfl
  | cons a as ih => cases h : step s a <;> simp [h, ih]

lemma run_cons_some {s t : σ} {a : α} {as : List α} (h : run step s (a :: as) = some t) :
    ∃ s', step s a = some s' ∧ run step s' as = some t := by
  simpa [Option.bind_eq_some_iff] using h

lemma Reachable.refl (init : σ) : Reachable step init init := ⟨[], rfl⟩

lemma Reachable.next {init s s' : σ} {a : α} (h : Reachable step init s)
    (hs : step s a = some s') : Reachable step init s' := by
  obtain ⟨as, has⟩ := h
  exact ⟨as ++ [a], by simp [run_append, has, hs]⟩

lemma Reachable.run {init s t : σ} {as : List α} (h : Reachable step init s)
    (hs : run step s as = some t) : Reachable step init t := by
  obtain ⟨bs, hbs⟩ := h
  exact ⟨bs ++ as, by simp [run_append, hbs, hs]⟩

instance decidableAlong {P : σ → α → Prop} [∀ s a, Decidable (P s a)] :
    (s : σ) → (as : List α) → Decidable (Along step P s as)
  | _, [] => .isTrue trivial
  | s, a :: as =>
    match h : step s a with
    | none => decidable_of_iff (P s a) (by simp [Along, h])
    | some s' =>
      have := decidableAlong (P := P) s' as
      decidable_of_iff (P s a ∧ Along step P s' as) (by simp [Along, h])

/-! ### Invariants -/

/-- **The invariant rule.** What every step keeps, every run keeps. -/
theorem run_invariant {I : σ → Prop} (keep : ∀ s a s', I s → step s a = some s' → I s')
    {s t : σ} {as : List α} (h0 : I s) (h : run step s as = some t) : I t := by
  induction as generalizing s with
  | nil => cases h; exact h0
  | cons a as ih =>
    obtain ⟨s', hs, h'⟩ := run_cons_some h
    exact ih (keep s a s' h0 hs) h'

theorem Reachable.invariant {I : σ → Prop} (keep : ∀ s a s', I s → step s a = some s' → I s')
    {init s : σ} (h0 : I init) (h : Reachable step init s) : I s := by
  obtain ⟨as, has⟩ := h
  exact run_invariant keep h0 has

/-- **The guarded invariant rule.** What every step that meets a condition keeps, every run
whose steps all meet it keeps. -/
theorem run_invariant_of_along {I : σ → Prop} {C : σ → α → Prop}
    (keep : ∀ s a s', I s → C s a → step s a = some s' → I s')
    {s t : σ} {as : List α} (h0 : I s) (hC : Along step C s as)
    (h : run step s as = some t) : I t := by
  induction as generalizing s with
  | nil => cases h; exact h0
  | cons a as ih =>
    obtain ⟨s', hs, h'⟩ := run_cons_some h
    exact ih (keep s a s' h0 hC.1 hs) (hC.2 s' hs) h'

/-- **The rule of the history.** If every action of a list is enabled where the others before it
have led, and keeps what holds of the state and of the actions so far, then the list is a run. -/
theorem exists_run {I : List α → σ → Prop} {s : σ} {as : List α} (h0 : I [] s)
    (keep : ∀ bs a t, bs ++ [a] <+: as → I bs t → ∃ t', step t a = some t' ∧ I (bs ++ [a]) t') :
    ∃ t, run step s as = some t ∧ I as t := by
  induction as using List.reverseRecOn with
  | nil => exact ⟨s, rfl, h0⟩
  | append_singleton as a ih =>
    obtain ⟨t, ht, hI⟩ := ih fun bs b t hpre => keep bs b t (hpre.trans (List.prefix_append as [a]))
    obtain ⟨t', hs, hI'⟩ := keep as a t (List.prefix_refl _) hI
    exact ⟨t', by simp [run_append, ht, hs], hI'⟩

/-! ### Simulation -/

/-- **The simulation rule.** If every step is a step of another system, seen through a function
on the states and one on the actions, then every run is a run of it. -/
theorem run_simulates {stepB : τ → β → Option τ} {f : σ → τ} {g : α → β}
    (sim : ∀ s a s', step s a = some s' → stepB (f s) (g a) = some (f s'))
    {s t : σ} {as : List α} (h : run step s as = some t) :
    run stepB (f s) (as.map g) = some (f t) := by
  induction as generalizing s with
  | nil => cases h; rfl
  | cons a as ih =>
    obtain ⟨s', hs, h'⟩ := run_cons_some h
    rw [List.map_cons, run_cons, sim s a s' hs]
    exact ih h'

/-! ### What holds of every step -/

/-- An invariant turns a condition on steps into another one. -/
theorem Along.mono_of_invariant {I : σ → Prop} {C P : σ → α → Prop}
    (keep : ∀ s a s', I s → C s a → step s a = some s' → I s')
    (imp : ∀ s a, I s → C s a → P s a)
    {s : σ} {as : List α} (h0 : I s) (hC : Along step C s as) : Along step P s as := by
  induction as generalizing s with
  | nil => trivial
  | cons a as ih =>
    exact ⟨imp s a h0 hC.1, fun s' hs => ih (keep s a s' h0 hC.1 hs) (hC.2 s' hs)⟩

/-- **The rule of equivalent conditions.** Two conditions that say the same of every step from a
state where an invariant holds, and under which it goes on to hold, say the same of every run. -/
theorem along_iff_of_invariant {I : σ → Prop} {P C : σ → α → Prop}
    (keep : ∀ s a s', I s → C s a → step s a = some s' → I s')
    (iff : ∀ s a, I s → (P s a ↔ C s a)) {s : σ} (h0 : I s) (as : List α) :
    Along step P s as ↔ Along step C s as := by
  constructor
  · exact Along.mono_of_invariant (fun s a s' hI hP => keep s a s' hI ((iff s a hI).mp hP))
      (fun s a hI => (iff s a hI).mp) h0
  · exact Along.mono_of_invariant keep (fun s a hI => (iff s a hI).mpr) h0

lemma along_of_forall_mem {P : α → Prop} {as : List α} (h : ∀ a ∈ as, P a) (s : σ) :
    Along step (fun _ a => P a) s as := by
  induction as generalizing s with
  | nil => trivial
  | cons a as ih => exact ⟨h a (by simp), fun s' _ => ih (fun b hb => h b (by simp [hb])) s'⟩

lemma Along.and {P Q : σ → α → Prop} {s : σ} {as : List α} (hP : Along step P s as)
    (hQ : Along step Q s as) : Along step (fun s a => P s a ∧ Q s a) s as := by
  induction as generalizing s with
  | nil => trivial
  | cons a as ih => exact ⟨⟨hP.1, hQ.1⟩, fun s' hs => ih (hP.2 s' hs) (hQ.2 s' hs)⟩

/-- What holds of the steps under a condition on the whole run. -/
lemma Along.of_imp {P : σ → α → Prop} {Q : Prop} {s : σ} {as : List α}
    (h : Q → Along step P s as) : Along step (fun s a => Q → P s a) s as := by
  induction as generalizing s with
  | nil => trivial
  | cons a as ih => exact ⟨fun q => (h q).1, fun s' hs => ih fun q => (h q).2 s' hs⟩

lemma Along.left_of_append {P : σ → α → Prop} {s : σ} {as bs : List α}
    (h : Along step P s (as ++ bs)) : Along step P s as := by
  induction as generalizing s with
  | nil => trivial
  | cons a as ih => exact ⟨h.1, fun s' hs => ih (h.2 s' hs)⟩

lemma Along.append {P : σ → α → Prop} {s t : σ} {as bs : List α} (ha : Along step P s as)
    (ht : run step s as = some t) (hb : Along step P t bs) : Along step P s (as ++ bs) := by
  induction as generalizing s with
  | nil => cases ht; exact hb
  | cons a as ih =>
    obtain ⟨s', hs, ht'⟩ := run_cons_some ht
    refine ⟨ha.1, fun s₁ hs₁ => ?_⟩
    obtain rfl : s' = s₁ := Option.some.inj (hs.symm.trans hs₁)
    exact ih (ha.2 _ hs) ht'

lemma Along.right_of_append {P : σ → α → Prop} {s t : σ} {as bs : List α}
    (h : Along step P s (as ++ bs)) (ht : run step s as = some t) : Along step P t bs := by
  induction as generalizing s with
  | nil => cases ht; exact h
  | cons a as ih =>
    obtain ⟨s', hs, ht'⟩ := run_cons_some ht
    exact ih (h.2 s' hs) ht'

/-! ### What is observed along a run -/

/-- The observations of all steps, in order. -/
def observe (step : σ → α → Option σ) (obs : σ → α → σ → List β) : σ → List α → List β
  | _, [] => []
  | s, a :: as =>
    match step s a with
    | none => []
    | some s' => obs s a s' ++ observe step obs s' as

section Observe

variable {obs : σ → α → σ → List β}

@[simp] lemma observe_nil (s : σ) : observe step obs s [] = [] := rfl

lemma observe_cons {s s' : σ} {a : α} (h : step s a = some s') (as : List α) :
    observe step obs s (a :: as) = obs s a s' ++ observe step obs s' as := by
  simp only [observe, h]

/-- **The rule for observations.** What every step keeps of the state and of all that has been
observed so far, every run keeps. -/
theorem observe_invariant {I : σ → List β → Prop}
    (keep : ∀ s bs a s', I s bs → step s a = some s' → I s' (bs ++ obs s a s'))
    {s t : σ} {bs : List β} {as : List α} (h0 : I s bs) (h : run step s as = some t) :
    I t (bs ++ observe step obs s as) := by
  induction as generalizing s bs with
  | nil => cases h; simpa using h0
  | cons a as ih =>
    obtain ⟨s', hs, h'⟩ := run_cons_some h
    rw [observe_cons hs, ← List.append_assoc]
    exact ih (keep s bs a s' h0 hs) h'

variable (obs) in
/-- The rule for runs whose steps all meet a condition. -/
theorem observe_invariant_of_along {I : σ → List β → Prop} {C : σ → α → Prop}
    (keep : ∀ s bs a s', I s bs → C s a → step s a = some s' → I s' (bs ++ obs s a s'))
    {s t : σ} {bs : List β} {as : List α} (h0 : I s bs) (hC : Along step C s as)
    (h : run step s as = some t) : I t (bs ++ observe step obs s as) := by
  induction as generalizing s bs with
  | nil => cases h; simpa using h0
  | cons a as ih =>
    obtain ⟨s', hs, h'⟩ := run_cons_some h
    rw [observe_cons hs, ← List.append_assoc]
    exact ih (keep s bs a s' h0 hC.1 hs) (hC.2 s' hs) h'

/-- The rule for two kinds of observations. -/
theorem observe_invariant₂ {γ : Type*} (obs : σ → α → σ → List β) (obs' : σ → α → σ → List γ)
    {I : σ → List β → List γ → Prop} (keep : ∀ s bs cs a s', I s bs cs → step s a = some s' →
      I s' (bs ++ obs s a s') (cs ++ obs' s a s'))
    {s t : σ} {bs : List β} {cs : List γ} {as : List α} (h0 : I s bs cs)
    (h : run step s as = some t) :
    I t (bs ++ observe step obs s as) (cs ++ observe step obs' s as) := by
  induction as generalizing s bs cs with
  | nil => cases h; simpa using h0
  | cons a as ih =>
    obtain ⟨s', hs, h'⟩ := run_cons_some h
    rw [observe_cons hs, observe_cons hs, ← List.append_assoc, ← List.append_assoc]
    exact ih (keep s bs cs a s' h0 hs) h'

lemma observe_append {s t : σ} {as : List α} (h : run step s as = some t) (bs : List α) :
    observe step obs s (as ++ bs) = observe step obs s as ++ observe step obs t bs := by
  induction as generalizing s with
  | nil => cases h; rfl
  | cons a as ih =>
    obtain ⟨s', hs, h'⟩ := run_cons_some h
    rw [List.cons_append, observe_cons hs, observe_cons hs, ih h', List.append_assoc]

lemma forall_mem_observe {P : β → Prop} {as : List α} (h : ∀ a ∈ as, ∀ s s', ∀ b ∈ obs s a s', P b)
    (s : σ) : ∀ b ∈ observe step obs s as, P b := by
  induction as generalizing s with
  | nil => simp
  | cons a as ih =>
    cases hs : step s a with
    | none => simp [observe, hs]
    | some s' =>
      rw [observe_cons hs]
      intro b hb
      rcases List.mem_append.mp hb with hb | hb
      · exact h a (by simp) s s' b hb
      · exact ih (fun a ha => h a (by simp [ha])) s' b hb

end Observe

/-! ### Simulation with silent steps

A step of the one system is seen as the actions of the other that `obs` gives for it; where it
gives none, the step is silent. `C` is what the other system asks of its actions. -/

section Silent

variable {stepB : τ → β → Option τ} {f : σ → τ} {obs : σ → α → σ → List β} {I : σ → Prop}
  {C : τ → β → Prop}

/-- **The rule of stuttering simulation.** If every step, seen as above, is a run of the other
system, then every run is. -/
theorem run_stutters
    (sim : ∀ s a s', I s → step s a = some s' → Along stepB C (f s) (obs s a s') →
      I s' ∧ run stepB (f s) (obs s a s') = some (f s'))
    {s t : σ} {as : List α} (h0 : I s) (h : run step s as = some t)
    (hC : Along stepB C (f s) (observe step obs s as)) :
    I t ∧ run stepB (f s) (observe step obs s as) = some (f t) := by
  induction as generalizing s with
  | nil =>
    cases h
    exact ⟨h0, rfl⟩
  | cons a as ih =>
    obtain ⟨s', hs, h'⟩ := run_cons_some h
    rw [observe_cons hs] at hC ⊢
    obtain ⟨hI, hf⟩ := sim s a s' h0 hs hC.left_of_append
    obtain ⟨ht, hrun⟩ := ih hI h' (hC.right_of_append hf)
    exact ⟨ht, by rw [run_append, hf, Option.bind_some, hrun]⟩

variable (obs) in
/-- The rule where nothing is asked. -/
theorem run_observe
    (sim : ∀ s a s', step s a = some s' → run stepB (f s) (obs s a s') = some (f s'))
    {s t : σ} {as : List α} (h : run step s as = some t) :
    run stepB (f s) (observe step obs s as) = some (f t) :=
  (run_stutters (I := fun _ => True) (C := fun _ _ => True)
    (fun s a s' _ hs _ => ⟨trivial, sim s a s' hs⟩) trivial h
    (along_of_forall_mem (P := fun _ => True) (fun _ _ => trivial) _)).2

variable (obs) in
/-- What the steps of the one system meet gives what the other asks of its actions. -/
theorem along_observe {P : σ → α → Prop}
    (sim : ∀ s a s', step s a = some s' → run stepB (f s) (obs s a s') = some (f s'))
    (imp : ∀ s a s', P s a → step s a = some s' → Along stepB C (f s) (obs s a s'))
    {s t : σ} {as : List α} (hP : Along step P s as) (h : run step s as = some t) :
    Along stepB C (f s) (observe step obs s as) := by
  induction as generalizing s with
  | nil => trivial
  | cons a as ih =>
    obtain ⟨s', hs, h'⟩ := run_cons_some h
    rw [observe_cons hs]
    exact (imp s a s' hP.1 hs).append (sim s a s' hs) (ih (hP.2 s' hs) h')

/-- **The rule of the answer.** If every step of the other system is what is seen of some
actions here, then every run of it is. -/
theorem exists_run_observe
    (answer : ∀ s b e, I s → C (f s) b → stepB (f s) b = some e →
      ∃ as t, run step s as = some t ∧ observe step obs s as = [b] ∧ f t = e ∧ I t)
    {s : σ} {e : τ} {bs : List β} (h0 : I s) (hC : Along stepB C (f s) bs)
    (h : run stepB (f s) bs = some e) :
    ∃ as t, run step s as = some t ∧ observe step obs s as = bs ∧ f t = e ∧ I t := by
  induction bs generalizing s with
  | nil =>
    cases h
    exact ⟨[], s, rfl, rfl, rfl, h0⟩
  | cons b bs ih =>
    obtain ⟨e', hb, h'⟩ := run_cons_some h
    obtain ⟨as, s', hs, hobs, rfl, hI⟩ := answer s b e' h0 hC.1 hb
    obtain ⟨as', t, ht, hobs', he, hIt⟩ := ih hI (hC.2 _ hb) h'
    refine ⟨as ++ as', t, ?_, ?_, he, hIt⟩
    · rw [run_append, hs, Option.bind_some, ht]
    · rw [observe_append hs, hobs, hobs', List.singleton_append]

end Silent

/-! ### How long a run is -/

/-- **The rule of the measure.** A run whose steps all use up some of a measure is no longer
than what it uses up. -/
theorem length_le_of_decreases {I : σ → Prop} {C : α → Prop} {μ : σ → ℕ}
    (keep : ∀ s a s', I s → C a → step s a = some s' → I s' ∧ μ s' < μ s)
    {s t : σ} {as : List α} (h0 : I s) (hC : ∀ a ∈ as, C a) (h : run step s as = some t) :
    as.length + μ t ≤ μ s := by
  induction as generalizing s with
  | nil => cases h; simp
  | cons a as ih =>
    obtain ⟨s', hs, h'⟩ := run_cons_some h
    obtain ⟨hI, hlt⟩ := keep s a s' h0 (hC a (by simp)) hs
    have hle := ih hI (fun b hb => hC b (by simp [hb])) h'
    rw [List.length_cons]
    omega

/-! ### Infinite runs

Of a system whose actions are always enabled; `acts k` is the action chosen at time `k`. -/

/-- The state at each time. -/
def trace (next : σ → α → σ) (s : σ) (acts : ℕ → α) : ℕ → σ
  | 0 => s
  | k + 1 => next (trace next s acts k) (acts k)

/-- How often an action has been chosen before a time. -/
def count [DecidableEq α] (a : α) (acts : ℕ → α) : ℕ → ℕ
  | 0 => 0
  | k + 1 => count a acts k + if acts k = a then 1 else 0

variable {next : σ → α → σ} {acts : ℕ → α}

theorem trace_invariant {I : σ → Prop} (keep : ∀ s a, I s → I (next s a)) {s : σ} {k : ℕ}
    (h : I (trace next s acts k)) {l : ℕ} (hl : k ≤ l) : I (trace next s acts l) := by
  induction hl with
  | refl => exact h
  | step _ ih => exact keep _ _ ih

lemma count_mono [DecidableEq α] {a : α} {k l : ℕ} (h : k ≤ l) :
    count a acts k ≤ count a acts l := by
  induction h with
  | refl => exact Nat.le_refl _
  | step _ ih => exact Nat.le_trans ih (Nat.le_add_right _ _)

lemma exists_count_eq [DecidableEq α] {a : α} (hfair : ∀ k, ∃ l ≥ k, acts l = a) (n : ℕ) :
    ∃ k, count a acts k = n := by
  have hlarge : ∃ k, n ≤ count a acts k := by
    induction n with
    | zero => exact ⟨0, Nat.zero_le _⟩
    | succ n ih =>
      obtain ⟨k, hk⟩ := ih
      obtain ⟨l, hl, ha⟩ := hfair k
      have hmono : count a acts k ≤ count a acts l := count_mono hl
      exact ⟨l + 1, by rw [count, if_pos ha]; omega⟩
  obtain ⟨k, hk⟩ := hlarge
  -- the count grows by one at most
  induction k with
  | zero => exact ⟨0, by rw [count] at hk ⊢; omega⟩
  | succ k ih =>
    by_cases h : n ≤ count a acts k
    · exact ih h
    · refine ⟨k + 1, ?_⟩
      rw [count] at hk ⊢
      split_ifs at hk ⊢ <;> omega

end ByteborneWorld.Lts
