import Mathlib.Logic.Function.Basic
import ByteborneWorld.Lts

/-!
An object whose methods run under one mutex cannot be told from the object whose methods are
single steps: a method takes effect when it takes the mutex.
-/

namespace ByteborneWorld.Monitor

open ByteborneWorld.Lts

variable {τ σ ω ρ μ : Type*}

/-! ### The methods -/

/-- The bodies of the methods of an object with states `σ`: `ω` is what is called, `ρ` what is
returned, and `μ` where a body stands between two of its steps. Every body comes to its end. -/
structure Bodies (σ ω ρ μ : Type*) where
  enter : ω → μ
  step : σ → μ → σ × (μ ⊕ ρ)
  size : μ → ℕ
  size_lt : ∀ o m o' m', step o m = (o', .inl m') → size m' < size m

namespace Bodies

variable (B : Bodies σ ω ρ μ)

/-- What the rest of a body does, when nobody else touches the object. -/
def finish (o : σ) (m : μ) : σ × ρ :=
  match _h : B.step o m with
  | (o', .inl m') => finish o' m'
  | (o', .inr r) => (o', r)
termination_by B.size m
decreasing_by exact B.size_lt _ _ _ _ _h

def effect (o : σ) (op : ω) : σ × ρ := B.finish o (B.enter op)

variable {B} {o o' : σ} {m m' : μ} {r : ρ}

lemma finish_inl (h : B.step o m = (o', .inl m')) : B.finish o m = B.finish o' m' := by
  rw [finish]
  split <;> rename_i heq <;> rw [h] at heq <;> cases heq
  rfl

lemma finish_inr (h : B.step o m = (o', .inr r)) : B.finish o m = (o', r) := by
  rw [finish]
  split <;> rename_i heq <;> rw [h] at heq <;> cases heq
  rfl

end Bodies

/-! ### Under the mutex -/

/-- Where a thread stands. -/
inductive Phase (ω ρ μ : Type*)
  | idle
  /-- at the mutex -/
  | waiting (op : ω)
  | inside (m : μ)
  /-- before the mutex is released -/
  | leaving (r : ρ)
  | done (r : ρ)

structure Guarded (τ σ ω ρ μ : Type*) where
  object : σ
  holder : Option τ
  phase : τ → Phase ω ρ μ

inductive Act (τ ω : Type*)
  | call (t : τ) (op : ω)
  | lock (t : τ)
  /-- one step of the body -/
  | body (t : τ)
  | unlock (t : τ)
  | ret (t : τ)

variable [DecidableEq τ]

def init (o : σ) : Guarded τ σ ω ρ μ := ⟨o, none, fun _ => .idle⟩

def Guarded.set (s : Guarded τ σ ω ρ μ) (t : τ) (p : Phase ω ρ μ) : Guarded τ σ ω ρ μ :=
  { s with phase := Function.update s.phase t p }

def step (B : Bodies σ ω ρ μ) (s : Guarded τ σ ω ρ μ) : Act τ ω → Option (Guarded τ σ ω ρ μ)
  | .call t op =>
    match s.phase t with
    | .idle => some (s.set t (.waiting op))
    | _ => none
  | .lock t =>
    match s.holder, s.phase t with
    | none, .waiting op => some { s.set t (.inside (B.enter op)) with holder := some t }
    | _, _ => none
  | .body t =>
    match s.phase t with
    | .inside m =>
      match B.step s.object m with
      | (o, .inl m') => some { s.set t (.inside m') with object := o }
      | (o, .inr r) => some { s.set t (.leaving r) with object := o }
    | _ => none
  | .unlock t =>
    match s.phase t with
    | .leaving r => some { s.set t (.done r) with holder := none }
    | _ => none
  | .ret t =>
    match s.phase t with
    | .done _ => some (s.set t .idle)
    | _ => none

/-! ### In single steps -/

inductive AtomicPhase (ω ρ : Type*)
  | idle
  | called (op : ω)
  | answered (r : ρ)

@[ext]
structure Atomic (τ σ ω ρ : Type*) where
  object : σ
  phase : τ → AtomicPhase ω ρ

inductive AtomicAct (τ ω ρ : Type*)
  | call (t : τ) (op : ω)
  /-- the method takes effect -/
  | commit (t : τ)
  | ret (t : τ) (r : ρ)

def Atomic.init (o : σ) : Atomic τ σ ω ρ := ⟨o, fun _ => .idle⟩

def Atomic.set (a : Atomic τ σ ω ρ) (t : τ) (p : AtomicPhase ω ρ) : Atomic τ σ ω ρ :=
  { a with phase := Function.update a.phase t p }

def Atomic.step [DecidableEq ρ] (effect : σ → ω → σ × ρ) (a : Atomic τ σ ω ρ) :
    AtomicAct τ ω ρ → Option (Atomic τ σ ω ρ)
  | .call t op =>
    match a.phase t with
    | .idle => some (a.set t (.called op))
    | _ => none
  | .commit t =>
    match a.phase t with
    | .called op =>
      some { a.set t (.answered (effect a.object op).2) with object := (effect a.object op).1 }
    | _ => none
  | .ret t r =>
    match a.phase t with
    | .answered r' => if r' = r then some (a.set t .idle) else none
    | _ => none

/-! ### The one seen as the other -/

/-- A body that has begun has taken effect. -/
def Phase.atomic (B : Bodies σ ω ρ μ) (o : σ) : Phase ω ρ μ → AtomicPhase ω ρ
  | .idle => .idle
  | .waiting op => .called op
  | .inside m => .answered (B.finish o m).2
  | .leaving r => .answered r
  | .done r => .answered r

def Guarded.atomic (B : Bodies σ ω ρ μ) (s : Guarded τ σ ω ρ μ) : Atomic τ σ ω ρ where
  object :=
    match s.holder with
    | none => s.object
    | some t =>
      match s.phase t with
      | .inside m => (B.finish s.object m).1
      | _ => s.object
  phase t := (s.phase t).atomic B s.object

def events (s : Guarded τ σ ω ρ μ) (a : Act τ ω) (_ : Guarded τ σ ω ρ μ) :
    List (AtomicAct τ ω ρ) :=
  match a with
  | .call t op => [.call t op]
  | .lock t => [.commit t]
  | .body _ | .unlock _ => []
  | .ret t =>
    match s.phase t with
    | .done r => [.ret t r]
    | _ => []

/-- The thread has the mutex. -/
def Phase.Holds : Phase ω ρ μ → Prop
  | .inside _ | .leaving _ => True
  | _ => False

/-- **Mutual exclusion.** -/
def Exclusive (s : Guarded τ σ ω ρ μ) : Prop := ∀ t, (s.phase t).Holds ↔ s.holder = some t

variable {B : Bodies σ ω ρ μ} {s s' : Guarded τ σ ω ρ μ}

omit [DecidableEq τ] in
lemma exclusive_init (o : σ) : Exclusive (init o : Guarded τ σ ω ρ μ) := fun _ =>
  iff_of_false id (by simp [init])

omit [DecidableEq τ] in
/-- Only the body that runs looks at the object. -/
lemma Phase.atomic_of_not_holds {p : Phase ω ρ μ} (h : ¬p.Holds) (o o' : σ) :
    p.atomic B o = p.atomic B o' := by
  cases p with
  | inside m => exact absurd trivial h
  | _ => rfl

/-! ### What a step can do -/

inductive Step (B : Bodies σ ω ρ μ) (s : Guarded τ σ ω ρ μ) :
    Act τ ω → Guarded τ σ ω ρ μ → Prop
  | call (t : τ) (op : ω) (idle : s.phase t = .idle) : Step B s (.call t op) (s.set t (.waiting op))
  | lock (t : τ) (op : ω) (free : s.holder = none) (waiting : s.phase t = .waiting op) :
      Step B s (.lock t) { s.set t (.inside (B.enter op)) with holder := some t }
  | goOn (t : τ) (m : μ) (o : σ) (m' : μ) (inside : s.phase t = .inside m)
      (next : B.step s.object m = (o, .inl m')) :
      Step B s (.body t) { s.set t (.inside m') with object := o }
  | finish (t : τ) (m : μ) (o : σ) (r : ρ) (inside : s.phase t = .inside m)
      (next : B.step s.object m = (o, .inr r)) :
      Step B s (.body t) { s.set t (.leaving r) with object := o }
  | unlock (t : τ) (r : ρ) (leaving : s.phase t = .leaving r) :
      Step B s (.unlock t) { s.set t (.done r) with holder := none }
  | ret (t : τ) (r : ρ) (done : s.phase t = .done r) : Step B s (.ret t) (s.set t .idle)

lemma step_spec {a : Act τ ω} (h : step B s a = some s') : Step B s a s' := by
  cases a with
  | call t op =>
    cases hp : s.phase t <;> simp only [step, hp, Option.some.injEq, reduceCtorEq] at h
    subst h
    exact .call t op hp
  | lock t =>
    cases hh : s.holder <;> cases hp : s.phase t <;>
      simp only [step, hh, hp, Option.some.injEq, reduceCtorEq] at h
    subst h
    exact .lock t _ hh hp
  | body t =>
    cases hp : s.phase t <;> simp only [step, hp, reduceCtorEq] at h
    split at h <;> cases h
    · exact .goOn t _ _ _ hp ‹_›
    · exact .finish t _ _ _ hp ‹_›
  | unlock t =>
    cases hp : s.phase t <;> simp only [step, hp, Option.some.injEq, reduceCtorEq] at h
    subst h
    exact .unlock t _ hp
  | ret t =>
    cases hp : s.phase t <;> simp only [step, hp, Option.some.injEq, reduceCtorEq] at h
    subst h
    exact .ret t _ hp

namespace Exclusive

variable (h : Exclusive s)

include h

lemma set {t : τ} {p : Phase ω ρ μ} (hp : p.Holds ↔ (s.phase t).Holds) : Exclusive (s.set t p) := by
  intro u
  simp only [Guarded.set, Function.update_apply]
  split_ifs with hu
  · rw [hu, hp, h t]
  · exact h u

omit [DecidableEq τ] in
lemma not_holds {t u : τ} (ht : (s.phase t).Holds) (hu : u ≠ t) : ¬(s.phase u).Holds := by
  intro hholds
  have heq := (h t).mp ht
  rw [(h u).mp hholds] at heq
  exact hu (Option.some.inj heq)

lemma keep {a : Act τ ω} (hs : Step B s a s') : Exclusive s' := by
  cases hs with
  | call t op idle => exact h.set (by simp [idle, Phase.Holds])
  | goOn t m o m' inside => exact h.set (by simp [inside, Phase.Holds])
  | finish t m o r inside => exact h.set (by simp [inside, Phase.Holds])
  | ret t r done => exact h.set (by simp [done, Phase.Holds])
  | lock t op free waiting =>
    intro u
    by_cases hu : u = t
    · subst hu
      simp [Guarded.set, Phase.Holds]
    · have hfree : ¬(s.phase u).Holds := by
        rw [h u, free]
        simp
      simp [Guarded.set, Function.update_of_ne hu, hfree, Ne.symm hu]
  | unlock t r leaving =>
    have ht : (s.phase t).Holds := by simp [leaving, Phase.Holds]
    intro u
    by_cases hu : u = t
    · subst hu
      simp [Guarded.set, Phase.Holds]
    · simpa [Guarded.set, Function.update_of_ne hu] using h.not_holds ht hu

lemma atomic_set {t : τ} {p : Phase ω ρ μ} (ht : ¬(s.phase t).Holds) :
    (s.set t p).atomic B = (s.atomic B).set t (p.atomic B s.object) := by
  ext u
  · have hne : ∀ u, s.holder = some u → u ≠ t := by
      rintro u hu rfl
      exact ht ((h u).mpr hu)
    cases hh : s.holder with
    | none => simp [Guarded.atomic, Guarded.set, Atomic.set, hh]
    | some u => simp [Guarded.atomic, Guarded.set, Atomic.set, hh, Function.update_of_ne (hne u hh)]
  · by_cases hu : u = t
    · subst hu
      simp [Guarded.atomic, Guarded.set, Atomic.set]
    · simp [Guarded.atomic, Guarded.set, Atomic.set, Function.update_of_ne hu]

end Exclusive

/-! ### Every run is one of single steps -/

lemma atomic_lock (s : Guarded τ σ ω ρ μ) (t : τ) (op : ω) :
    ({ s.set t (.inside (B.enter op)) with holder := some t } : Guarded τ σ ω ρ μ).atomic B =
      { (s.atomic B).set t (.answered (B.effect s.object op).2) with
        object := (B.effect s.object op).1 } := by
  ext u
  · simp [Guarded.atomic, Guarded.set, Bodies.effect]
  · by_cases hu : u = t
    · subst hu
      simp [Guarded.atomic, Guarded.set, Atomic.set, Phase.atomic, Bodies.effect]
    · simp [Guarded.atomic, Guarded.set, Atomic.set, Function.update_of_ne hu]

/-- **What is done inside the mutex is not seen.** -/
lemma Exclusive.atomic_step {a : Act τ ω} (h : Exclusive s) (hs : Step B s a s')
    (ha : events s a s' = []) : s'.atomic B = s.atomic B := by
  -- nobody else looks at the object
  have others {t u : τ} (ht : (s.phase t).Holds) (hu : u ≠ t) (o : σ) :
      (s.phase u).atomic B o = (s.phase u).atomic B s.object :=
    Phase.atomic_of_not_holds (h.not_holds ht hu) _ _
  -- a step of the body takes it from `m` to `p`, and leaves what the rest of it does
  have body {t : τ} {m : μ} {o : σ} {p : Phase ω ρ μ} (inside : s.phase t = .inside m)
      (hobject : (match p with | .inside m' => (B.finish o m').1 | _ => o) =
        (B.finish s.object m).1)
      (hreply : p.atomic B o = .answered (B.finish s.object m).2) :
      ({ s.set t p with object := o } : Guarded τ σ ω ρ μ).atomic B = s.atomic B := by
    have ht : (s.phase t).Holds := by simp [inside, Phase.Holds]
    have hholder := (h t).mp ht
    ext u
    · simpa [Guarded.atomic, Guarded.set, hholder, inside] using hobject
    · by_cases hu : u = t
      · subst hu
        simpa [Guarded.atomic, Guarded.set, inside, Phase.atomic] using hreply
      · simpa [Guarded.atomic, Guarded.set, Function.update_of_ne hu] using others ht hu o
  cases hs with
  | call t op idle => cases ha
  | lock t op free waiting => cases ha
  | goOn t m o m' inside next =>
    have hfinish := Bodies.finish_inl next
    exact body inside (by simp [hfinish]) (by simp [Phase.atomic, hfinish])
  | finish t m o r inside next =>
    have hfinish := Bodies.finish_inr next
    exact body inside (by simp [hfinish]) (by simp [Phase.atomic, hfinish])
  | unlock t r leaving =>
    have hholder := (h t).mp (by simp [leaving, Phase.Holds])
    ext u
    · simp [Guarded.atomic, Guarded.set, hholder, leaving]
    · by_cases hu : u = t
      · subst hu
        simp [Guarded.atomic, Guarded.set, leaving, Phase.atomic]
      · simp [Guarded.atomic, Guarded.set, Function.update_of_ne hu]
  | ret t r done => simp [events, done] at ha

variable [DecidableEq ρ]

lemma Exclusive.sim {a : Act τ ω} (h : Exclusive s) (hs : step B s a = some s') :
    Exclusive s' ∧ run (Atomic.step B.effect) (s.atomic B) (events s a s') =
      some (s'.atomic B) := by
  have hstep := step_spec hs
  refine ⟨h.keep hstep, ?_⟩
  cases hstep with
  | call t op idle =>
    have hseen : (s.atomic B).phase t = .idle := by simp [Guarded.atomic, idle, Phase.atomic]
    have hset := h.atomic_set (B := B) (t := t) (p := .waiting op) (by simp [idle, Phase.Holds])
    rw [hset]
    simp [events, Atomic.step, hseen, Phase.atomic]
  | lock t op free waiting =>
    have hseen : (s.atomic B).phase t = .called op := by
      simp [Guarded.atomic, waiting, Phase.atomic]
    have hobject : (s.atomic B).object = s.object := by simp [Guarded.atomic, free]
    rw [atomic_lock]
    simp [events, Atomic.step, hseen, hobject]
  | goOn t m o m' inside next =>
    rw [h.atomic_step (step_spec hs) rfl]
    rfl
  | finish t m o r inside next =>
    rw [h.atomic_step (step_spec hs) rfl]
    rfl
  | unlock t r leaving =>
    rw [h.atomic_step (step_spec hs) rfl]
    rfl
  | ret t r done =>
    have hseen : (s.atomic B).phase t = .answered r := by
      simp [Guarded.atomic, done, Phase.atomic]
    have hset := h.atomic_set (B := B) (t := t) (p := .idle) (by simp [done, Phase.Holds])
    rw [hset]
    simp [events, done, Atomic.step, hseen, Phase.atomic]

/-! ### Every run of single steps is one -/

/-- Some unseen steps. -/
def Unseen (B : Bodies σ ω ρ μ) (s s' : Guarded τ σ ω ρ μ) : Prop :=
  ∃ as, run (step B) s as = some s' ∧ observe (step B) events s as = [] ∧
    s'.atomic B = s.atomic B ∧ Exclusive s'

omit [DecidableEq ρ] in
lemma Unseen.cons {a : Act τ ω} {t : Guarded τ σ ω ρ μ} (h : Exclusive s)
    (hs : step B s a = some s') (ha : events s a s' = []) (ht : Unseen B s' t) : Unseen B s t := by
  obtain ⟨as, hrun, hobs, heq, hex⟩ := ht
  refine ⟨a :: as, by rw [run_cons, hs, Option.bind_some, hrun], ?_, ?_, hex⟩
  · rw [observe_cons hs, ha, hobs, List.nil_append]
  · rw [heq, h.atomic_step (step_spec hs) ha]

omit [DecidableEq ρ] in
lemma Exclusive.release {t : τ} {r : ρ} (h : Exclusive s) (leaving : s.phase t = .leaving r) :
    ∃ s', Unseen B s s' ∧ s'.holder = none := by
  have hs : step B s (.unlock t) = some { s.set t (.done r) with holder := none } := by
    simp [step, leaving]
  refine ⟨_, Unseen.cons h hs rfl ⟨[], rfl, rfl, rfl, h.keep (step_spec hs)⟩, rfl⟩

omit [DecidableEq ρ] in
/-- **The mutex gets free**, by induction on what is left of the body of its holder. -/
lemma Exclusive.free (h : Exclusive s) : ∃ s', Unseen B s s' ∧ s'.holder = none := by
  cases hh : s.holder with
  | none => exact ⟨s, ⟨[], rfl, rfl, rfl, h⟩, hh⟩
  | some t =>
    have ht := (h t).mpr hh
    cases hp : s.phase t with
    | leaving r => exact h.release hp
    | inside m =>
      induction hn : B.size m using Nat.strongRecOn generalizing s m with
      | _ n ih =>
        have hcond : ∃ o x, B.step s.object m = (o, x) := ⟨_, _, rfl⟩
        obtain ⟨o, x, hx⟩ := hcond
        cases x with
        | inl m' =>
          have hs : step B s (.body t) = some { s.set t (.inside m') with object := o } := by
            simp [step, hp, hx]
          have h' := h.keep (step_spec hs)
          have hlt := B.size_lt _ _ _ _ hx
          obtain ⟨s', hs', hfree⟩ := ih (B.size m') (hn ▸ hlt) h'
            (by simpa [Guarded.set] using hh) (by simp [Guarded.set, Phase.Holds]) m'
            (by simp [Guarded.set]) rfl
          exact ⟨s', Unseen.cons h hs rfl hs', hfree⟩
        | inr r =>
          have hs : step B s (.body t) = some { s.set t (.leaving r) with object := o } := by
            simp [step, hp, hx]
          have h' := h.keep (step_spec hs)
          obtain ⟨s', hs', hfree⟩ := h'.release (B := B) (t := t) (r := r) (by simp [Guarded.set])
          exact ⟨s', Unseen.cons h hs rfl hs', hfree⟩
    | idle | waiting | done => simp [hp, Phase.Holds] at ht

/-- **A single step is answered**: the mutex is freed, and then the step can be made. -/
lemma Exclusive.answer {b : AtomicAct τ ω ρ} {e : Atomic τ σ ω ρ} (h : Exclusive s)
    (he : (s.atomic B).step B.effect b = some e) :
    ∃ as s', run (step B) s as = some s' ∧ observe (step B) events s as = [b] ∧
      s'.atomic B = e ∧ Exclusive s' := by
  obtain ⟨u, ⟨as, hrun, hobs, heq, hex⟩, hfree⟩ := h.free (B := B)
  rw [← heq] at he
  have finish {a : Act τ ω} {v : Guarded τ σ ω ρ μ} (hv : step B u a = some v)
      (ha : events u a v = [b]) : ∃ as s', run (step B) s as = some s' ∧
        observe (step B) events s as = [b] ∧ s'.atomic B = e ∧ Exclusive s' := by
    obtain ⟨hex', hsim⟩ := hex.sim hv
    rw [ha, run_cons, he, Option.bind_some, run_nil] at hsim
    refine ⟨as ++ [a], v, ?_, ?_, (Option.some.inj hsim).symm, hex'⟩
    · rw [run_append, hrun, Option.bind_some, run_cons, hv, Option.bind_some, run_nil]
    · rw [observe_append hrun, hobs, observe_cons hv, ha, observe_nil, List.nil_append,
        List.append_nil]
  -- the mutex is free, so nobody is between the lock and the release
  have hout (t : τ) : ¬(u.phase t).Holds := by
    rw [hex t, hfree]
    simp
  cases b with
  | call t op =>
    cases hp : u.phase t with
    | idle =>
      have hv : step B u (.call t op) = some (u.set t (.waiting op)) := by simp [step, hp]
      exact finish hv rfl
    | _ => simp [Atomic.step, Guarded.atomic, hp, Phase.atomic] at he
  | commit t =>
    cases hp : u.phase t with
    | waiting op =>
      have hv : step B u (.lock t) =
          some { u.set t (.inside (B.enter op)) with holder := some t } := by
        simp [step, hfree, hp]
      exact finish hv rfl
    | _ => simp [Atomic.step, Guarded.atomic, hp, Phase.atomic] at he
  | ret t r =>
    cases hp : u.phase t with
    | done r' =>
      have hr : r' = r := by
        by_contra hne
        simp [Atomic.step, Guarded.atomic, hp, Phase.atomic, hne] at he
      subst hr
      have hv : step B u (.ret t) = some (u.set t .idle) := by simp [step, hp]
      exact finish hv (by simp [events, hp])
    | inside m => exact absurd (by simp [hp, Phase.Holds]) (hout t)
    | leaving r' => exact absurd (by simp [hp, Phase.Holds]) (hout t)
    | _ => simp [Atomic.step, Guarded.atomic, hp, Phase.atomic] at he

/-- **The mutex keeps no call from going on.** Wherever a run has come to, a step that the object
of single steps can make is the next one that is seen, after some unseen steps. -/
theorem goes_on {o : σ} {as : List (Act τ ω)} {b : AtomicAct τ ω ρ} {e : Atomic τ σ ω ρ}
    (h : run (step B) (init o) as = some s) (he : (s.atomic B).step B.effect b = some e) :
    ∃ bs s', run (step B) s bs = some s' ∧ observe (step B) events s bs = [b] ∧
      s'.atomic B = e := by
  have hex : Exclusive s :=
    run_invariant (fun _ _ _ h hs => h.keep (step_spec hs)) (exclusive_init o) h
  obtain ⟨bs, s', hrun, hobs, heq, -⟩ := hex.answer he
  exact ⟨bs, s', hrun, hobs, heq⟩

/-- **Methods under one mutex are single steps.** What is seen of the threads, their calls, the
moments at which these take effect and what they return, is what is seen of the object whose
methods are single steps. -/
theorem run_iff {o : σ} {bs : List (AtomicAct τ ω ρ)} {e : Atomic τ σ ω ρ} :
    run (Atomic.step B.effect) (Atomic.init o) bs = some e ↔
      ∃ as s, run (step B) (init o) as = some s ∧ observe (step B) events (init o) as = bs ∧
        s.atomic B = e := by
  constructor
  · intro h
    obtain ⟨as, s, hrun, hobs, he, -⟩ := exists_run_observe (f := Guarded.atomic B)
      (I := Exclusive) (C := fun _ _ => True) (fun s b e h _ he => h.answer he)
      (exclusive_init o) (along_of_forall_mem (P := fun _ => True) (fun _ _ => trivial) _) h
    exact ⟨as, s, hrun, hobs, he⟩
  · rintro ⟨as, s, hrun, rfl, rfl⟩
    exact (run_stutters (C := fun _ _ => True) (fun s a s' h hs _ => h.sim hs)
      (exclusive_init o) hrun
      (along_of_forall_mem (P := fun _ => True) (fun _ _ => trivial) _)).2

end ByteborneWorld.Monitor
