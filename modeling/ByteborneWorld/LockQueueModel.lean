import ByteborneWorld.Monitor

/-!
The queue of the core library, which the event queues of the services and the sessions are: a
deque behind a mutex. Any number of threads push and pop; each call is as good as one step.
-/

namespace ByteborneWorld.LockQueueModel

open ByteborneWorld.Lts ByteborneWorld.Monitor

variable {τ α : Type*}

/-! ### The code -/

inductive Op (α : Type*)
  | push (item : α)
  | pop
  | isEmpty
  | size
  | clear
  deriving DecidableEq

/-- `pop` returns whether there was an item, and hands it over. -/
inductive Reply (α : Type*)
  | void
  | popped (item : Option α)
  | isEmpty (result : Bool)
  | size (result : ℕ)
  deriving DecidableEq

/-- Where a body stands under the mutex. -/
inductive At (α : Type*)
  | start (op : Op α)
  /-- the front was moved to `item`, and is still in the deque -/
  | popFront (item : α)

/-- The steps of the bodies. What is left of an item that was moved is a parameter. -/
def bodies (movedFrom : α → α) : Bodies (List α) (Op α) (Reply α) (At α) where
  enter := .start
  step queue
    | .start (.push item) => (queue ++ [item], .inr .void)
    | .start .pop =>
      match queue with
      | [] => (queue, .inr (.popped none))
      | item :: rest => (movedFrom item :: rest, .inl (.popFront item))
    | .popFront item => (queue.tail, .inr (.popped (some item)))
    | .start .isEmpty => (queue, .inr (.isEmpty queue.isEmpty))
    | .start .size => (queue, .inr (.size queue.length))
    | .start .clear => ([], .inr .void)
  size
    | .start _ => 1
    | .popFront _ => 0
  size_lt queue m queue' m' h := by
    cases m with
    | popFront item => cases h
    | start op =>
      cases op with
      | pop =>
        cases queue with
        | nil => cases h
        | cons item rest =>
          cases h
          exact Nat.zero_lt_one
      | _ => cases h

/-! ### The queue -/

/-- What a call does, in one step. -/
def effect (queue : List α) : Op α → List α × Reply α
  | .push item => (queue ++ [item], .void)
  | .pop => (queue.tail, .popped queue.head?)
  | .isEmpty => (queue, .isEmpty queue.isEmpty)
  | .size => (queue, .size queue.length)
  | .clear => ([], .void)

lemma effect_bodies (movedFrom : α → α) : (bodies movedFrom).effect = effect := by
  funext queue op
  cases op with
  | pop =>
    cases queue with
    | nil => exact Bodies.finish_inr rfl
    | cons item rest =>
      -- what was left of the item is gone with the second step
      have hmove : (bodies movedFrom).step (item :: rest) (.start .pop) =
          (movedFrom item :: rest, .inl (.popFront item)) := rfl
      have hpop : (bodies movedFrom).step (movedFrom item :: rest) (.popFront item) =
          (rest, .inr (.popped (some item))) := rfl
      exact (Bodies.finish_inl hmove).trans (Bodies.finish_inr hpop)
  | _ => exact Bodies.finish_inr rfl

variable [DecidableEq τ] [DecidableEq α]

def pushed (s : Atomic τ (List α) (Op α) (Reply α)) (a : AtomicAct τ (Op α) (Reply α))
    (_ : Atomic τ (List α) (Op α) (Reply α)) : List α :=
  match a with
  | .commit t =>
    match s.phase t with
    | .called (.push item) => [item]
    | _ => []
  | _ => []

def taken (s : Atomic τ (List α) (Op α) (Reply α)) (a : AtomicAct τ (Op α) (Reply α))
    (_ : Atomic τ (List α) (Op α) (Reply α)) : List α :=
  match a with
  | .commit t =>
    match s.phase t with
    | .called .pop => s.object.head?.toList
    | .called .clear => s.object
    | _ => []
  | _ => []

lemma object_step {s s' : Atomic τ (List α) (Op α) (Reply α)} {a : AtomicAct τ (Op α) (Reply α)}
    (hs : s.step effect a = some s') : s.object ++ pushed s a s' = taken s a s' ++ s'.object := by
  cases a with
  | call t op =>
    cases hp : s.phase t <;> simp only [Atomic.step, hp, Option.some.injEq, reduceCtorEq] at hs
    subst hs
    simp [pushed, taken, Atomic.set]
  | ret t r =>
    cases hp : s.phase t <;> simp only [Atomic.step, hp, reduceCtorEq] at hs
    split_ifs at hs
    cases hs
    simp [pushed, taken, Atomic.set]
  | commit t =>
    cases hp : s.phase t <;> simp only [Atomic.step, hp, Option.some.injEq, reduceCtorEq] at hs
    subst hs
    rename_i op
    cases op with
    | pop => cases hq : s.object <;> simp [pushed, taken, hp, hq, effect]
    | push | isEmpty | size | clear => simp [pushed, taken, hp, effect]

/-- **First in, first out**: the items that were pushed, in the order in which the calls took
effect, are those that were taken, in that order, and then those in the queue. -/
theorem pushed_eq {bs : List (AtomicAct τ (Op α) (Reply α))}
    {s : Atomic τ (List α) (Op α) (Reply α)}
    (h : run (Atomic.step effect) (.init []) bs = some s) :
    observe (Atomic.step effect) pushed (.init []) bs =
      observe (Atomic.step effect) taken (.init []) bs ++ s.object := by
  have hall := observe_invariant₂ pushed taken
    (I := fun (s : Atomic τ (List α) (Op α) (Reply α)) ps ts => ps = ts ++ s.object)
    (fun s ps ts a s' hI hs => by
      rw [hI, List.append_assoc, object_step hs, List.append_assoc])
    (show ([] : List α) = [] ++ [] from rfl) h
  simpa using hall

/-- The queue behind the mutex, with nothing called yet. -/
def empty (τ α : Type*) [DecidableEq τ] : Guarded τ (List α) (Op α) (Reply α) (At α) := init []

lemma run_iff_single (movedFrom : α → α) {bs : List (AtomicAct τ (Op α) (Reply α))}
    {e : Atomic τ (List α) (Op α) (Reply α)} :
    run (Atomic.step effect) (.init []) bs = some e ↔
      ∃ as s, run (step (bodies movedFrom)) (empty τ α) as = some s ∧
        observe (step (bodies movedFrom)) events (empty τ α) as = bs ∧
        s.atomic (bodies movedFrom) = e := by
  have hiff := @run_iff τ (List α) (Op α) (Reply α) (At α) _ (bodies movedFrom) _ [] bs e
  rwa [effect_bodies movedFrom] at hiff

/-- **The queue behind the mutex is the queue of single steps**, for any threads, any calls and
any order of their steps: calls and returns can be seen of the one exactly if they can be seen
of the other, with each call taking effect at one moment between the two. The items then leave
the queue in the order in which they came, each once. And wherever a run has come to, each call,
effect or return that the queue of single steps allows there can be the next one that is seen:
no call is ever kept from going on by the mutex. -/
theorem lockQueue_iff (movedFrom : α → α) :
    (∀ (bs : List (AtomicAct τ (Op α) (Reply α))) (e : Atomic τ (List α) (Op α) (Reply α)),
      run (Atomic.step effect) (.init []) bs = some e ↔
        ∃ as s, run (step (bodies movedFrom)) (empty τ α) as = some s ∧
          observe (step (bodies movedFrom)) events (empty τ α) as = bs ∧
          s.atomic (bodies movedFrom) = e ∧
          observe (Atomic.step effect) pushed (.init []) bs =
            observe (Atomic.step effect) taken (.init []) bs ++ e.object) ∧
      ∀ as s, run (step (bodies movedFrom)) (empty τ α) as = some s →
        ∀ b e, (s.atomic (bodies movedFrom)).step effect b = some e →
          ∃ as' s', run (step (bodies movedFrom)) s as' = some s' ∧
            observe (step (bodies movedFrom)) events s as' = [b] ∧
            s'.atomic (bodies movedFrom) = e := by
  refine ⟨fun bs e => ⟨fun h => ?_, ?_⟩, fun as s hrun b e he => ?_⟩
  · obtain ⟨as, s, hrun, hobs, he⟩ := (run_iff_single movedFrom).mp h
    exact ⟨as, s, hrun, hobs, he, pushed_eq h⟩
  · rintro ⟨as, s, hrun, hobs, he, -⟩
    exact (run_iff_single movedFrom).mpr ⟨as, s, hrun, hobs, he⟩
  · rw [← effect_bodies movedFrom] at he
    exact goes_on hrun he

/-- One thread has moved the front item and not popped it yet, when another one comes to push. -/
def pushDuringPop : List (Act Bool (Op ℕ)) :=
  [.call true (.push 7), .lock true, .body true, .unlock true, .ret true, .call true .pop,
    .lock true, .body true, .call false (.push 8)]

/-- The push is the next one that takes effect, on the queue without that item. -/
theorem lockQueue_iff_pushDuringPop : ∃ s as s',
    run (step (bodies fun _ => 0)) (empty Bool ℕ) pushDuringPop = some s ∧
      s.object = [0] ∧ s.holder = some true ∧
      run (step (bodies fun _ => 0)) s as = some s' ∧
      observe (step (bodies fun _ => 0)) events s as = [.commit false] ∧
      (s'.atomic (bodies fun _ => 0)).object = [8] := by
  obtain ⟨s, hrun⟩ := Option.isSome_iff_exists.mp (show (run (step (bodies fun _ => 0))
    (empty Bool ℕ) pushDuringPop).isSome = true by rfl)
  have hseen : (run (step (bodies fun _ => 0)) (empty Bool ℕ) pushDuringPop).map
      (fun s => (s.object, s.holder, s.phase true, s.phase false)) =
      some ([0], some true, .inside (.popFront 7), .waiting (.push 8)) := by rfl
  rw [hrun, Option.map_some, Option.some.injEq] at hseen
  simp only [Prod.mk.injEq] at hseen
  obtain ⟨hobject, hholder, hpop, hpush⟩ := hseen
  have hempty : (s.atomic (bodies fun _ => 0)).object = [] := by
    have hlast : (bodies fun _ => 0).finish [0] (.popFront 7) = ([], .popped (some 7)) :=
      Bodies.finish_inr rfl
    simp only [Guarded.atomic, hholder, hpop, hobject, hlast]
  have hnext : (s.atomic (bodies fun _ => 0)).phase false = .called (.push 8) := by
    simp only [Guarded.atomic, hpush, Phase.atomic]
  have he : ∃ e, (s.atomic (bodies fun _ => 0)).step effect (.commit false) = some e ∧
      e.object = [8] := by
    simp only [Atomic.step, hnext]
    exact ⟨_, rfl, by simp [effect, hempty]⟩
  obtain ⟨e, he, hobj⟩ := he
  obtain ⟨as, s', hrun', hobs, heq⟩ := (lockQueue_iff fun _ => 0).2 _ s hrun _ e he
  exact ⟨s, as, s', hrun, hobject, hholder, hrun', hobs, heq ▸ hobj⟩

end ByteborneWorld.LockQueueModel
