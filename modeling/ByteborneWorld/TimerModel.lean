import Mathlib.Data.Finset.Card
import Mathlib.Tactic.Linarith
import ByteborneWorld.Lts

/-!
The timer of the core library: a heap of tasks, a set of cancelled ids, a counter of ids.

A callback may itself schedule and cancel, so `update` is modelled step by step: its loop
head, the pop of a due task, and the return of a callback are actions of their own, and
between the pop and the return any operation may be called.
-/

namespace ByteborneWorld.TimerModel

/-- A task. Clock arithmetic is over unbounded integers. The callback is not a field: what an
invocation does and returns is chosen by the actions of a run. -/
structure TimerTask where
  id : ℕ
  executeTime : ℤ
  isRepeating : Bool
  interval : ℤ
  deriving DecidableEq

/-- `timerQueue` is the content of the heap; which of several earliest tasks is on top is
left open. -/
structure Timer where
  timerQueue : List TimerTask
  cancelledTimers : Finset ℕ
  nextTimerId : ℕ
  deriving DecidableEq

def Timer.new : Timer := ⟨[], ∅, 1⟩

/-! ### The operations -/

/-- The atomic counter is 64 bits wide. -/
def Timer.generateNextId (t : Timer) : Timer × ℕ :=
  ({ t with nextTimerId := (t.nextTimerId + 1) % 2 ^ 64 }, t.nextTimerId)

def Timer.scheduleInternal (t : Timer) (executeTime : ℤ) (isRepeating : Bool)
    (interval : ℤ) : Timer × ℕ :=
  let (t', id) := t.generateNextId
  ({ t' with timerQueue := ⟨id, executeTime, isRepeating, interval⟩ :: t'.timerQueue }, id)

def Timer.scheduleOnce (t : Timer) (now : ℤ) (delay : ℤ) : Timer × ℕ :=
  t.scheduleInternal (now + delay) false 0

def Timer.scheduleRepeating (t : Timer) (now : ℤ) (delay interval : ℤ) :
    Timer × ℕ :=
  t.scheduleInternal (now + delay) true interval

def Timer.scheduleAt (t : Timer) (executeTime : ℤ) : Timer × ℕ :=
  t.scheduleInternal executeTime false 0

def Timer.cancel (t : Timer) (timerId : ℕ) : Timer × Bool :=
  if timerId = 0 then (t, false)
  else ({ t with cancelledTimers := insert timerId t.cancelledTimers }, true)

/-- The subtraction is of `size_t`. -/
def Timer.getTimerCount (t : Timer) : ℕ :=
  (((t.timerQueue.length : ℤ) - t.cancelledTimers.card) % 2 ^ 64).toNat

def Timer.clear (t : Timer) : Timer :=
  { t with timerQueue := [], cancelledTimers := ∅ }

/-- What the application, or a callback, may call. -/
inductive Op
  | scheduleOnce (now : ℤ) (delay : ℤ)
  | scheduleRepeating (now : ℤ) (delay interval : ℤ)
  | scheduleAt (executeTime : ℤ)
  | cancel (timerId : ℕ)
  | clear
  deriving DecidableEq

def Timer.call (t : Timer) : Op → Timer
  | .scheduleOnce now delay => (t.scheduleOnce now delay).1
  | .scheduleRepeating now delay interval => (t.scheduleRepeating now delay interval).1
  | .scheduleAt executeTime => (t.scheduleAt executeTime).1
  | .cancel timerId => (t.cancel timerId).1
  | .clear => t.clear

/-- The task may be on top of the heap: none is earlier. -/
def Timer.IsTop (t : Timer) (task : TimerTask) : Prop :=
  task ∈ t.timerQueue ∧ ∀ u ∈ t.timerQueue, task.executeTime ≤ u.executeTime

instance (t : Timer) (task : TimerTask) : Decidable (t.IsTop task) :=
  inferInstanceAs (Decidable (_ ∧ _))

/-! ### The loop of `update` -/

/-- Where the thread that owns the timer stands. -/
inductive Phase
  | idle
  | loop (now : ℤ) (processedCount : ℕ)
  | callback (now : ℤ) (processedCount : ℕ) (task : TimerTask)
  deriving DecidableEq

structure St where
  timer : Timer
  phase : Phase
  deriving DecidableEq

def init : St := ⟨Timer.new, .idle⟩

inductive Act
  /-- An operation is called, by the application or by the running callback. -/
  | call (op : Op)
  /-- `update` is entered and reads the clock. -/
  | update (now : ℤ)
  /-- One turn of the loop, up to the call of the callback. -/
  | pop (task : TimerTask)
  /-- The callback returns. -/
  | ret (callbackResult : Bool)
  /-- The loop ends. -/
  | done
  deriving DecidableEq

def step (s : St) : Act → Option St
  | .call op =>
    match s.phase with
    | .loop _ _ => none
    | _ => some { s with timer := s.timer.call op }
  | .update now =>
    match s.phase with
    | .idle => some { s with phase := .loop now 0 }
    | _ => none
  | .pop task =>
    match s.phase with
    | .loop now k =>
      if s.timer.IsTop task ∧ task.executeTime ≤ now then
        let t := { s.timer with timerQueue := s.timer.timerQueue.erase task }
        if task.id ∈ t.cancelledTimers then
          some ⟨{ t with cancelledTimers := t.cancelledTimers.erase task.id }, .loop now k⟩
        else some ⟨t, .callback now k task⟩
      else none
    | _ => none
  | .ret callbackResult =>
    match s.phase with
    | .callback now k task =>
      if callbackResult ∧ task.isRepeating ∧ 0 < task.interval then
        some ⟨{ s.timer with timerQueue :=
          { task with executeTime := task.executeTime + task.interval } :: s.timer.timerQueue },
          .loop now (k + 1)⟩
      else some ⟨s.timer, .loop now (k + 1)⟩
    | _ => none
  | .done =>
    match s.phase with
    | .loop now _ =>
      if ∀ u ∈ s.timer.timerQueue, now < u.executeTime then some { s with phase := .idle }
      else none
    | _ => none

/-- The step leaves the loop for the callback of the task with this id. -/
def Starts (s : St) (a : Act) (id : ℕ) : Prop :=
  ∃ now k task, s.phase = .loop now k ∧ task.id = id ∧
    (step s a).map St.phase = some (.callback now k task)

/-! ### What a step can do -/

inductive Step (s : St) : Act → St → Prop
  | call (op : Op) (outside : ∀ now k, s.phase ≠ .loop now k) :
      Step s (.call op) { s with timer := s.timer.call op }
  | update (now : ℤ) (idle : s.phase = .idle) :
      Step s (.update now) { s with phase := .loop now 0 }
  | drop (task : TimerTask) (now : ℤ) (k : ℕ) (head : s.phase = .loop now k)
      (top : s.timer.IsTop task) (due : task.executeTime ≤ now)
      (marked : task.id ∈ s.timer.cancelledTimers) :
      Step s (.pop task) ⟨{ s.timer with
        timerQueue := s.timer.timerQueue.erase task,
        cancelledTimers := s.timer.cancelledTimers.erase task.id }, .loop now k⟩
  | fire (task : TimerTask) (now : ℤ) (k : ℕ) (head : s.phase = .loop now k)
      (top : s.timer.IsTop task) (due : task.executeTime ≤ now)
      (unmarked : task.id ∉ s.timer.cancelledTimers) :
      Step s (.pop task)
        ⟨{ s.timer with timerQueue := s.timer.timerQueue.erase task }, .callback now k task⟩
  | again (callbackResult : Bool) (now : ℤ) (k : ℕ) (task : TimerTask)
      (running : s.phase = .callback now k task) (result : callbackResult = true)
      (repeats : task.isRepeating = true) (positive : 0 < task.interval) :
      Step s (.ret callbackResult) ⟨{ s.timer with timerQueue :=
        { task with executeTime := task.executeTime + task.interval } :: s.timer.timerQueue },
        .loop now (k + 1)⟩
  | finish (callbackResult : Bool) (now : ℤ) (k : ℕ) (task : TimerTask)
      (running : s.phase = .callback now k task)
      (last : ¬(callbackResult = true ∧ task.isRepeating = true ∧ 0 < task.interval)) :
      Step s (.ret callbackResult) ⟨s.timer, .loop now (k + 1)⟩
  | done (now : ℤ) (k : ℕ) (head : s.phase = .loop now k)
      (early : ∀ u ∈ s.timer.timerQueue, now < u.executeTime) :
      Step s .done { s with phase := .idle }

lemma step_spec {s s' : St} {a : Act} (h : step s a = some s') : Step s a s' := by
  obtain ⟨t, ph⟩ := s
  cases a with
  | call op =>
    cases ph <;> simp only [step, Option.some.injEq, reduceCtorEq] at h
    all_goals subst h; exact .call op (by simp)
  | update now =>
    cases ph <;> simp only [step, Option.some.injEq, reduceCtorEq] at h
    subst h; exact .update now rfl
  | pop task =>
    cases ph with
    | loop now k =>
      simp only [step] at h
      split_ifs at h with hdue hmark
      · cases h; exact .drop task now k rfl hdue.1 hdue.2 hmark
      · cases h; exact .fire task now k rfl hdue.1 hdue.2 hmark
    | _ => simp [step] at h
  | ret b =>
    cases ph with
    | callback now k task =>
      simp only [step] at h
      split_ifs at h with hrep
      · cases h; exact .again b now k task rfl hrep.1 hrep.2.1 hrep.2.2
      · cases h; exact .finish b now k task rfl hrep
    | _ => simp [step] at h
  | done =>
    cases ph with
    | loop now k =>
      simp only [step] at h
      split_ifs at h with hearly
      cases h; exact .done now k rfl hearly
    | _ => simp [step] at h

/-- A callback is started by the pop of an unmarked task, and by nothing else. -/
lemma starts_spec {s : St} {a : Act} {id : ℕ} (h : Starts s a id) :
    ∃ task, a = .pop task ∧ task.id = id ∧ task ∈ s.timer.timerQueue ∧
      id ∉ s.timer.cancelledTimers := by
  obtain ⟨now, k, task, hph, hid, hmap⟩ := h
  obtain ⟨s', hs, hph'⟩ := Option.map_eq_some_iff.mp hmap
  cases step_spec hs with
  | call op outside => exact absurd hph (outside now k)
  | fire u _ _ _ top _ unmarked =>
    cases hph'
    subst hid
    exact ⟨task, rfl, rfl, top.1, unmarked⟩
  | _ => simp_all

end ByteborneWorld.TimerModel
