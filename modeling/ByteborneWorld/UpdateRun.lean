import Mathlib.Algebra.BigOperators.Group.List.Basic
import Mathlib.Tactic.Ring
import ByteborneWorld.TimerRun

/-!
One call of `update` whose callbacks leave the timer alone: it comes to an end, and by then
every timer has caught up with the clock.
-/

namespace ByteborneWorld.UpdateRun

open ByteborneWorld.Lts ByteborneWorld.TimerModel ByteborneWorld.TimerRun

/-- A callback that was run: of which task, at which due instant, and what it returned. -/
structure Invocation where
  id : ℕ
  due : ℤ
  result : Bool
  deriving DecidableEq

/-- The invocation that ends with a step. -/
def invoked (s : St) (a : Act) (_ : St) : List Invocation :=
  match s.phase, a with
  | .callback _ _ task, .ret callbackResult => [⟨task.id, task.executeTime, callbackResult⟩]
  | _, _ => []

/-- The steps inside the loop of `update`, without calls of the timer. -/
def InUpdate : Act → Prop
  | .pop _ | .ret _ => True
  | _ => False

def entered (t : Timer) (now : ℤ) : St := ⟨t, .loop now 0⟩

def ofTask (id : ℕ) (log : List Invocation) : List Invocation := log.filter fun x => x.id = id

def Repeats (task : TimerTask) : Prop := task.isRepeating = true ∧ 0 < task.interval

instance : DecidablePred Repeats := fun _ => inferInstanceAs (Decidable (_ ∧ _))

/-! ### What `update` promises -/

/-- A due task was run at the instants `e`, `e + interval`, … up to now; after the first of
them unless it repeats, or once a callback has returned false, it was not run again. -/
structure Fires (now : ℤ) (task : TimerTask) (runs : List Invocation) : Prop where
  due : runs.map Invocation.due =
    (List.range runs.length).map fun k : ℕ => task.executeTime + k * task.interval
  pos : 0 < runs.length
  due_le : ∀ x ∈ runs, x.due ≤ now
  result : ∀ x ∈ runs.dropLast, x.result = true
  once : ¬Repeats task → runs.length = 1
  caughtUp : Repeats task → (∀ x ∈ runs, x.result = true) →
    now < task.executeTime + runs.length * task.interval

/-- What holds when the loop ends in state `s`, after the invocations `log`. -/
structure CaughtUp (t : Timer) (now : ℤ) (log : List Invocation) (s : St) : Prop where
  later : ∀ u ∈ s.timer.timerQueue, now < u.executeTime
  fires : ∀ u ∈ t.timerQueue, u.id ∉ t.cancelledTimers → u.executeTime ≤ now →
    Fires now u (ofTask u.id log)
  silent : ∀ u ∈ t.timerQueue, u.id ∈ t.cancelledTimers ∨ now < u.executeTime →
    ofTask u.id log = []
  known : ∀ x ∈ log, ∃ u ∈ t.timerQueue, u.id = x.id
  order : (log.map Invocation.due).Pairwise (· ≤ ·)
  processedCount : s.phase = .loop now log.length

/-- The loop can go on or end; a callback may return anything. -/
def Moves (s : St) : Prop :=
  (∃ task, (step s (.pop task)).isSome) ∨ (∀ b, (step s (.ret b)).isSome) ∨
    (step s .done).isSome

/-! ### The runs of one task -/

section Fires

variable {now : ℤ} {task : TimerTask} {b : Bool} {runs : List Invocation}

lemma fires_last (hdue : task.executeTime ≤ now) (h : ¬(b = true ∧ Repeats task)) :
    Fires now task [⟨task.id, task.executeTime, b⟩] where
  due := by simp
  pos := by simp
  due_le := by simpa using hdue
  result := by simp
  once _ := rfl
  caughtUp hr hb := absurd ⟨by simpa using hb, hr⟩ h

lemma fires_caughtUp (hdue : task.executeTime ≤ now) (hr : Repeats task)
    (hnext : now < task.executeTime + task.interval) :
    Fires now task [⟨task.id, task.executeTime, true⟩] where
  due := by simp
  pos := by simp
  due_le := by simpa using hdue
  result := by simp
  once h := absurd hr h
  caughtUp _ _ := by simpa using hnext

lemma fires_again (hdue : task.executeTime ≤ now) (hr : Repeats task)
    (h : Fires now { task with executeTime := task.executeTime + task.interval } runs) :
    Fires now task (⟨task.id, task.executeTime, true⟩ :: runs) where
  due := by
    rw [List.map_cons, h.due, List.length_cons, List.range_succ_eq_map, List.map_cons,
      List.map_map]
    congr 1
    · simp
    · apply List.map_congr_left
      intro k _
      simp only [Function.comp_apply, Nat.succ_eq_add_one, Nat.cast_add, Nat.cast_one]
      ring
  pos := by simp
  due_le := by
    rintro x (_ | ⟨_, hx⟩)
    · exact hdue
    · exact h.due_le x hx
  result := by
    have hne : runs ≠ [] := List.length_pos_iff.mp h.pos
    rw [List.dropLast_cons_of_ne_nil hne]
    rintro x (_ | ⟨_, hx⟩)
    · rfl
    · exact h.result x hx
  once hn := absurd hr hn
  caughtUp _ hb := by
    have hlt := h.caughtUp hr fun x hx => hb x (.tail _ hx)
    simp only [List.length_cons, Nat.cast_add, Nat.cast_one] at hlt ⊢
    linarith

end Fires

/-! ### Inside the loop -/

/-- What holds inside the loop. The task whose callback is running was on top of the heap. -/
structure Ready (now : ℤ) (s : St) : Prop where
  nodup : (ids s).Nodup
  phase : (∃ k, s.phase = .loop now k) ∨ ∃ k task, s.phase = .callback now k task ∧
    task.executeTime ≤ now ∧ task.id ∉ s.timer.cancelledTimers ∧
      ∀ u ∈ s.timer.timerQueue, task.executeTime ≤ u.executeTime

variable {now : ℤ} {s s' : St} {a : Act} {log : List Invocation}

lemma Ready.of_loop {k : ℕ} {t : Timer} (h : (t.timerQueue.map TimerTask.id).Nodup) :
    Ready now ⟨t, .loop now k⟩ := ⟨by simpa [ids, running] using h, .inl ⟨k, rfl⟩⟩

/-- What a step inside the loop does. -/
inductive Turn (now : ℤ) (s : St) : Act → St → Prop
  | drop (task : TimerTask) (k : ℕ) (head : s.phase = .loop now k) (top : s.timer.IsTop task)
      (due : task.executeTime ≤ now) (marked : task.id ∈ s.timer.cancelledTimers) :
      Turn now s (.pop task) ⟨{ s.timer with
        timerQueue := s.timer.timerQueue.erase task,
        cancelledTimers := s.timer.cancelledTimers.erase task.id }, .loop now k⟩
  | fire (task : TimerTask) (k : ℕ) (head : s.phase = .loop now k) (top : s.timer.IsTop task)
      (due : task.executeTime ≤ now) (unmarked : task.id ∉ s.timer.cancelledTimers) :
      Turn now s (.pop task)
        ⟨{ s.timer with timerQueue := s.timer.timerQueue.erase task }, .callback now k task⟩
  | again (k : ℕ) (task : TimerTask) (running : s.phase = .callback now k task)
      (due : task.executeTime ≤ now) (unmarked : task.id ∉ s.timer.cancelledTimers)
      (first : ∀ u ∈ s.timer.timerQueue, task.executeTime ≤ u.executeTime)
      (repeats : Repeats task) :
      Turn now s (.ret true) ⟨{ s.timer with timerQueue :=
        { task with executeTime := task.executeTime + task.interval } :: s.timer.timerQueue },
        .loop now (k + 1)⟩
  | finish (b : Bool) (k : ℕ) (task : TimerTask) (running : s.phase = .callback now k task)
      (due : task.executeTime ≤ now) (unmarked : task.id ∉ s.timer.cancelledTimers)
      (first : ∀ u ∈ s.timer.timerQueue, task.executeTime ≤ u.executeTime)
      (last : ¬(b = true ∧ Repeats task)) :
      Turn now s (.ret b) ⟨s.timer, .loop now (k + 1)⟩

/-- **The cases of a step inside the loop**, of a state that is ready. -/
lemma Ready.turn (h : Ready now s) (ha : InUpdate a) (hs : step s a = some s') :
    Turn now s a s' := by
  cases step_spec hs with
  | call | update | done => exact absurd ha id
  | drop task now' k head top due marked =>
    obtain ⟨k', hk⟩ | ⟨k', u, hk, -⟩ := h.phase <;> rw [head] at hk <;> cases hk
    exact .drop task k head top due marked
  | fire task now' k head top due unmarked =>
    obtain ⟨k', hk⟩ | ⟨k', u, hk, -⟩ := h.phase <;> rw [head] at hk <;> cases hk
    exact .fire task k head top due unmarked
  | again b now' k task run result repeats positive =>
    obtain ⟨k', hk⟩ | ⟨k', u, hk, hdue, hun, hfirst⟩ := h.phase <;> rw [run] at hk <;> cases hk
    subst result
    exact .again k task run hdue hun hfirst ⟨repeats, positive⟩
  | finish b now' k task run last =>
    obtain ⟨k', hk⟩ | ⟨k', u, hk, hdue, hun, hfirst⟩ := h.phase <;> rw [run] at hk <;> cases hk
    exact .finish b k task run hdue hun hfirst last

lemma ids_erase {t : Timer} {task : TimerTask} (hn : (t.timerQueue.map TimerTask.id).Nodup)
    (hm : task ∈ t.timerQueue) : ((t.timerQueue.erase task).map TimerTask.id).Nodup ∧
      ∀ u ∈ t.timerQueue.erase task, u.id ≠ task.id := by
  have hp := ((List.perm_cons_erase hm).map TimerTask.id).nodup_iff.mp hn
  rw [List.map_cons, List.nodup_cons] at hp
  exact ⟨hp.2, fun u hu heq => hp.1 (List.mem_map.mpr ⟨u, hu, heq⟩)⟩

lemma Ready.step (h : Ready now s) (ha : InUpdate a) (hs : TimerModel.step s a = some s') :
    Ready now s' := by
  have hn := h.nodup
  cases h.turn ha hs with
  | drop task k head top due marked =>
    simp only [ids, running, head, List.nil_append] at hn
    exact .of_loop (ids_erase hn top.1).1
  | fire task k head top due unmarked =>
    simp only [ids, running, head, List.nil_append] at hn
    refine ⟨?_, .inr ⟨k, task, rfl, due, unmarked,
      fun u hu => top.2 u (List.mem_of_mem_erase hu)⟩⟩
    simpa [ids, running] using
      ((List.perm_cons_erase top.1).map TimerTask.id).nodup_iff.mp hn
  | again k task run due unmarked first repeats =>
    simp only [ids, running, run] at hn
    exact .of_loop (by simpa using hn)
  | finish b k task run due unmarked first last =>
    simp only [ids, running, run, List.singleton_append, List.map_cons, List.nodup_cons] at hn
    exact .of_loop hn.2

/-! ### Its end -/

/-- How many turns a task takes at most. -/
def turns (now : ℤ) (task : TimerTask) : ℕ :=
  if now < task.executeTime then 0
  else if Repeats task then ((now - task.executeTime) / task.interval).toNat + 1
  else 1

lemma turns_pos {task : TimerTask} (h : task.executeTime ≤ now) : 0 < turns now task := by
  unfold turns
  split_ifs <;> omega

lemma turns_again {task : TimerTask} (hr : Repeats task) (h : task.executeTime ≤ now) :
    turns now { task with executeTime := task.executeTime + task.interval } + 1 =
      turns now task := by
  have hr' : Repeats { task with executeTime := task.executeTime + task.interval } := hr
  obtain ⟨-, hpos⟩ := hr
  have hdiv : now - task.executeTime = now - (task.executeTime + task.interval) +
      1 * task.interval := by ring
  have hmul : (now - task.executeTime) / task.interval =
      (now - (task.executeTime + task.interval)) / task.interval + 1 := by
    rw [hdiv, Int.add_mul_ediv_right _ _ hpos.ne']
  unfold turns
  rw [if_neg (not_lt.mpr h), if_pos ‹Repeats task›, if_pos hr', hmul]
  dsimp only
  split_ifs with hlt
  · -- the next instant is in the future, and less than one interval away
    have hneg : (now - (task.executeTime + task.interval)) / task.interval < 0 :=
      Int.ediv_neg_of_neg_of_pos (by omega) hpos
    omega
  · have hnonneg : 0 ≤ (now - (task.executeTime + task.interval)) / task.interval :=
      Int.ediv_nonneg (by omega) hpos.le
    omega

/-- What is left to do: two steps a turn, of which a running callback has done one. -/
def work (now : ℤ) (s : St) : ℕ :=
  2 * (s.timer.timerQueue.map (turns now)).sum +
    match s.phase with
    | .callback _ _ task => 2 * turns now task - 1
    | _ => 0

lemma Ready.work_lt (h : Ready now s) (ha : InUpdate a) (hs : TimerModel.step s a = some s') :
    work now s' < work now s := by
  have herase {task : TimerTask} (hm : task ∈ s.timer.timerQueue) :
      (s.timer.timerQueue.map (turns now)).sum =
        turns now task + ((s.timer.timerQueue.erase task).map (turns now)).sum := by
    rw [((List.perm_cons_erase hm).map (turns now)).sum_eq, List.map_cons, List.sum_cons]
  cases h.turn ha hs with
  | drop task k head top due marked =>
    have hpos := turns_pos due
    simp only [work, head, herase top.1]
    omega
  | fire task k head top due unmarked =>
    have hpos := turns_pos due
    simp only [work, head, herase top.1]
    omega
  | again k task run due unmarked first repeats =>
    have heq := turns_again repeats due
    simp only [work, run, List.map_cons, List.sum_cons]
    omega
  | finish b k task run due unmarked first last =>
    have hpos := turns_pos due
    simp only [work, run]
    omega

/-! ### The rest of the loop -/

@[simp] lemma ofTask_nil (id : ℕ) : ofTask id [] = [] := rfl

lemma ofTask_cons_self (id : ℕ) (due : ℤ) (b : Bool) (log : List Invocation) :
    ofTask id (⟨id, due, b⟩ :: log) = ⟨id, due, b⟩ :: ofTask id log := by simp [ofTask]

lemma ofTask_cons_ne {id : ℕ} {x : Invocation} (h : x.id ≠ id) (log : List Invocation) :
    ofTask id (x :: log) = ofTask id log := by simp [ofTask, h]

lemma ofTask_eq_nil {id : ℕ} (h : ∀ x ∈ log, x.id ≠ id) : ofTask id log = [] :=
  List.filter_eq_nil_iff.mpr fun x hx => by simpa using h x hx

/-- What the loop does from state `s` on, to its end in state `e` with the invocations `log`. -/
structure Ends (now : ℤ) (s : St) (log : List Invocation) (e : St) : Prop where
  later : ∀ u ∈ e.timer.timerQueue, now < u.executeTime
  fires : ∀ u ∈ s.timer.timerQueue, u.id ∉ s.timer.cancelledTimers → u.executeTime ≤ now →
    Fires now u (ofTask u.id log)
  silent : ∀ u ∈ s.timer.timerQueue, u.id ∈ s.timer.cancelledTimers ∨ now < u.executeTime →
    ofTask u.id log = []
  running : ∀ k task, s.phase = .callback now k task → Fires now task (ofTask task.id log)
  known : ∀ x ∈ log, x.id ∈ ids s
  /-- nothing is run that was due before all that is there -/
  lower : ∀ m, (∀ u ∈ TimerRun.running s.phase ++ s.timer.timerQueue, m ≤ u.executeTime) →
    ∀ x ∈ log, m ≤ x.due
  order : (log.map Invocation.due).Pairwise (· ≤ ·)
  processedCount : ∀ k, (s.phase = .loop now k ∨ ∃ task, s.phase = .callback now k task) →
    e.phase = .loop now (k + log.length)

variable {e : St}

lemma ends_nil {k : ℕ} (hph : s.phase = .loop now k)
    (hlater : ∀ u ∈ s.timer.timerQueue, now < u.executeTime) : Ends now s [] s where
  later := hlater
  fires u hu _ hdue := absurd (hlater u hu) (not_lt.mpr hdue)
  silent _ _ _ := rfl
  running k task h := by rw [hph] at h; cases h
  known x hx := by cases hx
  lower m _ x hx := by cases hx
  order := .nil
  processedCount k' h := by
    rcases h with h | ⟨task, h⟩ <;> rw [hph] at h <;> cases h
    exact hph

/-- A task that was popped is not run again, as no other has its id. -/
lemma Ends.ofTask_erase {t : Timer} {k : ℕ} {task : TimerTask}
    (h : Ends now ⟨t, .loop now k⟩ log e) (hout : ∀ u ∈ t.timerQueue, u.id ≠ task.id) :
    ofTask task.id log = [] := by
  refine ofTask_eq_nil fun x hx heq => ?_
  obtain ⟨u, hu, hid⟩ := List.mem_map.mp (h.known x hx)
  exact hout u hu (hid.trans heq)

lemma Ends.drop (hready : Ready now s) {task : TimerTask} {k : ℕ} (head : s.phase = .loop now k)
    (top : s.timer.IsTop task) (marked : task.id ∈ s.timer.cancelledTimers)
    (h : Ends now ⟨{ s.timer with
      timerQueue := s.timer.timerQueue.erase task,
      cancelledTimers := s.timer.cancelledTimers.erase task.id }, .loop now k⟩ log e) :
    Ends now s log e := by
  have hn := hready.nodup
  simp only [ids, TimerRun.running, head, List.nil_append] at hn
  obtain ⟨-, hout⟩ := ids_erase hn top.1
  have herase {u : TimerTask} (hu : u ∈ s.timer.timerQueue) :
      u = task ∨ u ∈ s.timer.timerQueue.erase task ∧ u.id ≠ task.id := by
    rcases eq_or_ne u task with rfl | hne
    · exact .inl rfl
    · have hu' := (List.mem_erase_of_ne hne).mpr hu
      exact .inr ⟨hu', hout u hu'⟩
  refine ⟨h.later, fun u hu hun hdue => ?_, fun u hu hor => ?_, fun k' u hu => ?_, fun x hx => ?_,
    fun m hm => ?_, h.order, fun k' hk => ?_⟩
  · obtain rfl | ⟨hu', hne⟩ := herase hu
    · exact absurd marked hun
    · exact h.fires u hu' (fun hmem => hun (Finset.mem_of_mem_erase hmem)) hdue
  · obtain rfl | ⟨hu', hne⟩ := herase hu
    · exact h.ofTask_erase hout
    · exact h.silent u hu' (hor.imp_left fun hmem => Finset.mem_erase.mpr ⟨hne, hmem⟩)
  · rw [head] at hu
    cases hu
  · have hx' := h.known x hx
    simp only [ids, TimerRun.running, head, List.nil_append] at hx' ⊢
    exact (List.erase_sublist.map _).subset hx'
  · refine h.lower m fun u hu => hm u ?_
    simp only [TimerRun.running, head, List.nil_append] at hu ⊢
    exact List.mem_of_mem_erase hu
  · rcases hk with hk | ⟨u, hk⟩ <;> rw [head] at hk <;> cases hk
    exact h.processedCount k (.inl rfl)

lemma Ends.fire {task : TimerTask} {k : ℕ} (head : s.phase = .loop now k)
    (top : s.timer.IsTop task) (due : task.executeTime ≤ now)
    (unmarked : task.id ∉ s.timer.cancelledTimers)
    (h : Ends now
      ⟨{ s.timer with timerQueue := s.timer.timerQueue.erase task }, .callback now k task⟩ log e) :
    Ends now s log e := by
  have herase {u : TimerTask} (hu : u ∈ s.timer.timerQueue) :
      u = task ∨ u ∈ s.timer.timerQueue.erase task := by
    rcases eq_or_ne u task with rfl | hne
    · exact .inl rfl
    · exact .inr ((List.mem_erase_of_ne hne).mpr hu)
  have hperm := List.perm_cons_erase top.1
  refine ⟨h.later, fun u hu hun hdue => ?_, fun u hu hor => ?_, fun k' u hu => ?_, fun x hx => ?_,
    fun m hm => ?_, h.order, fun k' hk => ?_⟩
  · obtain rfl | hu' := herase hu
    · exact h.running k u rfl
    · exact h.fires u hu' hun hdue
  · obtain rfl | hu' := herase hu
    · rcases hor with hmem | hlt
      · exact absurd hmem unmarked
      · exact absurd due (not_le.mpr hlt)
    · exact h.silent u hu' hor
  · rw [head] at hu
    cases hu
  · have hx' := h.known x hx
    simp only [ids, TimerRun.running, head, List.nil_append] at hx' ⊢
    exact (hperm.map _).mem_iff.mpr hx'
  · refine h.lower m fun u hu => hm u ?_
    simp only [TimerRun.running, head, List.nil_append] at hu ⊢
    exact hperm.mem_iff.mpr hu
  · rcases hk with hk | ⟨u, hk⟩ <;> rw [head] at hk <;> cases hk
    exact h.processedCount k (.inr ⟨task, rfl⟩)

lemma Ends.ret (hready : Ready now s) {task : TimerTask} {k : ℕ} {b : Bool}
    (run : s.phase = .callback now k task)
    (first : ∀ u ∈ s.timer.timerQueue, task.executeTime ≤ u.executeTime) (new : List TimerTask)
    (hnew : ∀ v ∈ new, v.id = task.id ∧ task.executeTime ≤ v.executeTime)
    (h : Ends now ⟨{ s.timer with timerQueue := new ++ s.timer.timerQueue }, .loop now (k + 1)⟩
      log e)
    (hfires : Fires now task (⟨task.id, task.executeTime, b⟩ :: ofTask task.id log)) :
    Ends now s (⟨task.id, task.executeTime, b⟩ :: log) e := by
  have hout : ∀ u ∈ s.timer.timerQueue, task.id ≠ u.id := fun u hu heq => by
    have hn := hready.nodup
    simp only [ids, TimerRun.running, run, List.singleton_append, List.map_cons,
      List.nodup_cons] at hn
    exact hn.1 (List.mem_map.mpr ⟨u, hu, heq.symm⟩)
  have hfirst : ∀ x ∈ log, task.executeTime ≤ x.due := h.lower _ fun u hu => by
    rcases (List.mem_append (s := new)).mp hu with hu | hu
    · exact (hnew u hu).2
    · exact first u hu
  refine ⟨h.later, fun u hu hun hdue => ?_, fun u hu hor => ?_, fun k' u hu => ?_, fun x hx => ?_,
    fun m hm x hx => ?_, ?_, fun k' hk => ?_⟩
  · rw [ofTask_cons_ne (hout u hu)]
    exact h.fires u (List.mem_append_right _ hu) hun hdue
  · rw [ofTask_cons_ne (hout u hu)]
    exact h.silent u (List.mem_append_right _ hu) hor
  · rw [run] at hu
    cases hu
    rwa [ofTask_cons_self]
  · simp only [ids, TimerRun.running, run, List.singleton_append, List.map_cons, List.mem_cons]
    rcases List.mem_cons.mp hx with rfl | hx
    · exact .inl rfl
    · obtain ⟨u, hu, hid⟩ := List.mem_map.mp (h.known x hx)
      rcases (List.mem_append (s := new)).mp hu with hu | hu
      · exact .inl (hid.symm.trans (hnew u hu).1)
      · exact .inr (List.mem_map.mpr ⟨u, hu, hid⟩)
  · have htask : m ≤ task.executeTime := hm task (by simp [TimerRun.running, run])
    rcases List.mem_cons.mp hx with rfl | hx
    · exact htask
    · exact le_trans htask (hfirst x hx)
  · rw [List.map_cons, List.pairwise_cons]
    refine ⟨fun d hd => ?_, h.order⟩
    obtain ⟨x, hx, rfl⟩ := List.mem_map.mp hd
    exact hfirst x hx
  · rcases hk with hk | ⟨u, hk⟩ <;> rw [run] at hk <;> cases hk
    rw [h.processedCount (k + 1) (.inl rfl), List.length_cons]
    congr 1
    omega

/-- **One step of the loop.** -/
lemma Ends.turn (hready : Ready now s) (hs : Turn now s a s') (h : Ends now s' log e) :
    Ends now s (invoked s a s' ++ log) e := by
  have hn := hready.nodup
  cases hs with
  | drop task k head top due marked =>
    simp only [invoked, head, List.nil_append]
    exact h.drop hready head top marked
  | fire task k head top due unmarked =>
    simp only [invoked, head, List.nil_append]
    exact h.fire head top due unmarked
  | again k task run due unmarked first repeats =>
    simp only [invoked, run, List.singleton_append]
    obtain ⟨-, hpos⟩ := id repeats
    refine h.ret hready run first [_] (by simp [hpos.le]) ?_
    by_cases hnext : task.executeTime + task.interval ≤ now
    · exact fires_again due repeats (h.fires _ (by simp) unmarked hnext)
    · have hsilent := h.silent _ (List.mem_cons_self ..) (.inr (not_le.mp hnext))
      rw [hsilent]
      exact fires_caughtUp due repeats (not_le.mp hnext)
  | finish b k task run due unmarked first last =>
    simp only [invoked, run, List.singleton_append]
    refine h.ret hready run first [] (by simp) ?_
    rw [h.ofTask_erase fun u hu heq => ?_]
    · exact fires_last due last
    · simp only [ids, TimerRun.running, run, List.singleton_append, List.map_cons,
        List.nodup_cons] at hn
      exact hn.1 (List.mem_map.mpr ⟨u, hu, heq⟩)

/-- **The whole loop**, by induction on what is left of it. -/
lemma Ready.ends {acts : List Act} (hready : Ready now s) (hin : ∀ a ∈ acts, InUpdate a)
    (hrun : run TimerModel.step s acts = some e) {e' : St}
    (hdone : TimerModel.step e .done = some e') :
    Ends now s (observe TimerModel.step invoked s acts) e := by
  induction acts generalizing s with
  | nil =>
    cases hrun
    cases step_spec hdone with
    | done now' k head early =>
      obtain ⟨k', hk⟩ | ⟨k', u, hk, -⟩ := hready.phase <;> rw [head] at hk <;> cases hk
      exact ends_nil head early
  | cons a acts ih =>
    obtain ⟨s', hs, hrun'⟩ := run_cons_some hrun
    have ha := hin a (by simp)
    rw [observe_cons hs]
    exact (ih (hready.step ha hs) (fun b hb => hin b (by simp [hb])) hrun').turn hready
      (hready.turn ha hs)

/-! ### Every call -/

lemma exists_first {tasks : List TimerTask} (h : tasks ≠ []) :
    ∃ task ∈ tasks, ∀ u ∈ tasks, task.executeTime ≤ u.executeTime := by
  induction tasks with
  | nil => exact absurd rfl h
  | cons v tasks ih =>
    rcases eq_or_ne tasks [] with rfl | hne
    · exact ⟨v, by simp, by simp⟩
    · obtain ⟨w, hw, hle⟩ := ih hne
      rcases le_total v.executeTime w.executeTime with hvw | hvw
      · exact ⟨v, by simp, by
          simpa using fun u hu => le_trans hvw (hle u hu)⟩
      · exact ⟨w, by simp [hw], by simpa [hvw] using hle⟩

/-- **The loop never stops in the middle.** -/
lemma Ready.moves (h : Ready now s) : Moves s := by
  obtain ⟨t, phase⟩ := s
  obtain ⟨k, hk⟩ | ⟨k, task, hk, -⟩ := h.phase <;> dsimp only at hk <;> subst hk
  · by_cases hearly : ∀ u ∈ t.timerQueue, now < u.executeTime
    · exact .inr (.inr (by simpa [TimerModel.step] using hearly))
    · push Not at hearly
      obtain ⟨v, hv, hdue⟩ := hearly
      obtain ⟨task, htask, hfirst⟩ := exists_first (List.ne_nil_of_mem hv)
      refine .inl ⟨task, ?_⟩
      have htop : t.IsTop task ∧ task.executeTime ≤ now :=
        ⟨⟨htask, hfirst⟩, le_trans (hfirst v hv) hdue⟩
      simp only [TimerModel.step, if_pos htop]
      split_ifs <;> rfl
  · refine .inr (.inl fun b => ?_)
    simp only [TimerModel.step]
    split_ifs <;> rfl

/-- **`update` catches up and terminates.** Whatever its callbacks return, a call of `update`
takes a bounded number of steps, and none of them is the last before the loop is left; by then
every timer has been run at the instants it was due, all of them in order. -/
theorem update_catches_up (t : Timer) (now : ℤ) (hids : (t.timerQueue.map TimerTask.id).Nodup) :
    ∃ n, ∀ acts s, (∀ a ∈ acts, InUpdate a) → run step (entered t now) acts = some s →
      acts.length ≤ n ∧ Moves s ∧ ((step s .done).isSome →
        CaughtUp t now (observe step invoked (entered t now) acts) s) := by
  have hready : Ready now (entered t now) := .of_loop hids
  refine ⟨work now (entered t now), fun acts s hin hrun => ?_⟩
  have hlen := length_le_of_decreases (I := Ready now) (C := InUpdate)
    (fun s a s' h ha hs => ⟨h.step ha hs, h.work_lt ha hs⟩) hready hin hrun
  have hs : Ready now s := by
    refine run_invariant_of_along (I := Ready now) (C := fun _ a => InUpdate a)
      (fun s a s' h ha hs => h.step ha hs) hready (along_of_forall_mem hin _) hrun
  refine ⟨by omega, hs.moves, fun hdone => ?_⟩
  obtain ⟨s', hdone⟩ := Option.isSome_iff_exists.mp hdone
  have hends := hready.ends hin hrun hdone
  refine ⟨hends.later, hends.fires, hends.silent, fun x hx => ?_, hends.order, ?_⟩
  · simpa [ids, running, entered] using hends.known x hx
  · simpa using hends.processedCount 0 (.inl rfl)

/-- A timer that is due three times, is run twice, and then returns false. -/
theorem update_catches_up_repeating :
    CaughtUp ⟨[⟨1, 10, true, 5⟩], ∅, 2⟩ 20 [⟨1, 10, true⟩, ⟨1, 15, false⟩]
      ⟨⟨[], ∅, 2⟩, .loop 20 2⟩ := by
  obtain ⟨_, h⟩ := update_catches_up ⟨[⟨1, 10, true, 5⟩], ∅, 2⟩ 20 (by simp)
  exact (h [.pop ⟨1, 10, true, 5⟩, .ret true, .pop ⟨1, 15, true, 5⟩, .ret false] _
    (by simp [InUpdate]) rfl).2.2 rfl

end ByteborneWorld.UpdateRun
