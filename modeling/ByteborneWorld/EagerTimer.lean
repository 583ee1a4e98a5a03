import ByteborneWorld.UpdateRun

/-!
The timer as its users see it, whose cancelled timers are gone at once; and that the timer of
the core library, which keeps them in the heap until their time comes, cannot be told from it.
-/

namespace ByteborneWorld.EagerTimer

open ByteborneWorld.Lts ByteborneWorld.TimerModel ByteborneWorld.TimerRun
open ByteborneWorld.UpdateRun (exists_first)

/-! ### The timer without marks -/

/-- The phases of the timer. A task is flagged that was cancelled while its callback runs. -/
inductive EagerPhase
  | idle
  | loop (now : ℤ) (processedCount : ℕ)
  | callback (now : ℤ) (processedCount : ℕ) (task : TimerTask) (cancelled : Bool)
  deriving DecidableEq

def EagerPhase.flag (f : TimerTask → Bool → Bool) : EagerPhase → EagerPhase
  | .callback now k task cancelled => .callback now k task (f task cancelled)
  | ph => ph

/-- `tasks` are those that can fire. -/
structure Eager where
  tasks : List TimerTask
  nextTimerId : ℕ
  phase : EagerPhase
  deriving DecidableEq

def Eager.init : Eager := ⟨[], 1, .idle⟩

def Eager.schedule (e : Eager) (executeTime : ℤ) (isRepeating : Bool) (interval : ℤ) : Eager :=
  { e with
    tasks := ⟨e.nextTimerId, executeTime, isRepeating, interval⟩ :: e.tasks
    nextTimerId := e.nextTimerId + 1 }

def Eager.cancel (e : Eager) (timerId : ℕ) : Eager :=
  { e with
    tasks := e.tasks.filter fun u => u.id ≠ timerId
    phase := e.phase.flag fun task cancelled => cancelled || task.id = timerId }

/-- What the flag said is forgotten with the rest. -/
def Eager.clear (e : Eager) : Eager :=
  { e with tasks := [], phase := e.phase.flag fun _ _ => false }

def Eager.call (e : Eager) : Op → Eager
  | .scheduleOnce now delay => e.schedule (now + delay) false 0
  | .scheduleRepeating now delay interval => e.schedule (now + delay) true interval
  | .scheduleAt executeTime => e.schedule executeTime false 0
  | .cancel timerId => if timerId = 0 then e else e.cancel timerId
  | .clear => e.clear

/-- The actions are those of the timer; a `pop` is always the start of a callback. -/
def Eager.step (e : Eager) : Act → Option Eager
  | .call op =>
    match e.phase with
    | .loop _ _ => none
    | _ => some (e.call op)
  | .update now =>
    match e.phase with
    | .idle => some { e with phase := .loop now 0 }
    | _ => none
  | .pop task =>
    match e.phase with
    | .loop now k =>
      if task ∈ e.tasks ∧ (∀ u ∈ e.tasks, task.executeTime ≤ u.executeTime) ∧
          task.executeTime ≤ now then
        some { e with tasks := e.tasks.erase task, phase := .callback now k task false }
      else none
    | _ => none
  | .ret callbackResult =>
    match e.phase with
    | .callback now k task cancelled =>
      if callbackResult ∧ task.isRepeating ∧ 0 < task.interval ∧ cancelled = false then
        some { e with
          tasks := { task with executeTime := task.executeTime + task.interval } :: e.tasks
          phase := .loop now (k + 1) }
      else some { e with phase := .loop now (k + 1) }
    | _ => none
  | .done =>
    match e.phase with
    | .loop now _ =>
      if ∀ u ∈ e.tasks, now < u.executeTime then some { e with phase := .idle } else none
    | _ => none

def cancels : Act → Option ℕ
  | .call (.cancel timerId) => some timerId
  | _ => none

/-- The ids do not wrap, and none is cancelled that was not issued. -/
def Legal (e : Eager) (a : Act) : Prop :=
  e.nextTimerId + 1 < 2 ^ 64 ∧ ∀ id ∈ cancels a, id < e.nextTimerId

instance (e : Eager) (a : Act) : Decidable (Legal e a) := inferInstanceAs (Decidable (_ ∧ _))

/-! ### What is seen of the timer -/

/-- The drop of a marked task is not seen. -/
def visible (s : St) (a : Act) (_ : St) : List Act :=
  match a with
  | .pop task => if task.id ∈ s.timer.cancelledTimers then [] else [.pop task]
  | a => [a]

def eagerPhase (marks : Finset ℕ) : Phase → EagerPhase
  | .idle => .idle
  | .loop now k => .loop now k
  | .callback now k task => .callback now k task (task.id ∈ marks)

/-- The timer without its marks. -/
def eager (s : St) : Eager :=
  ⟨s.timer.timerQueue.filter fun u => u.id ∉ s.timer.cancelledTimers, s.timer.nextTimerId,
    eagerPhase s.timer.cancelledTimers s.phase⟩

lemma mem_eager {s : St} {u : TimerTask} :
    u ∈ (eager s).tasks ↔ u ∈ s.timer.timerQueue ∧ u.id ∉ s.timer.cancelledTimers := by
  simp [eager]

/-- Ids are shared by no two tasks, and every mark is of an id that was issued. -/
structure Issued (s : St) : Prop where
  good : Good s
  issued : ∀ id ∈ s.timer.cancelledTimers, id < s.timer.nextTimerId

lemma issued_init : Issued init := ⟨good_init, by simp [init, Timer.new]⟩

variable {s s' : St} {a : Act}

lemma visible_eq (h : ∀ task, a = .pop task → task.id ∉ s.timer.cancelledTimers) :
    visible s a s' = [a] := by
  cases a with
  | pop task => simp [visible, h task rfl]
  | _ => rfl

lemma visible_drop {task : TimerTask} (h : task.id ∈ s.timer.cancelledTimers) :
    visible s (.pop task) s' = [] := by simp [visible, h]

/-! ### A step of the timer, seen -/

lemma Issued.nodup (h : Issued s) : s.timer.timerQueue.Nodup :=
  (List.Nodup.of_map _ (h.good.nodup.sublist ((List.sublist_append_right _ _).map _)))

lemma Issued.next (h : Issued s) (hl : Legal (eager s) a) (hs : step s a = some s') :
    Issued s' := by
  obtain ⟨g, hiss⟩ := h
  obtain ⟨hw, hcancel⟩ := hl
  refine ⟨good_step g hw hs, ?_⟩
  cases step_spec hs with
  | call op outside =>
    rcases call_cases s.timer op with ⟨e, r, i, hc⟩ | ⟨id, rfl, hc⟩ | ⟨-, hc⟩
    · rw [hc]
      intro id hid
      have hmod : (s.timer.nextTimerId + 1) % 2 ^ 64 = s.timer.nextTimerId + 1 :=
        Nat.mod_eq_of_lt hw
      rw [hmod]
      exact Nat.lt_succ_of_lt (hiss id hid)
    · obtain ⟨-, hn⟩ := cancel_frame s.timer id
      rw [hc, hn]
      intro id' hid
      unfold Timer.cancel at hid
      split_ifs at hid
      · exact hiss id' hid
      · rcases Finset.mem_insert.mp hid with rfl | hid
        · exact hcancel _ rfl
        · exact hiss id' hid
    · rw [hc]
      simp [Timer.clear]
  | drop task now k head top => exact fun id hid => hiss id (Finset.mem_of_mem_erase hid)
  | _ => exact hiss

lemma eager_schedule (h : Issued s) (hw : s.timer.nextTimerId + 1 < 2 ^ 64) (executeTime : ℤ)
    (isRepeating : Bool) (interval : ℤ) :
    eager { s with timer := (s.timer.scheduleInternal executeTime isRepeating interval).1 } =
      (eager s).schedule executeTime isRepeating interval := by
  have hnew : s.timer.nextTimerId ∉ s.timer.cancelledTimers := fun hm =>
    lt_irrefl _ (h.issued _ hm)
  have hmod : (s.timer.nextTimerId + 1) % 2 ^ 64 = s.timer.nextTimerId + 1 := Nat.mod_eq_of_lt hw
  simp only [eager, Timer.scheduleInternal, Timer.generateNextId, Eager.schedule, hmod]
  rw [List.filter_cons_of_pos (by simpa using hnew)]

lemma eager_cancel {id : ℕ} (h0 : id ≠ 0) :
    eager { s with timer := (s.timer.cancel id).1 } = (eager s).cancel id := by
  rw [cancel_of_ne_zero _ h0]
  simp only [eager, Eager.cancel, List.filter_filter, Eager.mk.injEq, true_and]
  refine ⟨List.filter_congr fun u _ => ?_, ?_⟩
  · simp only [Finset.mem_insert, not_or, Bool.decide_and]
  · cases s.phase with
    | callback now k task =>
      simp only [eagerPhase, EagerPhase.flag, Finset.mem_insert, EagerPhase.callback.injEq,
        true_and]
      grind
    | _ => rfl

lemma eager_clear : eager { s with timer := s.timer.clear } = (eager s).clear := by
  simp only [eager, Timer.clear, Eager.clear, List.filter_nil, Eager.mk.injEq, true_and]
  cases s.phase <;> simp [eagerPhase, EagerPhase.flag]

lemma eager_call (h : Issued s) (hw : s.timer.nextTimerId + 1 < 2 ^ 64) (op : Op) :
    eager { s with timer := s.timer.call op } = (eager s).call op := by
  cases op with
  | scheduleOnce now delay => exact eager_schedule h hw _ _ _
  | scheduleRepeating now delay interval => exact eager_schedule h hw _ _ _
  | scheduleAt executeTime => exact eager_schedule h hw _ _ _
  | cancel id =>
    by_cases h0 : id = 0
    · subst h0
      rfl
    · simp only [Timer.call, Eager.call, if_neg h0]
      exact eager_cancel h0
  | clear => exact eager_clear

/-- The marked task that is dropped was not there for the users. -/
lemma eager_drop (h : Issued s) {task : TimerTask} {now : ℤ} {k : ℕ}
    (head : s.phase = .loop now k) (hmem : task ∈ s.timer.timerQueue)
    (marked : task.id ∈ s.timer.cancelledTimers) :
    eager ⟨{ s.timer with
      timerQueue := s.timer.timerQueue.erase task,
      cancelledTimers := s.timer.cancelledTimers.erase task.id }, .loop now k⟩ = eager s := by
  have hout := erased_not_mem h.good head hmem
  simp only [eager, head, eagerPhase, Eager.mk.injEq, and_true]
  rw [h.nodup.erase_eq_filter, List.filter_filter]
  refine List.filter_congr fun u hu => ?_
  by_cases heq : u = task
  · subst heq
    simp [marked]
  · have hid : u.id ≠ task.id := by
      intro hid
      exact hout (List.mem_map.mpr ⟨u, (List.mem_erase_of_ne heq).mpr hu, hid⟩)
    simp [heq, hid]

lemma eager_erase (h : Issued s) {task : TimerTask} :
    (s.timer.timerQueue.erase task).filter (fun u => u.id ∉ s.timer.cancelledTimers) =
      (eager s).tasks.erase task := by
  have hn : (eager s).tasks.Nodup := h.nodup.filter _
  rw [hn.erase_eq_filter, h.nodup.erase_eq_filter, eager, List.filter_filter, List.filter_filter]
  exact List.filter_congr fun u _ => by rw [Bool.and_comm]

/-- **What is seen of a step** is what the timer without marks does. -/
lemma Issued.sim (h : Issued s) (hs : step s a = some s')
    (hC : Along Eager.step Legal (eager s) (visible s a s')) :
    Issued s' ∧ run Eager.step (eager s) (visible s a s') = some (eager s') := by
  cases step_spec hs with
  | drop task now k head top due marked =>
    -- nothing asks for anything here: the mark and the task go together
    have heager := eager_drop h head top.1 marked
    rw [visible_drop marked, run_nil, heager]
    refine ⟨⟨?_, fun id hid => h.issued id (Finset.mem_of_mem_erase hid)⟩, rfl⟩
    rcases ids_step (step_spec hs) with ⟨-, hn⟩ | ⟨hsub, -⟩
    · have hlt := h.good.next_lt
      have hpos := h.good.next_pos
      dsimp only at hn
      omega
    · obtain ⟨l, hl, hsl⟩ := id hsub
      exact ⟨hl.nodup_iff.mp (h.good.nodup.sublist hsl),
        fun id hid => h.good.issued id (hsub.subset hid), h.good.next_pos, h.good.next_lt⟩
  | call op outside =>
    rw [visible_eq (by simp)] at hC ⊢
    refine ⟨h.next hC.1 hs, ?_⟩
    rw [run_cons, eager_call h hC.1.1]
    cases hph : s.phase with
    | loop now k => exact absurd hph (outside now k)
    | _ => simp [Eager.step, eager, hph, eagerPhase]
  | update now idle =>
    rw [visible_eq (by simp)] at hC ⊢
    refine ⟨h.next hC.1 hs, ?_⟩
    simp [Eager.step, eager, idle, eagerPhase]
  | fire task now k head top due unmarked =>
    rw [visible_eq (by simpa using unmarked)] at hC ⊢
    refine ⟨h.next hC.1 hs, ?_⟩
    have hmem : task ∈ (eager s).tasks := mem_eager.mpr ⟨top.1, unmarked⟩
    have hfirst : ∀ u ∈ (eager s).tasks, task.executeTime ≤ u.executeTime :=
      fun u hu => top.2 u (mem_eager.mp hu).1
    have hph : (eager s).phase = .loop now k := by simp [eager, head, eagerPhase]
    have hstep : (eager s).step (.pop task) = some { eager s with
        tasks := (eager s).tasks.erase task, phase := .callback now k task false } := by
      simp only [Eager.step, hph]
      exact if_pos ⟨hmem, hfirst, due⟩
    rw [run_cons, hstep, ← eager_erase h]
    simp [eager, eagerPhase, unmarked]
  | again b now k task run result repeats positive =>
    rw [visible_eq (by simp)] at hC ⊢
    refine ⟨h.next hC.1 hs, ?_⟩
    by_cases hm : task.id ∈ s.timer.cancelledTimers <;>
      simp [Eager.step, eager, run, eagerPhase, hm, result, repeats, positive]
  | finish b now k task run last =>
    rw [visible_eq (by simp)] at hC ⊢
    refine ⟨h.next hC.1 hs, ?_⟩
    have hlast : ¬(b = true ∧ task.isRepeating = true ∧ 0 < task.interval ∧
        decide (task.id ∈ s.timer.cancelledTimers) = false) := by
      rintro ⟨hb, hrep, hpos, -⟩
      exact last ⟨hb, hrep, hpos⟩
    simp only [run_cons, run_nil, Eager.step, eager, run, eagerPhase, if_neg hlast,
      Option.bind_some]
  | done now k head early =>
    rw [visible_eq (by simp)] at hC ⊢
    refine ⟨h.next hC.1 hs, ?_⟩
    have hlater : ∀ u ∈ (eager s).tasks, now < u.executeTime :=
      fun u hu => early u (mem_eager.mp hu).1
    have hph : (eager s).phase = .loop now k := by simp [eager, head, eagerPhase]
    simp only [run_cons, run_nil, Eager.step, hph, if_pos hlater, Option.bind_some]
    simp [eager, eagerPhase]

/-! ### A step of the timer without marks, answered -/

/-- Nothing marked is due before `m`. -/
def NoneBefore (m : ℤ) (s : St) : Prop := ∀ u ∈ s.timer.timerQueue, m ≤ u.executeTime

/-- **The heap is cleared of marked tasks first**, as far as none that can fire is due before
them; by induction on the heap. -/
lemma Issued.drops {now m : ℤ} {k : ℕ} (h : Issued s) (head : s.phase = .loop now k)
    (hm : m ≤ now + 1) (hlive : ∀ u ∈ (eager s).tasks, m ≤ u.executeTime) :
    ∃ as t, run step s as = some t ∧ observe step visible s as = [] ∧ eager t = eager s ∧
      Issued t ∧ t.phase = .loop now k ∧ NoneBefore m t := by
  induction hn : s.timer.timerQueue.length generalizing s with
  | zero =>
    have hnil : s.timer.timerQueue = [] := List.length_eq_zero_iff.mp hn
    exact ⟨[], s, rfl, rfl, rfl, h, head, fun u hu => by rw [hnil] at hu; cases hu⟩
  | succ n ih =>
    by_cases hnone : NoneBefore m s
    · exact ⟨[], s, rfl, rfl, rfl, h, head, hnone⟩
    · unfold NoneBefore at hnone
      push Not at hnone
      obtain ⟨v, hv, hlt⟩ := hnone
      obtain ⟨task, htask, hfirst⟩ := exists_first (List.ne_nil_of_mem hv)
      have hdue : task.executeTime ≤ now := by
        have := hfirst v hv
        omega
      have hmark : task.id ∈ s.timer.cancelledTimers := by
        by_contra hun
        have := hlive task (mem_eager.mpr ⟨htask, hun⟩)
        have := hfirst v hv
        omega
      set s₁ : St := ⟨{ s.timer with
        timerQueue := s.timer.timerQueue.erase task,
        cancelledTimers := s.timer.cancelledTimers.erase task.id }, .loop now k⟩ with hs₁
      have hstep : step s (.pop task) = some s₁ := by
        have htop : s.timer.IsTop task ∧ task.executeTime ≤ now := ⟨⟨htask, hfirst⟩, hdue⟩
        simp only [step, head, if_pos htop, if_pos hmark, hs₁]
      have heager : eager s₁ = eager s := eager_drop h head htask hmark
      have hIssued : Issued s₁ := (h.sim hstep (by rw [visible_drop hmark]; trivial)).1
      have hlen : s₁.timer.timerQueue.length = n := by
        rw [hs₁, List.length_erase_of_mem htask]
        omega
      obtain ⟨as, t, hrun, hobs, ht, hrest⟩ := ih hIssued rfl (heager ▸ hlive) hlen
      refine ⟨.pop task :: as, t, by rw [run_cons, hstep, Option.bind_some, hrun], ?_,
        ht.trans heager, hrest⟩
      rw [observe_cons hstep, visible_drop hmark, hobs, List.nil_append]

lemma Issued.answer_now {e : Eager} (h : Issued s) (hl : Legal (eager s) a)
    (hs : step s a = some s') (hv : visible s a s' = [a]) (he : (eager s).step a = some e) :
    ∃ as t, run step s as = some t ∧ observe step visible s as = [a] ∧ eager t = e ∧
      Issued t := by
  obtain ⟨hI, hrun⟩ := h.sim hs (by rw [hv]; exact ⟨hl, fun _ _ => trivial⟩)
  rw [hv, run_cons, he, Option.bind_some, run_nil] at hrun
  exact ⟨[a], s', by simp [hs], by rw [observe_cons hs, hv, observe_nil, List.append_nil],
    (Option.some.inj hrun).symm, hI⟩

lemma Issued.answer {e : Eager} (h : Issued s) (hl : Legal (eager s) a)
    (he : (eager s).step a = some e) :
    ∃ as t, run step s as = some t ∧ observe step visible s as = [a] ∧ eager t = e ∧
      Issued t := by
  -- after the drops the timer is the same to its users, and can do the step at once
  have after {as : List Act} {t t' : St} (hrun : run step s as = some t)
      (hobs : observe step visible s as = []) (ht : eager t = eager s) (hI : Issued t)
      (hs : step t a = some t') (hv : visible t a t' = [a]) :
      ∃ as t, run step s as = some t ∧ observe step visible s as = [a] ∧ eager t = e ∧
        Issued t := by
    obtain ⟨bs, u, hbs, hobs', hu⟩ := hI.answer_now (ht ▸ hl) hs hv (ht ▸ he)
    exact ⟨as ++ bs, u, by rw [run_append, hrun, Option.bind_some, hbs],
      by rw [observe_append hrun, hobs, hobs', List.nil_append], hu⟩
  cases hph : s.phase with
  | idle =>
    have heph : (eager s).phase = .idle := by simp [eager, hph, eagerPhase]
    cases a with
    | call op =>
      have hs : step s (.call op) = some { s with timer := s.timer.call op } := by
        simp [step, hph]
      exact h.answer_now hl hs rfl he
    | update now =>
      have hs : step s (.update now) = some { s with phase := .loop now 0 } := by
        simp [step, hph]
      exact h.answer_now hl hs rfl he
    | _ => simp [Eager.step, heph] at he
  | loop now k =>
    have heph : (eager s).phase = .loop now k := by simp [eager, hph, eagerPhase]
    cases a with
    | pop task =>
      simp only [Eager.step, heph] at he
      split_ifs at he with hcond
      obtain ⟨hmem, hfirst, hdue⟩ := hcond
      obtain ⟨as, t, hrun, hobs, ht, hI, htph, hnone⟩ :=
        h.drops hph (show task.executeTime ≤ now + 1 by omega) hfirst
      obtain ⟨hq, hun⟩ := mem_eager.mp (ht.symm ▸ hmem)
      have htop : t.timer.IsTop task ∧ task.executeTime ≤ now := ⟨⟨hq, hnone⟩, hdue⟩
      have hs : step t (.pop task) = some ⟨{ t.timer with
          timerQueue := t.timer.timerQueue.erase task }, .callback now k task⟩ := by
        simp only [step, htph, if_pos htop, if_neg hun]
      exact after hrun hobs ht hI hs (visible_eq (by simpa using hun))
    | done =>
      simp only [Eager.step, heph] at he
      split_ifs at he with hlater
      obtain ⟨as, t, hrun, hobs, ht, hI, htph, hnone⟩ :=
        h.drops hph (le_refl (now + 1)) hlater
      have hearly : ∀ u ∈ t.timer.timerQueue, now < u.executeTime := hnone
      have hs : step t .done = some { t with phase := .idle } := by
        simp only [step, htph, if_pos hearly]
      exact after hrun hobs ht hI hs rfl
    | _ => simp [Eager.step, heph] at he
  | callback now k task =>
    have heph : (eager s).phase = .callback now k task (task.id ∈ s.timer.cancelledTimers) := by
      simp [eager, hph, eagerPhase]
    cases a with
    | call op =>
      have hs : step s (.call op) = some { s with timer := s.timer.call op } := by
        simp [step, hph]
      exact h.answer_now hl hs rfl he
    | ret b =>
      obtain ⟨s', hs⟩ : ∃ s', step s (.ret b) = some s' := by
        simp only [step, hph]
        split_ifs <;> exact ⟨_, rfl⟩
      exact h.answer_now hl hs rfl he
    | _ => simp [Eager.step, heph] at he

/-! ### The cost -/

lemma length_step (hs : step s a = some s') :
    1 + s'.timer.timerQueue.length ≤ 2 * (visible s a s').length + s.timer.timerQueue.length := by
  cases step_spec hs with
  | call op outside =>
    rw [visible_eq (by simp), List.length_singleton]
    rcases call_cases s.timer op with ⟨e, r, i, hc⟩ | ⟨id, -, hc⟩ | ⟨-, hc⟩ <;> rw [hc]
    · rw [List.length_cons]
      omega
    · rw [(cancel_frame s.timer id).1]
      omega
    · rw [Timer.clear, List.length_nil]
      omega
  | drop task now k head top due marked =>
    have hpos : 0 < s.timer.timerQueue.length := List.length_pos_of_mem top.1
    rw [visible_drop marked, List.length_erase_of_mem top.1, List.length_nil]
    omega
  | fire task now k head top due unmarked =>
    rw [visible_eq (by simpa using unmarked), List.length_erase_of_mem top.1,
      List.length_singleton]
    omega
  | again b now k task run result repeats positive =>
    rw [visible_eq (by simp), List.length_singleton, List.length_cons]
    omega
  | update now idle | finish b now k task run last | done now k head early =>
    rw [visible_eq (by simp), List.length_singleton]
    dsimp only
    omega

lemma length_run {as : List Act} (h : run step s as = some s') :
    as.length + s'.timer.timerQueue.length ≤
      2 * (observe step visible s as).length + s.timer.timerQueue.length := by
  induction as generalizing s with
  | nil =>
    cases h
    simp
  | cons a as ih =>
    obtain ⟨s₁, hs, h'⟩ := run_cons_some h
    have hstep := length_step hs
    have hrest := ih h'
    rw [observe_cons hs, List.length_append, List.length_cons]
    omega

/-! ### The two timers -/

/-- **The marks are not seen**: what the users of the timer see of its runs are the runs of the
timer whose cancelled timers are gone at once, to the same state but for the marks; and the
marks at most double the steps. -/
theorem lazy_iff_eager {bs : List Act} {e : Eager} (hl : Along Eager.step Legal Eager.init bs) :
    run Eager.step Eager.init bs = some e ↔
      ∃ as s, run step init as = some s ∧ observe step visible init as = bs ∧ eager s = e ∧
        as.length ≤ 2 * bs.length := by
  constructor
  · intro h
    obtain ⟨as, s, hrun, hobs, he, -⟩ := exists_run_observe (f := eager) (I := Issued)
      (C := Legal) (fun s b e h hl he => h.answer hl he) issued_init hl h
    have hlen := length_run hrun
    rw [hobs] at hlen
    refine ⟨as, s, hrun, hobs, he, ?_⟩
    simp only [init, Timer.new, List.length_nil] at hlen
    omega
  · rintro ⟨as, s, hrun, rfl, rfl, -⟩
    exact (run_stutters (fun s a s' h hs hC => h.sim hs hC) issued_init hrun hl).2

/-- Two timers are due; the callback of the first cancels the second, which is dropped before
the loop ends. -/
theorem lazy_iff_eager_other :
    ∃ as s, run step init as = some s ∧
      observe step visible init as = [.call (.scheduleOnce 0 1), .call (.scheduleOnce 0 2),
        .update 5, .pop ⟨1, 1, false, 0⟩, .call (.cancel 2), .ret true, .done] ∧
      eager s = ⟨[], 3, .idle⟩ ∧ as.length ≤ 2 * 7 :=
  (lazy_iff_eager (by decide)).mp (by decide)

end ByteborneWorld.EagerTimer
