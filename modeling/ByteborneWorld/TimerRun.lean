import ByteborneWorld.TimerModel

/-!
What holds along the runs of a timer whose callbacks schedule and cancel: every id belongs
to one task at most, a cancelled id never fires again, and when the count is exact.
-/

namespace ByteborneWorld.TimerRun

open ByteborneWorld.Lts ByteborneWorld.TimerModel

/-! ### Ids -/

/-- The task whose callback is running; it is out of the heap. -/
def running : Phase → List TimerTask
  | .callback _ _ task => [task]
  | _ => []

def ids (s : St) : List ℕ := (running s.phase ++ s.timer.timerQueue).map TimerTask.id

/-- The id counter has not come to its end. -/
def NoWrap (s : St) (_ : Act) : Prop := s.timer.nextTimerId + 1 < 2 ^ 64

instance (s : St) (a : Act) : Decidable (NoWrap s a) := inferInstanceAs (Decidable (_ < _))

/-- Each id has one task at most, and was issued. -/
structure Good (s : St) : Prop where
  nodup : (ids s).Nodup
  issued : ∀ id ∈ ids s, 0 < id ∧ id < s.timer.nextTimerId
  next_pos : 0 < s.timer.nextTimerId
  next_lt : s.timer.nextTimerId < 2 ^ 64

lemma call_cases (t : Timer) (op : Op) :
    (∃ e r i, t.call op = { t with
      timerQueue := ⟨t.nextTimerId, e, r, i⟩ :: t.timerQueue,
      nextTimerId := (t.nextTimerId + 1) % 2 ^ 64 }) ∨
    (∃ id, op = .cancel id ∧ t.call op = (t.cancel id).1) ∨
    (op = .clear ∧ t.call op = t.clear) := by
  cases op with
  | scheduleOnce now delay => exact .inl ⟨_, _, _, rfl⟩
  | scheduleRepeating now delay interval => exact .inl ⟨_, _, _, rfl⟩
  | scheduleAt executeTime => exact .inl ⟨_, _, _, rfl⟩
  | cancel id => exact .inr (.inl ⟨id, rfl, rfl⟩)
  | clear => exact .inr (.inr ⟨rfl, rfl⟩)

lemma cancel_frame (t : Timer) (id : ℕ) :
    (t.cancel id).1.timerQueue = t.timerQueue ∧ (t.cancel id).1.nextTimerId = t.nextTimerId := by
  unfold Timer.cancel
  split <;> exact ⟨rfl, rfl⟩

/-- **What a step does to the ids**: it brings in the next one, or it brings in none. -/
lemma ids_step {s s' : St} {a : Act} (h : Step s a s') :
    ((ids s').Perm (s.timer.nextTimerId :: ids s) ∧
      s'.timer.nextTimerId = (s.timer.nextTimerId + 1) % 2 ^ 64) ∨
    ((ids s').Subperm (ids s) ∧ s'.timer.nextTimerId = s.timer.nextTimerId) := by
  cases h with
  | call op outside =>
    rcases call_cases s.timer op with ⟨e, r, i, hc⟩ | ⟨id, -, hc⟩ | ⟨-, hc⟩
    · left
      rw [hc]
      exact ⟨by simp only [ids, List.map_append, List.map_cons]; exact List.perm_middle, rfl⟩
    · obtain ⟨hq, hn⟩ := cancel_frame s.timer id
      right
      rw [hc]
      exact ⟨by simp only [ids, hq]; exact List.Subperm.refl _, hn⟩
    · right
      rw [hc]
      refine ⟨List.Sublist.subperm (List.Sublist.map _ ?_), rfl⟩
      simp [Timer.clear]
  | update now idle => exact .inr ⟨by simp [ids, running, idle, List.Subperm.refl], rfl⟩
  | drop task now k head top =>
    right
    refine ⟨List.Sublist.subperm (List.Sublist.map _ ?_), rfl⟩
    simpa [running, head] using List.erase_sublist
  | fire task now k head top =>
    right
    refine ⟨List.Perm.subperm (List.Perm.map _ ?_), rfl⟩
    simpa [running, head] using (List.perm_cons_erase top.1).symm
  | again b now k task run => exact .inr ⟨by simp [ids, running, run, List.Subperm.refl], rfl⟩
  | finish b now k task run =>
    right
    refine ⟨List.Sublist.subperm (List.Sublist.map _ ?_), rfl⟩
    simp [running, run]
  | done now k head => exact .inr ⟨by simp [ids, running, head, List.Subperm.refl], rfl⟩

lemma next_of_noWrap {s : St} {a : Act} (hw : NoWrap s a) :
    (s.timer.nextTimerId + 1) % 2 ^ 64 = s.timer.nextTimerId + 1 := Nat.mod_eq_of_lt hw

lemma good_init : Good init := by
  constructor <;> simp [ids, running, init, Timer.new]

lemma good_step {s s' : St} {a : Act} (g : Good s) (hw : NoWrap s a) (h : step s a = some s') :
    Good s' := by
  obtain ⟨hnd, hiss, hpos, hlt⟩ := g
  rcases ids_step (step_spec h) with ⟨hperm, hn⟩ | ⟨hsub, hn⟩
  · rw [next_of_noWrap hw] at hn
    refine ⟨hperm.nodup_iff.mpr (List.nodup_cons.mpr ⟨fun hm => ?_, hnd⟩), fun id hid => ?_,
      by omega, by rw [hn]; exact hw⟩
    · exact absurd (hiss _ hm).2 (lt_irrefl _)
    · rcases List.mem_cons.mp (hperm.mem_iff.mp hid) with rfl | hm
      · omega
      · have := hiss id hm; omega
  · obtain ⟨l, hl, hsl⟩ := id hsub
    exact ⟨hl.nodup_iff.mp (hnd.sublist hsl), fun id hid => hn ▸ hiss id (hsub.subset hid),
      by omega, by omega⟩

/-! ### A cancelled timer never fires again -/

/-- The id is marked, or it was issued and no task has it any more. -/
def Dead (id : ℕ) (s : St) : Prop :=
  id ∈ s.timer.cancelledTimers ∨ (id < s.timer.nextTimerId ∧ id ∉ ids s)

lemma erased_not_mem {s : St} (g : Good s) {now : ℤ} {k : ℕ} (head : s.phase = .loop now k)
    {task : TimerTask} (hmem : task ∈ s.timer.timerQueue) :
    task.id ∉ (s.timer.timerQueue.erase task).map TimerTask.id := by
  have hnd : (s.timer.timerQueue.map TimerTask.id).Nodup := by
    simpa [ids, running, head] using g.nodup
  have hcons := ((List.perm_cons_erase hmem).map TimerTask.id).nodup_iff.mp hnd
  exact (List.nodup_cons.mp hcons).1

/-- Without `clear`, a mark is erased only when its task leaves the heap for good. -/
lemma mark_step {s s' : St} {a : Act} {id : ℕ} (g : Good s) (h : Step s a s')
    (hclear : a ≠ .call .clear) (hm : id ∈ s.timer.cancelledTimers) :
    id ∈ s'.timer.cancelledTimers ∨
      (s'.timer.nextTimerId = s.timer.nextTimerId ∧ id ∈ ids s ∧ id ∉ ids s') := by
  cases h with
  | call op outside =>
    left
    rcases call_cases s.timer op with ⟨e, r, i, hc⟩ | ⟨id', rfl, hc⟩ | ⟨rfl, -⟩
    · rw [hc]; exact hm
    · rw [hc]; unfold Timer.cancel
      split <;> simp [hm]
    · exact absurd rfl hclear
  | drop task now k head top due marked =>
    by_cases hid : id = task.id
    · right
      subst hid
      refine ⟨rfl, by simpa [ids, running, head] using ⟨task, top.1, rfl⟩, ?_⟩
      simpa [ids, running] using erased_not_mem g head top.1
    · exact .inl (Finset.mem_erase.mpr ⟨hid, hm⟩)
  | _ => exact .inl hm

lemma dead_step {s s' : St} {a : Act} {id : ℕ} (g : Good s) (hw : NoWrap s a)
    (hclear : a ≠ .call .clear) (hd : Dead id s) (h : step s a = some s') : Dead id s' := by
  have hstep := step_spec h
  rcases hd with hm | ⟨hlt, hout⟩
  · rcases mark_step g hstep hclear hm with hm' | ⟨hn, hin, hout⟩
    · exact .inl hm'
    · exact .inr ⟨hn ▸ (g.issued id hin).2, hout⟩
  · right
    rcases ids_step hstep with ⟨hperm, hn⟩ | ⟨hsub, hn⟩
    · rw [next_of_noWrap hw] at hn
      refine ⟨by omega, fun hid => ?_⟩
      rcases List.mem_cons.mp (hperm.mem_iff.mp hid) with rfl | hm
      · exact lt_irrefl _ hlt
      · exact hout hm
    · exact ⟨by omega, fun hid => hout (hsub.subset hid)⟩

lemma good_of_run {as bs : List Act} {a : Act} {s s₁ : St}
    (hwrap : Along step NoWrap init (as ++ a :: bs)) (hreach : run step init as = some s)
    (hs : step s a = some s₁) : Good s₁ ∧ Along step NoWrap s₁ bs := by
  have hw := hwrap.right_of_append hreach
  have g : Good s := run_invariant_of_along (fun _ _ _ g hw h => good_step g hw h) good_init
    hwrap.left_of_append hreach
  exact ⟨good_step g hw.1 hs, hw.2 s₁ hs⟩

lemma not_starts_of_dead {s : St} {a : Act} {id : ℕ} (hd : Dead id s) :
    ¬Starts s a id := by
  intro hs
  obtain ⟨task, -, hid, hmem, hun⟩ := starts_spec hs
  rcases hd with hm | ⟨-, hout⟩
  · exact hun hm
  · exact hout (List.mem_map.mpr ⟨task, List.mem_append_right _ hmem, hid⟩)

lemma dead_of_cancel {s : St} {id : ℕ} (h : (s.timer.cancel id).2 = true) :
    Dead id { s with timer := s.timer.call (.cancel id) } := by
  left
  simp only [Timer.call]
  unfold Timer.cancel at h ⊢
  split_ifs at h ⊢ with h0
  exact Finset.mem_insert_self _ _

/-- **A cancelled timer never fires again.** After a `cancel` that returned true, whether it
was called between updates, from another callback or from the timer's own, no step of the
rest of the run starts the callback of that id. -/
theorem cancelled_never_fires {as bs : List Act} {s s₁ : St} {id : ℕ}
    (hwrap : Along step NoWrap init (as ++ .call (.cancel id) :: bs))
    (hclear : .call .clear ∉ bs)
    (hreach : run step init as = some s)
    (hcancel : step s (.call (.cancel id)) = some s₁)
    (hret : (s.timer.cancel id).2 = true) :
    Along step (fun s a => ¬Starts s a id) s₁ bs := by
  obtain ⟨g₁, hw₁⟩ := good_of_run hwrap hreach hcancel
  have hd : Dead id s₁ := by
    cases step_spec hcancel with
    | call => exact dead_of_cancel hret
  have hnc : Along step (fun _ a => a ≠ .call .clear) s₁ bs :=
    along_of_forall_mem (P := fun a => a ≠ Act.call .clear) (fun a ha e => hclear (e ▸ ha)) s₁
  exact (hw₁.and hnc).mono_of_invariant (I := fun s => Good s ∧ Dead id s)
    (fun _ _ _ hI hC h => ⟨good_step hI.1 hC.1 h, dead_step hI.1 hC.1 hC.2 hI.2 h⟩)
    (fun _ _ hI _ => not_starts_of_dead hI.2) ⟨g₁, hd⟩

/-- A repeating timer cancelled from its own callback is queued once more, and dropped. -/
theorem cancelled_never_fires_self : Along step (fun s a => ¬Starts s a 1)
    ⟨⟨[], {1}, 2⟩, .callback 20 0 ⟨1, 1, true, 10⟩⟩
    [.ret true, .pop ⟨1, 11, true, 10⟩, .done] :=
  @cancelled_never_fires
    [.call (.scheduleRepeating 0 1 10), .update 20, .pop ⟨1, 1, true, 10⟩]
    [.ret true, .pop ⟨1, 11, true, 10⟩, .done]
    ⟨⟨[], ∅, 2⟩, .callback 20 0 ⟨1, 1, true, 10⟩⟩
    ⟨⟨[], {1}, 2⟩, .callback 20 0 ⟨1, 1, true, 10⟩⟩ 1
    (by decide) (by decide) (by decide) (by decide) (by decide)

/-! ### When the count is exact -/

/-- The timers that can still fire: those queued, and the one whose callback is running if
it may be queued again, less the marked ones. -/
def live (s : St) : Finset ℕ :=
  (((running s.phase).filter (fun t => t.isRepeating ∧ 0 < t.interval) ++
    s.timer.timerQueue).map TimerTask.id).toFinset \ s.timer.cancelledTimers

/-- Outside callbacks every mark belongs to a queued task, and the count is that of the
timers that can still fire. -/
def Bookkept (s : St) : Prop :=
  (∀ now k task, s.phase ≠ .callback now k task) →
    (∀ id ∈ s.timer.cancelledTimers, ∃ t ∈ s.timer.timerQueue, t.id = id) ∧
    s.timer.getTimerCount = (live s).card

/-- `cancel` returns true exactly on a timer that can still fire; on another id it returns
false and changes nothing. -/
def CancelExact (s : St) (id : ℕ) : Prop :=
  ((s.timer.cancel id).2 = true ↔ id ∈ live s) ∧
    (id ∉ live s → s.timer.cancel id = (s.timer, false))

/-- What the operations promise of one step. -/
def Exact (s : St) (a : Act) : Prop :=
  (∀ id, a = .call (.cancel id) → CancelExact s id) ∧ ∀ s', step s a = some s' → Bookkept s'

/-- Only live timers are cancelled, and a callback that has cancelled its own timer asks to
be run again. -/
def CancelsLive (s : St) : Act → Prop
  | .call (.cancel id) => id = 0 ∨ id ∈ live s
  | .ret callbackResult => ∀ now k task, s.phase = .callback now k task →
      task.id ∈ s.timer.cancelledTimers → callbackResult = true
  | _ => True

/-- Every mark belongs to a queued task or to the running one, which may be queued again. -/
def Marked (s : St) : Prop :=
  ∀ id ∈ s.timer.cancelledTimers, (∃ t ∈ s.timer.timerQueue, t.id = id) ∨
    ∃ t ∈ running s.phase, t.id = id ∧ t.isRepeating = true ∧ 0 < t.interval

lemma mem_live {s : St} {id : ℕ} : id ∈ live s ↔ id ∉ s.timer.cancelledTimers ∧
    ((∃ t ∈ s.timer.timerQueue, t.id = id) ∨
      ∃ t ∈ running s.phase, t.id = id ∧ t.isRepeating = true ∧ 0 < t.interval) := by
  simp only [live, Finset.mem_sdiff, List.mem_toFinset, List.map_append, List.mem_append,
    List.mem_map, List.mem_filter, decide_eq_true_eq]
  grind

lemma cancel_of_ne_zero (t : Timer) {id : ℕ} (h : id ≠ 0) :
    t.cancel id = ({ t with cancelledTimers := insert id t.cancelledTimers }, true) := by
  simp [Timer.cancel, h]

lemma cancel_zero (t : Timer) : t.cancel 0 = (t, false) := rfl

lemma zero_not_mem_live {s : St} (g : Good s) : 0 ∉ live s := by
  intro h
  have : (0 : ℕ) ∈ ids s := by
    obtain ⟨-, ⟨t, ht, h0⟩ | ⟨t, ht, h0, -⟩⟩ := mem_live.mp h
    · exact List.mem_map.mpr ⟨t, List.mem_append_right _ ht, h0⟩
    · exact List.mem_map.mpr ⟨t, List.mem_append_left _ ht, h0⟩
  exact absurd (g.issued 0 this).1 (lt_irrefl _)

lemma running_not_queued {s : St} (g : Good s) {now : ℤ} {k : ℕ} {task : TimerTask}
    (hph : s.phase = .callback now k task) : ∀ t ∈ s.timer.timerQueue, t.id ≠ task.id := by
  have hnd : (task.id :: s.timer.timerQueue.map TimerTask.id).Nodup := by
    simpa [ids, running, hph] using g.nodup
  exact fun t ht hid => (List.nodup_cons.mp hnd).1 (List.mem_map.mpr ⟨t, ht, hid⟩)

lemma mem_erase_of_id_ne {q : List TimerTask} {t task : TimerTask} (ht : t ∈ q)
    (hid : t.id ≠ task.id) : t ∈ q.erase task :=
  (List.mem_erase_of_ne (by rintro rfl; exact hid rfl)).mpr ht

lemma marked_step {s s' : St} {a : Act} (g : Good s) (hm : Marked s) (hc : CancelsLive s a)
    (h : step s a = some s') : Marked s' := by
  cases step_spec h with
  | call op outside =>
    rcases call_cases s.timer op with ⟨e, r, i, heq⟩ | ⟨id', rfl, -⟩ | ⟨rfl, -⟩
    · rw [heq]
      intro id hid
      exact (hm id hid).imp (fun ⟨t, ht, e⟩ => ⟨t, List.mem_cons_of_mem _ ht, e⟩) (fun h => h)
    · rcases hc with rfl | hlive
      · exact hm
      · have h0 : id' ≠ 0 := by rintro rfl; exact zero_not_mem_live g hlive
        intro id hid
        simp only [Timer.call, cancel_of_ne_zero _ h0] at hid ⊢
        rcases Finset.mem_insert.mp hid with rfl | hid
        · exact (mem_live.mp hlive).2
        · exact hm id hid
    · intro id hid; simp [Timer.call, Timer.clear] at hid
  | update now idle =>
    intro id hid
    simpa [idle, running] using hm id hid
  | drop task now k head top =>
    intro id hid
    obtain ⟨hne, hid⟩ := Finset.mem_erase.mp hid
    rcases hm id hid with ⟨t, ht, rfl⟩ | ⟨t, ht, -⟩
    · exact .inl ⟨t, mem_erase_of_id_ne ht hne, rfl⟩
    · simp [head, running] at ht
  | fire task now k head top due unmarked =>
    intro id hid
    rcases hm id hid with ⟨t, ht, rfl⟩ | ⟨t, ht, -⟩
    · exact .inl ⟨t, mem_erase_of_id_ne ht (fun e => unmarked (e ▸ hid)), rfl⟩
    · simp [head, running] at ht
  | again b now k task run =>
    intro id hid
    rcases hm id hid with ⟨t, ht, e⟩ | ⟨t, ht, e, -⟩
    · exact .inl ⟨t, List.mem_cons_of_mem _ ht, e⟩
    · simp only [run, running, List.mem_singleton] at ht
      exact .inl ⟨_, List.mem_cons_self, by rw [← e, ht]⟩
  | finish b now k task run last =>
    intro id hid
    rcases hm id hid with ⟨t, ht, e⟩ | ⟨t, ht, e, hrep⟩
    · exact .inl ⟨t, ht, e⟩
    · simp only [run, running, List.mem_singleton] at ht
      subst ht e
      exact absurd ⟨hc now k t run hid, hrep⟩ last
  | done now k head =>
    intro id hid
    simpa [head, running] using hm id hid

lemma length_lt {s : St} (g : Good s) : s.timer.timerQueue.length < 2 ^ 64 := by
  have hnd : (s.timer.timerQueue.map TimerTask.id).Nodup :=
    g.nodup.sublist ((List.sublist_append_right _ _).map _)
  have hsub : (s.timer.timerQueue.map TimerTask.id).toFinset ⊆
      Finset.range s.timer.nextTimerId := by
    intro id hid
    have : id ∈ ids s := by
      simp only [ids, List.map_append, List.mem_append]
      exact .inr (List.mem_toFinset.mp hid)
    exact Finset.mem_range.mpr (g.issued id this).2
  have hcard := Finset.card_le_card hsub
  rw [List.toFinset_card_of_nodup hnd, List.length_map, Finset.card_range] at hcard
  exact lt_of_le_of_lt hcard g.next_lt

lemma bookkept_of_marked {s : St} (g : Good s) (hm : Marked s) : Bookkept s := by
  intro hout
  have hrun : running s.phase = [] := by
    cases hph : s.phase with
    | callback now k task => exact absurd hph (hout now k task)
    | _ => rfl
  have hsub : ∀ id ∈ s.timer.cancelledTimers, ∃ t ∈ s.timer.timerQueue, t.id = id := by
    intro id hid
    simpa [hrun] using hm id hid
  have hlive : live s =
      (s.timer.timerQueue.map TimerTask.id).toFinset \ s.timer.cancelledTimers := by
    simp [live, hrun]
  have hsub' : s.timer.cancelledTimers ⊆ (s.timer.timerQueue.map TimerTask.id).toFinset := by
    intro id hid
    simpa using hsub id hid
  have hnd : (s.timer.timerQueue.map TimerTask.id).Nodup :=
    g.nodup.sublist ((List.sublist_append_right _ _).map _)
  have hlen := length_lt g
  have hle := Finset.card_le_card hsub'
  have hcard : (live s).card = s.timer.timerQueue.length - s.timer.cancelledTimers.card := by
    rw [hlive, Finset.card_sdiff_of_subset hsub', List.toFinset_card_of_nodup hnd,
      List.length_map]
  rw [List.toFinset_card_of_nodup hnd, List.length_map] at hle
  refine ⟨hsub, ?_⟩
  rw [hcard, Timer.getTimerCount, Int.emod_eq_of_lt (by omega) (by omega)]
  omega

lemma cancelExact_of_live {s : St} {id : ℕ} (g : Good s) (h : id = 0 ∨ id ∈ live s) :
    CancelExact s id := by
  rcases h with rfl | hl
  · have h0 := zero_not_mem_live g
    exact ⟨by simp [cancel_zero, h0], fun _ => cancel_zero _⟩
  · have h0 : id ≠ 0 := by rintro rfl; exact zero_not_mem_live g hl
    exact ⟨by simp [cancel_of_ne_zero _ h0, hl], fun hn => absurd hl hn⟩

lemma cancelsLive_of_exact {s : St} {a : Act} (g : Good s) (h : Exact s a) :
    CancelsLive s a := by
  obtain ⟨hcancel, hbook⟩ := h
  cases a with
  | call op =>
    cases op with
    | cancel id =>
      by_cases h0 : id = 0
      · exact .inl h0
      · exact .inr ((hcancel id rfl).1.mp (by rw [cancel_of_ne_zero _ h0]))
    | _ => trivial
  | ret b =>
    intro now k task hph hmark
    by_contra hb
    have hstep : step s (.ret b) = some ⟨s.timer, .loop now (k + 1)⟩ := by
      simp [step, hph, hb]
    obtain ⟨t, ht, hid⟩ := (hbook _ hstep (by simp)).1 task.id hmark
    exact running_not_queued g hph t ht hid
  | _ => trivial

/-- **When the bookkeeping is exact**: as long as ids do not wrap, the operations of a run
keep all their promises if and only if it cancels live timers only and no callback that has
cancelled its own timer asks not to be run again. -/
theorem exact_iff_cancelsLive {as : List Act} (hwrap : Along step NoWrap init as) :
    Along step Exact init as ↔ Along step CancelsLive init as := by
  constructor
  · intro h
    exact (hwrap.and h).mono_of_invariant (I := Good)
      (fun _ _ _ g hC hs => good_step g hC.1 hs) (fun _ _ g hC => cancelsLive_of_exact g hC.2)
      good_init
  · intro h
    refine (hwrap.and h).mono_of_invariant (I := fun s => Good s ∧ Marked s)
      (fun _ _ _ hI hC hs => ⟨good_step hI.1 hC.1 hs, marked_step hI.1 hI.2 hC.2 hs⟩)
      (fun s a hI hC => ⟨fun id e => ?_, fun s' hs => ?_⟩)
      ⟨good_init, fun id hid => by simp [init, Timer.new] at hid⟩
    · subst e
      exact cancelExact_of_live hI.1 hC.2
    · exact bookkept_of_marked (good_step hI.1 hC.1 hs) (marked_step hI.1 hI.2 hC.2 hs)

/-- A repeating timer is cancelled from its own callback, which asks to be run again. -/
theorem exact_iff_cancelsLive_self : Along step Exact init
      [.call (.scheduleRepeating 0 1 10), .update 20, .pop ⟨1, 1, true, 10⟩, .call (.cancel 1),
        .ret true, .pop ⟨1, 11, true, 10⟩, .done] ↔
    Along step CancelsLive init
      [.call (.scheduleRepeating 0 1 10), .update 20, .pop ⟨1, 1, true, 10⟩, .call (.cancel 1),
        .ret true, .pop ⟨1, 11, true, 10⟩, .done] :=
  exact_iff_cancelsLive (by decide)

/-- An id that was never issued: `cancel` returns true, and the count wraps. -/
theorem stale_cancel_wraps : (Timer.new.cancel 7).2 = true ∧
    (Timer.new.cancel 7).1.getTimerCount = 2 ^ 64 - 1 ∧
    ¬Along step Exact init [.call (.cancel 7)] := by
  refine ⟨by decide, by decide, fun h => ?_⟩
  have h7 : (7 : ℕ) ∈ live init := (h.1.1 7 rfl).1.mp (by decide)
  exact absurd h7 (by decide)

/-! ### Clearing

`clear` takes all tasks out of the heap, but the task whose callback is running is not in it,
and may be queued again. -/

/-- The callback of a task with an id below `n` does not queue it again, except to be dropped. -/
def NotAgain (n : ℕ) (s : St) : Act → Prop
  | .ret callbackResult => ∀ t ∈ running s.phase, t.id < n → callbackResult = true →
      t.isRepeating = true → 0 < t.interval → t.id ∈ s.timer.cancelledTimers
  | .call _ | .update _ | .pop _ | .done => True

instance (n : ℕ) (s : St) : (a : Act) → Decidable (NotAgain n s a)
  | .ret _ => inferInstanceAs (Decidable (∀ t ∈ running s.phase, _))
  | .call _ | .update _ | .pop _ | .done => inferInstanceAs (Decidable True)

/-- Of the ids below `n`, which are all issued, only marked ones are in the heap. -/
structure Swept (n : ℕ) (s : St) : Prop where
  issued : n ≤ s.timer.nextTimerId
  marked : ∀ t ∈ s.timer.timerQueue, t.id < n → t.id ∈ s.timer.cancelledTimers

lemma swept_clear (t : Timer) (ph : Phase) : Swept t.nextTimerId ⟨t.clear, ph⟩ :=
  ⟨le_refl _, fun _ ht => by cases ht⟩

lemma Swept.step {n : ℕ} {s s' : St} {a : Act} (hsw : Swept n s) (g : Good s) (hw : NoWrap s a)
    (hc : NotAgain n s a) (h : step s a = some s') : Swept n s' := by
  obtain ⟨hle, hm⟩ := hsw
  cases step_spec h with
  | call op outside =>
    rcases call_cases s.timer op with ⟨e, r, i, heq⟩ | ⟨id, rfl, heq⟩ | ⟨rfl, heq⟩
    · -- the new task has an id from `n` on
      rw [heq, next_of_noWrap hw]
      refine ⟨Nat.le_succ_of_le hle, fun t ht hlt => ?_⟩
      rcases List.mem_cons.mp ht with rfl | ht
      · exact absurd hlt (not_lt.mpr hle)
      · exact hm t ht hlt
    · obtain ⟨hq, hn⟩ := cancel_frame s.timer id
      rw [heq]
      refine ⟨hn ▸ hle, fun t ht hlt => ?_⟩
      have hmark := hm t (hq ▸ ht) hlt
      unfold Timer.cancel
      split_ifs
      · exact hmark
      · exact Finset.mem_insert_of_mem hmark
    · rw [heq]
      exact ⟨hle, fun t ht => by cases ht⟩
  | update now idle => exact ⟨hle, hm⟩
  | drop task now k head top due marked =>
    -- the mark that goes is that of the task that goes, and ids are not shared
    refine ⟨hle, fun t ht hlt => Finset.mem_erase.mpr ⟨fun hid => ?_, ?_⟩⟩
    · exact erased_not_mem g head top.1 (List.mem_map.mpr ⟨t, ht, hid⟩)
    · exact hm t (List.mem_of_mem_erase ht) hlt
  | fire task now k head top due unmarked =>
    exact ⟨hle, fun t ht hlt => hm t (List.mem_of_mem_erase ht) hlt⟩
  | again callbackResult now k task run result repeats positive =>
    refine ⟨hle, fun t ht hlt => ?_⟩
    rcases List.mem_cons.mp ht with rfl | ht
    · exact hc task (by simp [run, running]) hlt result repeats positive
    · exact hm t ht hlt
  | finish callbackResult now k task run last => exact ⟨hle, hm⟩
  | done now k head early => exact ⟨hle, hm⟩

lemma Swept.not_starts {n id : ℕ} {s : St} {a : Act} (hsw : Swept n s) (hlt : id < n) :
    ¬Starts s a id := by
  intro hs
  obtain ⟨task, -, rfl, hmem, hun⟩ := starts_spec hs
  exact hun (hsw.marked task hmem hlt)

/-- **When `clear` clears.** After a call of `clear`, from anywhere, no step of the rest of the
run starts the callback of a timer scheduled before, if no callback that was running then asks
to be run again, or only one whose timer is marked when it returns. -/
theorem cleared_never_fires {as bs : List Act} {s s₁ : St}
    (hwrap : Along step NoWrap init (as ++ .call .clear :: bs))
    (hreach : run step init as = some s)
    (hclear : step s (.call .clear) = some s₁)
    (hagain : Along step (NotAgain s.timer.nextTimerId) s₁ bs) :
    Along step (fun s' a => ∀ id < s.timer.nextTimerId, ¬Starts s' a id) s₁ bs := by
  obtain ⟨g₁, hw₁⟩ := good_of_run hwrap hreach hclear
  have hsw : Swept s.timer.nextTimerId s₁ := by
    cases step_spec hclear with
    | call => exact swept_clear s.timer s.phase
  exact (hw₁.and hagain).mono_of_invariant
    (I := fun s' => Good s' ∧ Swept s.timer.nextTimerId s')
    (fun _ _ _ hI hC h => ⟨good_step hI.1 hC.1 h, hI.2.step hI.1 hC.1 hC.2 h⟩)
    (fun _ _ hI _ _ hlt => hI.2.not_starts hlt) ⟨g₁, hsw⟩

/-- The callback of a repeating timer clears, cancels its own timer and asks to be run again. -/
theorem cleared_never_fires_self : Along step (fun s' a => ∀ id < 2, ¬Starts s' a id)
    ⟨⟨[], ∅, 2⟩, .callback 20 0 ⟨1, 1, true, 10⟩⟩
    [.call (.cancel 1), .ret true, .pop ⟨1, 11, true, 10⟩, .done] :=
  @cleared_never_fires
    [.call (.scheduleRepeating 0 1 10), .update 20, .pop ⟨1, 1, true, 10⟩]
    [.call (.cancel 1), .ret true, .pop ⟨1, 11, true, 10⟩, .done]
    ⟨⟨[], ∅, 2⟩, .callback 20 0 ⟨1, 1, true, 10⟩⟩
    ⟨⟨[], ∅, 2⟩, .callback 20 0 ⟨1, 1, true, 10⟩⟩
    (by decide) (by decide) (by decide) (by decide)

/-- **A timer survives `clear`**: the callback of a repeating timer clears and asks to be run
again; its task is queued once more and fires. -/
theorem survives_clear :
    run step init [.call (.scheduleRepeating 0 1 10), .update 20, .pop ⟨1, 1, true, 10⟩] =
      some ⟨⟨[], ∅, 2⟩, .callback 20 0 ⟨1, 1, true, 10⟩⟩ ∧
    step ⟨⟨[], ∅, 2⟩, .callback 20 0 ⟨1, 1, true, 10⟩⟩ (.call .clear) =
      some ⟨⟨[], ∅, 2⟩, .callback 20 0 ⟨1, 1, true, 10⟩⟩ ∧
    ¬Along step (fun s' a => ∀ id < 2, ¬Starts s' a id)
      ⟨⟨[], ∅, 2⟩, .callback 20 0 ⟨1, 1, true, 10⟩⟩ [.ret true, .pop ⟨1, 11, true, 10⟩] := by
  refine ⟨by decide, by decide, fun h => ?_⟩
  have hstarts : Starts ⟨⟨[⟨1, 11, true, 10⟩], ∅, 2⟩, .loop 20 1⟩ (.pop ⟨1, 11, true, 10⟩) 1 :=
    ⟨20, 1, ⟨1, 11, true, 10⟩, rfl, rfl, by decide⟩
  exact (h.2 _ rfl).1 1 (by decide) hstarts

end ByteborneWorld.TimerRun
