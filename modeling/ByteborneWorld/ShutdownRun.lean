import ByteborneWorld.WorldRun
import ByteborneWorld.LifeRun

/-!
Closing the world server: why the loop that waits for the sessions to be removed always has
something left to wait for.
-/

namespace ByteborneWorld.ShutdownRun

open ByteborneWorld.ChatProto ByteborneWorld.PacketModel ByteborneWorld.SendModel
open ByteborneWorld.ChatRoomModel ByteborneWorld.SessionModel ByteborneWorld.SessionRun
open ByteborneWorld.WriteRun ByteborneWorld.WorldModel ByteborneWorld.WorldRun ByteborneWorld.Lts

variable {κ : Type*} {build : Build} {pb : Protobuf}

/-! ### The end of one session -/

/-- The handler that closes the session is queued, or a thread inside `stop` is about to queue
it. -/
def ClosePending (s : Session κ) : Prop := .close ∈ s.strand ∨ .close ∈ s.posting

/-- Running, or about to be closed, or closed with its event still in the queue. -/
def Accounted (s : Session κ) (events : List SessionEvent) : Prop :=
  s.running = true ∨ ClosePending s ∨ .close ∈ events

section Session

variable {sessionId : ℕ} {owner : Owner} {s : Sys κ}

lemma held_step (s : Sys κ) (a : SessionRun.Act κ) (s' : Sys κ)
    (h : (Inv s ∧ Life s) ∧ (s.held = true → .close ∉ s.handled))
    (hs : SessionRun.step build pb sessionId owner s a = some s') :
    (Inv s' ∧ Life s') ∧ (s'.held = true → .close ∉ s'.handled) := by
  obtain ⟨hlife, hheld⟩ := h
  refine ⟨life_step s a s' hlife hs, ?_⟩
  cases SessionRun.step_spec hs with
  | start hp =>
    intro _ hm
    have hcount := hlife.2.count
    have hmem : .close ∈ s.handled := hm
    have hpos := List.count_pos_iff.mpr (List.mem_append_left s.events hmem)
    rw [if_pos hp, Sys.history] at hcount
    omega
  | close hp hpc he => exact fun h => by cases h
  | receive hp hpc he hpc' => simpa using hheld
  | startPost | drain | elsewhere | sendPost | io | ownerStop => exact hheld

lemma not_mem_handled (h : Reachable (SessionRun.step build pb sessionId owner) init s)
    (hheld : s.held = true) : .close ∉ s.handled :=
  (h.invariant held_step ⟨⟨inv_init, life_init⟩, fun h => by cases h⟩).2 hheld

lemma mem_close_iff (hs : List (Handler κ)) : 0 < hs.countP isClose ↔ .close ∈ hs := by
  rw [List.countP_pos_iff]
  refine ⟨?_, fun h => ⟨_, h, rfl⟩⟩
  rintro ⟨p, hp, hc⟩
  cases p with
  | close => exact hp
  | asyncRead | send | onRead | onWritten => cases hc

/-- **A session that its owner holds is accounted for.** -/
theorem accounted_of_held (h : Reachable (SessionRun.step build pb sessionId owner) init s)
    (hheld : s.held = true) (hp : s.phase ≠ .created) : Accounted s.main.session s.events := by
  have hcount := (life_reachable h).count
  have hhandled : s.handled.count .close = 0 := List.count_eq_zero.mpr (not_mem_handled h hheld)
  rw [if_neg hp, Sys.history, List.count_append] at hcount
  unfold sessionLife at hcount
  by_contra hno
  simp only [Accounted, ClosePending, not_or, Bool.not_eq_true] at hno
  obtain ⟨hr, ⟨hstrand, hposting⟩, hevents⟩ := hno
  rw [← mem_close_iff, not_lt, Nat.le_zero] at hstrand hposting
  rw [← List.count_eq_zero] at hevents
  rw [hr, Bool.toNat_false] at hcount
  omega

lemma strand_spec {s s' : Session κ} {p : Handler κ} {rest : List (Handler κ)}
    {errors : List ErrorCode} {pushed : List SessionEvent} (hs : s.strand = p :: rest)
    (h : IoStep s (.strand errors) s' pushed) :
    (∃ new, s'.strand = rest ++ new) ∧ (p = .close → .close ∈ pushed) := by
  have hstill {t t' : Session κ} (h : Still t t') (ht : t.strand = rest) :
      ∃ new, t'.strand = rest ++ new := by
    rcases h.strand with ⟨-, heq⟩ | ⟨-, -, heq⟩ <;> rw [heq, ht]
    · exact ⟨[], (List.append_nil rest).symm⟩
    · exact ⟨_, rfl⟩
  cases h with
  | quiet hq ha => exact absurd rfl (ha errors)
  | handler hs' hh hh' hq =>
    cases hs.symm.trans hs'
    exact ⟨hstill hq rfl, fun hp => by subst hp; cases hh'⟩
  | asyncRead hs' =>
    cases hs.symm.trans hs'
    refine ⟨⟨[], ?_⟩, fun hp => by cases hp⟩
    rcases asyncRead_cases { s with strand := rest } with ⟨-, heq⟩ | ⟨-, op, heq, -⟩ <;>
      simp [heq]
  | onReadError hs' hq =>
    cases hs.symm.trans hs'
    exact ⟨hstill hq rfl, fun hp => by cases hp⟩
  | onRead hs' hn =>
    cases hs.symm.trans hs'
    exact ⟨⟨[], by simp⟩, fun hp => by cases hp⟩
  | close hs' =>
    cases hs.symm.trans hs'
    exact ⟨hstill (Still.close _ errors) rfl, fun _ => List.mem_singleton_self _⟩
end Session

/-! ### The main thread in `close` -/

/-- The main thread is in `WorldServer::close`. -/
def Shutting : At → Prop
  | .closing _ | .waiting | .waitEvents | .closed => True
  | _ => False

/-- The sessions that `stopAllSessions` has not come to. -/
def toStop : At → List ℕ
  | .closing rest => rest
  | _ => []

/-- What `close` has achieved where it stands. -/
structure Shut (w : World) : Prop where
  running : Shutting w.pc → w.running = false
  stopped : Shutting w.pc → ∀ i ∈ w.manager, i ∉ toStop w.pc → (w.session i).running = false
  empty : w.pc = .closed → w.manager = ∅

lemma shut_of_not {w : World} (h : ¬Shutting w.pc) : Shut w :=
  ⟨fun h' => absurd h' h, fun h' => absurd h' h, fun h' => absurd (by rw [h']; trivial) h⟩

section Steps

variable {w w' : World} {a : Act}

lemma processSessionEvent_pc (w : World) (next : At) :
    (w.processSessionEvent next).pc = w.pc ∨ (w.processSessionEvent next).pc = next ∨
      w.running = true ∧ ∃ i pc, (w.processSessionEvent next).pc = .receiving i pc := by
  unfold World.processSessionEvent
  split
  · exact .inr (.inl rfl)
  · rename_i i e rest _
    cases e with
    | close => exact .inl rfl
    | receive =>
      simp only [World.handleSessionEvent]
      split_ifs with hr
      · exact .inr (.inr ⟨hr, _, _, rfl⟩)
      · exact .inl rfl

lemma processSessionEvent_frame (w : World) (next : At) :
    (w.processSessionEvent next).manager ⊆ w.manager ∧
      (w.processSessionEvent next).session = w.session ∧
      (w.processSessionEvent next).running = w.running := by
  unfold World.processSessionEvent
  split
  · exact ⟨Finset.Subset.refl _, rfl, rfl⟩
  · rename_i i e rest _
    cases e with
    | close => exact ⟨Finset.erase_subset _ _, rfl, rfl⟩
    | receive =>
      simp only [World.handleSessionEvent]
      split_ifs <;> exact ⟨Finset.Subset.refl _, rfl, rfl⟩

lemma not_shutting_of_not_plain (hs : Step build pb w w') (hpc : ¬Shutting w.pc)
    (hplain : ¬Plain w.pc) : ¬Shutting w'.pc := by
  cases hs with
  | plain hr hpc' =>
    rcases hpc' with rfl | ⟨h, -⟩
    · exact hpc
    · exact absurd h hplain
  | drain hw hd => dsimp only; split_ifs <;> exact id
  | event hw => exact absurd hw hplain
  | accept hw | chat hw | noHandler hw | close hw => exact absurd (by rw [hw]; trivial) hplain
  | io => exact hpc
  | startPost | finish | find | pass | send | refuse | post => exact id

/-- The main thread comes into `close` from the head of its loop only. -/
lemma enter_cases (h : WorldModel.step build pb w a = some w') (hpc : ¬Shutting w.pc) :
    ¬Shutting w'.pc ∨ ∃ order, w.running = false ∧ order.toFinset = w.manager ∧
      w' = { w with pc := .closing order } := by
  have hs := step_spec h
  cases a with
  | service e => cases h; exact .inl hpc
  | stop => cases h; exact .inl hpc
  | io i a =>
    simp only [WorldModel.step, World.ioStep] at h
    split at h
    · cases h
    · split_ifs at h
      obtain ⟨⟨s, pushed⟩, -, rfl⟩ := Option.map_eq_some_iff.mp h
      exact .inl hpc
  | main nowMs order =>
    simp only [WorldModel.step, World.mainStep] at h
    cases hw : w.pc with
    | loop =>
      simp only [hw] at h
      split_ifs at h with hr ho <;> cases h
      · exact .inl id
      · exact .inr ⟨order, by simpa using hr, ho.2, rfl⟩
    | serviceEvents =>
      simp only [hw] at h
      refine .inl ?_
      split at h <;> cases h
      · exact id
      · rename_i e rest _
        cases e with
        | close => exact id
        | accept =>
          simp only [World.handleServiceEvent]
          split_ifs
          · exact id
          · exact id
    | sessionEvents =>
      simp only [hw, Option.some.injEq] at h
      subst h
      refine .inl ?_
      rcases processSessionEvent_pc w .messages with heq | heq | ⟨-, i, pc, heq⟩ <;> rw [heq]
      · exact hpc
      · exact id
      · exact id
    | messages =>
      simp only [hw] at h
      refine .inl ?_
      split at h
      · unfold World.dispatch at h
        split at h
        · split at h
          · split_ifs at h
            obtain ⟨sendBuffers, chunk, -, rfl⟩ := handleChat_spec h
            exact id
          · cases h
        · split_ifs at h
          cases h
          exact id
      · cases h
        exact id
    | starting | receiving | broadcast | sending | posting =>
      exact .inl (not_shutting_of_not_plain hs hpc (by rw [hw]; exact id))
    | closing | waiting | waitEvents | closed => rw [hw] at hpc; exact absurd trivial hpc

lemma running_ioStep {s s' : Session κ} {b : IoAct κ} {pushed : List SessionEvent}
    (h : s.ioStep b = some (s', pushed)) (hr : s'.running = true) : s.running = true := by
  cases writeStep_spec h with
  | quiet hq => exact hq.running hr
  | @close errors rest hs => exact (Still.close { s with strand := rest } errors).running hr
  | @send errors chunk rest hs => exact (Still.pushChunk { s with strand := rest } chunk).running hr
  | @onWritten errors r rest hs => exact (Still.onWritten { s with strand := rest } r).running hr
  | writeDone | writeQueue => exact hr

lemma running_stop (s : Session κ) : (s.stop.1.aboutTo s.stop.2).running = false := by
  unfold Session.stop Session.aboutTo
  split_ifs with hr
  · rfl
  · simpa using hr

lemma shutting_step (h : WorldModel.step build pb w a = some w') (hpc : Shutting w.pc)
    (hshut : Shut w) : w'.manager ⊆ w.manager ∧ Shutting w'.pc ∧ Shut w' := by
  obtain ⟨hr, hstopped, hempty⟩ := hshut
  replace hr := hr hpc
  replace hstopped := hstopped hpc
  cases a with
  | service e => cases h; exact ⟨Finset.Subset.refl _, hpc, fun _ => hr, fun _ => hstopped, hempty⟩
  | stop => cases h; exact ⟨Finset.Subset.refl _, hpc, fun _ => rfl, fun _ => hstopped, hempty⟩
  | io i a =>
    simp only [WorldModel.step, World.ioStep] at h
    split at h
    · cases h
    · split_ifs at h
      obtain ⟨⟨s, pushed⟩, hio, rfl⟩ := Option.map_eq_some_iff.mp h
      refine ⟨Finset.Subset.refl _, hpc, fun _ => hr, fun _ j hj hto => ?_, hempty⟩
      have hj' := hstopped j hj hto
      by_cases hij : j = i
      · subst hij
        simp only [World.setSession, Function.update_self]
        exact Bool.eq_false_iff.mpr fun hrun => by rw [running_ioStep hio hrun] at hj'; cases hj'
      · simpa only [World.setSession, Function.update_of_ne hij] using hj'
  | main nowMs order =>
    simp only [WorldModel.step, World.mainStep] at h
    cases hw : w.pc with
    | closing rest =>
      rw [hw] at hstopped
      cases rest with
      | nil =>
        simp only [hw, Option.some.injEq] at h
        subst h
        exact ⟨Finset.Subset.refl _, trivial, fun _ => hr, fun _ => hstopped, fun h => by cases h⟩
      | cons i rest =>
        simp only [hw, Option.some.injEq] at h
        subst h
        refine ⟨Finset.Subset.refl _, trivial, fun _ => hr, fun _ j hj hto => ?_,
          fun h => by cases h⟩
        by_cases hij : j = i
        · subst hij
          simp only [World.setSession, Function.update_self]
          exact running_stop _
        · simp only [World.setSession, Function.update_of_ne hij]
          exact hstopped j hj (by simpa [toStop, hij] using hto)
    | waiting =>
      rw [hw] at hstopped
      simp only [hw, Option.some.injEq] at h
      subst h
      by_cases hm : w.manager = ∅
      · simp only [if_pos hm]
        exact ⟨Finset.Subset.refl _, trivial, fun _ => hr, fun _ => hstopped, fun _ => hm⟩
      · simp only [if_neg hm]
        exact ⟨Finset.Subset.refl _, trivial, fun _ => hr, fun _ => hstopped, fun h => by cases h⟩
    | waitEvents =>
      rw [hw] at hstopped
      simp only [hw, Option.some.injEq] at h
      subst h
      obtain ⟨hm, hs, hr'⟩ := processSessionEvent_frame w .waiting
      have hpc' : (w.processSessionEvent .waiting).pc = .waitEvents ∨
          (w.processSessionEvent .waiting).pc = .waiting := by
        rcases processSessionEvent_pc w .waiting with heq | heq | ⟨hrun, -⟩
        · exact .inl (heq.trans hw)
        · exact .inr heq
        · exact absurd (hr.symm.trans hrun) (by decide)
      refine ⟨hm, by rcases hpc' with h | h <;> rw [h] <;> trivial, fun _ => hr'.trans hr,
        fun _ j hj _ => ?_, fun h => by rcases hpc' with h' | h' <;> rw [h'] at h <;> cases h⟩
      rw [hs]
      exact hstopped j (hm hj) (by simp [toStop])
    | closed => simp [hw] at h
    | loop | serviceEvents | starting | sessionEvents | receiving | messages | broadcast |
      sending | posting => rw [hw] at hpc; exact absurd hpc id

lemma shut_step (w : World) (a : Act) (w' : World) (h : Shut w)
    (hs : WorldModel.step build pb w a = some w') : Shut w' := by
  by_cases hpc : Shutting w.pc
  · exact (shutting_step hs hpc h).2.2
  · rcases enter_cases hs hpc with hpc' | ⟨order, hr, ho, rfl⟩
    · exact shut_of_not hpc'
    · refine ⟨fun _ => hr, fun _ i hi hto => absurd ?_ hto, fun h => by cases h⟩
      exact List.mem_toFinset.mp (ho ▸ hi)

lemma manager_subset {as : List Act} (hpc : Shutting w.pc) (h : Shut w)
    (hs : run (WorldModel.step build pb) w as = some w') : w'.manager ⊆ w.manager :=
  (run_invariant (I := fun v => v.manager ⊆ w.manager ∧ Shutting v.pc ∧ Shut v)
    (fun v a v' ⟨hm, hpc, h⟩ hs => by
      obtain ⟨hm', h'⟩ := shutting_step hs hpc h
      exact ⟨hm'.trans hm, h'⟩)
    ⟨Finset.Subset.refl _, hpc, h⟩ hs).1

end Steps

section Server

variable {w : World}

lemma shut_reachable (h : Reachable (WorldModel.step build pb) init w) : Shut w :=
  h.invariant shut_step (shut_of_not id)

lemma phaseOf_ne_created {n i : ℕ} (pc : At) (hi : 1 ≤ i ∧ i < n) : phaseOf n pc i ≠ .created := by
  unfold phaseOf
  rw [if_neg (by omega)]
  split_ifs <;> simp

lemma mem_eventsOf {i : ℕ} {events : List (ℕ × SessionEvent)} {e : SessionEvent} :
    e ∈ eventsOf i events ↔ (i, e) ∈ events := by
  simp only [eventsOf, List.mem_filterMap, Option.ite_none_right_eq_some, Option.some.injEq]
  refine ⟨?_, fun h => ⟨_, h, rfl, rfl⟩⟩
  rintro ⟨⟨j, e'⟩, hp, rfl, rfl⟩
  exact hp

/-- What a session of the manager waits for: to be stopped, to be closed, or that its close
event is handled. -/
def Waits (w : World) (i : ℕ) : Prop :=
  ClosePending (w.session i) ∨ (i, .close) ∈ w.sessionEvents

variable (build pb) in
lemma io_step {i : ℕ} {b : IoAct Chunk} {s : Session Chunk} {pushed : List SessionEvent}
    (hi : 1 ≤ i ∧ i < w.nextSessionId) (hb : ∀ chunk, b ≠ .send chunk)
    (hs : (w.session i).ioStep b = some (s, pushed)) :
    ∃ w', WorldModel.step build pb w (.io i b) = some w' ∧ w'.session i = s ∧
      w'.sessionEvents = w.sessionEvents ++ pushed.map (i, ·) ∧ w'.manager = w.manager ∧
      w'.pc = w.pc := by
  have hstep : WorldModel.step build pb w (.io i b) = some { w.setSession i s with
      sessionEvents := w.sessionEvents ++ pushed.map (i, ·)
      history.put := Function.update w.history.put i
        (w.history.put i ++ putBy (w.session i) b) } := by
    cases b with
    | send chunk => exact absurd rfl (hb chunk)
    | stop | post | strand | readDone | readQueue | writeDone | writeQueue =>
      simp only [WorldModel.step, World.ioStep, if_pos hi, hs, Option.map_some]
  exact ⟨_, hstep, by simp [World.setSession], rfl, rfl, rfl⟩

variable {i : ℕ}

lemma strand_step {p : Handler Chunk} {rest : List (Handler Chunk)}
    (h : Reachable (WorldModel.step build pb) init w) (hi : i ∈ w.manager)
    (hs : (w.session i).strand = p :: rest) :
    ∃ (w' : World) (new : List (Handler Chunk)) (pushed : List SessionEvent),
      WorldModel.step build pb w (.io i (.strand [])) = some w' ∧
        (w'.session i).strand = rest ++ new ∧
        w'.sessionEvents = w.sessionEvents ++ pushed.map (i, ·) ∧
        (p = .close → .close ∈ pushed) ∧ w'.manager = w.manager ∧ w'.pc = w.pc := by
  obtain ⟨hb, hview⟩ := reachable_view h
  have hcaptured : Captured (w.session i) := (inv_reachable (hview i)).captured
  obtain ⟨⟨s, pushed⟩, hrun⟩ := hcaptured.runStrand (by simp [hs]) []
  obtain ⟨⟨new, hnew⟩, hclose⟩ := strand_spec hs (ioStep_spec hcaptured.posting hrun)
  obtain ⟨w', hstep, rfl, hevents, hm, hpc⟩ :=
    io_step build pb (b := .strand []) (hb.manager i hi) (by simp) hrun
  exact ⟨w', new, pushed, hstep, hnew, hevents, hclose, hm, hpc⟩

/-- The handlers on the strand run one after the other, so one that closes the session comes to
push its event. -/
lemma close_runs (h : Reachable (WorldModel.step build pb) init w) (hi : i ∈ w.manager)
    (hm : .close ∈ (w.session i).strand) :
    ∃ as w', run (WorldModel.step build pb) w as = some w' ∧ w'.manager = w.manager ∧
      w'.pc = w.pc ∧ (i, .close) ∈ w'.sessionEvents := by
  obtain ⟨before, after, hs⟩ := List.append_of_mem hm
  clear hm
  induction before generalizing w after with
  | nil =>
    obtain ⟨w', new, pushed, hstep, -, hevents, hclose, hm', hpc⟩ := strand_step h hi hs
    refine ⟨[.io i (.strand [])], w', by rw [run_cons, hstep]; rfl, hm', hpc, ?_⟩
    rw [hevents]
    exact List.mem_append_right _ (List.mem_map_of_mem (hclose rfl))
  | cons p before ih =>
    obtain ⟨w', new, pushed, hstep, hnew, -, -, hm', hpc⟩ := strand_step h hi hs
    obtain ⟨as, w'', has, hm'', hpc', hmem⟩ := ih (h.next hstep) (hm' ▸ hi) (after ++ new)
      (by rw [hnew]; exact List.append_assoc _ _ _)
    exact ⟨_ :: as, w'', by rw [run_cons, hstep]; exact has, hm''.trans hm', hpc'.trans hpc, hmem⟩

variable (build pb) in
lemma waitEvents_step {j : ℕ} {e : SessionEvent} {rest : List (ℕ × SessionEvent)}
    (hpc : w.pc = .waitEvents) (hr : w.running = false)
    (he : w.sessionEvents = (j, e) :: rest) :
    ∃ w', WorldModel.step build pb w (.main 0 []) = some w' ∧ w'.pc = .waitEvents ∧
      w'.running = false ∧ w'.sessionEvents = rest ∧ (e = .close → j ∉ w'.manager) := by
  refine ⟨w.processSessionEvent .waiting, by simp only [WorldModel.step, World.mainStep, hpc], ?_⟩
  cases e with
  | close =>
    simp only [World.processSessionEvent, he, World.handleSessionEvent]
    exact ⟨hpc, hr, trivial, fun _ => Finset.notMem_erase j _⟩
  | receive =>
    simp only [World.processSessionEvent, he, World.handleSessionEvent, hr, Bool.false_eq_true,
      if_false]
    exact ⟨hpc, trivial, trivial, fun h => by cases h⟩

variable (build pb) in
/-- The main thread takes the events one after the other, so it comes to the close event. -/
lemma close_handled (hpc : w.pc = .waitEvents) (hr : w.running = false)
    (hm : (i, .close) ∈ w.sessionEvents) :
    ∃ as w', run (WorldModel.step build pb) w as = some w' ∧ i ∉ w'.manager := by
  obtain ⟨before, rest, he⟩ := List.append_of_mem hm
  clear hm
  induction before generalizing w with
  | nil =>
    obtain ⟨w', hstep, -, -, -, hi⟩ := waitEvents_step build pb hpc hr he
    exact ⟨[.main 0 []], w', by rw [run_cons, hstep]; rfl, hi rfl⟩
  | cons p before ih =>
    obtain ⟨w', hstep, hpc', hr', he', -⟩ := waitEvents_step build pb hpc hr he
    obtain ⟨as, w'', has, hi⟩ := ih hpc' hr' he'
    exact ⟨_ :: as, w'', by rw [run_cons, hstep]; exact has, hi⟩

lemma close_comes (h : Reachable (WorldModel.step build pb) init w) (hi : i ∈ w.manager)
    (hw : Waits w i) :
    ∃ as w', run (WorldModel.step build pb) w as = some w' ∧ w'.manager = w.manager ∧
      w'.pc = w.pc ∧ (i, .close) ∈ w'.sessionEvents := by
  rcases hw with (hstrand | hposting) | hevents
  · exact close_runs h hi hstrand
  · obtain ⟨k, hk⟩ := List.mem_iff_getElem?.mp hposting
    have hpost : (w.session i).ioStep (.post k) = some
        ({ w.session i with posting := (w.session i).posting.eraseIdx k }.post .close, []) := by
      simp only [Session.ioStep, Session.doPost, hk, Option.map_some]
    obtain ⟨w', hstep, hsession, -, hm, hpc⟩ :=
      io_step build pb ((reachable_view h).1.manager i hi) (by simp) hpost
    have hstrand : .close ∈ (w'.session i).strand := by
      rw [hsession]
      exact List.mem_append_right _ (List.mem_singleton_self _)
    obtain ⟨as, w'', has, hm', hpc', he⟩ := close_runs (h.next hstep) (hm ▸ hi) hstrand
    exact ⟨_ :: as, w'', by rw [run_cons, hstep]; exact has, hm'.trans hm, hpc'.trans hpc, he⟩
  · exact ⟨[], w, rfl, rfl, rfl, hevents⟩

/-- **What is waited for can come**: some continuation of the run removes the session. -/
theorem removable (h : Reachable (WorldModel.step build pb) init w)
    (hpc : w.pc = .waiting ∨ w.pc = .waitEvents) (hi : i ∈ w.manager) (hw : Waits w i) :
    ∃ as w', run (WorldModel.step build pb) w as = some w' ∧ i ∉ w'.manager := by
  obtain ⟨as, v, has, hm, hvpc, he⟩ := close_comes h hi hw
  have hv := h.run has
  have hr : v.running = false :=
    (shut_reachable hv).running (by rw [hvpc]; rcases hpc with hpc | hpc <;> rw [hpc] <;> trivial)
  rcases hpc with hpc | hpc
  · have hne : v.manager ≠ ∅ := Finset.ne_empty_of_mem (hm ▸ hi)
    have hstep : WorldModel.step build pb v (.main 0 []) = some { v with pc := .waitEvents } := by
      simp only [WorldModel.step, World.mainStep, hvpc.trans hpc, if_neg hne]
    obtain ⟨bs, w', hbs, hi'⟩ :=
      close_handled build pb (w := { v with pc := .waitEvents }) rfl hr he
    refine ⟨as ++ .main 0 [] :: bs, w', ?_, hi'⟩
    rw [run_append, has, Option.bind_some, run_cons, hstep]
    exact hbs
  · obtain ⟨bs, w', hbs, hi'⟩ := close_handled build pb (hvpc.trans hpc) hr he
    refine ⟨as ++ bs, w', ?_, hi'⟩
    rw [run_append, has]
    exact hbs

/-- **Shutdown cannot be stranded.** In every reachable state, each session of the manager runs,
or its end is under way; in the loop of `close` none runs any more, so whenever the manager is
not empty a handler or an event is left that removes a session, and can come to do so; no session
is taken in; and the I/O threads are let go only when every session that was accepted has been
removed, on its close event. -/
theorem shutdown_not_stranded (h : Reachable (WorldModel.step build pb) init w) :
    (∀ i ∈ w.manager, (w.session i).running = true ∨ Waits w i) ∧
      (w.pc = .waiting ∨ w.pc = .waitEvents → ∀ i ∈ w.manager, Waits w i ∧
        ∃ as w', run (WorldModel.step build pb) w as = some w' ∧ i ∉ w'.manager) ∧
      (∀ i e rest, w.sessionEvents = (i, e) :: rest → e = .close → ∀ next,
        i ∉ (w.processSessionEvent next).manager) ∧
      (Shutting w.pc → ∀ as w', run (WorldModel.step build pb) w as = some w' →
        w'.manager ⊆ w.manager) ∧
      (w.pc = .closed → w.manager = ∅ ∧
        ∀ i, 1 ≤ i → i < w.nextSessionId → (i, .close) ∈ w.history.handled) := by
  obtain ⟨hb, hview⟩ := reachable_view h
  have hshut := shut_reachable h
  have hwaits : ∀ i ∈ w.manager, (w.session i).running = true ∨ Waits w i := fun i hi => by
    have hacc := accounted_of_held (hview i) (decide_eq_true hi)
      (phaseOf_ne_created w.pc (hb.manager i hi))
    rcases hacc with hr | hp | he
    · exact .inl hr
    · exact .inr (.inl hp)
    · exact .inr (.inr (mem_eventsOf.mp he))
  refine ⟨hwaits, fun hpc i hi => ?_, ?_, fun hpc as w' hs => manager_subset hpc hshut hs,
    fun hpc => ⟨hshut.empty hpc, fun i h1 hn => ?_⟩⟩
  · have hstop : (w.session i).running = false := by
      rcases hpc with hpc | hpc <;>
        exact hshut.stopped (by rw [hpc]; trivial) i hi (by simp [hpc, toStop])
    have hw : Waits w i := (hwaits i hi).resolve_left (by simp [hstop])
    exact ⟨hw, removable h hpc hi hw⟩
  · rintro i e rest he rfl next
    simp [World.processSessionEvent, he, World.handleSessionEvent]
  · have hheld := (life_reachable (hview i)).held (phaseOf_ne_created w.pc ⟨h1, hn⟩)
      (decide_eq_false (by simp [hshut.empty hpc]))
    exact mem_eventsOf.mp hheld

end Server

/-- A session is accepted, and the server is stopped and closes it. -/
def acceptThenStop : List Act :=
  [.service .accept, .main 0 [], .main 0 [], .main 0 [], .stop, .main 0 [], .main 0 [],
    .main 0 [], .main 0 [1], .main 0 [], .main 0 [], .main 0 []]

/-- The main thread waits for it, and it can be removed. -/
theorem shutdown_not_stranded_acceptThenStop : ∃ w,
    run (WorldModel.step .Release proto3) init acceptThenStop = some w ∧
      w.pc = .waitEvents ∧ w.manager = {1} ∧ Waits w 1 ∧
      ∃ as w', run (WorldModel.step .Release proto3) w as = some w' ∧ 1 ∉ w'.manager := by
  obtain ⟨w, hw⟩ := Option.isSome_iff_exists.mp
    (show (run (WorldModel.step .Release proto3) init acceptThenStop).isSome = true by rfl)
  have hpc : (run (WorldModel.step .Release proto3) init acceptThenStop).map World.pc =
      some .waitEvents := by rfl
  have hm : (run (WorldModel.step .Release proto3) init acceptThenStop).map World.manager =
      some {1} := by rfl
  rw [hw, Option.map_some, Option.some.injEq] at hpc hm
  exact ⟨w, hw, hpc, hm, (shutdown_not_stranded ⟨_, hw⟩).2.1 (.inr hpc) 1 (by simp [hm])⟩

/-- A session is accepted, the main thread goes on to its next round, and an I/O thread gets as
far as the exchange of the flag in `stop`. -/
def insideStop : List Act :=
  [.service .accept, .main 0 [], .main 0 [], .main 0 [], .main 0 [], .main 0 [], .main 0 [],
    .io 1 .stop]

/-- **Before `stop` has posted**, the session does not run, nothing on its strand closes it, and
there is no event. -/
theorem insideStop_not_on_strand : ∃ w,
    run (WorldModel.step .Release proto3) init insideStop = some w ∧ w.pc = .loop ∧
      1 ∈ w.manager ∧ (w.session 1).running = false ∧ .close ∉ (w.session 1).strand ∧
      (1, .close) ∉ w.sessionEvents := by
  obtain ⟨w, hw⟩ := Option.isSome_iff_exists.mp
    (show (run (WorldModel.step .Release proto3) init insideStop).isSome = true by rfl)
  have heq : (run (WorldModel.step .Release proto3) init insideStop).map (fun w =>
      (w.pc, w.manager, (w.session 1).running, (w.session 1).strand, w.sessionEvents)) =
      some (.loop, {1}, false, [.asyncRead], []) := by rfl
  rw [hw, Option.map_some, Option.some.injEq] at heq
  simp only [Prod.mk.injEq] at heq
  obtain ⟨hpc, hm, hr, hstrand, hevents⟩ := heq
  exact ⟨w, hw, hpc, by simp [hm], hr, by simp [hstrand], by simp [hevents]⟩

end ByteborneWorld.ShutdownRun
