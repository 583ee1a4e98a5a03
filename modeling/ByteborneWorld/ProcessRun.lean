import ByteborneWorld.ServerProcess

/-!
Runs of the server program: how the service and the main thread fit together.
-/

namespace ByteborneWorld.ProcessRun

open ByteborneWorld.ChatProto ByteborneWorld.PacketModel ByteborneWorld.SessionModel
open ByteborneWorld.ServiceModel ByteborneWorld.WorldModel ByteborneWorld.ServerProcess
open ByteborneWorld.Lts

variable {build : Build} {pb : Protobuf}

/-! ### The main thread and the queue of service events -/

/-- The main thread takes the next service event, or leaves the queue and the flag alone. -/
inductive Takes (w w' : World) : Prop
  | none (running : w'.running = w.running) (events : w'.serviceEvents = w.serviceEvents)
      (next : w'.nextSessionId = w.nextSessionId)
  | event {e rest} (hpc : w.pc = .serviceEvents) (he : w.serviceEvents = e :: rest)
      (heq : w' = { w with serviceEvents := rest }.handleServiceEvent e)

section World

variable {w w' : World}

lemma processSessionEvent_takes (w : World) (next : At) :
    Takes w (w.processSessionEvent next) := by
  unfold World.processSessionEvent
  split
  · exact .none rfl rfl rfl
  · rename_i i e rest _
    cases e with
    | close => exact .none rfl rfl rfl
    | receive =>
      simp only [World.handleSessionEvent]
      split_ifs <;> exact .none rfl rfl rfl

theorem takes_mainStep {nowMs : Int64} {order : List ℕ}
    (h : w.mainStep build pb nowMs order = some w') : Takes w w' := by
  unfold World.mainStep at h
  split at h
  · split_ifs at h <;> cases h <;> exact .none rfl rfl rfl
  · split at h <;> cases h
    · exact .none rfl rfl rfl
    · exact .event ‹_› ‹_› rfl
  · cases h
    exact .none rfl rfl rfl
  · cases h
    exact processSessionEvent_takes w _
  · cases h
    exact .none rfl rfl rfl
  · split at h
    · unfold World.dispatch at h
      split at h
      · split at h
        · split_ifs at h
          obtain ⟨sendBuffers, chunk, -, rfl⟩ := WorldRun.handleChat_spec h
          exact .none rfl rfl rfl
        · cases h
      · split_ifs at h
        cases h
        exact .none rfl rfl rfl
    · cases h
      exact .none rfl rfl rfl
  · cases h
    exact .none rfl rfl rfl
  · split_ifs at h <;> cases h <;> exact .none rfl rfl rfl
  · split_ifs at h <;> cases h <;> exact .none rfl rfl rfl
  · cases h
    exact .none rfl rfl rfl
  · cases h
    exact .none rfl rfl rfl
  · cases h
    exact .none rfl rfl rfl
  · cases h
    exact .none rfl rfl rfl
  · cases h
    exact processSessionEvent_takes w _
  · cases h

lemma ioStep_frame {i : ℕ} {a : IoAct Chunk} (h : w.ioStep i a = some w') :
    w'.running = w.running ∧ w'.serviceEvents = w.serviceEvents ∧
      w'.nextSessionId = w.nextSessionId := by
  unfold World.ioStep at h
  split at h
  · cases h
  · split_ifs at h
    obtain ⟨⟨s, pushed⟩, -, rfl⟩ := Option.map_eq_some_iff.mp h
    exact ⟨rfl, rfl, rfl⟩

end World

/-! ### The events of the service -/

/-- The connections that are accepted before the service is closed. -/
def served : List WorldModel.ServiceEvent → ℕ
  | [] | .close :: _ => 0
  | .accept :: es => served es + 1

/-- Those that come too late. -/
def missed : List WorldModel.ServiceEvent → ℕ
  | [] => 0
  | .close :: es => es.count .accept
  | .accept :: es => missed es

section Events

variable {es : List WorldModel.ServiceEvent}

lemma served_of_mem (h : .close ∈ es) (es' : List WorldModel.ServiceEvent) :
    served (es ++ es') = served es := by
  induction es with
  | nil => cases h
  | cons e es ih =>
    cases e with
    | close => rfl
    | accept => rw [List.cons_append, served, served, ih (by simpa using h)]

lemma served_of_not_mem (h : .close ∉ es) (es' : List WorldModel.ServiceEvent) :
    served (es ++ es') = es.length + served es' := by
  induction es with
  | nil => rw [List.nil_append, List.length_nil, Nat.zero_add]
  | cons e es ih =>
    cases e with
    | close => exact absurd (.head _) h
    | accept =>
      rw [List.cons_append, served, ih (by simpa using h), List.length_cons]
      omega

lemma served_eq_length (h : .close ∉ es) : served es = es.length := by
  have := served_of_not_mem h []
  rwa [List.append_nil, served, Nat.add_zero] at this

lemma missed_of_mem (h : .close ∈ es) (es' : List WorldModel.ServiceEvent) :
    missed (es ++ es') = missed es + es'.count .accept := by
  induction es with
  | nil => cases h
  | cons e es ih =>
    cases e with
    | close => rw [List.cons_append, missed, missed, List.count_append]
    | accept => rw [List.cons_append, missed, missed, ih (by simpa using h)]

lemma missed_of_not_mem (h : .close ∉ es) (es' : List WorldModel.ServiceEvent) :
    missed (es ++ es') = missed es' := by
  induction es with
  | nil => rfl
  | cons e es ih =>
    cases e with
    | close => exact absurd (.head _) h
    | accept => rw [List.cons_append, missed, ih (by simpa using h)]

end Events

/-- All that the service has pushed. -/
def pushed (p : Process) : List WorldModel.ServiceEvent := p.service.events.filterMap queued

/-- What joins the two: the service closes once at most, and what it pushed is what the main
thread has taken and what is in the queue. -/
structure Joined (p : Process) : Prop where
  life : serviceLife p.service + (pushed p).count .close = p.started.toNat
  accepts : accepts p.service + missed (pushed p) ≤ p.started.toNat
  acceptor : p.service.acceptorOpen = true ↔ .close ∉ pushed p
  settled : Settled p.service
  taken : ∃ taken, pushed p = taken ++ p.world.serviceEvents ∧
    (p.world.running = false ↔ .close ∈ taken) ∧ p.world.nextSessionId = served taken + 1

lemma joined_init : Joined ServerProcess.init where
  life := rfl
  accepts := le_refl _
  acceptor := by decide
  settled h := by cases h
  taken := ⟨[], rfl, by simp [ServerProcess.init, WorldModel.init], rfl⟩

section Joined

variable {p p' : Process} {a : ServerProcess.Act}

lemma count_queued (new : List ServiceModel.ServiceEvent) :
    (new.filterMap queued).count .close = new.count .close ∧
      (new.filterMap queued).count .accept = new.count .accept := by
  induction new with
  | nil => exact ⟨rfl, rfl⟩
  | cons e new ih =>
    cases e with
    | close | accept => simp [queued, ih]
    | connect socket => rw [List.filterMap_cons_none rfl]; simpa using ih

lemma serviceStep_eq {b : ServiceModel.Act} {new : List ServiceModel.ServiceEvent}
    {service : ServerService} (hs : p.service.step b = some service)
    (hnew : service.events = p.service.events ++ new) :
    p.serviceStep b = some { p with
      service := service
      world.serviceEvents := p.world.serviceEvents ++ new.filterMap queued } := by
  rw [Process.serviceStep, hs, Option.map_some, hnew, List.drop_left]

lemma Joined.withWorld (h : Joined p) {w : World} (hw : Takes p.world w) :
    Joined (p.withWorld w) := by
  refine ⟨h.life, h.accepts, h.acceptor, h.settled, ?_⟩
  obtain ⟨taken, heq, hrunning, hnext⟩ := h.taken
  cases hw with
  | none hr he hn =>
    exact ⟨taken, heq.trans (by rw [Process.withWorld, he]), by rwa [Process.withWorld, hr],
      hn.trans hnext⟩
  | @event e rest hpc he hw =>
    have hpushed : pushed p = (taken ++ [e]) ++ rest := by
      rw [heq, he, List.append_assoc, List.singleton_append]
    subst hw
    refine ⟨taken ++ [e], ?_⟩
    cases e with
    | close =>
      have hserved : served (taken ++ [.close]) = served taken := by
        by_cases hc : .close ∈ taken
        · exact served_of_mem hc _
        · rw [served_of_not_mem hc, served_eq_length hc]
          rfl
      exact ⟨hpushed, by simp [Process.withWorld, World.handleServiceEvent],
        hnext.trans (by rw [hserved])⟩
    | accept =>
      cases hr : p.world.running with
      | false =>
        have hc := hrunning.mp hr
        simp only [World.handleServiceEvent, Process.withWorld, Bool.false_eq_true, if_false]
        exact ⟨hpushed, by simp [hc], by rw [served_of_mem hc]; exact hnext⟩
      | true =>
        have hc : .close ∉ taken := fun hc => by simp [hrunning.mpr hc] at hr
        simp only [World.handleServiceEvent, Process.withWorld, if_true, World.accept]
        refine ⟨hpushed, by simp [hc], ?_⟩
        rw [served_of_not_mem hc, hnext, served_eq_length hc]
        rfl

lemma Joined.service (h : Joined p) {b : ServiceModel.Act} (hstart : b ≠ .start)
    (hstop : b ≠ .stop) (hs : p.serviceStep b = some p') : Joined p' := by
  obtain ⟨service, hb, -⟩ := Option.map_eq_some_iff.mp hs
  obtain ⟨new, he⟩ := effect_step hb hstart hstop
  rw [serviceStep_eq hb he.events, Option.some.injEq] at hs
  subst hs
  obtain ⟨hclose, haccept⟩ := count_queued new
  have hpushed : pushed { p with
      service := service
      world.serviceEvents := p.world.serviceEvents ++ new.filterMap queued } =
      pushed p ++ new.filterMap queued := by
    simp [pushed, he.events, List.filterMap_append]
  have hmem : .close ∈ new.filterMap queued ↔ .close ∈ new := by
    rw [← List.count_pos_iff, ← List.count_pos_iff, hclose]
  have hlife := he.life
  have hold := h.life
  refine ⟨?_, ?_, ?_, he.settled h.settled, ?_⟩
  · rw [hpushed, List.count_append, hclose]
    dsimp only
    omega
  · rw [hpushed]
    have haccepts := h.accepts
    by_cases hc : .close ∈ pushed p
    · -- a service that was closed does not run
      have hr : p.service.running = false := by
        have hpos := List.count_pos_iff.mpr hc
        have hle := Bool.toNat_le p.started
        unfold serviceLife at hold
        exact Bool.toNat_eq_zero.mp (by omega)
      have hlate := he.late hr
      rw [missed_of_mem hc, haccept]
      dsimp only
      omega
    · have hunder := he.under_way
      have hnone : missed (new.filterMap queued) = 0 := by
        rcases new with _ | ⟨e, _ | ⟨e', new⟩⟩
        · rfl
        · cases e <;> rfl
        · exact absurd he.single (by simp)
      rw [missed_of_not_mem hc, hnone]
      dsimp only
      omega
  · rw [hpushed, he.acceptor, h.acceptor, List.mem_append, hmem, not_or]
  · obtain ⟨taken, heq, hrunning, hnext⟩ := h.taken
    exact ⟨taken, by rw [hpushed, heq, List.append_assoc], hrunning, hnext⟩

lemma Joined.start (h : Joined p) (hp : p.started = false)
    (hs : { p with started := true }.serviceStep .start = some p') : Joined p' := by
  have hold := h.life
  have haccepts := h.accepts
  rw [hp, Bool.toNat_false] at hold haccepts
  have hr : p.service.running = false := by
    unfold serviceLife at hold
    exact Bool.toNat_eq_zero.mp (by omega)
  have hstart : ({ p with started := true } : Process).service.step .start = some { p.service with
      toService := { p.service.toService with
        running := true, posting := p.service.posting ++ [.asyncAccept] } } := by
    simp [ServerService.step, Service.ioStep, Service.start, hr, ServerService.methods]
  have hevents : p.service.events = p.service.events ++ [] := (List.append_nil _).symm
  rw [serviceStep_eq hstart hevents, Option.some.injEq] at hs
  subst hs
  have hqueue : p.world.serviceEvents ++ [].filterMap queued = p.world.serviceEvents :=
    List.append_nil _
  refine ⟨?_, ?_, h.acceptor, h.settled, ?_⟩
  · simp only [serviceLife, hr, pushed, List.count_append, List.count_singleton, Bool.toNat_true,
      Bool.toNat_false] at hold ⊢
    rw [if_neg (by decide)]
    omega
  · simp only [ServerProcess.accepts, pushed, List.countP_append, List.countP_singleton,
      isAccept, if_true, Bool.toNat_true] at haccepts ⊢
    omega
  · rw [hqueue]
    exact h.taken

lemma joined_step (p : Process) (a : ServerProcess.Act) (p' : Process) (h : Joined p)
    (hs : ServerProcess.step build pb p a = some p') : Joined p' := by
  cases a with
  | start =>
    simp only [ServerProcess.step] at hs
    split_ifs at hs with hp
    exact h.start (by simpa using hp) hs
  | service b =>
    cases b with
    | start | stop => cases hs
    | signal | post | strand | done | queue => exact h.service (by simp) (by simp) hs
  | main nowMs order =>
    obtain ⟨w, hw, rfl⟩ := Option.map_eq_some_iff.mp hs
    exact h.withWorld (takes_mainStep hw)
  | io i b =>
    obtain ⟨w, hw, rfl⟩ := Option.map_eq_some_iff.mp hs
    obtain ⟨hr, he, hn⟩ := ioStep_frame hw
    exact h.withWorld (.none hr he hn)

theorem joined_reachable (h : Reachable (ServerProcess.step build pb) ServerProcess.init p) :
    Joined p :=
  h.invariant joined_step joined_init

/-- The main thread alone: what the service pushes is an event from outside. -/
lemma run_service (w : World) (es : List WorldModel.ServiceEvent) :
    run (WorldModel.step build pb) w (es.map .service) =
      some { w with serviceEvents := w.serviceEvents ++ es } := by
  induction es generalizing w with
  | nil => simp
  | cons e es ih =>
    rw [List.map_cons, run_cons, WorldModel.step, Option.bind_some, ih]
    simp

variable (build pb) in
lemma world_serviceStep {b : ServiceModel.Act} (hs : p.serviceStep b = some p') :
    ∃ es, run (WorldModel.step build pb) p.world es = some p'.world := by
  obtain ⟨service, -, rfl⟩ := Option.map_eq_some_iff.mp hs
  exact ⟨_, run_service p.world _⟩

/-- **The main thread of the program makes a run of the server**, with its I/O threads. -/
theorem world_reachable (h : Reachable (ServerProcess.step build pb) ServerProcess.init p) :
    Reachable (WorldModel.step build pb) WorldModel.init p.world := by
  refine h.invariant (I := fun p => Reachable (WorldModel.step build pb) WorldModel.init p.world)
    (fun p a p' hw hs => ?_) (.refl _)
  cases a with
  | start =>
    simp only [ServerProcess.step] at hs
    split_ifs at hs
    obtain ⟨es, hes⟩ := world_serviceStep build pb hs
    exact hw.run hes
  | service b =>
    cases b with
    | start | stop => cases hs
    | signal | post | strand | done | queue =>
      obtain ⟨es, hes⟩ := world_serviceStep build pb hs
      exact hw.run hes
  | main nowMs order =>
    obtain ⟨w, hmain, rfl⟩ := Option.map_eq_some_iff.mp hs
    exact hw.next (a := .main nowMs order) hmain
  | io i b =>
    obtain ⟨w, hio, rfl⟩ := Option.map_eq_some_iff.mp hs
    exact hw.next (a := .io i b) hio

/-- **The service and the main thread fit together.** One accept is under way at most. When the
service is closed it does not run, and its acceptor is open still; the close event is pushed once
at most, and finds the main thread running, as the handlers assert. Every connection accepted
before that event, and none after it, becomes a session; at most one comes too late. -/
theorem service_fits (h : Reachable (ServerProcess.step build pb) ServerProcess.init p) :
    ServerProcess.accepts p.service ≤ 1 ∧
      (p.service.strand.head? = some .close →
        p.service.running = false ∧ p.service.acceptorOpen = true) ∧
      (p.world.serviceEvents.head? = some .close → p.world.running = true) ∧
      (pushed p).count .close ≤ 1 ∧ missed (pushed p) ≤ 1 ∧
      ∃ taken, pushed p = taken ++ p.world.serviceEvents ∧
        (p.world.running = false ↔ .close ∈ taken) ∧
        p.world.nextSessionId = served taken + 1 := by
  have hjoined := joined_reachable h
  have hle := Bool.toNat_le p.started
  have hlife := hjoined.life
  have haccepts := hjoined.accepts
  refine ⟨by omega, fun hclose => ?_, fun hclose => ?_, by omega, by omega, hjoined.taken⟩
  · have hpos : 0 < p.service.strand.count .close :=
      List.count_pos_iff.mpr (List.mem_of_mem_head? hclose)
    unfold serviceLife at hlife
    refine ⟨Bool.toNat_eq_zero.mp (by omega), hjoined.acceptor.mpr fun hc => ?_⟩
    have := List.count_pos_iff.mpr hc
    omega
  · obtain ⟨taken, heq, hrunning, -⟩ := hjoined.taken
    by_contra hr
    have hc := List.count_pos_iff.mpr (hrunning.mp (by simpa using hr))
    have hc' := List.count_pos_iff.mpr (List.mem_of_mem_head? hclose)
    rw [heq, List.count_append] at hlife
    omega

end Joined

/-- A connection is accepted and served, and a signal stops the service. -/
def acceptThenSignal : List ServerProcess.Act :=
  [.start, .service (.post 0), .service (.strand []), .service (.done 0 none),
    .service (.queue 0), .service (.strand []), .main 0 [], .main 0 [], .service (.signal none),
    .service (.post 0), .service (.strand []), .main 0 [], .main 0 []]

/-- It became a session, and the main thread has stopped. -/
theorem service_fits_acceptThenSignal : ∃ p,
    run (ServerProcess.step .Release proto3) ServerProcess.init acceptThenSignal = some p ∧
      p.world.running = false ∧ p.world.nextSessionId = 2 ∧
      (pushed p).count .close ≤ 1 := by
  obtain ⟨p, hp⟩ := Option.isSome_iff_exists.mp (show (run (ServerProcess.step .Release proto3)
    ServerProcess.init acceptThenSignal).isSome = true by rfl)
  have hr : (run (ServerProcess.step .Release proto3) ServerProcess.init acceptThenSignal).map
      (fun p => (p.world.running, p.world.nextSessionId)) = some (false, 2) := by rfl
  rw [hp, Option.map_some, Option.some.injEq, Prod.mk.injEq] at hr
  exact ⟨p, hp, hr.1, hr.2, (service_fits ⟨_, hp⟩).2.2.2.1⟩

end ByteborneWorld.ProcessRun
