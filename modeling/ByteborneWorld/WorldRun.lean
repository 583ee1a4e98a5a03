import ByteborneWorld.WorldModel

/-!
Runs of the world server: the cases of its steps, and each of its sessions by itself. What
holds of one session with its owner holds of every session of the server.
-/

namespace ByteborneWorld.WorldRun

open ByteborneWorld.ChatProto ByteborneWorld.PacketModel ByteborneWorld.SendModel
open ByteborneWorld.ChatRoomModel ByteborneWorld.SessionModel ByteborneWorld.WorldModel
open ByteborneWorld.Lts

/-- The main thread is at the edge of a function, with no session in its hands. -/
def Plain : At → Prop
  | .loop | .serviceEvents | .sessionEvents | .messages => True
  | .closing _ | .waiting | .waitEvents | .closed => True
  | _ => False

/-- What a step of the server does. -/
inductive Step (build : Build) (pb : Protobuf) (w : World) : World → Prop
  /-- nothing but the position of the main thread, the flag and the service events -/
  | plain {pc running es} (hr : running = true → w.running = true)
      (hpc : pc = w.pc ∨ Plain w.pc ∧ Plain pc) :
      Step build pb w { w with pc := pc, running := running, serviceEvents := es }
  | accept {es} (hpc : w.pc = .serviceEvents) (hr : w.running = true) :
      Step build pb w { w with serviceEvents := es }.accept
  | startPost {i} (hpc : w.pc = .starting i) :
      Step build pb w { w with
        pc := .serviceEvents
        session := Function.update w.session i ((w.session i).post .asyncRead) }
  | event {i e rest} (hpc : Plain w.pc) (he : w.sessionEvents = (i, e) :: rest) :
      Step build pb w
        ({ w with sessionEvents := rest, history.handled := w.history.handled ++ [(i, e)]
          }.handleSessionEvent i e)
  | drain {i pc d} (hpc : w.pc = .receiving i pc)
      (hd : d = Drain.step build pb i ⟨pc, w.session i, w.messageQueue⟩) :
      Step build pb w { w with
        pc := if d.pc = .outside then .sessionEvents else .receiving i d.pc
        session := Function.update w.session i d.session
        messageQueue := d.queue }
  | chat {entry rest message nowMs order w'} (hpc : w.pc = .messages)
      (hq : w.messageQueue = entry :: rest) (ht : entry.messageType = .c2sChat)
      (hm : entry.message = .c2sChat message)
      (ho : order.Nodup ∧ order.toFinset = w.room.activeSessions)
      (hs : w.handleChat pb entry message nowMs order = some w') : Step build pb w w'
  /-- an entry that has no handler -/
  | noHandler {entry rest} (hpc : w.pc = .messages) (hq : w.messageQueue = entry :: rest)
      (ht : entry.messageType ≠ .c2sChat) : Step build pb w w.popMessage
  | finish {chunk} (hpc : w.pc = .broadcast chunk []) : Step build pb w w.popMessage
  | find {chunk i rest} (hpc : w.pc = .broadcast chunk (i :: rest)) (hi : i ∈ w.manager)
      (hr : (w.session i).running = true) :
      Step build pb w { w with pc := .sending chunk i rest }
  | pass {chunk i rest} (hpc : w.pc = .broadcast chunk (i :: rest))
      (hi : ¬(i ∈ w.manager ∧ (w.session i).running = true)) :
      Step build pb w { w with pc := .broadcast chunk rest }
  | send {chunk i rest} (hpc : w.pc = .sending chunk i rest)
      (hr : (w.session i).running = true) :
      Step build pb w { w with pc := .posting chunk i rest }
  | refuse {chunk i rest} (hpc : w.pc = .sending chunk i rest)
      (hr : (w.session i).running = false) :
      Step build pb w { w with pc := .broadcast chunk rest }
  | post {chunk i rest} (hpc : w.pc = .posting chunk i rest) :
      Step build pb w { w with
        pc := .broadcast chunk rest
        session := Function.update w.session i ((w.session i).post (.send chunk)) }
  | close {i rest} (hpc : w.pc = .closing (i :: rest)) :
      Step build pb w
        { w.setSession i ((w.session i).stop.1.aboutTo (w.session i).stop.2) with
          pc := .closing rest }
  | io {i a s pushed} (hi : 1 ≤ i ∧ i < w.nextSessionId) (ha : ∀ chunk, a ≠ .send chunk)
      (h : (w.session i).ioStep a = some (s, pushed)) :
      Step build pb w { w.setSession i s with
        sessionEvents := w.sessionEvents ++ pushed.map (i, ·)
        history.put := Function.update w.history.put i
          (w.history.put i ++ SessionRun.putBy (w.session i) a) }

variable {build : Build} {pb : Protobuf} {w w' : World}

lemma send_isSome {κ : Type*} (s : Session κ) (chunk : κ) :
    (s.send chunk).isSome = s.running := by
  unfold Session.send
  cases s.running <;> rfl

lemma processSessionEvent_spec {next : At} (hpc : Plain w.pc) (hnext : Plain next) :
    Step build pb w (w.processSessionEvent next) := by
  unfold World.processSessionEvent
  split
  · exact .plain id (.inr ⟨hpc, hnext⟩)
  · exact .event hpc ‹_›

/-- **The cases of a step of the server.** -/
theorem step_spec {a : Act} (h : step build pb w a = some w') : Step build pb w w' := by
  cases a with
  | service e =>
    cases h
    exact .plain id (.inl rfl)
  | stop =>
    cases h
    exact .plain (fun h => by cases h) (.inl rfl)
  | io i a =>
    simp only [step, World.ioStep] at h
    split at h
    · cases h
    · split_ifs at h with hi
      obtain ⟨⟨s, pushed⟩, hio, rfl⟩ := Option.map_eq_some_iff.mp h
      exact .io hi (fun chunk ha => by simp_all) hio
  | main nowMs order =>
    simp only [step, World.mainStep] at h
    cases hpc : w.pc with
    | loop =>
      simp only [hpc] at h
      split_ifs at h <;> cases h
      · exact .plain id (.inr ⟨by simp [hpc, Plain], trivial⟩)
      · exact .plain id (.inr ⟨by simp [hpc, Plain], trivial⟩)
    | serviceEvents =>
      simp only [hpc] at h
      split at h <;> cases h
      · exact .plain id (.inr ⟨by simp [hpc, Plain], trivial⟩)
      · rename_i e rest _
        cases e with
        | close => exact .plain (fun h => by cases h) (.inl hpc.symm)
        | accept =>
          by_cases hr : w.running = true
          · rw [World.handleServiceEvent, if_pos hr]
            exact .accept hpc hr
          · rw [World.handleServiceEvent, if_neg hr]
            exact .plain id (.inl hpc.symm)
    | starting i =>
      simp only [hpc, Option.some.injEq] at h
      subst h
      exact .startPost hpc
    | sessionEvents =>
      simp only [hpc, Option.some.injEq] at h
      subst h
      exact processSessionEvent_spec (by simp [hpc, Plain]) trivial
    | receiving i pc =>
      simp only [hpc, Option.some.injEq] at h
      subst h
      exact .drain hpc rfl
    | messages =>
      simp only [hpc] at h
      split at h
      · rename_i entry rest _ hq
        unfold World.dispatch at h
        split at h
        · split at h
          · split_ifs at h with ho
            exact .chat hpc hq ‹_› ‹_› ho h
          · cases h
        · split_ifs at h
          cases h
          exact .noHandler hpc hq ‹_›
      · cases h
        exact .plain id (.inr ⟨by simp [hpc, Plain], trivial⟩)
    | broadcast chunk order =>
      cases order with
      | nil =>
        simp only [hpc, Option.some.injEq] at h
        subst h
        exact .finish hpc
      | cons i rest =>
        simp only [hpc] at h
        split_ifs at h with hi <;> cases h
        · exact .find hpc hi.1 hi.2
        · exact .pass hpc hi
    | sending chunk i rest =>
      simp only [hpc] at h
      split_ifs at h with hsend <;> rw [send_isSome] at hsend <;> cases h
      · exact .send hpc hsend
      · exact .refuse hpc (by simpa using hsend)
    | posting chunk i rest =>
      simp only [hpc, Option.some.injEq] at h
      subst h
      exact .post hpc
    | closing order =>
      cases order with
      | nil =>
        simp only [hpc, Option.some.injEq] at h
        subst h
        exact .plain id (.inr ⟨by simp [hpc, Plain], trivial⟩)
      | cons i rest =>
        simp only [hpc, Option.some.injEq] at h
        subst h
        exact .close hpc
    | waiting =>
      simp only [hpc, Option.some.injEq] at h
      subst h
      refine .plain id (.inr ⟨by simp [hpc, Plain], ?_⟩)
      split_ifs <;> trivial
    | waitEvents =>
      simp only [hpc, Option.some.injEq] at h
      subst h
      exact processSessionEvent_spec (by simp [hpc, Plain]) trivial
    | closed => simp [hpc] at h

/-! ### One session of the server -/

def eventsOf (i : ℕ) (events : List (ℕ × SessionEvent)) : List SessionEvent :=
  events.filterMap fun p => if p.1 = i then some p.2 else none

section EventsOf

variable (i : ℕ) (events events' : List (ℕ × SessionEvent)) (e : SessionEvent)

@[simp] lemma eventsOf_nil : eventsOf i [] = [] := rfl

@[simp] lemma eventsOf_append :
    eventsOf i (events ++ events') = eventsOf i events ++ eventsOf i events' :=
  List.filterMap_append

@[simp] lemma eventsOf_cons_self : eventsOf i ((i, e) :: events) = e :: eventsOf i events := by
  simp [eventsOf]

lemma eventsOf_cons_ne {i j : ℕ} (h : j ≠ i) :
    eventsOf i ((j, e) :: events) = eventsOf i events := by
  simp [eventsOf, h]

@[simp] lemma eventsOf_map_self (pushed : List SessionEvent) :
    eventsOf i (pushed.map (i, ·)) = pushed := by
  simp [eventsOf, List.filterMap_map]

lemma eventsOf_map_ne {i j : ℕ} (h : j ≠ i) (pushed : List SessionEvent) :
    eventsOf i (pushed.map (j, ·)) = [] := by
  simp [eventsOf, List.filterMap_map, h]

end EventsOf

/-- Where the main thread stands, as far as a session is concerned. -/
def pcOf (pc : At) (i : ℕ) : Pc :=
  match pc with
  | .receiving j pc => if j = i then pc else .outside
  | _ => .outside

def phaseOf (nextSessionId : ℕ) (pc : At) (i : ℕ) : SessionRun.Phase :=
  if i = 0 ∨ nextSessionId ≤ i then .created
  else if pc = .starting i then .starting
  else .started

/-- The server as one of its sessions sees it. -/
def view (w : World) (i : ℕ) : SessionRun.Sys Chunk where
  main := ⟨pcOf w.pc i, w.session i, w.messageQueue⟩
  phase := phaseOf w.nextSessionId w.pc i
  held := i ∈ w.manager
  ownerRunning := w.running
  events := eventsOf i w.sessionEvents
  handled := eventsOf i w.history.handled

lemma view_init (i : ℕ) : view init i = SessionRun.init := by
  have hphase : phaseOf 1 .loop i = .created := if_pos (by omega)
  simp only [view, init, hphase]
  rfl

/-- The session in the hands of the main thread was created. -/
def Attends (nextSessionId : ℕ) : At → Prop
  | .starting i | .sending _ i _ | .posting _ i _ => 1 ≤ i ∧ i < nextSessionId
  | .receiving i pc => (1 ≤ i ∧ i < nextSessionId) ∧ pc ≠ .outside
  | _ => True

/-- Only sessions that were created are in the manager, have events or have the attention of
the main thread. -/
structure Bounded (w : World) : Prop where
  next_pos : 1 ≤ w.nextSessionId
  manager : ∀ i ∈ w.manager, 1 ≤ i ∧ i < w.nextSessionId
  events : ∀ p ∈ w.sessionEvents, 1 ≤ p.1 ∧ p.1 < w.nextSessionId
  pc : Attends w.nextSessionId w.pc

lemma bounded_init : Bounded init where
  next_pos := le_refl _
  manager i hi := by simp [init] at hi
  events p hp := by cases hp
  pc := trivial

lemma Plain.pcOf {pc : At} (h : Plain pc) (i : ℕ) : pcOf pc i = .outside := by
  cases pc <;> first | rfl | exact absurd h id

lemma Plain.not_starting {pc : At} (h : Plain pc) (i : ℕ) : pc ≠ .starting i := by
  rintro rfl
  exact h

lemma Plain.attends {pc : At} (h : Plain pc) (n : ℕ) : Attends n pc := by
  cases pc <;> trivial

lemma findSession_ne_outside (held : Bool) :
    SessionRun.findSession .WorldServer held ≠ .outside := by
  cases held <;> simp [SessionRun.findSession]

lemma Bounded.of_eq (h : Bounded w) (hn : w'.nextSessionId = w.nextSessionId)
    (hm : w'.manager = w.manager) (he : w'.sessionEvents = w.sessionEvents)
    (hpc : Attends w.nextSessionId w'.pc) : Bounded w' :=
  ⟨hn ▸ h.next_pos, by rw [hn, hm]; exact h.manager, by rw [hn, he]; exact h.events, hn ▸ hpc⟩

lemma handleChat_spec {entry : MessageQueueEntry} {message : C2SChat} {nowMs : Int64}
    {order : List ℕ} (h : w.handleChat pb entry message nowMs order = some w') :
    ∃ sendBuffers chunk,
      serializeToSendBuffer pb w.sendBuffers
        (.s2cChat (w.room.respond entry.sessionId message nowMs).2) = some (sendBuffers, chunk) ∧
      w' = { w with
        pc := .broadcast chunk order
        room := (w.room.respond entry.sessionId message nowMs).1
        sendBuffers := sendBuffers
        history.log := w.history.log ++
          [⟨entry, (w.room.respond entry.sessionId message nowMs).2, chunk⟩] } := by
  obtain ⟨⟨sendBuffers, chunk⟩, hs, rfl⟩ := Option.map_eq_some_iff.mp h
  exact ⟨sendBuffers, chunk, hs, rfl⟩

lemma bounded_step (h : Bounded w) (hs : Step build pb w w') : Bounded w' := by
  cases hs with
  | plain hr hpc =>
    refine h.of_eq rfl rfl rfl ?_
    rcases hpc with rfl | ⟨-, hpc⟩
    · exact h.pc
    · exact hpc.attends _
  | accept hpc hr =>
    refine ⟨Nat.le_add_left _ _, fun i hi => ?_, fun p hp => ?_, h.next_pos, Nat.lt_succ_self _⟩
    · rcases Finset.mem_insert.mp hi with rfl | hi
      · exact ⟨h.next_pos, Nat.lt_succ_self _⟩
      · exact (h.manager i hi).imp_right Nat.lt_succ_of_lt
    · exact (h.events p hp).imp_right Nat.lt_succ_of_lt
  | @event i e rest hpc he =>
    have hi := h.events (i, e) (by simp [he])
    have hrest : ∀ p ∈ rest, 1 ≤ p.1 ∧ p.1 < w.nextSessionId := fun p hp =>
      h.events p (by simp [he, hp])
    cases e with
    | close =>
      exact ⟨h.next_pos, fun i hi => h.manager i (Finset.mem_of_mem_erase hi), hrest,
        hpc.attends _⟩
    | receive =>
      unfold World.handleSessionEvent
      split_ifs
      · exact ⟨h.next_pos, h.manager, hrest, hi, findSession_ne_outside _⟩
      · exact ⟨h.next_pos, h.manager, hrest, hpc.attends _⟩
  | @drain i pc d hpc hd =>
    refine h.of_eq rfl rfl rfl ?_
    have hi := h.pc
    rw [hpc] at hi
    simp only
    split_ifs with hout
    · trivial
    · exact ⟨hi.1, hout⟩
  | chat hpc hq ht hm ho hs =>
    obtain ⟨sendBuffers, chunk, -, rfl⟩ := handleChat_spec hs
    exact h.of_eq rfl rfl rfl trivial
  | find hpc hi hr => exact h.of_eq rfl rfl rfl (h.manager _ hi)
  | send hpc hr =>
    refine h.of_eq rfl rfl rfl ?_
    have hi := h.pc
    rwa [hpc] at hi
  | io hi ha hio =>
    refine ⟨h.next_pos, h.manager, fun p hp => ?_, h.pc⟩
    rcases List.mem_append.mp hp with hp | hp
    · exact h.events p hp
    · obtain ⟨e, -, rfl⟩ := List.mem_map.mp hp
      exact hi
  | startPost | noHandler | finish | pass | refuse | post | close =>
    exact h.of_eq rfl rfl rfl trivial

lemma phaseOf_started {n i : ℕ} (pc : At) (hi : 1 ≤ i ∧ i < n) (hpc : pc ≠ .starting i) :
    phaseOf n pc i = .started := by
  rw [phaseOf, if_neg (by omega), if_neg hpc]

lemma phaseOf_starting {n i : ℕ} (hi : 1 ≤ i ∧ i < n) : phaseOf n (.starting i) i = .starting := by
  rw [phaseOf, if_neg (by omega), if_pos rfl]

lemma phaseOf_congr {n i : ℕ} {pc pc' : At} (h : pc = .starting i ↔ pc' = .starting i) :
    phaseOf n pc i = phaseOf n pc' i := by
  simp only [phaseOf, h]

/-- **Each session of the server makes the steps of a session with its owner**, or none. -/
theorem view_step (h : Bounded w) (hs : Step build pb w w') (i : ℕ) :
    view w' i = view w i ∨
      ∃ a, SessionRun.step build pb i .WorldServer (view w i) a = some (view w' i) := by
  cases hs with
  | @plain pc running es hr hpc =>
    have hpc' : pcOf pc i = pcOf w.pc i ∧
        phaseOf w.nextSessionId pc i = phaseOf w.nextSessionId w.pc i := by
      rcases hpc with rfl | ⟨h1, h2⟩
      · exact ⟨rfl, rfl⟩
      · exact ⟨(h2.pcOf i).trans (h1.pcOf i).symm,
          phaseOf_congr (iff_of_false (h2.not_starting i) (h1.not_starting i))⟩
    cases running with
    | true => exact .inl (by simp [view, hpc', hr rfl])
    | false => exact .inr ⟨.ownerStop, by simp [SessionRun.step, view, hpc']⟩
  | @accept es hpc hr =>
    have hnext := h.next_pos
    by_cases hi : i = w.nextSessionId
    · subst hi
      have hphase : phaseOf w.nextSessionId .serviceEvents w.nextSessionId = .created :=
        if_pos (.inr (le_refl _))
      refine .inr ⟨.start, ?_⟩
      simp [SessionRun.step, view, World.accept, pcOf, hpc, hphase,
        phaseOf_starting ⟨hnext, Nat.lt_succ_self w.nextSessionId⟩]
    · have hphase : phaseOf (w.nextSessionId + 1) (.starting w.nextSessionId) i =
          phaseOf w.nextSessionId .serviceEvents i := by
        simp only [phaseOf, At.starting.injEq, reduceCtorEq]
        split_ifs <;> first | rfl | omega
      refine .inl ?_
      simp [view, hphase, World.accept, pcOf, hpc, hi]
  | @startPost j hpc =>
    by_cases hi : i = j
    · subst hi
      have hb := h.pc
      rw [hpc] at hb
      refine .inr ⟨.main, ?_⟩
      simp [SessionRun.step, SessionRun.mainStep, view, pcOf, hpc, phaseOf_starting hb,
        phaseOf_started .serviceEvents hb (by simp)]
    · refine .inl ?_
      have hne : j ≠ i := fun h => hi h.symm
      simp [view, pcOf, phaseOf, hpc, hne, Function.update_of_ne hi]
  | @event j e rest hpc he =>
    by_cases hi : i = j
    · subst hi
      have hb := h.events (i, e) (by simp [he])
      have hphase := phaseOf_started _ hb (hpc.not_starting i)
      refine .inr ⟨.main, ?_⟩
      simp only [SessionRun.step, SessionRun.mainStep, SessionRun.handleEvent, view, hphase,
        hpc.pcOf i, he, eventsOf_cons_self, if_true, World.handleSessionEvent]
      cases e with
      | close => simp [hpc.pcOf i, hphase]
      | receive =>
        cases hr : w.running with
        | true => simp [pcOf, phaseOf_started (.receiving i _) hb (by simp)]
        | false => simp [hpc.pcOf i, hphase]
    · have hne : j ≠ i := fun h => hi h.symm
      refine .inl ?_
      simp only [view, he, eventsOf_cons_ne rest e hne, World.handleSessionEvent]
      cases e with
      | close => simp [hi, eventsOf_cons_ne [] _ hne]
      | receive =>
        cases hr : w.running with
        | true =>
          have hphase : phaseOf w.nextSessionId (.receiving j
              (SessionRun.findSession .WorldServer (j ∈ w.manager))) i =
              phaseOf w.nextSessionId w.pc i :=
            phaseOf_congr (iff_of_false (by simp) (hpc.not_starting i))
          have hout : pcOf (.receiving j
              (SessionRun.findSession .WorldServer (j ∈ w.manager))) i = .outside := by
            simp [pcOf, hne]
          simp [hphase, hout, hpc.pcOf i, eventsOf_cons_ne [] _ hne]
        | false => simp [eventsOf_cons_ne [] _ hne]
  | @drain j pc d hpc hd =>
    by_cases hi : i = j
    · subst hi
      obtain ⟨hb, hout⟩ : Attends w.nextSessionId (.receiving i pc) := hpc ▸ h.pc
      have hphase := phaseOf_started w.pc hb (by simp [hpc])
      refine .inr ⟨.main, ?_⟩
      have hd' : Drain.step build pb i ⟨pcOf w.pc i, w.session i, w.messageQueue⟩ = d := by
        simp [hd, hpc, pcOf]
      have hpc' : pcOf (if d.pc = .outside then .sessionEvents else .receiving i d.pc) i = d.pc ∧
          phaseOf w.nextSessionId
            (if d.pc = .outside then .sessionEvents else .receiving i d.pc) i = .started := by
        split_ifs with hd
        · exact ⟨by simp [pcOf, hd], phaseOf_started _ hb (by simp)⟩
        · exact ⟨by simp [pcOf], phaseOf_started _ hb (by simp)⟩
      have hin : pcOf w.pc i ≠ .outside := by simpa [hpc, pcOf] using hout
      simp [SessionRun.step, SessionRun.mainStep, view, hphase, hin, hd', hpc']
    · have hne : j ≠ i := fun h => hi h.symm
      refine .inr ⟨.elsewhere d.queue, ?_⟩
      have hpc' : pcOf (if d.pc = .outside then .sessionEvents else .receiving j d.pc) i =
          .outside ∧ phaseOf w.nextSessionId
            (if d.pc = .outside then .sessionEvents else .receiving j d.pc) i =
            phaseOf w.nextSessionId (.receiving j pc) i := by
        split_ifs
        · exact ⟨rfl, phaseOf_congr (by simp)⟩
        · exact ⟨by simp [pcOf, hne], phaseOf_congr (by simp)⟩
      have hout : pcOf (.receiving j pc) i = .outside := by simp [pcOf, hne]
      simp [SessionRun.step, view, hpc, hout, hpc', Function.update_of_ne hi]
  | chat hpc hq ht hm ho hs =>
    obtain ⟨sendBuffers, chunk, -, rfl⟩ := handleChat_spec hs
    exact .inl (by simp [view, pcOf, phaseOf, hpc])
  | @post chunk j rest hpc =>
    by_cases hi : i = j
    · subst hi
      have hb : Attends w.nextSessionId (.posting chunk i rest) := hpc ▸ h.pc
      have hphase := phaseOf_started (.posting chunk i rest) hb (by simp)
      refine .inr ⟨.sendPost chunk, ?_⟩
      simp [SessionRun.step, view, pcOf, hpc, hphase, phaseOf_started (.broadcast chunk rest) hb]
    · exact .inl (by simp [view, pcOf, phaseOf, hpc, Function.update_of_ne hi])
  | @close j rest hpc =>
    by_cases hi : i = j
    · subst hi
      exact .inr ⟨.io .stop, by
        simp [SessionRun.step, view, pcOf, phaseOf, hpc, World.setSession, Session.ioStep]⟩
    · exact .inl (by simp [view, pcOf, phaseOf, hpc, World.setSession, Function.update_of_ne hi])
  | @io j a s pushed hj ha hio =>
    by_cases hi : i = j
    · subst hi
      exact .inr ⟨.io a, by simp [SessionRun.step, view, phaseOf, World.setSession, hio]⟩
    · refine .inl ?_
      have hne : j ≠ i := fun h => hi h.symm
      simp [view, phaseOf, World.setSession, Function.update_of_ne hi, eventsOf_map_ne hne]
  | find hpc | pass hpc | send hpc | refuse hpc => exact .inl (by simp [view, pcOf, phaseOf, hpc])
  | noHandler hpc | finish hpc =>
    exact .inr ⟨.elsewhere w.messageQueue.tail, by
      simp [SessionRun.step, view, pcOf, phaseOf, hpc, World.popMessage]
      rfl⟩

/-- What every reachable state of the server is: each session by itself is in a reachable state
of a session with its owner. -/
theorem reachable_view (h : Reachable (step build pb) init w) :
    Bounded w ∧
      ∀ i, Reachable (SessionRun.step build pb i .WorldServer) SessionRun.init (view w i) := by
  refine h.invariant (I := fun w => Bounded w ∧
    ∀ i, Reachable (SessionRun.step build pb i .WorldServer) SessionRun.init (view w i)) ?_ ?_
  · rintro w a w' ⟨hb, hview⟩ hs
    refine ⟨bounded_step hb (step_spec hs), fun i => ?_⟩
    rcases view_step hb (step_spec hs) i with heq | ⟨b, hb⟩
    · exact heq ▸ hview i
    · exact (hview i).next hb
  · exact ⟨bounded_init, fun i => view_init i ▸ .refl _⟩

/-- **A running session is in the manager**, and was accepted. -/
theorem mem_manager_of_running (h : Reachable (step build pb) init w) {i : ℕ}
    (hr : (w.session i).running = true) : i ∈ w.manager ∧ 1 ≤ i ∧ i < w.nextSessionId := by
  have hlife := SessionRun.life_reachable ((reachable_view h).2 i)
  obtain ⟨hphase, hheld⟩ := hlife.held_of_running hr
  refine ⟨of_decide_eq_true hheld, ?_⟩
  by_contra hlt
  exact hphase (if_pos (by omega))

end ByteborneWorld.WorldRun
