import ByteborneWorld.CloseRun
import ByteborneWorld.NetRun
import ByteborneWorld.ResponseSize

/-!
What keeps the server going. Between clients that send chat messages of a moderate length, the
main thread can always make its next step, in what pieces and at what times the messages come,
and no read is ever armed without room.
-/

namespace ByteborneWorld.NeverStuck

open ByteborneWorld.ChatProto ByteborneWorld.PacketModel ByteborneWorld.SendModel
open ByteborneWorld.RecvModel (ReceiveBuffer)
open ByteborneWorld.SessionModel ByteborneWorld.DrainRun ByteborneWorld.RoomRun
open ByteborneWorld.WorldModel ByteborneWorld.WorldRun ByteborneWorld.BroadcastRun
open ByteborneWorld.NetRun ByteborneWorld.LinkRun ByteborneWorld.InboundRun
open ByteborneWorld.CloseRun ByteborneWorld.ResponseSize ByteborneWorld.Lts

variable {κ κ' : Type*} {build : Build} {pb : Protobuf} {w w' : World}

/-! ### Packets of a moderate size -/

/-- A packet that a send buffer can hold. -/
def Small (p : Packet pb) : Prop := p.bytes.length ≤ RecvModel.DefaultSize

lemma size_of_prefix {ps : List (Packet pb)} {bs : List UInt8} (h : bs <+: flat ps)
    (hh : headerSize ≤ bs.length) : ∃ p ∈ ps, (PacketView.of bs).size = p.bytes.length := by
  cases ps with
  | nil =>
    have hnil : bs = [] := List.prefix_nil.mp (by simpa [flat] using h)
    rw [hnil] at hh
    simp [headerSize] at hh
  | cons p ps =>
    obtain ⟨rest, hrest⟩ := h
    have hsize : getLe16 (bs ++ rest) 0 = getLe16 bs 0 :=
      getLe16_append (by unfold headerSize at hh; omega)
    refine ⟨p, by simp, ?_⟩
    rw [hrest, flat_cons, p.getLe16_bytes] at hsize
    exact hsize.symm

section Half

variable {bytes : κ → List UInt8} {sessionId : ℕ} {ps : List (Packet pb)}
  {sender : SessionRun.Sys κ} {ns : List (WriteRun.Note κ)} {progress : ℕ} {wire : List UInt8}
  {receiver : SessionRun.Sys κ'} {entries : MessageQueue}

/-- **Small packets end inside the receive buffer**, whatever part of them has come. -/
lemma frontInside_of_small
    (h : Half build bytes sessionId ps sender ns progress wire receiver entries)
    (hps : ∀ p ∈ ps, Small p) : FrontInside receiver.main.session.receiveBuffer := by
  intro hh
  obtain ⟨received, hout, hin⟩ := h.stream
  obtain ⟨⟨k, again, hacc, -⟩, -, -⟩ := hin.counted
  have hread := (List.prefix_append received wire).trans (h.received_prefix hout)
  have hpre : receiver.main.session.receiveBuffer.unread <+: flat (ps.drop k) :=
    (unread_prefix_incoming _).trans (hacc.rest_prefix hread)
  rw [← ReceiveBuffer.unread_length] at hh
  obtain ⟨p, hp, hsize⟩ := size_of_prefix hpre hh
  have hsmall := hps p (List.mem_of_mem_drop hp)
  refine frontInside_of_size_le h.sized ?_ (by rwa [← ReceiveBuffer.unread_length])
  rw [hsize]
  exact hsmall

end Half

/-! ### The events of a session -/

lemma events_processSessionEvent (next : At) :
    (w.processSessionEvent next).history.handled ++ (w.processSessionEvent next).sessionEvents =
      w.history.handled ++ w.sessionEvents := by
  unfold World.processSessionEvent
  split
  · rfl
  · rename_i i e rest he
    rw [he]
    cases e with
    | close => simp [World.handleSessionEvent]
    | receive =>
      simp only [World.handleSessionEvent]
      split_ifs <;> simp

/-- **The main thread pushes no events.** -/
theorem events_mainStep {nowMs : Int64} {order : List ℕ}
    (h : w.mainStep build pb nowMs order = some w') :
    w'.history.handled ++ w'.sessionEvents = w.history.handled ++ w.sessionEvents := by
  unfold World.mainStep at h
  split at h
  · split_ifs at h <;> cases h <;> rfl
  · split at h <;> cases h
    · rfl
    · rename_i e rest _
      cases e with
      | close => rfl
      | accept =>
        simp only [World.handleServiceEvent]
        split_ifs <;> rfl
  · cases h
    rfl
  · cases h
    exact events_processSessionEvent _
  · cases h
    rfl
  · split at h
    · unfold World.dispatch at h
      split at h
      · split at h
        · split_ifs at h
          obtain ⟨sendBuffers, chunk, -, rfl⟩ := handleChat_spec h
          rfl
        · cases h
      · split_ifs at h
        cases h
        rfl
    · cases h
      rfl
  · cases h
    rfl
  · split_ifs at h <;> cases h <;> rfl
  · split_ifs at h <;> cases h <;> rfl
  · cases h
    rfl
  · cases h
    rfl
  · cases h
    rfl
  · cases h
    rfl
  · cases h
    exact events_processSessionEvent _
  · cases h

lemma history_view (w : World) (i : ℕ) :
    (view w i).history = eventsOf i (w.history.handled ++ w.sessionEvents) :=
  (eventsOf_append i _ _).symm

lemma closesClean_of_history {sessionId : ℕ} {owner : SessionRun.Owner}
    {s s' : SessionRun.Sys κ} {a : SessionRun.Act κ}
    (hs : SessionRun.step build pb sessionId owner s a = some s') (h : s'.history = s.history) :
    ClosesClean s a := by
  cases a with
  | io a =>
    cases a with
    | strand errors =>
      intro hhead
      exfalso
      obtain ⟨⟨session, pushed⟩, hio, rfl⟩ := Option.map_eq_some_iff.mp hs
      obtain ⟨rest, hstrand⟩ := List.head?_eq_some_iff.mp hhead
      simp only [Session.ioStep, Session.runStrand, hstrand, Session.exec, Option.some.injEq,
        Prod.mk.injEq] at hio
      obtain ⟨-, rfl⟩ := hio
      simp [SessionRun.Sys.history] at h
    | stop | send | post | readDone | readQueue | writeDone | writeQueue => trivial
  | start | main | elsewhere | sendPost | ownerStop => trivial

/-- When a session is closed, no read that completed well waits for its handler. -/
def Tidy (w : World) : WorldModel.Act → Prop
  | .io i (.strand _) =>
    (w.session i).strand.head? = some .close → NoneWaiting (w.session i)
  | _ => True

/-- **What a step of the server is to one session**: a step of the session that closes it clean
if the server does, or none. -/
lemma view_next {a : WorldModel.Act} (hb : Bounded w) (ha : Tidy w a)
    (hs : WorldModel.step build pb w a = some w') (i : ℕ) :
    view w' i = view w i ∨
      ∃ b, SessionRun.step build pb i .WorldServer (view w i) b = some (view w' i) ∧
        ClosesClean (view w i) b := by
  have quiet (he : w'.history.handled ++ w'.sessionEvents =
      w.history.handled ++ w.sessionEvents) : view w' i = view w i ∨
        ∃ b, SessionRun.step build pb i .WorldServer (view w i) b = some (view w' i) ∧
          ClosesClean (view w i) b := by
    refine (view_step hb (step_spec hs) i).imp_right fun ⟨b, hb⟩ => ⟨b, hb, ?_⟩
    exact closesClean_of_history hb (by rw [history_view, history_view, he])
  cases a with
  | main nowMs order => exact quiet (events_mainStep hs)
  | service e =>
    cases hs
    exact quiet rfl
  | stop =>
    cases hs
    exact quiet rfl
  | io j b =>
    obtain ⟨hself, hbeside, -⟩ := view_ioStep build pb (i := i) hs
    by_cases hi : i = j
    · subst hi
      refine .inr ⟨.io b, hself rfl, ?_⟩
      cases b with
      | strand errors => exact ha
      | stop | send | post | readDone | readQueue | writeDone | writeQueue => trivial
    · exact .inl (hbeside hi)

/-! ### The message queue and the send buffers of the server -/

lemma closed_serializeToSendBuffer {g g' : SendBufferManager} {m : Message} {chunk : Chunk}
    (h : serializeToSendBuffer pb g m = some (g', chunk)) : g'.currentBuffer.closed = true := by
  unfold serializeToSendBuffer at h
  simp only at h
  split_ifs at h
  cases h
  simp [SendBufferManager.currentBuffer, SendBuffer.close]

/-- Only sessions that were created have entries, and no chunk is open. -/
structure Prepared (w : World) : Prop where
  queued : ∀ e ∈ w.history.popped ++ w.messageQueue, e.sessionId < w.nextSessionId
  closed : w.sendBuffers.currentBuffer.closed = true

lemma prepared_init : Prepared WorldModel.init where
  queued e he := by simp [WorldModel.init] at he
  closed := rfl

lemma Prepared.of_eq (h : Prepared w) (hn : w.nextSessionId ≤ w'.nextSessionId)
    (hq : w'.history.popped ++ w'.messageQueue = w.history.popped ++ w.messageQueue)
    (hb : w'.sendBuffers = w.sendBuffers) : Prepared w' where
  queued e he := lt_of_lt_of_le (h.queued e (hq ▸ he)) hn
  closed := hb ▸ h.closed

lemma Prepared.step (h : Prepared w) (hb : Bounded w) (hs : Step build pb w w') : Prepared w' := by
  cases hs with
  | plain | startPost | find | pass | send | refuse | post | close | io =>
    exact h.of_eq (le_refl _) rfl rfl
  | accept hpc hr => exact h.of_eq (Nat.le_succ _) rfl rfl
  | @event i e rest hpc he =>
    cases e with
    | close => exact h.of_eq (le_refl _) rfl rfl
    | receive =>
      unfold World.handleSessionEvent
      split_ifs <;> exact h.of_eq (le_refl _) rfl rfl
  | @drain i pc d hpc hd =>
    obtain ⟨⟨-, hi⟩, -⟩ : Attends w.nextSessionId (.receiving i pc) := hpc ▸ hb.pc
    obtain ⟨new, hq, hnew⟩ := drain_pushes build pb i ⟨pc, w.session i, w.messageQueue⟩
    rw [← hd] at hq
    refine ⟨fun e he => ?_, h.closed⟩
    rw [hq, ← List.append_assoc, List.mem_append] at he
    rcases he with he | he
    · exact h.queued e he
    · exact (hnew e he).symm ▸ hi
  | chat hpc hq ht hm ho hs =>
    obtain ⟨sendBuffers, chunk, hser, rfl⟩ := handleChat_spec hs
    exact ⟨h.queued, closed_serializeToSendBuffer hser⟩
  | noHandler | finish => exact h.of_eq (le_refl _) popMessage_arrived.symm rfl

/-! ### The system -/

section Net

variable {pk : κ → Packet pb} {n n' : Net κ}

/-- What keeps the server and its clients going. -/
structure Going (build : Build) (pk : κ → Packet pb) (n : Net κ) : Prop
    extends NetInv build pk n, Prepared n.world where
  rooms : ∀ i, Roomy (view n.world i)
  clientRooms : ∀ i, Roomy (n.client i)
  ordered : ∀ i, Ordered (view n.world i)

lemma going_init : Going build pk (Net.init : Net κ) where
  toNetInv := netInv_init
  toPrepared := prepared_init
  rooms i := by
    rw [show (Net.init : Net κ).world = WorldModel.init from rfl, view_init]
    exact roomy_init
  clientRooms _ := roomy_init
  ordered i := by
    rw [show (Net.init : Net κ).world = WorldModel.init from rfl, view_init]
    exact ordered_init

/-- **Every packet ends inside the buffer that it is read into**, in both directions. -/
lemma NetInv.frontInside (h : NetInv build pk n) (hpk : ∀ chunk, Small (pk chunk)) (i : ℕ) :
    FrontInside (n.world.session i).receiveBuffer ∧
      FrontInside (n.client i).main.session.receiveBuffer := by
  constructor
  · refine frontInside_of_small (h.up i) fun p hp => ?_
    obtain ⟨chunk, -, rfl⟩ := List.mem_map.mp hp
    exact hpk chunk
  · obtain ⟨ns, ps, hns, hhalf⟩ := h.down i
    have hinv := BroadcastRun.inv_reachable h.world
    refine frontInside_of_small hhalf fun p hp => ?_
    have hbytes : p.bytes ∈ (WriteRun.puts ns).map n.world.sendBuffers.bytes :=
      hhalf.packets ▸ List.mem_map_of_mem hp
    obtain ⟨chunk, hc, heq⟩ := List.mem_map.mp hbytes
    rw [Small, ← heq]
    exact bytes_length_le hinv.recorded (put_subset hinv i chunk (hns ▸ hc))

/-- The server of a connected system closes its sessions clean. -/
def TidyNet (n : Net κ) : NetAct κ → Prop
  | .world a => Tidy n.world a
  | _ => True

lemma world_step {a : WorldModel.Act} (hs : NetRun.step build pb pk n (.world a) = some n') :
    WorldModel.step build pb n.world a = some n'.world ∧ n'.client = n.client := by
  cases a with
  | io i b =>
    simp only [NetRun.step, Net.ioStep] at hs
    split_ifs at hs
    obtain ⟨w, hw, rfl⟩ := Option.map_eq_some_iff.mp hs
    exact ⟨hw, rfl⟩
  | main | service | stop =>
    simp only [NetRun.step] at hs
    obtain ⟨w, hw, rfl⟩ := Option.map_eq_some_iff.mp hs
    exact ⟨hw, rfl⟩

theorem going_step (hpb : pb.RoundTrips) (hpk : ∀ chunk, Small (pk chunk)) (n : Net κ)
    (a : NetAct κ) (n' : Net κ) (h : Going build pk n) (ha : TidyNet n a)
    (hs : NetRun.step build pb pk n a = some n') : Going build pk n' := by
  have hnet := netInv_step hpb n a n' h.toNetInv hs
  have hfront := NetInv.frontInside h.toNetInv hpk
  cases a with
  | world a =>
    obtain ⟨hw, hc⟩ := world_step hs
    obtain ⟨hb, hview⟩ := reachable_view h.world
    have each (i : ℕ) : Roomy (view n'.world i) ∧ Ordered (view n'.world i) := by
      rcases view_next hb ha hw i with heq | ⟨b, hstep, hclean⟩
      · exact heq.symm ▸ ⟨h.rooms i, h.ordered i⟩
      · have harms : ArmsInside (view n.world i) b := by
          cases b <;> first | trivial | exact fun _ _ _ => (hfront i).1
        have hlife := SessionRun.life_reachable (hview i)
        exact ⟨roomy_step _ b _ (h.rooms i) harms hstep,
          (ordered_step _ b _ ⟨⟨(h.rooms i).toInv, hlife⟩, h.ordered i⟩ hclean hstep).2⟩
    exact ⟨hnet, h.toPrepared.step hb (step_spec hw), fun i => (each i).1,
      hc ▸ h.clientRooms, fun i => (each i).2⟩
  | client j b =>
    simp only [NetRun.step, Net.clientStep] at hs
    split_ifs at hs
    obtain ⟨s, hstep, rfl⟩ := Option.map_eq_some_iff.mp hs
    have harms : ArmsInside (n.client j) b := by
      cases b <;> first | trivial | exact fun _ _ _ => (hfront j).2
    have hroomy := roomy_step _ b _ (h.clientRooms j) harms hstep
    refine ⟨hnet, h.toPrepared, h.rooms, ?_, h.ordered⟩
    exact (Function.forall_update_iff n.client fun _ s => Roomy s).mpr
      ⟨hroomy, fun i _ => h.clientRooms i⟩
  | down | up =>
    obtain ⟨bs, -, rfl⟩ := Option.map_eq_some_iff.mp hs
    exact ⟨hnet, h.toPrepared, h.rooms, h.clientRooms, h.ordered⟩

/-! ### The next step of the main thread -/

lemma mem_sent_of_inOrder {sent entries : MessageQueue} {running : Bool}
    (h : InOrder sent entries running) {e : MessageQueueEntry} (he : e ∈ entries) : e ∈ sent := by
  obtain ⟨k, again, -, rfl, hagain⟩ := h.stopped
  rcases List.mem_append.mp he with he | he
  · exact List.mem_of_mem_take he
  · exact List.mem_of_getElem? (hagain e he)

lemma exists_packet_of_mem (hpb : pb.RoundTrips) (h : NetInv build pk n) {e : MessageQueueEntry}
    (he : e ∈ n.world.messageQueue) : ∃ chunk, e = (pk chunk).entry e.sessionId := by
  have harrived : e ∈ arrivedFrom n.world e.sessionId :=
    List.mem_filter.mpr ⟨List.mem_append_right _ he, by simp⟩
  have hasked := mem_sent_of_inOrder ((h.endToEnd hpb).up e.sessionId) harrived
  obtain ⟨chunk, -, heq⟩ := List.mem_map.mp hasked
  exact ⟨chunk, heq.symm⟩

end Net

/-- A chat message that a client can send, and the response to which a send buffer can hold. -/
structure Moderate (message : C2SChat) : Prop where
  legal : Legal message
  content : message.content.length ≤ 4016

/-- The packets of the clients are those of moderate chat messages. -/
def Chats (pk : κ → Packet proto3) : Prop :=
  ∀ chunk, ∃ message, Moderate message ∧ (pk chunk).bytes = packet proto3 (.c2sChat message)

section Chats

variable {pk : κ → Packet proto3} {n : Net κ}

lemma Chats.small (hpk : Chats pk) (chunk : κ) : Small (pk chunk) := by
  obtain ⟨message, hm, hbytes⟩ := hpk chunk
  rw [Small, hbytes, packet_length]
  exact hm.legal

lemma Moderate.responseFits {message : C2SChat} (hm : Moderate message) (h : Prepared w)
    {sessionId : ℕ} (hid : sessionId < 2 ^ 64) (nowMs : Int64) :
    ResponseFits w.sendBuffers (w.room.respond sessionId message nowMs).2 := by
  have hle := copied_add_added_le w.room.nextMessageId nowMs hid hm.content
  have hheader : headerSize ≤ SendModel.DefaultSize := by decide
  have hsize := byteSizeLong_respond w.room nowMs hid hm.legal
  refine ⟨⟨SendBufferManager.closed_select _ h.closed, ?_⟩, ?_⟩
  · rw [SendBufferManager.size_le_free_select, hsize]
    omega
  · rw [Ne, serializeToSendBuffer_eq_none, hsize]
    omega

/-- The response to an entry can be made. -/
def Answerable (w : World) (e : MessageQueueEntry) : Prop :=
  e.messageType = .c2sChat ∧ ∃ message, e.message = .c2sChat message ∧
    ∀ nowMs, ResponseFits w.sendBuffers (w.room.respond e.sessionId message nowMs).2

/-- **Every entry can be answered.** -/
lemma Going.answerable (h : Going build pk n) (hpk : Chats pk)
    (hids : n.world.nextSessionId ≤ 2 ^ 64) :
    ∀ e ∈ n.world.messageQueue, Answerable n.world e := by
  intro e he
  have hid : e.sessionId < 2 ^ 64 :=
    lt_of_lt_of_le (h.queued e (List.mem_append_right _ he)) hids
  obtain ⟨chunk, heq⟩ := exists_packet_of_mem proto3_roundTrips h.toNetInv he
  obtain ⟨message, hm, hbytes⟩ := hpk chunk
  rw [entry_of_bytes proto3_roundTrips (pk chunk) hbytes] at heq
  rw [heq]
  exact ⟨rfl, message, rfl, fun nowMs => hm.responseFits h.toPrepared hid nowMs⟩

/-- **The main thread can go on** when the entries can be answered. -/
lemma exists_mainStep (hq : ∀ e ∈ w.messageQueue, Answerable w e) (hpc : w.pc ≠ .closed) :
    ∃ order, ∀ nowMs, (w.mainStep build proto3 nowMs order).isSome := by
  cases hat : w.pc with
  | closed => exact absurd hat hpc
  | loop =>
    refine ⟨w.manager.toList, fun nowMs => ?_⟩
    have horder : w.manager.toList.Nodup ∧ w.manager.toList.toFinset = w.manager :=
      ⟨w.manager.nodup_toList, w.manager.toList_toFinset⟩
    simp only [World.mainStep, hat, if_pos horder]
    split_ifs <;> rfl
  | messages =>
    refine ⟨w.room.activeSessions.toList, fun nowMs => ?_⟩
    have horder : w.room.activeSessions.toList.Nodup ∧
        w.room.activeSessions.toList.toFinset = w.room.activeSessions :=
      ⟨w.room.activeSessions.nodup_toList, w.room.activeSessions.toList_toFinset⟩
    simp only [World.mainStep, hat]
    split
    · rename_i entry rest _ hqueue
      obtain ⟨htype, message, hmessage, hfits⟩ := hq entry (by rw [hqueue]; exact .head _)
      obtain ⟨-, hsome⟩ := hfits nowMs
      simp only [World.dispatch, htype, hmessage, if_pos horder, World.handleChat,
        Option.isSome_map]
      exact Option.isSome_iff_ne_none.mpr hsome
    · rfl
  | serviceEvents =>
    refine ⟨[], fun nowMs => ?_⟩
    simp only [World.mainStep, hat]
    split <;> rfl
  | broadcast chunk rest =>
    refine ⟨[], fun nowMs => ?_⟩
    cases rest with
    | nil => simp only [World.mainStep, hat, Option.isSome_some]
    | cons i rest =>
      simp only [World.mainStep, hat]
      split_ifs <;> rfl
  | sending =>
    refine ⟨[], fun nowMs => ?_⟩
    simp only [World.mainStep, hat]
    split_ifs <;> rfl
  | closing rest =>
    refine ⟨[], fun nowMs => ?_⟩
    cases rest <;> simp only [World.mainStep, hat, Option.isSome_some]
  | starting | sessionEvents | receiving | posting | waiting | waitEvents =>
    refine ⟨[], fun nowMs => ?_⟩
    simp only [World.mainStep, hat, Option.isSome_some]

/-- Nothing is in the way of the server and its clients. -/
structure Unhindered (build : Build) (n : Net κ) : Prop where
  moves : n.world.pc ≠ .closed →
    ∃ order, ∀ nowMs, (n.world.mainStep build proto3 nowMs order).isSome
  receiving : ∀ i pc, n.world.pc = .receiving i pc → pc ≠ .nullSession ∧ ∀ f, pc ≠ .fault f
  answerable : ∀ e ∈ n.world.messageQueue, Answerable n.world e
  room : ∀ i, Arming (view n.world i) → 0 < (n.world.session i).receiveBuffer.getUnwrittenSize
  clientRoom : ∀ i, Arming (n.client i) →
    0 < (n.client i).main.session.receiveBuffer.getUnwrittenSize

/-- **The server is never stuck.** In every run of the server between clients that send moderate
chat messages, with any pieces, errors and stops, in which no session is closed while a read
that completed well waits for its handler: the main thread can make its next step until it is
closed, no matter what the clock says; it finds the session of every event, no push and no pop
goes wrong, every response can be made, and each read that is armed, also at a client, has
room. In a debug build that is until an assertion of an I/O thread fails. -/
theorem never_stuck (hpk : Chats pk) {as : List (NetAct κ)}
    (h : run (NetRun.step build proto3 pk) Net.init as = some n)
    (hids : n.world.nextSessionId ≤ 2 ^ 64)
    (htidy : Along (NetRun.step build proto3 pk) TidyNet Net.init as) : Unhindered build n := by
  have hgoing := run_invariant_of_along (going_step proto3_roundTrips hpk.small) going_init htidy h
  have hanswer := hgoing.answerable hpk hids
  refine ⟨exists_mainStep hanswer, fun i pc hpc => ?_, hanswer, fun i => (hgoing.rooms i).arming,
    fun i => (hgoing.clientRooms i).arming⟩
  have hview : (view n.world i).main.pc = pc := by simp [view, pcOf, hpc]
  refine ⟨hview ▸ (hgoing.ordered i).pc, fun f hf => ?_⟩
  obtain ⟨-, -, p, hp, hlong⟩ := (hgoing.up i).fault (hview.trans hf)
  obtain ⟨chunk, -, rfl⟩ := List.mem_map.mp hp
  exact absurd hlong (not_lt.mpr (hpk.small chunk))

end Chats

/-! ### A chat message and its response -/

/-- No session is closed by the step. -/
def closesNone (n : Net κ) : NetAct κ → Bool
  | .world (.io i (.strand _)) => !((n.world.session i).strand.head?.any SessionRun.isClose)
  | _ => true

lemma tidyNet_of_closesNone {n : Net κ} {a : NetAct κ} (h : closesNone n a = true) :
    TidyNet n a := by
  cases a with
  | world a =>
    cases a with
    | io i b =>
      cases b with
      | strand errors =>
        intro hhead
        simp [closesNone, hhead, SessionRun.isClose] at h
      | stop | send | post | readDone | readQueue | writeDone | writeQueue => trivial
    | main | service | stop => trivial
  | client | down | up => trivial

lemma chats_emptyChat : Chats fun _ : Unit => StopRun.emptyChat := fun _ =>
  ⟨.new, ⟨by unfold Legal; decide, Nat.zero_le _⟩, rfl⟩

/-- The server answers a chat message, and is not stuck. -/
theorem never_stuck_chatAndResponse : ∃ n,
    run (NetRun.step .Release proto3 fun _ => StopRun.emptyChat) Net.init chatAndResponse =
      some n ∧ (n.delivered 1).length = 1 ∧ Unhindered .Release n := by
  have hrun : ((run (NetRun.step .Release proto3 fun _ => StopRun.emptyChat) Net.init
      chatAndResponse).map fun n => ((n.delivered 1).length, n.world.nextSessionId)) =
      some (1, 2) := by decide +kernel
  obtain ⟨n, hn, heq⟩ := Option.map_eq_some_iff.mp hrun
  simp only [Prod.mk.injEq] at heq
  have hnone : Along (NetRun.step .Release proto3 fun _ => StopRun.emptyChat)
      (fun n a => closesNone n a = true) Net.init chatAndResponse := by decide +kernel
  exact ⟨n, hn, heq.1, never_stuck chats_emptyChat hn (by rw [heq.2]; norm_num)
    (hnone.mono_of_invariant (I := fun _ => True) (fun _ _ _ _ _ _ => trivial)
      (fun _ _ _ => tidyNet_of_closesNone) trivial)⟩

end ByteborneWorld.NeverStuck
