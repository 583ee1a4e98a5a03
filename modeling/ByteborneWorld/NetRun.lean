import ByteborneWorld.BroadcastRun
import ByteborneWorld.LinkRun

/-!
The server and its clients, with a connection between each session of the server and the client
at its other end. Both directions of a connection carry packets, the chat messages to the
server and the responses back.
-/

namespace ByteborneWorld.NetRun

open ByteborneWorld.ChatProto ByteborneWorld.PacketModel ByteborneWorld.SendModel
open ByteborneWorld.SessionModel ByteborneWorld.WorldModel ByteborneWorld.WorldRun
open ByteborneWorld.BroadcastRun ByteborneWorld.Lts
open ByteborneWorld.InboundRun (Overlong readBy readOf pushed)
open ByteborneWorld.OutboundRun ByteborneWorld.LinkRun
open ByteborneWorld.WriteRun (Note notes puts)

variable {κ : Type*} {build : Build} {pb : Protobuf} {w w' : World}

/-! ### The main thread completes no operation -/

/-- The outstanding operations and the send queue are as they were. -/
structure Untouched (s s' : Session κ) : Prop where
  reads : s'.reads = s.reads
  writes : s'.writes = s.writes
  sendQueue : s'.sendQueue = s.sendQueue

namespace Untouched

lemma refl (s : Session κ) : Untouched s s := ⟨rfl, rfl, rfl⟩

lemma post (s : Session κ) (h : Handler κ) : Untouched s (s.post h) := ⟨rfl, rfl, rfl⟩

lemma start (s : Session κ) : Untouched s s.start.1 := by
  unfold Session.start
  split_ifs <;> exact ⟨rfl, rfl, rfl⟩

lemma stop (s : Session κ) : Untouched s (s.stop.1.aboutTo s.stop.2) := by
  unfold Session.stop Session.aboutTo
  split_ifs <;> exact ⟨rfl, rfl, rfl⟩

lemma drain (sessionId : ℕ) (d : Drain κ) :
    Untouched d.session (d.step build pb sessionId).session := by
  rcases SessionRun.drain_cases build pb sessionId d with
    ⟨hs, -⟩ | ⟨-, b, hs⟩ | ⟨-, -, hs⟩ <;> rw [hs]
  · exact refl _
  · exact ⟨rfl, rfl, rfl⟩
  · exact post _ _

lemma update {j : ℕ} {s : Session Chunk} (h : Untouched (w.session j) s) (i : ℕ) :
    Untouched (w.session i) (Function.update w.session j s i) :=
  (Function.forall_update_iff w.session fun i s' => Untouched (w.session i) s').mpr
    ⟨h, fun _ _ => refl _⟩ i

end Untouched

lemma session_processSessionEvent (next : At) :
    (w.processSessionEvent next).session = w.session := by
  unfold World.processSessionEvent
  split
  · rfl
  · rename_i i e rest _
    cases e with
    | close => rfl
    | receive =>
      simp only [World.handleSessionEvent]
      split_ifs <;> rfl

/-- **The main thread completes no read and no write**, and leaves the send queues alone. -/
theorem mainStep_untouched {nowMs : Int64} {order : List ℕ}
    (h : w.mainStep build pb nowMs order = some w') (i : ℕ) :
    Untouched (w.session i) (w'.session i) := by
  have same (hs : w'.session = w.session) : Untouched (w.session i) (w'.session i) := by
    rw [hs]
    exact .refl _
  simp only [World.mainStep] at h
  cases hpc : w.pc with
  | loop =>
    simp only [hpc] at h
    split_ifs at h <;> cases h <;> exact .refl _
  | serviceEvents =>
    simp only [hpc] at h
    split at h <;> cases h
    · exact .refl _
    · rename_i e rest _
      cases e with
      | close => exact .refl _
      | accept =>
        simp only [World.handleServiceEvent]
        split_ifs
        · exact Untouched.update (Untouched.start _) i
        · exact .refl _
  | starting j =>
    simp only [hpc, Option.some.injEq] at h
    subst h
    exact Untouched.update (Untouched.post _ _) i
  | sessionEvents | waitEvents =>
    simp only [hpc, Option.some.injEq] at h
    subst h
    exact same (session_processSessionEvent _)
  | receiving j pc =>
    simp only [hpc, Option.some.injEq] at h
    subst h
    exact Untouched.update (Untouched.drain j ⟨pc, w.session j, w.messageQueue⟩) i
  | messages =>
    simp only [hpc] at h
    split at h
    · unfold World.dispatch at h
      split at h
      · split at h
        · split_ifs at h
          obtain ⟨sendBuffers, chunk, -, rfl⟩ := handleChat_spec h
          exact .refl _
        · cases h
      · split_ifs at h
        cases h
        exact .refl _
    · cases h
      exact .refl _
  | broadcast chunk rest =>
    cases rest with
    | nil =>
      simp only [hpc, Option.some.injEq] at h
      subst h
      exact .refl _
    | cons j rest =>
      simp only [hpc] at h
      split_ifs at h <;> cases h <;> exact .refl _
  | sending chunk j rest =>
    simp only [hpc] at h
    split_ifs at h <;> cases h <;> exact .refl _
  | posting chunk j rest =>
    simp only [hpc, Option.some.injEq] at h
    subst h
    exact Untouched.update (Untouched.post _ _) i
  | closing order =>
    cases order with
    | nil =>
      simp only [hpc, Option.some.injEq] at h
      subst h
      exact .refl _
    | cons j rest =>
      simp only [hpc, Option.some.injEq] at h
      subst h
      exact Untouched.update (Untouched.stop _) i
  | waiting =>
    simp only [hpc, Option.some.injEq] at h
    subst h
    exact .refl _
  | closed => simp [hpc] at h

section Silent

variable {s s' : Session κ} {a : IoAct κ} {events : List SessionEvent}

lemma readBy_eq_nil (h : s.ioStep a = some (s', events)) (hr : s'.reads = s.reads) :
    readBy a = [] := by
  cases a with
  | readDone i r =>
    cases r with
    | error e => rfl
    | ok bs =>
      simp only [Session.ioStep, Option.map_eq_some_iff, Prod.mk.injEq] at h
      obtain ⟨t, ht, rfl, -⟩ := h
      unfold Session.readDone at ht
      split at ht
      · split_ifs at ht
        cases ht
        have hi := ‹s.reads[i]? = _›
        have hlt := (List.getElem?_eq_some_iff.mp hi).1
        have hat := congrArg (·[i]?) hr
        simp [hi, List.getElem?_set_self hlt] at hat
      · cases ‹Except.ok bs = _›
      · cases ht
  | stop | send | post | strand | readQueue | writeDone | writeQueue => rfl

lemma written_of_writes_eq (h : s.ioStep a = some (s', events)) (hw : s'.writes = s.writes)
    (bytes : κ → List UInt8) (progress : ℕ) : Written bytes s progress a := by
  cases a with
  | writeDone i r =>
    simp only [Session.ioStep, Option.map_eq_some_iff, Prod.mk.injEq] at h
    obtain ⟨t, ht, rfl, -⟩ := h
    unfold Session.writeDone at ht
    split at ht
    · have hi := ‹s.writes[i]? = _›
      cases ht
      have hlt := (List.getElem?_eq_some_iff.mp hi).1
      have hat := congrArg (·[i]?) hw
      simp [hi, List.getElem?_set_self hlt] at hat
    · cases ht
  | stop | send | post | strand | readDone | readQueue | writeQueue => trivial

end Silent

/-- Whatever such a step is for a session, no bytes go in or out in it. -/
lemma silent_of_untouched {sessionId : ℕ} {owner : SessionRun.Owner} {s s' : SessionRun.Sys κ}
    {a : SessionRun.Act κ} (hs : SessionRun.step build pb sessionId owner s a = some s')
    (h : Untouched s.main.session s'.main.session) :
    readOf a = [] ∧ puts (notes s a s') = [] ∧
      ∀ (bytes : κ → List UInt8) progress, WrittenBy bytes s progress a := by
  cases a with
  | io b =>
    cases SessionRun.step_spec hs with
    | @io b session events hio =>
      have hput : SessionRun.putBy s.main.session b = [] := by
        rcases SessionRun.sendQueue_ioStep hio with hq | ⟨hput, -⟩
        · have hsame : session.sendQueue = s.main.session.sendQueue := h.sendQueue
          simpa [hq] using hsame
        · exact hput
      exact ⟨readBy_eq_nil hio h.reads, by rw [notes, hput]; exact WriteRun.puts_step [] _ _,
        written_of_writes_eq hio h.writes⟩
  | start | main | elsewhere | sendPost | ownerStop =>
    exact ⟨rfl, by rw [WriteRun.notes_eq_nil (by simp) h.writes]; rfl, fun _ _ => trivial⟩

/-! ### What arrives at the server -/

/-- The entries that a session has pushed, whether or not they were dispatched yet. -/
def arrivedFrom (w : World) (i : ℕ) : MessageQueue :=
  (w.history.popped ++ w.messageQueue).filter fun entry => entry.sessionId = i

variable (build pb) in
lemma drain_pushes (sessionId : ℕ) (d : Drain κ) :
    ∃ new, (d.step build pb sessionId).queue = d.queue ++ new ∧
      ∀ entry ∈ new, entry.sessionId = sessionId := by
  cases hpc : d.pc with
  | push view =>
    simp only [Drain.step, hpc]
    cases hp : PacketModel.push build pb d.queue sessionId view with
    | error f => exact ⟨[], by simp, by simp⟩
    | ok queue =>
      unfold PacketModel.push at hp
      split at hp
      · cases hp
      · split_ifs at hp
        simp only at hp
        split_ifs at hp
        cases hp
        exact ⟨_, rfl, by simp⟩
  | getFrontPacket =>
    simp only [Drain.step, hpc]
    split <;> exact ⟨[], by simp, by simp⟩
  | popFrontPacket =>
    simp only [Drain.step, hpc]
    split <;> exact ⟨[], by simp, by simp⟩
  | outside | receive | post | fault | nullSession =>
    simp only [Drain.step, hpc]
    exact ⟨[], by simp, by simp⟩

lemma queue_of_step {sessionId : ℕ} {owner : SessionRun.Owner} {s s' : SessionRun.Sys κ}
    {a : SessionRun.Act κ} (hs : SessionRun.step build pb sessionId owner s a = some s')
    (ha : a = .main → s.main.pc = .outside) (he : s.main.pc = .outside → ∀ q, a ≠ .elsewhere q) :
    s'.main.queue = s.main.queue := by
  cases SessionRun.step_spec hs with
  | drain hp hpc => exact absurd (ha rfl) hpc
  | elsewhere hpc => exact absurd rfl (he hpc _)
  | start | startPost | close | receive | sendPost | io | ownerStop => rfl

lemma pushed_eq_nil {s s' : SessionRun.Sys κ} (a : SessionRun.Act κ)
    (h : s'.main.queue.length ≤ s.main.queue.length) : pushed s a s' = [] := by
  cases a with
  | main => exact List.drop_eq_nil_of_le h
  | start | elsewhere | sendPost | io | ownerStop => rfl

lemma arrivedFrom_popMessage (i : ℕ) : arrivedFrom w.popMessage i = arrivedFrom w i := by
  rw [arrivedFrom, ← popMessage_arrived, arrivedFrom]

/-- **What arrives from a session is what the session pushes.** -/
theorem arrivedFrom_step {i : ℕ} {a : SessionRun.Act Chunk} (hb : Bounded w)
    (hs : Step build pb w w')
    (hview : SessionRun.step build pb i .WorldServer (view w i) a = some (view w' i)) :
    arrivedFrom w' i = arrivedFrom w i ++ pushed (view w i) a (view w' i) := by
  have same (hpopped : w'.history.popped = w.history.popped)
      (hqueue : w'.messageQueue = w.messageQueue) :
      arrivedFrom w' i = arrivedFrom w i ++ pushed (view w i) a (view w' i) := by
    have hnil : pushed (view w i) a (view w' i) = [] :=
      pushed_eq_nil a (by simp only [view, hqueue]; exact Nat.le_refl _)
    rw [hnil, List.append_nil, arrivedFrom, arrivedFrom, hpopped, hqueue]
  cases hs with
  | @drain j pc d hpc hd =>
    obtain ⟨new, hq, hnew⟩ := drain_pushes build pb j
      ⟨pc, w.session j, w.messageQueue⟩
    rw [← hd] at hq
    have hfilter : arrivedFrom { w with
        pc := if d.pc = .outside then .sessionEvents else .receiving j d.pc
        session := Function.update w.session j d.session
        messageQueue := d.queue } i = arrivedFrom w i ++
          new.filter fun entry => entry.sessionId = i := by
      simp only [arrivedFrom, hq, List.filter_append, List.append_assoc]
    rw [hfilter, List.append_cancel_left_eq]
    by_cases hi : j = i
    · subst hi
      rw [List.filter_eq_self.mpr fun entry he => by simpa using hnew entry he]
      by_cases ha : a = .main
      · subst ha
        simp [pushed, view, hq]
      · -- only the main thread pushes
        obtain ⟨-, hout⟩ : Attends w.nextSessionId (.receiving j pc) := hpc ▸ hb.pc
        have hin : (view w j).main.pc ≠ .outside := by simpa [view, hpc, pcOf] using hout
        have hqueue := queue_of_step hview (fun h => absurd h ha) (fun h => absurd h hin)
        have hnil : new = [] := by simpa [view, hq] using hqueue
        rw [pushed_eq_nil a (by rw [hqueue]), hnil]
    · have hnil : new.filter (fun entry => entry.sessionId = i) = [] := by
        refine List.filter_eq_nil_iff.mpr fun entry he => ?_
        rw [hnew entry he]
        simpa using hi
      rw [hnil]
      have hout : (view w i).main.pc = .outside := by simp [view, hpc, pcOf, hi]
      cases a with
      | main =>
        have hqueue := queue_of_step hview (fun _ => hout) (by simp)
        exact (pushed_eq_nil .main (by rw [hqueue])).symm
      | start | elsewhere | sendPost | io | ownerStop => rfl
  | noHandler | finish =>
    have hnil : pushed (view w i) a (view w.popMessage i) = [] :=
      pushed_eq_nil a (by simp [view, World.popMessage])
    rw [hnil, List.append_nil, arrivedFrom_popMessage]
  | @event j e rest hpc he =>
    cases e with
    | close => exact same rfl rfl
    | receive =>
      refine same ?_ ?_ <;> simp only [World.handleSessionEvent] <;> split_ifs <;> rfl
  | chat hpc hq ht hm ho hs =>
    obtain ⟨sendBuffers, chunk, -, rfl⟩ := handleChat_spec hs
    exact same rfl rfl
  | plain | accept | startPost | find | pass | send | refuse | post | close | io =>
    exact same rfl rfl

lemma arrivedFrom_of_view {i : ℕ} (hs : Step build pb w w') (hview : view w' i = view w i) :
    arrivedFrom w' i = arrivedFrom w i := by
  have hqueue : w'.messageQueue = w.messageQueue := congrArg (·.main.queue) hview
  have same (hpopped : w'.history.popped = w.history.popped) :
      arrivedFrom w' i = arrivedFrom w i := by
    rw [arrivedFrom, arrivedFrom, hpopped, hqueue]
  cases hs with
  | noHandler | finish => exact arrivedFrom_popMessage i
  | @event j e rest hpc he =>
    cases e with
    | close => exact same rfl
    | receive =>
      refine same ?_
      simp only [World.handleSessionEvent]
      split_ifs <;> rfl
  | chat hpc hq ht hm ho hs =>
    obtain ⟨sendBuffers, chunk, -, rfl⟩ := handleChat_spec hs
    exact same rfl
  | plain | accept | startPost | drain | find | pass | send | refuse | post | close | io =>
    exact same rfl

variable (build pb) in
lemma view_ioStep {i j : ℕ} {a : IoAct Chunk} (h : w.ioStep j a = some w') :
    (i = j → SessionRun.step build pb i .WorldServer (view w i) (.io a) = some (view w' i)) ∧
      (i ≠ j → view w' i = view w i) ∧
      w'.history.put = Function.update w.history.put j
        (w.history.put j ++ SessionRun.putBy (w.session j) a) := by
  simp only [World.ioStep] at h
  split at h
  · cases h
  split_ifs at h
  obtain ⟨⟨s, events⟩, hio, rfl⟩ := Option.map_eq_some_iff.mp h
  refine ⟨?_, fun hi => ?_, rfl⟩
  · rintro rfl
    simp [SessionRun.step, view, phaseOf, World.setSession, hio]
  · simp [view, phaseOf, World.setSession, Function.update_of_ne hi,
      eventsOf_map_ne (Ne.symm hi)]

/-! ### The chunks of the responses -/

/-- The response that a chunk holds is the same as long as the server runs. -/
lemma bytes_step (hrec : Recorded pb w) (hrec' : Recorded pb w') (hs : Step build pb w w') :
    ∀ chunk ∈ chunks w, w'.sendBuffers.bytes chunk = w.sendBuffers.bytes chunk := by
  intro chunk hc
  obtain ⟨s, hmem, rfl⟩ := List.mem_map.mp hc
  have hmem' := (faithful_step hs).log.subset hmem
  rw [(hrec'.chunk s hmem').2, (hrec.chunk s hmem).2]

lemma put_subset (h : BroadcastRun.Inv pb w) (i : ℕ) :
    ∀ chunk ∈ w.history.put i, chunk ∈ chunks w := by
  intro chunk hc
  have hgot := (h.readers i).got_eq
  have hmem : chunk ∈ (reader w i).got := List.mem_append_left _ hc
  rw [hgot] at hmem
  exact List.mem_of_mem_take (List.mem_of_mem_drop hmem)

lemma bytes_length_le (h : Recorded pb w) {chunk : Chunk} (hc : chunk ∈ chunks w) :
    (w.sendBuffers.bytes chunk).length ≤ SendModel.DefaultSize := by
  obtain ⟨s, hmem, rfl⟩ := List.mem_map.mp hc
  obtain ⟨⟨-, hend⟩, -⟩ := h.chunk s hmem
  have hle := (w.sendBuffers.heap s.chunk.owner).chunk_le
  have hsize := w.sendBuffers.sizes s.chunk.owner
  rw [SendBufferManager.bytes, Memory.read_length]
  omega

lemma exists_packet (hpb : pb.RoundTrips) (h : Recorded pb w) {chunk : Chunk}
    (hc : chunk ∈ chunks w) : ∃ p : Packet pb, p.bytes = w.sendBuffers.bytes chunk := by
  have hle := bytes_length_le h hc
  obtain ⟨s, hmem, rfl⟩ := List.mem_map.mp hc
  have hbytes := (h.chunk s hmem).2
  have hfits : headerSize + pb.byteSizeLong (.s2cChat s.response) < 2 ^ 16 := by
    rw [← packet_length, ← hbytes]
    exact lt_of_le_of_lt hle (by decide)
  exact ⟨.ofMessage hpb _ hfits, hbytes.symm⟩

lemma exists_packets (hpb : pb.RoundTrips) (h : Recorded pb w) {cs : List Chunk}
    (hc : ∀ chunk ∈ cs, chunk ∈ chunks w) :
    ∃ ps : List (Packet pb), cs.map w.sendBuffers.bytes = ps.map Packet.bytes := by
  induction cs with
  | nil => exact ⟨[], rfl⟩
  | cons chunk cs ih =>
    obtain ⟨p, hp⟩ := exists_packet hpb h (hc chunk (by simp))
    obtain ⟨ps, hps⟩ := ih fun c hmem => hc c (by simp [hmem])
    exact ⟨p :: ps, by rw [List.map_cons, List.map_cons, hps, hp]⟩

lemma entry_of_bytes (hpb : pb.RoundTrips) (p : Packet pb) {m : Message}
    (h : p.bytes = packet pb m) (sessionId : ℕ) :
    p.entry sessionId = PacketModel.entry sessionId m := by
  have hknown := p.known
  have hsize := p.size_eq
  have hlt : getLe16 p.bytes 0 < 2 ^ 16 := by
    have h0 := (p.bytes.getD 0 0).toNat_lt
    have h1 := (p.bytes.getD (0 + 1) 0).toNat_lt
    simp only [getLe16]
    omega
  rw [hsize, h, packet_length] at hlt
  rw [h, getLe16_packet_two, ofId_id, createMessage_type, Option.some.injEq] at hknown
  simp only [Packet.entry, PacketModel.entry, h, getLe16_packet_two, ofId_id, drop_packet,
    ← hknown]
  rw [hpb m (by omega)]

/-! ### The system -/

/-- `client i` is at the other end of session `i` of the server; `down` and `up` are the bytes on
the wire to it and from it, `sent` and `clientSent` how much of the outstanding write of the
server and of the client is taken. What has happened so far is in the last two: the entries
that a client has pushed, and what was noted of its send queue. -/
structure Net (κ : Type*) where
  world : World
  client : ℕ → SessionRun.Sys κ
  down : ℕ → List UInt8
  up : ℕ → List UInt8
  sent : ℕ → ℕ
  clientSent : ℕ → ℕ
  delivered : ℕ → MessageQueue
  noted : ℕ → List (Note κ)

inductive NetAct (κ : Type*)
  /-- the server makes a step -/
  | world (a : WorldModel.Act)
  | client (i : ℕ) (a : SessionRun.Act κ)
  /-- the server's socket takes the next bytes of the outstanding write -/
  | down (i n : ℕ)
  /-- a client's socket does -/
  | up (i n : ℕ)

/-- A client program makes one session. -/
def clientSessionId : ℕ := 1

namespace Net

def init : Net κ where
  world := WorldModel.init
  client _ := SessionRun.init
  down _ := []
  up _ := []
  sent _ := 0
  clientSent _ := 0
  delivered _ := []
  noted _ := []

variable (n : Net κ)

/-- A write that succeeds has written all its bytes, and a read that succeeds takes the next
bytes of the wire. -/
def ioStep (i : ℕ) (a : IoAct Chunk) : Option (Net κ) :=
  if Written n.world.sendBuffers.bytes (n.world.session i) (n.sent i) a ∧ readBy a <+: n.up i then
    (n.world.ioStep i a).map fun w =>
      { n with
        world := w
        sent := Function.update n.sent i
          (progressOf (n.world.session i) (w.session i) (n.sent i))
        up := Function.update n.up i ((n.up i).drop (readBy a).length) }
  else none

def clientStep (build : Build) (pb : Protobuf) (pk : κ → Packet pb) (i : ℕ)
    (a : SessionRun.Act κ) : Option (Net κ) :=
  if WrittenBy (fun chunk => (pk chunk).bytes) (n.client i) (n.clientSent i) a ∧
      readOf a <+: n.down i then
    (SessionRun.step build pb clientSessionId .GameClient (n.client i) a).map fun s =>
      { n with
        client := Function.update n.client i s
        clientSent := Function.update n.clientSent i
          (progressOf (n.client i).main.session s.main.session (n.clientSent i))
        down := Function.update n.down i ((n.down i).drop (readOf a).length)
        delivered := Function.update n.delivered i
          (n.delivered i ++ pushed (n.client i) a s)
        noted := Function.update n.noted i (n.noted i ++ notes (n.client i) a s) }
  else none

end Net

/-- A piece of the outstanding write of a session. -/
def piece (bytes : κ → List UInt8) (s : Session κ) (progress n : ℕ) :
    Option (List UInt8) :=
  match s.writes with
  | [.pending (some chunk)] =>
    if 0 < n ∧ progress + n ≤ (bytes chunk).length then some (((bytes chunk).drop progress).take n)
    else none
  | _ => none

/-- The chunks of the clients are packets. -/
def step (build : Build) (pb : Protobuf) (pk : κ → Packet pb) (n : Net κ) :
    NetAct κ → Option (Net κ)
  | .world (.io i a) => n.ioStep i a
  | .world a => (WorldModel.step build pb n.world a).map fun w => { n with world := w }
  | .client i a => n.clientStep build pb pk i a
  | .down i k =>
    (piece n.world.sendBuffers.bytes (n.world.session i) (n.sent i) k).map fun bs =>
      { n with
        sent := Function.update n.sent i (n.sent i + k)
        down := Function.update n.down i (n.down i ++ bs) }
  | .up i k =>
    (piece (fun chunk => (pk chunk).bytes) (n.client i).main.session (n.clientSent i) k).map
      fun bs =>
        { n with
          clientSent := Function.update n.clientSent i (n.clientSent i + k)
          up := Function.update n.up i (n.up i ++ bs) }

/-! ### What holds of each connection -/

section Net

variable {pk : κ → Packet pb} {n n' : Net κ}

/-- The responses on their way to a client. -/
def Down (build : Build) (pb : Protobuf) (n : Net κ) (i : ℕ) : Prop :=
  ∃ (ns : List (Note Chunk)) (ps : List (Packet pb)), puts ns = n.world.history.put i ∧
    Half build n.world.sendBuffers.bytes clientSessionId ps (view n.world i) ns (n.sent i)
      (n.down i) (n.client i) (n.delivered i)

/-- The chat messages on their way to the server. -/
def Up (build : Build) (pk : κ → Packet pb) (n : Net κ) (i : ℕ) : Prop :=
  Half build (fun chunk => (pk chunk).bytes) i ((puts (n.noted i)).map pk) (n.client i) (n.noted i)
    (n.clientSent i) (n.up i) (view n.world i) (arrivedFrom n.world i)

structure NetInv (build : Build) (pk : κ → Packet pb) (n : Net κ) : Prop where
  world : Reachable (WorldModel.step build pb) WorldModel.init n.world
  down : ∀ i, Down build pb n i
  up : ∀ i, Up build pk n i

lemma netInv_init : NetInv build pk (Net.init : Net κ) where
  world := .refl _
  down i := ⟨[], [], rfl, by simpa [Net.init, view_init] using half_init build _ 0⟩
  up i := by
    have h : Half build (fun chunk => (pk chunk).bytes) i ([] : List (Packet pb))
        (SessionRun.init : SessionRun.Sys κ) [] 0 [] (SessionRun.init : SessionRun.Sys Chunk) [] :=
      half_init build _ 0
    rw [← view_init i] at h
    exact h

variable {w : World} {a : WorldModel.Act} {i : ℕ}

/-- **A step of the server keeps both directions of a connection**, whichever step it is for the
session. -/
lemma half_world (hpb : pb.RoundTrips) (h : NetInv build pk n)
    (hs : WorldModel.step build pb n.world a = some w) {b : SessionRun.Act Chunk}
    {wire : List UInt8}
    (hview : SessionRun.step build pb i .WorldServer (view n.world i) b = some (view w i))
    (hwr : WrittenBy w.sendBuffers.bytes (view n.world i) (n.sent i) b)
    (hput : w.history.put i =
      n.world.history.put i ++ puts (notes (view n.world i) b (view w i)))
    (hwire : n.up i = readOf b ++ wire) :
    (∃ (ns : List (Note Chunk)) (ps : List (Packet pb)), puts ns = w.history.put i ∧
      Half build w.sendBuffers.bytes clientSessionId ps (view w i) ns
        (progressOf (n.world.session i) (w.session i) (n.sent i)) (n.down i) (n.client i)
        (n.delivered i)) ∧
    Half build (fun chunk => (pk chunk).bytes) i ((puts (n.noted i)).map pk) (n.client i)
      (n.noted i) (n.clientSent i) wire (view w i) (arrivedFrom w i) := by
  have hinv := BroadcastRun.inv_reachable h.world
  have hinv' := BroadcastRun.inv_reachable (h.world.next hs)
  constructor
  · obtain ⟨ns, ps, hns, hhalf⟩ := h.down i
    have hnew : ∀ chunk ∈ puts (notes (view n.world i) b (view w i)), chunk ∈ chunks w :=
      fun chunk hc => put_subset hinv' i chunk (by rw [hput]; exact List.mem_append_right _ hc)
    obtain ⟨qs, hqs⟩ := exists_packets hpb hinv'.recorded hnew
    have hsame := bytes_step hinv.recorded hinv'.recorded (step_spec hs)
    have hhalf' := hhalf.congr fun chunk hc => hsame chunk (put_subset hinv i chunk (hns ▸ hc))
    exact ⟨_, _, by rw [WriteRun.puts_append, hns, hput], hhalf'.send_step hview hwr hqs⟩
  · have hup := (h.up i).receive_step hview hwire
    rwa [← arrivedFrom_step (reachable_view h.world).1 (step_spec hs) hview] at hup

lemma half_idle (h : NetInv build pk n) (hs : WorldModel.step build pb n.world a = some w)
    (hview : view w i = view n.world i) (hput : w.history.put i = n.world.history.put i) :
    (∃ (ns : List (Note Chunk)) (ps : List (Packet pb)), puts ns = w.history.put i ∧
      Half build w.sendBuffers.bytes clientSessionId ps (view w i) ns (n.sent i) (n.down i)
        (n.client i) (n.delivered i)) ∧
    Half build (fun chunk => (pk chunk).bytes) i ((puts (n.noted i)).map pk) (n.client i)
      (n.noted i) (n.clientSent i) (n.up i) (view w i) (arrivedFrom w i) := by
  have hinv := BroadcastRun.inv_reachable h.world
  have hinv' := BroadcastRun.inv_reachable (h.world.next hs)
  constructor
  · obtain ⟨ns, ps, hns, hhalf⟩ := h.down i
    have hsame := bytes_step hinv.recorded hinv'.recorded (step_spec hs)
    refine ⟨ns, ps, hns.trans hput.symm, ?_⟩
    rw [hview]
    exact hhalf.congr fun chunk hc => hsame chunk (put_subset hinv i chunk (hns ▸ hc))
  · rw [hview, arrivedFrom_of_view (step_spec hs) hview]
    exact h.up i

lemma untouched_of_step (hs : WorldModel.step build pb w a = some w')
    (ha : ∀ j b, a ≠ .io j b) (i : ℕ) : Untouched (w.session i) (w'.session i) := by
  cases a with
  | main nowMs order => exact mainStep_untouched hs i
  | io j b => exact absurd rfl (ha j b)
  | service e => cases hs; exact .refl _
  | stop => cases hs; exact .refl _

lemma put_of_untouched (hs : WorldModel.step build pb w a = some w')
    (hu : Untouched (w.session i) (w'.session i)) :
    w'.history.put i = w.history.put i := by
  obtain ⟨cs, hput, hq⟩ := (faithful_step (step_spec hs)).put i
  have hnil : cs = [] := by
    rcases hq with hq | ⟨hnil, -⟩
    · simpa [hu.sendQueue] using hq
    · exact hnil
  rw [hput, hnil, List.append_nil]

lemma sendBuffers_ioStep {j : ℕ} {b : IoAct Chunk} (h : w.ioStep j b = some w') :
    w'.sendBuffers = w.sendBuffers := by
  simp only [World.ioStep] at h
  split at h
  · cases h
  split_ifs at h
  obtain ⟨⟨s, events⟩, -, rfl⟩ := Option.map_eq_some_iff.mp h
  rfl

lemma netInv_untouched (hpb : pb.RoundTrips) (h : NetInv build pk n)
    (hs : WorldModel.step build pb n.world a = some w) (ha : ∀ j b, a ≠ .io j b) :
    NetInv build pk { n with world := w } := by
  have hboth (i : ℕ) :
      Down build pb { n with world := w } i ∧ Up build pk { n with world := w } i := by
    have hu := untouched_of_step hs ha i
    have hput := put_of_untouched hs hu
    rcases view_step (reachable_view h.world).1 (step_spec hs) i with hview | ⟨b, hview⟩
    · exact half_idle (n := n) h hs hview hput
    · obtain ⟨hread, hnotes, hwr⟩ := silent_of_untouched hview hu
      have hprog : progressOf (n.world.session i) (w.session i) (n.sent i) = n.sent i :=
        progressOf_of_length_le (by rw [hu.writes])
      have hhalf := half_world (n := n) hpb h hs hview (hwr _ _)
        (by rw [hnotes, hput, List.append_nil]) (by rw [hread]; rfl)
      rwa [hprog] at hhalf
  exact ⟨h.world.next hs, fun i => (hboth i).1, fun i => (hboth i).2⟩

lemma eq_append_drop {bs wire : List UInt8} (h : bs <+: wire) :
    wire = bs ++ wire.drop bs.length := by
  obtain ⟨rest, rfl⟩ := h
  rw [List.drop_left]

lemma netInv_io (hpb : pb.RoundTrips) (h : NetInv build pk n) {j : ℕ} {b : IoAct Chunk}
    (hs : n.ioStep j b = some n') : NetInv build pk n' := by
  simp only [Net.ioStep] at hs
  split_ifs at hs with hguard
  obtain ⟨w, hw, rfl⟩ := Option.map_eq_some_iff.mp hs
  obtain ⟨hwr, hpre⟩ := hguard
  have hstep : WorldModel.step build pb n.world (.io j b) = some w := hw
  obtain ⟨hself, -, hput⟩ := view_ioStep build pb (i := j) hw
  have hat := half_world (n := n) hpb h hstep (hself rfl)
    (by rw [sendBuffers_ioStep hw]; exact hwr)
    (by rw [hput, Function.update_self, notes, WriteRun.puts_step]; rfl) (eq_append_drop hpre)
  have hbeside (i : ℕ) (hi : i ≠ j) := half_idle (n := n) h hstep
    ((view_ioStep build pb hw).2.1 hi) (by rw [hput, Function.update_of_ne hi])
  refine ⟨h.world.next hstep, fun i => ?_, fun i => ?_⟩ <;> by_cases hi : i = j
  · subst hi
    simpa [Down] using hat.1
  · simpa [Down, Function.update_of_ne hi] using (hbeside i hi).1
  · subst hi
    simpa [Up, readOf] using hat.2
  · simpa [Up, Function.update_of_ne hi] using (hbeside i hi).2

lemma netInv_client (h : NetInv build pk n) {j : ℕ} {b : SessionRun.Act κ}
    (hs : n.clientStep build pb pk j b = some n') : NetInv build pk n' := by
  simp only [Net.clientStep] at hs
  split_ifs at hs with hguard
  obtain ⟨s, hstep, rfl⟩ := Option.map_eq_some_iff.mp hs
  obtain ⟨hwr, hpre⟩ := hguard
  refine ⟨h.world, fun i => ?_, fun i => ?_⟩ <;> by_cases hi : i = j
  · subst hi
    obtain ⟨ns, ps, hns, hhalf⟩ := h.down i
    refine ⟨ns, ps, hns, ?_⟩
    simpa [InboundRun.received] using hhalf.receive_step hstep (eq_append_drop hpre)
  · obtain ⟨ns, ps, hns, hhalf⟩ := h.down i
    exact ⟨ns, ps, hns, by simpa [Function.update_of_ne hi] using hhalf⟩
  · subst hi
    have hqs : (puts (notes (n.client i) b s)).map (fun chunk => (pk chunk).bytes) =
        ((puts (notes (n.client i) b s)).map pk).map Packet.bytes := by rw [List.map_map]; rfl
    have hup := (h.up i).send_step hstep hwr hqs
    rw [← List.map_append, ← WriteRun.puts_append] at hup
    simpa [Up] using hup
  · simpa [Up, Function.update_of_ne hi] using h.up i

lemma piece_spec {bytes : κ → List UInt8} {s : Session κ} {progress k : ℕ} {bs : List UInt8}
    (h : piece bytes s progress k = some bs) :
    ∃ chunk, .pending (some chunk) ∈ s.writes ∧ bs = ((bytes chunk).drop progress).take k := by
  unfold piece at h
  split at h
  · split_ifs at h
    cases h
    have hw := ‹s.writes = _›
    exact ⟨_, by rw [hw]; exact .head _, rfl⟩
  · cases h

/-- **Every step of the system keeps all connections.** -/
theorem netInv_step (hpb : pb.RoundTrips) (n : Net κ) (a : NetAct κ) (n' : Net κ)
    (h : NetInv build pk n) (hs : step build pb pk n a = some n') : NetInv build pk n' := by
  cases a with
  | world a =>
    cases a with
    | io i b => exact netInv_io hpb h hs
    | main | service | stop =>
      simp only [step] at hs
      obtain ⟨w, hw, rfl⟩ := Option.map_eq_some_iff.mp hs
      exact netInv_untouched hpb h hw (by simp)
  | client i b => exact netInv_client h hs
  | down j k =>
    obtain ⟨bs, hbs, rfl⟩ := Option.map_eq_some_iff.mp hs
    obtain ⟨chunk, hw, rfl⟩ := piece_spec hbs
    refine ⟨h.world, fun i => ?_, h.up⟩
    obtain ⟨ns, ps, hns, hhalf⟩ := h.down i
    refine ⟨ns, ps, hns, ?_⟩
    by_cases hi : i = j
    · subst hi
      simpa using hhalf.transfer hw k
    · simpa [Function.update_of_ne hi] using hhalf
  | up j k =>
    obtain ⟨bs, hbs, rfl⟩ := Option.map_eq_some_iff.mp hs
    obtain ⟨chunk, hw, rfl⟩ := piece_spec hbs
    refine ⟨h.world, h.down, fun i => ?_⟩
    by_cases hi : i = j
    · subst hi
      simpa [Up] using (h.up i).transfer hw k
    · simpa [Up, Function.update_of_ne hi] using h.up i

/-! ### From one client to all -/

/-- The entries of the responses that a session is meant to get, at its client. -/
def feed (w : World) (i : ℕ) : MessageQueue :=
  ((w.history.log.take (bound w i)).drop (w.history.acceptedAt i)).map fun s =>
    PacketModel.entry clientSessionId (.s2cChat s.response)

/-- The entries of the packets that a client has sent, at the server. -/
def asked (pk : κ → Packet pb) (n : Net κ) (i : ℕ) : MessageQueue :=
  (puts (n.noted i)).map fun chunk => (pk chunk).entry i

/-- The way of a chat message: to the server, into the one sequence of responses, and from there
to each client that was accepted before. -/
structure EndToEnd (build : Build) (pk : κ → Packet pb) (n : Net κ) : Prop where
  up : ∀ i, InOrder (asked pk n i) (arrivedFrom n.world i) (n.world.session i).running
  answered : ∀ i, (n.world.history.log.map Sent.entry).filter (fun e => e.sessionId = i) <+:
    (arrivedFrom n.world i).filter fun e => e.messageType = .c2sChat
  answers : ∀ s ∈ n.world.history.log, Answers s
  numbered : n.world.history.log.length < 2 ^ 64 →
    (n.world.history.log.map fun s => s.response.serverMessageId.toNat) =
      List.range' 1 n.world.history.log.length
  down : ∀ i, InOrder (feed n.world i) (n.delivered i) (n.client i).main.session.running
  /-- the server goes wrong over a message that is too long for a debug build only -/
  fault : ∀ i f, pcOf n.world.pc i = .fault f →
    f = .assertion ∧ Overlong build ((puts (n.noted i)).map pk)
  no_fault : ∀ i f, (n.client i).main.pc ≠ .fault f

lemma entries_of_bytes (hpb : pb.RoundTrips) {ps : List (Packet pb)} {ms : List Message}
    (h : ps.map Packet.bytes = ms.map (packet pb)) (sessionId : ℕ) :
    (ps.map fun p => p.entry sessionId) = ms.map (PacketModel.entry sessionId) := by
  induction ps generalizing ms with
  | nil =>
    obtain rfl : ms = [] := List.map_eq_nil_iff.mp h.symm
    rfl
  | cons p ps ih =>
    cases ms with
    | nil => cases h
    | cons m ms =>
      rw [List.map_cons, List.map_cons, List.cons.injEq] at h
      rw [List.map_cons, List.map_cons, ih h.2, entry_of_bytes hpb p h.1]

lemma entries_prefix_feed (hpb : pb.RoundTrips) (h : BroadcastRun.Inv pb w) {ns}
    {ps : List (Packet pb)} (hns : puts ns = w.history.put i)
    (hps : (puts ns).map w.sendBuffers.bytes = ps.map Packet.bytes) :
    (ps.map fun p => p.entry clientSessionId) <+: feed w i := by
  have hgot := (h.readers i).got_eq
  set seg := (w.history.log.take (bound w i)).drop (w.history.acceptedAt i) with hseg
  have hchunks : w.history.put i ++ underway w i = seg.map Sent.chunk := by
    rw [hseg, List.map_drop, List.map_take]
    exact hgot
  generalize w.history.put i = cs at hchunks hns
  have hput : cs = (seg.take cs.length).map Sent.chunk := by
    rw [List.map_take, ← hchunks, List.take_left]
  have hbytes : ps.map Packet.bytes =
      ((seg.take cs.length).map fun s => Message.s2cChat s.response).map (packet pb) := by
    rw [← hps, hns, List.map_map]
    nth_rewrite 1 [hput]
    rw [List.map_map]
    refine List.map_congr_left fun s hs => ?_
    have hmem : s ∈ w.history.log :=
      List.mem_of_mem_take (List.mem_of_mem_drop (List.mem_of_mem_take hs))
    exact (h.recorded.chunk s hmem).2
  rw [entries_of_bytes hpb hbytes, List.map_map, List.map_take]
  exact List.take_prefix _ _

lemma answered_prefix (h : Recorded pb w) (i : ℕ) :
    (w.history.log.map Sent.entry).filter (fun e => e.sessionId = i) <+:
      (arrivedFrom w i).filter fun e => e.messageType = .c2sChat := by
  have hcurrent : current w <+: w.messageQueue := by
    unfold current
    split_ifs
    · exact List.take_prefix _ _
    · exact List.nil_prefix
  rw [h.queue, arrivedFrom, List.filter_filter, List.filter_filter]
  refine List.IsPrefix.trans ?_
    (((List.prefix_append_right_inj w.history.popped).mpr hcurrent).filter _)
  simp [Bool.and_comm]

lemma NetInv.endToEnd (hpb : pb.RoundTrips) (hnet : NetInv build pk n) : EndToEnd build pk n := by
  have hinv := BroadcastRun.inv_reachable hnet.world
  refine ⟨fun i => ?_, answered_prefix hinv.recorded, hinv.recorded.answers,
    hinv.recorded.numbers, fun i => ?_, fun i f hf => (hnet.up i).fault hf, fun i f hf => ?_⟩
  · have hup := (hnet.up i).inOrder
    rw [List.map_map] at hup
    exact hup
  · obtain ⟨ns, ps, hns, hhalf⟩ := hnet.down i
    exact hhalf.inOrder.mono (entries_prefix_feed hpb hinv hns hhalf.packets)
  · obtain ⟨ns, ps, hns, hhalf⟩ := hnet.down i
    obtain ⟨-, -, p, hp, hlong⟩ := hhalf.fault hf
    have hmem := List.mem_map_of_mem (f := Packet.bytes) hp
    rw [← hhalf.packets, hns] at hmem
    obtain ⟨chunk, hc, hbytes⟩ := List.mem_map.mp hmem
    have hle := bytes_length_le hinv.recorded (put_subset hinv i chunk hc)
    rw [hbytes] at hle
    exact absurd hlong (not_lt.mpr hle)

end Net

/-! ### A chat message and its response -/

/-- The packet of the response that the server makes of an empty chat message. -/
def emptyChatResponse : List UInt8 :=
  [25, 0, 0xE8, 3, 10, 13, 0xED, 0x94, 0x8C, 0xEB, 0xA0, 0x88, 0xEC, 0x9D, 0xB4, 0xEC, 0x96, 0xB4,
    49, 32, 1, 40, 1, 48, 1]

/-- A client is accepted and sends a chat message in two pieces; the server answers, and the
client pushes the response. -/
def exchange (chat response : List UInt8) : List (NetAct Unit) :=
  let main : NetAct Unit := .world (.main 1 [])
  let accepted := [.world (.service .accept), main, main, main, .world (.io 1 (.strand [])),
    .client 1 .start, .client 1 .main, .client 1 (.io (.strand []))]
  let asked := [.client 1 (.io (.send ())), .client 1 (.io (.post 0)), .client 1 (.io (.strand [])),
    .up 1 3, .up 1 (chat.length - 3), .client 1 (.io (.writeDone 0 (.ok chat.length)))]
  let heard := [.world (.io 1 (.readDone 0 (.ok chat))), .world (.io 1 (.readQueue 0)),
    .world (.io 1 (.strand [])), main, main, main, main, main, main, main, main]
  let answered := [main, .world (.main 1 [1]), main, main, main, main,
    .world (.io 1 (.strand [])), .world (.io 1 (.strand []))]
  let delivered := [.down 1 response.length, .world (.io 1 (.writeDone 0 (.ok response.length))),
    .client 1 (.io (.readDone 0 (.ok response))), .client 1 (.io (.readQueue 0)),
    .client 1 (.io (.strand [])), .client 1 .main, .client 1 .main, .client 1 .main]
  accepted ++ asked ++ heard ++ answered ++ delivered

def chatAndResponse : List (NetAct Unit) := exchange [4, 0, 0xD0, 7] emptyChatResponse

end ByteborneWorld.NetRun
