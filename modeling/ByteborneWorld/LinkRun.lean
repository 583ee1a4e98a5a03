import ByteborneWorld.InboundRun
import ByteborneWorld.OutboundRun

/-!
Two sessions at the ends of a connection. The socket of the sender takes the bytes of a write
piece by piece, the connection carries them in order, and the socket of the receiver gives them
to a read in any pieces. To the two programs it is a queue of packets.
-/

namespace ByteborneWorld.LinkRun

open ByteborneWorld.ChatProto ByteborneWorld.PacketModel ByteborneWorld.RecvModel
open ByteborneWorld.SessionModel ByteborneWorld.DrainRun ByteborneWorld.Lts
open ByteborneWorld.SessionRun ByteborneWorld.RoomRun ByteborneWorld.InboundRun
open ByteborneWorld.OutboundRun
open ByteborneWorld.WriteRun (Note notes puts puts_append writing)

variable {κ κ' : Type*} {build : Build} {pb : Protobuf} {sessionId senderId : ℕ}
  {owner : Owner}

/-! ### One direction of a connection -/

/-- What was written is what was read and what is on the wire; `ps` are the packets that the
sender has put on its queue. -/
structure Half (build : Build) (bytes : κ → List UInt8) (sessionId : ℕ) (ps : List (Packet pb))
    (sender : Sys κ) (ns : List (Note κ)) (progress : ℕ) (wire : List UInt8) (receiver : Sys κ')
    (entries : MessageQueue) : Prop extends Inv receiver, Known receiver where
  packets : (puts ns).map bytes = ps.map Packet.bytes
  stream : ∃ received, Outbound bytes sender ns progress (received ++ wire) ∧
    Inbound build ps sessionId receiver received entries

section Half

variable {bytes : κ → List UInt8} {ps : List (Packet pb)} {sender sender' : Sys κ}
  {ns : List (Note κ)} {progress : ℕ} {wire wire' : List UInt8} {receiver receiver' : Sys κ'}
  {entries : MessageQueue}

lemma half_init (build : Build) (bytes : κ → List UInt8) (progress : ℕ) :
    Half build bytes sessionId ([] : List (Packet pb)) init [] progress [] (init : Sys κ') [] where
  toInv := inv_init
  toKnown := known_init
  packets := rfl
  stream := ⟨[], outbound_init bytes progress, inbound_init build []⟩

lemma inbound_append {received : List UInt8}
    (h : Inbound build ps sessionId receiver received entries) (qs : List (Packet pb)) :
    Inbound build (ps ++ qs) sessionId receiver received entries := by
  obtain ⟨⟨⟨k, again, hacc, hone⟩, hview, hfault⟩, hw⟩ := h
  have htake : (ps ++ qs).take k = ps.take k := List.take_append_of_le_length hacc.le
  refine ⟨⟨⟨k, again, ⟨?_, by rw [htake]; exact hacc.bytes, by rw [htake]; exact hacc.entries,
    fun e he => ?_⟩, hone⟩, hview,
    fun f hf => (hfault f hf).imp_right fun hlong => hlong.imp_right fun ⟨p, hp, hlt⟩ =>
      ⟨p, List.mem_append_left qs hp, hlt⟩⟩, hw⟩
  · exact le_trans hacc.le (by simp)
  · have hk := hacc.again e he
    have hlt : k < ps.length := by
      by_contra hge
      rw [List.getElem?_eq_none (not_lt.mp hge)] at hk
      cases hk
    rwa [List.getElem?_append_left hlt]

lemma Half.send_step {a : Act κ} {qs : List (Packet pb)}
    (h : Half build bytes sessionId ps sender ns progress wire receiver entries)
    (hs : SessionRun.step build pb senderId owner sender a = some sender')
    (hwr : WrittenBy bytes sender progress a)
    (hqs : (puts (notes sender a sender')).map bytes = qs.map Packet.bytes) :
    Half build bytes sessionId (ps ++ qs) sender' (ns ++ notes sender a sender')
      (progressOf sender.main.session sender'.main.session progress) wire receiver entries := by
  obtain ⟨received, hout, hin⟩ := h.stream
  refine ⟨h.toInv, h.toKnown, ?_, received, hout.step hs hwr, inbound_append hin qs⟩
  rw [puts_append, List.map_append, List.map_append, h.packets, hqs]

lemma Half.transfer (h : Half build bytes sessionId ps sender ns progress wire receiver entries)
    {chunk : κ} (hw : .pending (some chunk) ∈ sender.main.session.writes) (n : ℕ) :
    Half build bytes sessionId ps sender ns (progress + n)
      (wire ++ ((bytes chunk).drop progress).take n) receiver entries := by
  obtain ⟨received, hout, hin⟩ := h.stream
  refine ⟨h.toInv, h.toKnown, h.packets, received, ?_, hin⟩
  rw [← List.append_assoc]
  exact hout.transfer hw n

lemma Half.received_prefix
    (h : Half build bytes sessionId ps sender ns progress wire receiver entries)
    {received : List UInt8} (hout : Outbound bytes sender ns progress (received ++ wire)) :
    received ++ wire <+: flat ps := by
  have hpre := hout.stream_prefix
  rwa [List.flatMap_def, h.packets, ← List.flatMap_def] at hpre

lemma Half.receive_step {a : Act κ'}
    (h : Half build bytes sessionId ps sender ns progress wire receiver entries)
    (hs : SessionRun.step build pb sessionId owner receiver a = some receiver')
    (hwire : wire = received receiver a receiver' ++ wire') :
    Half build bytes sessionId ps sender ns progress wire' receiver'
      (entries ++ pushed receiver a receiver') := by
  obtain ⟨got, hout, hin⟩ := h.stream
  obtain ⟨hinv, hknown⟩ := known_step receiver a receiver' ⟨h.toInv, h.toKnown⟩ hs
  have hpre := (List.prefix_append _ _).trans (h.received_prefix hout)
  refine ⟨hinv, hknown, h.packets, got ++ received receiver a receiver', ?_,
    inbound_step build owner h.toInv h.toKnown hin hpre hs⟩
  rwa [List.append_assoc, ← hwire]

lemma Half.congr {bytes' : κ → List UInt8}
    (h : Half build bytes sessionId ps sender ns progress wire receiver entries)
    (heq : ∀ chunk ∈ puts ns, bytes' chunk = bytes chunk) :
    Half build bytes' sessionId ps sender ns progress wire receiver entries := by
  obtain ⟨received, hout, hin⟩ := h.stream
  exact ⟨h.toInv, h.toKnown, (List.map_congr_left heq).trans h.packets, received,
    hout.congr heq, hin⟩

/-- Of what was sent, some entries have arrived. -/
structure InOrder (sent entries : MessageQueue) (running : Bool) : Prop where
  running : running = true → entries <+: sent
  /-- a receiver that was stopped may get the last entry again and again -/
  stopped : ∃ k again, k ≤ sent.length ∧ entries = sent.take k ++ again ∧
    ∀ e ∈ again, sent[k]? = some e

lemma InOrder.mono {sent sent' entries : MessageQueue} {running : Bool}
    (h : InOrder sent entries running) (hpre : sent <+: sent') :
    InOrder sent' entries running := by
  refine ⟨fun hr => (h.running hr).trans hpre, ?_⟩
  obtain ⟨k, again, hk, hentries, hagain⟩ := h.stopped
  obtain ⟨rest, rfl⟩ := hpre
  refine ⟨k, again, le_trans hk (by simp), ?_, fun e he => ?_⟩
  · rw [hentries, List.take_append_of_le_length hk]
  · obtain ⟨hlt, -⟩ := List.getElem?_eq_some_iff.mp (hagain e he)
    rw [List.getElem?_append_left hlt]
    exact hagain e he

/-- The one entry of a packet that is pushed and not popped is the next one. -/
lemma prefix_of_inHand {sent again : MessageQueue} {k : ℕ} {pc : Pc}
    (h : ∀ e ∈ again, sent[k]? = some e) (hlen : again.length = inHand pc) :
    sent.take k ++ again <+: sent := by
  match again with
  | [] => simpa using List.take_prefix k sent
  | [e] =>
    obtain ⟨hlt, rfl⟩ := List.getElem?_eq_some_iff.mp (h e (by simp))
    rw [← List.take_succ_eq_append_getElem hlt]
    exact List.take_prefix _ _
  | e :: e' :: again =>
    cases pc <;> simp [inHand] at hlen

/-- **Safety of a connection**: the packets arrive in order, each once. -/
theorem Half.inOrder
    (h : Half build bytes sessionId ps sender ns progress wire receiver entries) :
    InOrder (ps.map fun p => p.entry sessionId) entries receiver.main.session.running := by
  obtain ⟨received, -, ⟨⟨k, again, hacc, hone⟩, -, -⟩, -⟩ := h.stream
  have hentries : entries = (ps.map fun p => p.entry sessionId).take k ++ again := by
    rw [← List.map_take]
    exact hacc.entries
  have hagain : ∀ e ∈ again, (ps.map fun p => p.entry sessionId)[k]? = some e := by
    simpa only [List.getElem?_map] using hacc.again
  exact ⟨fun hr => hentries ▸ prefix_of_inHand hagain (hone (.inl hr)), k, again,
    by simpa using hacc.le, hentries, hagain⟩

/-- No push and no pop of the receiver goes wrong, unless a packet is too long for it. -/
theorem Half.fault (h : Half build bytes sessionId ps sender ns progress wire receiver entries)
    {f : Fault} (hf : receiver.main.pc = .fault f) : f = .assertion ∧ Overlong build ps := by
  obtain ⟨received, -, hin⟩ := h.stream
  exact hin.counted.fault f hf

/-- Nothing is under way: what was put on the queue is written and read, and the receiver waits
for more. -/
structure Quiescent (sender : Sys κ) (ns : List (Note κ)) (wire : List UInt8)
    (receiver : Sys κ') : Prop where
  sending : sender.main.session.running = true
  aborted : .aborted ∉ ns
  written : writing sender.main.session = 0
  wire : wire = []
  receiving : receiver.main.session.running = true
  reading : ∃ offset size, .pending offset size ∈ receiver.main.session.reads

/-- **Nothing is lost**: when nothing is under way, all packets have arrived. -/
theorem Half.all_arrived
    (h : Half build bytes sessionId ps sender ns progress wire receiver entries)
    (hq : Quiescent sender ns wire receiver) :
    entries = ps.map fun p => p.entry sessionId := by
  obtain ⟨received, hout, hin⟩ := h.stream
  obtain ⟨offset, size, hread⟩ := hq.reading
  have hall : received = flat ps := by
    have := hout.stream_eq hq.sending hq.aborted hq.written
    rw [hq.wire, List.append_nil, List.flatMap_def, h.packets, ← List.flatMap_def] at this
    exact this
  obtain ⟨⟨⟨k, again, hacc, hone⟩, -, -⟩, hw⟩ := hin
  have hpos : 1 ≤ sessionTokens receiver.main.session := by
    have := List.length_pos_of_mem hread
    unfold sessionTokens
    omega
  -- the main thread does not have the token
  have hout : ¬receiver.main.pc.Inside := fun hin => by
    rw [sessionTokens_eq_zero h.toInv (.inl hin)] at hpos
    omega
  have hagain : again = [] := by
    refine List.eq_nil_of_length_eq_zero ((hone (.inl hq.receiving)).trans ?_)
    cases hpc : receiver.main.pc with
    | popFrontPacket | fault => rw [hpc] at hout; exact absurd trivial hout
    | outside | getFrontPacket | push | receive | post | nullSession => rfl
  have hinc := incomplete_of_reading h.toInv hw hread
  match hdrop : ps.drop k with
  | [] =>
    rw [hacc.entries, hagain, List.append_nil,
      List.take_of_length_le (List.drop_eq_nil_iff.mp hdrop)]
  | p :: qs =>
    have hrest := hacc.bytes
    rw [hall] at hrest
    nth_rewrite 1 [← List.take_append_drop k ps] at hrest
    rw [flat_append, List.append_cancel_left_eq, hdrop, flat_cons] at hrest
    exact absurd (hrest ▸ hinc) (not_incomplete p (flat qs))

end Half

/-! ### The connection as a system -/

/-- What the two programs are. -/
structure Ends where
  build : Build
  senderId : ℕ
  senderOwner : Owner
  receiverId : ℕ
  receiverOwner : Owner

/-- `progress` is how much of the outstanding write the socket has taken. -/
structure Link (κ κ' : Type*) where
  sender : Sys κ
  progress : ℕ
  wire : List UInt8
  receiver : Sys κ'

inductive LinkAct (κ κ' : Type*)
  | sender (a : Act κ)
  /-- the socket takes the next bytes of the outstanding write -/
  | transfer (n : ℕ)
  | receiver (a : Act κ')

namespace Link

def init : Link κ κ' := ⟨SessionRun.init, 0, [], SessionRun.init⟩

/-- A write succeeds when all its bytes are taken, and a read brings the next bytes of the
wire. -/
def step (e : Ends) (pb : Protobuf) (bytes : κ → List UInt8) (l : Link κ κ') :
    LinkAct κ κ' → Option (Link κ κ')
  | .sender a =>
    if WrittenBy bytes l.sender l.progress a then
      (SessionRun.step e.build pb e.senderId e.senderOwner l.sender a).map fun s =>
        { l with
          sender := s
          progress := progressOf l.sender.main.session s.main.session l.progress }
    else none
  | .transfer n =>
    match l.sender.main.session.writes with
    | [.pending (some chunk)] =>
      if 0 < n ∧ l.progress + n ≤ (bytes chunk).length then
        some { l with
          progress := l.progress + n
          wire := l.wire ++ ((bytes chunk).drop l.progress).take n }
      else none
    | _ => none
  | .receiver a =>
    if readOf a <+: l.wire then
      (SessionRun.step e.build pb e.receiverId e.receiverOwner l.receiver a).map fun s =>
        { l with receiver := s, wire := l.wire.drop (readOf a).length }
    else none

/-- What is noted of a step of the sender. -/
def noted (l : Link κ κ') (a : LinkAct κ κ') (l' : Link κ κ') : List (Note κ) :=
  match a with
  | .sender a => notes l.sender a l'.sender
  | _ => []

/-- The entries that a step of the receiver pushes. -/
def arrived (l : Link κ κ') (a : LinkAct κ κ') (l' : Link κ κ') : MessageQueue :=
  match a with
  | .receiver a => pushed l.receiver a l'.receiver
  | _ => []

end Link

section Link

variable {e : Ends} {pk : κ → Packet pb} {l l' : Link κ κ'}

/-- What holds of a connection whose chunks are packets. -/
def Linked (e : Ends) (pk : κ → Packet pb) (l : Link κ κ') (ns : List (Note κ))
    (entries : MessageQueue) : Prop :=
  Half e.build (fun chunk => (pk chunk).bytes) e.receiverId ((puts ns).map pk) l.sender ns
    l.progress l.wire l.receiver entries

lemma linked_step (l : Link κ κ') (ns : List (Note κ)) (entries : MessageQueue)
    (a : LinkAct κ κ') (l' : Link κ κ') (h : Linked e pk l ns entries)
    (hs : Link.step e pb (fun chunk => (pk chunk).bytes) l a = some l') :
    Linked e pk l' (ns ++ Link.noted l a l') (entries ++ Link.arrived l a l') := by
  cases a with
  | sender a =>
    simp only [Link.step] at hs
    split_ifs at hs with hwr
    obtain ⟨s, hstep, rfl⟩ := Option.map_eq_some_iff.mp hs
    have hqs : (puts (notes l.sender a s)).map (fun chunk => (pk chunk).bytes) =
        ((puts (notes l.sender a s)).map pk).map Packet.bytes := by rw [List.map_map]; rfl
    have h' := Half.send_step h hstep hwr hqs
    rw [← List.map_append, ← puts_append] at h'
    simpa [Linked, Link.noted, Link.arrived] using h'
  | transfer n =>
    simp only [Link.step] at hs
    split at hs
    · split_ifs at hs
      cases hs
      have h' := Half.transfer h (by rw [‹l.sender.main.session.writes = _›]; exact .head _) n
      simpa [Linked, Link.noted, Link.arrived] using h'
    · cases hs
  | receiver a =>
    simp only [Link.step] at hs
    split_ifs at hs with hpre
    obtain ⟨s, hstep, rfl⟩ := Option.map_eq_some_iff.mp hs
    have hwire : l.wire = readOf a ++ l.wire.drop (readOf a).length := by
      obtain ⟨rest, hrest⟩ := hpre
      rw [← hrest, List.drop_left]
    have h' := Half.receive_step h hstep hwire
    simpa [Linked, Link.noted, Link.arrived] using h'

/-- All that is noted of the sender in a run. -/
def Link.notesOf (e : Ends) (pk : κ → Packet pb) (as : List (LinkAct κ κ')) : List (Note κ) :=
  observe (Link.step e pb fun chunk => (pk chunk).bytes) Link.noted Link.init as

def Link.entriesOf (e : Ends) (pk : κ → Packet pb) (as : List (LinkAct κ κ')) : MessageQueue :=
  observe (Link.step e pb fun chunk => (pk chunk).bytes) Link.arrived Link.init as

/-- The entries of the packets that were put on the send queue. -/
def Link.sentOf (e : Ends) (pk : κ → Packet pb) (as : List (LinkAct κ κ')) : MessageQueue :=
  (puts (Link.notesOf e pk as)).map fun chunk => (pk chunk).entry e.receiverId

variable (pk) in
/-- **A connection is a queue of packets**, for every interleaving of its two ends, every cutting
of the stream into writes and reads, and every error: what a running receiver has pushed is a
beginning of what was put on the send queue, and when nothing is under way it is all of it. -/
theorem connection_fifo {as : List (LinkAct κ κ')}
    (h : run (Link.step e pb fun chunk => (pk chunk).bytes) Link.init as = some l) :
    InOrder (Link.sentOf e pk as) (Link.entriesOf e pk as) l.receiver.main.session.running ∧
      (Quiescent l.sender (Link.notesOf e pk as) l.wire l.receiver →
        Link.entriesOf e pk as = Link.sentOf e pk as) := by
  have hinit : Linked e pk (Link.init : Link κ κ') [] [] :=
    half_init e.build (fun chunk => (pk chunk).bytes) 0
  have hlinked := observe_invariant₂ Link.noted Link.arrived linked_step hinit h
  simp only [List.nil_append] at hlinked
  have horder := hlinked.inOrder
  have hall := hlinked.all_arrived
  simp only [List.map_map, Function.comp_def] at horder hall
  exact ⟨horder, hall⟩

end Link

/-- An empty chat message is written in two pieces, and read in two others; then the receiver
waits for more. -/
def emptyChatOver : List (LinkAct Unit Unit) :=
  [.sender .start, .sender .main, .sender (.io (.strand [])), .sender (.io (.send ())),
    .sender (.io (.post 0)), .sender (.io (.strand [])), .transfer 1, .receiver .start,
    .receiver .main, .receiver (.io (.strand [])), .transfer 3,
    .sender (.io (.writeDone 0 (.ok 4))),
    .receiver (.io (.readDone 0 (.ok [0x04, 0x00, 0xD0]))), .receiver (.io (.readQueue 0)),
    .receiver (.io (.strand [])), .sender (.io (.writeQueue 0)), .sender (.io (.strand [])),
    .receiver .main, .receiver .main, .receiver .main, .receiver .main,
    .receiver (.io (.strand [])), .receiver (.io (.readDone 0 (.ok [0x07]))),
    .receiver (.io (.readQueue 0)), .receiver (.io (.strand [])), .receiver .main,
    .receiver .main, .receiver .main, .receiver .main, .receiver .main, .receiver .main,
    .receiver .main, .receiver (.io (.strand []))]

/-- From a game client to the server. -/
def upstream : Ends := ⟨.Release, 1, .GameClient, 1, .WorldServer⟩

/-- It arrives, and nothing is under way any more. -/
theorem connection_fifo_emptyChatOver : ∃ l,
    run (Link.step upstream proto3 fun _ => StopRun.emptyChat.bytes) Link.init emptyChatOver =
      some l ∧
    InOrder (Link.sentOf upstream (fun _ => StopRun.emptyChat) emptyChatOver)
      (Link.entriesOf upstream (fun _ => StopRun.emptyChat) emptyChatOver)
      l.receiver.main.session.running ∧
    Quiescent l.sender (Link.notesOf upstream (fun _ => StopRun.emptyChat) emptyChatOver) l.wire
      l.receiver ∧
    Link.entriesOf upstream (fun _ => StopRun.emptyChat) emptyChatOver =
      [StopRun.emptyChat.entry 1] := by
  have hrun : (run (Link.step upstream proto3 fun _ => StopRun.emptyChat.bytes) Link.init
      emptyChatOver).map (fun l => (l.sender.main.session.running,
        writing l.sender.main.session, l.wire, l.receiver.main.session.running,
        l.receiver.main.session.reads)) = some (true, 0, [], true, [.pending 0 16384]) := by
    decide +kernel
  have hnotes : Note.aborted ∉
      Link.notesOf upstream (fun _ => StopRun.emptyChat) emptyChatOver := by decide +kernel
  have hsent : Link.sentOf upstream (fun _ => StopRun.emptyChat) emptyChatOver =
      [StopRun.emptyChat.entry 1] := by decide +kernel
  obtain ⟨l, hl, heq⟩ := Option.map_eq_some_iff.mp hrun
  simp only [Prod.mk.injEq] at heq
  obtain ⟨hsending, hwritten, hwire, hreceiving, hreads⟩ := heq
  obtain ⟨horder, hall⟩ := connection_fifo (fun _ => StopRun.emptyChat) hl
  have hquiet : Quiescent l.sender
      (Link.notesOf upstream (fun _ => StopRun.emptyChat) emptyChatOver) l.wire l.receiver :=
    ⟨hsending, hnotes, hwritten, hwire, hreceiving, 0, 16384, by simp [hreads]⟩
  exact ⟨l, hl, horder, hquiet, (hall hquiet).trans hsent⟩

end ByteborneWorld.LinkRun
