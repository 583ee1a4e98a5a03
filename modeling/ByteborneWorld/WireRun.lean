import ByteborneWorld.SendModel
import ByteborneWorld.DrainRun

/-!
From the serializer of one party to the message queue of the other: the bytes of the packets,
cut into reads at any places, become the entries of the messages.
-/

namespace ByteborneWorld.WireRun

open ByteborneWorld.ChatProto ByteborneWorld.PacketModel ByteborneWorld.RecvModel
open ByteborneWorld.SendModel ByteborneWorld.SessionModel ByteborneWorld.DrainRun
open ByteborneWorld.Lts

variable {κ : Type*} {pb : Protobuf} {build : Build} {sessionId : ℕ}

/-! ### A receiver -/

/-- The loop of `handleSessionEvent`, up to the call of `receive`; `none` when that is not
reached in the given number of steps. -/
def loop (build : Build) (pb : Protobuf) (sessionId : ℕ) : ℕ → Drain κ → Option (Drain κ)
  | 0, _ => none
  | n + 1, d =>
    if d.pc = .receive then some d else loop build pb sessionId n (d.step build pb sessionId)

/-- One read of a session: its handler starts it, the bytes arrive, and its completion
handler runs. -/
def arrive (s : Session κ) (bs : List UInt8) : Option (Session κ) := do
  let (s, _) ← s.runStrand []
  let s ← s.readDone 0 (.ok bs)
  let s ← s.readQueue 0
  let (s, _) ← s.runStrand []
  return s

/-- A read, and the main thread's handling of its event. -/
def receiveCycle (build : Build) (pb : Protobuf) (sessionId : ℕ) (d : Drain κ)
    (bs : List UInt8) : Option (Drain κ) := do
  let s ← arrive d.session bs
  let d ← loop build pb sessionId (3 * s.receiveBuffer.getUnreadSize + 2)
    { d with pc := .getFrontPacket, session := s }
  -- `receive`: the flag, then the post
  return (d.step build pb sessionId).step build pb sessionId

/-- A read delivers at least one byte and at most what it was offered room for. -/
def Offered (d : Drain κ) (bs : List UInt8) : Prop :=
  1 ≤ bs.length ∧ bs.length ≤ d.session.receiveBuffer.getUnwrittenSize

/-- A session that was just started, and nothing received. -/
def started : Drain κ := ⟨.outside, Session.new.start.1.post .asyncRead, []⟩

/-! ### The loop returns -/

variable (build sessionId) in
lemma loop_eq_some {d : Drain κ} {j : ℕ} (k : ℕ)
    (hbefore : ∀ i < j, ((Drain.step build pb sessionId)^[i] d).pc ≠ .receive)
    (hpc : ((Drain.step build pb sessionId)^[j] d).pc = .receive) :
    loop build pb sessionId (j + 1 + k) d = some ((Drain.step build pb sessionId)^[j] d) := by
  induction j generalizing d with
  | zero =>
    rw [show 0 + 1 + k = k + 1 by omega, loop, if_pos (by exact hpc)]
    rfl
  | succ j ih =>
    rw [show j + 1 + 1 + k = (j + 1 + k) + 1 by omega, loop,
      if_neg (by exact hbefore 0 (by omega))]
    exact ih (fun i hi => hbefore (i + 1) (by omega)) hpc

variable (build sessionId) in
/-- **The loop on a running session returns**, with the packets moved to the queue. -/
theorem loop_drained {d : Drain κ} {ps : List (Packet pb)} {tail : List UInt8}
    (hpc : d.pc = .getFrontPacket) (hr : d.session.running = true)
    (h : d.session.receiveBuffer.unread = flat ps ++ tail) (htail : Incomplete tail)
    (hps : ∀ p ∈ ps, p.bytes.length ≤ d.session.receiveBuffer.size) :
    ∃ d', loop build pb sessionId (3 * d.session.receiveBuffer.getUnreadSize + 2) d =
      some { d' with pc := .receive } ∧ Drained sessionId ps tail d d' := by
  have hpop : ∀ p ∈ ps, Nominal build d.session.receiveBuffer.size p.bytes.length :=
    fun p hp _ => hps p hp
  have hd := drained_iterate build sessionId hpc hr h hpop
  refine ⟨_, ?_, hd⟩
  set d' := (Drain.step build pb sessionId)^[3 * ps.length] d with hd'
  have hlast : (Drain.step build pb sessionId)^[3 * ps.length + 1] d =
      { d' with pc := .receive } := by
    rw [Function.iterate_succ_apply', ← hd']
    exact step_incomplete pb build sessionId hd.pc (hd.unread ▸ htail)
  -- a packet is not empty, so the fuel is enough
  have hfuel : ps.length ≤ d.session.receiveBuffer.getUnreadSize := by
    rw [← ReceiveBuffer.unread_length, h, List.length_append]
    exact le_trans (length_le_flat ps) (Nat.le_add_right _ _)
  have hloop := loop_eq_some build sessionId (d := d) (j := 3 * ps.length + 1)
    (3 * d.session.receiveBuffer.getUnreadSize - 3 * ps.length) (fun i hi => ?_)
    (by rw [hlast])
  · rw [← hlast, ← hloop]
    congr 1
    omega
  · rcases Nat.lt_succ_iff_lt_or_eq.mp hi with hi | rfl
    · have hpop' : ∀ p ∈ ps.dropLast, Nominal build d.session.receiveBuffer.size p.bytes.length :=
        fun p hp => hpop p (List.dropLast_subset ps hp)
      exact (busy_iterate hpc hr h hpop' hi).1.pc_ne_receive
    · rw [← hd', hd.pc]; simp

/-! ### The receiver between two reads -/

lemma arrive_eq_some {s : Session κ} {bs : List UInt8} (hr : s.running = true)
    (ho : s.socketOpen = true) (hs : s.strand = [.asyncRead]) (hreads : s.reads = [])
    (hpos : 1 ≤ bs.length) (hle : bs.length ≤ s.receiveBuffer.getUnwrittenSize) :
    arrive s bs = some { s with
      strand := []
      receiveBuffer := (s.receiveBuffer.store s.receiveBuffer.writeOffset bs).onWritten
        bs.length hle } := by
  have hne : bs ≠ [] := by rintro rfl; simp at hpos
  have hle' : bs.length ≤ (s.receiveBuffer.store s.receiveBuffer.writeOffset
    bs).getUnwrittenSize := hle
  simp [arrive, Session.runStrand, hs, Session.exec, Session.asyncRead, hr, ho, hreads,
    Session.readDone, hne, hle, Session.readQueue, Session.post, Session.onRead, hle']

/-- What holds between two reads, when `received` are the bytes that have arrived so far. -/
structure Ready (sessionId : ℕ) (ps : List (Packet pb)) (received : List UInt8)
    (d : Drain κ) : Prop where
  pc : d.pc = .outside
  running : d.session.running = true
  socketOpen : d.session.socketOpen = true
  strand : d.session.strand = [.asyncRead]
  reads : d.session.reads = []
  roomy : d.session.receiveBuffer.Roomy
  size : d.session.receiveBuffer.size = RecvModel.DefaultSize
  unread_lt : d.session.receiveBuffer.getUnreadSize < RecvModel.DefaultSize
  incomplete : Incomplete d.session.receiveBuffer.unread
  /-- each byte that arrived is in the buffer or belongs to a packet in the queue -/
  account : ∃ k ≤ ps.length, d.queue = (ps.take k).map (fun p => p.entry sessionId) ∧
    flat (ps.take k) ++ d.session.receiveBuffer.unread = received

lemma Ready.unwritten_pos {ps : List (Packet pb)} {received : List UInt8} {d : Drain κ}
    (h : Ready sessionId ps received d) : 0 < d.session.receiveBuffer.getUnwrittenSize :=
  ReceiveBuffer.unwritten_pos_of_roomy _ h.roomy (h.size ▸ h.unread_lt)

lemma ready_started (ps : List (Packet pb)) : Ready sessionId ps [] (started : Drain κ) where
  pc := rfl
  running := rfl
  socketOpen := rfl
  strand := rfl
  reads := rfl
  roomy := ReceiveBuffer.roomy_new _
  size := rfl
  unread_lt := by simp [started, Session.new, Session.start, Session.post, ReceiveBuffer.new,
    ReceiveBuffer.getUnreadSize, RecvModel.DefaultSize]
  incomplete := .inl (by simp [started, Session.new, Session.start, Session.post, headerSize])
  account := ⟨0, Nat.zero_le _, by simp [started], by simp [flat, started, Session.new,
    Session.start, Session.post]⟩

variable (build) in
/-- **A read between two packets or in the middle of one** leaves the receiver ready. -/
theorem Ready.next {ps : List (Packet pb)} {received bs : List UInt8} {d : Drain κ}
    (hps : ∀ p ∈ ps, p.bytes.length ≤ RecvModel.DefaultSize) (h : Ready sessionId ps received d)
    (hpre : received ++ bs <+: flat ps) (hpos : 1 ≤ bs.length)
    (hle : bs.length ≤ d.session.receiveBuffer.getUnwrittenSize) :
    ∃ d', receiveCycle build pb sessionId d bs = some d' ∧
      Ready sessionId ps (received ++ bs) d' := by
  obtain ⟨k, hk, hq, haccount⟩ := h.account
  have harrive := arrive_eq_some h.running h.socketOpen h.strand h.reads hpos hle
  have hunread := ReceiveBuffer.unread_onWritten_store d.session.receiveBuffer bs hle
  have hroom := ReceiveBuffer.roomy_onWritten_store d.session.receiveBuffer
    d.session.receiveBuffer.writeOffset bs h.roomy hle
  have hbsize := ReceiveBuffer.size_onWritten
    (d.session.receiveBuffer.store d.session.receiveBuffer.writeOffset bs) bs.length hle
  generalize (d.session.receiveBuffer.store d.session.receiveBuffer.writeOffset bs).onWritten
    bs.length hle = b at harrive hunread hroom hbsize
  -- the unread bytes are a beginning of the packets that are not in the queue yet
  have hsplit : b.unread <+: flat (ps.drop k) := by
    rw [← haccount, List.append_assoc, ← hunread] at hpre
    nth_rewrite 2 [← List.take_append_drop k ps] at hpre
    rw [flat_append] at hpre
    exact (List.prefix_append_right_inj _).mp hpre
  obtain ⟨j, tail, hj, hbytes, htail, hlen⟩ := split_prefix hsplit
  obtain ⟨d', hloop, hd⟩ := loop_drained build sessionId
    (d := ⟨.getFrontPacket, { d.session with strand := [], receiveBuffer := b }, d.queue⟩)
    rfl h.running hbytes htail fun p hp =>
      (hps p (List.mem_of_mem_drop (List.mem_of_mem_take hp))).trans_eq
        (hbsize.trans h.size).symm
  obtain ⟨b', hsize, hsess⟩ := hd.session
  have hcycle : receiveCycle build pb sessionId d bs =
      some { d' with pc := .outside, session := d'.session.post .asyncRead } := by
    simp only [receiveCycle, harrive, Option.bind_eq_bind, Option.bind_some, hloop]
    simp [Drain.step, Session.receive, hsess, h.running]
  have htail_lt : tail.length < RecvModel.DefaultSize := by
    rcases hlen with rfl | ⟨p, hp, hlt⟩
    · simp [RecvModel.DefaultSize]
    · exact lt_of_lt_of_le hlt (hps p (List.mem_of_mem_drop hp))
  have hkeep : d'.session.running = true ∧ d'.session.socketOpen = true ∧
      d'.session.strand = [] ∧ d'.session.reads = [] := by
    rw [hsess]
    exact ⟨h.running, h.socketOpen, rfl, h.reads⟩
  have hbsize' : d'.session.receiveBuffer.size = RecvModel.DefaultSize := by
    rw [hsess]
    exact hsize.trans (hbsize.trans h.size)
  refine ⟨_, hcycle, ⟨rfl, hkeep.1, hkeep.2.1, by simp [Session.post, hkeep.2.2.1],
    hkeep.2.2.2, hd.roomy hroom, hbsize', ?_, ?_, k + j, ?_, ?_, ?_⟩⟩
  · rw [← hd.unread, ReceiveBuffer.unread_length] at htail_lt
    exact htail_lt
  · exact hd.unread.symm ▸ htail
  · rw [List.length_drop] at hj
    omega
  · rw [List.take_add, List.map_append, ← hq]
    exact hd.queue
  · rw [List.take_add, flat_append, List.append_assoc]
    have : (Session.post d'.session .asyncRead).receiveBuffer.unread = tail := hd.unread
    rw [this, ← hbytes, hunread, ← List.append_assoc, haccount]

variable (build) in
/-- **Any sequence of reads** that together deliver a beginning of the packets. -/
theorem ready_run {ps : List (Packet pb)} {received : List UInt8} {d : Drain κ}
    {reads : List (List UInt8)} (hps : ∀ p ∈ ps, p.bytes.length ≤ RecvModel.DefaultSize)
    (h : Ready sessionId ps received d) (hpre : received ++ reads.flatten <+: flat ps)
    (hreads : Along (receiveCycle build pb sessionId) Offered d reads) :
    ∃ d', run (receiveCycle build pb sessionId) d reads = some d' ∧
      Ready sessionId ps (received ++ reads.flatten) d' := by
  induction reads generalizing received d with
  | nil => exact ⟨d, rfl, by simpa using h⟩
  | cons bs reads ih =>
    rw [List.flatten_cons, ← List.append_assoc] at hpre ⊢
    obtain ⟨⟨hpos, hle⟩, hrest⟩ := hreads
    obtain ⟨d₁, hstep, h₁⟩ := h.next build hps
      ((List.prefix_append _ _).trans hpre) hpos hle
    obtain ⟨d', hrun, h'⟩ := ih h₁ hpre (hrest d₁ hstep)
    exact ⟨d', by simpa [hstep] using hrun, h'⟩

/-! ### Both ends together -/

lemma Ready.queue_eq {ps : List (Packet pb)} {d : Drain κ} (h : Ready sessionId ps (flat ps) d) :
    d.queue = ps.map fun p => p.entry sessionId := by
  obtain ⟨k, hk, hq, haccount⟩ := h.account
  nth_rewrite 2 [← List.take_append_drop k ps] at haccount
  rw [flat_append] at haccount
  have hu := List.append_cancel_left haccount
  match hdrop : ps.drop k with
  | [] =>
    rw [hq, List.take_of_length_le (List.drop_eq_nil_iff.mp hdrop)]
  | p :: qs =>
    rw [hdrop, flat_cons] at hu
    exact absurd (hu ▸ h.incomplete) (not_incomplete p (flat qs))

lemma exists_packets (hpb : pb.RoundTrips) (sessionId : ℕ) {ms : List Message}
    (hms : ∀ m ∈ ms, headerSize + pb.byteSizeLong m ≤ 4096) :
    ∃ ps : List (Packet pb), ps.map Packet.bytes = ms.map (packet pb) ∧
      (ps.map fun p => p.entry sessionId) = ms.map (entry sessionId) := by
  induction ms with
  | nil => exact ⟨[], rfl, rfl⟩
  | cons m ms ih =>
    obtain ⟨ps, hbytes, hentry⟩ := ih fun m' hm' => hms m' (by simp [hm'])
    have hm : headerSize + pb.byteSizeLong m < 2 ^ 16 :=
      lt_of_le_of_lt (hms m (by simp)) (by norm_num)
    refine ⟨.ofMessage hpb m hm :: ps, ?_, ?_⟩
    · rw [List.map_cons, hbytes]; rfl
    · rw [List.map_cons, hentry, Packet.entry_ofMessage]; rfl

/-- **The wire round trip.** The packets of any messages that fit a send buffer, cut into any
reads that the receive buffer offers room for: the queue of the receiver holds the entries of
the messages that are complete, in order, the rest of the bytes waits in the buffer, and there
is room for another read. -/
theorem wire_round_trip (hpb : pb.RoundTrips) (g : SendBufferManager) {ms : List Message}
    (hms : ∀ m ∈ ms, headerSize + pb.byteSizeLong m ≤ 4096) :
    ∃ g' chunks, serializeAll pb g ms = some (g', chunks) ∧
      ∀ reads, reads.flatten <+: (chunks.map g'.bytes).flatten →
        Along (receiveCycle build pb sessionId) Offered (started : Drain κ) reads →
        ∃ (d : Drain κ) (k : ℕ), run (receiveCycle build pb sessionId) started reads = some d ∧
          0 < d.session.receiveBuffer.getUnwrittenSize ∧
          d.queue = (ms.take k).map (entry sessionId) ∧
          ((ms.take k).map (packet pb)).flatten ++ d.session.receiveBuffer.unread =
            reads.flatten ∧
          (reads.flatten = (chunks.map g'.bytes).flatten → d.queue = ms.map (entry sessionId)) := by
  obtain ⟨g', chunks, hser, hbytes, -⟩ := serializeAll_fits (g := g) hms
  refine ⟨g', chunks, hser, fun reads hpre hreads => ?_⟩
  obtain ⟨ps, hps, hentry⟩ := exists_packets hpb sessionId hms
  have hflat : ∀ k, flat (ps.take k) = ((ms.take k).map (packet pb)).flatten := fun k => by
    rw [flat, List.flatMap_def, List.map_take, hps, List.map_take]
  have hall : flat ps = (chunks.map g'.bytes).flatten := by
    rw [hbytes, flat, List.flatMap_def, hps]
  have hlen : ∀ p ∈ ps, p.bytes.length ≤ RecvModel.DefaultSize := fun p hp => by
    have hmem : p.bytes ∈ ms.map (packet pb) := hps ▸ List.mem_map_of_mem hp
    obtain ⟨m, hm, hpm⟩ := List.mem_map.mp hmem
    rw [← hpm, packet_length]
    exact hms m hm
  obtain ⟨d, hrun, hd⟩ := ready_run build hlen (ready_started ps)
    (by rwa [List.nil_append, hall]) hreads
  rw [List.nil_append] at hd
  obtain ⟨k, -, hq, haccount⟩ := hd.account
  refine ⟨d, k, hrun, hd.unwritten_pos, ?_, ?_, fun h => ?_⟩
  · rw [hq, List.map_take, hentry, List.map_take]
  · rw [← hflat, haccount]
  · rw [h, ← hall] at hd
    rw [hd.queue_eq, hentry]

def twoChats : List Message :=
  [.c2sChat ⟨[], [104, 105], 1, 5⟩, .s2cChat ⟨[65], [104, 105], 1, 1, 7, 1⟩]

/-- It applies to the proto3 encoding. -/
theorem wire_round_trip_proto3 :
    ∃ g' chunks, serializeAll proto3 .new twoChats = some (g', chunks) ∧
      ∀ reads, reads.flatten <+: (chunks.map g'.bytes).flatten →
        Along (receiveCycle .Release proto3 1) Offered (started : Drain Unit) reads →
        ∃ (d : Drain Unit) (k : ℕ), run (receiveCycle .Release proto3 1) started reads = some d ∧
          0 < d.session.receiveBuffer.getUnwrittenSize ∧
          d.queue = (twoChats.take k).map (entry 1) ∧
          ((twoChats.take k).map (packet proto3)).flatten ++ d.session.receiveBuffer.unread =
            reads.flatten ∧
          (reads.flatten = (chunks.map g'.bytes).flatten → d.queue = twoChats.map (entry 1)) :=
  wire_round_trip proto3_roundTrips .new (by
    intro m hm
    simp only [twoChats, List.mem_cons, List.not_mem_nil, or_false] at hm
    rcases hm with rfl | rfl
    · rw [byteSizeLong_c2sChat _ (by decide) (by decide)]
      decide
    · rw [byteSizeLong_s2cChat _ (by decide) (by decide)]
      decide)

end ByteborneWorld.WireRun
