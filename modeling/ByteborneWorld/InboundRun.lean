import ByteborneWorld.RoomRun
import ByteborneWorld.StopRun

/-!
The receiving half of a session, over every interleaving: what the socket has delivered is in
the receive buffer, or waits there to be reported, or belongs to a packet that was pushed.
-/

namespace ByteborneWorld.InboundRun

open ByteborneWorld.ChatProto ByteborneWorld.PacketModel ByteborneWorld.RecvModel
open ByteborneWorld.SessionModel ByteborneWorld.DrainRun ByteborneWorld.Lts
open ByteborneWorld.SessionRun ByteborneWorld.RoomRun

variable {κ : Type*} {build : Build} {pb : Protobuf} {sessionId : ℕ} {owner : Owner}

/-! ### Bytes that are not reported yet -/

def landedOp : ReadOp → ℕ
  | .completed (.ok n) => n
  | _ => 0

def landedBy : Handler κ → ℕ
  | .onRead (.ok n) => n
  | _ => 0

/-- How many bytes behind the write pointer a completed read has stored. -/
def landed (s : Session κ) : ℕ := (s.reads.map landedOp).sum + (s.strand.map landedBy).sum

/-- The unread bytes, and those that a completed read has stored behind them. -/
def incoming (s : Session κ) : List UInt8 :=
  Memory.read s.receiveBuffer.buffer s.receiveBuffer.readOffset
    (s.receiveBuffer.getUnreadSize + landed s)

def readBy : IoAct κ → List UInt8
  | .readDone _ (.ok bs) => bs
  | _ => []

section Io

variable {s s' : Session κ} {a : IoAct κ} {pushed : List SessionEvent}

lemma landedBy_of_isRead {h : Handler κ} (hh : isRead h = false) : landedBy h = 0 := by
  cases h <;> first | rfl | cases hh

lemma sum_landedBy (hs : List (Handler κ)) :
    (hs.map landedBy).sum = ((hs.filter isRead).map landedBy).sum := by
  induction hs with
  | nil => rfl
  | cons h hs ih =>
    cases hh : isRead h with
    | true => simp [hh, ih]
    | false => simp [hh, ih, landedBy_of_isRead hh]

lemma landed_strand {h : Handler κ} {rest : List (Handler κ)} (hs : s.strand = h :: rest) :
    landed s = landed { s with strand := rest } + landedBy h := by
  simp only [landed, hs, List.map_cons, List.sum_cons]
  omega

lemma landed_quiet (hq : Quiet s s') : landed s' = landed s := by
  rw [landed, landed, hq.reads, sum_landedBy s'.strand, hq.strand, ← sum_landedBy]

lemma landedOp_cancel (op : ReadOp) : landedOp op.cancel = landedOp op := by
  cases op <;> rfl

lemma landed_eq_zero (ht : sessionTokens s = 0) : landed s = 0 := by
  rw [sessionTokens_eq] at ht
  have hreads : s.reads = [] := List.length_eq_zero_iff.mp (by omega)
  have hstrand : s.strand.filter isRead = [] := List.length_eq_zero_iff.mp (by omega)
  simp [landed, sum_landedBy s.strand, hreads, hstrand]

lemma landed_of_pending {i offset size : ℕ} (ht : sessionTokens s ≤ 1)
    (hi : s.reads[i]? = some (.pending offset size)) :
    s.reads = [.pending offset size] ∧ i = 0 ∧ (s.strand.map landedBy).sum = 0 := by
  obtain ⟨hlt, hop⟩ := List.getElem?_eq_some_iff.mp hi
  rw [sessionTokens_eq] at ht
  obtain ⟨op, hreads⟩ := List.length_eq_one_iff.mp (show s.reads.length = 1 by omega)
  have hstrand : s.strand.filter isRead = [] := List.length_eq_zero_iff.mp (by omega)
  have h0 : i = 0 := by omega
  subst h0
  simp only [hreads, List.getElem_cons_zero] at hop
  exact ⟨by rw [hreads, hop], rfl, by rw [sum_landedBy, hstrand]; rfl⟩

lemma incoming_congr (hb : s'.receiveBuffer = s.receiveBuffer) (hl : landed s' = landed s) :
    incoming s' = incoming s := by
  rw [incoming, incoming, hb, hl]

lemma incoming_eq_unread (hl : landed s = 0) : incoming s = s.receiveBuffer.unread := by
  rw [incoming, hl]
  rfl

lemma unread_prefix_incoming (s : Session κ) : s.receiveBuffer.unread <+: incoming s := by
  rw [incoming, Memory.read_add]
  exact List.prefix_append _ _

lemma incoming_readOk {i offset size : ℕ} {bs : List UInt8} (ht : sessionTokens s ≤ 1)
    (hc : Captured s) (hi : s.reads[i]? = some (.pending offset size)) :
    incoming { s with
      receiveBuffer := s.receiveBuffer.store offset bs
      reads := s.reads.set i (.completed (.ok bs.length)) } = incoming s ++ bs := by
  obtain ⟨hreads, rfl, hstrand⟩ := landed_of_pending ht hi
  obtain ⟨rfl, -⟩ := hc.reads _ (List.mem_of_getElem? hi)
  have hle := s.receiveBuffer.read_le
  have hend : s.receiveBuffer.readOffset + (s.receiveBuffer.writeOffset -
      s.receiveBuffer.readOffset) = s.receiveBuffer.writeOffset := by omega
  have hzero : landed s = 0 := by simp [landed, hreads, hstrand, landedOp]
  rw [incoming_eq_unread hzero]
  simp only [incoming, landed, hreads, hstrand, List.set_cons_zero, List.map_cons, List.map_nil,
    List.sum_cons, List.sum_nil, landedOp, Nat.add_zero, ReceiveBuffer.store,
    ReceiveBuffer.unread, ReceiveBuffer.getUnreadSize]
  rw [Memory.read_add, hend, Memory.read_write,
    Memory.read_write_disjoint _ _ (.inl (by omega))]

/-- **Bytes come in at the end, and only when a read stores them.** -/
theorem incoming_ioStep (h : s.ioStep a = some (s', pushed)) (ht : sessionTokens s ≤ 1)
    (hc : Captured s) : incoming s' = incoming s ++ readBy a := by
  by_cases ha : ∃ i bs, a = .readDone i (.ok bs)
  · obtain ⟨i, bs, rfl⟩ := ha
    simp only [Session.ioStep, Option.map_eq_some_iff, Prod.mk.injEq] at h
    obtain ⟨t, h, rfl, -⟩ := h
    unfold Session.readDone at h
    split at h
    · cases ‹Except.ok bs = _›
      split_ifs at h
      cases h
      exact incoming_readOk ht hc ‹_›
    · cases ‹Except.ok bs = _›
    · cases h
  have hnone : readBy a = [] := by
    unfold readBy
    split
    · exact absurd ⟨_, _, rfl⟩ ha
    · rfl
  rw [hnone, List.append_nil]
  cases ioStep_spec hc.posting h with
  | quiet hq => exact incoming_congr hq.receiveBuffer (landed_quiet hq)
  | handler hs hh hh' hq =>
    refine incoming_congr hq.receiveBuffer ?_
    rw [landed_quiet hq.quiet, landed_strand hs, landedBy_of_isRead hh, Nat.add_zero]
  | @asyncRead _ rest hs =>
    refine incoming_congr (receiveBuffer_asyncRead _) ?_
    rw [landed_strand hs]
    rcases asyncRead_cases { s with strand := rest } with ⟨-, heq⟩ | ⟨-, op, heq, -, hop⟩ <;>
      rw [heq]
    · rfl
    · have hzero : landedOp op = 0 := by
        unfold landedOp
        split
        · exact absurd rfl (hop _)
        · rfl
      simp [landed, hzero, landedBy]
  | onReadError hs hq =>
    refine incoming_congr hq.receiveBuffer ?_
    rw [landed_quiet hq.quiet, landed_strand hs]
    rfl
  | @onRead _ rest n hs hn =>
    have hle := s.receiveBuffer.read_le
    have hl := landed_strand hs
    simp only [landedBy] at hl
    have hsum : s.receiveBuffer.writeOffset + n - s.receiveBuffer.readOffset +
        landed { s with strand := rest } =
          s.receiveBuffer.writeOffset - s.receiveBuffer.readOffset + landed s := by omega
    exact congrArg (Memory.read s.receiveBuffer.buffer s.receiveBuffer.readOffset) hsum
  | @close _ rest hs =>
    have hq := Still.close { s with strand := rest } ‹_›
    refine incoming_congr hq.receiveBuffer ?_
    rw [landed_quiet hq.quiet, landed_strand hs]
    simp [landed, landedBy, Function.comp_def, landedOp_cancel]
  | readOk => exact absurd ⟨_, _, rfl⟩ ha
  | readError hi =>
    refine incoming_congr rfl ?_
    obtain ⟨hreads, rfl, -⟩ := landed_of_pending ht hi
    simp [landed, hreads, landedOp]
  | @readQueue i r hi =>
    refine incoming_congr rfl ?_
    obtain ⟨hlt, hop⟩ := List.getElem?_eq_some_iff.mp hi
    have hperm := ((List.getElem_cons_eraseIdx_perm hlt).map landedOp).sum_nat
    have hboth : landedBy (.onRead r : Handler κ) = landedOp (.completed r) := by
      cases r <;> rfl
    simp only [hop, List.map_cons, List.sum_cons] at hperm
    simp only [landed, Session.post, List.map_append, List.sum_append, List.map_singleton,
      List.sum_singleton, hboth]
    omega

lemma IoStep.unread_eq (h : IoStep s a s' pushed) (hc : Captured s) (ht : sessionTokens s ≤ 1)
    (ht' : 1 ≤ sessionTokens s') : s'.receiveBuffer.unread = s.receiveBuffer.unread := by
  cases h with
  | quiet hq => rw [hq.receiveBuffer]
  | handler hs hh hh' hq => rw [hq.receiveBuffer]
  | asyncRead hs => rw [receiveBuffer_asyncRead]
  | onReadError hs hq => rw [hq.receiveBuffer]
  | onRead hs hn =>
    rw [sessionTokens_strand hs] at ht
    simp only [isRead, if_true, sessionTokens] at ht ht'
    omega
  | close hs => rw [(Still.close _ _).receiveBuffer]
  | readOk hi hbs =>
    obtain ⟨rfl, -⟩ := hc.reads _ (List.mem_of_getElem? hi)
    have hle := s.receiveBuffer.read_le
    have hend : s.receiveBuffer.readOffset + s.receiveBuffer.getUnreadSize ≤
        s.receiveBuffer.writeOffset := by unfold ReceiveBuffer.getUnreadSize; omega
    exact Memory.read_write_disjoint _ _ (.inl hend)
  | readError | readQueue => rfl

end Io

/-! ### A session and what it pushes -/

def readOf : Act κ → List UInt8
  | .io a => readBy a
  | _ => []

def received (_ : Sys κ) (a : Act κ) (_ : Sys κ) : List UInt8 := readOf a

/-- The entries that a step appends to the message queue. -/
def pushed (s : Sys κ) (a : Act κ) (s' : Sys κ) : MessageQueue :=
  match a with
  | .main => s'.main.queue.drop s.main.queue.length
  | _ => []

/-- Between the push and the pop, and where the pop has failed, the packet is in the queue and in
the buffer. -/
def inHand : Pc → ℕ
  | .popFrontPacket | .fault _ => 1
  | _ => 0

/-- What has become of the bytes of a stream: `k` of its packets were pushed and popped, and
`again` holds the entries of the next one, which was pushed but not popped. -/
structure Account (ps : List (Packet pb)) (sessionId : ℕ) (bytes : List UInt8)
    (entries : MessageQueue) (rest : List UInt8) (k : ℕ) (again : MessageQueue) : Prop where
  le : k ≤ ps.length
  bytes : bytes = flat (ps.take k) ++ rest
  entries : entries = ((ps.take k).map fun p => p.entry sessionId) ++ again
  again : ∀ e ∈ again, ps[k]?.map (fun p => p.entry sessionId) = some e

/-- A debug build, and a packet that is longer than the buffer's nominal size. -/
def Overlong (build : Build) (ps : List (Packet pb)) : Prop :=
  build = .Debug ∧ ∃ p ∈ ps, DefaultSize < p.bytes.length

/-- What holds of the main thread and its session, with the bytes read and the entries pushed so
far. Only a session that is stopped gets a packet pushed again. -/
structure Counted (build : Build) (ps : List (Packet pb)) (sessionId : ℕ) (bytes : List UInt8)
    (entries : MessageQueue) (fresh : Prop) (d : Drain κ) : Prop where
  account : ∃ k again, Account ps sessionId bytes entries (incoming d.session) k again ∧
    (d.session.running = true ∨ fresh → again.length = inHand d.pc)
  view : ∀ v, d.pc = .push v → v = PacketView.of d.session.receiveBuffer.unread
  fault : ∀ f, d.pc = .fault f → f = .assertion ∧ Overlong build ps

section Account

variable {ps : List (Packet pb)} {bytes rest : List UInt8} {entries again : MessageQueue} {k : ℕ}

lemma front_of_complete (h : rest <+: flat ps) (hc : ¬Incomplete rest) :
    ∃ p tail, ps[0]? = some p ∧ rest = p.bytes ++ tail := by
  obtain ⟨j, tail, hj, rfl, htail, -⟩ := split_prefix h
  cases ps with
  | nil =>
    obtain rfl : j = 0 := Nat.le_zero.mp hj
    exact absurd htail hc
  | cons p ps =>
    cases j with
    | zero => exact absurd htail hc
    | succ j => exact ⟨p, flat (ps.take j) ++ tail, rfl, by simp⟩

lemma Account.rest_prefix (h : Account ps sessionId bytes entries rest k again)
    (hps : bytes <+: flat ps) : rest <+: flat (ps.drop k) := by
  rw [h.bytes] at hps
  nth_rewrite 2 [← List.take_append_drop k ps] at hps
  rw [flat_append] at hps
  exact (List.prefix_append_right_inj _).mp hps

lemma Account.front (h : Account ps sessionId bytes entries rest k again)
    (hps : bytes <+: flat ps) (hc : ¬Incomplete rest) :
    ∃ p tail, ps[k]? = some p ∧ rest = p.bytes ++ tail := by
  obtain ⟨p, tail, hp, hrest⟩ := front_of_complete (h.rest_prefix hps) hc
  exact ⟨p, tail, by simpa using hp, hrest⟩

lemma Account.append (h : Account ps sessionId bytes entries rest k again) (bs : List UInt8) :
    Account ps sessionId (bytes ++ bs) entries (rest ++ bs) k again :=
  ⟨h.le, by rw [h.bytes, List.append_assoc], h.entries, h.again⟩

lemma Account.push (h : Account ps sessionId bytes entries rest k again) {p : Packet pb}
    (hp : ps[k]? = some p) :
    Account ps sessionId bytes (entries ++ [p.entry sessionId]) rest k
      (again ++ [p.entry sessionId]) := by
  refine ⟨h.le, h.bytes, by rw [h.entries, List.append_assoc], fun e he => ?_⟩
  rcases List.mem_append.mp he with he | he
  · exact h.again e he
  · rw [hp, List.mem_singleton.mp he]
    rfl

lemma Account.pop {p : Packet pb} {tail : List UInt8}
    (h : Account ps sessionId bytes entries (p.bytes ++ tail) k again) (hp : ps[k]? = some p)
    (hone : again.length = 1) : Account ps sessionId bytes entries tail (k + 1) [] := by
  obtain ⟨e, rfl⟩ := List.length_eq_one_iff.mp hone
  have he := h.again e (by simp)
  rw [hp, Option.map_some, Option.some.injEq] at he
  obtain ⟨hlt, rfl⟩ := List.getElem?_eq_some_iff.mp hp
  refine ⟨hlt, ?_, ?_, by simp⟩
  · rw [h.bytes, List.take_succ_eq_append_getElem hlt, flat_append, List.append_assoc]
    simp [flat]
  · rw [h.entries, ← he, List.take_succ_eq_append_getElem hlt, List.map_append, List.append_nil]
    rfl

end Account

/-! ### Every step -/

section Drain

variable {ps : List (Packet pb)} {bytes : List UInt8} {entries : MessageQueue} {d : Drain κ}

lemma Counted.goto {fresh : Prop} (h : Counted build ps sessionId bytes entries fresh d) {pc : Pc}
    {session : Session κ} {queue : MessageQueue} (hi : incoming session = incoming d.session)
    (hr : session.running = true → d.session.running = true) (hpc : inHand pc = inHand d.pc)
    (hview : ∀ v, pc = .push v → v = PacketView.of session.receiveBuffer.unread)
    (hfault : ∀ f, pc = .fault f → f = .assertion ∧ Overlong build ps) :
    Counted build ps sessionId bytes entries fresh ⟨pc, session, queue⟩ := by
  obtain ⟨k, again, hacc, hone⟩ := h.account
  refine ⟨⟨k, again, ?_, fun hor => ?_⟩, hview, hfault⟩
  · simpa only [hi] using hacc
  · rw [hone (hor.imp_left hr)]
    exact hpc.symm

variable (build) in
/-- **Inside the handler** each packet is pushed and then popped. -/
lemma counted_drain (h : Counted build ps sessionId bytes entries False d) (hps : bytes <+: flat ps)
    (ht : sessionTokens d.session = 0) (hb : Sized d.session.receiveBuffer)
    (hk : Knows d.session.receiveBuffer.unread d.pc) :
    Counted build ps sessionId bytes
      (entries ++ (d.step build pb sessionId).queue.drop d.queue.length) False
      (d.step build pb sessionId) := by
  have hincoming := incoming_eq_unread (landed_eq_zero ht)
  have hnone : entries ++ d.queue.drop d.queue.length = entries := by simp
  cases hpc : d.pc with
  | getFrontPacket =>
    by_cases hinc : Incomplete d.session.receiveBuffer.unread
    · simp only [Drain.step, hpc, getFrontPacket_eq_none hinc, hnone]
      exact h.goto rfl id (by rw [hpc]; rfl) (by simp) (by simp)
    · simp only [Drain.step, hpc, getFrontPacket_of_complete hinc, hnone]
      exact h.goto rfl id (by rw [hpc]; rfl) (by simp) (by simp)
  | push view =>
    rw [hpc] at hk
    obtain ⟨k, again, hacc, hone⟩ := h.account
    rw [hincoming] at hacc
    obtain ⟨p, tail, hp, hunread⟩ := hacc.front hps hk
    have hpush : push build pb d.queue sessionId view = .ok (d.queue ++ [p.entry sessionId]) := by
      rw [h.view view hpc, hunread, p.push_view]
    simp only [Drain.step, hpc, hpush, List.drop_left]
    refine ⟨⟨k, again ++ [p.entry sessionId], ?_, fun hr => ?_⟩, by simp, by simp⟩
    · rw [hincoming]
      exact hacc.push hp
    · rw [List.length_append, hone hr, hpc]
      rfl
  | popFrontPacket =>
    rw [hpc] at hk
    obtain ⟨k, again, hacc, hone⟩ := h.account
    rw [hincoming] at hacc
    obtain ⟨p, tail, hp, hunread⟩ := hacc.front hps hk
    cases hr : d.session.running with
    | false =>
      -- nothing is popped, and the same packet will be pushed again
      simp only [Drain.step, hpc, popFrontPacket_stopped hr, hnone]
      refine ⟨⟨k, again, by rwa [hincoming], fun hor => ?_⟩, by simp, by simp⟩
      simp [hr] at hor
    | true =>
      by_cases hp' : Poppable build d.session.receiveBuffer
      swap
      · simp only [Drain.step, hpc, popFrontPacket_of_not_poppable hr hp', hnone]
        rw [poppable_iff hunread, hb.size] at hp'
        obtain ⟨hdebug, hlong⟩ := Classical.not_imp.mp hp'
        refine ⟨⟨k, again, by rwa [hincoming], fun hor => ?_⟩, by simp, fun f hf => ?_⟩
        · rw [hone hor, hpc]
          rfl
        · cases hf
          exact ⟨rfl, hdebug, p, List.mem_of_getElem? hp, not_le.mp hlong⟩
      obtain ⟨b, hpop, hrest, -⟩ := popFrontPacket_of_complete hr hk hp'
      simp only [Drain.step, hpc, hpop, hnone]
      rw [hunread] at hacc
      have hone' : again.length = 1 := by rw [hone (.inl hr), hpc]; rfl
      have htail : incoming { d.session with receiveBuffer := b } = tail := by
        have hl : landed { d.session with receiveBuffer := b } = 0 := landed_eq_zero ht
        rw [incoming_eq_unread hl]
        rw [hunread, p.view, List.drop_left] at hrest
        exact hrest
      refine ⟨⟨k + 1, [], ?_, fun _ => rfl⟩, by simp, by simp⟩
      rw [htail]
      exact hacc.pop hp hone'
  | receive =>
    simp only [Drain.step, hpc, hnone]
    split_ifs <;> exact h.goto rfl id (by rw [hpc]; rfl) (by simp) (by simp)
  | post =>
    simp only [Drain.step, hpc, hnone]
    refine h.goto (incoming_congr rfl ?_) id (by rw [hpc]; rfl) (by simp) (by simp)
    simp [landed, Session.post, landedBy]
  | outside | fault | nullSession =>
    simp only [Drain.step, hpc, hnone]
    exact h

end Drain

section Sys

variable {ps : List (Packet pb)} {bytes : List UInt8} {entries : MessageQueue} {s s' : Sys κ}
  {a : Act κ}

/-- While the token is in the session, or is not made yet, no whole packet is left behind. -/
def Waits (s : Sys κ) : Prop :=
  1 ≤ sessionTokens s.main.session ∨ s.phase ≠ .started →
    Incomplete s.main.session.receiveBuffer.unread

structure Inbound (build : Build) (ps : List (Packet pb)) (sessionId : ℕ) (s : Sys κ)
    (bytes : List UInt8) (entries : MessageQueue) : Prop where
  counted : Counted build ps sessionId bytes entries (s.phase ≠ .started) s.main
  waits : Waits s

lemma inbound_init (build : Build) (ps : List (Packet pb)) :
    Inbound build ps sessionId (init : Sys κ) [] [] where
  counted := ⟨⟨0, [], ⟨Nat.zero_le _, by simp [flat, incoming, landed, init, Session.new,
    ReceiveBuffer.new, ReceiveBuffer.getUnreadSize], rfl, by simp⟩, fun _ => rfl⟩,
    by simp [init], by simp [init]⟩
  waits _ := .inl (by simp [init, Session.new, headerSize])

lemma Counted.beside {fresh fresh' : Prop} {d d' : Drain κ} {bs : List UInt8}
    (h : Counted build ps sessionId bytes entries fresh d) (hpc : d'.pc = d.pc)
    (hi : incoming d'.session = incoming d.session ++ bs)
    (hr : d'.session.running = true ∨ fresh' → d.session.running = true ∨ fresh)
    (hu : d.pc.Inside → d'.session.receiveBuffer.unread = d.session.receiveBuffer.unread) :
    Counted build ps sessionId (bytes ++ bs) entries fresh' d' := by
  obtain ⟨k, again, hacc, hone⟩ := h.account
  refine ⟨⟨k, again, ?_, fun hor => ?_⟩, fun v hv => ?_, fun f => by rw [hpc]; exact h.fault f⟩
  · rw [hi]
    exact hacc.append bs
  · rw [hpc]
    exact hone (hr hor)
  · rw [hpc] at hv
    rw [hu (by rw [hv]; trivial)]
    exact h.view v hv

lemma landed_post {session : Session κ} {h : Handler κ} (hh : landedBy h = 0) :
    landed (session.post h) = landed session := by
  simp [landed, Session.post, hh]

lemma incoming_start (session : Session κ) : incoming session.start.1 = incoming session := by
  unfold Session.start
  split_ifs <;> rfl

/-- What the main thread leaves in the buffer when it posts the next read. -/
lemma waits_drain {d : Drain κ} (hk : Knows d.session.receiveBuffer.unread d.pc)
    (ht : sessionTokens d.session = 0)
    (hpos : 1 ≤ sessionTokens (d.step build pb sessionId).session) :
    Incomplete (d.step build pb sessionId).session.receiveBuffer.unread := by
  rcases drain_cases build pb sessionId d with ⟨hs, -⟩ | ⟨-, b, hs⟩ | ⟨hpc, -, hs⟩
  · rw [hs] at hpos
    omega
  · rw [hs] at hpos
    have hzero : sessionTokens { d.session with receiveBuffer := b } = 0 := ht
    omega
  · rw [hs]
    rw [hpc] at hk
    exact hk

variable (build owner) in
/-- **Every step keeps the account.** -/
theorem inbound_step (hinv : Inv s) (hknown : Known s)
    (h : Inbound build ps sessionId s bytes entries)
    (hps : bytes <+: flat ps) (hs : SessionRun.step build pb sessionId owner s a = some s') :
    Inbound build ps sessionId s' (bytes ++ received s a s') (entries ++ pushed s a s') := by
  have ht := hinv.tokens
  rw [tokens_eq] at ht
  unfold drainTokens at ht
  have hnone : entries ++ s.main.queue.drop s.main.queue.length = entries := by simp
  obtain ⟨hc, hw⟩ := h
  unfold Waits at hw
  cases step_spec hs with
  | start hp =>
    refine ⟨?_, fun _ => ?_⟩
    · simp only [pushed, List.append_nil]
      exact hc.beside rfl (by simp [received, readOf, incoming_start])
        (fun _ => .inr (by simp [hp])) fun _ => by simp only [start_receiveBuffer]
    · simp only [start_receiveBuffer]
      exact hw (.inr (by simp [hp]))
  | startPost hp =>
    refine ⟨?_, fun _ => hw (.inr (by simp [hp]))⟩
    simp only [pushed, hnone]
    refine hc.beside rfl ?_ (fun _ => .inr (by simp [hp])) fun _ => rfl
    simp only [received, readOf, List.append_nil]
    exact incoming_congr rfl (landed_post rfl)
  | close hp hpc he =>
    refine ⟨?_, hw⟩
    simp only [pushed, hnone, received, readOf, List.append_nil]
    exact hc
  | @receive rest pc hp hpc he hpc' =>
    refine ⟨?_, hw⟩
    simp only [pushed, hnone, received, readOf, List.append_nil]
    have hcases := findSession_cases hpc'
    refine hc.goto rfl id ?_ (fun v hv => ?_) (fun f hf => ?_)
    · rcases hcases with rfl | rfl | rfl <;> rw [hpc] <;> rfl
    · rcases hcases with rfl | rfl | rfl <;> cases hv
    · rcases hcases with rfl | rfl | rfl <;> cases hf
  | drain hp hpc =>
    have hin := inside_of_ne hpc
    have hzero := sessionTokens_eq_zero hinv (.inl hin)
    simp only [pushed, received, readOf, List.append_nil]
    refine ⟨?_, fun hor => waits_drain hknown.knows hzero (hor.resolve_right (by simp [hp]))⟩
    simp only [hp, ne_eq, not_true_eq_false] at hc ⊢
    exact counted_drain build hc hps hzero hknown.sized hknown.knows
  | @elsewhere queue hpc =>
    refine ⟨?_, hw⟩
    simp only [pushed, received, readOf, List.append_nil]
    exact hc.goto rfl id rfl hc.view hc.fault
  | @sendPost chunk hp =>
    refine ⟨?_, fun hor => hw (by rwa [(Quiet.postSend _ chunk).sessionTokens] at hor)⟩
    simp only [pushed, List.append_nil]
    refine hc.beside rfl ?_ id fun _ => rfl
    simp only [received, readOf, List.append_nil]
    exact incoming_congr rfl (landed_post rfl)
  | @io act session events h =>
    have hio := ioStep_spec hinv.captured.posting h
    have hle := hio.tokens
    simp only [pushed, List.append_nil]
    refine ⟨hc.beside rfl (incoming_ioStep h (by omega) hinv.captured) (.imp_left hio.running)
      fun hin => ?_, fun hor => ?_⟩
    · simp only [IoStep.receiveBuffer_eq hio (sessionTokens_eq_zero hinv (.inl hin))]
    · rcases hor with hpos | hp
      · simp only [IoStep.unread_eq hio hinv.captured (by omega) hpos]
        exact hw (.inl (by simp only [] at hpos; omega))
      · simp only [IoStep.receiveBuffer_eq hio (sessionTokens_eq_zero hinv (.inr hp))]
        exact hw (.inr hp)
  | ownerStop =>
    refine ⟨?_, hw⟩
    simp only [pushed, received, readOf, List.append_nil]
    exact hc

/-! ### Whole runs -/

variable (build owner) in
lemma inbound_run {as : List (Act κ)}
    (h : run (SessionRun.step build pb sessionId owner) init as = some s)
    (hps : observe (SessionRun.step build pb sessionId owner) received init as <+: flat ps) :
    Inv s ∧ Inbound build ps sessionId s
      (observe (SessionRun.step build pb sessionId owner) received init as)
      (observe (SessionRun.step build pb sessionId owner) pushed init as) := by
  have hrun := observe_invariant₂ received pushed
    (I := fun s bytes entries => (Inv s ∧ Known s) ∧
      (bytes <+: flat ps → Inbound build ps sessionId s bytes entries))
    (fun s bytes entries a s' ⟨hknown, hin⟩ hs => ⟨known_step s a s' hknown hs, fun hpre =>
      have hpre' := (List.prefix_append _ _).trans hpre
      inbound_step build owner hknown.1 hknown.2 (hin hpre') hpre' hs⟩)
    ⟨⟨inv_init, known_init⟩, fun _ => inbound_init build ps⟩ h
  simp only [List.nil_append] at hrun
  exact ⟨hrun.1.1, hrun.2 hps⟩

lemma incomplete_of_reading (hinv : Inv s) (hw : Waits s) {offset size : ℕ}
    (hmem : .pending offset size ∈ s.main.session.reads) :
    Incomplete (incoming s.main.session) := by
  obtain ⟨i, hi⟩ := List.mem_iff_getElem?.mp hmem
  have ht := hinv.tokens
  rw [tokens_eq] at ht
  unfold drainTokens at ht
  have hpos : 1 ≤ sessionTokens s.main.session := by
    have := List.length_pos_of_mem hmem
    unfold sessionTokens
    omega
  obtain ⟨hreads, -, hstrand⟩ := landed_of_pending (by omega) hi
  rw [incoming_eq_unread (by simp [landed, hreads, hstrand, landedOp])]
  exact hw (.inl hpos)

/-- **Receiving is exactly once, in order**, however a session's reads, handlers, events and
stops are interleaved. When the peer's bytes are those of some packets, the entries pushed are
those of the first `k` packets, and after them at most repetitions of the next one; what was
read beyond the `k` packets is in the buffer. A session that still runs has nothing repeated:
the next packet is pushed only where the main thread is about to pop it. No push and no pop
goes wrong, but for the pop of a packet that is too long for a debug build, and while a read is
outstanding no whole packet is left in the buffer. -/
theorem received_exactly_once {as : List (Act κ)}
    (h : run (SessionRun.step build pb sessionId owner) init as = some s)
    (hps : observe (SessionRun.step build pb sessionId owner) received init as <+: flat ps) :
    (∃ (k : ℕ) (again : MessageQueue), k ≤ ps.length ∧
      observe (SessionRun.step build pb sessionId owner) pushed init as =
        ((ps.take k).map fun p => p.entry sessionId) ++ again ∧
      observe (SessionRun.step build pb sessionId owner) received init as =
        flat (ps.take k) ++ incoming s.main.session ∧
      (∀ e ∈ again, ps[k]?.map (fun p => p.entry sessionId) = some e) ∧
      (s.main.session.running = true → again.length = inHand s.main.pc)) ∧
    (∀ f, s.main.pc = .fault f → f = .assertion ∧ Overlong build ps) ∧
    ∀ offset size, .pending offset size ∈ s.main.session.reads →
      Incomplete (incoming s.main.session) := by
  obtain ⟨hinv, hc, hw⟩ := inbound_run build owner h hps
  obtain ⟨k, again, hacc, hone⟩ := hc.account
  exact ⟨⟨k, again, hacc.le, hacc.entries, hacc.bytes, hacc.again, fun hr => hone (.inl hr)⟩,
    hc.fault, fun offset size hmem => incomplete_of_reading hinv hw hmem⟩

end Sys

/-- A chat message with no text arrives in two reads; after it the session is stopped while its
next read is outstanding. -/
def splitRead : List (Act Unit) :=
  [.start, .main, .io (.strand []), .io (.readDone 0 (.ok [0x04, 0x00, 0xD0])),
    .io (.readQueue 0), .io (.strand []), .main, .main, .main, .main, .io (.strand []),
    .io (.readDone 0 (.ok [0x07])), .io (.readQueue 0), .io (.strand []), .main, .main, .main,
    .main, .main, .main, .main, .io (.strand []), .io .stop]

/-- The message is pushed there once. -/
theorem received_exactly_once_splitRead :
    ∃ s, run (SessionRun.step .Release proto3 1 .WorldServer) init splitRead = some s ∧
    (∃ (k : ℕ) (again : MessageQueue), k ≤ [StopRun.emptyChat].length ∧
      observe (SessionRun.step .Release proto3 1 .WorldServer) pushed init splitRead =
        (([StopRun.emptyChat].take k).map fun p => p.entry 1) ++ again ∧
      observe (SessionRun.step .Release proto3 1 .WorldServer) received init splitRead =
        flat ([StopRun.emptyChat].take k) ++ incoming s.main.session ∧
      (∀ e ∈ again, [StopRun.emptyChat][k]?.map (fun p => p.entry 1) = some e) ∧
      (s.main.session.running = true → again.length = inHand s.main.pc)) ∧
    (∀ f, s.main.pc = .fault f → f = .assertion ∧ Overlong .Release [StopRun.emptyChat]) ∧
    ∀ offset size, .pending offset size ∈ s.main.session.reads →
      Incomplete (incoming s.main.session) := by
  obtain ⟨s, hs⟩ : ∃ s, run (SessionRun.step .Release proto3 1 .WorldServer) init splitRead =
    some s := Option.isSome_iff_exists.mp (by decide +kernel)
  exact ⟨s, hs, received_exactly_once hs (by decide +kernel)⟩

end ByteborneWorld.InboundRun
