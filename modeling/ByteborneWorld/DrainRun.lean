import ByteborneWorld.Lts
import ByteborneWorld.SessionModel

/-!
Draining the receive buffer: what the loop of `handleSessionEvent` does with the packets in
the buffer of a running session, and what becomes of it when the session is stopped meanwhile.
-/

namespace ByteborneWorld.DrainRun

open ByteborneWorld.ChatProto ByteborneWorld.PacketModel ByteborneWorld.RecvModel
open ByteborneWorld.SessionModel ByteborneWorld.Lts

variable {κ : Type*} {pb : Protobuf} {build : Build}

/-- The bytes of a list of packets, one after the other. -/
def flat (ps : List (Packet pb)) : List UInt8 := ps.flatMap Packet.bytes

@[simp] lemma flat_cons (p : Packet pb) (ps : List (Packet pb)) :
    flat (p :: ps) = p.bytes ++ flat ps := rfl

lemma flat_append (ps qs : List (Packet pb)) : flat (ps ++ qs) = flat ps ++ flat qs :=
  List.flatMap_append

lemma length_le_flat (ps : List (Packet pb)) : ps.length ≤ (flat ps).length := by
  induction ps with
  | nil => simp
  | cons p ps ih =>
    have hp := p.header_le
    rw [flat_cons, List.length_append, List.length_cons]
    unfold headerSize at hp
    omega

/-- The beginning of a packet that is not complete. -/
def Incomplete (bs : List UInt8) : Prop :=
  bs.length < headerSize ∨ bs.length < (PacketView.of bs).size

lemma incomplete_of_lt {p : Packet pb} {bs rest : List UInt8} (h : bs <+: p.bytes ++ rest)
    (hlt : bs.length < p.bytes.length) : Incomplete bs := by
  by_cases hh : bs.length < headerSize
  · exact .inl hh
  · obtain ⟨tail, htail⟩ := h
    have hsize : getLe16 bs 0 = p.bytes.length := by
      rw [← p.getLe16_bytes rest, ← htail, getLe16_append (by unfold headerSize at hh; omega)]
    exact .inr (lt_of_lt_of_eq hlt hsize.symm)

lemma not_incomplete (p : Packet pb) (rest : List UInt8) : ¬Incomplete (p.bytes ++ rest) := by
  have hh := p.header_le
  simp only [Incomplete, p.view, List.length_append]
  omega

/-- **Any beginning of a stream of packets** is some whole packets and an incomplete one. -/
theorem split_prefix {ps : List (Packet pb)} {bs : List UInt8} (h : bs <+: flat ps) :
    ∃ k tail, k ≤ ps.length ∧ bs = flat (ps.take k) ++ tail ∧ Incomplete tail ∧
      (tail = [] ∨ ∃ p ∈ ps, tail.length < p.bytes.length) := by
  induction ps generalizing bs with
  | nil =>
    refine ⟨0, [], le_refl _, ?_, .inl (by simp [headerSize]), .inl rfl⟩
    simpa [flat] using h
  | cons p ps ih =>
    rw [flat_cons] at h
    by_cases hlt : bs.length < p.bytes.length
    · exact ⟨0, bs, by simp, by simp [flat], incomplete_of_lt h hlt, .inr ⟨p, by simp, hlt⟩⟩
    · have hp : p.bytes <+: bs :=
        List.prefix_of_prefix_length_le (List.prefix_append _ _) h (not_lt.mp hlt)
      obtain ⟨bs', rfl⟩ := hp
      obtain ⟨k, tail, hk, rfl, htail, hlen⟩ := ih ((List.prefix_append_right_inj _).mp h)
      refine ⟨k + 1, tail, by simpa using hk, by simp, htail, hlen.imp id ?_⟩
      rintro ⟨q, hq, h⟩
      exact ⟨q, by simp [hq], h⟩

/-! ### The front packet -/

section FrontPacket

variable {s : Session κ} {p : Packet pb} {rest tail : List UInt8}

lemma getFrontPacket_of_complete (h : ¬Incomplete s.receiveBuffer.unread) :
    s.getFrontPacket = some (PacketView.of s.receiveBuffer.unread) := by
  simp only [Incomplete, ReceiveBuffer.unread_length, not_or] at h
  simp only [Session.getFrontPacket]
  rw [if_neg h.1, if_neg h.2]

lemma getFrontPacket_eq_some (h : s.receiveBuffer.unread = p.bytes ++ rest) :
    s.getFrontPacket = some (PacketView.of s.receiveBuffer.unread) :=
  getFrontPacket_of_complete (h ▸ not_incomplete p rest)

lemma getFrontPacket_eq_none (h : Incomplete s.receiveBuffer.unread) :
    s.getFrontPacket = none := by
  simp only [Incomplete, ReceiveBuffer.unread_length] at h
  simp only [Session.getFrontPacket]
  split_ifs <;> first | rfl | omega

/-- The pop of the packet at the front of a buffer passes its assertions. -/
def Poppable (build : Build) (b : ReceiveBuffer) : Prop :=
  Nominal build b.size (PacketView.of b.unread).size

instance (build : Build) (b : ReceiveBuffer) : Decidable (Poppable build b) :=
  inferInstanceAs (Decidable (Nominal _ _ _))

lemma popFrontPacket_eq_some (hr : s.running = true)
    (h : (PacketView.of s.receiveBuffer.unread).size ≤ s.receiveBuffer.getUnreadSize)
    (hpop : Poppable build s.receiveBuffer) : s.popFrontPacket build =
      some { s with receiveBuffer := s.receiveBuffer.onRead _ h } := by
  rw [Session.popFrontPacket, if_pos hr, dif_pos ⟨h, hpop⟩]

lemma popFrontPacket_of_complete (hr : s.running = true)
    (h : ¬Incomplete s.receiveBuffer.unread) (hpop : Poppable build s.receiveBuffer) :
    ∃ b : ReceiveBuffer, s.popFrontPacket build = some { s with receiveBuffer := b } ∧
      b.unread = s.receiveBuffer.unread.drop (PacketView.of s.receiveBuffer.unread).size ∧
      b.Roomy ∧ b.size = s.receiveBuffer.size := by
  simp only [Incomplete, ReceiveBuffer.unread_length, not_or, not_lt] at h
  exact ⟨s.receiveBuffer.onRead _ h.2, popFrontPacket_eq_some hr h.2 hpop,
    ReceiveBuffer.unread_onRead _ _ _, ReceiveBuffer.roomy_onRead _ _ _,
    ReceiveBuffer.size_onRead _ _ _⟩

lemma popFrontPacket_of_not_poppable (hr : s.running = true)
    (hpop : ¬Poppable build s.receiveBuffer) : s.popFrontPacket build = none := by
  rw [Session.popFrontPacket, if_pos hr, dif_neg fun h => hpop h.2]

lemma popFrontPacket_stopped (hr : s.running = false) : s.popFrontPacket build = some s := by
  simp [Session.popFrontPacket, hr]

end FrontPacket

/-! ### One round of the loop -/

variable {sessionId : ℕ} {d : Drain κ}

variable (build pb sessionId) in
lemma step_complete (hpc : d.pc = .getFrontPacket)
    (h : ¬Incomplete d.session.receiveBuffer.unread) :
    d.step build pb sessionId =
      { d with pc := .push (PacketView.of d.session.receiveBuffer.unread) } := by
  simp only [Drain.step, hpc, getFrontPacket_of_complete h]

lemma step_push {view : PacketView} {queue : MessageQueue} (hpc : d.pc = .push view)
    (hpush : push build pb d.queue sessionId view = .ok queue) :
    d.step build pb sessionId = { d with pc := .popFrontPacket, queue := queue } := by
  simp only [Drain.step, hpc, hpush]

variable (sessionId) in
/-- **A round of the loop on a running session**, where `push` comes back: three steps. -/
theorem round_of_push {queue : MessageQueue} (hpc : d.pc = .getFrontPacket)
    (hr : d.session.running = true) (h : ¬Incomplete d.session.receiveBuffer.unread)
    (hpop : Poppable build d.session.receiveBuffer)
    (hpush : push build pb d.queue sessionId (PacketView.of d.session.receiveBuffer.unread) =
      .ok queue) :
    ∃ b : ReceiveBuffer,
      b.unread = d.session.receiveBuffer.unread.drop
        (PacketView.of d.session.receiveBuffer.unread).size ∧
      b.Roomy ∧ b.size = d.session.receiveBuffer.size ∧
      d.step build pb sessionId =
        { d with pc := .push (PacketView.of d.session.receiveBuffer.unread) } ∧
      { d with pc := .push (PacketView.of d.session.receiveBuffer.unread) }.step
        build pb sessionId = { d with pc := .popFrontPacket, queue := queue } ∧
      { d with pc := .popFrontPacket, queue := queue }.step build pb sessionId =
        { d with session := { d.session with receiveBuffer := b }, queue := queue } := by
  obtain ⟨b, hpop, hrest, hroomy, hsize⟩ := popFrontPacket_of_complete hr h hpop
  refine ⟨b, hrest, hroomy, hsize, step_complete pb build sessionId hpc h,
    step_push rfl hpush, ?_⟩
  simp only [Drain.step, hpop, hpc]

/-- **A debug build ends at the pop** of a packet that is too long. -/
theorem abort_iterate {queue : MessageQueue} (hpc : d.pc = .getFrontPacket)
    (hr : d.session.running = true) (h : ¬Incomplete d.session.receiveBuffer.unread)
    (hpop : ¬Poppable build d.session.receiveBuffer)
    (hpush : push build pb d.queue sessionId (PacketView.of d.session.receiveBuffer.unread) =
      .ok queue) :
    (Drain.step build pb sessionId)^[3] d =
      { d with pc := .fault .assertion, queue := queue } := by
  have h2 := step_push (d := { d with
    pc := .push (PacketView.of d.session.receiveBuffer.unread) }) rfl hpush
  simp only [Function.iterate_succ_apply, Function.iterate_zero_apply,
    step_complete pb build sessionId hpc h, h2]
  simp only [Drain.step, popFrontPacket_of_not_poppable hr hpop]

lemma poppable_iff {b : ReceiveBuffer} {p : Packet pb} {rest : List UInt8}
    (h : b.unread = p.bytes ++ rest) :
    Poppable build b ↔ Nominal build b.size p.bytes.length := by
  rw [Poppable, h, p.view]

variable (build sessionId) in
lemma step_push_packet {p : Packet pb} {rest : List UInt8}
    (hpc : d.pc = .push (PacketView.of d.session.receiveBuffer.unread))
    (h : d.session.receiveBuffer.unread = p.bytes ++ rest) :
    d.step build pb sessionId =
      { d with pc := .popFrontPacket, queue := d.queue ++ [p.entry sessionId] } :=
  step_push hpc (by rw [h, p.push_view])

variable (build sessionId) in
/-- A round moves the packet at the front of the buffer to the queue. -/
theorem round {p : Packet pb} {rest : List UInt8} (hpc : d.pc = .getFrontPacket)
    (hr : d.session.running = true) (h : d.session.receiveBuffer.unread = p.bytes ++ rest)
    (hpop : Nominal build d.session.receiveBuffer.size p.bytes.length) :
    ∃ b : ReceiveBuffer, b.unread = rest ∧ b.Roomy ∧ b.size = d.session.receiveBuffer.size ∧
      d.step build pb sessionId =
        { d with pc := .push (PacketView.of d.session.receiveBuffer.unread) } ∧
      { d with pc := .push (PacketView.of d.session.receiveBuffer.unread) }.step
        build pb sessionId =
        { d with pc := .popFrontPacket, queue := d.queue ++ [p.entry sessionId] } ∧
      { d with pc := .popFrontPacket, queue := d.queue ++ [p.entry sessionId] }.step
        build pb sessionId =
        { d with
          session := { d.session with receiveBuffer := b }
          queue := d.queue ++ [p.entry sessionId] } := by
  have hpush : push build pb d.queue sessionId (PacketView.of d.session.receiveBuffer.unread) =
      .ok (d.queue ++ [p.entry sessionId]) := by rw [h, p.push_view]
  obtain ⟨b, hrest, hb⟩ := round_of_push sessionId hpc hr (h ▸ not_incomplete p rest)
    ((poppable_iff h).mpr hpop) hpush
  exact ⟨b, by rw [hrest, h, p.view, List.drop_left], hb⟩

variable (build pb sessionId) in
lemma step_incomplete (hpc : d.pc = .getFrontPacket)
    (h : Incomplete d.session.receiveBuffer.unread) :
    d.step build pb sessionId = { d with pc := .receive } := by
  simp only [Drain.step, hpc, getFrontPacket_eq_none h]

/-! ### The whole loop -/

/-- What the loop leaves behind: the entries of the packets in the queue and the rest in the
buffer. -/
structure Drained (sessionId : ℕ) (ps : List (Packet pb)) (tail : List UInt8)
    (d d' : Drain κ) : Prop where
  pc : d'.pc = .getFrontPacket
  queue : d'.queue = d.queue ++ ps.map fun p => p.entry sessionId
  unread : d'.session.receiveBuffer.unread = tail
  roomy : d.session.receiveBuffer.Roomy → d'.session.receiveBuffer.Roomy
  session : ∃ b : ReceiveBuffer, b.size = d.session.receiveBuffer.size ∧
    d'.session = { d.session with receiveBuffer := b }

variable (build sessionId) in
/-- **The loop on a running session** moves all packets to the queue, in three steps each. -/
theorem drained_iterate {ps : List (Packet pb)} {tail : List UInt8}
    (hpc : d.pc = .getFrontPacket) (hr : d.session.running = true)
    (h : d.session.receiveBuffer.unread = flat ps ++ tail)
    (hpop : ∀ p ∈ ps, Nominal build d.session.receiveBuffer.size p.bytes.length) :
    Drained sessionId ps tail d ((Drain.step build pb sessionId)^[3 * ps.length] d) := by
  induction ps generalizing d with
  | nil => exact ⟨hpc, by simp, h, id, _, rfl, rfl⟩
  | cons p ps ih =>
    rw [flat_cons, List.append_assoc] at h
    obtain ⟨b, hrest, hroomy, hsize, h1, h2, h3⟩ :=
      round build sessionId hpc hr h (hpop p (by simp))
    have hrec := ih (d := { d with
      session := { d.session with receiveBuffer := b }
      queue := d.queue ++ [p.entry sessionId] }) hpc hr hrest
      (fun q hq => hsize ▸ hpop q (by simp [hq]))
    rw [List.length_cons, Nat.mul_succ]
    simp only [Function.iterate_succ_apply, h1, h2, h3]
    obtain ⟨hpc', hq, hu, hroom, b', hb', hs'⟩ := hrec
    exact ⟨hpc', by simpa using hq, hu, fun _ => hroom hroomy, b', hb'.trans hsize, hs'⟩

/-- The loop stands at a call, with a complete packet at the front of the buffer. -/
def Busy (pb : Protobuf) (d : Drain κ) : Prop :=
  ∃ (p : Packet pb) (rest : List UInt8), d.session.receiveBuffer.unread = p.bytes ++ rest ∧
    (d.pc = .getFrontPacket ∨ d.pc = .push (PacketView.of d.session.receiveBuffer.unread) ∨
      d.pc = .popFrontPacket)

lemma Busy.pc_ne_receive {d : Drain κ} (h : Busy pb d) : d.pc ≠ .receive := by
  obtain ⟨p, rest, -, hpc | hpc | hpc⟩ := h <;> simp [hpc]

lemma Busy.pc_ne_fault {d : Drain κ} (h : Busy pb d) (f : Fault) : d.pc ≠ .fault f := by
  obtain ⟨p, rest, -, hpc | hpc | hpc⟩ := h <;> simp [hpc]

/-- Until it is done the loop is busy, and has pushed some of the packets, once each. The last
packet need not be one that is popped. -/
theorem busy_iterate {ps : List (Packet pb)} {tail : List UInt8}
    (hpc : d.pc = .getFrontPacket) (hr : d.session.running = true)
    (h : d.session.receiveBuffer.unread = flat ps ++ tail)
    (hpop : ∀ p ∈ ps.dropLast, Nominal build d.session.receiveBuffer.size p.bytes.length)
    {j : ℕ} (hj : j < 3 * ps.length) :
    Busy pb ((Drain.step build pb sessionId)^[j] d) ∧
      ((Drain.step build pb sessionId)^[j] d).queue <+:
        d.queue ++ ps.map fun p => p.entry sessionId := by
  induction ps generalizing d j with
  | nil => simp at hj
  | cons p ps ih =>
    rw [flat_cons, List.append_assoc] at h
    have h1 := step_complete pb build sessionId hpc (h ▸ not_incomplete p _)
    have h2 := step_push_packet build sessionId
      (d := { d with pc := .push (PacketView.of d.session.receiveBuffer.unread) }) rfl h
    match j with
    | 0 => exact ⟨⟨p, _, h, .inl hpc⟩, by simp⟩
    | 1 => simp only [Function.iterate_one, h1]; exact ⟨⟨p, _, h, .inr (.inl rfl)⟩, by simp⟩
    | 2 =>
      simp only [Function.iterate_succ_apply, Function.iterate_zero_apply, h1, h2]
      exact ⟨⟨p, _, h, .inr (.inr rfl)⟩, by simp⟩
    | j + 3 =>
      obtain ⟨q, qs, rfl⟩ : ∃ q qs, ps = q :: qs := by
        cases ps with
        | nil => simp at hj
        | cons q qs => exact ⟨q, qs, rfl⟩
      rw [List.dropLast_cons_cons] at hpop
      obtain ⟨b, hrest, -, hsize, -, -, h3⟩ := round build sessionId hpc hr h (hpop p (by simp))
      simp only [Function.iterate_succ_apply, h1, h2, h3]
      have hrec := ih (d := { d with
        session := { d.session with receiveBuffer := b }
        queue := d.queue ++ [p.entry sessionId] }) hpc hr hrest
        (fun q' hq' => hsize ▸ hpop q' (List.mem_cons_of_mem p hq')) (j := j)
        (by rw [List.length_cons] at hj; omega)
      simpa using hrec

end ByteborneWorld.DrainRun
