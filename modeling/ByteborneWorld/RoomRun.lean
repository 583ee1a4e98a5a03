import ByteborneWorld.FrameRun
import ByteborneWorld.SessionRun

/-!
The room in the receive buffer: what a read may bring, and where a packet may start, so that
the assertions of the buffer hold and there is always room for the next read.
-/

namespace ByteborneWorld.RoomRun

open ByteborneWorld.ChatProto ByteborneWorld.PacketModel ByteborneWorld.RecvModel
open ByteborneWorld.SessionModel ByteborneWorld.DrainRun ByteborneWorld.Lts
open ByteborneWorld.SessionRun

variable {κ : Type*} {build : Build} {pb : Protobuf} {sessionId : ℕ} {owner : Owner}

/-! ### The buffer and the position of the main thread -/

/-- What the main thread knows at its position about the packet at the front. -/
def Knows (unread : List UInt8) : Pc → Prop
  | .push _ | .popFrontPacket => ¬Incomplete unread
  | .receive | .post => Incomplete unread
  | _ => True

/-- A buffer of the default size, with the room that `onRead` leaves. -/
structure Sized (b : ReceiveBuffer) : Prop where
  size : b.size = DefaultSize
  roomy : b.Roomy

lemma sized_new : Sized (ReceiveBuffer.new DefaultSize) := ⟨rfl, ReceiveBuffer.roomy_new _⟩

lemma Sized.of_eq {b b' : ReceiveBuffer} (h : Sized b) (hs : b'.size = b.size)
    (hr : b'.readOffset = b.readOffset) : Sized b' :=
  ⟨hs.trans h.size, by have := h.roomy; unfold ReceiveBuffer.Roomy at this ⊢; rwa [hs, hr]⟩

structure Known (s : Sys κ) : Prop where
  sized : Sized s.main.session.receiveBuffer
  knows : Knows s.main.session.receiveBuffer.unread s.main.pc

section Io

variable {s s' : Session κ} {a : IoAct κ} {pushed : List SessionEvent}

lemma receiveBuffer_asyncRead (s : Session κ) : s.asyncRead.receiveBuffer = s.receiveBuffer := by
  rcases asyncRead_cases s with ⟨-, heq⟩ | ⟨-, op, heq, -⟩ <;> rw [heq]

lemma IoStep.receiveBuffer_eq (h : IoStep s a s' pushed) (ht : sessionTokens s = 0) :
    s'.receiveBuffer = s.receiveBuffer := by
  cases h with
  | quiet hq => exact hq.receiveBuffer
  | handler hs hh hh' hq => exact hq.receiveBuffer
  | asyncRead hs => exact receiveBuffer_asyncRead _
  | onReadError hs hq => exact hq.receiveBuffer
  | onRead hs hn =>
    rw [sessionTokens_strand hs] at ht
    simp [isRead] at ht
  | close hs => exact (Still.close _ _).receiveBuffer
  | readOk hi hbs =>
    have hlt := (List.getElem?_eq_some_iff.mp hi).1
    unfold sessionTokens at ht
    omega
  | readError hi => rfl
  | readQueue hi => rfl

lemma IoStep.sized (h : IoStep s a s' pushed) (hb : Sized s.receiveBuffer) :
    Sized s'.receiveBuffer := by
  cases h with
  | quiet hq => exact hq.receiveBuffer ▸ hb
  | handler hs hh hh' hq => exact hb.of_eq (by rw [hq.receiveBuffer]) (by rw [hq.receiveBuffer])
  | asyncRead hs =>
    exact hb.of_eq (by rw [receiveBuffer_asyncRead]) (by rw [receiveBuffer_asyncRead])
  | onReadError hs hq => exact hb.of_eq (by rw [hq.receiveBuffer]) (by rw [hq.receiveBuffer])
  | close hs =>
    exact hb.of_eq (by rw [(Still.close _ _).receiveBuffer])
      (by rw [(Still.close _ _).receiveBuffer])
  | onRead | readOk | readError | readQueue => exact hb.of_eq rfl rfl

end Io

variable (build pb sessionId) in
/-- Inside the handler, what the main thread knows becomes so by its own steps. -/
lemma drain_known {d : Drain κ} (hb : Sized d.session.receiveBuffer)
    (hk : Knows d.session.receiveBuffer.unread d.pc) :
    Sized (d.step build pb sessionId).session.receiveBuffer ∧
      Knows (d.step build pb sessionId).session.receiveBuffer.unread
        (d.step build pb sessionId).pc := by
  cases hpc : d.pc with
  | getFrontPacket =>
    by_cases h : Incomplete d.session.receiveBuffer.unread
    · simp only [Drain.step, hpc, getFrontPacket_eq_none h]
      exact ⟨hb, h⟩
    · simp only [Drain.step, hpc, getFrontPacket_of_complete h]
      exact ⟨hb, h⟩
  | push view =>
    rw [hpc] at hk
    simp only [Drain.step, hpc]
    split
    · exact ⟨hb, hk⟩
    · exact ⟨hb, trivial⟩
  | popFrontPacket =>
    rw [hpc] at hk
    simp only [Drain.step, hpc]
    cases hr : d.session.running with
    | false =>
      rw [popFrontPacket_stopped hr]
      exact ⟨hb, trivial⟩
    | true =>
      by_cases hp : Poppable build d.session.receiveBuffer
      · obtain ⟨b, hpop, -, hroomy, hsize⟩ := popFrontPacket_of_complete hr hk hp
        rw [hpop]
        exact ⟨⟨hsize.trans hb.size, hroomy⟩, trivial⟩
      · rw [popFrontPacket_of_not_poppable hr hp]
        exact ⟨hb, trivial⟩
  | receive =>
    rw [hpc] at hk
    simp only [Drain.step, hpc]
    split_ifs
    · exact ⟨hb, hk⟩
    · exact ⟨hb, trivial⟩
  | post => simp only [Drain.step, hpc]; exact ⟨hb, trivial⟩
  | outside | fault | nullSession => simp only [Drain.step, hpc]; exact ⟨hb, trivial⟩

section Sys

variable {s : Sys κ}

lemma sessionTokens_eq_zero (h : Inv s) (hs : s.main.pc.Inside ∨ s.phase ≠ .started) :
    sessionTokens s.main.session = 0 := by
  have ht := h.tokens
  rw [tokens_eq] at ht
  unfold drainTokens at ht
  rcases hs with hs | hs
  · rw [if_pos hs] at ht
    omega
  · cases hp : s.phase with
    | started => exact absurd hp hs
    | created => rw [if_pos hp] at ht; omega
    | starting => rw [if_pos hp] at ht; omega

lemma known_init : Known (init : Sys κ) := ⟨sized_new, trivial⟩

lemma knows_of_not_inside {unread : List UInt8} {pc : Pc} (h : ¬pc.Inside) : Knows unread pc := by
  cases pc <;> first | trivial | exact absurd trivial h

lemma start_receiveBuffer (s : Session κ) : s.start.1.receiveBuffer = s.receiveBuffer := by
  unfold Session.start
  split_ifs <;> rfl

lemma findSession_cases {pc : Pc} {held : Bool}
    (h : pc = .outside ∨ pc = findSession owner held) :
    pc = .outside ∨ pc = .getFrontPacket ∨ pc = .nullSession := by
  rcases h with rfl | rfl
  · exact .inl rfl
  · unfold findSession
    cases held <;> cases owner <;> simp

lemma known_step (s : Sys κ) (a : Act κ) (s' : Sys κ) (h : Inv s ∧ Known s)
    (hs : SessionRun.step build pb sessionId owner s a = some s') : Inv s' ∧ Known s' := by
  obtain ⟨hinv, hb, hk⟩ := h
  refine ⟨inv_step s a s' hinv hs, ?_⟩
  cases step_spec hs with
  | start hp =>
    have heq := start_receiveBuffer s.main.session
    exact ⟨heq ▸ hb, heq ▸ hk⟩
  | startPost hp => exact ⟨hb, hk⟩
  | close hp hpc he => exact ⟨hb, hk⟩
  | receive hp hpc he hpc' =>
    refine ⟨hb, ?_⟩
    rcases findSession_cases hpc' with rfl | rfl | rfl <;> trivial
  | drain hp hpc =>
    obtain ⟨hb', hk'⟩ := drain_known build pb sessionId hb hk
    exact ⟨hb', hk'⟩
  | elsewhere hpc => exact ⟨hb, hk⟩
  | sendPost => exact ⟨hb, hk⟩
  | io h =>
    have hio := ioStep_spec hinv.captured.posting h
    refine ⟨IoStep.sized hio hb, ?_⟩
    by_cases hin : s.main.pc.Inside
    · have heq := IoStep.receiveBuffer_eq hio (sessionTokens_eq_zero hinv (.inl hin))
      simpa only [heq] using hk
    · exact knows_of_not_inside hin
  | ownerStop => exact ⟨hb, hk⟩

end Sys

/-! ### Room for the next read -/

/-- The packet at the front, once its header is there, ends inside the buffer. -/
def FrontInside (b : ReceiveBuffer) : Prop :=
  headerSize ≤ b.getUnreadSize →
    b.readOffset + (PacketView.of b.unread).size ≤ CapacityFactor * b.size

/-- There is room for a read, and the packet at the front has room where it stands if it has
room in an empty buffer. -/
def RoomToRead (b : ReceiveBuffer) : Prop :=
  0 < b.getUnwrittenSize ∧ (headerSize ≤ b.getUnreadSize →
    ((PacketView.of b.unread).size ≤ b.getUnreadSize + b.getUnwrittenSize ↔
      (PacketView.of b.unread).size ≤ CapacityFactor * b.size))

/-- The read that a step arms, or lets the main thread arm, has room. -/
def ArmsWithRoom (s : Sys κ) : Act κ → Prop
  | .main => s.phase = .started → s.main.pc = .receive → s.main.session.running = true →
      RoomToRead s.main.session.receiveBuffer
  | .io (.strand _) => s.main.session.strand.head? = some .asyncRead →
      s.main.session.running = true → 0 < s.main.session.receiveBuffer.getUnwrittenSize
  | _ => True

/-- When the main thread is done with the packets, the one that is left at the front ends inside
the buffer. -/
def ArmsInside (s : Sys κ) : Act κ → Prop
  | .main => s.phase = .started → s.main.pc = .receive → s.main.session.running = true →
      FrontInside s.main.session.receiveBuffer
  | _ => True

lemma roomToRead_of_frontInside {b : ReceiveBuffer} (hb : Sized b) (hinc : Incomplete b.unread)
    (h : FrontInside b) : RoomToRead b := by
  have hr := b.read_le
  have hw := b.write_le
  have hsize := hb.size
  have hroomy := hb.roomy
  simp only [Incomplete, ReceiveBuffer.unread_length] at hinc
  simp only [FrontInside, RoomToRead, ReceiveBuffer.Roomy, ReceiveBuffer.getUnwrittenSize,
    ReceiveBuffer.getUnreadSize, CapacityFactor, DefaultSize, headerSize] at *
  omega

section Io

variable {s s' : Session κ} {a : IoAct κ} {pushed : List SessionEvent}

lemma IoStep.asyncRead_mem (h : IoStep s a s' pushed) (hm : Handler.asyncRead ∈ s'.strand) :
    .asyncRead ∈ s.strand := by
  cases h with
  | quiet hq => exact (hq.mem_strand rfl).mp hm
  | handler hs hh hh' hq =>
    rw [hs]
    exact .tail _ ((hq.quiet.mem_strand rfl).mp hm)
  | asyncRead hs => rw [hs]; exact .head _
  | onReadError hs hq =>
    rw [hs]
    exact .tail _ ((hq.quiet.mem_strand rfl).mp hm)
  | onRead hs hn => rw [hs]; exact .tail _ hm
  | close hs =>
    rw [hs]
    exact .tail _ (((Still.close _ _).quiet.mem_strand rfl).mp hm)
  | readOk | readError => exact hm
  | readQueue hi => simpa [Session.post] using hm

lemma one_le_sessionTokens (hm : Handler.asyncRead ∈ s.strand) : 1 ≤ sessionTokens s := by
  have hpos : 0 < s.strand.countP isRead := List.countP_pos_iff.mpr ⟨_, hm, rfl⟩
  unfold sessionTokens
  omega

lemma IoStep.getUnwrittenSize_eq (h : IoStep s a s' pushed) (ht : sessionTokens s ≤ 1)
    (hm : Handler.asyncRead ∈ s.strand) :
    s'.receiveBuffer.getUnwrittenSize = s.receiveBuffer.getUnwrittenSize := by
  cases h with
  | quiet hq => rw [hq.receiveBuffer]
  | handler hs hh hh' hq => rw [hq.receiveBuffer]
  | asyncRead hs => rw [receiveBuffer_asyncRead]
  | onReadError hs hq => rw [hq.receiveBuffer]
  | @onRead errors rest n hs hn =>
    rw [hs, List.mem_cons] at hm
    have hrest := one_le_sessionTokens (s := { s with strand := rest })
      (hm.resolve_left (by simp))
    rw [sessionTokens_strand hs] at ht
    simp only [isRead, if_true] at ht
    omega
  | close hs => rw [(Still.close _ _).receiveBuffer]
  | readOk | readError | readQueue => rfl

end Io

section Sys

variable {s : Sys κ}

/-- A read is about to be started. -/
def Arming (s : Sys κ) : Prop :=
  .asyncRead ∈ s.main.session.strand ∨ s.main.pc = .post ∨ s.phase ≠ .started

/-- What holds as long as the packets end inside the buffer. -/
structure Roomy (s : Sys κ) : Prop extends Inv s, Known s where
  arming : Arming s → 0 < s.main.session.receiveBuffer.getUnwrittenSize

lemma roomy_init : Roomy (init : Sys κ) :=
  ⟨inv_init, known_init, fun _ => Nat.succ_pos _⟩

lemma not_mem_of_inside (h : Inv s) (hin : s.main.pc.Inside) :
    Handler.asyncRead ∉ s.main.session.strand := by
  intro hm
  have hpos := one_le_sessionTokens hm
  rw [sessionTokens_eq_zero h (.inl hin)] at hpos
  omega

lemma inside_of_ne {pc : Pc} (h : pc ≠ .outside) : pc.Inside := by
  cases pc <;> trivial

/-- Inside the handler, the main thread comes to arm a read after `receive` only. -/
lemma drain_arming {d : Drain κ} (hd : Handler.asyncRead ∉ d.session.strand)
    (h : .asyncRead ∈ (d.step build pb sessionId).session.strand ∨
      (d.step build pb sessionId).pc = .post) :
    (d.pc = .post ∨ d.pc = .receive ∧ d.session.running = true) ∧
      (d.step build pb sessionId).session.receiveBuffer = d.session.receiveBuffer := by
  cases hpc : d.pc with
  | getFrontPacket =>
    simp only [Drain.step, hpc] at h ⊢
    cases hg : d.session.getFrontPacket <;> simp [hg, hd] at h
  | push view =>
    simp only [Drain.step, hpc] at h ⊢
    cases hg : push build pb d.queue sessionId view <;> simp [hg, hd] at h
  | popFrontPacket =>
    simp only [Drain.step, hpc] at h ⊢
    cases hg : d.session.popFrontPacket build with
    | none => simp [hg, hd] at h
    | some s' =>
      obtain ⟨b, rfl⟩ := popFrontPacket_frame hg
      simp [hg, hd] at h
  | receive =>
    simp only [Drain.step, hpc] at h ⊢
    cases hr : d.session.running with
    | true => exact ⟨.inr ⟨trivial, rfl⟩, trivial⟩
    | false => simp [Session.receive, hr, hd] at h
  | post => exact ⟨.inl rfl, by simp only [Drain.step, hpc]; rfl⟩
  | outside | fault | nullSession => simp [Drain.step, hpc, hd] at h

lemma drain_room {s : Sys κ} (h : Roomy s) (hC : ArmsInside s .main) (hp : s.phase = .started)
    (hpc : s.main.pc ≠ .outside)
    (hm : .asyncRead ∈ (s.main.step build pb sessionId).session.strand ∨
      (s.main.step build pb sessionId).pc = .post) :
    0 < (s.main.step build pb sessionId).session.receiveBuffer.getUnwrittenSize := by
  obtain ⟨hpc', heq⟩ := drain_arming (not_mem_of_inside h.toInv (inside_of_ne hpc)) hm
  rw [heq]
  rcases hpc' with hpc' | ⟨hpc', hr⟩
  · exact h.arming (.inr (.inl hpc'))
  · have hinc : Incomplete s.main.session.receiveBuffer.unread := by
      have := h.knows
      rwa [hpc'] at this
    exact (roomToRead_of_frontInside h.sized hinc (hC hp hpc' hr)).1

lemma roomy_step (s : Sys κ) (a : Act κ) (s' : Sys κ) (h : Roomy s) (hC : ArmsInside s a)
    (hs : SessionRun.step build pb sessionId owner s a = some s') : Roomy s' := by
  have hroomy := h
  obtain ⟨hinv, hknown, harm⟩ := h
  obtain ⟨hinv', hknown'⟩ := known_step s a s' ⟨hinv, hknown⟩ hs
  refine ⟨hinv', hknown', ?_⟩
  unfold Arming at harm ⊢
  cases step_spec hs with
  | start hp =>
    intro _
    simp only [start_receiveBuffer]
    exact harm (.inr (.inr (by simp [hp])))
  | startPost hp => exact fun _ => harm (.inr (.inr (by simp [hp])))
  | close hp hpc he => exact harm
  | @receive rest pc hp hpc he hpc' =>
    rintro (hm | hm | hm)
    · exact harm (.inl hm)
    · rcases findSession_cases hpc' with h | h | h <;> simp [h] at hm
    · exact harm (.inr (.inr hm))
  | drain hp hpc =>
    rintro (hm | hm | hm)
    · exact drain_room hroomy hC hp hpc (.inl hm)
    · exact drain_room hroomy hC hp hpc (.inr hm)
    · exact absurd hp hm
  | elsewhere hpc => exact harm
  | sendPost => simpa [Session.post] using harm
  | @io a session pushed h =>
    have hio := ioStep_spec hinv.captured.posting h
    have ht : sessionTokens s.main.session ≤ 1 := by
      have := hinv.tokens
      rw [tokens_eq] at this
      unfold drainTokens at this
      omega
    intro hm
    rcases hm with hm | hm
    · have hm' := IoStep.asyncRead_mem hio hm
      exact lt_of_lt_of_eq (harm (.inl hm')) (IoStep.getUnwrittenSize_eq hio ht hm').symm
    · have hin : s.main.pc.Inside ∨ s.phase ≠ .started :=
        hm.imp_left fun h => by rw [h]; trivial
      simp only [IoStep.receiveBuffer_eq hio (sessionTokens_eq_zero hinv hin)]
      exact harm (.inr hm)
  | ownerStop => exact harm

variable (build pb sessionId owner) in
/-- **A receive is never armed on a full buffer**, in every run in which the packets that are
left at the front end inside the buffer. -/
theorem armsWithRoom_of_armsInside {as : List (Act κ)}
    (hC : Along (SessionRun.step build pb sessionId owner) ArmsInside init as) :
    Along (SessionRun.step build pb sessionId owner) ArmsWithRoom init as := by
  refine hC.mono_of_invariant roomy_step (fun s a h hC => ?_) roomy_init
  cases a with
  | main =>
    intro hp hpc hr
    have hk := h.knows
    rw [hpc] at hk
    exact roomToRead_of_frontInside h.sized hk (hC hp hpc hr)
  | io a =>
    cases a with
    | strand errors =>
      intro hs _
      exact h.arming (.inl (List.mem_of_mem_head? hs))
    | stop | send | post | readDone | readQueue | writeDone | writeQueue => trivial
  | start | elsewhere | sendPost | ownerStop => trivial

lemma frontInside_of_size_le {b : ReceiveBuffer} (hb : Sized b)
    (h : (PacketView.of b.unread).size ≤ DefaultSize) : FrontInside b := by
  intro _
  have hsize := hb.size
  have hroomy := hb.roomy
  simp only [ReceiveBuffer.Roomy, CapacityFactor, DefaultSize] at *
  omega

lemma not_frontInside_of_size_gt {b : ReceiveBuffer} (hh : headerSize ≤ b.getUnreadSize)
    (h : CapacityFactor * b.size < (PacketView.of b.unread).size) : ¬FrontInside b := by
  intro hin
  have := hin hh
  omega

variable (build pb sessionId owner) in
/-- Packets of the nominal size at most never fill the buffer. -/
theorem armsInside_of_size_le {as : List (Act κ)}
    (hC : Along (SessionRun.step build pb sessionId owner)
      (fun s _ => (PacketView.of s.main.session.receiveBuffer.unread).size ≤ DefaultSize)
      init as) :
    Along (SessionRun.step build pb sessionId owner) ArmsInside init as := by
  refine hC.mono_of_invariant (fun s a s' h _ => known_step s a s' h) (fun s a h hC => ?_)
    ⟨inv_init, known_init⟩
  cases a with
  | main => exact fun _ _ _ => frontInside_of_size_le h.2.sized hC
  | start | elsewhere | sendPost | io | ownerStop => trivial

end Sys

/-! ### The assertions of the buffer -/

/-- The assertions that the receive buffer makes in the call of a step hold. -/
def Asserted (s : Sys κ) : Act κ → Prop
  | .io (.strand _) => ∀ n, s.main.session.strand.head? = some (.onRead (.ok n)) →
      n ≤ s.main.session.receiveBuffer.getUnwrittenSize ∧ n ≤ s.main.session.receiveBuffer.size
  | .main => s.phase = .started → s.main.pc = .popFrontPacket → s.main.session.running = true →
      (PacketView.of s.main.session.receiveBuffer.unread).size ≤
        s.main.session.receiveBuffer.getUnreadSize ∧
      (PacketView.of s.main.session.receiveBuffer.unread).size ≤
        s.main.session.receiveBuffer.size
  | _ => True

/-- A read brings no more than the nominal size, and no longer packet is reported. -/
def Modest (s : Sys κ) : Act κ → Prop
  | .io (.readDone _ (.ok bs)) => bs.length ≤ DefaultSize
  | .main => s.phase = .started → s.main.pc = .getFrontPacket →
      ∀ view ∈ s.main.session.getFrontPacket, view.size ≤ DefaultSize
  | _ => True

/-- What completed reads report is no more than the nominal size. -/
structure SmallReads (s : Session κ) : Prop where
  reads : ∀ n, .completed (.ok n) ∈ s.reads → n ≤ DefaultSize
  strand : ∀ n, .onRead (.ok n) ∈ s.strand → n ≤ DefaultSize

/-- The packet that the main thread has in its hands is no longer than the nominal size. -/
def SmallFront (unread : List UInt8) : Pc → Prop
  | .push _ | .popFrontPacket => (PacketView.of unread).size ≤ DefaultSize
  | _ => True

structure Small (s : Sys κ) : Prop extends Inv s, Known s, SmallReads s.main.session where
  front : SmallFront s.main.session.receiveBuffer.unread s.main.pc

section Io

variable {s s' : Session κ} {a : IoAct κ} {pushed : List SessionEvent}

lemma smallReads_iff : SmallReads s ↔
    EveryRead (fun op => ∀ n, op = .completed (.ok n) → n ≤ DefaultSize) s := by
  constructor
  · exact fun h => ⟨fun op hop n heq => h.reads n (heq ▸ hop), fun n hn m heq => by
      cases heq
      exact h.strand n hn⟩
  · exact fun h => ⟨fun n hn => h.reads _ hn n rfl, fun n hn => h.strand n hn n rfl⟩

lemma SmallReads.ioStep (h : SmallReads s) (hs : IoStep s a s' pushed)
    (ha : ∀ i bs, a = .readDone i (.ok bs) → bs.length ≤ DefaultSize) : SmallReads s' := by
  refine smallReads_iff.mpr ((smallReads_iff.mp h).ioStep hs (fun e n heq => by cases heq)
    (fun _ op hop n heq => absurd heq (hop n)) fun i offset size bs _ heq n hn => ?_)
  cases hn
  exact ha i bs heq

end Io

section Sys

lemma smallFront_of_not_inside {unread : List UInt8} {pc : Pc} (h : ¬pc.Inside) :
    SmallFront unread pc := by
  cases pc <;> first | trivial | exact absurd trivial h

lemma drain_smallFront {d : Drain κ}
    (hf : SmallFront d.session.receiveBuffer.unread d.pc)
    (hC : d.pc = .getFrontPacket → ∀ view ∈ d.session.getFrontPacket,
      view.size ≤ DefaultSize) :
    SmallFront (d.step build pb sessionId).session.receiveBuffer.unread
      (d.step build pb sessionId).pc := by
  cases hpc : d.pc with
  | getFrontPacket =>
    by_cases h : Incomplete d.session.receiveBuffer.unread
    · simp only [Drain.step, hpc, getFrontPacket_eq_none h]
      trivial
    · simp only [Drain.step, hpc, getFrontPacket_of_complete h]
      exact hC hpc _ (getFrontPacket_of_complete h)
  | push view =>
    rw [hpc] at hf
    simp only [Drain.step, hpc]
    split
    · exact hf
    · trivial
  | popFrontPacket =>
    simp only [Drain.step, hpc]
    split <;> trivial
  | receive =>
    simp only [Drain.step, hpc]
    split_ifs <;> trivial
  | post | outside | fault | nullSession => simp only [Drain.step, hpc]; trivial

lemma small_init : Small (init : Sys κ) where
  toInv := inv_init
  toKnown := known_init
  reads n hn := by cases hn
  strand n hn := by cases hn
  front := trivial

lemma small_step (s : Sys κ) (a : Act κ) (s' : Sys κ) (h : Small s) (hC : Modest s a)
    (hs : SessionRun.step build pb sessionId owner s a = some s') : Small s' := by
  obtain ⟨hinv, hknown, hreads, hf⟩ := h
  obtain ⟨hinv', hknown'⟩ := known_step s a s' ⟨hinv, hknown⟩ hs
  refine ⟨hinv', hknown', ?_, ?_⟩
  · cases step_spec hs with
    | start hp =>
      unfold Session.start
      split_ifs
      · exact hreads
      · exact ⟨hreads.reads, hreads.strand⟩
    | startPost hp =>
      exact smallReads_iff.mpr (smallReads_iff.mp hreads).post_asyncRead
    | drain hp hpc => exact smallReads_iff.mpr (smallReads_iff.mp hreads).drain
    | sendPost => exact smallReads_iff.mpr ((smallReads_iff.mp hreads).quiet (.postSend _ _))
    | io h =>
      refine hreads.ioStep (ioStep_spec hinv.captured.posting h) ?_
      rintro i bs rfl
      exact hC
    | close | receive | elsewhere | ownerStop => exact hreads
  · cases step_spec hs with
    | start hp => exact start_receiveBuffer s.main.session ▸ hf
    | receive hp hpc he hpc' => rcases findSession_cases hpc' with rfl | rfl | rfl <;> trivial
    | drain hp hpc => exact drain_smallFront hf (hC hp)
    | io h =>
      by_cases hin : s.main.pc.Inside
      · have heq := IoStep.receiveBuffer_eq (ioStep_spec hinv.captured.posting h)
          (sessionTokens_eq_zero hinv (.inl hin))
        simpa only [heq] using hf
      · exact smallFront_of_not_inside hin
    | startPost | close | elsewhere | sendPost | ownerStop => exact hf

variable (build pb sessionId owner) in
/-- **The assertions of the receive buffer hold**, in every run in which no read brings more
than the nominal size and no longer packet is reported. -/
theorem asserted_of_modest {as : List (Act κ)}
    (hC : Along (SessionRun.step build pb sessionId owner) Modest init as) :
    Along (SessionRun.step build pb sessionId owner) Asserted init as := by
  refine hC.mono_of_invariant small_step (fun s a h hC => ?_) small_init
  have hsize := h.sized.size
  cases a with
  | main =>
    intro hp hpc hr
    have hk := h.knows
    have hf := h.front
    rw [hpc] at hk hf
    simp only [Knows, Incomplete, ReceiveBuffer.unread_length, not_or, not_lt] at hk
    exact ⟨hk.2, hsize ▸ hf⟩
  | io a =>
    cases a with
    | strand errors =>
      intro n hs
      have hm := List.mem_of_mem_head? hs
      exact ⟨h.captured.reported n hm, hsize ▸ h.strand n hm⟩
    | stop | send | post | readDone | readQueue | writeDone | writeQueue => trivial
  | start | elsewhere | sendPost | ownerStop => trivial

end Sys

/-! ### Some runs -/

instance (s : Sys κ) : (a : Act κ) → Decidable (ArmsInside s a)
  | .main => inferInstanceAs (Decidable (_ → _ → _ → _ ≤ _ → _ ≤ _))
  | .start | .io _ | .elsewhere _ | .sendPost _ | .ownerStop => inferInstanceAs (Decidable True)

instance (s : Sys κ) : (a : Act κ) → Decidable (Modest s a)
  | .io (.readDone _ (.ok _)) => inferInstanceAs (Decidable (_ ≤ _))
  | .main => inferInstanceAs (Decidable (_ → _ → ∀ view ∈ s.main.session.getFrontPacket, _))
  | .io (.readDone _ (.error _)) | .io .stop | .io (.send _) | .io (.post _) | .io (.strand _)
  | .io (.readQueue _) | .io (.writeDone _ _) | .io (.writeQueue _) | .start | .elsewhere _
  | .sendPost _ | .ownerStop => inferInstanceAs (Decidable True)

/-- A chat message with no text is received with the header of a longer one behind it, and the
main thread arms the next read. -/
def emptyChatRead : List (Act Unit) :=
  [.start, .main, .io (.strand []),
    .io (.readDone 0 (.ok [0x04, 0x00, 0xD0, 0x07, 0x06, 0x00, 0xD0, 0x07])),
    .io (.readQueue 0), .io (.strand []), .main, .main, .main, .main, .main, .main, .main,
    .io (.strand [])]

/-- The read after it has room. -/
theorem armsWithRoom_emptyChatRead :
    Along (SessionRun.step .Debug proto3 1 .WorldServer) ArmsWithRoom init emptyChatRead :=
  armsWithRoom_of_armsInside .Debug proto3 1 .WorldServer (by decide +kernel)

/-- No assertion fails. -/
theorem asserted_emptyChatRead :
    Along (SessionRun.step .Debug proto3 1 .WorldServer) Asserted init emptyChatRead :=
  asserted_of_modest .Debug proto3 1 .WorldServer (by decide +kernel)

section Read

variable {bs : List UInt8}

/-- The first read of a session brings some bytes. -/
def readOnce (bs : List UInt8) : List (Act Unit) :=
  [.start, .main, .io (.strand []), .io (.readDone 0 (.ok bs)), .io (.readQueue 0)]

def idle (b : ReceiveBuffer) : Session Unit := ⟨true, true, [], [], [], b, [], []⟩

/-- The session after it, with a handler that is going to report the read. -/
def readOnceSession (bs : List UInt8) : Session Unit :=
  (idle ((ReceiveBuffer.new DefaultSize).store 0 bs)).post (.onRead (.ok bs.length))

lemma run_readOnce (hne : bs ≠ []) (h : bs.length ≤ CapacityFactor * DefaultSize) :
    run (SessionRun.step build pb sessionId owner) init (readOnce bs) =
      some ⟨⟨.outside, readOnceSession bs, []⟩, .started, true, true, [], []⟩ := by
  simp [readOnce, readOnceSession, idle, SessionRun.step, mainStep, init, Session.new,
    Session.start, Session.post, Session.ioStep, Session.runStrand, Session.exec,
    Session.asyncRead, Session.readDone, Session.readQueue, ReceiveBuffer.new,
    ReceiveBuffer.getUnwrittenSize, h, hne]

/-- **A read of more than the nominal size** fails an assertion, whatever it brings. -/
lemma not_asserted_of_length (hlt : DefaultSize < bs.length)
    (h : bs.length ≤ CapacityFactor * DefaultSize) :
    ¬Along (SessionRun.step build pb sessionId owner) Asserted init
      (readOnce bs ++ [.io (.strand [])]) := by
  intro hall
  have hne : bs ≠ [] := List.ne_nil_of_length_pos (Nat.zero_lt_of_lt hlt)
  have hlast := hall.right_of_append (run_readOnce hne h)
  exact absurd (hlast.1 bs.length rfl).2 (not_le.mpr hlt)

def readOnceBuffer (bs : List UInt8) (h : bs.length ≤ CapacityFactor * DefaultSize) :
    ReceiveBuffer :=
  ((ReceiveBuffer.new DefaultSize).store 0 bs).onWritten bs.length h

/-- The read is reported, and the main thread takes one packet and comes to the next read. -/
def upToReceive : List (Act Unit) :=
  [.io (.strand []), .main, .main, .main, .main, .main]

variable (owner) in
lemma run_upToReceive (h : bs.length ≤ CapacityFactor * DefaultSize)
    (hcomplete : ¬Incomplete (readOnceBuffer bs h).unread)
    (ht : FrameRun.Takes build pb (PacketView.of (readOnceBuffer bs h).unread))
    (hpop : (PacketView.of (readOnceBuffer bs h).unread).size ≤
      (readOnceBuffer bs h).getUnreadSize)
    (hpoppable : Poppable build (readOnceBuffer bs h))
    (hinc : Incomplete ((readOnceBuffer bs h).onRead _ hpop).unread) :
    ∃ entry, run (SessionRun.step build pb sessionId owner)
        ⟨⟨.outside, readOnceSession bs, []⟩, .started, true, true, [], []⟩ upToReceive =
      some ⟨⟨.receive, idle ((readOnceBuffer bs h).onRead _ hpop), [entry]⟩, .started, true, true,
        [], [.receive]⟩ := by
  have hio : (readOnceSession bs).ioStep (.strand []) =
      some (idle (readOnceBuffer bs h), [.receive]) := by
    have hroom : bs.length ≤ ((ReceiveBuffer.new DefaultSize).store 0 bs).getUnwrittenSize := h
    simp [Session.ioStep, Session.runStrand, Session.exec, Session.onRead, readOnceSession,
      readOnceBuffer, idle, Session.post, hroom]
  have hfirst : (idle (readOnceBuffer bs h)).getFrontPacket =
      some (PacketView.of (readOnceBuffer bs h).unread) :=
    getFrontPacket_of_complete hcomplete
  obtain ⟨entry, hpush⟩ := FrameRun.push_of_takes ht [] sessionId
  have hpopped : (idle (readOnceBuffer bs h)).popFrontPacket build =
      some (idle ((readOnceBuffer bs h).onRead _ hpop)) :=
    popFrontPacket_eq_some (s := idle (readOnceBuffer bs h)) rfl hpop hpoppable
  have hlast : (idle ((readOnceBuffer bs h).onRead _ hpop)).getFrontPacket = none :=
    getFrontPacket_eq_none hinc
  refine ⟨entry, ?_⟩
  simp [upToReceive, SessionRun.step, mainStep, hio, handleEvent, findSession, Drain.step,
    hfirst, hpush, hpopped, hlast]

/-- When a first packet up to 12284 is popped, the header of a second one is left behind it. -/
lemma onRead_late {n : ℕ} (hn : n = 12284) (hlen : bs.length = 12288)
    (h : bs.length ≤ CapacityFactor * DefaultSize)
    (hpop : n ≤ (readOnceBuffer bs h).getUnreadSize) :
    ((readOnceBuffer bs h).onRead n hpop).readOffset = 12284 ∧
      ((readOnceBuffer bs h).onRead n hpop).writeOffset = 12288 := by
  simp [ReceiveBuffer.onRead, ReceiveBuffer.resetOffsets, readOnceBuffer, ReceiveBuffer.onWritten,
    ReceiveBuffer.store, ReceiveBuffer.new, ReceiveBuffer.getUnwrittenSize, CapacityFactor,
    DefaultSize, hlen, hn]

lemma not_roomToRead_of_late {b : ReceiveBuffer} (hb : b.size = DefaultSize)
    (hr : b.readOffset = 12284) (hw : b.writeOffset = 12288)
    (h : (PacketView.of b.unread).size = 5000) : ¬RoomToRead b := by
  rintro ⟨-, hiff⟩
  simp only [ReceiveBuffer.getUnreadSize, ReceiveBuffer.getUnwrittenSize, hb, hr, hw, h,
    CapacityFactor, DefaultSize, headerSize] at hiff
  omega

/-- **A packet that starts late has no room**, though it would have some in an empty buffer. -/
lemma not_armsWithRoom_of_late (hlen : bs.length = 12288) (h0 : getLe16 bs 0 = 12284)
    (h2 : getLe16 bs 2 = 2000) (hlate : getLe16 (bs.drop 12284) 0 = 5000) :
    ¬Along (SessionRun.step .Release pb sessionId owner) ArmsWithRoom init
      (readOnce bs ++ (upToReceive ++ [.main])) := by
  have h : bs.length ≤ CapacityFactor * DefaultSize := by rw [hlen]; decide
  have hne : bs ≠ [] := List.ne_nil_of_length_pos (by omega)
  have hunread : (readOnceBuffer bs h).unread = bs :=
    ReceiveBuffer.unread_onWritten_store (ReceiveBuffer.new DefaultSize) bs h
  have hview : (PacketView.of (readOnceBuffer bs h).unread).size = 12284 := by
    rw [hunread]
    exact h0
  have hpop : (PacketView.of (readOnceBuffer bs h).unread).size ≤
      (readOnceBuffer bs h).getUnreadSize := by
    rw [hview, ← ReceiveBuffer.unread_length, hunread, hlen]
    omega
  have hcomplete : ¬Incomplete (readOnceBuffer bs h).unread := by
    rw [Incomplete, ReceiveBuffer.unread_length, not_or, not_lt, not_lt]
    exact ⟨le_trans (by rw [hview]; decide) hpop, hpop⟩
  have ht : FrameRun.Takes .Release pb (PacketView.of (readOnceBuffer bs h).unread) :=
    ⟨by rw [hview]; decide, .c2sChat .new, by rw [hunread, PacketView.of, h2]; rfl,
      fun hd => by cases hd⟩
  -- what is left behind the first packet
  have hrest : ((readOnceBuffer bs h).onRead _ hpop).unread = bs.drop 12284 := by
    rw [ReceiveBuffer.unread_onRead, hunread]
    congr 1
  have hsecond : (PacketView.of ((readOnceBuffer bs h).onRead _ hpop).unread).size = 5000 := by
    rw [hrest, PacketView.of, hlate]
  have hinc : Incomplete ((readOnceBuffer bs h).onRead _ hpop).unread := by
    refine .inr ?_
    rw [hsecond, hrest, List.length_drop, hlen]
    decide
  obtain ⟨hr, hw⟩ := onRead_late hview hlen h hpop
  obtain ⟨entry, hrun⟩ := run_upToReceive owner h hcomplete ht hpop
    (nominal_release _ _) hinc
  intro hall
  have hlast := (hall.right_of_append (run_readOnce hne h)).right_of_append hrun
  exact not_roomToRead_of_late (ReceiveBuffer.size_onRead _ _ _) hr hw hsecond
    (hlast.1 rfl rfl rfl)

end Read

/-- A packet of 12284 bytes, and the header of one of 5000. -/
def latePacket : List UInt8 :=
  [0xFC, 0x2F, 0xD0, 0x07] ++ List.replicate 12280 0 ++ [0x88, 0x13, 0xD0, 0x07]

/-- The second packet does not get the room it needs. -/
theorem not_armsWithRoom_latePacket :
    ¬Along (SessionRun.step .Release proto3 1 .WorldServer) ArmsWithRoom init
      (readOnce latePacket ++ (upToReceive ++ [.main])) := by
  have hlast : latePacket.drop 12284 = [0x88, 0x13, 0xD0, 0x07] :=
    List.drop_left' (by rw [List.length_append, List.length_replicate]; rfl)
  have hlen : latePacket.length = 12288 := by
    rw [latePacket, List.length_append, List.length_append, List.length_replicate]
    rfl
  refine not_armsWithRoom_of_late hlen ?_ ?_ (by rw [hlast]; decide)
  · rw [latePacket, List.append_assoc, getLe16_append (by decide)]
    decide
  · rw [latePacket, List.append_assoc, getLe16_append (by decide)]
    decide

/-- 4097 bytes in one read. -/
theorem not_asserted_4097 : ¬Along (SessionRun.step .Debug proto3 1 .WorldServer) Asserted init
    (readOnce (List.replicate 4097 0) ++ [.io (.strand [])]) :=
  not_asserted_of_length (by rw [List.length_replicate]; decide)
    (by rw [List.length_replicate]; decide)

end ByteborneWorld.RoomRun
