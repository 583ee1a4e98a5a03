import ByteborneWorld.DrainRun

/-!
The drain loop and the message queue on any bytes that a peer may send: the size and the id of a
packet are its own, and so is its payload.
-/

namespace ByteborneWorld.FrameRun

open ByteborneWorld.ChatProto ByteborneWorld.PacketModel ByteborneWorld.RecvModel
open ByteborneWorld.SessionModel ByteborneWorld.DrainRun

variable {κ : Type*} {build : Build} {pb : Protobuf}

/-! ### What is pushed -/

/-- The payload of a packet, as `push` hands it to the parser. -/
def payloadOf (view : PacketView) : List UInt8 := view.payload.take (view.size - headerSize)

/-- The payload parses as a message of the class of the packet. -/
def Parses (pb : Protobuf) (view : PacketView) : Prop :=
  ∃ message, createMessage (.ofId view.id) = some message ∧
    (pb.parseFromArray message (payloadOf view)).2 = true

/-- An entry holds the successful parse of a packet, in a message of the type it names. -/
structure Holds (pb : Protobuf) (view : PacketView) (entry : MessageQueueEntry) : Prop where
  messageType : entry.messageType = .ofId view.id
  type : Message.type entry.message = entry.messageType
  parse : ∃ message, createMessage (.ofId view.id) = some message ∧
    pb.parseFromArray message (payloadOf view) = (entry.message, true)

/-- `push` appends one entry that holds the parse, or leaves the queue as it is; an assertion
that fails stops the program before the queue is touched. -/
def Atomic (build : Build) (pb : Protobuf) (queue : MessageQueue) (sessionId : ℕ)
    (view : PacketView) : Prop :=
  match push build pb queue sessionId view with
  | .ok queue' => queue' = queue ∨ ∃ entry, queue' = queue ++ [entry] ∧ Holds pb view entry
  | .error f => f = .assertion

lemma createMessage_ofId (id : ℕ) :
    createMessage (.ofId id) = none ↔ id ≠ 1000 ∧ id ≠ 2000 := by
  unfold MessageType.ofId
  split_ifs with h0 h1 h2 <;> simp_all [createMessage]

lemma type_parseFromArray (message : Message) (bs : List UInt8) :
    Message.type (pb.parseFromArray message bs).1 = Message.type message := by
  cases message <;> rfl

lemma type_createMessage {id : ℕ} {message : Message}
    (h : createMessage (.ofId id) = some message) : Message.type message = .ofId id := by
  cases hid : MessageType.ofId id <;> rw [hid] at h <;> cases h <;> rfl

lemma push_known {view : PacketView} {message : Message}
    (hknown : createMessage (.ofId view.id) = some message) (hsize : headerSize ≤ view.size)
    (queue : MessageQueue) (sessionId : ℕ) : push build pb queue sessionId view =
      if build = .Debug ∧ (pb.parseFromArray message (payloadOf view)).2 = false then
        .error .assertion
      else .ok (queue ++
        [⟨sessionId, (pb.parseFromArray message (payloadOf view)).1, .ofId view.id⟩]) := by
  simp only [push, hknown, if_neg (not_lt.mpr hsize), payloadOf, Bool.not_eq_true]
  congr 1

lemma push_unknown {view : PacketView} (h : createMessage (.ofId view.id) = none)
    (queue : MessageQueue) (sessionId : ℕ) :
    push build pb queue sessionId view = .error .nullMessage := by
  simp [push, h]

lemma not_atomic_of_unknown {view : PacketView} (h : createMessage (.ofId view.id) = none)
    (queue : MessageQueue) (sessionId : ℕ) : ¬Atomic build pb queue sessionId view := by
  intro ha
  rw [Atomic, push_unknown h] at ha
  cases ha

/-- A release build appends an entry also when the parse fails. -/
lemma not_atomic_of_not_parses {view : PacketView} {m : Message}
    (hknown : createMessage (.ofId view.id) = some m) (hsize : headerSize ≤ view.size)
    (hb : (pb.parseFromArray m (payloadOf view)).2 = false) (queue : MessageQueue)
    (sessionId : ℕ) : ¬Atomic .Release pb queue sessionId view := by
  intro ha
  rw [Atomic, push_known hknown hsize, if_neg (by simp)] at ha
  rcases ha with ha | ⟨entry, -, -, -, m', hm, hparse⟩
  · simp at ha
  · rw [hknown] at hm
    cases hm
    rw [hparse] at hb
    cases hb

/-- **When `push` is atomic.** For every packet whose size counts the header: exactly if its id
is that of a class, and the build is a debug build or the payload parses. -/
theorem atomic_iff (build : Build) (pb : Protobuf) (queue : MessageQueue) (sessionId : ℕ)
    (view : PacketView) (hsize : headerSize ≤ view.size) :
    Atomic build pb queue sessionId view ↔
      (view.id = 1000 ∨ view.id = 2000) ∧ (build = .Debug ∨ Parses pb view) := by
  cases hknown : createMessage (.ofId view.id) with
  | none =>
    obtain ⟨h1, h2⟩ := (createMessage_ofId view.id).mp hknown
    exact iff_of_false (not_atomic_of_unknown hknown queue sessionId) (by simp [h1, h2])
  | some message =>
    have hid : view.id = 1000 ∨ view.id = 2000 := by
      by_contra hne
      rw [not_or] at hne
      rw [(createMessage_ofId view.id).mpr hne] at hknown
      cases hknown
    have hparses : Parses pb view ↔ (pb.parseFromArray message (payloadOf view)).2 = true := by
      simp [Parses, hknown]
    rw [and_iff_right hid, hparses]
    cases hb : (pb.parseFromArray message (payloadOf view)).2 with
    | true =>
      refine iff_of_true ?_ (.inr rfl)
      rw [Atomic, push_known hknown hsize, if_neg (by simp [hb])]
      refine .inr ⟨_, rfl, rfl, ?_, message, hknown, by rw [← hb]⟩
      rw [type_parseFromArray, type_createMessage hknown]
    | false =>
      cases build with
      | Debug =>
        refine iff_of_true ?_ (.inl rfl)
        rw [Atomic, push_known hknown hsize, if_pos ⟨rfl, hb⟩]
      | Release =>
        exact iff_of_false (not_atomic_of_not_parses hknown hsize hb queue sessionId) (by simp)

/-- The equivalence applies to a message with no text. -/
theorem atomic_iff_emptyChat : Atomic .Release proto3 [] 1 ⟨4, 2000, []⟩ ↔
    ((2000 : ℕ) = 1000 ∨ (2000 : ℕ) = 2000) ∧
      (Build.Release = .Debug ∨ Parses proto3 ⟨4, 2000, []⟩) :=
  atomic_iff .Release proto3 [] 1 ⟨4, 2000, []⟩ (le_refl _)

/-- **Two packets that `push` is not atomic on**: an unknown id in either build, and a payload
that does not parse in a release build. -/
theorem push_not_atomic :
    ¬Atomic .Debug proto3 [] 1 ⟨4, 7, []⟩ ∧ ¬Atomic .Release proto3 [] 1 ⟨4, 7, []⟩ ∧
      ¬Atomic .Release proto3 [] 1 ⟨5, 2000, [0xFF]⟩ :=
  ⟨not_atomic_of_unknown rfl [] 1, not_atomic_of_unknown rfl [] 1,
    not_atomic_of_not_parses (m := .c2sChat .new) rfl (by decide) (by decide) [] 1⟩

/-! ### The loop on any bytes -/

/-- `push` makes an entry of a packet. -/
def Takes (build : Build) (pb : Protobuf) (view : PacketView) : Prop :=
  headerSize ≤ view.size ∧ ∃ message, createMessage (.ofId view.id) = some message ∧
    (build = .Debug → (pb.parseFromArray message (payloadOf view)).2 = true)

/-- Some bytes are packets that `push` takes and the pop does, one after the other, and an
incomplete one. -/
inductive Framed (build : Build) (pb : Protobuf) (size : ℕ) : List UInt8 → Prop
  | incomplete {bs} (h : Incomplete bs) : Framed build pb size bs
  | packet {bs} (h : ¬Incomplete bs) (ht : Takes build pb (PacketView.of bs))
      (hpop : Nominal build size (PacketView.of bs).size)
      (hrest : Framed build pb size (bs.drop (PacketView.of bs).size)) : Framed build pb size bs

/-- Where the loop stands at `push`, the packet and its header lie inside the unread bytes;
where it stands at the pop, that consumes a header at least. -/
def InBounds (build : Build) (pb : Protobuf) (sessionId : ℕ) (d : Drain κ) : Prop :=
  match d.pc with
  | .push view => view = PacketView.of d.session.receiveBuffer.unread ∧
      headerSize ≤ view.size ∧ view.size ≤ d.session.receiveBuffer.getUnreadSize
  | .popFrontPacket =>
    (d.step build pb sessionId).session.receiveBuffer.getUnreadSize + headerSize ≤
      d.session.receiveBuffer.getUnreadSize
  | _ => True

/-- The loop stays in bounds, and ends after an iteration, of three calls, for every four
unread bytes at most. -/
def Bounded (build : Build) (pb : Protobuf) (sessionId : ℕ) (d : Drain κ) : Prop :=
  (∀ k, InBounds build pb sessionId ((Drain.step build pb sessionId)^[k] d)) ∧
    ∃ n ≤ d.session.receiveBuffer.getUnreadSize / headerSize,
      ((Drain.step build pb sessionId)^[3 * n + 1] d).pc = .receive

lemma push_of_takes {view : PacketView} (h : Takes build pb view) (queue : MessageQueue)
    (sessionId : ℕ) : ∃ entry, push build pb queue sessionId view = .ok (queue ++ [entry]) := by
  obtain ⟨hsize, message, hknown, hparse⟩ := h
  rw [push_known hknown hsize, if_neg (by rintro ⟨rfl, hb⟩; rw [hparse rfl] at hb; cases hb)]
  exact ⟨_, rfl⟩

lemma push_of_not_takes {view : PacketView} (hsize : headerSize ≤ view.size)
    (h : ¬Takes build pb view) (queue : MessageQueue) (sessionId : ℕ) :
    ∃ f, push build pb queue sessionId view = .error f := by
  cases hknown : createMessage (.ofId view.id) with
  | none => exact ⟨_, push_unknown hknown queue sessionId⟩
  | some message =>
    rw [push_known hknown hsize]
    split_ifs with hb
    · exact ⟨_, rfl⟩
    · exact absurd ⟨hsize, message, hknown, fun hd => by simpa [hd] using hb⟩ h

section Loop

variable {sessionId : ℕ} {d : Drain κ}

variable (sessionId) in
/-- **A round of the loop** over a packet that `push` takes. -/
lemma round_of_takes (hpc : d.pc = .getFrontPacket) (hr : d.session.running = true)
    (h : ¬Incomplete d.session.receiveBuffer.unread)
    (ht : Takes build pb (PacketView.of d.session.receiveBuffer.unread))
    (hpop : Poppable build d.session.receiveBuffer) :
    ∃ (b : ReceiveBuffer) (queue : MessageQueue), b.size = d.session.receiveBuffer.size ∧
      b.unread = d.session.receiveBuffer.unread.drop
        (PacketView.of d.session.receiveBuffer.unread).size ∧
      { d with pc := .push (PacketView.of d.session.receiveBuffer.unread) }.step
        build pb sessionId = { d with pc := .popFrontPacket, queue := queue } ∧
      { d with pc := .popFrontPacket, queue := queue }.step build pb sessionId =
        { d with session := { d.session with receiveBuffer := b }, queue := queue } := by
  obtain ⟨entry, hpush⟩ := push_of_takes ht d.queue sessionId
  obtain ⟨b, hrest, -, hsize, -, h2, h3⟩ := round_of_push sessionId hpc hr h hpop hpush
  exact ⟨b, d.queue ++ [entry], hsize, hrest, h2, h3⟩

def Done (d : Drain κ) : Prop := d.pc = .receive ∨ d.pc = .post ∨ d.pc = .outside

lemma done_iterate (h : Done d) (k : ℕ) : Done ((Drain.step build pb sessionId)^[k] d) := by
  induction k generalizing d with
  | zero => exact h
  | succ k ih =>
    refine ih ?_
    rcases h with h | h | h <;> simp only [Drain.step, h]
    · split_ifs <;> simp [Done]
    · exact .inr (.inr rfl)
    · exact .inr (.inr h)

lemma Done.inBounds (h : Done d) : InBounds build pb sessionId d := by
  rcases h with h | h | h <;> simp only [InBounds, h]

lemma fault_iterate {f : Fault} (h : d.pc = .fault f) (k : ℕ) :
    ((Drain.step build pb sessionId)^[k] d).pc = .fault f := by
  induction k generalizing d with
  | zero => exact h
  | succ k ih =>
    refine ih ?_
    simp only [Drain.step, h]

variable (sessionId) in
lemma pop_not_receive (hpc : d.pc = .getFrontPacket) (hr : d.session.running = true)
    (h : ¬Incomplete d.session.receiveBuffer.unread)
    (ht : Takes build pb (PacketView.of d.session.receiveBuffer.unread))
    (hpop : ¬Poppable build d.session.receiveBuffer) (n : ℕ) :
    ((Drain.step build pb sessionId)^[3 * (n + 1) + 1] d).pc ≠ .receive := by
  obtain ⟨entry, hpush⟩ := push_of_takes ht d.queue sessionId
  have h3 : ((Drain.step build pb sessionId)^[3] d).pc = .fault .assertion := by
    rw [abort_iterate hpc hr h hpop hpush]
  rw [show 3 * (n + 1) + 1 = 3 * n + 1 + 3 by omega, Function.iterate_add_apply,
    fault_iterate h3]
  nofun

theorem bounded_of_framed {bs : List UInt8} {size : ℕ} (hpc : d.pc = .getFrontPacket)
    (hr : d.session.running = true) (hbs : d.session.receiveBuffer.unread = bs)
    (hsz : d.session.receiveBuffer.size = size) (h : Framed build pb size bs) :
    Bounded build pb sessionId d := by
  induction h generalizing d with
  | incomplete h =>
    subst hbs
    have hstep := step_incomplete pb build sessionId hpc h
    refine ⟨fun k => ?_, 0, Nat.zero_le _, ?_⟩
    · cases k with
      | zero => simp only [Function.iterate_zero_apply, InBounds, hpc]
      | succ k =>
        rw [Function.iterate_succ_apply, hstep]
        exact (done_iterate (.inl rfl) k).inBounds
    · rw [Nat.mul_zero, Nat.zero_add, Function.iterate_one, hstep]
  | packet h ht hpop hrest ih =>
    subst hbs hsz
    have h1 := step_complete pb build sessionId hpc h
    obtain ⟨b, queue, hbsize, hb, h2, h3⟩ := round_of_takes sessionId hpc hr h ht hpop
    obtain ⟨hin, n, hn, hend⟩ := ih (d := { d with
      session := { d.session with receiveBuffer := b }
      queue := queue }) hpc hr hb hbsize
    have hle := h
    simp only [Incomplete, not_or, not_lt, ReceiveBuffer.unread_length] at hle
    have hlen : b.getUnreadSize + (PacketView.of d.session.receiveBuffer.unread).size =
        d.session.receiveBuffer.getUnreadSize := by
      rw [← ReceiveBuffer.unread_length b, hb, List.length_drop, ReceiveBuffer.unread_length]
      omega
    have hsize := ht.1
    refine ⟨fun k => ?_, n + 1, ?_, ?_⟩
    · obtain _ | _ | _ | k := k
      · simp only [Function.iterate_zero_apply, InBounds, hpc]
      · simp only [Nat.zero_add, Function.iterate_one, h1]
        exact ⟨rfl, hsize, hle.2⟩
      · simp only [Function.iterate_succ_apply, Function.iterate_zero_apply, h1, h2, InBounds, h3]
        omega
      · simp only [Function.iterate_succ_apply, h1, h2, h3]
        exact hin k
    · simp only [headerSize] at hn hsize ⊢
      omega
    · rw [show 3 * (n + 1) + 1 = 3 * n + 1 + 3 by omega]
      simp only [Function.iterate_add_apply _ (3 * n + 1) 3, Function.iterate_succ_apply,
        Function.iterate_zero_apply, h1, h2, h3] at hend ⊢
      exact hend

theorem framed_of_bounded (hpc : d.pc = .getFrontPacket) (hr : d.session.running = true)
    (hin : ∀ k, InBounds build pb sessionId ((Drain.step build pb sessionId)^[k] d)) {n : ℕ}
    (hend : ((Drain.step build pb sessionId)^[3 * n + 1] d).pc = .receive) :
    Framed build pb d.session.receiveBuffer.size d.session.receiveBuffer.unread := by
  induction n generalizing d with
  | zero =>
    by_contra hframed
    have h : ¬Incomplete d.session.receiveBuffer.unread := fun h => hframed (.incomplete h)
    simp only [Nat.mul_zero, Nat.zero_add, Function.iterate_one,
      step_complete pb build sessionId hpc h] at hend
    cases hend
  | succ n ih =>
    by_cases h : Incomplete d.session.receiveBuffer.unread
    · exact .incomplete h
    have h1 := step_complete pb build sessionId hpc h
    have hsize : headerSize ≤ (PacketView.of d.session.receiveBuffer.unread).size := by
      have := hin 1
      rw [Function.iterate_one, h1] at this
      exact this.2.1
    by_cases ht : Takes build pb (PacketView.of d.session.receiveBuffer.unread)
    · by_cases hpop : Poppable build d.session.receiveBuffer
      swap
      · exact absurd hend (pop_not_receive sessionId hpc hr h ht hpop n)
      rw [show 3 * (n + 1) + 1 = 3 * n + 1 + 3 by omega, Function.iterate_add_apply] at hend
      obtain ⟨b, queue, hsz, hb, h2, h3⟩ := round_of_takes sessionId hpc hr h ht hpop
      have h123 : (Drain.step build pb sessionId)^[3] d =
          { d with session := { d.session with receiveBuffer := b }, queue := queue } := by
        simp only [Function.iterate_succ_apply, Function.iterate_zero_apply, h1, h2, h3]
      rw [h123] at hend
      have hrest := ih (d := { d with
        session := { d.session with receiveBuffer := b }
        queue := queue }) hpc hr (fun k => ?_) hend
      · rw [hb, hsz] at hrest
        exact .packet h ht hpop hrest
      rw [← h123, ← Function.iterate_add_apply]
      exact hin (k + 3)
    · obtain ⟨f, hf⟩ := push_of_not_takes hsize ht d.queue sessionId
      have h2 : ((Drain.step build pb sessionId)^[2] d).pc = .fault f := by
        simp only [Function.iterate_succ_apply, Function.iterate_zero_apply, h1]
        simp only [Drain.step, hf]
      rw [show 3 * (n + 1) + 1 = 3 * n + 2 + 2 by omega, Function.iterate_add_apply,
        fault_iterate h2] at hend
      cases hend

/-- **When the loop stays in bounds and ends.** On any bytes in the buffer of a running session:
exactly if they are packets that `push` and the pop take, whose sizes count the header, and an
incomplete one. -/
theorem bounded_iff_framed (build : Build) (pb : Protobuf) (sessionId : ℕ) (d : Drain κ)
    (hpc : d.pc = .getFrontPacket) (hr : d.session.running = true) :
    Bounded build pb sessionId d ↔
      Framed build pb d.session.receiveBuffer.size d.session.receiveBuffer.unread :=
  ⟨fun ⟨hin, _, _, hend⟩ => framed_of_bounded hpc hr hin hend,
    fun h => bounded_of_framed hpc hr rfl rfl h⟩

end Loop

/-- The main thread at the start of the loop, with some bytes in the buffer. -/
def received (bs : List UInt8) (h : bs.length ≤ CapacityFactor * DefaultSize) : Drain Unit where
  pc := .getFrontPacket
  session := { (Session.new : Session Unit).start.1 with
    receiveBuffer := ((ReceiveBuffer.new DefaultSize).store 0 bs).onWritten bs.length h }
  queue := []

/-- The equivalence applies to a chat message with no text. -/
theorem bounded_iff_framed_emptyChat :
    Bounded .Debug proto3 1 (received [0x04, 0x00, 0xD0, 0x07] (by decide)) ↔
      Framed .Debug proto3 DefaultSize
        (received [0x04, 0x00, 0xD0, 0x07] (by decide)).session.receiveBuffer.unread :=
  bounded_iff_framed .Debug proto3 1 _ rfl rfl

/-- **A header that does not count itself** is reported, and handed to `push`. -/
theorem size_zero_not_bounded :
    ¬Bounded .Debug proto3 1 (received [0x00, 0x00, 0xD0, 0x07] (by decide)) ∧
      ¬Bounded .Release proto3 1 (received [0x00, 0x00, 0xD0, 0x07] (by decide)) := by
  refine ⟨?_, ?_⟩ <;> rintro ⟨hin, -⟩ <;> exact absurd (hin 1).2.1 (by decide)

end ByteborneWorld.FrameRun
