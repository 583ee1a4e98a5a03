import ByteborneWorld.DrainRun

/-!
The drain loop of the main thread beside `Session::stop` on an I/O thread: which of the
schedules let the loop end, and push each packet once. An assertion that fails on an I/O thread
ends the program at any time; here both threads go on.
-/

namespace ByteborneWorld.StopRun

open ByteborneWorld.ChatProto ByteborneWorld.PacketModel ByteborneWorld.RecvModel
open ByteborneWorld.SessionModel ByteborneWorld.DrainRun ByteborneWorld.Lts

variable {κ : Type*} {pb : Protobuf} {build : Build} {sessionId : ℕ}

/-- The main thread makes its next step, or an I/O thread calls `stop`. -/
inductive Act | main | stop
  deriving DecidableEq

def next (build : Build) (pb : Protobuf) (sessionId : ℕ) (d : Drain κ) : Act → Drain κ
  | .main => d.step build pb sessionId
  | .stop => { d with session := d.session.stop.1.aboutTo d.session.stop.2 }

/-- In a debug build a failed assertion has ended the program. -/
def Aborted (build : Build) (d : Drain κ) : Prop := build = .Debug ∧ d.pc = .fault .assertion

/-- The main thread has left the loop, or does not run any more. -/
def Ended (build : Build) (d : Drain κ) : Prop := d.pc = .receive ∨ Aborted build d

/-- The loop ends, and no packet is pushed twice or in another's place. -/
def Safe (build : Build) (sessionId : ℕ) (ps : List (Packet pb)) (d : Drain κ)
    (acts : ℕ → Act) : Prop :=
  (∃ k, Ended build (trace (next build pb sessionId) d acts k)) ∧
    ∀ k, (trace (next build pb sessionId) d acts k).queue <+:
      d.queue ++ ps.map fun p => p.entry sessionId

/-- The packets that the loop comes to: all of them, or in a debug build those up to the first
one that is longer than the nominal size, at whose pop the program ends. -/
def reached (build : Build) (size : ℕ) : List (Packet pb) → List (Packet pb)
  | [] => []
  | p :: ps => if Nominal build size p.bytes.length then p :: reached build size ps else [p]

/-- No stop comes before the three calls that each packet takes to which the loop comes. -/
def StopsLate (build : Build) (ps : List (Packet pb)) (d : Drain κ) (acts : ℕ → Act) : Prop :=
  ps = [] ∨ d.session.running = true ∧ ∀ k, acts k = .stop →
    3 * (reached build d.session.receiveBuffer.size ps).length ≤ count .main acts k

/-! ### The packets that the loop comes to -/

section Reached

variable {size : ℕ} {ps : List (Packet pb)}

lemma nominal_of_reached {p : Packet pb} (h : p ∈ (reached build size ps).dropLast) :
    Nominal build size p.bytes.length := by
  induction ps with
  | nil => cases h
  | cons q qs ih =>
    rw [reached] at h
    split_ifs at h with hq
    · cases hqs : reached build size qs with
      | nil => simp [hqs] at h
      | cons r rs =>
        rw [hqs, List.dropLast_cons_cons] at h
        rcases List.mem_cons.mp h with rfl | h
        · exact hq
        · exact ih (hqs ▸ h)
    · cases h

/-- Either none is too long, and the loop comes to all, or the last one is. -/
lemma reached_cases (build : Build) (size : ℕ) (ps : List (Packet pb)) :
    (reached build size ps = ps ∧ ∀ p ∈ ps, Nominal build size p.bytes.length) ∨
      ∃ qs p rest, reached build size ps = qs ++ [p] ∧ ps = qs ++ p :: rest ∧
        (∀ q ∈ qs, Nominal build size q.bytes.length) ∧ ¬Nominal build size p.bytes.length := by
  induction ps with
  | nil => exact .inl ⟨rfl, by simp⟩
  | cons q qs ih =>
    rw [reached]
    split_ifs with hq
    · rcases ih with ⟨heq, hall⟩ | ⟨as, p, rest, heq, rfl, hall, hp⟩
      · exact .inl ⟨by rw [heq], by simpa [hq] using hall⟩
      · exact .inr ⟨q :: as, p, rest, by rw [heq]; rfl, rfl, by simpa [hq] using hall, hp⟩
    · exact .inr ⟨[], q, qs, rfl, rfl, by simp, hq⟩

lemma reached_isPrefix (build : Build) (size : ℕ) (ps : List (Packet pb)) :
    reached build size ps <+: ps := by
  rcases reached_cases build size ps with ⟨heq, -⟩ | ⟨qs, p, rest, heq, hps, -, -⟩
  · exact ⟨[], by rw [heq, List.append_nil]⟩
  · rw [heq, hps]
    exact ⟨rest, by simp⟩

lemma flat_reached (build : Build) (size : ℕ) (ps : List (Packet pb)) (tail : List UInt8) :
    ∃ rest, flat ps ++ tail = flat (reached build size ps) ++ rest := by
  obtain ⟨rest, hrest⟩ := reached_isPrefix build size ps
  exact ⟨flat rest ++ tail, by rw [← List.append_assoc, ← flat_append, hrest]⟩

@[simp] lemma reached_eq_nil : reached build size ps = [] ↔ ps = [] := by
  cases ps with
  | nil => simp [reached]
  | cons p ps =>
    rw [reached]
    split_ifs <;> simp

@[simp] lemma reached_release (size : ℕ) (ps : List (Packet pb)) :
    reached .Release size ps = ps := by
  induction ps with
  | nil => rfl
  | cons p ps ih => rw [reached, if_pos (nominal_release _ _), ih]

end Reached

/-! ### A stop on time -/

@[simp] lemma stop_pc (d : Drain κ) : (next build pb sessionId d .stop).pc = d.pc := rfl

@[simp] lemma stop_receiveBuffer (d : Drain κ) :
    (next build pb sessionId d .stop).session.receiveBuffer = d.session.receiveBuffer := by
  simp only [next, Session.stop, Session.aboutTo]
  split_ifs <;> rfl

@[simp] lemma stop_running (d : Drain κ) :
    (next build pb sessionId d .stop).session.running = false := by
  simp only [next, Session.stop, Session.aboutTo]
  split_ifs with h
  · rfl
  · simpa using h

lemma Aborted.step {d : Drain κ} (h : Aborted build d) : d.step build pb sessionId = d := by
  simp only [Drain.step, h.2]

/-- The main thread has gone through the packets: it stands at the incomplete one, or at the
pop of the last one a debug build ended the program. -/
structure Through (build : Build) (sessionId : ℕ) (rs : List (Packet pb)) (d d' : Drain κ) :
    Prop where
  queue : d'.queue = d.queue ++ rs.map fun p => p.entry sessionId
  pc : d'.pc = .getFrontPacket ∧ Incomplete d'.session.receiveBuffer.unread ∨ Aborted build d'

/-- Where the loop stands after `m` steps of the main thread. -/
structure Stage (build : Build) (sessionId : ℕ) (rs : List (Packet pb)) (d : Drain κ) (m : ℕ)
    (d' : Drain κ) : Prop where
  early : m < 3 * rs.length → d' = (Drain.step build pb sessionId)^[m] d
  last : m = 3 * rs.length → Through build sessionId rs d d'
  queue : 3 * rs.length < m → d'.queue = d.queue ++ rs.map fun p => p.entry sessionId
  done : m = 3 * rs.length + 1 → Ended build d'
  after : 3 * rs.length + 1 < m → d'.pc = .post ∨ d'.pc = .outside ∨ Aborted build d'

section Late

variable {d d' : Drain κ} {ps : List (Packet pb)} {tail : List UInt8} {m : ℕ}

/-- **The steps of the main thread take it through the packets** to which the loop comes. -/
theorem through_iterate (hpc : d.pc = .getFrontPacket) (hr : d.session.running = true)
    (h : d.session.receiveBuffer.unread = flat ps ++ tail) (htail : Incomplete tail) :
    Through build sessionId (reached build d.session.receiveBuffer.size ps) d
      ((Drain.step build pb sessionId)^[
        3 * (reached build d.session.receiveBuffer.size ps).length] d) := by
  rcases reached_cases build d.session.receiveBuffer.size ps with
    ⟨heq, hall⟩ | ⟨qs, p, rest, heq, rfl, hall, hp⟩
  · have hd := drained_iterate build sessionId hpc hr h hall
    rw [heq]
    exact ⟨hd.queue, .inl ⟨hd.pc, hd.unread.symm ▸ htail⟩⟩
  · -- the rounds before the packet that is too long, and the three steps to its pop
    rw [flat_append, List.append_assoc, flat_cons, List.append_assoc] at h
    have hd := drained_iterate build sessionId hpc hr h hall
    obtain ⟨b, hb, hs⟩ := hd.session
    have hpop : ¬Poppable build
        ((Drain.step build pb sessionId)^[3 * qs.length] d).session.receiveBuffer := by
      rw [poppable_iff hd.unread, hs]
      exact hb.symm ▸ hp
    have hpush := p.push_view build (d.queue ++ qs.map fun p => p.entry sessionId) sessionId
      (flat rest ++ tail)
    rw [← hd.unread, ← hd.queue] at hpush
    have habort := abort_iterate hd.pc (by rw [hs]; exact hr) (hd.unread ▸ not_incomplete p _)
      hpop hpush
    rw [heq, List.length_append, List.length_singleton, Nat.mul_succ, add_comm,
      Function.iterate_add_apply, habort]
    exact ⟨by rw [hd.queue]; simp, .inr ⟨(Classical.not_imp.mp hp).1, rfl⟩⟩

lemma stage_of_through {rs : List (Packet pb)} (h : Through build sessionId rs d d') :
    Stage build sessionId rs d (3 * rs.length) d' where
  early h' := absurd h' (lt_irrefl _)
  last _ := h
  queue h' := absurd h' (lt_irrefl _)
  done h' := by omega
  after h' := by omega

lemma stage_zero (hpc : d.pc = .getFrontPacket)
    (h : d.session.receiveBuffer.unread = flat ps ++ tail) (htail : Incomplete tail) :
    Stage build sessionId (reached build d.session.receiveBuffer.size ps) d 0 d where
  early _ := rfl
  last h' := by
    have hnil := List.length_eq_zero_iff.mp (by omega :
      (reached build d.session.receiveBuffer.size ps).length = 0)
    rw [reached_eq_nil] at hnil
    subst hnil
    exact ⟨by simp [reached], .inl ⟨hpc, h.symm ▸ htail⟩⟩
  queue h' := by omega
  done h' := by omega
  after h' := by omega

lemma Stage.main (hpc : d.pc = .getFrontPacket) (hr : ps = [] ∨ d.session.running = true)
    (h : d.session.receiveBuffer.unread = flat ps ++ tail) (htail : Incomplete tail)
    (hs : Stage build sessionId (reached build d.session.receiveBuffer.size ps) d m d') :
    Stage build sessionId (reached build d.session.receiveBuffer.size ps) d (m + 1)
      (d'.step build pb sessionId) := by
  set rs := reached build d.session.receiveBuffer.size ps with hrs
  rcases lt_trichotomy m (3 * rs.length) with hm | rfl | hm
  · -- the next step of a round; the last one of all leaves the incomplete packet
    have hstep : d'.step build pb sessionId = (Drain.step build pb sessionId)^[m + 1] d := by
      rw [hs.early hm, Function.iterate_succ_apply']
    rcases Nat.lt_or_eq_of_le (show m + 1 ≤ 3 * rs.length from hm) with hlt | heq
    · exact ⟨fun _ => hstep, fun _ => by omega, fun _ => by omega, fun _ => by omega,
        fun _ => by omega⟩
    · have hrun : d.session.running = true := hr.resolve_left (by
        rintro rfl
        simp [hrs, reached] at hm)
      rw [hstep, heq]
      exact stage_of_through (through_iterate hpc hrun h htail)
  · obtain ⟨hq, ⟨hpc', hinc⟩ | hpc'⟩ := hs.last rfl
    · rw [step_incomplete pb build sessionId hpc' hinc]
      exact ⟨fun _ => by omega, fun _ => by omega, fun _ => hq, fun _ => .inl rfl,
        fun _ => by omega⟩
    · rw [hpc'.step]
      exact ⟨fun _ => by omega, fun _ => by omega, fun _ => hq, fun _ => .inr hpc',
        fun _ => by omega⟩
  · have hq := hs.queue hm
    have hpc' : d'.pc = .receive ∨ d'.pc = .post ∨ d'.pc = .outside ∨ Aborted build d' := by
      rcases eq_or_lt_of_le (Nat.succ_le_of_lt hm) with heq | hlt
      · exact (hs.done heq.symm).imp id fun h => .inr (.inr h)
      · exact .inr (hs.after hlt)
    refine ⟨fun _ => by omega, fun _ => by omega, fun _ => ?_, fun _ => by omega, fun _ => ?_⟩
    · rcases hpc' with hpc' | hpc' | hpc' | ⟨-, hpc'⟩ <;> simp [Drain.step, hpc', hq]
    · rcases hpc' with hpc' | hpc' | hpc' | hpc'
      · simp only [Drain.step, hpc']
        split_ifs <;> simp
      · exact .inr (.inl (by simp [Drain.step, hpc']))
      · exact .inr (.inl (by simp [Drain.step, hpc']))
      · exact .inr (.inr (hpc'.step.symm ▸ hpc'))

lemma Stage.stop {rs : List (Packet pb)} (hm : 3 * rs.length ≤ m)
    (hs : Stage build sessionId rs d m d') :
    Stage build sessionId rs d m (next build pb sessionId d' .stop) where
  early h := by omega
  last h := ⟨(hs.last h).queue, by rw [stop_receiveBuffer]; exact (hs.last h).pc⟩
  queue h := hs.queue h
  done h := hs.done h
  after h := hs.after h

variable (build sessionId) in
lemma stage_trace {acts : ℕ → Act} (hpc : d.pc = .getFrontPacket)
    (h : d.session.receiveBuffer.unread = flat ps ++ tail) (htail : Incomplete tail)
    (hlate : StopsLate build ps d acts) (k : ℕ) :
    Stage build sessionId (reached build d.session.receiveBuffer.size ps) d (count .main acts k)
      (trace (next build pb sessionId) d acts k) := by
  induction k with
  | zero => exact stage_zero hpc h htail
  | succ k ih =>
    rw [trace, count]
    cases hact : acts k with
    | main => exact ih.main hpc (hlate.imp id And.left) h htail
    | stop =>
      refine ih.stop ?_
      rcases hlate with rfl | ⟨-, hlate⟩
      · exact Nat.zero_le _
      · exact hlate k hact

end Late

/-! ### A stop too early -/

/-- The session is stopped and the packet at the front is still there. -/
def Stuck (pb : Protobuf) (d : Drain κ) : Prop := d.session.running = false ∧ Busy pb d

lemma stuck_stop {d : Drain κ} (h : Busy pb d) : Stuck pb (next build pb sessionId d .stop) := by
  obtain ⟨p, rest, hu, hpc⟩ := h
  exact ⟨stop_running d, p, rest, by rw [stop_receiveBuffer, hu],
    by rw [stop_receiveBuffer, stop_pc]; exact hpc⟩

/-- **A stopped session does not get past its front packet**: it is pushed again and again. -/
theorem stuck_next (d : Drain κ) (a : Act) (h : Stuck pb d) :
    Stuck pb (next build pb sessionId d a) := by
  obtain ⟨hr, p, rest, hu, hpc⟩ := h
  cases a with
  | stop => exact stuck_stop ⟨p, rest, hu, hpc⟩
  | main =>
    rcases hpc with hpc | hpc | hpc
    · have hstep : d.step build pb sessionId =
          { d with pc := .push (PacketView.of d.session.receiveBuffer.unread) } := by
        simp only [Drain.step, hpc, getFrontPacket_eq_some hu]
      rw [next, hstep]
      exact ⟨hr, p, rest, hu, .inr (.inl rfl)⟩
    · have hstep : d.step build pb sessionId =
          { d with pc := .popFrontPacket, queue := d.queue ++ [p.entry sessionId] } := by
        simp only [Drain.step, hpc, hu, p.push_view]
      rw [next, hstep]
      exact ⟨hr, p, rest, hu, .inr (.inr rfl)⟩
    · have hstep : d.step build pb sessionId = { d with pc := .getFrontPacket } := by
        simp only [Drain.step, hpc, popFrontPacket_stopped hr]
      rw [next, hstep]
      exact ⟨hr, p, rest, hu, .inl rfl⟩

lemma busy_reached {d : Drain κ} {ps : List (Packet pb)} {tail : List UInt8}
    (hpc : d.pc = .getFrontPacket) (hr : d.session.running = true)
    (h : d.session.receiveBuffer.unread = flat ps ++ tail) {j : ℕ}
    (hj : j < 3 * (reached build d.session.receiveBuffer.size ps).length) :
    Busy pb ((Drain.step build pb sessionId)^[j] d) ∧
      ((Drain.step build pb sessionId)^[j] d).queue <+:
        d.queue ++ ps.map fun p => p.entry sessionId := by
  obtain ⟨rest, hrest⟩ := flat_reached build d.session.receiveBuffer.size ps tail
  obtain ⟨hbusy, hq⟩ := busy_iterate hpc hr (h.trans hrest) (fun _ => nominal_of_reached) hj
  exact ⟨hbusy, hq.trans ((List.prefix_append_right_inj _).mpr
    ((reached_isPrefix build _ ps).map _))⟩

/-- As long as there are packets left the loop is busy, also after a stop. -/
lemma busy_trace {d : Drain κ} {ps : List (Packet pb)} {tail : List UInt8} {acts : ℕ → Act}
    (hpc : d.pc = .getFrontPacket) (hr : d.session.running = true)
    (h : d.session.receiveBuffer.unread = flat ps ++ tail) {k : ℕ}
    (hk : count .main acts k < 3 * (reached build d.session.receiveBuffer.size ps).length) :
    Busy pb (trace (next build pb sessionId) d acts k) := by
  have hiter : ∀ k,
      count .main acts k < 3 * (reached build d.session.receiveBuffer.size ps).length →
      Stuck pb (trace (next build pb sessionId) d acts k) ∨
        trace (next build pb sessionId) d acts k =
          (Drain.step build pb sessionId)^[count .main acts k] d := by
    intro k hk
    induction k with
    | zero => exact .inr rfl
    | succ k ih =>
      rw [count] at hk
      rcases ih (by omega) with hstuck | heq
      · exact .inl (stuck_next _ _ hstuck)
      · rw [trace, count]
        cases hact : acts k with
        | main => exact .inr (by rw [heq, if_pos rfl, Function.iterate_succ_apply']; rfl)
        | stop => exact .inl (heq ▸ stuck_stop (busy_reached hpc hr h (by omega)).1)
  rcases hiter k hk with hstuck | heq
  · exact hstuck.2
  · rw [heq]
    exact (busy_reached hpc hr h hk).1

lemma not_ended_of_busy {d : Drain κ} (h : Busy pb d) : ¬Ended build d := by
  rintro (hpc | ⟨-, hpc⟩)
  · exact h.pc_ne_receive hpc
  · exact h.pc_ne_fault _ hpc

section Iff

variable {d : Drain κ} {ps : List (Packet pb)} {tail : List UInt8} {acts : ℕ → Act}

lemma stopsLate_of_safe (hpc : d.pc = .getFrontPacket)
    (h : d.session.receiveBuffer.unread = flat ps ++ tail)
    (hsafe : Safe build sessionId ps d acts) : StopsLate build ps d acts := by
  obtain ⟨⟨k, hk⟩, -⟩ := hsafe
  by_contra hlate
  rw [StopsLate, not_or] at hlate
  obtain ⟨hne, hlate⟩ := hlate
  -- a time from which on the session is stuck, with the loop not ended before it
  obtain ⟨l, hstuck, hbefore⟩ : ∃ l, Stuck pb (trace (next build pb sessionId) d acts l) ∧
      ∀ j < l, Busy pb (trace (next build pb sessionId) d acts j) := by
    cases hr : d.session.running with
    | false =>
      obtain ⟨p, qs, rfl⟩ := List.exists_cons_of_ne_nil hne
      rw [flat_cons, List.append_assoc] at h
      exact ⟨0, ⟨hr, p, _, h, .inl hpc⟩, fun j hj => absurd hj (Nat.not_lt_zero j)⟩
    | true =>
      obtain ⟨l, hl⟩ := not_forall.mp fun hall => hlate ⟨hr, hall⟩
      obtain ⟨hact, hl⟩ := Classical.not_imp.mp hl
      have hbusy : ∀ j ≤ l, Busy pb (trace (next build pb sessionId) d acts j) := fun j hj =>
        busy_trace hpc hr h (lt_of_le_of_lt (count_mono hj) (not_le.mp hl))
      refine ⟨l + 1, ?_, fun j hj => hbusy j (Nat.le_of_lt_succ hj)⟩
      rw [trace, hact]
      exact stuck_stop (hbusy l (le_refl _))
  rcases lt_or_ge k l with hkl | hkl
  · exact not_ended_of_busy (hbefore k hkl) hk
  · exact not_ended_of_busy (trace_invariant stuck_next hstuck hkl).2 hk

lemma safe_of_stopsLate (hpc : d.pc = .getFrontPacket)
    (h : d.session.receiveBuffer.unread = flat ps ++ tail) (htail : Incomplete tail)
    (hfair : ∀ k, ∃ l ≥ k, acts l = .main) (hlate : StopsLate build ps d acts) :
    Safe build sessionId ps d acts := by
  have hstage := stage_trace build sessionId hpc h htail hlate
  refine ⟨?_, fun k => ?_⟩
  · obtain ⟨k, hk⟩ := exists_count_eq hfair
      (3 * (reached build d.session.receiveBuffer.size ps).length + 1)
    exact ⟨k, (hstage k).done hk⟩
  · have hall : d.queue ++ (reached build d.session.receiveBuffer.size ps).map
          (fun p => p.entry sessionId) <+: d.queue ++ ps.map fun p => p.entry sessionId :=
      (List.prefix_append_right_inj _).mpr ((reached_isPrefix build _ ps).map _)
    rcases lt_trichotomy (count .main acts k)
        (3 * (reached build d.session.receiveBuffer.size ps).length) with hk | hk | hk
    · have hr : d.session.running = true := by
        rcases hlate with rfl | hlate
        · simp [reached] at hk
        · exact hlate.1
      rw [(hstage k).early hk]
      exact (busy_reached hpc hr h hk).2
    · exact ((hstage k).last hk).queue ▸ hall
    · exact (hstage k).queue hk ▸ hall

/-- **When draining is safe against a stop.** Under every schedule that keeps the main thread
going, the loop over a buffer of accepted packets ends and pushes each of them once at most,
exactly if the stop comes after the last one to which the loop comes is popped. -/
theorem safe_iff_stopsLate (hpc : d.pc = .getFrontPacket)
    (h : d.session.receiveBuffer.unread = flat ps ++ tail) (htail : Incomplete tail)
    (hfair : ∀ k, ∃ l ≥ k, acts l = .main) :
    Safe build sessionId ps d acts ↔ StopsLate build ps d acts :=
  ⟨stopsLate_of_safe hpc h, safe_of_stopsLate hpc h htail hfair⟩

end Iff

/-! ### One packet -/

/-- The packet of a message that has the default value in every field. -/
def emptyChat : Packet proto3 :=
  .ofMessage proto3_roundTrips (.c2sChat .new) (by
    rw [byteSizeLong_c2sChat _ (by decide) (by decide)]
    decide)

/-- The main thread at the start of the loop, with that packet in the buffer. -/
def emptyChatReceived : Drain Unit where
  pc := .getFrontPacket
  session := { (Session.new : Session Unit).start.1 with
    receiveBuffer := ((ReceiveBuffer.new RecvModel.DefaultSize).store 0
      emptyChat.bytes).onWritten emptyChat.bytes.length (by decide) }
  queue := []

lemma unread_emptyChatReceived :
    emptyChatReceived.session.receiveBuffer.unread = flat [emptyChat] ++ [] :=
  (ReceiveBuffer.unread_onWritten_store (ReceiveBuffer.new RecvModel.DefaultSize)
    emptyChat.bytes (by decide)).trans (by simp [flat])

/-- The stop lands between the push of the packet and its pop. -/
def stopBeforePop (k : ℕ) : Act := if k = 2 then .stop else .main

lemma stopBeforePop_fair (k : ℕ) : ∃ l ≥ k, stopBeforePop l = .main :=
  ⟨k + 3, by omega, by simp [stopBeforePop]⟩

/-- The equivalence applies there. -/
theorem safe_iff_stopsLate_emptyChat :
    Safe .Release 1 [emptyChat] emptyChatReceived stopBeforePop ↔
      StopsLate .Release [emptyChat] emptyChatReceived stopBeforePop :=
  safe_iff_stopsLate rfl unread_emptyChatReceived (.inl (by decide)) stopBeforePop_fair

/-- **The loop does not end**, and pushes the packet again in every round. -/
theorem stopBeforePop_not_safe :
    ¬Safe .Release 1 [emptyChat] emptyChatReceived stopBeforePop := by
  intro hsafe
  rcases stopsLate_of_safe rfl unread_emptyChatReceived hsafe with h | ⟨-, h⟩
  · cases h
  · exact absurd (h 2 rfl) (by decide)

end ByteborneWorld.StopRun
