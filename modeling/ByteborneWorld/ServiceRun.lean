import ByteborneWorld.Lts
import ByteborneWorld.ServiceModel

/-!
The events of a service in their order: the close event is the last one as long as no accept or
connect that completed well waits for its handler when the service is closed.
-/

namespace ByteborneWorld.ServiceRun

open ByteborneWorld.ServiceModel ByteborneWorld.Lts

/-- After a close event there are only close events. -/
def CloseLast (events : List ServiceEvent) : Prop :=
  events.Pairwise fun a b => a = .close → b = .close

lemma closeLast_push {events : List ServiceEvent} {e : ServiceEvent} (h : CloseLast events)
    (he : e ≠ .close → .close ∉ events) : CloseLast (events ++ [e]) := by
  refine List.pairwise_append.mpr ⟨h, List.pairwise_singleton _ _, fun a ha b hb hc => ?_⟩
  obtain rfl := List.mem_singleton.mp hb
  by_contra hne
  exact he hne (hc ▸ ha)

/-! ### The base class -/

section Base

variable {η ω : Type} {m : Methods η ω}

/-- The operations whose success is reported by an event, and the handlers that report it. -/
structure Reports (m : Methods η ω) where
  op : ω → Bool
  handler : η → Bool
  start : handler m.start = false
  close : handler m.close = false
  onDone : ∀ o error, handler (m.onDone o error) = (op o && error.isNone)

variable (r : Reports m)

/-- What other threads are about to post reports nothing. -/
def Posts (s : Service η ω) : Prop := ∀ h ∈ s.posting, r.handler h = false

/-- No success will be reported: the operations that could have all failed. -/
structure Silent (s : Service η ω) : Prop where
  ops : ∀ op ∈ s.ops, r.op op.1 = true → ∃ e, op.2 = .completed (some e)
  strand : ∀ h ∈ s.strand, r.handler h = false

variable {r} {s s' : Service η ω}

lemma Silent.append (h : Silent r s) {h' : η} (hh : r.handler h' = false) :
    Silent r { s with strand := s.strand ++ [h'] } where
  ops := h.ops
  strand := List.forall_mem_append.mpr ⟨h.strand, List.forall_mem_singleton.mpr hh⟩

lemma Silent.tail (h : Silent r s) {h' : η} {rest : List η} (hs : s.strand = h' :: rest) :
    Silent r { s with strand := rest } :=
  ⟨h.ops, fun x hx => h.strand x (by rw [hs]; exact .tail _ hx)⟩

lemma Silent.launch (h : Silent r s) {op : ω} {state : AsyncOp}
    (hop : r.op op = true → ∃ e, state = .completed (some e)) : Silent r (s.launch op state) where
  ops := List.forall_mem_append.mpr ⟨h.ops, List.forall_mem_singleton.mpr hop⟩
  strand := h.strand

lemma handleError_cases (s : Service η ω) (e : ErrorCode) : s.handleError m e = s ∨
    s.handleError m e = { s with running := false, strand := s.strand ++ [m.close] } := by
  unfold Service.handleError Service.stopHere
  split_ifs
  · exact .inr rfl
  · exact .inl rfl
  · exact .inl rfl

lemma handleError_frame (s : Service η ω) (e : ErrorCode) :
    (s.handleError m e).events = s.events ∧ (s.handleError m e).posting = s.posting := by
  rcases handleError_cases (m := m) s e with h | h <;> rw [h] <;> exact ⟨rfl, rfl⟩

lemma handleErrors_frame (s : Service η ω) (errors : List ErrorCode) :
    (s.handleErrors m errors).events = s.events ∧
      (s.handleErrors m errors).posting = s.posting := by
  induction errors generalizing s with
  | nil => exact ⟨rfl, rfl⟩
  | cons e errors ih =>
    obtain ⟨he, hp⟩ := handleError_frame (m := m) s e
    obtain ⟨he', hp'⟩ := ih (s.handleError m e)
    exact ⟨he'.trans he, hp'.trans hp⟩

lemma Silent.handleError (h : Silent r s) (e : ErrorCode) : Silent r (s.handleError m e) := by
  rcases handleError_cases (m := m) s e with heq | heq <;> rw [heq]
  · exact h
  · have h' := h.append r.close
    exact ⟨h'.ops, h'.strand⟩

lemma Silent.handleErrors (h : Silent r s) (errors : List ErrorCode) :
    Silent r (s.handleErrors m errors) := by
  induction errors generalizing s with
  | nil => exact h
  | cons e errors ih => exact ih (h.handleError e)

/-- Nothing but what is about to be posted changes, and that reports nothing still. -/
structure Beside (r : Reports m) (s s' : Service η ω) : Prop where
  events : s'.events = s.events
  ops : s'.ops = s.ops
  strand : s'.strand = s.strand
  posts : Posts r s → Posts r s'

lemma Beside.trans {s₁ s₂ s₃ : Service η ω} (h : Beside r s₁ s₂) (h' : Beside r s₂ s₃) :
    Beside r s₁ s₃ :=
  ⟨h'.events.trans h.events, h'.ops.trans h.ops, h'.strand.trans h.strand,
    fun hp => h'.posts (h.posts hp)⟩

variable (r) in
lemma beside_start (s : Service η ω) : Beside r s (s.start m) := by
  unfold Service.start
  split_ifs
  · exact ⟨rfl, rfl, rfl, id⟩
  · exact ⟨rfl, rfl, rfl, fun hp =>
      List.forall_mem_append.mpr ⟨hp, List.forall_mem_singleton.mpr r.start⟩⟩

variable (r) in
lemma beside_stop (s : Service η ω) : Beside r s (s.stop m) := by
  unfold Service.stop
  split_ifs
  · exact ⟨rfl, rfl, rfl, fun hp =>
      List.forall_mem_append.mpr ⟨hp, List.forall_mem_singleton.mpr r.close⟩⟩
  · exact ⟨rfl, rfl, rfl, id⟩

variable (r) in
lemma beside_onStopSignal (s : Service η ω) (error : Option ErrorCode) :
    Beside r s (s.onStopSignal m error) := by
  have h0 : Beside r s { s with stopSignals := false } := ⟨rfl, rfl, rfl, id⟩
  unfold Service.onStopSignal
  dsimp only
  split_ifs
  · exact (h0.trans (beside_stop r _)).trans (beside_stop r _)
  · exact h0.trans (beside_stop r _)

/-- **A step beside the strand** pushes no event, and what is silent stays silent. -/
theorem ioStep_spec {a : Act} (hs : s.ioStep m a = some s') (hp : Posts r s) :
    s'.events = s.events ∧ Posts r s' ∧ (Silent r s → Silent r s') := by
  have beside (h : Beside r s s') :
      s'.events = s.events ∧ Posts r s' ∧ (Silent r s → Silent r s') :=
    ⟨h.events, h.posts hp, fun hsil => ⟨h.ops ▸ hsil.ops, h.strand ▸ hsil.strand⟩⟩
  cases a with
  | start =>
    cases hs
    exact beside (beside_start r s)
  | stop =>
    cases hs
    exact beside (beside_stop r s)
  | signal error =>
    simp only [Service.ioStep, Option.ite_none_right_eq_some, Option.some.injEq] at hs
    obtain ⟨-, rfl⟩ := hs
    exact beside (beside_onStopSignal r s error)
  | post i =>
    obtain ⟨h, hi, rfl⟩ := Option.map_eq_some_iff.mp hs
    refine ⟨rfl, fun x hx => hp x (List.mem_of_mem_eraseIdx hx), fun hsil => ?_⟩
    have h' := hsil.append (hp h (List.mem_of_getElem? hi))
    exact ⟨h'.ops, h'.strand⟩
  | done i error =>
    simp only [Service.ioStep, Service.done] at hs
    split at hs
    · rename_i op hi
      cases hs
      refine ⟨rfl, hp, fun hsil => ⟨fun x hx hr => ?_, hsil.strand⟩⟩
      rcases List.mem_or_eq_of_mem_set hx with hx | rfl
      · exact hsil.ops x hx hr
      · -- the operation was pending, which one that could report is not
        obtain ⟨e, he⟩ := hsil.ops _ (List.mem_of_getElem? hi) hr
        cases he
    · cases hs
  | queue i =>
    simp only [Service.ioStep, Service.queue] at hs
    split at hs
    · rename_i op error hi
      cases hs
      refine ⟨rfl, hp, fun hsil => ⟨fun x hx => hsil.ops x (List.mem_of_mem_eraseIdx hx), ?_⟩⟩
      have hnew : r.handler (m.onDone op error) = false := by
        rw [r.onDone, Bool.and_eq_false_iff]
        by_cases hr : r.op op = true
        · obtain ⟨e, he⟩ := hsil.ops _ (List.mem_of_getElem? hi) hr
          cases he
          exact .inr rfl
        · exact .inl (Bool.eq_false_iff.mpr hr)
      exact (hsil.append hnew).strand
    · cases hs
  | strand errors => cases hs

/-- No operation that completed well waits for its handler. -/
structure NoneWaiting (r : Reports m) (s : Service η ω) : Prop where
  ops : ∀ op ∈ s.ops, r.op op.1 = true → op.2 ≠ .completed none
  strand : ∀ h ∈ s.strand, r.handler h = false

instance (s : Service η ω) : Decidable (NoneWaiting r s) :=
  decidable_of_iff ((∀ op ∈ s.ops, r.op op.1 = true → op.2 ≠ .completed none) ∧
    ∀ h ∈ s.strand, r.handler h = false) ⟨fun h => ⟨h.1, h.2⟩, fun h => ⟨h.ops, h.strand⟩⟩

/-- Cancelling what is pending makes a service silent. -/
lemma NoneWaiting.silent (h : NoneWaiting r s) (cancels : ω → Bool)
    (hc : ∀ op ∈ s.ops, r.op op.1 = true → op.2 = .pending → cancels op.1 = true) :
    Silent r (s.cancel cancels) where
  ops := by
    intro x hx hr
    obtain ⟨⟨op, state⟩, hop, rfl⟩ := List.mem_map.mp hx
    rcases state with _ | _ | e
    · exact ⟨.operation_aborted, by simp [hc _ hop hr rfl, AsyncOp.cancel]⟩
    · exact absurd rfl (h.ops _ hop hr)
    · exact ⟨e, by simp [AsyncOp.cancel]⟩
  strand := h.strand

/-- What both services keep: once the close event is pushed, no success will be reported. -/
structure Ordered (r : Reports m) (s : Service η ω) : Prop where
  posts : Posts r s
  silent : .close ∈ s.events → Silent r s
  last : CloseLast s.events

namespace Ordered

variable {a : Act}

lemma ioStep (h : Ordered r s) (hs : s.ioStep m a = some s') : Ordered r s' := by
  obtain ⟨he, hp, hsil⟩ := ioStep_spec hs h.posts
  exact ⟨hp, fun hc => hsil (h.silent (he ▸ hc)), he ▸ h.last⟩

lemma tail (h : Ordered r s) {h' : η} {rest : List η} (hs : s.strand = h' :: rest) :
    Ordered r { s with strand := rest } :=
  ⟨h.posts, fun hc => (h.silent hc).tail hs, h.last⟩

lemma not_close_of_reports (h : Ordered r s) {h' : η} {rest : List η} (hs : s.strand = h' :: rest)
    (hr : r.handler h' = true) : .close ∉ s.events := by
  intro hc
  have hno := (h.silent hc).strand h' (by rw [hs]; exact .head _)
  rw [hr] at hno
  cases hno

lemma handleError (h : Ordered r s) (e : ErrorCode) : Ordered r (s.handleError m e) := by
  obtain ⟨he, hp⟩ := handleError_frame (m := m) s e
  refine ⟨fun x hx => h.posts x (hp ▸ hx), fun hc => ?_, he ▸ h.last⟩
  exact (h.silent (he ▸ hc)).handleError e

lemma launch (h : Ordered r s) {op : ω} {state : AsyncOp}
    (hop : .close ∈ s.events → r.op op = true → ∃ e, state = .completed (some e)) :
    Ordered r (s.launch op state) :=
  ⟨h.posts, fun hc => (h.silent hc).launch (hop hc), h.last⟩

lemma cons (h : Ordered r s) {h' : η} (hh : r.handler h' = false) :
    Ordered r { s with strand := h' :: s.strand } := by
  refine ⟨h.posts, fun hc => ⟨(h.silent hc).ops, ?_⟩, h.last⟩
  exact List.forall_mem_cons.mpr ⟨hh, (h.silent hc).strand⟩

lemma push (h : Ordered r s) {e : ServiceEvent} (he : e ≠ .close) (hc : .close ∉ s.events) :
    Ordered r (s.push e) := by
  refine ⟨h.posts, fun hc' => ?_, closeLast_push h.last fun _ => hc⟩
  rcases List.mem_append.mp hc' with hc' | hc'
  · exact absurd hc' hc
  · exact absurd (List.mem_singleton.mp hc').symm he

lemma close (h : Ordered r s) {cancels : ω → Bool} (hsil : Silent r (s.cancel cancels))
    (errors : List ErrorCode) :
    Ordered r (((s.cancel cancels).handleErrors m errors).push .close) := by
  obtain ⟨he, hp⟩ := handleErrors_frame (m := m) (s.cancel cancels) errors
  have hsil' := hsil.handleErrors errors
  have hposts : (s.cancel cancels).posting = s.posting := rfl
  refine ⟨fun x hx => h.posts x ?_, fun _ => ⟨hsil'.ops, hsil'.strand⟩, ?_⟩
  · rw [← hposts, ← hp]
    exact hx
  · simp only [Service.push, he]
    exact closeLast_push h.last fun hne => absurd rfl hne

end Ordered

end Base

/-! ### The server -/

section Server

open ServerService

def serverReports : Reports ServerService.methods where
  op _ := true
  handler
    | .onAccepted none => true
    | _ => false
  start := rfl
  close := rfl
  onDone := by rintro - (_ | _) <;> rfl

/-- When the service is closed, no accept that completed well waits. -/
def ServerCloses (s : ServerService) : Act → Prop
  | .strand _ => s.strand.head? = some .close → NoneWaiting serverReports s.toService
  | _ => True

instance (s : ServerService) : (a : Act) → Decidable (ServerCloses s a)
  | .strand _ => inferInstanceAs (Decidable (_ → _))
  | .start | .stop | .signal _ | .post _ | .done _ _ | .queue _ =>
    inferInstanceAs (Decidable True)

/-- The acceptor is open until the service is closed. -/
structure ServerInv (s : ServerService) : Prop where
  ordered : Ordered serverReports s.toService
  acceptor : s.acceptorOpen = false ↔ .close ∈ s.events

variable {s s' : ServerService}

lemma serverInv_new : ServerInv .new where
  ordered := ⟨fun _ h => (by cases h), fun h => (by cases h), List.Pairwise.nil⟩
  acceptor := by simp [ServerService.new, Service.new]

lemma ServerInv.asyncAccept (h : ServerInv s) : ServerInv s.asyncAccept := by
  unfold ServerService.asyncAccept
  split_ifs with hr ha
  · exact ⟨h.ordered.launch fun hc => by simp [h.acceptor.mpr hc] at ha, h.acceptor⟩
  · exact ⟨h.ordered.launch fun _ _ => ⟨_, rfl⟩, h.acceptor⟩
  · exact h

lemma ServerInv.handleError (h : ServerInv s) (e : ErrorCode) : ServerInv (s.handleError e) := by
  have he := (handleError_frame (m := methods) s.toService e).1
  refine ⟨h.ordered.handleError e, ?_⟩
  simp only [ServerService.handleError, he]
  exact h.acceptor

/-- **Closing the server**, with no accept that completed well left. -/
lemma ServerInv.close (h : ServerInv s) (hw : NoneWaiting serverReports s.toService)
    (errors : List ErrorCode) : ServerInv (s.close errors) := by
  have hsil := hw.silent fun _ => s.acceptorOpen
  refine ⟨h.ordered.close (hsil fun op hop hr hpend => ?_) errors, by
    simp [ServerService.close, Service.push]⟩
  -- what is pending is cancelled with the acceptor, which is open unless nothing is pending
  by_contra ha
  have hc := h.acceptor.mp (Bool.eq_false_iff.mpr ha)
  obtain ⟨e, he⟩ := (h.ordered.silent hc).ops op hop hr
  rw [hpend] at he
  cases he

lemma serverInv_step (s : ServerService) (a : Act) (s' : ServerService) (h : ServerInv s)
    (hc : ServerCloses s a) (hs : ServerService.step s a = some s') : ServerInv s' := by
  cases a with
  | strand errors =>
    simp only [ServerService.step, ServerService.runStrand] at hs
    split at hs
    · cases hs
    · rename_i handler rest hstrand
      cases hs
      have ht : ServerInv { s with strand := rest } := ⟨h.ordered.tail hstrand, h.acceptor⟩
      cases handler with
      | asyncAccept => exact ht.asyncAccept
      | close =>
        have hw := hc (by rw [hstrand]; rfl)
        exact ht.close ⟨hw.ops, fun x hx => hw.strand x (by rw [hstrand]; exact .tail _ hx)⟩ errors
      | onAccepted error =>
        cases error with
        | none =>
          have hno := h.ordered.not_close_of_reports hstrand rfl
          have hp : ServerInv { s with toService := ({ s.toService with strand := rest }.push
              .accept) } :=
            ⟨ht.ordered.push (by simp) hno, by simpa [Service.push] using h.acceptor⟩
          exact hp.asyncAccept
        | some e => exact (ht.handleError e).asyncAccept
  | start | stop | signal | post | done | queue =>
    simp only [ServerService.step, Option.map_eq_some_iff] at hs
    obtain ⟨base, hb, rfl⟩ := hs
    have he : base.events = s.events := (ioStep_spec hb h.ordered.posts).1
    exact ⟨h.ordered.ioStep hb, by rw [h.acceptor]; simp only [he]⟩

end Server

/-! ### The client -/

section Client

open ClientService

def clientReports : Reports ClientService.methods where
  op
    | .connect _ => true
    | .resolve => false
  handler
    | .onConnected none _ => true
    | _ => false
  start := rfl
  close := rfl
  onDone := by rintro (_ | _) (_ | _) <;> rfl

/-- When the service is closed, no connect that completed well waits and those under way can be
cancelled; and no connect is made after that. -/
def MayRun (s : ClientService) : ClientHandler → Prop
  | .close => NoneWaiting clientReports s.toService ∧
      ∀ op ∈ s.ops, op.2 = .pending → s.cancels op.1 = true
  | .connectFrom i => i < s.sockets.length → s.running = true → .close ∉ s.events
  | _ => True

def ClientCloses (s : ClientService) : Act → Prop
  | .strand _ => ∀ h ∈ s.strand.head?, MayRun s h
  | _ => True

instance (s : ClientService) : (h : ClientHandler) → Decidable (MayRun s h)
  | .close => inferInstanceAs (Decidable (_ ∧ _))
  | .connectFrom _ => inferInstanceAs (Decidable (_ → _))
  | .asyncResolve | .onResolved _ | .onConnected _ _ => inferInstanceAs (Decidable True)

instance (s : ClientService) : (a : Act) → Decidable (ClientCloses s a)
  | .strand _ => inferInstanceAs (Decidable (∀ h ∈ s.strand.head?, MayRun s h))
  | .start | .stop | .signal _ | .post _ | .done _ _ | .queue _ =>
    inferInstanceAs (Decidable True)

/-- Sockets are closed with the service only, and none of them is in an event. -/
structure ClientInv (s : ClientService) : Prop where
  ordered : Ordered clientReports s.toService
  sockets : .closed ∈ s.sockets → .close ∈ s.events
  events : .connect .closed ∉ s.events

variable {s s' : ClientService}

lemma clientInv_new (connectCount : ℕ) : ClientInv (.new connectCount) where
  ordered := ⟨fun _ h => (by cases h), fun h => (by cases h), List.Pairwise.nil⟩
  sockets h := by simp [ClientService.new] at h
  events h := by cases h

lemma ClientInv.base (h : ClientInv s) {base : Service ClientHandler ClientOp}
    (hb : Ordered clientReports base) (he : base.events = s.events) :
    ClientInv { s with toService := base } :=
  ⟨hb, fun hc => by rw [he]; exact h.sockets hc, by rw [he]; exact h.events⟩

lemma ClientInv.handleError (h : ClientInv s) (e : ErrorCode) : ClientInv (s.handleError e) :=
  h.base (h.ordered.handleError e) (handleError_frame s.toService e).1

lemma mem_of_mem_set {sockets : List Socket} {i : ℕ} {socket : Socket} (hne : socket ≠ .closed)
    (h : .closed ∈ sockets.set i socket) : .closed ∈ sockets := by
  rcases List.mem_or_eq_of_mem_set h with h | h
  · exact h
  · exact absurd h.symm hne

lemma ClientInv.connectFrom (h : ClientInv s) {i : ℕ}
    (hc : i < s.sockets.length → s.running = true → .close ∉ s.events) :
    ClientInv (s.connectFrom i) := by
  unfold ClientService.connectFrom ClientService.asyncConnect
  split_ifs with hi hr
  · have hopen : Ordered clientReports (s.toService.launch (.connect i) .pending) :=
      h.ordered.launch fun hclose => absurd hclose (hc hi hr)
    exact ⟨hopen.cons rfl, fun hm => h.sockets (mem_of_mem_set (by decide) hm), h.events⟩
  · exact h.base (h.ordered.cons rfl) rfl
  · exact h

/-- A connect is reported before the service is closed: its socket is not a closed one. -/
lemma ClientInv.onConnected (h : ClientInv s) (i : ℕ) (hc : .close ∉ s.events) :
    ClientInv (s.onConnected none i) := by
  unfold ClientService.onConnected
  dsimp only
  split
  · rename_i socket hi
    have hne : socket ≠ .closed := by
      rintro rfl
      exact hc (h.sockets (List.mem_of_getElem? hi))
    refine ⟨h.ordered.push (by simp) hc, fun hm => ?_, fun hm => ?_⟩
    · exact absurd (h.sockets (mem_of_mem_set (by decide) hm)) hc
    · rcases List.mem_append.mp hm with hm | hm
      · exact h.events hm
      · exact hne (ServiceEvent.connect.inj (List.mem_singleton.mp hm)).symm
  · exact h

/-- **Closing the client**, with no connect left that could end well. -/
lemma ClientInv.close (h : ClientInv s) (hw : NoneWaiting clientReports s.toService)
    (hp : ∀ op ∈ s.ops, op.2 = .pending → s.cancels op.1 = true) (errors : List ErrorCode) :
    ClientInv (s.close errors) := by
  have hsil := hw.silent s.cancels fun op hop _ => hp op hop
  have he := (handleErrors_frame (m := methods) (s.toService.cancel s.cancels) errors).1
  refine ⟨h.ordered.close hsil errors, fun _ => ?_, fun hm => ?_⟩
  · simp [ClientService.close, Service.push]
  · simp only [ClientService.close, Service.push, he, List.mem_append, List.mem_singleton,
      reduceCtorEq, or_false] at hm
    exact h.events hm

lemma clientInv_step (s : ClientService) (a : Act) (s' : ClientService) (h : ClientInv s)
    (hc : ClientCloses s a) (hs : ClientService.step s a = some s') : ClientInv s' := by
  cases a with
  | strand errors =>
    simp only [ClientService.step, ClientService.runStrand] at hs
    split at hs
    · cases hs
    · rename_i handler rest hstrand
      cases hs
      have ht : ClientInv { s with strand := rest } := h.base (h.ordered.tail hstrand) rfl
      have hmay : MayRun s handler := hc handler (by rw [hstrand]; rfl)
      cases handler with
      | asyncResolve =>
        unfold ClientService.exec ClientService.asyncResolve
        dsimp only
        split_ifs
        · exact ht.base (ht.ordered.launch fun _ hr => by cases hr) rfl
        · exact ht
      | close =>
        obtain ⟨hw, hp⟩ := hmay
        exact ht.close ⟨hw.ops, fun x hx => hw.strand x (by rw [hstrand]; exact .tail _ hx)⟩ hp
          errors
      | onResolved error =>
        cases error with
        | none => exact ht.base (ht.ordered.cons rfl) rfl
        | some e => exact ht.handleError e
      | connectFrom i => exact ht.connectFrom hmay
      | onConnected error i =>
        cases error with
        | none => exact ht.onConnected i (h.ordered.not_close_of_reports hstrand rfl)
        | some e => exact ht.handleError e
  | start | stop | signal | post | done | queue =>
    simp only [ClientService.step, Option.map_eq_some_iff] at hs
    obtain ⟨base, hb, rfl⟩ := hs
    exact h.base (h.ordered.ioStep hb) (ioStep_spec hb h.ordered.posts).1

end Client

/-! ### Both services -/

/-- **When close is the last event of a service.** In every run in which no accept or connect
that completed well waits when the service is closed, and no connect is under way then that
closing does not cancel or is made after it, no accept or connect event comes after the close
event; and no connect event carries a socket that the client service has closed, so the game
client makes no session of one. -/
theorem service_close_is_last (acts : List Act) :
    (∀ s, run ServerService.step .new acts = some s →
      Along ServerService.step ServerCloses .new acts → CloseLast s.events) ∧
    (∀ connectCount s, run ClientService.step (.new connectCount) acts = some s →
      Along ClientService.step ClientCloses (.new connectCount) acts →
      CloseLast s.events ∧ .connect .closed ∉ s.events) := by
  constructor
  · intro s hrun hc
    exact (run_invariant_of_along serverInv_step serverInv_new hc hrun).ordered.last
  · intro connectCount s hrun hc
    have h := run_invariant_of_along clientInv_step (clientInv_new connectCount) hc hrun
    exact ⟨h.ordered.last, h.events⟩

/-- An accept is reported, the next one is under way, and the server is stopped. -/
def acceptThenStop : List Act :=
  [.start, .post 0, .strand [], .done 0 none, .queue 0, .strand [], .stop, .post 0, .strand [],
    .queue 0, .strand []]

/-- A resolve and a connect, up to where the connect has completed well. -/
def connected : List Act :=
  [.start, .post 0, .strand [], .done 0 none, .queue 0, .strand [], .strand [], .strand [],
    .done 0 none]

def connectThenStop : List Act :=
  connected ++ [.queue 0, .strand [], .stop, .post 0, .strand []]

theorem service_close_is_last_inOrder :
    (∃ s, run ServerService.step .new acceptThenStop = some s ∧ CloseLast s.events) ∧
    ∃ s, run ClientService.step (.new 1) connectThenStop = some s ∧ CloseLast s.events ∧
      .connect .closed ∉ s.events :=
  ⟨⟨_, rfl, (service_close_is_last acceptThenStop).1 _ rfl (by decide)⟩,
    ⟨_, rfl, (service_close_is_last connectThenStop).2 1 _ rfl (by decide)⟩⟩

/-- An accept completes, the server is stopped, and only then the handler of the accept is
queued, behind the one that closes. -/
def lateAccept : List Act :=
  [.start, .post 0, .strand [], .done 0 none, .stop, .post 0, .queue 0, .strand [], .strand []]

/-- **An accept event after the close event.** -/
theorem accept_after_close :
    (run ServerService.step .new lateAccept).map (fun s => s.events) = some [.close, .accept] ∧
      ¬CloseLast [.close, .accept] := by
  refine ⟨rfl, fun h => ?_⟩
  have hab := List.rel_of_pairwise_cons h (List.mem_singleton_self _) rfl
  cases hab

/-- The same order at the client: the socket in the event is one that was closed. -/
example : (run ClientService.step (.new 1)
    (connected ++ [.stop, .post 0, .queue 0, .strand [], .strand []])).map (fun s => s.events) =
      some [.close, .connect .closed] := rfl

end ByteborneWorld.ServiceRun
