import ByteborneWorld.ServiceRun
import ByteborneWorld.ShutdownRun
import ByteborneWorld.WorkRun

/-!
The server program: the service and the main thread, joined by the queue of service events. The
service is started once and stopped by a signal or by an error; the main thread stops when it
takes the close event.
-/

namespace ByteborneWorld.ServerProcess

open ByteborneWorld.ChatProto ByteborneWorld.PacketModel ByteborneWorld.SessionModel
open ByteborneWorld.ServiceModel ByteborneWorld.WorldModel ByteborneWorld.Lts

/-- `started` tells that `WorldServer::start` has come to start the service. -/
structure Process where
  started : Bool
  service : ServerService
  world : World

inductive Act
  | start
  /-- a step of the service, beside `start` and `stop`: no thread calls these -/
  | service (a : ServiceModel.Act)
  | main (nowMs : Int64) (order : List ℕ)
  | io (i : ℕ) (a : IoAct Chunk)

def init : Process := ⟨false, .new, WorldModel.init⟩

/-- An event as the main thread finds it in the queue. -/
def queued : ServiceModel.ServiceEvent → Option WorldModel.ServiceEvent
  | .close => some .close
  | .accept => some .accept
  | .connect _ => none

namespace Process

variable (p : Process)

/-- The service makes a step, and what it pushes comes to the queue. -/
def serviceStep (a : ServiceModel.Act) : Option Process :=
  (p.service.step a).map fun service =>
    { p with
      service := service
      world.serviceEvents := p.world.serviceEvents ++
        (service.events.drop p.service.events.length).filterMap queued }

def withWorld (w : World) : Process := { p with world := w }

end Process

def step (build : Build) (pb : Protobuf) (p : Process) : Act → Option Process
  | .start => if p.started then none else { p with started := true }.serviceStep .start
  | .service .start | .service .stop => none
  | .service a => p.serviceStep a
  | .main nowMs order => (p.world.mainStep build pb nowMs order).map p.withWorld
  | .io i a => (p.world.ioStep i a).map p.withWorld

/-! ### What the service does in one step -/

def isAccept : ServerHandler → Bool
  | .asyncAccept | .onAccepted _ => true
  | .close => false

/-- The service runs, or it is about to be closed. -/
def serviceLife (s : ServerService) : ℕ :=
  s.running.toNat + s.posting.count .close + s.strand.count .close

/-- How many accepts are under way. -/
def accepts (s : ServerService) : ℕ :=
  s.ops.length + s.strand.countP isAccept + s.posting.countP isAccept

def opWork : ServerOp × AsyncOp → ℕ
  | (_, .pending) => 4
  | (_, .completed _) => 3

/-- The steps that are left to a stopped service, with the events that they push. -/
def serviceWork (s : ServerService) : ℕ :=
  s.stopSignals.toNat + 3 * s.posting.length + 2 * s.strand.length + (s.ops.map opWork).sum

/-- Once the acceptor is closed, no accept waits for a connection. -/
def Settled (s : ServerService) : Prop :=
  s.acceptorOpen = false → ∀ op ∈ s.ops, op.2 ≠ .pending

/-- What a step does that pushes the events `new`. -/
structure Effect (s s' : ServerService) (new : List ServiceModel.ServiceEvent) : Prop where
  events : s'.events = s.events ++ new
  single : new.length ≤ 1
  life : serviceLife s' + new.count .close = serviceLife s
  running : s'.running = true → s.running = true
  under_way : accepts s' ≤ accepts s
  /-- after a stop, an accept that completed well is the last one -/
  late : s.running = false → accepts s' + new.count .accept ≤ accepts s
  acceptor : s'.acceptorOpen = true ↔ s.acceptorOpen = true ∧ .close ∉ new
  settled : Settled s → Settled s'
  work : s.running = false → serviceWork s' + new.length < serviceWork s

section Service

variable {s s' : ServerService} {a : ServiceModel.Act}

lemma onStopSignal_eq (s : ServerService) (error : Option ServiceModel.ErrorCode) :
    s.toService.onStopSignal ServerService.methods error =
      if s.running then { s.toService with
        running := false, posting := s.posting ++ [.close], stopSignals := false }
      else { s.toService with stopSignals := false } := by
  cases hr : s.running with
  | false => simp [Service.onStopSignal, Service.stop, hr]
  | true =>
    by_cases he : error.any ServerService.stops = true <;>
      simp [Service.onStopSignal, Service.stop, hr, he, ServerService.methods]

lemma asyncAccept_cases (s : ServerService) : s.running = false ∧ s.asyncAccept = s ∨
    s.running = true ∧ ∃ state, s.asyncAccept =
      { s with toService := s.toService.launch .accept state } ∧
      (s.acceptorOpen = false → state ≠ .pending) := by
  unfold ServerService.asyncAccept
  cases s.running with
  | false => exact .inl ⟨rfl, rfl⟩
  | true =>
    refine .inr ⟨rfl, _, rfl, fun hopen => ?_⟩
    rw [if_neg (by simp [hopen])]
    exact fun h => by cases h

lemma handleError_cases (s : ServerService) (e : ServiceModel.ErrorCode) :
    s.handleError e = s ∨ s.running = true ∧ s.handleError e = { s with
      toService := { s.toService with running := false, strand := s.strand ++ [.close] } } := by
  unfold ServerService.handleError Service.handleError Service.stopHere
  split_ifs with he hr
  · exact .inr ⟨hr, rfl⟩
  · exact .inl rfl
  · exact .inl rfl

lemma effect_signal {error} (h : s.step (.signal error) = some s') : Effect s s' [] := by
  simp only [ServerService.step, Service.ioStep, Option.map_eq_some_iff,
    Option.ite_none_right_eq_some, Option.some.injEq] at h
  obtain ⟨base, ⟨hsig, rfl⟩, rfl⟩ := h
  rw [onStopSignal_eq]
  cases hr : s.running <;> constructor <;>
    simp [serviceLife, accepts, serviceWork, Settled, isAccept, hr, hsig]
  omega

lemma effect_post {i} (h : s.step (.post i) = some s') : Effect s s' [] := by
  simp only [ServerService.step, Service.ioStep, Service.doPost, Option.map_map,
    Option.map_eq_some_iff, Function.comp] at h
  obtain ⟨p, hi, rfl⟩ := h
  obtain ⟨hlt, rfl⟩ := List.getElem?_eq_some_iff.mp hi
  have hperm := List.getElem_cons_eraseIdx_perm hlt
  have hclose := hperm.count_eq .close
  have haccept := hperm.countP_eq isAccept
  have hlen := hperm.length_eq
  rw [List.count_cons] at hclose
  rw [List.countP_cons] at haccept
  rw [List.length_cons] at hlen
  constructor <;> simp only [serviceLife, accepts, serviceWork, Settled, List.count_append,
    List.count_singleton, List.count_nil, List.countP_append, List.countP_singleton,
    List.length_append, List.length_singleton, List.length_nil, List.append_nil,
    List.not_mem_nil, not_false_eq_true, and_true, imp_self]
  all_goals omega

lemma effect_done {i error} (h : s.step (.done i error) = some s') : Effect s s' [] := by
  simp only [ServerService.step, Service.ioStep, Service.done, Option.map_eq_some_iff] at h
  obtain ⟨base, h, rfl⟩ := h
  split at h <;> cases h
  rename_i op hi
  have hsum := WorkRun.sum_map_set opWork hi (op, .completed error)
  simp only [opWork] at hsum
  constructor <;> simp only [serviceLife, accepts, serviceWork, Settled, List.length_set,
    List.count_nil, List.length_nil, List.append_nil, List.not_mem_nil, not_false_eq_true,
    and_true, imp_self, Nat.add_zero, Nat.le_refl, implies_true, Nat.zero_le]
  · intro h hopen op hop
    rcases List.mem_or_eq_of_mem_set hop with hop | rfl
    · exact h hopen op hop
    · exact fun h => by cases h
  · omega

lemma effect_queue {i} (h : s.step (.queue i) = some s') : Effect s s' [] := by
  simp only [ServerService.step, Service.ioStep, Service.queue, Option.map_eq_some_iff] at h
  obtain ⟨base, h, rfl⟩ := h
  split at h <;> cases h
  rename_i op error hi
  have hsum := WorkRun.sum_map_eraseIdx opWork hi
  have hlen := List.length_eraseIdx_of_lt (List.getElem?_eq_some_iff.mp hi).1
  have hlt := (List.getElem?_eq_some_iff.mp hi).1
  simp only [opWork] at hsum
  constructor <;> simp only [serviceLife, accepts, serviceWork, Settled, ServerService.methods,
    List.count_append, List.count_singleton, List.countP_append, List.countP_singleton, isAccept,
    List.length_append, List.length_singleton,
    List.count_nil, List.length_nil, List.append_nil, List.not_mem_nil, not_false_eq_true,
    and_true, imp_self, if_true, hlen, Nat.zero_le]
  · simp
  · omega
  · omega
  · exact fun h hopen op hop => h hopen op (List.mem_of_mem_eraseIdx hop)
  · omega

/-- What the parts of a handler do: they push nothing, start `n` accepts at most, and leave a
stopped service alone. -/
structure Part (n : ℕ) (s s' : ServerService) : Prop where
  events : s'.events = s.events
  life : serviceLife s' = serviceLife s
  running : s'.running = true → s.running = true
  under_way : accepts s' ≤ accepts s + n
  acceptor : s'.acceptorOpen = s.acceptorOpen
  settled : Settled s → Settled s'
  stopped : s.running = false → s' = s

lemma Part.refl (s : ServerService) : Part 0 s s :=
  ⟨rfl, rfl, id, le_refl _, rfl, id, fun _ => rfl⟩

lemma Part.trans {m n : ℕ} {s₁ s₂ s₃ : ServerService} (h : Part m s₁ s₂) (h' : Part n s₂ s₃) :
    Part (m + n) s₁ s₃ where
  events := h'.events.trans h.events
  life := h'.life.trans h.life
  running := h.running ∘ h'.running
  under_way := by
    have h1 := h.under_way
    have h2 := h'.under_way
    omega
  acceptor := h'.acceptor.trans h.acceptor
  settled := h'.settled ∘ h.settled
  stopped hr := by
    obtain rfl := h.stopped hr
    exact h'.stopped hr

lemma part_asyncAccept (s : ServerService) : Part 1 s s.asyncAccept := by
  rcases asyncAccept_cases s with ⟨hr, heq⟩ | ⟨hr, state, heq, hstate⟩ <;> rw [heq]
  · exact { Part.refl s with under_way := Nat.le_succ _ }
  · refine ⟨rfl, rfl, id, ?_, rfl, fun h hopen => ?_, fun hr' => ?_⟩
    · simp only [accepts, Service.launch, List.length_append, List.length_singleton]
      omega
    · exact List.forall_mem_append.mpr ⟨h hopen, List.forall_mem_singleton.mpr (hstate hopen)⟩
    · exact absurd (hr.symm.trans hr') (by decide)

lemma part_handleError (s : ServerService) (e : ServiceModel.ErrorCode) :
    Part 0 s (s.handleError e) := by
  rcases handleError_cases s e with heq | ⟨hr, heq⟩ <;> rw [heq]
  · exact .refl s
  · refine ⟨rfl, ?_, fun _ => hr, ?_, rfl, id, fun hr' => ?_⟩
    · simp only [serviceLife, hr, List.count_append, List.count_singleton_self, Bool.toNat_true,
        Bool.toNat_false]
      omega
    · simp [accepts, isAccept]
    · exact absurd (hr.symm.trans hr') (by decide)

lemma part_handleErrors (s : ServerService) (errors : List ServiceModel.ErrorCode) :
    Part 0 s { s with toService := s.toService.handleErrors ServerService.methods errors } := by
  induction errors generalizing s with
  | nil => exact .refl s
  | cons e errors ih => exact (part_handleError s e).trans (ih (s.handleError e))

lemma Part.effect {p : ServerHandler} {rest : List ServerHandler}
    {new : List ServiceModel.ServiceEvent} (hs : s.strand = p :: rest) (hp : isAccept p = true)
    (hnew : new = [] ∨ new = [.accept])
    (h : Part 1 { s with strand := rest, events := s.events ++ new } s') : Effect s s' new := by
  have hclose : new.count .close = 0 := by rcases hnew with rfl | rfl <;> rfl
  have hlen : new.length = new.count .accept ∧ new.length ≤ 1 := by
    rcases hnew with rfl | rfl <;> exact ⟨rfl, by decide⟩
  have hne : p ≠ .close := by rintro rfl; cases hp
  have hlife : serviceLife { s with strand := rest, events := s.events ++ new } =
      serviceLife s := by
    simp only [serviceLife, hs, List.count_cons_of_ne hne]
  have haccepts : accepts { s with strand := rest, events := s.events ++ new } + 1 =
      accepts s := by
    simp only [accepts, hs, List.countP_cons_of_pos hp]
    omega
  have hwork : serviceWork { s with strand := rest, events := s.events ++ new } + 2 =
      serviceWork s := by
    simp only [serviceWork, hs, List.length_cons]
    omega
  refine ⟨h.events, hlen.2, by rw [h.life, hlife, hclose]; rfl, h.running, haccepts ▸ h.under_way,
    fun hr => ?_, ?_, h.settled, fun hr => ?_⟩
  · rw [h.stopped hr]
    omega
  · rw [h.acceptor]
    simp [List.count_eq_zero.mp hclose]
  · rw [h.stopped hr]
    omega

/-- **Closing the service.** -/
lemma effect_close {rest : List ServerHandler} (hs : s.strand = .close :: rest)
    (errors : List ServiceModel.ErrorCode) :
    Effect s ({ s with strand := rest }.close errors) [.close] := by
  -- what the errors find, and what they leave
  set t : ServerService := { s with
    toService := { s.toService with strand := rest }.cancel fun _ => s.acceptorOpen } with ht
  obtain ⟨u, hu⟩ : ∃ u : ServerService, u = { t with
      toService := t.toService.handleErrors ServerService.methods errors } := ⟨_, rfl⟩
  have h : Part 0 t u := hu ▸ part_handleErrors t errors
  have heq : { s with strand := rest }.close errors =
      { u with toService := u.toService.push .close, acceptorOpen := false } := by
    rw [hu]
    rfl
  have hcancel (x : ServerOp × AsyncOp) :
      opWork (x.1, if s.acceptorOpen then x.2.cancel else x.2) ≤ opWork x := by
    obtain ⟨op, state⟩ := x
    split_ifs
    · cases state <;> simp [opWork, AsyncOp.cancel]
    · exact le_refl _
  have hops := WorkRun.sum_map_le opWork hcancel s.ops
  have hlife : serviceLife u + 1 = serviceLife s := by
    rw [h.life]
    simp only [serviceLife, ht, Service.cancel, hs, List.count_cons_self]
    omega
  have haccepts : accepts u ≤ accepts s := by
    refine h.under_way.trans (le_of_eq ?_)
    simp [accepts, ht, Service.cancel, hs, isAccept]
  have hwork : serviceWork t + 2 ≤ serviceWork s := by
    simp only [serviceWork, ht, Service.cancel, hs, List.length_cons]
    omega
  rw [heq]
  refine ⟨?_, le_refl _, hlife, h.running, haccepts, fun _ => haccepts, by simp,
    fun hset hopen => ?_, fun hr => ?_⟩
  · simp only [Service.push, h.events]
    rfl
  · -- what is pending is cancelled with the acceptor, which is open unless nothing is pending
    have hnone : Settled { t with acceptorOpen := false } := by
      intro _ op hop
      obtain ⟨⟨op, state⟩, hmem, rfl⟩ := List.mem_map.mp hop
      cases hacc : s.acceptorOpen with
      | false => simpa using hset hacc _ hmem
      | true => cases state <;> simp [AsyncOp.cancel]
    subst hu
    exact (part_handleErrors { t with acceptorOpen := false } errors).settled hnone hopen
  · have hut := h.stopped hr
    subst hut
    simp only [serviceWork, Service.push, List.length_singleton] at hwork ⊢
    omega

/-- **What a step of the service does**, but for `start`. -/
theorem effect_step (h : s.step a = some s') (hstart : a ≠ .start) (hstop : a ≠ .stop) :
    ∃ new, Effect s s' new := by
  cases a with
  | start => exact absurd rfl hstart
  | stop => exact absurd rfl hstop
  | signal error => exact ⟨_, effect_signal h⟩
  | post i => exact ⟨_, effect_post h⟩
  | done i error => exact ⟨_, effect_done h⟩
  | queue i => exact ⟨_, effect_queue h⟩
  | strand errors =>
    simp only [ServerService.step, ServerService.runStrand] at h
    split at h
    · cases h
    · rename_i p rest hstrand
      cases h
      cases p with
      | asyncAccept =>
        refine ⟨[], Part.effect hstrand rfl (.inl rfl) ?_⟩
        rw [List.append_nil]
        exact part_asyncAccept _
      | close => exact ⟨[.close], effect_close hstrand errors⟩
      | onAccepted error =>
        cases error with
        | none => exact ⟨[.accept], Part.effect hstrand rfl (.inr rfl) (part_asyncAccept _)⟩
        | some e =>
          refine ⟨[], Part.effect hstrand rfl (.inl rfl) ?_⟩
          rw [List.append_nil]
          exact (part_handleError _ e).trans (part_asyncAccept _)

end Service

end ByteborneWorld.ServerProcess
