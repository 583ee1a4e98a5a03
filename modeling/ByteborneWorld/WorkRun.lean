import Mathlib.Algebra.BigOperators.Group.List.Basic
import Mathlib.Algebra.Order.BigOperators.Group.List
import ByteborneWorld.LifeRun

/-!
The work that is left in a session: what goes on beside the main thread comes to an end by
itself, whatever the peer, the kernel and the other threads do.
-/

namespace ByteborneWorld.WorkRun

open ByteborneWorld.ChatProto ByteborneWorld.PacketModel ByteborneWorld.RecvModel
open ByteborneWorld.SessionModel ByteborneWorld.Lts ByteborneWorld.SessionRun
open ByteborneWorld.WriteRun ByteborneWorld.LifeRun

variable {κ : Type*}

/-! ### The measure -/

/-- What a handler may lead to, with the step that runs it. -/
def handlerWork : Handler κ → ℕ
  | .asyncRead => 5
  | .send _ => 8
  | .close | .onRead _ | .onWritten _ => 2

def readWork : ReadOp → ℕ
  | .pending _ _ => 4
  | .completed _ => 3

def writeWork : WriteOp κ → ℕ
  | .pending _ => 4
  | .completed _ => 3

/-- The steps that are left at most, the events that they push included. A running session may
be stopped once, and a chunk of the send queue may be written once. -/
def work (s : Session κ) : ℕ :=
  4 * s.running.toNat + (s.strand.map handlerWork).sum +
    (s.posting.map fun h => handlerWork h + 1).sum + 3 * s.sendQueue.length +
    (s.reads.map readWork).sum + (s.writes.map writeWork).sum

section Sums

variable {α : Type*} (f : α → ℕ) {l : List α} {i : ℕ} {a : α}

lemma sum_map_eraseIdx (h : l[i]? = some a) :
    ((l.eraseIdx i).map f).sum + f a = (l.map f).sum := by
  obtain ⟨hlt, rfl⟩ := List.getElem?_eq_some_iff.mp h
  have hperm := ((List.getElem_cons_eraseIdx_perm hlt).map f).sum_eq
  rw [List.map_cons, List.sum_cons] at hperm
  omega

lemma sum_map_set (h : l[i]? = some a) (b : α) :
    ((l.set i b).map f).sum + f a = (l.map f).sum + f b := by
  obtain ⟨hlt, rfl⟩ := List.getElem?_eq_some_iff.mp h
  have hperm := ((List.set_perm_cons_eraseIdx hlt b).map f).sum_eq
  have herase := sum_map_eraseIdx f h
  rw [List.map_cons, List.sum_cons] at hperm
  omega

lemma sum_map_le {g : α → α} (h : ∀ a, f (g a) ≤ f a) (l : List α) :
    ((l.map g).map f).sum ≤ (l.map f).sum := by
  rw [List.map_map]
  exact List.sum_le_sum fun a _ => h a

end Sums

section Io

variable {s s' : Session κ} {a : IoAct κ} {pushed : List SessionEvent}

lemma work_post (s : Session κ) (h : Handler κ) : work (s.post h) = work s + handlerWork h := by
  simp only [work, Session.post, List.map_append, List.map_singleton, List.sum_append,
    List.sum_singleton]
  omega

lemma work_strand {h : Handler κ} {rest : List (Handler κ)} (hs : s.strand = h :: rest) :
    work s = work { s with strand := rest } + handlerWork h := by
  simp only [work, hs, List.map_cons, List.sum_cons]
  omega

/-- The work of stopping pays for the handler that closes. -/
lemma work_stopHere (s : Session κ) : work s.stopHere ≤ work s := by
  cases hr : s.running with
  | false => simp [Session.stopHere, Session.stop, hr]
  | true =>
    have hpost := work_post { s with running := false } .close
    simp only [Session.stopHere, Session.stop, hr, if_true, hpost, handlerWork]
    simp only [work, hr, Bool.toNat_true, Bool.toNat_false]
    omega

lemma work_handleError (s : Session κ) (e : ErrorCode) : work (s.handleError e) ≤ work s := by
  cases e
  case operation_aborted => exact le_refl _
  all_goals exact work_stopHere s

lemma work_handleErrors (s : Session κ) (errors : List ErrorCode) :
    work (errors.foldl Session.handleError s) ≤ work s := by
  induction errors generalizing s with
  | nil => exact le_refl _
  | cons e errors ih => exact (ih _).trans (work_handleError s e)

lemma work_asyncRead (s : Session κ) : work s.asyncRead ≤ work s + 4 := by
  unfold Session.asyncRead
  split_ifs with hr hopen <;> simp only [work, List.map_append, List.map_singleton,
    List.sum_append, List.sum_singleton, readWork] <;> omega

lemma work_asyncWrite (s : Session κ) : work s.asyncWrite ≤ work s + 4 := by
  unfold Session.asyncWrite
  split_ifs with hr hopen <;> simp only [work, List.map_append, List.map_singleton,
    List.sum_append, List.sum_singleton, writeWork] <;> omega

lemma work_pushChunk (s : Session κ) (chunk : κ) : work (s.pushChunk chunk) ≤ work s + 7 := by
  have hput : work { s with sendQueue := s.sendQueue ++ [chunk] } = work s + 3 := by
    simp only [work, List.length_append, List.length_singleton]
    omega
  have hwrite := work_asyncWrite { s with sendQueue := s.sendQueue ++ [chunk] }
  simp only [Session.pushChunk]
  split_ifs <;> omega

/-- The chunk that was written pays for the next write. -/
lemma work_onWritten (s : Session κ) (r : Result) : work (s.onWritten r) ≤ work s + 1 := by
  cases r with
  | error e => exact (work_handleError s e).trans (Nat.le_succ _)
  | ok n =>
    simp only [Session.onWritten]
    have htail : work { s with sendQueue := s.sendQueue.tail } + 3 * s.sendQueue.length =
        work s + 3 * (s.sendQueue.length - 1) := by
      simp only [work, List.length_tail]
      omega
    split_ifs with hempty
    · omega
    · have hwrite := work_asyncWrite { s with sendQueue := s.sendQueue.tail }
      have hlen : 0 < s.sendQueue.length := by
        rw [List.length_pos_iff]
        rintro hnil
        simp [hnil] at hempty
      omega

lemma work_close (s : Session κ) (errors : List ErrorCode) : work (s.close errors) ≤ work s := by
  have hread : ∀ op : ReadOp, readWork op.cancel ≤ readWork op := by
    rintro (_ | _) <;> simp [ReadOp.cancel, readWork]
  have hwrite : ∀ op : WriteOp κ, writeWork op.cancel ≤ writeWork op := by
    rintro (_ | _) <;> simp [WriteOp.cancel, writeWork]
  have hreads := sum_map_le readWork hread s.reads
  have hwrites := sum_map_le writeWork hwrite s.writes
  have herrors := work_handleErrors { s with
    reads := s.reads.map ReadOp.cancel
    writes := s.writes.map WriteOp.cancel } errors
  have hopen : work (s.close errors) = work (errors.foldl Session.handleError { s with
      reads := s.reads.map ReadOp.cancel
      writes := s.writes.map WriteOp.cancel }) := rfl
  refine hopen.trans_le (herrors.trans ?_)
  simp only [work]
  omega

lemma work_exec {errors : List ErrorCode} {h : Handler κ}
    (hx : s.exec errors h = some (s', pushed)) :
    work s' + pushed.length < work s + handlerWork h := by
  cases h with
  | asyncRead =>
    have hle := work_asyncRead s
    cases hx
    simp only [List.length_nil, handlerWork]
    omega
  | send chunk =>
    have hle := work_pushChunk s chunk
    cases hx
    simp only [List.length_nil, handlerWork]
    omega
  | close =>
    have hle := work_close s errors
    cases hx
    simp only [List.length_singleton, handlerWork]
    omega
  | onRead r =>
    cases r with
    | error e =>
      have hle := work_handleError s e
      cases hx
      simp only [List.length_nil, handlerWork]
      omega
    | ok n =>
      simp only [Session.exec, Session.onRead] at hx
      split_ifs at hx
      cases hx
      simp [work, handlerWork]
  | onWritten r =>
    have hle := work_onWritten s r
    cases hx
    simp only [List.length_nil, handlerWork]
    omega

lemma ioStep_stop (hr : s.running = false) : s.ioStep .stop = some (s, []) := by
  have hstop : s.stop = (s, none) := by simp [Session.stop, hr]
  simp only [Session.ioStep, hstop, Session.aboutTo, Option.toList_none, List.append_nil]

/-- **Beside the main thread every step is work done**, but for a `stop` of what is stopped,
which changes nothing. The main thread alone sends. -/
theorem work_ioStep (h : s.ioStep a = some (s', pushed)) (ha : ∀ chunk, a ≠ .send chunk) :
    work s' + pushed.length < work s ∨ a = .stop ∧ s' = s ∧ pushed = [] := by
  cases a with
  | stop =>
    cases hr : s.running with
    | false =>
      rw [ioStep_stop hr, Option.some.injEq, Prod.mk.injEq] at h
      exact .inr ⟨rfl, h.1.symm, h.2.symm⟩
    | true =>
      simp only [Session.ioStep, Session.stop, hr, Session.aboutTo, if_true, Option.toList_some,
        Option.some.injEq, Prod.mk.injEq] at h
      obtain ⟨rfl, rfl⟩ := h
      refine .inl ?_
      simp only [work, hr, List.map_append, List.map_singleton, List.sum_append,
        List.sum_singleton, handlerWork, Bool.toNat_true, Bool.toNat_false, List.length_nil]
      omega
  | send chunk => exact absurd rfl (ha chunk)
  | post i =>
    simp only [Session.ioStep, Session.doPost, Option.map_map, Option.map_eq_some_iff,
      Function.comp, Prod.mk.injEq] at h
    obtain ⟨p, hi, rfl, rfl⟩ := h
    have hsum := sum_map_eraseIdx (fun h => handlerWork h + 1) hi
    rw [work_post]
    refine .inl ?_
    simp only [work, List.length_nil]
    omega
  | strand errors =>
    simp only [Session.ioStep, Session.runStrand] at h
    cases hs : s.strand with
    | nil => simp [hs] at h
    | cons p rest =>
      simp only [hs] at h
      rw [work_strand hs]
      exact .inl (work_exec h)
  | readDone i r =>
    simp only [Session.ioStep, Option.map_eq_some_iff, Prod.mk.injEq] at h
    obtain ⟨t, h, rfl, rfl⟩ := h
    refine .inl ?_
    unfold Session.readDone at h
    split at h
    · rename_i offset size bs hi
      split_ifs at h
      cases h
      have hsum := sum_map_set readWork hi (.completed (.ok bs.length))
      simp only [work, List.length_nil, readWork] at hsum ⊢
      omega
    · rename_i offset size e hi
      cases h
      have hsum := sum_map_set readWork hi (.completed (.error e))
      simp only [work, List.length_nil, readWork] at hsum ⊢
      omega
    · cases h
  | readQueue i =>
    simp only [Session.ioStep, Option.map_eq_some_iff, Prod.mk.injEq] at h
    obtain ⟨t, h, rfl, rfl⟩ := h
    unfold Session.readQueue at h
    split at h <;> cases h
    have hsum := sum_map_eraseIdx readWork ‹s.reads[i]? = _›
    rw [work_post]
    refine .inl ?_
    simp only [work, List.length_nil, readWork, handlerWork] at hsum ⊢
    omega
  | writeDone i r =>
    simp only [Session.ioStep, Option.map_eq_some_iff, Prod.mk.injEq] at h
    obtain ⟨t, h, rfl, rfl⟩ := h
    unfold Session.writeDone at h
    split at h <;> cases h
    have hsum := sum_map_set writeWork ‹s.writes[i]? = _› (.completed r)
    refine .inl ?_
    simp only [work, List.length_nil, writeWork] at hsum ⊢
    omega
  | writeQueue i =>
    simp only [Session.ioStep, Option.map_eq_some_iff, Prod.mk.injEq] at h
    obtain ⟨t, h, rfl, rfl⟩ := h
    unfold Session.writeQueue at h
    split at h <;> cases h
    have hsum := sum_map_eraseIdx writeWork ‹s.writes[i]? = _›
    rw [work_post]
    refine .inl ?_
    simp only [work, List.length_nil, writeWork, handlerWork] at hsum ⊢
    omega

end Io

/-! ### A session whose socket is closed -/

/-- What the I/O threads do by themselves, without the peer and without another thread. -/
def Own : IoAct κ → Prop
  | .post _ | .strand _ | .readQueue _ | .writeQueue _ => True
  | .stop | .send _ | .readDone _ _ | .writeDone _ _ => False

/-- No handler is left and no operation is outstanding. -/
structure Idle (s : Session κ) : Prop where
  strand : s.strand = []
  posting : s.posting = []
  reads : s.reads = []
  writes : s.writes = []

/-- On a closed socket nothing waits for the peer. -/
def Settled (s : Session κ) : Prop :=
  s.socketOpen = false → (∀ op ∈ s.reads, ∃ r, op = .completed r) ∧
    ∀ op ∈ s.writes, ∃ r, op = .completed r

lemma Idle.ioStep_eq_none {s : Session κ} (h : Idle s) {a : IoAct κ} (ha : Own a) :
    s.ioStep a = none := by
  cases a with
  | post i => simp [Session.ioStep, Session.doPost, h.posting]
  | strand errors => simp [Session.ioStep, Session.runStrand, h.strand]
  | readQueue i => simp [Session.ioStep, Session.readQueue, h.reads]
  | writeQueue i => simp [Session.ioStep, Session.writeQueue, h.writes]
  | stop | send | readDone | writeDone => exact absurd ha id

lemma Idle.ioStep {s s' : Session κ} (h : Idle s) (hr : s.running = false) {a : IoAct κ}
    {pushed : List SessionEvent} (ha : ∀ chunk, a ≠ .send chunk)
    (hs : s.ioStep a = some (s', pushed)) : a = .stop ∧ s' = s ∧ pushed = [] := by
  cases a with
  | stop =>
    rw [ioStep_stop hr, Option.some.injEq, Prod.mk.injEq] at hs
    exact ⟨rfl, hs.1.symm, hs.2.symm⟩
  | send chunk => exact absurd rfl (ha chunk)
  | readDone i r => simp [Session.ioStep, Session.readDone, h.reads] at hs
  | writeDone i r => simp [Session.ioStep, Session.writeDone, h.writes] at hs
  | post | strand | readQueue | writeQueue =>
    rw [h.ioStep_eq_none (by trivial)] at hs
    cases hs

/-- **A closed session that is not idle can go on by itself.** -/
theorem exists_own {s : Session κ} (hc : Captured s) (hs : Settled s)
    (hopen : s.socketOpen = false) (h : ¬Idle s) :
    ∃ a s' pushed, Own a ∧ s.ioStep a = some (s', pushed) := by
  obtain ⟨hreads, hwrites⟩ := hs hopen
  by_cases hstrand : s.strand = []
  · by_cases hposting : s.posting = []
    · cases hr : s.reads with
      | nil =>
        cases hw : s.writes with
        | nil => exact absurd ⟨hstrand, hposting, hr, hw⟩ h
        | cons op ops =>
          obtain ⟨r, rfl⟩ := hwrites op (by simp [hw])
          exact ⟨.writeQueue 0, _, [], trivial, by
            simp [Session.ioStep, Session.writeQueue, hw]; rfl⟩
      | cons op ops =>
        obtain ⟨r, rfl⟩ := hreads op (by simp [hr])
        exact ⟨.readQueue 0, _, [], trivial, by simp [Session.ioStep, Session.readQueue, hr]; rfl⟩
    · obtain ⟨p, ps, hp⟩ := List.exists_cons_of_ne_nil hposting
      exact ⟨.post 0, _, [], trivial, by simp [Session.ioStep, Session.doPost, hp]; rfl⟩
  · obtain ⟨⟨s', pushed⟩, hrun⟩ := hc.runStrand hstrand []
    exact ⟨.strand [], s', pushed, trivial, hrun⟩

section Settled

variable {s s' : Session κ} {a : IoAct κ} {pushed : List SessionEvent}

lemma Settled.of_eq (h : Settled s) (hopen : s'.socketOpen = s.socketOpen)
    (hreads : s'.reads = s.reads) (hwrites : s'.writes = s.writes) : Settled s' := by
  intro hclosed
  rw [hreads, hwrites]
  exact h (hopen ▸ hclosed)

lemma settled_close (s : Session κ) (errors : List ErrorCode) : Settled (s.close errors) := by
  refine fun _ => ⟨fun op hop => ?_, fun op hop => ?_⟩
  · rw [(Still.close s errors).reads] at hop
    obtain ⟨op', -, rfl⟩ := List.mem_map.mp hop
    cases op' <;> exact ⟨_, rfl⟩
  · rw [(NoWrite.close s errors).writes] at hop
    obtain ⟨op', -, rfl⟩ := List.mem_map.mp hop
    cases op' <;> exact ⟨_, rfl⟩

lemma Settled.asyncRead (h : Settled s) : Settled s.asyncRead := by
  unfold Session.asyncRead
  split_ifs with hr hopen
  · exact fun hclosed => absurd (hopen.symm.trans hclosed) (by decide)
  · refine fun hclosed => ⟨fun op hop => ?_, (h hclosed).2⟩
    rcases List.mem_append.mp hop with hop | hop
    · exact (h hclosed).1 op hop
    · exact ⟨_, List.mem_singleton.mp hop⟩
  · exact h

lemma Settled.asyncWrite (h : Settled s) : Settled s.asyncWrite := by
  unfold Session.asyncWrite
  split_ifs with hr hopen
  · exact fun hclosed => absurd (hopen.symm.trans hclosed) (by decide)
  · refine fun hclosed => ⟨(h hclosed).1, fun op hop => ?_⟩
    rcases List.mem_append.mp hop with hop | hop
    · exact (h hclosed).2 op hop
    · exact ⟨_, List.mem_singleton.mp hop⟩
  · exact h

lemma Settled.handleError (h : Settled s) (e : ErrorCode) : Settled (s.handleError e) :=
  h.of_eq (NoWrite.handleError s e).socketOpen (Still.handleError s e).reads
    (NoWrite.handleError s e).writes

lemma Settled.exec (h : Settled s) {errors : List ErrorCode} {p : Handler κ}
    (hx : s.exec errors p = some (s', pushed)) : Settled s' := by
  cases p with
  | asyncRead =>
    cases hx
    exact h.asyncRead
  | send chunk =>
    cases hx
    have hput : Settled { s with sendQueue := s.sendQueue ++ [chunk] } := h.of_eq rfl rfl rfl
    simp only [Session.pushChunk]
    split_ifs
    · exact hput
    · exact hput.asyncWrite
  | close =>
    cases hx
    exact settled_close s errors
  | onRead r =>
    cases r with
    | error e =>
      cases hx
      exact h.handleError e
    | ok n =>
      simp only [Session.exec, Session.onRead] at hx
      split_ifs at hx
      cases hx
      exact h.of_eq rfl rfl rfl
  | onWritten r =>
    cases hx
    cases r with
    | error e => exact h.handleError e
    | ok n =>
      have hpop : Settled { s with sendQueue := s.sendQueue.tail } := h.of_eq rfl rfl rfl
      simp only [Session.onWritten]
      split_ifs
      · exact hpop
      · exact hpop.asyncWrite

/-- **A settled session stays settled.** -/
theorem Settled.ioStep (h : Settled s) (hs : s.ioStep a = some (s', pushed)) : Settled s' := by
  cases a with
  | stop =>
    cases hs
    unfold Session.stop Session.aboutTo
    split_ifs <;> exact h.of_eq rfl rfl rfl
  | send chunk =>
    cases hs
    exact h.of_eq rfl rfl rfl
  | post i =>
    simp only [Session.ioStep, Session.doPost, Option.map_map, Option.map_eq_some_iff] at hs
    obtain ⟨p, -, hs⟩ := hs
    cases hs
    exact h.of_eq rfl rfl rfl
  | strand errors =>
    simp only [Session.ioStep, Session.runStrand] at hs
    cases hstrand : s.strand with
    | nil => simp [hstrand] at hs
    | cons p rest =>
      simp only [hstrand] at hs
      have hrest : Settled { s with strand := rest } := h.of_eq rfl rfl rfl
      exact hrest.exec hs
  | readDone i r =>
    simp only [Session.ioStep, Option.map_eq_some_iff, Prod.mk.injEq] at hs
    obtain ⟨t, hs, rfl, rfl⟩ := hs
    have hset (r : Result) : Settled { s with reads := s.reads.set i (.completed r) } :=
      fun hclosed => ⟨fun op hop => (List.mem_or_eq_of_mem_set hop).elim
        ((h hclosed).1 op) fun heq => ⟨_, heq⟩, (h hclosed).2⟩
    unfold Session.readDone at hs
    split at hs
    · split_ifs at hs
      cases hs
      exact (hset _).of_eq rfl rfl rfl
    · cases hs
      exact hset _
    · cases hs
  | readQueue i =>
    simp only [Session.ioStep, Option.map_eq_some_iff, Prod.mk.injEq] at hs
    obtain ⟨t, hs, rfl, rfl⟩ := hs
    unfold Session.readQueue at hs
    split at hs <;> cases hs
    exact fun hclosed => (h hclosed).imp_left fun hr op hop => hr op (List.mem_of_mem_eraseIdx hop)
  | writeDone i r =>
    simp only [Session.ioStep, Option.map_eq_some_iff, Prod.mk.injEq] at hs
    obtain ⟨t, hs, rfl, rfl⟩ := hs
    unfold Session.writeDone at hs
    split at hs <;> cases hs
    exact fun hclosed => (h hclosed).imp_right fun hw op hop =>
      (List.mem_or_eq_of_mem_set hop).elim (hw op) fun heq => ⟨_, heq⟩
  | writeQueue i =>
    simp only [Session.ioStep, Option.map_eq_some_iff, Prod.mk.injEq] at hs
    obtain ⟨t, hs, rfl, rfl⟩ := hs
    unfold Session.writeQueue at hs
    split at hs <;> cases hs
    exact fun hclosed => (h hclosed).imp_right fun hw op hop => hw op (List.mem_of_mem_eraseIdx hop)

lemma Closes.socketOpen (hs : s.ioStep a = some (s', pushed)) (h : Closes s a) :
    s'.socketOpen = false := by
  cases a with
  | strand errors =>
    simp only [Session.ioStep, Session.runStrand] at hs
    cases hstrand : s.strand with
    | nil => simp [Closes, hstrand] at h
    | cons p rest =>
      simp only [hstrand] at hs
      cases p with
      | close =>
        cases hs
        exact (NoWrite.close _ errors).socketOpen
      | asyncRead | send | onRead | onWritten => simp [Closes, hstrand, isClose] at h
  | stop | send | post | readDone | readQueue | writeDone | writeQueue => exact absurd h id

lemma IoStep.socketOpen (h : IoStep s a s' pushed) (hs : s.ioStep a = some (s', pushed))
    (hc : .close ∈ pushed ∨ s.socketOpen = false) : s'.socketOpen = false := by
  by_cases hcl : Closes s a
  · exact Closes.socketOpen hs hcl
  · have hcount := IoStep.closes h
    rw [if_neg hcl, List.count_eq_zero] at hcount
    rw [WriteStep.socketOpen (writeStep_spec hs) hcl]
    exact hc.resolve_left hcount

end Settled

/-! ### The session with its owner -/

/-- Once the close event was pushed the socket is closed, and no operation is pending on it. -/
structure Sealed (s : Sys κ) : Prop extends Inv s, Life s where
  closed : .close ∈ s.history → s.main.session.socketOpen = false
  settled : Settled s.main.session

section Sys

variable {build : Build} {pb : Protobuf} {sessionId : ℕ} {owner : Owner} {s : Sys κ}

lemma sealed_init : Sealed (init : Sys κ) where
  toInv := inv_init
  toLife := life_init
  closed h := by cases h
  settled h := by cases h

lemma sealed_step (s : Sys κ) (a : Act κ) (s' : Sys κ) (h : Sealed s)
    (hs : SessionRun.step build pb sessionId owner s a = some s') : Sealed s' := by
  obtain ⟨hinv', hlife'⟩ := life_step s a s' ⟨h.toInv, h.toLife⟩ hs
  refine ⟨hinv', hlife', ?_, ?_⟩
  · cases a with
    | io b =>
      cases step_spec hs with
      | io hio =>
        intro hc
        refine IoStep.socketOpen (ioStep_spec h.captured.posting hio) hio ?_
        rw [Sys.history, ← List.append_assoc] at hc
        exact (List.mem_append.mp hc).symm.imp_right h.closed
    | start | main | elsewhere | sendPost | ownerStop =>
      obtain ⟨hhistory, hopen⟩ := step_history (step_spec hs) (by simp)
      rw [hhistory, hopen]
      exact h.closed
  · cases step_spec hs with
    | io hio => exact h.settled.ioStep hio
    | start hp =>
      refine h.settled.of_eq ?_ ?_ ?_ <;> unfold Session.start <;> split_ifs <;> rfl
    | drain hp hpc =>
      dsimp only
      rcases drain_cases build pb sessionId s.main with ⟨heq, -⟩ | ⟨-, b, heq⟩ | ⟨-, -, heq⟩ <;>
        rw [heq] <;> exact h.settled.of_eq rfl rfl rfl
    | startPost | close | receive | elsewhere | sendPost | ownerStop =>
      exact h.settled.of_eq rfl rfl rfl

theorem sealed_reachable (h : Reachable (SessionRun.step build pb sessionId owner) init s) :
    Sealed s :=
  h.invariant sealed_step sealed_init

end Sys

end ByteborneWorld.WorkRun
