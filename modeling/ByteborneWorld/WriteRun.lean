import ByteborneWorld.SessionRun

/-!
The send queue and the writes of one session. Nothing but the emptiness of the queue tells
whether a write is under way, so a write that ends without taking its chunk from the queue
is the last one.
-/

namespace ByteborneWorld.WriteRun

open ByteborneWorld.ChatProto ByteborneWorld.PacketModel ByteborneWorld.RecvModel
open ByteborneWorld.SessionModel ByteborneWorld.Lts ByteborneWorld.SessionRun

variable {κ : Type*}

/-! ### The write that is under way -/

def isWritten : Handler κ → Bool
  | .onWritten _ => true
  | _ => false

/-- The writes that are outstanding or wait for their handler to run. -/
def writing (s : Session κ) : ℕ :=
  s.writes.length + s.strand.countP isWritten + s.posting.countP isWritten

/-- Nothing happens to the send queue, the writes or the socket. -/
structure NoWrite (s s' : Session κ) : Prop where
  sendQueue : s'.sendQueue = s.sendQueue
  writes : s'.writes = s.writes
  writing : writing s' = writing s
  posting : s'.posting.countP isWritten ≤ s.posting.countP isWritten
  socketOpen : s'.socketOpen = s.socketOpen
  running : s'.running = true → s.running = true

namespace NoWrite

variable {s s' s'' : Session κ}

lemma refl (s : Session κ) : NoWrite s s := ⟨rfl, rfl, rfl, le_refl _, rfl, id⟩

lemma trans (h : NoWrite s s') (h' : NoWrite s' s'') : NoWrite s s'' :=
  ⟨h'.1.trans h.1, h'.2.trans h.2, h'.3.trans h.3, h'.4.trans h.4, h'.5.trans h.5, h.6 ∘ h'.6⟩

lemma post (s : Session κ) {h : Handler κ} (hh : isWritten h = false) : NoWrite s (s.post h) :=
  ⟨rfl, rfl, by simp [WriteRun.writing, Session.post, hh], le_refl _, rfl, id⟩

lemma strand_rest {h : Handler κ} {rest : List (Handler κ)} (hs : s.strand = h :: rest)
    (hh : isWritten h = false) : NoWrite s { s with strand := rest } :=
  ⟨rfl, rfl, by simp [WriteRun.writing, hs, hh], le_refl _, rfl, id⟩

lemma stopHere (s : Session κ) : NoWrite s s.stopHere := by
  unfold Session.stopHere Session.stop
  split_ifs with hr
  · exact ⟨rfl, rfl, by simp [WriteRun.writing, Session.post, isWritten], le_refl _, rfl,
      fun _ => hr⟩
  · exact refl s

lemma handleError (s : Session κ) (e : ErrorCode) : NoWrite s (s.handleError e) := by
  cases e
  case operation_aborted => exact refl s
  all_goals exact stopHere s

lemma handleErrors (s : Session κ) (errors : List ErrorCode) :
    NoWrite s (errors.foldl Session.handleError s) := by
  induction errors generalizing s with
  | nil => exact refl s
  | cons e errors ih => exact (handleError s e).trans (ih _)

lemma asyncRead (s : Session κ) : NoWrite s s.asyncRead := by
  rcases asyncRead_cases s with ⟨-, heq⟩ | ⟨-, op, heq, -⟩ <;> rw [heq]
  · exact refl s
  · exact ⟨rfl, rfl, rfl, le_refl _, rfl, id⟩

lemma onRead {r : Result} {pushed : List SessionEvent} (h : s.onRead r = some (s', pushed)) :
    NoWrite s s' := by
  cases r with
  | error e =>
    simp only [Session.onRead, Option.some.injEq, Prod.mk.injEq] at h
    obtain ⟨rfl, -⟩ := h
    exact handleError s e
  | ok n =>
    simp only [Session.onRead] at h
    split_ifs at h
    cases h
    exact ⟨rfl, rfl, rfl, le_refl _, rfl, id⟩

lemma close (s : Session κ) (errors : List ErrorCode) :
    NoWrite { s with writes := s.writes.map WriteOp.cancel, socketOpen := false }
      (s.close errors) :=
  have h := handleErrors { s with
    reads := s.reads.map ReadOp.cancel
    writes := s.writes.map WriteOp.cancel } errors
  ⟨h.1, h.2, h.3, h.4, rfl, h.6⟩

end NoWrite

/-! ### What a step beside the main thread can do to the writes -/

def reported (s : Session κ) : IoAct κ → Option Result
  | .strand _ =>
    match s.strand.head? with
    | some (.onWritten r) => some r
    | _ => none
  | _ => none

/-- What a step beside the main thread does to the writes. -/
inductive WriteStep (s : Session κ) : IoAct κ → Session κ → Prop
  | quiet {a s'} (hq : NoWrite s s') (hput : putBy s a = []) (hr : reported s a = none) :
      WriteStep s a s'
  | close {errors rest} (hs : s.strand = .close :: rest) :
      WriteStep s (.strand errors) ({ s with strand := rest }.close errors)
  | send {errors chunk rest} (hs : s.strand = .send chunk :: rest) :
      WriteStep s (.strand errors) ({ s with strand := rest }.pushChunk chunk)
  | onWritten {errors r rest} (hs : s.strand = .onWritten r :: rest) :
      WriteStep s (.strand errors) ({ s with strand := rest }.onWritten r)
  | writeDone {i chunk r} (hi : s.writes[i]? = some (.pending chunk)) :
      WriteStep s (.writeDone i r) { s with writes := s.writes.set i (.completed r) }
  | writeQueue {i r} (hi : s.writes[i]? = some (.completed r)) :
      WriteStep s (.writeQueue i) ({ s with writes := s.writes.eraseIdx i }.post (.onWritten r))

/-- **The cases of a step beside the main thread**, for the writes. -/
theorem writeStep_spec {s s' : Session κ} {a : IoAct κ} {pushed : List SessionEvent}
    (h : s.ioStep a = some (s', pushed)) : WriteStep s a s' := by
  cases a with
  | stop =>
    simp only [Session.ioStep, Option.some.injEq, Prod.mk.injEq] at h
    obtain ⟨rfl, -⟩ := h
    refine .quiet ?_ rfl rfl
    unfold Session.stop Session.aboutTo
    split_ifs with hr
    · exact ⟨rfl, rfl, by simp [writing, isWritten], by simp [isWritten], rfl, fun _ => hr⟩
    · exact ⟨rfl, rfl, by simp [writing], by simp, rfl, id⟩
  | send chunk =>
    simp only [Session.ioStep, Option.some.injEq, Prod.mk.injEq] at h
    obtain ⟨rfl, -⟩ := h
    refine .quiet ?_ rfl rfl
    unfold Session.send Session.aboutTo
    split_ifs
    · exact ⟨rfl, rfl, by simp [writing, isWritten], by simp [isWritten], rfl, id⟩
    · exact ⟨rfl, rfl, by simp [writing], by simp, rfl, id⟩
  | post i =>
    simp only [Session.ioStep, Session.doPost, Option.map_map, Option.map_eq_some_iff,
      Function.comp, Prod.mk.injEq] at h
    obtain ⟨p, hi, rfl, -⟩ := h
    obtain ⟨hlt, rfl⟩ := List.getElem?_eq_some_iff.mp hi
    have hperm := (List.getElem_cons_eraseIdx_perm hlt).countP_eq isWritten
    refine .quiet ⟨rfl, rfl, ?_, ?_, rfl, id⟩ rfl rfl
    · simp only [writing, Session.post, List.countP_append, List.countP_cons,
        List.countP_nil] at hperm ⊢
      omega
    · exact (List.eraseIdx_sublist _ _).countP_le
  | strand errors =>
    simp only [Session.ioStep, Session.runStrand] at h
    cases hs : s.strand with
    | nil => simp [hs] at h
    | cons p rest =>
      simp only [hs] at h
      cases p with
      | asyncRead =>
        simp only [Session.exec, Option.some.injEq, Prod.mk.injEq] at h
        obtain ⟨rfl, -⟩ := h
        exact .quiet ((NoWrite.strand_rest hs rfl).trans (.asyncRead _))
          (by simp [putBy, hs, chunkOf]) (by simp [reported, hs])
      | send chunk =>
        simp only [Session.exec, Option.some.injEq, Prod.mk.injEq] at h
        obtain ⟨rfl, -⟩ := h
        exact .send hs
      | close =>
        simp only [Session.exec, Option.some.injEq, Prod.mk.injEq] at h
        obtain ⟨rfl, -⟩ := h
        exact .close hs
      | onRead r =>
        exact .quiet ((NoWrite.strand_rest hs rfl).trans (.onRead h))
          (by simp [putBy, hs, chunkOf]) (by simp [reported, hs])
      | onWritten r =>
        simp only [Session.exec, Option.some.injEq, Prod.mk.injEq] at h
        obtain ⟨rfl, -⟩ := h
        exact .onWritten hs
  | readDone i r =>
    simp only [Session.ioStep, Option.map_eq_some_iff, Prod.mk.injEq] at h
    obtain ⟨t, h, rfl, -⟩ := h
    refine .quiet ?_ rfl rfl
    unfold Session.readDone at h
    split at h
    · split_ifs at h
      cases h
      exact ⟨rfl, rfl, rfl, le_refl _, rfl, id⟩
    · cases h
      exact ⟨rfl, rfl, rfl, le_refl _, rfl, id⟩
    · cases h
  | readQueue i =>
    simp only [Session.ioStep, Option.map_eq_some_iff, Prod.mk.injEq] at h
    obtain ⟨t, h, rfl, -⟩ := h
    refine .quiet ?_ rfl rfl
    unfold Session.readQueue at h
    split at h <;> cases h
    exact ⟨rfl, rfl, by simp [writing, Session.post, isWritten], le_refl _, rfl, id⟩
  | writeDone i r =>
    simp only [Session.ioStep, Option.map_eq_some_iff, Prod.mk.injEq] at h
    obtain ⟨t, h, rfl, -⟩ := h
    unfold Session.writeDone at h
    split at h <;> cases h
    exact .writeDone ‹_›
  | writeQueue i =>
    simp only [Session.ioStep, Option.map_eq_some_iff, Prod.mk.injEq] at h
    obtain ⟨t, h, rfl, -⟩ := h
    unfold Session.writeQueue at h
    split at h <;> cases h
    exact .writeQueue ‹_›

/-! ### What a run notes -/

/-- What becomes of the chunks: one is put on the send queue, a write of one is started, or a
write is reported as aborted to a session that is still running, which does nothing about it. -/
inductive Note (κ : Type*)
  | put (chunk : κ)
  | start (chunk : κ)
  | aborted
  deriving DecidableEq

def chunkOfOp : WriteOp κ → Option κ
  | .pending chunk => chunk
  | .completed _ => none

/-- The chunks of the writes that a step starts. -/
def startedBy (s s' : Session κ) : List κ :=
  (s'.writes.drop s.writes.length).filterMap chunkOfOp

/-- The report of an aborted write that a step ignores. -/
def Ignores (s : Session κ) (a : IoAct κ) : Prop :=
  s.running = true ∧ reported s a = some (.error .operation_aborted)

instance (s : Session κ) (a : IoAct κ) : Decidable (Ignores s a) :=
  inferInstanceAs (Decidable (_ ∧ _))

/-- How the queue, the writes and what has happened to the chunks so far belong together. -/
structure Fifo (s : Session κ) (puts starts : List κ) (aborted : Prop) : Prop where
  one : writing s ≤ 1
  posting : s.posting.countP isWritten = 0
  front : writing s = 1 → s.sendQueue ≠ []
  order : ∃ popped, puts = popped ++ s.sendQueue ∧
    (starts = popped ++ s.sendQueue.take 1 ∨ starts = popped ∧ writing s = 0)
  busy : s.running = true → ¬aborted → s.sendQueue ≠ [] → writing s = 1
  stuck : s.running = true → aborted → s.sendQueue ≠ [] ∧ writing s = 0
  chunk : .pending none ∉ s.writes
  socketOpen : s.running = true → s.socketOpen = true

section Fifo

variable {s s' : Session κ} {puts starts : List κ} {aborted : Prop}

lemma startedBy_of_length_le (h : s'.writes.length ≤ s.writes.length) : startedBy s s' = [] := by
  rw [startedBy, List.drop_eq_nil_of_le h]
  rfl

lemma Fifo.of_eq (h : Fifo s puts starts aborted) (hq : s'.sendQueue = s.sendQueue)
    (hw : writing s' = writing s)
    (hp : s'.posting.countP isWritten ≤ s.posting.countP isWritten)
    (hr : s'.running = true → s.running = true) (hc : .pending none ∉ s'.writes)
    (ho : s'.running = true → s'.socketOpen = true) : Fifo s' puts starts aborted where
  one := hw ▸ h.one
  posting := Nat.le_zero.mp (h.posting ▸ hp)
  front h1 := by rw [hq]; exact h.front (hw ▸ h1)
  order := by rw [hq, hw]; exact h.order
  busy hr' ha hne := by
    rw [hw]
    exact h.busy (hr hr') ha (hq ▸ hne)
  stuck hr' ha := by
    rw [hq, hw]
    exact h.stuck (hr hr') ha
  chunk := hc
  socketOpen := ho

lemma Fifo.noWrite (h : Fifo s puts starts aborted) (hq : NoWrite s s') :
    Fifo s' puts starts aborted :=
  h.of_eq hq.sendQueue hq.writing hq.posting hq.running (by rw [hq.writes]; exact h.chunk)
    fun hr => by rw [hq.socketOpen]; exact h.socketOpen (hq.running hr)

lemma asyncWrite_cases (ho : s.running = true → s.socketOpen = true) :
    s.running = false ∧ s.asyncWrite = s ∨ s.running = true ∧
      s.asyncWrite = { s with writes := s.writes ++ [.pending s.sendQueue.head?] } := by
  unfold Session.asyncWrite
  cases hr : s.running with
  | false => exact .inl ⟨rfl, rfl⟩
  | true => exact .inr ⟨rfl, by simp [ho hr]⟩

lemma running_handleError {e : ErrorCode} (hr : (s.handleError e).running = true) :
    e = .operation_aborted := by
  have hstop : s.stopHere.running = false := by
    unfold Session.stopHere Session.stop
    split_ifs with h
    · rfl
    · simpa using h
  cases e
  case operation_aborted => rfl
  all_goals
    rw [Session.handleError, hstop] at hr
    · cases hr
    · simp

lemma Fifo.pushChunk (h : Fifo s puts starts aborted) (chunk : κ) :
    Fifo (s.pushChunk chunk) (puts ++ [chunk]) (starts ++ startedBy s (s.pushChunk chunk))
      aborted := by
  obtain ⟨popped, hputs, hstarts⟩ := h.order
  by_cases hq : s.sendQueue = []
  · have hw : writing s = 0 := by
      have := h.one
      by_contra hne
      exact h.front (by omega) hq
    have hstarts' : starts = popped := by
      rcases hstarts with hstarts | ⟨hstarts, -⟩
      · rw [hstarts, hq, List.take_nil, List.append_nil]
      · exact hstarts
    have heq : s.pushChunk chunk = { s with sendQueue := [chunk] }.asyncWrite := by
      simp [Session.pushChunk, hq]
    rw [heq]
    rcases asyncWrite_cases (s := { s with sendQueue := [chunk] }) h.socketOpen with
      ⟨hr, heq⟩ | ⟨hr, heq⟩ <;> rw [heq]
    · have hnone : startedBy s { s with sendQueue := [chunk] } = [] :=
        startedBy_of_length_le (le_refl _)
      rw [hnone, List.append_nil]
      exact ⟨h.one, h.posting, fun _ => by simp,
        ⟨popped, by rw [hputs, hq, List.append_nil], .inr ⟨hstarts', hw⟩⟩,
        fun hr' => (by rw [hr] at hr'; cases hr'), fun hr' => (by rw [hr] at hr'; cases hr'),
        h.chunk, h.socketOpen⟩
    · have hw' : writing { s with
          sendQueue := [chunk]
          writes := s.writes ++ [.pending [chunk].head?] } = 1 := by
        simp only [writing, List.length_append, List.length_singleton] at hw ⊢
        omega
      refine ⟨hw'.le, h.posting, fun _ => by simp, ⟨popped, ?_, .inl ?_⟩, fun _ _ _ => hw',
        fun hr' ha => absurd hq (h.stuck hr' ha).1, ?_, h.socketOpen⟩
      · rw [hputs, hq, List.append_nil]
      · simp [startedBy, chunkOfOp, hstarts']
      · simpa using h.chunk
  · have heq : s.pushChunk chunk = { s with sendQueue := s.sendQueue ++ [chunk] } := by
      simp [Session.pushChunk, hq]
    have htake : (s.sendQueue ++ [chunk]).take 1 = s.sendQueue.take 1 :=
      List.take_append_of_le_length (List.length_pos_iff.mpr hq)
    have hnone : startedBy s { s with sendQueue := s.sendQueue ++ [chunk] } = [] :=
      startedBy_of_length_le (le_refl _)
    rw [heq, hnone, List.append_nil]
    refine ⟨h.one, h.posting, fun _ => by simp, ⟨popped, ?_, ?_⟩,
      fun hr ha _ => h.busy hr ha hq, fun hr ha => ⟨by simp, (h.stuck hr ha).2⟩, h.chunk,
      h.socketOpen⟩
    · rw [hputs, List.append_assoc]
    · simp only [htake]
      exact hstarts

lemma writing_strand {r : Result} {rest : List (Handler κ)} (hs : s.strand = .onWritten r :: rest) :
    writing s = writing { s with strand := rest } + 1 := by
  simp only [writing, hs, List.countP_cons, isWritten, if_true]
  omega

/-- A write has ended, and its handler is about to run. -/
structure Ended (s : Session κ) (puts starts : List κ) (aborted : Prop) : Prop where
  writing : writing s = 0
  posting : s.posting.countP isWritten = 0
  order : ∃ popped chunk queue, s.sendQueue = chunk :: queue ∧
    puts = popped ++ chunk :: queue ∧ starts = popped ++ [chunk]
  fresh : s.running = true → ¬aborted
  chunk : .pending none ∉ s.writes
  socketOpen : s.running = true → s.socketOpen = true

lemma Fifo.ended (h : Fifo s puts starts aborted) {r : Result} {rest : List (Handler κ)}
    (hs : s.strand = .onWritten r :: rest) :
    Ended { s with strand := rest } puts starts aborted := by
  have hone := h.one
  have hw := writing_strand hs
  obtain ⟨chunk, queue, hq⟩ := List.exists_cons_of_ne_nil (h.front (by omega))
  obtain ⟨popped, hputs, hstarts⟩ := h.order
  refine ⟨by omega, h.posting, ⟨popped, chunk, queue, hq, by rw [hputs, hq], ?_⟩,
    fun hr ha => ?_, h.chunk, h.socketOpen⟩
  · rcases hstarts with hstarts | ⟨-, h0⟩
    · rw [hstarts, hq]
      rfl
    · omega
  · have := (h.stuck hr ha).2
    omega

/-- The write has failed: no other is started, and only an aborted one leaves the session
running. -/
lemma Ended.handleError (h : Ended s puts starts aborted) (e : ErrorCode) :
    Fifo (s.handleError e) puts starts
      (aborted ∨ s.running = true ∧ e = .operation_aborted) := by
  obtain ⟨popped, chunk, queue, hq, hputs, hstarts⟩ := h.order
  have hquiet := NoWrite.handleError s e
  have hw := hquiet.writing.trans h.writing
  rw [← hquiet.sendQueue] at hq
  refine ⟨by omega, Nat.le_zero.mp (h.posting ▸ hquiet.posting), fun h1 => by omega,
    ⟨popped, ?_, .inl ?_⟩, fun hr ha => absurd (.inr ⟨hquiet.running hr, ?_⟩) ha,
    fun _ _ => ⟨by simp [hq], hw⟩, ?_, fun hr => ?_⟩
  · rw [hputs, hq]
  · rw [hstarts, hq]
    rfl
  · rw [hquiet.writes]
    exact h.chunk
  · rw [hquiet.socketOpen]
    exact h.socketOpen (hquiet.running hr)
  · exact running_handleError hr

/-- The write has succeeded: its chunk is taken from the queue, and the write of the next one
is started. -/
lemma Ended.next (h : Ended s puts starts aborted) (n : ℕ) :
    Fifo (s.onWritten (.ok n)) puts (starts ++ startedBy s (s.onWritten (.ok n))) aborted := by
  obtain ⟨popped, chunk, queue, hq, hputs, hstarts⟩ := h.order
  have hputs' : puts = popped ++ [chunk] ++ queue := by rw [hputs, List.append_assoc]; rfl
  cases queue with
  | nil =>
    have heq : s.onWritten (.ok n) = { s with sendQueue := [] } := by
      simp [Session.onWritten, hq]
    have hnone : startedBy s { s with sendQueue := [] } = [] := startedBy_of_length_le (le_refl _)
    rw [heq, hnone, List.append_nil]
    exact ⟨h.writing.le.trans (Nat.zero_le _), h.posting, fun h1 => absurd (h.writing.symm.trans h1)
      (by decide), ⟨popped ++ [chunk], hputs', .inr ⟨hstarts, h.writing⟩⟩,
      fun _ _ hne => absurd rfl hne, fun hr ha => absurd ha (h.fresh hr), h.chunk, h.socketOpen⟩
  | cons next queue =>
    have heq : s.onWritten (.ok n) = { s with sendQueue := next :: queue }.asyncWrite := by
      simp [Session.onWritten, hq]
    rw [heq]
    rcases asyncWrite_cases (s := { s with sendQueue := next :: queue }) h.socketOpen with
      ⟨hr, heq⟩ | ⟨hr, heq⟩ <;> rw [heq]
    · have hnone : startedBy s { s with sendQueue := next :: queue } = [] :=
        startedBy_of_length_le (le_refl _)
      rw [hnone, List.append_nil]
      exact ⟨h.writing.le.trans (Nat.zero_le _), h.posting, fun _ => by simp,
        ⟨popped ++ [chunk], hputs', .inr ⟨hstarts, h.writing⟩⟩,
        fun hr' => absurd (hr.symm.trans hr') (by decide),
        fun hr' => absurd (hr.symm.trans hr') (by decide), h.chunk, h.socketOpen⟩
    · have hw : WriteRun.writing { s with
          sendQueue := next :: queue
          writes := s.writes ++ [.pending (next :: queue).head?] } = 1 := by
        have := h.writing
        simp only [WriteRun.writing, List.length_append, List.length_singleton] at this ⊢
        omega
      refine ⟨hw.le, h.posting, fun _ => by simp, ⟨popped ++ [chunk], hputs', .inl ?_⟩,
        fun _ _ _ => hw, fun hr' ha => absurd ha (h.fresh hr'), ?_, h.socketOpen⟩
      · simp [startedBy, chunkOfOp, hstarts]
      · simpa using h.chunk

/-- **A step beside the main thread keeps the chunks in order**, if it closes the session only
when that is stopped. -/
theorem Fifo.step {a : IoAct κ} (h : Fifo s puts starts aborted) (hs : WriteStep s a s')
    (hclose : .close ∈ s.strand → s.running = false) :
    Fifo s' (puts ++ putBy s a) (starts ++ startedBy s s') (aborted ∨ Ignores s a) := by
  cases hs with
  | quiet hq hput hr =>
    have hign : ¬Ignores s a := fun hi => by rw [Ignores, hr] at hi; cases hi.2
    rw [hput, startedBy_of_length_le (by rw [hq.writes]), List.append_nil, List.append_nil,
      or_iff_left hign]
    exact h.noWrite hq
  | @close errors rest hs =>
    have hput : putBy s (.strand errors) = [] := by simp [putBy, hs, chunkOf]
    have hign : ¬Ignores s (.strand errors) := fun hi => by simp [Ignores, reported, hs] at hi
    have hquiet := NoWrite.close { s with strand := rest } errors
    have hstop : s.running ≠ true := by simp [hclose (by rw [hs]; exact .head _)]
    have hcancel : Fifo { s with
        strand := rest
        writes := s.writes.map WriteOp.cancel
        socketOpen := false } puts starts aborted := by
      refine h.of_eq rfl (by simp [writing, hs, isWritten]) (le_refl _) id (fun hm => ?_)
        fun hr => absurd hr hstop
      obtain ⟨op, -, heq⟩ := List.mem_map.mp hm
      cases op <;> cases heq
    have hnone : startedBy s ({ s with strand := rest }.close errors) = [] :=
      startedBy_of_length_le (by rw [hquiet.writes, List.length_map])
    rw [hput, hnone, List.append_nil, List.append_nil, or_iff_left hign]
    exact hcancel.noWrite hquiet
  | @send errors chunk rest hs =>
    have hput : putBy s (.strand errors) = [chunk] := by simp [putBy, hs, chunkOf]
    have hign : ¬Ignores s (.strand errors) := fun hi => by simp [Ignores, reported, hs] at hi
    rw [hput, or_iff_left hign]
    exact (h.noWrite (.strand_rest hs rfl)).pushChunk chunk
  | @onWritten errors r rest hs =>
    have hput : putBy s (.strand errors) = [] := by simp [putBy, hs, chunkOf]
    have hign : Ignores s (.strand errors) ↔
        s.running = true ∧ r = .error .operation_aborted := by simp [Ignores, reported, hs]
    rw [hput, List.append_nil, hign]
    have hended := h.ended hs
    cases r with
    | error e =>
      have hnone : startedBy s ({ s with strand := rest }.onWritten (.error e)) = [] :=
        startedBy_of_length_le (by
          rw [Session.onWritten, (NoWrite.handleError { s with strand := rest } e).writes])
      rw [hnone, List.append_nil]
      simpa only [Session.onWritten, Except.error.injEq] using hended.handleError e
    | ok n =>
      rw [or_iff_left (by simp)]
      exact hended.next n
  | @writeDone i chunk r hi =>
    have hnone : startedBy s { s with writes := s.writes.set i (.completed r) } = [] :=
      startedBy_of_length_le (by rw [List.length_set])
    have hput : putBy s (.writeDone i r) = [] := rfl
    rw [hnone, hput, List.append_nil, List.append_nil,
      or_iff_left (show ¬Ignores s (.writeDone i r) from fun hi => by cases hi.2)]
    refine h.of_eq rfl (by simp [writing]) (le_refl _) id (fun hm => ?_) h.socketOpen
    rcases List.mem_or_eq_of_mem_set hm with hm | heq
    · exact h.chunk hm
    · cases heq
  | @writeQueue i r hi =>
    obtain ⟨hlt, -⟩ := List.getElem?_eq_some_iff.mp hi
    have hlen := List.length_eraseIdx_of_lt hlt
    have hnone : startedBy s ({ s with writes := s.writes.eraseIdx i }.post (.onWritten r)) = [] :=
      startedBy_of_length_le (by simp only [Session.post]; omega)
    have hput : putBy s (.writeQueue i : IoAct κ) = [] := rfl
    rw [hnone, hput, List.append_nil, List.append_nil,
      or_iff_left (show ¬Ignores s (.writeQueue i) from fun hi => by cases hi.2)]
    refine h.of_eq rfl ?_ (le_refl _) id (fun hm => h.chunk (List.mem_of_mem_eraseIdx hm))
      h.socketOpen
    simp only [writing, Session.post, hlen, List.countP_append, List.countP_singleton, isWritten,
      if_true]
    omega

end Fifo

/-! ### The system -/

/-- What is noted of a step. -/
def notes (s : Sys κ) (a : Act κ) (s' : Sys κ) : List (Note κ) :=
  match a with
  | .io a => (putBy s.main.session a).map .put ++
      (startedBy s.main.session s'.main.session).map .start ++
      if Ignores s.main.session a then [.aborted] else []
  | _ => (startedBy s.main.session s'.main.session).map .start

/-- The chunks that were put on the send queue, in the order their handlers ran. -/
def puts (ns : List (Note κ)) : List κ :=
  ns.filterMap fun
    | .put chunk => some chunk
    | _ => none

def starts (ns : List (Note κ)) : List κ :=
  ns.filterMap fun
    | .start chunk => some chunk
    | _ => none

lemma puts_append (ms ns : List (Note κ)) : puts (ms ++ ns) = puts ms ++ puts ns :=
  List.filterMap_append

lemma starts_append (ms ns : List (Note κ)) : starts (ms ++ ns) = starts ms ++ starts ns :=
  List.filterMap_append

section Notes

variable (chunks chunks' : List κ) (p : Prop) [Decidable p]

lemma puts_step : puts (chunks.map .put ++ chunks'.map .start ++
    if p then [.aborted] else []) = chunks := by
  split_ifs <;> simp [puts, List.filterMap_map]

lemma starts_step : starts (chunks.map .put ++ chunks'.map .start ++
    if p then [.aborted] else []) = chunks' := by
  split_ifs <;> simp [starts, List.filterMap_map]

lemma aborted_mem_step : (.aborted ∈ (chunks.map .put ++ chunks'.map .start ++
    if p then [.aborted] else [] : List (Note κ))) ↔ p := by
  split_ifs with h <;> simp [h]

end Notes

/-- The session before it is started, and from then on. -/
structure Serial (s : Sys κ) (ns : List (Note κ)) : Prop extends Inv s, Life s where
  fifo : Fifo s.main.session (puts ns) (starts ns) (.aborted ∈ ns)
  created : s.phase = .created → s.main.session = .new ∧ ns = []

section Sys

variable {build : Build} {pb : Protobuf} {sessionId : ℕ} {owner : Owner} {s : Sys κ}

lemma fifo_new {aborted : Prop} (ha : ¬aborted) (running : Bool) :
    Fifo { (Session.new : Session κ) with running := running } [] [] aborted where
  one := Nat.zero_le _
  posting := rfl
  front h := by cases h
  order := ⟨[], rfl, .inl rfl⟩
  busy _ _ h := absurd rfl h
  stuck _ h := absurd h ha
  chunk h := by cases h
  socketOpen _ := rfl

lemma serial_init : Serial (init : Sys κ) [] where
  toInv := inv_init
  toLife := life_init
  fifo := fifo_new (by simp) false
  created _ := ⟨rfl, rfl⟩

lemma running_of_close_mem (h : Life s) (hm : .close ∈ s.main.session.strand) :
    s.main.session.running = false := by
  have hpos : 0 < s.main.session.strand.countP isClose :=
    List.countP_pos_iff.mpr ⟨_, hm, rfl⟩
  have hcount := h.count
  cases hr : s.main.session.running with
  | false => rfl
  | true =>
    simp only [sessionLife, hr, Bool.toNat_true] at hcount
    omega

lemma ioStep_new {a : IoAct κ} {s' : Session κ} {pushed : List SessionEvent}
    (h : (Session.new : Session κ).ioStep a = some (s', pushed)) :
    s' = .new ∧ putBy (Session.new : Session κ) a = [] ∧ ¬Ignores (Session.new : Session κ) a := by
  refine ⟨?_, by cases a <;> rfl, fun hi => by cases hi.1⟩
  cases a <;> simp_all [Session.new, Session.ioStep, Session.stop, Session.aboutTo, Session.send,
    Session.doPost, Session.runStrand, Session.readDone, Session.readQueue, Session.writeDone,
    Session.writeQueue]

lemma drain_noWrite (d : Drain κ) : NoWrite d.session (d.step build pb sessionId).session := by
  rcases drain_cases build pb sessionId d with
    ⟨hs, -⟩ | ⟨-, b, hs⟩ | ⟨-, -, hs⟩ <;> rw [hs]
  · exact .refl _
  · exact ⟨rfl, rfl, rfl, le_refl _, rfl, id⟩
  · exact .post _ rfl

lemma step_noWrite {a : Act κ} {s' : Sys κ} (hs : Step build pb sessionId owner s a s')
    (hstart : a ≠ .start) (hio : ∀ b, a ≠ .io b) : NoWrite s.main.session s'.main.session := by
  cases hs with
  | start hp => exact absurd rfl hstart
  | startPost hp => exact .post _ rfl
  | drain hp hpc => exact drain_noWrite s.main
  | sendPost hp => exact .post _ rfl
  | io h => exact absurd rfl (hio _)
  | close | receive | elsewhere | ownerStop => exact .refl _

lemma notes_eq_nil {a : Act κ} {s' : Sys κ} (ha : ∀ b, a ≠ .io b)
    (h : s'.main.session.writes = s.main.session.writes) : notes s a s' = [] := by
  have hnone : startedBy s.main.session s'.main.session = [] :=
    startedBy_of_length_le (by rw [h])
  cases a with
  | io b => exact absurd rfl (ha b)
  | start | main | elsewhere | sendPost | ownerStop => simp [notes, hnone]

lemma created_step {a : Act κ} {s' : Sys κ} (hs : Step build pb sessionId owner s a s')
    (hnew : s.phase = .created → s.main.session = .new) (hp' : s'.phase = .created) :
    s.phase = .created ∧ s'.main.session = .new ∧ notes s a s' = [] := by
  cases hs with
  | @io a session pushed h =>
    have hnew := hnew hp'
    rw [hnew] at h
    obtain ⟨rfl, hput, hign⟩ := ioStep_new h
    refine ⟨hp', rfl, ?_⟩
    simp only [notes, hnew, hput, startedBy_of_length_le (le_refl _), if_neg hign, List.map_nil,
      List.append_nil]
  | elsewhere hpc => exact ⟨hp', hnew hp', notes_eq_nil (by simp) rfl⟩
  | ownerStop => exact ⟨hp', hnew hp', notes_eq_nil (by simp) rfl⟩
  | start => cases hp'
  | startPost => cases hp'
  | sendPost hp => exact absurd hp' hp
  | close hp | receive hp | drain hp =>
    simp only [hp] at hp'
    cases hp'

lemma serial_step (s : Sys κ) (ns : List (Note κ)) (a : Act κ) (s' : Sys κ) (h : Serial s ns)
    (hs : SessionRun.step build pb sessionId owner s a = some s') :
    Serial s' (ns ++ notes s a s') := by
  obtain ⟨hinv, hlife, hfifo, hcreated⟩ := h
  obtain ⟨hinv', hlife'⟩ := life_step s a s' ⟨hinv, hlife⟩ hs
  have hspec := step_spec hs
  refine ⟨hinv', hlife', ?_, fun hp' => ?_⟩
  · cases a with
    | start =>
      cases hspec with
      | start hp =>
        obtain ⟨hnew, rfl⟩ := hcreated hp
        rw [notes_eq_nil (by simp) (by simp [hnew, Session.start, Session.new])]
        simp only [hnew]
        exact fifo_new (by simp) true
    | io b =>
      cases hspec with
      | @io b session pushed h =>
        have hstep := hfifo.step (writeStep_spec h) (running_of_close_mem hlife)
        rw [puts_append, starts_append, List.mem_append, notes, puts_step, starts_step,
          aborted_mem_step]
        exact hstep
    | main | elsewhere | sendPost | ownerStop =>
      have hquiet := step_noWrite hspec (by simp) (by simp)
      rw [notes_eq_nil (by simp) hquiet.writes, List.append_nil]
      exact hfifo.noWrite hquiet
  · obtain ⟨hp, hnew, hnotes⟩ := created_step hspec (fun hp => (hcreated hp).1) hp'
    exact ⟨hnew, by rw [(hcreated hp).2, hnotes]; rfl⟩

/-- **Writes are serialised, and started in order.** In every run, with what was noted of it:
there is one write at most, outstanding or with its handler still to run; while the session runs
the queue is not empty exactly if there is one, or if an aborted one was ignored; the queue is
not empty when a write has been started or is reported; and the chunks that writes were started
of come first among those put on the queue. -/
theorem writes_serialised {as : List (Act κ)}
    (h : run (SessionRun.step build pb sessionId owner) init as = some s) :
    s.main.session.writes.length + s.main.session.strand.countP isWritten ≤ 1 ∧
      (s.main.session.running = true → (s.main.session.sendQueue ≠ [] ↔
        s.main.session.writes ≠ [] ∨ (∃ r, .onWritten r ∈ s.main.session.strand) ∨
          .aborted ∈ observe (SessionRun.step build pb sessionId owner) notes init as)) ∧
      (.pending none ∉ s.main.session.writes ∧
        ∀ r, .onWritten r ∈ s.main.session.strand → s.main.session.sendQueue ≠ []) ∧
      starts (observe (SessionRun.step build pb sessionId owner) notes init as) <+:
        puts (observe (SessionRun.step build pb sessionId owner) notes init as) := by
  have hserial := observe_invariant serial_step serial_init h
  rw [List.nil_append] at hserial
  have hfifo := hserial.fifo
  have hone := hfifo.one
  have hposting := hfifo.posting
  have hmem : (∃ r, .onWritten r ∈ s.main.session.strand) ↔
      0 < s.main.session.strand.countP isWritten := by
    rw [List.countP_pos_iff]
    refine ⟨fun ⟨r, hr⟩ => ⟨_, hr, rfl⟩, ?_⟩
    rintro ⟨p, hp, hw⟩
    cases p with
    | onWritten r => exact ⟨r, hp⟩
    | asyncRead | send | close | onRead => cases hw
  have hwriting : writing s.main.session = s.main.session.writes.length +
      s.main.session.strand.countP isWritten := by unfold writing; omega
  have hbusy : s.main.session.writes ≠ [] ∨ (∃ r, .onWritten r ∈ s.main.session.strand) ↔
      writing s.main.session = 1 := by
    rw [hmem, ← List.length_pos_iff]
    omega
  refine ⟨by omega, fun hr => ?_, ⟨hfifo.chunk, fun r hr => ?_⟩, ?_⟩
  · rw [← or_assoc, hbusy]
    refine ⟨fun hne => ?_, ?_⟩
    · by_contra hno
      rw [not_or] at hno
      exact hno.1 (hfifo.busy hr hno.2 hne)
    · rintro (hw | ha)
      · exact hfifo.front hw
      · exact (hfifo.stuck hr ha).1
  · exact hfifo.front (hbusy.mp (.inr ⟨r, hr⟩))
  · obtain ⟨popped, hputs, hstarts⟩ := hfifo.order
    rw [hputs]
    rcases hstarts with hstarts | ⟨hstarts, -⟩ <;> rw [hstarts]
    · exact (List.prefix_append_right_inj _).mpr (List.take_prefix _ _)
    · exact List.prefix_append _ _

end Sys

/-- One chunk is sent, and its write is reported as aborted while the session runs. -/
def abortedWrite : List (Act Unit) :=
  [.start, .main, .io (.strand []), .io (.send ()), .io (.post 0), .io (.strand []),
    .io (.writeDone 0 (.error .operation_aborted)), .io (.writeQueue 0), .io (.strand [])]

/-- What holds of its last state: the queue is not empty because a write was aborted. -/
theorem writes_serialised_abortedWrite : ∃ s,
    run (SessionRun.step .Release proto3 1 .WorldServer) init abortedWrite = some s ∧
      s.main.session.writes.length + s.main.session.strand.countP isWritten ≤ 1 ∧
      .aborted ∈ observe (SessionRun.step .Release proto3 1 .WorldServer) notes init
        abortedWrite ∧
      (.pending none ∉ s.main.session.writes ∧
        ∀ r, .onWritten r ∈ s.main.session.strand → s.main.session.sendQueue ≠ []) ∧
      starts (observe (SessionRun.step .Release proto3 1 .WorldServer) notes init abortedWrite) <+:
        puts (observe (SessionRun.step .Release proto3 1 .WorldServer) notes init
          abortedWrite) := by
  have hrun : (run (SessionRun.step .Release proto3 1 .WorldServer) init abortedWrite).map
      (fun s => (s.main.session.running, s.main.session.sendQueue, s.main.session.writes,
        s.main.session.strand)) = some (true, [()], [], []) := by rfl
  obtain ⟨s, hs, heq⟩ := Option.map_eq_some_iff.mp hrun
  simp only [Prod.mk.injEq] at heq
  obtain ⟨hr, hqueue, hwrites, hstrand⟩ := heq
  obtain ⟨hone, hbusy, hchunk, horder⟩ := writes_serialised hs
  have habort := (hbusy hr).mp (by simp [hqueue])
  rw [hwrites, hstrand] at habort
  exact ⟨s, hs, hone, by simpa using habort, hchunk, horder⟩

/-- **The chunk stays on the queue** of a running session, and no write is under way. -/
theorem abortedWrite_stuck : ∃ s,
    run (SessionRun.step .Release proto3 1 .WorldServer) init abortedWrite = some s ∧
      s.main.session.running = true ∧ s.main.session.sendQueue = [()] ∧
      s.main.session.writes = [] ∧ s.main.session.strand = [] :=
  ⟨_, rfl, rfl, rfl, rfl, rfl⟩

end ByteborneWorld.WriteRun
