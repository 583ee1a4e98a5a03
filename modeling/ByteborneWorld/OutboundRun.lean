import ByteborneWorld.WriteRun

/-!
The sending half of a session: the bytes that its writes have handed to the socket, piece by
piece, are those of the chunks put on the send queue, in order and without a gap.
-/

namespace ByteborneWorld.OutboundRun

open ByteborneWorld.ChatProto ByteborneWorld.PacketModel ByteborneWorld.RecvModel
open ByteborneWorld.SessionModel ByteborneWorld.Lts ByteborneWorld.SessionRun
open ByteborneWorld.WriteRun

variable {κ : Type*}

/-! ### Writing a chunk piece by piece -/

/-- A write that is reported to have succeeded has written its whole chunk; `progress` is how
much of it the socket has taken. -/
def Written (bytes : κ → List UInt8) (s : Session κ) (progress : ℕ) : IoAct κ → Prop
  | .writeDone i (.ok n) =>
    match s.writes[i]? with
    | some (.pending (some chunk)) => n = (bytes chunk).length ∧ progress = n
    | _ => True
  | _ => True

instance (bytes : κ → List UInt8) (s : Session κ) (progress : ℕ) (a : IoAct κ) :
    Decidable (Written bytes s progress a) := by
  rcases a with _ | _ | _ | _ | _ | _ | ⟨i, e | n⟩ | _ <;> unfold Written
  case writeDone.ok =>
    dsimp only
    generalize s.writes[i]? = op
    rcases op with _ | (_ | _) | _
    case some.pending.some => exact @instDecidableAnd _ _ (Nat.decEq _ _) (Nat.decEq _ _)
    all_goals exact instDecidableTrue
  all_goals exact instDecidableTrue

/-- A write that is started starts at the beginning of its chunk. -/
def progressOf (s s' : Session κ) (progress : ℕ) : ℕ :=
  if (startedBy s s').isEmpty then progress else 0

/-- The bytes of the chunk at the front of the send queue. -/
def front (bytes : κ → List UInt8) (s : Session κ) : List UInt8 :=
  s.sendQueue.head?.elim [] bytes

/-- How the bytes written so far, the stream, belong to the chunks: those of the chunks popped,
and a part of the one at the front. -/
structure Outgoing (bytes : κ → List UInt8) (s : Session κ) (puts : List κ) (aborted : Prop)
    (progress : ℕ) (stream : List UInt8) (popped : List κ) (part : List UInt8) : Prop where
  puts : puts = popped ++ s.sendQueue
  stream : stream = popped.flatMap bytes ++ part
  prefix_front : part <+: front bytes s
  pending : ∀ c, .pending c ∈ s.writes →
    c = s.sendQueue.head? ∧ part = (front bytes s).take progress
  written : ∀ n, .completed (.ok n) ∈ s.writes ∨ .onWritten (.ok n) ∈ s.strand →
    part = front bytes s
  idle : s.running = true → ¬aborted → writing s = 0 → part = []

section Io

variable {s s' : Session κ} {a : IoAct κ} {pushed : List SessionEvent}

/-! ### The handlers that report a write -/

lemma strand_exec {errors : List ErrorCode} {h : Handler κ}
    (hx : s.exec errors h = some (s', pushed)) :
    s'.strand = s.strand ∨ s'.strand = s.strand ++ [.close] := by
  have still {t t' : Session κ} (hq : Still t t') :
      t'.strand = t.strand ∨ t'.strand = t.strand ++ [.close] :=
    hq.strand.imp And.right fun h => h.2.2
  cases h with
  | asyncRead =>
    simp only [Session.exec, Option.some.injEq, Prod.mk.injEq] at hx
    obtain ⟨rfl, -⟩ := hx
    refine .inl ?_
    rcases asyncRead_cases s with ⟨-, heq⟩ | ⟨-, op, heq, -⟩ <;> rw [heq]
  | send chunk =>
    simp only [Session.exec, Option.some.injEq, Prod.mk.injEq] at hx
    obtain ⟨rfl, -⟩ := hx
    exact still (.pushChunk s chunk)
  | close =>
    simp only [Session.exec, Option.some.injEq, Prod.mk.injEq] at hx
    obtain ⟨rfl, -⟩ := hx
    have hq := still (Still.close s errors)
    exact hq
  | onRead r =>
    cases r with
    | error e =>
      simp only [Session.exec, Session.onRead, Option.some.injEq, Prod.mk.injEq] at hx
      obtain ⟨rfl, -⟩ := hx
      exact still (.handleError s e)
    | ok n =>
      simp only [Session.exec, Session.onRead] at hx
      split_ifs at hx
      cases hx
      exact .inl rfl
  | onWritten r =>
    simp only [Session.exec, Option.some.injEq, Prod.mk.injEq] at hx
    obtain ⟨rfl, -⟩ := hx
    exact still (.onWritten s r)

lemma onWritten_mem_ioStep (h : s.ioStep a = some (s', pushed)) {r : Result}
    (hm : .onWritten r ∈ s'.strand) :
    .onWritten r ∈ s.strand ∨ .onWritten r ∈ s.posting ∨
      ∃ i, a = .writeQueue i ∧ s.writes[i]? = some (.completed r) := by
  cases a with
  | stop =>
    simp only [Session.ioStep, Option.some.injEq, Prod.mk.injEq] at h
    obtain ⟨rfl, -⟩ := h
    refine .inl ?_
    unfold Session.stop Session.aboutTo at hm
    split_ifs at hm <;> exact hm
  | send chunk =>
    simp only [Session.ioStep, Option.some.injEq, Prod.mk.injEq] at h
    obtain ⟨rfl, -⟩ := h
    exact .inl hm
  | post i =>
    simp only [Session.ioStep, Session.doPost, Option.map_map, Option.map_eq_some_iff,
      Function.comp, Prod.mk.injEq] at h
    obtain ⟨p, hi, rfl, -⟩ := h
    rcases List.mem_append.mp hm with hm | hm
    · exact .inl hm
    · rw [List.mem_singleton.mp hm]
      exact .inr (.inl (List.mem_of_getElem? hi))
  | strand errors =>
    simp only [Session.ioStep, Session.runStrand] at h
    cases hs : s.strand with
    | nil => simp [hs] at h
    | cons p rest =>
      simp only [hs] at h
      refine .inl (List.mem_cons_of_mem _ ?_)
      rcases strand_exec h with heq | heq <;> rw [heq] at hm
      · exact hm
      · simpa using hm
  | readDone i r' =>
    simp only [Session.ioStep, Option.map_eq_some_iff, Prod.mk.injEq] at h
    obtain ⟨t, h, rfl, -⟩ := h
    refine .inl ?_
    unfold Session.readDone at h
    split at h
    · split_ifs at h
      cases h
      exact hm
    · cases h
      exact hm
    · cases h
  | readQueue i =>
    simp only [Session.ioStep, Option.map_eq_some_iff, Prod.mk.injEq] at h
    obtain ⟨t, h, rfl, -⟩ := h
    refine .inl ?_
    unfold Session.readQueue at h
    split at h <;> cases h
    simpa [Session.post] using hm
  | writeDone i r' =>
    simp only [Session.ioStep, Option.map_eq_some_iff, Prod.mk.injEq] at h
    obtain ⟨t, h, rfl, -⟩ := h
    refine .inl ?_
    unfold Session.writeDone at h
    split at h <;> cases h
    exact hm
  | writeQueue i =>
    simp only [Session.ioStep, Option.map_eq_some_iff, Prod.mk.injEq] at h
    obtain ⟨t, h, rfl, -⟩ := h
    unfold Session.writeQueue at h
    split at h <;> cases h
    rcases List.mem_append.mp hm with hm | hm
    · exact .inl hm
    · rw [List.mem_singleton, Handler.onWritten.injEq] at hm
      subst hm
      exact .inr (.inr ⟨i, rfl, ‹_›⟩)

lemma of_writing_eq_zero (h : writing s = 0) :
    s.writes = [] ∧ ∀ r, .onWritten r ∉ s.strand := by
  unfold writing at h
  refine ⟨List.length_eq_zero_iff.mp (by omega), fun r hr => ?_⟩
  have hpos : 0 < s.strand.countP isWritten := List.countP_pos_iff.mpr ⟨_, hr, rfl⟩
  omega

lemma not_mem_posting (h : s.posting.countP isWritten = 0) (r : Result) :
    .onWritten r ∉ s.posting := by
  intro hr
  have hpos : 0 < s.posting.countP isWritten := List.countP_pos_iff.mpr ⟨_, hr, rfl⟩
  omega

lemma writes_of_getElem? {i : ℕ} {op : WriteOp κ} (h : writing s ≤ 1)
    (hi : s.writes[i]? = some op) :
    s.writes = [op] ∧ i = 0 ∧ writing s = 1 ∧ ∀ r, .onWritten r ∉ s.strand := by
  obtain ⟨hlt, hop⟩ := List.getElem?_eq_some_iff.mp hi
  unfold writing at h ⊢
  obtain ⟨op', hw⟩ := List.length_eq_one_iff.mp (show s.writes.length = 1 by omega)
  have h0 : i = 0 := by omega
  subst h0
  simp only [hw, List.getElem_cons_zero] at hop
  refine ⟨by rw [hw, hop], rfl, by omega, fun r hr => ?_⟩
  have hpos : 0 < s.strand.countP isWritten := List.countP_pos_iff.mpr ⟨_, hr, rfl⟩
  omega

/-! ### Every step beside the main thread -/

variable {bytes : κ → List UInt8} {puts popped : List κ} {aborted : Prop} {progress : ℕ}
  {stream part : List UInt8}

lemma progressOf_of_length_le (h : s'.writes.length ≤ s.writes.length) :
    progressOf s s' progress = progress := by
  rw [progressOf, startedBy_of_length_le h]
  rfl

lemma Outgoing.of_eq {progress' : ℕ} {aborted' : Prop}
    (h : Outgoing bytes s puts aborted progress stream popped part)
    (hq : s'.sendQueue = s.sendQueue)
    (hpending : ∀ c, .pending c ∈ s'.writes → .pending c ∈ s.writes ∧ progress' = progress)
    (hwritten : ∀ n, .completed (.ok n) ∈ s'.writes ∨ .onWritten (.ok n) ∈ s'.strand →
      part = front bytes s)
    (hidle : s'.running = true → ¬aborted' → writing s' = 0 → part = []) :
    Outgoing bytes s' puts aborted' progress' stream popped part := by
  have hfront : front bytes s' = front bytes s := by rw [front, hq, front]
  refine ⟨by rw [hq]; exact h.puts, h.stream, hfront ▸ h.prefix_front, fun c hc => ?_,
    fun n hn => by rw [hfront]; exact hwritten n hn, hidle⟩
  obtain ⟨hc', rfl⟩ := hpending c hc
  rw [hq, hfront]
  exact h.pending c hc'

lemma Outgoing.noWrite (h : Outgoing bytes s puts aborted progress stream popped part)
    (hq : NoWrite s s') (hm : ∀ r, .onWritten r ∈ s'.strand → .onWritten r ∈ s.strand) :
    Outgoing bytes s' puts aborted progress stream popped part := by
  refine h.of_eq hq.sendQueue (fun c hc => ⟨hq.writes ▸ hc, rfl⟩) (fun n hn => ?_)
    fun hr ha hw => h.idle (hq.running hr) ha (hq.writing ▸ hw)
  exact h.written n (hn.imp (fun hw => hq.writes ▸ hw) (hm _))

lemma Outgoing.asyncWrite (hw : writing s = 0) (ho : s.running = true → s.socketOpen = true)
    (hputs : puts = popped ++ s.sendQueue) (hne : s.sendQueue ≠ [])
    (hstream : stream = popped.flatMap bytes) :
    Outgoing bytes s.asyncWrite puts aborted (progressOf s s.asyncWrite progress) stream popped
      [] := by
  obtain ⟨hwrites, hstrand⟩ := of_writing_eq_zero hw
  obtain ⟨chunk, queue, hq⟩ := List.exists_cons_of_ne_nil hne
  rcases asyncWrite_cases ho with ⟨hr, heq⟩ | ⟨hr, heq⟩ <;> rw [heq]
  · exact ⟨hputs, by simpa using hstream, List.nil_prefix, by simp [hwrites],
      by simp [hwrites, hstrand], fun _ _ _ => rfl⟩
  · have hstart : progressOf s { s with writes := s.writes ++ [.pending s.sendQueue.head?] }
        progress = 0 := by simp [progressOf, startedBy, hq, chunkOfOp]
    rw [hstart]
    refine ⟨hputs, by simpa using hstream, List.nil_prefix, ?_, ?_, fun _ _ _ => rfl⟩
    · simp [hwrites]
    · simp [hwrites, hstrand]

lemma Outgoing.pushChunk (h : Outgoing bytes s puts aborted progress stream popped part)
    (hf : ∃ starts, Fifo s puts starts aborted) (chunk : κ) :
    ∃ part', Outgoing bytes (s.pushChunk chunk) (puts ++ [chunk]) aborted
      (progressOf s (s.pushChunk chunk) progress) stream popped part' := by
  obtain ⟨starts, hf⟩ := hf
  by_cases hq : s.sendQueue = []
  · have hw : writing s = 0 := by
      have hone := hf.one
      by_contra hne
      exact hf.front (by omega) hq
    have hpart : part = [] := by simpa [front, hq] using h.prefix_front
    have heq : s.pushChunk chunk = { s with sendQueue := [chunk] }.asyncWrite := by
      simp [Session.pushChunk, hq]
    rw [heq]
    refine ⟨[], Outgoing.asyncWrite (s := { s with sendQueue := [chunk] }) hw hf.socketOpen ?_
      (by simp) (by rw [h.stream, hpart, List.append_nil])⟩
    rw [h.puts, hq, List.append_nil]
  · have heq : s.pushChunk chunk = { s with sendQueue := s.sendQueue ++ [chunk] } := by
      simp [Session.pushChunk, hq]
    have hsame : progressOf s { s with sendQueue := s.sendQueue ++ [chunk] } progress = progress :=
      progressOf_of_length_le (le_refl _)
    rw [heq, hsame]
    have hhead : (s.sendQueue ++ [chunk]).head? = s.sendQueue.head? := by
      cases hc : s.sendQueue with
      | nil => exact absurd hc hq
      | cons c cs => rfl
    have hfront : front bytes { s with sendQueue := s.sendQueue ++ [chunk] } = front bytes s := by
      simp only [front, hhead]
    refine ⟨part, ?_, h.stream, hfront ▸ h.prefix_front, fun c hc => ?_, fun n hn => ?_, h.idle⟩
    · rw [h.puts, List.append_assoc]
    · rw [hfront]
      simp only [hhead]
      exact h.pending c hc
    · rw [hfront]
      exact h.written n hn

/-- A write is reported: the chunk is popped, or the session is stopped, or it is stuck. -/
lemma Outgoing.onWritten {r : Result} {rest : List (Handler κ)}
    (h : Outgoing bytes s puts aborted progress stream popped part)
    (hf : ∃ starts, Fifo s puts starts aborted) (hs : s.strand = .onWritten r :: rest) :
    ∃ popped' part', Outgoing bytes ({ s with strand := rest }.onWritten r) puts
      (aborted ∨ s.running = true ∧ r = .error .operation_aborted)
      (progressOf s ({ s with strand := rest }.onWritten r) progress) stream popped' part' := by
  obtain ⟨starts, hf⟩ := hf
  have hended := hf.ended hs
  obtain ⟨hwrites, hstrand⟩ := of_writing_eq_zero hended.writing
  obtain ⟨-, chunk, queue, hq, -⟩ := hended.order
  simp only at hwrites hstrand hq
  cases r with
  | error e =>
    have hquiet := NoWrite.handleError { s with strand := rest } e
    have hzero : writing ({ s with strand := rest }.handleError e) = 0 :=
      hquiet.writing.trans hended.writing
    obtain ⟨hwrites', hstrand'⟩ := of_writing_eq_zero hzero
    refine ⟨popped, part, h.of_eq hquiet.sendQueue ?_ ?_ fun hr ha _ => ?_⟩
    · simp [Session.onWritten, hwrites']
    · simp [Session.onWritten, hwrites', hstrand']
    · rw [Session.onWritten] at hr
      have hrun : s.running = true := hquiet.running hr
      exact absurd (.inr ⟨hrun, by rw [running_handleError hr]⟩) ha
  | ok n =>
    have hpart : part = bytes chunk := by
      rw [h.written n (.inr (by rw [hs]; exact .head _)), front, hq]
      rfl
    have hstream : stream = (popped ++ [chunk]).flatMap bytes := by
      rw [h.stream, hpart, List.flatMap_append]
      simp
    have hputs : puts = popped ++ [chunk] ++ queue := by
      rw [h.puts, hq, List.append_assoc]
      rfl
    refine ⟨popped ++ [chunk], [], ?_⟩
    cases queue with
    | nil =>
      have heq : { s with strand := rest }.onWritten (.ok n) =
          { s with strand := rest, sendQueue := [] } := by simp [Session.onWritten, hq]
      rw [heq]
      exact ⟨hputs, by simpa using hstream, List.nil_prefix, by simp [hwrites],
        by simp [hwrites, hstrand], fun _ _ _ => rfl⟩
    | cons next queue =>
      have heq : { s with strand := rest }.onWritten (.ok n) =
          { s with strand := rest, sendQueue := next :: queue }.asyncWrite := by
        simp [Session.onWritten, hq]
      rw [heq]
      exact Outgoing.asyncWrite (s := { s with strand := rest, sendQueue := next :: queue })
        hended.writing hended.socketOpen hputs (by simp) hstream

/-- **Every step beside the main thread keeps the stream in order.** -/
theorem Outgoing.ioStep (h : Outgoing bytes s puts aborted progress stream popped part)
    (hf : ∃ starts, Fifo s puts starts aborted) (hs : s.ioStep a = some (s', pushed))
    (hclose : .close ∈ s.strand → s.running = false) (hwr : Written bytes s progress a) :
    ∃ popped' part', Outgoing bytes s' (puts ++ putBy s a) (aborted ∨ Ignores s a)
      (progressOf s s' progress) stream popped' part' := by
  obtain ⟨starts, hfifo⟩ := id hf
  cases writeStep_spec hs with
  | quiet hq hput hr =>
    have hign : ¬Ignores s a := fun hi => by rw [Ignores, hr] at hi; cases hi.2
    rw [hput, List.append_nil, or_iff_left hign, progressOf_of_length_le (by rw [hq.writes])]
    refine ⟨popped, part, h.noWrite hq fun r hm => ?_⟩
    rcases onWritten_mem_ioStep hs hm with hm | hm | ⟨i, rfl, hi⟩
    · exact hm
    · exact absurd hm (not_mem_posting hfifo.posting r)
    · -- the write would have gone from the writes
      have hlen := congrArg List.length hq.writes
      obtain ⟨hlt, -⟩ := List.getElem?_eq_some_iff.mp hi
      simp only [Session.ioStep, Session.writeQueue, hi, Option.map_some, Option.some.injEq,
        Prod.mk.injEq] at hs
      obtain ⟨rfl, -⟩ := hs
      simp only [Session.post, List.length_eraseIdx_of_lt hlt] at hlen
      omega
  | @close errors rest hstrand =>
    have hput : putBy s (.strand errors) = [] := by simp [putBy, hstrand, chunkOf]
    have hquiet := NoWrite.close { s with strand := rest } errors
    have hstill := Still.close { s with strand := rest } errors
    have hstop : s.running = false := hclose (by rw [hstrand]; exact .head _)
    rw [hput, List.append_nil,
      progressOf_of_length_le (by rw [hquiet.writes, List.length_map])]
    refine ⟨popped, part, h.of_eq hquiet.sendQueue (fun c hc => ?_) (fun n hn => ?_)
      fun hr => ?_⟩
    · rw [hquiet.writes] at hc
      obtain ⟨op, -, heq⟩ := List.mem_map.mp hc
      cases op <;> cases heq
    · refine h.written n (hn.imp (fun hn => ?_) fun hn => ?_)
      · rw [hquiet.writes] at hn
        obtain ⟨op, hop, heq⟩ := List.mem_map.mp hn
        cases op <;> cases heq
        exact hop
      · rw [hstrand]
        rcases hstill.strand with ⟨-, heq⟩ | ⟨-, -, heq⟩ <;> rw [heq] at hn
        · exact .tail _ hn
        · exact List.mem_cons_of_mem _ (by simpa using hn)
    · rw [hquiet.running hr] at hstop
      cases hstop
  | @send errors chunk rest hstrand =>
    have hput : putBy s (.strand errors) = [chunk] := by simp [putBy, hstrand, chunkOf]
    have hign : ¬Ignores s (.strand errors) := fun hi => by
      simp [Ignores, reported, hstrand] at hi
    rw [hput, or_iff_left hign]
    have hrest := NoWrite.strand_rest hstrand (s := s) rfl
    obtain ⟨part', h'⟩ := (h.noWrite hrest fun r hm => by rw [hstrand]; exact .tail _ hm).pushChunk
      ⟨starts, hfifo.noWrite hrest⟩ chunk
    exact ⟨popped, part', h'⟩
  | @onWritten errors r rest hstrand =>
    have hput : putBy s (.strand errors) = [] := by simp [putBy, hstrand, chunkOf]
    have hign : Ignores s (.strand errors) ↔
        s.running = true ∧ r = .error .operation_aborted := by simp [Ignores, reported, hstrand]
    rw [hput, List.append_nil, hign]
    exact h.onWritten hf hstrand
  | @writeDone i chunk r hi =>
    have hput : putBy s (.writeDone i r) = [] := rfl
    have hign : ¬Ignores s (.writeDone i r) := fun hi => by cases hi.2
    rw [hput, List.append_nil, or_iff_left hign, progressOf_of_length_le (by rw [List.length_set])]
    obtain ⟨hw, rfl, hone, hno⟩ := writes_of_getElem? hfifo.one hi
    refine ⟨popped, part, h.of_eq rfl (by simp [hw]) (fun n hn => ?_) fun _ _ h0 => ?_⟩
    · simp only [hw, List.set_cons_zero, List.mem_singleton, WriteOp.completed.injEq, hno,
        or_false] at hn
      subst hn
      obtain ⟨hc, hpart⟩ := h.pending chunk (by simp [hw])
      -- the whole chunk was written
      obtain ⟨c, rfl⟩ : ∃ c, chunk = some c := by
        cases chunk with
        | none => exact absurd (by simp [hw]) hfifo.chunk
        | some c => exact ⟨c, rfl⟩
      simp only [Written, hi] at hwr
      rw [hpart, front, ← hc, Option.elim_some, hwr.2, hwr.1, List.take_length]
    · have hsame : writing { s with writes := s.writes.set 0 (.completed r) } = writing s := by
        simp [writing]
      rw [hsame] at h0
      omega
  | @writeQueue i r hi =>
    have hput : putBy s (.writeQueue i : IoAct κ) = [] := rfl
    have hign : ¬Ignores s (.writeQueue i : IoAct κ) := fun hi => by cases hi.2
    obtain ⟨hw, rfl, hone, hno⟩ := writes_of_getElem? hfifo.one hi
    rw [hput, List.append_nil, or_iff_left hign,
      progressOf_of_length_le (by simp [Session.post, hw])]
    refine ⟨popped, part, h.of_eq rfl (by simp [Session.post, hw]) (fun n hn => ?_)
      fun _ _ h0 => ?_⟩
    · have hn' : Handler.onWritten (.ok n) = (.onWritten r : Handler κ) := by
        simpa [Session.post, hw, hno] using hn
      cases hn'
      exact h.written n (.inl (by simp [hw]))
    · simp [writing, Session.post, isWritten, hw] at h0

lemma Outgoing.transfer (h : Outgoing bytes s puts aborted progress stream popped part)
    (hone : writing s ≤ 1) {chunk : κ} (hw : .pending (some chunk) ∈ s.writes) (n : ℕ) :
    Outgoing bytes s puts aborted (progress + n)
      (stream ++ ((bytes chunk).drop progress).take n) popped
      (part ++ ((bytes chunk).drop progress).take n) := by
  obtain ⟨i, hi⟩ := List.mem_iff_getElem?.mp hw
  obtain ⟨hwrites, rfl, hw1, hno⟩ := writes_of_getElem? hone hi
  obtain ⟨hc, hpart⟩ := h.pending _ hw
  have hfront : front bytes s = bytes chunk := by rw [front, ← hc]; rfl
  rw [hfront] at hpart
  have htake : part ++ ((bytes chunk).drop progress).take n =
      (bytes chunk).take (progress + n) := by rw [hpart, ← List.take_add]
  rw [htake]
  refine ⟨h.puts, ?_, ?_, fun c hc' => ?_, fun n hn => ?_, fun _ _ h0 => by omega⟩
  · rw [h.stream, List.append_assoc, htake]
  · rw [hfront]
    exact List.take_prefix _ _
  · exact ⟨(h.pending c hc').1, by rw [hfront]⟩
  · simp [hwrites, hno] at hn

/-- **The stream is a beginning of the chunks**, one after the other. -/
theorem Outgoing.stream_prefix (h : Outgoing bytes s puts aborted progress stream popped part) :
    stream <+: puts.flatMap bytes := by
  rw [h.stream, h.puts, List.flatMap_append]
  refine (List.prefix_append_right_inj _).mpr (h.prefix_front.trans ?_)
  unfold front
  cases s.sendQueue with
  | nil => exact List.nil_prefix
  | cons chunk queue => simp

/-- **When no write is under way, all is written**, as long as the session runs and no write was
aborted. -/
theorem Outgoing.stream_eq (h : Outgoing bytes s puts aborted progress stream popped part)
    (hf : ∃ starts, Fifo s puts starts aborted) (hr : s.running = true) (ha : ¬aborted)
    (hw : writing s = 0) : stream = puts.flatMap bytes := by
  obtain ⟨starts, hf⟩ := hf
  have hq : s.sendQueue = [] := by
    by_contra hne
    exact absurd (hf.busy hr ha hne) (by omega)
  rw [h.stream, h.puts, hq, h.idle hr ha hw, List.append_nil, List.append_nil]

end Io

/-! ### The session with its owner -/

/-- The same condition on a step of the system. -/
def WrittenBy (bytes : κ → List UInt8) (s : Sys κ) (progress : ℕ) : Act κ → Prop
  | .io a => Written bytes s.main.session progress a
  | _ => True

instance (bytes : κ → List UInt8) (s : Sys κ) (progress : ℕ) :
    (a : Act κ) → Decidable (WrittenBy bytes s progress a)
  | .io a => inferInstanceAs (Decidable (Written bytes s.main.session progress a))
  | .start | .main | .elsewhere _ | .sendPost _ | .ownerStop => inferInstanceAs (Decidable True)

/-- A session with what was noted of it, and with the bytes it has written. -/
structure Outbound (bytes : κ → List UInt8) (s : Sys κ) (ns : List (Note κ)) (progress : ℕ)
    (stream : List UInt8) : Prop extends Serial s ns where
  outgoing : ∃ popped part, Outgoing bytes s.main.session (WriteRun.puts ns) (.aborted ∈ ns)
    progress stream popped part

section Sys

variable {build : Build} {pb : Protobuf} {sessionId : ℕ} {owner : Owner} {s s' : Sys κ}
  {a : Act κ} {bytes : κ → List UInt8} {ns : List (Note κ)} {progress : ℕ}
  {stream : List UInt8}

lemma outbound_init (bytes : κ → List UInt8) (progress : ℕ) :
    Outbound bytes (init : Sys κ) [] progress [] where
  toSerial := serial_init
  outgoing := ⟨[], [], rfl, rfl, List.nil_prefix, by simp [init, Session.new],
    by simp [init, Session.new], fun _ _ _ => rfl⟩

lemma onWritten_mem_step (hs : Step build pb sessionId owner s a s') (hio : ∀ b, a ≠ .io b)
    {r : Result} (hm : .onWritten r ∈ s'.main.session.strand) :
    .onWritten r ∈ s.main.session.strand := by
  cases hs with
  | start hp =>
    unfold Session.start at hm
    split_ifs at hm <;> exact hm
  | startPost hp => simpa [Session.post] using hm
  | drain hp hpc =>
    rcases drain_cases build pb sessionId s.main with ⟨h, -⟩ | ⟨-, b, h⟩ | ⟨-, -, h⟩ <;>
      simp only [h] at hm
    · exact hm
    · exact hm
    · simpa [Session.post] using hm
  | sendPost hp => simpa [Session.post] using hm
  | io h => exact absurd rfl (hio _)
  | close | receive | elsewhere | ownerStop => exact hm

/-- **Every step of the system keeps the stream in order.** -/
theorem Outbound.step (h : Outbound bytes s ns progress stream)
    (hs : SessionRun.step build pb sessionId owner s a = some s')
    (hwr : WrittenBy bytes s progress a) :
    Outbound bytes s' (ns ++ notes s a s')
      (progressOf s.main.session s'.main.session progress) stream := by
  refine ⟨serial_step s ns a s' h.toSerial hs, ?_⟩
  obtain ⟨popped, part, hout⟩ := h.outgoing
  have hspec := step_spec hs
  cases a with
  | start =>
    cases hspec with
    | start hp =>
      obtain ⟨hnew, rfl⟩ := h.created hp
      have hprog : progressOf s.main.session s.main.session.start.1 progress = progress :=
        progressOf_of_length_le (by simp [hnew, Session.start, Session.new])
      rw [notes_eq_nil (by simp) (by simp [hnew, Session.start, Session.new]), hprog]
      have hpart : part = [] := by
        simpa [front, hnew, Session.new] using hout.prefix_front
      refine ⟨popped, part, hout.of_eq ?_ ?_ ?_ fun _ _ _ => hpart⟩ <;>
        simp [hnew, Session.start, Session.new]
  | io b =>
    cases hspec with
    | @io b session pushed hio =>
      have hstep := hout.ioStep ⟨_, h.fifo⟩ hio (running_of_close_mem h.toLife) hwr
      rw [puts_append, List.mem_append, notes, puts_step, aborted_mem_step]
      exact hstep
  | main | elsewhere | sendPost | ownerStop =>
    have hquiet := step_noWrite hspec (by simp) (by simp)
    rw [notes_eq_nil (by simp) hquiet.writes, List.append_nil,
      progressOf_of_length_le (by rw [hquiet.writes])]
    exact ⟨popped, part, hout.noWrite hquiet fun r hm => onWritten_mem_step hspec (by simp) hm⟩

/-- The socket takes the next bytes of the write. -/
theorem Outbound.transfer (h : Outbound bytes s ns progress stream) {chunk : κ}
    (hw : .pending (some chunk) ∈ s.main.session.writes) (n : ℕ) :
    Outbound bytes s ns (progress + n) (stream ++ ((bytes chunk).drop progress).take n) := by
  obtain ⟨popped, part, hout⟩ := h.outgoing
  exact ⟨h.toSerial, popped, _, hout.transfer h.fifo.one hw n⟩

/-- What is written does not depend on bytes that no chunk on the queue had. -/
theorem Outbound.congr {bytes' : κ → List UInt8} (h : Outbound bytes s ns progress stream)
    (heq : ∀ chunk ∈ WriteRun.puts ns, bytes' chunk = bytes chunk) :
    Outbound bytes' s ns progress stream := by
  obtain ⟨popped, part, hout⟩ := h.outgoing
  have hputs := hout.puts
  have hfront : front bytes' s.main.session = front bytes s.main.session := by
    unfold front
    cases hq : s.main.session.sendQueue with
    | nil => rfl
    | cons chunk queue => exact heq chunk (by simp [hputs, hq])
  have hpopped : popped.flatMap bytes' = popped.flatMap bytes :=
    List.flatMap_congr fun chunk hc => heq chunk (by simp [hputs, hc])
  refine ⟨h.toSerial, popped, part, hputs, by rw [hpopped]; exact hout.stream, ?_, ?_, ?_,
    hout.idle⟩ <;> rw [hfront]
  · exact hout.prefix_front
  · exact hout.pending
  · exact hout.written

theorem Outbound.stream_prefix (h : Outbound bytes s ns progress stream) :
    stream <+: (WriteRun.puts ns).flatMap bytes := by
  obtain ⟨popped, part, hout⟩ := h.outgoing
  exact hout.stream_prefix

theorem Outbound.stream_eq (h : Outbound bytes s ns progress stream)
    (hr : s.main.session.running = true) (ha : .aborted ∉ ns)
    (hw : writing s.main.session = 0) : stream = (WriteRun.puts ns).flatMap bytes := by
  obtain ⟨popped, part, hout⟩ := h.outgoing
  exact hout.stream_eq ⟨_, h.fifo⟩ hr ha hw

end Sys

end ByteborneWorld.OutboundRun
