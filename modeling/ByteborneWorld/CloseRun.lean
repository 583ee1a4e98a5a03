import ByteborneWorld.SessionRun

/-!
The events of one session in their order: whether the close event is the last one depends on
what waits on the strand when the session is closed.
-/

namespace ByteborneWorld.CloseRun

open ByteborneWorld.ChatProto ByteborneWorld.PacketModel ByteborneWorld.RecvModel
open ByteborneWorld.SessionModel ByteborneWorld.Lts ByteborneWorld.SessionRun

variable {κ : Type*}

/-- No receive event comes after a close event. -/
def CloseLast (events : List SessionEvent) : Prop :=
  ∀ before after, events = before ++ .close :: after → .receive ∉ after

/-- No read that completed well waits for its handler to run. -/
structure NoneWaiting (s : Session κ) : Prop where
  reads : ∀ n, .completed (.ok n) ∉ s.reads
  strand : ∀ n, .onRead (.ok n) ∉ s.strand

/-- When the session is closed, no read that completed well waits. -/
def ClosesClean (s : Sys κ) : Act κ → Prop
  | .io (.strand _) =>
    s.main.session.strand.head? = some .close → NoneWaiting s.main.session
  | _ => True

/-! ### The order of the events -/

lemma closeLast_push {events : List SessionEvent} {e : SessionEvent} (h : CloseLast events)
    (he : e = .receive → .close ∉ events) : CloseLast (events ++ [e]) := by
  intro before after heq hmem
  rcases List.eq_nil_or_concat after with rfl | ⟨after', x, rfl⟩
  · cases hmem
  · rw [List.concat_eq_append, ← List.cons_append, ← List.append_assoc] at heq
    obtain ⟨hes, hx⟩ := List.append_inj' heq rfl
    obtain rfl : e = x := by simpa using hx
    rw [List.concat_eq_append, List.mem_append, List.mem_singleton] at hmem
    rcases hmem with hmem | hmem
    · exact h before after' hes hmem
    · exact he hmem.symm (by simp [hes])

lemma pushed_cases {s s' : Session κ} {a : IoAct κ} {pushed : List SessionEvent}
    (h : IoStep s a s' pushed) : pushed = [] ∨ ∃ e, pushed = [e] := by
  cases h <;> simp

/-! ### After the session is closed -/

/-- No read is under way that could still end well. -/
structure Silent (s : Session κ) : Prop extends NoneWaiting s where
  pending : ∀ offset size, .pending offset size ∉ s.reads

section Io

variable {s s' : Session κ} {a : IoAct κ} {pushed : List SessionEvent}

lemma silent_iff : Silent s ↔ EveryRead (fun op => ∃ e, op = .completed (.error e)) s := by
  constructor
  · refine fun h => ⟨fun op hop => ?_, fun n hn => absurd hn (h.strand n)⟩
    rcases op with ⟨offset, size⟩ | e | n
    · exact absurd hop (h.pending offset size)
    · exact ⟨e, rfl⟩
    · exact absurd hop (h.reads n)
  · refine fun h => ⟨⟨fun n hn => ?_, fun n hn => ?_⟩, fun offset size hn => ?_⟩
    · obtain ⟨e, he⟩ := h.reads _ hn
      cases he
    · obtain ⟨e, he⟩ := h.strand n hn
      cases he
    · obtain ⟨e, he⟩ := h.reads _ hn
      cases he

lemma NoneWaiting.close {rest : List (Handler κ)} (h : NoneWaiting s)
    (hs : s.strand = .close :: rest) (errors : List ErrorCode) :
    Silent ({ s with strand := rest }.close errors) := by
  refine silent_iff.mpr (EveryRead.close (fun op hop => ?_) (fun n hn => ?_) errors)
  · rcases op with ⟨offset, size⟩ | e | n
    · exact ⟨_, rfl⟩
    · exact ⟨e, rfl⟩
    · exact absurd hop (h.reads n)
  · exact absurd (by rw [hs]; exact .tail _ hn) (h.strand n)

/-- **A stopped session stays silent**, and reports no read any more. -/
lemma Silent.ioStep (h : Silent s) (hr : s.running = false) (hs : IoStep s a s' pushed) :
    Silent s' ∧ .receive ∉ pushed := by
  refine ⟨silent_iff.mpr ((silent_iff.mp h).ioStep hs (fun e => ⟨e, rfl⟩) (by simp [hr])
    fun i offset size bs hi _ => absurd (List.mem_of_getElem? hi) (h.pending _ _)), ?_⟩
  cases hs with
  | onRead hs hn => exact absurd (by rw [hs]; exact .head _) (h.strand _)
  | quiet | handler | asyncRead | onReadError | close | readOk | readError | readQueue => simp

end Io

/-! ### The system -/

section Sys

variable {build : Build} {pb : Protobuf} {sessionId : ℕ} {owner : Owner}

/-- What holds as long as the session is closed clean. -/
structure Ordered (s : Sys κ) : Prop where
  silent : .close ∈ s.history → Silent s.main.session
  last : CloseLast s.history
  pc : s.main.pc ≠ .nullSession

lemma ordered_init : Ordered (init : Sys κ) where
  silent h := by cases h
  last before after h := by simp [Sys.history, init] at h
  pc := by simp [init]

lemma drain_pc_ne {d : Drain κ} (h : d.pc ≠ .nullSession) :
    (d.step build pb sessionId).pc ≠ .nullSession := by
  cases hpc : d.pc <;> simp only [Drain.step, hpc]
  case getFrontPacket => cases d.session.getFrontPacket <;> simp
  case push view => cases push build pb d.queue sessionId view <;> simp
  case popFrontPacket => cases d.session.popFrontPacket build <;> simp
  case receive => split_ifs <;> simp
  case nullSession => exact absurd hpc h
  all_goals simp

lemma ordered_step (s : Sys κ) (a : Act κ) (s' : Sys κ)
    (h : (Inv s ∧ Life s) ∧ Ordered s) (hclean : ClosesClean s a)
    (hs : step build pb sessionId owner s a = some s') : (Inv s' ∧ Life s') ∧ Ordered s' := by
  obtain ⟨hlife, hsilent, hlast, hpc⟩ := h
  refine ⟨life_step s a s' hlife hs, ?_⟩
  obtain ⟨hinv, hlife⟩ := hlife
  cases step_spec hs with
  | start hp =>
    exact ⟨fun hc => absurd hp (hlife.stopped hc).1, hlast, hpc⟩
  | startPost hp =>
    refine ⟨fun hc => ?_, hlast, hpc⟩
    exact silent_iff.mpr (silent_iff.mp (hsilent hc)).post_asyncRead
  | @close rest hp hpc' he =>
    have hhist : s.history = (s.handled ++ [.close]) ++ rest := by
      rw [Sys.history, he, List.append_assoc]; rfl
    unfold Sys.history at hsilent hlast hhist
    rw [hhist] at hsilent hlast
    exact ⟨hsilent, hlast, hpc⟩
  | @receive rest pc hp hpc' he hpc'' =>
    have hhist : s.history = (s.handled ++ [.receive]) ++ rest := by
      rw [Sys.history, he, List.append_assoc]; rfl
    have hne : pc ≠ .nullSession := by
      rcases hpc'' with rfl | rfl
      · simp
      · cases hh : s.held with
        | true => simp [findSession]
        | false =>
          -- the session was removed on its close event, and this event comes after it
          obtain ⟨before, after, heq⟩ := List.append_of_mem (hlife.held (by simp [hp]) hh)
          exact absurd (by simp) (hlast before (after ++ .receive :: rest)
            (by rw [Sys.history, he, heq]; simp))
    unfold Sys.history at hsilent hlast hhist
    rw [hhist] at hsilent hlast
    exact ⟨hsilent, hlast, hne⟩
  | drain hp hpc' =>
    exact ⟨fun hc => silent_iff.mpr (silent_iff.mp (hsilent hc)).drain, hlast, drain_pc_ne hpc⟩
  | elsewhere hpc' => exact ⟨hsilent, hlast, hpc⟩
  | sendPost =>
    refine ⟨fun hc => ?_, hlast, hpc⟩
    exact silent_iff.mpr ((silent_iff.mp (hsilent hc)).quiet (.postSend _ _))
  | @io a session pushed h =>
    have hio := ioStep_spec hinv.captured.posting h
    have hassoc : ({ s with main.session := session, events := s.events ++ pushed } :
        Sys κ).history = s.history ++ pushed := by simp [Sys.history]
    by_cases hc : .close ∈ s.history
    · obtain ⟨hsilent', hno⟩ := (hsilent hc).ioStep (hlife.stopped hc).2 hio
      refine ⟨fun _ => hsilent', ?_, hpc⟩
      rw [hassoc]
      rcases pushed_cases hio with rfl | ⟨e, rfl⟩
      · simpa using hlast
      · exact closeLast_push hlast fun he => absurd (by simp [he]) hno
    · refine ⟨fun hc' => ?_, ?_, hpc⟩
      · rw [hassoc, List.mem_append, or_iff_right hc] at hc'
        cases hio with
        | close hs' => exact (hclean (by simp [hs'])).close hs' _
        | quiet | handler | asyncRead | onReadError | onRead | readOk | readError | readQueue =>
          simp at hc'
      · rw [hassoc]
        rcases pushed_cases hio with rfl | ⟨e, rfl⟩
        · simpa using hlast
        · exact closeLast_push hlast fun _ => hc
  | ownerStop => exact ⟨hsilent, hlast, hpc⟩

/-- **When close is the last event of a session.** In every run in which no read that completed
well waits for its handler when the session is closed, no receive event comes after the close
event, and the main thread finds the session of every receive event. -/
theorem close_is_last {acts : List (Act κ)} {s : Sys κ}
    (h : run (step build pb sessionId owner) init acts = some s)
    (hclean : Along (step build pb sessionId owner) ClosesClean init acts) :
    CloseLast s.history ∧ s.main.pc ≠ .nullSession := by
  have hord := run_invariant_of_along ordered_step ⟨⟨inv_init, life_init⟩, ordered_init⟩ hclean h
  exact ⟨hord.2.last, hord.2.pc⟩

end Sys

/-- A read completes, the session is stopped, and only then the handler of the read is queued,
behind the one that closes the session. -/
def stopBeforeQueue : List (Act Unit) :=
  [.start, .main, .io (.strand []), .io (.readDone 0 (.ok [0])), .io .stop, .io (.post 0),
    .io (.readQueue 0), .io (.strand []), .io (.strand []), .main, .main]

/-- **The receive event comes after the close event**, and the main thread finds no session. -/
theorem receive_after_close : ∃ s,
    run (step .Release proto3 1 .WorldServer) init stopBeforeQueue = some s ∧
      ¬CloseLast s.history ∧ s.main.pc = .nullSession :=
  ⟨_, rfl, fun h => h [] [.receive] rfl (.head _), rfl⟩

lemma noneWaiting_iff (s : Session κ) : NoneWaiting s ↔
    (∀ op ∈ s.reads, ¬op matches .completed (.ok _)) ∧
      ∀ h ∈ s.strand, ¬h matches .onRead (.ok _) := by
  constructor
  · refine fun h => ⟨fun op hop hm => ?_, fun p hp hm => ?_⟩
    · split at hm
      · exact h.reads _ hop
      · cases hm
    · split at hm
      · exact h.strand _ hp
      · cases hm
  · exact fun h => ⟨fun _ hn => h.1 _ hn rfl, fun _ hn => h.2 _ hn rfl⟩

instance (s : Session κ) : Decidable (NoneWaiting s) := decidable_of_iff' _ (noneWaiting_iff s)

instance [DecidableEq κ] (s : Sys κ) : (a : Act κ) → Decidable (ClosesClean s a)
  | .io (.strand _) => inferInstanceAs (Decidable (_ → NoneWaiting _))
  | .io .stop | .io (.send _) | .io (.post _) | .io (.readDone _ _) | .io (.readQueue _)
  | .io (.writeDone _ _) | .io (.writeQueue _) | .start | .main | .elsewhere _ | .sendPost _
  | .ownerStop => inferInstanceAs (Decidable True)

/-- A read completes and is handled, and the session is stopped while the next one is
outstanding. -/
def stopAfterRead : List (Act Unit) :=
  [.start, .main, .io (.strand []), .io (.readDone 0 (.ok [0])), .io (.readQueue 0),
    .io (.strand []), .main, .main, .main, .main, .io (.strand []), .io .stop, .io (.post 0),
    .io (.strand []), .io (.readQueue 0), .io (.strand []), .main]

/-- There the close event is the last one. -/
theorem close_is_last_stopAfterRead : ∃ s,
    run (step .Release proto3 1 .WorldServer) init stopAfterRead = some s ∧
      s.history = [.receive, .close] ∧ CloseLast s.history ∧ s.main.pc ≠ .nullSession := by
  have hrun : (run (step .Release proto3 1 .WorldServer) init stopAfterRead).map Sys.history =
      some [.receive, .close] := by decide +kernel
  obtain ⟨s, hs, hhistory⟩ := Option.map_eq_some_iff.mp hrun
  exact ⟨s, hs, hhistory, close_is_last hs (by decide +kernel)⟩

end ByteborneWorld.CloseRun
