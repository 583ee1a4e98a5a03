import Mathlib.Data.List.Perm.Basic
import ByteborneWorld.Lts
import ByteborneWorld.SessionModel

/-!
One session with its owner: the main thread, which starts the session once and handles its
events, the I/O threads, and any thread that stops the session or the owner.

The receive buffer has no lock. What protects it is a token: the read that is under way, in
one of its stages, from the handler that starts it to the event that reports it.
-/

namespace ByteborneWorld.SessionRun

open ByteborneWorld.ChatProto ByteborneWorld.PacketModel ByteborneWorld.RecvModel
open ByteborneWorld.SessionModel ByteborneWorld.Lts

/-- The programs that own sessions. They differ in what they do when a session is gone. -/
inductive Owner | WorldServer | DummyClient | GameClient
  deriving DecidableEq

/-- `starting` is between the two halves of `start`. -/
inductive Phase | created | starting | started
  deriving DecidableEq

/-- `events` is the part of the event queue that concerns this session, `handled` the events
that were taken from it before. -/
structure Sys (κ : Type*) where
  main : Drain κ
  phase : Phase
  held : Bool
  ownerRunning : Bool
  events : List SessionEvent
  handled : List SessionEvent

inductive Act (κ : Type*)
  /-- the owner takes the session in and starts it -/
  | start
  /-- the main thread makes its next step -/
  | main
  /-- the main thread works on something else, which may change the message queue -/
  | elsewhere (queue : MessageQueue)
  /-- the main thread posts the handler of a `send` whose flag it read before; only a session
  that was started has ever had it set -/
  | sendPost (chunk : κ)
  | io (a : IoAct κ)
  /-- any thread stops the owner -/
  | ownerStop

variable {κ : Type*}

def init : Sys κ := ⟨⟨.outside, .new, []⟩, .created, false, true, [], []⟩

def Sys.history (s : Sys κ) : List SessionEvent := s.handled ++ s.events

/-- `findSession`, and what the owner does without a session. -/
def findSession (owner : Owner) (held : Bool) : Pc :=
  if held then .getFrontPacket
  else match owner with
    | .WorldServer | .DummyClient => .nullSession
    | .GameClient => .outside

/-- The main thread takes the next event of the session. -/
def handleEvent (owner : Owner) (s : Sys κ) : Option (Sys κ) :=
  match s.events with
  | [] => none
  | .close :: rest =>
    some { s with held := false, events := rest, handled := s.handled ++ [.close] }
  | .receive :: rest =>
    let s := { s with events := rest, handled := s.handled ++ [SessionEvent.receive] }
    some (if s.ownerRunning then { s with main.pc := findSession owner s.held } else s)

/-- The next step of the main thread: the other half of `start`, an event, or the next call
inside a handler. -/
def mainStep (build : Build) (pb : Protobuf) (sessionId : ℕ) (owner : Owner) (s : Sys κ) :
    Option (Sys κ) :=
  match s.phase with
  | .created => none
  | .starting =>
    some { s with phase := .started, main.session := s.main.session.post .asyncRead }
  | .started =>
    if s.main.pc = .outside then handleEvent owner s
    else some { s with main := s.main.step build pb sessionId }

def step (build : Build) (pb : Protobuf) (sessionId : ℕ) (owner : Owner) (s : Sys κ) :
    Act κ → Option (Sys κ)
  | .start =>
    if s.phase = .created then
      some { s with phase := .starting, held := true, main.session := s.main.session.start.1 }
    else none
  | .main => mainStep build pb sessionId owner s
  | .elsewhere queue =>
    if s.main.pc = .outside then some { s with main.queue := queue } else none
  | .sendPost chunk =>
    if s.phase = .created then none
    else some { s with main.session := s.main.session.post (.send chunk) }
  | .io a => (s.main.session.ioStep a).map fun (session, pushed) =>
      { s with main.session := session, events := s.events ++ pushed }
  | .ownerStop => some { s with ownerRunning := false }

/-! ### The token -/

/-- A handler of the read that is under way. -/
def isRead : Handler κ → Bool
  | .asyncRead | .onRead _ => true
  | _ => false

/-- How many reads are under way in a session: handlers that start one or report one, and
outstanding operations. -/
def sessionTokens (s : Session κ) : ℕ :=
  s.strand.countP isRead + s.posting.countP isRead + s.reads.length

def isClose : Handler κ → Bool
  | .close => true
  | _ => false

/-- The life of a session: it runs, or it is about to be closed. -/
def sessionLife (s : Session κ) : ℕ :=
  s.running.toNat + s.strand.countP isClose + s.posting.countP isClose

/-- With the `start` that is not done yet, the events that are not handled yet, and the main
thread inside the handler of one. -/
def tokens (s : Sys κ) : ℕ :=
  sessionTokens s.main.session + s.events.count .receive +
    (if s.main.pc.Inside then 1 else 0) + (if s.phase = .starting then 1 else 0)

/-- What was captured when a read was started is still so, and what it reports fits. -/
def Fits (b : ReceiveBuffer) : ReadOp → Prop
  | .pending offset size => offset = b.writeOffset ∧ size = b.getUnwrittenSize
  | .completed (.ok n) => n ≤ b.getUnwrittenSize
  | .completed (.error _) => True

lemma asyncRead_cases (s : Session κ) : s.running = false ∧ s.asyncRead = s ∨
    s.running = true ∧ ∃ op, s.asyncRead = { s with reads := s.reads ++ [op] } ∧
      Fits s.receiveBuffer op ∧ ∀ n, op ≠ .completed (.ok n) := by
  unfold Session.asyncRead
  cases s.running with
  | false => exact .inl ⟨rfl, rfl⟩
  | true =>
    refine .inr ⟨rfl, _, rfl, ?_, ?_⟩ <;> split_ifs <;> simp [Fits]

/-! ### What a step beside the main thread can do to the reads -/

/-- Nothing happens to the reads, or to the life of the session but that it is stopped. -/
structure Quiet (s s' : Session κ) : Prop where
  receiveBuffer : s'.receiveBuffer = s.receiveBuffer
  reads : s'.reads = s.reads
  strand : s'.strand.filter isRead = s.strand.filter isRead
  posting : s'.posting.filter isRead = s.posting.filter isRead
  running : s'.running = true → s.running = true
  life : sessionLife s' = sessionLife s

namespace Quiet

variable {s s' s'' : Session κ}

lemma refl (s : Session κ) : Quiet s s := ⟨rfl, rfl, rfl, rfl, id, rfl⟩

lemma trans (h : Quiet s s') (h' : Quiet s' s'') : Quiet s s'' :=
  ⟨h'.1.trans h.1, h'.2.trans h.2, h'.3.trans h.3, h'.4.trans h.4, h.5 ∘ h'.5, h'.6.trans h.6⟩

lemma postSend (s : Session κ) (chunk : κ) : Quiet s (s.post (.send chunk)) :=
  ⟨rfl, rfl, by simp [Session.post, isRead], rfl, id,
    by simp [sessionLife, Session.post, isClose]⟩

end Quiet

def chunkOf : Handler κ → Option κ
  | .send chunk => some chunk
  | _ => none

def sends (s : Session κ) : List κ := s.strand.filterMap chunkOf

/-- The chunk that a step beside the main thread puts on the send queue. -/
def putBy (s : Session κ) : IoAct κ → List κ
  | .strand _ => (s.strand.take 1).filterMap chunkOf
  | _ => []

/-- What a handler with no part in reading does: it may stop the session, and no more. -/
structure Still (s s' : Session κ) : Prop where
  receiveBuffer : s'.receiveBuffer = s.receiveBuffer
  reads : s'.reads = s.reads
  posting : s'.posting = s.posting
  strand : s'.running = s.running ∧ s'.strand = s.strand ∨
    s.running = true ∧ s'.running = false ∧ s'.strand = s.strand ++ [.close]

namespace Still

variable {s s' s'' : Session κ}

lemma quiet (h : Still s s') : Quiet s s' := by
  rcases h.strand with ⟨hr, hs⟩ | ⟨hr, hr', hs⟩
  · exact ⟨h.1, h.2, by rw [hs], by rw [h.3], fun h => hr ▸ h,
      by simp only [sessionLife, hr, hs, h.3]⟩
  · refine ⟨h.1, h.2, by simp [hs, isRead], by rw [h.3], fun _ => hr, ?_⟩
    simp only [sessionLife, hr, hr', hs, h.3, List.countP_append, List.countP_singleton, isClose,
      Bool.toNat_false, Bool.toNat_true, if_true]
    omega

lemma sends (h : Still s s') : sends s' = sends s := by
  rcases h.strand with ⟨-, hs⟩ | ⟨-, -, hs⟩ <;> simp [SessionRun.sends, hs, chunkOf]

lemma refl (s : Session κ) : Still s s := ⟨rfl, rfl, rfl, .inl ⟨rfl, rfl⟩⟩

lemma trans (h : Still s s') (h' : Still s' s'') : Still s s'' := by
  refine ⟨h'.1.trans h.1, h'.2.trans h.2, h'.3.trans h.3, ?_⟩
  rcases h.strand with ⟨hr, hs⟩ | ⟨hr, hr₁, hs⟩ <;>
    rcases h'.strand with ⟨hr', hs'⟩ | ⟨hr', hr₁', hs'⟩
  · exact .inl ⟨hr'.trans hr, hs'.trans hs⟩
  · exact .inr ⟨hr ▸ hr', hr₁', by rw [hs', hs]⟩
  · exact .inr ⟨hr, hr'.trans hr₁, by rw [hs', hs]⟩
  · rw [hr₁] at hr'
    cases hr'

lemma stopHere (s : Session κ) : Still s s.stopHere := by
  cases h : s.running with
  | false => simpa [Session.stopHere, Session.stop, h] using refl s
  | true =>
    simp only [Session.stopHere, Session.stop, h, if_true]
    exact ⟨rfl, rfl, rfl, .inr ⟨h, rfl, rfl⟩⟩

lemma handleError (s : Session κ) (e : ErrorCode) : Still s (s.handleError e) := by
  cases e
  case operation_aborted => exact refl s
  all_goals exact stopHere s

lemma handleErrors (s : Session κ) (errors : List ErrorCode) :
    Still s (errors.foldl Session.handleError s) := by
  induction errors generalizing s with
  | nil => exact refl s
  | cons e errors ih => exact (handleError s e).trans (ih _)

lemma asyncWrite (s : Session κ) : Still s s.asyncWrite := by
  unfold Session.asyncWrite
  split_ifs <;> exact ⟨rfl, rfl, rfl, .inl ⟨rfl, rfl⟩⟩

lemma pushChunk (s : Session κ) (chunk : κ) : Still s (s.pushChunk chunk) := by
  have hq : Still s { s with sendQueue := s.sendQueue ++ [chunk] } :=
    ⟨rfl, rfl, rfl, .inl ⟨rfl, rfl⟩⟩
  simp only [Session.pushChunk]
  split_ifs
  · exact hq
  · exact hq.trans (asyncWrite _)

lemma onWritten (s : Session κ) (r : Result) : Still s (s.onWritten r) := by
  cases r with
  | error e => exact handleError s e
  | ok n =>
    have hq : Still s { s with sendQueue := s.sendQueue.tail } :=
      ⟨rfl, rfl, rfl, .inl ⟨rfl, rfl⟩⟩
    simp only [Session.onWritten]
    split_ifs
    · exact hq
    · exact hq.trans (asyncWrite _)

lemma close (s : Session κ) (errors : List ErrorCode) :
    Still { s with reads := s.reads.map ReadOp.cancel } (s.close errors) :=
  have h := handleErrors { s with
    reads := s.reads.map ReadOp.cancel
    writes := s.writes.map WriteOp.cancel } errors
  ⟨h.1, h.2, h.3, h.4⟩

end Still

/-- No `send` is on its way from a thread that has read the flag to the strand. -/
def NoSends (s : Session κ) : Prop := ∀ chunk, .send chunk ∉ s.posting

/-- What a step beside the main thread does to the reads, with the events it pushes. -/
inductive IoStep (s : Session κ) : IoAct κ → Session κ → List SessionEvent → Prop
  | quiet {a s'} (hq : Quiet s s') (ha : ∀ errors, a ≠ .strand errors)
      (hsends : (∀ chunk, a ≠ .send chunk) → NoSends s → sends s' = sends s ∧ NoSends s') :
      IoStep s a s' []
  /-- a handler with no part in reading runs -/
  | handler {errors h rest s'} (hs : s.strand = h :: rest) (hh : isRead h = false)
      (hh' : isClose h = false) (hq : Still { s with strand := rest } s') :
      IoStep s (.strand errors) s' []
  | asyncRead {errors rest} (hs : s.strand = .asyncRead :: rest) :
      IoStep s (.strand errors) { s with strand := rest }.asyncRead []
  | onReadError {errors rest e s'} (hs : s.strand = .onRead (.error e) :: rest)
      (hq : Still { s with strand := rest } s') : IoStep s (.strand errors) s' []
  | onRead {errors rest n} (hs : s.strand = .onRead (.ok n) :: rest)
      (hn : n ≤ s.receiveBuffer.getUnwrittenSize) :
      IoStep s (.strand errors)
        { s with strand := rest, receiveBuffer := s.receiveBuffer.onWritten n hn } [.receive]
  | close {errors rest} (hs : s.strand = .close :: rest) :
      IoStep s (.strand errors) ({ s with strand := rest }.close errors) [.close]
  | readOk {i offset size bs} (hi : s.reads[i]? = some (.pending offset size))
      (hbs : bs.length ≤ size) :
      IoStep s (.readDone i (.ok bs)) { s with
        receiveBuffer := s.receiveBuffer.store offset bs
        reads := s.reads.set i (.completed (.ok bs.length)) } []
  | readError {i offset size e} (hi : s.reads[i]? = some (.pending offset size)) :
      IoStep s (.readDone i (.error e))
        { s with reads := s.reads.set i (.completed (.error e)) } []
  | readQueue {i r} (hi : s.reads[i]? = some (.completed r)) :
      IoStep s (.readQueue i) ({ s with reads := s.reads.eraseIdx i }.post (.onRead r)) []

/-- **The cases of a step beside the main thread.** No thread but the main thread posts
handlers of reads. -/
theorem ioStep_spec {s s' : Session κ} {a : IoAct κ} {pushed : List SessionEvent}
    (hp : s.posting.filter isRead = []) (h : s.ioStep a = some (s', pushed)) :
    IoStep s a s' pushed := by
  cases a with
  | stop =>
    simp only [Session.ioStep, Option.some.injEq, Prod.mk.injEq] at h
    obtain ⟨rfl, rfl⟩ := h
    refine .quiet ?_ (by simp) fun _ hno => ?_ <;> unfold Session.stop Session.aboutTo <;>
      split_ifs with hr
    · exact ⟨rfl, rfl, rfl, by simp [isRead], fun _ => hr,
        by simp [sessionLife, isClose, hr]; omega⟩
    · exact ⟨rfl, rfl, rfl, by simp, id, by simp [sessionLife]⟩
    · exact ⟨rfl, by simpa [NoSends] using hno⟩
    · exact ⟨rfl, by simpa [NoSends] using hno⟩
  | send chunk =>
    simp only [Session.ioStep, Option.some.injEq, Prod.mk.injEq] at h
    obtain ⟨rfl, rfl⟩ := h
    refine .quiet ?_ (by simp) fun ha => absurd rfl (ha chunk)
    unfold Session.send Session.aboutTo
    split_ifs
    · exact ⟨rfl, rfl, rfl, by simp [isRead], id, by simp [sessionLife, isClose]⟩
    · exact ⟨rfl, rfl, rfl, by simp, id, by simp [sessionLife]⟩
  | post i =>
    simp only [Session.ioStep, Session.doPost, Option.map_map, Option.map_eq_some_iff,
      Function.comp, Prod.mk.injEq] at h
    obtain ⟨p, hi, rfl, rfl⟩ := h
    have hmem := List.mem_of_getElem? hi
    have hnot : ∀ q ∈ s.posting, isRead q = false := by simpa using hp
    refine .quiet ⟨rfl, rfl, by simp [Session.post, hnot p hmem], ?_, id, ?_⟩ (by simp)
      fun _ hno => ?_
    · rw [hp]
      simpa [Session.post] using fun q hq => hnot q (List.mem_of_mem_eraseIdx hq)
    · obtain ⟨hlt, rfl⟩ := List.getElem?_eq_some_iff.mp hi
      have hperm := (List.getElem_cons_eraseIdx_perm hlt).countP_eq isClose
      simp only [sessionLife, Session.post, List.countP_append, List.countP_cons,
        List.countP_nil] at hperm ⊢
      omega
    · have hp : chunkOf p = none := by
        cases p with
        | send chunk => exact absurd hmem (hno chunk)
        | asyncRead | close | onRead | onWritten => rfl
      exact ⟨by simp [sends, Session.post, hp],
        fun chunk h => hno chunk (List.mem_of_mem_eraseIdx h)⟩
  | strand errors =>
    simp only [Session.ioStep, Session.runStrand] at h
    cases hs : s.strand with
    | nil => simp [hs] at h
    | cons p rest =>
      simp only [hs] at h
      cases p with
      | asyncRead =>
        simp only [Session.exec, Option.some.injEq, Prod.mk.injEq] at h
        obtain ⟨rfl, rfl⟩ := h
        exact .asyncRead hs
      | send chunk =>
        simp only [Session.exec, Option.some.injEq, Prod.mk.injEq] at h
        obtain ⟨rfl, rfl⟩ := h
        exact .handler hs rfl rfl (.pushChunk _ _)
      | close =>
        simp only [Session.exec, Option.some.injEq, Prod.mk.injEq] at h
        obtain ⟨rfl, rfl⟩ := h
        exact .close hs
      | onRead r =>
        cases r with
        | error e =>
          simp only [Session.exec, Session.onRead, Option.some.injEq, Prod.mk.injEq] at h
          obtain ⟨rfl, rfl⟩ := h
          exact .onReadError hs (.handleError _ _)
        | ok n =>
          simp only [Session.exec, Session.onRead] at h
          split_ifs at h with hn
          simp only [Option.some.injEq, Prod.mk.injEq] at h
          obtain ⟨rfl, rfl⟩ := h
          exact .onRead hs hn
      | onWritten r =>
        simp only [Session.exec, Option.some.injEq, Prod.mk.injEq] at h
        obtain ⟨rfl, rfl⟩ := h
        exact .handler hs rfl rfl (.onWritten _ _)
  | readDone i r =>
    simp only [Session.ioStep, Option.map_eq_some_iff, Prod.mk.injEq] at h
    obtain ⟨t, h, rfl, rfl⟩ := h
    unfold Session.readDone at h
    split at h
    · split_ifs at h with hbs
      cases h
      exact .readOk ‹_› hbs.1
    · cases h
      exact .readError ‹_›
    · cases h
  | readQueue i =>
    simp only [Session.ioStep, Option.map_eq_some_iff, Prod.mk.injEq] at h
    obtain ⟨t, h, rfl, rfl⟩ := h
    unfold Session.readQueue at h
    split at h
    · cases h
      exact .readQueue ‹_›
    · cases h
  | writeDone i r =>
    simp only [Session.ioStep, Option.map_eq_some_iff, Prod.mk.injEq] at h
    obtain ⟨t, h, rfl, rfl⟩ := h
    unfold Session.writeDone at h
    split at h <;> cases h
    exact .quiet ⟨rfl, rfl, rfl, rfl, id, rfl⟩ (by simp) fun _ hno => ⟨rfl, hno⟩
  | writeQueue i =>
    simp only [Session.ioStep, Option.map_eq_some_iff, Prod.mk.injEq] at h
    obtain ⟨t, h, rfl, rfl⟩ := h
    unfold Session.writeQueue at h
    split at h <;> cases h
    exact .quiet ⟨rfl, rfl, by simp [Session.post, isRead], rfl, id,
      by simp [sessionLife, Session.post, isClose]⟩ (by simp)
      fun _ hno => ⟨by simp [sends, Session.post, chunkOf], hno⟩

/-! ### What is put on the send queue -/

section Sends

variable {s s' : Session κ} {a : IoAct κ} {pushed : List SessionEvent}

lemma sends_cons {h : Handler κ} {rest : List (Handler κ)} (hs : s.strand = h :: rest)
    (errors : List ErrorCode) :
    sends s = putBy s (.strand errors) ++ sends { s with strand := rest } := by
  rw [sends, putBy, hs, sends, ← List.filterMap_append]
  rfl

/-- The handlers run in order: a chunk that a step puts on the send queue was the first of
those on the strand. -/
lemma IoStep.sends (h : IoStep s a s' pushed) (ha : ∀ chunk, a ≠ .send chunk)
    (hno : NoSends s) : SessionRun.sends s = putBy s a ++ SessionRun.sends s' ∧ NoSends s' := by
  cases h with
  | quiet hq hstrand hsends =>
    have hput : putBy s a = [] := by
      cases a with
      | strand errors => exact absurd rfl (hstrand errors)
      | stop | send | post | readDone | readQueue | writeDone | writeQueue => rfl
    obtain ⟨heq, hno'⟩ := hsends ha hno
    exact ⟨by rw [hput, heq]; rfl, hno'⟩
  | @handler errors _ _ _ hs hh hh' hq =>
    exact ⟨by rw [sends_cons hs errors, hq.sends], fun chunk hc => hno chunk (hq.posting ▸ hc)⟩
  | @onReadError errors _ _ _ hs hq =>
    exact ⟨by rw [sends_cons hs errors, hq.sends], fun chunk hc => hno chunk (hq.posting ▸ hc)⟩
  | @close errors rest hs =>
    have hq := Still.close { s with strand := rest } errors
    exact ⟨by rw [sends_cons hs errors, hq.sends]; rfl,
      fun chunk hc => hno chunk (hq.posting ▸ hc)⟩
  | @asyncRead errors rest hs =>
    rcases asyncRead_cases { s with strand := rest } with ⟨-, heq⟩ | ⟨-, op, heq, -⟩ <;>
      rw [heq] <;> exact ⟨sends_cons hs errors, hno⟩
  | @onRead errors _ _ hs => exact ⟨sends_cons hs errors, hno⟩
  | readOk | readError => exact ⟨rfl, hno⟩
  | readQueue => exact ⟨by simp [SessionRun.sends, putBy, Session.post, chunkOf], hno⟩

lemma Still.running (h : Still s s') (hr : s'.running = true) : s.running = true := by
  rcases h.strand with ⟨heq, -⟩ | ⟨heq, -, -⟩
  · exact heq ▸ hr
  · exact heq

lemma IoStep.running (h : IoStep s a s' pushed) (hr : s'.running = true) : s.running = true := by
  cases h with
  | quiet hq => exact hq.running hr
  | handler hs hh hh' hq => exact hq.running hr
  | onReadError hs hq => exact hq.running hr
  | @close errors rest hs => exact (Still.close { s with strand := rest } errors).running hr
  | @asyncRead errors rest hs =>
    rcases asyncRead_cases { s with strand := rest } with ⟨-, heq⟩ | ⟨-, op, heq, -⟩ <;>
      rw [heq] at hr <;> exact hr
  | onRead | readOk | readError | readQueue => exact hr

lemma sendQueue_handleErrors (s : Session κ) (errors : List ErrorCode) :
    (errors.foldl Session.handleError s).sendQueue = s.sendQueue := by
  have hstop (s : Session κ) : s.stopHere.sendQueue = s.sendQueue := by
    unfold Session.stopHere Session.stop
    split_ifs <;> rfl
  induction errors generalizing s with
  | nil => rfl
  | cons e errors ih =>
    rw [List.foldl_cons, ih]
    cases e <;> first | rfl | exact hstop s

lemma sendQueue_handleError (s : Session κ) (e : ErrorCode) :
    (s.handleError e).sendQueue = s.sendQueue := sendQueue_handleErrors s [e]

lemma sendQueue_asyncWrite (s : Session κ) : s.asyncWrite.sendQueue = s.sendQueue := by
  unfold Session.asyncWrite
  split_ifs <;> rfl

lemma sendQueue_exec {errors : List ErrorCode} {h : Handler κ}
    (hx : s.exec errors h = some (s', pushed)) :
    s'.sendQueue = s.sendQueue ++ (chunkOf h).toList ∨
      chunkOf h = none ∧ s'.sendQueue = s.sendQueue.tail := by
  cases h with
  | asyncRead =>
    simp only [Session.exec, Option.some.injEq, Prod.mk.injEq] at hx
    obtain ⟨rfl, -⟩ := hx
    refine .inl ?_
    rcases asyncRead_cases s with ⟨-, heq⟩ | ⟨-, op, heq, -⟩ <;> rw [heq] <;> simp [chunkOf]
  | send chunk =>
    simp only [Session.exec, Option.some.injEq, Prod.mk.injEq] at hx
    obtain ⟨rfl, -⟩ := hx
    refine .inl ?_
    simp only [Session.pushChunk]
    split_ifs
    · rfl
    · exact sendQueue_asyncWrite _
  | close =>
    simp only [Session.exec, Option.some.injEq, Prod.mk.injEq] at hx
    obtain ⟨rfl, -⟩ := hx
    exact .inl (by simp [Session.close, sendQueue_handleErrors, chunkOf])
  | onRead r =>
    cases r with
    | error e =>
      simp only [Session.exec, Session.onRead, Option.some.injEq, Prod.mk.injEq] at hx
      obtain ⟨rfl, -⟩ := hx
      exact .inl (by simp [sendQueue_handleError, chunkOf])
    | ok n =>
      simp only [Session.exec, Session.onRead] at hx
      split_ifs at hx
      cases hx
      exact .inl (by simp [chunkOf])
  | onWritten r =>
    simp only [Session.exec, Option.some.injEq, Prod.mk.injEq] at hx
    obtain ⟨rfl, -⟩ := hx
    cases r with
    | error e => exact .inl (by simp [Session.onWritten, sendQueue_handleError, chunkOf])
    | ok n =>
      refine .inr ⟨rfl, ?_⟩
      simp only [Session.onWritten]
      split_ifs
      · rfl
      · exact sendQueue_asyncWrite _

/-- **The send queue is a queue**: `putBy` says what a step puts at its end. -/
theorem sendQueue_ioStep (h : s.ioStep a = some (s', pushed)) :
    s'.sendQueue = s.sendQueue ++ putBy s a ∨
      putBy s a = [] ∧ s'.sendQueue = s.sendQueue.tail := by
  cases a with
  | strand errors =>
    simp only [Session.ioStep, Session.runStrand] at h
    cases hs : s.strand with
    | nil => simp [hs] at h
    | cons p rest =>
      simp only [hs] at h
      have hput : putBy s (.strand errors) = (chunkOf p).toList := by
        simp only [putBy, hs, List.take_succ_cons, List.take_zero]
        cases hp : chunkOf p <;> simp [hp]
      rw [hput]
      exact (sendQueue_exec h).imp_right (And.imp_left fun hp => by simp [hp])
  | stop =>
    simp only [Session.ioStep, Option.some.injEq, Prod.mk.injEq] at h
    obtain ⟨rfl, -⟩ := h
    refine .inl ?_
    unfold Session.stop Session.aboutTo
    split_ifs <;> simp [putBy]
  | send chunk =>
    simp only [Session.ioStep, Option.some.injEq, Prod.mk.injEq] at h
    obtain ⟨rfl, -⟩ := h
    exact .inl (by simp [Session.aboutTo, putBy])
  | post i =>
    simp only [Session.ioStep, Session.doPost, Option.map_map, Option.map_eq_some_iff] at h
    obtain ⟨p, -, h⟩ := h
    cases h
    exact .inl (by simp [Session.post, putBy])
  | readDone i r =>
    simp only [Session.ioStep, Session.readDone, Option.map_eq_some_iff] at h
    obtain ⟨t, h, heq⟩ := h
    cases heq
    split at h
    · split_ifs at h
      cases h
      exact .inl (by simp [putBy])
    · cases h
      exact .inl (by simp [putBy])
    · cases h
  | readQueue i | writeDone i r | writeQueue i =>
    simp only [Session.ioStep, Session.readQueue, Session.writeDone, Session.writeQueue,
      Option.map_eq_some_iff] at h
    obtain ⟨t, h, heq⟩ := h
    cases heq
    split at h <;> cases h
    exact .inl (by simp [Session.post, putBy])

end Sends

/-! ### At most one token -/

section Io

variable {s s' : Session κ} {a : IoAct κ} {pushed : List SessionEvent}

lemma sessionTokens_eq (s : Session κ) : sessionTokens s =
    (s.strand.filter isRead).length + (s.posting.filter isRead).length + s.reads.length := by
  simp [sessionTokens, List.countP_eq_length_filter]

lemma Quiet.sessionTokens (h : Quiet s s') : sessionTokens s' = sessionTokens s := by
  rw [sessionTokens_eq, sessionTokens_eq, h.strand, h.posting, h.reads]

lemma sessionTokens_strand {h : Handler κ} {rest : List (Handler κ)} (hs : s.strand = h :: rest) :
    sessionTokens s = sessionTokens { s with strand := rest } + if isRead h then 1 else 0 := by
  simp only [sessionTokens, hs, List.countP_cons]
  omega

/-- A step beside the main thread passes a token on, to an event at last, or drops it. -/
theorem IoStep.tokens (h : IoStep s a s' pushed) :
    sessionTokens s' + pushed.count .receive ≤ sessionTokens s := by
  cases h with
  | quiet hq => rw [hq.sessionTokens]; simp
  | handler hs hh hh' hq => rw [hq.quiet.sessionTokens, sessionTokens_strand hs]; simp
  | @asyncRead _ rest hs =>
    rw [sessionTokens_strand hs]
    rcases asyncRead_cases { s with strand := rest } with ⟨-, heq⟩ | ⟨-, op, heq, -⟩ <;>
      rw [heq] <;> simp only [SessionRun.sessionTokens, isRead, List.length_append,
        List.length_singleton, List.count_nil, if_true] <;> omega
  | onReadError hs hq => rw [hq.quiet.sessionTokens, sessionTokens_strand hs]; simp
  | onRead hs hn => rw [sessionTokens_strand hs]; simp [SessionRun.sessionTokens, isRead]
  | close hs =>
    rw [(Still.close _ _).quiet.sessionTokens, sessionTokens_strand hs]
    simp [SessionRun.sessionTokens]
  | readOk => simp [SessionRun.sessionTokens]
  | readError => simp [SessionRun.sessionTokens]
  | readQueue hi =>
    have hlt := (List.getElem?_eq_some_iff.mp hi).1
    simp only [SessionRun.sessionTokens, Session.post, List.countP_append, List.countP_singleton,
      isRead, List.length_eraseIdx_of_lt hlt, List.count_nil]
    simp only [if_true]
    omega

lemma sessionLife_strand {h : Handler κ} {rest : List (Handler κ)} (hs : s.strand = h :: rest) :
    sessionLife s = sessionLife { s with strand := rest } + if isClose h then 1 else 0 := by
  simp only [sessionLife, hs, List.countP_cons]
  omega

/-- **A session is closed once**: the step that ends its life pushes the event. -/
theorem IoStep.life (h : IoStep s a s' pushed) :
    sessionLife s' + pushed.count .close = sessionLife s := by
  cases h with
  | quiet hq => rw [hq.life]; rfl
  | handler hs hh hh' hq => rw [hq.quiet.life, sessionLife_strand hs]; simp [hh']
  | @asyncRead _ rest hs =>
    rw [sessionLife_strand hs]
    rcases asyncRead_cases { s with strand := rest } with ⟨-, heq⟩ | ⟨-, op, heq, -⟩ <;>
      rw [heq] <;> rfl
  | onReadError hs hq => rw [hq.quiet.life, sessionLife_strand hs]; rfl
  | onRead hs hn => rw [sessionLife_strand hs]; rfl
  | close hs => rw [(Still.close _ _).quiet.life, sessionLife_strand hs]; rfl
  | readOk => rfl
  | readError => rfl
  | readQueue => simp [sessionLife, Session.post, isClose]

/-- All reads of a session fit its buffer. -/
structure Captured (s : Session κ) : Prop where
  reads : ∀ op ∈ s.reads, Fits s.receiveBuffer op
  reported : ∀ n, .onRead (.ok n) ∈ s.strand → n ≤ s.receiveBuffer.getUnwrittenSize
  posting : s.posting.filter isRead = []

lemma Quiet.mem_strand (hq : Quiet s s') {h : Handler κ} (hh : isRead h = true) :
    h ∈ s'.strand ↔ h ∈ s.strand := by
  have := congrArg (h ∈ ·) hq.strand
  simpa [List.mem_filter, hh] using this

lemma Quiet.captured (hq : Quiet s s') (h : Captured s) : Captured s' where
  reads := by rw [hq.reads, hq.receiveBuffer]; exact h.reads
  reported n hn := by
    rw [hq.receiveBuffer]
    exact h.reported n ((hq.mem_strand rfl).mp hn)
  posting := by rw [hq.posting, h.posting]

lemma Captured.strand (h : Captured s) {p : Handler κ} {rest : List (Handler κ)}
    (hs : s.strand = p :: rest) : Captured { s with strand := rest } :=
  ⟨h.reads, fun n hn => h.reported n (by rw [hs]; exact .tail _ hn), h.posting⟩

/-- A session without a token may change its buffer. -/
lemma captured_of_tokens_eq_zero (h : sessionTokens s = 0) : Captured s := by
  rw [sessionTokens_eq] at h
  have hreads : s.reads = [] := List.length_eq_zero_iff.mp (by omega)
  have hstrand : s.strand.filter isRead = [] := List.length_eq_zero_iff.mp (by omega)
  refine ⟨by simp [hreads], fun n hn => ?_, List.length_eq_zero_iff.mp (by omega)⟩
  exact absurd (List.filter_eq_nil_iff.mp hstrand _ hn) (by simp [isRead])

lemma fits_cancel {b : ReceiveBuffer} {op : ReadOp} (h : Fits b op) : Fits b op.cancel := by
  cases op with
  | pending => trivial
  | completed r => exact h

/-- **What was captured stays so**, as there is one token at most. -/
theorem IoStep.captured (h : IoStep s a s' pushed) (ht : sessionTokens s ≤ 1)
    (hc : Captured s) : Captured s' := by
  cases h with
  | quiet hq => exact hq.captured hc
  | handler hs hh hh' hq => exact hq.quiet.captured (hc.strand hs)
  | @asyncRead _ rest hs =>
    have hc' := hc.strand hs
    rcases asyncRead_cases { s with strand := rest } with ⟨-, heq⟩ | ⟨-, op, heq, hop, -⟩ <;>
      rw [heq]
    · exact hc'
    · refine ⟨fun op' h => ?_, hc'.reported, hc'.posting⟩
      rcases List.mem_append.mp h with h | h
      · exact hc'.reads op' h
      · rw [List.mem_singleton.mp h]; exact hop
  | onReadError hs hq => exact hq.quiet.captured (hc.strand hs)
  | onRead hs hn =>
    refine captured_of_tokens_eq_zero ?_
    rw [sessionTokens_strand hs] at ht
    simpa [SessionRun.sessionTokens, isRead] using ht
  | close hs =>
    have hc' := hc.strand hs
    refine (Still.close _ _).quiet.captured ⟨fun op h => ?_, hc'.reported, hc'.posting⟩
    obtain ⟨op', hop, rfl⟩ := List.mem_map.mp h
    exact fits_cancel (hc'.reads op' hop)
  | readOk hi hbs =>
    refine ⟨fun op h => ?_, hc.reported, hc.posting⟩
    rcases List.mem_or_eq_of_mem_set h with h | rfl
    · exact hc.reads op h
    · exact le_of_le_of_eq hbs (hc.reads _ (List.mem_of_getElem? hi)).2
  | readError hi =>
    refine ⟨fun op h => ?_, hc.reported, hc.posting⟩
    rcases List.mem_or_eq_of_mem_set h with h | rfl
    · exact hc.reads op h
    · trivial
  | readQueue hi =>
    refine ⟨fun op h => hc.reads op (List.mem_of_mem_eraseIdx h), fun n hn => ?_, hc.posting⟩
    rcases List.mem_append.mp hn with hn | hn
    · exact hc.reported n hn
    · rw [List.mem_singleton, Handler.onRead.injEq] at hn
      subst hn
      exact hc.reads _ (List.mem_of_getElem? hi)

/-- The offsets and the bytes below the write pointer are as before. -/
def Unmoved (b b' : ReceiveBuffer) : Prop :=
  b'.readOffset = b.readOffset ∧ b'.writeOffset = b.writeOffset ∧
    ∀ i < b.writeOffset, b'.buffer i = b.buffer i

lemma Unmoved.of_eq {b b' : ReceiveBuffer} (h : b' = b) : Unmoved b b' := by
  subst h
  exact ⟨rfl, rfl, fun _ _ => rfl⟩

/-- Beside the main thread, nothing moves in the buffer while a read is outstanding. -/
theorem IoStep.unmoved (h : IoStep s a s' pushed) (ht : sessionTokens s ≤ 1) (hc : Captured s)
    (hr : s.reads ≠ []) : Unmoved s.receiveBuffer s'.receiveBuffer := by
  cases h with
  | quiet hq => exact .of_eq hq.receiveBuffer
  | handler hs hh hh' hq => exact .of_eq hq.receiveBuffer
  | @asyncRead _ rest hs =>
    rcases asyncRead_cases { s with strand := rest } with ⟨-, heq⟩ | ⟨-, op, heq, -⟩ <;>
      rw [heq] <;> exact .of_eq rfl
  | onReadError hs hq => exact .of_eq hq.receiveBuffer
  | onRead hs hn =>
    have hpos := List.length_pos_iff.mpr hr
    rw [sessionTokens_strand hs] at ht
    simp only [SessionRun.sessionTokens, isRead, if_true] at ht
    omega
  | close hs => exact .of_eq (Still.close _ _).quiet.receiveBuffer
  | readOk hi hbs =>
    obtain ⟨rfl, -⟩ := hc.reads _ (List.mem_of_getElem? hi)
    exact ⟨rfl, rfl, fun i h => by simp [ReceiveBuffer.store, Memory.write, not_le.mpr h]⟩
  | readError hi => exact .of_eq rfl
  | readQueue hi => exact .of_eq rfl

/-! ### Conditions on the reads -/

/-- The reads that no handler has seen yet meet a condition. -/
structure EveryRead (Q : ReadOp → Prop) (s : Session κ) : Prop where
  reads : ∀ op ∈ s.reads, Q op
  strand : ∀ n, .onRead (.ok n) ∈ s.strand → Q (.completed (.ok n))

namespace EveryRead

variable {Q : ReadOp → Prop}

lemma quiet (h : EveryRead Q s) (hq : Quiet s s') : EveryRead Q s' :=
  ⟨by rw [hq.reads]; exact h.reads, fun n hn => h.strand n ((hq.mem_strand rfl).mp hn)⟩

lemma strand_rest {p : Handler κ} {rest : List (Handler κ)} (h : EveryRead Q s)
    (hs : s.strand = p :: rest) : EveryRead Q { s with strand := rest } :=
  ⟨h.reads, fun n hn => h.strand n (by rw [hs]; exact .tail _ hn)⟩

lemma post_asyncRead (h : EveryRead Q s) : EveryRead Q (s.post .asyncRead) :=
  ⟨h.reads, fun n hn => h.strand n (by simpa [Session.post] using hn)⟩

lemma close (hreads : ∀ op ∈ s.reads, Q op.cancel)
    (hstrand : ∀ n, .onRead (.ok n) ∈ s.strand → Q (.completed (.ok n)))
    (errors : List ErrorCode) : EveryRead Q (s.close errors) := by
  have hcancel : EveryRead Q { s with reads := s.reads.map ReadOp.cancel } := by
    refine ⟨fun op hop => ?_, hstrand⟩
    obtain ⟨op', hop', rfl⟩ := List.mem_map.mp hop
    exact hreads op' hop'
  exact hcancel.quiet (Still.close s errors).quiet

/-- **A step beside the main thread keeps the condition**, if errors meet it and so do the reads
that are started or complete well. -/
theorem ioStep (h : EveryRead Q s) (hs : IoStep s a s' pushed)
    (herror : ∀ e, Q (.completed (.error e)))
    (hnew : s.running = true → ∀ op, (∀ n, op ≠ .completed (.ok n)) → Q op)
    (hdone : ∀ i offset size bs, s.reads[i]? = some (.pending offset size) →
      a = .readDone i (.ok bs) → Q (.completed (.ok bs.length))) : EveryRead Q s' := by
  have hset (i : ℕ) (op : ReadOp) (hop : Q op) : ∀ op' ∈ s.reads.set i op, Q op' := by
    intro op' hop'
    rcases List.mem_or_eq_of_mem_set hop' with hop' | rfl
    · exact h.reads op' hop'
    · exact hop
  cases hs with
  | quiet hq => exact h.quiet hq
  | handler hs hh hh' hq => exact (h.strand_rest hs).quiet hq.quiet
  | @asyncRead _ rest hs =>
    have h' := h.strand_rest hs
    rcases asyncRead_cases { s with strand := rest } with ⟨-, heq⟩ | ⟨hr, op, heq, -, hop⟩ <;>
      rw [heq]
    · exact h'
    · refine ⟨fun op' hop' => ?_, h'.strand⟩
      rcases List.mem_append.mp hop' with hop' | hop'
      · exact h'.reads op' hop'
      · rw [List.mem_singleton.mp hop']
        exact hnew hr op hop
  | onReadError hs hq => exact (h.strand_rest hs).quiet hq.quiet
  | onRead hs hn => exact ⟨h.reads, (h.strand_rest hs).strand⟩
  | close hs =>
    refine close (fun op hop => ?_) (h.strand_rest hs).strand _
    cases op with
    | pending => exact herror _
    | completed r => exact h.reads _ hop
  | readOk hi hbs => exact ⟨hset _ _ (hdone _ _ _ _ hi rfl), h.strand⟩
  | readError hi => exact ⟨hset _ _ (herror _), h.strand⟩
  | readQueue hi =>
    refine ⟨fun op hop => h.reads op (List.mem_of_mem_eraseIdx hop), fun n hn => ?_⟩
    rcases List.mem_append.mp hn with hn | hn
    · exact h.strand n hn
    · rw [List.mem_singleton, Handler.onRead.injEq] at hn
      subst hn
      exact h.reads _ (List.mem_of_getElem? hi)

end EveryRead

end Io

/-! ### The main thread and the token -/

section Main

variable {build : Build} {pb : Protobuf} {sessionId : ℕ} {owner : Owner}

lemma popFrontPacket_frame {s s' : Session κ} (h : s.popFrontPacket build = some s') :
    ∃ b, s' = { s with receiveBuffer := b } := by
  unfold Session.popFrontPacket at h
  split_ifs at h <;> cases h <;> exact ⟨_, rfl⟩

variable (build pb sessionId) in
/-- **The cases of a step inside a handler**: the session stays as it is, a packet is popped,
or a handler is posted. -/
lemma drain_cases (d : Drain κ) :
    ((d.step build pb sessionId).session = d.session ∧
      ((d.step build pb sessionId).pc.Inside → d.pc.Inside)) ∨
    (d.pc.Inside ∧ ∃ b,
      (d.step build pb sessionId).session = { d.session with receiveBuffer := b }) ∨
    (d.pc = .post ∧ (d.step build pb sessionId).pc = .outside ∧
      (d.step build pb sessionId).session = d.session.post .asyncRead) := by
  cases hpc : d.pc with
  | getFrontPacket =>
    refine .inl ⟨?_, fun _ => trivial⟩
    simp only [Drain.step, hpc]
    cases d.session.getFrontPacket <;> rfl
  | push view =>
    refine .inl ⟨?_, fun _ => trivial⟩
    simp only [Drain.step, hpc]
    cases PacketModel.push build pb d.queue sessionId view <;> rfl
  | popFrontPacket =>
    cases hpop : d.session.popFrontPacket build with
    | none => exact .inl ⟨by simp [Drain.step, hpc, hpop], fun _ => trivial⟩
    | some s' =>
      obtain ⟨b, rfl⟩ := popFrontPacket_frame hpop
      exact .inr (.inl ⟨trivial, b, by simp [Drain.step, hpc, hpop]⟩)
  | receive => exact .inl ⟨by simp [Drain.step, hpc], fun _ => trivial⟩
  | post => exact .inr (.inr ⟨rfl, by simp [Drain.step, hpc], by simp [Drain.step, hpc]⟩)
  | outside =>
    exact .inl ⟨by simp [Drain.step, hpc], fun h => by simp [Drain.step, hpc, Pc.Inside] at h⟩
  | fault | nullSession => exact .inl ⟨by simp [Drain.step, hpc], fun _ => trivial⟩

lemma EveryRead.drain {Q : ReadOp → Prop} {d : Drain κ} (h : EveryRead Q d.session) :
    EveryRead Q (d.step build pb sessionId).session := by
  rcases drain_cases build pb sessionId d with
    ⟨hs, -⟩ | ⟨-, b, hs⟩ | ⟨-, -, hs⟩ <;> rw [hs]
  · exact h
  · exact ⟨h.reads, h.strand⟩
  · exact h.post_asyncRead

lemma sessionTokens_post_asyncRead (s : Session κ) :
    sessionTokens (s.post .asyncRead) = sessionTokens s + 1 := by
  simp only [sessionTokens, Session.post, List.countP_append, List.countP_singleton, isRead,
    if_true]
  omega

lemma captured_post_asyncRead {s : Session κ} (h : Captured s) : Captured (s.post .asyncRead) :=
  ⟨h.reads, fun n hn => h.reported n (by simpa [Session.post] using hn), h.posting⟩

def drainTokens (d : Drain κ) : ℕ := sessionTokens d.session + if d.pc.Inside then 1 else 0

variable (build pb sessionId) in
lemma drain_tokens (d : Drain κ) : drainTokens (d.step build pb sessionId) ≤ drainTokens d := by
  unfold drainTokens
  rcases drain_cases build pb sessionId d with
    ⟨hs, hpc⟩ | ⟨hpc, b, hs⟩ | ⟨hpc, hpc', hs⟩
  · rw [hs]
    split_ifs with h h'
    · exact le_refl _
    · exact absurd (hpc h) h'
    · omega
    · exact le_refl _
  · rw [hs, if_pos hpc, show sessionTokens { d.session with receiveBuffer := b } =
      sessionTokens d.session from rfl]
    split_ifs <;> omega
  · rw [hs, hpc, hpc', sessionTokens_post_asyncRead]
    simp [Pc.Inside]

/-- Where the session has no other token, what the main thread does to the buffer does not
matter. -/
lemma drain_captured {d : Drain κ} (ht : drainTokens d ≤ 1) (hc : Captured d.session) :
    Captured (d.step build pb sessionId).session := by
  rcases drain_cases build pb sessionId d with
    ⟨hs, -⟩ | ⟨hpc, b, hs⟩ | ⟨-, -, hs⟩ <;> rw [hs]
  · exact hc
  · refine captured_of_tokens_eq_zero ?_
    rw [drainTokens, if_pos hpc] at ht
    exact Nat.le_zero.mp (Nat.le_of_succ_le_succ ht)
  · exact captured_post_asyncRead hc

/-! ### The system -/

/-- What a step of the system does. -/
inductive Step (build : Build) (pb : Protobuf) (sessionId : ℕ) (owner : Owner) (s : Sys κ) :
    Act κ → Sys κ → Prop
  | start (hp : s.phase = .created) : Step build pb sessionId owner s .start
      { s with phase := .starting, held := true, main.session := s.main.session.start.1 }
  | startPost (hp : s.phase = .starting) : Step build pb sessionId owner s .main
      { s with phase := .started, main.session := s.main.session.post .asyncRead }
  | close {rest} (hp : s.phase = .started) (hpc : s.main.pc = .outside)
      (he : s.events = .close :: rest) : Step build pb sessionId owner s .main
      { s with held := false, events := rest, handled := s.handled ++ [SessionEvent.close] }
  | receive {rest pc} (hp : s.phase = .started) (hpc : s.main.pc = .outside)
      (he : s.events = .receive :: rest) (hpc' : pc = .outside ∨ pc = findSession owner s.held) :
      Step build pb sessionId owner s .main
      { s with
        main.pc := pc
        events := rest
        handled := s.handled ++ [SessionEvent.receive] }
  | drain (hp : s.phase = .started) (hpc : s.main.pc ≠ .outside) :
      Step build pb sessionId owner s .main { s with main := s.main.step build pb sessionId }
  | elsewhere {queue} (hpc : s.main.pc = .outside) :
      Step build pb sessionId owner s (.elsewhere queue) { s with main.queue := queue }
  | sendPost {chunk} (hp : s.phase ≠ .created) : Step build pb sessionId owner s (.sendPost chunk)
      { s with main.session := s.main.session.post (.send chunk) }
  | io {a session pushed} (h : s.main.session.ioStep a = some (session, pushed)) :
      Step build pb sessionId owner s (.io a)
      { s with main.session := session, events := s.events ++ pushed }
  | ownerStop : Step build pb sessionId owner s .ownerStop { s with ownerRunning := false }

/-- **The cases of a step of the system.** -/
theorem step_spec {s s' : Sys κ} {a : Act κ} (h : step build pb sessionId owner s a = some s') :
    Step build pb sessionId owner s a s' := by
  cases a with
  | start =>
    simp only [step] at h
    split_ifs at h with hp
    cases h
    exact .start hp
  | main =>
    simp only [step, mainStep] at h
    split at h
    · cases h
    · cases h
      exact .startPost ‹_›
    · split_ifs at h with hpc
      · simp only [handleEvent] at h
        split at h
        · cases h
        · cases h
          exact .close ‹_› hpc ‹_›
        · have hmain : s.main = { s.main with pc := .outside } := by rw [← hpc]
          split_ifs at h <;> cases h
          · exact .receive ‹_› hpc ‹_› (.inr rfl)
          · rw [hmain]
            exact .receive ‹_› hpc ‹_› (.inl rfl)
      · cases h
        exact .drain ‹_› hpc
  | elsewhere queue =>
    simp only [step] at h
    split_ifs at h with hpc
    cases h
    exact .elsewhere hpc
  | sendPost chunk =>
    simp only [step] at h
    split_ifs at h with hp
    cases h
    exact .sendPost hp
  | io a =>
    simp only [step, Option.map_eq_some_iff, Prod.exists] at h
    obtain ⟨session, pushed, h, rfl⟩ := h
    exact .io h
  | ownerStop =>
    cases h
    exact .ownerStop

/-- With the token that `start` is going to make. -/
structure Inv (s : Sys κ) : Prop where
  tokens : tokens s + (if s.phase = .created then 1 else 0) ≤ 1
  captured : Captured s.main.session

lemma inv_init : Inv (init : Sys κ) where
  tokens := by simp [SessionRun.tokens, sessionTokens, init, Session.new, Pc.Inside]
  captured := captured_of_tokens_eq_zero rfl

lemma tokens_eq (s : Sys κ) : tokens s = drainTokens s.main + s.events.count .receive +
    if s.phase = .starting then 1 else 0 := by
  simp only [tokens, drainTokens]
  omega

lemma sessionTokens_start (s : Session κ) : sessionTokens s.start.1 = sessionTokens s := by
  unfold Session.start
  split_ifs <;> rfl

lemma captured_start {s : Session κ} (h : Captured s) : Captured s.start.1 := by
  unfold Session.start
  split_ifs
  · exact h
  · exact ⟨h.reads, h.reported, h.posting⟩

lemma inv_step (s : Sys κ) (a : Act κ) (s' : Sys κ) (h : Inv s)
    (hs : step build pb sessionId owner s a = some s') : Inv s' := by
  obtain ⟨ht, hc⟩ := h
  rw [tokens_eq] at ht
  cases step_spec hs with
  | start hp =>
    refine ⟨?_, captured_start hc⟩
    rw [tokens_eq]
    simp only [hp, drainTokens, sessionTokens_start, reduceCtorEq, if_false, if_true] at ht ⊢
    omega
  | startPost hp =>
    refine ⟨?_, captured_post_asyncRead hc⟩
    rw [tokens_eq]
    simp only [hp, drainTokens, sessionTokens_post_asyncRead, reduceCtorEq, if_false,
      if_true] at ht ⊢
    omega
  | close hp hpc he =>
    refine ⟨?_, hc⟩
    rw [tokens_eq]
    simp only [he, List.count_cons, drainTokens] at ht ⊢
    omega
  | @receive rest pc hp hpc he hpc' =>
    refine ⟨?_, hc⟩
    rw [tokens_eq]
    have hin : (if pc.Inside then 1 else 0) ≤ 1 := by split_ifs <;> omega
    simp only [he, List.count_cons_self, drainTokens] at ht ⊢
    omega
  | drain hp hpc =>
    have hle := drain_tokens build pb sessionId s.main
    refine ⟨?_, drain_captured (by omega) hc⟩
    rw [tokens_eq]
    simp only [] at ht ⊢
    omega
  | elsewhere hpc => exact ⟨by rw [tokens_eq]; exact ht, hc⟩
  | @sendPost chunk =>
    have hq := Quiet.postSend s.main.session chunk
    refine ⟨?_, hq.captured hc⟩
    rw [tokens_eq, drainTokens, hq.sessionTokens]
    exact ht
  | @io a session pushed h =>
    have hio := ioStep_spec hc.posting h
    have hle := hio.tokens
    simp only [drainTokens] at ht
    refine ⟨?_, hio.captured (by omega) hc⟩
    rw [tokens_eq]
    simp only [drainTokens, List.count_append]
    omega
  | ownerStop => exact ⟨by rw [tokens_eq]; exact ht, hc⟩

/-! ### The life of a session -/

/-- The session is not started yet, or it runs, or its end is under way, or it is closed. The
owner lets go of it on its close event. -/
structure Life (s : Sys κ) : Prop where
  count : sessionLife s.main.session + s.history.count .close +
    (if s.phase = .created then 1 else 0) = 1
  held : s.phase ≠ .created → s.held = false → .close ∈ s.handled

lemma life_init : Life (init : Sys κ) := ⟨rfl, fun h => absurd rfl h⟩

lemma drain_life (d : Drain κ) :
    sessionLife (d.step build pb sessionId).session = sessionLife d.session := by
  rcases drain_cases build pb sessionId d with
    ⟨hs, -⟩ | ⟨-, b, hs⟩ | ⟨-, -, hs⟩ <;> rw [hs]
  · rfl
  · simp [sessionLife, Session.post, isClose]

lemma life_start {s : Session κ} (h : s.running = false) :
    sessionLife s.start.1 = sessionLife s + 1 := by
  simp only [Session.start, sessionLife, h, Bool.toNat_false, Bool.toNat_true,
    Bool.false_eq_true, if_false]
  omega

lemma life_step (s : Sys κ) (a : Act κ) (s' : Sys κ) (h : Inv s ∧ Life s)
    (hs : step build pb sessionId owner s a = some s') : Inv s' ∧ Life s' := by
  obtain ⟨hinv, hl, hheld⟩ := h
  refine ⟨inv_step s a s' hinv hs, ?_, ?_⟩
  · unfold Sys.history at hl ⊢
    cases step_spec hs with
    | start hp =>
      have hr : s.main.session.running = false := by
        cases hr : s.main.session.running with
        | false => rfl
        | true => simp [sessionLife, hr, hp] at hl
      simp only [hp, life_start hr, reduceCtorEq, if_false, if_true] at hl ⊢
      omega
    | startPost hp => simpa [hp, sessionLife, Session.post, isClose] using hl
    | close hp hpc he => simpa [hp, he] using hl
    | receive hp hpc he hpc' => simpa [hp, he] using hl
    | drain hp hpc => simpa [hp, drain_life] using hl
    | elsewhere hpc => exact hl
    | @sendPost chunk => rw [(Quiet.postSend s.main.session chunk).life]; exact hl
    | io h =>
      have := (ioStep_spec hinv.captured.posting h).life
      simp only [List.count_append] at hl ⊢
      omega
    | ownerStop => exact hl
  · cases step_spec hs with
    | start hp => intro _ hf; cases hf
    | startPost hp => exact fun _ hf => hheld (by simp [hp]) hf
    | close hp hpc he => exact fun _ _ => by simp
    | receive hp hpc he hpc' => exact fun h1 h2 => List.mem_append_left _ (hheld h1 h2)
    | drain | elsewhere | sendPost | io | ownerStop => exact hheld

variable {s : Sys κ}

lemma inv_reachable (h : Reachable (step build pb sessionId owner) init s) : Inv s :=
  h.invariant inv_step inv_init

lemma life_reachable (h : Reachable (step build pb sessionId owner) init s) : Life s :=
  (h.invariant life_step ⟨inv_init, life_init⟩).2

lemma Life.stopped (hl : Life s) (h : .close ∈ s.history) :
    s.phase ≠ .created ∧ s.main.session.running = false := by
  have hpos := List.count_pos_iff.mpr h
  have hcount := hl.count
  constructor
  · intro hp
    rw [if_pos hp] at hcount
    omega
  · cases hr : s.main.session.running with
    | false => rfl
    | true => simp only [sessionLife, hr, Bool.toNat_true] at hcount; omega

lemma Life.held_of_running (hl : Life s) (hr : s.main.session.running = true) :
    s.phase ≠ .created ∧ s.held = true := by
  have hp : s.phase ≠ .created := fun hp => by
    have := hl.count
    simp only [sessionLife, hr, Bool.toNat_true, hp, if_true] at this
    omega
  refine ⟨hp, ?_⟩
  cases hh : s.held with
  | true => rfl
  | false =>
    have hclose := List.mem_append_left s.events (hl.held hp hh)
    rw [(hl.stopped hclose).2] at hr
    cases hr

/-- **Single ownership of the receive buffer.** In every reachable state there is at most one
token; an outstanding read has the free room of the buffer as its region; and no step moves
anything in the buffer while a read is outstanding. -/
theorem single_owner (h : Reachable (step build pb sessionId owner) init s) :
    tokens s ≤ 1 ∧
      (∀ offset size, .pending offset size ∈ s.main.session.reads →
        offset = s.main.session.receiveBuffer.writeOffset ∧
          size = s.main.session.receiveBuffer.getUnwrittenSize) ∧
      ∀ a s', step build pb sessionId owner s a = some s' → s.main.session.reads ≠ [] →
        Unmoved s.main.session.receiveBuffer s'.main.session.receiveBuffer := by
  obtain ⟨ht, hc⟩ := inv_reachable h
  refine ⟨le_trans (Nat.le_add_right _ _) ht, fun off n hop => hc.reads _ hop, ?_⟩
  intro a s' hs hr
  rw [tokens_eq] at ht
  have hpos : 1 ≤ sessionTokens s.main.session := by
    have := List.length_pos_iff.mpr hr
    unfold sessionTokens
    omega
  cases step_spec hs with
  | start hp => simp only [hp, drainTokens, if_true] at ht; omega
  | startPost hp => exact .of_eq rfl
  | close hp hpc he => exact .of_eq rfl
  | receive hp hpc he hpc' => exact .of_eq rfl
  | drain hp hpc =>
    -- the token is in the session, so the main thread is outside
    have hin : s.main.pc.Inside := by
      revert hpc
      cases s.main.pc <;> simp [Pc.Inside]
    rw [drainTokens, if_pos hin] at ht
    omega
  | elsewhere hpc => exact .of_eq rfl
  | sendPost => exact .of_eq rfl
  | io h =>
    refine (ioStep_spec hc.posting h).unmoved ?_ hc hr
    unfold drainTokens at ht
    omega
  | ownerStop => exact .of_eq rfl

/-- A running session with a read outstanding. -/
def reading : Sys Unit where
  main := ⟨.outside, { Session.new with
    running := true
    reads := [.pending 0 (CapacityFactor * DefaultSize)] }, []⟩
  phase := .started
  held := true
  ownerRunning := true
  events := []
  handled := []

lemma reachable_reading :
    Reachable (step .Release proto3 1 .WorldServer) init reading :=
  ⟨[.start, .main, .io (.strand [])], rfl⟩

/-- It holds there, where a read is outstanding. -/
theorem single_owner_reading :
    tokens reading ≤ 1 ∧
      (∀ offset size, .pending offset size ∈ reading.main.session.reads →
        offset = reading.main.session.receiveBuffer.writeOffset ∧
          size = reading.main.session.receiveBuffer.getUnwrittenSize) ∧
      ∀ a s', step .Release proto3 1 .WorldServer reading a = some s' →
        reading.main.session.reads ≠ [] →
        Unmoved reading.main.session.receiveBuffer s'.main.session.receiveBuffer :=
  single_owner reachable_reading

/-- The handlers on the strand can always run: no completion reports more than there is room
for. -/
theorem Captured.runStrand {s : Session κ} (hc : Captured s) (hne : s.strand ≠ [])
    (errors : List ErrorCode) : ∃ r, s.runStrand errors = some r := by
  obtain ⟨p, rest, hs⟩ := List.exists_cons_of_ne_nil hne
  simp only [Session.runStrand, hs]
  cases p with
  | onRead r =>
    cases r with
    | error e => exact ⟨_, rfl⟩
    | ok n => exact ⟨_, dif_pos (hc.reported n (by simp [hs]))⟩
  | asyncRead | send | close | onWritten => exact ⟨_, rfl⟩

end Main

end ByteborneWorld.SessionRun
