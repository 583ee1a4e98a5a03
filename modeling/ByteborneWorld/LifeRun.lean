import ByteborneWorld.WriteRun

/-!
The life of one session: it is started once, stopped from any side, closed once, and starts
nothing after that.
-/

namespace ByteborneWorld.LifeRun

open ByteborneWorld.ChatProto ByteborneWorld.PacketModel ByteborneWorld.RecvModel
open ByteborneWorld.SessionModel ByteborneWorld.Lts ByteborneWorld.SessionRun
open ByteborneWorld.WriteRun

variable {κ : Type*}

/-- The step runs `close`. -/
def Closes (s : Session κ) : IoAct κ → Prop
  | .strand _ => s.strand.head?.any isClose = true
  | _ => False

instance (s : Session κ) (a : IoAct κ) : Decidable (Closes s a) := by
  cases a <;> unfold Closes <;> infer_instance

lemma Closes.close_mem {s : Session κ} {a : IoAct κ} (h : Closes s a) : .close ∈ s.strand := by
  cases a with
  | strand errors =>
    cases hs : s.strand with
    | nil => simp [Closes, hs] at h
    | cons p rest =>
      cases p with
      | close => exact .head _
      | asyncRead | send | onRead | onWritten => simp [Closes, hs, isClose] at h
  | stop | send | post | readDone | readQueue | writeDone | writeQueue => exact absurd h id

def StartsNone (s s' : Session κ) : Prop :=
  s'.reads.length ≤ s.reads.length ∧ s'.writes.length ≤ s.writes.length

section Io

variable {s s' : Session κ} {a : IoAct κ} {pushed : List SessionEvent}

/-- **One event for each run of `close`**, and none otherwise. -/
lemma IoStep.closes (h : IoStep s a s' pushed) :
    pushed.count .close = if Closes s a then 1 else 0 := by
  cases h with
  | quiet hq ha =>
    cases a with
    | strand errors => exact absurd rfl (ha errors)
    | stop | send | post | readDone | readQueue | writeDone | writeQueue => rfl
  | handler hs hh hh' hq => simp [Closes, hs, hh']
  | asyncRead hs | onReadError hs | onRead hs | close hs => simp [Closes, hs, isClose]
  | readOk | readError | readQueue => rfl

lemma socketOpen_asyncWrite (s : Session κ) : s.asyncWrite.socketOpen = s.socketOpen := by
  unfold Session.asyncWrite
  split_ifs <;> rfl

lemma WriteStep.socketOpen (h : WriteStep s a s') (ha : ¬Closes s a) :
    s'.socketOpen = s.socketOpen := by
  cases h with
  | quiet hq => exact hq.socketOpen
  | close hs => exact absurd (by simp [Closes, hs, isClose]) ha
  | send hs =>
    simp only [Session.pushChunk]
    split_ifs
    · rfl
    · exact socketOpen_asyncWrite _
  | @onWritten errors r rest hs =>
    cases r with
    | error e => exact (NoWrite.handleError { s with strand := rest } e).socketOpen
    | ok n =>
      simp only [Session.onWritten]
      split_ifs
      · rfl
      · exact socketOpen_asyncWrite _
  | writeDone | writeQueue => rfl

lemma IoStep.reads_length_le (h : IoStep s a s' pushed) (hr : s.running = false) :
    s'.reads.length ≤ s.reads.length := by
  cases h with
  | quiet hq => rw [hq.reads]
  | handler hs hh hh' hq => rw [hq.reads]
  | @asyncRead errors rest hs =>
    rcases asyncRead_cases { s with strand := rest } with ⟨-, heq⟩ | ⟨hr', -⟩
    · rw [heq]
    · exact absurd (hr.symm.trans hr') (by decide)
  | onReadError hs hq => rw [hq.reads]
  | onRead hs hn => exact le_refl _
  | close hs => rw [(Still.close _ _).reads, List.length_map]
  | readOk | readError => rw [List.length_set]
  | readQueue hi => exact (List.eraseIdx_sublist _ _).length_le

lemma writes_asyncWrite (hr : s.running = false) : s.asyncWrite.writes = s.writes := by
  simp [Session.asyncWrite, hr]

lemma WriteStep.writes_length_le (h : WriteStep s a s') (hr : s.running = false) :
    s'.writes.length ≤ s.writes.length := by
  cases h with
  | quiet hq => rw [hq.writes]
  | close hs => rw [(NoWrite.close _ _).writes, List.length_map]
  | send hs =>
    simp only [Session.pushChunk]
    split_ifs
    · exact le_refl _
    · exact le_of_eq (congrArg _ (writes_asyncWrite hr))
  | @onWritten errors r rest hs =>
    cases r with
    | error e => rw [Session.onWritten, (NoWrite.handleError _ e).writes]
    | ok n =>
      simp only [Session.onWritten]
      split_ifs
      · exact le_refl _
      · exact le_of_eq (congrArg _ (writes_asyncWrite hr))
  | writeDone => rw [List.length_set]
  | writeQueue hi => exact (List.eraseIdx_sublist _ _).length_le

end Io

/-! ### The system -/

def closes (s : Sys κ) (a : Act κ) (_ : Sys κ) : List Unit :=
  match a with
  | .io a => if Closes s.main.session a then [()] else []
  | _ => []

/-- The close events are those of the runs of `close`, and the socket is open before. -/
structure Closing (s : Sys κ) (cs : List Unit) : Prop extends Inv s, Life s where
  events : s.history.count .close = cs.length
  socketOpen : cs = [] → s.main.session.socketOpen = true

section Sys

variable {build : Build} {pb : Protobuf} {sessionId : ℕ} {owner : Owner} {s s' : Sys κ}
  {a : Act κ}

lemma closing_init : Closing (init : Sys κ) [] where
  toInv := inv_init
  toLife := life_init
  events := rfl
  socketOpen _ := rfl

lemma step_history (hs : Step build pb sessionId owner s a s') (hio : ∀ b, a ≠ .io b) :
    s'.history = s.history ∧ s'.main.session.socketOpen = s.main.session.socketOpen := by
  unfold Sys.history
  cases hs with
  | start hp =>
    refine ⟨rfl, ?_⟩
    unfold Session.start
    split_ifs <;> rfl
  | close hp hpc he => simp [he]
  | receive hp hpc he => simp [he]
  | drain hp hpc => exact ⟨rfl, (drain_noWrite s.main).socketOpen⟩
  | io h => exact absurd rfl (hio _)
  | startPost | elsewhere | sendPost | ownerStop => exact ⟨rfl, rfl⟩

lemma closing_step (s : Sys κ) (cs : List Unit) (a : Act κ) (s' : Sys κ) (h : Closing s cs)
    (hs : SessionRun.step build pb sessionId owner s a = some s') :
    Closing s' (cs ++ closes s a s') := by
  obtain ⟨hinv, hlife, hevents, hopen⟩ := h
  obtain ⟨hinv', hlife'⟩ := life_step s a s' ⟨hinv, hlife⟩ hs
  refine ⟨hinv', hlife', ?_, ?_⟩
  · cases a with
    | io b =>
      cases step_spec hs with
      | io h =>
        have hclose := IoStep.closes (ioStep_spec hinv.captured.posting h)
        simp only [Sys.history, List.count_append] at hevents ⊢
        rw [List.length_append, closes]
        split_ifs at hclose ⊢
        · rw [List.length_singleton]
          omega
        · rw [List.length_nil]
          omega
    | start | main | elsewhere | sendPost | ownerStop =>
      rw [(step_history (step_spec hs) (by simp)).1, hevents]
      simp [closes]
  · intro hcs
    obtain ⟨rfl, hcs⟩ := List.append_eq_nil_iff.mp hcs
    cases a with
    | io b =>
      cases step_spec hs with
      | io h =>
        have hno : ¬Closes s.main.session b := fun hc => by simp [closes, hc] at hcs
        rw [WriteStep.socketOpen (writeStep_spec h) hno]
        exact hopen rfl
    | start | main | elsewhere | sendPost | ownerStop =>
      rw [(step_history (step_spec hs) (by simp)).2]
      exact hopen rfl

lemma stopped_step (s : Sys κ) (a : Act κ) (s' : Sys κ)
    (h : Inv s ∧ s.phase ≠ .created ∧ s.main.session.running = false)
    (hs : SessionRun.step build pb sessionId owner s a = some s') :
    Inv s' ∧ s'.phase ≠ .created ∧ s'.main.session.running = false := by
  obtain ⟨hinv, hp, hr⟩ := h
  refine ⟨inv_step s a s' hinv hs, ?_⟩
  cases step_spec hs with
  | start hp' => exact absurd hp' hp
  | startPost hp' => exact ⟨by simp, hr⟩
  | drain hp' hpc =>
    refine ⟨hp, Bool.eq_false_iff.mpr fun hr' => ?_⟩
    rw [(drain_noWrite s.main).running hr'] at hr
    cases hr
  | io h =>
    refine ⟨hp, Bool.eq_false_iff.mpr fun hr' => ?_⟩
    rw [(ioStep_spec hinv.captured.posting h).running hr'] at hr
    cases hr
  | close | receive | elsewhere | sendPost | ownerStop => exact ⟨hp, hr⟩

lemma startsNone_step (hinv : Inv s) (hp : s.phase ≠ .created)
    (hr : s.main.session.running = false)
    (hs : SessionRun.step build pb sessionId owner s a = some s') :
    StartsNone s.main.session s'.main.session := by
  cases step_spec hs with
  | start hp' => exact absurd hp' hp
  | drain hp' hpc =>
    refine ⟨?_, le_of_eq (congrArg _ (drain_noWrite s.main).writes)⟩
    rcases drain_cases build pb sessionId s.main with
      ⟨heq, -⟩ | ⟨-, b, heq⟩ | ⟨-, -, heq⟩ <;> rw [heq]
    rfl
  | io h =>
    exact ⟨IoStep.reads_length_le (ioStep_spec hinv.captured.posting h) hr,
      WriteStep.writes_length_le (writeStep_spec h) hr⟩
  | startPost | close | receive | elsewhere | sendPost | ownerStop =>
    exact ⟨le_refl _, le_refl _⟩

/-- **The life of a session is lived once.** In every run: `close` runs once at most, and pushes
one close event when it does; it finds the session stopped and the socket open; a session that
was started and stopped never runs again; and after `close` no read and no write is started. -/
theorem lifecycle_exactly_once {as : List (Act κ)}
    (h : run (SessionRun.step build pb sessionId owner) init as = some s) :
    (observe (SessionRun.step build pb sessionId owner) closes init as).length ≤ 1 ∧
      s.history.count .close =
        (observe (SessionRun.step build pb sessionId owner) closes init as).length ∧
      (∀ a, Closes s.main.session a →
        s.main.session.running = false ∧ s.main.session.socketOpen = true) ∧
      (s.phase ≠ .created → s.main.session.running = false → ∀ bs t,
        run (SessionRun.step build pb sessionId owner) s bs = some t →
          t.main.session.running = false) ∧
      (observe (SessionRun.step build pb sessionId owner) closes init as ≠ [] → ∀ bs t,
        run (SessionRun.step build pb sessionId owner) s bs = some t → ∀ a t',
          SessionRun.step build pb sessionId owner t a = some t' →
            StartsNone t.main.session t'.main.session) := by
  have hclosing := observe_invariant closing_step closing_init h
  rw [List.nil_append] at hclosing
  have hcount := hclosing.count
  refine ⟨?_, hclosing.events, fun a ha => ?_, fun hp hr bs t ht => ?_,
    fun hne bs t ht a t' hs => ?_⟩
  · have := hclosing.events
    omega
  · have hmem := ha.close_mem
    have hpos : 0 < s.main.session.strand.countP isClose :=
      List.countP_pos_iff.mpr ⟨_, hmem, rfl⟩
    refine ⟨running_of_close_mem hclosing.toLife hmem, hclosing.socketOpen ?_⟩
    have := hclosing.events
    unfold sessionLife at hcount
    exact List.length_eq_zero_iff.mp (by omega)
  · exact (run_invariant stopped_step ⟨hclosing.toInv, hp, hr⟩ ht).2.2
  · have hclose : .close ∈ s.history := by
      have := List.length_pos_iff.mpr hne
      rw [← List.count_pos_iff, hclosing.events]
      exact this
    obtain ⟨hp, hr⟩ := hclosing.stopped hclose
    obtain ⟨hinv, hp', hr'⟩ := run_invariant stopped_step ⟨hclosing.toInv, hp, hr⟩ ht
    exact startsNone_step hinv hp' hr' hs

end Sys

/-- A session that is stopped while its first read is outstanding. -/
def stopWhileReading : List (Act Unit) :=
  [.start, .main, .io (.strand []), .io .stop, .io (.post 0), .io (.strand [.not_connected])]

/-- It was closed once, never runs again, and starts nothing any more. -/
theorem lifecycle_exactly_once_stopWhileReading : ∃ s,
    run (SessionRun.step .Release proto3 1 .WorldServer) init stopWhileReading = some s ∧
      s.history.count .close = 1 ∧
      ∀ bs t, run (SessionRun.step .Release proto3 1 .WorldServer) s bs = some t →
        t.main.session.running = false ∧
          ∀ a t', SessionRun.step .Release proto3 1 .WorldServer t a = some t' →
            StartsNone t.main.session t'.main.session := by
  have hrun : (run (SessionRun.step .Release proto3 1 .WorldServer) init stopWhileReading).map
      (fun s => (s.phase, s.main.session.running)) = some (.started, false) := by rfl
  have hclosed : (observe (SessionRun.step .Release proto3 1 .WorldServer) closes init
      stopWhileReading).length = 1 := by rfl
  obtain ⟨s, hs, heq⟩ := Option.map_eq_some_iff.mp hrun
  simp only [Prod.mk.injEq] at heq
  obtain ⟨-, hcount, -, hstopped, hstarts⟩ := lifecycle_exactly_once hs
  have hne := List.ne_nil_of_length_pos (hclosed.symm ▸ Nat.zero_lt_one)
  exact ⟨s, hs, hcount.trans hclosed, fun bs t ht =>
    ⟨hstopped (by simp [heq.1]) heq.2 bs t ht, hstarts hne bs t ht⟩⟩

end ByteborneWorld.LifeRun
