import ByteborneWorld.Feed
import ByteborneWorld.WorldRun

/-!
The chat room is a broadcast in total order: the responses are a log, and each session is a
reader of it, from where it was accepted to where it was stopped.
-/

namespace ByteborneWorld.BroadcastRun

open ByteborneWorld.ChatProto ByteborneWorld.PacketModel ByteborneWorld.SendModel
open ByteborneWorld.ChatRoomModel ByteborneWorld.SessionModel ByteborneWorld.WorldModel
open ByteborneWorld.WorldRun ByteborneWorld.Lts
open ByteborneWorld.SessionRun (NoSends sends putBy)

/-! ### The server as a log and its readers -/

/-- The chunk that is about to be posted to a session. -/
def onTheWay (pc : At) (i : ℕ) : List Chunk :=
  match pc with
  | .posting chunk j _ => if j = i then [chunk] else []
  | _ => []

/-- The chunks sent to a session that are not on its send queue yet. -/
def underway (w : World) (i : ℕ) : List Chunk := sends (w.session i) ++ onTheWay w.pc i

/-- How many of the responses are meant for a session, or come before it was accepted. -/
def bound (w : World) (i : ℕ) : ℕ :=
  if (w.session i).running then w.offered i else w.history.stoppedAt i

def chunks (w : World) : List Chunk := w.history.log.map Sent.chunk

def reader (w : World) (i : ℕ) : Feed.Reader Chunk :=
  ⟨w.history.acceptedAt i, bound w i, w.history.put i ++ underway w i⟩

/-- The chunk of the round that is going on, and the sessions that still have their turn. -/
def roundOf : At → Option (Chunk × List ℕ)
  | .broadcast chunk rest => some (chunk, rest)
  | .sending chunk i rest => some (chunk, i :: rest)
  | .posting chunk i rest => some (chunk, i :: rest)
  | _ => none

/-- What holds between the steps of a round, and of the sessions that may have a turn. -/
structure Rounds (w : World) : Prop where
  active : w.room.activeSessions = w.manager
  round : ∀ chunk order, roundOf w.pc = some (chunk, order) →
    order.Nodup ∧ ∃ rest, chunks w = rest ++ [chunk]
  created : ∀ chunk i rest, w.pc = .posting chunk i rest → i < w.nextSessionId
  fresh : ∀ i, w.nextSessionId ≤ i → w.history.put i = [] ∧ sends (w.session i) = []
  noSends : ∀ i, NoSends (w.session i)

variable {build : Build} {pb : Protobuf} {w w' : World}

lemma roundOf_plain {pc : At} (h : Plain pc) : roundOf pc = none := by
  cases pc <;> first | rfl | exact absurd h id

lemma onTheWay_plain {pc : At} (h : Plain pc) (i : ℕ) : onTheWay pc i = [] := by
  cases pc <;> first | rfl | exact absurd h id

lemma unserved_plain (h : Plain w.pc) (i : ℕ) : w.unserved i = false := by
  unfold World.unserved
  cases hpc : w.pc <;> rw [hpc] at h <;> first | rfl | exact absurd h id

/-! ### What the steps of the main thread do to a session -/

variable (build pb) in
lemma sends_drain {κ : Type*} (sessionId : ℕ) (d : Drain κ) :
    sends (d.step build pb sessionId).session = sends d.session ∧
      (d.step build pb sessionId).session.running = d.session.running ∧
      (NoSends d.session → NoSends (d.step build pb sessionId).session) := by
  rcases SessionRun.drain_cases build pb sessionId d with
    ⟨hs, -⟩ | ⟨-, b, hs⟩ | ⟨-, -, hs⟩ <;> rw [hs]
  · exact ⟨rfl, rfl, id⟩
  · exact ⟨rfl, rfl, id⟩
  · exact ⟨by simp [sends, Session.post, SessionRun.chunkOf], rfl, id⟩

lemma sends_stop {κ : Type*} (s : Session κ) :
    sends (s.stop.1.aboutTo s.stop.2) = sends s ∧
      (s.stop.1.aboutTo s.stop.2).running = false ∧
      (NoSends s → NoSends (s.stop.1.aboutTo s.stop.2)) := by
  unfold Session.stop Session.aboutTo
  split_ifs with hr
  · exact ⟨rfl, rfl, fun h => by simpa [NoSends] using h⟩
  · exact ⟨rfl, by simpa using hr, fun h => by simpa [NoSends] using h⟩

lemma sends_start {κ : Type*} (s : Session κ) : sends s.start.1 = sends s ∧
    s.start.1.running = true ∧ (NoSends s → NoSends s.start.1) := by
  unfold Session.start
  split_ifs with hr
  · exact ⟨rfl, hr, id⟩
  · exact ⟨rfl, rfl, id⟩

lemma posting_no_read (h : Reachable (step build pb) init w) (i : ℕ) :
    (w.session i).posting.filter SessionRun.isRead = [] :=
  (SessionRun.inv_reachable ((reachable_view h).2 i)).captured.posting

/-! ### The rounds -/

lemma rounds_init : Rounds init where
  active := rfl
  round chunk order h := by cases h
  created chunk i rest h := by cases h
  fresh i _ := ⟨rfl, rfl⟩
  noSends i chunk h := by cases h

lemma Rounds.round_tail (h : Rounds w) {chunk : Chunk} {i : ℕ} {rest : List ℕ}
    (hr : roundOf w.pc = some (chunk, i :: rest)) :
    rest.Nodup ∧ ∃ before, chunks w = before ++ [chunk] := by
  obtain ⟨hnodup, hlast⟩ := h.round chunk (i :: rest) hr
  exact ⟨(List.nodup_cons.mp hnodup).2, hlast⟩

lemma Rounds.of_eq (h : Rounds w) (hroom : w'.room.activeSessions = w'.manager)
    (hpc : roundOf w'.pc = none) (hn : w.nextSessionId ≤ w'.nextSessionId)
    (hput : w'.history.put = w.history.put)
    (hs : ∀ i, sends (w'.session i) = sends (w.session i) ∧
      (NoSends (w.session i) → NoSends (w'.session i))) : Rounds w' where
  active := hroom
  round chunk order heq := by rw [hpc] at heq; cases heq
  created chunk i rest heq := by rw [heq] at hpc; cases hpc
  fresh i hi := by rw [hput, (hs i).1]; exact h.fresh i (le_trans hn hi)
  noSends i := (hs i).2 (h.noSends i)

lemma sends_update {j : ℕ} {s : Session Chunk}
    (hs : sends s = sends (w.session j) ∧ (NoSends (w.session j) → NoSends s)) (i : ℕ) :
    sends (Function.update w.session j s i) = sends (w.session i) ∧
      (NoSends (w.session i) → NoSends (Function.update w.session j s i)) :=
  (Function.forall_update_iff w.session fun i s' => sends s' = sends (w.session i) ∧
    (NoSends (w.session i) → NoSends s')).mpr ⟨hs, fun _ _ => ⟨rfl, id⟩⟩ i

theorem rounds_step (hw : Reachable (step build pb) init w) (h : Rounds w)
    (hs : Step build pb w w') : Rounds w' := by
  cases hs with
  | @plain pc running es hr hpc =>
    rcases hpc with rfl | ⟨-, hpc⟩
    · exact ⟨h.active, h.round, h.created, h.fresh, h.noSends⟩
    · exact h.of_eq h.active (roundOf_plain hpc) (le_refl _) rfl fun i => ⟨rfl, id⟩
  | accept hpc hr =>
    refine h.of_eq ?_ rfl (Nat.le_succ _) rfl (sends_update ?_)
    · simp [World.accept, ChatRoom.onClientAccepted, h.active]
    · exact ⟨(sends_start _).1, (sends_start _).2.2⟩
  | startPost hpc =>
    refine h.of_eq h.active rfl (le_refl _) rfl (sends_update ?_)
    exact ⟨by simp [sends, Session.post, SessionRun.chunkOf], id⟩
  | @event i e rest hpc he =>
    cases e with
    | close =>
      refine h.of_eq ?_ (roundOf_plain hpc) (le_refl _) rfl fun i => ⟨rfl, id⟩
      simp [World.handleSessionEvent, ChatRoom.onClientClosed, h.active]
    | receive =>
      unfold World.handleSessionEvent
      split_ifs
      · exact h.of_eq h.active rfl (le_refl _) rfl fun i => ⟨rfl, id⟩
      · exact h.of_eq h.active (roundOf_plain hpc) (le_refl _) rfl fun i => ⟨rfl, id⟩
  | @drain i pc d hpc hd =>
    have hd' := sends_drain build pb i ⟨pc, w.session i, w.messageQueue⟩
    rw [← hd] at hd'
    refine h.of_eq h.active ?_ (le_refl _) rfl (sends_update ⟨hd'.1, hd'.2.2⟩)
    dsimp only
    split_ifs <;> rfl
  | chat hpc hq ht hm ho hs =>
    obtain ⟨sendBuffers, chunk, -, rfl⟩ := handleChat_spec hs
    refine ⟨h.active, fun chunk' order' heq => ?_, by simp, h.fresh, h.noSends⟩
    cases heq
    exact ⟨ho.1, chunks w, by simp [chunks]⟩
  | noHandler | finish =>
    exact h.of_eq h.active rfl (le_refl _) rfl fun i => ⟨rfl, id⟩
  | @find chunk i rest hpc hi hr =>
    refine ⟨h.active, fun chunk' order' heq => ?_, by simp, h.fresh, h.noSends⟩
    cases heq
    exact h.round chunk (i :: rest) (by rw [hpc]; rfl)
  | @pass chunk i rest hpc hi =>
    refine ⟨h.active, fun chunk' order' heq => ?_, by simp, h.fresh, h.noSends⟩
    cases heq
    exact h.round_tail (by rw [hpc]; rfl)
  | @send chunk i rest hpc hr =>
    refine ⟨h.active, fun chunk' order' heq => ?_, fun chunk' j rest' heq => ?_, h.fresh,
      h.noSends⟩
    · cases heq
      exact h.round chunk (i :: rest) (by rw [hpc]; rfl)
    · cases heq
      exact (mem_manager_of_running hw hr).2.2
  | @refuse chunk i rest hpc hr =>
    refine ⟨h.active, fun chunk' order' heq => ?_, by simp, h.fresh, h.noSends⟩
    cases heq
    exact h.round_tail (by rw [hpc]; rfl)
  | @post chunk i rest hpc =>
    refine ⟨h.active, fun chunk' order' heq => ?_, by simp, fun j hj => ?_, fun j => ?_⟩
    · cases heq
      exact h.round_tail (by rw [hpc]; rfl)
    · have hi := h.created chunk i rest hpc
      have hne : j ≠ i := fun heq => by subst heq; exact absurd hi (not_lt.mpr hj)
      simpa [Function.update_of_ne hne] using h.fresh j hj
    · by_cases hne : j = i
      · subst hne
        simpa [Session.post, NoSends] using h.noSends j
      · simpa [Function.update_of_ne hne] using h.noSends j
  | @close i rest hpc =>
    refine h.of_eq h.active rfl (le_refl _) rfl (sends_update ?_)
    exact ⟨(sends_stop _).1, (sends_stop _).2.2⟩
  | @io i a s pushed hi ha hio =>
    have hput := (SessionRun.ioStep_spec (posting_no_read hw i) hio).sends ha (h.noSends i)
    refine ⟨h.active, h.round, h.created, fun j hj => ?_, fun j => ?_⟩
    · have hne : j ≠ i := fun heq => by subst heq; exact absurd hi.2 (not_lt.mpr hj)
      simpa [World.setSession, Function.update_of_ne hne] using h.fresh j hj
    · by_cases hne : j = i
      · subst hne
        simpa [World.setSession] using hput.2
      · simpa [World.setSession, Function.update_of_ne hne] using h.noSends j

/-! ### Each session reads the log -/

lemma feed_idle {i : ℕ} (hlog : w'.history.log = w.history.log)
    (hstart : w'.history.acceptedAt i = w.history.acceptedAt i) (hbound : bound w' i = bound w i)
    (hgot : w'.history.put i ++ underway w' i = w.history.put i ++ underway w i) :
    Feed.Step (chunks w) (reader w i) (chunks w') (reader w' i) := by
  rw [show chunks w' = chunks w by simp [chunks, hlog],
    show reader w' i = reader w i by simp [reader, hstart, hbound, hgot]]
  exact .idle

lemma bound_setSession {j : ℕ} {s : Session Chunk}
    (hr : s.running = true → (w.session j).running = true) (i : ℕ) :
    bound (w.setSession j s) i = bound w i := by
  have hoff : (w.setSession j s).offered i = w.offered i := rfl
  simp only [bound, hoff]
  by_cases hi : i = j
  · subst hi
    cases hs : s.running with
    | true => simp [World.setSession, hs, hr hs]
    | false => cases hw : (w.session i).running <;> simp [World.setSession, hs, hw]
  · have hupd : (w.setSession j s).session i = w.session i := by
      simp [World.setSession, Function.update_of_ne hi]
    rw [hupd]
    split_ifs
    · rfl
    · simp only [World.setSession]
      split_ifs <;> simp [Function.update_of_ne hi]

/-- Between the steps of a round, the bound of a session is that of its turn. -/
lemma bound_congr {i : ℕ} (hs : (w'.session i).running = (w.session i).running)
    (hlog : w'.history.log = w.history.log) (hstop : w'.history.stoppedAt = w.history.stoppedAt)
    (hun : (w.session i).running = true → w'.unserved i = w.unserved i) :
    bound w' i = bound w i := by
  simp only [bound, World.offered, hs, hlog, hstop]
  split_ifs with hr <;> simp_all

lemma running_update {j : ℕ} {s : Session Chunk} (hs : s.running = (w.session j).running)
    (i : ℕ) : (Function.update w.session j s i).running = (w.session i).running :=
  (Function.forall_update_iff w.session fun i s' => s'.running = (w.session i).running).mpr
    ⟨hs, fun _ _ => rfl⟩ i

/-- **Every step is, for each session, a step of the log and its reader.** -/
theorem feed_step (hw : Reachable (step build pb) init w) (h : Rounds w)
    (hs : Step build pb w w') (i : ℕ) :
    Feed.Step (chunks w) (reader w i) (chunks w') (reader w' i) := by
  cases hs with
  | @plain pc running es hr hpc =>
    have hpc' : onTheWay pc i = onTheWay w.pc i ∧
        ({ w with pc := pc } : World).unserved i = w.unserved i := by
      rcases hpc with rfl | ⟨h1, h2⟩
      · exact ⟨rfl, rfl⟩
      · rw [onTheWay_plain h1, onTheWay_plain h2, unserved_plain h1, unserved_plain (by exact h2)]
        exact ⟨rfl, rfl⟩
    exact feed_idle rfl rfl (bound_congr rfl rfl rfl fun _ => hpc'.2)
      (by simp [underway, hpc'.1])
  | @accept es hpc hr =>
    by_cases hi : i = w.nextSessionId
    · subst hi
      obtain ⟨hput, hsends⟩ := h.fresh _ (le_refl _)
      have hgot : (reader w w.nextSessionId).got = [] := by
        simp [reader, underway, hput, hsends, hpc, onTheWay]
      have hreader : reader ({ w with serviceEvents := es }.accept) w.nextSessionId =
          ⟨(chunks w).length, (chunks w).length, []⟩ := by
        simp [reader, bound, underway, World.accept, World.offered, World.unserved, onTheWay,
          chunks, hput, hsends, (sends_start _).1, (sends_start _).2.1]
      rw [hreader]
      exact .join hgot
    · have hs : (({ w with serviceEvents := es }.accept).session i) = w.session i := by
        simp [World.accept, Function.update_of_ne hi]
      refine feed_idle rfl (by simp [World.accept, Function.update_of_ne hi])
        (bound_congr (by rw [hs]) rfl rfl fun _ => ?_) ?_
      · simp [World.unserved, World.accept, hpc]
      · rw [underway, hs]
        simp [underway, hpc, World.accept, onTheWay]
  | @startPost j hpc =>
    have hsends := sends_update (w := w) (j := j) (s := (w.session j).post .asyncRead)
      ⟨by simp [sends, Session.post, SessionRun.chunkOf], id⟩ i
    refine feed_idle rfl rfl (bound_congr (running_update (by rfl) i) rfl rfl fun _ => ?_) ?_
    · simp [World.unserved, hpc]
    · simp [underway, hsends.1, hpc, onTheWay]
  | @event j e rest hpc he =>
    have hon := onTheWay_plain hpc i
    have hun := unserved_plain hpc i
    unfold World.handleSessionEvent
    cases e with
    | close =>
      exact feed_idle rfl rfl (bound_congr rfl rfl rfl fun _ => rfl) rfl
    | receive =>
      split_ifs
      · refine feed_idle rfl rfl (bound_congr rfl rfl rfl fun _ => ?_) ?_
        · rw [hun]
          rfl
        · rw [underway, underway, hon]
          rfl
      · exact feed_idle rfl rfl (bound_congr rfl rfl rfl fun _ => rfl) rfl
  | @drain j pc d hpc hd =>
    have hd' := sends_drain build pb j ⟨pc, w.session j, w.messageQueue⟩
    rw [← hd] at hd'
    have hsends := sends_update (w := w) (j := j) ⟨hd'.1, hd'.2.2⟩ i
    refine feed_idle rfl rfl (bound_congr (running_update hd'.2.1 i) rfl rfl fun _ => ?_) ?_
    · simp only [World.unserved, hpc]
      split_ifs <;> rfl
    · simp only [underway, hsends.1, hpc]
      split_ifs <;> rfl
  | @chat entry rest message nowMs order _ hpc hq ht hm ho hs =>
    obtain ⟨sendBuffers, chunk, -, rfl⟩ := handleChat_spec hs
    -- every running session has its turn in the new round, and so the log grows behind it
    have hbound : bound { w with
        pc := .broadcast chunk order
        room := (w.room.respond entry.sessionId message nowMs).1
        sendBuffers := sendBuffers
        history.log := w.history.log ++
          [⟨entry, (w.room.respond entry.sessionId message nowMs).2, chunk⟩] } i = bound w i := by
      simp only [bound]
      split_ifs with hr
      · have hmem : i ∈ order := by
          rw [← List.mem_toFinset, ho.2, h.active]
          exact (mem_manager_of_running hw hr).1
        simp [World.offered, World.unserved, hmem, hpc]
      · rfl
    have hreader : reader { w with
        pc := .broadcast chunk order
        room := (w.room.respond entry.sessionId message nowMs).1
        sendBuffers := sendBuffers
        history.log := w.history.log ++
          [⟨entry, (w.room.respond entry.sessionId message nowMs).2, chunk⟩] } i = reader w i := by
      simp only [reader, hbound]
      simp [underway, onTheWay, hpc]
    rw [hreader]
    have hpublish : Feed.Step (chunks w) (reader w i) (chunks w ++ [chunk]) (reader w i) :=
      .publish chunk
    simpa [chunks] using hpublish
  | noHandler hpc | finish hpc =>
    refine feed_idle rfl rfl (bound_congr rfl rfl rfl fun _ => ?_) ?_
    · simp [World.unserved, World.popMessage, hpc]
    · simp [underway, World.popMessage, hpc, onTheWay]
  | find hpc hi hr =>
    refine feed_idle rfl rfl (bound_congr rfl rfl rfl fun _ => ?_) ?_
    · simp [World.unserved, hpc]
    · simp [underway, hpc, onTheWay]
  | @pass chunk j rest hpc hj =>
    refine feed_idle rfl rfl (bound_congr rfl rfl rfl fun hr => ?_) ?_
    · have hne : i ≠ j := by
        rintro rfl
        exact hj ⟨(mem_manager_of_running hw hr).1, hr⟩
      simp [World.unserved, hpc, hne]
    · simp [underway, hpc, onTheWay]
  | @refuse chunk j rest hpc hj =>
    refine feed_idle rfl rfl (bound_congr rfl rfl rfl fun hr => ?_) ?_
    · have hne : i ≠ j := by
        rintro rfl
        rw [hr] at hj
        cases hj
      simp [World.unserved, hpc, hne]
    · simp [underway, hpc, onTheWay]
  | @send chunk j rest hpc hr =>
    by_cases hi : i = j
    · subst hi
      -- the turn of the session: it takes the last entry of the log
      obtain ⟨hnodup, before, hlast⟩ := h.round chunk (i :: rest) (by rw [hpc]; rfl)
      have hnot := (List.nodup_cons.mp hnodup).1
      have hlen : w.history.log.length = before.length + 1 := by
        simpa [chunks] using congrArg List.length hlast
      have hnext : (chunks w)[(reader w i).upTo]? = some chunk := by
        simp [reader, bound, hr, World.offered, World.unserved, hpc, hlen, hlast]
      have hreader : reader { w with pc := .posting chunk i rest } i =
          ⟨(reader w i).start, (reader w i).upTo + 1, (reader w i).got ++ [chunk]⟩ := by
        simp [reader, bound, hr, World.offered, World.unserved, hpc, hlen, hnot, underway,
          onTheWay]
      rw [hreader]
      exact .next hnext
    · refine feed_idle rfl rfl (bound_congr rfl rfl rfl fun _ => ?_) ?_
      · simp [World.unserved, hpc, hi]
      · simp [underway, hpc, onTheWay, Ne.symm hi]
  | @post chunk j rest hpc =>
    refine feed_idle rfl rfl (bound_congr (running_update (by rfl) i) rfl rfl fun _ => ?_) ?_
    · simp [World.unserved, hpc]
    · by_cases hi : i = j
      · subst hi
        simp [underway, hpc, onTheWay, sends, Session.post, SessionRun.chunkOf]
      · simp [underway, hpc, onTheWay, Ne.symm hi, Function.update_of_ne hi]
  | @close j rest hpc =>
    have hstop := sends_stop (w.session j)
    have hsends := sends_update (w := w) (j := j) ⟨hstop.1, hstop.2.2⟩ i
    refine feed_idle rfl rfl ?_ ?_
    · rw [← bound_setSession (w := w) (j := j) (s := (w.session j).stop.1.aboutTo
        (w.session j).stop.2) (by simp [hstop.2.1]) i]
      refine bound_congr rfl rfl rfl fun _ => ?_
      simp [World.unserved, World.setSession, hpc]
    · simp [underway, hsends.1, hpc, onTheWay, World.setSession]
  | @io j a s pushed hj ha hio =>
    have hspec := SessionRun.ioStep_spec (posting_no_read hw j) hio
    have hbound := bound_setSession (w := w) hspec.running i
    by_cases hi : i = j
    · subst hi
      -- what leaves the strand comes on the send queue
      have hsends := (hspec.sends ha (h.noSends i)).1
      refine feed_idle rfl rfl hbound ?_
      simp [underway, World.setSession, hsends]
    · exact feed_idle rfl rfl hbound
        (by simp [underway, World.setSession, Function.update_of_ne hi])

/-! ### What the log holds -/

/-- A response has the content and the client's id of the message it answers, and the name and
the id of the session it came from. -/
def Answers (s : Sent) : Prop :=
  ∃ message, s.entry.message = .c2sChat message ∧ s.response.content = message.content ∧
    s.response.clientMessageId = message.clientMessageId ∧
    s.response.senderName = playerName s.entry.sessionId ∧
    s.response.senderSessionId = .ofNat s.entry.sessionId

/-- The entry that is dispatched and not popped yet. -/
def current (w : World) : List MessageQueueEntry :=
  if (roundOf w.pc).isSome then w.messageQueue.take 1 else []

lemma current_of_none (h : roundOf w.pc = none) : current w = [] := by simp [current, h]

/-- The log belongs to the entries taken from the queue, and each response is in its chunk. -/
structure Recorded (pb : Protobuf) (w : World) : Prop where
  queue : w.history.log.map Sent.entry =
    (w.history.popped ++ current w).filter fun entry => entry.messageType = .c2sChat
  answers : ∀ s ∈ w.history.log, Answers s
  nextMessageId : w.room.nextMessageId = .ofNat (w.history.log.length + 1)
  serverMessageId : ∀ (k : ℕ) (s : Sent), w.history.log[k]? = some s →
    s.response.serverMessageId = .ofNat (k + 1)
  chunk : ∀ s ∈ w.history.log, w.sendBuffers.Stored s.chunk ∧
    w.sendBuffers.bytes s.chunk = packet pb (.s2cChat s.response)

lemma recorded_init : Recorded pb init where
  queue := rfl
  answers s h := by cases h
  nextMessageId := rfl
  serverMessageId k s h := by cases h
  chunk s h := by cases h

lemma Recorded.of_eq (h : Recorded pb w) (hlog : w'.history.log = w.history.log)
    (hqueue : (w'.history.popped ++ current w').filter (fun e => e.messageType = .c2sChat) =
      (w.history.popped ++ current w).filter fun e => e.messageType = .c2sChat)
    (hnext : w'.room.nextMessageId = w.room.nextMessageId)
    (hbuf : w'.sendBuffers = w.sendBuffers) : Recorded pb w' where
  queue := by rw [hlog, hqueue]; exact h.queue
  answers := hlog ▸ h.answers
  nextMessageId := by rw [hlog, hnext]; exact h.nextMessageId
  serverMessageId := hlog ▸ h.serverMessageId
  chunk := by rw [hlog, hbuf]; exact h.chunk

theorem recorded_step (h : Recorded pb w) (hs : Step build pb w w') : Recorded pb w' := by
  cases hs with
  | @plain pc running es hr hpc =>
    refine h.of_eq rfl ?_ rfl rfl
    rcases hpc with rfl | ⟨h1, h2⟩
    · rfl
    · simp [current, roundOf_plain h1, roundOf_plain h2]
  | accept hpc hr => exact h.of_eq rfl (by simp [current, hpc, World.accept, roundOf]) rfl rfl
  | startPost hpc => exact h.of_eq rfl (by simp [current, hpc, roundOf]) rfl rfl
  | @event i e rest hpc he =>
    have hnone := roundOf_plain hpc
    cases e with
    | close => exact h.of_eq rfl rfl rfl rfl
    | receive =>
      unfold World.handleSessionEvent
      split_ifs
      · exact h.of_eq rfl (by simp only [current, hnone]; rfl) rfl rfl
      · exact h.of_eq rfl rfl rfl rfl
  | drain hpc hd =>
    refine h.of_eq rfl ?_ rfl rfl
    rw [current_of_none (w := w) (by rw [hpc]; rfl), current_of_none]
    dsimp only
    split_ifs <;> rfl
  | @chat entry rest message nowMs order _ hpc hq ht hm ho hs =>
    obtain ⟨sendBuffers, chunk, hser, rfl⟩ := handleChat_spec hs
    obtain ⟨hbytes, hstored, hframe⟩ := serializeToSendBuffer_some hser
    refine ⟨?_, fun s hmem => ?_, ?_, fun k s hk => ?_, fun s hmem => ?_⟩
    · have hqueue := h.queue
      simp only [current, hpc, roundOf, Option.isSome_none, Bool.false_eq_true, if_false,
        List.append_nil] at hqueue
      simp [current, roundOf, hq, ht, hqueue]
    · rcases List.mem_append.mp hmem with hmem | hmem
      · exact h.answers s hmem
      · rw [List.mem_singleton.mp hmem]
        exact ⟨message, hm, rfl, rfl, ChatRoom.senderName_respond _ _ _ _, rfl⟩
    · simp [ChatRoom.respond, h.nextMessageId]
    · rcases lt_or_ge k w.history.log.length with hlt | hge
      · exact h.serverMessageId k s (by rwa [List.getElem?_append_left hlt] at hk)
      · obtain ⟨hlt, hk⟩ := List.getElem?_eq_some_iff.mp hk
        obtain rfl : k = w.history.log.length := by
          rw [List.length_append, List.length_singleton] at hlt
          omega
        rw [← hk]
        simp [ChatRoom.respond, h.nextMessageId]
    · rcases List.mem_append.mp hmem with hmem | hmem
      · obtain ⟨hst, hb⟩ := h.chunk s hmem
        obtain ⟨hst', hb'⟩ := hframe s.chunk hst
        exact ⟨hst', hb'.trans hb⟩
      · rw [List.mem_singleton.mp hmem]
        exact ⟨hstored, hbytes⟩
  | noHandler hpc hq ht =>
    exact h.of_eq rfl (by simp [current, hpc, hq, ht, World.popMessage, roundOf]) rfl rfl
  | finish hpc =>
    exact h.of_eq rfl (by simp [current, hpc, World.popMessage, roundOf]) rfl rfl
  | find hpc | pass hpc | send hpc | refuse hpc | post hpc | close hpc =>
    exact h.of_eq rfl (by simp [current, hpc, roundOf, World.setSession]) rfl rfl
  | io => exact h.of_eq rfl rfl rfl rfl

/-! ### What a step writes down -/

/-- The history tells what happened: what is in the log or was pushed to the message queue
stays; `acceptedAt` and `stoppedAt` tell when a session was accepted and when its flag was
cleared; `put` tells what was put on the send queue of a session. -/
structure Faithful (w w' : World) : Prop where
  log : w.history.log <+: w'.history.log
  arrived : w.history.popped ++ w.messageQueue <+: w'.history.popped ++ w'.messageQueue
  acceptedAt : ∀ i, w'.history.acceptedAt i =
    if w.nextSessionId ≤ i ∧ i < w'.nextSessionId then w.history.log.length
    else w.history.acceptedAt i
  stoppedAt : ∀ i, w'.history.stoppedAt i =
    if (w.session i).running ∧ ¬(w'.session i).running then w.offered i
    else w.history.stoppedAt i
  put : ∀ i, ∃ chunks, w'.history.put i = w.history.put i ++ chunks ∧
    ((w'.session i).sendQueue = (w.session i).sendQueue ++ chunks ∨
      chunks = [] ∧ (w'.session i).sendQueue = (w.session i).sendQueue.tail)

lemma faithful_of_eq (hlog : w.history.log <+: w'.history.log)
    (harr : w.history.popped ++ w.messageQueue <+: w'.history.popped ++ w'.messageQueue)
    (hacc : ∀ i, w'.history.acceptedAt i =
      if w.nextSessionId ≤ i ∧ i < w'.nextSessionId then w.history.log.length
      else w.history.acceptedAt i)
    (hstop : w'.history.stoppedAt = w.history.stoppedAt)
    (hput : w'.history.put = w.history.put)
    (hs : ∀ i, ((w.session i).running = true → (w'.session i).running = true) ∧
      (w'.session i).sendQueue = (w.session i).sendQueue) : Faithful w w' where
  log := hlog
  arrived := harr
  acceptedAt := hacc
  stoppedAt i := by
    rw [hstop, if_neg fun h => h.2 ((hs i).1 h.1)]
  put i := ⟨[], by simp [hput], .inl (by simp [(hs i).2])⟩

lemma acceptedAt_same (hn : w'.nextSessionId = w.nextSessionId)
    (h : w'.history.acceptedAt = w.history.acceptedAt) (i : ℕ) : w'.history.acceptedAt i =
      if w.nextSessionId ≤ i ∧ i < w'.nextSessionId then w.history.log.length
      else w.history.acceptedAt i := by
  rw [h, hn, if_neg (by omega)]

lemma session_update {j : ℕ} {s : Session Chunk}
    (hs : ((w.session j).running = true → s.running = true) ∧
      s.sendQueue = (w.session j).sendQueue) (i : ℕ) :
    ((w.session i).running = true → (Function.update w.session j s i).running = true) ∧
      (Function.update w.session j s i).sendQueue = (w.session i).sendQueue :=
  (Function.forall_update_iff w.session fun i s' =>
    ((w.session i).running = true → s'.running = true) ∧
      s'.sendQueue = (w.session i).sendQueue).mpr ⟨hs, fun _ _ => ⟨id, rfl⟩⟩ i

lemma push_queue {queue queue' : MessageQueue} {sessionId : ℕ} {view : PacketView}
    (h : push build pb queue sessionId view = .ok queue') : queue <+: queue' := by
  unfold push at h
  split at h
  · cases h
  · split_ifs at h with hsize
    simp only at h
    split_ifs at h
    cases h
    exact List.prefix_append _ _

lemma drain_queue {κ : Type*} (sessionId : ℕ) (d : Drain κ) :
    d.queue <+: (d.step build pb sessionId).queue := by
  cases hpc : d.pc with
  | push view =>
    simp only [Drain.step, hpc]
    cases hp : push build pb d.queue sessionId view with
    | ok queue => exact push_queue hp
    | error f => exact List.prefix_rfl
  | getFrontPacket =>
    simp only [Drain.step, hpc]
    split <;> exact List.prefix_rfl
  | popFrontPacket =>
    simp only [Drain.step, hpc]
    split <;> exact List.prefix_rfl
  | outside | receive | post | fault | nullSession =>
    simp only [Drain.step, hpc]
    exact List.prefix_rfl

lemma sendQueue_drain {κ : Type*} (sessionId : ℕ) (d : Drain κ) :
    (d.step build pb sessionId).session.sendQueue = d.session.sendQueue := by
  rcases SessionRun.drain_cases build pb sessionId d with
    ⟨hs, -⟩ | ⟨-, b, hs⟩ | ⟨-, -, hs⟩ <;> rw [hs]
  rfl

lemma popMessage_arrived : w.history.popped ++ w.messageQueue =
    w.popMessage.history.popped ++ w.popMessage.messageQueue := by
  cases hq : w.messageQueue <;> simp [World.popMessage, hq]

lemma faithful_setSession {j : ℕ} {s : Session Chunk} {chunks : List Chunk} {pc events}
    (hq : s.sendQueue = (w.session j).sendQueue ++ chunks ∨
      chunks = [] ∧ s.sendQueue = (w.session j).sendQueue.tail) :
    Faithful w { w.setSession j s with
      pc := pc
      sessionEvents := events
      history.put := Function.update w.history.put j (w.history.put j ++ chunks) } where
  log := List.prefix_rfl
  arrived := List.prefix_rfl
  acceptedAt := acceptedAt_same rfl rfl
  stoppedAt i := by
    by_cases hi : i = j
    · subst hi
      simp only [World.setSession, Function.update_self]
      split_ifs <;> simp
    · simp only [World.setSession, Function.update_of_ne hi]
      split_ifs <;> simp_all
  put i := by
    by_cases hi : i = j
    · subst hi
      exact ⟨chunks, by simp, by simpa [World.setSession] using hq⟩
    · exact ⟨[], by simp [Function.update_of_ne hi],
        .inl (by simp [World.setSession, Function.update_of_ne hi])⟩

theorem faithful_step (hs : Step build pb w w') : Faithful w w' := by
  cases hs with
  | plain | find | pass | send | refuse =>
    exact faithful_of_eq List.prefix_rfl List.prefix_rfl (acceptedAt_same rfl rfl) rfl rfl
      fun i => ⟨id, rfl⟩
  | accept hpc hr =>
    refine faithful_of_eq List.prefix_rfl List.prefix_rfl (fun i => ?_) rfl rfl
      (session_update ⟨fun _ => (sends_start _).2.1, ?_⟩)
    · by_cases hi : i = w.nextSessionId
      · subst hi
        simp [World.accept]
      · have hnot : ¬(w.nextSessionId ≤ i ∧ i < w.nextSessionId + 1) := by omega
        exact (Function.update_of_ne hi _ _).trans (if_neg hnot).symm
    · unfold Session.start
      split_ifs <;> rfl
  | startPost | post =>
    exact faithful_of_eq List.prefix_rfl List.prefix_rfl (acceptedAt_same rfl rfl) rfl rfl
      (session_update ⟨id, rfl⟩)
  | @event i e rest hpc he =>
    cases e with
    | close =>
      exact faithful_of_eq List.prefix_rfl List.prefix_rfl (acceptedAt_same rfl rfl) rfl rfl
        fun i => ⟨id, rfl⟩
    | receive =>
      unfold World.handleSessionEvent
      split_ifs <;>
        exact faithful_of_eq List.prefix_rfl List.prefix_rfl (acceptedAt_same rfl rfl) rfl rfl
          fun i => ⟨id, rfl⟩
  | @drain i pc d hpc hd =>
    subst hd
    refine faithful_of_eq List.prefix_rfl ?_ (acceptedAt_same rfl rfl) rfl rfl
      (session_update ⟨fun hr => ?_, sendQueue_drain _ _⟩)
    · exact (List.prefix_append_right_inj _).mpr (drain_queue i ⟨pc, w.session i, w.messageQueue⟩)
    · exact (sends_drain build pb i ⟨pc, w.session i, w.messageQueue⟩).2.1.trans hr
  | chat hpc hq ht hm ho hs =>
    obtain ⟨sendBuffers, chunk, -, rfl⟩ := handleChat_spec hs
    exact faithful_of_eq (List.prefix_append _ _) List.prefix_rfl (acceptedAt_same rfl rfl) rfl rfl
      fun i => ⟨id, rfl⟩
  | noHandler | finish =>
    exact faithful_of_eq List.prefix_rfl (popMessage_arrived ▸ List.prefix_rfl)
      (acceptedAt_same rfl rfl) rfl rfl fun i => ⟨id, rfl⟩
  | @close i rest hpc =>
    have hq : ((w.session i).stop.1.aboutTo (w.session i).stop.2).sendQueue =
        (w.session i).sendQueue ++ [] := by
      unfold Session.stop
      split_ifs <;> simp [Session.aboutTo]
    have hput : Function.update w.history.put i (w.history.put i ++ []) = w.history.put := by simp
    have hf : Faithful w { w.setSession i ((w.session i).stop.1.aboutTo (w.session i).stop.2) with
        pc := .closing rest
        sessionEvents := w.sessionEvents
        history.put := Function.update w.history.put i (w.history.put i ++ []) } :=
      faithful_setSession (.inl hq)
    rw [hput] at hf
    exact hf
  | @io i a s pushed hi ha hio =>
    exact faithful_setSession (SessionRun.sendQueue_ioStep hio)

/-! ### Every run -/

def packets (pb : Protobuf) (w : World) : List (List UInt8) :=
  w.history.log.map fun s => packet pb (.s2cChat s.response)

/-- The responses are one sequence for all. The chunks that were put on the send queue of a
session, with those that are on their way to it, are the packets of a part of the sequence. -/
structure TotalOrder (pb : Protobuf) (w : World) : Prop where
  queue : w.history.log.map Sent.entry =
    (w.history.popped ++ current w).filter fun entry => entry.messageType = .c2sChat
  answers : ∀ s ∈ w.history.log, Answers s
  senderSessionId : ∀ s ∈ w.history.log, s.entry.sessionId < 2 ^ 32 →
    s.response.senderSessionId.toNat = s.entry.sessionId
  serverMessageId : w.history.log.length < 2 ^ 64 →
    (w.history.log.map fun s => s.response.serverMessageId.toNat) =
      List.range' 1 w.history.log.length
  segment : ∀ i, (w.history.put i ++ underway w i).map w.sendBuffers.bytes =
    ((packets pb w).take (bound w i)).drop (w.history.acceptedAt i)
  acceptedAt_le : ∀ i, w.history.acceptedAt i ≤ bound w i
  bound_le : ∀ i, bound w i ≤ w.history.log.length

/-- What holds in every state. -/
structure Inv (pb : Protobuf) (w : World) : Prop where
  rounds : Rounds w
  readers : ∀ i, (reader w i).InStep (chunks w)
  recorded : Recorded pb w

lemma inv_init : Inv pb init where
  rounds := rounds_init
  readers _ := ⟨le_refl _, le_refl _, rfl⟩
  recorded := recorded_init

lemma inv_reachable (h : Reachable (step build pb) init w) : Inv pb w := by
  refine (Reachable.invariant (I := fun w => Reachable (step build pb) init w ∧ Inv pb w) ?_
    ⟨.refl _, inv_init⟩ h).2
  rintro w a w' ⟨hw, hinv⟩ hs
  have hs' := step_spec hs
  exact ⟨hw.next hs, rounds_step hw hinv.rounds hs',
    fun i => (hinv.readers i).step (feed_step hw hinv.rounds hs' i),
    recorded_step hinv.recorded hs'⟩

lemma Recorded.numbers (h : Recorded pb w) (hlen : w.history.log.length < 2 ^ 64) :
    (w.history.log.map fun s => s.response.serverMessageId.toNat) =
      List.range' 1 w.history.log.length := by
  apply List.ext_getElem (by simp)
  intro k h1 h2
  have hk : k < w.history.log.length := by simpa using h1
  have hid := h.serverMessageId k _ (List.getElem?_eq_getElem hk)
  rw [List.getElem_map, hid, List.getElem_range', UInt64.toNat_ofNat',
    Nat.mod_eq_of_lt (by omega)]
  omega

lemma Recorded.packets (h : Recorded pb w) :
    (chunks w).map w.sendBuffers.bytes = packets pb w := by
  rw [chunks, BroadcastRun.packets, List.map_map]
  exact List.map_congr_left fun s hs => (h.chunk s hs).2

/-- **The chat room is a broadcast in total order.** There is one sequence of responses, one
for each chat message dispatched, numbered from 1. Each session is put on its send queue the
part of the sequence from where it was accepted to where it was stopped. -/
theorem total_order (h : Reachable (step build pb) init w) :
    TotalOrder pb w ∧ ∀ a w', step build pb w a = some w' → Faithful w w' := by
  obtain ⟨-, hreaders, hrec⟩ := inv_reachable h
  refine ⟨⟨hrec.queue, hrec.answers, fun s hs hlt => ?_, hrec.numbers, fun i => ?_,
    fun i => (hreaders i).start_le, fun i => ?_⟩, fun a w' hs => faithful_step (step_spec hs)⟩
  · obtain ⟨message, -, -, -, -, hid⟩ := hrec.answers s hs
    rw [hid, UInt32.toNat_ofNat', Nat.mod_eq_of_lt hlt]
  · have hgot := (hreaders i).got_eq
    rw [← hrec.packets, ← List.map_take, ← List.map_drop]
    exact congrArg _ hgot
  · exact le_trans (hreaders i).upTo_le (by simp [chunks])

/-- A client is accepted, sends an empty chat message, and gets the response. -/
def oneChat : List Act :=
  let main : Act := .main 1 []
  let accepted := [.service .accept, main, main, main]
  let received := [.io 1 (.strand []), .io 1 (.readDone 0 (.ok [4, 0, 0xD0, 7])),
    .io 1 (.readQueue 0), .io 1 (.strand [])]
  let pushed := [main, main, main, main, main, main, main, main]
  let answered := [main, .main 1 [1], main, main, main, main]
  accepted ++ received ++ pushed ++ answered ++ [.io 1 (.strand []), .io 1 (.strand [])]

/-- After it, the packet of the response is on the send queue of that client. -/
theorem total_order_oneChat : ∃ w, run (step .Release proto3) init oneChat = some w ∧
    (w.session 1).sendQueue.length = 1 ∧ w.history.log.length = 1 ∧ TotalOrder proto3 w := by
  obtain ⟨w, hw⟩ := Option.isSome_iff_exists.mp
    (show (run (step .Release proto3) init oneChat).isSome = true by decide)
  have hlen : ((run (step .Release proto3) init oneChat).map fun w =>
      ((w.session 1).sendQueue.length, w.history.log.length)) = some (1, 1) := by decide
  rw [hw] at hlen
  simp only [Option.map_some, Option.some.injEq, Prod.mk.injEq] at hlen
  exact ⟨w, hw, hlen.1, hlen.2, (total_order ⟨oneChat, hw⟩).1⟩

end ByteborneWorld.BroadcastRun
