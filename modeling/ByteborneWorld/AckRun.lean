import ByteborneWorld.ChatRoomModel
import ByteborneWorld.GameClientModel
import ByteborneWorld.Lts

/-!
Several clients and the server: whose pending message does a response acknowledge?

The client behind session `i` of the server is client `i`. Messages travel in order in each
direction, and are lost when a connection goes down; how the server queues those of different
clients is left open.
-/

namespace ByteborneWorld.AckRun

open ByteborneWorld.ChatProto ByteborneWorld.ChatRoomModel ByteborneWorld.ChatWindowModel
open ByteborneWorld.GameClientModel ByteborneWorld.Lts

/-- A response on its way, with the session and the message it answers. -/
structure Answer where
  sender : ℕ
  message : C2SChat
  response : S2CChat

structure Net where
  room : ChatRoom
  client : ℕ → GameClient
  toServer : ℕ → List C2SChat
  toClient : ℕ → List Answer
  /-- the chats a client has handed to its session; no step looks at them -/
  sent : ℕ → List C2SChat
  /-- the ids a client has given out since it was cleared, without those of its own messages
  whose answer it has handled; no step looks at them -/
  awaiting : ℕ → Finset UInt64

/-- What a client does by itself. -/
inductive ClientAct
  | clear
  | setUsername (name : Str)
  | addChatMessage (sender message : Str) (clock : Clock)
  | serviceClose (clock : Clock)
  | serviceConnect (sessionId : ℕ) (clock : Clock)
  | sessionClose (sessionId : ℕ) (clock : Clock)
  | stop

inductive Act
  /-- client `i` calls `sendChatMessage` -/
  | send (i : ℕ) (message : Str) (clock : Clock) (sessionRunning : Bool)
  /-- the server handles the next chat of session `i`; the sends to `reached` succeed -/
  | handleChat (i : ℕ) (nowMs : Int64) (reached : List ℕ)
  /-- client `i` handles the next response -/
  | handleMessage (i : ℕ)
  | client (i : ℕ) (a : ClientAct)
  | accept (i : ℕ)
  | close (i : ℕ)
  /-- the connection of client `i` goes down; so much of what is on its way still arrives -/
  | lose (i up down : ℕ)

def ClientAct.apply (c : GameClient) : ClientAct → GameClient
  | .clear => { c with chatWindow := c.chatWindow.clear }
  | .setUsername name => { c with chatWindow.usernameText := name }
  | .addChatMessage sender message clock =>
    { c with chatWindow := c.chatWindow.addChatMessage sender message clock }
  | .serviceClose clock => c.handleServiceClose clock
  | .serviceConnect sessionId clock => c.handleServiceConnect sessionId clock
  | .sessionClose sessionId clock => c.handleSessionClose sessionId clock
  | .stop => c.stop

def init (clock : ℕ → Clock) : Net where
  room := .new
  client i := (GameClient.new (clock i) (clock i) (clock i)).start
  toServer _ := []
  toClient _ := []
  sent _ := []
  awaiting _ := ∅

namespace Net

variable (s : Net)

def send (i : ℕ) (message : Str) (clock : Clock) (sessionRunning : Bool) : Net :=
  let (c, chat) := (s.client i).sendChatMessage message clock sessionRunning
  { s with
    client := Function.update s.client i c
    toServer := Function.update s.toServer i (s.toServer i ++ chat.toList)
    sent := Function.update s.sent i (s.sent i ++ chat.toList)
    awaiting :=
      if ¬(s.client i).connected ∨ (s.client i).serverSessionId = 0 then s.awaiting
      else Function.update s.awaiting i
        (insert (s.client i).nextClientMessageId (s.awaiting i)) }

def handleChat (i : ℕ) (nowMs : Int64) (reached : List ℕ) : Option Net :=
  match s.toServer i with
  | [] => none
  | message :: rest =>
    if ∀ j ∈ reached, j ∈ s.room.activeSessions then
      let (room, response) := s.room.respond i message nowMs
      some { s with
        room := room
        toServer := Function.update s.toServer i rest
        toClient := fun j =>
          if j ∈ reached then s.toClient j ++ [⟨i, message, response⟩] else s.toClient j }
    else none

def handleMessage (fmt : Int64 → Str) (i : ℕ) : Option Net :=
  match s.toClient i with
  | [] => none
  | answer :: rest =>
    if (s.client i).running then
      ((s.client i).handleMessage fmt answer.response).map fun c =>
        { s with
          client := Function.update s.client i c
          toClient := Function.update s.toClient i rest
          awaiting :=
            if answer.sender = i then
              Function.update s.awaiting i
                ((s.awaiting i).erase answer.message.clientMessageId)
            else s.awaiting }
    else none

def clientAct (i : ℕ) (a : ClientAct) : Net :=
  { s with
    client := Function.update s.client i (a.apply (s.client i))
    awaiting := match a with
      | .clear => Function.update s.awaiting i ∅
      | _ => s.awaiting }

end Net

def step (fmt : Int64 → Str) (s : Net) : Act → Option Net
  | .send i message clock sessionRunning => some (s.send i message clock sessionRunning)
  | .handleChat i nowMs reached => s.handleChat i nowMs reached
  | .handleMessage i => s.handleMessage fmt i
  | .client i a => some (s.clientAct i a)
  | .accept i => some { s with room := s.room.onClientAccepted i }
  | .close i => some { s with room := s.room.onClientClosed i }
  | .lose i up down => some { s with
      toServer := Function.update s.toServer i ((s.toServer i).take up)
      toClient := Function.update s.toClient i ((s.toClient i).take down) }

/-! ### The property -/

def Acknowledges (fmt : Int64 → Str) (c : GameClient) (response : S2CChat) : Prop :=
  ∃ w, c.tryAck fmt response = some (w, true)

/-- The response was made of a message that client `i` sent with the id in the response. -/
structure Own (s : Net) (i : ℕ) (answer : Answer) : Prop where
  sender : answer.sender = i
  sent : answer.message ∈ s.sent i
  id : answer.message.clientMessageId = answer.response.clientMessageId
  made : ∃ room nowMs, (ChatRoom.respond room i answer.message nowMs).2 = answer.response

/-- Only a response to an own message acknowledges a pending one. -/
def Sound (fmt : Int64 → Str) (s : Net) : Act → Prop
  | .handleMessage i => ∀ answer rest, s.toClient i = answer :: rest → (s.client i).running →
      Acknowledges fmt (s.client i) answer.response → Own s i answer
  | _ => True

/-- No client handles the response to a message of another client under an id for which it
awaits a response itself. -/
def Meets (s : Net) : Act → Prop
  | .handleMessage i => ∀ answer rest, s.toClient i = answer :: rest → (s.client i).running →
      answer.sender = i ∨ answer.response.clientMessageId = 0 ∨
        answer.response.clientMessageId ∉ s.awaiting i
  | _ => True

/-! ### The side table of a client -/

variable {fmt : Int64 → Str} {s s' : Net} {w : ChatWindow} {c : GameClient}

lemma ClientAct.apply_spec (h : InRange c.chatWindow) (a : ClientAct) :
    InRange (a.apply c).chatWindow ∧
      ((a = .clear ∧ ∀ cid, (a.apply c).chatWindow.pendingIndex cid = none) ∨
        (a ≠ .clear ∧ (a.apply c).chatWindow.pendingIndex = c.chatWindow.pendingIndex)) := by
  have hstatus (b : Bool) : InRange (c.chatWindow.setConnectionStatus b) := h
  cases a with
  | clear => exact ⟨fun _ _ hi => by (cases hi), .inl ⟨rfl, fun _ => rfl⟩⟩
  | setUsername name => exact ⟨h, .inr ⟨by simp, rfl⟩⟩
  | addChatMessage sender message clock =>
    exact ⟨h.addChatMessage sender message clock, .inr ⟨by simp, rfl⟩⟩
  | serviceClose clock =>
    exact ⟨(hstatus false).addChatMessage _ _ clock, .inr ⟨by simp, rfl⟩⟩
  | serviceConnect sessionId clock =>
    simp only [ClientAct.apply, GameClient.handleServiceConnect]
    split_ifs
    · exact ⟨(hstatus true).addChatMessage _ _ clock, .inr ⟨by simp, rfl⟩⟩
    · exact ⟨h, .inr ⟨by simp, rfl⟩⟩
  | sessionClose sessionId clock =>
    simp only [ClientAct.apply, GameClient.handleSessionClose]
    split_ifs
    · exact ⟨(hstatus false).addChatMessage _ _ clock, .inr ⟨by simp, rfl⟩⟩
    · exact ⟨h, .inr ⟨by simp, rfl⟩⟩
  | stop => exact ⟨h, .inr ⟨by simp, rfl⟩⟩

variable (fmt) in
lemma handleMessage_spec (h : InRange c.chatWindow) (response : S2CChat) :
    ∃ c', c.handleMessage fmt response = some c' ∧ InRange c'.chatWindow ∧
      ((Acknowledges fmt c response ∧ response.clientMessageId ≠ 0 ∧
          c.chatWindow.pendingIndex response.clientMessageId ≠ none ∧
          c'.chatWindow.pendingIndex =
            Function.update c.chatWindow.pendingIndex response.clientMessageId none) ∨
        (¬Acknowledges fmt c response ∧ (response.clientMessageId = 0 ∨
          c.chatWindow.pendingIndex response.clientMessageId = none) ∧
          c'.chatWindow.pendingIndex = c.chatWindow.pendingIndex)) := by
  unfold GameClient.handleMessage Acknowledges
  have hadd : InRange (c.chatWindow.addAuthoritativeMessage fmt response.senderName
      response.content response.serverMessageId response.serverSentAtMs
      response.clientMessageId) := h.addAuthoritativeMessage _ _ _ _ _
  by_cases h0 : response.clientMessageId = 0
  · have htry : c.tryAck fmt response = some (c.chatWindow, false) := by
      simp [GameClient.tryAck, h0]
    rw [htry]
    exact ⟨_, rfl, hadd, .inr ⟨by simp, .inl h0, rfl⟩⟩
  · rcases h.ackPendingMessage fmt response.clientMessageId response.senderName
      response.content response.serverMessageId response.serverSentAtMs with
      ⟨hnone, hack⟩ | ⟨hsome, w', hack, hrange, hindex⟩
    · have htry : c.tryAck fmt response = some (c.chatWindow, false) := by
        rw [GameClient.tryAck, if_pos h0, hack]
      rw [htry]
      exact ⟨_, rfl, hadd, .inr ⟨by simp, .inr hnone, rfl⟩⟩
    · have htry : c.tryAck fmt response = some (w', true) := by
        rw [GameClient.tryAck, if_pos h0, hack]
      rw [htry]
      exact ⟨_, rfl, hrange, .inl ⟨⟨w', rfl⟩, h0, hsome, hindex⟩⟩

/-! ### Runs -/

/-- A response on its way was made of a message that was sent. -/
structure Made (s : Net) (answer : Answer) : Prop where
  sent : answer.message ∈ s.sent answer.sender
  made : ∃ room nowMs,
    (ChatRoom.respond room answer.sender answer.message nowMs).2 = answer.response

/-- What holds along the runs that meet the condition. -/
structure Inv (s : Net) : Prop where
  toServer : ∀ i, ∀ message ∈ s.toServer i, message ∈ s.sent i
  toClient : ∀ i, ∀ answer ∈ s.toClient i, Made s answer
  inRange : ∀ i, InRange (s.client i).chatWindow
  awaiting : ∀ i cid, cid ≠ 0 →
    (cid ∈ s.awaiting i ↔ (s.client i).chatWindow.pendingIndex cid ≠ none)

lemma Made.id {answer : Answer} (h : Made s answer) :
    answer.message.clientMessageId = answer.response.clientMessageId := by
  obtain ⟨room, nowMs, heq⟩ := h.made
  rw [← heq]
  rfl

lemma pendingIndex_new (clock₁ clock₂ clock₃ : Clock) (cid : UInt64) :
    (ChatWindow.new clock₁ clock₂ clock₃).pendingIndex cid = none := rfl

lemma inv_init (clock : ℕ → Clock) : Inv (init clock) where
  toServer i message h := by cases h
  toClient i answer h := by cases h
  inRange i cid k h := by
    have hnone : ((init clock).client i).chatWindow.pendingIndex cid = none :=
      pendingIndex_new _ _ _ cid
    rw [hnone] at h
    cases h
  awaiting i cid h := iff_of_false (by simp [init]) (not_not.mpr (pendingIndex_new _ _ _ cid))

lemma Inv.of_eq (h : Inv s) (hclient : s'.client = s.client) (hsent : s'.sent = s.sent)
    (hawait : s'.awaiting = s.awaiting)
    (hup : ∀ i, ∀ m ∈ s'.toServer i, m ∈ s.toServer i)
    (hdown : ∀ i, ∀ a ∈ s'.toClient i, Made s a) : Inv s' where
  toServer i m hm := by rw [hsent]; exact h.toServer i m (hup i m hm)
  toClient i a ha := ⟨by rw [hsent]; exact (hdown i a ha).sent, (hdown i a ha).made⟩
  inRange := by rw [hclient]; exact h.inRange
  awaiting := by rw [hclient, hawait]; exact h.awaiting

lemma Inv.send (h : Inv s) (i : ℕ) (message : Str) (clock : Clock) (sessionRunning : Bool) :
    Inv (s.send i message clock sessionRunning) := by
  have hup (chat : Option C2SChat) (j : ℕ) (m : C2SChat)
      (hm : m ∈ Function.update s.toServer i (s.toServer i ++ chat.toList) j) :
      m ∈ Function.update s.sent i (s.sent i ++ chat.toList) j := by
    simp only [Function.update_apply] at hm ⊢
    split_ifs at hm ⊢ with hj
    · exact List.mem_append.mpr ((List.mem_append.mp hm).imp_left (h.toServer i m))
    · exact h.toServer j m hm
  have hsent (chat : Option C2SChat) (j : ℕ) (m : C2SChat) (hm : m ∈ s.sent j) :
      m ∈ Function.update s.sent i (s.sent i ++ chat.toList) j := by
    simp only [Function.update_apply]
    split_ifs with hj
    · exact List.mem_append_left _ (hj ▸ hm)
    · exact hm
  unfold Net.send GameClient.sendChatMessage
  split_ifs with hc
  · refine ⟨hup none, fun j a ha => ?_, fun j => ?_, fun j cid hcid => ?_⟩
    · exact ⟨hsent none _ _ (h.toClient j a ha).sent, (h.toClient j a ha).made⟩
    · simpa using h.inRange j
    · simpa using h.awaiting j cid hcid
  all_goals
    refine ⟨hup _, fun j a ha => ?_, fun j => ?_, fun j cid hcid => ?_⟩
    · exact ⟨hsent _ _ _ (h.toClient j a ha).sent, (h.toClient j a ha).made⟩
    · simp only [Function.update_apply]
      split_ifs
      · exact (h.inRange i).addLocalPendingMessage _ _ _ _
      · exact h.inRange j
    · by_cases hj : j = i
      · subst hj
        have := h.awaiting j cid hcid
        by_cases hid : cid = (s.client j).nextClientMessageId
        · simp [ChatWindow.addLocalPendingMessage, hid]
        · simpa [ChatWindow.addLocalPendingMessage, hid] using this
      · simpa [Function.update_of_ne hj] using h.awaiting j cid hcid

lemma Inv.handleChat (h : Inv s) {i : ℕ} {nowMs : Int64} {reached : List ℕ}
    (hs : s.handleChat i nowMs reached = some s') : Inv s' := by
  unfold Net.handleChat at hs
  split at hs
  · cases hs
  · rename_i message rest hq
    split_ifs at hs with hr
    cases hs
    refine h.of_eq rfl rfl rfl (fun j m hm => ?_) fun j a ha => ?_
    · simp only [Function.update_apply] at hm
      split_ifs at hm with hj
      · rw [hj, hq]
        exact List.mem_cons_of_mem _ hm
      · exact hm
    · dsimp only at ha
      split_ifs at ha
      · rcases List.mem_append.mp ha with ha | ha
        · exact h.toClient j a ha
        · rw [List.mem_singleton.mp ha]
          exact ⟨h.toServer i message (by simp [hq]), _, _, rfl⟩
      · exact h.toClient j a ha

lemma Inv.clientAct (h : Inv s) (i : ℕ) (a : ClientAct) : Inv (s.clientAct i a) := by
  obtain ⟨hrange, hindex⟩ := a.apply_spec (h.inRange i)
  have hmade (j : ℕ) (ans : Answer) (hans : ans ∈ s.toClient j) : Made (s.clientAct i a) ans :=
    ⟨(h.toClient j ans hans).sent, (h.toClient j ans hans).made⟩
  refine ⟨h.toServer, hmade, fun j => ?_, fun j cid hcid => ?_⟩
  · simp only [Net.clientAct, Function.update_apply]
    split_ifs with hj
    · exact hrange
    · exact h.inRange j
  · by_cases hj : j = i
    · subst hj
      rcases hindex with ⟨rfl, hnone⟩ | ⟨hne, heq⟩
      · simp [Net.clientAct, hnone]
      · have hawait : (s.clientAct j a).awaiting = s.awaiting := by
          cases a <;> first | rfl | exact absurd rfl hne
        rw [hawait]
        simpa [Net.clientAct, heq] using h.awaiting j cid hcid
    · have hawait : (s.clientAct i a).awaiting j = s.awaiting j := by
        cases a <;> simp [Net.clientAct, Function.update_of_ne hj]
      rw [hawait]
      simpa [Net.clientAct, Function.update_of_ne hj] using h.awaiting j cid hcid

lemma handleMessage_eq {i : ℕ} (hs : s.handleMessage fmt i = some s') :
    ∃ answer rest c, s.toClient i = answer :: rest ∧ (s.client i).running = true ∧
      (s.client i).handleMessage fmt answer.response = some c ∧
      s' = { s with
        client := Function.update s.client i c
        toClient := Function.update s.toClient i rest
        awaiting :=
          if answer.sender = i then
            Function.update s.awaiting i ((s.awaiting i).erase answer.message.clientMessageId)
          else s.awaiting } := by
  unfold Net.handleMessage at hs
  cases hq : s.toClient i with
  | nil => simp [hq] at hs
  | cons answer rest =>
    cases hrun : (s.client i).running with
    | false => simp [hq, hrun] at hs
    | true =>
      simp only [hq, hrun, if_true, Option.map_eq_some_iff] at hs
      obtain ⟨c, hc, rfl⟩ := hs
      exact ⟨answer, rest, c, rfl, rfl, hc, rfl⟩

lemma Inv.handleMessage (h : Inv s) {i : ℕ} (hm : Meets s (.handleMessage i))
    (hs : s.handleMessage fmt i = some s') : Inv s' := by
  obtain ⟨answer, rest, c, hq, hrun, hc, rfl⟩ := handleMessage_eq hs
  have hmade := h.toClient i answer (by simp [hq])
  have hid := hmade.id
  have hmeets := hm answer rest hq hrun
  obtain ⟨c', hc', hrange, hcase⟩ := handleMessage_spec fmt (h.inRange i) answer.response
  rw [hc] at hc'
  cases hc'
  refine ⟨h.toServer, fun j a ha => ?_, fun j => ?_, fun j cid hcid => ?_⟩
  · have ha' : a ∈ s.toClient j := by
      simp only [Function.update_apply] at ha
      split_ifs at ha with hj
      · rw [hj, hq]
        exact List.mem_cons_of_mem _ ha
      · exact ha
    exact ⟨(h.toClient j a ha').sent, (h.toClient j a ha').made⟩
  · simp only [Function.update_apply]
    split_ifs
    · exact hrange
    · exact h.inRange j
  · by_cases hj : j = i
    · subst hj
      have hold := h.awaiting j
      rcases hcase with ⟨-, h0, hsome, hindex⟩ | ⟨-, hnone, hindex⟩
      · -- the id was awaited, so the response answers an own message
        have hsender : answer.sender = j :=
          (hmeets.resolve_right (not_or.mpr ⟨h0, not_not.mpr ((hold _ h0).mpr hsome)⟩))
        simp only [hsender, if_true, Function.update_self, hid, Finset.mem_erase, hindex,
          hold cid hcid]
        by_cases hne : cid = answer.response.clientMessageId
        · simp [hne]
        · simp [hne]
      · simp only [Function.update_self, hindex]
        split_ifs with hsender
        · rw [Function.update_self, hid, Finset.mem_erase, hold cid hcid]
          refine ⟨And.right, fun hsome => ⟨?_, hsome⟩⟩
          rintro rfl
          exact hsome (hnone.resolve_left hcid)
        · exact hold cid hcid
    · have hawait : (if answer.sender = i then Function.update s.awaiting i
          ((s.awaiting i).erase answer.message.clientMessageId) else s.awaiting) j =
            s.awaiting j := by
        split_ifs
        · exact Function.update_of_ne hj _ _
        · rfl
      simpa [hawait, Function.update_of_ne hj] using h.awaiting j cid hcid

lemma Inv.step (h : Inv s) {a : Act} (hm : Meets s a) (hs : AckRun.step fmt s a = some s') :
    Inv s' := by
  cases a with
  | send i message clock sessionRunning =>
    cases hs
    exact h.send i message clock sessionRunning
  | handleChat i nowMs reached => exact h.handleChat hs
  | handleMessage i => exact h.handleMessage hm hs
  | client i a =>
    cases hs
    exact h.clientAct i a
  | accept i | close i =>
    cases hs
    exact h.of_eq rfl rfl rfl (fun _ _ hm => hm) h.toClient
  | lose i up down =>
    cases hs
    refine h.of_eq rfl rfl rfl (fun j m hm => ?_) fun j ans ha => ?_
    · simp only [Function.update_apply] at hm
      split_ifs at hm with hj
      · exact hj ▸ List.mem_of_mem_take hm
      · exact hm
    · simp only [Function.update_apply] at ha
      split_ifs at ha with hj
      · exact h.toClient j ans (hj ▸ List.mem_of_mem_take ha)
      · exact h.toClient j ans ha

/-- **One step**: an acknowledgement is right exactly if the step meets the condition. -/
lemma Inv.sound_iff_meets (h : Inv s) (a : Act) : Sound fmt s a ↔ Meets s a := by
  cases a with
  | handleMessage i =>
    refine forall_congr' fun answer => forall_congr' fun rest => forall_congr' fun hq =>
      forall_congr' fun hrun => ?_
    have hmade := h.toClient i answer (by simp [hq])
    obtain ⟨c', -, -, hcase⟩ := handleMessage_spec fmt (h.inRange i) answer.response
    constructor
    · intro hsound
      rcases hcase with ⟨hack, -⟩ | ⟨-, h0 | hnone, -⟩
      · exact .inl (hsound hack).sender
      · exact .inr (.inl h0)
      · by_cases h0 : answer.response.clientMessageId = 0
        · exact .inr (.inl h0)
        · exact .inr (.inr fun hmem => (h.awaiting i _ h0).mp hmem hnone)
    · intro hmeets hack
      rcases hcase with ⟨-, h0, hsome, -⟩ | ⟨hnot, -⟩
      · have hsender : answer.sender = i := hmeets.resolve_right
          (not_or.mpr ⟨h0, not_not.mpr ((h.awaiting i _ h0).mpr hsome)⟩)
        exact ⟨hsender, hsender ▸ hmade.sent, hmade.id, hsender ▸ hmade.made⟩
      · exact absurd hack hnot
  | send | handleChat | client | accept | close | lose => exact Iff.rfl

lemma Inv.along (h : Inv s) (acts : List Act) :
    Along (AckRun.step fmt) (Sound fmt) s acts ↔ Along (AckRun.step fmt) Meets s acts :=
  along_iff_of_invariant (fun _ _ _ hinv hm hs => hinv.step hm hs)
    (fun _ a hinv => hinv.sound_iff_meets a) h acts

/-- **When acknowledgements are sound across clients.** In a run every acknowledged pending
message was answered by the response to it, exactly if no client ever handles the response to
another client's message under an id for which it awaits a response itself. -/
theorem ack_iff_meets (fmt : Int64 → Str) (clock : ℕ → Clock) (acts : List Act) :
    Along (step fmt) (Sound fmt) (init clock) acts ↔ Along (step fmt) Meets (init clock) acts :=
  (inv_init clock).along acts

/-- Two clients are connected, and each sends its first message; the server handles that of the
second client first. -/
def bothSend : List Act :=
  [.accept 1, .accept 2,
    .client 1 (.serviceConnect 1 ⟨[], 1⟩), .client 2 (.serviceConnect 1 ⟨[], 1⟩),
    .send 1 [0x61] ⟨[], 2⟩ true, .send 2 [0x62] ⟨[], 2⟩ true, .handleChat 2 3 [1, 2],
    .handleMessage 1]

/-- **The message of the second client takes the place of that of the first**, and nothing is
pending any more. -/
theorem bothSend_not_sound :
    ¬Along (step fun _ => []) (Sound fun _ => []) (init fun _ => ⟨[], 0⟩) bothSend ∧
    (run (step fun _ => []) (init fun _ => ⟨[], 0⟩) bothSend).map (fun s =>
      ((s.client 1).chatWindow.chatMessages.drop 4).map fun m => (m.message, m.pending)) =
        some [([0x62], false)] := by
  refine ⟨fun h => ?_, by decide⟩
  have hmeets := ((inv_init _).along bothSend).mp h
  have hsplit : bothSend = bothSend.take 7 ++ [.handleMessage 1] := rfl
  rw [hsplit] at hmeets
  have hlast := hmeets.right_of_append rfl
  rcases hlast.1 _ _ rfl rfl with h | h | h
  · exact absurd h (by decide)
  · exact absurd h (by decide)
  · exact absurd h (by decide)

end ByteborneWorld.AckRun
