import ByteborneWorld.InputModel
import ByteborneWorld.NeverStuck

/-!
From the keyboard to the session: whatever is typed into the chat window, the client can send
it, and the server can answer it.
-/

namespace ByteborneWorld.InputRun

open ByteborneWorld.Proto3 ByteborneWorld.ChatProto ByteborneWorld.ChatWindowModel
open ByteborneWorld.GameClientModel ByteborneWorld.PacketModel ByteborneWorld.SendModel
open ByteborneWorld.ClientModel (Client startedSession)
open ByteborneWorld.InputModel ByteborneWorld.ResponseSize ByteborneWorld.NeverStuck
open ByteborneWorld.Lts

variable {build : Build} {pb : Protobuf} {fmt : Int64 → Str} {c c' : Client}

/-! ### What only the user changes -/

/-- The texts of the fields, the counter of the messages and the send buffers are as they
were. -/
structure SameInput (c c' : Client) : Prop where
  usernameText : c'.game.chatWindow.usernameText = c.game.chatWindow.usernameText
  chatInputText : c'.game.chatWindow.chatInputText = c.game.chatWindow.chatInputText
  nextClientMessageId : c'.game.nextClientMessageId = c.game.nextClientMessageId
  sendBuffers : c'.sendBuffers = c.sendBuffers

lemma sameInput_handleMessage {g g' : GameClient} {m : S2CChat}
    (h : g.handleMessage fmt m = some g') :
    g'.chatWindow.usernameText = g.chatWindow.usernameText ∧
      g'.chatWindow.chatInputText = g.chatWindow.chatInputText ∧
      g'.nextClientMessageId = g.nextClientMessageId := by
  obtain ⟨⟨w, acknowledged⟩, ht, rfl⟩ := Option.map_eq_some_iff.mp h
  have hw : w.usernameText = g.chatWindow.usernameText ∧
      w.chatInputText = g.chatWindow.chatInputText := by
    unfold GameClient.tryAck ChatWindow.ackPendingMessage at ht
    split_ifs at ht
    · split at ht
      · cases ht
        exact ⟨rfl, rfl⟩
      · obtain ⟨_, -, heq⟩ := Option.map_eq_some_iff.mp ht
        cases heq
        exact ⟨rfl, rfl⟩
    · cases ht
      exact ⟨rfl, rfl⟩
  dsimp only
  split_ifs <;> exact ⟨hw.1, hw.2, rfl⟩

lemma sameInput_dispatch {entry : MessageQueueEntry} (h : c.dispatch build fmt entry = some c') :
    SameInput c c' := by
  unfold Client.dispatch at h
  split at h
  · split at h
    · obtain ⟨g, hg, rfl⟩ := Option.map_eq_some_iff.mp h
      obtain ⟨h1, h2, h3⟩ := sameInput_handleMessage hg
      exact ⟨h1, h2, h3, rfl⟩
    · cases h
  · split_ifs at h
    cases h
    exact ⟨rfl, rfl, rfl, rfl⟩

/-- **Nothing else comes near them.** -/
lemma sameInput_step {a : ClientModel.Act}
    (ha : ∀ message clock, a ≠ .sendChatMessage message clock)
    (hs : ClientModel.step build pb fmt c a = some c') : SameInput c c' := by
  rcases ClientModel.step_cases hs with ⟨-, hs⟩ | ⟨rfl, hnext⟩ | ⟨i, b, rfl, hio⟩
  · cases a with
    | serviceConnect socketOpen clock =>
      obtain ⟨-, hs⟩ := Option.ite_none_right_eq_some.mp hs
      cases hs
      unfold Client.handleServiceConnect GameClient.handleServiceConnect
      split_ifs <;> exact ⟨rfl, rfl, rfl, rfl⟩
    | serviceClose clock =>
      cases hs
      exact ⟨rfl, rfl, rfl, rfl⟩
    | sessionClose i clock =>
      cases hs
      unfold GameClient.handleSessionClose
      simp only
      split_ifs <;> exact ⟨rfl, rfl, rfl, rfl⟩
    | sessionReceive i =>
      cases hs
      unfold Client.handleSessionReceive
      split_ifs
      · split <;> exact ⟨rfl, rfl, rfl, rfl⟩
      · exact ⟨rfl, rfl, rfl, rfl⟩
    | dispatch =>
      simp only [Client.handle] at hs
      split at hs
      · exact sameInput_dispatch hs
      · cases hs
    | sendChatMessage message clock => exact absurd rfl (ha message clock)
    | next | io => cases hs
  · unfold Client.next at hnext
    split at hnext <;> cases hnext <;> exact ⟨rfl, rfl, rfl, rfl⟩
  · unfold Client.ioStep at hio
    split at hio
    · cases hio
    · split_ifs at hio
      obtain ⟨_, -, rfl⟩ := Option.map_eq_some_iff.mp hio
      exact ⟨rfl, rfl, rfl, rfl⟩

/-! ### What is typed -/

/-- A chat message as it can be typed. -/
structure Typed (m : C2SChat) : Prop where
  senderName : m.senderName.length < 256 ∧ 0 ∉ m.senderName
  content : m.content.length < 1024 ∧ 0 ∉ m.content
  not_blank : ∃ b ∈ m.content, ChatWindow.isBlank b = false

/-- The fields of the window have the texts of their buffers. -/
structure Fields (w : ChatWindow) : Prop where
  username : w.usernameText.length < 256 ∧ 0 ∉ w.usernameText
  chatInput : w.chatInputText.length < 1024 ∧ 0 ∉ w.chatInputText

lemma Typed.moderate {m : C2SChat} (h : Typed m) : Moderate m := by
  have hname := h.senderName.1
  have hcontent := h.content.1
  refine ⟨?_, by omega⟩
  have h64 : 2 ^ 64 < 128 ^ 10 := by norm_num
  have h1 := lenSize_le (n := m.senderName.length) 2 (by omega)
  have h2 := lenSize_le (n := m.content.length) 2 (by omega)
  have h3 := numSize_le 10 (lt_trans m.clientMessageId.toNat_lt h64)
  have h4 := numSize_le 10 (lt_trans m.clientSentAtMs.toUInt64.toNat_lt h64)
  rw [Legal, byteSizeLong_c2sChat _ (by omega) (by omega), C2SChat.size]
  simp only [headerSize, SendModel.DefaultSize]
  omega

/-! ### One frame -/

section Window

variable {w : ChatWindow} {f : Frame}

lemma Fields.addChatMessage (h : Fields w) (sender message : Str) (clock : Clock) :
    Fields (w.addChatMessage sender message clock) := ⟨h.username, h.chatInput⟩

lemma Fields.addTestMessages (h : Fields w) (clock : ℕ → Clock) :
    Fields (addTestMessages w clock) :=
  (((h.addChatMessage _ _ _).addChatMessage _ _ _).addChatMessage _ _ _).addChatMessage _ _ _

lemma Fields.renderToolbar (h : Fields w) : Fields (renderToolbar w f) := by
  have hbuttons {w : ChatWindow} (h : Fields w) :
      Fields (if f.koreanTest then
          InputModel.addTestMessages (if f.clearChat then w.clear else w) f.clock
        else if f.clearChat then w.clear else w) := by
    have hclear : Fields (if f.clearChat then w.clear else w) := by
      split_ifs
      · exact ⟨h.username, h.chatInput⟩
      · exact h
    cases f.koreanTest with
    | false => exact hclear
    | true => exact hclear.addTestMessages f.clock
  unfold InputModel.renderToolbar
  cases f.username with
  | none => exact hbuttons h
  | some b => exact hbuttons ⟨⟨b.lt_size, b.terminated⟩, h.chatInput⟩

lemma Fields.renderInput (h : Fields w) : Fields (renderInput w f) :=
  ⟨h.username, (f.chatInput.getD _).lt_size, (f.chatInput.getD _).terminated⟩

lemma trimmed_eq_nil_iff {p : UInt8 → Bool} {text : Str} :
    (text.dropWhile p).rdropWhile p = [] ↔ ∀ b ∈ text, p b = true := by
  rw [List.rdropWhile_eq_nil_iff]
  constructor
  · intro h
    by_contra hne
    have hdrop : text.dropWhile p ≠ [] := by simpa [List.dropWhile_eq_nil_iff] using hne
    have hhead := List.head_dropWhile_not p hdrop
    rw [h _ (List.head_mem hdrop)] at hhead
    cases hhead
  · exact fun h b hb => h b ((List.dropWhile_suffix p).subset hb)

lemma sendChatMessage_spec (clock : Clock) :
    (w.sendChatMessage clock).1.usernameText = w.usernameText ∧
      (Fields w → Fields (w.sendChatMessage clock).1) ∧
      ∀ text, (w.sendChatMessage clock).2 = some text →
        text = w.chatInputText ∧ ∃ b ∈ text, ChatWindow.isBlank b = false := by
  have hcleared (h : Fields w) : Fields { w with chatInputText := [] } :=
    ⟨h.username, by simp⟩
  simp only [ChatWindow.sendChatMessage]
  split_ifs with hempty htrim
  · exact ⟨rfl, id, fun text h => by cases h⟩
  · exact ⟨rfl, id, fun text h => by cases h⟩
  · refine ⟨rfl, hcleared, fun text htext => ?_⟩
    cases htext
    rw [trimmed_eq_nil_iff] at htrim
    push Not at htrim
    obtain ⟨b, hb, hblank⟩ := htrim
    exact ⟨rfl, b, hb, by simpa using hblank⟩
  · exact ⟨rfl, fun h => ⟨h.username, (hcleared h).chatInput⟩, fun text h => by cases h⟩

end Window

/-- The chats that the client makes a packet of in a step. -/
def chats (c : Client) : Act → List C2SChat
  | .frame f =>
    let c := filled c f
    if f.enterPressed ∨ f.sendButton then
      match (c.game.chatWindow.sendChatMessage (f.clock 4)).2 with
      | some message =>
        if c.game.connected ∧ c.game.serverSessionId ≠ 0 then [c.chat message (f.clock 4)] else []
      | none => []
    else []
  | .client _ => []

/-- What a frame does, when the client makes the packets of the chats `ms` in it: to the counter
of the messages, which was at `next`, and to the send buffers, which were `buffers`. -/
inductive Framed (next : UInt64) (buffers : SendBufferManager) (c : Client) : List C2SChat → Prop
  | none (pc : c.pc = .outside) (counter : c.game.nextClientMessageId = next)
      (same : c.sendBuffers = buffers) : Framed next buffers c []
  | chat (m : C2SChat) (chunk : SendBufferChunk) (typed : Typed m) (id : m.clientMessageId = next)
      (counter : c.game.nextClientMessageId = next + 1)
      (made : serializeToSendBuffer proto3 buffers (.c2sChat m) = some (c.sendBuffers, chunk))
      (pc : c.pc = .outside ∨ ∃ i, c.pc = .sending chunk i) : Framed next buffers c [m]

/-- The window after the button is pressed. -/
def pressed (c : Client) (clock : Clock) : Client :=
  { c with game.chatWindow := (c.game.chatWindow.sendChatMessage clock).1 }

lemma submit_eq (clock : Clock) : submit build pb fmt c clock =
    match (c.game.chatWindow.sendChatMessage clock).2 with
    | some message => (pressed c clock).handle build pb fmt (.sendChatMessage message clock)
    | none => some (pressed c clock) := rfl

variable (build fmt) in
/-- **A typed message is sent**, if the client thinks that it is connected. -/
lemma handle_typed {message : Str} {clock : Clock} (hpc : c.pc = .outside)
    (hm : Typed (c.chat message clock)) :
    ∃ c', c.handle build proto3 fmt (.sendChatMessage message clock) = some c' ∧
      c'.game.chatWindow.usernameText = c.game.chatWindow.usernameText ∧
      c'.game.chatWindow.chatInputText = c.game.chatWindow.chatInputText ∧
      Framed c.game.nextClientMessageId c.sendBuffers c'
        (if c.game.connected ∧ c.game.serverSessionId ≠ 0 then [c.chat message clock]
          else []) := by
  by_cases hconn : c.game.connected = true ∧ c.game.serverSessionId ≠ 0
  · obtain ⟨sendBuffers, chunk, hmade, -⟩ :=
      serializeToSendBuffer_fits (g := c.sendBuffers) hm.moderate.legal
    have hlate : ¬(¬c.game.connected = true ∨ c.game.serverSessionId = 0) := by tauto
    simp only [Client.handle, Client.sendChatMessage, if_neg hlate, hmade, Option.map_some,
      if_pos hconn]
    refine ⟨_, rfl, ?_⟩
    split_ifs
    · exact ⟨rfl, rfl, .chat _ chunk hm rfl rfl hmade (.inr ⟨_, rfl⟩)⟩
    · exact ⟨rfl, rfl, .chat _ chunk hm rfl rfl hmade (.inl hpc)⟩
  · have hearly : ¬c.game.connected = true ∨ c.game.serverSessionId = 0 := by tauto
    simp only [Client.handle, Client.sendChatMessage, if_pos hearly, Option.map_some,
      if_neg hconn]
    exact ⟨c, rfl, rfl, rfl, .none hpc rfl rfl⟩

variable (build fmt) in
/-- **Every frame can be drawn**, whatever the user does in it. -/
lemma frame_spec (h : Fields c.game.chatWindow) (hpc : c.pc = .outside) (f : Frame) :
    ∃ c', render build proto3 fmt c f = some c' ∧ Fields c'.game.chatWindow ∧
      Framed c.game.nextClientMessageId c.sendBuffers c' (chats c (.frame f)) := by
  have hfilled : Fields (filled c f).game.chatWindow := h.renderToolbar.renderInput
  by_cases hb : f.enterPressed = true ∨ f.sendButton = true
  · simp only [render, chats, if_pos hb, submit_eq]
    obtain ⟨hname, hkeep, htext⟩ := sendChatMessage_spec (w := (filled c f).game.chatWindow)
      (f.clock 4)
    have hfields : Fields (pressed (filled c f) (f.clock 4)).game.chatWindow := hkeep hfilled
    cases hm : ((filled c f).game.chatWindow.sendChatMessage (f.clock 4)).2 with
    | none => exact ⟨_, rfl, hfields, .none hpc rfl rfl⟩
    | some message =>
      obtain ⟨rfl, hblank⟩ := htext message hm
      have htyped : Typed ((pressed (filled c f) (f.clock 4)).chat
          (filled c f).game.chatWindow.chatInputText (f.clock 4)) :=
        ⟨hfields.username, hfilled.chatInput, hblank⟩
      obtain ⟨c', hs, huser, hinput, hframed⟩ := handle_typed build fmt
        (c := pressed (filled c f) (f.clock 4)) hpc htyped
      refine ⟨c', hs, ⟨huser ▸ hfields.username, hinput ▸ hfields.chatInput⟩, ?_⟩
      have hchat : (pressed (filled c f) (f.clock 4)).chat
          (filled c f).game.chatWindow.chatInputText (f.clock 4) =
          (filled c f).chat (filled c f).game.chatWindow.chatInputText (f.clock 4) := by
        simp only [Client.chat, pressed, hname]
      rw [hchat] at hframed
      exact hframed
  · simp only [render, chats, if_neg hb]
    exact ⟨filled c f, rfl, hfilled, .none hpc rfl rfl⟩

/-! ### Whole runs -/

/-- The chats that are handed to the session in a step, with the chunks of their packets. -/
def handed (c : Client) (a : Act) (c' : Client) : List (C2SChat × SendBufferChunk) :=
  match a, c'.pc with
  | .frame f, .sending chunk _ => (chats c (.frame f)).map (·, chunk)
  | _, _ => []

/-- What holds of a client that is used through its window, when it has made packets of the chats
`ms`, and has handed those in `hs` to its session. -/
structure Kept (c : Client) (ms : List C2SChat) (hs : List (C2SChat × SendBufferChunk)) :
    Prop where
  fields : Fields c.game.chatWindow
  typed : ∀ m ∈ ms, Typed m
  counter : c.game.nextClientMessageId = .ofNat (ms.length + 1)
  ids : ms.map C2SChat.clientMessageId = (List.range ms.length).map fun k => .ofNat (k + 1)
  handed : (hs.map Prod.fst).Sublist ms
  stored : ∀ x ∈ hs, c.sendBuffers.Stored x.2 ∧
    c.sendBuffers.bytes x.2 = packet proto3 (.c2sChat x.1)

variable {ms : List C2SChat} {hs : List (C2SChat × SendBufferChunk)}

lemma Kept.of_same (h : Kept c ms hs) (hsame : SameInput c c') : Kept c' ms hs where
  fields := ⟨hsame.usernameText ▸ h.fields.username, hsame.chatInputText ▸ h.fields.chatInput⟩
  typed := h.typed
  counter := hsame.nextClientMessageId.trans h.counter
  ids := h.ids
  handed := h.handed
  stored := by rw [hsame.sendBuffers]; exact h.stored

lemma Kept.add (h : Kept c ms hs) (hf : Fields c'.game.chatWindow) {m : C2SChat}
    {chunk : SendBufferChunk} (typed : Typed m)
    (id : m.clientMessageId = c.game.nextClientMessageId)
    (counter : c'.game.nextClientMessageId = c.game.nextClientMessageId + 1)
    (made : serializeToSendBuffer proto3 c.sendBuffers (.c2sChat m) =
      some (c'.sendBuffers, chunk)) {new : List (C2SChat × SendBufferChunk)}
    (hnew : new = [] ∨ new = [(m, chunk)]) : Kept c' (ms ++ [m]) (hs ++ new) := by
  obtain ⟨g, d, hmade, hbytes, hstored, hold⟩ :=
    serializeToSendBuffer_fits (g := c.sendBuffers) typed.moderate.legal
  rw [made, Option.some.injEq, Prod.mk.injEq] at hmade
  obtain ⟨rfl, rfl⟩ := hmade
  refine ⟨hf, fun x hx => ?_, ?_, ?_, ?_, fun x hx => ?_⟩
  · rcases List.mem_append.mp hx with hx | hx
    · exact h.typed x hx
    · exact List.mem_singleton.mp hx ▸ typed
  · rw [counter, h.counter, List.length_append, List.length_singleton]
    exact (UInt64.ofNat_add _ _).symm
  · rw [List.map_append, h.ids, List.length_append, List.length_singleton, List.range_succ,
      List.map_append, List.map_singleton, List.map_singleton, id, h.counter]
  · rw [List.map_append]
    refine h.handed.append ?_
    rcases hnew with rfl | rfl
    · exact List.nil_sublist _
    · exact List.Sublist.refl _
  · rcases List.mem_append.mp hx with hx | hx
    · obtain ⟨hs, hb⟩ := h.stored x hx
      obtain ⟨hs', hb'⟩ := hold x.2 hs
      exact ⟨hs', hb'.trans hb⟩
    · rcases hnew with rfl | rfl
      · cases hx
      · rw [List.mem_singleton.mp hx]
        exact ⟨hstored, hbytes⟩

/-- **Every step of the client keeps what is typed.** -/
lemma kept_step (c : Client) (ms : List C2SChat) (hs : List (C2SChat × SendBufferChunk)) (a : Act)
    (c' : Client) (h : Kept c ms hs) (hstep : step build proto3 fmt c a = some c') :
    Kept c' (ms ++ chats c a) (hs ++ handed c a c') := by
  cases a with
  | client b =>
    have hb : ∀ message clock, b ≠ .sendChatMessage message clock := by
      rintro message clock rfl
      cases hstep
    have hclient : ClientModel.step build proto3 fmt c b = some c' := by
      cases b with
      | sendChatMessage message clock => cases hstep
      | _ => exact hstep
    simpa only [chats, handed, List.append_nil] using h.of_same (sameInput_step hb hclient)
  | frame f =>
    simp only [step, Option.ite_none_right_eq_some] at hstep
    obtain ⟨hpc, hrender⟩ := hstep
    obtain ⟨c₁, hc₁, hfields, hframed⟩ := frame_spec build fmt h.fields hpc f
    rw [hrender, Option.some.injEq] at hc₁
    subst hc₁
    unfold handed
    generalize hnew : chats c (.frame f) = new at hframed ⊢
    cases hframed with
    | none pc counter same =>
      simp only [pc, List.append_nil]
      exact ⟨hfields, h.typed, counter.trans h.counter, h.ids, h.handed, same ▸ h.stored⟩
    | chat m chunk typed id counter made pc =>
      refine h.add hfields typed id counter made ?_
      rcases pc with pc | ⟨i, pc⟩ <;> simp [pc, hnew]

/-- A client that was started, with its three welcome lines. -/
def started (clock₁ clock₂ clock₃ : Clock) : Client := (Client.new clock₁ clock₂ clock₃).start

lemma kept_started (clock₁ clock₂ clock₃ : Clock) : Kept (started clock₁ clock₂ clock₃) [] [] where
  fields := ⟨show (utf8 "플레이어").length < 256 ∧ 0 ∉ utf8 "플레이어" by decide, by
    simp [started, Client.start, Client.new, GameClient.start, GameClient.new, ChatWindow.new,
      ChatWindow.addChatMessage]⟩
  typed m hm := by cases hm
  counter := rfl
  ids := rfl
  handed := List.Sublist.refl _
  stored x hx := by cases hx

/-- What is typed into the window of a client comes to its session. -/
structure FromKeyboard (build : Build) (fmt : Int64 → Str) (c : Client) (ms : List C2SChat)
    (hs : List (C2SChat × SendBufferChunk)) : Prop where
  typed : ∀ m ∈ ms, Typed m ∧ Moderate m
  ids : ms.map C2SChat.clientMessageId = (List.range ms.length).map fun k => .ofNat (k + 1)
  handed : (hs.map Prod.fst).Sublist ms
  packets : ∀ x ∈ hs, c.sendBuffers.bytes x.2 = packet proto3 (.c2sChat x.1)
  drawn : c.pc = .outside → ∀ f, (step build proto3 fmt c (.frame f)).isSome

/-- **From the keyboard to the session.** In every run of a client that is used through its
window, whatever is typed and pressed and whatever comes from the server: every frame can be
drawn; each chat that is made is one that can be sent and answered; the chats are numbered from
1; and those handed to the session are some of them in that order, each with a chunk that holds
its packet for good. -/
theorem from_keyboard (clock₁ clock₂ clock₃ : Clock) {as : List Act}
    (h : run (step build proto3 fmt) (started clock₁ clock₂ clock₃) as = some c) :
    FromKeyboard build fmt c
      (observe (step build proto3 fmt) (fun c a _ => chats c a) (started clock₁ clock₂ clock₃) as)
      (observe (step build proto3 fmt) handed (started clock₁ clock₂ clock₃) as) := by
  have hkept := observe_invariant₂ (fun c a _ => chats c a) handed kept_step
    (kept_started clock₁ clock₂ clock₃) h
  simp only [List.nil_append] at hkept
  refine ⟨fun m hm => ⟨hkept.typed m hm, (hkept.typed m hm).moderate⟩, hkept.ids, hkept.handed,
    fun x hx => (hkept.stored x hx).2, fun hpc f => ?_⟩
  obtain ⟨c', hc', -⟩ := frame_spec build fmt hkept.fields hpc f
  rw [step, if_pos hpc, hc']
  rfl

/-- The client is connected; the user changes the name, types a letter and presses enter. -/
def typeAndSend : List Act :=
  [.client (.serviceConnect true ⟨[], 5⟩),
    .frame {
      username := some ⟨[65], by decide, by decide⟩
      clearChat := false
      koreanTest := false
      chatInput := some ⟨[104], by decide, by decide⟩
      enterPressed := true
      sendButton := false
      clock := fun _ => ⟨[], 6⟩ },
    .client .next, .client .next]

/-- The letter is handed to the session. -/
theorem from_keyboard_typeAndSend : ∃ c,
    run (step .Release proto3 fun _ => []) (started ⟨[], 1⟩ ⟨[], 2⟩ ⟨[], 3⟩) typeAndSend =
      some c ∧ c.pc = .outside ∧
    (observe (step .Release proto3 fun _ => []) handed (started ⟨[], 1⟩ ⟨[], 2⟩ ⟨[], 3⟩)
      typeAndSend).map Prod.fst = [⟨[65], [104], 1, 6⟩] ∧
    FromKeyboard .Release (fun _ => []) c
      (observe (step .Release proto3 fun _ => []) (fun c a _ => chats c a)
        (started ⟨[], 1⟩ ⟨[], 2⟩ ⟨[], 3⟩) typeAndSend)
      (observe (step .Release proto3 fun _ => []) handed (started ⟨[], 1⟩ ⟨[], 2⟩ ⟨[], 3⟩)
        typeAndSend) := by
  have hrun : (run (step .Release proto3 fun _ => []) (started ⟨[], 1⟩ ⟨[], 2⟩ ⟨[], 3⟩)
      typeAndSend).map Client.pc = some .outside := by decide +kernel
  have hhanded : (observe (step .Release proto3 fun _ => []) handed
      (started ⟨[], 1⟩ ⟨[], 2⟩ ⟨[], 3⟩) typeAndSend).map Prod.fst = [⟨[65], [104], 1, 6⟩] := by
    decide +kernel
  obtain ⟨c, hc, hpc⟩ := Option.map_eq_some_iff.mp hrun
  exact ⟨c, hc, hpc, hhanded, from_keyboard _ _ _ hc⟩

end ByteborneWorld.InputRun
