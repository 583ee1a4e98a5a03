import ByteborneWorld.ClientModel
import ByteborneWorld.Lts

/-!
What the game client shows against what it has: when a message that could not be sent leaves
nothing behind, and when the connection status is true.
-/

namespace ByteborneWorld.ClientRun

open ByteborneWorld.ChatProto ByteborneWorld.ChatWindowModel ByteborneWorld.GameClientModel
open ByteborneWorld.PacketModel ByteborneWorld.SendModel ByteborneWorld.SessionModel
open ByteborneWorld.ClientModel ByteborneWorld.Lts

variable {build : Build} {pb : Protobuf} {fmt : Int64 → Str} {c c' : Client}

/-! ### Messages that are not sent -/

/-- A call that hands no chunk to a session leaves the list and the side table as they are. -/
def NoPhantom (pb : Protobuf) (c : Client) (message : Str) (clock : Clock) : Prop :=
  ∀ c', c.sendChatMessage pb message clock = some (c', none) →
    c'.game.chatWindow.chatMessages = c.game.chatWindow.chatMessages ∧
    c'.game.chatWindow.pendingIndex = c.game.chatWindow.pendingIndex

section Sending

variable {message : Str} {clock : Clock}

variable (pb message clock) in
lemma sendChatMessage_connected (hc : c.game.connected = true) (h0 : c.game.serverSessionId ≠ 0) :
    (∀ r, c.sendChatMessage pb message clock = some r →
      headerSize + pb.byteSizeLong (.c2sChat (c.chat message clock)) ≤ DefaultSize ∧
      r.1.game.chatWindow.chatMessages.length = c.game.chatWindow.chatMessages.length + 1 ∧
      (r.2 = none ↔ c.send c.game.serverSessionId = false)) ∧
    (headerSize + pb.byteSizeLong (.c2sChat (c.chat message clock)) ≤ DefaultSize →
      ∃ r, c.sendChatMessage pb message clock = some r) := by
  have hearly : ¬(¬c.game.connected = true ∨ c.game.serverSessionId = 0) := by simp [hc, h0]
  unfold Client.sendChatMessage
  rw [if_neg hearly]
  constructor
  · intro r hr
    obtain ⟨⟨g, chunk⟩, hser, rfl⟩ := Option.map_eq_some_iff.mp hr
    refine ⟨?_, by simp [ChatWindow.addLocalPendingMessage], by simp⟩
    by_contra hbig
    rw [serializeToSendBuffer_eq_none.mpr (not_le.mp hbig)] at hser
    cases hser
  · intro hfits
    obtain ⟨g, chunk, hser, -⟩ := serializeToSendBuffer_fits (g := c.sendBuffers) hfits
    exact ⟨_, by rw [hser]; rfl⟩

lemma not_noPhantom (hc : c.game.connected = true) (h0 : c.game.serverSessionId ≠ 0)
    (hfits : headerSize + pb.byteSizeLong (.c2sChat (c.chat message clock)) ≤ DefaultSize)
    (hsend : c.send c.game.serverSessionId = false) : ¬NoPhantom pb c message clock := by
  intro h
  obtain ⟨hspec, hex⟩ := sendChatMessage_connected pb message clock hc h0
  obtain ⟨⟨c', handed⟩, hr⟩ := hex hfits
  obtain ⟨-, hlen, hnone⟩ := hspec _ hr
  obtain rfl : handed = none := hnone.mpr hsend
  rw [(h c' hr).1] at hlen
  omega

end Sending

/-- **When a failed send leaves nothing behind**, for any state of the client and any text: a
connected client whose call returns finds its session in the manager, and running. -/
theorem noPhantom_iff (pb : Protobuf) (c : Client) (message : Str) (clock : Clock) :
    NoPhantom pb c message clock ↔
      (c.game.connected = true → c.game.serverSessionId ≠ 0 →
        headerSize + pb.byteSizeLong (.c2sChat (c.chat message clock)) ≤ DefaultSize →
        c.game.serverSessionId ∈ c.game.sessionManager ∧
          (c.session c.game.serverSessionId).running = true) := by
  have hsend : c.send c.game.serverSessionId = false ↔
      ¬(c.game.serverSessionId ∈ c.game.sessionManager ∧
        (c.session c.game.serverSessionId).running = true) := by
    simp only [Client.send, decide_eq_false_iff_not]
  constructor
  · intro h hc h0 hfits
    by_contra hno
    exact not_noPhantom hc h0 hfits (hsend.mpr hno) h
  · intro h c' hr
    by_cases hearly : c.game.connected = true ∧ c.game.serverSessionId ≠ 0
    · obtain ⟨hfits, -, hnone⟩ :=
        (sendChatMessage_connected pb message clock hearly.1 hearly.2).1 _ hr
      exact absurd (h hearly.1 hearly.2 hfits) (hsend.mp (hnone.mp rfl))
    · have hr' : c.sendChatMessage pb message clock = some (c, none) := by
        rw [Client.sendChatMessage, if_pos (by rwa [not_and_or, not_not] at hearly)]
      rw [hr'] at hr
      cases hr
      exact ⟨rfl, rfl⟩

def started : Client := (Client.new ⟨[], 1⟩ ⟨[], 2⟩ ⟨[], 3⟩).start

/-- **A message stays pending for ever**: the session has been stopped, its close event is not
handled yet, and the user sends. -/
theorem stoppedSession_phantom : ∃ c, run (step .Release proto3 fun _ => []) started
    [.serviceConnect true ⟨[], 4⟩, .io 1 .stop] = some c ∧ ¬NoPhantom proto3 c [0x61] ⟨[], 5⟩ := by
  refine ⟨_, rfl, not_noPhantom rfl (by decide) ?_ (by decide)⟩
  decide

/-! ### The connection status -/

/-- The flag, the session id, the flag of the window and the manager agree. -/
structure Truthful (s : Status) : Prop where
  server : s.connected = true ↔ s.serverSessionId ≠ 0
  window : s.serverSessionId ≠ 0 ↔ s.windowConnected = true
  manager : s.windowConnected = true ↔ s.sessionManager ≠ ∅
  held : s.sessionManager ≠ ∅ → s.sessionManager = {s.serverSessionId}

def Stays (build : Build) (pb : Protobuf) (fmt : Int64 → Str) (c : Client) (a : Act) : Prop :=
  ∀ c', step build pb fmt c a = some c' → Truthful c'.status

/-- The close event of the service comes when no session is left. -/
def ClosesAlone (c : Client) : Act → Prop
  | .serviceClose _ => c.pc = .outside → c.game.sessionManager = ∅
  | _ => True

section Status

variable {s : Status}

lemma truthful_connect {i : ℕ} (hi : i ≠ 0) (h : s.sessionManager = ∅) :
    Truthful (s.connect i) := by
  constructor <;> simp [Status.connect, hi, h]

lemma truthful_close : Truthful s.close ↔ s.sessionManager = ∅ := by
  constructor
  · intro h
    by_contra hne
    exact absurd (h.manager.mpr hne) (by simp [Status.close])
  · intro h
    constructor <;> simp [Status.close, h]

lemma Truthful.closeSession (h : Truthful s) (i : ℕ) : Truthful (s.closeSession i) := by
  unfold Status.closeSession
  by_cases hm : s.sessionManager = ∅
  · have hw : s.windowConnected = false := by simpa [hm] using h.manager
    have h0 : s.serverSessionId = 0 := by simpa [hw] using h.window
    have hc : s.connected = false := by simpa [h0] using h.server
    split_ifs <;> constructor <;> simp [hm, hw, h0, hc]
  · have hheld := h.held hm
    split_ifs with hi
    · constructor <;> simp [hheld, hi]
    · have hne : s.sessionManager.erase i = s.sessionManager := by
        rw [Finset.erase_eq_self, hheld]
        simpa using hi
      rw [hne]
      exact h

end Status

/-- What holds as long as the status is true. -/
structure Inv (c : Client) : Prop where
  running : c.game.running = true
  next_pos : 0 < c.nextSessionId
  fresh : c.nextSessionId = 1 → c.game.sessionManager = ∅
  truthful : Truthful c.status

lemma inv_start (clock₁ clock₂ clock₃ : Clock) : Inv (Client.new clock₁ clock₂ clock₃).start where
  running := rfl
  next_pos := Nat.one_pos
  fresh _ := rfl
  truthful := by
    constructor <;>
      simp [Client.status, Client.start, Client.new, GameClient.start, GameClient.new,
        ChatWindow.new, ChatWindow.addChatMessage]

/-- **One step from a true status**: only the close event of the service can make it false. -/
lemma stays_iff (hi : Inv c) (a : Act) : Stays build pb fmt c a ↔ ClosesAlone c a := by
  have key (h : Truthful (c.status.after c.nextSessionId a)) : Stays build pb fmt c a := by
    intro c' hs
    rw [(step_status hi.running hs).1]
    exact h
  cases a with
  | serviceClose clock =>
    have hclose : Truthful c.status.close ↔ c.game.sessionManager = ∅ := truthful_close
    constructor
    · intro h hpc
      have hs : step build pb fmt c (.serviceClose clock) =
          some { c with game := c.game.handleServiceClose clock } := by
        simp only [step, if_pos hpc, Client.handle]
      exact hclose.mp (h _ hs)
    · intro h c' hs
      have hpc : c.pc = .outside := by
        by_contra hpc
        simp [step, hpc] at hs
      rw [(step_status hi.running hs).1]
      exact hclose.mpr (h hpc)
  | serviceConnect socketOpen clock =>
    refine iff_of_true (fun c' hs => ?_) trivial
    have h1 : c.nextSessionId = 1 := by
      by_contra h1
      simp [step, Client.handle, h1] at hs
    rw [(step_status hi.running hs).1]
    exact truthful_connect hi.next_pos.ne' (hi.fresh h1)
  | sessionClose i clock => exact iff_of_true (key (hi.truthful.closeSession i)) trivial
  | sessionReceive | dispatch | sendChatMessage | next | io =>
    exact iff_of_true (key hi.truthful) trivial

lemma inv_step (c : Client) (a : Act) (c' : Client) (hi : Inv c) (hc : ClosesAlone c a)
    (hs : step build pb fmt c a = some c') : Inv c' := by
  obtain ⟨hstatus, hrun, hnext⟩ := step_status hi.running hs
  refine ⟨hrun, by have := hi.next_pos; omega, fun h1 => ?_, (stays_iff hi a).mpr hc c' hs⟩
  have hpos := hi.next_pos
  have hm : c'.game.sessionManager = (c.status.after c.nextSessionId a).sessionManager :=
    congrArg Status.sessionManager hstatus
  rw [hm]
  cases a with
  | serviceConnect socketOpen clock =>
    simp only at hnext
    omega
  | sessionClose i clock =>
    have hempty : c.status.sessionManager = ∅ := hi.fresh (by omega)
    simp only [Status.after, Status.closeSession]
    split_ifs <;> simp [hempty]
  | _ => exact hi.fresh (by omega)

/-- **When the connection status is true.** In a run of the events of a running client, with
whatever else goes on, the status is true after every step, exactly if no close event of the
service is handled while the manager holds a session. -/
theorem truthful_iff_closesAlone (build : Build) (pb : Protobuf) (fmt : Int64 → Str)
    (clock₁ clock₂ clock₃ : Clock) (acts : List Act) :
    Along (step build pb fmt) (Stays build pb fmt) (Client.new clock₁ clock₂ clock₃).start acts ↔
      Along (step build pb fmt) ClosesAlone (Client.new clock₁ clock₂ clock₃).start acts :=
  along_iff_of_invariant inv_step (fun _ a hi => stays_iff hi a) (inv_start clock₁ clock₂ clock₃)
    acts

/-- **The status is false after the service has been closed**: the client shows that it is not
connected, and goes on receiving from the session it still has. -/
theorem closedService_not_truthful :
    ¬Along (step .Release proto3 fun _ => []) (Stays .Release proto3 fun _ => []) started
      [.serviceConnect true ⟨[], 4⟩, .serviceClose ⟨[], 5⟩] ∧
    (run (step .Release proto3 fun _ => []) started [.serviceConnect true ⟨[], 4⟩,
      .serviceClose ⟨[], 5⟩, .sessionReceive 1]).map (fun c => (c.game.connected, c.pc)) =
        some (false, .receiving 1 .getFrontPacket) := by
  refine ⟨fun h => ?_, by rfl⟩
  have htrue := (h.2 _ rfl).1 _ rfl
  exact absurd (htrue.manager.mpr (by decide)) (by decide)

end ByteborneWorld.ClientRun
