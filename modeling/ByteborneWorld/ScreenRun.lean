import ByteborneWorld.AckRun
import ByteborneWorld.DisplayRun
import ByteborneWorld.HistoryRun

/-!
What a client shows of the responses it has handled: as long as the positions in the side table
are right, the last of them, without a gap and each once.
-/

namespace ByteborneWorld.ScreenRun

open ByteborneWorld.ChatProto ByteborneWorld.ChatWindowModel ByteborneWorld.GameClientModel
open ByteborneWorld.PendingRun (settled pendings ids Unsent Meets)
open ByteborneWorld.DisplayRun (key Ordered not_before_iff_key)
open ByteborneWorld.AckRun (ClientAct)
open ByteborneWorld.Lts ByteborneWorld.StableSort

/-! ### The lines of the server -/

/-- The line of a response. -/
def shown (fmt : Int64 → Str) (m : S2CChat) : ChatMessage :=
  ⟨m.senderName, m.content, fmt m.serverSentAtMs, m.clientMessageId, m.serverMessageId,
    m.serverSentAtMs, false⟩

/-- Neither the window's own lines nor the pending ones have an id of the server. -/
def fromServer (messages : List ChatMessage) : List ChatMessage :=
  messages.filter fun m => m.serverMessageId ≠ 0

variable {fmt : Int64 → Str} {messages rest : List ChatMessage}

lemma fromServer_append : fromServer (messages ++ rest) = fromServer messages ++ fromServer rest :=
  List.filter_append _ _

lemma fromServer_sort (messages : List ChatMessage) :
    fromServer (sortMessagesByServerOrder messages) =
      sortMessagesByServerOrder (fromServer messages) :=
  filter_insertionSort (fun a b => not_before_iff_key a b) _ messages

lemma fromServer_unsent (h : Unsent messages) : fromServer messages = [] :=
  List.filter_eq_nil_iff.mpr fun m hm => by simp [(h m hm).2.2]

lemma fromServer_parts (messages : List ChatMessage) (h : Unsent (pendings messages)) :
    fromServer (settled messages) = fromServer messages := by
  rw [fromServer, settled, List.filter_filter]
  refine List.filter_congr fun m hm => ?_
  cases hp : m.pending with
  | false => simp
  | true => simp [(h m (List.mem_filter.mpr ⟨hm, hp⟩)).2.2]

lemma fromServer_sort_local {m : ChatMessage} (hm : m.serverMessageId = 0)
    (ho : Ordered messages) :
    fromServer (sortMessagesByServerOrder (messages ++ [m])) = fromServer messages := by
  have hnil : fromServer [m] = [] := by simp [fromServer, hm]
  rw [fromServer_sort, fromServer_append, hnil, List.append_nil]
  exact DisplayRun.sort_of_ordered (ho.sublist List.filter_sublist)

lemma fromServer_sort_shown {r : S2CChat} (h0 : r.serverMessageId ≠ 0)
    (ho : Ordered (fromServer messages ++ [shown fmt r])) :
    fromServer (sortMessagesByServerOrder (messages ++ [shown fmt r])) =
      fromServer messages ++ [shown fmt r] := by
  have hone : fromServer [shown fmt r] = [shown fmt r] := by simp [fromServer, shown, h0]
  rw [fromServer_sort, fromServer_append, hone]
  exact DisplayRun.sort_of_ordered ho

/-! ### What holds of a window -/

/-- The responses come in the order in which the server has made them. -/
structure Arranged (fmt : Int64 → Str) (rs : List S2CChat) : Prop where
  numbered : ∀ r ∈ rs, r.serverMessageId ≠ 0
  ordered : Ordered (rs.map (shown fmt))

/-- The window after the responses `rs`, where `n` is the next id for a message. If nothing was
dropped, it shows all of them. -/
structure Screen (fmt : Int64 → Str) (kept : Prop) (rs : List S2CChat) (n : UInt64)
    (w : ChatWindow) : Prop where
  inv : PendingRun.Inv w
  ascending : (ids (pendings w.chatMessages)).Pairwise (· < ·)
  issued : ∀ id ∈ ids (pendings w.chatMessages), 0 < id ∧ id < n
  ordered : Ordered w.chatMessages
  lines : fromServer w.chatMessages <:+ rs.map (shown fmt)
  all : kept → fromServer w.chatMessages = rs.map (shown fmt)

variable {kept : Prop} {rs : List S2CChat} {n : UInt64} {w w' : ChatWindow}

lemma Arranged.left {rs' : List S2CChat} (h : Arranged fmt (rs ++ rs')) : Arranged fmt rs where
  numbered r hr := h.numbered r (List.mem_append_left _ hr)
  ordered := h.ordered.sublist ((List.sublist_append_left rs rs').map _)

lemma Screen.notAfter (h : Screen fmt kept rs n w) :
    (ids (pendings w.chatMessages)).Pairwise (· ≤ ·) := h.ascending.imp UInt64.le_of_lt

lemma Screen.pendingIndex_eq_none (h : Screen fmt kept rs n w) {cid : UInt64}
    (hc : cid ∉ ids (pendings w.chatMessages)) : w.pendingIndex cid = none := by
  cases hi : w.pendingIndex cid with
  | none => rfl
  | some i =>
    obtain ⟨k, -, hk⟩ := (h.inv.listed cid i).mp hi
    exact absurd (List.mem_of_getElem? hk) hc

/-- A response is handled after the others, so its line goes to the end. -/
lemma Screen.ordered_shown (h : Screen fmt kept rs n w) {r : S2CChat}
    (hr : Arranged fmt (rs ++ [r])) :
    Ordered (fromServer w.chatMessages ++ [shown fmt r]) := by
  have hord := hr.ordered
  rw [List.map_append, List.map_singleton] at hord
  exact hord.sublist (h.lines.sublist.append (List.Sublist.refl _))

lemma Screen.of_shown (h : Screen fmt kept rs n w) {r : S2CChat} (hinv : PendingRun.Inv w')
    (hids : (ids (pendings w'.chatMessages)).Sublist (ids (pendings w.chatMessages)))
    (hord : Ordered w'.chatMessages)
    (hlines : fromServer w'.chatMessages = fromServer w.chatMessages ++ [shown fmt r]) :
    Screen fmt kept (rs ++ [r]) n w' where
  inv := hinv
  ascending := h.ascending.sublist hids
  issued id hid := h.issued id (hids.subset hid)
  ordered := hord
  lines := by
    rw [hlines, List.map_append, List.map_singleton]
    obtain ⟨before, hb⟩ := h.lines
    exact ⟨before, by rw [← List.append_assoc, hb]⟩
  all hk := by rw [hlines, h.all hk, List.map_append, List.map_singleton]

section Operations

variable (h : Screen fmt kept rs n w)

include h

lemma Screen.addAuthoritativeMessage {r : S2CChat} (hr : Arranged fmt (rs ++ [r]))
    (hp : pendings w.chatMessages = []) :
    Screen fmt kept (rs ++ [r]) n (w.addAuthoritativeMessage fmt r.senderName r.content
      r.serverMessageId r.serverSentAtMs r.clientMessageId) := by
  have h0 : r.serverMessageId ≠ 0 := hr.numbered r (by simp)
  have hlist : (w.addAuthoritativeMessage fmt r.senderName r.content r.serverMessageId
      r.serverSentAtMs r.clientMessageId).chatMessages =
        sortMessagesByServerOrder (w.chatMessages ++ [shown fmt r]) := rfl
  have hinv := (h.inv.addAuthoritativeMessage fmt r.senderName r.content r.serverMessageId
    r.serverSentAtMs r.clientMessageId).2 hp
  refine h.of_shown hinv ?_ (hlist ▸ DisplayRun.ordered_sort _) ?_
  · have hq : pendings (w.chatMessages ++ [shown fmt r]) = [] := by
      rw [DisplayRun.pendings_concat rfl, hp]
    rw [hlist, DisplayRun.pendings_sort _ (by rw [hq]; simp [Unsent]) (by rw [hq]; simp [ids]), hq]
    exact List.nil_sublist _
  · rw [hlist]
    exact fromServer_sort_shown h0 (h.ordered_shown hr)

lemma Screen.ackPendingMessage {r : S2CChat} (hr : Arranged fmt (rs ++ [r]))
    (hp : (ids (pendings w.chatMessages)).head? = some r.clientMessageId) :
    ∃ w', w.ackPendingMessage fmt r.clientMessageId r.senderName r.content r.serverMessageId
      r.serverSentAtMs = some (w', true) ∧ w'.connected = w.connected ∧
        Screen fmt kept (rs ++ [r]) n w' := by
  have h0 : r.serverMessageId ≠ 0 := hr.numbered r (by simp)
  obtain ⟨msg, after, hparts, hid⟩ : ∃ msg after, pendings w.chatMessages = msg :: after ∧
      msg.clientMessageId = r.clientMessageId := by
    cases hq : pendings w.chatMessages with
    | nil => simp [hq, ids] at hp
    | cons msg after => exact ⟨msg, after, rfl, by simpa [hq, ids] using hp⟩
  have hparts' : pendings w.chatMessages = [] ++ msg :: after := hparts
  have hi : w.pendingIndex r.clientMessageId =
      some ((settled w.chatMessages).length + ([] : List ChatMessage).length) :=
    (h.inv.listed _ _).mpr ⟨0, rfl, by simp [hparts, ids, hid]⟩
  have hconfirm : msg.confirm fmt r.senderName r.content r.serverMessageId r.serverSentAtMs =
      shown fmt r := by simp [ChatMessage.confirm, shown, hid]
  have heq := h.inv.ackPendingMessage_eq fmt r.senderName r.content r.serverMessageId
    r.serverSentAtMs hparts' hi
  have hasc := h.notAfter
  have hmeets : Meets w (.ackPendingMessage r.clientMessageId r.senderName r.content
      r.serverMessageId r.serverSentAtMs) := .inr ⟨hp, hasc.tail⟩
  have hafter : Unsent after := fun a ha => h.inv.unsent a (by simp [hparts, ha])
  rw [hconfirm] at heq
  refine ⟨_, heq, rfl, h.of_shown ((h.inv.ackPendingMessage fmt r.senderName r.content
    r.serverMessageId r.serverSentAtMs hparts' hid hi (by rw [hconfirm])).2 hmeets) ?_
    (DisplayRun.ordered_sort _) ?_⟩
  · -- the others stay as they are
    have hq : pendings (settled w.chatMessages ++ [] ++ shown fmt r :: after) = after := by
      have hs : ∀ a ∈ settled w.chatMessages ++ [shown fmt r], a.pending = false := by
        intro a ha
        rcases List.mem_append.mp ha with ha | ha
        · exact PendingRun.mem_settled ha
        · rw [List.mem_singleton.mp ha]
          rfl
      have hsplit : settled w.chatMessages ++ [] ++ shown fmt r :: after =
          (settled w.chatMessages ++ [shown fmt r]) ++ after := by simp
      rw [hsplit, PendingRun.pendings_append, PendingRun.pendings_of_settled hs,
        PendingRun.pendings_of_pending fun a ha => (hafter a ha).1, List.nil_append]
    have hids : (ids after).Pairwise (· ≤ ·) := by
      rw [hparts] at hasc
      exact hasc.tail
    rw [DisplayRun.pendings_sort _ (by rw [hq]; exact hafter) (by rw [hq]; exact hids), hq, hparts]
    exact (List.sublist_cons_self msg after).map _
  · have hperm : fromServer (settled w.chatMessages ++ [] ++ shown fmt r :: after) =
        fromServer (w.chatMessages ++ [shown fmt r]) := by
      have hsplit : settled w.chatMessages ++ [] ++ shown fmt r :: after =
          (settled w.chatMessages ++ [shown fmt r]) ++ after := by simp
      rw [hsplit, fromServer_append, fromServer_unsent hafter, List.append_nil, fromServer_append,
        fromServer_append, fromServer_parts _ h.inv.unsent]
    rw [fromServer_sort, hperm, ← fromServer_sort]
    exact fromServer_sort_shown h0 (h.ordered_shown hr)

lemma Screen.addChatMessage (sender message : Str) (clock : Clock)
    (hp : pendings w.chatMessages = [] ∨ 1000 ≤ w.chatMessages.length)
    (hk : kept → w.chatMessages.length < 1000) :
    Screen fmt kept rs n (w.addChatMessage sender message clock) := by
  set m : ChatMessage := ⟨sender, message, clock.timestamp, 0, 0, clock.nowMs, false⟩ with hm
  have hasc := h.notAfter
  have hinv := (h.inv.addChatMessage sender message clock).2 (hp.imp_right fun hl => ⟨hl, hasc⟩)
  have hlines : fromServer (sortMessagesByServerOrder (w.chatMessages ++ [m])) =
      fromServer w.chatMessages := fromServer_sort_local rfl h.ordered
  have hpend : pendings (sortMessagesByServerOrder (w.chatMessages ++ [m])) =
      pendings w.chatMessages := by
    have hq : pendings (w.chatMessages ++ [m]) = pendings w.chatMessages :=
      DisplayRun.pendings_concat rfl
    rw [DisplayRun.pendings_sort _ (by rw [hq]; exact h.inv.unsent) (by rw [hq]; exact hasc), hq]
  have hord : Ordered (sortMessagesByServerOrder (w.chatMessages ++ [m])) :=
    DisplayRun.ordered_sort _
  have hlist : (w.addChatMessage sender message clock).chatMessages =
      if (sortMessagesByServerOrder (w.chatMessages ++ [m])).length > 1000 then
        (sortMessagesByServerOrder (w.chatMessages ++ [m])).tail
      else sortMessagesByServerOrder (w.chatMessages ++ [m]) := rfl
  have htail : (w.addChatMessage sender message clock).chatMessages <:+
      sortMessagesByServerOrder (w.chatMessages ++ [m]) := by
    rw [hlist]
    split_ifs
    · exact List.tail_suffix _
    · exact List.suffix_refl _
  have hsub : (ids (pendings (w.addChatMessage sender message clock).chatMessages)).Sublist
      (ids (pendings w.chatMessages)) := by
    rw [← hpend]
    exact (htail.sublist.filter _).map _
  refine ⟨hinv, h.ascending.sublist hsub, fun id hid => h.issued id (hsub.subset hid),
    hord.sublist htail.sublist, ?_, fun hk' => ?_⟩
  · refine List.IsSuffix.trans ?_ h.lines
    rw [← hlines]
    exact htail.filter _
  · have hlt := hk hk'
    have hle : ¬(sortMessagesByServerOrder (w.chatMessages ++ [m])).length > 1000 := by
      rw [length_sortMessagesByServerOrder, List.length_append, List.length_singleton]
      omega
    rw [hlist, if_neg hle, hlines]
    exact h.all hk'

lemma Screen.addLocalPendingMessage (sender message : Str) (clock : Clock) (hpos : 0 < n)
    (hw : n.toNat + 1 < 2 ^ 64) :
    Screen fmt kept rs (n + 1) (w.addLocalPendingMessage sender message n clock) := by
  set m : ChatMessage := ⟨sender, message, clock.timestamp, n, 0, 0, true⟩ with hm
  have hnew : n ∉ ids (pendings w.chatMessages) := fun hmem =>
    absurd (h.issued n hmem).2 (UInt64.lt_irrefl n)
  have hlist : (w.addLocalPendingMessage sender message n clock).chatMessages =
      w.chatMessages ++ [m] := rfl
  have hids : ids (pendings (w.chatMessages ++ [m])) = ids (pendings w.chatMessages) ++ [n] := by
    rw [PendingRun.pendings_append, ids, List.map_append]
    rfl
  have hlt : n < n + 1 := by
    rw [UInt64.lt_iff_toNat_lt, UInt64.toNat_add, UInt64.toNat_one, Nat.mod_eq_of_lt hw]
    exact Nat.lt_succ_self _
  have hlines : fromServer (w.chatMessages ++ [m]) = fromServer w.chatMessages := by
    have hnil : fromServer [m] = [] := by simp [fromServer, hm]
    rw [fromServer_append, hnil, List.append_nil]
  refine ⟨h.inv.addLocalPendingMessage sender message clock hnew, ?_, fun id hid => ?_, ?_, ?_,
    fun hk => ?_⟩
  · rw [hlist, hids]
    refine List.pairwise_append.mpr ⟨h.ascending, List.pairwise_singleton _ _, fun a ha b hb => ?_⟩
    rw [List.mem_singleton.mp hb]
    exact (h.issued a ha).2
  · rw [hlist, hids] at hid
    rcases List.mem_append.mp hid with hid | hid
    · exact ⟨(h.issued id hid).1, UInt64.lt_trans (h.issued id hid).2 hlt⟩
    · rw [List.mem_singleton.mp hid]
      exact ⟨hpos, hlt⟩
  · -- it belongs at the end: the pending messages before it have smaller ids
    refine List.pairwise_append.mpr ⟨h.ordered, List.pairwise_singleton _ _, fun a ha b hb => ?_⟩
    rw [List.mem_singleton.mp hb, ← not_before_iff_key]
    cases hpend : a.pending with
    | false => exact (PendingRun.before_parts a m hpend rfl).1
    | true =>
      have hmem : a ∈ pendings w.chatMessages := List.mem_filter.mpr ⟨ha, hpend⟩
      have hunsent : Unsent [a, m] := by
        intro b hb
        rcases List.mem_cons.mp hb with rfl | hb
        · exact h.inv.unsent b hmem
        · rw [List.mem_singleton.mp hb]
          exact ⟨rfl, rfl, rfl⟩
      refine (hunsent.before_iff a (by simp) m (by simp)).mpr (UInt64.le_of_lt ?_)
      exact (h.issued _ (List.mem_map_of_mem hmem)).2
  · rw [hlist, hlines]
    exact h.lines
  · rw [hlist, hlines]
    exact h.all hk

end Operations

/-! ### A client -/

inductive Act
  /-- a response is dispatched -/
  | handleMessage (message : S2CChat)
  | sendChatMessage (message : Str) (clock : Clock) (sessionRunning : Bool)
  | client (a : ClientAct)

def step (fmt : Int64 → Str) (c : GameClient) : Act → Option GameClient
  | .handleMessage message => if c.running then c.handleMessage fmt message else none
  | .sendChatMessage message clock sessionRunning =>
    some (c.sendChatMessage message clock sessionRunning).1
  | .client a => some (a.apply c)

def handled (_ : GameClient) (a : Act) (_ : GameClient) : List S2CChat :=
  match a with
  | .handleMessage message => [message]
  | _ => []

def AddsLine (c : GameClient) : ClientAct → Prop
  | .addChatMessage _ _ _ | .serviceClose _ => True
  | .serviceConnect _ _ => c.running = true
  | .sessionClose sessionId _ => sessionId = c.serverSessionId
  | .clear | .setUsername _ | .stop => False

/-- A line comes in only while no message is pending, or is the confirmation of the first one
that is, or pushes another line out; the ids for messages do not wrap. -/
def Undisturbed (c : GameClient) : Act → Prop
  | .handleMessage message => pendings c.chatWindow.chatMessages = [] ∨
      (ids (pendings c.chatWindow.chatMessages)).head? = some message.clientMessageId
  | .sendChatMessage _ _ _ => c.nextClientMessageId.toNat + 1 < 2 ^ 64
  | .client a => AddsLine c a →
      pendings c.chatWindow.chatMessages = [] ∨ 1000 ≤ c.chatWindow.chatMessages.length

/-- No line is dropped. -/
def Keeps (c : GameClient) : Act → Prop
  | .client .clear => False
  | .client a => AddsLine c a → c.chatWindow.chatMessages.length < 1000
  | _ => True

variable {c c' : GameClient} {a : Act}

lemma Screen.of_eq (h : Screen fmt kept rs n w) (hm : w'.chatMessages = w.chatMessages)
    (hi : w'.pendingIndex = w.pendingIndex) : Screen fmt kept rs n w' := by
  obtain ⟨⟨hparts, hunsent, hnodup, hlisted⟩, hasc, hiss, hord, hlines, hall⟩ := h
  rw [← hm] at hparts hunsent hnodup hlisted hasc hiss hord hlines hall
  rw [← hi] at hlisted
  exact ⟨⟨hparts, hunsent, hnodup, hlisted⟩, hasc, hiss, hord, hlines, hall⟩

lemma screen_clear (hk : ¬kept) : Screen fmt kept rs n w.clear where
  inv := PendingRun.inv_nil rfl fun _ => rfl
  ascending := List.Pairwise.nil
  issued id hid := by cases hid
  ordered := List.Pairwise.nil
  lines := List.nil_suffix
  all h := absurd h hk

lemma Screen.handleMessage (h : Screen fmt kept rs n c.chatWindow) {r : S2CChat}
    (hr : Arranged fmt (rs ++ [r])) (hu : Undisturbed c (.handleMessage r))
    (hs : c.handleMessage fmt r = some c') :
    Screen fmt kept (rs ++ [r]) n c'.chatWindow ∧
      c'.nextClientMessageId = c.nextClientMessageId := by
  unfold GameClient.handleMessage at hs
  rcases hu with hp | hp
  · -- nothing is pending, so nothing is confirmed
    have htry : c.tryAck fmt r = some (c.chatWindow, false) := by
      unfold GameClient.tryAck
      split_ifs
      · have hnone : c.chatWindow.pendingIndex r.clientMessageId = none :=
          h.pendingIndex_eq_none (by simp [hp, ids])
        simp [ChatWindow.ackPendingMessage, hnone]
      · rfl
    rw [htry] at hs
    cases hs
    exact ⟨h.addAuthoritativeMessage hr hp, rfl⟩
  · obtain ⟨w', hack, -, hw'⟩ := h.ackPendingMessage hr hp
    have h0 : r.clientMessageId ≠ 0 := by
      have hpos := (h.issued _ (List.mem_of_mem_head? hp)).1
      exact fun h0 => absurd (h0 ▸ hpos) (UInt64.lt_irrefl 0)
    have htry : c.tryAck fmt r = some (w', true) := by
      rw [GameClient.tryAck, if_pos h0, hack]
    rw [htry] at hs
    cases hs
    exact ⟨hw', rfl⟩

lemma Screen.client (h : Screen fmt kept rs n c.chatWindow) {b : ClientAct}
    (hu : Undisturbed c (.client b)) (hk : kept → Keeps c (.client b)) :
    Screen fmt kept rs n (b.apply c).chatWindow ∧
      (b.apply c).nextClientMessageId = c.nextClientMessageId := by
  have hadd (connected : Bool) (hline : AddsLine c b) (hb : b ≠ .clear) (sender message : Str)
      (clock : Clock) : Screen fmt kept rs n
        ((c.chatWindow.setConnectionStatus connected).addChatMessage sender message clock) := by
    have hset : Screen fmt kept rs n (c.chatWindow.setConnectionStatus connected) :=
      h.of_eq rfl rfl
    refine hset.addChatMessage sender message clock (hu hline) fun hk' => ?_
    have := hk hk'
    cases b <;> first | exact absurd rfl hb | exact this hline
  cases b with
  | clear => exact ⟨screen_clear fun hk' => hk hk', rfl⟩
  | setUsername name => exact ⟨h.of_eq rfl rfl, rfl⟩
  | addChatMessage sender message clock =>
    exact ⟨h.addChatMessage sender message clock (hu trivial) fun hk' => hk hk' trivial, rfl⟩
  | serviceClose clock => exact ⟨hadd false trivial (by simp) _ _ clock, rfl⟩
  | serviceConnect sessionId clock =>
    simp only [ClientAct.apply, GameClient.handleServiceConnect]
    split_ifs with hr
    · exact ⟨hadd true hr (by simp) _ _ clock, rfl⟩
    · exact ⟨h, rfl⟩
  | sessionClose sessionId clock =>
    simp only [ClientAct.apply, GameClient.handleSessionClose]
    split_ifs with hi
    · exact ⟨hadd false hi (by simp) _ _ clock, rfl⟩
    · exact ⟨h, rfl⟩
  | stop => exact ⟨h, rfl⟩

/-- **One step of a client.** -/
lemma Screen.step (h : Screen fmt kept rs c.nextClientMessageId c.chatWindow)
    (hpos : 0 < c.nextClientMessageId) (hr : Arranged fmt (rs ++ handled c a c'))
    (hu : Undisturbed c a) (hk : kept → Keeps c a) (hs : ScreenRun.step fmt c a = some c') :
    Screen fmt kept (rs ++ handled c a c') c'.nextClientMessageId c'.chatWindow ∧
      0 < c'.nextClientMessageId := by
  cases a with
  | handleMessage r =>
    obtain ⟨-, hs⟩ := Option.ite_none_right_eq_some.mp hs
    obtain ⟨hscreen, hn⟩ := h.handleMessage hr hu hs
    rw [hn]
    exact ⟨hscreen, hpos⟩
  | sendChatMessage message clock sessionRunning =>
    cases hs
    simp only [handled, List.append_nil, GameClient.sendChatMessage]
    split_ifs
    · exact ⟨h, hpos⟩
    all_goals
      refine ⟨h.addLocalPendingMessage _ message clock hpos hu, ?_⟩
      rw [UInt64.lt_iff_toNat_lt, UInt64.toNat_add, UInt64.toNat_one, Nat.mod_eq_of_lt hu]
      exact Nat.succ_pos _
  | client b =>
    cases hs
    obtain ⟨hscreen, hn⟩ := h.client hu hk
    have hnil : handled c (.client b) (b.apply c) = [] := rfl
    rw [hn, hnil, List.append_nil]
    exact ⟨hscreen, hpos⟩

/-! ### Runs -/

lemma Screen.pendings_eq_nil (h : Screen fmt kept rs 1 w) : pendings w.chatMessages = [] := by
  refine List.eq_nil_iff_forall_not_mem.mpr fun m hm => ?_
  obtain ⟨h0, h1⟩ := h.issued _ (List.mem_map_of_mem hm)
  rw [UInt64.lt_iff_toNat_lt] at h0 h1
  simp only [UInt64.toNat_zero, UInt64.toNat_one] at h0 h1
  omega

lemma Screen.welcome {k : ℕ} (h : Screen fmt kept [] 1 w ∧ w.chatMessages.length = k)
    (hk : k < 1000) (sender message : Str) (clock : Clock) :
    Screen fmt kept [] 1 (w.addChatMessage sender message clock) ∧
      (w.addChatMessage sender message clock).chatMessages.length = k + 1 := by
  obtain ⟨hs, rfl⟩ := h
  refine ⟨hs.addChatMessage sender message clock (.inl hs.pendings_eq_nil) fun _ => hk, ?_⟩
  rw [HistoryRun.length_addChatMessage, if_pos hk]

lemma screen_new (clock₁ clock₂ clock₃ : Clock) :
    Screen fmt kept [] 1 (.new clock₁ clock₂ clock₃) := by
  have h0 : Screen fmt kept [] 1 ⟨false, [], [], utf8 "플레이어", fun _ => none⟩ :=
    { inv := PendingRun.inv_nil rfl fun _ => rfl
      ascending := List.Pairwise.nil
      issued := fun id hid => by cases hid
      ordered := List.Pairwise.nil
      lines := List.suffix_refl _
      all := fun _ => rfl }
  have h1 := Screen.welcome ⟨h0, rfl⟩ (by decide) (utf8 "시스템")
    (utf8 "채팅창에 오신 것을 환영합니다!") clock₁
  have h2 := Screen.welcome h1 (by decide) (utf8 "시스템")
    (utf8 "한글 입력이 완벽하게 지원됩니다.") clock₂
  exact (Screen.welcome h2 (by decide) _ _ clock₃).1

def started (clock₁ clock₂ clock₃ : Clock) : GameClient :=
  (GameClient.new clock₁ clock₂ clock₃).start

/-! ### Clients that only listen -/

def Sends : Act → Prop
  | .sendChatMessage _ _ _ => True
  | _ => False

/-- Nothing is pending. -/
structure Silent (c : GameClient) : Prop where
  settled : ∀ m ∈ c.chatWindow.chatMessages, m.pending = false
  unlisted : ∀ cid, c.chatWindow.pendingIndex cid = none

lemma silent_started (clock₁ clock₂ clock₃ : Clock) :
    Silent (started clock₁ clock₂ clock₃) := by
  have hnew : Screen (fun _ => []) False [] 1 (.new clock₁ clock₂ clock₃) :=
    screen_new clock₁ clock₂ clock₃
  have hp := hnew.pendings_eq_nil
  refine ⟨fun m hm => ?_, fun cid => hnew.pendingIndex_eq_none (by simp [hp, ids])⟩
  simpa using List.filter_eq_nil_iff.mp hp m hm

lemma Silent.undisturbed (h : Silent c) (ha : ¬Sends a) : Undisturbed c a := by
  have hp := PendingRun.pendings_of_settled h.settled
  cases a with
  | handleMessage r => exact .inl hp
  | sendChatMessage message clock sessionRunning => exact absurd trivial ha
  | client b => exact fun _ => .inl hp

lemma Silent.add (h : Silent c) {m : ChatMessage} (hm : m.pending = false) :
    ∀ x ∈ sortMessagesByServerOrder (c.chatWindow.chatMessages ++ [m]), x.pending = false := by
  intro x hx
  rcases List.mem_append.mp (mem_sortMessagesByServerOrder.mp hx) with hx | hx
  · exact h.settled x hx
  · rw [List.mem_singleton.mp hx]
    exact hm

lemma Silent.addChatMessage (h : Silent c) (connected : Bool) (sender message : Str)
    (clock : Clock) : ∀ x ∈ ((c.chatWindow.setConnectionStatus connected).addChatMessage sender
      message clock).chatMessages, x.pending = false := by
  intro x hx
  refine h.add (m := ⟨sender, message, clock.timestamp, 0, 0, clock.nowMs, false⟩) rfl x ?_
  simp only [ChatWindow.addChatMessage] at hx
  split_ifs at hx
  · exact List.mem_of_mem_tail hx
  · exact hx

lemma Silent.step (h : Silent c) (ha : ¬Sends a) (hs : ScreenRun.step fmt c a = some c') :
    Silent c' := by
  cases a with
  | handleMessage r =>
    obtain ⟨-, hs⟩ := Option.ite_none_right_eq_some.mp hs
    have htry : c.tryAck fmt r = some (c.chatWindow, false) := by
      unfold GameClient.tryAck
      split_ifs
      · simp [ChatWindow.ackPendingMessage, h.unlisted]
      · rfl
    unfold GameClient.handleMessage at hs
    rw [htry] at hs
    cases hs
    exact ⟨h.add (m := shown fmt r) rfl, h.unlisted⟩
  | sendChatMessage message clock sessionRunning => exact absurd trivial ha
  | client b =>
    cases hs
    cases b with
    | clear => exact ⟨fun x hx => (by cases hx), fun _ => rfl⟩
    | setUsername | stop => exact ⟨h.settled, h.unlisted⟩
    | addChatMessage => exact ⟨h.addChatMessage c.chatWindow.connected _ _ _, h.unlisted⟩
    | serviceClose => exact ⟨h.addChatMessage false _ _ _, h.unlisted⟩
    | serviceConnect =>
      simp only [ClientAct.apply, GameClient.handleServiceConnect]
      split_ifs
      · exact ⟨h.addChatMessage true _ _ _, h.unlisted⟩
      · exact h
    | sessionClose =>
      simp only [ClientAct.apply, GameClient.handleSessionClose]
      split_ifs
      · exact ⟨h.addChatMessage false _ _ _, h.unlisted⟩
      · exact ⟨h.settled, h.unlisted⟩

lemma undisturbed_of_silent {clock₁ clock₂ clock₃ : Clock} {as : List Act}
    (h : ∀ a ∈ as, ¬Sends a) :
    Along (ScreenRun.step fmt) Undisturbed (started clock₁ clock₂ clock₃) as :=
  (along_of_forall_mem h _).mono_of_invariant (I := Silent)
    (fun _ _ _ hI ha hs => hI.step ha hs) (fun _ _ hI ha => hI.undisturbed ha)
    (silent_started clock₁ clock₂ clock₃)

/-! ### What the window shows -/

/-- **What the window shows of the server**, after a run of the client. -/
theorem screen_run {clock₁ clock₂ clock₃ : Clock} {as : List Act}
    (hu : Along (ScreenRun.step fmt) Undisturbed (started clock₁ clock₂ clock₃) as)
    (h : run (ScreenRun.step fmt) (started clock₁ clock₂ clock₃) as = some c)
    (hr : Arranged fmt (observe (ScreenRun.step fmt) handled (started clock₁ clock₂ clock₃) as)) :
    Screen fmt (Along (ScreenRun.step fmt) Keeps (started clock₁ clock₂ clock₃) as)
      (observe (ScreenRun.step fmt) handled (started clock₁ clock₂ clock₃) as)
      c.nextClientMessageId c.chatWindow := by
  set c₀ := started clock₁ clock₂ clock₃ with hc₀
  set kept := Along (ScreenRun.step fmt) Keeps c₀ as with hkept
  have hk : Along (ScreenRun.step fmt) (fun c a => kept → Keeps c a) c₀ as := .of_imp id
  -- the responses of a part of the run are arranged if those of the whole are
  have hall := observe_invariant_of_along handled
    (I := fun c rs => Arranged fmt rs →
      Screen fmt kept rs c.nextClientMessageId c.chatWindow ∧ 0 < c.nextClientMessageId)
    (C := fun c a => Undisturbed c a ∧ (kept → Keeps c a))
    (fun c rs a c' hI hC hs hr => by
      obtain ⟨hscreen, hpos⟩ := hI hr.left
      exact hscreen.step hpos hr hC.1 hC.2 hs)
    (fun _ => ⟨screen_new clock₁ clock₂ clock₃, (by decide : (0 : UInt64) < 1)⟩) (hu.and hk) h
  rw [List.nil_append] at hall
  exact (hall hr).1

end ByteborneWorld.ScreenRun
