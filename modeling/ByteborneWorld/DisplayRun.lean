import Mathlib.Data.Prod.Lex
import ByteborneWorld.PendingRun

/-!
The order in which the chat window shows its messages.

The comparison of the sort is that of a key with four components. A pending message is appended
without sorting; it belongs there, because its key is that of the pending messages before it but
for the id, and the ids ascend.
-/

namespace ByteborneWorld.DisplayRun

open ByteborneWorld.ChatProto ByteborneWorld.ChatWindowModel ByteborneWorld.Lts
open ByteborneWorld.StableSort ByteborneWorld.PendingRun

/-! ### The comparison -/

/-- What messages are sorted by. -/
def key (m : ChatMessage) : Bool ×ₗ ℤ ×ₗ ℕ ×ₗ ℕ :=
  toLex (m.pending, toLex (m.serverSentAtMs.toInt,
    toLex (m.serverMessageId.toNat, m.clientMessageId.toNat)))

/-- **The comparison is that of the keys**, so it is a strict weak order. -/
theorem before_iff_key (a b : ChatMessage) : a.before b = true ↔ key a < key b := by
  simp only [key, Prod.Lex.toLex_lt_toLex, ← Int64.lt_iff_toInt_lt, ← UInt64.lt_iff_toNat_lt,
    Int64.toInt_inj, UInt64.toNat_inj, ChatMessage.before]
  by_cases hp : a.pending = b.pending
  · simp only [hp, ne_eq, not_true_eq_false, if_false, lt_irrefl, false_or, true_and]
    by_cases hms : a.serverSentAtMs = b.serverSentAtMs
    · simp only [hms, not_true_eq_false, if_false, true_and]
      by_cases hid : a.serverMessageId = b.serverMessageId
      · simp [hid]
      · simp [hid]
    · simp [hms]
  · cases ha : a.pending <;> cases hb : b.pending <;> simp_all

lemma not_before_iff_key (a b : ChatMessage) : b.before a = false ↔ key a ≤ key b := by
  rw [← Bool.not_eq_true, before_iff_key, not_lt]

def Ordered (messages : List ChatMessage) : Prop :=
  messages.Pairwise fun a b => key a ≤ key b

lemma ordered_sort (messages : List ChatMessage) :
    Ordered (sortMessagesByServerOrder messages) :=
  pairwise_insertionSort_of_key fun a _ b _ => not_before_iff_key a b

section Lists

variable {messages : List ChatMessage} {m : ChatMessage}

lemma sort_of_ordered (h : Ordered messages) : sortMessagesByServerOrder messages = messages :=
  List.Pairwise.insertionSort_eq (h.imp fun {a b} hab => (not_before_iff_key a b).mpr hab)

lemma parts_of_ordered (h : Ordered messages) : messages = settled messages ++ pendings messages :=
  calc messages = sortMessagesByServerOrder messages := (sort_of_ordered h).symm
    _ = sortMessagesByServerOrder (settled messages) ++
          sortMessagesByServerOrder (pendings messages) := sort_eq messages
    _ = settled messages ++ pendings messages := by
          have hs : Ordered (settled messages) := h.sublist List.filter_sublist
          have hp : Ordered (pendings messages) := h.sublist List.filter_sublist
          rw [sort_of_ordered hs, sort_of_ordered hp]

lemma pendings_sort (messages : List ChatMessage) (hu : Unsent (pendings messages))
    (hasc : (ids (pendings messages)).Pairwise (· ≤ ·)) :
    pendings (sortMessagesByServerOrder messages) = pendings messages := by
  have hsettled : ∀ a ∈ sortMessagesByServerOrder (settled messages), a.pending = false :=
    fun a ha => mem_settled (mem_sortMessagesByServerOrder.mp ha)
  have hsort : sortMessagesByServerOrder (pendings messages) = pendings messages :=
    insertionSort_eq_of_key hu.before_iff hasc
  rw [sort_eq, hsort, pendings_append, pendings_of_settled hsettled,
    pendings_of_pending fun a => mem_pendings, List.nil_append]

lemma pendings_set (messages : List ChatMessage) (hm : m.pending = false) (i : ℕ) :
    (pendings (messages.set i m)).Sublist (pendings messages) := by
  induction messages generalizing i with
  | nil => exact List.Sublist.refl _
  | cons a messages ih =>
    cases i with
    | zero =>
      have h0 : pendings (m :: messages) = pendings messages :=
        List.filter_cons_of_neg (by simp [hm])
      rw [List.set_cons_zero, h0]
      exact (List.sublist_cons_self _ _).filter _
    | succ i =>
      rw [List.set_cons_succ]
      cases ha : a.pending with
      | true =>
        simp only [pendings, List.filter_cons, ha, if_true]
        exact (ih i).cons_cons a
      | false =>
        simp only [pendings, List.filter_cons, ha, Bool.false_eq_true, if_false]
        exact ih i

lemma pendings_concat (hm : m.pending = false) :
    pendings (messages ++ [m]) = pendings messages := by
  have h : ∀ a ∈ [m], a.pending = false := by simp [hm]
  rw [pendings_append, pendings_of_settled h, List.append_nil]

end Lists

/-! ### What the list holds -/

def serverPairs (ops : List Op) : List (UInt64 × Int64) :=
  ops.filterMap fun
    | .ackPendingMessage _ _ _ smid ms => some (smid, ms)
    | .addAuthoritativeMessage _ _ smid ms _ => some (smid, ms)
    | _ => none

/-- It has its id and its time from the server. -/
def Authoritative (ops : List Op) (m : ChatMessage) : Prop :=
  m.pending = false ∧ (m.serverMessageId, m.serverSentAtMs) ∈ serverPairs ops

def Local (m : ChatMessage) : Prop := m.clientMessageId = 0 ∧ m.serverMessageId = 0

structure Displayed (ops : List Op) (w : ChatWindow) : Prop where
  inRange : InRange w
  ordered : Ordered w.chatMessages
  unsent : Unsent (pendings w.chatMessages)
  sent : (ids (pendings w.chatMessages)).Sublist (newIds ops)
  origin : ∀ m ∈ settled w.chatMessages, Local m ∨ Authoritative ops m

variable {fmt : Int64 → Str} {w w' : ChatWindow} {ops : List Op} {op : Op}

lemma newIds_append (ops ops' : List Op) : newIds (ops ++ ops') = newIds ops ++ newIds ops' :=
  List.filterMap_append

lemma serverPairs_append (ops ops' : List Op) :
    serverPairs (ops ++ ops') = serverPairs ops ++ serverPairs ops' :=
  List.filterMap_append

lemma Authoritative.append {m : ChatMessage} (h : Authoritative ops m) (ops' : List Op) :
    Authoritative (ops ++ ops') m :=
  ⟨h.1, by rw [serverPairs_append]; exact List.mem_append_left _ h.2⟩

lemma displayed_nil (ops : List Op) (hm : w.chatMessages = [])
    (hi : ∀ cid, w.pendingIndex cid = none) : Displayed ops w where
  inRange cid i h := by
    rw [hi] at h
    cases h
  ordered := by
    rw [hm]
    exact List.Pairwise.nil
  unsent m h := by
    rw [hm] at h
    cases h
  sent := by
    rw [hm]
    exact List.nil_sublist _
  origin m h := by
    rw [hm] at h
    cases h

lemma Displayed.append (h : Displayed ops w) (ops' : List Op) : Displayed (ops ++ ops') w :=
  { h with
    sent := by
      rw [newIds_append]
      exact h.sent.trans (List.sublist_append_left _ _)
    origin := fun m hm => (h.origin m hm).imp_right fun ha => ha.append ops' }

lemma Displayed.ascending (h : Displayed ops w) (hids : (newIds ops).Pairwise (· < ·)) :
    (ids (pendings w.chatMessages)).Pairwise (· ≤ ·) :=
  (hids.sublist h.sent).imp UInt64.le_of_lt

/-! ### One operation -/

section Operations

variable (h : Displayed ops w)

include h

lemma Displayed.pendings_sort_add (hids : (newIds ops).Pairwise (· < ·)) {m : ChatMessage}
    (hm : m.pending = false) :
    pendings (sortMessagesByServerOrder (w.chatMessages ++ [m])) = pendings w.chatMessages := by
  have hq : pendings (w.chatMessages ++ [m]) = pendings w.chatMessages := pendings_concat hm
  rw [pendings_sort _ (by rw [hq]; exact h.unsent) (by rw [hq]; exact h.ascending hids), hq]

/-- **The erased front is a settled message.** The one that has just come in stands before all
pending ones. -/
lemma Displayed.pendings_addChatMessage (hids : (newIds ops).Pairwise (· < ·))
    (sender message : Str) (clock : Clock) :
    pendings (w.addChatMessage sender message clock).chatMessages = pendings w.chatMessages := by
  have hadd := h.pendings_sort_add hids
    (m := ⟨sender, message, clock.timestamp, 0, 0, clock.nowMs, false⟩) rfl
  have hsort := sort_add w.chatMessages
    (m := ⟨sender, message, clock.timestamp, 0, 0, clock.nowMs, false⟩) rfl
  have hA := settled_sort_add w.chatMessages
    (m := ⟨sender, message, clock.timestamp, 0, 0, clock.nowMs, false⟩) rfl
  simp only [ChatWindow.addChatMessage]
  split_ifs
  · rw [hsort] at hadd ⊢
    set A := sortMessagesByServerOrder (settled w.chatMessages ++
      [⟨sender, message, clock.timestamp, 0, 0, clock.nowMs, false⟩]) with hAdef
    have hne : A ≠ [] := by
      refine List.ne_nil_of_length_pos ?_
      rw [hAdef, length_sortMessagesByServerOrder, List.length_append, List.length_singleton]
      exact Nat.succ_pos _
    have htail : ∀ a ∈ A.tail, a.pending = false := fun a ha => hA a (List.mem_of_mem_tail ha)
    rw [pendings_append, pendings_of_settled hA] at hadd
    rw [List.tail_append_of_ne_nil hne, pendings_append, pendings_of_settled htail, hadd]
  · exact hadd

/-- The list is sorted again, and maybe something dropped; only settled messages are new. -/
lemma Displayed.resort (messages : List ChatMessage) (hrange : InRange w')
    (hsub : w'.chatMessages.Sublist (sortMessagesByServerOrder messages))
    (hpend : (pendings w'.chatMessages).Sublist (pendings w.chatMessages))
    (hnew : ∀ m ∈ messages, m ∈ w.chatMessages ∨ Local m ∨ Authoritative ops m) :
    Displayed ops w' where
  inRange := hrange
  ordered := (ordered_sort messages).sublist hsub
  unsent m hm := h.unsent m (hpend.subset hm)
  sent := (hpend.map _).trans h.sent
  origin m hm := by
    have hmem : m ∈ messages :=
      mem_sortMessagesByServerOrder.mp (hsub.subset (List.mem_of_mem_filter hm))
    rcases hnew m hmem with hold | hm'
    · exact h.origin m (List.mem_filter.mpr ⟨hold, by simp [mem_settled hm]⟩)
    · exact hm'

lemma Displayed.addChatMessage (hids : (newIds ops).Pairwise (· < ·)) (sender message : Str)
    (clock : Clock) : Displayed ops (w.addChatMessage sender message clock) := by
  set m : ChatMessage := ⟨sender, message, clock.timestamp, 0, 0, clock.nowMs, false⟩ with hmdef
  refine h.resort (w.chatMessages ++ [m]) (h.inRange.addChatMessage sender message clock) ?_
    (by rw [h.pendings_addChatMessage hids sender message clock]) fun a ha => ?_
  · simp only [ChatWindow.addChatMessage]
    split_ifs
    · exact List.tail_sublist _
    · exact List.Sublist.refl _
  · rcases List.mem_append.mp ha with ha | ha
    · exact .inl ha
    · rw [List.mem_singleton.mp ha]
      exact .inr (.inl ⟨rfl, rfl⟩)

lemma Displayed.addLocalPendingMessage (sender message : Str) (cid : UInt64) (clock : Clock)
    (hids : (newIds (ops ++ [.addLocalPendingMessage sender message cid clock])).Pairwise (· < ·)) :
    Displayed (ops ++ [.addLocalPendingMessage sender message cid clock])
      (w.addLocalPendingMessage sender message cid clock) := by
  set m : ChatMessage := ⟨sender, message, clock.timestamp, cid, 0, 0, true⟩ with hmdef
  have hids' : (newIds ops ++ [cid]).Pairwise (· < ·) := by rwa [newIds_append] at hids
  have hq : pendings (w.chatMessages ++ [m]) = pendings w.chatMessages ++ [m] := pendings_append
  have hm : ∀ a ∈ [m], a.pending = true := by simp [hmdef]
  have hs : settled (w.chatMessages ++ [m]) = settled w.chatMessages := by
    rw [settled_append, settled_of_pending hm, List.append_nil]
  have hunsent : Unsent (pendings (w.chatMessages ++ [m])) := by
    rw [hq]
    intro a ha
    rcases List.mem_append.mp ha with ha | ha
    · exact h.unsent a ha
    · rw [List.mem_singleton.mp ha]
      exact ⟨rfl, rfl, rfl⟩
  refine ⟨h.inRange.addLocalPendingMessage sender message cid clock, ?_, hunsent, ?_, ?_⟩
  · -- a settled message stands before every pending one, and a pending one has a smaller id
    refine List.pairwise_append.mpr ⟨h.ordered, List.pairwise_singleton _ _, fun a ha b hb => ?_⟩
    rw [List.mem_singleton.mp hb, ← not_before_iff_key]
    cases hpend : a.pending with
    | false => exact (before_parts a m hpend rfl).1
    | true =>
      have hmem : a ∈ pendings w.chatMessages := List.mem_filter.mpr ⟨ha, hpend⟩
      have hlt : a.clientMessageId < cid := (List.pairwise_append.mp hids').2.2 _
        (h.sent.subset (List.mem_map_of_mem hmem)) cid (List.mem_singleton_self _)
      refine (hunsent.before_iff a ?_ m ?_).mpr (UInt64.le_of_lt hlt)
      · rw [hq]
        exact List.mem_append_left _ hmem
      · rw [hq]
        exact List.mem_append_right _ (List.mem_singleton_self _)
  · rw [newIds_append]
    change (ids (pendings (w.chatMessages ++ [m]))).Sublist _
    rw [hq, ids, List.map_append]
    exact h.sent.append (List.Sublist.refl _)
  · change ∀ a ∈ settled (w.chatMessages ++ [m]), _
    rw [hs]
    exact fun a ha => (h.origin a ha).imp_right fun ha => ha.append _

lemma Displayed.addAuthoritativeMessage (hids : (newIds ops).Pairwise (· < ·))
    (sender content : Str) (smid : UInt64) (ms : Int64) (cid : UInt64)
    (hpair : (smid, ms) ∈ serverPairs ops) :
    Displayed ops (w.addAuthoritativeMessage fmt sender content smid ms cid) := by
  set m : ChatMessage := ⟨sender, content, fmt ms, cid, smid, ms, false⟩ with hmdef
  refine h.resort (w.chatMessages ++ [m])
    (h.inRange.addAuthoritativeMessage sender content smid ms cid) (List.Sublist.refl _) ?_
    fun a ha => ?_
  · change (pendings (sortMessagesByServerOrder (w.chatMessages ++ [m]))).Sublist _
    rw [h.pendings_sort_add hids (m := m) rfl]
  · rcases List.mem_append.mp ha with ha | ha
    · exact .inl ha
    · rw [List.mem_singleton.mp ha]
      exact .inr (.inr ⟨rfl, hpair⟩)

/-- The confirmed message may be the wrong one; it is settled afterwards, whichever it is. -/
lemma Displayed.ackPendingMessage (fmt : Int64 → Str) (hids : (newIds ops).Pairwise (· < ·))
    (cid : UInt64) (sender content : Str) (smid : UInt64) (ms : Int64)
    (hpair : (smid, ms) ∈ serverPairs ops) :
    ∃ w' b, w.ackPendingMessage fmt cid sender content smid ms = some (w', b) ∧
      Displayed ops w' := by
  rcases h.inRange.ackPendingMessage fmt cid sender content smid ms with
    ⟨-, heq⟩ | ⟨-, w', heq, hrange, -⟩
  · exact ⟨w, false, heq, h⟩
  refine ⟨w', true, heq, ?_⟩
  obtain ⟨i, msg, hmsg⟩ := ackPendingMessage_chatMessages heq
  have hset := pendings_set w.chatMessages
    (m := msg.confirm fmt sender content smid ms) rfl i
  have hsort := pendings_sort (w.chatMessages.set i _)
    (fun a ha => h.unsent a (hset.subset ha)) ((h.ascending hids).sublist (hset.map _))
  refine h.resort (w.chatMessages.set i _) hrange (by rw [hmsg]) ?_ fun m hm => ?_
  · rw [hmsg, hsort]
    exact hset
  rcases List.mem_or_eq_of_mem_set hm with hm | rfl
  · exact .inl hm
  · exact .inr (.inr ⟨rfl, hpair⟩)

/-- **One operation** is possible and keeps the list in order. -/
theorem Displayed.step (fmt : Int64 → Str) (op : Op)
    (hids : (newIds (ops ++ [op])).Pairwise (· < ·)) :
    ∃ w', PendingRun.step fmt w op = some w' ∧ Displayed (ops ++ [op]) w' := by
  have h' : Displayed (ops ++ [op]) w := h.append [op]
  have hlast (p : UInt64 × Int64) (hp : serverPairs [op] = [p]) :
      p ∈ serverPairs (ops ++ [op]) := by
    rw [serverPairs_append, hp]
    exact List.mem_append_right _ (List.mem_singleton_self p)
  cases op with
  | addChatMessage sender message clock =>
    exact ⟨_, rfl, h'.addChatMessage hids sender message clock⟩
  | addLocalPendingMessage sender message cid clock =>
    exact ⟨_, rfl, h.addLocalPendingMessage sender message cid clock hids⟩
  | ackPendingMessage cid sender content smid ms =>
    obtain ⟨w', b, heq, hw'⟩ :=
      h'.ackPendingMessage fmt hids cid sender content smid ms (hlast _ rfl)
    exact ⟨w', by simp [PendingRun.step, heq], hw'⟩
  | addAuthoritativeMessage sender content smid ms cid =>
    exact ⟨_, rfl, h'.addAuthoritativeMessage hids sender content smid ms cid (hlast _ rfl)⟩
  | clear => exact ⟨_, rfl, displayed_nil _ rfl fun _ => rfl⟩

end Operations

/-! ### Runs -/

lemma displayed_new (clock₁ clock₂ clock₃ : Clock) : Displayed [] (.new clock₁ clock₂ clock₃) := by
  have hids : (newIds []).Pairwise (· < ·) := List.Pairwise.nil
  have h0 : Displayed [] ⟨false, [], [], utf8 "플레이어", fun _ => none⟩ :=
    displayed_nil _ rfl fun _ => rfl
  have h1 := h0.addChatMessage hids (utf8 "시스템") (utf8 "채팅창에 오신 것을 환영합니다!") clock₁
  have h2 := h1.addChatMessage hids (utf8 "시스템") (utf8 "한글 입력이 완벽하게 지원됩니다.") clock₂
  exact h2.addChatMessage hids _ _ clock₃

lemma displayed_run (fmt : Int64 → Str) (clock₁ clock₂ clock₃ : Clock)
    (hids : (newIds ops).Pairwise (· < ·)) :
    ∃ w, run (step fmt) (.new clock₁ clock₂ clock₃) ops = some w ∧ Displayed ops w :=
  exists_run (displayed_new clock₁ clock₂ clock₃) fun before op w hpre hw => by
    obtain ⟨after, rfl⟩ := hpre
    rw [newIds_append, List.pairwise_append] at hids
    exact hw.step fmt op hids.1

/-- The times that the server gives out do not decrease with its ids. -/
def Nondecreasing (pairs : List (UInt64 × Int64)) : Prop :=
  ∀ p ∈ pairs, ∀ q ∈ pairs, p.1 < q.1 → p.2 ≤ q.2

lemma Displayed.authoritative (h : Displayed ops w) (hpairs : Nondecreasing (serverPairs ops)) :
    w.chatMessages.Pairwise fun a b => Authoritative ops a → Authoritative ops b →
      a.serverMessageId ≤ b.serverMessageId := by
  refine h.ordered.imp fun {a b} hab ha hb => ?_
  rw [← UInt64.not_lt]
  intro hlt
  have hms : b.serverSentAtMs ≤ a.serverSentAtMs := hpairs _ hb.2 _ ha.2 hlt
  have hbefore : b.before a = true := by
    rcases Int64.lt_or_eq_of_le hms with hms | hms
    · simp [ChatMessage.before, ha.1, hb.1, hms, Int64.ne_of_lt hms]
    · simp [ChatMessage.before, ha.1, hb.1, hms, hlt, UInt64.ne_of_lt hlt]
  rw [(not_before_iff_key a b).mpr hab] at hbefore
  cases hbefore

/-- The list is as it should be displayed. -/
structure InDisplayOrder (ops : List Op) (w : ChatWindow) : Prop where
  ordered : Ordered w.chatMessages
  /-- the pending messages come last -/
  suffix : w.chatMessages = settled w.chatMessages ++ pendings w.chatMessages
  /-- and are in the order in which they were sent -/
  sent : (ids (pendings w.chatMessages)).Sublist (newIds ops)
  /-- a new message never pushes one of them out -/
  trim : ∀ sender message clock,
    pendings (w.addChatMessage sender message clock).chatMessages = pendings w.chatMessages
  /-- the others are the window's own or the server's -/
  origin : ∀ m ∈ settled w.chatMessages, Local m ∨ Authoritative ops m
  /-- those of the server are in the order of its ids, however they arrived -/
  authoritative : Nondecreasing (serverPairs ops) →
    w.chatMessages.Pairwise fun a b => Authoritative ops a → Authoritative ops b →
      a.serverMessageId ≤ b.serverMessageId

/-- **The chat list is always in display order.** -/
theorem always_in_display_order (fmt : Int64 → Str) (clock₁ clock₂ clock₃ : Clock) (ops : List Op)
    (hids : (newIds ops).Pairwise (· < ·)) :
    ∃ w, run (step fmt) (.new clock₁ clock₂ clock₃) ops = some w ∧ InDisplayOrder ops w := by
  obtain ⟨w, hrun, h⟩ := displayed_run fmt clock₁ clock₂ clock₃ hids
  exact ⟨w, hrun, {
    ordered := h.ordered
    suffix := parts_of_ordered h.ordered
    sent := h.sent
    trim := h.pendings_addChatMessage hids
    origin := h.origin
    authoritative := h.authoritative }⟩

/-- Two messages are sent, one of another client arrives with a later id and then one with an
earlier one, and the second is confirmed. -/
def outOfOrder : List Op :=
  [.addLocalPendingMessage [0x61] [0x78] 1 ⟨[], 10⟩,
    .addLocalPendingMessage [0x61] [0x79] 2 ⟨[], 20⟩,
    .addAuthoritativeMessage [0x62] [0x7A] 7 30 5, .addAuthoritativeMessage [0x62] [0x7B] 6 30 4,
    .ackPendingMessage 2 [0x61] [0x79] 8 40]

theorem always_in_display_order_outOfOrder :
    ∃ w, run (step fun _ => []) (.new ⟨[], 1⟩ ⟨[], 2⟩ ⟨[], 3⟩) outOfOrder = some w ∧
      InDisplayOrder outOfOrder w :=
  always_in_display_order _ _ _ _ outOfOrder (by decide)

end ByteborneWorld.DisplayRun
