import ByteborneWorld.ChatWindowModel
import ByteborneWorld.Lts
import ByteborneWorld.StableSort

/-!
The positions in the side table of the chat window: which operations keep them right.

The messages on display are those the server has settled, followed by the pending ones; every
operation that adds a settled message moves the pending ones.
-/

namespace ByteborneWorld.PendingRun

open ByteborneWorld.ChatProto ByteborneWorld.ChatWindowModel ByteborneWorld.Lts
open ByteborneWorld.StableSort

inductive Op
  | addChatMessage (sender message : Str) (clock : Clock)
  | addLocalPendingMessage (sender message : Str) (clientMessageId : UInt64) (clock : Clock)
  | ackPendingMessage (clientMessageId : UInt64) (sender content : Str) (serverMessageId : UInt64)
      (serverSentAtMs : Int64)
  | addAuthoritativeMessage (sender content : Str) (serverMessageId : UInt64)
      (serverSentAtMs : Int64) (clientMessageId : UInt64)
  | clear

def step (fmt : Int64 → Str) (w : ChatWindow) : Op → Option ChatWindow
  | .addChatMessage sender message clock => some (w.addChatMessage sender message clock)
  | .addLocalPendingMessage sender message cid clock =>
    some (w.addLocalPendingMessage sender message cid clock)
  | .ackPendingMessage cid sender content smid ms =>
    (w.ackPendingMessage fmt cid sender content smid ms).map Prod.fst
  | .addAuthoritativeMessage sender content smid ms cid =>
    some (w.addAuthoritativeMessage fmt sender content smid ms cid)
  | .clear => some w.clear

def newIds (ops : List Op) : List UInt64 :=
  ops.filterMap fun
    | .addLocalPendingMessage _ _ cid _ => some cid
    | _ => none

def settled (messages : List ChatMessage) : List ChatMessage :=
  messages.filter fun m => !m.pending

def pendings (messages : List ChatMessage) : List ChatMessage := messages.filter (·.pending)

def ids (messages : List ChatMessage) : List UInt64 := messages.map (·.clientMessageId)

/-! ### What the side table has to do -/

/-- Each position in the side table is that of the pending message with the id. -/
def Indexed (w : ChatWindow) : Prop := ∀ cid i, w.pendingIndex cid = some i →
  ∃ m, w.chatMessages[i]? = some m ∧ m.pending = true ∧ m.clientMessageId = cid

/-- A confirmation rewrites the one pending message with the id, and no other message. -/
def Exact (fmt : Int64 → Str) (w : ChatWindow) : Op → Prop
  | .ackPendingMessage cid sender content smid ms =>
    ∀ w', w.ackPendingMessage fmt cid sender content smid ms = some (w', true) →
      ∃ before msg after, w.chatMessages = before ++ msg :: after ∧
        msg.pending = true ∧ msg.clientMessageId = cid ∧
        (∀ m ∈ before ++ after, m.pending = true → m.clientMessageId ≠ cid) ∧
        w'.chatMessages.Perm (before ++ msg.confirm fmt sender content smid ms :: after)
  | _ => True

/-- An operation does what it should. -/
def Sound (fmt : Int64 → Str) (w : ChatWindow) (op : Op) : Prop :=
  (∃ w', step fmt w op = some w' ∧ Indexed w') ∧ Exact fmt w op

/-- The operation moves no pending message that stays pending. -/
def Meets (w : ChatWindow) : Op → Prop
  | .addChatMessage _ _ _ => pendings w.chatMessages = [] ∨
      1000 ≤ w.chatMessages.length ∧ (ids (pendings w.chatMessages)).Pairwise (· ≤ ·)
  | .addAuthoritativeMessage _ _ _ _ _ => pendings w.chatMessages = []
  | .ackPendingMessage cid _ _ _ _ => w.pendingIndex cid = none ∨
      (ids (pendings w.chatMessages)).head? = some cid ∧
        (ids (pendings w.chatMessages)).tail.Pairwise (· ≤ ·)
  | .addLocalPendingMessage _ _ _ _ | .clear => True

/-! ### Sorting -/

section Sorting

variable {messages rest : List ChatMessage}

lemma before_parts (a b : ChatMessage) (ha : a.pending = false) (hb : b.pending = true) :
    b.before a = false ∧ ¬a.before b = false := by
  simp [ChatMessage.before, ha, hb]

lemma sort_eq (messages : List ChatMessage) : sortMessagesByServerOrder messages =
    sortMessagesByServerOrder (settled messages) ++
      sortMessagesByServerOrder (pendings messages) :=
  insertionSort_parts before_parts messages

/-- As they are before the server has confirmed them. -/
def Unsent (messages : List ChatMessage) : Prop :=
  ∀ m ∈ messages, m.pending = true ∧ m.serverSentAtMs = 0 ∧ m.serverMessageId = 0

lemma Unsent.before_iff (h : Unsent messages) (a : ChatMessage) (ha : a ∈ messages)
    (b : ChatMessage) (hb : b ∈ messages) :
    b.before a = false ↔ a.clientMessageId ≤ b.clientMessageId := by
  obtain ⟨hap, ham, has⟩ := h a ha
  obtain ⟨hbp, hbm, hbs⟩ := h b hb
  simp [ChatMessage.before, hap, hbp, ham, hbm, has, hbs]

lemma settled_append : settled (messages ++ rest) = settled messages ++ settled rest :=
  List.filter_append _ _

lemma pendings_append : pendings (messages ++ rest) = pendings messages ++ pendings rest :=
  List.filter_append _ _

lemma settled_of_settled (h : ∀ m ∈ messages, m.pending = false) : settled messages = messages :=
  List.filter_eq_self.mpr fun m hm => by simp [h m hm]

lemma pendings_of_settled (h : ∀ m ∈ messages, m.pending = false) : pendings messages = [] :=
  List.filter_eq_nil_iff.mpr fun m hm => by simp [h m hm]

lemma settled_of_pending (h : ∀ m ∈ messages, m.pending = true) : settled messages = [] :=
  List.filter_eq_nil_iff.mpr fun m hm => by simp [h m hm]

lemma pendings_of_pending (h : ∀ m ∈ messages, m.pending = true) : pendings messages = messages :=
  List.filter_eq_self.mpr h

lemma mem_settled {m : ChatMessage} (h : m ∈ settled messages) : m.pending = false := by
  simpa using (List.mem_filter.mp h).2

lemma mem_pendings {m : ChatMessage} (h : m ∈ pendings messages) : m.pending = true :=
  (List.mem_filter.mp h).2

end Sorting

/-! ### Good states -/

/-- The side table holds the ids of some pending messages, which begin at position `n`. -/
def Listed (pendingIndex : UInt64 → Option ℕ) (n : ℕ) (messages : List ChatMessage) : Prop :=
  ∀ cid i, pendingIndex cid = some i ↔ ∃ k, i = n + k ∧ (ids messages)[k]? = some cid

/-- The settled messages come first, and the side table has the positions of the others. -/
structure Inv (w : ChatWindow) : Prop where
  parts : w.chatMessages = settled w.chatMessages ++ pendings w.chatMessages
  unsent : Unsent (pendings w.chatMessages)
  nodup : (ids (pendings w.chatMessages)).Nodup
  listed : Listed w.pendingIndex (settled w.chatMessages).length (pendings w.chatMessages)

variable {fmt : Int64 → Str} {w w' : ChatWindow} {A Q : List ChatMessage} {n : ℕ}

lemma inv_of_parts (hm : w.chatMessages = A ++ Q) (hA : ∀ m ∈ A, m.pending = false)
    (hQ : Unsent Q) (hnodup : (ids Q).Nodup) (hindex : Listed w.pendingIndex A.length Q) :
    Inv w := by
  have hQ' : ∀ m ∈ Q, m.pending = true := fun m hm => (hQ m hm).1
  have hs : settled w.chatMessages = A := by
    rw [hm, settled_append, settled_of_settled hA, settled_of_pending hQ', List.append_nil]
  have hp : pendings w.chatMessages = Q := by
    rw [hm, pendings_append, pendings_of_settled hA, pendings_of_pending hQ', List.nil_append]
  exact ⟨by rw [hs, hp, hm], by rwa [hp], by rwa [hp], by rwa [hs, hp]⟩

lemma Inv.indexed (h : Inv w) : Indexed w := by
  intro cid i hi
  obtain ⟨k, rfl, hk⟩ := (h.listed cid i).mp hi
  rw [ids, List.getElem?_map, Option.map_eq_some_iff] at hk
  obtain ⟨m, hm, rfl⟩ := hk
  refine ⟨m, ?_, mem_pendings (List.mem_of_getElem? hm), rfl⟩
  have hget : (settled w.chatMessages ++ pendings w.chatMessages)[
      (settled w.chatMessages).length + k]? = (pendings w.chatMessages)[_]? :=
    List.getElem?_append_right (Nat.le_add_right _ _)
  rwa [← h.parts, Nat.add_sub_cancel_left, hm] at hget

/-- After sorting, the positions are right only if nothing came in between. -/
lemma ascending_of_indexed (hm : w.chatMessages = A ++ sortMessagesByServerOrder Q)
    (hA : ∀ m ∈ A, m.pending = false) (hQ : Unsent Q) (hn : n ≤ A.length)
    (hindex : Listed w.pendingIndex n Q) (h : Indexed w) :
    Q = [] ∨ A.length = n ∧ (ids Q).Pairwise (· ≤ ·) := by
  have hat (k : ℕ) (hk : k < Q.length) : ∃ m, w.chatMessages[n + k]? = some m ∧
      m.pending = true ∧ m.clientMessageId = Q[k].clientMessageId :=
    h _ _ ((hindex _ _).mpr ⟨k, rfl, by simp [ids, hk]⟩)
  rcases Nat.eq_zero_or_pos Q.length with h0 | h0
  · exact .inl (List.length_eq_zero_iff.mp h0)
  have hlen : A.length = n := by
    by_contra hne
    -- the first position is one of a settled message
    obtain ⟨m, hget, hpend, -⟩ := hat 0 h0
    rw [Nat.add_zero, hm, List.getElem?_append_left (by omega)] at hget
    rw [hA m (List.mem_of_getElem? hget)] at hpend
    cases hpend
  refine .inr ⟨hlen, (insertionSort_key hQ.before_iff).mp ?_⟩
  refine List.ext_getElem (by simp) fun k h1 h2 => ?_
  have hk : k < Q.length := by simpa using h2
  obtain ⟨m, hget, -, hid⟩ := hat k hk
  rw [hm, List.getElem?_append_right (by omega), hlen, Nat.add_sub_cancel_left] at hget
  obtain ⟨hlt, rfl⟩ := List.getElem?_eq_some_iff.mp hget
  rw [List.getElem_map, List.getElem_map]
  exact hid

lemma inv_of_ascending (hm : w.chatMessages = A ++ sortMessagesByServerOrder Q)
    (hA : ∀ m ∈ A, m.pending = false) (hQ : Unsent Q) (hnodup : (ids Q).Nodup)
    (hindex : Listed w.pendingIndex n Q)
    (h : Q = [] ∨ A.length = n ∧ (ids Q).Pairwise (· ≤ ·)) : Inv w := by
  rcases h with rfl | ⟨rfl, hasc⟩
  · refine inv_of_parts (Q := []) hm hA hQ hnodup fun cid i => ?_
    rw [hindex cid i]
    simp [ids]
  · have hsort : sortMessagesByServerOrder Q = Q := insertionSort_eq_of_key hQ.before_iff hasc
    rw [hsort] at hm
    exact inv_of_parts hm hA hQ hnodup hindex

/-- **When an operation that sorts keeps the positions right.** -/
theorem indexed_sorted_iff (hm : w.chatMessages = A ++ sortMessagesByServerOrder Q)
    (hA : ∀ m ∈ A, m.pending = false) (hQ : Unsent Q) (hnodup : (ids Q).Nodup)
    (hn : n ≤ A.length) (hindex : Listed w.pendingIndex n Q) :
    Indexed w ↔ Q = [] ∨ A.length = n ∧ (ids Q).Pairwise (· ≤ ·) :=
  ⟨ascending_of_indexed hm hA hQ hn hindex,
    fun h => (inv_of_ascending hm hA hQ hnodup hindex h).indexed⟩

/-! ### The operations -/

lemma sort_add (messages : List ChatMessage) {m : ChatMessage} (hm : m.pending = false) :
    sortMessagesByServerOrder (messages ++ [m]) =
      sortMessagesByServerOrder (settled messages ++ [m]) ++
        sortMessagesByServerOrder (pendings messages) := by
  have h : ∀ a ∈ [m], a.pending = false := by simp [hm]
  rw [sort_eq, settled_append, pendings_append, settled_of_settled h, pendings_of_settled h,
    List.append_nil]

lemma settled_sort_add (messages : List ChatMessage) {m : ChatMessage} (hm : m.pending = false) :
    ∀ a ∈ sortMessagesByServerOrder (settled messages ++ [m]), a.pending = false := by
  intro a ha
  rcases List.mem_append.mp (mem_sortMessagesByServerOrder.mp ha) with ha | ha
  · exact mem_settled ha
  · rw [List.mem_singleton.mp ha, hm]

lemma Inv.length (h : Inv w) : w.chatMessages.length =
    (settled w.chatMessages).length + (pendings w.chatMessages).length := by
  have := congrArg List.length h.parts
  rwa [List.length_append] at this

lemma getElem?_concat_eq_some {α : Type*} {l : List α} {x y : α} {k : ℕ} :
    (l ++ [x])[k]? = some y ↔ l[k]? = some y ∨ k = l.length ∧ x = y := by
  rcases lt_trichotomy k l.length with hk | rfl | hk
  · simp [List.getElem?_append_left hk, hk.ne]
  · simp
  · have h1 : (l ++ [x])[k]? = none := List.getElem?_eq_none (by simp; omega)
    have h2 : l[k]? = none := List.getElem?_eq_none hk.le
    simp [h1, h2, hk.ne']

lemma set_middle {α : Type*} {l before after : List α} {x y : α} (h : l = before ++ x :: after) :
    l[before.length]? = some x ∧ l.set before.length y = before ++ y :: after := by
  subst h
  simp

section Operations

variable (h : Inv w)

include h

lemma Inv.addAuthoritativeMessage (fmt : Int64 → Str) (sender content : Str) (smid : UInt64)
    (ms : Int64) (cid : UInt64) :
    (Indexed (w.addAuthoritativeMessage fmt sender content smid ms cid) ↔
      Meets w (.addAuthoritativeMessage sender content smid ms cid)) ∧
    (Meets w (.addAuthoritativeMessage sender content smid ms cid) →
      Inv (w.addAuthoritativeMessage fmt sender content smid ms cid)) := by
  set w' := w.addAuthoritativeMessage fmt sender content smid ms cid with hw'
  have hm : w'.chatMessages = _ ++ _ :=
    sort_add w.chatMessages
      (m := ⟨sender, content, fmt ms, cid, smid, ms, false⟩) rfl
  have hA := settled_sort_add w.chatMessages
    (m := ⟨sender, content, fmt ms, cid, smid, ms, false⟩) rfl
  have hlisted : Listed w'.pendingIndex _ _ := h.listed
  have hiff := indexed_sorted_iff hm hA h.unsent h.nodup (by simp) hlisted
  rw [length_sortMessagesByServerOrder, List.length_append, List.length_singleton] at hiff
  refine ⟨hiff.trans ⟨fun hq => ?_, .inl⟩, fun hq => ?_⟩
  · rcases hq with hq | ⟨hlen, -⟩
    · exact hq
    · omega
  · exact inv_of_ascending hm hA h.unsent h.nodup hlisted (.inl hq)

lemma Inv.addChatMessage (sender message : Str) (clock : Clock) :
    (Indexed (w.addChatMessage sender message clock) ↔
      Meets w (.addChatMessage sender message clock)) ∧
    (Meets w (.addChatMessage sender message clock) →
      Inv (w.addChatMessage sender message clock)) := by
  set m : ChatMessage := ⟨sender, message, clock.timestamp, 0, 0, clock.nowMs, false⟩ with hmdef
  set w' := w.addChatMessage sender message clock with hw'
  have hlisted : Listed w'.pendingIndex _ _ := h.listed
  have hsort := sort_add w.chatMessages (m := m) rfl
  have hA := settled_sort_add w.chatMessages (m := m) rfl
  set A := sortMessagesByServerOrder (settled w.chatMessages ++ [m]) with hAdef
  have hAlen : A.length = (settled w.chatMessages).length + 1 := by
    rw [hAdef, length_sortMessagesByServerOrder, List.length_append, List.length_singleton]
  have hlen : (sortMessagesByServerOrder (w.chatMessages ++ [m])).length =
      w.chatMessages.length + 1 := by
    rw [length_sortMessagesByServerOrder, List.length_append, List.length_singleton]
  have hmsg : w'.chatMessages = if w.chatMessages.length + 1 > 1000 then
      (sortMessagesByServerOrder (w.chatMessages ++ [m])).tail
      else sortMessagesByServerOrder (w.chatMessages ++ [m]) := by
    rw [← hlen]
    rfl
  by_cases hfull : w.chatMessages.length + 1 > 1000
  · -- the front is erased, and the pending messages are back where they were
    have hm : w'.chatMessages = A.tail ++ sortMessagesByServerOrder (pendings w.chatMessages) := by
      rw [hmsg, if_pos hfull, hsort,
        List.tail_append_of_ne_nil (List.ne_nil_of_length_pos (by omega))]
    have hA' : ∀ a ∈ A.tail, a.pending = false := fun a ha => hA a (List.mem_of_mem_tail ha)
    have htail : A.tail.length = (settled w.chatMessages).length := by
      rw [List.length_tail, hAlen, Nat.add_sub_cancel]
    have hiff := indexed_sorted_iff hm hA' h.unsent h.nodup (by omega) hlisted
    have hmeets : Meets w (.addChatMessage sender message clock) ↔
        pendings w.chatMessages = [] ∨ A.tail.length = (settled w.chatMessages).length ∧
          (ids (pendings w.chatMessages)).Pairwise (· ≤ ·) :=
      or_congr_right (and_congr_left' (iff_of_true (by omega) htail))
    rw [hmeets]
    exact ⟨hiff, fun hq => inv_of_ascending hm hA' h.unsent h.nodup hlisted hq⟩
  · have hm : w'.chatMessages = A ++ sortMessagesByServerOrder (pendings w.chatMessages) := by
      rw [hmsg, if_neg hfull, hsort]
    have hiff := indexed_sorted_iff hm hA h.unsent h.nodup (by omega) hlisted
    have hmeets : Meets w (.addChatMessage sender message clock) ↔
        pendings w.chatMessages = [] ∨ A.length = (settled w.chatMessages).length ∧
          (ids (pendings w.chatMessages)).Pairwise (· ≤ ·) :=
      or_congr_right (and_congr_left' (iff_of_false (by omega) (by omega)))
    rw [hmeets]
    exact ⟨hiff, fun hq => inv_of_ascending hm hA h.unsent h.nodup hlisted hq⟩

lemma Inv.addLocalPendingMessage (sender message : Str) {cid : UInt64} (clock : Clock)
    (hnew : cid ∉ ids (pendings w.chatMessages)) :
    Inv (w.addLocalPendingMessage sender message cid clock) := by
  set m : ChatMessage := ⟨sender, message, clock.timestamp, cid, 0, 0, true⟩ with hmdef
  have hm : (w.addLocalPendingMessage sender message cid clock).chatMessages =
      settled w.chatMessages ++ (pendings w.chatMessages ++ [m]) := by
    rw [← List.append_assoc, ← h.parts]
    rfl
  refine inv_of_parts hm (fun a ha => mem_settled ha) (fun a ha => ?_) ?_ fun c i => ?_
  · rcases List.mem_append.mp ha with ha | ha
    · exact h.unsent a ha
    · rw [List.mem_singleton.mp ha]
      exact ⟨rfl, rfl, rfl⟩
  · rw [ids, List.map_append]
    exact List.nodup_append.mpr ⟨h.nodup, by simp, by simpa [hmdef, ids] using hnew⟩
  · have hlen : w.chatMessages.length = (settled w.chatMessages).length +
        (ids (pendings w.chatMessages)).length := by rw [h.length, ids, List.length_map]
    have hids : ids (pendings w.chatMessages ++ [m]) = ids (pendings w.chatMessages) ++ [cid] := by
      simp [ids, hmdef]
    rw [hids]
    simp only [ChatWindow.addLocalPendingMessage, getElem?_concat_eq_some]
    by_cases hc : c = cid
    · subst hc
      rw [Function.update_self, hlen]
      constructor
      · intro heq
        exact ⟨_, (Option.some.inj heq).symm, .inr ⟨rfl, rfl⟩⟩
      · rintro ⟨k, rfl, hk | ⟨rfl, -⟩⟩
        · exact absurd (List.mem_of_getElem? hk) hnew
        · rfl
    · rw [Function.update_of_ne hc, h.listed c i]
      constructor
      · rintro ⟨k, rfl, hk⟩
        exact ⟨k, rfl, .inl hk⟩
      · rintro ⟨k, rfl, hk | ⟨-, hk⟩⟩
        · exact ⟨k, rfl, hk⟩
        · exact absurd hk.symm hc

lemma Inv.exists_pending {cid : UInt64} {i : ℕ} (hi : w.pendingIndex cid = some i) :
    ∃ before msg after, pendings w.chatMessages = before ++ msg :: after ∧
      msg.clientMessageId = cid ∧ i = (settled w.chatMessages).length + before.length := by
  obtain ⟨k, rfl, hk⟩ := (h.listed cid i).mp hi
  rw [ids, List.getElem?_map, Option.map_eq_some_iff] at hk
  obtain ⟨msg, hk, hid⟩ := hk
  obtain ⟨hlt, rfl⟩ := List.getElem?_eq_some_iff.mp hk
  refine ⟨(pendings w.chatMessages).take k, _, (pendings w.chatMessages).drop (k + 1), ?_, hid, ?_⟩
  · rw [List.getElem_cons_drop, List.take_append_drop]
  · rw [List.length_take, Nat.min_eq_left (by omega)]

lemma Inv.ackPendingMessage_eq {cid : UInt64} (fmt : Int64 → Str) (sender content : Str)
    (smid : UInt64) (ms : Int64) {before after : List ChatMessage} {msg : ChatMessage}
    (hparts : pendings w.chatMessages = before ++ msg :: after)
    (hi : w.pendingIndex cid = some ((settled w.chatMessages).length + before.length)) :
    w.ackPendingMessage fmt cid sender content smid ms =
      some ({ w with
        pendingIndex := Function.update w.pendingIndex cid none
        chatMessages := sortMessagesByServerOrder (settled w.chatMessages ++
          before ++ msg.confirm fmt sender content smid ms :: after) }, true) := by
  have hmsg : w.chatMessages = (settled w.chatMessages ++ before) ++ msg :: after := by
    rw [List.append_assoc, ← hparts, ← h.parts]
  have hlen : (settled w.chatMessages ++ before).length =
      (settled w.chatMessages).length + before.length := List.length_append
  have hmid := fun m => set_middle (y := m) hmsg
  simp only [hlen] at hmid
  simp only [ChatWindow.ackPendingMessage, hi, (hmid msg).1, (hmid _).2, Option.map_some]

lemma Inv.ackPendingMessage {cid : UInt64} (fmt : Int64 → Str) (sender content : Str)
    (smid : UInt64) (ms : Int64) {before after : List ChatMessage} {msg : ChatMessage}
    (hparts : pendings w.chatMessages = before ++ msg :: after) (hid : msg.clientMessageId = cid)
    (hi : w.pendingIndex cid = some ((settled w.chatMessages).length + before.length))
    (hw' : w' = { w with
      pendingIndex := Function.update w.pendingIndex cid none
      chatMessages := sortMessagesByServerOrder (settled w.chatMessages ++
        before ++ msg.confirm fmt sender content smid ms :: after) }) :
    (Indexed w' ↔ Meets w (.ackPendingMessage cid sender content smid ms)) ∧
      (Meets w (.ackPendingMessage cid sender content smid ms) → Inv w') := by
  set m := msg.confirm fmt sender content smid ms with hmdef
  have hpend : ∀ a ∈ before ++ msg :: after, a.pending = true := fun a ha =>
    (h.unsent a (hparts ▸ ha)).1
  have hm : w'.chatMessages = sortMessagesByServerOrder (settled w.chatMessages ++ [m]) ++
      sortMessagesByServerOrder (before ++ after) := by
    have hm' : ∀ a ∈ [m], a.pending = false := by simp [hmdef, ChatMessage.confirm]
    have hb : ∀ a ∈ before, a.pending = true := fun a ha => hpend a (by simp [ha])
    have ha : ∀ a ∈ after, a.pending = true := fun a ha => hpend a (by simp [ha])
    have hs : ∀ a ∈ settled w.chatMessages, a.pending = false := fun a => mem_settled
    rw [hw', show settled w.chatMessages ++ before ++ m :: after =
      settled w.chatMessages ++ (before ++ ([m] ++ after)) by simp]
    dsimp only
    rw [sort_eq]
    simp only [settled_append, pendings_append, settled_of_settled hs, pendings_of_settled hs,
      settled_of_settled hm', pendings_of_settled hm', settled_of_pending hb,
      settled_of_pending ha, pendings_of_pending hb, pendings_of_pending ha, List.nil_append,
      List.append_nil]
  have hA : ∀ a ∈ sortMessagesByServerOrder (settled w.chatMessages ++ [m]), a.pending = false :=
    settled_sort_add _ rfl
  have hAlen : (sortMessagesByServerOrder (settled w.chatMessages ++ [m])).length =
      (settled w.chatMessages).length + 1 := by
    rw [length_sortMessagesByServerOrder, List.length_append, List.length_singleton]
  have hnodup : (ids (before ++ msg :: after)).Nodup := hparts ▸ h.nodup
  have hindex : w'.pendingIndex = Function.update w.pendingIndex cid none := by rw [hw']
  cases before with
  | nil =>
    have hmeets : Meets w (.ackPendingMessage cid sender content smid ms) ↔
        (ids after).Pairwise (· ≤ ·) := by
      simp [Meets, hi, hparts, ids, hid]
    have hafter : cid ∉ ids after ∧ (ids after).Nodup := by
      rw [← hid]
      exact List.nodup_cons.mp hnodup
    have hlisted : Listed w'.pendingIndex ((settled w.chatMessages).length + 1) after := by
      intro c i
      rw [hindex]
      by_cases hc : c = cid
      · subst hc
        rw [Function.update_self]
        exact iff_of_false (by simp) fun ⟨_, _, hk⟩ => hafter.1 (List.mem_of_getElem? hk)
      · rw [Function.update_of_ne hc, h.listed c i, hparts]
        constructor
        · rintro ⟨k, rfl, hk⟩
          cases k with
          | zero => exact absurd (by simpa [ids, hid] using hk.symm) hc
          | succ k => exact ⟨k, by omega, hk⟩
        · rintro ⟨k, rfl, hk⟩
          exact ⟨k + 1, by omega, hk⟩
    have hunsent : Unsent after := fun a ha => h.unsent a (by simp [hparts, ha])
    have hiff := indexed_sorted_iff hm hA hunsent hafter.2 (by omega) hlisted
    have hasc : after = [] ∨ (sortMessagesByServerOrder (settled w.chatMessages ++ [m])).length =
        (settled w.chatMessages).length + 1 ∧ (ids after).Pairwise (· ≤ ·) ↔
          (ids after).Pairwise (· ≤ ·) :=
      ⟨fun hq => hq.elim (fun hq => by simp [hq, ids]) And.right, fun hq => .inr ⟨hAlen, hq⟩⟩
    rw [hmeets]
    exact ⟨hiff.trans hasc, fun hq =>
      inv_of_ascending hm hA hunsent hafter.2 hlisted (hasc.mpr hq)⟩
  | cons first before =>
    -- the first pending message stays, and a settled one takes its place
    have hne : first.clientMessageId ≠ cid := by
      rw [← hid]
      have := (List.nodup_cons.mp hnodup).1
      simp only [List.append_eq, List.map_append, List.map_cons, List.mem_append,
        List.mem_cons, not_or] at this
      exact this.2.1
    have hnot : ¬Meets w (.ackPendingMessage cid sender content smid ms) := by
      simp [Meets, hi, hparts, ids, hne]
    refine ⟨iff_of_false (fun hix => ?_) hnot, fun hq => absurd hq hnot⟩
    have hfirst : w'.pendingIndex first.clientMessageId =
        some ((settled w.chatMessages).length + 0) := by
      rw [hindex, Function.update_of_ne hne, h.listed, hparts]
      exact ⟨0, rfl, rfl⟩
    obtain ⟨a, hget, hpend', -⟩ := hix _ _ hfirst
    rw [hm, List.getElem?_append_left (by omega)] at hget
    rw [hA a (List.mem_of_getElem? hget)] at hpend'
    cases hpend'

/-- In a good state a confirmation does not touch other messages. -/
lemma Inv.exact (op : Op) : Exact fmt w op := by
  cases op with
  | ackPendingMessage cid sender content smid ms =>
    intro w' hw'
    cases hi : w.pendingIndex cid with
    | none => simp [ChatWindow.ackPendingMessage, hi] at hw'
    | some i =>
      obtain ⟨before, msg, after, hparts, hid, rfl⟩ := h.exists_pending hi
      rw [h.ackPendingMessage_eq fmt sender content smid ms hparts hi] at hw'
      cases hw'
      have hnodup : (ids (before ++ msg :: after)).Nodup := hparts ▸ h.nodup
      refine ⟨settled w.chatMessages ++ before, msg, after, ?_, ?_, hid, fun a ha hp => ?_,
        List.perm_insertionSort _ _⟩
      · rw [List.append_assoc, ← hparts, ← h.parts]
      · have hmem : msg ∈ pendings w.chatMessages := by simp [hparts]
        exact mem_pendings hmem
      · rw [List.append_assoc] at ha
        rcases List.mem_append.mp ha with ha | ha
        · rw [mem_settled ha] at hp
          cases hp
        · rw [← hid]
          rw [ids, List.map_append, List.map_cons, List.nodup_middle, List.nodup_cons] at hnodup
          rintro heq
          exact hnodup.1 (heq ▸ by simpa using List.mem_map_of_mem (f := (·.clientMessageId)) ha)
  | addChatMessage | addLocalPendingMessage | addAuthoritativeMessage | clear => trivial

end Operations

/-! ### Runs -/

lemma inv_nil {w : ChatWindow} (hm : w.chatMessages = []) (hi : ∀ cid, w.pendingIndex cid = none) :
    Inv w := by
  refine inv_of_parts (A := []) (Q := []) hm (by simp) (by simp [Unsent]) (by simp [ids])
    fun cid i => ?_
  rw [hi]
  simp [ids]

lemma Inv.addChatMessage_new (h : Inv w) (hi : ∀ cid, w.pendingIndex cid = none)
    (sender message : Str) (clock : Clock) : Inv (w.addChatMessage sender message clock) := by
  refine (h.addChatMessage sender message clock).2 (.inl ?_)
  cases hp : pendings w.chatMessages with
  | nil => rfl
  | cons m rest =>
    have hm := (h.listed m.clientMessageId _).mpr ⟨0, rfl, by rw [hp]; rfl⟩
    rw [hi] at hm
    cases hm

lemma inv_new (clock₁ clock₂ clock₃ : Clock) : Inv (.new clock₁ clock₂ clock₃) := by
  have h0 := inv_nil (w := ⟨false, [], [], utf8 "플레이어", fun _ => none⟩) rfl fun _ => rfl
  have h1 := h0.addChatMessage_new (fun _ => rfl) (utf8 "시스템")
    (utf8 "채팅창에 오신 것을 환영합니다!") clock₁
  have h2 := h1.addChatMessage_new (fun _ => rfl) (utf8 "시스템")
    (utf8 "한글 입력이 완벽하게 지원됩니다.") clock₂
  exact h2.addChatMessage_new (fun _ => rfl) _ _ clock₃

lemma step_pendingIndex {op : Op} (hs : step fmt w op = some w') {cid : UInt64}
    (hc : w.pendingIndex cid = none) (hop : cid ∉ newIds [op]) : w'.pendingIndex cid = none := by
  cases op with
  | addLocalPendingMessage sender message cid' clock =>
    cases hs
    have hne : cid ≠ cid' := by simpa [newIds] using hop
    simpa [ChatWindow.addLocalPendingMessage, Function.update_of_ne hne] using hc
  | ackPendingMessage cid' sender content smid ms =>
    simp only [step, Option.map_eq_some_iff] at hs
    obtain ⟨p, hp, rfl⟩ := hs
    unfold ChatWindow.ackPendingMessage at hp
    split at hp
    · cases hp
      exact hc
    · obtain ⟨m, -, rfl⟩ := Option.map_eq_some_iff.mp hp
      simp only [Function.update_apply]
      split_ifs
      · rfl
      · exact hc
  | addChatMessage | addAuthoritativeMessage =>
    cases hs
    exact hc
  | clear =>
    cases hs
    rfl

variable (fmt) in
/-- **One operation on a good state** does what it should exactly if it meets the condition,
and then the state stays good. -/
theorem Inv.step (h : Inv w) {op : Op} (hnew : ∀ cid ∈ newIds [op], w.pendingIndex cid = none) :
    (Sound fmt w op ↔ Meets w op) ∧
      (Meets w op → ∀ w', PendingRun.step fmt w op = some w' → Inv w') := by
  have key (w' : ChatWindow) (hs : PendingRun.step fmt w op = some w')
      (hiff : Indexed w' ↔ Meets w op) : Sound fmt w op ↔ Meets w op := by
    rw [← hiff, Sound, hs]
    simp [h.exact]
  cases op with
  | addChatMessage sender message clock =>
    obtain ⟨hiff, hinv⟩ := h.addChatMessage sender message clock
    exact ⟨key _ rfl hiff, fun hm w' hs => by cases hs; exact hinv hm⟩
  | addAuthoritativeMessage sender content smid ms cid =>
    obtain ⟨hiff, hinv⟩ := h.addAuthoritativeMessage fmt sender content smid ms cid
    exact ⟨key _ rfl hiff, fun hm w' hs => by cases hs; exact hinv hm⟩
  | addLocalPendingMessage sender message cid clock =>
    have hcid : cid ∉ ids (pendings w.chatMessages) := by
      intro hmem
      obtain ⟨k, hk⟩ := List.mem_iff_getElem?.mp hmem
      have := (h.listed cid _).mpr ⟨k, rfl, hk⟩
      rw [hnew cid (by simp [newIds])] at this
      cases this
    have hinv := h.addLocalPendingMessage sender message clock hcid
    exact ⟨key _ rfl (iff_of_true hinv.indexed trivial), fun _ w' hs => by cases hs; exact hinv⟩
  | ackPendingMessage cid sender content smid ms =>
    cases hi : w.pendingIndex cid with
    | none =>
      have hs : PendingRun.step fmt w (.ackPendingMessage cid sender content smid ms) = some w := by
        simp [PendingRun.step, ChatWindow.ackPendingMessage, hi]
      refine ⟨key w hs (iff_of_true h.indexed (.inl hi)), fun _ w' hs' => ?_⟩
      rw [hs] at hs'
      cases hs'
      exact h
    | some i =>
      obtain ⟨before, msg, after, hparts, hid, rfl⟩ := h.exists_pending hi
      have hack := h.ackPendingMessage_eq fmt sender content smid ms hparts hi
      have hs := congrArg (Option.map Prod.fst) hack
      obtain ⟨hiff, hinv⟩ := h.ackPendingMessage fmt sender content smid ms hparts hid hi rfl
      refine ⟨key _ hs hiff, fun hm w' hs' => ?_⟩
      rw [show PendingRun.step fmt w (.ackPendingMessage cid sender content smid ms) = _ from hs]
        at hs'
      cases hs'
      exact hinv hm
  | clear =>
    have hinv : Inv w.clear := inv_nil rfl fun _ => rfl
    exact ⟨key _ rfl (iff_of_true hinv.indexed trivial), fun _ w' hs => by cases hs; exact hinv⟩

lemma newIds_cons (op : Op) (ops : List Op) : newIds (op :: ops) = newIds [op] ++ newIds ops := by
  rw [newIds, newIds, newIds, ← List.filterMap_append]
  rfl

variable (fmt) in
lemma Inv.along (h : Inv w) {ops : List Op} (hnodup : (newIds ops).Nodup)
    (hnew : ∀ cid ∈ newIds ops, w.pendingIndex cid = none) :
    Along (PendingRun.step fmt) (Sound fmt) w ops ↔
      Along (PendingRun.step fmt) Meets w ops := by
  induction ops generalizing w with
  | nil => exact Iff.rfl
  | cons op ops ih =>
    rw [newIds_cons, List.nodup_append] at hnodup
    rw [newIds_cons, List.forall_mem_append] at hnew
    obtain ⟨hiff, hinv⟩ := h.step fmt hnew.1
    have hrest (hm : Meets w op) (w' : ChatWindow) (hs : PendingRun.step fmt w op = some w') :=
      ih (hinv hm w' hs) hnodup.2.1 fun cid hcid => step_pendingIndex hs (hnew.2 cid hcid)
        fun hmem => hnodup.2.2 cid hmem cid hcid rfl
    constructor
    · rintro ⟨hsound, hall⟩
      have hm := hiff.mp hsound
      exact ⟨hm, fun w' hs => (hrest hm w' hs).mp (hall w' hs)⟩
    · rintro ⟨hm, hall⟩
      exact ⟨hiff.mpr hm, fun w' hs => (hrest hm w' hs).mpr (hall w' hs)⟩

/-- **When the side table is right.** In a run of operations whose new pending messages have
different ids, all positions stay right and all confirmations rewrite the message they should,
exactly if no operation of the run moves a message that stays pending. -/
theorem sideTable_iff_meets (fmt : Int64 → Str) (clock₁ clock₂ clock₃ : Clock) (ops : List Op)
    (hnodup : (newIds ops).Nodup) :
    Along (step fmt) (Sound fmt) (.new clock₁ clock₂ clock₃) ops ↔
      Along (step fmt) Meets (.new clock₁ clock₂ clock₃) ops :=
  (inv_new clock₁ clock₂ clock₃).along fmt hnodup fun _ _ => rfl

/-- Two messages are sent, and confirmed in order. -/
def twoSent : List Op :=
  [.addLocalPendingMessage [0x61] [0x78] 1 ⟨[], 10⟩,
    .addLocalPendingMessage [0x61] [0x79] 2 ⟨[], 20⟩,
    .ackPendingMessage 1 [0x62] [0x78] 1 30, .ackPendingMessage 2 [0x62] [0x79] 2 40]

theorem sideTable_iff_meets_twoSent :
    Along (step fun _ => []) (Sound fun _ => []) (.new ⟨[], 1⟩ ⟨[], 2⟩ ⟨[], 3⟩) twoSent ↔
      Along (step fun _ => []) Meets (.new ⟨[], 1⟩ ⟨[], 2⟩ ⟨[], 3⟩) twoSent :=
  sideTable_iff_meets _ _ _ _ twoSent (by decide)

/-- While a message is pending, the window is told that the connection is lost; then the message
is confirmed. -/
def sentThenLost : List Op :=
  [.addLocalPendingMessage [0x61] [0x78] 1 ⟨[], 10⟩, .addChatMessage [0x73] [0x7A] ⟨[], 20⟩,
    .ackPendingMessage 1 [0x62] [0x78] 1 30]

/-- **The side table points to the wrong message.** The confirmation rewrites the other one, and
the message it was for stays pending. -/
theorem sentThenLost_not_sound : (newIds sentThenLost).Nodup ∧
    ¬Along (step fun _ => []) (Sound fun _ => []) (.new ⟨[], 1⟩ ⟨[], 2⟩ ⟨[], 3⟩) sentThenLost ∧
    (run (step fun _ => []) (.new ⟨[], 1⟩ ⟨[], 2⟩ ⟨[], 3⟩) sentThenLost).map (fun w =>
      (w.chatMessages.drop 3).map fun m => (m.message, m.pending)) =
        some [([0x78], false), ([0x78], true)] := by
  refine ⟨by decide, fun h => ?_, by decide⟩
  have hmeets := ((inv_new ⟨[], 1⟩ ⟨[], 2⟩ ⟨[], 3⟩).along (fun _ => [])
    (by decide) fun _ _ => rfl).mp h
  rcases (hmeets.2 _ rfl).1 with hnone | ⟨hfull, -⟩
  · revert hnone
    decide
  · revert hfull
    decide

end ByteborneWorld.PendingRun
