import ByteborneWorld.PendingRun

/-!
How long the list of the chat window becomes. Three operations make it longer, and one of
them keeps it at 1000 messages.
-/

namespace ByteborneWorld.HistoryRun

open ByteborneWorld.ChatProto ByteborneWorld.ChatWindowModel ByteborneWorld.Lts
open ByteborneWorld.PendingRun

/-- The operation returns, and leaves at most 1000 messages. -/
def Bounded (fmt : Int64 → Str) (w : ChatWindow) (op : Op) : Prop :=
  ∃ w', step fmt w op = some w' ∧ w'.chatMessages.length ≤ 1000

/-- The operations that drop no message find the list not full. -/
def HasRoom (w : ChatWindow) : Op → Prop
  | .addLocalPendingMessage _ _ _ _ | .addAuthoritativeMessage _ _ _ _ _ =>
    w.chatMessages.length < 1000
  | .addChatMessage _ _ _ | .ackPendingMessage _ _ _ _ _ | .clear => True

variable {fmt : Int64 → Str} {w w' : ChatWindow} {ops : List Op}

/-! ### The length of the list -/

def nextLength (n : ℕ) : Op → ℕ
  | .addChatMessage _ _ _ => if n < 1000 then n + 1 else n
  | .addLocalPendingMessage _ _ _ _ | .addAuthoritativeMessage _ _ _ _ _ => n + 1
  | .ackPendingMessage _ _ _ _ _ => n
  | .clear => 0

lemma length_addChatMessage (w : ChatWindow) (sender message : Str) (clock : Clock) :
    (w.addChatMessage sender message clock).chatMessages.length =
      if w.chatMessages.length < 1000 then w.chatMessages.length + 1
      else w.chatMessages.length := by
  simp only [ChatWindow.addChatMessage, length_sortMessagesByServerOrder, List.length_append,
    List.length_singleton]
  split_ifs <;> first | omega | simp

lemma length_new (clock₁ clock₂ clock₃ : Clock) :
    (ChatWindow.new clock₁ clock₂ clock₃).chatMessages.length = 3 := by
  simp only [ChatWindow.new, length_addChatMessage]
  decide

variable (fmt) in
/-- **Every operation returns**, and the length of the list depends on nothing but the one
before. -/
lemma step_length (h : InRange w) (op : Op) : ∃ w', step fmt w op = some w' ∧ InRange w' ∧
    w'.chatMessages.length = nextLength w.chatMessages.length op := by
  cases op with
  | addChatMessage sender message clock =>
    exact ⟨_, rfl, h.addChatMessage sender message clock, length_addChatMessage w _ _ _⟩
  | addLocalPendingMessage sender message cid clock =>
    exact ⟨_, rfl, h.addLocalPendingMessage sender message cid clock, by
      simp [nextLength, ChatWindow.addLocalPendingMessage]⟩
  | addAuthoritativeMessage sender content smid ms cid =>
    exact ⟨_, rfl, h.addAuthoritativeMessage sender content smid ms cid, by
      simp [nextLength, ChatWindow.addAuthoritativeMessage]⟩
  | ackPendingMessage cid sender content smid ms =>
    rcases h.ackPendingMessage fmt cid sender content smid ms with ⟨-, hack⟩ | ⟨-, w', hack, hin, -⟩
    · exact ⟨w, by simp [step, hack], h, rfl⟩
    · obtain ⟨i, msg, heq⟩ := ackPendingMessage_chatMessages hack
      exact ⟨w', by simp [step, hack], hin, by simp [nextLength, heq]⟩
  | clear => exact ⟨_, rfl, fun _ _ hi => (by cases hi), rfl⟩

lemma bounded_iff (h : InRange w) (hle : w.chatMessages.length ≤ 1000) (op : Op) :
    Bounded fmt w op ↔ HasRoom w op := by
  obtain ⟨w', hs, -, hlen⟩ := step_length fmt h op
  have hbound : Bounded fmt w op ↔ nextLength w.chatMessages.length op ≤ 1000 := by
    simp [Bounded, hs, hlen]
  rw [hbound]
  cases op <;> simp only [nextLength, HasRoom]
  case addChatMessage => split_ifs <;> simp <;> omega
  case addLocalPendingMessage | addAuthoritativeMessage => omega
  case ackPendingMessage => simpa using hle
  case clear => simp

/-! ### Runs -/

/-- What holds as long as all operations meet the condition. -/
structure Inv (w : ChatWindow) : Prop where
  inRange : InRange w
  bounded : w.chatMessages.length ≤ 1000

lemma inv_new (clock₁ clock₂ clock₃ : Clock) : Inv (.new clock₁ clock₂ clock₃) where
  inRange _ _ hi := by cases hi
  bounded := by rw [length_new]; decide

lemma inv_step (w : ChatWindow) (op : Op) (w' : ChatWindow) (hi : Inv w) (hr : HasRoom w op)
    (hs : step fmt w op = some w') : Inv w' := by
  obtain ⟨w₁, hs₁, hin, -⟩ := step_length fmt hi.inRange op
  obtain ⟨w₂, hs₂, hle⟩ := (bounded_iff hi.inRange hi.bounded op).mpr hr
  obtain rfl : w₁ = w' := Option.some.inj (hs₁.symm.trans hs)
  obtain rfl : w₂ = w₁ := Option.some.inj (hs₂.symm.trans hs)
  exact ⟨hin, hle⟩

variable (fmt) in
lemma Inv.along (hi : Inv w) (ops : List Op) :
    Along (step fmt) (Bounded fmt) w ops ↔ Along (step fmt) HasRoom w ops :=
  along_iff_of_invariant inv_step (fun _ op hi => bounded_iff hi.inRange hi.bounded op) hi ops

/-- **When the history is bounded.** In a run of the operations the list holds at most 1000
messages after each, exactly if those that drop no message are only called on a list that
is not full. -/
theorem bounded_iff_hasRoom (fmt : Int64 → Str) (clock₁ clock₂ clock₃ : Clock) (ops : List Op) :
    Along (step fmt) (Bounded fmt) (.new clock₁ clock₂ clock₃) ops ↔
      Along (step fmt) HasRoom (.new clock₁ clock₂ clock₃) ops :=
  (inv_new clock₁ clock₂ clock₃).along fmt ops

variable (fmt) in
lemma exists_run_length (h : InRange w) (ops : List Op) : ∃ w', run (step fmt) w ops = some w' ∧
    w'.chatMessages.length = ops.foldl nextLength w.chatMessages.length := by
  induction ops generalizing w with
  | nil => exact ⟨w, rfl, rfl⟩
  | cons op ops ih =>
    obtain ⟨w₁, hs, hin, hlen⟩ := step_length fmt h op
    obtain ⟨w₂, hrun, hlen₂⟩ := ih hin
    exact ⟨w₂, by simp [hs, hrun], by rw [hlen₂, hlen, List.foldl_cons]⟩

/-- Messages of other users, as the server numbers them. -/
def othersSend (n : ℕ) : List Op :=
  (List.range n).map fun k =>
    .addAuthoritativeMessage (utf8 "플레이어1") (utf8 "a") (.ofNat (k + 1)) 1 0

lemma length_othersSend (m n : ℕ) : (othersSend n).foldl nextLength m = m + n := by
  induction n with
  | zero => rfl
  | succ n ih =>
    rw [othersSend, List.range_succ, List.map_append, List.foldl_append]
    rw [← othersSend, ih]
    rfl

lemma length_le_of_bounded {n : ℕ} (h : Along (step fun _ => []) (Bounded fun _ => [])
    (.new ⟨[], 1⟩ ⟨[], 2⟩ ⟨[], 3⟩) (othersSend n)) : 3 + n ≤ 1000 := by
  have hnew := inv_new ⟨[], 1⟩ ⟨[], 2⟩ ⟨[], 3⟩
  obtain ⟨w, hrun, hlen⟩ := exists_run_length (fun _ => []) hnew.inRange (othersSend n)
  have hroom := (hnew.along (fun _ => []) (othersSend n)).mp h
  have hle := (run_invariant_of_along inv_step hnew hroom hrun).bounded
  rwa [hlen, length_new, length_othersSend] at hle

/-- **The history grows past its bound**: after the three messages of the window itself, 998
messages of other users make the list too long. -/
theorem othersSend_not_bounded :
    ¬Along (step fun _ => []) (Bounded fun _ => []) (.new ⟨[], 1⟩ ⟨[], 2⟩ ⟨[], 3⟩)
      (othersSend 998) := by
  have hlong : ¬3 + 998 ≤ 1000 := by decide
  exact mt length_le_of_bounded hlong

end ByteborneWorld.HistoryRun
