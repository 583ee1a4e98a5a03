import ByteborneWorld.ClientModel
import ByteborneWorld.NetRun
import ByteborneWorld.ScreenRun

/-!
The server, the connections and what the clients at their ends show: from the log of the server
to the chat windows.
-/

namespace ByteborneWorld.ScreenNet

open ByteborneWorld.ChatProto ByteborneWorld.PacketModel ByteborneWorld.ChatWindowModel
open ByteborneWorld.GameClientModel ByteborneWorld.WorldModel ByteborneWorld.Lts
open ByteborneWorld.NetRun ByteborneWorld.LinkRun
open ByteborneWorld.AckRun (ClientAct)
open ByteborneWorld.DisplayRun (key Ordered not_before_iff_key)
open ByteborneWorld.ScreenRun (shown fromServer started handled Arranged Screen)

variable {κ : Type*} {build : Build} {pb : Protobuf} {pk : κ → Packet pb} {fmt : Int64 → Str}

/-! ### The system -/

/-- `taken` is how many of the entries that were pushed in a client its main thread has taken from
the message queue. -/
structure Screens (κ : Type*) where
  net : Net κ
  game : ℕ → GameClient
  taken : ℕ → ℕ

inductive Act (κ : Type*)
  /-- the server, a connection or the session of a client makes a step -/
  | net (a : NetAct κ)
  /-- one turn of the loop of `processMessages` in client `i` -/
  | dispatch (i : ℕ)
  | sendChatMessage (i : ℕ) (message : Str) (clock : Clock) (sessionRunning : Bool)
  | client (i : ℕ) (a : ClientAct)

/-- Each client has shown its three welcome lines. -/
def init (clock₁ clock₂ clock₃ : ℕ → Clock) : Screens κ where
  net := Net.init
  game i := started (clock₁ i) (clock₂ i) (clock₃ i)
  taken _ := 0

/-- Only chat messages have a handler, which takes the message for one of its class. -/
def dispatch (build : Build) (fmt : Int64 → Str) (c : GameClient) (entry : MessageQueueEntry) :
    Option GameClient :=
  match entry.messageType with
  | .s2cChat =>
    match entry.message with
    | .s2cChat message => c.handleMessage fmt message
    | .c2sChat _ => none
  | _ => if build = .Debug then none else some c

/-- It is what the main thread of the client with its sessions does. -/
lemma dispatch_eq (c : ClientModel.Client) (entry : MessageQueueEntry) :
    (c.dispatch build fmt entry).map (·.game) = dispatch build fmt c.game entry := by
  obtain ⟨sessionId, message, messageType⟩ := entry
  unfold ClientModel.Client.dispatch dispatch
  cases messageType with
  | s2cChat =>
    cases message with
    | s2cChat r => cases h : c.game.handleMessage fmt r <;> simp [h]
    | c2sChat r => rfl
  | _ =>
    dsimp only
    split_ifs <;> rfl

def step (build : Build) (pb : Protobuf) (pk : κ → Packet pb) (fmt : Int64 → Str)
    (s : Screens κ) : Act κ → Option (Screens κ)
  | .net a => (NetRun.step build pb pk s.net a).map fun n => { s with net := n }
  | .dispatch i =>
    match (s.net.delivered i)[s.taken i]? with
    | none => none
    | some entry =>
      if (s.game i).running then
        (dispatch build fmt (s.game i) entry).map fun c =>
          { s with
            game := Function.update s.game i c
            taken := Function.update s.taken i (s.taken i + 1) }
      else none
  | .sendChatMessage i message clock sessionRunning =>
    some { s with
      game := Function.update s.game i ((s.game i).sendChatMessage message clock sessionRunning).1 }
  | .client i a => some { s with game := Function.update s.game i (a.apply (s.game i)) }

/-! ### One client of the system -/

def responseOf (entry : MessageQueueEntry) : Option S2CChat :=
  match entry.messageType, entry.message with
  | .s2cChat, .s2cChat message => some message
  | _, _ => none

/-- What a step is for client `i`. -/
def actsOf (i : ℕ) (s : Screens κ) (a : Act κ) (_ : Screens κ) : List ScreenRun.Act :=
  match a with
  | .net _ => []
  | .dispatch j =>
    if j = i then
      (((s.net.delivered i)[s.taken i]?).bind responseOf).toList.map .handleMessage
    else []
  | .sendChatMessage j message clock sessionRunning =>
    if j = i then [.sendChatMessage message clock sessionRunning] else []
  | .client j a => if j = i then [.client a] else []

def takenFrom (s : Screens κ) (i : ℕ) : MessageQueue := (s.net.delivered i).take (s.taken i)

variable {s s' : Screens κ} {a : Act κ}

lemma dispatch_cases {c c' : GameClient} {entry : MessageQueueEntry}
    (h : dispatch build fmt c entry = some c') :
    (∃ r, responseOf entry = some r ∧ c.handleMessage fmt r = some c') ∨
      (responseOf entry = none ∧ c' = c) := by
  obtain ⟨sessionId, message, messageType⟩ := entry
  unfold dispatch at h
  unfold responseOf
  cases messageType with
  | s2cChat =>
    cases message with
    | s2cChat r => exact .inl ⟨r, rfl, h⟩
    | c2sChat r => cases h
  | _ =>
    simp only [Option.ite_none_left_eq_some] at h
    obtain ⟨-, h⟩ := h
    cases h
    exact .inr ⟨rfl, rfl⟩

lemma delivered_step {n n' : Net κ} {b : NetAct κ} (h : NetRun.step build pb pk n b = some n')
    (i : ℕ) : n.delivered i <+: n'.delivered i := by
  cases b with
  | world b =>
    cases b with
    | io j b =>
      simp only [NetRun.step, Net.ioStep] at h
      split_ifs at h
      obtain ⟨w, -, rfl⟩ := Option.map_eq_some_iff.mp h
      exact List.prefix_refl _
    | main | service | stop =>
      simp only [NetRun.step] at h
      obtain ⟨w, -, rfl⟩ := Option.map_eq_some_iff.mp h
      exact List.prefix_refl _
  | client j b =>
    simp only [NetRun.step, Net.clientStep] at h
    split_ifs at h
    obtain ⟨t, -, rfl⟩ := Option.map_eq_some_iff.mp h
    simp only [Function.update_apply]
    split_ifs with hj
    · rw [hj]
      exact List.prefix_append _ _
    · exact List.prefix_refl _
  | down | up =>
    obtain ⟨bs, -, rfl⟩ := Option.map_eq_some_iff.mp h
    exact List.prefix_refl _

/-- **Each client of the system is a client.** -/
lemma sim_client (i : ℕ) (hs : step build pb pk fmt s a = some s') :
    run (ScreenRun.step fmt) (s.game i) (actsOf i s a s') = some (s'.game i) := by
  cases a with
  | net b =>
    obtain ⟨n, -, rfl⟩ := Option.map_eq_some_iff.mp hs
    rfl
  | dispatch j =>
    simp only [step] at hs
    split at hs
    · cases hs
    rename_i entry hentry
    obtain ⟨hrun, hs⟩ := Option.ite_none_right_eq_some.mp hs
    obtain ⟨c, hc, rfl⟩ := Option.map_eq_some_iff.mp hs
    by_cases hj : j = i
    · subst hj
      rcases dispatch_cases hc with ⟨r, hr, hc⟩ | ⟨hr, rfl⟩
      · simp [actsOf, hentry, hr, ScreenRun.step, hrun, hc]
      · simp [actsOf, hentry, hr]
    · simp [actsOf, hj, Function.update_of_ne (Ne.symm hj)]
  | sendChatMessage j message clock sessionRunning =>
    cases hs
    by_cases hj : j = i
    · subst hj
      simp [actsOf, ScreenRun.step]
    · simp [actsOf, hj, Function.update_of_ne (Ne.symm hj)]
  | client j b =>
    cases hs
    by_cases hj : j = i
    · subst hj
      simp [actsOf, ScreenRun.step]
    · simp [actsOf, hj, Function.update_of_ne (Ne.symm hj)]

/-- The system behind the clients goes its own way. -/
def netActs (_ : Screens κ) (a : Act κ) (_ : Screens κ) : List (NetAct κ) :=
  match a with
  | .net a => [a]
  | _ => []

lemma sim_net (hs : step build pb pk fmt s a = some s') :
    run (NetRun.step build pb pk) s.net (netActs s a s') = some s'.net := by
  cases a with
  | net b =>
    obtain ⟨n, hn, rfl⟩ := Option.map_eq_some_iff.mp hs
    simp [netActs, hn]
  | dispatch j =>
    simp only [step] at hs
    split at hs
    · cases hs
    obtain ⟨-, hs⟩ := Option.ite_none_right_eq_some.mp hs
    obtain ⟨c, -, rfl⟩ := Option.map_eq_some_iff.mp hs
    rfl
  | sendChatMessage | client =>
    cases hs
    rfl

lemma taken_step (i : ℕ) (ht : s.taken i ≤ (s.net.delivered i).length)
    (hs : step build pb pk fmt s a = some s') :
    s'.taken i ≤ (s'.net.delivered i).length ∧
      (takenFrom s' i).filterMap responseOf = (takenFrom s i).filterMap responseOf ++
        observe (ScreenRun.step fmt) handled (s.game i) (actsOf i s a s') := by
  cases a with
  | net b =>
    obtain ⟨n, hn, rfl⟩ := Option.map_eq_some_iff.mp hs
    obtain ⟨rest, hrest⟩ := delivered_step hn i
    refine ⟨?_, ?_⟩
    · rw [← hrest, List.length_append]
      exact Nat.le_add_right_of_le ht
    · simp [takenFrom, actsOf, ← hrest, List.take_append_of_le_length ht]
  | dispatch j =>
    have hsim := sim_client i hs
    simp only [step] at hs
    split at hs
    · cases hs
    rename_i entry hentry
    obtain ⟨hrun, hs⟩ := Option.ite_none_right_eq_some.mp hs
    obtain ⟨c, hc, rfl⟩ := Option.map_eq_some_iff.mp hs
    by_cases hj : j = i
    · subst hj
      obtain ⟨hlt, hget⟩ := List.getElem?_eq_some_iff.mp hentry
      simp only [takenFrom, Function.update_self]
      refine ⟨hlt, ?_⟩
      rw [List.take_add_one, hentry, List.filterMap_append, List.append_cancel_left_eq]
      rcases dispatch_cases hc with ⟨r, hr, hc⟩ | ⟨hr, rfl⟩
      · have hone : ScreenRun.step fmt (s.game j) (.handleMessage r) = some c := by
          simp [ScreenRun.step, hrun, hc]
        simp [actsOf, hentry, hr, observe_cons hone, handled]
      · simp [actsOf, hentry, hr]
    · simp [takenFrom, actsOf, hj, Function.update_of_ne (Ne.symm hj), ht]
  | sendChatMessage j message clock sessionRunning =>
    cases hs
    refine ⟨ht, ?_⟩
    by_cases hj : j = i
    · subst hj
      simp [takenFrom, actsOf, observe, ScreenRun.step, handled]
    · simp [takenFrom, actsOf, hj]
  | client j b =>
    cases hs
    refine ⟨ht, ?_⟩
    by_cases hj : j = i
    · subst hj
      simp [takenFrom, actsOf, observe, ScreenRun.step, handled]
    · simp [takenFrom, actsOf, hj]

/-! ### Conditions on the clients -/

/-- In client `i` no line comes between the pending messages. -/
def Undisturbed (i : ℕ) (s : Screens κ) : Act κ → Prop
  | .net _ => True
  | .dispatch j => j = i → ∀ r ∈ ((s.net.delivered i)[s.taken i]?).bind responseOf,
      ScreenRun.Undisturbed (s.game i) (.handleMessage r)
  | .sendChatMessage j message clock sessionRunning =>
    j = i → ScreenRun.Undisturbed (s.game i) (.sendChatMessage message clock sessionRunning)
  | .client j a => j = i → ScreenRun.Undisturbed (s.game i) (.client a)

/-- Client `i` drops no line. -/
def Keeps (i : ℕ) (s : Screens κ) : Act κ → Prop
  | .client j a => j = i → ScreenRun.Keeps (s.game i) (.client a)
  | _ => True

lemma along_singleton {σ α : Type*} {f : σ → α → Option σ} {P : σ → α → Prop} {x : σ} {b : α}
    (h : P x b) : Along f P x [b] := ⟨h, fun _ _ => trivial⟩

lemma along_undisturbed (i : ℕ) (h : Undisturbed i s a) :
    Along (ScreenRun.step fmt) ScreenRun.Undisturbed (s.game i) (actsOf i s a s') := by
  cases a with
  | net b => trivial
  | dispatch j =>
    simp only [actsOf]
    split_ifs with hj
    · cases hr : ((s.net.delivered i)[s.taken i]?).bind responseOf with
      | none => trivial
      | some r => exact along_singleton (h hj r hr)
    · trivial
  | sendChatMessage j message clock sessionRunning =>
    simp only [actsOf]
    split_ifs with hj
    · exact along_singleton (h hj)
    · trivial
  | client j b =>
    simp only [actsOf]
    split_ifs with hj
    · exact along_singleton (h hj)
    · trivial

lemma along_keeps (i : ℕ) (h : Keeps i s a) :
    Along (ScreenRun.step fmt) ScreenRun.Keeps (s.game i) (actsOf i s a s') := by
  cases a with
  | net b => trivial
  | dispatch j =>
    simp only [actsOf]
    split_ifs
    · cases ((s.net.delivered i)[s.taken i]?).bind responseOf with
      | none => trivial
      | some r => exact along_singleton trivial
    · trivial
  | sendChatMessage j message clock sessionRunning =>
    simp only [actsOf]
    split_ifs
    · exact along_singleton trivial
    · trivial
  | client j b =>
    simp only [actsOf]
    split_ifs with hj
    · exact along_singleton (h hj)
    · trivial

/-! ### The order of the log -/

variable {n : Net κ}

/-- The clock of the server does not go back. -/
def ClockAscends (log : List Sent) : Prop :=
  log.Pairwise fun a b => a.response.serverSentAtMs ≤ b.response.serverSentAtMs

/-- Of the responses that were made, the first that `i` was meant to get come in order. -/
def fed (w : World) (i : ℕ) : List S2CChat :=
  ((w.history.log.take (BroadcastRun.bound w i)).drop (w.history.acceptedAt i)).map Sent.response

lemma feed_eq (w : World) (i : ℕ) :
    feed w i = (fed w i).map fun r => PacketModel.entry clientSessionId (.s2cChat r) := by
  rw [feed, fed, List.map_map]
  rfl

/-- **The log is in display order.** -/
lemma arranged_log (h : EndToEnd build pk n) (hlog : n.world.history.log.length < 2 ^ 64)
    (hclock : ClockAscends n.world.history.log) :
    Arranged fmt (n.world.history.log.map Sent.response) := by
  have hnum := h.numbered hlog
  have hasc : n.world.history.log.Pairwise fun a b =>
      a.response.serverMessageId.toNat < b.response.serverMessageId.toNat := by
    rw [← List.pairwise_map, hnum]
    exact List.pairwise_lt_range'
  refine ⟨fun r hr => ?_, ?_⟩
  · obtain ⟨s, hs, rfl⟩ := List.mem_map.mp hr
    have hmem : s.response.serverMessageId.toNat ∈
        n.world.history.log.map fun s => s.response.serverMessageId.toNat :=
      List.mem_map_of_mem (f := fun s : Sent => s.response.serverMessageId.toNat) hs
    rw [hnum, List.mem_range'_1] at hmem
    intro h0
    rw [h0, UInt64.toNat_zero] at hmem
    omega
  · unfold Ordered
    rw [List.map_map, List.pairwise_map]
    refine (hclock.and hasc).imp fun {a b} hab => (not_before_iff_key _ _).mp ?_
    obtain ⟨hms, hid⟩ := hab
    have hlt : a.response.serverMessageId < b.response.serverMessageId :=
      UInt64.lt_iff_toNat_lt.mpr hid
    rcases Int64.lt_or_eq_of_le hms with hms | hms
    · have hnot : ¬b.response.serverSentAtMs < a.response.serverSentAtMs := by
        rw [Int64.lt_iff_toInt_lt] at hms ⊢
        omega
      simp [ChatMessage.before, shown, (Int64.ne_of_lt hms).symm, hnot]
    · have hnot : ¬b.response.serverMessageId < a.response.serverMessageId := by
        rw [UInt64.lt_iff_toNat_lt]
        omega
      simp [ChatMessage.before, shown, hms, (UInt64.ne_of_lt hlt).symm, hnot]

lemma filterMap_feed {q : List S2CChat} :
    (q.map fun r => PacketModel.entry clientSessionId (.s2cChat r)).filterMap responseOf = q := by
  rw [List.filterMap_map]
  have hsome : (responseOf ∘ fun r : S2CChat => PacketModel.entry clientSessionId (.s2cChat r)) =
      some := rfl
  rw [hsome, List.filterMap_some]

/-- What arrives at a client is in order, even if the last response is repeated. -/
lemma arranged_delivered (h : EndToEnd build pk n) (hlog : n.world.history.log.length < 2 ^ 64)
    (hclock : ClockAscends n.world.history.log) (i : ℕ) :
    Arranged fmt ((n.delivered i).filterMap responseOf) := by
  have hall : Arranged fmt (n.world.history.log.map Sent.response) := arranged_log h hlog hclock
  have hsub : (fed n.world i).Sublist (n.world.history.log.map Sent.response) :=
    ((List.drop_sublist _ _).trans (List.take_sublist _ _)).map _
  have hfed : Arranged fmt (fed n.world i) :=
    ⟨fun r hr => hall.numbered r (hsub.subset hr), hall.ordered.sublist (hsub.map _)⟩
  obtain ⟨k, again, -, heq, hagain⟩ := (h.down i).stopped
  rw [feed_eq] at heq hagain
  have hsplit : (n.delivered i).filterMap responseOf =
      (fed n.world i).take k ++ again.filterMap responseOf := by
    rw [heq, List.filterMap_append, ← List.map_take, filterMap_feed]
  have hone : ∀ r ∈ again.filterMap responseOf, (fed n.world i)[k]? = some r := by
    intro r hr
    obtain ⟨e, he, hre⟩ := List.mem_filterMap.mp hr
    have hget := hagain e he
    rw [List.getElem?_map, Option.map_eq_some_iff] at hget
    obtain ⟨r', hr', rfl⟩ := hget
    cases hre
    exact hr'
  rw [hsplit]
  refine ⟨fun r hr => ?_, ?_⟩
  · rcases List.mem_append.mp hr with hr | hr
    · exact hfed.numbered r (List.mem_of_mem_take hr)
    · exact hfed.numbered r (List.mem_of_getElem? (hone r hr))
  · rw [Ordered, List.map_append, List.pairwise_append]
    refine ⟨hfed.ordered.sublist ((List.take_sublist _ _).map _), ?_, fun a ha b hb => ?_⟩
    · refine List.pairwise_of_forall_mem_list fun a ha b hb => le_of_eq ?_
      obtain ⟨r, hr, rfl⟩ := List.mem_map.mp ha
      obtain ⟨r', hr', rfl⟩ := List.mem_map.mp hb
      rw [Option.some.inj ((hone r hr).symm.trans (hone r' hr'))]
    · obtain ⟨r, hr, rfl⟩ := List.mem_map.mp ha
      obtain ⟨r', hr', rfl⟩ := List.mem_map.mp hb
      have hpre : (fed n.world i).take (k + 1) = (fed n.world i).take k ++ [r'] := by
        rw [List.take_add_one, hone r' hr', Option.toList_some]
      have hord := hfed.ordered.sublist ((List.take_sublist (k + 1) _).map _)
      rw [hpre, List.map_append, List.pairwise_append] at hord
      exact hord.2.2 _ (List.mem_map_of_mem hr) _ (by simp)

lemma taken_eq (h : EndToEnd build pk s.net) {i : ℕ} (ht : s.taken i ≤ (s.net.delivered i).length)
    (hr : (s.net.client i).main.session.running = true) :
    (takenFrom s i).filterMap responseOf =
      ((s.net.world.history.log.drop (s.net.world.history.acceptedAt i)).take (s.taken i)).map
        Sent.response := by
  have hpre := (h.down i).running hr
  have hlen := hpre.length_le
  have htake : takenFrom s i = (feed s.net.world i).take (s.taken i) := by
    obtain ⟨rest, hrest⟩ := hpre
    rw [takenFrom, ← hrest, List.take_append_of_le_length ht]
  rw [htake, feed_eq, ← List.map_take, filterMap_feed, fed, ← List.map_take, List.drop_take,
    List.take_take]
  rw [feed_eq, List.length_map, fed, List.length_map, List.length_drop, List.length_take] at hlen
  rw [Nat.min_eq_left (by omega)]

/-! ### Runs -/

/-- What client `i` shows of the server. -/
structure OnScreen (fmt : Int64 → Str) (s : Screens κ) (i : ℕ) (kept : Prop) : Prop where
  /-- the last of the responses it has taken from its queue -/
  lines : fromServer (s.game i).chatWindow.chatMessages <:+
    ((takenFrom s i).filterMap responseOf).map (shown fmt)
  /-- all of them, if it has dropped none -/
  all : kept → fromServer (s.game i).chatWindow.chatMessages =
    ((takenFrom s i).filterMap responseOf).map (shown fmt)
  /-- which are the first of those that were logged since it was accepted -/
  logged : (s.net.client i).main.session.running = true →
    (takenFrom s i).filterMap responseOf =
      ((s.net.world.history.log.drop (s.net.world.history.acceptedAt i)).take (s.taken i)).map
        Sent.response

/-- What a client has done so far, and the responses it has handled. -/
structure Played (fmt : Int64 → Str) (c : GameClient) (i : ℕ) (s : Screens κ)
    (acts : List ScreenRun.Act) : Prop where
  taken : s.taken i ≤ (s.net.delivered i).length
  run : run (ScreenRun.step fmt) c acts = some (s.game i)
  handled : (takenFrom s i).filterMap responseOf =
    observe (ScreenRun.step fmt) handled c acts

lemma played_step (c : GameClient) (i : ℕ) (s : Screens κ) (acts : List ScreenRun.Act)
    (a : Act κ) (s' : Screens κ) (h : Played fmt c i s acts)
    (hs : step build pb pk fmt s a = some s') : Played fmt c i s' (acts ++ actsOf i s a s') := by
  obtain ⟨htaken, heq⟩ := taken_step i h.taken hs
  refine ⟨htaken, ?_, ?_⟩
  · rw [run_append, h.run, Option.bind_some, sim_client i hs]
  · rw [heq, h.handled, observe_append h.run]

variable {clock₁ clock₂ clock₃ : ℕ → Clock}

lemma played_init (i : ℕ) : Played fmt (started (clock₁ i) (clock₂ i) (clock₃ i)) i
    (init clock₁ clock₂ clock₃ : Screens κ) [] := ⟨Nat.le_refl _, rfl, rfl⟩

lemma not_sends {i : ℕ} {as : List (Act κ)}
    (h : ∀ message clock sessionRunning, .sendChatMessage i message clock sessionRunning ∉ as)
    (s : Screens κ) :
    ∀ b ∈ observe (step build pb pk fmt) (actsOf i) s as, ¬ScreenRun.Sends b := by
  refine forall_mem_observe (fun a ha s s' b hb => ?_) s
  cases a with
  | net b => simp [actsOf] at hb
  | dispatch j =>
    simp only [actsOf] at hb
    split_ifs at hb
    · obtain ⟨r, -, rfl⟩ := List.mem_map.mp hb
      exact id
    · cases hb
  | sendChatMessage j message clock sessionRunning =>
    simp only [actsOf] at hb
    split_ifs at hb with hj
    · exact absurd (hj ▸ ha) (h message clock sessionRunning)
    · cases hb
  | client j b =>
    simp only [actsOf] at hb
    split_ifs at hb
    · rw [List.mem_singleton.mp hb]
      exact id
    · cases hb

/-- **From the log to the screens.** In every run of the server and its clients, with any errors
and any stops, a client that does not send, or in which no line comes between the pending
messages, shows the last of the responses that it has taken from its queue, in order, whether
they were added or took the place of pending messages. As long as its session runs, these are a
part of the log of the server without a gap, each once; after a stop the last one may be taken,
and shown, again and again. -/
theorem screens_show_log (hpb : pb.RoundTrips) {as : List (Act κ)}
    (h : run (step build pb pk fmt) (init clock₁ clock₂ clock₃) as = some s) (i : ℕ)
    (hu : (∀ message clock sessionRunning,
        .sendChatMessage i message clock sessionRunning ∉ as) ∨
      Along (step build pb pk fmt) (Undisturbed i) (init clock₁ clock₂ clock₃) as)
    (hlog : s.net.world.history.log.length < 2 ^ 64)
    (hclock : ClockAscends s.net.world.history.log) :
    OnScreen fmt s i (Along (step build pb pk fmt) (Keeps i) (init clock₁ clock₂ clock₃) as) := by
  have hnet : run (NetRun.step build pb pk) Net.init _ = some s.net :=
    run_observe netActs (f := Screens.net) (fun _ _ _ hs => sim_net hs) h
  have hend := (run_invariant (netInv_step hpb) netInv_init hnet).endToEnd hpb
  obtain ⟨ht, hgame, htaken⟩ := observe_invariant (played_step _ i) (played_init i) h
  rw [List.nil_append] at hgame htaken
  have hundisturbed : Along (ScreenRun.step fmt) ScreenRun.Undisturbed
      (started (clock₁ i) (clock₂ i) (clock₃ i)) (observe (step build pb pk fmt) (actsOf i)
        (init clock₁ clock₂ clock₃) as) := by
    rcases hu with hsilent | hu
    · exact ScreenRun.undisturbed_of_silent (not_sends hsilent _)
    · exact along_observe (actsOf i) (f := fun s => s.game i) (fun _ _ _ hs => sim_client i hs)
        (fun _ _ _ hu _ => along_undisturbed i hu) hu h
  have hkeeps (hk : Along (step build pb pk fmt) (Keeps i) (init clock₁ clock₂ clock₃) as) :
      Along (ScreenRun.step fmt) ScreenRun.Keeps
        (started (clock₁ i) (clock₂ i) (clock₃ i)) (observe (step build pb pk fmt) (actsOf i)
          (init clock₁ clock₂ clock₃) as) :=
    along_observe (actsOf i) (f := fun s => s.game i) (fun _ _ _ hs => sim_client i hs)
      (fun _ _ _ hk _ => along_keeps i hk) hk h
  have harranged : Arranged fmt ((takenFrom s i).filterMap responseOf) := by
    have hall : Arranged fmt ((s.net.delivered i).filterMap responseOf) :=
      arranged_delivered hend hlog hclock i
    have hsub : ((takenFrom s i).filterMap responseOf).Sublist
        ((s.net.delivered i).filterMap responseOf) := (List.take_sublist _ _).filterMap _
    exact ⟨fun r hr => hall.numbered r (hsub.subset hr), hall.ordered.sublist (hsub.map _)⟩
  rw [htaken] at harranged
  have hscreen := ScreenRun.screen_run hundisturbed hgame harranged
  rw [← htaken] at hscreen
  exact ⟨hscreen.lines, fun hk => hscreen.all (hkeeps hk), taken_eq hend ht⟩

/-! ### Two clients -/

/-- A client that listens: the response that arrives is dispatched. -/
def listener : List (Act Unit) :=
  [.client 1 (.serviceConnect 1 ⟨[], 5⟩)] ++ chatAndResponse.map .net ++ [.dispatch 1]

/-- The packet of a chat message with an id. -/
def askedChat : Packet proto3 :=
  .ofMessage proto3_roundTrips (.c2sChat ⟨[], [104], 1, 5⟩) (by
    rw [byteSizeLong_c2sChat _ (by decide) (by decide)]
    decide)

/-- The packet of the response to it. -/
def askedChatResponse : List UInt8 :=
  [30, 0, 0xE8, 3, 10, 13, 0xED, 0x94, 0x8C, 0xEB, 0xA0, 0x88, 0xEC, 0x9D, 0xB4, 0xEC, 0x96, 0xB4,
    49, 18, 1, 104, 24, 1, 32, 1, 40, 1, 48, 1]

/-- A client that asks: the response confirms the message that it has pending. -/
def asker : List (Act Unit) :=
  [.client 1 (.serviceConnect 1 ⟨[], 5⟩), .sendChatMessage 1 [104] ⟨[], 5⟩ true] ++
    (exchange [11, 0, 0xD0, 7, 18, 1, 104, 24, 1, 32, 5] askedChatResponse).map .net ++
    [.dispatch 1]

/-- The three lines of the client at the start. -/
def welcomed : Screens Unit :=
  init (fun _ => ⟨[], 1⟩) (fun _ => ⟨[], 2⟩) (fun _ => ⟨[], 3⟩)

instance (c : GameClient) (a : ClientAct) : Decidable (ScreenRun.AddsLine c a) := by
  unfold ScreenRun.AddsLine
  split <;> infer_instance

instance (c : GameClient) (a : ScreenRun.Act) : Decidable (ScreenRun.Undisturbed c a) := by
  unfold ScreenRun.Undisturbed
  split <;> infer_instance

instance (i : ℕ) (s : Screens κ) (a : Act κ) : Decidable (Undisturbed i s a) := by
  unfold Undisturbed
  split <;> infer_instance

lemma ascends_of_single {log : List Sent} {ms : Int64}
    (h : log.map (fun x => x.response.serverSentAtMs) = [ms]) :
    log.length < 2 ^ 64 ∧ ClockAscends log := by
  constructor
  · have := congrArg List.length h
    rw [List.length_map, List.length_singleton] at this
    omega
  · have hpair : (log.map fun x => x.response.serverSentAtMs).Pairwise (· ≤ ·) := by
      rw [h]
      exact List.pairwise_singleton _ _
    exact List.pairwise_map.mp hpair

/-- Each window shows the one response of the log, behind the three lines at the start and the
one about the connection; in the second it has taken the place of the pending message. -/
theorem screens_show_log_listenerAsker :
    (∃ s, run (step .Release proto3 (fun _ => StopRun.emptyChat) fun _ => []) welcomed listener =
        some s ∧
      ((s.game 1).chatWindow.chatMessages.length, (s.game 1).nextClientMessageId) = (5, 1) ∧
      OnScreen (fun _ => []) s 1
        (Along (step .Release proto3 (fun _ => StopRun.emptyChat) fun _ => []) (Keeps 1)
          welcomed listener)) ∧
    ∃ s, run (step .Release proto3 (fun _ => askedChat) fun _ => []) welcomed asker = some s ∧
      ((s.game 1).chatWindow.chatMessages.length, (s.game 1).nextClientMessageId) = (5, 2) ∧
      OnScreen (fun _ => []) s 1
        (Along (step .Release proto3 (fun _ => askedChat) fun _ => []) (Keeps 1) welcomed
          asker) := by
  constructor
  · have heval : ((run (step .Release proto3 (fun _ => StopRun.emptyChat) fun _ => []) welcomed
        listener).map fun s =>
          (((s.game 1).chatWindow.chatMessages.length, (s.game 1).nextClientMessageId),
            s.net.world.history.log.map fun x => x.response.serverSentAtMs)) =
        some ((5, 1), [1]) := by decide +kernel
    obtain ⟨s, hs, heq⟩ := Option.map_eq_some_iff.mp heval
    obtain ⟨hlen, hms⟩ := Prod.mk.inj heq
    obtain ⟨hlog, hclock⟩ := ascends_of_single hms
    exact ⟨s, hs, hlen, screens_show_log proto3_roundTrips hs 1 (.inl (by simp [listener])) hlog
      hclock⟩
  · have heval : ((run (step .Release proto3 (fun _ => askedChat) fun _ => []) welcomed
        asker).map fun s =>
          (((s.game 1).chatWindow.chatMessages.length, (s.game 1).nextClientMessageId),
            s.net.world.history.log.map fun x => x.response.serverSentAtMs)) =
        some ((5, 2), [1]) := by decide +kernel
    obtain ⟨s, hs, heq⟩ := Option.map_eq_some_iff.mp heval
    obtain ⟨hlen, hms⟩ := Prod.mk.inj heq
    obtain ⟨hlog, hclock⟩ := ascends_of_single hms
    exact ⟨s, hs, hlen, screens_show_log proto3_roundTrips hs 1 (.inr (by decide +kernel)) hlog
      hclock⟩

end ByteborneWorld.ScreenNet
