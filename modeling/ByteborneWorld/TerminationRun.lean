import Mathlib.Algebra.BigOperators.Group.Finset.Basic
import Mathlib.Algebra.Order.BigOperators.Group.Finset
import ByteborneWorld.Liveness
import ByteborneWorld.ProcessRun
import ByteborneWorld.ShutdownRun

/-!
The end of the server program: once the main thread has taken the close event of the service,
every fair run comes to a state in which the main thread has ended and the I/O threads have
nothing left to run. A failed assertion and an exception that nothing catches kill the process
instead; no run here has them.
-/

namespace ByteborneWorld.TerminationRun

open ByteborneWorld.ChatProto ByteborneWorld.PacketModel ByteborneWorld.SessionModel
open ByteborneWorld.WorldModel ByteborneWorld.WorkRun ByteborneWorld.ShutdownRun
open ByteborneWorld.ServerProcess ByteborneWorld.ProcessRun ByteborneWorld.Lts
open ByteborneWorld.Liveness

variable {build : Build} {pb : Protobuf}

/-! ### What is left of the main thread -/

/-- The steps of the main thread to the loop of `close`, and what they add to the sessions, if
the manager has `n` sessions. -/
def pcWork (n : ℕ) : At → ℕ
  | .closed | .waiting | .waitEvents | .receiving _ _ => 0
  | .closing rest => rest.length + 1
  | .loop => n + 2
  | .messages => n + 3
  | .sessionEvents => n + 4
  | .serviceEvents => n + 5
  | .starting _ => n + 11
  | .broadcast _ rest => n + 4 + 12 * rest.length
  | .sending _ _ rest => n + 15 + 12 * rest.length
  | .posting _ _ rest => n + 14 + 12 * rest.length

def sessionsWork (w : World) : ℕ := ∑ i ∈ Finset.range w.nextSessionId, work (w.session i)

def left (w : World) : ℕ :=
  sessionsWork w + w.sessionEvents.length + w.serviceEvents.length + pcWork w.manager.card w.pc

/-- The main thread goes round the loop of `close` until an event comes. -/
def Spins (w : World) : Prop :=
  (w.pc = .waiting ∨ w.pc = .waitEvents) ∧ w.manager ≠ ∅ ∧ w.sessionEvents = []

instance (w : World) : Decidable (Spins w) := inferInstanceAs (Decidable (_ ∧ _ ∧ _))

/-- Where the main thread stands in that loop. -/
def place (w : World) : ℕ :=
  match w.pc with
  | .waiting => if w.manager = ∅ then 1 else if w.sessionEvents = [] then 2 else 1
  | .waitEvents => if w.manager = ∅ then 2 else if w.sessionEvents = [] then 2 else 0
  | _ => 0

/-- Stopped, and not inside the loop over the packets of a session. -/
def Stopped (w : World) : Prop := w.running = false ∧ ∀ i pc, w.pc ≠ .receiving i pc

section World

variable {w w' : World}

lemma place_le (w : World) : place w ≤ 2 := by
  unfold place
  split
  · split_ifs <;> omega
  · split_ifs <;> omega
  · exact Nat.zero_le 2

lemma sum_update {n i : ℕ} (hi : i < n) (f : ℕ → Session Chunk) (s : Session Chunk) :
    (∑ j ∈ Finset.range n, work (Function.update f i s j)) + work (f i) =
      (∑ j ∈ Finset.range n, work (f j)) + work s := by
  have hmem : i ∈ Finset.range n := Finset.mem_range.mpr hi
  rw [← Finset.add_sum_erase _ _ hmem, ← Finset.add_sum_erase _ (fun j => work (f j)) hmem,
    Function.update_self]
  have hrest : ∑ j ∈ (Finset.range n).erase i, work (Function.update f i s j) =
      ∑ j ∈ (Finset.range n).erase i, work (f j) :=
    Finset.sum_congr rfl fun j hj => by rw [Function.update_of_ne (Finset.ne_of_mem_erase hj)]
  omega

lemma sum_update_le {n i c : ℕ} {f : ℕ → Session Chunk} {s : Session Chunk}
    (hs : work s ≤ work (f i) + c) :
    ∑ j ∈ Finset.range n, work (Function.update f i s j) ≤
      (∑ j ∈ Finset.range n, work (f j)) + c := by
  by_cases hi : i < n
  · have := sum_update hi f s
    omega
  · refine le_of_eq_of_le (Finset.sum_congr rfl fun j hj => ?_) (Nat.le_add_right _ c)
    have hj := Finset.mem_range.mp hj
    rw [Function.update_of_ne (by omega)]

/-- What a step of a stopped main thread uses up. -/
def Falls (w w' : World) : Prop :=
  4 * left w' + place w' < 4 * left w + place w ∨
    Spins w ∧ Spins w' ∧ left w' = left w ∧ place w' = place w

lemma falls_of_left (h : left w' < left w) : Falls w w' := by
  have := place_le w'
  exact .inl (by omega)

lemma falls_event {i : ℕ} {e : SessionEvent} {rest : List (ℕ × SessionEvent)} (next : At)
    (hr : w.running = false) (he : w.sessionEvents = (i, e) :: rest) :
    left (w.processSessionEvent next) < left w ∧
      (w.processSessionEvent next).pc = w.pc ∧
      (w.processSessionEvent next).running = false := by
  have hmono {n m : ℕ} (h : n ≤ m) : pcWork n w.pc ≤ pcWork m w.pc := by
    cases w.pc <;> simp only [pcWork] <;> omega
  unfold World.processSessionEvent
  simp only [he]
  cases e with
  | close =>
    have := hmono (Finset.card_le_card (Finset.erase_subset i w.manager))
    simp only [World.handleSessionEvent, left, sessionsWork, he, List.length_cons]
    exact ⟨by omega, trivial, hr⟩
  | receive =>
    simp only [World.handleSessionEvent, hr, left, sessionsWork, he, List.length_cons,
      Bool.false_eq_true, if_false]
    exact ⟨by omega, trivial, trivial⟩

/-- **A stopped main thread makes for its end**, or goes round the loop of `close`. -/
theorem falls_mainStep {nowMs : Int64} {order : List ℕ} (h : Stopped w)
    (hs : w.mainStep build pb nowMs order = some w') : Stopped w' ∧ Falls w w' := by
  obtain ⟨hr, hreceiving⟩ := h
  unfold World.mainStep at hs
  cases hpc : w.pc with
  | loop =>
    simp only [hpc, hr, Bool.false_eq_true, if_false] at hs
    split_ifs at hs with ho
    cases hs
    have hcard : order.length = w.manager.card := by
      rw [← ho.2, List.toFinset_card_of_nodup ho.1]
    refine ⟨⟨rfl, by simp⟩, falls_of_left ?_⟩
    simp only [left, sessionsWork, hpc, pcWork]
    omega
  | serviceEvents =>
    simp only [hpc] at hs
    split at hs
    · cases hs
      refine ⟨⟨hr, by simp⟩, falls_of_left ?_⟩
      simp only [left, sessionsWork, hpc, pcWork]
      omega
    · rename_i e rest he
      cases hs
      cases e with
      | close =>
        refine ⟨⟨rfl, by simp [World.handleServiceEvent]⟩, falls_of_left ?_⟩
        simp only [World.handleServiceEvent, left, sessionsWork, hpc, pcWork, he,
          List.length_cons]
        omega
      | accept =>
        simp only [World.handleServiceEvent, hr, Bool.false_eq_true, if_false]
        refine ⟨⟨rfl, by simp⟩, falls_of_left ?_⟩
        simp only [left, sessionsWork, hpc, pcWork, he, List.length_cons]
        omega
  | starting i =>
    simp only [hpc, Option.some.injEq] at hs
    subst hs
    refine ⟨⟨hr, by simp⟩, falls_of_left ?_⟩
    have hsum := sum_update_le (n := w.nextSessionId) (f := w.session) (i := i)
      (le_of_eq (work_post (w.session i) .asyncRead))
    simp only [handlerWork] at hsum
    simp only [left, sessionsWork, hpc, pcWork]
    omega
  | sessionEvents =>
    simp only [hpc, Option.some.injEq] at hs
    subst hs
    cases he : w.sessionEvents with
    | nil =>
      simp only [World.processSessionEvent, he]
      refine ⟨⟨hr, by simp⟩, falls_of_left ?_⟩
      simp only [left, sessionsWork, hpc, pcWork, he]
      omega
    | cons p rest =>
      obtain ⟨hleft, hpc', hr'⟩ := falls_event .messages hr he
      exact ⟨⟨hr', by rw [hpc']; exact hreceiving⟩, falls_of_left hleft⟩
  | receiving i pc => exact absurd hpc (hreceiving i pc)
  | messages =>
    simp only [hpc, hr] at hs
    cases hs
    refine ⟨⟨rfl, by simp⟩, falls_of_left ?_⟩
    simp only [left, sessionsWork, hpc, pcWork]
    omega
  | broadcast chunk rest =>
    cases rest with
    | nil =>
      simp only [hpc, Option.some.injEq] at hs
      subst hs
      refine ⟨⟨hr, by simp [World.popMessage]⟩, falls_of_left ?_⟩
      simp only [World.popMessage, left, sessionsWork, hpc, pcWork, List.length_nil]
      omega
    | cons i rest =>
      simp only [hpc] at hs
      split_ifs at hs <;> cases hs <;> refine ⟨⟨hr, by simp⟩, falls_of_left ?_⟩ <;>
        simp only [left, sessionsWork, hpc, pcWork, List.length_cons] <;> omega
  | sending chunk i rest =>
    simp only [hpc] at hs
    split_ifs at hs <;> cases hs <;> refine ⟨⟨hr, by simp⟩, falls_of_left ?_⟩ <;>
      simp only [left, sessionsWork, hpc, pcWork] <;> omega
  | posting chunk i rest =>
    simp only [hpc, Option.some.injEq] at hs
    subst hs
    refine ⟨⟨hr, by simp⟩, falls_of_left ?_⟩
    have hsum := sum_update_le (n := w.nextSessionId) (f := w.session) (i := i)
      (le_of_eq (work_post (w.session i) (.send chunk)))
    simp only [handlerWork] at hsum
    simp only [left, sessionsWork, hpc, pcWork]
    omega
  | closing rest =>
    cases rest with
    | nil =>
      simp only [hpc, Option.some.injEq] at hs
      subst hs
      refine ⟨⟨hr, by simp⟩, falls_of_left ?_⟩
      simp only [left, sessionsWork, hpc, pcWork, List.length_nil]
      omega
    | cons i rest =>
      simp only [hpc, Option.some.injEq] at hs
      subst hs
      refine ⟨⟨hr, by simp⟩, falls_of_left ?_⟩
      have hstop : (w.session i).ioStep .stop =
          some ((w.session i).stop.1.aboutTo (w.session i).stop.2, []) := rfl
      have hle : work ((w.session i).stop.1.aboutTo (w.session i).stop.2) ≤
          work (w.session i) + 0 := by
        rcases work_ioStep hstop (by simp) with hlt | ⟨-, heq, -⟩
        · rw [List.length_nil] at hlt
          omega
        · rw [heq]
          omega
      have hsum := sum_update_le (n := w.nextSessionId) (f := w.session) hle
      simp only [left, sessionsWork, World.setSession, hpc, pcWork, List.length_cons]
      omega
  | waiting =>
    simp only [hpc, Option.some.injEq] at hs
    subst hs
    by_cases hm : w.manager = ∅
    · refine ⟨⟨hr, by simp [hm]⟩, .inl ?_⟩
      simp [left, sessionsWork, hpc, pcWork, place, hm]
    · refine ⟨⟨hr, by simp [hm]⟩, ?_⟩
      by_cases he : w.sessionEvents = []
      · refine .inr ⟨⟨.inl hpc, hm, he⟩, ⟨.inr (if_neg hm), hm, he⟩, ?_, ?_⟩
        · simp [left, sessionsWork, hpc, pcWork, hm]
        · simp [place, hpc, hm, he]
      · refine .inl ?_
        simp [left, sessionsWork, hpc, pcWork, place, hm, he]
  | waitEvents =>
    simp only [hpc, Option.some.injEq] at hs
    subst hs
    cases he : w.sessionEvents with
    | nil =>
      simp only [World.processSessionEvent, he]
      refine ⟨⟨hr, by simp⟩, ?_⟩
      by_cases hm : w.manager = ∅
      · refine .inl ?_
        simp [left, sessionsWork, hpc, pcWork, place, hm, he]
      · refine .inr ⟨⟨.inr hpc, hm, he⟩, ⟨.inl rfl, hm, rfl⟩, ?_, ?_⟩
        · simp [left, sessionsWork, hpc, pcWork, he]
        · simp [place, hpc, hm, he]
    | cons p rest =>
      obtain ⟨hleft, hpc', hr'⟩ := falls_event .waiting hr he
      exact ⟨⟨hr', by rw [hpc']; exact hreceiving⟩, falls_of_left hleft⟩
  | closed => simp only [hpc, reduceCtorEq] at hs

/-- **Beside the main thread** the rest of the work goes down too, but for a `stop` of what is
stopped. -/
theorem falls_ioStep {i : ℕ} {a : IoAct Chunk} (h : Stopped w) (hs : w.ioStep i a = some w') :
    Stopped w' ∧ (left w' < left w ∨ w' = w ∧ a = .stop) := by
  unfold World.ioStep at hs
  split at hs
  · cases hs
  · split_ifs at hs with hi
    obtain ⟨⟨s, pushed⟩, hio, rfl⟩ := Option.map_eq_some_iff.mp hs
    refine ⟨h, ?_⟩
    rcases work_ioStep hio ‹_› with hlt | ⟨rfl, rfl, rfl⟩
    · have hsum := sum_update hi.2 w.session s
      refine .inl ?_
      simp only [left, sessionsWork, World.setSession, List.length_append, List.length_map]
      omega
    · refine .inr ⟨?_, rfl⟩
      simp [World.setSession, SessionRun.putBy]

variable (build pb) in
lemma exists_mainStep (h : Stopped w) (hpc : w.pc ≠ .closed) :
    ∃ order w', w.mainStep build pb 0 order = some w' := by
  obtain ⟨hr, hreceiving⟩ := h
  unfold World.mainStep
  cases hw : w.pc with
  | loop =>
    have ho : w.manager.toList.Nodup ∧ w.manager.toList.toFinset = w.manager :=
      ⟨Finset.nodup_toList _, Finset.toList_toFinset _⟩
    exact ⟨w.manager.toList, { w with pc := .closing w.manager.toList }, by
      simp only [hr, Bool.false_eq_true, if_false, if_pos ho]⟩
  | serviceEvents => cases he : w.serviceEvents <;> exact ⟨[], _, rfl⟩
  | messages => exact ⟨[], _, by simp only [hr]; rfl⟩
  | broadcast chunk rest =>
    cases rest with
    | nil => exact ⟨[], _, rfl⟩
    | cons i rest =>
      by_cases hi : i ∈ w.manager ∧ (w.session i).running = true
      · exact ⟨[], _, if_pos hi⟩
      · exact ⟨[], _, if_neg hi⟩
  | sending chunk i rest =>
    by_cases hi : ((w.session i).send chunk).isSome = true
    · exact ⟨[], _, if_pos hi⟩
    · exact ⟨[], _, if_neg hi⟩
  | closing rest => cases rest <;> exact ⟨[], _, rfl⟩
  | receiving i pc => exact absurd hw (hreceiving i pc)
  | closed => exact absurd hw hpc
  | starting | sessionEvents | posting | waiting | waitEvents => exact ⟨[], _, rfl⟩

lemma exists_ioStep {i : ℕ} {a : IoAct Chunk} {r : Session Chunk × List SessionEvent}
    (hi : 1 ≤ i ∧ i < w.nextSessionId) (ha : Own a) (h : (w.session i).ioStep a = some r) :
    ∃ w', w.ioStep i a = some w' := by
  cases a with
  | send chunk => exact absurd ha id
  | stop | post | strand | readDone | readQueue | writeDone | writeQueue =>
    exact ⟨_, by simp only [World.ioStep, if_pos hi, h, Option.map_some]; rfl⟩

section Reachable

variable (hw : Reachable (WorldModel.step build pb) WorldModel.init w)

include hw

/-- While the main thread waits for its sessions, the I/O threads have something to run. -/
lemma exists_io_of_spins (h : Spins w) :
    ∃ i a w', Own a ∧ w.ioStep i a = some w' := by
  obtain ⟨hpc, hm, he⟩ := h
  obtain ⟨i, hi⟩ := Finset.nonempty_iff_ne_empty.mpr hm
  obtain ⟨hb, hview⟩ := WorldRun.reachable_view hw
  have hbound := hb.manager i hi
  have hstopped : (w.session i).running = false := by
    rcases hpc with hpc | hpc <;>
      exact (shut_reachable hw).stopped (by rw [hpc]; trivial) i hi (by simp [hpc, toStop])
  have hacc := accounted_of_held (hview i) (decide_eq_true hi) (phaseOf_ne_created w.pc hbound)
  rcases hacc with hr | hp | he'
  · exact absurd (hstopped.symm.trans hr) (by decide)
  · rcases hp with hstrand | hposting
    · have hcap := (SessionRun.inv_reachable (hview i)).captured
      obtain ⟨r, hr⟩ := hcap.runStrand (List.ne_nil_of_mem hstrand) []
      obtain ⟨w', hw'⟩ := exists_ioStep hbound (a := .strand []) trivial hr
      exact ⟨i, .strand [], w', trivial, hw'⟩
    · obtain ⟨k, hk⟩ : ∃ k, (w.session i).posting[k]? = some Handler.close :=
        List.mem_iff_getElem?.mp hposting
      have hpost : (w.session i).ioStep (.post k) = some
          ({ w.session i with posting := (w.session i).posting.eraseIdx k }.post .close, []) := by
        simp only [Session.ioStep, Session.doPost, hk, Option.map_some]
      obtain ⟨w', hw'⟩ := exists_ioStep hbound (a := .post k) trivial hpost
      exact ⟨i, .post k, w', trivial, hw'⟩
  · simp [WorldRun.view, he] at he'

lemma handled_of_closed (hpc : w.pc = .closed) {i : ℕ} (hi : 1 ≤ i ∧ i < w.nextSessionId) :
    (i, .close) ∈ w.history.handled ∧ (w.session i).socketOpen = false := by
  obtain ⟨-, hview⟩ := WorldRun.reachable_view hw
  have hempty := (shut_reachable hw).empty hpc
  have hheld := (SessionRun.life_reachable (hview i)).held (phaseOf_ne_created w.pc hi)
    (decide_eq_false (by simp [hempty]))
  exact ⟨mem_eventsOf.mp hheld,
    (sealed_reachable (hview i)).closed (List.mem_append_left _ hheld)⟩

lemma exists_io_of_closed (hpc : w.pc = .closed) {i : ℕ} (hi : 1 ≤ i ∧ i < w.nextSessionId)
    (hidle : ¬Idle (w.session i)) : ∃ a w', Own a ∧ w.ioStep i a = some w' := by
  obtain ⟨-, hview⟩ := WorldRun.reachable_view hw
  have hsealed := sealed_reachable (hview i)
  obtain ⟨a, s', pushed, ha, hio⟩ := exists_own hsealed.captured hsealed.settled
    (handled_of_closed hw hpc hi).2 hidle
  obtain ⟨w', hw'⟩ := exists_ioStep hi ha hio
  exact ⟨a, w', ha, hw'⟩

end Reachable

end World

/-! ### The program -/

/-- Nothing is left of the service. -/
structure ServiceIdle (s : ServiceModel.ServerService) : Prop where
  stopSignals : s.stopSignals = false
  posting : s.posting = []
  strand : s.strand = []
  ops : s.ops = []

/-- The main thread has ended, and the I/O threads have nothing left to run, now or later. -/
structure Over (p : Process) : Prop where
  pc : p.world.pc = .closed
  sessions : ∀ i, 1 ≤ i → i < p.world.nextSessionId → Idle (p.world.session i)
  service : ServiceIdle p.service

inductive Threads
  | main
  | io
  deriving DecidableEq

/-- The steps of the main thread, and what the I/O threads do by themselves: the wait for a
signal is cancelled when the service is closed. -/
def group : Threads → ServerProcess.Act → Prop
  | .main, .main _ _ => True
  | .io, .service (.signal _) | .io, .service (.post _) => True
  | .io, .service (.strand _) | .io, .service (.queue _) => True
  | .io, .io _ a => Own a
  | _, _ => False

/-- Who brings the end nearer. -/
def waitedFor (p : Process) : Threads :=
  if p.world.pc = .closed ∨ Spins p.world then .io else .main

def rank (p : Process) : ℕ := 4 * (left p.world + serviceWork p.service) + place p.world

lemma ServiceIdle.step_eq_none {s : ServiceModel.ServerService} (h : ServiceIdle s)
    {b : ServiceModel.Act} (hstart : b ≠ .start) (hstop : b ≠ .stop) : s.step b = none := by
  cases b with
  | start => exact absurd rfl hstart
  | stop => exact absurd rfl hstop
  | signal error =>
    simp [ServiceModel.ServerService.step, ServiceModel.Service.ioStep, h.stopSignals]
  | post i =>
    simp [ServiceModel.ServerService.step, ServiceModel.Service.ioStep,
      ServiceModel.Service.doPost, h.posting]
  | strand errors =>
    simp [ServiceModel.ServerService.step, ServiceModel.ServerService.runStrand, h.strand]
  | done i error =>
    simp [ServiceModel.ServerService.step, ServiceModel.Service.ioStep,
      ServiceModel.Service.done, h.ops]
  | queue i =>
    simp [ServiceModel.ServerService.step, ServiceModel.Service.ioStep,
      ServiceModel.Service.queue, h.ops]

section Process

variable {p p' : Process} {a : ServerProcess.Act}

lemma exists_service (hset : Settled p.service) (hopen : p.service.acceptorOpen = false)
    (h : ¬ServiceIdle p.service) :
    ∃ a p', group .io a ∧ ServerProcess.step build pb p a = some p' := by
  have hstep {b : ServiceModel.Act} {s : ServiceModel.ServerService}
      (hb : p.service.step b = some s) : ∃ p', p.serviceStep b = some p' := by
    rw [Process.serviceStep, hb]
    exact ⟨_, rfl⟩
  cases hsig : p.service.stopSignals with
  | true =>
    obtain ⟨p', hp'⟩ := hstep (b := .signal none) (by
      simp [ServiceModel.ServerService.step, ServiceModel.Service.ioStep, hsig]; rfl)
    exact ⟨.service (.signal none), p', trivial, hp'⟩
  | false =>
    cases hposting : p.service.posting with
    | cons q qs =>
      obtain ⟨p', hp'⟩ := hstep (b := .post 0) (by
        simp [ServiceModel.ServerService.step, ServiceModel.Service.ioStep,
          ServiceModel.Service.doPost, hposting]; rfl)
      exact ⟨.service (.post 0), p', trivial, hp'⟩
    | nil =>
      cases hstrand : p.service.strand with
      | cons q qs =>
        obtain ⟨p', hp'⟩ := hstep (b := .strand []) (by
          simp [ServiceModel.ServerService.step, ServiceModel.ServerService.runStrand, hstrand]
          rfl)
        exact ⟨.service (.strand []), p', trivial, hp'⟩
      | nil =>
        cases hops : p.service.ops with
        | nil => exact absurd ⟨hsig, hposting, hstrand, hops⟩ h
        | cons op ops =>
          obtain ⟨op, state⟩ := op
          cases state with
          | pending => exact absurd rfl (hset hopen _ (by rw [hops]; exact .head _))
          | completed error =>
            obtain ⟨p', hp'⟩ := hstep (b := .queue 0) (by
              simp [ServiceModel.ServerService.step, ServiceModel.Service.ioStep,
                ServiceModel.Service.queue, hops]; rfl)
            exact ⟨.service (.queue 0), p', trivial, hp'⟩

lemma Joined.closed (h : Joined p) (hr : p.world.running = false) :
    p.service.running = false ∧ p.service.acceptorOpen = false ∧ p.started = true := by
  obtain ⟨taken, heq, hrunning, -⟩ := h.taken
  have hmem : .close ∈ pushed p := by
    rw [heq]
    exact List.mem_append_left _ (hrunning.mp hr)
  have hpos := List.count_pos_iff.mpr hmem
  have hlife := h.life
  have hle := Bool.toNat_le p.started
  unfold serviceLife at hlife
  refine ⟨Bool.toNat_eq_zero.mp (by omega), Bool.eq_false_iff.mpr fun hopen => ?_, ?_⟩
  · exact h.acceptor.mp hopen hmem
  · cases hs : p.started with
    | true => rfl
    | false =>
      rw [hs, Bool.toNat_false] at hlife
      omega

lemma serviceStep_frame {b : ServiceModel.Act} (h : p.serviceStep b = some p') :
    p'.world.running = p.world.running ∧ p'.world.pc = p.world.pc := by
  obtain ⟨service, -, rfl⟩ := Option.map_eq_some_iff.mp h
  exact ⟨rfl, rfl⟩

lemma Stopped.step (h : Stopped p.world) (hs : ServerProcess.step build pb p a = some p') :
    Stopped p'.world := by
  have frame (heq : p'.world.running = p.world.running ∧ p'.world.pc = p.world.pc) :
      Stopped p'.world := ⟨heq.1.trans h.1, by rw [heq.2]; exact h.2⟩
  cases a with
  | start =>
    simp only [ServerProcess.step] at hs
    split_ifs at hs
    have hframe := serviceStep_frame hs
    exact frame hframe
  | service b =>
    cases b with
    | start | stop => cases hs
    | signal | post | strand | done | queue => exact frame (serviceStep_frame hs)
  | main nowMs order =>
    obtain ⟨w, hw, rfl⟩ := Option.map_eq_some_iff.mp hs
    exact (falls_mainStep h hw).1
  | io i b =>
    obtain ⟨w, hw, rfl⟩ := Option.map_eq_some_iff.mp hs
    exact (falls_ioStep h hw).1

lemma stopped_step (p : Process) (a : ServerProcess.Act) (p' : Process)
    (h : p.world.running = false → Stopped p.world)
    (hs : ServerProcess.step build pb p a = some p') :
    p'.world.running = false → Stopped p'.world := by
  intro hr
  cases hold : p.world.running with
  | false => exact (h hold).step hs
  | true =>
    have same (heq : p'.world.running = p.world.running) : Stopped p'.world :=
      absurd ((heq.symm.trans hr).symm.trans hold) (by decide)
    cases a with
    | start =>
      simp only [ServerProcess.step] at hs
      split_ifs at hs
      have hframe := serviceStep_frame hs
      exact same hframe.1
    | service b =>
      cases b with
      | start | stop => cases hs
      | signal | post | strand | done | queue => exact same (serviceStep_frame hs).1
    | main nowMs order =>
      obtain ⟨w, hw, rfl⟩ := Option.map_eq_some_iff.mp hs
      cases takes_mainStep hw with
      | none hr' => exact same hr'
      | @event e rest hpc he heq =>
        subst heq
        cases e with
        | close =>
          exact ⟨hr, fun i pc => by simp [Process.withWorld, World.handleServiceEvent, hpc]⟩
        | accept => exact same (by simp [Process.withWorld, World.handleServiceEvent, hold,
            World.accept])
    | io i b =>
      obtain ⟨w, hw, rfl⟩ := Option.map_eq_some_iff.mp hs
      exact same (ioStep_frame hw).1

lemma stopped_reachable (h : Reachable (ServerProcess.step build pb) ServerProcess.init p)
    (hr : p.world.running = false) : Stopped p.world :=
  h.invariant (I := fun p => p.world.running = false → Stopped p.world) stopped_step
    (fun h => by cases h) hr

/-- What holds on the way to the end. -/
structure Ending (build : Build) (pb : Protobuf) (p : Process) : Prop where
  reachable : Reachable (ServerProcess.step build pb) ServerProcess.init p
  stopped : Stopped p.world

/-- A stopped service that makes a step has less left to do, its events included. -/
lemma rank_serviceStep {b : ServiceModel.Act} (hr : p.service.running = false)
    (hstart : b ≠ .start) (hstop : b ≠ .stop) (h : p.serviceStep b = some p') :
    rank p' < rank p := by
  obtain ⟨service, hb, -⟩ := Option.map_eq_some_iff.mp h
  obtain ⟨new, he⟩ := effect_step hb hstart hstop
  rw [serviceStep_eq hb he.events, Option.some.injEq] at h
  subst h
  have hwork := he.work hr
  have hlen := List.length_filterMap_le queued new
  simp only [rank, left, sessionsWork, place, List.length_append]
  omega

theorem progress : Progress (ServerProcess.step build pb) (Ending build pb) Over rank waitedFor
    group where
  enabled p h hover := by
    have hjoined := joined_reachable h.reachable
    have hworld := world_reachable h.reachable
    have hio {i : ℕ} {a : IoAct Chunk} {w : World} (ha : Own a) (hw : p.world.ioStep i a = some w) :
        Enabled (ServerProcess.step build pb) (group .io) p :=
      ⟨.io i a, p.withWorld w, ha, by rw [ServerProcess.step, hw]; rfl⟩
    unfold waitedFor
    split_ifs with hwait
    · rcases hwait with hpc | hspin
      · by_cases hservice : ServiceIdle p.service
        · -- a session is not idle
          obtain ⟨i, h1, hn, hidle⟩ : ∃ i, 1 ≤ i ∧ i < p.world.nextSessionId ∧
              ¬Idle (p.world.session i) := by
            by_contra! hall
            exact hover ⟨hpc, hall, hservice⟩
          obtain ⟨a, w, ha, hw⟩ := exists_io_of_closed hworld hpc ⟨h1, hn⟩ hidle
          exact hio ha hw
        · obtain ⟨a, p', ha, hp'⟩ := exists_service hjoined.settled
            (Joined.closed hjoined h.stopped.1).2.1 hservice
          exact ⟨a, p', ha, hp'⟩
      · obtain ⟨i, a, w, ha, hw⟩ := exists_io_of_spins hworld hspin
        exact hio ha hw
    · obtain ⟨order, w, hw⟩ := exists_mainStep build pb h.stopped fun hpc => hwait (.inl hpc)
      exact ⟨.main 0 order, p.withWorld w, trivial, by rw [ServerProcess.step, hw]; rfl⟩
  step p a p' h hover hs := by
    obtain ⟨hr, -, hstarted⟩ := Joined.closed (joined_reachable h.reachable) h.stopped.1
    cases a with
    | start => simp [ServerProcess.step, hstarted] at hs
    | service b =>
      cases b with
      | start | stop => cases hs
      | signal | post | strand | done | queue =>
        exact .inl (rank_serviceStep hr (by simp) (by simp) hs)
    | main nowMs order =>
      obtain ⟨w, hw, rfl⟩ := Option.map_eq_some_iff.mp hs
      rcases (falls_mainStep h.stopped hw).2 with hlt | ⟨hspin, hspin', hleft, hplace⟩
      · refine .inl ?_
        simp only [rank, Process.withWorld]
        omega
      · have hio : waitedFor p = .io := if_pos (.inr hspin)
        have hio' : waitedFor (p.withWorld w) = .io := if_pos (.inr hspin')
        refine .inr ⟨?_, hio'.trans hio.symm, by rw [hio]; exact id⟩
        simp only [rank, Process.withWorld, hleft, hplace]
    | io i b =>
      obtain ⟨w, hw, rfl⟩ := Option.map_eq_some_iff.mp hs
      rcases (falls_ioStep h.stopped hw).2 with hlt | ⟨rfl, rfl⟩
      · have hplace := place_le w
        refine .inl ?_
        simp only [rank, Process.withWorld]
        omega
      · refine .inr ⟨rfl, rfl, ?_⟩
        cases waitedFor p <;> exact id

lemma over_step (h : Ending build pb p) (hover : Over p)
    (hs : ServerProcess.step build pb p a = some p') : p' = p := by
  obtain ⟨hr, -, hstarted⟩ := Joined.closed (joined_reachable h.reachable) h.stopped.1
  cases a with
  | start => simp [ServerProcess.step, hstarted] at hs
  | service b =>
    have hnone {service} (hb : p.service.step b = some service) (hstart : b ≠ .start)
        (hstop : b ≠ .stop) : p' = p := by
      rw [hover.service.step_eq_none hstart hstop] at hb
      cases hb
    cases b with
    | start | stop => cases hs
    | signal | post | strand | done | queue =>
      obtain ⟨service, hb, -⟩ := Option.map_eq_some_iff.mp hs
      exact hnone hb (by simp) (by simp)
  | main nowMs order => simp [ServerProcess.step, World.mainStep, hover.pc] at hs
  | io i b =>
    obtain ⟨w, hw, rfl⟩ := Option.map_eq_some_iff.mp hs
    rcases (falls_ioStep h.stopped hw).2 with hlt | ⟨rfl, -⟩
    · have hworld := world_reachable h.reachable
      unfold World.ioStep at hw
      split at hw
      · cases hw
      · split_ifs at hw with hi
        obtain ⟨⟨s, pushed⟩, hio, rfl⟩ := Option.map_eq_some_iff.mp hw
        have hlife := SessionRun.life_reachable ((WorldRun.reachable_view hworld).2 i)
        have hclosed := (handled_of_closed hworld hover.pc hi).1
        have hrun := (hlife.stopped (List.mem_append_left _ (mem_eventsOf.mpr hclosed))).2
        obtain ⟨rfl, rfl, rfl⟩ := (hover.sessions i hi.1 hi.2).ioStep hrun ‹_› hio
        simp [Process.withWorld, World.setSession, SessionRun.putBy]
    · rfl

/-- **The program ends.** From any state in which the main thread has taken the close event of the
service, in every run that treats the main thread and the I/O threads fairly, a state comes in
which the main thread has ended, no handler is left and no operation is outstanding, so that the
I/O threads end too; and nothing happens after it. By then every connection accepted before the
close event was a session, and every session was closed on its own close event. -/
theorem server_ends {e : Execution (ServerProcess.step build pb)}
    (h0 : Reachable (ServerProcess.step build pb) ServerProcess.init (e.state 0))
    (hstop : (e.state 0).world.running = false)
    (hmain : e.WeaklyFair (group .main)) (hio : e.WeaklyFair (group .io)) :
    ∃ n, Over (e.state n) ∧ (∀ m ≥ n, e.state m = e.state n) ∧
      (e.state n).world.nextSessionId = served (pushed (e.state n)) + 1 ∧
      ∀ i, 1 ≤ i → i < (e.state n).world.nextSessionId →
        (i, .close) ∈ (e.state n).world.history.handled := by
  have hending : ∀ m ≥ 0, Ending build pb (e.state m) := fun m hm =>
    Execution.invariant ⟨h0, stopped_reachable h0 hstop⟩
      (fun _ _ _ _ h _ hs => ⟨h.reachable.next hs, h.stopped.step hs⟩) hm
  obtain ⟨n, -, hover⟩ := eventually_of_progress (n := 0) progress hending fun i => by
    cases i
    · exact hmain
    · exact hio
  have hend := hending n (Nat.zero_le n)
  have hworld := world_reachable hend.reachable
  refine ⟨n, hover, fun m hm => ?_, ?_, fun i h1 hn =>
    (handled_of_closed hworld hover.pc ⟨h1, hn⟩).1⟩
  · exact Execution.invariant (I := fun p => p = e.state n) rfl
      (fun k _ a p' heq _ hs => over_step hend hover (heq ▸ hs)) hm
  · obtain ⟨taken, heq, hrunning, hnext⟩ := (joined_reachable hend.reachable).taken
    rw [hnext, heq, served_of_mem (hrunning.mp hend.stopped.1)]

lemma Over.not_enabled (h : Over p) (t : Threads) :
    ¬Enabled (ServerProcess.step build pb) (group t) p := by
  rintro ⟨a, p', ha, hs⟩
  cases t with
  | main =>
    cases a with
    | main nowMs order => simp [ServerProcess.step, World.mainStep, h.pc] at hs
    | start | service | io => exact ha
  | io =>
    cases a with
    | start | main => exact ha
    | service b =>
      cases b with
      | start | stop | done => exact ha
      | signal | post | strand | queue =>
        obtain ⟨service, hb, -⟩ := Option.map_eq_some_iff.mp hs
        rw [h.service.step_eq_none (by simp) (by simp)] at hb
        cases hb
    | io i b =>
      obtain ⟨w, hw, -⟩ := Option.map_eq_some_iff.mp hs
      unfold World.ioStep at hw
      split at hw
      · cases hw
      · split_ifs at hw with hi
        rw [(h.sessions i hi.1 hi.2).ioStep_eq_none ha] at hw
        cases hw

end Process

/-- What comes after `acceptThenSignal`: the service runs dry, and the session is stopped, closed
and removed. -/
def toTheEnd : List ServerProcess.Act :=
  [.service (.queue 0), .service (.strand []), .main 0 [], .main 0 [], .main 0 [], .main 0 [1],
    .main 0 [], .main 0 [], .io 1 (.strand []), .io 1 (.post 0), .io 1 (.strand []), .main 0 [],
    .main 0 [], .main 0 [], .main 0 []]

/-- The program has ended. -/
theorem server_ends_toTheEnd : ∃ (e : Execution (ServerProcess.step .Release proto3)) (n : ℕ),
    run (ServerProcess.step .Release proto3) ServerProcess.init acceptThenSignal =
      some (e.state 0) ∧ Over (e.state n) := by
  obtain ⟨p, hp⟩ := Option.isSome_iff_exists.mp (show (run (ServerProcess.step .Release proto3)
    ServerProcess.init acceptThenSignal).isSome = true by rfl)
  obtain ⟨t, ht⟩ := Option.isSome_iff_exists.mp (show (run (ServerProcess.step .Release proto3)
    ServerProcess.init (acceptThenSignal ++ toTheEnd)).isSome = true by rfl)
  have hrun := ht
  rw [run_append, hp, Option.bind_some] at hrun
  have hstop : (run (ServerProcess.step .Release proto3) ServerProcess.init acceptThenSignal).map
      (fun p => p.world.running) = some false := by rfl
  rw [hp, Option.map_some, Option.some.injEq] at hstop
  have hend : (run (ServerProcess.step .Release proto3) ServerProcess.init
      (acceptThenSignal ++ toTheEnd)).map (fun p => (p.world.pc, p.world.nextSessionId,
        p.service.stopSignals, p.service.posting, p.service.strand, p.service.ops)) =
      some (.closed, 2, false, [], [], []) := by rfl
  have hsession : (run (ServerProcess.step .Release proto3) ServerProcess.init
      (acceptThenSignal ++ toTheEnd)).map (fun p => ((p.world.session 1).strand,
        (p.world.session 1).posting, (p.world.session 1).reads, (p.world.session 1).writes)) =
      some ([], [], [], []) := by rfl
  rw [ht, Option.map_some, Option.some.injEq] at hend hsession
  simp only [Prod.mk.injEq] at hend hsession
  obtain ⟨hpc, hnext, hsig, hposting, hstrand, hops⟩ := hend
  have hover : Over t := by
    refine ⟨hpc, fun i h1 hn => ?_, ⟨hsig, hposting, hstrand, hops⟩⟩
    obtain rfl : i = 1 := by omega
    exact ⟨hsession.1, hsession.2.1, hsession.2.2.1, hsession.2.2.2⟩
  have hsome : (run (ServerProcess.step .Release proto3) p toTheEnd).isSome := by rw [hrun]; rfl
  obtain ⟨n, hn, -⟩ := server_ends (e := Execution.ofRun p toTheEnd hsome) ⟨_, hp⟩ hstop
    (weaklyFair_ofRun hsome hrun (hover.not_enabled .main))
    (weaklyFair_ofRun hsome hrun (hover.not_enabled .io))
  exact ⟨Execution.ofRun p toTheEnd hsome, n, hp, hn⟩

end ByteborneWorld.TerminationRun
