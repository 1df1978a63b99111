import Jumpstarter.Driver.TftpOptions

/-!
# The task of a TFTP transfer

`_start_transfer` registers a transfer and makes a task of `start`. The task makes the transport, runs
`_initialize_transfer` and `_perform_transfer` (`TftpTransfer.step`), and ends. `start` calls `cleanup` in a
`finally` that is entered after `_initialize_transfer`: whatever ends the task before leaves the transfer
registered and its transport open.

Besides the steps of the transfer there are exceptions at every `await` (the transport is not made, the
storage fails, the task is cancelled), any acknowledgement and any other packet that the client sends, and
the server's `_cleanup`.

* `meets`: the step does not end the task before the `finally` is entered, and not before a packet was sent.
* `transfer_cleanedUp`: if all steps meet it, the transfer is cleaned up when its task has ended; a step that
  does not meet it ends the task with a transfer that is not.
-/

namespace Jumpstarter.TftpTransfer

open Lib List

/-! ## The task -/

inductive Stage where
  /-- `create_datagram_endpoint`. -/
  | binding
  | running
  | finished
  deriving DecidableEq

structure Task where
  stage : Stage := .binding
  /-- The transfer is in `active_transfers`. -/
  registered : Bool := true
  /-- `_initialize_transfer` has returned `True`. -/
  entered : Bool := false
  transfer : St := { transport := false }
  errors : Nat := 0

namespace Task

/-- `cleanup` of the transfer. -/
def cleanup (t : Task) : Task :=
  { t with registered := false, transfer := { t.transfer with transport := false } }

/-- The end of `start`, by a return or by an exception. -/
def leave (t : Task) : Task :=
  if t.entered then { t.cleanup with stage := .finished } else { t with stage := .finished }

/-- A step of the transfer, which may be its last. -/
def goOn (t : Task) (transfer : St) : Task :=
  match transfer.pc with
  | .ended => leave { t with stage := .running, transfer := transfer }
  | .opening => { t with stage := .running, transfer := transfer, entered := true }
  | _ => { t with stage := .running, transfer := transfer }

/-- The transfer once its transport is made. -/
def begin (cfg : Config) (t : Task) : St := { start cfg with shutdown := t.transfer.shutdown }

inductive Act where
  | bound
  | bindFails
  | transfer (a : TftpTransfer.Act)
  | ack (blockNum : Nat)
  | stray
  /-- The task is cancelled at its `await`. -/
  | cancelled
  /-- `shutdown_event` is set. -/
  | shutdown
  /-- `_cleanup` of the server. -/
  | serverCleanup

def step (cfg : Config) (t : Task) : Act → Option Task
  | .bound => if t.stage = .binding then some (t.goOn (t.begin cfg)) else none
  | .bindFails => if t.stage = .binding then some t.leave else none
  | .transfer .cleanup => none
  | .transfer a =>
    if t.stage = .running then (TftpTransfer.step cfg t.transfer a).map t.goOn else none
  | .ack blockNum =>
    if t.stage = .running ∧ t.transfer.transport = true then
      some { t with transfer := t.transfer.handleAck cfg blockNum }
    else none
  | .stray =>
    if t.stage = .running ∧ t.transfer.transport = true then some { t with errors := t.errors + 1 } else none
  | .cancelled => if t.stage = .finished then none else some t.leave
  | .shutdown => some { t with transfer := { t.transfer with shutdown := true } }
  | .serverCleanup => if t.registered then some t.cleanup else none

def sys (cfg : Config) : Sys Task Act := ⟨fun t => t = {}, step cfg⟩

/-- An OACK, DATA or ERROR packet was sent. -/
def sent (t : Task) : Bool := !t.transfer.flights.isEmpty || decide (0 < t.errors)

/-- The transfer is not registered and its transport is closed. -/
def cleared (t : Task) : Bool := !t.registered && !t.transfer.transport

def CleanedUp (t : Task) : Prop := t.stage = .finished → t.cleared = true ∧ t.sent = true

/-- `cleanup` will be called or is not needed any more, and a packet was sent: the task may end. -/
def ready (t : Task) : Bool := (t.entered || t.cleared) && t.sent

end Task

/-- The step ends the task before a block was acknowledged: the last attempt fails, or there is none; the
storage fails; or the server is shut down when the file has been opened. -/
def St.endsEarly (cfg : Config) (s : St) : Act → Bool
  | .opened => s.shutdown
  | .blockRead => !(decide (1 ≤ cfg.retries) && s.transport)
  | .storageFails => true
  | .wake => match s.pc with
    | .waiting _ expected attempt =>
      decide (s.lastAck ≠ expected) && !(decide (attempt + 1 ≤ cfg.retries) && s.transport)
    | _ => false
  | .timeout => match s.pc with
    | .waiting _ _ attempt => !(decide (attempt + 1 ≤ cfg.retries) && s.transport)
    | _ => false
  | _ => false

namespace Task

/-- The step does not end the task before it may end. -/
@[simp] def meets (cfg : Config) (t : Task) : Act → Bool
  | .bound => cfg.options.readable && (decide (1 ≤ cfg.retries) || decide (cfg.needsOack = some false))
  | .bindFails | .cancelled => t.ready
  | .transfer a => !t.transfer.endsEarly cfg a || t.ready
  | _ => true

end Task

/-! ## A step of the transfer -/

variable {cfg : Config} {s s' : St} {a : Act}

def St.Sent (s : St) : Prop := ∀ job expected attempt, s.pc = .waiting job expected attempt → s.flights ≠ []

/-- What a step does to the transport and to the packets. -/
structure Keeps (s s' : St) : Prop where
  transport : s'.transport = s.transport
  flights : s.flights <+: s'.flights
  sent : s.Sent → s'.Sent

theorem Keeps.of_pc (s : St) {pc : Pc} (h : ∀ job expected attempt, pc ≠ .waiting job expected attempt) :
    Keeps s { s with pc := pc } :=
  ⟨rfl, prefix_rfl, fun _ _ _ _ hpc => absurd hpc (h _ _ _)⟩

theorem keeps_attempt (cfg : Config) (hsent : s.flights ≠ [] ∨ s.currentPacket ≠ none) (job : Job)
    (expected k : Nat) : Keeps s (s.attempt cfg job expected k) := by
  unfold St.attempt
  split
  · refine ⟨rfl, prefix_append .., fun _ _ _ _ _ hnil => ?_⟩
    obtain ⟨hflights, hpacket⟩ := append_eq_nil_iff.mp hnil
    rcases hsent with h | h
    · exact h hflights
    · exact h (Option.toList_eq_nil_iff.mp hpacket)
  · exact Keeps.of_pc s fun _ _ _ h => by cases h

theorem keeps_sendWithRetries (cfg : Config) (s : St) (job : Job) : Keeps s (s.sendWithRetries cfg job) := by
  have h := keeps_attempt (s := { s with currentPacket := some ⟨job.packet s.blockNum, s.block⟩ }) cfg
    (.inr (by simp)) job (job.expected s.blockNum) 1
  exact { h with }

theorem keeps_handleDataBlock (cfg : Config) (s : St) (data : Bytes) : Keeps s (s.handleDataBlock cfg data) := by
  unfold St.handleDataBlock
  split
  · exact keeps_sendWithRetries ..
  · split <;> exact keeps_sendWithRetries ..

theorem keeps_loop (s : St) : Keeps s s.loop := by
  unfold St.loop
  split <;> exact Keeps.of_pc s fun _ _ _ h => by cases h

theorem keeps_succeeded (cfg : Config) (s : St) (job : Job) : Keeps s (s.succeeded cfg job) := by
  cases job with
  | oack => exact ⟨rfl, prefix_rfl, fun _ _ _ _ h => by cases h⟩
  | emptyFile => exact ⟨rfl, prefix_rfl, fun _ _ _ _ h => by cases h⟩
  | finalBlock => exact ⟨rfl, prefix_rfl, fun _ _ _ _ h => by cases h⟩
  | data payload =>
    simp only [St.succeeded]
    split
    · exact ⟨rfl, prefix_rfl, fun _ _ _ _ h => by cases h⟩
    · have h := keeps_loop { s.noteDelivered cfg payload with
        blockNum := (s.blockNum + 1) % 65536, block := s.block + 1 }
      exact { h with }

theorem keeps_handleAck (cfg : Config) (s : St) (blockNum : Nat) : Keeps s (s.handleAck cfg blockNum) := by
  unfold St.handleAck
  split
  · exact ⟨rfl, prefix_rfl, id⟩
  · split
    · exact ⟨rfl, prefix_rfl, id⟩
    · split
      · refine ⟨rfl, prefix_append .., fun h job expected attempt hpc hnil => ?_⟩
        exact h job expected attempt hpc (append_eq_nil_iff.mp hnil).1
      · exact ⟨rfl, prefix_rfl, id⟩

theorem handleAck_pc (cfg : Config) (s : St) (blockNum : Nat) : (s.handleAck cfg blockNum).pc = s.pc := by
  unfold St.handleAck
  split
  · rfl
  · split
    · rfl
    · split <;> rfl

theorem keeps_step (hsent : s.Sent) (ha : a ≠ .cleanup) (hst : step cfg s a = some s') : Keeps s s' := by
  cases stepped hst with
  | opened => exact keeps_loop s
  | read => exact ⟨rfl, prefix_rfl, fun _ _ _ _ h => by cases h⟩
  | blockRead => exact keeps_handleDataBlock ..
  | storageFails => exact Keeps.of_pc s fun _ _ _ h => by cases h
  | acked => exact keeps_succeeded ..
  | again hpc | timeout hpc => exact keeps_attempt cfg (.inl (hsent _ _ _ hpc)) _ _ _
  | cleanup => exact absurd rfl ha
  | shutdown | deliver => exact ⟨rfl, prefix_rfl, id⟩
  | deliverAck => exact keeps_handleAck ..

variable {job : Job} {expected k : Nat}

theorem attempt_of_not (h : (!(decide (k ≤ cfg.retries) && s.transport)) = true) :
    s.attempt cfg job expected k = { s with pc := .ended } := by
  refine if_neg fun hgo => ?_
  simp [hgo.1, hgo.2] at h

theorem attempt_pc (h : (!(decide (k ≤ cfg.retries) && s.transport)) = false) :
    (s.attempt cfg job expected k).pc = .waiting job expected k := by
  have hgo : k ≤ cfg.retries ∧ s.transport = true := by simpa using h
  rw [St.attempt, if_pos hgo]

theorem sendWithRetries_of_not (h : (!(decide (1 ≤ cfg.retries) && s.transport)) = true) :
    (s.sendWithRetries cfg job).pc = .ended ∧ (s.sendWithRetries cfg job).flights = s.flights := by
  rw [St.sendWithRetries, attempt_of_not (by exact h)]
  exact ⟨rfl, rfl⟩

theorem sendWithRetries_pc (h : (!(decide (1 ≤ cfg.retries) && s.transport)) = false) :
    (s.sendWithRetries cfg job).pc = .waiting job (job.expected s.blockNum) 1 := by
  rw [St.sendWithRetries, attempt_pc (by exact h)]

theorem handleDataBlock_job (cfg : Config) (s : St) (data : Bytes) :
    ∃ job, s.handleDataBlock cfg data = s.sendWithRetries cfg job := by
  unfold St.handleDataBlock
  split
  · exact ⟨_, rfl⟩
  · split <;> exact ⟨_, rfl⟩

theorem step_of_endsEarly (h : s.endsEarly cfg a = true) (hst : step cfg s a = some s') :
    s'.pc = .ended ∧ s'.flights = s.flights := by
  cases stepped hst with
  | opened =>
    rw [St.loop, if_pos (show s.shutdown = true from h)]
    exact ⟨rfl, rfl⟩
  | blockRead =>
    obtain ⟨job, hjob⟩ := handleDataBlock_job cfg s ‹_›
    rw [hjob]
    exact sendWithRetries_of_not h
  | storageFails => exact ⟨rfl, rfl⟩
  | acked hpc hack hlast => simp [St.endsEarly, hpc, hlast] at h
  | again hpc hlast =>
    simp only [St.endsEarly, hpc, Bool.and_eq_true] at h
    rw [attempt_of_not h.2]
    exact ⟨rfl, rfl⟩
  | timeout hpc =>
    simp only [St.endsEarly, hpc] at h
    rw [attempt_of_not h]
    exact ⟨rfl, rfl⟩
  | _ => cases h

theorem waiting_of_ended (h : s.endsEarly cfg a = false) (hpc : s.pc ≠ .ended)
    (hst : step cfg s a = some s') (hended : s'.pc = .ended) :
    ∃ job expected attempt, s.pc = .waiting job expected attempt ∧ job ≠ .oack := by
  cases stepped hst with
  | opened =>
    have hrun : s.shutdown = false := h
    simp [St.loop, hrun] at hended
  | blockRead =>
    obtain ⟨job, hjob⟩ := handleDataBlock_job cfg s ‹_›
    rw [hjob, sendWithRetries_pc h] at hended
    cases hended
  | acked hwait =>
    refine ⟨_, _, _, hwait, ?_⟩
    rintro rfl
    cases hended
  | again hwait hlast =>
    simp only [St.endsEarly, hwait, hlast, ne_eq, not_false_eq_true, decide_true, Bool.true_and] at h
    rw [attempt_pc h] at hended
    cases hended
  | timeout hwait =>
    simp only [St.endsEarly, hwait] at h
    rw [attempt_pc h] at hended
    cases hended
  | storageFails => cases h
  | read => cases hended
  | shutdown | cleanup | deliver => exact absurd hended hpc
  | deliverAck => exact absurd ((handleAck_pc ..).symm.trans hended) hpc

theorem step_waiting_oack (hpc : s.pc = .waiting .oack expected k) (hst : step cfg s a = some s') :
    s'.pc = .opening ∨ s'.pc = .ended ∨ ∃ k', s'.pc = .waiting .oack expected k' := by
  have hattempt : ∀ n, (s.attempt cfg .oack expected n).pc = .ended ∨
      ∃ k', (s.attempt cfg .oack expected n).pc = .waiting .oack expected k' := by
    intro n
    unfold St.attempt
    split
    · exact .inr ⟨n, rfl⟩
    · exact .inl rfl
  cases stepped hst with
  | acked hwait =>
    cases hpc.symm.trans hwait
    exact .inl rfl
  | again hwait | timeout hwait =>
    cases hpc.symm.trans hwait
    exact .inr (hattempt _)
  | opened h | read h | blockRead h => cases hpc.symm.trans h
  | storageFails h => exact absurd hpc (h _ _ _)
  | shutdown | cleanup | deliver => exact .inr (.inr ⟨k, hpc⟩)
  | deliverAck => exact .inr (.inr ⟨k, (handleAck_pc ..).trans hpc⟩)

namespace Task

variable {t t' : Task}

structure Inv (t : Task) : Prop where
  binding : t.stage = .binding → t.entered = false ∧ t.sent = false
  alive : t.stage = .running → t.transfer.pc ≠ .ended ∧ t.transfer.Sent
  oack : t.stage = .running → t.entered = false → ∃ expected k, t.transfer.pc = .waiting .oack expected k
  cleanedUp : t.CleanedUp

theorem Inv.of_running (hstage : t.stage = .running) (hpc : t.transfer.pc ≠ .ended) (hsent : t.transfer.Sent)
    (hoack : t.entered = false → ∃ expected k, t.transfer.pc = .waiting .oack expected k) : t.Inv :=
  ⟨by simp [hstage], fun _ => ⟨hpc, hsent⟩, fun _ => hoack, by simp [CleanedUp, hstage]⟩

theorem Inv.of_finished (hstage : t.stage = .finished) (h : t.CleanedUp) : t.Inv :=
  ⟨by simp [hstage], by simp [hstage], by simp [hstage], h⟩

theorem leave_stage (t : Task) : t.leave.stage = .finished := by
  unfold leave
  split <;> rfl

theorem leave_sent (t : Task) : t.leave.sent = t.sent := by
  unfold leave
  split <;> rfl

theorem leave_cleared (t : Task) : t.leave.cleared = (t.entered || t.cleared) := by
  unfold leave
  split
  · rename_i h
    rw [h]
    rfl
  · rename_i h
    rw [Bool.not_eq_true] at h
    rw [h]
    rfl

theorem cleanedUp_leave (t : Task) : t.leave.CleanedUp ↔ t.ready = true := by
  rw [CleanedUp, leave_stage, leave_sent, leave_cleared, ready, Bool.and_eq_true]
  exact ⟨fun h => h rfl, fun h _ => h⟩

theorem inv_goOn (t : Task) {s : St} (hsent : s.Sent)
    (hready : s.pc = .ended → ready { t with stage := .running, transfer := s } = true)
    (hoack : t.entered = false →
      s.pc = .opening ∨ s.pc = .ended ∨ ∃ expected k, s.pc = .waiting .oack expected k) :
    (t.goOn s).Inv := by
  unfold goOn
  split
  · rename_i hpc
    exact .of_finished (leave_stage _) ((cleanedUp_leave _).mpr (hready hpc))
  · rename_i hpc
    exact .of_running rfl (by simp [hpc]) hsent (by simp)
  · rename_i hended hopening
    refine .of_running rfl hended hsent fun hentered => ?_
    rcases hoack hentered with h | h | h
    · exact absurd h hopening
    · exact absurd h hended
    · exact h

theorem ready_of_sent (h : (t.entered || t.cleared) = true) (hsent : t.transfer.flights ≠ []) :
    t.ready = true := by
  simp [ready, sent, h, hsent]

theorem goOn_ended (t : Task) {s : St} (h : s.pc = .ended) :
    t.goOn s = leave { t with stage := .running, transfer := s } := by
  simp only [goOn, h]

theorem ready_of_endsEarly {a : TftpTransfer.Act} {s : St} (hsent : t.transfer.Sent)
    (hearly : t.transfer.endsEarly cfg a = true) (ha : a ≠ .cleanup)
    (hst : TftpTransfer.step cfg t.transfer a = some s) :
    ready { t with stage := .running, transfer := s } = t.ready := by
  obtain ⟨-, hflights⟩ := step_of_endsEarly hearly hst
  have htransport := (keeps_step hsent ha hst).transport
  simp only [ready, cleared, sent, hflights, htransport]

theorem inv_bound (hm : t.meets cfg .bound = true) : (t.goOn (t.begin cfg)).Inv := by
  obtain ⟨hreadable, hretries⟩ : cfg.options.readable = true ∧
      (1 ≤ cfg.retries ∨ cfg.needsOack = some false) := by simpa using hm
  cases hoack : cfg.needsOack with
  | none =>
    rw [(needsOack_eq_none cfg).mp hoack] at hreadable
    cases hreadable
  | some send =>
    cases send with
    | true =>
      have hgo : 1 ≤ cfg.retries := hretries.resolve_right (by simp [hoack])
      have hstart : start cfg = St.sendWithRetries cfg {} .oack := by simp only [start, hoack]
      have hpc : (t.begin cfg).pc = .waiting .oack 0 1 := by
        rw [begin, hstart]
        exact sendWithRetries_pc (by simp [hgo])
      have hsent : (t.begin cfg).Sent := by
        rw [begin, hstart]
        exact (keeps_sendWithRetries cfg {} .oack).sent fun _ _ _ h => by cases h
      exact inv_goOn t hsent (by simp [hpc]) fun _ => .inr (.inr ⟨0, 1, hpc⟩)
    | false =>
      have hpc : (t.begin cfg).pc = .opening := by simp only [begin, start, hoack, St.initialized]
      exact inv_goOn t (by simp [St.Sent, hpc]) (by simp [hpc]) fun _ => .inl hpc

theorem inv_transfer {a : TftpTransfer.Act} {s : St} (h : t.Inv) (hstage : t.stage = .running)
    (hm : t.meets cfg (.transfer a) = true) (ha : a ≠ .cleanup)
    (hst : TftpTransfer.step cfg t.transfer a = some s) : (t.goOn s).Inv := by
  obtain ⟨halive, hsent⟩ := h.alive hstage
  have hkeeps := keeps_step hsent ha hst
  refine inv_goOn t (hkeeps.sent hsent) (fun hended => ?_) fun hentered => ?_
  · cases hearly : t.transfer.endsEarly cfg a with
    | true =>
      rw [ready_of_endsEarly hsent hearly ha hst]
      simpa [hearly] using hm
    | false =>
      obtain ⟨job, expected, attempt, hpc, hjob⟩ := waiting_of_ended hearly halive hst hended
      have hentered : t.entered = true := by
        by_contra hnot
        obtain ⟨_, _, hoack⟩ := h.oack hstage (by simpa using hnot)
        rw [hpc] at hoack
        cases hoack
        exact hjob rfl
      refine ready_of_sent (by simp [hentered]) fun hnil => ?_
      exact hsent job expected attempt hpc (prefix_nil.mp (hnil ▸ hkeeps.flights))
  · obtain ⟨expected, k, hpc⟩ := h.oack hstage hentered
    rcases step_waiting_oack hpc hst with h | h | ⟨k', h⟩
    · exact .inl h
    · exact .inr (.inl h)
    · exact .inr (.inr ⟨expected, k', h⟩)

theorem inv_cleanup (h : t.Inv) : t.cleanup.Inv :=
  { h with cleanedUp := fun hstage => ⟨rfl, (h.cleanedUp hstage).2⟩ }

theorem inv_step {a : Act} (h : t.Inv) (hm : t.meets cfg a = true) (hst : step cfg t a = some t') : t'.Inv := by
  cases a with
  | bound =>
    simp only [step] at hst
    split at hst <;> cases hst
    exact inv_bound hm
  | bindFails =>
    obtain ⟨-, rfl⟩ : t.stage = .binding ∧ t.leave = t' := by simpa [step] using hst
    exact .of_finished (leave_stage t) ((cleanedUp_leave t).mpr hm)
  | transfer b =>
    by_cases hb : b = .cleanup
    · subst hb
      cases hst
    · obtain ⟨hstage, s, hs, rfl⟩ : t.stage = .running ∧ ∃ s, TftpTransfer.step cfg t.transfer b = some s ∧
          t.goOn s = t' := by simpa [step, hb] using hst
      exact inv_transfer h hstage hm hb hs
  | ack blockNum =>
    obtain ⟨⟨hstage, -⟩, rfl⟩ : (t.stage = .running ∧ t.transfer.transport = true) ∧
        { t with transfer := t.transfer.handleAck cfg blockNum } = t' := by simpa [step] using hst
    obtain ⟨halive, hsent⟩ := h.alive hstage
    have hpc := handleAck_pc cfg t.transfer blockNum
    refine .of_running hstage (by rwa [hpc]) ((keeps_handleAck ..).sent hsent) fun hentered => ?_
    obtain ⟨expected, k, hwait⟩ := h.oack hstage hentered
    exact ⟨expected, k, hpc.trans hwait⟩
  | stray =>
    obtain ⟨⟨hstage, -⟩, rfl⟩ : (t.stage = .running ∧ t.transfer.transport = true) ∧
        { t with errors := t.errors + 1 } = t' := by simpa [step] using hst
    exact .of_running hstage (h.alive hstage).1 (h.alive hstage).2 (h.oack hstage)
  | cancelled =>
    obtain ⟨-, rfl⟩ : t.stage ≠ .finished ∧ t.leave = t' := by simpa [step] using hst
    exact .of_finished (leave_stage t) ((cleanedUp_leave t).mpr hm)
  | shutdown =>
    cases hst
    exact { h with }
  | serverCleanup =>
    obtain ⟨-, rfl⟩ : t.registered = true ∧ t.cleanup = t' := by simpa [step] using hst
    exact inv_cleanup h

theorem inv_reach (h : (sys cfg).ReachIf (fun t a => t.meets cfg a = true) t) : t.Inv := by
  have hind : (sys cfg).InductiveIf (fun t a => t.meets cfg a = true) Inv := by
    refine ⟨?_, fun _ _ _ hi hm hst => inv_step hi hm hst⟩
    rintro _ rfl
    exact ⟨by decide, by simp, by simp, by simp [CleanedUp]⟩
  exact hind.reach h

/-! ## Steps that do not meet the condition -/

theorem not_cleanedUp_bound (h : t.Inv) (hstage : t.stage = .binding) (hm : t.meets cfg .bound = false) :
    ¬(t.goOn (t.begin cfg)).CleanedUp := by
  have hstart : (t.begin cfg).pc = .ended ∧ (t.begin cfg).transport = true := by
    cases hoack : cfg.needsOack with
    | none => simp [begin, start, hoack]
    | some send =>
      have hreadable : cfg.options.readable = true := by
        by_contra hnot
        rw [(needsOack_eq_none cfg).mpr (by simpa using hnot)] at hoack
        cases hoack
      cases send with
      | true =>
        have hretries : cfg.retries = 0 := by simpa [hreadable, hoack] using hm
        simp only [begin, start, hoack]
        exact ⟨(sendWithRetries_of_not (by simp [hretries])).1, (keeps_sendWithRetries ..).transport⟩
      | false => simp [hreadable, hoack] at hm
  rw [goOn_ended t hstart.1, cleanedUp_leave]
  simp [ready, cleared, (h.binding hstage).1, hstart.2]

theorem not_cleanedUp_step {a : Act} (h : t.Inv) (hm : t.meets cfg a = false)
    (hst : step cfg t a = some t') : ¬t'.CleanedUp := by
  cases a with
  | bound =>
    simp only [step] at hst
    split at hst <;> cases hst
    exact not_cleanedUp_bound h ‹_› hm
  | bindFails =>
    obtain ⟨-, rfl⟩ : t.stage = .binding ∧ t.leave = t' := by simpa [step] using hst
    rw [cleanedUp_leave]
    exact ne_true_of_eq_false hm
  | transfer b =>
    obtain ⟨hearly, hready⟩ : t.transfer.endsEarly cfg b = true ∧ t.ready = false := by
      simpa using hm
    by_cases hb : b = .cleanup
    · subst hb
      cases hst
    · obtain ⟨hstage, s, hs, rfl⟩ : t.stage = .running ∧ ∃ s, TftpTransfer.step cfg t.transfer b = some s ∧
          t.goOn s = t' := by simpa [step, hb] using hst
      rw [goOn_ended t (step_of_endsEarly hearly hs).1, cleanedUp_leave,
        ready_of_endsEarly (h.alive hstage).2 hearly hb hs]
      exact ne_true_of_eq_false hready
  | cancelled =>
    obtain ⟨-, rfl⟩ : t.stage ≠ .finished ∧ t.leave = t' := by simpa [step] using hst
    rw [cleanedUp_leave]
    exact ne_true_of_eq_false hm
  | ack blockNum => cases hm
  | stray => cases hm
  | shutdown => cases hm
  | serverCleanup => cases hm

/-- **A TFTP transfer is cleaned up when its task ends**, for every server, file and options of the request,
if no step ends the task before `start` is in its `try` (unless the server has cleaned up) and before a
packet was sent. The first step that does, ends it with a transfer that is not cleaned up. -/
theorem transfer_cleanedUp (int : String → Option Int) (sv : Server) (file : Bytes)
    (options : List (String × String)) (t : Task)
    (h : (sys (sv.readTransfer int file options)).ReachIf
      (fun t a => t.meets (sv.readTransfer int file options) a = true) t) :
    t.CleanedUp ∧ ∀ a t', t.meets (sv.readTransfer int file options) a = false →
      step (sv.readTransfer int file options) t a = some t' → ¬t'.CleanedUp :=
  ⟨(inv_reach h).cleanedUp, fun _ _ hm hst => not_cleanedUp_step (inv_reach h) hm hst⟩

/-- Two bytes for a client without options. The last acknowledgement is lost, and the task ends. -/
theorem transfer_cleanedUp_sample : ∃ t, (sys (Server.readTransfer sampleInt {} [7, 8] [])).ReachIf
    (fun t a => t.meets (Server.readTransfer sampleInt {} [7, 8] []) a = true) t ∧
    t.stage = .finished ∧ t.CleanedUp := by
  have hinit : (sys (Server.readTransfer sampleInt {} [7, 8] [])).ReachIf
      (fun t a => t.meets (Server.readTransfer sampleInt {} [7, 8] []) a = true) {} := .init rfl
  obtain ⟨t, hreach, ht⟩ := hinit.execIf_any
    [.bound, .stray, .transfer .opened, .transfer (.read 2), .transfer .blockRead, .transfer .timeout,
      .transfer .timeout, .transfer .timeout] (p := fun t => decide (t.stage = .finished)) (by decide +kernel)
  exact ⟨t, hreach, of_decide_eq_true ht, (transfer_cleanedUp sampleInt {} [7, 8] [] t hreach).1⟩

/-- A request that has only a timeout: the task ends with a `KeyError`, and the client hears nothing. A
request for blocks of 1024 bytes: three OACKs are lost. Both transfers stay registered, and their transports
stay open. -/
theorem transfer_not_cleanedUp :
    (∃ t, (sys (Server.readTransfer sampleInt {} [7, 8] [("timeout", "1")])).Reach t ∧
      (t.stage = .finished ∧ t.registered = true ∧ t.transfer.transport = true ∧ t.sent = false)) ∧
    ∃ t, (sys (Server.readTransfer sampleInt {} [7, 8] [("blksize", "1024")])).Reach t ∧
      (t.stage = .finished ∧ t.registered = true ∧ t.transfer.transport = true) := by
  have hinit : ∀ options, (sys (Server.readTransfer sampleInt {} [7, 8] options)).Reach {} :=
    fun _ => .init rfl
  refine ⟨?_, ?_⟩
  · obtain ⟨t, hreach, ht⟩ := (hinit [("timeout", "1")]).exec_any [.bound]
      (p := fun t => decide (t.stage = .finished ∧ t.registered = true ∧ t.transfer.transport = true ∧
        t.sent = false)) (by decide +kernel)
    exact ⟨t, hreach, of_decide_eq_true ht⟩
  · obtain ⟨t, hreach, ht⟩ := (hinit [("blksize", "1024")]).exec_any
      [.bound, .transfer .timeout, .transfer .timeout, .transfer .timeout]
      (p := fun t => decide (t.stage = .finished ∧ t.registered = true ∧ t.transfer.transport = true))
      (by decide +kernel)
    exact ⟨t, hreach, of_decide_eq_true ht⟩

end Task

end Jumpstarter.TftpTransfer
