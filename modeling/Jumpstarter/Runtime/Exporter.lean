import Jumpstarter.Runtime.LeaseSteps

/-!
# The control plane of an exporter

`Exporter` after its registration: the control-plane loop, which alone writes the slot
(`_lease_context`), the tasks of all leases (`Jumpstarter/Runtime/Lease.lean`), and the calls of
`stop`. A step is a message that the loop handles, a step of one task, or something from outside: a
status from the controller, a signal, a failure of the Status stream. Leases are numbered in the order
of their acquisition.

The histories `lastSent`, `releases`, `endings` and `scripts` are read by the results only.

The invariant (`Inv`): a lease whose `handle_lease` has not finished is in the slot, the lease in the
slot is the last one acquired, and `LeaseFinished` is posted by finished leases.
-/

namespace Jumpstarter.Runtime

open Lib List Function

structure StatusResponse where
  leased : Bool
  leaseName : String := ""
  clientName : String := ""
  deriving DecidableEq

inductive Message where
  | status (m : StatusResponse)
  | leaseFinished (lease : Nat)
  deriving DecidableEq

/-- `_tg`. -/
inductive TaskGroup where
  | none | running | cancelled
  deriving DecidableEq

/-- A task group that was started stays so, and a cancelled one stays cancelled. -/
def TaskGroup.Stays (tg tg' : TaskGroup) : Prop :=
  (tg = .cancelled → tg' = .cancelled) ∧ (tg ≠ .none → tg' ≠ .none)

theorem TaskGroup.Stays.refl (tg : TaskGroup) : tg.Stays tg := ⟨id, id⟩

theorem TaskGroup.stays_cancelled (tg : TaskGroup) : tg.Stays .cancelled :=
  ⟨fun _ => rfl, fun _ h => nomatch h⟩

theorem TaskGroup.Stays.trans {a b c : TaskGroup} (h : a.Stays b) (h' : b.Stays c) : a.Stays c :=
  ⟨fun ha => h'.1 (h.1 ha), fun ha => h'.2 (h.2 ha)⟩

/-- The numbers of leases without a `LeaseContext`: no task is running. -/
def LeaseContext.unused : LeaseContext where
  leaseName := ""
  beforeLeaseHook := true
  afterLeaseHookDone := true
  handle := .finished
  endSession := .notStarted

structure Exporter where
  /-- `_lease_context`. -/
  slot : Option Nat := none
  count : Nat := 0
  ctx : Nat → LeaseContext := fun _ => .unused
  /-- The messages between `_control_tx` and the loop. -/
  queue : List Message := []
  lastCompletedLease : Option String := none
  pendingLeaseStatus : Option StatusResponse := none
  stopRequested : Bool := false
  started : Bool := false
  /-- The last status given to `_report_status`; the registration reports `AVAILABLE`. -/
  exporterStatus : ExporterStatus := .available
  releaseLeaseUnsupported : Bool := false
  tg : TaskGroup := .none
  loop : Bool := false
  lastSent : Option StatusResponse := none
  releases : List (Nat × Nat) := []
  /-- Where a release set `lease_ended`: by a hook of which lease, and of which lease. -/
  endings : List (Nat × Nat) := []
  scripts : List ScriptEvent := []

namespace Exporter

/-! ## The loop -/

/-- A call of `stop` cancels the task group. -/
def stopsAtOnce (s : Exporter) (waitForLeaseExit : Bool) : Bool :=
  (!s.started || !waitForLeaseExit) && s.tg ≠ .none

def stop (s : Exporter) (waitForLeaseExit : Bool) : Exporter :=
  if s.stopsAtOnce waitForLeaseExit then { s with tg := .cancelled }
  else { s with stopRequested := true }

/-- `_check_stop_requested`, and the end of the loop if it returns `True`. -/
def checkStopRequested (s : Exporter) : Exporter :=
  if s.stopRequested then { s.stop false with loop := false } else s

def setCtx (s : Exporter) (i : Nat) (c : LeaseContext) : Exporter :=
  { s with ctx := Function.update s.ctx i c }

/-- The context that `_on_lease_acquired` creates, with its tasks. -/
def newContext (cfg : Config) (name : String) : LeaseContext where
  leaseName := name
  before := if cfg.hookExecutor.isSome then .polling else .done

def onLeaseAcquired (cfg : Config) (s : Exporter) (m : StatusResponse) : Exporter :=
  { s.setCtx s.count (newContext cfg m.leaseName) with
    started := true, slot := some s.count, count := s.count + 1 }

def onLeaseUpdate (s : Exporter) (m : StatusResponse) : Exporter :=
  match s.slot with
  | some i => s.setCtx i { s.ctx i with clientName := m.clientName }
  | none => s

/-- `lease_ended` of lease number `i` is set. -/
def setLeaseEnded (s : Exporter) (i : Nat) : Exporter :=
  s.setCtx i { s.ctx i with leaseEnded := true }

def applyStatus (cfg : Config) (s : Exporter) (m : StatusResponse) : Exporter :=
  if m.leased then
    match s.slot with
    | none =>
      if m.leaseName ≠ "" then
        if s.lastCompletedLease = some m.leaseName then s
        else (s.onLeaseAcquired cfg m).onLeaseUpdate m
      else s
    | some i =>
      if (s.ctx i).leaseName ≠ m.leaseName then
        { s with pendingLeaseStatus := some m }.setLeaseEnded i
      else s.onLeaseUpdate m
  else
    match s.slot with
    | none => { s with lastCompletedLease := none }.checkStopRequested
    | some i =>
      -- `_on_lease_released`; `exit_on_lease_end` refuses new leases from here on.
      { s with
        lastCompletedLease := none
        stopRequested := s.stopRequested || cfg.exitOnLeaseEnd }.setLeaseEnded i

def onLeaseFinished (cfg : Config) (s : Exporter) (i : Nat) : Exporter :=
  if s.slot = some i then
    { s with
      lastCompletedLease := some (s.ctx i).leaseName
      slot := none
      stopRequested := s.stopRequested || cfg.exitOnLeaseEnd
      pendingLeaseStatus := none
      queue := s.queue ++ (s.pendingLeaseStatus.map Message.status).toList }.checkStopRequested
  else s.checkStopRequested

def receive (cfg : Config) (s : Exporter) : Option Exporter :=
  match s.loop, s.queue with
  | true, .status m :: rest => some ({ s with queue := rest }.applyStatus cfg m)
  | true, .leaseFinished i :: rest => some ({ s with queue := rest }.onLeaseFinished cfg i)
  | _, _ => none

/-! ## The tasks -/

def view (s : Exporter) : View where
  slot := s.slot.map fun j => (j, (s.ctx j).leaseEnded)
  stopRequested := s.stopRequested
  releaseLeaseUnsupported := s.releaseLeaseUnsupported
  cancelled := s.tg == .cancelled

/-- The end of `_request_lease_release`, if it was reached (`b`) by a hook of lease `i`. -/
def endSlot (s : Exporter) (i : Nat) (b : Bool) : Exporter :=
  match s.slot with
  | none => s
  | some j =>
    if !b || (s.ctx j).leaseEnded then s
    else { s.setLeaseEnded j with endings := s.endings ++ [(i, j)] }

/-- The step of a task of lease `i` to `c`, with what the task reports, posts, sends and runs. -/
def note (s : Exporter) (i : Nat) (c : LeaseContext) (o : Out) : Exporter :=
  { s.setCtx i c with
    exporterStatus := o.reports.getLast?.getD s.exporterStatus
    queue := s.queue ++ (if o.finished then [.leaseFinished i] else [])
    releaseLeaseUnsupported := s.releaseLeaseUnsupported || o.releaseLeaseUnsupported
    releases := s.releases ++ (o.release.map (i, ·)).toList
    scripts := s.scripts ++ o.scripts
    tg := if o.raises then .cancelled else s.tg }

/-- The step of a task of lease `i` to `c`, with what the task does. -/
def apply (s : Exporter) (i : Nat) (c : LeaseContext) (o : Out) : Exporter :=
  let s := (s.note i c o).endSlot i o.endsSlot
  if o.shutdown then s.stop true else s

inductive Act where
  /-- `serve` starts the control plane. -/
  | serve
  | send (m : StatusResponse)
  | receive
  | task (i : Nat) (a : TaskAct)
  /-- `stop` is called from outside. -/
  | stop (waitForLeaseExit : Bool)
  | fail
  | cancelLoop

def step (cfg : Config) (s : Exporter) : Act → Option Exporter
  | .serve =>
    match s.tg with
    | .none => some { s with tg := .running, loop := true }
    | _ => none
  | .send m =>
    if m.leased = true ∧ m.leaseName = "" then none
    else some { s with queue := s.queue ++ [.status m], lastSent := some m }
  | .receive => s.receive cfg
  | .task i a => ((s.ctx i).step cfg s.view i a).map fun (c, o) => s.apply i c o
  | .stop wait => some (s.stop wait)
  | .fail => if s.tg = .running then some { s with tg := .cancelled } else none
  | .cancelLoop => if s.tg = .cancelled then some { s with loop := false } else none

end Exporter

/-- The exporter with its control plane, from its registration on. -/
def sys (cfg : Config) : Sys Exporter Exporter.Act where
  init s := s = {}
  step := Exporter.step cfg

/-! ## What a step does -/

namespace Exporter

variable {cfg : Config} {s s' : Exporter}

theorem stop_eq (s : Exporter) (wait : Bool) :
    ∃ tg flag, s.stop wait = { s with tg := tg, stopRequested := flag } ∧
      (s.stopRequested = true → flag = true) ∧
      (flag = true → s.stopRequested = true ∨ s.stopsAtOnce wait = false) ∧
      (flag = true ∨ tg = .cancelled) ∧ s.tg.Stays tg := by
  unfold stop
  split
  · exact ⟨_, _, rfl, id, .inl, .inr rfl, TaskGroup.stays_cancelled _⟩
  · rename_i h
    exact ⟨_, _, rfl, fun _ => rfl, fun _ => .inr (by simpa using h), .inl rfl, .refl _⟩

theorem checkStopRequested_eq (s : Exporter) : ∃ tg loop,
    s.checkStopRequested = { s with tg := tg, loop := loop } ∧
      (s.stopRequested = true → loop = false) ∧ s.tg.Stays tg := by
  unfold checkStopRequested
  split
  · rename_i h
    unfold stop
    split
    · exact ⟨_, _, rfl, fun _ => rfl, TaskGroup.stays_cancelled _⟩
    · refine ⟨s.tg, false, ?_, fun _ => rfl, .refl _⟩
      rw [← h]
  · rename_i h
    exact ⟨_, _, rfl, fun h' => absurd h' h, .refl _⟩

inductive LoopMove (cfg : Config) (s : Exporter) : Exporter → Prop
  | ignored {m : StatusResponse} {rest : List Message} : s.queue = .status m :: rest →
    m.leased = true → s.slot = none →
    m.leaseName = "" ∨ s.lastCompletedLease = some m.leaseName →
    LoopMove cfg s { s with queue := rest }
  | acquired {m : StatusResponse} {rest : List Message} : s.queue = .status m :: rest →
    m.leased = true → s.slot = none →
    LoopMove cfg s
      { s with
        queue := rest
        started := true
        slot := some s.count
        count := s.count + 1
        ctx := Function.update s.ctx s.count
          { newContext cfg m.leaseName with clientName := m.clientName } }
  | reassigned {m : StatusResponse} {rest : List Message} {i : Nat} :
    s.queue = .status m :: rest → m.leased = true → s.slot = some i →
    (s.ctx i).leaseName ≠ m.leaseName →
    LoopMove cfg s
      { s with
        queue := rest
        pendingLeaseStatus := some m
        ctx := Function.update s.ctx i { s.ctx i with leaseEnded := true } }
  | updated {m : StatusResponse} {rest : List Message} {i : Nat} :
    s.queue = .status m :: rest → m.leased = true → s.slot = some i →
    (s.ctx i).leaseName = m.leaseName →
    LoopMove cfg s
      { s with
        queue := rest
        ctx := Function.update s.ctx i { s.ctx i with clientName := m.clientName } }
  | idle {m : StatusResponse} {rest : List Message} {tg : TaskGroup} {loop : Bool} :
    s.queue = .status m :: rest → m.leased = false → s.slot = none →
    (s.stopRequested = true → loop = false) → s.tg.Stays tg →
    LoopMove cfg s { s with queue := rest, lastCompletedLease := none, tg := tg, loop := loop }
  | ended {m : StatusResponse} {rest : List Message} {i : Nat} {flag : Bool} :
    s.queue = .status m :: rest → m.leased = false → s.slot = some i →
    (s.stopRequested = true → flag = true) →
    LoopMove cfg s
      { s with
        queue := rest
        lastCompletedLease := none
        stopRequested := flag
        ctx := Function.update s.ctx i { s.ctx i with leaseEnded := true } }
  | finished {rest : List Message} {i : Nat} {flag : Bool} {tg : TaskGroup} {loop : Bool} :
    s.queue = .leaseFinished i :: rest → s.slot = some i →
    (s.stopRequested = true → flag = true) → (flag = true → loop = false) → s.tg.Stays tg →
    LoopMove cfg s
      { s with
        queue := rest ++ (s.pendingLeaseStatus.map Message.status).toList
        lastCompletedLease := some (s.ctx i).leaseName
        slot := none
        stopRequested := flag
        pendingLeaseStatus := none
        tg := tg
        loop := loop }
  | other {rest : List Message} {i : Nat} {tg : TaskGroup} {loop : Bool} :
    s.queue = .leaseFinished i :: rest → s.slot ≠ some i →
    (s.stopRequested = true → loop = false) → s.tg.Stays tg →
    LoopMove cfg s { s with queue := rest, tg := tg, loop := loop }

theorem receive_move (h : s.receive cfg = some s') : s.loop = true ∧ LoopMove cfg s s' := by
  unfold receive at h
  split at h
  · rename_i m rest hloop hq
    cases h
    refine ⟨hloop, ?_⟩
    unfold applyStatus
    split
    · rename_i hl
      split
      · rename_i hslot
        split
        · split
          · exact .ignored hq hl hslot (.inr ‹_›)
          · have hm : LoopMove cfg s _ := .acquired hq hl hslot
            simpa [onLeaseAcquired, onLeaseUpdate, setCtx] using hm
        · rename_i hname
          exact .ignored hq hl hslot (.inl (by simpa using hname))
      · rename_i i hslot
        split
        · exact .reassigned hq hl hslot ‹_›
        · rename_i hname
          have hm : LoopMove cfg s _ := .updated hq hl hslot (by simpa using hname)
          simpa [onLeaseUpdate, setCtx, show s.slot = some i from hslot] using hm
    · rename_i hl
      rw [Bool.not_eq_true] at hl
      split
      · rename_i hslot
        obtain ⟨tg, loop, heq, hstop, htg⟩ :=
          checkStopRequested_eq { s with queue := rest, lastCompletedLease := none }
        rw [heq]
        exact .idle hq hl hslot hstop htg
      · rename_i i hslot
        exact .ended hq hl hslot fun hs => by simp [hs]
  · rename_i i rest hloop hq
    cases h
    refine ⟨hloop, ?_⟩
    unfold onLeaseFinished
    split
    · rename_i hslot
      obtain ⟨tg, loop, heq, hstop, htg⟩ := checkStopRequested_eq { s with
        queue := rest ++ (s.pendingLeaseStatus.map Message.status).toList
        lastCompletedLease := some (s.ctx i).leaseName
        slot := none
        stopRequested := s.stopRequested || cfg.exitOnLeaseEnd
        pendingLeaseStatus := none }
      rw [heq]
      exact .finished hq hslot (fun hs => by simp [hs]) hstop htg
    · rename_i hslot
      obtain ⟨tg, loop, heq, hstop, htg⟩ :=
        checkStopRequested_eq { s with queue := rest }
      rw [heq]
      exact .other hq hslot hstop htg
  · cases h

open LeaseContext

theorem endSlot_eq (s : Exporter) (i : Nat) (b : Bool) : ∃ ctx endings,
    s.endSlot i b = { s with ctx := ctx, endings := endings } ∧
    (∀ j, ctx j = (s.ctx j).endIf (b && decide (s.slot = some j))) ∧
    ∀ p ∈ endings, p ∈ s.endings ∨ p.1 = i ∧ b = true ∧ s.slot = some p.2 := by
  unfold endSlot
  split
  · rename_i hslot
    exact ⟨_, _, rfl, fun j => by simp [hslot], fun p hp => .inl hp⟩
  · rename_i j hslot
    have hkeep : ∀ k, k ≠ j → s.ctx k = (s.ctx k).endIf (b && decide (s.slot = some k)) := by
      intro k hk
      simp [hslot, Ne.symm hk]
    split
    · rename_i hended
      refine ⟨_, _, rfl, fun k => ?_, fun p hp => .inl hp⟩
      by_cases hk : k = j
      · subst hk
        cases b with
        | false => simp
        | true => simp [endIf, hslot, ← show (s.ctx k).leaseEnded = true from hended]
      · exact hkeep k hk
    · rename_i hnot
      have hb : b = true := by
        cases b with
        | false => exact absurd rfl hnot
        | true => rfl
      refine ⟨_, _, rfl, fun k => ?_, fun p hp => ?_⟩
      · show Function.update s.ctx j { s.ctx j with leaseEnded := true } k = _
        rw [update_apply]
        split
        · rename_i hk
          subst hk
          simp [endIf, hslot, hb]
        · rename_i hk
          exact hkeep k hk
      · rcases mem_append.mp hp with hp | hp
        · exact .inl hp
        · cases mem_singleton.mp hp
          exact .inr ⟨rfl, hb, hslot⟩

theorem apply_eq (s : Exporter) (i : Nat) (c : LeaseContext) (o : Out) : ∃ ctx tg flag endings,
    s.apply i c o = { s with
      ctx := ctx
      exporterStatus := o.reports.getLast?.getD s.exporterStatus
      queue := s.queue ++ (if o.finished then [.leaseFinished i] else [])
      releaseLeaseUnsupported := s.releaseLeaseUnsupported || o.releaseLeaseUnsupported
      releases := s.releases ++ (o.release.map (i, ·)).toList
      scripts := s.scripts ++ o.scripts
      tg := tg
      stopRequested := flag
      endings := endings } ∧
    (∀ j, ctx j = (if j = i then c else s.ctx j).endIf (o.endsSlot && decide (s.slot = some j))) ∧
    (s.stopRequested = true → flag = true) ∧
    (flag = true → s.stopRequested = true ∨ o.shutdown = true) ∧
    (o.shutdown = true → flag = true ∨ tg = .cancelled) ∧ (o.raises = true → tg = .cancelled) ∧
    s.tg.Stays tg ∧
    ∀ p ∈ endings, p ∈ s.endings ∨ p.1 = i ∧ o.endsSlot = true ∧ s.slot = some p.2 := by
  have hnote : ∀ j, (s.note i c o).ctx j = if j = i then c else s.ctx j :=
    fun j => update_apply ..
  have hraises : o.raises = true → (s.note i c o).tg = .cancelled := fun hr => if_pos hr
  have htg : s.tg.Stays (s.note i c o).tg := by
    show s.tg.Stays (if o.raises then _ else s.tg)
    split
    · exact TaskGroup.stays_cancelled _
    · exact .refl _
  obtain ⟨ctx, endings, heq, hctx, hendings⟩ := (s.note i c o).endSlot_eq i o.endsSlot
  have hctx' : ∀ j, ctx j = (if j = i then c else s.ctx j).endIf (o.endsSlot && decide (s.slot = some j)) := by
    intro j
    rw [hctx, hnote]
    rfl
  unfold apply
  rw [heq]
  split
  · rename_i hshutdown
    obtain ⟨tg, flag, hstop, hflag, -, hstops, hstays⟩ :=
      stop_eq { s.note i c o with ctx := ctx, endings := endings } true
    rw [hstop]
    exact ⟨ctx, tg, flag, endings, rfl, hctx', hflag, fun _ => .inr hshutdown, fun _ => hstops,
      fun h => hstays.1 (hraises h), htg.trans hstays, hendings⟩
  · rename_i hshutdown
    exact ⟨ctx, _, _, endings, rfl, hctx', id, .inl, fun h => absurd h hshutdown, hraises, htg, hendings⟩

theorem apply_ctx (s : Exporter) (i : Nat) (c : LeaseContext) (o : Out) (j : Nat) :
    (s.apply i c o).ctx j = (if j = i then c else s.ctx j).endIf (o.endsSlot && decide (s.slot = some j)) := by
  obtain ⟨ctx, tg, flag, endings, heq, hctx, -⟩ := s.apply_eq i c o
  rw [heq]
  exact hctx j

/-- The steps of the exporter, with their conditions. -/
inductive Move (cfg : Config) (s : Exporter) : Act → Exporter → Prop
  | serve : s.tg = .none → Move cfg s .serve { s with tg := .running, loop := true }
  | send {m : StatusResponse} : (m.leased = true → m.leaseName ≠ "") →
    Move cfg s (.send m) { s with queue := s.queue ++ [.status m], lastSent := some m }
  | receive {s' : Exporter} : s.loop = true → LoopMove cfg s s' → Move cfg s .receive s'
  | task {i : Nat} {a : TaskAct} {c : LeaseContext} {o : Out} :
    (s.ctx i).step cfg s.view i a = some (c, o) → Move cfg s (.task i a) (s.apply i c o)
  | stop {wait : Bool} {tg : TaskGroup} {flag : Bool} : (s.stopRequested = true → flag = true) →
    (flag = true → s.stopRequested = true ∨ s.stopsAtOnce wait = false) → s.tg.Stays tg →
    Move cfg s (.stop wait) { s with tg := tg, stopRequested := flag }
  | fail : Move cfg s .fail { s with tg := .cancelled }
  | cancelLoop : s.tg = .cancelled → Move cfg s .cancelLoop { s with loop := false }

variable {a : Act}

theorem step_move (h : step cfg s a = some s') : Move cfg s a s' := by
  cases a with
  | serve =>
    simp only [step] at h
    split at h
    · cases h
      exact .serve ‹_›
    · cases h
  | send m =>
    simp only [step] at h
    split at h
    · cases h
    · rename_i hm
      cases h
      exact .send fun hl hn => hm ⟨hl, hn⟩
  | receive =>
    obtain ⟨hloop, hm⟩ := receive_move h
    exact .receive hloop hm
  | task i a =>
    obtain ⟨⟨c, o⟩, hs, rfl⟩ := Option.map_eq_some_iff.mp h
    exact .task hs
  | stop wait =>
    cases h
    obtain ⟨tg, flag, heq, hflag, hset, -, htg⟩ := s.stop_eq wait
    rw [heq]
    exact .stop hflag hset htg
  | fail =>
    simp only [step] at h
    split at h
    · cases h
      exact .fail
    · cases h
  | cancelLoop =>
    simp only [step] at h
    split at h
    · cases h
      exact .cancelLoop ‹_›
    · cases h

/-- What a step does to the context of lease `j`. -/
inductive CtxMove (cfg : Config) (s s' : Exporter) (j : Nat) : Act → Prop
  | keep {a : Act} : s'.ctx j = s.ctx j → CtxMove cfg s s' j a
  | touch {a : Act} : s.slot = some j → (s.ctx j).Touched (s'.ctx j) → CtxMove cfg s s' j a
  | task {a : TaskAct} {c : LeaseContext} {o : Out} :
    (s.ctx j).step cfg s.view j a = some (c, o) → c.Touched (s'.ctx j) →
    CtxMove cfg s s' j (.task j a)
  | acquire {name client : String} : j = s.count → s.slot = none → s'.slot = some j →
    s'.ctx j = { newContext cfg name with clientName := client } → CtxMove cfg s s' j .receive

theorem Move.ctx (h : Move cfg s a s') (j : Nat) : CtxMove cfg s s' j a := by
  -- The loop changes the context in the slot.
  have htouch : ∀ {i : Nat} {c : LeaseContext}, s.slot = some i → (s.ctx i).Touched c →
      s'.ctx = Function.update s.ctx i c → CtxMove cfg s s' j .receive := by
    intro i c hslot ht hctx
    have hj := congrFun hctx j
    rw [update_apply] at hj
    split at hj
    · rename_i he
      subst he
      exact .touch hslot (hj ▸ ht)
    · exact .keep hj
  cases h with
  | serve | send | stop | fail | cancelLoop => exact .keep rfl
  | receive _ hm =>
    cases hm with
    | ignored | idle | finished | other => exact .keep rfl
    | @acquired m _ _ _ hslot =>
      by_cases hj : j = s.count
      · subst hj
        exact .acquire rfl hslot rfl (update_self ..)
      · exact .keep (update_of_ne hj ..)
    | reassigned _ _ hslot => exact htouch hslot (touched_leaseEnded _) rfl
    | ended _ _ hslot => exact htouch hslot (touched_leaseEnded _) rfl
    | updated _ _ hslot => exact htouch hslot (touched_clientName _ _) rfl
  | @task i a c o hs =>
    have hj := s.apply_ctx i c o j
    split at hj
    · rename_i he
      subst he
      exact .task hs (hj ▸ c.touched_endIf _)
    · by_cases hslot : s.slot = some j
      · exact .touch hslot (hj ▸ (s.ctx j).touched_endIf _)
      · rw [show decide (s.slot = some j) = false from decide_eq_false hslot, Bool.and_false, endIf_false] at hj
        exact .keep hj

inductive SlotMove (s s' : Exporter) : Act → Prop
  | keep {a : Act} : s'.slot = s.slot → s'.count = s.count → SlotMove s s' a
  | acquire {m : StatusResponse} {rest : List Message} : s.loop = true → s.slot = none →
    s'.slot = some s.count → s'.count = s.count + 1 → s.queue = .status m :: rest →
    m.leased = true → SlotMove s s' .receive
  | release {i : Nat} {rest : List Message} : s.queue = .leaseFinished i :: rest →
    s.slot = some i → s'.slot = none → s'.count = s.count → s'.ctx = s.ctx →
    SlotMove s s' .receive

section

variable (h : Move cfg s a s')
include h

theorem Move.slot : SlotMove s s' a := by
  cases h with
  | serve | send | stop | fail | cancelLoop => exact .keep rfl rfl
  | receive hloop hm =>
    cases hm with
    | acquired hq hleased hslot => exact .acquire hloop hslot rfl rfl hq hleased
    | finished hq hslot => exact .release hq hslot rfl rfl rfl
    | _ => exact .keep rfl rfl
  | @task i a c o =>
    obtain ⟨ctx, tg, flag, endings, heq, -⟩ := s.apply_eq i c o
    rw [heq]
    exact .keep rfl rfl

theorem Move.posted {i : Nat} (hi : .leaseFinished i ∈ s'.queue) :
    .leaseFinished i ∈ s.queue ∨
      ∃ b c o, a = .task i b ∧ (s.ctx i).step cfg s.view i b = some (c, o) ∧ o.finished = true := by
  cases h with
  | serve | stop | fail | cancelLoop => exact .inl hi
  | send => exact .inl (by simpa using hi)
  | receive _ hm =>
    refine .inl ?_
    cases hm with
    | ignored hq | acquired hq | reassigned hq | updated hq | idle hq | ended hq | other hq =>
      rw [hq]
      exact mem_cons_of_mem _ hi
    | finished hq =>
      rw [hq]
      rcases mem_append.mp hi with hi | hi
      · exact mem_cons_of_mem _ hi
      · cases hp : s.pendingLeaseStatus <;> simp [hp] at hi
  | @task j b c o hs =>
    obtain ⟨ctx, tg, flag, endings, heq, -⟩ := s.apply_eq j c o
    rw [heq] at hi
    rcases mem_append.mp hi with hi | hi
    · exact .inl hi
    · split at hi
      · cases mem_singleton.mp hi
        exact .inr ⟨b, c, o, rfl, hs, ‹_›⟩
      · cases hi

theorem Move.stopRequested (hs : s.stopRequested = true) : s'.stopRequested = true := by
  cases h with
  | serve | send | fail | cancelLoop => exact hs
  | receive _ hm =>
    cases hm with
    | ended _ _ _ hflag => exact hflag hs
    | finished _ _ hflag => exact hflag hs
    | _ => exact hs
  | @task i a c o =>
    obtain ⟨ctx, tg, flag, endings, heq, -, hflag, -⟩ := s.apply_eq i c o
    rw [heq]
    exact hflag hs
  | stop hflag => exact hflag hs

theorem Move.tg : s.tg.Stays s'.tg := by
  cases h with
  | serve hnone => exact ⟨fun hc => (by rw [hnone] at hc; cases hc), fun _ h => nomatch h⟩
  | send | cancelLoop => exact .refl _
  | receive _ hm =>
    cases hm with
    | idle _ _ _ _ htg => exact htg
    | finished _ _ _ _ htg => exact htg
    | other _ _ _ htg => exact htg
    | _ => exact .refl _
  | @task i a c o =>
    obtain ⟨ctx, tg, flag, endings, heq, -, -, -, -, -, htg, -⟩ := s.apply_eq i c o
    rw [heq]
    exact htg
  | stop _ _ htg => exact htg
  | fail => exact TaskGroup.stays_cancelled _

end

/-! ## The invariant -/

structure Inv (cfg : Config) (s : Exporter) : Prop where
  ok : ∀ i, (s.ctx i).Ok cfg
  live : ∀ i, (s.ctx i).handle ≠ .finished → s.slot = some i
  last : ∀ i, s.slot = some i → i + 1 = s.count
  posted : ∀ i, .leaseFinished i ∈ s.queue → (s.ctx i).handle = .finished ∧ i < s.count
  unused : ∀ i, s.count ≤ i → s.ctx i = .unused

theorem unused_ok (cfg : Config) : unused.Ok cfg := by
  constructor <;> simp [unused]

theorem newContext_ok (cfg : Config) (name client : String) :
    ({ newContext cfg name with clientName := client } : LeaseContext).Ok cfg := by
  cases hx : cfg.hookExecutor <;> constructor <;> simp [newContext, hx]

theorem newContext_before (cfg : Config) (name : String) :
    (newContext cfg name).before = .polling ∨ (newContext cfg name).before = .done := by
  cases hx : cfg.hookExecutor with
  | none => exact .inr (by simp [newContext, hx])
  | some hooks => exact .inl (by simp [newContext, hx])

theorem Inv.start (cfg : Config) : Inv cfg {} where
  ok _ := unused_ok cfg
  live _ h := absurd rfl h
  last _ h := nomatch h
  posted _ h := nomatch h
  unused _ _ := rfl

theorem Inv.lt_count (hi : Inv cfg s) {j : Nat} {a : TaskAct} {c : LeaseContext} {o : Out}
    (hs : (s.ctx j).step cfg s.view j a = some (c, o)) : j < s.count := by
  refine Nat.lt_of_not_le fun hle => ?_
  have hu := hi.unused j hle
  exact step_of_idle hs (by rw [hu]; rfl) (by rw [hu]; rfl) (by rw [hu]; rfl)
    (by rw [hu]; rfl) (by rw [hu]; rfl)

theorem CtxMove.unfinished {j : Nat} (hm : CtxMove cfg s s' j a) (hc : (s'.ctx j).handle ≠ .finished) :
    (s.ctx j).handle ≠ .finished ∨ s.slot = none ∧ s'.slot = some j := by
  cases hm with
  | keep hctx => exact .inl (hctx ▸ hc)
  | touch _ ht => exact .inl (ht.handle ▸ hc)
  | task hs ht =>
    rw [ht.handle] at hc
    exact .inl fun hf => hc (step_of_finished hs hf)
  | acquire _ hnone hsl _ => exact .inr ⟨hnone, hsl⟩

theorem SlotMove.count_le (h : SlotMove s s' a) : s.count ≤ s'.count := by
  cases h with
  | keep _ hcount => omega
  | acquire _ _ _ hcount => omega
  | release _ _ _ hcount => omega

theorem Inv.step (hi : Inv cfg s) (h : Move cfg s a s') : Inv cfg s' := by
  refine ⟨fun i => ?_, fun i hlive => ?_, fun i hs => ?_, fun i hp => ?_, fun i hc => ?_⟩
  · cases h.ctx i with
    | keep hctx => exact hctx ▸ hi.ok i
    | touch _ ht => exact (hi.ok i).touched ht
    | task hs ht => exact ((hi.ok i).step hs).touched ht
    | acquire _ _ _ hctx => exact hctx ▸ newContext_ok cfg _ _
  · rcases (h.ctx i).unfinished hlive with hb | ⟨-, hsl⟩
    · have hslot := hi.live i hb
      cases h.slot with
      | keep hsl _ => rw [hsl, hslot]
      | acquire _ hnone =>
        rw [hslot] at hnone
        cases hnone
      | @release j rest hq hj _ _ hctx =>
        -- The lease leaves the slot with its own `LeaseFinished`.
        rw [hslot] at hj
        cases hj
        rw [hctx] at hlive
        exact absurd (hi.posted i (hq ▸ mem_cons_self)).1 hlive
    · exact hsl
  · cases h.slot with
    | keep hsl hcount =>
      rw [hcount]
      exact hi.last i (hsl ▸ hs)
    | acquire _ _ hsl hcount =>
      rw [hsl] at hs
      cases hs
      exact hcount.symm
    | release _ _ hsl =>
      rw [hsl] at hs
      cases hs
  · have hcount := h.slot.count_le
    rcases h.posted hp with hq | ⟨b, c, o, rfl, hs, hf⟩
    · obtain ⟨hfin, hlt⟩ := hi.posted i hq
      refine ⟨?_, by omega⟩
      by_contra hlive
      cases h.ctx i with
      | keep hctx => exact hlive (hctx ▸ hfin)
      | touch _ ht => exact hlive (ht.handle ▸ hfin)
      | task hs ht => exact hlive (ht.handle ▸ step_of_finished hs hfin)
      | acquire hj =>
        omega
    · have hlt := hi.lt_count hs
      refine ⟨?_, by omega⟩
      cases h with
      | @task _ _ c' o' hs' =>
        rw [hs] at hs'
        cases hs'
        have hfin := step_finished hs hf
        rw [apply_ctx, if_pos rfl]
        exact hfin
  · have hcount := h.slot.count_le
    cases h.ctx i with
    | keep hctx => rw [hctx, hi.unused i (by omega)]
    | touch hslot =>
      have := hi.last i hslot
      omega
    | task hs =>
      have := hi.lt_count hs
      omega
    | acquire hj hnone hsl =>
      cases h.slot with
      | keep hsl' =>
        rw [hsl', hnone] at hsl
        cases hsl
      | acquire _ _ _ hcount => omega
      | release _ hslot =>
        rw [hslot] at hnone
        cases hnone

theorem slot_inductive (cfg : Config) (ok : Exporter → Act → Prop) : (sys cfg).InductiveIf ok (Inv cfg) where
  init s hs := by
    rw [hs]
    exact Inv.start cfg
  step _ _ _ hi _ hst := hi.step (step_move hst)

/-! ## The safety timeout -/

/-- The safety timeout of `_cleanup_after_lease` does not fire. -/
def noTimeout (s : Exporter) : Act → Bool
  | .task i a => !(s.ctx i).safetyTimeout a
  | _ => true

theorem Inv.waits_step (hi : Inv cfg s) (hok : noTimeout s a = true) (h : Move cfg s a s')
    (hw : ∀ j, (s.ctx j).Waits) (j : Nat) : (s'.ctx j).Waits := by
  cases h.ctx j with
  | keep hctx => exact hctx ▸ hw j
  | touch _ ht => exact (hw j).touched ht
  | @task b c o hs ht =>
    have hto : (s.ctx j).safetyTimeout b = false := by simpa [noTimeout] using hok
    exact ((hw j).step (hi.ok j) hs hto).touched ht
  | @acquire name _ _ _ _ hctx =>
    intro hb
    rw [hctx] at hb
    rcases newContext_before cfg name with hn | hn <;> simp [hn] at hb

end Exporter
end Jumpstarter.Runtime
