import Jumpstarter.Exporter.Reconcile
import Jumpstarter.Lib.Sys
import Jumpstarter.Lib.Threads

/-!
# The status monitor of a Python client

`StatusMonitor` (`client/status_monitor.py`) polls `GetStatus` in a task of its own. A call of
`wait_for_status` or `wait_for_any_of` waits for the change event of the monitor, which the poll loop
sets and replaces.

- The events are numbered: `St.event` is the current `_any_change_event`, and those before it are set.
- A task runs up to its next `await`: an answer of `GetStatus`, the end of a sleep, a change event. The
  callbacks of `on_status_change` are part of the sleep of the poll loop.
- A waiter whose `_connection_lost` is set first asks once itself (`Place.verifying`).
- `Waiter.due` is a ghost: the cached status when the poll loop ended, if the waiter was waiting for it.

`notStranded_of_quiet`: no waiter stays behind, and one that waits for the cached status when the loop
ends returns it, in the runs of `quiet`. `notStranded_fails`: `stop` sets no event.
-/

namespace Jumpstarter.StatusMonitor

open Lib List Option

/-- `ExporterStatus`. -/
abbrev Status := Exporter.ProtoStatus

/-- `GetStatusResponse`. -/
structure Response where
  status : Status
  message : String := ""
  statusVersion : Nat := 0
  previousStatus : Option Status := none

/-- How a `GetStatus` ends. -/
inductive Answer where
  | ok (response : Response)
  /-- The status is not one of `ExporterStatus`. -/
  | unknownStatus
  /-- `UNIMPLEMENTED`, or `NotImplementedError` of the stub. -/
  | unimplemented
  | unavailable
  | deadlineExceeded
  /-- Another code of `AioRpcError`. -/
  | otherCode
  | exception

/-! ## The waiters -/

/-- `wait_for_status` and `wait_for_any_of`, without timeout. -/
inductive Call where
  | waitForStatus (target : Status)
  | waitForAnyOf (targets : List Status)
  deriving DecidableEq

def Call.targets : Call → List Status
  | .waitForStatus target => [target]
  | .waitForAnyOf targets => targets

/-- What a call returned: the target, or `False` and `None`. -/
inductive Result where
  | reached (target : Status)
  | missed
  deriving DecidableEq

inductive Place where
  /-- In its own `GetStatus`, since the connection was lost. -/
  | verifying
  /-- In `current_event.wait()`. -/
  | waiting (event : Nat)
  | returned (result : Result)
  deriving DecidableEq

structure Waiter where
  call : Call
  place : Place
  due : Option Status := none

/-! ## The monitor -/

/-- Where `_poll_loop` is. -/
inductive Poll where
  /-- `start` has not been called. -/
  | idle
  | started
  | polling
  | sleeping
  | ended
  deriving DecidableEq

structure St where
  currentStatus : Option Status := none
  statusMessage : String := ""
  statusVersion : Nat := 0
  previousStatus : Option Status := none
  missedTransitions : Nat := 0
  running : Bool := false
  /-- `_stop_event` is set. -/
  stopEvent : Bool := false
  connectionLost : Bool := false
  getStatusUnsupported : Bool := false
  event : Nat := 0
  poll : Poll := .idle
  deadlineRetries : Nat := 0
  unavailableRetries : Nat := 0
  waiters : List Waiter := []

/-- The cached status is one of the targets. -/
def St.at (s : St) (targets : List Status) : Option Status :=
  targets.find? fun target => s.currentStatus = some target

/-- `wait_loop` and `wait_for_first` from the test of their loop to the next `await`. -/
def St.waitLoop (s : St) (call : Call) : Place :=
  if s.running && !s.connectionLost then
    match s.at call.targets with
    | some target => .returned (.reached target)
    | none => .waiting s.event
  else match call with
    | .waitForStatus _ => .returned .missed
    -- "Loop exited - check status one last time"
    | .waitForAnyOf targets => .returned (((s.at targets).map .reached).getD .missed)

/-- A call after its own `GetStatus`, or without one. -/
def St.enter (s : St) (call : Call) : Place :=
  match s.at call.targets with
  | some target => .returned (.reached target)
  | none => s.waitLoop call

/-- A call up to its first `await`. -/
def St.call (s : St) (call : Call) : Place :=
  if s.connectionLost then .verifying else s.enter call

/-- The answer to the `GetStatus` of a waiter. -/
def St.verify (s : St) (call : Call) : Answer → St × Place
  | .ok r =>
    let s := { s with
      connectionLost := false, currentStatus := some r.status, statusMessage := r.message
      statusVersion := r.statusVersion }
    (s, s.enter call)
  | .unknownStatus => ({ s with connectionLost := false }, .returned .missed)
  | .unavailable | .deadlineExceeded | .exception => (s, .returned .missed)
  | .unimplemented | .otherCode => (s, s.enter call)

def St.fire (s : St) : St := { s with event := s.event + 1 }

/-- The status that the waiter waits for is cached. -/
def Waiter.meets (w : Waiter) (status : Option Status) : Bool :=
  match w.place, status with
  | .waiting _, some status => status ∈ w.call.targets
  | _, _ => false

def St.endLoop (s : St) : St :=
  { s with
    poll := .ended
    waiters := s.waiters.map fun w =>
      if w.meets s.currentStatus then { w with due := s.currentStatus } else w }

/-- `_signal_unsupported`, and the end of the loop. -/
def St.signalUnsupported (s : St) : St :=
  St.endLoop (St.fire { s with
    getStatusUnsupported := true, currentStatus := some .leaseReady, running := false })

/-- The test of the loop of `_poll_loop`. -/
def St.loop (s : St) : St := if s.running then { s with poll := .polling } else s.endLoop

def St.missed (s : St) (r : Response) : Nat :=
  if 0 < s.statusVersion && s.statusVersion + 1 < r.statusVersion then
    r.statusVersion - s.statusVersion - 1
  else 0

/-- `_poll_loop` caches a response. -/
def St.cache (s : St) (r : Response) : St :=
  { s with
    connectionLost := false, deadlineRetries := 0, unavailableRetries := 0
    missedTransitions := s.missedTransitions + s.missed r
    currentStatus := some r.status, statusMessage := r.message, statusVersion := r.statusVersion
    previousStatus := r.previousStatus, poll := .sleeping }

/-- `_poll_loop` with a response. -/
def St.update (s : St) (r : Response) : St :=
  if s.currentStatus = some r.status then s.cache r else (s.cache r).fire

/-- The answer to the `GetStatus` of `_poll_loop`. -/
def St.answer (s : St) : Answer → St
  | .ok r => s.update r
  | .unimplemented => s.signalUnsupported
  | .unavailable => { s with unavailableRetries := s.unavailableRetries + 1, poll := .sleeping }
  | .deadlineExceeded =>
    if 20 ≤ s.deadlineRetries + 1 then
      St.endLoop (St.fire { s with
        unavailableRetries := 0, deadlineRetries := s.deadlineRetries + 1
        connectionLost := true, running := false })
    else St.loop { s with unavailableRetries := 0, deadlineRetries := s.deadlineRetries + 1 }
  | .unknownStatus | .otherCode | .exception => { s with poll := .sleeping }

inductive Act where
  | start
  /-- `_poll_loop` begins. -/
  | pollBegin
  | answer (a : Answer)
  /-- The sleep of `_poll_loop` ends. -/
  | wake
  | stop
  | call (c : Call)
  | verified (i : Nat) (a : Answer)
  | resume (i : Nat)

/-- Waiter `i` moves to `place`. -/
def St.setPlace (s : St) (i : Nat) (w : Waiter) (place : Place) : St :=
  { s with waiters := s.waiters.set i { w with place } }

def step (s : St) : Act → Option St
  | .start =>
    if s.poll = .idle then some { s with running := true, stopEvent := false, poll := .started }
    else none
  | .pollBegin =>
    if s.poll = .started then some (if s.getStatusUnsupported then s.signalUnsupported else s.loop)
    else none
  | .answer a => if s.poll = .polling then some (s.answer a) else none
  | .wake =>
    if s.poll = .sleeping then some (if s.stopEvent then s.endLoop else s.loop) else none
  | .stop => some { s with running := false, stopEvent := true }
  | .call c => some { s with waiters := s.waiters ++ [{ call := c, place := s.call c }] }
  | .verified i a => s.waiters[i]?.bind fun w =>
    if w.place = .verifying then
      let r := s.verify w.call a
      some (r.1.setPlace i w r.2)
    else none
  | .resume i => s.waiters[i]?.bind fun w => match w.place with
    | .waiting e => if e < s.event then some (s.setPlace i w (s.waitLoop w.call)) else none
    | _ => none

/-- A monitor, with the argument `get_status_unsupported`. -/
def sys : Sys St Act := ⟨fun s => ∃ b, s = { getStatusUnsupported := b }, step⟩

/-! ## The property -/

/-- **No waiter is stranded**: once the poll loop has ended, a waiter waits only for an event that is
set; and one that was waiting for the cached status returned it, or returns it in its next step. -/
structure NotStranded (s : St) : Prop where
  awake : s.poll = .ended → ∀ w ∈ s.waiters, ∀ e, w.place = .waiting e → e < s.event
  reaches : ∀ w ∈ s.waiters, ∀ target, w.due = some target →
    w.place = .returned (.reached target) ∨
    ∃ e, w.place = .waiting e ∧ e < s.event ∧ s.waitLoop w.call = .returned (.reached target)

/-- No `wait_for_status` is waiting for `status`. -/
def St.clear (s : St) (status : Option Status) : Bool :=
  s.waiters.all fun w => match w.call with
    | .waitForStatus _ => !w.meets status
    | .waitForAnyOf _ => true

def Place.isWaiting : Place → Bool
  | .waiting _ => true
  | _ => false

/-- `stop` is called while nobody waits for the current event, no `wait_for_status` is waiting for the
cached status when the loop ends, and no waiter's own `GetStatus` returns while another waits. -/
def quiet (s : St) : Act → Bool
  | .stop => s.waiters.all fun w => w.place ≠ .waiting s.event
  | .pollBegin => s.clear (if s.getStatusUnsupported then some .leaseReady else s.currentStatus)
  | .answer .unimplemented => s.clear (some .leaseReady)
  | .answer .deadlineExceeded =>
    (s.deadlineRetries + 1 < 20 && s.running) || s.clear s.currentStatus
  | .wake => s.running || s.clear s.currentStatus
  | .verified _ (.ok _) => s.waiters.all fun w => !w.place.isWaiting
  | _ => true

/-! ## The waiters' steps -/

variable {s s' : St} {c : Call} {e : Nat} {target : Status} {w : Waiter}

theorem Waiter.meets_some :
    w.meets (some target) = (w.place.isWaiting && decide (target ∈ w.call.targets)) := by
  unfold Waiter.meets
  cases w.place <;> rfl

theorem waitLoop_waiting (h : s.waitLoop c = .waiting e) : s.running = true ∧ e = s.event := by
  unfold St.waitLoop at h
  split at h
  · rename_i hr
    split at h <;> cases h
    simp only [Bool.and_eq_true] at hr
    exact ⟨hr.1, rfl⟩
  · split at h <;> cases h

theorem enter_waiting (h : s.enter c = .waiting e) : s.running = true ∧ e = s.event := by
  unfold St.enter at h
  split at h
  · cases h
  · exact waitLoop_waiting h

theorem call_waiting (h : s.call c = .waiting e) : s.running = true ∧ e = s.event := by
  unfold St.call at h
  split at h
  · cases h
  · exact enter_waiting h

theorem waitLoop_reached {targets : List Status} (hr : s.running = false)
    (hs : s.currentStatus = some target) (ht : target ∈ targets) :
    s.waitLoop (.waitForAnyOf targets) = .returned (.reached target) := by
  have hat : s.at targets = some target := by
    unfold St.at
    cases hf : targets.find? fun x => s.currentStatus = some x with
    | none =>
      have := find?_eq_none.mp hf target ht
      simp [hs] at this
    | some x =>
      have hx := find?_some hf
      rw [hs] at hx
      simp only [some.injEq, decide_eq_true_eq] at hx
      rw [hx]
  simp [St.waitLoop, hr, hat]

/-! ## The invariant -/

/-- The waiters of `s` wait for events up to the current one, and for those before it once `running` is
unset. -/
structure Bounded (s : St) : Prop where
  bound : ∀ w ∈ s.waiters, ∀ e, w.place = .waiting e → e ≤ s.event
  halted : s.running = false → ∀ w ∈ s.waiters, ∀ e, w.place = .waiting e → e < s.event
  stopped : s.stopEvent = true → s.running = false

/-- The status that is due to the waiter. -/
def Waiter.Due (w : Waiter) (s : St) (target : Status) : Prop :=
  w.place = .returned (.reached target) ∨
  w.place.isWaiting = true ∧ s.currentStatus = some target ∧
    ∃ targets, w.call = .waitForAnyOf targets ∧ target ∈ targets

structure Inv (s : St) : Prop extends Bounded s where
  ended : s.poll = .ended → s.running = false
  due : ∀ w ∈ s.waiters, ∀ target, w.due = some target → s.poll = .ended ∧ w.Due s target

theorem Inv.notDue (hi : Inv s) (hp : s.poll ≠ .ended) : ∀ w ∈ s.waiters, w.due = none := by
  intro w hw
  cases hd : w.due with
  | none => rfl
  | some target => exact absurd (hi.due w hw target hd).1 hp

/-- **The poll loop ends**, after `running` was unset. -/
theorem Bounded.endLoop (hb : Bounded s) (hr : s.running = false)
    (hn : ∀ w ∈ s.waiters, w.due = none) (hc : s.clear s.currentStatus = true) : Inv s.endLoop := by
  have hplace : ∀ w ∈ s.endLoop.waiters, ∃ w₀ ∈ s.waiters, w.place = w₀.place := by
    intro w hw
    obtain ⟨w₀, hw₀, rfl⟩ := mem_map.mp hw
    refine ⟨w₀, hw₀, ?_⟩
    split <;> rfl
  refine { bound := ?_, halted := ?_, stopped := hb.stopped, ended := fun _ => hr, due := ?_ }
  · intro w hw e he
    obtain ⟨w₀, hw₀, hp⟩ := hplace w hw
    exact hb.bound w₀ hw₀ e (hp ▸ he)
  · intro _ w hw e he
    obtain ⟨w₀, hw₀, hp⟩ := hplace w hw
    exact hb.halted hr w₀ hw₀ e (hp ▸ he)
  · intro w hw target hd
    refine ⟨rfl, .inr ?_⟩
    obtain ⟨w₀, hw₀, rfl⟩ := mem_map.mp hw
    split at hd
    · rename_i hm
      have hs : s.currentStatus = some target := hd
      rw [if_pos hm]
      have hclear := all_eq_true.mp hc w₀ hw₀
      have hwait : w₀.place.isWaiting = true ∧ target ∈ w₀.call.targets := by
        rw [hs, Waiter.meets_some] at hm
        simpa using hm
      refine ⟨hwait.1, hs, ?_⟩
      show ∃ targets, w₀.call = .waitForAnyOf targets ∧ target ∈ targets
      cases hcall : w₀.call with
      | waitForStatus x =>
        rw [hcall] at hclear
        simp [hm] at hclear
      | waitForAnyOf targets =>
        rw [hcall] at hwait
        exact ⟨targets, rfl, hwait.2⟩
    · rw [hn w₀ hw₀] at hd
      cases hd

theorem Bounded.frame (hb : Bounded s) (hw : s'.waiters = s.waiters) (he : s.event ≤ s'.event)
    (hr : s'.running = false → s.running = false ∨ s.event < s'.event)
    (hs : s'.stopEvent = true → s'.running = false) : Bounded s' where
  bound w hmem e hp := Nat.le_trans (hb.bound w (hw ▸ hmem) e hp) he
  halted h w hmem e hp := by
    rcases hr h with hr | hlt
    · exact Nat.lt_of_lt_of_le (hb.halted hr w (hw ▸ hmem) e hp) he
    · exact Nat.lt_of_le_of_lt (hb.bound w (hw ▸ hmem) e hp) hlt
  stopped := hs

section

variable (hi : Inv s)
include hi

section

variable (hp : s.poll ≠ .ended)
include hp

theorem Inv.frame (hw : s'.waiters = s.waiters)
    (he : s.event ≤ s'.event) (hr : s'.running = s.running) (hs : s'.stopEvent = s.stopEvent)
    (hx : s'.poll ≠ .ended) : Inv s' where
  toBounded := hi.toBounded.frame hw he (fun h => .inl (hr ▸ h)) fun h => hr ▸ hi.stopped (hs ▸ h)
  ended h := absurd h hx
  due w hmem target hd := by
    rw [hi.notDue hp w (hw ▸ hmem)] at hd
    cases hd

theorem Inv.loop (hc : s.running = true ∨ s.clear s.currentStatus = true) : Inv s.loop := by
  unfold St.loop
  split
  · exact hi.frame hp rfl (Nat.le_refl _) rfl rfl (by simp)
  · rename_i hr
    rcases hc with hc | hc
    · exact absurd hc hr
    · exact hi.toBounded.endLoop (Bool.eq_false_iff.mpr hr) (hi.notDue hp) hc

theorem Inv.signalUnsupported (hc : s.clear (some .leaseReady) = true) : Inv s.signalUnsupported := by
  refine Bounded.endLoop ?_ rfl (hi.notDue hp) hc
  exact hi.toBounded.frame rfl (Nat.le_succ _) (fun _ => .inr (Nat.lt_succ_self _)) fun _ => rfl

theorem Inv.update (r : Response) : Inv (s.update r) := by
  unfold St.update
  split
  · exact hi.frame hp rfl (Nat.le_refl _) rfl rfl (by simp [St.cache])
  · exact hi.frame hp rfl (Nat.le_succ _) rfl rfl (by simp [St.fire, St.cache])

end

/-- **The poll loop takes an answer.** -/
theorem Inv.answer (hp : s.poll = .polling) {a : Answer}
    (hok : quiet s (.answer a) = true) : Inv (s.answer a) := by
  have hne : s.poll ≠ .ended := by simp [hp]
  cases a with
  | ok r => exact hi.update hne r
  | unimplemented => exact hi.signalUnsupported hne hok
  | unavailable => exact hi.frame hne rfl (Nat.le_refl _) rfl rfl (by simp [St.answer])
  | unknownStatus | otherCode | exception =>
    exact hi.frame hne rfl (Nat.le_refl _) rfl rfl (by simp [St.answer])
  | deadlineExceeded =>
    simp only [quiet, Bool.or_eq_true, Bool.and_eq_true, decide_eq_true_eq] at hok
    simp only [St.answer]
    split
    · have hc : s.clear s.currentStatus = true := by
        rcases hok with ⟨hlt, -⟩ | hc
        · omega
        · exact hc
      refine Bounded.endLoop ?_ rfl (hi.notDue hne) hc
      exact hi.toBounded.frame rfl (Nat.le_succ _) (fun _ => .inr (Nat.lt_succ_self _)) fun _ => rfl
    · have hi' : Inv { s with unavailableRetries := 0, deadlineRetries := s.deadlineRetries + 1 } :=
        hi.frame hne rfl (Nat.le_refl _) rfl rfl hne
      refine hi'.loop hne ?_
      rcases hok with ⟨-, hr⟩ | hc
      · exact .inl hr
      · exact .inr hc

/-- **`stop` is called** while nobody waits for the current event. -/
theorem Inv.stop (hok : quiet s .stop = true) : Inv { s with running := false, stopEvent := true } where
  __ := hi
  halted _ w hw e he := by
    have hne : w.place ≠ .waiting s.event := of_decide_eq_true (all_eq_true.mp hok w hw)
    refine Nat.lt_of_le_of_ne (hi.bound w hw e he) ?_
    rintro rfl
    exact hne he
  stopped _ := rfl
  ended _ := rfl

end

variable {i : Nat}

theorem Inv.moveWaiter (hi : Inv s) {x : Place} (hget : s.waiters[i]? = some w) (hev : s'.event = s.event)
    (hr : s'.running = s.running) (hs : s'.stopEvent = s.stopEvent) (hpoll : s'.poll = s.poll)
    (hw : s'.waiters = s.waiters) (hx : ∀ e, x = .waiting e → s.running = true ∧ e = s.event)
    (hdue : ∀ target, w.due = some target → Waiter.Due { w with place := x } s' target)
    (hothers : ∀ w' ∈ s.waiters, ∀ target, w'.Due s target → w'.Due s' target) : Inv (s'.setPlace i w x) where
  bound := by
    rw [show (s'.setPlace i w x).event = s.event from hev]
    show ∀ w' ∈ s'.waiters.set i { w with place := x }, _
    rw [hw]
    exact forall_mem_set hi.bound fun e he => Nat.le_of_eq (hx e he).2
  halted h := by
    rw [show (s'.setPlace i w x).event = s.event from hev]
    show ∀ w' ∈ s'.waiters.set i { w with place := x }, _
    rw [hw]
    have hstop : s.running = false := hr ▸ h
    refine forall_mem_set (hi.halted hstop) fun e he => ?_
    rw [(hx e he).1] at hstop
    cases hstop
  stopped h := by
    show s'.running = false
    rw [hr]
    exact hi.stopped (hs ▸ h)
  ended h := by
    show s'.running = false
    rw [hr]
    exact hi.ended (hpoll ▸ h)
  due := by
    show ∀ w' ∈ s'.waiters.set i { w with place := x }, _
    rw [hw]
    refine forall_mem_set (fun w' hw' target hd => ?_) fun target hd => ?_
    · obtain ⟨hp, hd⟩ := hi.due w' hw' target hd
      exact ⟨hpoll.trans hp, hothers w' hw' target hd⟩
    · exact ⟨hpoll.trans (hi.due w (mem_of_getElem? hget) target hd).1, hdue target hd⟩

theorem Inv.call (hi : Inv s) (c : Call) :
    Inv { s with waiters := s.waiters ++ [{ call := c, place := s.call c }] } where
  __ := hi
  bound := forall_mem_concat hi.bound fun _ he => Nat.le_of_eq (call_waiting he).2
  halted h := forall_mem_concat (hi.halted h) fun _ he => by
    have hr : s.running = false := h
    rw [(call_waiting he).1] at hr
    cases hr
  due := forall_mem_concat hi.due fun _ hd => by cases hd

/-- **A waiter's own `GetStatus` is answered.** -/
theorem Inv.verified (hi : Inv s) {a : Answer} (hget : s.waiters[i]? = some w) (hp : w.place = .verifying)
    (hok : quiet s (.verified i a) = true) :
    Inv ((s.verify w.call a).1.setPlace i w (s.verify w.call a).2) := by
  have hnot : ∀ {P : Prop} target, w.due = some target → P := by
    intro P target hd
    rcases (hi.due w (mem_of_getElem? hget) target hd).2 with h | ⟨h, -⟩
    · rw [hp] at h
      cases h
    · rw [hp] at h
      cases h
  cases a with
  | ok r =>
    have hx : ∀ e, (s.verify w.call (.ok r)).2 = .waiting e → s.running = true ∧ e = s.event :=
      fun _ he => enter_waiting (s := (s.verify w.call (.ok r)).1) he
    refine hi.moveWaiter hget rfl rfl rfl rfl rfl hx (fun _ => hnot _) ?_
    intro w' hw' target hd
    rcases hd with hd | ⟨hwait, -⟩
    · exact .inl hd
    · have := all_eq_true.mp hok w' hw'
      simp [hwait] at this
  | unknownStatus =>
    exact hi.moveWaiter hget rfl rfl rfl rfl rfl (fun _ he => by cases he) (fun _ => hnot _) fun _ _ _ h => h
  | unavailable | deadlineExceeded | exception =>
    exact hi.moveWaiter hget rfl rfl rfl rfl rfl (fun _ he => by cases he) (fun _ => hnot _) fun _ _ _ h => h
  | unimplemented | otherCode =>
    exact hi.moveWaiter hget rfl rfl rfl rfl rfl (fun _ he => enter_waiting he) (fun _ => hnot _)
      fun _ _ _ h => h

/-- **A waiter runs on** after its event was set. -/
theorem Inv.resume (hi : Inv s) (hget : s.waiters[i]? = some w) (hp : w.place = .waiting e) :
    Inv (s.setPlace i w (s.waitLoop w.call)) := by
  refine hi.moveWaiter hget rfl rfl rfl rfl rfl (fun _ he => waitLoop_waiting he) ?_ fun _ _ _ h => h
  intro target hd
  obtain ⟨hend, hdue⟩ := hi.due w (mem_of_getElem? hget) target hd
  rcases hdue with h | ⟨-, hs, targets, hc, ht⟩
  · rw [hp] at h
    cases h
  · left
    show s.waitLoop w.call = _
    rw [hc]
    exact waitLoop_reached (hi.ended hend) hs ht

theorem inductive_inv : sys.InductiveIf (fun s a => quiet s a = true) Inv where
  init := by
    rintro s ⟨b, rfl⟩
    exact {
      bound := fun _ h => by cases h
      halted := fun _ _ h => by cases h
      stopped := fun h => by cases h
      ended := fun h => by cases h
      due := fun _ h => by cases h }
  step := by
    intro s a s' hi hok hst
    change step s a = some s' at hst
    cases a with
    | start =>
      simp only [step, ite_none_right_eq_some, some.injEq] at hst
      obtain ⟨hp, rfl⟩ := hst
      exact {
        bound := hi.bound
        halted := fun h => by cases h
        stopped := fun h => by cases h
        ended := fun h => by cases h
        due := fun w hw target hd => by
          rw [hi.notDue (by simp [hp]) w hw] at hd
          cases hd }
    | pollBegin =>
      simp only [step, ite_none_right_eq_some, some.injEq] at hst
      obtain ⟨hp, rfl⟩ := hst
      have hne : s.poll ≠ .ended := by simp [hp]
      simp only [quiet] at hok
      split
      · rename_i hu
        rw [if_pos hu] at hok
        exact hi.signalUnsupported hne hok
      · rename_i hu
        rw [if_neg hu] at hok
        exact hi.loop hne (.inr hok)
    | answer a =>
      simp only [step, ite_none_right_eq_some, some.injEq] at hst
      obtain ⟨hp, rfl⟩ := hst
      exact hi.answer hp hok
    | wake =>
      simp only [step, ite_none_right_eq_some, some.injEq] at hst
      obtain ⟨hp, rfl⟩ := hst
      have hne : s.poll ≠ .ended := by simp [hp]
      simp only [quiet, Bool.or_eq_true] at hok
      split
      · rename_i hs
        have hr := hi.stopped hs
        rw [hr] at hok
        rcases hok with hok | hok
        · cases hok
        · exact hi.toBounded.endLoop hr (hi.notDue hne) hok
      · exact hi.loop hne hok
    | stop =>
      cases hst
      exact hi.stop hok
    | call c =>
      cases hst
      exact hi.call c
    | verified i a =>
      obtain ⟨w, hget, hst⟩ := bind_eq_some_iff.mp hst
      simp only [ite_none_right_eq_some, some.injEq] at hst
      obtain ⟨hp, rfl⟩ := hst
      exact hi.verified hget hp hok
    | resume i =>
      obtain ⟨w, hget, hst⟩ := bind_eq_some_iff.mp hst
      split at hst
      · rename_i hp
        simp only [ite_none_right_eq_some, some.injEq] at hst
        obtain ⟨-, rfl⟩ := hst
        exact hi.resume hget hp
      · cases hst

/-- **No waiter is stranded** in quiet runs. -/
theorem notStranded_of_quiet (h : sys.ReachIf (fun s a => quiet s a = true) s) : NotStranded s := by
  have hi := inductive_inv.reach h
  refine ⟨fun hp => hi.halted (hi.ended hp), fun w hw target hd => ?_⟩
  obtain ⟨hp, hdue⟩ := hi.due w hw target hd
  have hr := hi.ended hp
  rcases hdue with hret | ⟨hwait, hs, targets, hc, ht⟩
  · exact .inl hret
  · right
    cases hplace : w.place with
    | waiting e => exact ⟨e, rfl, hi.halted hr w hw e hplace, hc ▸ waitLoop_reached hr hs ht⟩
    | verifying | returned =>
      rw [hplace] at hwait
      cases hwait

/-- The exporter does not implement `GetStatus`: `wait_for_any_of` returns `LEASE_READY`. -/
def unsupportedRun : List Act :=
  [.start, .pollBegin, .call (.waitForAnyOf [.leaseReady]), .answer .unimplemented, .resume 0]

theorem notStranded_unsupported : ∃ s, sys.ReachIf (fun s a => quiet s a = true) s ∧ s.poll = .ended ∧
    s.waiters.map (·.due) = [some .leaseReady] ∧ NotStranded s := by
  have hinit : sys.init {} := ⟨false, rfl⟩
  have hrun : ((sys.execIf quiet {} unsupportedRun).any fun s =>
      s.poll = .ended && s.waiters.map (·.due) = [some .leaseReady]) = true := by
    decide +kernel
  obtain ⟨s, hs, hp⟩ := Sys.ReachIf.execIf_any (.init hinit) _ hrun
  simp only [Bool.and_eq_true, decide_eq_true_eq] at hp
  exact ⟨s, hs, hp.1, hp.2, notStranded_of_quiet hs⟩

/-- `stop` is called while a call waits. -/
def stopRun : List Act := [.start, .pollBegin, .call (.waitForAnyOf [.leaseReady]),
  .answer (.ok { status := .available }), .resume 0, .stop, .wake]

theorem notStranded_fails : ¬ ∀ s, sys.Reach s → NotStranded s := by
  intro h
  have hinit : sys.init {} := ⟨false, rfl⟩
  have hrun : ((sys.exec {} stopRun).any fun s => s.poll = .ended &&
      s.waiters.any fun w => w.place = .waiting s.event) = true := by
    decide +kernel
  obtain ⟨s, hs, hp⟩ := Sys.Reach.exec_any (.init hinit) _ hrun
  simp only [Bool.and_eq_true, decide_eq_true_eq, List.any_eq_true] at hp
  obtain ⟨hend, w, hw, hplace⟩ := hp
  exact Nat.lt_irrefl _ ((h s hs).awake hend w hw _ hplace)

end Jumpstarter.StatusMonitor
