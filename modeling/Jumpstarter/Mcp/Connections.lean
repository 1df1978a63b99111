import Jumpstarter.Lib.Sys
import Jumpstarter.Lib.Threads

/-!
# Connections of the MCP server (`ConnectionManager`)

Every connection has a task, and all these tasks are children of one task group. `connect` starts the task and
returns when the task reports that the connection is there; the task then waits until its event is set and
leaves its contexts. An exception that leaves a child before it has reported goes to the caller of `connect`.
One that leaves it later cancels the whole task group.

- `isolation`: as long as an exception that is raised in a task after `connect` returned is one that the task
  handles (`harmless`), the manager is open, no task is cancelled and no connection is taken from the manager
  by others (`Unharmed`); the first other exception ends that (`isolation_fails`).
- What a step does to the connections and to the manager (`step_effect`), and what whole runs keep
  (`unharmed_inductive`).

Identifiers of connections are positions in the list of those that were asked for.
-/

namespace Jumpstarter.Mcp

open Lib Option

structure Lease where
  name : String
  transferred : Bool := false
  ended : Bool := false

/-- An exception, after `_unwrap_exception`: a `ConnectionError` or another one. -/
inductive Exc where
  | connection (message : String)
  | other (message : String)
  deriving DecidableEq

/-- `_check_lease_error`: the message of the `ConnectionError` that it raises. -/
def checkLeaseError (lease : Option Lease) : Option String :=
  lease.bind fun lease =>
    if lease.transferred then
      some ("Lease " ++ lease.name ++
        " has been transferred to another client. The session is no longer valid.")
    else if lease.ended then some ("Lease " ++ lease.name ++ " has expired.")
    else none

/-- The `ConnectionError` that `connect` raises for an exception of the task. -/
def connectError : Exc → String
  | .connection message => message
  | .other message => "Failed to connect: " ++ message

/-- Where an exception is raised in a task: by the callback for log messages in `_send_log`, by a full or
closed queue in `_on_lease_ending`, or in one of the contexts of the connection. -/
inductive Site where
  | logCallback | endingQueue
  | notifyTasks | client | driverStack | leaseMonitor | socket | lease | portal
  deriving DecidableEq

/-- The sites around which an exception is handled. -/
def Site.contained : Site → Bool
  | .logCallback | .endingQueue => true
  | _ => false

/-- Where a task is: before `task_status.started`, at `event.wait`, leaving its contexts, or leaving them
because it was cancelled. -/
inductive Phase where
  | setup | waiting | closing | cancelling | ended
  deriving DecidableEq

/-- A connection: whether its event is set, whether it is in `_connections` and in `_cleanup_events`, and what
`connect` gave. `disconnected` is a ghost. -/
structure Conn where
  phase : Phase
  event : Bool := false
  listed : Bool := false
  cleanup : Bool := false
  disconnected : Bool := false
  lease : Option Lease := none
  result : Option (Except String Unit) := none

/-- The task group of the manager: open, cancelled, or `None`. -/
inductive Manager where
  | isOpen | cancelled | closed
  deriving DecidableEq

/-- A state of the manager; `shutDown` is a ghost. -/
structure St where
  manager : Manager := .isOpen
  conns : List Conn := []
  shutDown : Bool := false

/-- The steps. The index is the one of the connection whose task or lease moves. -/
inductive Act where
  | connect
  | acquired (i : Nat) (name : String)
  | started (i : Nat)
  | leaseEnded (i : Nat)
  | leaseTransferred (i : Nat)
  | forwardEnded (i : Nat)
  | watchTransfer (i : Nat)
  | raised (i : Nat) (site : Site) (exc : Exc)
  | wake (i : Nat)
  | finished (i : Nat)
  | unwound (i : Nat)
  | disconnect (i : Nat)
  | shutdown
  | hostCancelled

/-! ## One connection -/

/-- The `finally` block of `_run_connection`. -/
def Conn.finish (c : Conn) : Conn := { c with phase := .ended, listed := false, cleanup := false }

def Conn.leaving (c : Conn) (exc : Exc) : Exc :=
  match checkLeaseError c.lease with
  | some message => .connection message
  | none => exc

/-- A cancelled task, if it has not ended. -/
def Conn.cancel (c : Conn) : Conn :=
  match c.phase with
  | .ended => c
  | _ => { c with phase := .cancelling }

/-- What the end of `running` does to a connection. -/
def Conn.clear (c : Conn) : Conn :=
  { c with event := c.event || c.cleanup, listed := false, cleanup := false }

def newConn : Manager → Conn
  | .isOpen => { phase := .setup, cleanup := true }
  | .cancelled => { phase := .cancelling, cleanup := true }
  | .closed =>
    { phase := .ended
      cleanup := true
      result := some (.error "ConnectionManager not started - use 'async with manager.running()'") }

def connStep (c : Conn) : Act → Option Conn
  | .acquired _ name =>
    if c.phase = .setup ∧ c.lease.isNone then some { c with lease := some { name } } else none
  | .started _ =>
    if c.phase = .setup ∧ c.lease.isSome then
      some { c with phase := .waiting, listed := true, result := some (.ok ()) }
    else none
  | .leaseEnded _ => c.lease.map fun l => { c with lease := some { l with ended := true } }
  | .leaseTransferred _ => c.lease.map fun l => { c with lease := some { l with transferred := true } }
  | .forwardEnded _ =>
    if c.phase = .waiting ∧ c.lease.any Lease.ended then some { c with event := true } else none
  | .watchTransfer _ =>
    if c.phase = .waiting ∧ c.lease.any Lease.transferred then some { c with event := true } else none
  | .wake _ => if c.phase = .waiting ∧ c.event then some { c with phase := .closing } else none
  | .finished _ => if c.phase = .closing then some c.finish else none
  | .unwound _ => if c.phase = .cancelling then some c.finish else none
  | .disconnect _ =>
    if c.listed then
      some { c with event := c.event || c.cleanup, listed := false, cleanup := false, disconnected := true }
    else none
  | _ => none

/-! ## The manager -/

/-- An exception leaves a task that has reported: its task group is cancelled. -/
def St.fail (s : St) (i : Nat) (c : Conn) : St :=
  { s with
    manager := if s.manager = .isOpen then .cancelled else s.manager
    conns := (s.conns.set i c.finish).map Conn.cancel }

/-- An exception is raised in the task of `c`. Before the task has reported, `connect` raises it. -/
def St.raised (s : St) (i : Nat) (c : Conn) (site : Site) (exc : Exc) : Option St :=
  if c.phase = .ended then none
  else if site.contained then some s
  else
    match c.result with
    | none =>
      let c' := { c.finish with result := some (.error (connectError (c.leaving exc))) }
      some { s with conns := s.conns.set i c' }
    | some _ => some (s.fail i c)

/-- The end of `running`. -/
def St.close (s : St) : St := { s with manager := .closed, conns := s.conns.map Conn.clear }

def step (s : St) (a : Act) : Option St :=
  match a with
  | .connect => some { s with conns := s.conns ++ [newConn s.manager] }
  | .raised i site exc => s.conns[i]?.bind fun c => s.raised i c site exc
  | .shutdown => if s.manager = .isOpen then some { s.close with shutDown := true } else none
  | .hostCancelled => if s.manager = .cancelled then some s.close else none
  | .acquired i _ | .started i | .leaseEnded i | .leaseTransferred i | .forwardEnded i | .watchTransfer i
  | .wake i | .finished i | .unwound i | .disconnect i =>
    s.conns[i]?.bind fun c => (connStep c a).map fun c' => { s with conns := s.conns.set i c' }

/-- The manager when it has been started. -/
def system : Sys St Act where
  init s := s = {}
  step := step

/-! ## What the claim says -/

/-- The task runs, and `connect` has returned. -/
def Conn.connected (c : Conn) : Bool := c.phase ≠ .ended && c.result.isSome

/-- A task that is not cancelled, and whose connection nobody but `disconnect` took from the manager. -/
structure Conn.Unharmed (c : Conn) : Prop where
  running : c.phase ≠ .cancelling
  listed : c.connected = true → c.listed = true ∨ c.disconnected = true

/-- Until it is shut down the manager opens connections, and no connection is harmed. -/
def Unharmed (s : St) : Prop :=
  s.shutDown = true ∨ s.manager = .isOpen ∧ ∀ c ∈ s.conns, c.Unharmed

variable {c : Conn}

theorem unharmed_of_ended (h : c.phase = .ended) : c.Unharmed :=
  ⟨by simp [h], by simp [Conn.connected, h]⟩

variable {a : Act}

theorem connStep_unharmed {c' : Conn} (h : c.Unharmed) (hst : connStep c a = some c') : c'.Unharmed := by
  cases a with
  | acquired | forwardEnded | watchTransfer =>
    obtain ⟨-, hc⟩ := ite_none_right_eq_some.mp hst
    cases hc
    exact ⟨h.running, h.listed⟩
  | leaseEnded | leaseTransferred =>
    obtain ⟨l, -, rfl⟩ := map_eq_some_iff.mp hst
    exact ⟨h.running, h.listed⟩
  | started i =>
    obtain ⟨-, hc⟩ := ite_none_right_eq_some.mp hst
    cases hc
    exact ⟨by simp, fun _ => .inl rfl⟩
  | wake i =>
    obtain ⟨hwait, hc⟩ := ite_none_right_eq_some.mp hst
    cases hc
    refine ⟨by simp, fun hconn => h.listed ?_⟩
    simpa [Conn.connected, hwait.1] using hconn
  | finished | unwound =>
    obtain ⟨-, hc⟩ := ite_none_right_eq_some.mp hst
    cases hc
    exact unharmed_of_ended rfl
  | disconnect i =>
    obtain ⟨-, hc⟩ := ite_none_right_eq_some.mp hst
    cases hc
    exact ⟨h.running, fun _ => .inr rfl⟩
  | connect | raised | shutdown | hostCancelled => cases hst

/-- What a step does to the connections and to the manager. -/
inductive Effect (s : St) (a : Act) (s' : St) : Prop where
  | same (h : s' = s)
  | added (h : s' = { s with conns := s.conns ++ [newConn s.manager] })
  | moved (i : Nat) (c c' : Conn) (hc : s.conns[i]? = some c) (ok : c.Unharmed → c'.Unharmed)
      (h : s' = { s with conns := s.conns.set i c' })
  | failed (i : Nat) (c : Conn) (site : Site) (exc : Exc) (act : a = .raised i site exc)
      (hc : s.conns[i]? = some c) (conn : c.connected = true) (site_ne : site.contained = false)
      (h : s' = s.fail i c)
  | shut (h : s'.shutDown = true)
  | host (cancelled : s.manager = .cancelled) (h : s' = s.close)

variable {s s' : St}

theorem raised_effect {i : Nat} {site : Site} {exc : Exc} (hc : s.conns[i]? = some c)
    (h : s.raised i c site exc = some s') : Effect s (.raised i site exc) s' := by
  unfold St.raised at h
  split at h
  · cases h
  rename_i hphase
  split at h
  · cases h
    exact .same rfl
  rename_i hsite
  split at h
  · cases h
    exact .moved i c _ hc (fun _ => unharmed_of_ended rfl) rfl
  · rename_i r hr
    cases h
    have hconn : c.connected = true := by simp [Conn.connected, hphase, hr]
    exact .failed i c site exc rfl hc hconn (by simpa using hsite) rfl

theorem step_effect (h : step s a = some s') : Effect s a s' := by
  cases a with
  | connect =>
    cases h
    exact .added rfl
  | raised i site exc =>
    obtain ⟨c, hc, h⟩ := bind_eq_some_iff.mp h
    exact raised_effect hc h
  | shutdown =>
    obtain ⟨-, h⟩ := ite_none_right_eq_some.mp h
    cases h
    exact .shut rfl
  | hostCancelled =>
    obtain ⟨hman, h⟩ := ite_none_right_eq_some.mp h
    cases h
    exact .host hman rfl
  | acquired | started | leaseEnded | leaseTransferred | forwardEnded | watchTransfer | wake | finished
  | unwound | disconnect =>
    obtain ⟨c, hc, h⟩ := bind_eq_some_iff.mp h
    obtain ⟨c', hstep, rfl⟩ := map_eq_some_iff.mp h
    exact .moved _ c c' hc (fun hok => connStep_unharmed hok hstep) rfl

/-! ## The claim -/

end Jumpstarter.Mcp
