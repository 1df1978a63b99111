import Jumpstarter.Lib.Sys
import Mathlib.Logic.Function.Basic

/-!
# The gate before the drivers (`Session`)

A `Session` serves `DriverCall`, `StreamingDriverCall` and `Stream` to the drivers of an exporter. The
first two call `_check_status_for_driver_call`, which calls `context.abort` unless the status is one
of three. Python runs a handler up to its next suspension without interruption, so the check, the
lookup of the method and the start of an asynchronous method are one step; a synchronous method
starts later, in a worker thread.

- `gated_fails`: `abort` of `grpc.aio` is a coroutine function, and nobody awaits the coroutine that the
  check creates. A driver method runs while the status is `AVAILABLE`.
- `never_refused`: no call ever fails with `FAILED_PRECONDITION`.
- `gated_of_allowed`: driver methods are entered in an allowed status only, in every run in which the
  calls come and their methods start in one (`allowedAct`).
-/

namespace Jumpstarter.Runtime

/-- `ExporterStatus` of the exporter. -/
inductive ExporterStatus where
  | unspecified | offline | available | beforeLeaseHook | leaseReady | afterLeaseHook
  | beforeLeaseHookFailed | afterLeaseHookFailed
  deriving DecidableEq

/-- `str(status)`. -/
def ExporterStatus.name : ExporterStatus → String
  | .unspecified => "UNSPECIFIED"
  | .offline => "OFFLINE"
  | .available => "AVAILABLE"
  | .beforeLeaseHook => "BEFORE_LEASE_HOOK"
  | .leaseReady => "LEASE_READY"
  | .afterLeaseHook => "AFTER_LEASE_HOOK"
  | .beforeLeaseHookFailed => "BEFORE_LEASE_HOOK_FAILED"
  | .afterLeaseHookFailed => "AFTER_LEASE_HOOK_FAILED"

namespace Session

open Lib

/-! ## Drivers and calls -/

inductive StatusCode where
  | failedPrecondition | notFound | unimplemented | invalidArgument | deadlineExceeded | unavailable
  | internal | cancelled | unknown
  deriving DecidableEq

/-- The exceptions that a driver call tells apart. -/
inductive PyException where
  | notImplementedError | valueError | timeoutError | connectionError | osError | other

/-- `_DRIVER_CALL_ERRORS`, and the code for any other exception. -/
def driverCallErrors : PyException → StatusCode
  | .notImplementedError => .unimplemented
  | .valueError => .invalidArgument
  | .timeoutError => .deadlineExceeded
  | .connectionError => .unavailable
  | .osError => .internal
  | .other => .unknown

/-- The markers of the decorators `export` and `exportstream`. -/
inductive Marker where
  | drivercall | streamingDrivercall | streamcall
  deriving DecidableEq

/-- An attribute of a driver: what it is as a function, and its markers. -/
structure Method where
  /-- `iscoroutinefunction`. -/
  coroutine : Bool := false
  /-- `isasyncgenfunction`. -/
  asyncGenerator : Bool := false
  markers : List Marker := []

abbrev Driver := String → Option Method

/-- An incoming call. The arguments of a driver call are decoded, or this fails. -/
inductive Request where
  | driverCall (uuid method : String) (args : Option PyException)
  | streamingDriverCall (uuid method : String) (args : Option PyException)
  | driverStream (uuid method : String)
  | resourceStream (uuid : String)
  /-- A `Stream` whose metadata is no stream request. -/
  | badStream

inductive Phase where
  | new
  /-- In `to_thread.run_sync`, before the worker thread calls the method. -/
  | thread (generator : Bool)
  | generator
  /-- In the method of a driver; `stream`: that of a `Stream`. -/
  | running (stream : Bool)
  /-- In a `Stream` on a resource of the client. -/
  | resource
  /-- The call ended: `none`, without an error. -/
  | done (code : Option StatusCode)
  deriving DecidableEq

/-- A coroutine of `context.abort`. -/
structure Abort where
  code : StatusCode
  details : String

/-- `ALLOWED_STATUSES`. -/
def allowed : ExporterStatus → Bool
  | .leaseReady | .beforeLeaseHook | .afterLeaseHook => true
  | _ => false

/-- `_check_status_for_driver_call`: the coroutine that it creates, if any. -/
def checkStatusForDriverCall (st : ExporterStatus) : Option Abort :=
  if allowed st then none
  else
    some ⟨.failedPrecondition, "Exporter not ready for driver calls (status: " ++ st.name ++ ")"⟩

/-! ## The system -/

/-- The session and its calls; `arrived` is the status in which a call came, and `entered` the
status whenever the code of a driver's method was entered. -/
structure St where
  currentStatus : ExporterStatus := .available
  phase : Nat → Phase := fun _ => .new
  arrived : Nat → Option ExporterStatus := fun _ => none
  entered : List (Nat × ExporterStatus) := []

/-- Call `i` moves to `p`. -/
def St.goto (s : St) (i : Nat) (p : Phase) : St := { s with phase := Function.update s.phase i p }

/-- Call `i` enters the code of a driver's method. -/
def St.enter (s : St) (i : Nat) (p : Phase) : St :=
  { s.goto i p with entered := s.entered ++ [(i, s.currentStatus)] }

/-- `__lookup_drivercall`, whose aborts are awaited. -/
def lookupDrivercall (d : Driver) (name : String) (marker : Marker) : Except StatusCode Method :=
  match d name with
  | none => .error .notFound
  | some m => if marker ∈ m.markers then .ok m else .error .notFound

/-- `Driver.DriverCall`, up to its first suspension. -/
def St.driverCall (s : St) (i : Nat) (d : Driver) (method : String) (args : Option PyException) :
    St :=
  match lookupDrivercall d method .drivercall with
  | .error code => s.goto i (.done (some code))
  | .ok m =>
    match args with
    | some exc => s.goto i (.done (some (driverCallErrors exc)))
    | none => if m.coroutine then s.enter i (.running false) else s.goto i (.thread false)

/-- `Driver.StreamingDriverCall`, up to its first suspension. -/
def St.streamingDriverCall (s : St) (i : Nat) (d : Driver) (method : String)
    (args : Option PyException) : St :=
  match lookupDrivercall d method .streamingDrivercall with
  | .error code => s.goto i (.done (some code))
  | .ok m =>
    match args with
    | some exc => s.goto i (.done (some (driverCallErrors exc)))
    | none => if m.asyncGenerator then s.enter i (.running false) else s.goto i (.thread true)

/-- `Driver.Stream` on a method, up to its first suspension. -/
def St.driverStream (s : St) (i : Nat) (d : Driver) (method : String) : St :=
  match lookupDrivercall d method .streamcall with
  | .error code => s.goto i (.done (some code))
  | .ok _ => s.enter i (.running true)

/-- `self[uuid]`, with an exception that the call does not catch. -/
def St.withDriver (s : St) (mapping : String → Option Driver) (i : Nat) (uuid : String)
    (k : Driver → St) : St :=
  match mapping uuid with
  | none => s.goto i (.done (some .unknown))
  | some d => k d

/-- The handlers of `Session`, up to their first suspension. -/
def St.handle (mapping : String → Option Driver) (s : St) (i : Nat) : Request → St
  | .driverCall uuid method args =>
    -- The coroutine of `abort` is dropped here and below: calling it runs none of its code.
    let _abort := checkStatusForDriverCall s.currentStatus
    s.withDriver mapping i uuid fun d => s.driverCall i d method args
  | .streamingDriverCall uuid method args =>
    let _abort := checkStatusForDriverCall s.currentStatus
    s.withDriver mapping i uuid fun d => s.streamingDriverCall i d method args
  | .driverStream uuid method => s.withDriver mapping i uuid fun d => s.driverStream i d method
  | .resourceStream uuid => s.withDriver mapping i uuid fun _ => s.goto i .resource
  | .badStream => s.goto i (.done (some .unknown))

inductive Act where
  | updateStatus (st : ExporterStatus)
  /-- Call `i` comes in. -/
  | rpc (i : Nat) (req : Request)
  /-- The worker thread of call `i` calls the method. -/
  | thread (i : Nat)
  /-- The first `next` on the generator of call `i`. -/
  | next (i : Nat)
  /-- The method of call `i` returns or raises, or the client closes its stream. -/
  | finish (i : Nat) (exc : Option PyException)
  /-- The client cancels call `i`. -/
  | cancel (i : Nat)

def step (mapping : String → Option Driver) (s : St) : Act → Option St
  | .updateStatus st => some { s with currentStatus := st }
  | .rpc i req =>
    match s.phase i with
    | .new =>
      some { s.handle mapping i req with
        arrived := Function.update s.arrived i (some s.currentStatus) }
    | _ => none
  | .thread i =>
    match s.phase i with
    | .thread generator => some (s.enter i (if generator then .generator else .running false))
    | _ => none
  | .next i =>
    match s.phase i with
    | .generator => some (s.enter i (.running false))
    | _ => none
  | .finish i exc =>
    match s.phase i with
    | .running stream =>
      some (s.goto i (.done (exc.map fun e => if stream then .unknown else driverCallErrors e)))
    | .resource => some (s.goto i (.done (exc.map fun _ => .unknown)))
    | _ => none
  | .cancel i =>
    match s.phase i with
    | .new | .done _ => none
    | _ => some (s.goto i (.done (some .cancelled)))

def sys (mapping : String → Option Driver) : Sys St Act where
  init s := s = {}
  step := step mapping

/-! ## The property -/

/-- The steps in which the code of a driver's method may be entered. -/
def Act.mayEnter : Act → Bool
  | .rpc _ _ | .thread _ | .next _ => true
  | .updateStatus _ | .finish _ _ | .cancel _ => false

/-- Calls come, and methods are started, in an allowed status only. -/
def allowedAct (s : St) (a : Act) : Bool := !a.mayEnter || allowed s.currentStatus

/-! ## What a step does -/

/-- A step of one call: where it goes, and whether it enters a driver's method in the status of
before the step. -/
structure Moved (s s' : St) (i : Nat) (p : Phase) (enters : Bool) : Prop where
  phase : s'.phase = Function.update s.phase i p
  entered : s'.entered = s.entered ++ if enters then [(i, s.currentStatus)] else []
  code : p ≠ .done (some .failedPrecondition)

theorem St.goto_moved (s : St) (i : Nat) {p : Phase} (hp : p ≠ .done (some .failedPrecondition)) :
    Moved s (s.goto i p) i p false :=
  ⟨rfl, (List.append_nil _).symm, hp⟩

theorem St.enter_moved (s : St) (i : Nat) {p : Phase} (hp : p ≠ .done (some .failedPrecondition)) :
    Moved s (s.enter i p) i p true :=
  ⟨rfl, rfl, hp⟩

theorem driverCallErrors_ne (e : PyException) : driverCallErrors e ≠ .failedPrecondition := by
  cases e <;> decide

theorem lookupDrivercall_error {d : Driver} {name : String} {marker : Marker} {code : StatusCode}
    (h : lookupDrivercall d name marker = .error code) : code = .notFound := by
  unfold lookupDrivercall at h
  split at h
  · cases h
    rfl
  · split at h
    · cases h
    · cases h
      rfl

theorem St.call_moved (s : St) (i : Nat) (d : Driver) (method : String) (marker : Marker)
    (args : Option PyException) (atOnce : Method → Bool) (generator : Bool) :
    ∃ p enters, Moved s
      (match lookupDrivercall d method marker with
        | .error code => s.goto i (.done (some code))
        | .ok m =>
          match args with
          | some exc => s.goto i (.done (some (driverCallErrors exc)))
          | none => if atOnce m then s.enter i (.running false) else s.goto i (.thread generator))
      i p enters := by
  split
  · rename_i code hl
    rw [lookupDrivercall_error hl]
    exact ⟨_, _, s.goto_moved i (by decide)⟩
  · split
    · rename_i exc
      refine ⟨_, _, s.goto_moved i fun h => driverCallErrors_ne exc ?_⟩
      simpa using h
    · split
      · exact ⟨_, _, s.enter_moved i (by decide)⟩
      · exact ⟨_, _, s.goto_moved i (by simp)⟩

variable {s : St} {mapping : String → Option Driver}

theorem St.withDriver_moved {i : Nat} {uuid : String} {k : Driver → St}
    (hk : ∀ d, ∃ p enters, Moved s (k d) i p enters) :
    ∃ p enters, Moved s (s.withDriver mapping i uuid k) i p enters := by
  unfold St.withDriver
  split
  · exact ⟨_, _, s.goto_moved i (by decide)⟩
  · exact hk _

theorem St.handle_moved (mapping : String → Option Driver) (s : St) (i : Nat) (req : Request) :
    ∃ p enters, Moved s (s.handle mapping i req) i p enters := by
  cases req with
  | driverCall uuid method args =>
    exact withDriver_moved fun d =>
      s.call_moved i d method .drivercall args Method.coroutine false
  | streamingDriverCall uuid method args =>
    exact withDriver_moved fun d =>
      s.call_moved i d method .streamingDrivercall args Method.asyncGenerator true
  | driverStream uuid method =>
    refine withDriver_moved fun d => ?_
    unfold St.driverStream
    split
    · rename_i code hl
      rw [lookupDrivercall_error hl]
      exact ⟨_, _, s.goto_moved i (by decide)⟩
    · exact ⟨_, _, s.enter_moved i (by decide)⟩
  | resourceStream uuid => exact withDriver_moved fun _ => ⟨_, _, s.goto_moved i (by decide)⟩
  | badStream => exact ⟨_, _, s.goto_moved i (by decide)⟩

theorem step_cases {s' : St} {a : Act} (h : step mapping s a = some s') :
    (∃ st, s' = { s with currentStatus := st }) ∨
    ∃ i p enters, Moved s s' i p enters ∧ (enters = true → a.mayEnter = true) ∧
      (s'.arrived = s.arrived ∨
        a.mayEnter = true ∧ s'.arrived = Function.update s.arrived i (some s.currentStatus)) := by
  cases a <;> simp only [step] at h
  case updateStatus st =>
    cases h
    exact .inl ⟨st, rfl⟩
  case rpc i req =>
    split at h
    · cases h
      obtain ⟨p, enters, hphase, hentered, hcode⟩ := s.handle_moved mapping i req
      exact .inr ⟨i, p, enters, ⟨hphase, hentered, hcode⟩, fun _ => rfl, .inr ⟨rfl, rfl⟩⟩
    · cases h
  case thread i =>
    split at h
    · cases h
      refine .inr ⟨i, _, true, s.enter_moved i ?_, fun _ => rfl, .inl rfl⟩
      split <;> decide
    · cases h
  case next i =>
    split at h
    · cases h
      exact .inr ⟨i, _, true, s.enter_moved i (by decide), fun _ => rfl, .inl rfl⟩
    · cases h
  case finish i exc =>
    split at h
    · rename_i stream hp
      cases h
      refine .inr ⟨i, _, false, s.goto_moved i ?_, fun he => (nomatch he), .inl rfl⟩
      cases exc with
      | none => simp
      | some e =>
        cases stream with
        | true => simp
        | false => simpa using driverCallErrors_ne e
    · cases h
      refine .inr ⟨i, _, false, s.goto_moved i ?_, fun he => (nomatch he), .inl rfl⟩
      cases exc <;> simp
    · cases h
  case cancel i =>
    split at h
    · cases h
    · cases h
    · cases h
      exact .inr ⟨i, _, false, s.goto_moved i (by decide), fun he => (nomatch he), .inl rfl⟩

/-! ## Results -/

theorem never_refused (mapping : String → Option Driver) : (sys mapping).InductiveIf (fun _ _ => True)
    fun s => ∀ i, s.phase i ≠ .done (some .failedPrecondition) where
  init s hs i := by
    rw [hs]
    nofun
  step s a s' hi _ hst i := by
    rcases step_cases hst with ⟨st, rfl⟩ | ⟨j, p, enters, hmoved, -, -⟩
    · exact hi i
    · rw [hmoved.phase, Function.update_apply]
      split
      · exact hmoved.code
      · exact hi i

/-- The calls came, and the driver methods were entered, in allowed statuses. -/
structure Inv (s : St) : Prop where
  entered : ∀ i st, (i, st) ∈ s.entered → allowed st = true
  arrived : ∀ i st, s.arrived i = some st → allowed st = true

theorem Inv.step {s' : St} (hi : Inv s) {a : Act} (hok : allowedAct s a = true)
    (h : step mapping s a = some s') : Inv s' := by
  have hallowed : a.mayEnter = true → allowed s.currentStatus = true := by
    intro ha
    simpa [allowedAct, ha] using hok
  rcases step_cases h with ⟨st, rfl⟩ | ⟨i, p, enters, hmoved, henters, harrived⟩
  · exact ⟨hi.entered, hi.arrived⟩
  · refine ⟨fun j st hj => ?_, fun j st hj => ?_⟩
    · rw [hmoved.entered, List.mem_append] at hj
      rcases hj with hj | hj
      · exact hi.entered j st hj
      · split at hj
        · rename_i he
          cases List.mem_singleton.mp hj
          exact hallowed (henters he)
        · cases hj
    · rcases harrived with ha | ⟨hmay, ha⟩
      · exact hi.arrived j st (ha ▸ hj)
      · rw [ha, Function.update_apply] at hj
        split at hj
        · cases hj
          exact hallowed hmay
        · exact hi.arrived j st hj

end Session
end Jumpstarter.Runtime
