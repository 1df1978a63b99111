import Jumpstarter.Runtime.Session

/-!
# The tasks of one lease of an exporter

For each lease the exporter runs `handle_lease`, `_handle_end_session` and (with a hook executor)
`run_before_lease_hook`, which share the events of a `LeaseContext`. Python runs a task from one
suspension to the next without interruption (`_report_status` does not suspend while the exporter
serves), so a step of this file is such a stretch of code (`LeaseContext.step`): from the context of the lease
and what the task reads of the exporter (`View`) to the new context and what the task does outside it (`Out`).

The choices of the environment are in the action: how a script ends, the answer to an RPC, which of two
waits ends first. After a cancellation of the task group a task may still take the step for
which it is already scheduled; its other suspensions raise, unless they are shielded.
-/

namespace Jumpstarter.Runtime

/-! ## Configuration -/

/-- `on_failure` of a hook. -/
inductive OnFailure where
  | warn | endLease | exit
  deriving DecidableEq

/-- `HookInstanceConfigV1Alpha1`. -/
structure Hook where
  hasScript : Bool := true
  onFailure : OnFailure := .warn

/-- `HookConfigV1Alpha1`. -/
structure HookConfig where
  beforeLease : Option Hook := none
  afterLease : Option Hook := none

structure Config where
  /-- `hook_executor`, with its configuration. -/
  hookExecutor : Option HookConfig := none
  exitOnLeaseEnd : Bool := false

def Config.beforeLease (cfg : Config) : Option Hook := cfg.hookExecutor.bind (·.beforeLease)

def Config.afterLease (cfg : Config) : Option Hook := cfg.hookExecutor.bind (·.afterLease)

inductive HookType where
  | before | after
  deriving DecidableEq

/-- The script of a hook of lease number `lease`. -/
structure Script where
  lease : Nat
  hook : HookType
  deriving DecidableEq

inductive ScriptEvent where
  | started (x : Script)
  | finished (x : Script)
  deriving DecidableEq

/-- How a hook ends: `failed` is an exit code other than 0, a timeout or a failure to start it;
`unexpected` is any other exception. -/
inductive Outcome where
  | ok | failed | unexpected
  deriving DecidableEq

inductive Spawn where
  | started
  | error (unexpected : Bool)

/-- The outcome of a hook whose script was not started. -/
def Spawn.outcome (unexpected : Bool) : Outcome := if unexpected then .unexpected else .failed

/-! ## What a task shares with the exporter -/

structure View where
  /-- The lease number in the slot (`_lease_context`), and whether its `lease_ended` is set. -/
  slot : Option (Nat × Bool)
  stopRequested : Bool
  releaseLeaseUnsupported : Bool
  cancelled : Bool

structure Out where
  /-- The statuses given to `_report_status`. -/
  reports : List ExporterStatus := []
  /-- It calls `stop` with `wait_for_lease_exit=True`. -/
  shutdown : Bool := false
  /-- It posts `LeaseFinished`. -/
  finished : Bool := false
  release : Option Nat := none
  releaseLeaseUnsupported : Bool := false
  /-- It sets `lease_ended` of the lease in the slot. -/
  endsSlot : Bool := false
  scripts : List ScriptEvent := []
  raises : Bool := false

/-! ## `_request_lease_release` -/

/-- Where `_request_lease_release` is: in the RPC `ReleaseLease`, or in `_send_compat_release`, for
the lease that it read from the slot. -/
inductive Release where
  | rpc (lease : Nat)
  | compat (lease : Nat)
  deriving DecidableEq

def Release.lease : Release → Nat
  | .rpc j | .compat j => j

/-- The answer to an RPC, after its retries; `unsupported` is one of
`_RELEASE_LEASE_UNSUPPORTED_CODES`. -/
inductive RpcResult where
  | ok | unsupported | failed
  deriving DecidableEq

/-- `_request_lease_release` up to its RPC; `none`: it returns. -/
def requestLeaseRelease (v : View) : Option Release :=
  match v.slot with
  | none => none
  | some (j, leaseEnded) =>
    if leaseEnded then none
    else some (if v.releaseLeaseUnsupported then .compat j else .rpc j)

/-- `_request_lease_release` after its RPC; `none`: it returns. -/
def Release.next : Release → RpcResult → Option Release × Out
  | .rpc j, .unsupported =>
    (some (.compat j), { release := some j, releaseLeaseUnsupported := true })
  | _, _ => (none, { reports := [.available], endsSlot := true })

/-! ## `run_after_lease_hook` -/

/-- Where `run_after_lease_hook` is. -/
inductive AfterRun where
  | script
  /-- In the `sleep` of its `finally`, after `AFTER_LEASE_HOOK_FAILED` (`failed`), and after a
  call of `stop` (`shutdownCalled`). -/
  | delay (failed shutdownCalled : Bool)
  | release (r : Release)
  deriving DecidableEq

/-- The hook of the configuration `h` ended. -/
def afterHookEnded (h : Hook) : Outcome → AfterRun × Out
  | .ok => (.delay false false, { reports := [.available] })
  | .failed =>
    match h.onFailure with
    | .warn => (.delay false false, { reports := [.available] })
    | .endLease => (.delay true false, { reports := [.afterLeaseHookFailed] })
    | .exit =>
      (.delay true true, { reports := [.afterLeaseHookFailed, .offline], shutdown := true })
  | .unexpected => (.delay true false, { reports := [.afterLeaseHookFailed] })

/-- `run_after_lease_hook` for lease number `i`, up to its first suspension. -/
def runAfterLeaseHook (after : Option Hook) (i : Nat) (ready : Bool) (spawn : Spawn) :
    AfterRun × Out :=
  match ready, after with
  | true, some h =>
    if h.hasScript then
      match spawn with
      | .started =>
        (.script, { reports := [.afterLeaseHook], scripts := [.started ⟨i, .after⟩] })
      | .error unexpected =>
        let (run, o) := afterHookEnded h (Spawn.outcome unexpected)
        (run, { o with reports := .afterLeaseHook :: o.reports })
    else (.delay false false, { reports := [.afterLeaseHook, .available] })
  | _, _ => (.delay false false, { reports := [.available] })

/-- What ends a suspension of `run_after_lease_hook`. -/
inductive AfterAct where
  | exit (o : Outcome)
  | wake
  | rpc (res : RpcResult)

/-- `run_after_lease_hook` from one suspension to the next; `none`: it returns. -/
def AfterRun.next (after : Option Hook) (v : View) (i : Nat) :
    AfterRun → AfterAct → Option (Option AfterRun × Out)
  | .script, .exit outcome =>
    after.map fun h =>
      let (run, o) := afterHookEnded h outcome
      (some run, { o with scripts := [.finished ⟨i, .after⟩] })
  | .delay _ shutdownCalled, .wake =>
    if shutdownCalled then some (none, {})
    else
      match requestLeaseRelease v with
      | none => some (none, {})
      | some r => some (some (.release r), { release := some r.lease })
  | .release r, .rpc res =>
    let (r', o) := r.next res
    some (r'.map .release, o)
  | _, _ => none

/-! ## The tasks of a lease -/

/-- Where `handle_lease` is. -/
inductive HandleLease where
  /-- In its first `sleep(0)`. -/
  | start
  /-- In the setup of `session_for_lease`. -/
  | setup
  /-- In `conn_tg`, with the session served. -/
  | serving
  /-- In `_cleanup_after_lease`, waiting for `before_lease_hook`. -/
  | waitBefore
  /-- In `_cleanup_after_lease`, in `run_after_lease_hook`. -/
  | after (run : AfterRun)
  /-- In `_cleanup_after_lease`, waiting for `after_lease_hook_done`. -/
  | waitAfter
  /-- In the teardown of `session_for_lease`. -/
  | closing
  | finished
  deriving DecidableEq

/-- Where `run_before_lease_hook` is. -/
inductive BeforeLease where
  /-- In `_wait_for_lease_ready`. -/
  | polling
  | script
  /-- In the `sleep` before the release of a failed hook. -/
  | delay
  | release (r : Release)
  | done
  deriving DecidableEq

/-- Where `_handle_end_session` is. -/
inductive EndSession where
  | notStarted
  /-- Waiting for `end_session_requested` or `lease_ended`. -/
  | waiting
  /-- Waiting for `after_lease_hook_done`. -/
  | waitAfter
  | after (run : AfterRun)
  | done
  deriving DecidableEq

/-- `LeaseContext`, with its tasks. -/
structure LeaseContext where
  leaseName : String
  clientName : String := ""
  beforeLeaseHook : Bool := false
  endSessionRequested : Bool := false
  afterLeaseHookStarted : Bool := false
  afterLeaseHookDone : Bool := false
  leaseEnded : Bool := false
  /-- `is_ready()`. -/
  ready : Bool := false
  skipAfterLeaseHook : Bool := false
  /-- `process_connections` has routed a connection to the session. -/
  connected : Bool := false
  /-- An exception is about to leave `handle_lease`. -/
  raised : Bool := false
  /-- The process of the script outlived a cancelled `run_before_lease_hook`. -/
  orphan : Bool := false
  handle : HandleLease := .start
  before : BeforeLease := .done
  endSession : EndSession := .notStarted
  deriving DecidableEq

/-- `has_client()`. -/
def LeaseContext.hasClient (c : LeaseContext) : Bool := c.clientName ≠ ""

/-- What ends a suspension of `handle_lease`. -/
inductive HandleAct where
  /-- Its `sleep(0)`. -/
  | start
  | setUp (raised : Bool)
  /-- `conn_tg` ends: `lease_ended` is set, or the Listen stream gave up (`raised`). -/
  | connEnd (raised : Bool)
  /-- The wait for `before_lease_hook` ends, or its safety timeout (`timedOut`). -/
  | cleanup (timedOut : Bool) (spawn : Spawn)
  | after (a : AfterAct)
  /-- The wait for `after_lease_hook_done` ends. -/
  | afterDone
  | close
  | cancel

/-- What ends a suspension of `run_before_lease_hook`, or the end of a script that it abandoned. -/
inductive BeforeAct where
  /-- It polls whether the session is ready; `timeout`: for the last time. -/
  | poll (timeout : Bool) (spawn : Spawn)
  | exit (o : Outcome)
  /-- The `sleep` before the release ends. -/
  | wake
  | rpc (res : RpcResult)
  /-- A cancellation; the process of its script may outlive it (`alive`). -/
  | cancel (alive : Bool)
  | orphanExit

/-- What ends a suspension of `_handle_end_session`, or a step of the client. -/
inductive EndAct where
  /-- `end_session_requested` or `lease_ended` is set. -/
  | wake (spawn : Spawn)
  | after (a : AfterAct)
  /-- The wait for `after_lease_hook_done` ends. -/
  | afterDone
  | cancel
  /-- `process_connections` routes a connection of the client to the session. -/
  | connect
  /-- The client calls `EndSession`. -/
  | endSession

inductive TaskAct where
  | handle (a : HandleAct)
  | before (a : BeforeAct)
  | endSession (a : EndAct)

namespace LeaseContext

/-- `_skip_stale_lease` of a lease that has ended. -/
def skipStaleLease (v : View) (c : LeaseContext) : LeaseContext × Out :=
  ({ c with skipAfterLeaseHook := true, beforeLeaseHook := true, afterLeaseHookDone := true },
    { reports := if v.stopRequested then [] else [.available] })

/-- The `finally` of `handle_lease`. -/
def finish (c : LeaseContext) (o : Out) : LeaseContext × Out :=
  ({ c with beforeLeaseHook := true, afterLeaseHookDone := true, handle := .finished },
    { o with finished := true, raises := c.raised })

/-- `run_after_lease_hook` of `_cleanup_after_lease` goes on, or it returned. -/
def handleAfterRun (c : LeaseContext) : Option AfterRun → LeaseContext
  | some run => { c with handle := .after run }
  | none => { c with handle := .closing, afterLeaseHookDone := true }

/-- `run_after_lease_hook` of `_handle_end_session` goes on, or it returned. -/
def endAfterRun (c : LeaseContext) : Option AfterRun → LeaseContext
  | some run => { c with endSession := .after run }
  | none => { c with endSession := .done, afterLeaseHookDone := true }

/-- `_cleanup_after_lease` after its wait for `before_lease_hook`. -/
def cleanupAfterLease (cfg : Config) (v : View) (i : Nat) (spawn : Spawn) (c : LeaseContext) :
    LeaseContext × Out :=
  let c := { c with beforeLeaseHook := true }
  if c.afterLeaseHookStarted then ({ c with handle := .waitAfter }, {})
  else
    let c := { c with afterLeaseHookStarted := true }
    if cfg.hookExecutor.isSome && c.hasClient && !c.skipAfterLeaseHook then
      let (run, o) := runAfterLeaseHook cfg.afterLease i c.ready spawn
      (c.handleAfterRun (some run), o)
    else
      (c.handleAfterRun none, { reports := if v.stopRequested then [] else [.available] })

/-- `_handle_end_session` after its wait. -/
def handleEndSession (cfg : Config) (i : Nat) (spawn : Spawn) (c : LeaseContext) :
    LeaseContext × Out :=
  if c.leaseEnded && !c.endSessionRequested then ({ c with endSession := .done }, {})
  else if c.afterLeaseHookStarted then ({ c with endSession := .waitAfter }, {})
  else
    let c := { c with afterLeaseHookStarted := true }
    if cfg.hookExecutor.isSome && c.hasClient && !c.skipAfterLeaseHook then
      let (run, o) := runAfterLeaseHook cfg.afterLease i c.ready spawn
      (c.endAfterRun (some run), o)
    else (c.endAfterRun none, { reports := [.available] })

/-- `run_before_lease_hook` returns, its event set. -/
def beforeReturn (c : LeaseContext) : LeaseContext :=
  { c with beforeLeaseHook := true, before := .done }

/-- The hook of the configuration `h` ended. -/
def beforeHookEnded (h : Hook) (c : LeaseContext) : Outcome → LeaseContext × Out
  | .ok => (c.beforeReturn, { reports := if c.leaseEnded then [] else [.leaseReady] })
  | .failed =>
    match h.onFailure with
    | .warn => (c.beforeReturn, { reports := if c.leaseEnded then [] else [.leaseReady] })
    | .endLease =>
      ({ c with skipAfterLeaseHook := true, beforeLeaseHook := true, before := .delay },
        { reports := [.beforeLeaseHookFailed] })
    | .exit =>
      ({ c with skipAfterLeaseHook := true }.beforeReturn,
        { reports := [.beforeLeaseHookFailed, .offline], shutdown := true })
  | .unexpected => (c.beforeReturn, { reports := [.beforeLeaseHookFailed] })

/-- `run_before_lease_hook` with the session ready, up to its next suspension. -/
def runBeforeLeaseHook (before : Option Hook) (i : Nat) (spawn : Spawn) (c : LeaseContext) :
    LeaseContext × Out :=
  match before with
  | none => (c.beforeReturn, { reports := [.leaseReady] })
  | some h =>
    if c.leaseEnded then ({ c with skipAfterLeaseHook := true }.beforeReturn, {})
    else if h.hasScript then
      match spawn with
      | .started =>
        ({ c with before := .script },
          { reports := [.beforeLeaseHook], scripts := [.started ⟨i, .before⟩] })
      | .error unexpected =>
        let (c, o) := c.beforeHookEnded h (Spawn.outcome unexpected)
        (c, { o with reports := .beforeLeaseHook :: o.reports })
    else (c.beforeReturn, { reports := [.beforeLeaseHook, .leaseReady] })

/-- The steps of `handle_lease`. -/
def handleStep (cfg : Config) (v : View) (i : Nat) (c : LeaseContext) :
    HandleAct → Option (LeaseContext × Out)
  | .start =>
    match c.handle with
    | .start =>
      if c.leaseEnded then
        let (c, o) := c.skipStaleLease v
        some (c.finish o)
      else some ({ c with handle := .setup }, {})
    | _ => none
  | .setUp raised =>
    match c.handle with
    | .setup =>
      if raised then some ({ c with raised := true }.finish {})
      else
        let c := { c with ready := true }
        if c.leaseEnded then
          let (c, o) := c.skipStaleLease v
          some ({ c with handle := .closing }, o)
        else
          let c := { c with handle := .serving, endSession := .waiting }
          match cfg.hookExecutor with
          | some _ => some (c, {})
          | none => some ({ c with beforeLeaseHook := true }, { reports := [.leaseReady] })
    | _ => none
  | .connEnd raised =>
    match c.handle with
    | .serving =>
      if raised || c.leaseEnded then some ({ c with handle := .waitBefore, raised }, {}) else none
    | _ => none
  | .cleanup timedOut spawn =>
    match c.handle with
    | .waitBefore =>
      -- `run_before_lease_hook` polls every 0.1 s, so a timeout of at least 15 s finds it past that.
      if c.beforeLeaseHook || (timedOut && c.before == .script) then
        some (c.cleanupAfterLease cfg v i spawn)
      else none
    | _ => none
  | .after a =>
    match c.handle with
    | .after run => (run.next cfg.afterLease v i a).map fun (run', o) => (c.handleAfterRun run', o)
    | _ => none
  | .afterDone =>
    match c.handle with
    | .waitAfter => if c.afterLeaseHookDone then some ({ c with handle := .closing }, {}) else none
    | _ => none
  | .close =>
    match c.handle with
    | .closing => some (c.finish {})
    | _ => none
  | .cancel =>
    if v.cancelled then
      match c.handle with
      | .start | .setup => some (c.finish {})
      | .serving => some ({ c with handle := .waitBefore }, {})
      | _ => none
    else none

/-- The steps of `run_before_lease_hook`. -/
def beforeStep (cfg : Config) (v : View) (i : Nat) (c : LeaseContext) :
    BeforeAct → Option (LeaseContext × Out)
  | .poll timeout spawn =>
    match c.before with
    | .polling =>
      if c.ready then some (c.runBeforeLeaseHook cfg.beforeLease i spawn)
      else if c.leaseEnded then some ({ c with skipAfterLeaseHook := true }.beforeReturn, {})
      else if timeout then some (c.beforeReturn, { reports := [.beforeLeaseHookFailed] })
      else none
    | _ => none
  | .exit outcome =>
    match c.before, cfg.beforeLease with
    | .script, some h =>
      let (c, o) := c.beforeHookEnded h outcome
      some (c, { o with scripts := [.finished ⟨i, .before⟩] })
    | _, _ => none
  | .wake =>
    match c.before with
    | .delay =>
      match requestLeaseRelease v with
      | none => some ({ c with before := .done }, {})
      | some r => some ({ c with before := .release r }, { release := some r.lease })
    | _ => none
  | .rpc res =>
    match c.before with
    | .release r =>
      let (r', o) := r.next res
      some ({ c with before := (r'.map BeforeLease.release).getD .done }, o)
    | _ => none
  | .cancel alive =>
    if v.cancelled then
      match c.before with
      | .polling => some (c.beforeReturn, {})
      | .script =>
        if alive then some ({ c with orphan := true }.beforeReturn, {})
        else some (c.beforeReturn, { scripts := [.finished ⟨i, .before⟩] })
      | _ => none
    else none
  | .orphanExit =>
    if c.orphan then
      some ({ c with orphan := false }, { scripts := [.finished ⟨i, .before⟩] })
    else none

/-- The steps of `_handle_end_session` and of the client. -/
def endStep (cfg : Config) (v : View) (i : Nat) (c : LeaseContext) :
    EndAct → Option (LeaseContext × Out)
  | .wake spawn =>
    match c.endSession with
    | .waiting =>
      if c.endSessionRequested || c.leaseEnded then some (c.handleEndSession cfg i spawn) else none
    | _ => none
  | .after a =>
    match c.endSession with
    | .after run => (run.next cfg.afterLease v i a).map fun (run', o) => (c.endAfterRun run', o)
    | _ => none
  | .afterDone =>
    match c.endSession with
    | .waitAfter => if c.afterLeaseHookDone then some ({ c with endSession := .done }, {}) else none
    | _ => none
  | .connect =>
    if c.handle = .serving ∧ c.beforeLeaseHook = true then some ({ c with connected := true }, {})
    else none
  | .endSession =>
    if c.connected = true ∧ c.handle ≠ .finished then some ({ c with endSessionRequested := true }, {})
    else none
  | .cancel =>
    if v.cancelled then
      match c.endSession with
      | .waiting => some ({ c with endSession := .done }, {})
      | .waitAfter => some (c.endAfterRun none, {})
      | _ => none
    else none

/-- A step of a task of lease number `i`. -/
def step (cfg : Config) (v : View) (i : Nat) (c : LeaseContext) :
    TaskAct → Option (LeaseContext × Out)
  | .handle a => c.handleStep cfg v i a
  | .before a => c.beforeStep cfg v i a
  | .endSession a => c.endStep cfg v i a

end LeaseContext

end Jumpstarter.Runtime
