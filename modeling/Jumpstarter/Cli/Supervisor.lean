import Jumpstarter.Lib.Sys
import Mathlib.Logic.Function.Basic
import Mathlib.Tactic.Spread

/-!
# The supervisor of `jmp run`

`_serve_with_exc_handling` forks a child that runs the exporter, waits for it, and forks the next one
when it exits with code 0 (`jumpstarter_cli/run.py`).

- The supervisor (`Phase`): after each fork `_handle_parent` installs its signal handlers one after
  another, as closures over the new pid; until then those of the last child stay. A handler forwards
  the signal to the process group of its pid, and ignores that there is none.
- The child (`Child`) has the supervisor's handlers of the time of the fork until its signal receiver is
  open. The receiver queues the signals; its task hands each to `exporter.stop`, if there is an exporter.
- As process 1 the supervisor reaps the child in its `SIGCHLD` handler.

`stopsKept_of_heard`: no child is forked once a stop signal was handled, and the exporter of the child
alive then is stopped, in the runs of `heard`. `stopsKept_fails`: the supervisor handles `SIGTERM` before
the child has called `setsid`.
-/

namespace Jumpstarter.Supervisor

open Lib List

/-! ## The child -/

/-- The signals that the supervisor handles. -/
inductive Signal where
  | int | term | hup | quit | chld
  deriving DecidableEq

def Signal.number : Signal → Nat
  | .hup => 1
  | .int => 2
  | .quit => 3
  | .term => 15
  | .chld => 17

/-- `SIGINT`, `SIGTERM` and `SIGQUIT`. -/
def Signal.isStop : Signal → Bool
  | .int | .term | .quit => true
  | .hup | .chld => false

inductive Status where
  | exited (code : Nat)
  | signaled (number : Nat)
  deriving DecidableEq

inductive Place where
  /-- Before `os.setsid`. -/
  | forked
  | starting
  /-- In `exporter.serve`. -/
  | serving
  /-- `serve` has returned; `exporter_exit_code` is read. -/
  | served (exitCode : Option Nat)
  | closing (exitCode : Option Nat)
  | ended (status : Status)
  deriving DecidableEq

structure Child where
  place : Place := .forked
  inherited : Signal → Option Nat := fun _ => none
  receiver : Bool := false
  queue : List Signal := []
  /-- `received_signal`. -/
  received : Option Signal := none
  signalHandled : Bool := false
  /-- `os.waitpid` has returned its status. -/
  reaped : Bool := false
  /-- A ghost: `exporter.stop` was called for a signal other than `SIGHUP`. -/
  stopped : Bool := false
  /-- A ghost: the exporter has served. -/
  hasServed : Bool := false
  /-- A ghost: the supervisor handled a stop signal while the child was alive. -/
  owed : Bool := false

inductive ChildStep where
  | setsid
  | openReceiver
  | serve
  | serveEnds (exitCode : Option Nat)
  | cancel
  | exit
  | handleSignal
  | die (status : Status)

def Place.isEnded : Place → Bool
  | .ended _ => true
  | _ => false

/-- `exporter` is set. -/
def Place.hasExporter : Place → Bool
  | .serving | .served _ => true
  | _ => false

/-- The child calls `sys.exit` with this code. -/
def Child.exitCode (c : Child) (exporterExitCode : Option Nat) : Nat :=
  match c.received with
  | some sig => 128 + sig.number
  | none => exporterExitCode.getD 0

/-- The status of a child that does not call `sys.exit`. -/
def Status.isFailure : Status → Bool
  | .exited code => code ≠ 0
  | .signaled _ => true

/-- `signal_handler` with the next signal. -/
def Child.handleSignal (c : Child) (sig : Signal) (rest : List Signal) : Child :=
  if c.signalHandled then { c with queue := rest }
  else if c.place.hasExporter then
    { c with
      queue := rest, received := some sig
      signalHandled := sig ≠ .hup, stopped := c.stopped || sig ≠ .hup }
  else { c with queue := rest, received := some sig }

def Child.step (c : Child) : ChildStep → Option Child
  | .setsid => match c.place with
    | .forked => some { c with place := .starting }
    | _ => none
  | .openReceiver => match c.place, c.receiver with
    | .starting, false | .serving, false | .served _, false => some { c with receiver := true }
    | _, _ => none
  | .serve => match c.place with
    | .starting => some { c with place := .serving, hasServed := true }
    | _ => none
  | .serveEnds exitCode => match c.place with
    | .serving => some { c with place := .served exitCode }
    | _ => none
  | .cancel => match c.place, c.receiver with
    | .served exitCode, true =>
      some { c with place := .closing exitCode, receiver := false, queue := [] }
    | _, _ => none
  | .exit => match c.place with
    | .closing exitCode => some { c with place := .ended (.exited (c.exitCode exitCode % 256)) }
    | _ => none
  | .handleSignal => match c.receiver, c.queue with
    | true, sig :: rest => some (c.handleSignal sig rest)
    | _, _ => none
  | .die status =>
    if c.place.isEnded || !status.isFailure then none
    else some { c with place := .ended status, receiver := false, queue := [] }

/-- A signal to the process group of the child. -/
def Child.deliver (c : Child) (sig : Signal) : Child :=
  match c.place with
  -- there is no such process group
  | .forked => c
  | .ended _ => c
  | .closing _ => { c with place := .ended (.signaled sig.number) }
  | .starting | .serving | .served _ =>
    if c.receiver then { c with queue := c.queue ++ [sig] }
    -- the handler of the supervisor forwards it to a process group of the past
    else if (c.inherited sig).isSome then c
    else { c with place := .ended (.signaled sig.number) }

/-! ## The supervisor -/

inductive Phase where
  /-- Before `os.fork`. -/
  | top
  /-- In `_handle_parent`, with the handlers still to install. -/
  | installing (signals : List Signal)
  /-- In `_wait_for_child`. -/
  | waiting
  | waited (status : Option Status)
  /-- `_handle_parent` returned `None`. -/
  | restarting
  | returned (code : Nat)
  deriving DecidableEq

structure Config where
  /-- `os.getpid() == 1`. -/
  isInit : Bool
  exitOnLeaseEnd : Bool
  maxRapidFailures : Nat

structure St where
  phase : Phase := .top
  handlers : Signal → Option Nat := fun _ => none
  /-- `child_info['status']`. -/
  childInfo : Option Status := none
  forks : Nat := 0
  child : Child := { place := .ended (.exited 0), reaped := true }
  past : List Child := []
  rapidFailureCount : Nat := 0
  /-- A ghost: a stop signal was handled. -/
  stopHandled : Bool := false
  /-- A ghost: a child was forked after that. -/
  forkedAfterStop : Bool := false

inductive Act where
  | fork
  | install
  | handle (sig : Signal)
  | wait
  | decide
  /-- The restart decision; `quick` says whether the child ended within the rapid failure window. -/
  | restart (quick : Bool)
  | child (a : ChildStep)

/-- The order of `signal.signal` in `_handle_parent`. -/
def installOrder : List Signal := [.int, .term, .hup, .quit, .chld]

/-- `_handle_parent` after `_wait_for_child`: the exit code, or `none` to restart. -/
def exitCodeOf : Option Status → Option Nat
  | none => none
  | some (.exited code) => if code = 0 then none else some code
  | some (.signaled n) => some (128 + n)

/-- `_reap_zombie_processes` in the handler of `pid`. -/
def St.reapZombies (s : St) (pid : Nat) : St :=
  match s.child.place with
  | .ended status =>
    if s.child.reaped then s
    else { s with
      child := { s.child with reaped := true }
      childInfo := if pid = s.forks then some status else s.childInfo }
  | _ => s

/-- `parent_signal_handler` of `pid` with a signal other than `SIGCHLD`. -/
def St.forward (s : St) (sig : Signal) (pid : Nat) : St :=
  let c := if pid = s.forks && !s.child.reaped then s.child.deliver sig else s.child
  { s with
    child := { c with owed := c.owed || sig.isStop && !s.child.place.isEnded }
    stopHandled := s.stopHandled || sig.isStop }

def step (cfg : Config) (s : St) : Act → Option St
  | .fork => match s.phase with
    | .top => some { s with
        phase := .installing installOrder, forks := s.forks + 1, childInfo := none
        past := s.past ++ [s.child], child := { inherited := s.handlers }
        forkedAfterStop := s.forkedAfterStop || s.stopHandled }
    | _ => none
  | .install => match s.phase with
    | .installing (sig :: signals) => some { s with
        phase := .installing signals, handlers := Function.update s.handlers sig (some s.forks) }
    | .installing [] => some { s with phase := .waiting }
    | _ => none
  | .handle sig => match s.handlers sig with
    | none => none
    | some pid =>
      if sig = .chld then some (if cfg.isInit then s.reapZombies pid else s)
      else some (s.forward sig pid)
  | .wait => match s.phase, s.child.place with
    | .waiting, .ended status =>
      -- `ChildProcessError`: the handler has reaped the child
      if s.child.reaped then some { s with phase := .waited s.childInfo }
      else some { s with phase := .waited (some status), child := { s.child with reaped := true } }
    | _, _ => none
  | .decide => match s.phase with
    | .waited status => match exitCodeOf status with
      | some code => some { s with phase := .returned code }
      | none => some { s with phase := .restarting }
    | _ => none
  | .restart quick => match s.phase with
    | .restarting =>
      if cfg.exitOnLeaseEnd then some { s with phase := .returned 0 }
      else if quick then
        if s.rapidFailureCount + 1 ≥ cfg.maxRapidFailures then
          some { s with phase := .returned 1, rapidFailureCount := s.rapidFailureCount + 1 }
        else some { s with phase := .top, rapidFailureCount := s.rapidFailureCount + 1 }
      else some { s with phase := .top, rapidFailureCount := 0 }
    | _ => none
  | .child a => (s.child.step a).map fun child => { s with child }

def sys (cfg : Config) : Sys St Act := ⟨fun s => s = {}, step cfg⟩

/-! ## The property -/

/-- A stop signal is in the queue of the receiver, and the exporter exists: the receiver's task will
call `exporter.stop`. -/
@[simp] def Child.pending (c : Child) : Bool :=
  c.receiver && c.place.hasExporter && c.queue.any Signal.isStop

/-- **Stop signals are not lost**: no child is forked after one was handled, and the exporter of a child
that was alive then is stopped, or will be, or has not served. -/
def StopsKept (s : St) : Prop :=
  s.forkedAfterStop = false ∧ ∀ c ∈ s.past ++ [s.child],
    c.owed = true → c.stopped = true ∨ c.pending = true ∨ c.hasServed = false

/-- The child does not end with a signal in its queue. -/
def Child.heard (c : Child) : ChildStep → Bool
  | .cancel | .die _ => c.queue.isEmpty
  | _ => true

/-- The supervisor handles a stop signal while it waits for a child whose receiver is open and whose
exporter exists, and no child ends with a signal in its queue. -/
def heard (s : St) : Act → Bool
  | .handle sig => !sig.isStop || (s.phase = .waiting && s.child.receiver && s.child.place.hasExporter)
  | .child a => s.child.heard a
  | _ => true

/-! ## The invariant of the child -/

variable {cfg : Config} {s s' : St} {c c' : Child} {a : ChildStep} {sig : Signal} {stop : Bool}

/-- The child will not end with code 0: it received a signal, or a stop signal is in its queue. -/
def Child.answers (c : Child) : Bool :=
  match c.place with
  | .ended status => status.isFailure
  | _ => c.received.isSome || c.queue.any Signal.isStop

def Place.listens : Place → Bool
  | .starting | .serving | .served _ => true
  | _ => false

/-- What the child keeps; `stop` says whether a stop signal was handled. -/
structure Child.Ok (stop : Bool) (c : Child) : Prop where
  unreaped : c.place.isEnded = false → c.reaped = false
  shut : c.receiver = false → c.queue = []
  closed : c.receiver = true → c.place.listens = true
  handled : c.signalHandled = true → c.stopped = true ∧ c.received.isSome = true
  owed : c.owed = true → c.stopped = true ∨ c.pending = true
  answers : stop = true → c.answers = true

open Child

theorem Child.answers_eq (h : c.place.isEnded = false) :
    c.answers = (c.received.isSome || c.queue.any Signal.isStop) := by
  unfold answers
  split
  · rename_i he
    rw [he] at h
    cases h
  · rfl

theorem Child.answers_of_received (h : c.place.isEnded = false) (hr : c.received.isSome = true) :
    c.answers = true := by
  rw [answers_eq h, hr]
  rfl

theorem Child.answers_of_queue (h : c.place.isEnded = false) (hq : c.queue.any Signal.isStop = true) :
    c.answers = true := by
  rw [answers_eq h, hq, Bool.or_true]

theorem Place.not_isEnded {x : Place} (h : x.listens = true) : x.isEnded = false := by
  cases x <;> simp_all [Place.listens, Place.isEnded]

theorem Signal.ne_hup (h : sig.isStop = true) : sig ≠ .hup := by
  rintro rfl
  cases h

theorem Child.pending_of_empty (h : c.queue = []) : c.pending = false := by simp [h]

theorem Child.pending_of_shut (h : c.receiver = false) : c.pending = false := by
  simp [h]

theorem Child.Ok.stopped_of_owed (h : c.Ok stop) (hp : c.pending = false) (ho : c.owed = true) :
    c.stopped = true := by
  rcases h.owed ho with hs | hpend
  · exact hs
  · rw [hp] at hpend
    cases hpend

theorem Child.Ok.received_of_stop (h : c.Ok stop) (ha : c.place.isEnded = false) (hq : c.queue = [])
    (hs : stop = true) : c.received.isSome = true := by
  have h := h.answers hs
  rw [answers_eq ha, hq, any_nil, Bool.or_false] at h
  exact h

variable {status : Status}

theorem Child.Ok.die (h : c.Ok stop) (hq : c.queue = []) (hs : status.isFailure = true) :
    Child.Ok stop { c with place := .ended status, receiver := false, queue := [] } where
  unreaped he := by cases he
  shut _ := rfl
  closed hr := by cases hr
  handled := h.handled
  owed ho := .inl (h.stopped_of_owed (pending_of_empty hq) ho)
  answers _ := hs

/-- **The receiver's task takes the next signal.** -/
theorem Child.Ok.handleSignal {rest : List Signal} (h : c.Ok stop) (hr : c.receiver = true)
    (hq : c.queue = sig :: rest) : (c.handleSignal sig rest).Ok stop := by
  have hlisten := h.closed hr
  have halive := Place.not_isEnded hlisten
  unfold Child.handleSignal
  split
  · rename_i hh
    obtain ⟨hstopped, hsome⟩ := h.handled hh
    exact {
      unreaped := h.unreaped
      shut := fun hf => by rw [hr] at hf; cases hf
      closed := fun _ => hlisten
      handled := h.handled
      owed := fun _ => .inl hstopped
      answers := fun _ => answers_of_received halive hsome }
  · rename_i hh
    split
    · rename_i he
      exact {
        unreaped := h.unreaped
        shut := fun hf => by rw [hr] at hf; cases hf
        closed := fun _ => hlisten
        handled := fun hs => ⟨by simp [of_decide_eq_true hs], rfl⟩
        owed := fun ho => by
          rcases h.owed ho with hs | hp
          · exact .inl (by simp [hs])
          · simp only [pending, hq, any_cons, Bool.and_eq_true, Bool.or_eq_true] at hp
            rcases hp.2 with hs | hrest
            · exact .inl (by simp [Signal.ne_hup hs])
            · exact .inr (by simp only [pending, hr, he, hrest]; rfl)
        answers := fun _ => answers_of_received halive rfl }
    · rename_i he
      exact {
        unreaped := h.unreaped
        shut := fun hf => by rw [hr] at hf; cases hf
        closed := fun _ => hlisten
        handled := fun hs => absurd hs hh
        owed := fun ho => .inl (h.stopped_of_owed (by simp [he]) ho)
        answers := fun _ => answers_of_received halive rfl }

theorem Child.Ok.setPlace (h : c.Ok stop) {x : Place} {b r : Bool} (ha : c.place.isEnded = false)
    (hx : x.isEnded = false) (hl : r = true → x.listens = true) (hr : c.receiver = true → r = true)
    (hshut : r = false → c.queue = [])
    (hp : c.place.hasExporter = true → x.hasExporter = true) :
    Child.Ok stop { c with place := x, receiver := r, hasServed := b } where
  unreaped _ := h.unreaped ha
  shut := hshut
  closed := hl
  handled := h.handled
  owed ho := by
    rcases h.owed ho with hs | hpend
    · exact .inl hs
    · simp only [pending, Bool.and_eq_true] at hpend ⊢
      exact .inr ⟨⟨hr hpend.1.1, hp hpend.1.2⟩, hpend.2⟩
  answers hs := by
    have h' := h.answers hs
    rw [answers_eq ha] at h'
    rw [answers_eq hx]
    exact h'

theorem Child.exitCode_ne_zero (h : c.received.isSome = true) (e : Option Nat) : c.exitCode e % 256 ≠ 0 := by
  obtain ⟨sig, hs⟩ := Option.isSome_iff_exists.mp h
  rw [exitCode, hs]
  cases sig <;> simp [Signal.number]

section

variable (h : c.Ok stop)
include h

theorem Child.Ok.cancel {e : Option Nat} (ha : c.place.isEnded = false) (hq : c.queue = []) :
    Child.Ok stop { c with place := .closing e, receiver := false, queue := [] } where
  unreaped _ := h.unreaped ha
  shut _ := rfl
  closed hf := by cases hf
  handled := h.handled
  owed ho := .inl (h.stopped_of_owed (pending_of_empty hq) ho)
  answers hs := answers_of_received rfl (h.received_of_stop ha hq hs)

theorem Child.Ok.exit {e : Option Nat} (ha : c.place.isEnded = false) (hr : c.receiver = false) :
    Child.Ok stop { c with place := .ended (.exited (c.exitCode e % 256)) } where
  __ := h
  unreaped he := by cases he
  closed hf := by rw [hr] at hf; cases hf
  owed ho := .inl (h.stopped_of_owed (pending_of_shut hr) ho)
  answers hs := decide_eq_true (exitCode_ne_zero (h.received_of_stop ha (h.shut hr) hs) e)

/-- **One step of the child** that does not end with a signal in its queue. -/
theorem Child.Ok.step (hok : c.heard a = true) (hst : c.step a = some c') : c'.Ok stop := by
  cases a <;> simp only [step] at hst
  case setsid =>
    split at hst <;> cases hst
    rename_i hp
    refine h.setPlace (by rw [hp]; rfl) rfl (fun _ => rfl) id h.shut ?_
    rw [hp]
    exact fun he => by cases he
  case openReceiver =>
    split at hst <;> cases hst <;> rename_i hp hr <;>
      exact h.setPlace (by rw [hp]; rfl) (by rw [hp]; rfl) (fun _ => by rw [hp]; rfl) (fun _ => rfl)
        (fun hf => by cases hf) id
  case serve =>
    split at hst <;> cases hst
    rename_i hp
    exact h.setPlace (by rw [hp]; rfl) rfl (fun _ => rfl) id h.shut (fun _ => rfl)
  case serveEnds e =>
    split at hst <;> cases hst
    rename_i hp
    exact h.setPlace (by rw [hp]; rfl) rfl (fun _ => rfl) id h.shut (fun _ => rfl)
  case cancel =>
    split at hst <;> cases hst
    rename_i hp hr
    exact h.cancel (by rw [hp]; rfl) (List.isEmpty_iff.mp hok)
  case exit =>
    split at hst <;> cases hst
    rename_i e hp
    refine h.exit (by rw [hp]; rfl) (Bool.eq_false_iff.mpr fun hr => ?_)
    have hl := h.closed hr
    rw [hp] at hl
    cases hl
  case handleSignal =>
    split at hst <;> cases hst
    rename_i hr hq
    exact h.handleSignal hr hq
  case die status =>
    split at hst <;> cases hst
    rename_i hcond
    simp only [Bool.or_eq_true, Bool.not_eq_true', not_or, Bool.not_eq_false] at hcond
    exact h.die (List.isEmpty_iff.mp hok) hcond.2

/-- **A stop signal** comes to the open receiver. -/
theorem Child.Ok.deliverStop (hs : sig.isStop = true) (hr : c.receiver = true)
    (he : c.place.hasExporter = true) {owed : Bool} :
    Child.Ok true { c.deliver sig with owed } := by
  have hlisten := h.closed hr
  have hd : c.deliver sig = { c with queue := c.queue ++ [sig] } := by
    unfold deliver
    rw [hr]
    revert he
    cases c.place <;> simp [Place.hasExporter]
  rw [hd]
  exact { h with
    shut := fun hf => by rw [hr] at hf; cases hf
    owed := fun _ => .inr (by simp [hr, he, hs])
    answers := fun _ => answers_of_queue (Place.not_isEnded hlisten) (by simp [hs]) }

theorem Child.Ok.kill (hr : c.receiver = false) :
    Child.Ok stop { c with place := .ended (.signaled sig.number) } where
  __ := h
  unreaped he := by cases he
  closed hf := by rw [hr] at hf; cases hf
  owed ho := .inl (h.stopped_of_owed (pending_of_shut hr) ho)
  answers _ := rfl

theorem Child.Ok.enqueue (hr : c.receiver = true) : Child.Ok stop { c with queue := c.queue ++ [sig] } where
  __ := h
  shut hf := by rw [hr] at hf; cases hf
  owed ho := by
    rcases h.owed ho with hs | hp
    · exact .inl hs
    · simp only [pending, Bool.and_eq_true] at hp
      exact .inr (by simp [hp.1.1, hp.1.2, hp.2])
  answers hs := by
    have ha := h.answers hs
    have halive := Place.not_isEnded (h.closed hr)
    rw [answers_eq halive] at ha
    rcases Bool.or_eq_true _ _ ▸ ha with ha | ha
    · exact answers_of_received halive ha
    · exact answers_of_queue halive (by simp [ha])

/-- **A signal comes to the process group of the child.** -/
theorem Child.Ok.deliver : (c.deliver sig).Ok stop := by
  have hshut : c.place.listens = false → c.receiver = false := by
    intro hl
    rw [Bool.eq_false_iff]
    intro hr
    rw [h.closed hr] at hl
    cases hl
  unfold Child.deliver
  split
  · exact h
  · exact h
  · rename_i hp
    exact h.kill (hshut (by rw [hp]; rfl))
  all_goals
    split
    · exact h.enqueue ‹_›
    · split
      · exact h
      · exact h.kill (Bool.eq_false_iff.mpr ‹_›)

end

/-! ## The invariant of the supervisor -/

/-- Where the supervisor is after it has handled a stop signal. -/
@[simp] def St.stopping (s : St) : Prop :=
  match s.phase with
  | .waiting => s.child.reaped = true → (exitCodeOf s.childInfo).isSome = true
  | .waited status => (exitCodeOf status).isSome = true
  | .returned _ => True
  | .top | .installing _ | .restarting => False

/-- The handlers of the current child are installed, but for those of `signals`. -/
def St.Installed (s : St) (signals : List Signal) : Prop :=
  ∀ sig, sig ∈ signals ∨ s.handlers sig = some s.forks

structure Inv (s : St) : Prop where
  child : s.child.Ok s.stopHandled
  stopping : s.stopHandled = true → s.stopping
  owed : s.child.owed = true → s.stopHandled = true
  past : ∀ c ∈ s.past, c.owed = false
  kept : s.forkedAfterStop = false
  installed : ∀ signals, s.phase = .installing signals → s.Installed signals
  waiting : s.phase = .waiting → s.Installed []

theorem exitCodeOf_isSome (h : status.isFailure = true) : (exitCodeOf (some status)).isSome = true := by
  cases status with
  | exited code =>
    have hc : code ≠ 0 := of_decide_eq_true h
    simp [exitCodeOf, hc]
  | signaled n => rfl

theorem Inv.init : Inv {} where
  child := {
    unreaped := fun h => by cases h
    shut := fun _ => rfl
    closed := fun h => by cases h
    handled := fun h => by cases h
    owed := fun h => by cases h
    answers := fun h => by cases h }
  stopping h := by cases h
  owed h := by cases h
  past _ h := by cases h
  kept := rfl
  installed _ h := by cases h
  waiting h := by cases h

theorem Child.step_frame (hst : c.step a = some c') : c'.reaped = c.reaped ∧ c'.owed = c.owed := by
  cases a with
  | handleSignal =>
    simp only [step] at hst
    split at hst <;> cases hst
    unfold handleSignal
    split
    · exact ⟨rfl, rfl⟩
    · split <;> exact ⟨rfl, rfl⟩
  | setsid | openReceiver | serve | serveEnds | cancel | exit | die =>
    simp only [step] at hst
    split at hst <;> cases hst <;> exact ⟨rfl, rfl⟩

theorem Child.deliver_frame : (c.deliver sig).reaped = c.reaped ∧ (c.deliver sig).owed = c.owed := by
  unfold deliver
  split
  · exact ⟨rfl, rfl⟩
  · exact ⟨rfl, rfl⟩
  · exact ⟨rfl, rfl⟩
  all_goals
    split
    · exact ⟨rfl, rfl⟩
    · split <;> exact ⟨rfl, rfl⟩

theorem Child.Ok.reap (h : c.Ok stop) (he : c.place.isEnded = true) :
    Child.Ok stop { c with reaped := true } where
  __ := h
  unreaped hf := by rw [show c.place.isEnded = false from hf] at he; cases he

section

variable (hi : Inv s)
include hi

theorem Inv.notStopped (h : ¬ s.stopping) : ¬ s.stopHandled = true :=
  fun hs => h (hi.stopping hs)

theorem Inv.fork (hp : s.phase = .top) : Inv { s with
    phase := .installing installOrder, forks := s.forks + 1, childInfo := none
    past := s.past ++ [s.child], child := { inherited := s.handlers }
    forkedAfterStop := s.forkedAfterStop || s.stopHandled } := by
  have hstop := hi.notStopped (by simp [hp])
  constructor
  case child =>
    exact {
      unreaped := fun _ => rfl
      shut := fun _ => rfl
      closed := fun h => by cases h
      handled := fun h => by cases h
      owed := fun h => by cases h
      answers := fun h => absurd h hstop }
  case stopping => exact fun h => absurd h hstop
  case owed => exact fun h => by cases h
  case past =>
    intro c hc
    rcases mem_append.mp hc with hc | hc
    · exact hi.past c hc
    · rw [mem_singleton.mp hc]
      exact Bool.eq_false_iff.mpr fun ho => hstop (hi.owed ho)
  case kept => simp [hi.kept, hstop]
  case installed =>
    rintro signals ⟨⟩
    exact fun sig => .inl (by cases sig <;> decide)
  case waiting => exact fun h => by cases h

theorem Inv.setPhase {x : Phase} {n : Nat}
    (hs : s.stopHandled = true → St.stopping { s with phase := x })
    (hx : ∀ signals, x ≠ .installing signals) (hw : x ≠ .waiting) :
    Inv { s with phase := x, rapidFailureCount := n } where
  __ := hi
  stopping := hs
  installed signals h := absurd h (hx signals)
  waiting h := absurd h hw

theorem Inv.installNext {sig : Signal} {signals : List Signal}
    (hp : s.phase = .installing (sig :: signals)) : Inv { s with
      phase := .installing signals, handlers := Function.update s.handlers sig (some s.forks) } := by
  have hstop := hi.notStopped (by simp [hp])
  refine ⟨hi.child, ?_, hi.owed, hi.past, hi.kept, ?_, fun h => by cases h⟩
  · exact fun h => absurd h hstop
  · rintro _ ⟨⟩ x
    by_cases hx : x = sig
    · subst hx
      exact .inr (Function.update_self ..)
    · rcases hi.installed _ hp x with hmem | hh
      · rcases mem_cons.mp hmem with rfl | hmem
        · exact absurd rfl hx
        · exact .inl hmem
      · exact .inr ((Function.update_of_ne hx ..).trans hh)

theorem Inv.installLast (hp : s.phase = .installing []) : Inv { s with phase := .waiting } := by
  have hstop := hi.notStopped (by simp [hp])
  refine ⟨hi.child, ?_, hi.owed, hi.past, hi.kept, fun _ h => (by cases h), fun _ => ?_⟩
  · exact fun h => absurd h hstop
  · exact hi.installed [] hp

theorem Inv.setChild (hc : c.Ok s.stopHandled) (hr : c.reaped = s.child.reaped)
    (ho : c.owed = s.child.owed) : Inv { s with child := c } := by
  refine ⟨hc, fun hs => ?_, fun h => hi.owed (ho ▸ h), hi.past, hi.kept, hi.installed, hi.waiting⟩
  have h := hi.stopping hs
  unfold St.stopping at h ⊢
  rw [hr]
  exact h

end

variable {pid : Nat}

/-- **The `SIGCHLD` handler reaps the child.** Once a stop signal was handled, it is the handler of
this child, and keeps its status. -/
theorem Inv.reapZombies (hi : Inv s) (hh : s.handlers .chld = some pid) : Inv (s.reapZombies pid) := by
  unfold St.reapZombies
  split
  · rename_i status hp
    split
    · exact hi
    · refine { hi with child := hi.child.reap (by rw [hp]; rfl), stopping := fun hs => ?_ }
      have h := hi.stopping hs
      have hfail : status.isFailure = true := by
        have ha := hi.child.answers hs
        rwa [answers, hp] at ha
      unfold St.stopping at h ⊢
      split
      · rename_i hw
        have hpid : pid = s.forks := by
          rcases hi.waiting hw .chld with hmem | hf
          · cases hmem
          · exact Option.some.inj (hh.symm.trans hf)
        intro _
        rw [if_pos hpid]
        exact exitCodeOf_isSome hfail
      all_goals
        rename_i hw
        rw [show s.phase = _ from hw] at h
        exact h
  · exact hi

theorem stopping_of_unreaped (hw : s.phase = .waiting) (hr : s.child.reaped = false) : s.stopping := by
  unfold St.stopping
  rw [hw]
  intro h
  rw [hr] at h
  cases h

/-- **A stop signal is handled**: it comes to the open receiver of the child. -/
theorem Inv.forwardStop (hi : Inv s) (hh : s.handlers sig = some pid) (hs : sig.isStop = true)
    (hw : s.phase = .waiting) (hr : s.child.receiver = true) (he : s.child.place.hasExporter = true) :
    Inv (s.forward sig pid) := by
  have hpid : pid = s.forks := by
    rcases hi.waiting hw sig with hmem | hf
    · cases hmem
    · exact Option.some.inj (hh.symm.trans hf)
  have hreaped : s.child.reaped = false :=
    hi.child.unreaped (Place.not_isEnded (hi.child.closed hr))
  unfold St.forward
  rw [hs, Bool.or_true]
  simp only [hpid, hreaped, decide_true, Bool.not_false, Bool.and_true, if_true]
  refine ⟨hi.child.deliverStop hs hr he, fun _ => ?_, fun _ => rfl, hi.past, hi.kept, hi.installed, hi.waiting⟩
  exact stopping_of_unreaped hw (deliver_frame.1.trans hreaped)

theorem Inv.forward (hi : Inv s) (hs : sig.isStop = false) : Inv (s.forward sig pid) := by
  unfold St.forward
  rw [hs]
  simp only [Bool.or_false, Bool.false_and]
  split
  · exact hi.setChild hi.child.deliver deliver_frame.1 deliver_frame.2
  · exact hi

theorem Inv.wait (hi : Inv s) (hp : s.child.place = .ended status) :
    Inv { s with phase := .waited (some status), child := { s.child with reaped := true } } := by
  refine ⟨hi.child.reap (by rw [hp]; rfl), fun hs => ?_, hi.owed, hi.past, hi.kept,
    fun _ h => (by cases h), fun h => by cases h⟩
  have ha := hi.child.answers hs
  rw [answers, hp] at ha
  exact exitCodeOf_isSome ha

theorem inductive_inv : (sys cfg).InductiveIf (fun s a => heard s a = true) Inv where
  init := by
    rintro s rfl
    exact Inv.init
  step := by
    intro s a s' hi hok hst
    change step cfg s a = some s' at hst
    cases a <;> simp only [step] at hst
    case fork =>
      split at hst <;> cases hst
      exact hi.fork ‹_›
    case install =>
      split at hst <;> cases hst
      · exact hi.installNext ‹_›
      · exact hi.installLast ‹_›
    case handle sig =>
      split at hst
      · cases hst
      · rename_i pid hh
        split at hst
        · rename_i hc
          subst hc
          split at hst <;> cases hst
          · exact hi.reapZombies hh
          · exact hi
        · cases hst
          cases hs : sig.isStop with
          | false => exact hi.forward hs
          | true =>
            simp only [heard, hs, Bool.not_true, Bool.false_or, Bool.and_eq_true, decide_eq_true_eq] at hok
            exact hi.forwardStop hh hs hok.1.1 hok.1.2 hok.2
    case wait =>
      split at hst
      · rename_i status hw hp
        split at hst <;> cases hst
        · rename_i hr
          refine hi.setPhase (fun hs => ?_) (by simp) (by simp)
          have h := hi.stopping hs
          rw [St.stopping, hw] at h
          exact h hr
        · exact hi.wait hp
      · cases hst
    case decide =>
      split at hst
      · rename_i status hw
        split at hst <;> cases hst
        · exact hi.setPhase (fun _ => trivial) (by simp) (by simp)
        · rename_i hc
          refine hi.setPhase (fun hs => ?_) (by simp) (by simp)
          have h := hi.stopping hs
          simp [hw, hc] at h
      · cases hst
    case restart quick =>
      split at hst
      · rename_i hw
        have hstop := hi.notStopped (by simp [hw])
        split at hst
        · cases hst
          exact hi.setPhase (fun h => absurd h hstop) (by simp) (by simp)
        · split at hst
          · split at hst <;> cases hst <;>
              exact hi.setPhase (fun h => absurd h hstop) (by simp) (by simp)
          · cases hst
            exact hi.setPhase (fun h => absurd h hstop) (by simp) (by simp)
      · cases hst
    case child a =>
      obtain ⟨c, hc, rfl⟩ := Option.map_eq_some_iff.mp hst
      obtain ⟨hr, ho⟩ := step_frame hc
      exact hi.setChild (hi.child.step hok hc) hr ho

/-- **Stop signals are not lost** in runs in which they are heard. -/
theorem stopsKept_of_heard (h : (sys cfg).ReachIf (fun s a => heard s a = true) s) : StopsKept s := by
  have hi := inductive_inv.reach h
  refine ⟨hi.kept, fun c hc ho => ?_⟩
  rcases mem_append.mp hc with hc | hc
  · rw [hi.past c hc] at ho
    cases ho
  · rw [mem_singleton.mp hc] at ho ⊢
    rcases hi.child.owed ho with hs | hp
    · exact .inl hs
    · exact .inr (.inl hp)

/-- A supervisor under another init process. -/
def service : Config := { isInit := false, exitOnLeaseEnd := false, maxRapidFailures := 3 }

def startSupervisor : List Act := .fork :: List.replicate 6 .install

/-- The child serves; `SIGTERM` stops its exporter, and the supervisor returns. -/
def terminateRun : List Act := startSupervisor ++ [.child .setsid, .child .openReceiver, .child .serve,
  .handle .term, .child .handleSignal, .child (.serveEnds none), .child .cancel, .child .exit, .wait,
  .decide]

theorem stopsKept_terminate : ∃ s, (sys service).ReachIf (fun s a => heard s a = true) s ∧
    s.phase = .returned 143 ∧ s.child.owed = true ∧ StopsKept s := by
  have hrun : (((sys service).execIf heard {} terminateRun).any fun s =>
      s.phase = .returned 143 && s.child.owed) = true := by
    decide +kernel
  obtain ⟨s, hs, hp⟩ := Sys.ReachIf.execIf_any (.init rfl) _ hrun
  simp only [Bool.and_eq_true, decide_eq_true_eq] at hp
  exact ⟨s, hs, hp.1, hp.2, stopsKept_of_heard hs⟩

/-- The supervisor handles `SIGTERM` before the child is the leader of its process group. -/
def earlyTermRun : List Act := startSupervisor ++ [.handle .term, .child .setsid,
  .child .openReceiver, .child .serve]

theorem stopsKept_fails : ¬ ∀ s, (sys service).Reach s → StopsKept s := by
  intro h
  have hrun : (((sys service).exec {} earlyTermRun).any fun s => s.child.owed && !s.child.stopped &&
      !s.child.pending && s.child.hasServed) = true := by
    decide +kernel
  obtain ⟨s, hs, hp⟩ := Sys.Reach.exec_any (.init rfl) _ hrun
  simp only [Bool.and_eq_true, Bool.not_eq_true'] at hp
  obtain ⟨⟨⟨ho, hstopped⟩, hpend⟩, hserved⟩ := hp
  rcases (h s hs).2 s.child (by simp) ho with h | h | h
  · rw [hstopped] at h
    cases h
  · rw [hpend] at h
    cases h
  · rw [hserved] at h
    cases h

end Jumpstarter.Supervisor
