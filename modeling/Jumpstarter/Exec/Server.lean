import Jumpstarter.Lib.Sys
import Mathlib.Data.List.Basic

/-!
# The threads of a `jumpstarter-exec` server

One process of `serve_with` (`src/server.rs`) with its threads: the accept loop, a handler for each
`Exec` with the reader thread of its connection, and the `Shutdown` handlers. They share the
`Lifecycle` (the shutdown flag and the set of child pids, under one lock) and, for each `Exec`, the
flag `reaped`.

- `Handler.step`: one atomic step of a handler or of its reader. A write to the socket may fail, and
  the client may disconnect at any time.
- `St.spawnable`: the system gives a new child any pid but those of the children not yet reaped, so a
  pid may come back as soon as `wait` has returned.
- `St.target`: the pid of the `kill` that an action issues.
-/

namespace Jumpstarter.ExecServer

open Lib

/-! ## A handler -/

/-- Where `handle_exec` is. -/
inductive Exec where
  /-- Before `spawn`. -/
  | requested
  /-- It returned without a child: the argv is empty, or `spawn` failed. -/
  | refused
  /-- Before `register_child`. -/
  | spawned (pid : Nat)
  /-- `register_child` returned `false`; before the `kill` of `terminate_child`. -/
  | rejected (pid : Nat)
  /-- Before the `wait` of `terminate_child`. -/
  | terminated (pid : Nat)
  /-- Before the message `Started`. -/
  | registered (pid : Nat)
  /-- In `child.wait()`. -/
  | running (pid : Nat)
  /-- Before `reaped.store(true)`. -/
  | waited (pid : Nat)
  /-- Before `unregister_child`. -/
  | stored (pid : Nat)
  | finishing (pid : Nat)
  /-- It returned after `spawn`; `reaped` says whether it waited for the child. -/
  | returned (pid : Nat) (reaped : Bool)
  deriving DecidableEq

inductive Reader where
  | none
  | reading
  /-- It read `Signal` and found `reaped` unset; before `kill`. -/
  | signalling (signal : Int)
  /-- After its loop; before the last load of `reaped`. -/
  | ended
  /-- It found `reaped` unset; before the last `kill`. -/
  | terminating
  | finished
  deriving DecidableEq

structure Handler where
  exec : Exec := .requested
  reader : Reader := .none
  /-- The flag `reaped`. -/
  reaped : Bool := false
  /-- A ghost: the child was spawned before `begin_shutdown`. -/
  early : Bool := false

/-- The steps of a handler and of its reader. -/
inductive Move where
  | refuse
  | spawn (pid : Nat)
  | register
  | terminate
  | wait
  /-- The message `Started` is sent, or the write fails. -/
  | started (ok : Bool)
  | store
  | unregister
  | finish
  /-- The reader reads a `Signal` and loads `reaped`. -/
  | signal (signal : Int)
  | sendSignal
  | disconnect
  | lastLoad
  | lastKill

def Exec.pid : Exec → Option Nat
  | .requested | .refused => none
  | .spawned p | .rejected p | .terminated p | .registered p | .running p | .waited p | .stored p
  | .finishing p | .returned p _ => some p

/-- The pid of a child that is spawned and not reaped. -/
def Exec.live : Exec → Option Nat
  | .spawned p | .rejected p | .terminated p | .registered p | .running p | .returned p false => some p
  | _ => none

def Exec.held : Exec → Option Nat
  | .registered p | .running p | .waited p | .stored p | .returned p false => some p
  | _ => none

structure Lifecycle where
  shutdown : Bool := false
  children : List Nat := []

def Lifecycle.registerChild (life : Lifecycle) (pid : Nat) : Option Lifecycle :=
  if life.shutdown then none else some { life with children := life.children.insert pid }

def Lifecycle.unregisterChild (life : Lifecycle) (pid : Nat) : Lifecycle :=
  { life with children := life.children.filter (· ≠ pid) }

/-- `begin_shutdown`; the pids to signal are `children`. -/
def Lifecycle.beginShutdown (life : Lifecycle) : Lifecycle := { life with shutdown := true }

/-- The step `m` of a handler. -/
def Handler.step (life : Lifecycle) (h : Handler) : Move → Option (Handler × Lifecycle)
  | .refuse => match h.exec with
    | .requested => some ({ h with exec := .refused }, life)
    | _ => none
  | .spawn pid => match h.exec with
    | .requested => some ({ h with exec := .spawned pid, early := !life.shutdown }, life)
    | _ => none
  | .register => match h.exec with
    | .spawned p => match life.registerChild p with
      | none => some ({ h with exec := .rejected p }, life)
      | some life' => some ({ h with exec := .registered p }, life')
    | _ => none
  | .terminate => match h.exec with
    | .rejected p => some ({ h with exec := .terminated p }, life)
    | _ => none
  | .wait => match h.exec with
    | .running p => some ({ h with exec := .waited p }, life)
    | .terminated p => some ({ h with exec := .finishing p }, life)
    | _ => none
  | .started ok => match h.exec with
    | .registered p =>
      if ok then some ({ h with exec := .running p, reader := .reading }, life)
      -- `send(..)?` returns: the child stays registered and nobody waits for it
      else some ({ h with exec := .returned p false }, life)
    | _ => none
  | .store => match h.exec with
    | .waited p => some ({ h with exec := .stored p, reaped := true }, life)
    | _ => none
  | .unregister => match h.exec with
    | .stored p => some ({ h with exec := .finishing p }, life.unregisterChild p)
    | _ => none
  | .finish => match h.exec with
    | .finishing p => some ({ h with exec := .returned p true }, life)
    | _ => none
  | .signal sig => match h.reader with
    | .reading => some ({ h with reader := if h.reaped then .ended else .signalling sig }, life)
    | _ => none
  | .sendSignal => match h.reader with
    | .signalling _ => some ({ h with reader := .reading }, life)
    | _ => none
  | .disconnect => match h.reader with
    | .reading => some ({ h with reader := .ended }, life)
    | _ => none
  | .lastLoad => match h.reader with
    | .ended => some ({ h with reader := if h.reaped then .finished else .terminating }, life)
    | _ => none
  | .lastKill => match h.reader with
    | .terminating => some ({ h with reader := .finished }, life)
    | _ => none

/-- The pid of the `kill` that a step of a handler issues. -/
def Handler.target (h : Handler) : Move → Option Nat
  | .terminate => match h.exec with
    | .rejected p => some p
    | _ => none
  | .sendSignal => match h.reader with
    | .signalling _ => h.exec.pid
    | _ => none
  | .lastKill => match h.reader with
    | .terminating => h.exec.pid
    | _ => none
  | _ => none

/-! ## The server -/

/-- Where the thread of `serve_with` is. -/
inductive Main where
  | accepting
  | killing (pids : List Nat)
  | returned

structure St where
  life : Lifecycle := {}
  handlers : List Handler := []
  /-- The `Shutdown` handlers, with the pids still to signal. -/
  killers : List (List Nat) := []
  main : Main := .accepting
  /-- A ghost: the pids that the first `begin_shutdown` returned. -/
  snapshot : Option (List Nat) := none

inductive Act where
  /-- A connection sends `Exec`. -/
  | request
  | handler (i : Nat) (m : Move)
  | beginShutdown
  /-- The next `kill` of a `Shutdown` handler. -/
  | kill (k : Nat)
  /-- The accept loop ends, and `child_pids` is read. -/
  | leave
  | killLeftover
  | exit

/-- The system may give `pid` to a new child. -/
def St.spawnable (s : St) (pid : Nat) : Bool := s.handlers.all fun h => h.exec.live ≠ some pid

/-- A handler takes the step `m`. -/
def St.move (s : St) (i : Nat) (m : Move) : Option St :=
  (s.handlers[i]?).bind fun h => (h.step s.life m).map fun r =>
    { s with handlers := s.handlers.set i r.1, life := r.2 }

def St.act (s : St) : Act → Option St
  | .request => some { s with handlers := s.handlers ++ [{}] }
  | .handler i (.spawn pid) => if s.spawnable pid then s.move i (.spawn pid) else none
  | .handler i m => s.move i m
  | .beginShutdown =>
    some { s with
      life := s.life.beginShutdown, killers := s.killers ++ [s.life.children]
      snapshot := s.snapshot <|> some s.life.children }
  | .kill k => match s.killers[k]? with
    | some (_ :: pids) => some { s with killers := s.killers.set k pids }
    | _ => none
  | .leave => match s.main with
    | .accepting => if s.life.shutdown then some { s with main := .killing s.life.children } else none
    | _ => none
  | .killLeftover => match s.main with
    | .killing (_ :: pids) => some { s with main := .killing pids }
    | _ => none
  | .exit => match s.main with
    | .killing [] => some { s with main := .returned }
    | _ => none

def step (s : St) (a : Act) : Option St :=
  match s.main with
  | .returned => none
  | _ => s.act a

def sys : Sys St Act := ⟨fun s => s = {}, step⟩

/-- The pid of the `kill` that the action issues. -/
def St.target (s : St) : Act → Option Nat
  | .handler i m => s.handlers[i]?.bind fun h => h.target m
  | .kill k => s.killers[k]?.bind List.head?
  | .killLeftover => match s.main with
    | .killing pids => pids.head?
    | _ => none
  | _ => none

/-! ## What a step does -/

variable {s s' : St} {h h' : Handler} {life life' : Lifecycle} {m : Move} {i p : Nat}

theorem of_registerChild (h : life.registerChild p = some life') :
    life.shutdown = false ∧ life' = { life with children := life.children.insert p } := by
  unfold Lifecycle.registerChild at h
  split at h <;> cases h
  rename_i hs
  exact ⟨by simpa using hs, rfl⟩

/-- The cases of `Handler.step`. -/
inductive Moved (life : Lifecycle) (h : Handler) : Move → Handler → Lifecycle → Prop
  | refuse : h.exec = .requested → Moved life h .refuse { h with exec := .refused } life
  | spawn (p : Nat) : h.exec = .requested →
    Moved life h (.spawn p) { h with exec := .spawned p, early := !life.shutdown } life
  | reject (p : Nat) : h.exec = .spawned p → life.registerChild p = none →
    Moved life h .register { h with exec := .rejected p } life
  | register (p : Nat) (life' : Lifecycle) : h.exec = .spawned p → life.registerChild p = some life' →
    Moved life h .register { h with exec := .registered p } life'
  | terminate (p : Nat) : h.exec = .rejected p → Moved life h .terminate { h with exec := .terminated p } life
  | wait (p : Nat) : h.exec = .running p → Moved life h .wait { h with exec := .waited p } life
  | waitTerminated (p : Nat) : h.exec = .terminated p → Moved life h .wait { h with exec := .finishing p } life
  | started (p : Nat) : h.exec = .registered p →
    Moved life h (.started true) { h with exec := .running p, reader := .reading } life
  | abandon (p : Nat) : h.exec = .registered p →
    Moved life h (.started false) { h with exec := .returned p false } life
  | store (p : Nat) : h.exec = .waited p → Moved life h .store { h with exec := .stored p, reaped := true } life
  | unregister (p : Nat) : h.exec = .stored p →
    Moved life h .unregister { h with exec := .finishing p } (life.unregisterChild p)
  | finish (p : Nat) : h.exec = .finishing p → Moved life h .finish { h with exec := .returned p true } life
  | read (m : Move) (r : Reader) : h.reader ≠ .none → r ≠ .none →
    (r = .terminating ∨ (∃ sig, r = .signalling sig) →
      h.reaped = false ∧ (m = .lastLoad ∨ ∃ sig, m = .signal sig)) →
    Moved life h m { h with reader := r } life

theorem Handler.step_moved (hst : h.step life m = some (h', life')) : Moved life h m h' life' := by
  cases m <;> simp only [Handler.step] at hst
  case refuse =>
    split at hst <;> cases hst
    exact .refuse ‹_›
  case spawn pid =>
    split at hst <;> cases hst
    exact .spawn pid ‹_›
  case register =>
    split at hst
    · split at hst <;> cases hst
      · exact .reject _ ‹_› ‹_›
      · exact .register _ _ ‹_› ‹_›
    · cases hst
  case terminate =>
    split at hst <;> cases hst
    exact .terminate _ ‹_›
  case wait =>
    split at hst <;> cases hst
    · exact .wait _ ‹_›
    · exact .waitTerminated _ ‹_›
  case started ok =>
    split at hst
    · cases ok <;> cases hst
      · exact .abandon _ ‹_›
      · exact .started _ ‹_›
    · cases hst
  case store =>
    split at hst <;> cases hst
    exact .store _ ‹_›
  case unregister =>
    split at hst <;> cases hst
    exact .unregister _ ‹_›
  case finish =>
    split at hst <;> cases hst
    exact .finish _ ‹_›
  case signal sig =>
    split at hst <;> cases hst
    rename_i hr
    refine .read _ _ (by simp [hr]) ?_ ?_ <;> cases h.reaped <;> simp
  case sendSignal =>
    split at hst <;> cases hst
    rename_i hr
    exact .read _ _ (by simp [hr]) (by simp) (by simp)
  case disconnect =>
    split at hst <;> cases hst
    rename_i hr
    exact .read _ _ (by simp [hr]) (by simp) (by simp)
  case lastLoad =>
    split at hst <;> cases hst
    rename_i hr
    refine .read _ _ (by simp [hr]) ?_ ?_ <;> cases h.reaped <;> simp
  case lastKill =>
    split at hst <;> cases hst
    rename_i hr
    exact .read _ _ (by simp [hr]) (by simp) (by simp)

theorem Moved.held (hm : Moved life h m h' life') (hp : p ∈ life'.children) :
    h'.exec.held = some p ∨ p ∈ life.children ∧ (h.exec.held = some p → h'.exec.held = some p) := by
  cases hm with
  | register q life' he hr =>
    obtain ⟨-, rfl⟩ := of_registerChild hr
    rcases List.mem_insert_iff.mp hp with rfl | hp
    · exact .inl rfl
    · exact .inr ⟨hp, fun hh => by rw [he] at hh; cases hh⟩
  | unregister q he =>
    simp only [Lifecycle.unregisterChild, List.mem_filter, decide_eq_true_eq] at hp
    refine .inr ⟨hp.1, fun hh => ?_⟩
    rw [he] at hh
    exact absurd (Option.some.inj hh).symm hp.2
  | refuse he | spawn _ he | reject _ he | terminate _ he | waitTerminated _ he | finish _ he =>
    exact .inr ⟨hp, fun hh => by rw [he] at hh; cases hh⟩
  | wait _ he | started _ he | abandon _ he | store _ he =>
    exact .inr ⟨hp, fun hh => by rw [he] at hh; exact hh⟩
  | read => exact .inr ⟨hp, id⟩

theorem St.move_cases (hst : s.move i m = some s') : ∃ h h' life', s.handlers[i]? = some h ∧
    Moved s.life h m h' life' ∧ s' = { s with handlers := s.handlers.set i h', life := life' } := by
  obtain ⟨h, hi, hst⟩ := Option.bind_eq_some_iff.mp hst
  obtain ⟨⟨h', life'⟩, hm, rfl⟩ := Option.map_eq_some_iff.mp hst
  exact ⟨h, h', life', hi, Handler.step_moved hm, rfl⟩

/-- The cases of `step`. -/
inductive Stepped (s : St) : Act → St → Prop
  | request : Stepped s .request { s with handlers := s.handlers ++ [{}] }
  | move (i : Nat) (m : Move) (h h' : Handler) (life' : Lifecycle) : s.handlers[i]? = some h →
    (∀ pid, m = .spawn pid → s.spawnable pid = true) → Moved s.life h m h' life' →
    Stepped s (.handler i m) { s with handlers := s.handlers.set i h', life := life' }
  | beginShutdown : Stepped s .beginShutdown { s with
      life := s.life.beginShutdown, killers := s.killers ++ [s.life.children]
      snapshot := s.snapshot <|> some s.life.children }
  | kill (k pid : Nat) (pids : List Nat) : s.killers[k]? = some (pid :: pids) →
    Stepped s (.kill k) { s with killers := s.killers.set k pids }
  | leave : s.life.shutdown = true → Stepped s .leave { s with main := .killing s.life.children }
  | killLeftover (pid : Nat) (pids : List Nat) : s.main = .killing (pid :: pids) →
    Stepped s .killLeftover { s with main := .killing pids }
  | exit : Stepped s .exit { s with main := .returned }

theorem step_cases {a : Act} (hst : step s a = some s') : Stepped s a s' := by
  have hact : s.act a = some s' := by
    unfold step at hst
    split at hst
    · cases hst
    · exact hst
  cases a with
  | request => cases hact; exact .request
  | handler i m =>
    have hspawn : ∀ pid, m = .spawn pid → s.spawnable pid = true := by
      rintro pid rfl
      simp only [St.act, Option.ite_none_right_eq_some] at hact
      exact hact.1
    have hmove : s.move i m = some s' := by
      cases m with
      | spawn pid =>
        simp only [St.act, Option.ite_none_right_eq_some] at hact
        exact hact.2
      | _ => exact hact
    obtain ⟨h, h', life', hi, hm, rfl⟩ := St.move_cases hmove
    exact .move i m h h' life' hi hspawn hm
  | beginShutdown => cases hact; exact .beginShutdown
  | kill k =>
    simp only [St.act] at hact
    split at hact <;> cases hact
    exact .kill k _ _ ‹_›
  | leave =>
    simp only [St.act] at hact
    split at hact
    · split at hact <;> cases hact
      exact .leave ‹_›
    · cases hact
  | killLeftover =>
    simp only [St.act] at hact
    split at hact <;> cases hact
    exact .killLeftover _ _ ‹_›
  | exit =>
    simp only [St.act] at hact
    split at hact <;> cases hact
    exact .exit

end Jumpstarter.ExecServer
