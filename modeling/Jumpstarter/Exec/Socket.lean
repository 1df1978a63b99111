import Jumpstarter.Lib.Sys
import Mathlib.Logic.Function.Basic

/-!
# The listen socket of `jumpstarter-exec`

Any number of processes run `serve_with` on one `socket_path` (`src/server.rs`). Each of them checks
the path, removes a stale socket, binds on a temporary path and publishes the listener by `hard_link`;
a `Shutdown` request unlinks the path, and so does the end of `serve_with`.

- `Proc.step`: one system call of one process, from what it finds in the directory. The temporary
  path is named after the process id, which processes of two containers may share.
- `St.entry`: the directory entry at `socket_path`, by the process whose listener it belongs to. A
  crash leaves it behind.

`removedByOwner_of_serialised`: the entry of a listener that accepts connections is removed only by
its own process, in runs in which a process starts only while no other one is starting or shutting
down. `removedByOwner_fails`: two processes find a stale socket.
-/

namespace Jumpstarter.Socket

open Lib Option

/-! ## The processes -/

/-- Where `serve_with` is. -/
inductive Phase where
  | idle
  /-- The path exists; before `UnixStream::connect`. -/
  | found
  /-- Nobody answered; before `remove_file`. -/
  | stale
  /-- Before `UnixListener::bind` on the temporary path. -/
  | binding
  /-- Before `set_permissions`. -/
  | bound
  /-- Before `hard_link`. -/
  | ready
  | linked
  /-- `bind_listen_socket` failed; before the removal of the temporary path. -/
  | failed
  | serving
  /-- After the accept loop; before `remove_file`. -/
  | leaving
  | exiting
  | dead
  deriving DecidableEq

/-- A process: its main thread, and its `Shutdown` handlers. -/
structure Proc where
  phase : Phase := .idle
  /-- The handlers that acknowledged a `Shutdown`; before `remove_file`. -/
  acked : Nat := 0
  /-- The handlers before `begin_shutdown`. -/
  unlinked : Nat := 0
  shutdown : Bool := false

/-- The system calls of a process. `shutdown`, `unlink` and `mark` are those of its `Shutdown`
handlers, the others are those of `serve_with` in their order. -/
inductive Call where
  | start | connect | remove | bind | chmod | link | unlinkTmp
  | shutdown | unlink | mark
  | leave | cleanup | exit | crash
  deriving DecidableEq

/-- What a process finds and leaves in the directory: the entry at `socket_path`, and the one at its
temporary path. -/
structure Dir where
  entry : Option Nat
  tmp : Option Nat

/-- `serve_with` runs: handlers of accepted connections may run. -/
def Phase.handles : Phase → Bool
  | .serving | .leaving | .exiting => true
  | _ => false

/-- The call `c` of process `p`; `answers` says whether a listener answers at `socket_path`. -/
def Proc.step (p : Nat) (x : Proc) (d : Dir) (answers : Bool) : Call → Option (Proc × Dir)
  | .start =>
    if x.phase = .idle then
      some ({ x with phase := if d.entry.isSome then .found else .binding }, d)
    else none
  | .connect =>
    if x.phase = .found then
      -- "another server is already listening"
      some ({ x with phase := if answers then .dead else .stale }, d)
    else none
  | .remove =>
    if x.phase = .stale then
      -- `remove_file(socket_path)?` returns `NotFound`
      some ({ x with phase := if d.entry.isSome then .binding else .dead }, { d with entry := none })
    else none
  | .bind =>
    if x.phase = .binding then
      some (if d.tmp.isSome then ({ x with phase := .failed }, d)
        else ({ x with phase := .bound }, { d with tmp := some p }))
    else none
  | .chmod =>
    if x.phase = .bound then
      some ({ x with phase := if d.tmp.isSome then .ready else .failed }, d)
    else none
  | .link =>
    if x.phase = .ready then
      -- `AlreadyExists` does not replace the entry
      some (if d.tmp.isSome && d.entry.isNone then ({ x with phase := .linked }, { d with entry := d.tmp })
        else ({ x with phase := .failed }, d))
    else none
  | .unlinkTmp =>
    if x.phase = .linked then some ({ x with phase := .serving }, { d with tmp := none })
    else if x.phase = .failed then some ({ x with phase := .dead }, { d with tmp := none })
    else none
  | .shutdown => if x.phase.handles then some ({ x with acked := x.acked + 1 }, d) else none
  | .unlink =>
    if x.phase.handles && 0 < x.acked then
      some ({ x with acked := x.acked - 1, unlinked := x.unlinked + 1 }, { d with entry := none })
    else none
  | .mark =>
    if x.phase.handles && 0 < x.unlinked then
      some ({ x with unlinked := x.unlinked - 1, shutdown := true }, d)
    else none
  | .leave => if x.phase = .serving && x.shutdown then some ({ x with phase := .leaving }, d) else none
  | .cleanup =>
    if x.phase = .leaving then some ({ x with phase := .exiting }, { d with entry := none }) else none
  | .exit => if x.phase = .exiting then some ({ x with phase := .dead }, d) else none
  | .crash => if x.phase = .idle then none else some ({ x with phase := .dead }, d)

/-- The process holds a listening socket. -/
def Phase.listens : Phase → Bool
  | .bound | .ready | .linked | .serving | .leaving | .exiting => true
  | _ => false

/-- The process accepts connections at its listener. -/
def Phase.accepts : Phase → Bool
  | .linked | .serving => true
  | _ => false

/-! ## The system -/

structure St where
  entry : Option Nat := none
  tmp : Nat → Option Nat := fun _ => none
  procs : Nat → Proc := fun _ => {}

structure Act where
  proc : Nat
  call : Call

/-- `UnixStream::connect(socket_path)` succeeds. -/
def St.answers (s : St) : Bool := s.entry.any fun q => (s.procs q).phase.listens

/-- The directory as process `p` sees it. -/
def St.dir (pid : Nat → Nat) (s : St) (p : Nat) : Dir := ⟨s.entry, s.tmp (pid p)⟩

/-- The state after a call of process `p`. -/
def St.set (pid : Nat → Nat) (s : St) (p : Nat) (x : Proc) (d : Dir) : St where
  entry := d.entry
  tmp := Function.update s.tmp (pid p) d.tmp
  procs := Function.update s.procs p x

/-- One call; `pid` gives the process ids. -/
def step (pid : Nat → Nat) (s : St) (a : Act) : Option St :=
  ((s.procs a.proc).step a.proc (s.dir pid a.proc) s.answers a.call).map fun r =>
    s.set pid a.proc r.1 r.2

def sys (pid : Nat → Nat) : Sys St Act := ⟨fun s => s = {}, step pid⟩

/-! ## The property -/

/-- If the call removes the entry of a listener that accepts connections, its process owns it. -/
def RemovedByOwner (pid : Nat → Nat) (s : St) (a : Act) : Prop :=
  ∀ s' q, step pid s a = some s' → s.entry = some q → (s.procs q).phase.accepts = true →
    s'.entry ≠ some q → a.proc = q

/-- The process is between its check of the path and its accept loop. -/
@[simp] def Phase.starting : Phase → Bool
  | .found | .stale | .binding | .bound | .ready | .linked | .failed => true
  | _ => false

def Phase.serves : Phase → Bool
  | .linked | .serving | .leaving | .exiting => true
  | _ => false

/-- The process handles a `Shutdown`, or has done so. -/
def Proc.closing (x : Proc) : Bool :=
  0 < x.acked || 0 < x.unlinked || x.shutdown

/-- The process is neither starting nor shutting down. -/
def Proc.settled (x : Proc) : Bool :=
  !x.phase.starting && !(x.phase.serves && x.closing)

/-- A process starts only while every other one is settled. -/
def Serialised (s : St) (a : Act) : Prop :=
  a.call = .start → ∀ q, q ≠ a.proc → (s.procs q).settled = true

/-! ## The invariant -/

variable {pid : Nat → Nat} {s s' : St} {p q : Nat} {x y : Proc} {d : Dir}

@[simp] def Phase.builds : Phase → Bool
  | .binding | .bound | .ready => true
  | _ => false

@[simp] def Phase.holdsTmp : Phase → Bool
  | .bound | .ready => true
  | _ => false

@[simp] def Phase.left : Phase → Bool
  | .leaving | .exiting => true
  | _ => false

theorem Phase.starting_of_builds {x : Phase} (h : x.builds = true) : x.starting = true := by
  cases x <;> simp_all

theorem Phase.starting_of_holdsTmp {x : Phase} (h : x.holdsTmp = true) : x.starting = true := by
  cases x <;> simp_all

open Phase

theorem Phase.serves_of_accepts {x : Phase} (h : x.accepts = true) : x.serves = true := by
  cases x <;> simp_all [accepts, serves]

theorem Phase.serves_of_handles {x : Phase} (h : x.handles = true) : x.serves = true := by
  cases x <;> simp_all [handles, serves]

theorem Phase.listens_of_serves {x : Phase} (h : x.serves = true) : x.listens = true := by
  cases x <;> simp_all [listens, serves]

/-- What serialised starts keep: one process starts and one serves, and the entry is the server's
until it begins to shut down. -/
structure Inv (pid : Nat → Nat) (s : St) : Prop where
  starter : ∀ p q, (s.procs p).phase.starting = true → (s.procs q).phase.starting = true → p = q
  server : ∀ p q, (s.procs p).phase.serves = true → (s.procs q).phase.serves = true → p = q
  published : ∀ p, (s.procs p).phase.serves = true →
    s.entry = some p ∨ s.entry = none ∧ (s.procs p).closing = true
  stale : ∀ p q, (s.procs p).phase = .stale → (s.procs q).phase.serves = true → s.entry = none
  builds : ∀ p q, (s.procs p).phase.builds = true → (s.procs q).phase.serves = false
  tmp : ∀ p, (s.procs p).phase.holdsTmp = true → s.tmp (pid p) = some p
  left : ∀ p, (s.procs p).phase.left = true → (s.procs p).shutdown = true

/-- Process `p` may become `y` and leave the directory `d`. -/
structure Fits (pid : Nat → Nat) (s : St) (p : Nat) (y : Proc) (d : Dir) : Prop where
  starter : y.phase.starting = true → ∀ q, q ≠ p → (s.procs q).phase.starting = false
  server : y.phase.serves = true → ∀ q, q ≠ p → (s.procs q).phase.serves = false
  published : y.phase.serves = true → d.entry = some p ∨ d.entry = none ∧ y.closing = true
  entry : ∀ q, q ≠ p → (s.procs q).phase.serves = true → d.entry = s.entry
  serves : y.phase.serves = true → (s.procs p).phase.starting = true ∨
    (s.procs p).phase.serves = true ∧ (d.entry = s.entry ∨ d.entry = none)
  stale : y.phase = .stale → ∀ q, q ≠ p → (s.procs q).phase.serves = true → d.entry = none
  builds : y.phase.builds = true → ∀ q, q ≠ p → (s.procs q).phase.serves = false
  tmp : y.phase.holdsTmp = true → d.tmp = some p
  tmps : (s.procs p).phase.starting = true ∨ d.tmp = s.tmp (pid p)
  left : y.phase.left = true → y.shutdown = true

@[simp] theorem set_entry : (s.set pid p y d).entry = d.entry := rfl

@[simp] theorem set_procs_self : (s.set pid p y d).procs p = y := Function.update_self ..

theorem set_procs_ne (h : q ≠ p) : (s.set pid p y d).procs q = s.procs q :=
  Function.update_of_ne h ..

theorem unique_set {f : Phase → Bool}
    (hall : ∀ a b, f (s.procs a).phase = true → f (s.procs b).phase = true → a = b)
    (hy : f y.phase = true → ∀ q, q ≠ p → f (s.procs q).phase = false) (a b : Nat)
    (ha : f ((s.set pid p y d).procs a).phase = true)
    (hb : f ((s.set pid p y d).procs b).phase = true) : a = b := by
  have hother : ∀ q, q ≠ p → f ((s.set pid p y d).procs q).phase = true → f y.phase ≠ true := by
    intro q hq hs h
    rw [set_procs_ne hq, hy h q hq] at hs
    cases hs
  by_cases hap : a = p
  · subst hap
    rw [set_procs_self] at ha
    exact Classical.not_not.mp fun h => hother b (Ne.symm h) hb ha
  · by_cases hbp : b = p
    · subst hbp
      rw [set_procs_self] at hb
      exact absurd hb (hother a hap ha)
    · rw [set_procs_ne hap] at ha
      rw [set_procs_ne hbp] at hb
      exact hall a b ha hb

theorem Inv.stale_set (hi : Inv pid s) (hf : Fits pid s p y d) (r q : Nat)
    (hr : ((s.set pid p y d).procs r).phase = .stale)
    (hq : ((s.set pid p y d).procs q).phase.serves = true) : d.entry = none := by
  by_cases h : q = p
  · subst h
    rw [set_procs_self] at hq
    by_cases hrq : r = q
    · subst hrq
      rw [set_procs_self] at hr
      rw [hr] at hq
      cases hq
    rw [set_procs_ne hrq] at hr
    have hstart : (s.procs r).phase.starting = true := by rw [hr]; rfl
    rcases hf.serves hq with hs | ⟨hs, he⟩
    · exact absurd (hi.starter r q hstart hs) hrq
    · have hnone := hi.stale r q hr hs
      rcases he with he | he
      · rw [he, hnone]
      · exact he
  · rw [set_procs_ne h] at hq
    by_cases hrp : r = p
    · subst hrp
      rw [set_procs_self] at hr
      exact hf.stale hr q h hq
    · rw [set_procs_ne hrp] at hr
      rw [hf.entry q h hq]
      exact hi.stale r q hr hq

theorem Inv.builds_set (hi : Inv pid s) (hf : Fits pid s p y d) (r q : Nat)
    (hr : ((s.set pid p y d).procs r).phase.builds = true) :
    ((s.set pid p y d).procs q).phase.serves = false := by
  by_cases hrp : r = p
  · subst hrp
    rw [set_procs_self] at hr
    by_cases h : q = r
    · subst h
      rw [set_procs_self]
      revert hr
      cases y.phase <;> simp [serves]
    · rw [set_procs_ne h]
      exact hf.builds hr q h
  · rw [set_procs_ne hrp] at hr
    by_cases h : q = p
    · subst h
      rw [set_procs_self, Bool.eq_false_iff]
      intro hy
      rcases hf.serves hy with hs | ⟨hs, -⟩
      · exact hrp (hi.starter r q (starting_of_builds hr) hs)
      · rw [hi.builds r q hr] at hs
        cases hs
    · rw [set_procs_ne h]
      exact hi.builds r q hr

theorem Inv.tmp_set (hi : Inv pid s) (hf : Fits pid s p y d) (r : Nat)
    (hr : ((s.set pid p y d).procs r).phase.holdsTmp = true) :
    (s.set pid p y d).tmp (pid r) = some r := by
  by_cases hrp : r = p
  · subst hrp
    rw [set_procs_self] at hr
    exact (Function.update_self ..).trans (hf.tmp hr)
  · rw [set_procs_ne hrp] at hr
    rcases hf.tmps with hs | ht
    · exact absurd (hi.starter r p (starting_of_holdsTmp hr) hs) hrp
    · have hsame : (s.set pid p y d).tmp = s.tmp := by
        show Function.update s.tmp (pid p) d.tmp = s.tmp
        rw [ht, Function.update_eq_self]
      rw [hsame]
      exact hi.tmp r hr

theorem Inv.set (hi : Inv pid s) (hf : Fits pid s p y d) : Inv pid (s.set pid p y d) where
  starter := unique_set hi.starter hf.starter
  server := unique_set hi.server hf.server
  published := by
    intro q hq
    by_cases h : q = p
    · subst h
      rw [set_procs_self] at hq ⊢
      exact hf.published hq
    · rw [set_procs_ne h] at hq ⊢
      rw [set_entry, hf.entry q h hq]
      exact hi.published q hq
  stale := hi.stale_set hf
  builds := hi.builds_set hf
  tmp := hi.tmp_set hf
  left := by
    intro q hq
    by_cases h : q = p
    · subst h
      rw [set_procs_self] at hq ⊢
      exact hf.left hq
    · rw [set_procs_ne h] at hq ⊢
      exact hi.left q hq

/-! ## What the calls keep -/

section

variable (hi : Inv pid s)
include hi

theorem Inv.otherStarting (h : (s.procs p).phase.starting = true) (q : Nat)
    (hq : q ≠ p) : (s.procs q).phase.starting = false :=
  Bool.eq_false_iff.mpr fun hs => hq (hi.starter q p hs h)

theorem Inv.otherServes (h : (s.procs p).phase.serves = true) (q : Nat)
    (hq : q ≠ p) : (s.procs q).phase.serves = false :=
  Bool.eq_false_iff.mpr fun hs => hq (hi.server q p hs h)

theorem Inv.fitsKeep (hstart : y.phase.starting = true → (s.procs p).phase.starting = true)
    (hserve : y.phase.serves = true →
      (s.procs p).phase.serves = true ∧ ((s.procs p).closing = true → y.closing = true))
    (hstale : y.phase ≠ .stale) (hbuild : y.phase.builds = true → (s.procs p).phase.builds = true)
    (htmp : y.phase.holdsTmp = true → (s.procs p).phase.holdsTmp = true)
    (hleft : y.phase.left = true → y.shutdown = true) : Fits pid s p y (s.dir pid p) where
  starter h := hi.otherStarting (hstart h)
  server h := hi.otherServes (hserve h).1
  published h := by
    rcases hi.published p (hserve h).1 with he | ⟨he, hc⟩
    · exact .inl he
    · exact .inr ⟨he, (hserve h).2 hc⟩
  entry _ _ _ := rfl
  serves h := .inr ⟨(hserve h).1, .inl rfl⟩
  stale h := absurd h hstale
  builds h q _ := hi.builds p q (hbuild h)
  tmp h := hi.tmp p (htmp h)
  tmps := .inr rfl
  left := hleft

theorem Inv.fitsDead (h : y.phase = .dead) : Fits pid s p y (s.dir pid p) := by
  apply hi.fitsKeep <;> rw [h] <;> simp [serves]

theorem Inv.fitsServer (hx : (s.procs p).phase.serves = true)
    (hy : y.phase.handles = true) (hc : (s.procs p).closing = true → y.closing = true)
    (hleft : y.phase.left = true → y.shutdown = true) : Fits pid s p y (s.dir pid p) := by
  apply hi.fitsKeep _ (fun _ => ⟨hx, hc⟩) _ _ _ hleft <;> revert hy <;> cases y.phase <;>
    simp [handles]

theorem Inv.fitsFailed (hx : (s.procs p).phase.starting = true)
    (hy : y.phase = .failed) : Fits pid s p y (s.dir pid p) := by
  apply hi.fitsKeep (fun _ => hx) <;> rw [hy] <;>
    simp [serves]

theorem Inv.fitsUnlink (hx : (s.procs p).phase.serves = true)
    (hy : y.phase.handles = true) (hc : y.closing = true)
    (hleft : y.phase.left = true → y.shutdown = true) :
    Fits pid s p y { s.dir pid p with entry := none } where
  starter h := by revert h hy; cases y.phase <;> simp [handles]
  server _ := hi.otherServes hx
  published _ := .inr ⟨rfl, hc⟩
  entry q hq hs := by rw [hi.otherServes hx q hq] at hs; cases hs
  serves _ := .inr ⟨hx, .inr rfl⟩
  stale h := by rw [h] at hy; cases hy
  builds h := by revert h hy; cases y.phase <;> simp [handles]
  tmp h := by revert h hy; cases y.phase <;> simp [handles]
  tmps := .inr rfl
  left := hleft

end

theorem fitsStarting (hstart : y.phase.starting = true) (hserve : y.phase.serves = false)
    (hother : ∀ q, q ≠ p → (s.procs q).phase.starting = false)
    (hentry : ∀ q, q ≠ p → (s.procs q).phase.serves = true → d.entry = s.entry)
    (hstale : y.phase = .stale → ∀ q, q ≠ p → (s.procs q).phase.serves = true → d.entry = none)
    (hbuild : y.phase.builds = true → ∀ q, q ≠ p → (s.procs q).phase.serves = false)
    (htmp : y.phase.holdsTmp = true → d.tmp = some p)
    (htmps : (s.procs p).phase.starting = true ∨ d.tmp = s.tmp (pid p)) : Fits pid s p y d where
  starter _ := hother
  server h := by rw [hserve] at h; cases h
  published h := by rw [hserve] at h; cases h
  entry := hentry
  serves h := by rw [hserve] at h; cases h
  stale := hstale
  builds := hbuild
  tmp := htmp
  tmps := htmps
  left h := by revert h hstart; cases y.phase <;> simp

section

variable (hi : Inv pid s)
include hi

/-- **A process starts** while the others are settled: no server has left the path free. -/
theorem Inv.fitsStart (hset : ∀ q, q ≠ p → (s.procs q).settled = true)
    (hy : y.phase = if s.entry.isSome then .found else .binding) : Fits pid s p y (s.dir pid p) := by
  have hstart : ∀ q, q ≠ p → (s.procs q).phase.starting = false := by
    intro q hq
    have h := hset q hq
    simp only [Proc.settled, Bool.and_eq_true, Bool.not_eq_true'] at h
    exact h.1
  have hserve : s.entry = none → ∀ q, q ≠ p → (s.procs q).phase.serves = false := by
    intro he q hq
    rw [Bool.eq_false_iff]
    intro hs
    rcases hi.published q hs with h | ⟨-, hc⟩
    · rw [he] at h
      cases h
    · have h := hset q hq
      simp [Proc.settled, hs, hc] at h
  cases he : s.entry with
  | none =>
    have hp : y.phase = .binding := by rw [hy, he]; rfl
    refine fitsStarting ?_ ?_ hstart (fun _ _ _ => rfl) ?_ ?_ ?_ (.inr rfl) <;> rw [hp]
    · rfl
    · rfl
    · exact fun h => by cases h
    · exact fun _ => hserve he
    · exact fun h => by cases h
  | some r =>
    have hp : y.phase = .found := by rw [hy, he]; rfl
    refine fitsStarting ?_ ?_ hstart (fun _ _ _ => rfl) ?_ ?_ ?_ (.inr rfl) <;> rw [hp]
    · rfl
    · rfl
    · exact fun h => by cases h
    · exact fun h => by cases h
    · exact fun h => by cases h

/-- **Nobody answered**: no server is at the path. -/
theorem Inv.fitsStale (hx : (s.procs p).phase = .found) (ha : s.answers = false)
    (hy : y.phase = .stale) : Fits pid s p y (s.dir pid p) := by
  have hstart : (s.procs p).phase.starting = true := by rw [hx]; rfl
  refine fitsStarting ?_ ?_ (hi.otherStarting hstart) (fun _ _ _ => rfl) ?_ ?_ ?_ (.inl hstart) <;>
    rw [hy]
  · rfl
  · rfl
  · intro _ q _ hq
    rcases hi.published q hq with he | ⟨he, -⟩
    · rw [St.answers, he, any_some, listens_of_serves hq] at ha
      cases ha
    · exact he
  · exact fun h => by cases h
  · exact fun h => by cases h

/-- **The stale entry is removed**: a server would have removed it itself. -/
theorem Inv.fitsRemove (hx : (s.procs p).phase = .stale) (he : s.entry.isSome = true)
    (hy : y.phase = .binding) : Fits pid s p y { s.dir pid p with entry := none } := by
  have hstart : (s.procs p).phase.starting = true := by rw [hx]; rfl
  have hserve : ∀ q, (s.procs q).phase.serves = false := by
    intro q
    rw [Bool.eq_false_iff]
    intro hs
    rw [hi.stale p q hx hs] at he
    cases he
  refine fitsStarting ?_ ?_ (hi.otherStarting hstart) ?_ ?_ ?_ ?_ (.inl hstart) <;> try rw [hy]
  · rfl
  · rfl
  · intro q _ hs
    rw [hserve q] at hs
    cases hs
  · exact fun h => by cases h
  · exact fun _ q _ => hserve q
  · exact fun h => by cases h

theorem Inv.fitsBuild (hx : (s.procs p).phase.builds = true)
    (hy : y.phase.holdsTmp = true) (ht : d.tmp = some p) (he : d.entry = s.entry) :
    Fits pid s p y d := by
  have hstart := starting_of_builds hx
  refine fitsStarting (starting_of_holdsTmp hy) ?_ (hi.otherStarting hstart) (fun _ _ _ => he) ?_
    (fun _ q _ => hi.builds p q hx) (fun _ => ht) (.inl hstart)
  · revert hy
    cases y.phase <;> simp [serves]
  · intro h
    rw [h] at hy
    cases hy

/-- **The listener is published.** -/
theorem Inv.fitsLink (hx : (s.procs p).phase = .ready) (hy : y.phase = .linked) :
    Fits pid s p y { s.dir pid p with entry := (s.dir pid p).tmp } := by
  have hbuild : (s.procs p).phase.builds = true := by rw [hx]; rfl
  have hstart := starting_of_builds hbuild
  have htmp : s.tmp (pid p) = some p := hi.tmp p (by rw [hx]; rfl)
  have hserve := fun q => hi.builds p q hbuild
  exact {
    starter := fun _ => hi.otherStarting hstart
    server := fun _ q _ => hserve q
    published := fun _ => .inl htmp
    entry := fun q _ h => by rw [hserve q] at h; cases h
    serves := fun _ => .inl hstart
    stale := fun h => by rw [hy] at h; cases h
    builds := fun h => by rw [hy] at h; cases h
    tmp := fun h => by rw [hy] at h; cases h
    tmps := .inr rfl
    left := fun h => by rw [hy] at h; cases h }

end

theorem Fits.unlinkTmp (hf : Fits pid s p y d) (hx : (s.procs p).phase.starting = true)
    (hy : y.phase.holdsTmp = false) : Fits pid s p y { d with tmp := none } :=
  { hf with
    tmp := fun h => by rw [hy] at h; cases h
    tmps := .inl hx }

/-- **One call of a process.** -/
theorem Inv.fitsStep (hi : Inv pid s) {c : Call} (hok : Serialised s ⟨p, c⟩)
    (h : (s.procs p).step p (s.dir pid p) s.answers c = some (y, d)) : Fits pid s p y d := by
  cases c <;> simp [Proc.step] at h
  case start =>
    obtain ⟨-, rfl, rfl⟩ := h
    exact hi.fitsStart (hok rfl) rfl
  case connect =>
    obtain ⟨hx, rfl, rfl⟩ := h
    cases ha : s.answers with
    | true => exact hi.fitsDead rfl
    | false => exact hi.fitsStale hx ha rfl
  case remove =>
    obtain ⟨hx, rfl, rfl⟩ := h
    cases he : s.entry with
    | none =>
      have hd : ({ s.dir pid p with entry := none } : Dir) = s.dir pid p := by rw [← he]; rfl
      rw [hd]
      exact hi.fitsDead (by simp [St.dir, he])
    | some r => exact hi.fitsRemove hx (by rw [he]; rfl) (by simp [St.dir, he])
  case bind =>
    obtain ⟨hx, h⟩ := h
    split at h <;> cases h
    · exact hi.fitsFailed (by rw [hx]; rfl) rfl
    · exact hi.fitsBuild (by rw [hx]; rfl) rfl rfl rfl
  case chmod =>
    obtain ⟨hx, rfl, rfl⟩ := h
    have htmp : s.tmp (pid p) = some p := hi.tmp p (by rw [hx]; rfl)
    have hsome : (s.dir pid p).tmp.isSome = true := by
      rw [St.dir, htmp]
      rfl
    rw [if_pos hsome]
    exact hi.fitsBuild (by rw [hx]; rfl) rfl htmp rfl
  case link =>
    obtain ⟨hx, h⟩ := h
    split at h <;> cases h
    · exact hi.fitsLink hx rfl
    · exact hi.fitsFailed (by rw [hx]; rfl) rfl
  case unlinkTmp =>
    split at h
    · rename_i hx
      cases h
      have hserve : (s.procs p).phase.serves = true := by rw [hx]; rfl
      have hf := hi.fitsServer (y := { s.procs p with phase := .serving }) hserve rfl id (fun h => by cases h)
      exact hf.unlinkTmp (by rw [hx]; rfl) rfl
    · split at h
      · rename_i hx
        cases h
        exact (hi.fitsDead rfl).unlinkTmp (by rw [hx]; rfl) rfl
      · cases h
  case shutdown =>
    obtain ⟨hx, rfl, rfl⟩ := h
    exact hi.fitsServer (serves_of_handles hx) hx (fun _ => by simp [Proc.closing]) (hi.left p)
  case unlink =>
    obtain ⟨⟨hx, -⟩, rfl, rfl⟩ := h
    exact hi.fitsUnlink (serves_of_handles hx) hx (by simp [Proc.closing]) (hi.left p)
  case mark =>
    obtain ⟨⟨hx, -⟩, rfl, rfl⟩ := h
    exact hi.fitsServer (serves_of_handles hx) hx (fun _ => by simp [Proc.closing]) fun _ => rfl
  case leave =>
    obtain ⟨⟨hx, hs⟩, rfl, rfl⟩ := h
    exact hi.fitsServer (by rw [hx]; rfl) rfl id fun _ => hs
  case cleanup =>
    obtain ⟨hx, rfl, rfl⟩ := h
    have hs := hi.left p (by rw [hx]; rfl)
    exact hi.fitsUnlink (by rw [hx]; rfl) rfl (by simp [Proc.closing, hs]) fun _ => hs
  case exit =>
    obtain ⟨-, rfl, rfl⟩ := h
    exact hi.fitsDead rfl
  case crash =>
    obtain ⟨-, rfl, rfl⟩ := h
    exact hi.fitsDead rfl

theorem inductive_inv : (sys pid).InductiveIf Serialised (Inv pid) where
  init := by
    rintro s rfl
    constructor <;> intros <;> simp_all [serves]
  step := by
    intro s a s' hi hok hst
    obtain ⟨⟨y, d⟩, hy, rfl⟩ := map_eq_some_iff.mp hst
    exact hi.set (hi.fitsStep hok hy)

theorem entry_cases {d' : Dir} {b : Bool} {c : Call} (h : x.step p d b c = some (y, d')) :
    d'.entry = d.entry ∨ d.entry = none ∨ x.phase = .stale ∨ x.phase.serves = true := by
  cases c <;> simp only [Proc.step, ite_none_right_eq_some, ite_none_left_eq_some,
    some.injEq, Prod.mk.injEq, Bool.and_eq_true] at h
  case remove => exact .inr (.inr (.inl h.1))
  case link =>
    obtain ⟨-, h⟩ := h
    split at h <;> cases h
    · rename_i he
      simp only [isNone_iff_eq_none] at he
      exact .inr (.inl he.2)
    · exact .inl rfl
  case unlink => exact .inr (.inr (.inr (serves_of_handles h.1.1)))
  case cleanup => exact .inr (.inr (.inr (by rw [h.1]; rfl)))
  case start | connect | chmod | shutdown | exit | mark | leave | crash => exact .inl (by rw [← h.2.2])
  case bind =>
    obtain ⟨-, h⟩ := h
    split at h <;> cases h <;> exact .inl rfl
  case unlinkTmp =>
    split at h
    · cases h
      exact .inl rfl
    · split at h <;> cases h
      exact .inl rfl

/-- **A published socket is not displaced** in runs in which a process starts only while every other
one is settled. -/
theorem removedByOwner_of_serialised {a : Act} (h : (sys pid).ReachIf Serialised s) :
    RemovedByOwner pid s a := by
  have hi := inductive_inv.reach h
  intro s' q hst he hq hne
  have hserve := Phase.serves_of_accepts hq
  obtain ⟨⟨y, d⟩, hy, rfl⟩ := map_eq_some_iff.mp hst
  rcases entry_cases hy with hsame | hnone | hstale | hp
  · exact absurd (hsame.trans he) hne
  · rw [St.dir, he] at hnone
    cases hnone
  · rw [hi.stale a.proc q hstale hserve] at he
    cases he
  · exact hi.server a.proc q hp hserve

/-- The calls of process `p` up to its accept loop, on a path that is free. -/
def publishCalls (p : Nat) : List Act := [⟨p, .bind⟩, ⟨p, .chmod⟩, ⟨p, .link⟩, ⟨p, .unlinkTmp⟩]

/-- A server that handles a `Shutdown` removes its own entry. -/
theorem removedByOwner_shutdown : ∃ s, (sys id).ReachIf Serialised s ∧ s.entry = some 0 ∧
    (s.procs 0).phase.accepts = true ∧
    (step id s ⟨0, .unlink⟩).any (fun s' => s'.entry.isNone) = true ∧
    RemovedByOwner id s ⟨0, .unlink⟩ := by
  have hstart : (sys id).ReachIf Serialised _ :=
    .step (.init rfl) (a := ⟨0, .start⟩) (fun _ _ _ => rfl) rfl
  have hok : ∀ a ∈ publishCalls 0 ++ [⟨0, .shutdown⟩], ∀ t, Serialised t a := by
    intro a ha t h
    revert h
    simp only [publishCalls, List.cons_append, List.nil_append, List.mem_cons, List.not_mem_nil, or_false] at ha
    rcases ha with rfl | rfl | rfl | rfl | rfl <;> simp
  obtain ⟨s, hs, hp⟩ := hstart.exec_any _ hok (p := fun s => s.entry = some 0 &&
    (s.procs 0).phase.accepts && (step id s ⟨0, .unlink⟩).any (fun s' => s'.entry.isNone)) rfl
  simp only [Bool.and_eq_true, decide_eq_true_eq] at hp
  exact ⟨s, hs, hp.1.1, hp.1.2, hp.2, removedByOwner_of_serialised hs⟩

/-- Process 0 serves and crashes, and leaves its socket behind. Processes 1 and 2 find it stale;
process 2 removes it and publishes its own socket. -/
def twoStarters : List Act :=
  ⟨0, .start⟩ :: publishCalls 0 ++ [⟨0, .crash⟩, ⟨1, .start⟩, ⟨1, .connect⟩, ⟨2, .start⟩,
    ⟨2, .connect⟩, ⟨2, .remove⟩] ++ publishCalls 2

/-- Process 1 removes the socket of process 2. -/
theorem removedByOwner_fails : ¬ ∀ s a, (sys id).Reach s → RemovedByOwner id s a := by
  intro h
  obtain ⟨s, hs, hp⟩ := Sys.Reach.exec_any (.init rfl) twoStarters (S := sys id)
    (p := fun s => s.entry = some 2 && (s.procs 2).phase.accepts &&
      (step id s ⟨1, .remove⟩).any fun s' => s'.entry.isNone) (by decide +kernel)
  simp only [Bool.and_eq_true, decide_eq_true_eq, any_eq_true] at hp
  obtain ⟨⟨he, ha⟩, s', hst, hnone⟩ := hp
  have hne : s'.entry ≠ some 2 := by
    intro h2
    rw [h2] at hnone
    cases hnone
  exact absurd (h s ⟨1, .remove⟩ hs s' 2 hst he ha hne) (by decide)

end Jumpstarter.Socket
