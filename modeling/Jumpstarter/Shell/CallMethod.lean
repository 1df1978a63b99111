import Jumpstarter.Lib.Utf8
import Jumpstarter.Lib.Sys

/-!
# Calling a method of the shell driver

`call_method` runs the script of a method and yields its output as it comes, and at last its return code.

- **The output** (`faithful_iff`). Each read is decoded on its own. The text is that of the whole output
  exactly if no read ends within a UTF-8 sequence that the next byte continues.
- **The process** (`stopped_of_kept`). Only the timeout ends the script. A stream that is closed or cancelled
  in the loop leaves the script running, and nothing else does, unless the signal is denied.
-/

namespace Jumpstarter.Shell

open Lib

/-! ## The output -/

/-- What one `_read_process_output` gets from the two pipes; nothing if a read timed out. -/
structure Read where
  stdout : List UInt8 := []
  stderr : List UInt8 := []

structure Chunk where
  stdout : List Char
  stderr : List Char
  returncode : Option Int
  deriving DecidableEq

/-- `_read_process_output`, with the return code that is yielded beside it. -/
def Read.chunk (r : Read) (returncode : Option Int) : Chunk :=
  ⟨Utf8.decode r.stdout, Utf8.decode r.stderr, returncode⟩

/-- `if stdout_data or stderr_data`. -/
def Chunk.hasData (c : Chunk) : Bool := !c.stdout.isEmpty || !c.stderr.isEmpty

/-- `_run_inline_shell_script` for a script that ends before its timeout: the reads while it runs, and the
last one. -/
def runInlineShellScript (reads : List Read) (rest : Read) (returncode : Int) : List Chunk :=
  (reads.map (·.chunk none)).filter (·.hasData) ++ [rest.chunk (some returncode)]

/-- The yielded text is that of the whole output, and exactly the last chunk has the return code. -/
structure Faithful (reads : List Read) (rest : Read) (returncode : Int) (chunks : List Chunk) : Prop where
  stdout : chunks.flatMap (·.stdout) = Utf8.decode ((reads ++ [rest]).flatMap (·.stdout))
  stderr : chunks.flatMap (·.stderr) = Utf8.decode ((reads ++ [rest]).flatMap (·.stderr))
  returncode : ∃ init last, chunks = init ++ [last] ∧ last.returncode = some returncode ∧
    ∀ c ∈ init, c.returncode = none

theorem flatMap_filter_hasData {f : Chunk → List Char} (hf : ∀ c, c.hasData = false → f c = [])
    (l : List Chunk) : (l.filter (·.hasData)).flatMap f = l.flatMap f := by
  induction l with
  | nil => rfl
  | cons c l ih =>
    cases h : c.hasData with
    | true => simp [h, ih]
    | false => simp [h, ih, hf c h]

theorem flatMap_run_eq_iff {f : Chunk → List Char} {g : Read → List UInt8}
    (hf : ∀ c, c.hasData = false → f c = []) (hg : ∀ r rc, f (Read.chunk r rc) = Utf8.decode (g r))
    (reads : List Read) (rest : Read) (returncode : Int) :
    (runInlineShellScript reads rest returncode).flatMap f = Utf8.decode ((reads ++ [rest]).flatMap g) ↔
      Utf8.Aligned ((reads ++ [rest]).map g) := by
  rw [← Utf8.decodeAll_eq_iff, runInlineShellScript, List.flatMap_append, flatMap_filter_hasData hf]
  simp [hg, List.flatMap, Function.comp_def]

/-- **When the yielded text does not depend on the reads.** -/
theorem faithful_iff (reads : List Read) (rest : Read) (returncode : Int) :
    Faithful reads rest returncode (runInlineShellScript reads rest returncode) ↔
      Utf8.Aligned ((reads ++ [rest]).map (·.stdout)) ∧ Utf8.Aligned ((reads ++ [rest]).map (·.stderr)) := by
  rw [← flatMap_run_eq_iff (f := (·.stdout)) (by simp_all [Chunk.hasData]) (fun _ _ => rfl) reads rest returncode,
    ← flatMap_run_eq_iff (f := (·.stderr)) (by simp_all [Chunk.hasData]) (fun _ _ => rfl) reads rest returncode]
  constructor
  · intro h
    exact ⟨h.stdout, h.stderr⟩
  · rintro ⟨hout, herr⟩
    refine ⟨hout, herr, _, _, rfl, rfl, fun c hc => ?_⟩
    obtain ⟨r, -, rfl⟩ := List.mem_map.mp (List.mem_filter.mp hc).1
    rfl

theorem not_faithful : ¬Faithful [⟨[0xC3], []⟩] ⟨[0xA9], []⟩ 0 (runInlineShellScript [⟨[0xC3], []⟩] ⟨[0xA9], []⟩ 0) :=
  fun h => absurd h.stdout (by decide)

/-! ## The process -/

/-- Where the generator is. It is suspended at each place but `looping`. -/
inductive Place where
  | spawning
  | looping
  | reading
  | yielding
  | sleeping
  | terminating
  | ending
  | finished
  deriving DecidableEq

structure Call where
  place : Place := .spawning
  started : Bool := false
  exited : Bool := false
  /-- `process.returncode` is not `None`. -/
  returned : Bool := false
  /-- The process group has been sent `SIGTERM`. -/
  signalled : Bool := false
  deriving DecidableEq

inductive Act where
  /-- `create_subprocess_exec` returns, or raises. -/
  | spawn (raises : Bool)
  | exit
  | reap
  /-- A turn of the loop; `late` if the timeout is over, `denied` if the signal is not permitted. -/
  | turn (late denied : Bool)
  | read (data : Bool)
  | resume
  | wake
  /-- The wait after the timeout ends, and `TimeoutExpired` is raised. -/
  | expire
  | finish
  | abandon
  deriving DecidableEq

def step (s : Call) : Act → Option Call
  | .spawn raises =>
    if s.place ≠ .spawning then none
    else if raises then some { s with place := .finished } else some { s with place := .looping, started := true }
  | .exit => if s.started then some { s with exited := true } else none
  | .reap => if s.exited then some { s with returned := true } else none
  | .turn late denied =>
    if s.place ≠ .looping then none
    else if s.returned then some { s with place := .ending }
    else if late then some { s with place := .terminating, signalled := !denied }
    else some { s with place := .reading }
  | .read data =>
    if s.place = .reading then some { s with place := if data then .yielding else .sleeping } else none
  | .resume => if s.place = .yielding then some { s with place := .sleeping } else none
  | .wake => if s.place = .sleeping then some { s with place := .looping } else none
  -- `call_method` yields the error
  | .expire => if s.place = .terminating then some { s with place := .ending } else none
  | .finish => if s.place = .ending then some { s with place := .finished } else none
  | .abandon =>
    match s.place with
    | .looping | .finished => none
    -- `create_subprocess_exec` kills the process when it is cancelled
    | _ => some { s with place := .finished }

def sys : Sys Call Act := ⟨(· = {}), step⟩

/-- The stream is not given up in the loop while the script runs, and the signal is not denied. -/
def kept (s : Call) : Act → Bool
  | .turn late denied => s.exited || !late || !denied
  | .abandon => s.exited || (s.place ≠ .reading ∧ s.place ≠ .yielding ∧ s.place ≠ .sleeping)
  | _ => true

/-- The script has exited, or has been sent `SIGTERM`; or there is none. -/
def Call.Stopped (s : Call) : Prop := s.started = false ∨ s.exited = true ∨ s.signalled = true

structure Inv (s : Call) : Prop where
  spawning : s.place = .spawning → s.started = false
  returned : s.returned = true → s.exited = true
  after : s.place = .terminating ∨ s.place = .ending ∨ s.place = .finished → s.Stopped

theorem inductive_inv : sys.InductiveIf (fun s a => kept s a = true) Inv where
  init s hs := by
    rw [hs]
    exact ⟨fun _ => rfl, nofun, fun _ => .inl rfl⟩
  step s a s' hi hok hst := by
    obtain ⟨hspawning, hreturned, hafter⟩ := hi
    unfold Call.Stopped at hafter
    cases a with
    | abandon =>
      simp only [sys, step, kept] at hst hok
      refine ⟨by grind, by grind, fun _ => ?_⟩
      unfold Call.Stopped
      cases hp : s.place <;> grind
    | _ =>
      simp only [sys, step, kept] at hst hok
      exact ⟨by grind, by grind, by unfold Call.Stopped; grind⟩

/-- **A call does not leave its script running**, in every run in which the stream is not given up in the
loop while the script runs. -/
theorem stopped_of_kept {s : Call} (hs : sys.ReachIf (fun s a => kept s a = true) s)
    (hf : s.place = .finished) : s.Stopped :=
  (inductive_inv.reach hs).after (.inr (.inr hf))

theorem stopped_of_kept_timeout : ∃ s : Call, s.place = .finished ∧ s.exited = false ∧ s.Stopped := by
  have hrun : ((sys.execIf kept {} [.spawn false, .turn false false, .read true, .resume, .wake,
      .turn true false, .expire, .finish]).any fun s => s.place = .finished ∧ s.exited = false) = true := by
    decide
  obtain ⟨s, hs, hp⟩ := Sys.ReachIf.execIf_any (.init rfl) _ hrun
  obtain ⟨hf, he⟩ := of_decide_eq_true hp
  exact ⟨s, hf, he, stopped_of_kept hs hf⟩

theorem not_stopped : ∃ s : Call, sys.Reach s ∧ s.place = .finished ∧ ¬s.Stopped :=
  ⟨_, Sys.Reach.exec (.init rfl) [.spawn false, .turn false false, .read true, .abandon] rfl, rfl, by
    unfold Call.Stopped
    decide⟩

end Jumpstarter.Shell
