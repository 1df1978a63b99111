import Jumpstarter.Exec.Server
import Jumpstarter.Lib.Threads

/-!
# The signals of a `jumpstarter-exec` server

A `kill` goes to a child of the server only if the child is not yet reaped: after `wait` its pid may
be that of another process. The reader thread checks `reaped` before it kills, and the handlers of
`Shutdown` and the accept loop take the pids from the set of children; all three kill later.

`killsLive_of_orderly`: every `kill` is issued for a child that is not reaped, in runs in which no
child is reaped while a `kill` of its pid is due, and in which nobody reads `reaped` or the set of
children between the `wait` of a child and the update (`orderly`). `killsLive_fails`: the reader
finds `reaped` unset, the child is reaped, and the reader kills.
-/

namespace Jumpstarter.ExecServer

open Lib List

/-! ## The property -/

/-- A `kill` of the action is for the pid of a child that is not reaped. -/
def KillsLive (s : St) (a : Act) : Prop :=
  ∀ s' pid, step s a = some s' → s.target a = some pid → ∃ h ∈ s.handlers, h.exec.live = some pid

def Reader.aims : Reader → Bool
  | .signalling _ | .terminating => true
  | _ => false

/-- The pids that the accept loop has still to signal. -/
def Main.pids : Main → List Nat
  | .killing pids => pids
  | _ => []

/-- The pids that a `Shutdown` handler or the accept loop has still to signal. -/
def St.due (s : St) : List Nat := s.killers.flatten ++ s.main.pids

/-- The child is reaped, and its pid may still be in the set of children. -/
def Exec.leaving : Exec → Bool
  | .waited _ | .stored _ => true
  | _ => false

/-- A step of handler `h` that is in order. -/
@[simp] def Handler.orderly (due : List Nat) (h : Handler) : Move → Bool
  | .wait => !h.reader.aims && h.exec.pid.all (· ∉ due)
  | .signal _ | .lastLoad => match h.exec with
    | .waited _ => false
    | _ => true
  | _ => true

/-- A child is reaped only while no `kill` of its pid is due, and `reaped` and the set of children
are read only while they are up to date. -/
def orderly (s : St) : Act → Bool
  | .handler i m => s.handlers[i]?.all fun h => h.orderly s.due m
  | .beginShutdown | .leave => s.handlers.all fun h => !h.exec.leaving
  | _ => true

/-! ## The invariant -/

variable {s s' : St} {h h' : Handler} {life life' : Lifecycle} {m : Move} {p : Nat}

/-- A child whose handler reads `reaped` as unset is not reaped, but for the time after `wait`. -/
structure Handler.Safe (h : Handler) : Prop where
  aims : h.reader.aims = true → ∃ p, h.exec = .running p
  watch : h.reader ≠ .none → h.reaped = false → ∃ p, h.exec = .running p ∨ h.exec = .waited p

theorem Handler.Safe.setExec (hs : h.Safe) (hr : ∀ p, h.exec ≠ .running p) (hw : ∀ p, h.exec ≠ .waited p)
    (x : Exec) (b : Bool) : Handler.Safe { h with exec := x, early := b } where
  aims ha := by
    obtain ⟨p, hp⟩ := hs.aims ha
    exact absurd hp (hr p)
  watch hn hf := by
    obtain ⟨p, hp | hp⟩ := hs.watch hn hf
    · exact absurd hp (hr p)
    · exact absurd hp (hw p)

theorem Handler.Safe.moved {due : List Nat} (hs : h.Safe) (hm : Moved life h m h' life')
    (hok : h.orderly due m = true) : h'.Safe := by
  cases hm with
  | refuse he | spawn p he => exact hs.setExec (by simp [he]) (by simp [he]) _ _
  | reject p he | register p life' he => exact hs.setExec (by simp [he]) (by simp [he]) _ _
  | terminate p he | waitTerminated p he => exact hs.setExec (by simp [he]) (by simp [he]) _ _
  | abandon p he | unregister p he => exact hs.setExec (by simp [he]) (by simp [he]) _ _
  | finish p he => exact hs.setExec (by simp [he]) (by simp [he]) _ _
  | wait p he =>
    refine ⟨fun ha => ?_, fun _ _ => ⟨p, .inr rfl⟩⟩
    simp [ha] at hok
  | started p he => exact ⟨fun ha => (by cases ha), fun _ _ => ⟨p, .inl rfl⟩⟩
  | store p he =>
    refine ⟨fun ha => ?_, fun _ hf => by cases hf⟩
    obtain ⟨q, hq⟩ := hs.aims ha
    rw [he] at hq
    cases hq
  | read m r hn hr hload =>
    refine ⟨fun ha => ?_, fun _ hf => hs.watch hn hf⟩
    obtain ⟨hf, hm⟩ := hload (by revert ha; cases r <;> simp [Reader.aims])
    obtain ⟨p, hp | hp⟩ := hs.watch hn hf
    · exact ⟨p, hp⟩
    · rcases hm with rfl | ⟨sig, rfl⟩ <;> simp [hp] at hok

theorem Moved.live (hm : Moved life h m h' life') (hl : h.exec.live = some p) :
    h'.exec.live = some p ∨ m = .wait ∧ h.exec.pid = some p := by
  cases hm with
  | refuse he | spawn _ he | store _ he | unregister _ he | finish _ he =>
    rw [he] at hl
    cases hl
  | reject _ he | register _ _ he | terminate _ he | started _ he | abandon _ he =>
    rw [he] at hl
    exact .inl hl
  | wait _ he | waitTerminated _ he =>
    rw [he] at hl
    exact .inr ⟨rfl, by rw [he]; exact hl⟩
  | read => exact .inl hl

theorem Exec.live_of_held {x : Exec} (h : x.held = some p) (hl : x.leaving = false) : x.live = some p := by
  cases x <;> simp_all [Exec.held, Exec.live, Exec.leaving]
  rename_i b
  cases b <;> simp_all

structure Inv (s : St) : Prop where
  safe : ∀ h ∈ s.handlers, h.Safe
  children : ∀ p ∈ s.life.children, ∃ h ∈ s.handlers, h.exec.held = some p
  due : ∀ p ∈ s.due, ∃ h ∈ s.handlers, h.exec.live = some p

theorem Inv.children_live (hi : Inv s) (hl : s.handlers.all (fun h => !h.exec.leaving) = true) :
    ∀ p ∈ s.life.children, ∃ h ∈ s.handlers, h.exec.live = some p := by
  intro p hp
  obtain ⟨h, hh, hp⟩ := hi.children p hp
  have hnot : h.exec.leaving = false := by simpa using all_eq_true.mp hl h hh
  exact ⟨h, hh, Exec.live_of_held hp hnot⟩

theorem mem_due : p ∈ s.due ↔ (∃ pids ∈ s.killers, p ∈ pids) ∨ p ∈ s.main.pids := by
  rw [St.due, mem_append, mem_flatten]

theorem Inv.setDue (hi : Inv s) (hh : s'.handlers = s.handlers)
    (hc : s'.life.children = s.life.children)
    (hd : ∀ p ∈ s'.due, p ∈ s.due ∨ s.handlers.all (fun h => !h.exec.leaving) = true ∧
      p ∈ s.life.children) : Inv s' where
  safe := by rw [hh]; exact hi.safe
  children := by rw [hh, hc]; exact hi.children
  due p hp := by
    rw [hh]
    rcases hd p hp with hp | ⟨hl, hp⟩
    · exact hi.due p hp
    · exact hi.children_live hl p hp

theorem Inv.stepped {a : Act} (hi : Inv s) (hok : orderly s a = true) (hst : Stepped s a s') : Inv s' := by
  cases hst with
  | request =>
    refine ⟨forall_mem_concat hi.safe ?_, ?_, ?_⟩
    · exact ⟨fun ha => (by cases ha), fun hn => absurd rfl hn⟩
    · exact fun p hp => exists_mem_concat (hi.children p hp)
    · exact fun p hp => exists_mem_concat (hi.due p hp)
  | move i m h h' life' hget _ hm =>
    have hmem := mem_of_getElem? hget
    have hord : h.orderly s.due m = true := by simpa [orderly, hget] using hok
    refine ⟨forall_mem_set hi.safe ((hi.safe h hmem).moved hm hord), ?_, ?_⟩
    · intro p hp
      rcases hm.held hp with hheld | ⟨hp, hkeep⟩
      · exact ⟨h', mem_set_of hget, hheld⟩
      · exact exists_mem_set hget hkeep (hi.children p hp)
    · intro p hp
      refine exists_mem_set hget (fun hl => ?_) (hi.due p hp)
      rcases hm.live hl with hl | ⟨rfl, hpid⟩
      · exact hl
      · have hp : p ∈ s.due := hp
        simp [hpid, hp] at hord
  | beginShutdown =>
    refine hi.setDue rfl rfl fun p hp => ?_
    rcases mem_due.mp hp with ⟨pids, hpids, hp⟩ | hp
    · rcases mem_append.mp hpids with hpids | hpids
      · exact .inl (mem_due.mpr (.inl ⟨pids, hpids, hp⟩))
      · exact .inr ⟨hok, mem_singleton.mp hpids ▸ hp⟩
    · exact .inl (mem_due.mpr (.inr hp))
  | kill k pid pids hk =>
    refine hi.setDue rfl rfl fun p hp => .inl (mem_due.mpr ?_)
    rcases mem_due.mp hp with ⟨l, hl, hpl⟩ | hp
    · rcases mem_or_eq_of_mem_set hl with hl | rfl
      · exact .inl ⟨l, hl, hpl⟩
      · exact .inl ⟨_, mem_of_getElem? hk, mem_cons_of_mem _ hpl⟩
    · exact .inr hp
  | leave =>
    refine hi.setDue rfl rfl fun p hp => ?_
    rcases mem_due.mp hp with hp | hp
    · exact .inl (mem_due.mpr (.inl hp))
    · exact .inr ⟨hok, hp⟩
  | killLeftover pid pids hmain =>
    refine hi.setDue rfl rfl fun p hp => .inl (mem_due.mpr ?_)
    rcases mem_due.mp hp with hp | hp
    · exact .inl hp
    · rw [hmain]
      exact .inr (mem_cons_of_mem _ hp)
  | exit =>
    refine hi.setDue rfl rfl fun p hp => .inl (mem_due.mpr ?_)
    rcases mem_due.mp hp with hp | hp
    · exact .inl hp
    · cases hp

theorem inductive_inv : sys.InductiveIf (fun s a => orderly s a = true) Inv where
  init := by
    rintro s rfl
    exact ⟨fun _ hh => (by cases hh), fun _ hp => (by cases hp), fun _ hp => (by cases hp)⟩
  step := fun _ _ _ hi hok hst => hi.stepped hok (step_cases hst)

theorem Handler.Safe.target_live (hs : h.Safe) (ht : h.target m = some p) : h.exec.live = some p := by
  have haims : h.reader.aims = true → h.exec.pid = some p → h.exec.live = some p := by
    intro ha hp
    obtain ⟨q, hq⟩ := hs.aims ha
    rw [hq] at hp ⊢
    exact hp
  cases m with
  | terminate =>
    simp only [Handler.target] at ht
    split at ht
    · rename_i he
      rw [he]
      exact ht
    · cases ht
  | sendSignal | lastKill =>
    simp only [Handler.target] at ht
    split at ht
    · rename_i he
      exact haims (by rw [he]; rfl) ht
    · cases ht
  | _ => cases ht

/-- **Signals reach only live children** in orderly runs. -/
theorem killsLive_of_orderly {a : Act} (hr : sys.ReachIf (fun s a => orderly s a = true) s) :
    KillsLive s a := by
  have hi := inductive_inv.reach hr
  intro s' pid _ ht
  cases a with
  | handler i m =>
    obtain ⟨h, hget, ht⟩ := Option.bind_eq_some_iff.mp ht
    have hmem := mem_of_getElem? hget
    exact ⟨h, hmem, (hi.safe h hmem).target_live ht⟩
  | kill k =>
    obtain ⟨pids, hk, hp⟩ := Option.bind_eq_some_iff.mp ht
    exact hi.due pid (mem_due.mpr (.inl ⟨pids, mem_of_getElem? hk, mem_of_mem_head? hp⟩))
  | killLeftover =>
    refine hi.due pid (mem_due.mpr (.inr ?_))
    simp only [St.target] at ht
    split at ht
    · rename_i hmain
      rw [hmain]
      exact mem_of_mem_head? ht
    · cases ht
  | _ => cases ht

/-- An `Exec` whose child, with pid 7, runs. -/
def runChild : List Act :=
  [.request, .handler 0 (.spawn 7), .handler 0 .register, .handler 0 (.started true)]

/-- The reader signals the running child. -/
theorem killsLive_signal : ∃ s, sys.ReachIf (fun s a => orderly s a = true) s ∧
    s.target (.handler 0 .sendSignal) = some 7 ∧ KillsLive s (.handler 0 .sendSignal) := by
  have hrun : ((sys.execIf orderly {} (runChild ++ [.handler 0 (.signal 2)])).any fun s =>
      s.target (.handler 0 .sendSignal) = some 7) = true := by
    decide +kernel
  obtain ⟨s, hs, hp⟩ := Sys.ReachIf.execIf_any (.init rfl) _ hrun
  exact ⟨s, hs, of_decide_eq_true hp, killsLive_of_orderly hs⟩

/-- The child exits and is reaped after the reader found `reaped` unset. -/
theorem killsLive_fails : ¬ ∀ s a, sys.Reach s → KillsLive s a := by
  intro h
  have hrun : ((sys.exec {} (runChild ++ [.handler 0 (.signal 2), .handler 0 .wait])).any fun s =>
      (step s (.handler 0 .sendSignal)).isSome && s.target (.handler 0 .sendSignal) = some 7 &&
        s.handlers.all fun h => h.exec.live ≠ some 7) = true := by
    decide +kernel
  obtain ⟨s, hs, hp⟩ := Sys.Reach.exec_any (.init rfl) _ hrun
  simp only [Bool.and_eq_true, decide_eq_true_eq, all_eq_true, Option.isSome_iff_exists] at hp
  obtain ⟨⟨⟨s', hst⟩, ht⟩, hnot⟩ := hp
  obtain ⟨x, hx, hl⟩ := h s _ hs s' 7 hst ht
  exact hnot x hx hl

end Jumpstarter.ExecServer
