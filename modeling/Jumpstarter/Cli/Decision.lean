import Mathlib
import Jumpstarter.Cli.Supervisor

/-!
# What the supervisor makes of the end of its children

The runs of the supervisor together with a record of its children: how each of them ended, and the time
from before its fork until the supervisor looks at the clock again. `Decides` and `Continues` say what
`_serve_with_exc_handling` is to do after such a record, without its loop: it returns the code of the
first child that fails, 0 after the first child with `exit_on_lease_end`, and 1 after
`max(1, max_rapid_failures)` children in a row that ended with code 0 within the window.

As process 1 the supervisor reaps a child in its `SIGCHLD` handler. Until the handlers of a new child are
installed, that is the handler of the last child, which drops the status of another one. `_wait_for_child`
then has no status, which is read as a request to restart (`decision_dropped`).
-/

namespace Jumpstarter.Decision

open Lib Supervisor List Option

variable {Time : Type} [LinearOrder Time]

/-! ## The record -/

/-- The end of a child, and the time that the supervisor measures for it. -/
structure Fate (Time : Type) where
  status : Status
  elapsed : Time

structure Run (Time : Type) where
  s : St := {}
  fates : List (Fate Time) := []

inductive Move (Time : Type) where
  /-- `_wait_for_child` returns; `elapsed` is the time that is measured after that. -/
  | wait (elapsed : Time)
  /-- The part of the loop after `_handle_parent` has returned `None`. -/
  | restart
  | other (a : Act)

def step (cfg : Config) (window : Time) (r : Run Time) : Move Time → Option (Run Time)
  | .wait elapsed =>
    match r.s.child.place with
    | .ended status =>
      (Supervisor.step cfg r.s .wait).map fun s => ⟨s, r.fates ++ [⟨status, elapsed⟩]⟩
    | _ => none
  | .restart =>
    match r.fates.getLast? with
    | some f => (Supervisor.step cfg r.s (.restart (f.elapsed < window))).map fun s => ⟨s, r.fates⟩
    | none => none
  | .other .wait => none
  | .other (.restart _) => none
  | .other a => (Supervisor.step cfg r.s a).map fun s => ⟨s, r.fates⟩

def sys (cfg : Config) (window : Time) : Sys (Run Time) (Move Time) :=
  ⟨fun r => r = {}, step cfg window⟩

/-! ## What the record calls for -/

inductive FailsWith : Status → Nat → Prop
  | exited {code : Nat} : code ≠ 0 → FailsWith (.exited code) code
  | killed (n : Nat) : FailsWith (.signaled n) (128 + n)

/-- The last `n` children ended within the window. -/
def Rapid (window : Time) (n : Nat) (fates : List (Fate Time)) : Prop :=
  ∃ before block, fates = before ++ block ∧ block.length = n ∧ ∀ f ∈ block, f.elapsed < window

structure Continues (cfg : Config) (window : Time) (fates : List (Fate Time)) : Prop where
  zero : ∀ f ∈ fates, f.status = .exited 0
  lease : cfg.exitOnLeaseEnd = true → fates = []
  rapid : ∀ earlier, earlier <+: fates → ¬ Rapid window (max 1 cfg.maxRapidFailures) earlier

/-- The supervisor returns `code` after these. -/
def Decides (cfg : Config) (window : Time) (fates : List (Fate Time)) (code : Nat) : Prop :=
  ∃ earlier last, fates = earlier ++ [last] ∧ Continues cfg window earlier ∧
    (FailsWith last.status code ∨
      last.status = .exited 0 ∧
        (cfg.exitOnLeaseEnd = true ∧ code = 0 ∨
          cfg.exitOnLeaseEnd = false ∧ code = 1 ∧ Rapid window (max 1 cfg.maxRapidFailures) fates))

/-- The supervisor has done what the record calls for, and every child is in the record but the one that
it has not waited for. -/
def Matches (cfg : Config) (window : Time) (r : Run Time) : Prop :=
  match r.s.phase with
  | .top => r.s.forks = r.fates.length ∧ Continues cfg window r.fates
  | .installing _ | .waiting => r.s.forks = r.fates.length + 1 ∧ Continues cfg window r.fates
  | .waited _ | .restarting => r.s.forks = r.fates.length ∧ Continues cfg window r.fates.dropLast
  | .returned code => r.s.forks = r.fates.length ∧ Decides cfg window r.fates code

/-- When the supervisor as process 1 handles `SIGCHLD` with the handler of another child, the child has not
ended, or was reaped, or has exited with code 0. -/
def caught (cfg : Config) (r : Run Time) : Move Time → Bool
  | .other (.handle .chld) =>
    !cfg.isInit || r.s.handlers .chld = some r.s.forks || r.s.child.reaped ||
      match r.s.child.place with
      | .ended status => !status.isFailure
      | _ => true
  | _ => true

/-! ## Rapid failures -/

section Rapid

variable {window : Time} {fates : List (Fate Time)} {f : Fate Time}

def trailing (window : Time) (fates : List (Fate Time)) : Nat :=
  (fates.reverse.takeWhile fun f => decide (f.elapsed < window)).length

theorem trailing_append (window : Time) (fates : List (Fate Time)) (f : Fate Time) :
    trailing window (fates ++ [f]) = if f.elapsed < window then trailing window fates + 1 else 0 := by
  unfold trailing
  by_cases h : f.elapsed < window <;> simp [h]

theorem rapid_iff {n : Nat} : Rapid window n fates ↔ n ≤ trailing window fates := by
  constructor
  · rintro ⟨before, block, rfl, rfl, hblock⟩
    unfold trailing
    rw [reverse_append, takeWhile_append_of_pos, length_append, length_reverse]
    · exact Nat.le_add_right _ _
    · intro f hf
      exact decide_eq_true (hblock f (mem_reverse.mp hf))
  · intro hn
    refine ⟨(fates.reverse.drop n).reverse, (fates.reverse.take n).reverse, ?_, ?_, fun f hf => ?_⟩
    · rw [← reverse_append, take_append_drop, reverse_reverse]
    · rw [length_reverse, length_take]
      exact Nat.min_eq_left (hn.trans ( takeWhile_prefix _).length_le)
    · have hle : fates.reverse.take n <+: fates.reverse.takeWhile fun f => decide (f.elapsed < window) :=
        prefix_of_prefix_length_le ( take_prefix n _) ( takeWhile_prefix _) ((length_take_le n _).trans hn)
      simpa using mem_takeWhile_imp (hle.subset (mem_reverse.mp hf))

end Rapid

/-! ## The invariant -/

variable {status : Status} {m : Move Time}

section Inv

variable {cfg : Config} {window : Time} {r r' : Run Time} {s s' : St} {c c' : Child}

/-- What the supervisor knows of a child that it has not waited for. -/
structure Known (s : St) : Prop where
  unread : s.child.reaped = false → s.childInfo = none
  read : s.child.reaped = true →
    ∃ status, s.child.place = .ended status ∧ exitCodeOf s.childInfo = exitCodeOf (some status)

/-- The supervisor goes on after `fates`, and the counter is that of the rapid failures. -/
structure Going (cfg : Config) (window : Time) (s : St) (fates : List (Fate Time)) : Prop
    extends Continues cfg window fates where
  count : s.rapidFailureCount = trailing window fates

/-- The invariant, by the place of the supervisor. -/
def Inv (cfg : Config) (window : Time) (r : Run Time) : Prop :=
  match r.s.phase with
  | .top => r.s.forks = r.fates.length ∧ Going cfg window r.s r.fates
  | .installing _ | .waiting =>
    r.s.forks = r.fates.length + 1 ∧ Going cfg window r.s r.fates ∧ Known r.s
  | .waited status =>
    r.s.forks = r.fates.length ∧ ∃ earlier last, r.fates = earlier ++ [last] ∧
      Going cfg window r.s earlier ∧ exitCodeOf status = exitCodeOf (some last.status)
  | .restarting =>
    r.s.forks = r.fates.length ∧ ∃ earlier last, r.fates = earlier ++ [last] ∧
      Going cfg window r.s earlier ∧ last.status = .exited 0
  | .returned code => r.s.forks = r.fates.length ∧ Decides cfg window r.fates code

theorem Inv.matches_record (h : Inv cfg window r) : Matches cfg window r := by
  unfold Inv at h
  unfold Matches
  cases hp : r.s.phase <;> rw [hp] at h <;> simp only at h ⊢
  case top => exact ⟨h.1, h.2.toContinues⟩
  case installing => exact ⟨h.1, h.2.1.toContinues⟩
  case waiting => exact ⟨h.1, h.2.1.toContinues⟩
  case waited =>
    obtain ⟨hf, earlier, last, hfates, hgo, -⟩ := h
    rw [hfates, dropLast_concat]
    exact ⟨hfates ▸ hf, hgo.toContinues⟩
  case restarting =>
    obtain ⟨hf, earlier, last, hfates, hgo, -⟩ := h
    rw [hfates, dropLast_concat]
    exact ⟨hfates ▸ hf, hgo.toContinues⟩
  case returned => exact h

theorem exitCodeOf_some_eq_none (h : exitCodeOf (some status) = none) : status = .exited 0 := by
  cases status with
  | exited code =>
    by_cases hc : code = 0
    · rw [hc]
    · simp [exitCodeOf, hc] at h
  | signaled n => cases h

theorem failsWith_of_exitCodeOf {code : Nat} (h : exitCodeOf (some status) = some code) :
    FailsWith status code := by
  cases status with
  | exited c =>
    by_cases hc : c = 0
    · simp [exitCodeOf, hc] at h
    · have : c = code := by simpa [exitCodeOf, hc] using h
      exact this ▸ .exited hc
  | signaled n =>
    have : 128 + n = code := Option.some.inj h
    exact this ▸ .killed n

theorem step_ended {a : ChildStep} (he : c.place = .ended status) (hst : c.step a = some c') :
    c'.place = .ended status := by
  cases a with
  | handleSignal =>
    simp only [Child.step] at hst
    split at hst <;> cases hst
    unfold Child.handleSignal
    split
    · exact he
    · split <;> exact he
  | die => simp [Child.step, he, Place.isEnded] at hst
  | _ => simp [Child.step, he] at hst

theorem Known.childStep {a : ChildStep} (h : Known s) (hst : s.child.step a = some c) :
    Known { s with child := c } := by
  have hreaped := (Child.step_frame hst).1
  refine ⟨fun hr => h.unread (hreaped ▸ hr), fun hr => ?_⟩
  obtain ⟨status, he, hcode⟩ := h.read (hreaped ▸ hr)
  exact ⟨status, step_ended he hst, hcode⟩

theorem Known.forward (h : Known s) (sig : Signal) (pid : Nat) : Known (s.forward sig pid) := by
  have hreaped : (s.forward sig pid).child.reaped = s.child.reaped := by
    simp only [St.forward]
    split
    · exact Child.deliver_frame.1
    · rfl
  refine ⟨fun hr => h.unread (hreaped ▸ hr), fun hr => ?_⟩
  rw [hreaped] at hr
  obtain ⟨status, he, hcode⟩ := h.read hr
  refine ⟨status, ?_, hcode⟩
  simp [St.forward, hr, he]

theorem Known.reapZombies (h : Known s) {pid : Nat}
    (hpid : pid = s.forks ∨ s.child.reaped = true ∨
      ∀ status, s.child.place = .ended status → status.isFailure = false) :
    Known (s.reapZombies pid) := by
  unfold St.reapZombies
  split
  · rename_i status he
    split
    · exact h
    · rename_i hr
      refine ⟨nofun, fun _ => ⟨status, he, ?_⟩⟩
      by_cases hf : pid = s.forks
      · simp [hf]
      · have hzero : status.isFailure = false := (hpid.resolve_left hf).resolve_left hr status he
        have hnone : exitCodeOf (some status) = none := by
          cases hcode : exitCodeOf (some status) with
          | none => rfl
          | some code =>
            cases failsWith_of_exitCodeOf hcode with
            | exited hc => simp [Status.isFailure, hc] at hzero
            | killed n => cases hzero
        rw [hnone]
        simp [hf, h.unread (by simpa using hr), exitCodeOf]
  · exact h

/-- The steps that leave the place of the supervisor: signals and the child's own. -/
def isOther : Act → Bool
  | .handle _ | .child _ => true
  | _ => false

variable {a : Act}

theorem step_other (ha : isOther a = true) (hst : Supervisor.step cfg s a = some s') :
    s'.phase = s.phase ∧ s'.forks = s.forks ∧ s'.rapidFailureCount = s.rapidFailureCount := by
  cases a with
  | handle sig =>
    simp only [Supervisor.step] at hst
    split at hst
    · cases hst
    · split at hst
      · cases hst
        split
        · unfold St.reapZombies
          split
          · split <;> exact ⟨rfl, rfl, rfl⟩
          · exact ⟨rfl, rfl, rfl⟩
        · exact ⟨rfl, rfl, rfl⟩
      · cases hst
        exact ⟨rfl, rfl, rfl⟩
  | child a =>
    obtain ⟨c, -, rfl⟩ := map_eq_some_iff.mp hst
    exact ⟨rfl, rfl, rfl⟩
  | _ => cases ha

omit [LinearOrder Time] in
theorem Known.other (ha : isOther a = true) (h : Known s) {fates : List (Fate Time)}
    (hok : caught cfg (⟨s, fates⟩ : Run Time) (.other a) = true) (hst : Supervisor.step cfg s a = some s') :
    Known s' := by
  cases a with
  | handle sig =>
    simp only [Supervisor.step] at hst
    split at hst
    · cases hst
    · rename_i pid hpid
      split at hst
      · rename_i hsig
        subst hsig
        cases hst
        split
        · rename_i hinit
          refine h.reapZombies ?_
          simp only [caught, hinit, hpid, some.injEq, Bool.not_true, Bool.false_or,
            Bool.or_eq_true, decide_eq_true_eq] at hok
          rcases hok with (hp | hr) | hzero
          · exact .inl hp
          · exact .inr (.inl hr)
          · refine .inr (.inr fun status he => ?_)
            simpa [he] using hzero
        · exact h
      · cases hst
        exact h.forward sig pid
  | child a =>
    obtain ⟨c, hc, rfl⟩ := map_eq_some_iff.mp hst
    exact h.childStep hc
  | _ => cases ha

theorem Going.append {earlier : List (Fate Time)} {last : Fate Time}
    (h : Going cfg window s earlier) (hzero : last.status = .exited 0)
    (hlease : cfg.exitOnLeaseEnd = false)
    (hfew : trailing window (earlier ++ [last]) < max 1 cfg.maxRapidFailures) :
    Continues cfg window (earlier ++ [last]) := by
  refine ⟨fun f hf => ?_, fun hl => ?_, fun p hp => ?_⟩
  · rcases mem_append.mp hf with hf | hf
    · exact h.zero f hf
    · rw [mem_singleton.mp hf]
      exact hzero
  · rw [hlease] at hl
    cases hl
  · rcases prefix_concat_iff.mp hp with rfl | hp
    · rw [rapid_iff]
      omega
    · exact h.rapid p hp

section

variable (h : Inv cfg window r)
include h

theorem inv_wait {elapsed : Time} (hst : step cfg window r (.wait elapsed) = some r') : Inv cfg window r' := by
  simp only [step] at hst
  split at hst
  · rename_i status he
    obtain ⟨s', hs, rfl⟩ := map_eq_some_iff.mp hst
    simp only [Supervisor.step, he] at hs
    split at hs
    · rename_i status' hp hplace
      cases hplace
      simp only [Inv, hp] at h
      obtain ⟨hf, hgo, hknown⟩ := h
      split at hs
      · rename_i hr
        cases hs
        obtain ⟨status', he', hcode⟩ := hknown.read hr
        rw [he] at he'
        cases he'
        exact ⟨by simp [hf], r.fates, _, rfl, ⟨hgo.toContinues, hgo.count⟩, hcode⟩
      · cases hs
        exact ⟨by simp [hf], r.fates, _, rfl, ⟨hgo.toContinues, hgo.count⟩, rfl⟩
    · cases hs
  · cases hst

theorem inv_restart (hst : step cfg window r .restart = some r') : Inv cfg window r' := by
  simp only [step] at hst
  split at hst
  · rename_i f hlast
    obtain ⟨s', hs, rfl⟩ := map_eq_some_iff.mp hst
    simp only [Supervisor.step] at hs
    split at hs
    · rename_i hp
      simp only [Inv, hp] at h
      obtain ⟨hf, earlier, last, hfates, hgo, hzero⟩ := h
      have hfl : last = f := by
        rw [hfates, getLast?_concat] at hlast
        exact Option.some.inj hlast
      subst hfl
      have htrail := trailing_append window earlier last
      split at hs
      · rename_i hlease
        cases hs
        exact ⟨hf, earlier, last, hfates, hgo.toContinues, .inr ⟨hzero, .inl ⟨hlease, rfl⟩⟩⟩
      · rename_i hlease
        have hlease : cfg.exitOnLeaseEnd = false := Bool.eq_false_iff.mpr hlease
        by_cases hquick : last.elapsed < window
        · rw [if_pos hquick, ← hgo.count] at htrail
          simp only [hquick, decide_true, if_true] at hs
          split at hs
          · cases hs
            refine ⟨hf, earlier, last, hfates, hgo.toContinues, .inr ⟨hzero, .inr ⟨hlease, rfl, ?_⟩⟩⟩
            rw [rapid_iff, hfates, htrail]
            omega
          · cases hs
            refine ⟨hf, ?_, ?_⟩
            · rw [hfates]
              exact hgo.append hzero hlease (by rw [htrail]; omega)
            · rw [hfates, htrail]
        · rw [if_neg hquick] at htrail
          simp only [hquick, decide_false, Bool.false_eq_true, if_false] at hs
          cases hs
          refine ⟨hf, ?_, ?_⟩
          · rw [hfates]
            exact hgo.append hzero hlease (by rw [htrail]; omega)
          · rw [hfates, htrail]
    · cases hs
  · cases hst

theorem inv_fork (hst : step cfg window r (.other .fork) = some r') : Inv cfg window r' := by
  obtain ⟨s', hs, rfl⟩ := map_eq_some_iff.mp hst
  simp only [Supervisor.step] at hs
  split at hs
  · rename_i hp
    cases hs
    simp only [Inv, hp] at h
    exact ⟨by simp [h.1], ⟨h.2.toContinues, h.2.count⟩, fun _ => rfl, fun hreaped => by cases hreaped⟩
  · cases hs

theorem inv_install (hst : step cfg window r (.other .install) = some r') : Inv cfg window r' := by
  obtain ⟨s', hs, rfl⟩ := map_eq_some_iff.mp hst
  simp only [Supervisor.step] at hs
  split at hs
  · rename_i sig signals hp
    cases hs
    simp only [Inv, hp] at h
    exact ⟨h.1, ⟨h.2.1.toContinues, h.2.1.count⟩, ⟨h.2.2.unread, h.2.2.read⟩⟩
  · rename_i hp
    cases hs
    simp only [Inv, hp] at h
    exact ⟨h.1, ⟨h.2.1.toContinues, h.2.1.count⟩, ⟨h.2.2.unread, h.2.2.read⟩⟩
  · cases hs

theorem inv_decide (hst : step cfg window r (.other .decide) = some r') : Inv cfg window r' := by
  obtain ⟨s', hs, rfl⟩ := map_eq_some_iff.mp hst
  simp only [Supervisor.step] at hs
  split at hs
  · rename_i status hp
    simp only [Inv, hp] at h
    obtain ⟨hf, earlier, last, hfates, hgo, hcode⟩ := h
    split at hs
    · rename_i code hsome
      cases hs
      exact ⟨hf, earlier, last, hfates, hgo.toContinues, .inl (failsWith_of_exitCodeOf (hcode ▸ hsome))⟩
    · rename_i hnone
      cases hs
      exact ⟨hf, earlier, last, hfates, ⟨hgo.toContinues, hgo.count⟩, exitCodeOf_some_eq_none (hcode ▸ hnone)⟩
  · cases hs

end

theorem inv_other (ha : isOther a = true) (h : Inv cfg window r) (hok : caught cfg r (.other a) = true)
    (hst : step cfg window r (.other a) = some r') : Inv cfg window r' := by
  have hst' : (Supervisor.step cfg r.s a).map (fun s => (⟨s, r.fates⟩ : Run Time)) = some r' := by
    cases a <;> first | exact hst | cases ha
  obtain ⟨s', hs, rfl⟩ := map_eq_some_iff.mp hst'
  obtain ⟨hphase, hforks, hcount⟩ := step_other ha hs
  have hgo : ∀ fates, Going cfg window r.s fates → Going cfg window s' fates :=
    fun fates hg => ⟨hg.toContinues, hcount.trans hg.count⟩
  unfold Inv at h ⊢
  rw [hphase, hforks]
  cases hp : r.s.phase <;> rw [hp] at h <;> simp only at h ⊢
  case top => exact ⟨h.1, hgo _ h.2⟩
  case installing => exact ⟨h.1, hgo _ h.2.1, h.2.2.other ha hok hs⟩
  case waiting => exact ⟨h.1, hgo _ h.2.1, h.2.2.other ha hok hs⟩
  case waited =>
    obtain ⟨hf, earlier, last, hfates, hg, hcode⟩ := h
    exact ⟨hf, earlier, last, hfates, hgo _ hg, hcode⟩
  case restarting =>
    obtain ⟨hf, earlier, last, hfates, hg, hzero⟩ := h
    exact ⟨hf, earlier, last, hfates, hgo _ hg, hzero⟩
  case returned => exact h

theorem inv_step (h : Inv cfg window r) (hok : caught cfg r m = true) (hst : step cfg window r m = some r') :
    Inv cfg window r' := by
  cases m with
  | wait elapsed => exact inv_wait h hst
  | restart => exact inv_restart h hst
  | other a =>
    cases a with
    | fork => exact inv_fork h hst
    | install => exact inv_install h hst
    | handle sig => exact inv_other rfl h hok hst
    | wait => cases hst
    | decide => exact inv_decide h hst
    | restart quick => cases hst
    | child a => exact inv_other rfl h hok hst

theorem inv_inductive (cfg : Config) (window : Time) :
    (sys cfg window).InductiveIf (fun r m => caught cfg r m = true) (Inv cfg window) where
  init := by
    rintro r rfl
    refine ⟨rfl, ⟨by simp, fun _ => rfl, fun p hp => ?_⟩, rfl⟩
    rw [rapid_iff, prefix_nil.mp hp]
    exact Nat.not_le.mpr (Nat.lt_of_lt_of_le Nat.zero_lt_one (Nat.le_max_left _ _))
  step _ _ _ h hok hst := inv_step h hok hst

end Inv

/-! ## The decision -/

section Progress

variable {cfg : Config} {window : Time} {r r' : Run Time}

def Move.isOwn : Move Time → Bool
  | .wait _ | .restart => true
  | .other a => !isOther a

/-- A step of the supervisor itself, with this reading of the clock after `_wait_for_child`. -/
def Move.isOwnAt (elapsed : Time) (m : Move Time) : Prop :=
  m.isOwn = true ∧ ∀ e, m = .wait e → e = elapsed

/-- The supervisor has returned, or will fork the next child. -/
def Phase.decided : Phase → Bool
  | .top | .returned _ => true
  | _ => false

/-- The number of steps until the decision. -/
@[simp] def remaining : Phase → Nat
  | .installing signals => signals.length + 4
  | .waiting => 3
  | .waited _ => 2
  | .restarting => 1
  | .top | .returned _ => 0

theorem restart_possible (cfg : Config) {s : St} (hp : s.phase = .restarting) (quick : Bool) :
    ∃ s', Supervisor.step cfg s (.restart quick) = some s' ∧ Phase.decided s'.phase = true ∧
      s'.child = s.child := by
  simp only [Supervisor.step, hp]
  split
  · exact ⟨_, rfl, rfl, rfl⟩
  · split
    · split <;> exact ⟨_, rfl, rfl, rfl⟩
    · exact ⟨_, rfl, rfl, rfl⟩

theorem remaining_of_decided {x : Phase} (h : Phase.decided x = true) : remaining x = 0 := by
  cases x <;> first | rfl | cases h

theorem own_step (h : Inv cfg window r) (elapsed : Time) (he : r.s.child.place = .ended status)
    (hp : Phase.decided r.s.phase = false) :
    ∃ m r', m.isOwnAt elapsed ∧ step cfg window r m = some r' ∧
      remaining r'.s.phase < remaining r.s.phase ∧ r'.s.child.place = .ended status := by
  cases hphase : r.s.phase with
  | top => rw [hphase] at hp; cases hp
  | returned code => rw [hphase] at hp; cases hp
  | installing signals =>
    cases signals with
    | nil =>
      refine ⟨.other .install, ⟨{ r.s with phase := .waiting }, r.fates⟩, ⟨rfl, fun _ h => by cases h⟩, ?_,
        by simp, he⟩
      simp [step, Supervisor.step, hphase]
    | cons sig signals =>
      refine ⟨.other .install, ⟨{ r.s with
        phase := .installing signals, handlers := Function.update r.s.handlers sig (some r.s.forks) },
        r.fates⟩, ⟨rfl, fun _ h => by cases h⟩, ?_, by simp, he⟩
      simp [step, Supervisor.step, hphase]
  | waiting =>
    by_cases hr : r.s.child.reaped = true
    · refine ⟨.wait elapsed, ⟨{ r.s with phase := .waited r.s.childInfo }, r.fates ++ [⟨status, elapsed⟩]⟩,
        ⟨rfl, fun e h => by cases h; rfl⟩, ?_, by simp, he⟩
      simp [step, Supervisor.step, he, hphase, hr]
    · refine ⟨.wait elapsed, ⟨{ r.s with
        phase := .waited (some status), child := { r.s.child with reaped := true } },
        r.fates ++ [⟨status, elapsed⟩]⟩, ⟨rfl, fun e h => by cases h; rfl⟩, ?_, by simp, he⟩
      simp [step, Supervisor.step, he, hphase, hr]
  | waited st =>
    cases hcode : exitCodeOf st with
    | none =>
      refine ⟨.other .decide, ⟨{ r.s with phase := .restarting }, r.fates⟩, ⟨rfl, fun _ h => by cases h⟩, ?_,
        by simp, he⟩
      simp [step, Supervisor.step, hphase, hcode]
    | some code =>
      refine ⟨.other .decide, ⟨{ r.s with phase := .returned code }, r.fates⟩, ⟨rfl, fun _ h => by cases h⟩, ?_,
        by simp, he⟩
      simp [step, Supervisor.step, hphase, hcode]
  | restarting =>
    simp only [Inv, hphase] at h
    obtain ⟨-, earlier, last, hfates, -⟩ := h
    obtain ⟨s', hst, hdecided, hchild⟩ := restart_possible cfg hphase (decide (last.elapsed < window))
    refine ⟨.restart, ⟨s', r.fates⟩, ⟨rfl, fun _ h => by cases h⟩, ?_, ?_, hchild ▸ he⟩
    · simp [step, hfates, hst]
    · rw [remaining_of_decided hdecided]
      exact Nat.zero_lt_one

omit [LinearOrder Time] in
theorem caught_of_isOwn (h : m.isOwn = true) : caught cfg r m = true := by
  cases m with
  | wait | restart => rfl
  | other a =>
    cases a with
    | handle | child => cases h
    | _ => rfl

theorem leads_to_decision (h : Inv cfg window r) (elapsed : Time) (he : r.s.child.place = .ended status) :
    ∃ r', (sys cfg window).PathIf (fun _ m => m.isOwnAt elapsed) r r' ∧ Phase.decided r'.s.phase = true := by
  induction hn : remaining r.s.phase using Nat.strongRecOn generalizing r with
  | _ n ih =>
    cases hp : Phase.decided r.s.phase with
    | true => exact ⟨r, .refl, hp⟩
    | false =>
      obtain ⟨m, t, hown, hst, hlt, het⟩ := own_step h elapsed he hp
      have ht := inv_step h (caught_of_isOwn hown.1) hst
      obtain ⟨r', hpath, hdecided⟩ := ih _ (hn ▸ hlt) ht het rfl
      have hone : (sys cfg window).PathIf (fun _ m => m.isOwnAt elapsed) r t := .step .refl hown hst
      exact ⟨r', hone.trans hpath, hdecided⟩

theorem step_not_own (hm : m.isOwn = false) (hst : step cfg window r m = some r') : r'.s.phase = r.s.phase := by
  cases m with
  | wait | restart => cases hm
  | other a =>
    have ha : isOther a = true := by simpa [Move.isOwn] using hm
    have hst' : (Supervisor.step cfg r.s a).map (fun s => (⟨s, r.fates⟩ : Run Time)) = some r' := by
      cases a <;> first | exact hst | cases ha
    obtain ⟨s', hs, rfl⟩ := map_eq_some_iff.mp hst'
    exact (step_other ha hs).1

end Progress

/-- **The decision matches the children's fates**, if no status of a failed child is dropped: the supervisor
has done what the record calls for; once a child has ended, its own steps lead to a decision; and signals
and the children's steps do not delay it. -/
theorem decision_of_caught (cfg : Config) (window : Time) (r : Run Time)
    (h : (sys cfg window).ReachIf (fun r m => caught cfg r m = true) r) :
    Matches cfg window r ∧
    (∀ status, r.s.child.place = .ended status → ∀ elapsed, ∃ r',
      (sys cfg window).PathIf (fun _ m => m.isOwnAt elapsed) r r' ∧ Phase.decided r'.s.phase = true) ∧
    ∀ m r', m.isOwn = false → step cfg window r m = some r' → r'.s.phase = r.s.phase := by
  have hinv := (inv_inductive cfg window).reach h
  exact ⟨hinv.matches_record, fun status he elapsed => leads_to_decision hinv elapsed he,
    fun m r' hm hst => step_not_own hm hst⟩

def sampleConfig : Config := { isInit := true, exitOnLeaseEnd := false, maxRapidFailures := 3 }

def forkAndInstall : List (Move Nat) := .other .fork :: List.replicate 6 (.other .install)

def firstChild : List (Move Nat) :=
  forkAndInstall ++ [.other (.child .setsid), .other (.child .openReceiver), .other (.child .serve),
    .other (.child (.serveEnds none)), .other (.child .cancel), .other (.child .exit), .wait 2,
    .other .decide, .restart]

def caughtRun : List (Move Nat) :=
  firstChild ++ forkAndInstall ++ [.other (.child (.die (.exited 3))), .other (.handle .chld), .wait 7,
    .other .decide]

theorem decision_of_caught_sample :
    ∃ r : Run Nat, r.s.phase = .returned 3 ∧ Matches sampleConfig 5 r := by
  have hinit : (sys sampleConfig 5).ReachIf (fun r m => caught sampleConfig r m = true) ({} : Run Nat) :=
    .init rfl
  obtain ⟨r, hreach, hr⟩ := hinit.execIf_any (p := fun r => r.s.phase = .returned 3) caughtRun
    (by decide +kernel)
  exact ⟨r, of_decide_eq_true hr, (decision_of_caught sampleConfig 5 r hreach).1⟩

def droppedRun : List (Move Nat) :=
  firstChild ++ [.other .fork, .other (.child (.die (.exited 1))), .other (.handle .chld)] ++
    List.replicate 6 (.other .install) ++ [.wait 7, .other .decide, .restart]

/-- The supervisor goes on after a child that exited with code 1. -/
theorem decision_dropped :
    ∃ r : Run Nat, (sys sampleConfig 5).Reach r ∧ r.s.phase = .top ∧
      r.fates.map (·.status) = [.exited 0, .exited 1] ∧ ¬ Matches sampleConfig 5 r := by
  obtain ⟨r, hreach, hr⟩ := Sys.Reach.exec_any (S := sys sampleConfig 5) (s := {})
    (p := fun r => r.s.phase = .top && r.fates.map (·.status) = [.exited 0, .exited 1]) (.init rfl)
    droppedRun (by decide +kernel)
  simp only [Bool.and_eq_true, decide_eq_true_eq] at hr
  refine ⟨r, hreach, hr.1, hr.2, fun hm => ?_⟩
  simp only [Matches, hr.1] at hm
  have hmem : Status.exited 1 ∈ r.fates.map (·.status) := by simp [hr.2]
  obtain ⟨f, hf, hone⟩ := mem_map.mp hmem
  have hzero := hm.2.zero f hf
  rw [hone] at hzero
  cases hzero

end Jumpstarter.Decision
