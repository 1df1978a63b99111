/-!
# Systems of atomic steps and their invariants

A concurrent program is a **system**: a type of global states, the initial states, and a step
function `step s a` that gives the state after the atomic action `a` (`none`: `a` is not possible
in `s`). The action names the thread that moves and every choice that the environment makes.

- `Sys.ReachIf ok`: the states that runs reach whose every step meets `ok` (a condition on the
  state before the step and on the action). `Sys.Reach` is `ReachIf` without a condition.
- `Sys.InductiveIf ok I`: `I` holds initially and every step that meets `ok` keeps it. This is the
  one induction over runs (`InductiveIf.reach`).
- `Sys.Path`: the states reached from a given state. `Sys.PathIf.rel` lifts a relation between the
  states before and after one step (given an invariant) to whole runs.
- `Sys.exec`, `Sys.execIf`: the state after a list of actions, to evaluate one run.
-/

namespace Jumpstarter.Lib

/-- A system of atomic steps (module doc). -/
structure Sys (St Act : Type) where
  init : St → Prop
  step : St → Act → Option St

namespace Sys

variable {St Act : Type} (S : Sys St Act)

/-- The states that runs reach whose every step meets `ok`. -/
inductive ReachIf (ok : St → Act → Prop) : St → Prop
  | init {s : St} : S.init s → ReachIf ok s
  | step {s s' : St} {a : Act} : ReachIf ok s → ok s a → S.step s a = some s' → ReachIf ok s'

def Reach (s : St) : Prop := S.ReachIf (fun _ _ => True) s

/-- `I` holds initially, and every step that meets `ok` keeps it. -/
structure InductiveIf (ok : St → Act → Prop) (I : St → Prop) : Prop where
  init : ∀ s, S.init s → I s
  step : ∀ s a s', I s → ok s a → S.step s a = some s' → I s'

/-- `s'` is reached from `s` by steps that meet `ok`. -/
inductive PathIf (ok : St → Act → Prop) (s : St) : St → Prop
  | refl : PathIf ok s s
  | step {t t' : St} {a : Act} : PathIf ok s t → ok t a → S.step t a = some t' → PathIf ok s t'

/-- `s'` is reached from `s`. -/
def Path (s s' : St) : Prop := S.PathIf (fun _ _ => True) s s'

/-- The state after the actions `as`. -/
def exec : St → List Act → Option St
  | s, [] => some s
  | s, a :: as => (S.step s a).bind fun s' => exec s' as

/-- The state after the actions `as`, if each of them meets `ok`. -/
def execIf (ok : St → Act → Bool) : St → List Act → Option St
  | s, [] => some s
  | s, a :: as => if ok s a then (S.step s a).bind fun s' => execIf ok s' as else none

variable {S} {ok : St → Act → Prop} {s : St}

theorem InductiveIf.reach {I : St → Prop} (h : S.InductiveIf ok I) (hs : S.ReachIf ok s) : I s := by
  induction hs with
  | init hi => exact h.init _ hi
  | step _ hok hst ih => exact h.step _ _ _ ih hok hst

theorem ReachIf.mono {ok' : St → Act → Prop} (hle : ∀ s a, ok s a → ok' s a) (hs : S.ReachIf ok s) :
    S.ReachIf ok' s := by
  induction hs with
  | init hi => exact .init hi
  | step _ hok hst ih => exact .step ih (hle _ _ hok) hst

variable {s' : St}

theorem PathIf.trans {t u : St} (h : S.PathIf ok s t) (h' : S.PathIf ok t u) : S.PathIf ok s u := by
  induction h' with
  | refl => exact h
  | step _ hok hst ih => exact .step ih hok hst

theorem ReachIf.path (h : S.ReachIf ok s) (hp : S.PathIf ok s s') : S.ReachIf ok s' := by
  induction hp with
  | refl => exact h
  | step _ hok hst ih => exact .step ih hok hst

theorem PathIf.rel {R : St → St → Prop} (hr : ∀ s, R s s) (ht : ∀ s t u, R s t → R t u → R s u)
    (hstep : ∀ s a s', S.ReachIf ok s → ok s a → S.step s a = some s' → R s s') (hs : S.ReachIf ok s)
    (hp : S.PathIf ok s s') : R s s' := by
  induction hp with
  | refl => exact hr s
  | step hp' hok hst ih => exact ht _ _ _ ih (hstep _ _ _ (hs.path hp') hok hst)

theorem PathIf.keep {I : St → Prop} (hp : S.PathIf ok s s') (hs : I s)
    (hstep : ∀ t a t', I t → ok t a → S.step t a = some t' → I t') : I s' := by
  induction hp with
  | refl => exact hs
  | step _ hok hst ih => exact hstep _ _ _ ih hok hst

theorem ReachIf.exec (h : S.ReachIf ok s) (as : List Act) (hok : ∀ a ∈ as, ∀ t, ok t a)
    (he : S.exec s as = some s') : S.ReachIf ok s' := by
  induction as generalizing s with
  | nil => cases he; exact h
  | cons a as ih =>
    obtain ⟨t, ht, he'⟩ := Option.bind_eq_some_iff.mp he
    have hstep := ReachIf.step h (hok a List.mem_cons_self s) ht
    exact ih hstep (fun b hb => hok b (List.mem_cons_of_mem a hb)) he'

theorem ReachIf.exec_any (h : S.ReachIf ok s) (as : List Act) (hok : ∀ a ∈ as, ∀ t, ok t a) {p : St → Bool}
    (he : (S.exec s as).any p = true) : ∃ s', S.ReachIf ok s' ∧ p s' = true := by
  cases hx : S.exec s as with
  | none =>
    rw [hx] at he
    cases he
  | some s' =>
    rw [hx] at he
    exact ⟨s', h.exec as hok hx, he⟩

theorem Reach.exec (h : S.Reach s) (as : List Act) (he : S.exec s as = some s') : S.Reach s' :=
  ReachIf.exec h as (fun _ _ _ => trivial) he

theorem Reach.exec_any (h : S.Reach s) (as : List Act) {p : St → Bool} (he : (S.exec s as).any p = true) :
    ∃ s', S.Reach s' ∧ p s' = true :=
  ReachIf.exec_any h as (fun _ _ _ => trivial) he

theorem ReachIf.execIf_any {ok : St → Act → Bool} (h : S.ReachIf (fun s a => ok s a = true) s)
    (as : List Act) {p : St → Bool} (he : (S.execIf ok s as).any p = true) :
    ∃ s', S.ReachIf (fun s a => ok s a = true) s' ∧ p s' = true := by
  induction as generalizing s with
  | nil => exact ⟨s, h, he⟩
  | cons a as ih =>
    unfold execIf at he
    split at he
    · rename_i hok
      cases hst : S.step s a with
      | none =>
        rw [hst] at he
        cases he
      | some t =>
        rw [hst] at he
        exact ih (.step h hok hst) he
    · cases he

end Sys

end Jumpstarter.Lib
