import Jumpstarter.Runtime.Exporter

/-!
# An idle exporter is available

With an empty slot, and unless it is stopping, the exporter has reported `AVAILABLE` last
(`AvailableWhenIdle`), in every run in which (`settlesAct`)

- no lease ends during the setup of its session while its `run_before_lease_hook` still waits for the
  session and there is no `beforeLease` hook to run: it would report `LEASE_READY` of the stale lease;
- the safety timeout of `_cleanup_after_lease` does not fire;
- no lease has ended when a failed `afterLease` hook asks for its release. The release is skipped then,
  and with it the report of `AVAILABLE`: the exporter stays in `AFTER_LEASE_HOOK_FAILED`
  (`availableWhenIdle_fails`).

The invariant: the last report is `AVAILABLE`, or the lease in the slot owes it (`LeaseContext.Owes`).
-/

namespace Jumpstarter
namespace Runtime

open Lib

/-! ## The tasks of a lease -/

/-- `run_after_lease_hook` is going to report `AVAILABLE`. -/
@[simp] def AfterRun.owes : AfterRun → Bool
  | .script | .release _ => true
  | .delay failed shutdownCalled => failed && !shutdownCalled

variable {run : AfterRun}

theorem AfterStart.owes {i : Nat} {o : Out} (h : AfterStart i run o) (hs : o.shutdown = false) :
    o.reports.getLast? = some .available ∨ run.owes = true := by
  cases h with
  | script => exact .inr rfl
  | @delay failed shutdown reports hlast =>
    cases failed with
    | false => exact .inl (hlast rfl)
    | true => exact .inr (by simpa using hs)

theorem AfterMove.owes {v : View} {i : Nat} {a : AfterAct} {run' : Option AfterRun} {o : Out}
    (h : AfterMove v i run a run' o) (hs : o.shutdown = false)
    (hr : a = .wake → run = .delay true false → requestLeaseRelease v ≠ none) :
    o.reports.getLast? = some .available ∨ (∃ r, run' = some r ∧ r.owes = true) ∨
      run' = none ∧ o.reports = [] ∧ run.owes = false := by
  cases h with
  | @exit outcome failed shutdown reports hlast =>
    cases failed with
    | false => exact .inl (hlast rfl)
    | true => exact .inr (.inl ⟨_, rfl, by simpa using hs⟩)
  | shutdown => exact .inr (.inr ⟨rfl, rfl, by simp⟩)
  | @noRelease failed hnone =>
    cases failed with
    | false => exact .inr (.inr ⟨rfl, rfl, rfl⟩)
    | true => exact absurd hnone (hr rfl rfl)
  | release | compat => exact .inr (.inl ⟨_, rfl, rfl⟩)
  | released => exact .inl rfl

namespace LeaseContext

variable {cfg : Config} {v : View} {i : Nat} {c c' : LeaseContext} {o : Out}

/-- The tasks of the lease are going to report `AVAILABLE`. -/
inductive Owes (c : LeaseContext) : Prop
  | serving : c.afterLeaseHookStarted = false → c.handle.isOpen = true → Owes c
  | handle {run : AfterRun} : c.handle = .after run → run.owes = true → Owes c
  | endSession {run : AfterRun} : c.endSession = .after run → run.owes = true → Owes c

theorem Owes.congr (h : c.Owes) (hs : c'.afterLeaseHookStarted = c.afterLeaseHookStarted)
    (hh : c'.handle = c.handle) (he : c'.endSession = c.endSession) : c'.Owes := by
  cases h with
  | serving hs' ho => exact .serving (hs.trans hs') (hh ▸ ho)
  | handle hh' hr => exact .handle (hh.trans hh') hr
  | endSession he' hr => exact .endSession (he.trans he') hr

theorem Owes.touched (h : c.Owes) (ht : c.Touched c') : c'.Owes := by
  obtain ⟨client, b, rfl⟩ := ht
  exact h.congr rfl rfl rfl

theorem Owes.ne_finished (h : c.Owes) (hok : c.Ok cfg) : c.handle ≠ .finished := by
  intro hf
  cases h with
  | serving _ ho => exact HandleLease.ne_finished_of_isOpen ho hf
  | handle hh =>
    rw [hf] at hh
    cases hh
  | endSession he => exact hok.ne_finished_of_endAfter (by rw [he]; rfl) hf

/-- What a step must meet so that the lease does not leave the exporter unavailable. -/
@[simp] def settles (cfg : Config) (c : LeaseContext) : TaskAct → Bool
  | .handle (.setUp raised) =>
    raised || !c.leaseEnded || c.before ≠ .polling || cfg.beforeLease ≠ none
  | .handle (.cleanup _ _) => c.beforeLeaseHook
  | .handle (.after .wake) => c.handle ≠ .after (.delay true false) || !c.leaseEnded
  | .endSession (.after .wake) => c.endSession ≠ .after (.delay true false) || !c.leaseEnded
  | _ => true

/-- A `run_before_lease_hook` that finds its event set is going to be silent. -/
def Silent (cfg : Config) (c : LeaseContext) : Prop :=
  c.before = .polling → c.beforeLeaseHook = true →
    c.leaseEnded = true ∧ (c.ready = true → cfg.beforeLease ≠ none)

/-- What a step reports: `AVAILABLE`, or anything by a lease that owes it, or nothing. -/
def Reports (c c' : LeaseContext) (o : Out) : Prop :=
  o.reports.getLast? = some .available ∨ (c'.Owes ∧ c.handle ≠ .finished) ∨ o.reports = [] ∧ (c.Owes → c'.Owes)

theorem Reports.keep (hr : o.reports = []) (hs : c'.afterLeaseHookStarted = c.afterLeaseHookStarted)
    (hh : c'.handle = c.handle) (he : c'.endSession = c.endSession) : Reports c c' o :=
  .inr (.inr ⟨hr, fun ho => ho.congr hs hh he⟩)

section

variable (hok : c.Ok cfg) (hstop : v.stopRequested = false) (hcancelled : v.cancelled = false)
  (hraises : o.raises = false) (hshutdown : o.shutdown = false)
  (hslot : c.handle ≠ .finished → v.slot = some (i, c.leaseEnded))

include hshutdown hslot in
theorem reports_after {a : AfterAct} {run' : Option AfterRun} (hm : AfterMove v i run a run' o)
    (hne : c.handle ≠ .finished) (hended : a = .wake → run = .delay true false → c.leaseEnded = false)
    (hnext : ∀ r, run' = some r → r.owes = true → c'.Owes)
    (hreturn : run' = none → run.owes = false → c.Owes → c'.Owes) : Reports c c' o := by
  have hrelease : a = .wake → run = .delay true false → requestLeaseRelease v ≠ none := by
    intro ha hr
    simp [requestLeaseRelease, hslot hne, hended ha hr]
  rcases hm.owes hshutdown hrelease with hr | ⟨r, hrun, hr⟩ | ⟨hnone, hr, howes⟩
  · exact .inl hr
  · exact .inr (.inl ⟨hnext r hrun hr, hne⟩)
  · exact .inr (.inr ⟨hr, hreturn hnone howes⟩)

include hok hstop hcancelled hraises hshutdown hslot in
theorem reports_handle {a : HandleAct} (hm : HandleMove cfg v i c a c' o)
    (hsettles : c.settles cfg (.handle a) = true) : Reports c c' o := by
  have havailable : (if v.stopRequested then [] else [ExporterStatus.available]).getLast? =
      some .available := by rw [hstop]; rfl
  cases hm with
  | setup hh =>
    have hnot := (hok.fresh (by rw [hh]; rfl)).2.2.2
    exact .inr (.inl ⟨.serving hnot rfl, by rw [hh]; nofun⟩)
  | staleStart | staleSetup | noAfter => exact .inl havailable
  | raise => cases hraises
  | serve hh | serveReady hh =>
    have hnot := (hok.fresh (by rw [hh]; rfl)).2.2.2
    exact .inr (.inl ⟨.serving hnot rfl, by rw [hh]; nofun⟩)
  | connEnd raised hh =>
    refine .inr (.inr ⟨rfl, fun ho => ?_⟩)
    cases ho with
    | serving hs => exact .serving hs rfl
    | handle hh' =>
      rw [hh] at hh'
      cases hh'
    | endSession he hr => exact .endSession he hr
  | waitAfter hh _ hs =>
    refine .inr (.inr ⟨rfl, fun ho => ?_⟩)
    cases ho with
    | serving hs' =>
      rw [hs] at hs'
      cases hs'
    | handle hh' =>
      rw [hh] at hh'
      cases hh'
    | endSession he hr => exact .endSession he hr
  | runAfter hh _ _ hstart =>
    rcases hstart.owes hshutdown with hr | hr
    · exact .inl hr
    · exact .inr (.inl ⟨.handle rfl hr, by rw [hh]; nofun⟩)
  | @after a run run' o hh hm =>
    refine reports_after hshutdown hslot hm (by rw [hh]; nofun) ?_ ?_ nofun
    · rintro rfl rfl
      simpa [hh] using hsettles
    · intro r hrun hr
      cases hrun
      exact .handle rfl hr
  | @afterReturn a run o hh hm =>
    refine reports_after hshutdown hslot hm (by rw [hh]; nofun) ?_ nofun fun _ howes ho => ?_
    · rintro rfl rfl
      simpa [hh] using hsettles
    · cases ho with
      | serving _ ho =>
        rw [hh] at ho
        cases ho
      | handle hh' hr =>
        rw [hh] at hh'
        cases hh'
        rw [howes] at hr
        cases hr
      | endSession he =>
        have := hok.handleAfter (by rw [hh]; rfl)
        rw [he] at this
        cases this
  | afterDone hh hd =>
    refine .inr (.inr ⟨rfl, fun ho => ?_⟩)
    cases ho with
    | serving _ ho =>
      rw [hh] at ho
      cases ho
    | handle hh' =>
      rw [hh] at hh'
      cases hh'
    | endSession he =>
      have := (hok.endAfter (by rw [he]; rfl)).1
      rw [hd] at this
      cases this
  | close hh =>
    refine .inr (.inr ⟨rfl, fun ho => ?_⟩)
    cases ho with
    | serving _ ho =>
      rw [hh] at ho
      cases ho
    | handle hh' =>
      rw [hh] at hh'
      cases hh'
    | endSession he =>
      have := (hok.endAfter (by rw [he]; rfl)).2
      simp [hh] at this
  | cancelNew hc | cancelServing hc =>
    rw [hcancelled] at hc
    cases hc

include hok hcancelled in
theorem reports_before {a : BeforeAct} (hm : BeforeMove cfg v i c a c' o) (hw : c.Waits)
    (hsilent : c.Silent cfg) : Reports c c' o := by
  -- The event is not set, so the lease is served.
  have howes : c.beforeLeaseHook = false → c'.afterLeaseHookStarted = c.afterLeaseHookStarted →
      c'.handle = c.handle → Reports c c' o := by
    intro hb hs hh
    have hopen := (hok.waits hb).1
    refine .inr (.inl ⟨.serving (hs.trans ?_) (hh ▸ hopen), HandleLease.ne_finished_of_isOpen hopen⟩)
    by_contra hs'
    rw [Bool.not_eq_false] at hs'
    rw [hok.started hs'] at hb
    cases hb
  cases hm with
  | skip hp hquiet =>
    cases hb : c.beforeLeaseHook with
    | false => exact howes hb rfl rfl
    | true =>
      obtain ⟨he, hready⟩ := hsilent hp hb
      have hor : c.ready = false ∨ cfg.beforeLease ≠ none := by
        cases hr : c.ready with
        | false => exact .inl rfl
        | true => exact .inr (hready hr)
      exact .keep (hquiet he hor).1 rfl rfl rfl
  | notStarted hp hr he => exact howes (hok.beforeLeaseHook hp hr he) rfl rfl
  | script hp hr he => exact howes (hok.beforeLeaseHook hp hr he) rfl rfl
  | exit hp => exact howes (hw hp) rfl rfl
  | exitDelay hp => exact howes (hw hp) rfl rfl
  | noRelease | release | compat | orphanExit => exact .keep rfl rfl rfl rfl
  | released => exact .inl rfl
  | cancel hc | cancelScript hc | abandon hc =>
    rw [hcancelled] at hc
    cases hc

include hok hcancelled hshutdown hslot in
theorem reports_endSession {a : EndAct} (hm : EndMove cfg v i c a c' o)
    (hsettles : c.settles cfg (.endSession a) = true) : Reports c c' o := by
  -- The task was not in `run_after_lease_hook`.
  have hkeep : c'.afterLeaseHookStarted = c.afterLeaseHookStarted → c'.handle = c.handle →
      c.endSession.isAfter = false → o.reports = [] → Reports c c' o := by
    intro hs hh he hr
    refine .inr (.inr ⟨hr, fun ho => ?_⟩)
    cases ho with
    | serving hs' ho => exact .serving (hs.trans hs') (hh ▸ ho)
    | handle hh' hr => exact .handle (hh.trans hh') hr
    | endSession he' =>
      rw [he'] at he
      cases he
  cases hm with
  | leave he => exact hkeep rfl rfl (by rw [he]; rfl) rfl
  | waitAfter he => exact hkeep rfl rfl (by rw [he]; rfl) rfl
  | afterDone he => exact hkeep rfl rfl (by rw [he]; rfl) rfl
  | runAfter he _ hs hstart =>
    rcases hstart.owes hshutdown with hr | hr
    · exact .inl hr
    · exact .inr (.inl ⟨.endSession rfl hr, HandleLease.ne_finished_of_isOpen (hok.isOpen_of_waiting he hs)⟩)
  | noAfter => exact .inl rfl
  | @after a run run' o he hm =>
    have hafter : c.endSession.isAfter = true := by rw [he]; rfl
    refine reports_after hshutdown hslot hm (hok.ne_finished_of_endAfter hafter) ?_ ?_ nofun
    · rintro rfl rfl
      simpa [he] using hsettles
    · intro r hrun hr
      cases hrun
      exact .endSession rfl hr
  | @afterReturn a run o he hm =>
    have hafter : c.endSession.isAfter = true := by rw [he]; rfl
    refine reports_after hshutdown hslot hm (hok.ne_finished_of_endAfter hafter) ?_ nofun fun _ howes ho => ?_
    · rintro rfl rfl
      simpa [he] using hsettles
    · cases ho with
      | serving hs =>
        rw [hok.startedEnd (.inl hafter)] at hs
        cases hs
      | handle hh =>
        have := hok.handleAfter (by rw [hh]; rfl)
        rw [hafter] at this
        cases this
      | endSession he' hr =>
        rw [he] at he'
        cases he'
        rw [howes] at hr
        cases hr
  | connect | request => exact .keep rfl rfl rfl rfl
  | cancelWaiting hc | cancelWaitAfter hc =>
    rw [hcancelled] at hc
    cases hc

include hok hstop hcancelled hraises hshutdown hslot in
theorem step_reports {a : TaskAct} (hs : c.step cfg v i a = some (c', o)) (hw : c.Waits)
    (hsilent : c.Silent cfg) (hsettles : c.settles cfg a = true) : Reports c c' o := by
  cases a with
  | handle a =>
    exact reports_handle hok hstop hcancelled hraises hshutdown hslot (handleStep_move hs) hsettles
  | before a => exact reports_before hok hcancelled (beforeStep_move hs) hw hsilent
  | endSession a =>
    exact reports_endSession hok hcancelled hshutdown hslot (endStep_move hs) hsettles

include hok hcancelled hraises in
theorem Silent.step {a : TaskAct} (hsilent : c.Silent cfg) (hs : c.step cfg v i a = some (c', o))
    (hsettles : c.settles cfg a = true) : c'.Silent cfg := by
  intro hp hb
  cases a with
  | handle a =>
    cases handleStep_move hs with
    | setup | connEnd | after | afterReturn | afterDone => exact hsilent hp hb
    | staleStart hh he =>
      refine ⟨he, fun hr => ?_⟩
      rw [(hok.fresh (by rw [hh]; rfl)).1] at hr
      cases hr
    | raise => cases hraises
    | staleSetup hh he =>
      have hp' : c.before = .polling := hp
      exact ⟨he, fun _ => by simpa [he, hp'] using hsettles⟩
    | serve _ he =>
      have := (hsilent hp hb).1
      rw [he] at this
      cases this
    | serveReady _ _ hx => exact absurd hx (hok.executor hp)
    | waitAfter | runAfter | noAfter => exact hsilent hp hsettles
    | close hh => exact hsilent hp (hok.beforeLeaseHook_of_closed (by rw [hh]; rfl))
    | cancelNew hc | cancelServing hc =>
      rw [hcancelled] at hc
      cases hc
  | before a =>
    cases beforeStep_move hs with
    | orphanExit => exact hsilent hp hb
    | _ => cases hp
  | endSession a => cases endStep_move hs <;> exact hsilent hp hb

end

theorem Silent.touched (h : c.Silent cfg) (ht : c.Touched c') : c'.Silent cfg := by
  obtain ⟨client, b, rfl⟩ := ht
  intro hp hb
  obtain ⟨he, hr⟩ := h hp hb
  exact ⟨by simp [endIf, he], hr⟩

end LeaseContext

/-! ## The exporter -/

namespace Exporter

variable {cfg : Config} {s s' : Exporter}

/-- The slot and the queue are empty, no task of a lease is left, and the exporter is not stopping. -/
structure Idle (s : Exporter) : Prop where
  slot : s.slot = none
  queue : s.queue = []
  tasks : ∀ i < s.count, (s.ctx i).before = .done ∧ (s.ctx i).endSession ≠ .waiting ∧
    (s.ctx i).endSession ≠ .waitAfter ∧ (s.ctx i).endSession.isAfter = false
  stopRequested : s.stopRequested = false
  tg : s.tg ≠ .cancelled

/-- An idle exporter has reported `AVAILABLE` last. -/
def AvailableWhenIdle (s : Exporter) : Prop := Idle s → s.exporterStatus = .available

def settlesAct (cfg : Config) (s : Exporter) : Act → Bool
  | .task i a => (s.ctx i).settles cfg a
  | _ => true

structure AvailableInv (cfg : Config) (s : Exporter) : Prop where
  waits : ∀ j, (s.ctx j).Waits
  silent : s.tg ≠ .cancelled → ∀ j, (s.ctx j).Silent cfg
  status : s.stopRequested = false → s.tg ≠ .cancelled →
    s.exporterStatus = .available ∨ ∃ i, s.slot = some i ∧ (s.ctx i).Owes

variable {a : Act}

theorem noTimeout_of_settlesAct (h : settlesAct cfg s a = true) : noTimeout s a = true := by
  cases a with
  | task i a =>
    have hs : (s.ctx i).settles cfg a = true := h
    have hto : (s.ctx i).safetyTimeout a = false := by
      unfold LeaseContext.safetyTimeout
      split
      · simpa [LeaseContext.settles] using hs
      · rfl
    simp [noTimeout, hto]
  | _ => rfl

theorem Inv.view_slot (hi : Inv cfg s) {i : Nat} (hf : (s.ctx i).handle ≠ .finished) :
    s.view.slot = some (i, (s.ctx i).leaseEnded) := by
  simp [view, hi.live i hf]

theorem view_cancelled (htg : s.tg ≠ .cancelled) : s.view.cancelled = false := by
  simpa [view] using htg

theorem running_of_apply {i : Nat} {c : LeaseContext} {o : Out}
    (hstop : (s.apply i c o).stopRequested = false) (htg : (s.apply i c o).tg ≠ .cancelled) :
    o.raises = false ∧ o.shutdown = false := by
  obtain ⟨ctx, tg, flag, endings, heq, -, -, -, hshutdown, hraises, -⟩ := s.apply_eq i c o
  rw [heq] at hstop htg
  refine ⟨Bool.eq_false_iff.mpr fun hr => htg (hraises hr), Bool.eq_false_iff.mpr fun hs => ?_⟩
  rcases hshutdown hs with hflag | hc
  · rw [show flag = false from hstop] at hflag
    cases hflag
  · exact htg hc

theorem AvailableInv.silent_step (ha : AvailableInv cfg s) (hi : Inv cfg s)
    (hok : settlesAct cfg s a = true) (h : Move cfg s a s') (htg : s'.tg ≠ .cancelled) (j : Nat) :
    (s'.ctx j).Silent cfg := by
  have htg' : s.tg ≠ .cancelled := fun hc => htg (h.tg.1 hc)
  have hsilent := ha.silent htg' j
  cases h.ctx j with
  | keep hctx => exact hctx ▸ hsilent
  | touch _ ht => exact hsilent.touched ht
  | @task b c o hs ht =>
    have hraises : o.raises = false := by
      cases h with
      | @task _ _ c' o' hs' =>
        rw [hs] at hs'
        cases hs'
        obtain ⟨ctx, tg, flag, endings, heq, -, -, -, -, hraises, -⟩ := s.apply_eq j c o
        rw [heq] at htg
        exact Bool.eq_false_iff.mpr fun hr => htg (hraises hr)
    exact (hsilent.step (hi.ok j) (view_cancelled htg') hraises hs hok).touched ht
  | acquire _ _ _ hctx =>
    intro _ hb
    rw [hctx] at hb
    cases hb

theorem CtxMove.owes {j : Nat} (h : CtxMove cfg s s' j .receive) (hj : s.slot = some j)
    (ho : (s.ctx j).Owes) : (s'.ctx j).Owes := by
  cases h with
  | keep hctx => exact hctx ▸ ho
  | touch _ ht => exact ho.touched ht
  | acquire _ hnone =>
    rw [hj] at hnone
    cases hnone

theorem AvailableInv.status_task {i : Nat} {b : TaskAct} {c : LeaseContext} {o : Out}
    (ha : AvailableInv cfg s) (hi : Inv cfg s) (hok : settlesAct cfg s (.task i b) = true)
    (hs : (s.ctx i).step cfg s.view i b = some (c, o)) (hstop : s.stopRequested = false)
    (htg : s.tg ≠ .cancelled) (hstop' : (s.apply i c o).stopRequested = false)
    (htg' : (s.apply i c o).tg ≠ .cancelled) :
    (s.apply i c o).exporterStatus = .available ∨
      ∃ j, (s.apply i c o).slot = some j ∧ ((s.apply i c o).ctx j).Owes := by
  obtain ⟨hraises, hshutdown⟩ := running_of_apply hstop' htg'
  have hctx := s.apply_ctx i c o
  obtain ⟨ctx, tg, flag, endings, heq, -⟩ := s.apply_eq i c o
  have hslot : (s.apply i c o).slot = s.slot := by rw [heq]
  have hstatus : (s.apply i c o).exporterStatus = o.reports.getLast?.getD s.exporterStatus := by
    rw [heq]
  rw [hstatus, hslot]
  rcases LeaseContext.step_reports (hi.ok i) hstop (view_cancelled htg) hraises hshutdown
    hi.view_slot hs (ha.waits i) (ha.silent htg i) hok with hr | ⟨howes, hne⟩ | ⟨hr, hkeep⟩
  · exact .inl (by rw [hr]; rfl)
  · refine .inr ⟨i, hi.live i hne, ?_⟩
    rw [hctx, if_pos rfl]
    exact howes.touched (c.touched_endIf _)
  · rcases ha.status hstop htg with hav | ⟨j, hj, ho⟩
    · exact .inl (by rw [hr, ← hav]; rfl)
    · refine .inr ⟨j, hj, ?_⟩
      rw [hctx]
      refine LeaseContext.Owes.touched ?_ (LeaseContext.touched_endIf _ _)
      split
      · rename_i he
        subst he
        exact hkeep ho
      · exact ho

theorem AvailableInv.status_step (ha : AvailableInv cfg s) (hi : Inv cfg s)
    (hok : settlesAct cfg s a = true) (h : Move cfg s a s') (hstop' : s'.stopRequested = false)
    (htg' : s'.tg ≠ .cancelled) :
    s'.exporterStatus = .available ∨ ∃ i, s'.slot = some i ∧ (s'.ctx i).Owes := by
  have hstop : s.stopRequested = false := by
    by_contra hs
    rw [Bool.not_eq_false] at hs
    rw [h.stopRequested hs] at hstop'
    cases hstop'
  have htg : s.tg ≠ .cancelled := fun hc => htg' (h.tg.1 hc)
  have hst := ha.status hstop htg
  have hctx := h.ctx
  cases h with
  | serve | send | stop | fail | cancelLoop => exact hst
  | @task i b c o hs => exact ha.status_task hi hok hs hstop htg hstop' htg'
  | receive _ hm =>
    cases hm with
    | ignored | idle | other => exact hst
    | acquired _ _ hnone =>
      refine .inl (hst.resolve_right ?_)
      rintro ⟨i, hslot, -⟩
      rw [hnone] at hslot
      cases hslot
    | reassigned | updated | ended =>
      exact hst.imp_right fun ⟨i, hslot, ho⟩ => ⟨i, hslot, (hctx i).owes hslot ho⟩
    | @finished _ i _ _ _ hq hslot =>
      -- The lease that leaves the slot owes nothing.
      refine .inl (hst.resolve_right ?_)
      rintro ⟨j, hj, ho⟩
      rw [hslot] at hj
      cases hj
      exact ho.ne_finished (hi.ok i) (hi.posted i (hq ▸ List.mem_cons_self)).1

theorem inductive_availableInv (cfg : Config) :
    (sys cfg).InductiveIf (fun s a => settlesAct cfg s a = true) fun s => Inv cfg s ∧ AvailableInv cfg s where
  init s hs := by
    rw [hs]
    exact ⟨Inv.start cfg, fun _ h => (nomatch h), fun _ _ h => (nomatch h), fun _ _ => .inl rfl⟩
  step s a s' hi hok hst := by
    obtain ⟨hi, ha⟩ := hi
    have hm := step_move hst
    exact ⟨hi.step hm, hi.waits_step (noTimeout_of_settlesAct hok) hm ha.waits,
      ha.silent_step hi hok hm, ha.status_step hi hok hm⟩

/-- An idle exporter has reported `AVAILABLE` last. -/
theorem availableWhenIdle_of_settles (cfg : Config) {s : Exporter}
    (hs : (sys cfg).ReachIf (fun s a => settlesAct cfg s a = true) s) : AvailableWhenIdle s := by
  intro hidle
  refine (((inductive_availableInv cfg).reach hs).2.status hidle.stopRequested hidle.tg).resolve_right ?_
  rintro ⟨i, hslot, -⟩
  rw [hidle.slot] at hslot
  cases hslot

/-- An `afterLease` hook that ends the lease if it fails. -/
def afterConfig : Config where
  hookExecutor := some { afterLease := some { onFailure := .endLease } }

/-- The `afterLease` hook of the lease that the client has ended starts. -/
def endSessionRun : List Act :=
  [.serve, .send { leased := true, leaseName := "a", clientName := "c" }, .receive,
    .task 0 (.handle .start), .task 0 (.handle (.setUp false)),
    .task 0 (.before (.poll false .started)), .task 0 (.endSession .connect),
    .task 0 (.endSession .endSession), .task 0 (.endSession (.wake .started))]

def teardownRun : List Act :=
  [.task 0 (.handle (.connEnd false)), .task 0 (.handle (.cleanup false .started)),
    .task 0 (.handle .afterDone), .task 0 (.handle .close), .receive]

/-- `Idle` of an exporter that has served one lease, as a test. -/
def idleAfterOne (s : Exporter) : Bool :=
  s.slot = none ∧ s.queue = [] ∧ s.count = 1 ∧ (s.ctx 0).before = .done ∧
    (s.ctx 0).endSession = .done ∧ s.stopRequested = false ∧ s.tg ≠ .cancelled

theorem idle_of_idleAfterOne (h : s.idleAfterOne = true) : Idle s := by
  obtain ⟨hslot, hq, hcount, hb, he, hstop, htg⟩ := of_decide_eq_true h
  refine ⟨hslot, hq, fun i hi => ?_, hstop, htg⟩
  have h0 : i = 0 := by omega
  subst h0
  simp [hb, he]

/-- The failed hook releases the lease before the controller ends it. -/
theorem availableWhenIdle_of_settles_released : ∃ s : Exporter,
    (sys afterConfig).ReachIf (fun s a => settlesAct afterConfig s a = true) s ∧ Idle s ∧
      AvailableWhenIdle s := by
  have hrun : (((sys afterConfig).execIf (settlesAct afterConfig) {} (endSessionRun ++
      [.task 0 (.endSession (.after (.exit .failed))), .task 0 (.endSession (.after .wake)),
        .task 0 (.endSession (.after (.rpc .ok)))] ++ teardownRun)).any idleAfterOne) = true := by
    decide +kernel
  obtain ⟨s, hs, hp⟩ := Sys.ReachIf.execIf_any (.init rfl) _ hrun
  exact ⟨s, hs, idle_of_idleAfterOne hp, availableWhenIdle_of_settles afterConfig hs⟩

/-- The controller ends the lease while its `afterLease` hook runs, and the hook fails. -/
theorem availableWhenIdle_fails : ∃ s : Exporter,
    (sys afterConfig).Reach s ∧ Idle s ∧ s.exporterStatus = .afterLeaseHookFailed ∧ ¬ AvailableWhenIdle s := by
  have hrun : (((sys afterConfig).exec {} (endSessionRun ++ [.send { leased := false }, .receive,
      .task 0 (.endSession (.after (.exit .failed))), .task 0 (.endSession (.after .wake))] ++
        teardownRun)).any fun s =>
          s.idleAfterOne = true ∧ s.exporterStatus = .afterLeaseHookFailed) = true := by
    decide +kernel
  obtain ⟨s, hs, hp⟩ := Sys.Reach.exec_any (.init rfl) _ hrun
  obtain ⟨hone, hstatus⟩ := of_decide_eq_true hp
  have hidle := idle_of_idleAfterOne hone
  refine ⟨s, hs, hidle, hstatus, fun h => ?_⟩
  have hav := h hidle
  rw [hstatus] at hav
  cases hav

end Exporter
end Runtime
end Jumpstarter
