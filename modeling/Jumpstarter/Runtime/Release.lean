import Jumpstarter.Runtime.Exporter

/-!
# Hooks and the releases of their leases

A hook of a lease releases the lease and no other (`ReleasesOwn`), in every run in which a lease is
acquired only when no earlier lease has a `beforeLease` hook that runs or is about to release
(`settledAct`). `_request_lease_release` reads the slot when it runs. The hooks after a lease run
before the lease leaves the slot, but a failed `beforeLease` hook waits for one second after it has set
`before_lease_hook`; if its lease is torn down in this second and the next one acquired, it releases
the next one (`releasesOwn_fails`).
-/

namespace Jumpstarter.Runtime

open Lib

/-- `run_before_lease_hook` runs the script of the hook, or is about to release the lease. -/
@[simp] def BeforeLease.isUnsettled : BeforeLease → Bool
  | .script | .delay | .release _ => true
  | _ => false

theorem requestLeaseRelease_slot {v : View} {r : Release} (h : requestLeaseRelease v = some r) :
    v.slot = some (r.lease, false) := by
  unfold requestLeaseRelease at h
  split at h
  · cases h
  · split at h
    · cases h
    · rename_i j leaseEnded hslot hended
      rw [Bool.not_eq_true] at hended
      rw [hslot, hended]
      cases h
      split <;> rfl

/-! ## The tasks of a lease -/

theorem AfterMove.own {v : View} {i : Nat} {run : AfterRun} {a : AfterAct} {run' : Option AfterRun}
    {o : Out} (h : AfterMove v i run a run' o) (hv : ∀ k b, v.slot = some (k, b) → k = i)
    (hrun : ∀ r, run = .release r → r.lease = i) :
    (∀ r, run' = some (.release r) → r.lease = i) ∧ ∀ j, o.release = some j → j = i := by
  cases h with
  | release hr =>
    have hlease := hv _ _ (requestLeaseRelease_slot hr)
    refine ⟨fun r' hr' => ?_, fun j hj => ?_⟩
    · cases hr'
      exact hlease
    · cases hj
      exact hlease
  | compat =>
    have hlease := hrun _ rfl
    refine ⟨fun r' hr' => ?_, fun j hj => ?_⟩
    · cases hr'
      exact hlease
    · cases hj
      exact hlease
  | _ => exact ⟨fun _ h => (nomatch h), fun _ h => (nomatch h)⟩

theorem AfterStart.own {i : Nat} {run : AfterRun} {o : Out} (h : AfterStart i run o) :
    (∀ r, run ≠ .release r) ∧ o.release = none ∧ o.endsSlot = false := by
  cases h <;> exact ⟨fun _ h => (nomatch h), rfl, rfl⟩

namespace LeaseContext

variable {cfg : Config} {v : View} {i : Nat} {c c' : LeaseContext} {o : Out}

@[simp] def inHook (c : LeaseContext) : Bool :=
  c.before.isUnsettled || c.handle.isAfter || c.endSession.isAfter

/-- The releases that the hooks of lease `i` are sending are for `i`. -/
structure SendsOwn (i : Nat) (c : LeaseContext) : Prop where
  before : ∀ r, c.before = .release r → r.lease = i
  handle : ∀ r, c.handle = .after (.release r) → r.lease = i
  endSession : ∀ r, c.endSession = .after (.release r) → r.lease = i

theorem SendsOwn.keep (h : c.SendsOwn i)
    (hb : c'.before = c.before ∨ ∀ r, c'.before = .release r → r.lease = i)
    (hh : c'.handle = c.handle ∨ ∀ r, c'.handle = .after (.release r) → r.lease = i)
    (he : c'.endSession = c.endSession ∨ ∀ r, c'.endSession = .after (.release r) → r.lease = i) :
    c'.SendsOwn i := by
  refine ⟨fun r hr => ?_, fun r hr => ?_, fun r hr => ?_⟩
  · rcases hb with hb | hb
    · exact h.before r (hb ▸ hr)
    · exact hb r hr
  · rcases hh with hh | hh
    · exact h.handle r (hh ▸ hr)
    · exact hh r hr
  · rcases he with he | he
    · exact h.endSession r (he ▸ hr)
    · exact he r hr

theorem SendsOwn.step {a : TaskAct} (hown : c.SendsOwn i)
    (hv : c.inHook = true → ∀ k b, v.slot = some (k, b) → k = i)
    (h : c.step cfg v i a = some (c', o)) :
    c'.SendsOwn i ∧ (∀ j, o.release = some j → j = i) ∧ (o.endsSlot = true → c.inHook = true) := by
  cases a with
  | handle a =>
    cases handleStep_move h with
    | runAfter _ _ _ hs =>
      obtain ⟨hrun, hr, hends⟩ := hs.own
      exact ⟨hown.keep (.inl rfl) (.inr (by simp [hrun])) (.inl rfl), by simp [hr], by simp [hends]⟩
    | @after a run run' o hp hm =>
      have hin : c.inHook = true := by simp [hp]
      obtain ⟨hrun, hr⟩ := hm.own (hv hin) fun r hr => hown.handle r (hr ▸ hp)
      exact ⟨hown.keep (.inl rfl) (.inr (by simpa using hrun)) (.inl rfl), hr, fun _ => hin⟩
    | @afterReturn a run o hp hm =>
      have hin : c.inHook = true := by simp [hp]
      obtain ⟨-, hr⟩ := hm.own (hv hin) fun r hr => hown.handle r (hr ▸ hp)
      exact ⟨hown.keep (.inl rfl) (.inr (by simp)) (.inl rfl), hr, fun _ => hin⟩
    | serve | serveReady =>
      exact ⟨hown.keep (.inl rfl) (.inr (by simp)) (.inr (by simp)), by simp, by simp⟩
    | _ => exact ⟨hown.keep (.inl rfl) (.inr (by simp)) (.inl rfl), by simp, by simp⟩
  | before a =>
    cases beforeStep_move h with
    | release hp hr =>
      have hlease := hv (by simp [hp]) _ _ (requestLeaseRelease_slot hr)
      refine ⟨⟨fun r' hr' => ?_, hown.handle, hown.endSession⟩, by simp [hlease], by simp⟩
      cases hr'
      exact hlease
    | compat hp =>
      have hlease := hown.before _ hp
      refine ⟨⟨fun r' hr' => ?_, hown.handle, hown.endSession⟩, fun j hj => ?_, by simp⟩
      · cases hr'
        exact hlease
      · cases hj
        exact hlease
    | released hp =>
      exact ⟨hown.keep (.inr (by simp)) (.inl rfl) (.inl rfl), by simp, fun _ => by simp [hp]⟩
    | orphanExit => exact ⟨hown.keep (.inl rfl) (.inl rfl) (.inl rfl), by simp, by simp⟩
    | _ => exact ⟨hown.keep (.inr (by simp)) (.inl rfl) (.inl rfl), by simp, by simp⟩
  | endSession a =>
    cases endStep_move h with
    | runAfter _ _ _ hs =>
      obtain ⟨hrun, hr, hends⟩ := hs.own
      exact ⟨hown.keep (.inl rfl) (.inl rfl) (.inr (by simp [hrun])), by simp [hr], by simp [hends]⟩
    | @after a run run' o hp hm =>
      have hin : c.inHook = true := by simp [hp]
      obtain ⟨hrun, hr⟩ := hm.own (hv hin) fun r hr => hown.endSession r (hr ▸ hp)
      exact ⟨hown.keep (.inl rfl) (.inl rfl) (.inr (by simpa using hrun)), hr, fun _ => hin⟩
    | @afterReturn a run o hp hm =>
      have hin : c.inHook = true := by simp [hp]
      obtain ⟨-, hr⟩ := hm.own (hv hin) fun r hr => hown.endSession r (hr ▸ hp)
      exact ⟨hown.keep (.inl rfl) (.inl rfl) (.inr (by simp)), hr, fun _ => hin⟩
    | connect | request => exact ⟨hown.keep (.inl rfl) (.inl rfl) (.inl rfl), by simp, by simp⟩
    | _ => exact ⟨hown.keep (.inl rfl) (.inl rfl) (.inr (by simp)), by simp, by simp⟩

theorem SendsOwn.touched (h : c.SendsOwn i) (ht : c.Touched c') : c'.SendsOwn i := by
  obtain ⟨client, b, rfl⟩ := ht
  exact { h with }

theorem step_unsettled {a : TaskAct} (hok : c.Ok cfg) (h : c.step cfg v i a = some (c', o))
    (hu : c'.before.isUnsettled = true) :
    c.before.isUnsettled = true ∨ c.handle ≠ .finished := by
  have hopen : c.before = .polling → c.ready = true → c.leaseEnded = false →
      c.handle ≠ .finished := fun hp hr he =>
    HandleLease.ne_finished_of_isOpen (hok.waits (hok.beforeLeaseHook hp hr he)).1
  cases a with
  | handle a => cases handleStep_move h <;> exact .inl hu
  | before a =>
    cases beforeStep_move h with
    | notStarted hp hr he => exact .inr (hopen hp hr he)
    | script hp hr he => exact .inr (hopen hp hr he)
    | release hp => exact .inl (by rw [hp]; rfl)
    | compat hp => exact .inl (by rw [hp]; rfl)
    | exitDelay hp => exact .inl (by rw [hp]; rfl)
    | orphanExit => exact .inl hu
    | _ => cases hu
  | endSession a => cases endStep_move h <;> exact .inl hu

end LeaseContext

/-! ## The exporter -/

namespace Exporter

variable {cfg : Config} {s s' : Exporter}

/-- Every release that a hook sent, and every `lease_ended` that one set, is of its own lease. -/
structure ReleasesOwn (s : Exporter) : Prop where
  releases : ∀ p ∈ s.releases, p.1 = p.2
  endings : ∀ p ∈ s.endings, p.1 = p.2

/-- A lease is acquired when no `beforeLease` hook of an earlier one runs or is about to release. -/
def settledAct (s : Exporter) : Act → Bool
  | .receive =>
    match s.slot, s.queue with
    | none, .status m :: _ =>
      !m.leased || (List.range s.count).all fun j => !(s.ctx j).before.isUnsettled
    | _, _ => true
  | _ => true

structure ReleaseInv (s : Exporter) : Prop where
  slot : ∀ j, (s.ctx j).before.isUnsettled = true → ∀ k, s.slot = some k → k = j
  sends : ∀ j, (s.ctx j).SendsOwn j
  own : ReleasesOwn s

variable {j : Nat}

theorem ReleaseInv.inHook (hr : ReleaseInv s) (hi : Inv cfg s) (h : (s.ctx j).inHook = true) :
    ∀ k, s.slot = some k → k = j := by
  intro k hk
  have hlive : (s.ctx j).handle ≠ .finished → k = j := fun hl => by
    rw [hi.live j hl] at hk
    cases hk
    rfl
  simp only [LeaseContext.inHook, Bool.or_eq_true] at h
  rcases h with (hb | ha) | ha
  · exact hr.slot j hb k hk
  · refine hlive fun hf => ?_
    rw [hf] at ha
    cases ha
  · exact hlive ((hi.ok j).ne_finished_of_endAfter ha)

theorem ReleaseInv.view (hr : ReleaseInv s) (hi : Inv cfg s) (h : (s.ctx j).inHook = true) :
    ∀ k b, s.view.slot = some (k, b) → k = j := by
  intro k b hk
  obtain ⟨k', hk', heq⟩ := Option.map_eq_some_iff.mp hk
  cases heq
  exact hr.inHook hi h _ hk'

variable {a : Act}

theorem CtxMove.unsettled (h : CtxMove cfg s s' j a) (hi : Inv cfg s)
    (hu : (s'.ctx j).before.isUnsettled = true) : (s.ctx j).before.isUnsettled = true ∨ s.slot = some j := by
  cases h with
  | keep hctx => exact .inl (hctx ▸ hu)
  | touch hslot => exact .inr hslot
  | task hs ht =>
    rw [ht.before] at hu
    exact (LeaseContext.step_unsettled (hi.ok j) hs hu).imp_right (hi.live j)
  | @acquire name _ _ _ _ hctx =>
    rw [hctx] at hu
    rcases newContext_before cfg name with hn | hn <;> simp [hn] at hu

theorem ReleaseInv.slot_step (hr : ReleaseInv s) (hi : Inv cfg s) (hok : settledAct s a = true)
    (h : Move cfg s a s') (hu : (s'.ctx j).before.isUnsettled = true) : ∀ k, s'.slot = some k → k = j := by
  intro k hk
  have hb := (h.ctx j).unsettled hi hu
  have hslot : ∀ k, s.slot = some k → k = j := by
    intro k hk
    rcases hb with hb | hj
    · exact hr.slot j hb k hk
    · rw [hj] at hk
      cases hk
      rfl
  cases h.slot with
  | keep hsl => exact hslot k (hsl ▸ hk)
  | release _ _ hsl =>
    rw [hsl] at hk
    cases hk
  | acquire _ hnone hsl _ hq hleased =>
    rcases hb with hb | hj
    · -- The hook has not settled, so no lease is acquired.
      have hlt : j < s.count := Nat.lt_of_not_le fun hle => by
        rw [hi.unused j hle] at hb
        cases hb
      have hall : ∀ j < s.count, (s.ctx j).before.isUnsettled = false := by
        simpa [settledAct, hnone, hq, hleased] using hok
      rw [hall j hlt] at hb
      cases hb
    · rw [hnone] at hj
      cases hj

theorem ReleaseInv.sends_step (hr : ReleaseInv s) (hi : Inv cfg s) (h : Move cfg s a s') (j : Nat) :
    (s'.ctx j).SendsOwn j := by
  cases h.ctx j with
  | keep hctx => exact hctx ▸ hr.sends j
  | touch _ ht => exact (hr.sends j).touched ht
  | task hs ht => exact ((hr.sends j).step (hr.view hi) hs).1.touched ht
  | @acquire name _ _ _ _ hctx =>
    rw [hctx]
    refine ⟨fun r hb => ?_, fun r hh => (nomatch hh), fun r he => (nomatch he)⟩
    rcases newContext_before cfg name with hn | hn <;> simp [hn] at hb

theorem ReleaseInv.own_step (hr : ReleaseInv s) (hi : Inv cfg s) (h : Move cfg s a s') : ReleasesOwn s' := by
  cases h with
  | serve | send | stop | fail | cancelLoop => exact ⟨hr.own.releases, hr.own.endings⟩
  | receive _ hm => cases hm <;> exact ⟨hr.own.releases, hr.own.endings⟩
  | @task i a c o hs =>
    obtain ⟨-, hrelease, hends⟩ := (hr.sends i).step (hr.view hi) hs
    obtain ⟨ctx, tg, flag, endings, heq, -, -, -, -, -, -, hendings⟩ := s.apply_eq i c o
    rw [heq]
    refine ⟨fun p hp => ?_, fun p hp => ?_⟩
    · rcases List.mem_append.mp hp with hp | hp
      · exact hr.own.releases p hp
      · rw [Option.mem_toList] at hp
        obtain ⟨j, hj, rfl⟩ := Option.map_eq_some_iff.mp hp
        exact (hrelease j hj).symm
    · rcases hendings p hp with hp | ⟨hp, he, hslot⟩
      · exact hr.own.endings p hp
      · rw [hp, hr.inHook hi (hends he) p.2 hslot]

theorem inductive_releaseInv (cfg : Config) :
    (sys cfg).InductiveIf (fun s a => settledAct s a = true) fun s => Inv cfg s ∧ ReleaseInv s where
  init s hs := by
    rw [hs]
    exact ⟨Inv.start cfg, fun _ h => (nomatch h), fun _ => ⟨fun _ h => (nomatch h),
      fun _ h => (nomatch h), fun _ h => (nomatch h)⟩, fun _ h => (nomatch h), fun _ h => (nomatch h)⟩
  step s a s' hi hok hst := by
    obtain ⟨hi, hr⟩ := hi
    have hm := step_move hst
    exact ⟨hi.step hm, fun _ hu => hr.slot_step hi hok hm hu, hr.sends_step hi hm, hr.own_step hi hm⟩

/-- A hook sends releases for its own lease only, and sets the `lease_ended` of no other. -/
theorem releasesOwn_of_settled (cfg : Config) {s : Exporter}
    (hs : (sys cfg).ReachIf (fun s a => settledAct s a = true) s) : ReleasesOwn s :=
  ((inductive_releaseInv cfg).reach hs).2.own

/-- A `beforeLease` hook that ends the lease if it fails. -/
def endLeaseConfig : Config where
  hookExecutor := some { beforeLease := some { onFailure := .endLease } }

def failedRun : List Act :=
  [.serve, .send { leased := true, leaseName := "a" }, .receive, .task 0 (.handle .start),
    .task 0 (.handle (.setUp false)), .task 0 (.before (.poll false .started)),
    .task 0 (.before (.exit .failed))]

theorem releasesOwn_of_settled_failed : ∃ s : Exporter,
    (sys endLeaseConfig).ReachIf (fun s a => settledAct s a = true) s ∧
      (s.releases = [(0, 0)] ∧ s.endings = [(0, 0)]) ∧ ReleasesOwn s := by
  have hrun : (((sys endLeaseConfig).execIf settledAct {} (failedRun ++
      [.task 0 (.before .wake), .task 0 (.before (.rpc .ok))])).any fun s =>
        s.releases = [(0, 0)] ∧ s.endings = [(0, 0)]) = true := by decide +kernel
  obtain ⟨s, hs, hp⟩ := Sys.ReachIf.execIf_any (.init rfl) _ hrun
  exact ⟨s, hs, of_decide_eq_true hp, releasesOwn_of_settled endLeaseConfig hs⟩

/-- The controller ends lease `a` after its hook has failed, and lease `b` is acquired before the hook
of `a` sends its release: it releases `b`. -/
theorem releasesOwn_fails : ∃ s : Exporter, (sys endLeaseConfig).Reach s ∧ ¬ ReleasesOwn s := by
  have hrun : (((sys endLeaseConfig).exec {} (failedRun ++
      [.send { leased := false }, .receive, .task 0 (.handle (.connEnd false)),
        .task 0 (.handle (.cleanup false .started)), .task 0 (.handle .close), .receive,
        .send { leased := true, leaseName := "b" }, .receive, .task 0 (.before .wake),
        .task 0 (.before (.rpc .ok))])).any fun s =>
          s.releases = [(0, 1)] ∧ s.endings = [(0, 1)]) = true := by decide +kernel
  obtain ⟨s, hs, hp⟩ := Sys.Reach.exec_any (.init rfl) _ hrun
  obtain ⟨hr, -⟩ := of_decide_eq_true hp
  refine ⟨s, hs, fun h => ?_⟩
  have hown := h.releases (0, 1) (by rw [hr]; exact List.mem_singleton_self _)
  cases hown

end Exporter
end Jumpstarter.Runtime
