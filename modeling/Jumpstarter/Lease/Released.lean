import Jumpstarter.Lease.Outcome
import Jumpstarter.Lease.StatusMachine
import Jumpstarter.Lease.Times

/-!
# Released leases

The patch of a call may be applied late, to a lease that others changed. No patch takes back a release, and the next
status that is written for a released lease ends it (`released_ends`).
-/

namespace Jumpstarter.LeaseSystem

open Lib LeaseReconciler ClientService

variable {k : K8s} {cfg : Config} {s s' : St} {l l' : Lease} {look : Lookup} {q : ObjectKey × SpecPatch}

theorem updateLease_release {caller : ObjectKey} {req : LeaseMessage} (h : updateLease k look caller req = .ok q) :
    q.2.release = none := by
  obtain ⟨l, spec, clientRef, spec', -, hover, hsettle, rfl⟩ := updateLease_ok h
  have hspec : spec.release = l.spec.release := by
    unfold overlaySpec at hover
    split at hover
    · obtain ⟨desired, -, htimes⟩ := bind_ok hover
      unfold overlayTimes at htimes
      split at htimes <;> cases htimes
      rfl
    · cases hover
      rfl
  refine if_pos (Eq.trans ?_ hspec)
  unfold settleTimes at hsettle
  split at hsettle
  · obtain ⟨t, -, ht⟩ := bind_ok hsettle
    cases ht
    rfl
  · cases hsettle
    rfl

theorem releasePatch_release (l : Lease) : (releasePatch l).2.release ≠ some false := by
  simp [releasePatch, SpecPatch.diff, changed]

theorem Call.patch_release {c : Call} (h : c.patch k look = some q) : q.2.release ≠ some false := by
  cases c with
  | update caller req => simp [updateLease_release (ok_of_toOption h)]
  | delete caller name =>
    obtain ⟨l, -, h⟩ := bind_ok (ok_of_toOption h)
    obtain ⟨-, -, h⟩ := bind_ok h
    obtain ⟨-, -, h⟩ := bind_ok h
    cases h
    exact releasePatch_release l
  | release | releaseAsExporter =>
    have h := ok_of_toOption (Option.join_eq_some_iff.mp h)
    simp only [releaseLease, releaseLeaseAsExporter] at h
    repeat' split at h
    all_goals cases h
    exact releasePatch_release _

theorem reconcile_released {f : SortFunc} {clock : Clock} {reads : Reads} {r : Stage}
    (hr : reconcile k f clock reads l = .ok r) (hrel : l.spec.release = true) : r.lease.status.ended = true := by
  have hspec : r.lease.spec.release = true := (reconcile_sameBut hr).spec ▸ hrel
  obtain ⟨st, -, rfl⟩ := reconcile_ok hr
  rw [(sameBut_ended clock _).spec] at hspec
  exact (settled_ended clock _).lapsed (.inl hspec) (.inr (.inl hspec))

/-- The lease `l'` is `l` after its release, with the same status or at the end. -/
structure Released (l l' : Lease) : Prop where
  key : l'.key = l.key
  release : l'.spec.release = true
  status : l'.status = l.status ∨ l'.status.ended = true

theorem released_inductive (cfg : Config) (ok : St → Act → Prop) : (sys cfg).InductiveIf ok
    fun s => Inv cfg s ∧ ∀ q ∈ s.calls, q.2.release ≠ some false where
  init := by
    rintro s rfl
    exact ⟨.start cfg, nofun⟩
  step := by
    rintro s a s' ⟨hi, hcalls⟩ - hst
    refine ⟨hi.step hst, fun q hq => ?_⟩
    rcases (step_effect hi.worker hst).calls hq with hq | ⟨c, hc⟩
    · exact hcalls q hq
    · exact c.patch_release hc

theorem Released.write {a : Act} (hcalls : ∀ q ∈ s.calls, q.2.release ≠ some false) (hrel : l.spec.release = true)
    (hw : Write cfg s a l l') : Released l l' := by
  cases hw with
  | @spec i p _ hp =>
    have hnot : p.release ≠ some false := hcalls _ (List.mem_of_getElem? hp)
    refine ⟨rfl, ?_, .inl rfl⟩
    show p.release.getD l.spec.release = true
    cases hq : p.release <;> simp_all
  | status _ hr => exact ⟨rfl, hrel, .inr (reconcile_released hr hrel)⟩
  | labels _ => exact ⟨rfl, hrel, .inl rfl⟩

/-- **A release is final**: in every run a released lease stays in the store and released, and once its status
changes it has ended. -/
theorem released_ends (hs : (sys cfg).Reach s) (hp : (sys cfg).Path s s') (hl : l ∈ s.store)
    (hrel : l.spec.release = true) : ∃ l' ∈ s'.store, Released l l' := by
  refine hp.rel (R := fun s s' => ∀ l ∈ s.store, l.spec.release = true → ∃ l' ∈ s'.store, Released l l')
    (fun s l hl hrel => ⟨l, hl, rfl, hrel, .inl rfl⟩) ?_ ?_ hs l hl hrel
  · intro s₁ s₂ s₃ h h' l hl hrel
    obtain ⟨l', hl', hr⟩ := h l hl hrel
    obtain ⟨l'', hl'', hr'⟩ := h' l' hl' hr.release
    exact ⟨l'', hl'', hr'.key.trans hr.key, hr'.release, hr'.status.elim (· ▸ hr.status) .inr⟩
  · intro s a s' hreach _ hst l hl hrel
    obtain ⟨hi, hcalls⟩ := (released_inductive cfg _).reach hreach
    rcases (step_effect hi.worker hst).store.kept hl with hl' | ⟨l', n, hw, hl'⟩
    · exact ⟨l, hl', rfl, hrel, .inl rfl⟩
    · exact ⟨_, hl', { Released.write hcalls hrel hw with }⟩

theorem released_ends_deleted : ∃ s, (sys labConfig).Reach s ∧ ∃ l ∈ s.store, l.spec.release = true ∧
    ∀ s', (sys labConfig).Path s s' → ∃ l' ∈ s'.store, Released l l' := by
  have hrun : (((sys labConfig).exec {} deletedRun).any fun s => s.store.objects.items.any (·.spec.release)) =
      true := by
    decide +kernel
  obtain ⟨s, hs, hp⟩ := Sys.Reach.exec_any (.init rfl) deletedRun hrun
  obtain ⟨l, hl, hrel⟩ := List.any_eq_true.mp hp
  exact ⟨s, hs, l, hl, hrel, fun s' hpath => released_ends hs hpath hl hrel⟩

end Jumpstarter.LeaseSystem
