import Jumpstarter.Lease.System

/-!
# The status of a lease over whole runs

Every stored status is `StatusOk`, and a lease moves only forward (`Forward`), in every run of the
system: whatever the clients and the cluster do, whatever the clock reads and whichever writes fail
(`status_oneWay`).

The one step that writes a status starts from the stored one (`Write.status`), so this is
`StatusOk.reconcile` for the step, and a second fact about the stored form: a status in the store has
times of whole seconds, so writing it back changes nothing.
-/

namespace Jumpstarter.LeaseSystem

open Lib LeaseReconciler ClientService

variable {cfg : Config} {s s' : St}

structure LeaseOk (l : Lease) : Prop where
  status : StatusOk l.status
  stored : l.status.stored = l.status

theorem LeaseOk.new {k : K8s} {maxTags : Nat} {caller : ObjectKey} {generated : String}
    {req : Option CreateRequest} {l : Lease} (h : createLease k maxTags caller generated req = .ok l) :
    LeaseOk { l with generation := 1 } := by
  have hst := createLease_status h
  refine ⟨?_, ?_⟩
  · show StatusOk l.status
    rw [hst]
    exact .new
  · show l.status.stored = l.status
    rw [hst]
    rfl

variable {a : Act}

theorem LeaseOk.write {c c' : Lease} (h : LeaseOk c) (hw : Write cfg s a c c') :
    LeaseOk c' ∧ Forward c.status c'.status := by
  cases hw with
  | spec _ | labels _ => exact ⟨⟨h.status, h.stored⟩, .refl _⟩
  | status _ hr =>
    obtain ⟨hok, hf⟩ := h.status.reconcile hr
    exact ⟨⟨hok.stored, LeaseStatus.stored_stored _⟩, hf.stored h.stored⟩

theorem LeaseOk.label_write {c c' : Lease} (h : LeaseOk c) (hw : Write cfg s a c c')
    (hlabel : c.labels.has leaseLabelEnded = true → c.status.ended = true)
    (hk : c'.labels.has leaseLabelEnded = true) : c'.status.ended = true := by
  have hf := (h.write hw).2
  cases hw with
  | spec _ => exact hlabel hk
  | status _ _ =>
    rw [hf.ended (hlabel hk)]
    exact hlabel hk
  | labels _ =>
    cases he : c.status.ended with
    | true => exact he
    | false =>
      have hended := hlabel (by simpa [settleMeta, he] using hk)
      rw [he] at hended
      cases hended

/-- The worker holds what it read, and every lease is `LeaseOk`. -/
structure Inv (cfg : Config) (s : St) : Prop where
  worker : s.worker.Traced cfg s.store
  leases : ∀ l ∈ s.store, LeaseOk l

theorem Inv.start (cfg : Config) : Inv cfg {} :=
  ⟨trivial, fun l hl => absurd hl (VStore.mem_empty l)⟩

theorem Inv.step (hi : Inv cfg s) (h : step cfg s a = some s') : Inv cfg s' := by
  have he := step_effect hi.worker h
  refine ⟨he.traced hi.worker, ?_⟩
  refine he.store.forall hi.leases (fun _ _ hl => ⟨hl.status, hl.stored⟩) ?_ ?_
  · intro _ _ _ _ _ hl
    exact .new hl
  · intro c c' hc hw
    exact ((hi.leases c hc).write hw).1

theorem inv_inductive (cfg : Config) (ok : St → Act → Prop) : (sys cfg).InductiveIf ok (Inv cfg) where
  init := by
    rintro s rfl
    exact .start cfg
  step := fun _ _ _ hi _ h => hi.step h

theorem Inv.held (hi : Inv cfg s) {l : Lease} (hw : s.worker = .got l) :
    Held s.store l ∧ StatusOk l.status := by
  have hheld : Held s.store l := by
    have := hi.worker
    rwa [hw] at this
  obtain ⟨c, hc, -, hst⟩ := hheld.status
  exact ⟨hheld, hst ▸ (hi.leases c hc).status⟩

/-- Every lease of `s` is in `s'`, and its status moved forward. -/
def AllForward (s s' : St) : Prop :=
  ∀ l ∈ s.store, ∃ l' ∈ s'.store, l'.key = l.key ∧ Forward l.status l'.status

theorem allForward_step (hi : Inv cfg s) (h : step cfg s a = some s') : AllForward s s' := by
  intro l hl
  rcases (step_effect hi.worker h).store.kept hl with hl' | ⟨l', n, hw, hl'⟩
  · exact ⟨l, hl', rfl, .refl _⟩
  · exact ⟨_, hl', hw.key, ((hi.leases l hl).write hw).2⟩

theorem AllForward.trans {s₁ s₂ s₃ : St} (h : AllForward s₁ s₂) (h' : AllForward s₂ s₃) : AllForward s₁ s₃ := by
  intro l hl
  obtain ⟨l', hl', hk, hf⟩ := h l hl
  obtain ⟨l'', hl'', hk', hf'⟩ := h' l' hl'
  exact ⟨l'', hl'', hk'.trans hk, hf.trans hf'⟩

/-- **The status of a lease is a one-way state machine.** In every reachable state every stored
status is `StatusOk`, and from there on every lease only moves forward. -/
theorem status_oneWay (cfg : Config) {s : St} (hs : (sys cfg).Reach s) :
    (∀ l ∈ s.store, StatusOk l.status) ∧
      ∀ s', (sys cfg).Path s s' → ∀ l ∈ s.store, ∃ l' ∈ s'.store, l'.key = l.key ∧
        Forward l.status l'.status := by
  refine ⟨fun l hl => (((inv_inductive cfg _).reach hs).leases l hl).status, fun s' hp => ?_⟩
  exact hp.rel (R := AllForward) (fun s l hl => ⟨l, hl, rfl, .refl _⟩)
    (fun _ _ _ => AllForward.trans)
    (fun s a s' hr _ h => allForward_step ((inv_inductive cfg _).reach hr) h) hs

def deletedRun : List Act :=
  [.cluster { exporters := [labExporter "lab" "rpi-1"] },
    .create ⟨"lab", "ann"⟩ "lease-1" (some (labRequest "lab"))] ++
  labReconcile 5000000000 ⟨"lab", "lease-1"⟩ [⟨"lab", "lease-1"⟩] ++
  [.call (.delete ⟨"lab", "ann"⟩ "namespaces/lab/leases/lease-1"), .patch 0] ++
  labReconcile 9000000000 ⟨"lab", "lease-1"⟩ [⟨"lab", "lease-1"⟩]

theorem status_oneWay_deleted : ∃ s, (sys labConfig).Reach s ∧
    (∃ l ∈ s.store, l.status.exporterRef = some "rpi-1" ∧ l.status.ended = true) ∧
    (∀ l ∈ s.store, StatusOk l.status) ∧
    ∀ s', (sys labConfig).Path s s' → ∀ l ∈ s.store, ∃ l' ∈ s'.store, l'.key = l.key ∧
      Forward l.status l'.status := by
  have hrun : (((sys labConfig).exec {} deletedRun).any fun s => s.store.objects.items.any fun l =>
      l.status.exporterRef = some "rpi-1" ∧ l.status.ended = true) = true := by
    decide +kernel
  obtain ⟨s, hs, hp⟩ := Sys.Reach.exec_any (.init rfl) deletedRun hrun
  obtain ⟨l, hl, hp⟩ := List.any_eq_true.mp hp
  exact ⟨s, hs, ⟨l, hl, of_decide_eq_true hp⟩, status_oneWay labConfig hs⟩

end Jumpstarter.LeaseSystem
