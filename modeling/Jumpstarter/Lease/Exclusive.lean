import Jumpstarter.Lease.StatusMachine

/-!
# Exclusive exporters

Two leases of one namespace that have not ended never hold the same exporter, if no lease is created
with the key of the ended label (`exporter_exclusive`). Exporters of two namespaces may have one
name, so leases of different namespaces may (`exporter_exclusive_fails`).

A `Reconcile` looks for rivals among the leases without the label, but a lease is over when its
status says so, and the label follows in a second write that may fail. The invariant `Exclusive` says
why that is enough: a label means an ended status (`label`), so a lease that the list leaves out
is no rival; and an assignment that the worker has computed and not yet written has no rival
in the store (`free`), as only the worker writes a status.
-/

namespace Jumpstarter.LeaseSystem

open Lib LeaseReconciler ClientService

variable {cfg : Config} {s s' : St}

/-- The leases are of one namespace, have not ended and hold the same exporter. -/
structure Clash (l l' : Lease) : Prop where
  ns : l.ns = l'.ns
  left : l.status.ended = false
  right : l'.status.ended = false
  exporter : ∃ name, l.status.exporterRef = some name ∧ l'.status.exporterRef = some name

variable {l : Lease}

theorem Clash.symm {l' : Lease} (h : Clash l l') : Clash l' l := by
  obtain ⟨name, hl, hl'⟩ := h.exporter
  exact ⟨h.ns.symm, h.right, h.left, name, hl', hl⟩

variable {d : Lease}

theorem Clash.congr {l' d' : Lease} (h : Clash l d) (hns : l'.ns = l.ns) (hst : l'.status = l.status)
    (hdns : d'.ns = d.ns) (hdst : d'.status = d.status) : Clash l' d' := by
  refine ⟨hns.trans (h.ns.trans hdns.symm), ?_, ?_, ?_⟩
  · rw [hst]
    exact h.left
  · rw [hdst]
    exact h.right
  · rw [hst, hdst]
    exact h.exporter

theorem Clash.of_forward {r : Lease} (h : Clash r d) (hns : l.ns = r.ns) (hf : Forward l.status r.status)
    (href : r.status.exporterRef = l.status.exporterRef) : Clash l d := by
  obtain ⟨name, hr, hd⟩ := h.exporter
  exact ⟨hns.trans h.ns, hf.live h.left, h.right, name, href.symm.trans hr, hd⟩

structure Exclusive (cfg : Config) (s : St) : Prop where
  inv : Inv cfg s
  label : ∀ l ∈ s.store, l.isActive = false → l.status.ended = true
  alone : ∀ l ∈ s.store, ∀ l' ∈ s.store, l.key ≠ l'.key → ¬ Clash l l'
  free : ∀ st, s.worker = .computed st → ∀ d ∈ s.store, d.key ≠ st.lease.key → ¬ Clash st.lease d

/-- A created lease does not carry the key of the ended label. -/
def unlabeled (cfg : Config) : Act → Bool
  | .create caller generated req =>
    match createLease cfg.k8s cfg.maxTags caller generated req with
    | .ok l => l.isActive
    | .error _ => true
  | _ => true

/-! ## The leases -/

variable {a : Act}

theorem Exclusive.label_write (h : Exclusive cfg s) {c c' : Lease} (hc : c ∈ s.store)
    (hw : Write cfg s a c c') (ha : c'.isActive = false) : c'.status.ended = true := by
  have hactive : ∀ l : Lease, l.isActive = false ↔ l.labels.has leaseLabelEnded = true := fun l => by
    simp [Lease.isActive]
  exact (h.inv.leases c hc).label_write hw (fun hk => h.label c hc ((hactive c).mpr hk)) ((hactive c').mp ha)

theorem Exclusive.alone_write (h : Exclusive cfg s) {c c' : Lease} (hc : c ∈ s.store)
    (hw : Write cfg s a c c') (hd : d ∈ s.store) (hk : d.key ≠ c'.key) : ¬ Clash c' d := by
  intro hclash
  cases hw with
  | spec _ | labels _ => exact h.alone c hc d hd hk.symm (hclash.congr rfl rfl rfl rfl)
  | @status st _ _ _ hst hr =>
    have hkey : st.lease.key = c.key := (reconcile_sameBut hr).key
    have hns : st.lease.ns = c.ns := congrArg ObjectKey.ns hkey
    refine h.free st hst d hd (hkey ▸ hk) ?_
    exact { hclash with ns := hns.trans hclash.ns }

theorem Exclusive.alone_step (h : Exclusive cfg s) {store : VStore versioning}
    (hs : StoreStep cfg s a store) : ∀ l ∈ store, ∀ l' ∈ store, l.key ≠ l'.key → ¬ Clash l l' := by
  cases hs with
  | same => exact h.alone
  | @create _ _ _ l₀ _ _ hnew hs =>
    -- A new lease has no exporter.
    have hnone : ∀ n l', ¬ Clash (versioning.stamp n { l₀ with generation := 1 }) l' := by
      intro n l' hclash
      obtain ⟨name, hname, -⟩ := hclash.exporter
      cases (createLease_exporterRef hnew).symm.trans hname
    intro l hl l' hl' hk hclash
    rcases (VStore.mem_create hs).mp hl with rfl | hl
    · exact hnone _ _ hclash
    rcases (VStore.mem_create hs).mp hl' with rfl | hl'
    · exact hnone _ _ hclash.symm
    · exact h.alone l hl l' hl' hk hclash
  | @write c c' hc hw =>
    obtain ⟨n, hn⟩ := s.store.next_stamp c'
    have hnext : ∀ d ∈ s.store, d.key ≠ c'.key → ¬ Clash (s.store.next c') d := by
      intro d hd hk hclash
      rw [hn] at hclash
      exact h.alone_write hc hw hd hk (hclash.congr rfl rfl rfl rfl)
    intro l hl l' hl' hk hclash
    rcases VStore.mem_put hl with rfl | ⟨hl, hlk⟩
    · rcases VStore.mem_put hl' with rfl | ⟨hl', hlk'⟩
      · exact hk rfl
      · exact hnext l' hl' hlk' hclash
    · rcases VStore.mem_put hl' with rfl | ⟨hl', -⟩
      · exact hnext l hl hlk hclash.symm
      · exact h.alone l hl l' hl' hk hclash

/-! ## The computed assignment -/

theorem Exclusive.free_compute (h : Exclusive cfg s) {clock : Clock} {order : List ObjectKey} {st : Stage}
    (hw : s.worker = .got l) (hperm : order.Perm ((s.activeLeases l.ns).map Lease.key))
    (hr : reconcile cfg.k8s cfg.sortFunc clock (s.reads order) l = .ok st) (hd : d ∈ s.store)
    (hk : d.key ≠ st.lease.key) : ¬ Clash st.lease d := by
  intro hclash
  have hkey : st.lease.key = l.key := (reconcile_sameBut hr).key
  have hns : st.lease.ns = l.ns := congrArg ObjectKey.ns hkey
  obtain ⟨hheld, hok⟩ := h.inv.held hw
  rcases reconcile_assigned hr with ⟨-, href⟩ | ⟨a, ha⟩
  · -- The lease had the exporter before: its stored form clashes.
    have hl : Clash l d := hclash.of_forward hns.symm (hok.reconcile hr).2 href
    obtain ⟨c, hc, hck, hcst⟩ := hheld.status
    have hne : c.key ≠ d.key := fun he => hk (he.symm.trans (hck.trans hkey.symm))
    exact h.alone c hc d hd hne (hl.congr (congrArg ObjectKey.ns hck) hcst rfl rfl)
  · -- The exporter is new: no active lease that was read has it.
    obtain ⟨name, hname, hdname⟩ := hclash.exporter
    rw [ha.exporterRef] at hname
    cases hname
    have hactive : d.isActive = true := by
      cases hact : d.isActive with
      | true => rfl
      | false =>
        have := h.label d hd hact
        rw [hclash.right] at this
        cases this
    exact ha.assignable.free d (mem_reads hperm hd (hclash.ns.symm.trans hns) hactive) hdname

theorem Exclusive.free_store (h : Exclusive cfg s) {store : VStore versioning}
    (hs : StoreStep cfg s a store) {st : Stage} (hst : s.worker = .computed st) :
    ∀ d ∈ store, d.key ≠ st.lease.key → ¬ Clash st.lease d := by
  refine hs.forall (h.free st hst) (fun n d hd hk hclash => ?_) ?_ ?_
  · exact hd hk (hclash.congr rfl rfl rfl rfl)
  · intro _ _ _ l _ hnew _ hclash
    obtain ⟨name, -, hname⟩ := hclash.exporter
    cases (createLease_exporterRef hnew).symm.trans hname
  · intro c c' hc hw hk hclash
    cases hw with
    | spec _ => exact h.free st hst c hc hk (hclash.congr rfl rfl rfl rfl)
    | status hst' hr =>
      -- The worker writes the lease of the assignment itself.
      rw [hst] at hst'
      cases hst'
      exact hk (reconcile_sameBut hr).key.symm
    | labels hst' =>
      rw [hst] at hst'
      cases hst'

theorem exclusive_inductive (cfg : Config) :
    (sys cfg).InductiveIf (fun _ a => unlabeled cfg a = true) (Exclusive cfg) where
  init := by
    rintro s rfl
    refine ⟨.start cfg, ?_, ?_, ?_⟩
    · exact fun l hl => absurd hl (VStore.mem_empty l)
    · exact fun l hl => absurd hl (VStore.mem_empty l)
    · intro st hst
      cases hst
  step := by
    intro s a s' h hok hst
    have heff := step_effect h.inv.worker hst
    refine ⟨h.inv.step hst, ?_, h.alone_step heff.store, fun st hw => ?_⟩
    · refine heff.store.forall h.label (fun _ _ hl => hl) ?_ fun c c' hc hw => h.label_write hc hw
      intro caller generated req l ha hl hact
      subst ha
      simp only [unlabeled, hl] at hok
      exact absurd (hok.symm.trans hact) (by simp)
    · rcases heff.computed hw with hw | ⟨clock, order, l, -, hgot, hsame, hperm, hr⟩
      · exact h.free_store heff.store hw
      · rw [hsame]
        exact fun d => h.free_compute hgot hperm hr

/-- **Exporters are exclusive in a namespace.** No two leases of one namespace that have not ended
hold the same exporter, in any run in which no lease is created with the key of the ended label. -/
theorem exporter_exclusive (cfg : Config) {s : St}
    (hs : (sys cfg).ReachIf (fun _ a => unlabeled cfg a = true) s) :
    ∀ l ∈ s.store, ∀ l' ∈ s.store, l.ns = l'.ns → l.status.ended = false →
      l'.status.ended = false → ∀ name, l.status.exporterRef = some name →
      l'.status.exporterRef = some name → l = l' := by
  intro l hl l' hl' hns he he' name hname hname'
  by_cases hk : l.key = l'.key
  · exact s.store.eq_of_key hl hl' hk
  · exact absurd ⟨hns, he, he', name, hname, hname'⟩ (((exclusive_inductive cfg).reach hs).alone l hl l' hl' hk)

def waitingRun : List Act :=
  [.cluster { exporters := [labExporter "lab" "rpi-1"] },
    .create ⟨"lab", "ann"⟩ "lease-1" (some (labRequest "lab")),
    .create ⟨"lab", "bob"⟩ "lease-2" (some (labRequest "lab"))] ++
  labReconcile 5000000000 ⟨"lab", "lease-1"⟩ [⟨"lab", "lease-1"⟩, ⟨"lab", "lease-2"⟩] ++
  labReconcile 6000000000 ⟨"lab", "lease-2"⟩ [⟨"lab", "lease-1"⟩, ⟨"lab", "lease-2"⟩]

theorem exporter_exclusive_waiting :
    ∃ s, (sys labConfig).ReachIf (fun _ a => unlabeled labConfig a = true) s ∧
      ((s.store.objects.items.any fun l => l.status.exporterRef = some "rpi-1") &&
        s.store.objects.items.any fun l => l.isTrue .pending) = true ∧
      ∀ l ∈ s.store, ∀ l' ∈ s.store, l.ns = l'.ns → l.status.ended = false →
        l'.status.ended = false → ∀ name, l.status.exporterRef = some name →
        l'.status.exporterRef = some name → l = l' := by
  have hrun : (((sys labConfig).execIf (fun _ a => unlabeled labConfig a) {} waitingRun).any fun s =>
      (s.store.objects.items.any fun l => l.status.exporterRef = some "rpi-1") &&
        s.store.objects.items.any fun l => l.isTrue .pending) = true := by
    decide +kernel
  obtain ⟨s, hs, hp⟩ := Sys.ReachIf.execIf_any (.init rfl) waitingRun hrun
  exact ⟨s, hs, hp, exporter_exclusive labConfig hs⟩

def twoLabsRun : List Act :=
  [.cluster { exporters := [labExporter "lab" "rpi-1", labExporter "office" "rpi-1"] },
    .create ⟨"lab", "ann"⟩ "lease-1" (some (labRequest "lab")),
    .create ⟨"office", "bob"⟩ "lease-1" (some (labRequest "office"))] ++
  labReconcile 5000000000 ⟨"lab", "lease-1"⟩ [⟨"lab", "lease-1"⟩] ++
  labReconcile 6000000000 ⟨"office", "lease-1"⟩ [⟨"office", "lease-1"⟩]

/-- Without the namespace it fails: two leases that have not ended hold exporters of one name. -/
theorem exporter_exclusive_fails :
    ∃ s, (sys labConfig).ReachIf (fun _ a => unlabeled labConfig a = true) s ∧
      ∃ l ∈ s.store, ∃ l' ∈ s.store, l ≠ l' ∧ l.status.ended = false ∧ l'.status.ended = false ∧
        l.status.exporterRef = some "rpi-1" ∧ l'.status.exporterRef = some "rpi-1" := by
  have hrun : (((sys labConfig).execIf (fun _ a => unlabeled labConfig a) {} twoLabsRun).any fun s =>
      s.store.objects.items.any fun l => s.store.objects.items.any fun l' =>
        l ≠ l' ∧ l.status.ended = false ∧ l'.status.ended = false ∧
          l.status.exporterRef = some "rpi-1" ∧ l'.status.exporterRef = some "rpi-1") = true := by
    decide +kernel
  obtain ⟨s, hs, hp⟩ := Sys.ReachIf.execIf_any (.init rfl) twoLabsRun hrun
  obtain ⟨l, hl, hp⟩ := List.any_eq_true.mp hp
  obtain ⟨l', hl', hp⟩ := List.any_eq_true.mp hp
  exact ⟨s, hs, l, hl, l', hl', of_decide_eq_true hp⟩

end Jumpstarter.LeaseSystem
