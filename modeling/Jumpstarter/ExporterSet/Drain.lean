import Jumpstarter.ExporterSet.Pool
import Jumpstarter.Lease.StatusMachine

/-!
# Deletion of exporters under lease

Three controllers over one store: `LeaseReconciler` assigns exporters (`LeaseSystem`),
`ExporterReconciler` copies the assignment to `Exporter.Status.LeaseRef`, and `ExporterSetReconciler`
disables and deletes exporters whose `LeaseRef` is not set.

- A `Reconcile` of an exporter is `getExporter`, `computeExporter` (it lists the leases) and
  `patchExporter`, or ends with `failExporter`.
- A `Reconcile` of an `ExporterSet` is `list`, which takes the decision, and the writes that it
  decided, one step each: `delete` for every exporter to delete, by name and without a precondition;
  `disable`, which fails if the exporter changed since it was listed; `create`. `stop` ends it early.
- `lease` is any step of `LeaseSystem`; among them is any change of the exporters by others.

`deletion_fails`: between the assignment and the copy the exporter looks idle, and it is disabled and deleted.
`deletion_of_undisturbed`: no exporter under lease is deleted in runs without that window.
-/

namespace Jumpstarter.Drain

open Lib LeaseReconciler LeaseSystem ExporterSet List

/-- The point that the `Reconcile` of an exporter has reached. -/
inductive ExporterWorker where
  | idle
  | got (e : Exporter)
  | computed (key : ObjectKey) (orig new : ExporterStatus)

/-- What the `Reconcile` of an `ExporterSet` still has to write. -/
inductive Scaler where
  | idle
  | deleting (ns : String) (names : List String)
  | disabling (listed : Exporter)
  | creating (es : ExporterSet)

/-- The state of the system; the exporters are those of `leases.cluster`. -/
structure St where
  leases : LeaseSystem.St := {}
  exporterWorker : ExporterWorker := .idle
  scaler : Scaler := .idle

def St.exporters (s : St) : List Exporter := s.leases.cluster.exporters

def St.setExporters (s : St) (exporters : List Exporter) : St :=
  { s with leases := { s.leases with cluster := { s.leases.cluster with exporters } } }

/-- A lease of the namespace that has not ended references the exporter. -/
def St.leased (s : St) (ns name : String) : Bool :=
  s.leases.store.objects.items.any fun l =>
    l.ns = ns && !l.status.ended && l.status.exporterRef = some name

inductive Act where
  | lease (a : LeaseSystem.Act)
  | getExporter (key : ObjectKey)
  | computeExporter (now : Int) (endpoint : String) (order : List ObjectKey)
  | patchExporter
  | failExporter
  | list (es : ExporterSet) (inp : Inputs)
  | delete
  | disable
  | create (name : String)
  | stop

/-! ## `ExporterReconciler` -/

/-- `Get` of the exporter. -/
def St.getExporter (s : St) (key : ObjectKey) : Option St :=
  match s.exporterWorker with
  | .idle => (s.exporters.find? (hasKey key)).map fun e => { s with exporterWorker := .got e }
  | _ => none

/-- The change of the copy, with the active leases in the order `order`. -/
def St.computeExporter (s : St) (now : Int) (endpoint : String) (order : List ObjectKey) :
    Option St :=
  match s.exporterWorker with
  | .got e =>
    if order.isPerm ((s.leases.activeLeases e.ns).map Lease.key) then
      let new := e.reconcile now (s.leases.reads order).activeLeases endpoint
      some { s with exporterWorker := .computed ⟨e.ns, e.name⟩ e.status new.status }
    else none
  | _ => none

/-- `Status().Patch`. -/
def St.patchExporter (s : St) : Option St :=
  match s.exporterWorker with
  | .computed key orig new =>
    some ({ s with exporterWorker := .idle }.setExporters (s.exporters.map fun e =>
      if hasKey key e then { e with status := orig.mergePatch new e.status } else e))
  | _ => none

/-! ## `ExporterSetReconciler` -/

/-- The decision of a `Reconcile`, and the writes that it starts. -/
def St.list (k : K8s) (s : St) (es : ExporterSet) (inp : Inputs) : Option St :=
  match s.scaler with
  | .idle =>
    match ExporterSet.reconcile k es s.exporters s.leases.store.objects.items inp with
    | .ok (.delete names) => some { s with scaler := .deleting es.ns names }
    | .ok (.create _) => some { s with scaler := .creating es }
    | .ok (.scaleDown (.disable name _)) =>
      (s.exporters.find? (hasKey ⟨es.ns, name⟩)).map fun e => { s with scaler := .disabling e }
    | _ => some s
  | _ => none

def St.delete (s : St) : Option St :=
  match s.scaler with
  | .deleting ns (name :: rest) =>
    some ({ s with scaler := .deleting ns rest }.setExporters
      (s.exporters.filter fun e => !hasKey ⟨ns, name⟩ e))
  | _ => none

/-- `Update` of the exporter to disable: of the copy, unless the exporter has changed. -/
def St.disable (s : St) : Option St :=
  match s.scaler with
  | .disabling listed =>
    some ({ s with scaler := .idle }.setExporters (s.exporters.map fun e =>
      if e = listed then { e with enabled := some false, generation := e.generation + 1 } else e))
  | _ => none

/-- `Create`, with the name that the server generates. -/
def St.create (s : St) (name : String) : Option St :=
  match s.scaler with
  | .creating es =>
    if s.exporters.any (hasKey ⟨es.ns, name⟩) then none
    else some ({ s with scaler := .idle }.setExporters (s.exporters ++ [newExporter es name]))
  | _ => none

def step (cfg : Config) (s : St) : Act → Option St
  | .lease a => (LeaseSystem.step cfg s.leases a).map fun leases => { s with leases }
  | .getExporter key => s.getExporter key
  | .computeExporter now endpoint order => s.computeExporter now endpoint order
  | .patchExporter => s.patchExporter
  | .failExporter => some { s with exporterWorker := .idle }
  | .list es inp => s.list cfg.k8s es inp
  | .delete => s.delete
  | .disable => s.disable
  | .create name => s.create name
  | .stop => some { s with scaler := .idle }

/-- The system: it starts without leases and exporters. -/
def sys (cfg : Config) : Sys St Act := ⟨fun s => s = {}, step cfg⟩

/-- The condition on a step: a `Reconcile` of an `ExporterSet` that lists its exporters finds `LeaseRef`
set for each of them that is under lease, and no lease is assigned an exporter that it still has to
delete. -/
def undisturbed (cfg : Config) (s : St) : Act → Bool
  | .list es _ => s.exporters.all fun e =>
      !isMember cfg.k8s es e || isLeased e || !s.leased e.ns e.name
  | .lease .writeStatus =>
    match s.leases.worker, s.scaler with
    | .computed st, .deleting ns names => st.assigned.all fun a =>
        !(st.lease.ns = ns && names.contains a.exporter.name)
    | _, _ => true
  | _ => true

/-! ## The steps of the other controllers -/

variable {cfg : Config} {s s' : St} {key : ObjectKey}

theorem getExporter_some (h : s.getExporter key = some s') :
    ∃ exporterWorker, s' = { s with exporterWorker } := by
  unfold St.getExporter at h
  split at h
  · obtain ⟨e, -, rfl⟩ := Option.map_eq_some_iff.mp h
    exact ⟨_, rfl⟩
  · cases h

theorem computeExporter_some {now : Int} {endpoint : String} {order : List ObjectKey}
    (h : s.computeExporter now endpoint order = some s') :
    ∃ exporterWorker, s' = { s with exporterWorker } := by
  unfold St.computeExporter at h
  split at h
  · split at h
    · cases h
      exact ⟨_, rfl⟩
    · cases h
  · cases h

theorem patchExporter_some (h : s.patchExporter = some s') :
    ∃ exporters, s' = { s with exporterWorker := .idle }.setExporters exporters := by
  unfold St.patchExporter at h
  split at h
  · cases h
    exact ⟨_, rfl⟩
  · cases h

theorem list_some {k : K8s} {es : ExporterSet} {inp : Inputs} (h : s.list k es inp = some s') :
    ∃ scaler, s' = { s with scaler } ∧ ∀ ns names, scaler = .deleting ns names → ns = es.ns ∧
      ExporterSet.reconcile k es s.exporters s.leases.store.objects.items inp = .ok (.delete names) := by
  unfold St.list at h
  split at h
  · rename_i hidle
    split at h
    · rename_i names hd
      cases h
      refine ⟨_, rfl, ?_⟩
      rintro _ _ ⟨⟩
      exact ⟨rfl, hd⟩
    · cases h
      exact ⟨_, rfl, by rintro _ _ ⟨⟩⟩
    · obtain ⟨e, -, rfl⟩ := Option.map_eq_some_iff.mp h
      exact ⟨_, rfl, by rintro _ _ ⟨⟩⟩
    · cases h
      refine ⟨s.scaler, rfl, fun ns names heq => ?_⟩
      rw [hidle] at heq
      cases heq
  · cases h

theorem delete_some (h : s.delete = some s') :
    ∃ ns name rest, s.scaler = .deleting ns (name :: rest) ∧
      s' = { s with scaler := .deleting ns rest }.setExporters
        (s.exporters.filter fun e => !hasKey ⟨ns, name⟩ e) := by
  unfold St.delete at h
  split at h
  · rename_i ns name rest heq
    cases h
    exact ⟨ns, name, rest, heq, rfl⟩
  · cases h

theorem disable_some (h : s.disable = some s') :
    ∃ listed : Exporter, s' = { s with scaler := .idle }.setExporters (s.exporters.map fun e =>
      if e = listed then { e with enabled := some false, generation := e.generation + 1 } else e) := by
  unfold St.disable at h
  split at h
  · cases h
    exact ⟨_, rfl⟩
  · cases h

variable {name : String}

theorem create_some (h : s.create name = some s') :
    ∃ e, s' = { s with scaler := .idle }.setExporters (s.exporters ++ [e]) := by
  unfold St.create at h
  split at h
  · split at h
    · cases h
    · cases h
      exact ⟨_, rfl⟩
  · cases h

theorem step_leases {a : Act} (h : step cfg s a = some s') (ha : ∀ b, a ≠ .lease b) :
    s'.leases.store = s.leases.store ∧ s'.leases.worker = s.leases.worker := by
  cases a with
  | lease b => exact absurd rfl (ha b)
  | getExporter key =>
    obtain ⟨w, rfl⟩ := getExporter_some h
    exact ⟨rfl, rfl⟩
  | computeExporter now endpoint order =>
    obtain ⟨w, rfl⟩ := computeExporter_some h
    exact ⟨rfl, rfl⟩
  | patchExporter =>
    obtain ⟨exporters, rfl⟩ := patchExporter_some h
    exact ⟨rfl, rfl⟩
  | failExporter | stop =>
    cases h
    exact ⟨rfl, rfl⟩
  | list es inp =>
    obtain ⟨scaler, rfl, -⟩ := list_some h
    exact ⟨rfl, rfl⟩
  | delete =>
    obtain ⟨ns, name, rest, -, rfl⟩ := delete_some h
    exact ⟨rfl, rfl⟩
  | disable =>
    obtain ⟨listed, rfl⟩ := disable_some h
    exact ⟨rfl, rfl⟩
  | create name =>
    obtain ⟨e, rfl⟩ := create_some h
    exact ⟨rfl, rfl⟩

/-! ## Leases -/

theorem inv_step {a : Act} (hi : Inv cfg s.leases) (h : step cfg s a = some s') : Inv cfg s'.leases := by
  by_cases ha : ∃ b, a = .lease b
  · obtain ⟨b, rfl⟩ := ha
    obtain ⟨t, ht, rfl⟩ := Option.map_eq_some_iff.mp h
    exact hi.step ht
  · obtain ⟨hstore, hworker⟩ := step_leases h fun b hb => ha ⟨b, hb⟩
    refine ⟨?_, ?_⟩
    · rw [hworker, hstore]
      exact hi.worker
    · rw [hstore]
      exact hi.leases

theorem leased_iff {ns : String} : s.leased ns name = true ↔
    ∃ l ∈ s.leases.store, l.ns = ns ∧ l.status.ended = false ∧ l.status.exporterRef = some name := by
  unfold St.leased
  rw [any_eq_true]
  constructor
  · rintro ⟨l, hl, h⟩
    simp only [Bool.and_eq_true, decide_eq_true_eq, Bool.not_eq_true'] at h
    exact ⟨l, hl, h.1.1, h.1.2, h.2⟩
  · rintro ⟨l, hl, hns, hlive, href⟩
    exact ⟨l, hl, by simp [hns, hlive, href]⟩

variable {a : LeaseSystem.Act}

theorem reference_write {s : LeaseSystem.St} {c c' : Lease} (hok : LeaseOk c) (hw : Write cfg s a c c')
    (hlive : c'.status.ended = false) (href : c'.status.exporterRef = some name) :
    (c.status.ended = false ∧ c.status.exporterRef = some name) ∨
      ∃ st b, a = .writeStatus ∧ s.worker = .computed st ∧ st.assigned = some b ∧
        st.lease.ns = c.ns ∧ b.exporter.name = name := by
  have hclive : c.status.ended = false := (hok.write hw).2.live hlive
  cases hw with
  | spec _ | labels _ => exact .inl ⟨hclive, href⟩
  | @status st _ _ _ hst hr =>
    rcases reconcile_assigned hr with ⟨-, hsame⟩ | ⟨b, hass⟩
    · exact .inl ⟨hclive, hsame.symm.trans href⟩
    · refine .inr ⟨st, b, rfl, hst, hass.assigned, ?_, ?_⟩
      · exact congrArg ObjectKey.ns (reconcile_sameBut hr).key
      · exact Option.some.inj (hass.exporterRef.symm.trans href)

variable {t : LeaseSystem.St}

theorem reference_step {s : LeaseSystem.St} (hi : Inv cfg s) (h : LeaseSystem.step cfg s a = some t)
    {l : Lease} (hl : l ∈ t.store) (hlive : l.status.ended = false)
    (href : l.status.exporterRef = some name) :
    (∃ c ∈ s.store, c.key = l.key ∧ c.status.ended = false ∧ c.status.exporterRef = some name) ∨
      ∃ st b, a = .writeStatus ∧ s.worker = .computed st ∧ st.assigned = some b ∧
        st.lease.ns = l.ns ∧ b.exporter.name = name := by
  revert hlive href
  refine (step_effect hi.worker h).store.forall (P := fun l => l.status.ended = false →
    l.status.exporterRef = some name →
      (∃ c ∈ s.store, c.key = l.key ∧ c.status.ended = false ∧ c.status.exporterRef = some name) ∨
      ∃ st b, a = .writeStatus ∧ s.worker = .computed st ∧ st.assigned = some b ∧
        st.lease.ns = l.ns ∧ b.exporter.name = name)
    ?_ (fun _ _ hl => hl) ?_ ?_ l hl
  · intro c hc hlive href
    exact .inl ⟨c, hc, rfl, hlive, href⟩
  · intro _ _ _ l₀ _ hnew _ href
    cases (ClientService.createLease_exporterRef hnew).symm.trans href
  · intro c c' hc hw hlive href
    have hcns : c'.ns = c.ns := congrArg ObjectKey.ns hw.key
    rcases reference_write (hi.leases c hc) hw hlive href with
      ⟨hclive, hcref⟩ | ⟨st, b, ha, hst, hb, hbns, hbname⟩
    · exact .inl ⟨c, hc, hw.key.symm, hclive, hcref⟩
    · exact .inr ⟨st, b, ha, hst, hb, hbns.trans hcns.symm, hbname⟩

theorem leased_step (hi : Inv cfg s.leases) (h : LeaseSystem.step cfg s.leases a = some t) {ns : String}
    (hl : St.leased { s with leases := t } ns name = true) :
    s.leased ns name = true ∨
      ∃ st b, a = .writeStatus ∧ s.leases.worker = .computed st ∧ st.assigned = some b ∧
        st.lease.ns = ns ∧ b.exporter.name = name := by
  obtain ⟨l, hmem, rfl, hlive, href⟩ := leased_iff.mp hl
  refine (reference_step hi h hmem hlive href).imp_left ?_
  rintro ⟨c, hc, hk, hclive, hcref⟩
  exact leased_iff.mpr ⟨c, hc, congrArg ObjectKey.ns hk, hclive, hcref⟩

/-! ## The invariant -/

/-- No exporter that the scaler still has to delete is under lease. -/
structure Drained (cfg : Config) (s : St) : Prop where
  inv : Inv cfg s.leases
  free : ∀ ns names, s.scaler = .deleting ns names → ∀ name ∈ names, s.leased ns name = false

theorem Drained.list (h : Drained cfg s) {es : ExporterSet} {inp : Inputs}
    (hok : undisturbed cfg s (.list es inp) = true) (hst : s.list cfg.k8s es inp = some s') :
    Drained cfg s' := by
  obtain ⟨scaler, rfl, hdel⟩ := list_some hst
  refine ⟨h.inv, ?_⟩
  intro ns names heq name hn
  obtain ⟨rfl, hd⟩ := hdel ns names heq
  obtain ⟨e, he, hm, hidle, rfl⟩ := reconcile_delete hd hn
  have hfree := all_eq_true.mp hok e he
  rw [hm, hidle] at hfree
  rw [← isMember_ns hm]
  have : s.leased e.ns e.name = false := by simpa using hfree
  exact this

theorem Drained.lease (h : Drained cfg s) (hok : undisturbed cfg s (.lease a) = true)
    (hst : LeaseSystem.step cfg s.leases a = some t) : Drained cfg { s with leases := t } := by
  refine ⟨h.inv.step hst, ?_⟩
  intro ns names heq name hn
  have hfree := h.free ns names heq name hn
  cases hl : St.leased { s with leases := t } ns name with
  | false => rfl
  | true =>
    rcases leased_step h.inv hst hl with hold | ⟨st, b, rfl, hw, hb, rfl, rfl⟩
    · exact hold.symm.trans hfree
    · -- The condition excludes this assignment.
      change s.scaler = .deleting st.lease.ns names at heq
      simp [undisturbed, hw, heq, hb, hn] at hok

theorem drained_inductive (cfg : Config) :
    (sys cfg).InductiveIf (fun s a => undisturbed cfg s a = true) (Drained cfg) where
  init := by
    rintro s rfl
    refine ⟨.start cfg, ?_⟩
    intro _ _ heq
    cases heq
  step := by
    intro s a s' h hok hst
    refine ⟨inv_step h.inv hst, ?_⟩
    cases a with
    | lease a =>
      obtain ⟨t, ht, rfl⟩ := Option.map_eq_some_iff.mp hst
      exact (h.lease hok ht).free
    | getExporter key =>
      obtain ⟨w, rfl⟩ := getExporter_some hst
      exact h.free
    | computeExporter now endpoint order =>
      obtain ⟨w, rfl⟩ := computeExporter_some hst
      exact h.free
    | patchExporter =>
      obtain ⟨exporters, rfl⟩ := patchExporter_some hst
      exact h.free
    | failExporter =>
      cases hst
      exact h.free
    | list es inp => exact (h.list hok hst).free
    | delete =>
      obtain ⟨ns, name, rest, heq, rfl⟩ := delete_some hst
      intro ns' names heq' n hn
      cases heq'
      exact h.free _ _ heq n (mem_cons_of_mem _ hn)
    | disable =>
      obtain ⟨listed, rfl⟩ := disable_some hst
      exact fun _ _ heq => nomatch heq
    | create name =>
      obtain ⟨e, rfl⟩ := create_some hst
      exact fun _ _ heq => nomatch heq
    | stop =>
      cases hst
      exact fun _ _ heq => nomatch heq

/-! ## No exporter under lease is deleted -/

/-- The steps of `ExporterSetReconciler`. -/
def Act.isScaler : Act → Bool
  | .list _ _ | .delete | .disable | .create _ | .stop => true
  | _ => false

/-- The exporter with the key was in the store before the step and is not after it. -/
def Deletes (s s' : St) (key : ObjectKey) : Prop :=
  (∃ e ∈ s.exporters, hasKey key e = true) ∧ ∀ e ∈ s'.exporters, hasKey key e = false

theorem not_deletes {s s' : St} (f : Exporter → Exporter) (hf : ∀ e, hasKey key (f e) = hasKey key e)
    (h : ∀ e ∈ s.exporters, f e ∈ s'.exporters) : ¬ Deletes s s' key := by
  rintro ⟨⟨e, he, hk⟩, hnone⟩
  have := hnone (f e) (h e he)
  rw [hf, hk] at this
  cases this

theorem deletes_step {a : Act} (ha : a.isScaler = true) (h : step cfg s a = some s') (hd : Deletes s s' key) :
    ∃ rest, s.scaler = .deleting key.ns (key.name :: rest) := by
  cases a with
  | lease _ | getExporter _ | computeExporter _ _ _ | patchExporter | failExporter => cases ha
  | list es inp =>
    obtain ⟨scaler, rfl, -⟩ := list_some h
    exact absurd hd (not_deletes id (fun _ => rfl) fun _ he => he)
  | disable =>
    obtain ⟨listed, rfl⟩ := disable_some h
    refine absurd hd (not_deletes _ (fun e => ?_) fun e he => mem_map_of_mem he)
    split
    · rfl
    · rfl
  | create name =>
    obtain ⟨e, rfl⟩ := create_some h
    exact absurd hd (not_deletes id (fun _ => rfl) fun _ he => mem_append_left _ he)
  | stop =>
    cases h
    exact absurd hd (not_deletes id (fun _ => rfl) fun _ he => he)
  | delete =>
    obtain ⟨ns, name, rest, heq, rfl⟩ := delete_some h
    obtain ⟨⟨e, he, hk⟩, hnone⟩ := hd
    -- The exporter is gone, so its key is the deleted one.
    have hkey : hasKey ⟨ns, name⟩ e = true := by
      cases hkey : hasKey ⟨ns, name⟩ e with
      | true => rfl
      | false =>
        have := hnone e (mem_filter.mpr ⟨he, by simp [hkey]⟩)
        rw [hk] at this
        cases this
    simp only [hasKey, Bool.and_eq_true, decide_eq_true_eq] at hk hkey
    refine ⟨rest, ?_⟩
    rw [heq, ← hk.1, ← hk.2, hkey.1, hkey.2]

/-- **No exporter under lease is deleted** in a run without the window: what a step of the scaler
deletes, no lease that has not ended references. -/
theorem deletion_of_undisturbed (cfg : Config) {s s' : St}
    (hs : (sys cfg).ReachIf (fun s a => undisturbed cfg s a = true) s) {a : Act}
    (ha : a.isScaler = true) (h : step cfg s a = some s') {key : ObjectKey}
    (hd : Deletes s s' key) : s.leased key.ns key.name = false := by
  obtain ⟨rest, hrest⟩ := deletes_step ha h hd
  exact ((drained_inductive cfg).reach hs).free _ _ hrest _ mem_cons_self

def drainSet : ExporterSet where
  ns := "lab"
  name := "pool"
  uid := "pool-uid"
  selector := { matchLabels := [("board", "rpi")] }
  templateLabels := [("board", "rpi")]

def poolExporter : Exporter :=
  let e := labExporter "lab" "rpi-1"
  { e with
    controller := some "pool-uid"
    enabled := some true
    status := { e.status with devices := [⟨"root", none, []⟩], lastSeen := some (10 * minute) } }

def assignRun : List LeaseSystem.Act :=
  [.cluster { exporters := [poolExporter] },
    .create ⟨"lab", "ann"⟩ "lease-1" (some (labRequest "lab"))] ++
  labReconcile 600000000000 ⟨"lab", "lease-1"⟩ [⟨"lab", "lease-1"⟩]

def releaseRun : List LeaseSystem.Act :=
  [.call (.delete ⟨"lab", "ann"⟩ "namespaces/lab/leases/lease-1"), .patch 0] ++
  labReconcile 600000000000 ⟨"lab", "lease-1"⟩ [⟨"lab", "lease-1"⟩]

/-- A `Reconcile` of the exporter, with the active leases `order`. -/
def copyRun (order : List ObjectKey) : List Act :=
  [.getExporter ⟨"lab", "rpi-1"⟩, .computeExporter (10 * minute) "endpoint" order, .patchExporter]

/-- The scaler, with a surplus since the beginning: it disables the exporter and decides to delete it. -/
def scaleDownRun : List Act :=
  let inp : Inputs := { now := 10 * minute, surplusSince := some (some 0) }
  [.list drainSet inp, .disable, .list drainSet inp]

def deletesNext (s : St) (key : ObjectKey) : Bool :=
  s.exporters.any (hasKey key) && s.delete.any fun s' => s'.exporters.all fun e => !hasKey key e

theorem deletes_of_next (h : deletesNext s key = true) :
    ∃ s', step cfg s .delete = some s' ∧ Deletes s s' key := by
  obtain ⟨hin, hout⟩ := Bool.and_eq_true_iff.mp h
  cases hd : s.delete with
  | none =>
    rw [hd] at hout
    cases hout
  | some s' =>
    rw [hd] at hout
    refine ⟨s', hd, any_eq_true.mp hin, fun e he => ?_⟩
    simpa using all_eq_true.mp hout e he

/-- The lease gets the exporter and is released, and `ExporterReconciler` copies both. -/
theorem deletion_of_undisturbed_released :
    ∃ s s', (sys labConfig).ReachIf (fun s a => undisturbed labConfig s a = true) s ∧
      step labConfig s .delete = some s' ∧ Deletes s s' ⟨"lab", "rpi-1"⟩ ∧
      s.leased "lab" "rpi-1" = false := by
  have hrun : (((sys labConfig).execIf (undisturbed labConfig) {}
      (assignRun.map .lease ++ copyRun [⟨"lab", "lease-1"⟩] ++ releaseRun.map .lease ++
        copyRun [] ++ scaleDownRun)).any fun s => deletesNext s ⟨"lab", "rpi-1"⟩) = true := by
    decide +kernel
  obtain ⟨s, hs, hp⟩ := Sys.ReachIf.execIf_any (.init rfl) _ hrun
  obtain ⟨s', hst, hd⟩ := deletes_of_next hp
  exact ⟨s, s', hs, hst, hd, deletion_of_undisturbed labConfig hs rfl hst hd⟩

/-- The scaler runs twice between the assignment and the copy of it: it deletes an exporter under
lease. -/
theorem deletion_fails :
    ∃ s s', (sys labConfig).Reach s ∧ step labConfig s .delete = some s' ∧
      Deletes s s' ⟨"lab", "rpi-1"⟩ ∧ s.leased "lab" "rpi-1" = true := by
  have hrun : (((sys labConfig).exec {} (assignRun.map .lease ++ scaleDownRun)).any fun s =>
      deletesNext s ⟨"lab", "rpi-1"⟩ && s.leased "lab" "rpi-1") = true := by
    decide +kernel
  obtain ⟨s, hs, hp⟩ := Sys.Reach.exec_any (.init rfl) _ hrun
  obtain ⟨hnext, hl⟩ := Bool.and_eq_true_iff.mp hp
  obtain ⟨s', hst, hd⟩ := deletes_of_next hnext
  exact ⟨s, s', hs, hst, hd, hl⟩

end Jumpstarter.Drain
