import Jumpstarter.ExporterSet.ScaleUp
import Jumpstarter.Lease.Select

/-!
# Demand that an exporter of the set can serve (`countPendingLeases`)

The third rule of `reconcileScaleUp` creates an exporter for the pending leases that match the labels of
the template. The exporter helps such a lease only if the lease controller then considers it
(`considered`, from `reconcileStatusExporterRef`). The two controllers agree on the selector; but a lease
that names its exporter is considered for that one alone, and `countPendingLeases` does not look at the
name.

`considered_iff`: of the counted leases, the new exporter is considered for those that name no exporter and
have a selector, and for those that name the new one.
-/

namespace Jumpstarter.ExporterSet

open LeaseReconciler List

/-- The exporters that `reconcileStatusExporterRef` considers for a lease; none, if it returns early. -/
def considered (k : K8s) (l : Lease) (exporters : List Exporter) : List Exporter :=
  match labelSelectorAsSelector k l.spec.selector with
  | .error _ => []
  | .ok sel =>
    if sel.isEmpty && l.spec.exporterRef.isNone then []
    else
      match matchingExporters k l sel { exporters } with
      | .error _ => []
      | .ok matching => matching

/-- The new exporter of the set under the name `name` would be considered for the lease. -/
def Servable (k : K8s) (es : ExporterSet) (s : St) (name : String) (l : Lease) : Prop :=
  newExporter es name ∈ considered k l (s.exporters ++ [newExporter es name])

def IsFresh (es : ExporterSet) (s : St) (name : String) : Prop :=
  ∀ e ∈ s.exporters, ¬ (e.ns = es.ns ∧ e.name = name)

/-- Demand is counted only where it can be served, and only such demand creates an exporter. -/
structure DemandServed (k : K8s) (es : ExporterSet) (s : St) (name : String) : Prop where
  counted : ∀ l ∈ s.leases.filter (isPendingFor k es), l.status.exporterRef = none ∧
    l.status.ended = false ∧ l.isTrue .pending = true ∧ Servable k es s name l
  created : ∀ inp, CreatesByDemand k es s inp → ∃ l ∈ s.leases, Servable k es s name l

/-- The lease names no exporter and has a selector, or it names the exporter `name`. -/
def IsOpenFor (name : String) (l : Lease) : Prop :=
  (l.spec.exporterRef = none ∧ l.spec.selector ≠ {}) ∨ l.spec.exporterRef = some name

variable {k : K8s} {es : ExporterSet} {s : St} {name : String} {l : Lease}

/-! ## The selector -/

theorem isPendingFor_iff : isPendingFor k es l = true ↔
    l.ns = es.ns ∧ l.status.ended = false ∧ l.status.exporterRef = none ∧ l.isTrue .pending = true ∧
      ∃ sel, labelSelectorAsSelector k l.spec.selector = .ok sel ∧
        selectorMatches sel es.templateLabels = true := by
  unfold isPendingFor
  cases labelSelectorAsSelector k l.spec.selector with
  | error err => simp
  | ok sel => simp [and_assoc]

theorem mapM_length {α β ε : Type} {f : α → Except ε β} {l : List α} :
    ∀ {r : List β}, l.mapM f = .ok r → r.length = l.length := by
  induction l with
  | nil =>
    intro r h
    cases h
    rfl
  | cons a l ih =>
    intro r h
    rw [mapM_cons] at h
    obtain ⟨b, -, h⟩ := Lib.bind_ok h
    obtain ⟨bs, hbs, h⟩ := Lib.bind_ok h
    cases h
    simp [ih hbs]

variable {sel : List Requirement}

theorem labelSelectorAsSelector_isEmpty {ps : LabelSelector} (h : labelSelectorAsSelector k ps = .ok sel) :
    sel.isEmpty = true ↔ ps = {} := by
  obtain ⟨labels, hlabels, h⟩ := Lib.bind_ok h
  obtain ⟨expressions, hexpressions, h⟩ := Lib.bind_ok h
  cases h
  have hl := mapM_length hlabels
  have he := mapM_length hexpressions
  cases ps with
  | mk matchLabels matchExpressions =>
    simp only [List.isEmpty_iff, LabelSelector.mk.injEq, ← length_eq_zero_iff, length_append, hl, he]
    omega

/-! ## The exporters that are considered -/

theorem find_new (hfresh : IsFresh es s name) :
    (s.exporters ++ [newExporter es name]).find? (fun e => e.ns = es.ns && e.name = name) =
      some (newExporter es name) := by
  rw [find?_append, find?_eq_none.mpr]
  · simp [newExporter]
  · intro e he
    simpa using hfresh e he

theorem requestedExporter_name {reads : Reads} {n : String} {matching : List Exporter}
    (h : requestedExporter k l sel reads n = .ok matching) : ∀ e ∈ matching, e.name = n := by
  unfold requestedExporter at h
  split at h
  · cases h
  rename_i e he
  have hname : e.name = n := by
    have := find?_some he
    simp only [Bool.and_eq_true, decide_eq_true_eq] at this
    exact this.2
  split at h
  · cases h
  split at h
  · cases h
  cases h
  intro e' he'
  rw [mem_singleton.mp he', hname]

theorem requestedExporter_new (hfresh : IsFresh es s name) (hns : l.ns = es.ns)
    (hmatch : selectorMatches sel es.templateLabels = true) :
    requestedExporter k l sel { exporters := s.exporters ++ [newExporter es name] } name =
      .ok [newExporter es name] := by
  have hmatch' : selectorMatches sel (newExporter es name).labels = true := hmatch
  have henabled : (newExporter es name).isEnabled = true := rfl
  unfold requestedExporter
  simp [hns, find_new hfresh, hmatch', henabled]

theorem listedExporters_new (s : St) (name : String) (hns : l.ns = es.ns)
    (hmatch : selectorMatches sel es.templateLabels = true) :
    ∃ matching, listedExporters l sel { exporters := s.exporters ++ [newExporter es name] } =
      .ok matching ∧ newExporter es name ∈ matching := by
  have hmem : newExporter es name ∈ filterOutDisabledExporters
      ((s.exporters ++ [newExporter es name]).filter fun e =>
        e.ns = l.ns && selectorMatches sel e.labels) := by
    refine Lib.mem_deleteFunc.mpr ⟨mem_filter.mpr ⟨by simp, ?_⟩, rfl⟩
    simp [newExporter, hns, hmatch]
  refine ⟨_, ?_, hmem⟩
  unfold listedExporters
  rw [if_neg]
  simp only [isEmpty_eq_false_iff_exists_mem.mpr ⟨_, hmem⟩, Bool.false_and, Bool.false_eq_true,
    not_false_eq_true]

/-- **The new exporter is considered for a counted lease**, if and only if the lease is open for it. -/
theorem considered_iff (hfresh : IsFresh es s name) (h : isPendingFor k es l = true) :
    Servable k es s name l ↔ IsOpenFor name l := by
  obtain ⟨hns, -, -, -, sel, hsel, hmatch⟩ := isPendingFor_iff.mp h
  have hempty := labelSelectorAsSelector_isEmpty hsel
  unfold Servable considered IsOpenFor
  rw [hsel]
  cases href : l.spec.exporterRef with
  | some n =>
    simp only [Option.isNone_some, Bool.and_false, Bool.false_eq_true, if_false, reduceCtorEq,
      false_and, false_or, Option.some.injEq, matchingExporters, href]
    by_cases hn : n = name
    · simp [hn, requestedExporter_new hfresh hns hmatch]
    · refine iff_of_false ?_ hn
      split
      · simp
      · rename_i matching hok
        intro hmem
        exact hn (requestedExporter_name hok _ hmem).symm
  | none =>
    simp only [Option.isNone_none, Bool.and_true, true_and, reduceCtorEq, or_false, matchingExporters, href]
    by_cases hps : l.spec.selector = {}
    · simp [hempty.mpr hps, hps]
    · obtain ⟨matching, hok, hmem⟩ := listedExporters_new s name hns hmatch
      simp [hempty, hps, hok, hmem]

/-! ## The third rule -/

/-- **Demand is counted where it can be served**, if and only if every counted lease is open for the new
exporter. -/
theorem demandServed_iff (hfresh : IsFresh es s name) :
    DemandServed k es s name ↔ ∀ l ∈ s.leases, isPendingFor k es l = true → IsOpenFor name l := by
  constructor
  · intro h l hl hpending
    obtain ⟨-, -, -, hservable⟩ := h.counted l (mem_filter.mpr ⟨hl, hpending⟩)
    exact (considered_iff hfresh hpending).mp hservable
  · intro h
    have hservable : ∀ l ∈ s.leases, isPendingFor k es l = true → Servable k es s name l :=
      fun l hl hpending => (considered_iff hfresh hpending).mpr (h l hl hpending)
    constructor
    · intro l hl
      obtain ⟨hl, hpending⟩ := mem_filter.mp hl
      obtain ⟨-, hended, href, hcondition, -⟩ := isPendingFor_iff.mp hpending
      exact ⟨href, hended, hcondition, hservable l hl hpending⟩
    · intro inp hcreates
      -- the rule creates for at least one lease
      have hpos := ((createsByDemand_iff s inp).mp hcreates).pending
      have hpos : 0 < (s.leases.filter (isPendingFor k es)).length := Int.natCast_pos.mp hpos
      obtain ⟨l, hl⟩ := exists_mem_of_length_pos hpos
      obtain ⟨hl, hpending⟩ := mem_filter.mp hl
      exact ⟨l, hl, hservable l hl hpending⟩

/-- A pending lease for the exporter `bench-1`. -/
def pinnedLease : Lease :=
  { pendingLease with spec := { exporterRef := some "bench-1" } }

/-- The exporter `bench-1` is offline, and not of the set. -/
def pinnedSt : St := ⟨[{ ns := "lab", name := "bench-1" }], [pinnedLease]⟩

/-- The lease for `bench-1` lets the set create an exporter, which is not considered for the lease. -/
theorem demandServed_fails :
    CreatesByDemand anyK8s demandSet pinnedSt {} ∧ ¬ DemandServed anyK8s demandSet pinnedSt "qemu-a" := by
  refine ⟨rfl, fun h => ?_⟩
  obtain ⟨-, -, -, hservable⟩ := h.counted pinnedLease (by decide)
  exact absurd hservable (by unfold Servable; decide)

/-- A lease that names no exporter is served. -/
theorem demandServed_unpinned : DemandServed anyK8s demandSet ⟨[], [pendingLease]⟩ "qemu-a" := by
  have hfresh : IsFresh demandSet ⟨[], [pendingLease]⟩ "qemu-a" := by
    intro e he
    cases he
  refine (demandServed_iff hfresh).mpr fun l hl _ => ?_
  rw [mem_singleton.mp hl]
  exact .inl ⟨rfl, by decide⟩

end Jumpstarter.ExporterSet
