import Jumpstarter.ExporterSet.Pool
import Jumpstarter.Lib.Sys

/-!
# Scale-up by demand

The third rule of `reconcileScaleUp` creates an exporter for pending leases. The first two rules
count the exporters that are still booting (`potentiallyAvailable`), so that repeated runs of
`Reconcile` do not create twice for one need; the third looks at the available ones only.

- `demandBounded_fails`: a second `Reconcile` before the exporter that the first created is online creates
  another for the same lease.
- `demandBounded_of_fewBooting`: the third rule creates only while fewer exporters are idle (available or
  booting) than leases are pending, and so repeated runs do not grow the pool past
  `max minReplicas (leased + minAvailableReplicas) (leased + pending)`, in every run in which the rule is
  evaluated only while fewer exporters are booting than leases are pending (`FewBooting`).
-/

namespace Jumpstarter.ExporterSet

open Lib

namespace ScaleUp

/-- A step: a `Reconcile` of the set, or a change by somebody else. -/
inductive Act where
  | reconcile (inp : Inputs) (o : Outcome)
  | change (c : Change)

def step (k : K8s) (es : ExporterSet) (s : St) : Act → Option St
  | .reconcile inp o => some (s.reconcile k es inp o)
  | .change c => some (s.change c)

/-- The runs of `Reconcile`, from any exporters and leases. -/
def sys (k : K8s) (es : ExporterSet) : Sys St Act where
  init _ := True
  step := step k es

end ScaleUp

variable (k : K8s) (es : ExporterSet)

/-- The number of leased exporters of the set. -/
def St.leased (s : St) : Int := number isLeased (s.owned k es)

/-- The number of exporters of the set that are enabled and not leased. -/
def St.idle (s : St) : Int := number isIdle (s.owned k es)

/-- The number of exporters of the set that are still booting. -/
def St.booting (s : St) : Int := number isBooting (s.owned k es)

/-- The number of pending leases that match the set. -/
def St.pending (s : St) : Int := countPendingLeases k es s.leases

def CreatesByDemand (s : St) (inp : Inputs) : Prop :=
  reconcile k es s.exporters s.leases inp = .ok (.create .demand)

/-- The third rule is evaluated and applies: nothing is to be deleted, the other rules do not
apply, there is room, a lease is pending and no exporter is available. -/
structure DemandGuard (s : St) (inp : Inputs) : Prop where
  classMatches : inp.classMatches = true
  selector : ∃ sel, labelSelectorAsSelector k es.selector = .ok sel
  noDisabled : cleanupDisabledExporters (s.owned k es) = []
  noTerminal : cleanupTerminalExporters es (s.owned k es) inp.podsByExporter = []
  parametersMerge : inp.parametersMerge = true
  leasesListed : inp.leasesListed = true
  floor : belowFloor es (computePoolState (s.owned k es)) = false
  buffer : belowBuffer es (computePoolState (s.owned k es)) = false
  room : atMaxReplicas es (s.pool k es) = false
  pending : 0 < s.pending k es
  available : number isAvailable (s.owned k es) = 0

/-- Where the third rule applies, fewer exporters are booting than leases are pending. -/
def FewBooting (s : St) : ScaleUp.Act → Prop
  | .reconcile inp _ => DemandGuard k es s inp → s.booting k es < s.pending k es
  | .change _ => True

/-! ## The defect -/

section Defect

def demandSet : ExporterSet :=
  { ns := "lab", name := "qemu", uid := "1", selector := ⟨[("pool", "qemu")], []⟩
    templateLabels := [("pool", "qemu")] }

/-- A pending lease for an exporter of the set. -/
def pendingLease : Lease :=
  let pending : Condition LeaseConditionType :=
    { type := .pending, status := .true, observedGeneration := 0, reason := "Offline" }
  { ns := "lab", name := "l1", spec := { selector := ⟨[("pool", "qemu")], []⟩ },
    status := { conditions := [pending] } }

/-- The pool before and after the first `Reconcile`, and after a second one while the exporter of the
first is not yet online. -/
def impatient : St × St × St :=
  let s0 : St := ⟨[], [pendingLease]⟩
  let s1 := s0.reconcile anyK8s demandSet {} { created := some "qemu-a" }
  (s0, s1, s1.reconcile anyK8s demandSet {} { created := some "qemu-b" })

/-- With one pending lease the third rule creates while an exporter is booting for it, and the pool
grows to two, past the bound of one. -/
theorem demandBounded_fails :
    (ScaleUp.sys anyK8s demandSet).Path impatient.1 impatient.2.1 ∧
    (ScaleUp.sys anyK8s demandSet).Path impatient.1 impatient.2.2 ∧
    (CreatesByDemand anyK8s demandSet impatient.2.1 {} ∧
      ¬ impatient.2.1.idle anyK8s demandSet < impatient.2.1.pending anyK8s demandSet) ∧
    ¬ impatient.2.2.pool anyK8s demandSet ≤ max (impatient.1.pool anyK8s demandSet)
      (max demandSet.minReplicas
        (max (impatient.2.2.leased anyK8s demandSet + demandSet.minAvailableReplicas)
          (impatient.2.2.leased anyK8s demandSet + impatient.2.2.pending anyK8s demandSet))) := by
  have h1 : (ScaleUp.sys anyK8s demandSet).Path impatient.1 impatient.2.1 :=
    .step (a := ScaleUp.Act.reconcile {} { created := some "qemu-a" }) .refl trivial rfl
  have h2 : (ScaleUp.sys anyK8s demandSet).Path impatient.1 impatient.2.2 :=
    .step (a := ScaleUp.Act.reconcile {} { created := some "qemu-b" }) h1 trivial rfl
  refine ⟨h1, h2, ⟨rfl, by decide⟩, by decide⟩

end Defect

/-! ## What holds -/

variable {k es}

theorem owned_eq {s : St} {owned : List Exporter} (h : listOwnedExporters k es s.exporters = .ok owned) :
    owned = s.owned k es :=
  listOwnedExporters_ok h

theorem maxScaleUp_pos {current : Int} (h : atMaxReplicas es current = false) : maxScaleUp es current > 0 := by
  simp only [atMaxReplicas, Bool.and_eq_false_iff, decide_eq_false_iff_not] at h
  unfold maxScaleUp
  split
  · decide
  · simp only
    split <;> omega

theorem createsByDemand_iff (s : St) (inp : Inputs) : CreatesByDemand k es s inp ↔ DemandGuard k es s inp := by
  constructor
  · intro h
    obtain ⟨hclass, owned, howned, hdis, hterm, hmerge, hrule⟩ := reconcile_create h
    have hsel : ∃ sel, labelSelectorAsSelector k es.selector = .ok sel := by
      unfold listOwnedExporters at howned
      split at howned
      · cases howned
      · exact ⟨_, ‹_›⟩
    obtain rfl := owned_eq howned
    obtain ⟨-, hfloor, hbuffer, hroom, n, hn, hpos, hav⟩ := reconcileScaleUp_some hrule
    rw [computePoolState_eq] at hroom hav
    cases hl : inp.leasesListed with
    | false =>
      rw [hl] at hn
      cases hn
    | true =>
      rw [hl] at hn
      cases hn
      exact ⟨hclass, hsel, hdis, hterm, hmerge, hl, hfloor, hbuffer, hroom, hpos, hav⟩
  · intro g
    obtain ⟨sel, hsel⟩ := g.selector
    have howned : listOwnedExporters k es s.exporters = .ok (s.owned k es) := by
      unfold listOwnedExporters St.owned
      rw [hsel]
      refine congrArg Except.ok (List.filter_congr fun e _ => ?_)
      simp only [isMember, hsel]
    have hroom : atMaxReplicas es (computePoolState (s.owned k es)).replicas = false := by
      rw [computePoolState_eq]
      exact g.room
    have hpos := maxScaleUp_pos hroom
    have hav : (computePoolState (s.owned k es)).available = 0 := by
      rw [computePoolState_eq]
      exact g.available
    have hpend : countPendingLeases k es s.leases > 0 := g.pending
    unfold CreatesByDemand ExporterSet.reconcile
    simp [g.classMatches, howned, g.noDisabled, g.noTerminal, g.parametersMerge, g.leasesListed,
      reconcileScaleUp, g.floor, g.buffer, hroom, hpos, hav, hpend]

theorem DemandGuard.pool_eq {s : St} {inp : Inputs} (g : DemandGuard k es s inp) :
    s.pool k es = s.leased k es + s.booting k es := by
  have hlen := length_eq_of_cleanup g.noDisabled
  have hidle := number_idle (s.owned k es)
  rw [g.available] at hidle
  unfold St.pool St.leased St.booting
  omega

/-- At the third rule the idle exporters are the booting ones, so that in each state the condition is
the one under which the rule creates as it should. -/
theorem createsByDemand_idle_iff (s : St) (inp : Inputs) (o : Outcome) :
    (CreatesByDemand k es s inp → s.idle k es < s.pending k es) ↔ FewBooting k es s (.reconcile inp o) := by
  rw [createsByDemand_iff]
  refine forall_congr' fun g => ?_
  have hidle := number_idle (s.owned k es)
  rw [g.available] at hidle
  unfold St.idle St.booting
  omega

theorem create_bound {s : St} {inp : Inputs} {o : Outcome} {rule : Rule}
    (hok : FewBooting k es s (.reconcile inp o))
    (h : reconcile k es s.exporters s.leases inp = .ok (.create rule)) :
    s.pool k es + 1 ≤ max es.minReplicas
      (max (s.leased k es + es.minAvailableReplicas) (s.leased k es + s.pending k es)) := by
  cases rule with
  | demand =>
    have g := (createsByDemand_iff s inp).mp h
    have hb := hok g
    have := g.pool_eq
    omega
  | floor =>
    obtain ⟨-, owned, howned, -, -, -, hrule⟩ := reconcile_create h
    obtain rfl := owned_eq howned
    have hfloor := (reconcileScaleUp_some hrule).2
    simp only [Rule.Guard, belowFloor, computePoolState_eq, Bool.and_eq_true,
      decide_eq_true_eq] at hfloor
    unfold St.pool
    omega
  | warmBuffer =>
    obtain ⟨-, owned, howned, -, -, -, hrule⟩ := reconcile_create h
    obtain rfl := owned_eq howned
    have hbuffer := (reconcileScaleUp_some hrule).2.2
    simp only [belowBuffer, computePoolState_eq, Bool.and_eq_true, decide_eq_true_eq] at hbuffer
    unfold St.pool St.leased
    omega

theorem pool_eq_number (s : St) : s.pool k es = number (isMember k es) s.exporters := rfl

theorem isMember_enabled (e : Exporter) (b : Option Bool) :
    isMember k es { e with enabled := b } = isMember k es e := rfl

theorem isMember_status (e : Exporter) (st : ExporterStatus) :
    isMember k es { e with status := st } = isMember k es e := rfl

/-- **Scale-up by demand is bounded** in every run whose steps meet `FewBooting`, with at most `n`
leases pending and at most `L` exporters leased during the run; and in the state reached the third
rule creates as it should exactly if the next `Reconcile` meets `FewBooting`. -/
theorem demandBounded_of_fewBooting (L n : Int) {s s' : St}
    (hp : (ScaleUp.sys k es).PathIf
      (fun t a => FewBooting k es t a ∧ t.leased k es ≤ L ∧ t.pending k es ≤ n) s s') :
    s'.pool k es ≤ max (s.pool k es)
      (max es.minReplicas (max (L + es.minAvailableReplicas) (L + n))) ∧
    ∀ inp o, (CreatesByDemand k es s' inp → s'.idle k es < s'.pending k es) ↔
      FewBooting k es s' (.reconcile inp o) := by
  refine ⟨?_, fun inp o => createsByDemand_idle_iff s' inp o⟩
  refine hp.keep (I := fun t => t.pool k es ≤ max (s.pool k es)
    (max es.minReplicas (max (L + es.minAvailableReplicas) (L + n)))) (by omega) ?_
  intro t a t' ht ⟨hok, hL, hn⟩ hst
  cases a with
  | change c =>
    cases hst
    have := number_change_le (p := isMember k es) isMember_enabled isMember_status t c
    rw [pool_eq_number] at ht ⊢
    omega
  | reconcile inp o =>
    cases hst
    rcases number_reconcile_le (p := isMember k es) isMember_enabled k es inp o t with
      h | ⟨⟨rule, hd⟩, h⟩
    · rw [pool_eq_number] at ht ⊢
      omega
    · have hb := create_bound hok hd
      rw [pool_eq_number] at hb ⊢
      omega

/-- One `Reconcile` for one pending lease. -/
theorem demandBounded_once :
    (ScaleUp.sys anyK8s demandSet).PathIf (fun t a => FewBooting anyK8s demandSet t a ∧
      t.leased anyK8s demandSet ≤ 0 ∧ t.pending anyK8s demandSet ≤ 1) impatient.1 impatient.2.1 ∧
    impatient.2.1.pool anyK8s demandSet ≤ 1 := by
  have hp : (ScaleUp.sys anyK8s demandSet).PathIf (fun t a => FewBooting anyK8s demandSet t a ∧
      t.leased anyK8s demandSet ≤ 0 ∧ t.pending anyK8s demandSet ≤ 1) impatient.1 impatient.2.1 :=
    .step (a := ScaleUp.Act.reconcile {} { created := some "qemu-a" }) .refl
      ⟨fun _ => by decide, by decide, by decide⟩ rfl
  exact ⟨hp, (demandBounded_of_fewBooting 0 1 hp).1⟩

end Jumpstarter.ExporterSet
