import Jumpstarter.ExporterSet.ScaleUp

/-!
# `maxReplicas` as a ceiling

`maxReplicas` is compared with the exporters that the set's selector matches. Nothing relates the
selector to the labels of the template, and `Register` replaces the labels of an exporter that begin
with `jumpstarter.dev/`; an exporter that the selector misses is not counted.

- `ceiling_fails`: every `Reconcile` creates one more, where the template does not carry the selector's
  labels and where `Register` removed them.
- `ceiling_of_counted`: the exporters that the set controls are never more than `maxReplicas`, or than there
  were at first, in every run in which a `Reconcile` finds `maxReplicas` exporters by the selector where the
  set controls so many (`Counted`).
-/

namespace Jumpstarter.ExporterSet

open Lib

namespace Ceiling

/-- A step: a `Reconcile` of the set, the `Register` of an exporter, or another change. -/
inductive Act where
  | reconcile (inp : Inputs) (o : Outcome)
  | register (key : ObjectKey) (labels : Labels) (reports : List Device)
  | change (c : Change)

/-- The exporter `e` after a `Register` of the exporter with the key. -/
def registerAt (key : ObjectKey) (labels : Labels) (reports : List Device) (e : Exporter) :
    Exporter :=
  if hasKey key e then e.register labels reports else e

def step (k : K8s) (es : ExporterSet) (s : St) : Act → Option St
  | .reconcile inp o => some (s.reconcile k es inp o)
  | .register key labels reports =>
    some { s with exporters := s.exporters.map (registerAt key labels reports) }
  | .change c => some (s.change c)

/-- The runs of `Reconcile` and `Register`, from any exporters and leases. -/
def sys (k : K8s) (es : ExporterSet) : Sys St Act where
  init _ := True
  step := step k es

end Ceiling

/-- The number of exporters whose controller is the set. -/
def St.controlled (es : ExporterSet) (s : St) : Int := number (isOwnedBy · es.uid) s.exporters

/-- A `Reconcile` finds `maxReplicas` exporters where the set controls so many. -/
def Counted (k : K8s) (es : ExporterSet) (s : St) : Ceiling.Act → Prop
  | .reconcile _ _ => es.maxReplicas ≤ s.controlled es → es.maxReplicas ≤ s.pool k es
  | .register _ _ _ | .change _ => True

/-! ## The defect -/

/-- A set of one exporter whose template does not carry the selector's label. -/
def mislabeledSet : ExporterSet :=
  { ns := "lab", name := "qemu", uid := "1", minReplicas := 1, maxReplicas := 1,
    selector := ⟨[("pool", "qemu")], []⟩ }

/-- A set of one exporter whose selector's label `Register` removes. -/
def reservedSet : ExporterSet :=
  { ns := "lab", name := "qemu", uid := "1", minReplicas := 1, maxReplicas := 1,
    selector := ⟨[("jumpstarter.dev/pool", "qemu")], []⟩,
    templateLabels := [("jumpstarter.dev/pool", "qemu")] }

def mislabeledRun : List Ceiling.Act :=
  [.reconcile {} { created := some "qemu-a" }, .reconcile {} { created := some "qemu-b" }]

def registerRun : List Ceiling.Act :=
  [.reconcile {} { created := some "qemu-a" },
    .register ⟨"lab", "qemu-a"⟩ [("jumpstarter.dev/name", "a")] [],
    .reconcile {} { created := some "qemu-b" }]

/-- From no exporters, a set with a ceiling of one comes to control two. -/
theorem ceiling_fails :
    (∃ s : St, (Ceiling.sys anyK8s mislabeledSet).exec ⟨[], []⟩ mislabeledRun = some s ∧
      ¬ s.controlled mislabeledSet ≤
        max mislabeledSet.maxReplicas ((⟨[], []⟩ : St).controlled mislabeledSet)) ∧
    (∃ s : St, (Ceiling.sys anyK8s reservedSet).exec ⟨[], []⟩ registerRun = some s ∧
      ¬ s.controlled reservedSet ≤
        max reservedSet.maxReplicas ((⟨[], []⟩ : St).controlled reservedSet)) := by
  refine ⟨⟨_, rfl, ?_⟩, ⟨_, rfl, ?_⟩⟩
  · decide
  · decide

/-! ## What holds -/

variable {k : K8s} {es : ExporterSet}

theorem create_below_max {s : St} {inp : Inputs} {rule : Rule} (hM : 0 < es.maxReplicas)
    (h : reconcile k es s.exporters s.leases inp = .ok (.create rule)) :
    s.pool k es < es.maxReplicas := by
  obtain ⟨-, owned, howned, -, -, -, hrule⟩ := reconcile_create h
  obtain rfl := owned_eq howned
  have hroom := (reconcileScaleUp_some hrule).1
  rw [computePoolState_eq] at hroom
  simp only [maxScaleUp, if_neg (show ¬ es.maxReplicas ≤ 0 by omega)] at hroom
  unfold St.pool
  split at hroom <;> omega

/-- **`maxReplicas` is a ceiling** of the exporters that the set controls, in every run whose steps
meet `Counted`. -/
theorem ceiling_of_counted (hM : 0 < es.maxReplicas) {s s' : St}
    (hp : (Ceiling.sys k es).PathIf (Counted k es) s s') :
    s'.controlled es ≤ max es.maxReplicas (s.controlled es) := by
  refine hp.keep (I := fun t => t.controlled es ≤ max es.maxReplicas (s.controlled es)) (by omega) ?_
  intro t a t' ht hok hst
  cases a with
  | change c =>
    cases hst
    have := number_change_le (p := (isOwnedBy · es.uid)) (fun _ _ => rfl) (fun _ _ => rfl) t c
    unfold St.controlled at ht ⊢
    omega
  | register key labels reports =>
    cases hst
    -- `Register` keeps the owner.
    have hkeep : ∀ e, isOwnedBy (Ceiling.registerAt key labels reports e) es.uid = isOwnedBy e es.uid := by
      intro e
      unfold Ceiling.registerAt
      split <;> rfl
    have hcount := number_map (isOwnedBy · es.uid) _ hkeep t.exporters
    show number (isOwnedBy · es.uid) (t.exporters.map _) ≤ _
    rw [hcount]
    exact ht
  | reconcile inp o =>
    cases hst
    rcases number_reconcile_le (p := (isOwnedBy · es.uid)) (fun _ _ => rfl) k es inp o t with
      h | ⟨⟨rule, hd⟩, h⟩
    · unfold St.controlled at ht ⊢
      omega
    · have hlt := create_below_max hM hd
      have hno : t.controlled es < es.maxReplicas := by
        apply Int.lt_of_not_ge
        intro hge
        exact absurd (hok hge) (by omega)
      unfold St.controlled at hno ⊢
      omega

/-- A labeled set creates its one exporter. -/
theorem ceiling_once : ∃ s : St, 0 < reservedSet.maxReplicas ∧
    (Ceiling.sys anyK8s reservedSet).PathIf (Counted anyK8s reservedSet) ⟨[], []⟩ s ∧
    s.controlled reservedSet = 1 ∧
    s.controlled reservedSet ≤ max reservedSet.maxReplicas ((⟨[], []⟩ : St).controlled reservedSet) := by
  have hp : (Ceiling.sys anyK8s reservedSet).PathIf (Counted anyK8s reservedSet) ⟨[], []⟩
      ((⟨[], []⟩ : St).reconcile anyK8s reservedSet {} { created := some "qemu-a" }) :=
    .step (a := Ceiling.Act.reconcile {} { created := some "qemu-a" }) .refl (fun h => absurd h (by decide)) rfl
  exact ⟨_, by decide, hp, by decide, ceiling_of_counted (by decide) hp⟩

end Jumpstarter.ExporterSet
