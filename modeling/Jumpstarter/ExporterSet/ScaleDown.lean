import Jumpstarter.ExporterSet.Pool

/-!
# The floor of a pool (`reconcileScaleDown`)

`reconcileScaleDown` disables one exporter when the pool has more than `minReplicas` exporters and more
than `minAvailableReplicas` available ones for longer than the cooldown (`Due`). The replicas that it
counts are all exporters of the set, also those that were disabled before and only wait for the end of
their lease.

- What is disabled is one enabled exporter without a lease (`disable_one`), and as many as
  `minAvailableReplicas` stay available.
- **The floor** (`floorKept_iff`): `minReplicas` exporters stay enabled if and only if there were more
  than that, and not only more replicas.
-/

namespace Jumpstarter.ExporterSet

open List Option

/-- The rules of the CRD for the numbers of an `ExporterSet`. -/
structure Valid (es : ExporterSet) : Prop where
  minReplicas : 0 ≤ es.minReplicas
  maxReplicas : 0 ≤ es.maxReplicas
  minAvailableReplicas : 0 ≤ es.minAvailableReplicas
  floor : es.maxReplicas = 0 ∨ es.minReplicas ≤ es.maxReplicas
  buffer : es.maxReplicas = 0 ∨ es.minAvailableReplicas ≤ es.maxReplicas

/-- The exporters of a set: they are in its namespace, and the store has one under each name. -/
structure IsPool (es : ExporterSet) (owned : List Exporter) : Prop where
  ns : ∀ e ∈ owned, e.ns = es.ns
  names : (owned.map (·.name)).Nodup

section Inputs

variable (now : Int) (lastAction : Option Int) (surplusSince : Option (Option Int)) (es : ExporterSet)
  (owned : List Exporter)

/-- The pool after `reconcileScaleDown`. -/
def scaledDown : List Exporter :=
  write es { disabled := true } owned
    (.scaleDown (reconcileScaleDown now lastAction surplusSince es owned (computePoolState owned)))

/-- If `reconcileScaleDown` disables an exporter, it is one that was enabled and not leased, no other
exporter changes, and enough exporters stay enabled and available. -/
def FloorKept : Prop :=
  ∀ name requeueAfter, reconcileScaleDown now lastAction surplusSince es owned
      (computePoolState owned) = .disable name requeueAfter →
    (∃ before e rest, owned = before ++ e :: rest ∧ e.name = name ∧ isIdle e = true ∧
      scaledDown now lastAction surplusSince es owned =
        before ++ { e with enabled := some false } :: rest) ∧
    es.minReplicas ≤ number Exporter.isEnabled (scaledDown now lastAction surplusSince es owned) ∧
    es.minAvailableReplicas ≤ number isAvailable (scaledDown now lastAction surplusSince es owned)

/-- The pool is due for a scale-down: it has more replicas and more available ones than it needs, and
has had them for the cooldown, which has also passed since the last scale-down. -/
structure Due : Prop where
  excess : es.minReplicas < owned.length
  surplus : es.minAvailableReplicas < number isAvailable owned
  cooled : ∀ t, lastAction = some t → es.scaleDownCooldown.getD defaultScaleDownCooldown ≤ now - t
  since : ∃ t, surplusSince = some (some t) ∧ es.scaleDownCooldown.getD defaultScaleDownCooldown ≤ now - t

end Inputs

variable {now : Int} {lastAction : Option Int} {surplusSince : Option (Option Int)} {es : ExporterSet}
  {owned : List Exporter}

/-! ## Which exporter is disabled -/

variable {e : Exporter}

theorem idleExporter_some (h : idleExporter owned = some e) : e ∈ owned ∧ isIdle e = true := by
  have hfound : ∀ wantOnline : Bool,
      owned.find? (fun e => e.isEnabled && !isLeased e && isOnline e == wantOnline) = some e →
        e ∈ owned ∧ isIdle e = true := by
    intro wantOnline h
    have hidle := find?_some h
    rw [Bool.and_eq_true] at hidle
    exact ⟨mem_of_find?_eq_some h, hidle.1⟩
  unfold idleExporter at h
  rcases or_eq_some_iff.mp h with h | ⟨-, h⟩
  · exact hfound true h
  · exact hfound false h

theorem number_pos {p : Exporter → Bool} (h : 0 < number p owned) : ∃ e ∈ owned, p e = true := by
  have hpos : 0 < (owned.filter p).length := Int.natCast_pos.mp h
  obtain ⟨e, he⟩ := exists_mem_of_length_pos hpos
  exact ⟨e, mem_filter.mp he⟩

theorem idleExporter_of_available (h : 0 < number isAvailable owned) : ∃ e, idleExporter owned = some e := by
  obtain ⟨e, he, havailable⟩ := number_pos h
  rw [← isSome_iff_exists]
  unfold idleExporter
  rw [isSome_or, Bool.or_eq_true, find?_isSome]
  refine .inl ⟨e, he, ?_⟩
  simp only [isAvailable, Bool.and_eq_true] at havailable
  simp [havailable.1.1, havailable.1.2, havailable.2]

theorem disable_iff {name : String} {requeueAfter : Int} :
    reconcileScaleDown now lastAction surplusSince es owned (computePoolState owned) =
        .disable name requeueAfter ↔
      Due now lastAction surplusSince es owned ∧
        (∃ e, idleExporter owned = some e ∧ e.name = name) ∧
        es.scaleDownCooldown.getD defaultScaleDownCooldown = requeueAfter := by
  unfold reconcileScaleDown
  rw [computePoolState_eq]
  simp only
  constructor
  · intro h
    split at h
    · cases h
    split at h
    · cases h
    rename_i hcooled
    split at h
    · cases h
    · cases h
    · rename_i t
      split at h
      · cases h
      split at h
      · rename_i e he
        cases h
        refine ⟨⟨by omega, by omega, fun t' ht' => ?_, t, rfl, by omega⟩, ⟨e, he, rfl⟩, rfl⟩
        simp only [ht', map_some, any_some, decide_eq_true_eq] at hcooled
        omega
      · cases h
  · rintro ⟨hdue, ⟨e, he, rfl⟩, rfl⟩
    obtain ⟨t, rfl, hsince⟩ := hdue.since
    have hgate : ¬ ((owned.length : Int) - es.minReplicas ≤ 0 ∨
        number isAvailable owned - es.minAvailableReplicas ≤ 0) := by
      have hexcess := hdue.excess
      have hsurplus := hdue.surplus
      omega
    have hcooled : ¬ (lastAction.map fun t =>
        es.scaleDownCooldown.getD defaultScaleDownCooldown - (now - t)).any (· > 0) = true := by
      cases hl : lastAction with
      | none => simp
      | some t =>
        have hcooled := hdue.cooled t hl
        simp only [map_some, any_some, decide_eq_true_eq]
        omega
    rw [if_neg hgate, if_neg hcooled]
    simp only
    rw [if_neg (by omega), he]

/-! ## What is left -/

theorem map_disable_other {name : String} {l : List Exporter} (h : ∀ e ∈ l, e.name ≠ name) :
    (l.map fun e => if e.ns = es.ns ∧ e.name = name then { e with enabled := some false } else e) = l := by
  calc _ = l.map id := map_congr_left fun e he => if_neg fun hname => h e he hname.2
    _ = l := map_id l

theorem disable_one (hpool : IsPool es owned) (he : e ∈ owned) (requeueAfter : Int) :
    ∃ before rest, owned = before ++ e :: rest ∧
      write es { disabled := true } owned (.scaleDown (.disable e.name requeueAfter)) =
        before ++ { e with enabled := some false } :: rest := by
  obtain ⟨before, rest, rfl⟩ := append_of_mem he
  have hnames := hpool.names
  rw [map_append, map_cons, nodup_append, nodup_cons] at hnames
  obtain ⟨-, ⟨hrest, -⟩, hbefore⟩ := hnames
  refine ⟨before, rest, rfl, ?_⟩
  simp only [write, if_true, map_append, map_cons]
  rw [map_disable_other, map_disable_other, if_pos ⟨hpool.ns e he, trivial⟩]
  · intro e' he' heq
    exact hrest (heq ▸ mem_map_of_mem he')
  · intro e' he' heq
    exact hbefore _ (mem_map_of_mem he') _ mem_cons_self heq

theorem number_disable (p : Exporter → Bool) (before rest : List Exporter) (e : Exporter)
    (hp : p { e with enabled := some false } = false) :
    number p (before ++ { e with enabled := some false } :: rest) =
      number p (before ++ e :: rest) - (if p e then 1 else 0) := by
  rw [number_append, number_append, number_cons, number_cons, hp]
  simp only [Bool.false_eq_true, if_false]
  omega

theorem scaledDown_eq (hpool : IsPool es owned) (hdue : Due now lastAction surplusSince es owned)
    (he : idleExporter owned = some e) :
    ∃ before rest, owned = before ++ e :: rest ∧
      scaledDown now lastAction surplusSince es owned =
        before ++ { e with enabled := some false } :: rest ∧
      number Exporter.isEnabled (scaledDown now lastAction surplusSince es owned) =
        number Exporter.isEnabled owned - 1 ∧
      number isAvailable owned - 1 ≤ number isAvailable (scaledDown now lastAction surplusSince es owned) := by
  obtain ⟨hmem, hidle⟩ := idleExporter_some he
  have henabled : e.isEnabled = true := by
    simp only [isIdle, Bool.and_eq_true] at hidle
    exact hidle.1
  obtain ⟨before, rest, howned, hwrite⟩ :=
    disable_one hpool hmem (es.scaleDownCooldown.getD defaultScaleDownCooldown)
  have hdown : scaledDown now lastAction surplusSince es owned =
      before ++ { e with enabled := some false } :: rest := by
    unfold scaledDown
    rw [disable_iff.mpr ⟨hdue, ⟨e, he, rfl⟩, rfl⟩, hwrite]
  refine ⟨before, rest, howned, hdown, ?_, ?_⟩
  · rw [hdown, number_disable _ _ _ _ rfl, ← howned, henabled, if_pos rfl]
  · rw [hdown, number_disable _ _ _ _ (by simp [isAvailable, Exporter.isEnabled]), ← howned]
    split <;> omega

/-- **The floor of enabled exporters is kept**, if and only if a pool that is due for a scale-down has
more than `minReplicas` of them. -/
theorem floorKept_iff (hes : Valid es) (hpool : IsPool es owned) :
    FloorKept now lastAction surplusSince es owned ↔
      (Due now lastAction surplusSince es owned → es.minReplicas < number Exporter.isEnabled owned) := by
  constructor
  · intro h hdue
    have hpos : 0 < number isAvailable owned := by
      have hsurplus := hdue.surplus
      have hbuffer := hes.minAvailableReplicas
      omega
    obtain ⟨e, he⟩ := idleExporter_of_available hpos
    obtain ⟨before, rest, -, -, henabled, -⟩ := scaledDown_eq hpool hdue he
    obtain ⟨-, hfloor, -⟩ := h _ _ (disable_iff.mpr ⟨hdue, ⟨e, he, rfl⟩, rfl⟩)
    omega
  · intro h name requeueAfter hdisable
    obtain ⟨hdue, ⟨e, he, rfl⟩, -⟩ := disable_iff.mp hdisable
    obtain ⟨before, rest, howned, hdown, henabled, havailable⟩ := scaledDown_eq hpool hdue he
    have hmore := h hdue
    have hsurplus := hdue.surplus
    refine ⟨⟨before, e, rest, howned, rfl, (idleExporter_some he).2, hdown⟩, ?_, ?_⟩
    · omega
    · omega

def onlineExporter (name : String) (enabled : Bool) (leaseRef : Option String) : Exporter :=
  { name, enabled := some enabled
    status := { conditions := [{ type := .online, status := .true, observedGeneration := 0, reason := "" }]
                leaseRef } }

/-- A set with a floor of one exporter, at the end of its cooldown. -/
def floorSet : ExporterSet := { minReplicas := 1 }

/-- An exporter that waits for the end of its lease counts for the floor: the only exporter that can
be leased is disabled. -/
theorem floorKept_fails : ¬ FloorKept (5 * minute) none (some (some 0)) floorSet
    [onlineExporter "draining" false (some "lease-1"), onlineExporter "ready" true none] := by
  intro h
  obtain ⟨-, hfloor, -⟩ := h "ready" (5 * minute) rfl
  exact absurd hfloor (by decide)

/-- Of two enabled exporters one is left. -/
theorem floorKept_two : FloorKept (5 * minute) none (some (some 0)) floorSet
    [onlineExporter "first" true none, onlineExporter "second" true none] := by
  refine (floorKept_iff ⟨by decide, by decide, by decide, by decide, by decide⟩
    ⟨by decide, by decide⟩).mpr fun _ => ?_
  decide

end Jumpstarter.ExporterSet
