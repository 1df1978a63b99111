import Jumpstarter.Exporter.Reconcile
import Jumpstarter.ExporterSet.Reconcile

/-!
# The exporters of a set in the store

The exporters and leases that a `Reconcile` of an `ExporterSet` reads and changes, and what else
changes them. `St.reconcile` is a whole `Reconcile` with current reads, where each write may fail
(`Outcome`); `St.change` is a change by somebody else that neither creates an exporter nor changes
its labels.

- The counts of `computePoolState` are lengths of filtered lists (`computePoolState_eq`).
- Only a decision to create lets the pool grow, and by one (`pool_reconcile`).
-/

namespace Jumpstarter.ExporterSet

open List

/-- The exporters and leases in the store. -/
structure St where
  exporters : List Exporter
  leases : List Lease

/-- Which writes of a `Reconcile` succeed: so many of the deletions, the creation (with the name that
the server generates) and the disabling. -/
structure Outcome where
  deleted : Nat := 0
  created : Option String := none
  disabled : Bool := false

/-- The exporters after the writes of a decision. -/
def write (es : ExporterSet) (o : Outcome) (exporters : List Exporter) : Decision → List Exporter
  | .delete names =>
    exporters.filter fun e => !(e.ns = es.ns && (names.take o.deleted).contains e.name)
  | .create _ =>
    match o.created with
    | some name =>
      if exporters.any fun e => e.ns = es.ns && e.name = name then exporters
      else exporters ++ [newExporter es name]
    | none => exporters
  | .scaleDown (.disable name _) =>
    if o.disabled then
      exporters.map fun e =>
        if e.ns = es.ns ∧ e.name = name then { e with enabled := some false } else e
    else exporters
  | .skip | .scaleDown _ => exporters

/-- A `Reconcile` of `es`. -/
def St.reconcile (k : K8s) (es : ExporterSet) (inp : Inputs) (o : Outcome) (s : St) : St :=
  match ExporterSet.reconcile k es s.exporters s.leases inp with
  | .ok d => { s with exporters := write es o s.exporters d }
  | .error _ => s

inductive Change where
  | status (key : ObjectKey) (status : ExporterStatus)
  | enabled (key : ObjectKey) (enabled : Option Bool)
  | remove (key : ObjectKey)
  | leases (leases : List Lease)

def hasKey (key : ObjectKey) (e : Exporter) : Bool := e.ns = key.ns && e.name = key.name

def St.change (s : St) : Change → St
  | .status key status =>
    { s with exporters := s.exporters.map fun e => if hasKey key e then { e with status } else e }
  | .enabled key enabled =>
    { s with exporters := s.exporters.map fun e => if hasKey key e then { e with enabled } else e }
  | .remove key => { s with exporters := s.exporters.filter fun e => !hasKey key e }
  | .leases leases => { s with leases }

/-! ## Counts -/

/-- The number of members of `l` with `p`. -/
def number (p : Exporter → Bool) (l : List Exporter) : Int := (l.filter p).length

@[simp] theorem number_nil (p : Exporter → Bool) : number p [] = 0 := rfl

theorem number_cons (p : Exporter → Bool) (e : Exporter) (l : List Exporter) :
    number p (e :: l) = (if p e then 1 else 0) + number p l := by
  unfold number
  by_cases h : p e = true <;> simp [h]
  omega

theorem number_append (p : Exporter → Bool) (l l' : List Exporter) :
    number p (l ++ l') = number p l + number p l' := by
  simp [number]

theorem number_filter_le (p q : Exporter → Bool) (l : List Exporter) : number p (l.filter q) ≤ number p l := by
  induction l with
  | nil => simp
  | cons e l ih =>
    by_cases hq : q e = true
    · rw [filter_cons_of_pos hq, number_cons, number_cons]
      omega
    · rw [filter_cons_of_neg hq, number_cons]
      split <;> omega

theorem number_map (p : Exporter → Bool) (f : Exporter → Exporter) (hf : ∀ e, p (f e) = p e)
    (l : List Exporter) : number p (l.map f) = number p l := by
  induction l with
  | nil => rfl
  | cons e l ih => rw [map_cons, number_cons, number_cons, hf, ih]

/-- The exporter is online, enabled and not leased. -/
def isAvailable (e : Exporter) : Bool := isOnline e && e.isEnabled && !isLeased e

/-- The exporter is enabled and not leased: available, or still booting. -/
def isIdle (e : Exporter) : Bool := e.isEnabled && !isLeased e

def isBooting (e : Exporter) : Bool := isIdle e && !isOnline e

theorem count_one (c : Prop) [Decidable c] (a b : Int) :
    (if c then a + 1 else a) + b = a + ((if c then 1 else 0) + b) := by
  split <;> omega

theorem computePoolState_eq (l : List Exporter) : computePoolState l =
    { replicas := l.length, ready := number isOnline l, available := number isAvailable l,
      leased := number isLeased l } := by
  -- The fold, from any counts.
  suffices h : ∀ s : PoolState, l.foldl (fun s e =>
      { replicas := s.replicas + 1
        ready := if isOnline e then s.ready + 1 else s.ready
        leased := if isLeased e then s.leased + 1 else s.leased
        available :=
          if isOnline e && e.isEnabled && !isLeased e then s.available + 1 else s.available }) s =
      { replicas := s.replicas + l.length, ready := s.ready + number isOnline l,
        available := s.available + number isAvailable l, leased := s.leased + number isLeased l } by
    simpa [computePoolState] using h {}
  induction l with
  | nil => intro s; simp
  | cons e l ih =>
    intro s
    rw [foldl_cons, ih]
    simp only [number_cons, length_cons, isAvailable, PoolState.mk.injEq]
    exact ⟨by omega, count_one _ _ _, count_one _ _ _, count_one _ _ _⟩

theorem number_idle (l : List Exporter) : number isIdle l = number isAvailable l + number isBooting l := by
  induction l with
  | nil => rfl
  | cons e l ih =>
    simp only [number_cons, ih]
    cases h1 : e.isEnabled <;> cases h2 : isLeased e <;> cases h3 : isOnline e <;>
      simp [isIdle, isAvailable, isBooting, h1, h2, h3] <;> omega

theorem length_eq_of_cleanup {owned : List Exporter} (h : cleanupDisabledExporters owned = []) :
    (owned.length : Int) = number isLeased owned + number isIdle owned := by
  have hall : ∀ e ∈ owned, e.isEnabled = true ∨ isLeased e = true := by
    intro e he
    have := map_eq_nil_iff.mp h
    cases h1 : e.isEnabled <;> cases h2 : isLeased e <;> simp_all
  clear h
  induction owned with
  | nil => rfl
  | cons e l ih =>
    rw [length_cons, number_cons, number_cons]
    cases h1 : e.isEnabled <;> cases h2 : isLeased e <;> simp_all [isIdle] <;> omega

/-! ## The pool -/

/-- The exporter is one of the set: the selector matches and the set controls it. -/
def isMember (k : K8s) (es : ExporterSet) (e : Exporter) : Bool :=
  match labelSelectorAsSelector k es.selector with
  | .error _ => false
  | .ok sel => e.ns = es.ns && selectorMatches sel e.labels && isOwnedBy e es.uid

def St.owned (k : K8s) (es : ExporterSet) (s : St) : List Exporter := s.exporters.filter (isMember k es)

variable {k : K8s} {es : ExporterSet}

theorem isMember_ns {e : Exporter} (h : isMember k es e = true) : e.ns = es.ns := by
  unfold isMember at h
  split at h
  · cases h
  · simp only [Bool.and_eq_true, decide_eq_true_eq] at h
    exact h.1.1

variable {l : List Exporter}

theorem listOwnedExporters_ok {owned : List Exporter} (h : listOwnedExporters k es l = .ok owned) :
    owned = l.filter (isMember k es) := by
  unfold listOwnedExporters at h
  cases hs : labelSelectorAsSelector k es.selector with
  | error err => rw [hs] at h; cases h
  | ok sel =>
    rw [hs] at h
    cases h
    refine filter_congr fun e _ => ?_
    simp only [isMember, hs]

def St.pool (k : K8s) (es : ExporterSet) (s : St) : Int := (s.owned k es).length

variable {p : Exporter → Bool}

section

variable (hp : ∀ (e : Exporter) b, p { e with enabled := b } = p e)
include hp

/-- A write, and a change by somebody else, keeps a count of a property that neither the status nor
`Enabled` decides, or lowers it; only a creation adds to it. -/
theorem number_write_le (es : ExporterSet) (o : Outcome) (l : List Exporter) (d : Decision) :
    number p (write es o l d) ≤ number p l ∨
      (∃ rule, d = .create rule) ∧ number p (write es o l d) ≤ number p l + 1 := by
  cases d with
  | skip => exact .inl (Int.le_refl _)
  | delete names => exact .inl (number_filter_le _ _ _)
  | create rule =>
    refine .inr ⟨⟨rule, rfl⟩, ?_⟩
    simp only [write]
    split
    · split
      · omega
      · rw [number_append, number_cons, number_nil]
        split <;> omega
    · omega
  | scaleDown d =>
    refine .inl (Int.le_of_eq ?_)
    cases d with
    | disable name requeueAfter =>
      simp only [write]
      split
      · refine number_map p _ (fun e => ?_) l
        split
        · exact hp e _
        · rfl
      · rfl
    | _ => rfl

theorem number_change_le (hs : ∀ (e : Exporter) st, p { e with status := st } = p e) (s : St) (c : Change) :
    number p (s.change c).exporters ≤ number p s.exporters := by
  cases c with
  | status key status =>
    refine Int.le_of_eq (number_map p _ (fun e => ?_) _)
    split
    · exact hs e _
    · rfl
  | enabled key enabled =>
    refine Int.le_of_eq (number_map p _ (fun e => ?_) _)
    split
    · exact hp e _
    · rfl
  | remove key => exact number_filter_le _ _ _
  | leases leases => exact Int.le_refl _

theorem number_reconcile_le (k : K8s) (es : ExporterSet) (inp : Inputs) (o : Outcome) (s : St) :
    number p (s.reconcile k es inp o).exporters ≤ number p s.exporters ∨
      (∃ rule, ExporterSet.reconcile k es s.exporters s.leases inp = .ok (.create rule)) ∧
        number p (s.reconcile k es inp o).exporters ≤ number p s.exporters + 1 := by
  unfold St.reconcile
  cases hd : ExporterSet.reconcile k es s.exporters s.leases inp with
  | error err => exact .inl (Int.le_refl _)
  | ok d =>
    rcases number_write_le hp es o s.exporters d with h | ⟨⟨rule, rfl⟩, h⟩
    · exact .inl h
    · exact .inr ⟨⟨rule, rfl⟩, h⟩

end

theorem reconcile_create {leases : List Lease} {inp : Inputs} {rule : Rule}
    (h : reconcile k es l leases inp = .ok (.create rule)) :
    inp.classMatches = true ∧
    (∃ owned, listOwnedExporters k es l = .ok owned ∧ cleanupDisabledExporters owned = [] ∧
      cleanupTerminalExporters es owned inp.podsByExporter = [] ∧ inp.parametersMerge = true ∧
      reconcileScaleUp es (computePoolState owned)
        (if inp.leasesListed then .ok (countPendingLeases k es leases)
          else .error "unable to list Leases") = some rule) := by
  unfold reconcile at h
  split at h
  · cases h
  rename_i hclass
  split at h
  · cases h
  rename_i owned howned
  split at h
  · cases h
  rename_i hdis
  split at h
  · cases h
  rename_i hterm
  split at h
  · cases h
  rename_i hmerge
  simp only at h
  split at h
  · cases h
    rename_i hrule
    exact ⟨by simpa using hclass, owned, howned, by simpa using hdis, by simpa using hterm,
      by simpa using hmerge, hrule⟩
  · cases h

theorem reconcile_delete {leases : List Lease} {inp : Inputs} {names : List String}
    (h : reconcile k es l leases inp = .ok (.delete names)) {name : String} (hn : name ∈ names) :
    ∃ e ∈ l, isMember k es e = true ∧ isLeased e = false ∧ e.name = name := by
  unfold reconcile at h
  split at h
  · cases h
  split at h
  · cases h
  rename_i owned howned
  have hmem : ∀ e ∈ owned, e ∈ l ∧ isMember k es e = true := by
    rw [listOwnedExporters_ok howned]
    exact fun e he => mem_filter.mp he
  split at h
  · cases h
    obtain ⟨e, he, rfl⟩ := mem_map.mp hn
    obtain ⟨ho, hidle⟩ := mem_filter.mp he
    obtain ⟨hl, hm⟩ := hmem e ho
    exact ⟨e, hl, hm, by simp_all, rfl⟩
  split at h
  · cases h
    unfold cleanupTerminalExporters at hn
    split at hn
    · cases hn
    obtain ⟨e, he, rfl⟩ := mem_map.mp hn
    obtain ⟨ho, hidle⟩ := mem_filter.mp he
    obtain ⟨hl, hm⟩ := hmem e ho
    exact ⟨e, hl, hm, by simp_all, rfl⟩
  split at h
  · cases h
  simp only at h
  split at h
  · cases h
  · cases h

def Rule.Guard (es : ExporterSet) (state : PoolState) (pending : Except String Int) : Rule → Prop
  | .floor => belowFloor es state = true
  | .warmBuffer => belowFloor es state = false ∧ belowBuffer es state = true
  | .demand => belowFloor es state = false ∧ belowBuffer es state = false ∧
    atMaxReplicas es state.replicas = false ∧ ∃ n, pending = .ok n ∧ 0 < n ∧ state.available = 0

theorem reconcileScaleUp_some {state : PoolState} {pending : Except String Int} {rule : Rule}
    (h : reconcileScaleUp es state pending = some rule) :
    maxScaleUp es state.replicas > 0 ∧ rule.Guard es state pending := by
  unfold reconcileScaleUp at h
  split at h
  · rename_i hfloor
    split at h
    · cases h
      exact ⟨‹_›, hfloor⟩
    · cases h
  rename_i hfloor
  rw [Bool.not_eq_true] at hfloor
  split at h
  · rename_i hbuffer
    split at h
    · cases h
      exact ⟨‹_›, hfloor, hbuffer⟩
    · cases h
  rename_i hbuffer
  rw [Bool.not_eq_true] at hbuffer
  split at h
  · rename_i hroom
    split at h
    · cases h
    · rename_i n
      split at h
      · rename_i hg
        cases h
        simp only [Bool.and_eq_true, decide_eq_true_eq] at hg
        exact ⟨hg.2, hfloor, hbuffer, by simpa using hroom, n, rfl, hg.1.1, hg.1.2⟩
      · cases h
  · cases h

end Jumpstarter.ExporterSet
