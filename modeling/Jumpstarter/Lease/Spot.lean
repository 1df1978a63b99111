import Jumpstarter.Lease.Select
import Mathlib.Data.Prod.Lex
import Mathlib.Data.String.Basic

/-!
# Leases that only spot access could serve

`reconcileStatusExporterRef` gives up on a lease with the reason `SpotAccess` ("the only possible
exporters are under spot access") when the first of the ordered exporters is under spot access. The
order puts exporters without a lease first, and only then those outside spot access.

- `SpotSound`: the lease is given up only if every online approved exporter is approved under spot access
  alone; one that is merely leased at the moment lets the lease stay pending.
- `spotSound_fails`: a free exporter under spot access goes before a leased one to which the client has
  regular access.
- `spotSound_iff`: so it is exactly where no such pair decides (`Misleading`).
-/

namespace Jumpstarter.LeaseReconciler

open Lib List

/-! ## The order -/

/-- The key by which `compareApproved` orders. -/
def orderKey (a : ApprovedExporter) : Bool ×ₗ Bool ×ₗ Intᵒᵈ ×ₗ String :=
  toLex (a.existingLease.isSome, toLex (a.policy.spotAccess,
    toLex (OrderDual.toDual a.policy.priority, a.exporter.name)))

/-- The priorities differ by less than `2 ^ 63`, so that their difference does not overflow. -/
def PrioritiesFit (l : List ApprovedExporter) : Prop :=
  ∀ a ∈ l, ∀ b ∈ l, a.policy.priority - b.policy.priority ≤ 0x7fffffffffffffff

theorem compareStrings_lt {a b : String} : compareStrings a b < 0 ↔ a < b := by
  unfold compareStrings
  cases h : compare a b with
  | lt => exact iff_of_true (by decide) (compare_lt_iff_lt.mp h)
  | eq => exact iff_of_false (by decide) (compare_eq_iff_eq.mp h ▸ lt_irrefl a)
  | gt => exact iff_of_false (by decide) (not_lt.mpr (le_of_lt (compare_gt_iff_gt.mp h)))

theorem wrapInt64_of_fits {n : Int} (h : n ≤ 0x7fffffffffffffff) (h' : -n ≤ 0x7fffffffffffffff) :
    wrapInt64 n = n := by
  unfold wrapInt64
  omega

theorem comparePriority_lt {p q : Int} {n m : String} :
    (if p = q then compareStrings n m else q - p) < 0 ↔ q < p ∨ p = q ∧ n < m := by
  by_cases h : p = q
  · rw [if_pos h, compareStrings_lt]
    exact ⟨fun hlt => .inr ⟨h, hlt⟩, fun hlt => hlt.elim (fun hlt => by omega) (·.2)⟩
  · exact ⟨fun hlt => .inl (by omega), fun hlt => hlt.elim (fun hlt => by omega) fun hlt => absurd hlt.1 h⟩

/-- Neither a lease nor spot access tells the two apart, so their priorities are compared. -/
def SameClass (a b : ApprovedExporter) : Prop :=
  a.existingLease.isSome = b.existingLease.isSome ∧ a.policy.spotAccess = b.policy.spotAccess

/-- Two exporters whose priorities compare without an overflow, if it comes to that. -/
def PairFits (a b : ApprovedExporter) : Prop :=
  SameClass a b → wrapInt64 (b.policy.priority - a.policy.priority) = b.policy.priority - a.policy.priority

variable {a b : ApprovedExporter}

theorem PairFits.compareApproved_lt (hfit : PairFits a b) :
    compareApproved a b < 0 ↔ orderKey a < orderKey b := by
  have hdual : OrderDual.toDual a.policy.priority < OrderDual.toDual b.policy.priority ↔
      b.policy.priority < a.policy.priority := OrderDual.toDual_lt_toDual
  have htail := comparePriority_lt (p := a.policy.priority) (q := b.policy.priority)
    (n := a.exporter.name) (m := b.exporter.name)
  unfold compareApproved orderKey
  simp only [Prod.Lex.toLex_lt_toLex, hdual, OrderDual.toDual_inj]
  -- what follows the two first keys is one comparison
  by_cases hsame : SameClass a b
  · obtain ⟨hleased, hspot⟩ := hsame
    rw [hfit ⟨hleased, hspot⟩, hspot]
    cases a.existingLease <;> cases b.existingLease <;> simp [htail]
  · unfold SameClass at hsame
    revert hsame
    cases a.existingLease <;> cases b.existingLease <;> cases a.policy.spotAccess <;>
      cases b.policy.spotAccess <;> simp

variable {l : List ApprovedExporter}

theorem PrioritiesFit.pairFits (hfit : PrioritiesFit l) : ∀ a ∈ l, ∀ b ∈ l, PairFits a b := by
  intro a ha b hb _
  apply wrapInt64_of_fits (hfit b hb a ha)
  have := hfit a ha b hb
  omega

theorem compareApproved_lt (hfit : PrioritiesFit l) :
    ∀ a ∈ l, ∀ b ∈ l, compareApproved a b < 0 ↔ orderKey a < orderKey b :=
  fun a ha b hb => (hfit.pairFits a ha b hb).compareApproved_lt

theorem strictWeakOn_compareApproved (hfit : PrioritiesFit l) : IsStrictWeakOn compareApproved l :=
  .of_key orderKey (compareApproved_lt hfit)

/-- What the order says of the first exporter: it has a lease only if all have, and it is under spot
access only if all are that have a lease or none like it. -/
theorem orderKey_le (h : orderKey a ≤ orderKey b) :
    (a.existingLease.isSome = true → b.existingLease.isSome = true) ∧
      (a.existingLease.isSome = b.existingLease.isSome → a.policy.spotAccess = true →
        b.policy.spotAccess = true) := by
  unfold orderKey at h
  simp only [Prod.Lex.toLex_le_toLex] at h
  revert h
  cases a.existingLease <;> cases b.existingLease <;> cases a.policy.spotAccess <;>
    cases b.policy.spotAccess <;> simp

/-! ## The claim -/

/-- No active lease that was read holds the exporter. -/
def isFree (reads : Reads) (a : ApprovedExporter) : Bool :=
  reads.activeLeases.all fun l => l.status.exporterRef ≠ some a.exporter.name

/-- The requested begin of the lease has come. -/
def hasBegun (now : Int) (lease : Lease) : Bool := !lease.spec.beginTime.any (· > now)

/-- The approved exporters that are online. -/
def onlineApproved (approved : List ApprovedExporter) : List ApprovedExporter :=
  deleteFunc isOffline approved

/-- The lease is given up for spot access only if it has no other access, and stays pending while
the exporters to which it has other access are leased. -/
structure SpotSound (k : K8s) (f : SortFunc) (now : Int) (reads : Reads) (lease : Lease) : Prop where
  only : ∀ message approved,
    selectExporter k f now reads lease = .ok (.verdict (.unsatisfiable "SpotAccess" message)) →
    approvedExporters k lease reads = .ok approved →
    ∀ a ∈ onlineApproved approved, a.policy.spotAccess = true
  pending : ∀ approved, hasBegun now lease = true → approvedExporters k lease reads = .ok approved →
    (∃ a ∈ onlineApproved approved, a.policy.spotAccess = false) →
    (∀ a ∈ onlineApproved approved, a.policy.spotAccess = false → isFree reads a = false) →
    ∃ reason message, selectExporter k f now reads lease = .ok (.verdict (.pending reason message))

/-- An exporter is free, all the free ones are under spot access, and there is one that is not. -/
structure Misleading (reads : Reads) (approved : List ApprovedExporter) : Prop where
  free : ∃ a ∈ onlineApproved approved, isFree reads a = true
  spot : ∀ a ∈ onlineApproved approved, isFree reads a = true → a.policy.spotAccess = true
  other : ∃ a ∈ onlineApproved approved, a.policy.spotAccess = false

/-! ## The decision -/

variable {k : K8s} {f : SortFunc} {now : Int} {reads : Reads} {lease : Lease}
  {approved : List ApprovedExporter}

/-- The exporter with the lease that holds it. -/
def attach (reads : Reads) (a : ApprovedExporter) : ApprovedExporter :=
  { a with existingLease := reads.activeLeases.foldl (fun found l =>
      if l.status.exporterRef = some a.exporter.name then some l else found) a.existingLease }

theorem attach_isSome (ha : a.existingLease = none) :
    (attach reads a).existingLease.isSome = !isFree reads a := by
  rw [Bool.eq_iff_iff, Option.isSome_iff_ne_none, ne_eq, attach, foldl_existing_none]
  simp [ha, isFree]

def ordered (f : SortFunc) (reads : Reads) (approved : List ApprovedExporter) :
    List ApprovedExporter :=
  orderApprovedExporters f (attachExistingLeases reads.activeLeases (onlineApproved approved))

theorem mem_ordered : b ∈ ordered f reads approved ↔ ∃ a ∈ onlineApproved approved, attach reads a = b := by
  unfold ordered orderApprovedExporters
  rw [f.mem_sort]
  exact mem_map

/-- The approved exporters have no lease attached yet, and their priorities fit. -/
structure Plain (approved : List ApprovedExporter) : Prop where
  new : ∀ a ∈ onlineApproved approved, a.existingLease = none
  fit : PrioritiesFit (onlineApproved approved)

structure First (reads : Reads) (approved : List ApprovedExporter) (a : ApprovedExporter) : Prop where
  mem : a ∈ onlineApproved approved
  leased : isFree reads a = false → ∀ b ∈ onlineApproved approved, isFree reads b = false
  spot : a.policy.spotAccess = true → ∀ b ∈ onlineApproved approved,
    isFree reads a = isFree reads b → b.policy.spotAccess = true

variable {first : ApprovedExporter}

theorem ordered_first (hf : f.SortsMembers) (hp : Plain approved) {rest : List ApprovedExporter}
    (h : ordered f reads approved = first :: rest) :
    ∃ a, First reads approved a ∧ attach reads a = first := by
  have hmem : first ∈ ordered f reads approved := h ▸ mem_cons_self
  obtain ⟨a, ha, rfl⟩ := mem_ordered.mp hmem
  have hfit : PrioritiesFit (attachExistingLeases reads.activeLeases (onlineApproved approved)) := by
    intro b hb c hc
    obtain ⟨b, hb', rfl⟩ := mem_map.mp hb
    obtain ⟨c, hc', rfl⟩ := mem_map.mp hc
    exact hp.fit b hb' c hc'
  -- the key of the first exporter is least
  have hle : ∀ b ∈ onlineApproved approved, orderKey (attach reads a) ≤ orderKey (attach reads b) := by
    intro b hb
    have hb' : attach reads b ∈ attachExistingLeases reads.activeLeases (onlineApproved approved) :=
      mem_map_of_mem hb
    have ha' : attach reads a ∈ attachExistingLeases reads.activeLeases (onlineApproved approved) :=
      mem_map_of_mem ha
    have hnot := hf.head (strictWeakOn_compareApproved hfit) h _ hb'
    rwa [compareApproved_lt hfit _ hb' _ ha', not_lt] at hnot
  refine ⟨a, ⟨ha, fun hl b hb => ?_, fun hs b hb heq => ?_⟩, rfl⟩
  · have hb' := (orderKey_le (hle b hb)).1
    rw [attach_isSome (hp.new a ha), attach_isSome (hp.new b hb), hl] at hb'
    simpa using hb'
  · refine (orderKey_le (hle b hb)).2 ?_ hs
    rw [attach_isSome (hp.new a ha), attach_isSome (hp.new b hb), heq]

theorem ordered_eq_nil : ordered f reads approved = [] ↔ onlineApproved approved = [] := by
  rw [eq_nil_iff_forall_not_mem, eq_nil_iff_forall_not_mem]
  constructor
  · exact fun h a ha => h _ (mem_ordered.mpr ⟨a, ha, rfl⟩)
  · intro h b hb
    obtain ⟨a, ha, -⟩ := mem_ordered.mp hb
    exact h a ha

def obtainable (ordered : List ApprovedExporter) : List ApprovedExporter :=
  deleteFunc isNotReady (deleteFunc isTaken ordered)

/-- What the decision can be: the first exporter is under spot access, or the lease waits, or it gets
the first obtainable exporter, which has no lease. -/
theorem chooseExporter_cases {rest : List ApprovedExporter} (h : ordered f reads approved = first :: rest) :
    (first.policy.spotAccess = true ∧
      ∃ message, chooseExporter f reads approved = unsatisfiable "SpotAccess" message) ∨
    (first.policy.spotAccess = false ∧
      (((∀ a ∈ (obtainable (first :: rest)).head?, a.existingLease ≠ none) ∧
          ∃ reason message, chooseExporter f reads approved = pending reason message) ∨
        ∃ a ∈ (obtainable (first :: rest)).head?, a.existingLease = none ∧
          chooseExporter f reads approved = .ok a)) := by
  have hne : (deleteFunc isOffline approved).isEmpty = false := by
    rw [isEmpty_eq_false_iff]
    intro hnil
    rw [ordered_eq_nil.mpr hnil] at h
    cases h
  have hord : orderApprovedExporters f (attachExistingLeases reads.activeLeases
      (deleteFunc isOffline approved)) = ordered f reads approved := rfl
  unfold chooseExporter
  simp only [hne, hord, h, headD_cons, Bool.false_eq_true, if_false]
  by_cases hs : first.policy.spotAccess = true
  · rw [if_pos hs]
    exact .inl ⟨hs, _, rfl⟩
  · refine .inr ⟨by simpa using hs, ?_⟩
    rw [if_neg hs]
    split
    · rename_i hnil
      rw [obtainable, List.isEmpty_iff.mp hnil]
      exact .inl ⟨fun a ha => (nomatch ha), _, _, rfl⟩
    split
    · rename_i hnil
      rw [obtainable, hnil]
      exact .inl ⟨fun a ha => (nomatch ha), _, _, rfl⟩
    · rename_i selected _ hready
      rw [obtainable, hready]
      split
      · rename_i hsome
        refine .inl ⟨fun a ha => ?_, _, _, rfl⟩
        cases ha
        exact Option.isSome_iff_ne_none.mp hsome
      · rename_i hnone
        exact .inr ⟨selected, rfl, by simpa using hnone, rfl⟩

theorem selectExporter_begun (hb : hasBegun now lease = true)
    (happ : approvedExporters k lease reads = .ok approved) :
    selectExporter k f now reads lease =
      match chooseExporter f reads approved with
      | .error (.fail err) => .error err
      | .error (.verdict v) => .ok (.verdict v)
      | .ok selected => .ok (.assign selected) := by
  have hnot : ¬ lease.spec.beginTime.any (· > now) = true := by simpa [hasBegun] using hb
  unfold selectExporter
  rw [if_neg hnot]
  cases hchosen : chooseExporter f reads approved with
  | error e => cases e <;> simp only [happ, hchosen]
  | ok selected => simp only [happ, hchosen]

theorem selectExporter_verdict {v : Verdict}
    (h : selectExporter k f now reads lease = .ok (.verdict v))
    (happ : approvedExporters k lease reads = .ok approved) :
    hasBegun now lease = true ∧ chooseExporter f reads approved = .error (.verdict v) := by
  unfold selectExporter at h
  split at h
  · cases h
  · rename_i hnot
    refine ⟨by simpa [hasBegun] using hnot, ?_⟩
    rw [happ] at h
    simp only at h
    split at h
    · cases h
    · rename_i v hv
      cases h
      exact hv
    · cases h

/-! ## When the claim holds -/

theorem Misleading.spot_first (hm : Misleading reads approved) (hfirst : First reads approved first) :
    first.policy.spotAccess = true := by
  obtain ⟨a, ha, hfree⟩ := hm.free
  apply hm.spot first hfirst.mem
  by_contra hleased
  have := hfirst.leased (by simpa using hleased) a ha
  rw [hfree] at this
  cases this

theorem First.misleading (hfirst : First reads approved first) (hspot : first.policy.spotAccess = true)
    (ha : a ∈ onlineApproved approved) (hother : a.policy.spotAccess = false) :
    Misleading reads approved := by
  have hfree : isFree reads first = true := by
    by_contra hleased
    have hleased : isFree reads first = false := by simpa using hleased
    have := hfirst.spot hspot a ha (by rw [hleased, hfirst.leased hleased a ha])
    rw [hother] at this
    cases this
  exact ⟨⟨first, hfirst.mem, hfree⟩, fun b hb hbf => hfirst.spot hspot b hb (by rw [hfree, hbf]),
    ⟨a, ha, hother⟩⟩

theorem plain_of_approved (h : approvedExporters k lease reads = .ok approved)
    (hfit : PrioritiesFit approved) : Plain approved := by
  have hnew : ∀ a ∈ approved, a.existingLease = none :=
    approvedExporters_forall (P := fun a => a.existingLease = none) (fun _ _ _ => rfl) h
  have hmem : ∀ a ∈ onlineApproved approved, a ∈ approved := fun a ha => (mem_deleteFunc.mp ha).1
  exact ⟨fun a ha => hnew a (hmem a ha), fun a ha b hb => hfit a (hmem a ha) b (hmem b hb)⟩

theorem first_cases (reads : Reads) (hf : f.SortsMembers) (hp : Plain approved)
    (ha : a ∈ onlineApproved approved) : ∃ first, First reads approved first ∧
      ((first.policy.spotAccess = true ∧
        ∃ message, chooseExporter f reads approved = unsatisfiable "SpotAccess" message) ∨
      (first.policy.spotAccess = false ∧
        ((∃ reason message, chooseExporter f reads approved = pending reason message) ∨
          ∃ b ∈ onlineApproved approved, isFree reads b = true ∧
            chooseExporter f reads approved = .ok (attach reads b)))) := by
  cases hord : ordered f reads approved with
  | nil =>
    rw [ordered_eq_nil.mp hord] at ha
    cases ha
  | cons b rest =>
    obtain ⟨first, hfirst, rfl⟩ := ordered_first hf hp hord
    refine ⟨first, hfirst, ?_⟩
    rcases chooseExporter_cases hord with hspot | ⟨hother, ⟨-, hwait⟩ | ⟨c, hc, hnone, hok⟩⟩
    · exact .inl hspot
    · exact .inr ⟨hother, .inl hwait⟩
    · have hmem := mem_deleteFunc.mp (mem_deleteFunc.mp (mem_of_mem_head? hc)).1
      obtain ⟨c, honline, rfl⟩ := mem_ordered.mp (hord ▸ hmem.1)
      have hfree : (attach reads c).existingLease.isSome = !isFree reads c :=
        attach_isSome (hp.new c honline)
      rw [hnone] at hfree
      exact .inr ⟨hother, .inr ⟨c, honline, by simpa using hfree, hok⟩⟩

theorem spotSound_of (hf : f.SortsMembers)
    (hfit : ∀ approved, approvedExporters k lease reads = .ok approved → PrioritiesFit approved)
    (h : hasBegun now lease = true → ∀ approved, approvedExporters k lease reads = .ok approved →
      ¬ Misleading reads approved) : SpotSound k f now reads lease := by
  constructor
  case only =>
    intro message approved hsel happ a ha
    obtain ⟨hbegun, hchoose⟩ := selectExporter_verdict hsel happ
    have hp := plain_of_approved happ (hfit approved happ)
    obtain ⟨first, hfirst, ⟨hspot, -⟩ | ⟨-, ⟨_, _, hwait⟩ | ⟨b, -, -, hok⟩⟩⟩ :=
      first_cases reads hf hp ha
    · by_contra hother
      exact h hbegun approved happ (hfirst.misleading hspot ha (by simpa using hother))
    · rw [hwait] at hchoose
      cases hchoose
    · rw [hok] at hchoose
      cases hchoose
  case pending =>
    intro approved hbegun happ hother hleased
    obtain ⟨a, ha, hother⟩ := hother
    have hp := plain_of_approved happ (hfit approved happ)
    have hnot := h hbegun approved happ
    rw [selectExporter_begun hbegun happ]
    obtain ⟨first, hfirst, ⟨hspot, -⟩ | ⟨hregular, ⟨reason, message, hwait⟩ | ⟨b, hb, hfree, -⟩⟩⟩ :=
      first_cases reads (f := f) hf hp ha
    · exact absurd (hfirst.misleading hspot ha hother) hnot
    · rw [hwait]
      exact ⟨reason, message, rfl⟩
    · -- the first exporter is leased, so all are
      have := hfirst.leased (hleased first hfirst.mem hregular) b hb
      rw [hfree] at this
      cases this

/-- **A lease is given up for spot access only when it has no other access**, if and only if no free
exporter misleads. -/
theorem spotSound_iff (hf : f.SortsMembers)
    (hfit : ∀ approved, approvedExporters k lease reads = .ok approved → PrioritiesFit approved) :
    SpotSound k f now reads lease ↔
      (hasBegun now lease = true → ∀ approved, approvedExporters k lease reads = .ok approved →
        ¬ Misleading reads approved) := by
  refine ⟨fun h hbegun approved happ hm => ?_, spotSound_of hf hfit⟩
  obtain ⟨a, ha, hother⟩ := hm.other
  have hp := plain_of_approved happ (hfit approved happ)
  obtain ⟨first, hfirst, ⟨-, message, hgive⟩ | ⟨hregular, -⟩⟩ := first_cases reads (f := f) hf hp ha
  · have hsel : selectExporter k f now reads lease = .ok (.verdict (.unsatisfiable "SpotAccess" message)) := by
      rw [selectExporter_begun hbegun happ, hgive]
      rfl
    have hspot := h.only message approved hsel happ a ha
    rw [hother] at hspot
    cases hspot
  · rw [hm.spot_first hfirst] at hregular
    cases hregular

/-! ## One exporter of each kind -/

/-- An exporter of the lab that is online, for the clients of a tier. -/
def tierExporter (name tier : String) : Exporter :=
  let condition (t : ExporterConditionType) : Condition ExporterConditionType :=
    { type := t, status := .true, observedGeneration := 0, reason := "" }
  { ns := "lab", name, labels := [("board", "x"), ("tier", tier)]
    status := { conditions := [condition .registered, condition .online]
                exporterStatusValue := .available } }

/-- The access that every client has to the exporters of a tier. -/
def tierAccess (tier : String) (spotAccess : Bool) : ExporterAccessPolicy :=
  { ns := "lab", name := tier, exporterSelector := ⟨[("tier", tier)], []⟩
    policies := [{ sources := [{}], spotAccess }] }

def holder (exporter : String) : Lease :=
  { ns := "lab", name := exporter, status := { exporterRef := some exporter } }

/-- The exporter `own` with regular access, the exporter `shared` under spot access, and the exporters
that are leased. -/
def twoTiers (leased : List String) : Reads where
  exporters := [tierExporter "own" "regular", tierExporter "shared" "spot"]
  policies := [tierAccess "regular" false, tierAccess "spot" true]
  clients := [{ ns := "lab", name := "alice" }]
  activeLeases := leased.map holder

/-- A lease for an exporter of either kind. -/
def boardLease : Lease :=
  { ns := "lab", name := "l", spec := { clientRef := "alice", selector := ⟨[("board", "x")], []⟩ } }

def boardApproved : List ApprovedExporter :=
  [{ exporter := tierExporter "own" "regular", policy := { sources := [{}] } },
    { exporter := tierExporter "shared" "spot", policy := { sources := [{}], spotAccess := true } }]

theorem boardApproved_eq (leased : List String) :
    approvedExporters anyK8s boardLease (twoTiers leased) = .ok boardApproved := by
  rfl

/-- While somebody else holds `own`, the free `shared` lets the lease be given up for good. -/
theorem spotSound_fails : ¬ SpotSound anyK8s .insertion 0 (twoTiers ["own"]) boardLease := by
  intro h
  have hsel : selectExporter anyK8s .insertion 0 (twoTiers ["own"]) boardLease =
      .ok (.verdict (.unsatisfiable "SpotAccess"
        "The only possible exporters are under spot access (i.e. shared), but spot access is still not implemented")) := by
    rfl
  have hspot := h.only _ _ hsel (boardApproved_eq ["own"]) _ mem_cons_self
  cases hspot

/-- While both are held, the lease is not given up. -/
theorem spotSound_bothHeld : SpotSound anyK8s .insertion 0 (twoTiers ["own", "shared"]) boardLease := by
  have happ := boardApproved_eq ["own", "shared"]
  refine (spotSound_iff SortFunc.insertion_sortsMembers fun approved h => ?_).mpr fun _ approved h hm => ?_
  · cases h
    unfold PrioritiesFit
    decide
  · cases h
    obtain ⟨a, ha, hfree⟩ := hm.free
    have hall : ∀ a ∈ onlineApproved boardApproved, isFree (twoTiers ["own", "shared"]) a = false := by
      decide
    rw [hall a ha] at hfree
    cases hfree

end Jumpstarter.LeaseReconciler
