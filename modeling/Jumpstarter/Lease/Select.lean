import Jumpstarter.Api.Selector
import Jumpstarter.Lib.Slice

/-!
# Selection of an exporter for a lease (`reconcileStatusExporterRef`)

`selectExporter` is the decision that `reconcileStatusExporterRef` takes for a lease without an exporter,
from the objects that it reads (`Reads`): to wait, to set a condition (`Verdict`) or to assign an
exporter. A read that fails is not modelled here; the `Reconcile` ends
without a write then.

- The list of approved exporters goes through filters that work in place on one slice, so later
  texts read what the filters left (`clobbered`).
- `selectExporter_assign`: an assigned exporter is an approved one, and no active lease that was
  read holds it.
-/

namespace Jumpstarter.LeaseReconciler

open Lib List

structure ApprovedExporter where
  exporter : Exporter := {}
  existingLease : Option Lease := none
  policy : Policy := {}
  deriving DecidableEq, Inhabited

/-- The objects of the lease's namespace that a `Reconcile` reads, each list in the order of the
server. -/
structure Reads where
  exporters : List Exporter := []
  policies : List ExporterAccessPolicy := []
  clients : List Client := []
  /-- What `ListActiveLeases` returns. -/
  activeLeases : List Lease := []

inductive Verdict where
  | invalid (reason message : String)
  | unsatisfiable (reason message : String)
  | pending (reason message : String)
  deriving DecidableEq

/-- The decision for a lease without an exporter. -/
inductive Selection where
  | wait (requeueAfter : Int)
  | verdict (v : Verdict)
  | assign (selected : ApprovedExporter)
  deriving DecidableEq

/-- An early return: with an error, or with a condition set. -/
inductive Stop where
  | fail (err : String)
  | verdict (v : Verdict)
  deriving DecidableEq

/-- The early return with condition `Unsatisfiable`. -/
def unsatisfiable {α : Type} (reason message : String) : Except Stop α :=
  .error (.verdict (.unsatisfiable reason message))

/-- The early return with condition `Pending`. -/
def pending {α : Type} (reason message : String) : Except Stop α :=
  .error (.verdict (.pending reason message))

/-! ## Matching exporters -/

def filterOutDisabledExporters (exporters : List Exporter) : List Exporter :=
  deleteFunc (fun e => !e.isEnabled) exporters

/-- The exporter that `Spec.ExporterRef` names. -/
def requestedExporter (k : K8s) (lease : Lease) (sel : List Requirement) (reads : Reads)
    (name : String) : Except Stop (List Exporter) :=
  match reads.exporters.find? fun e => e.ns = lease.ns && e.name = name with
  | none => unsatisfiable "ExporterNotFound" ("Requested exporter " ++ name ++ " was not found")
  | some e =>
    if !sel.isEmpty && !selectorMatches sel e.labels then
      unsatisfiable "SelectorMismatch" ("Requested exporter " ++ e.name ++
        " does not match selector " ++ k.formatLabelSelector lease.spec.selector)
    else if !e.isEnabled && !lease.spec.allowDisabled then
      unsatisfiable "ExporterDisabled" ("Requested exporter " ++ e.name ++ " is disabled. " ++
        "To lease a disabled exporter, set spec.allowDisabled: true on the Lease, " ++
        "or use --allow-disabled with jmp create lease or jmp shell")
    else .ok [e]

/-- The enabled exporters that the selector matches (`ListMatchingExporters`). -/
def listedExporters (lease : Lease) (sel : List Requirement) (reads : Reads) :
    Except Stop (List Exporter) :=
  let listed := reads.exporters.filter fun e => e.ns = lease.ns && selectorMatches sel e.labels
  let matching := filterOutDisabledExporters listed
  if matching.isEmpty && !listed.isEmpty then
    unsatisfiable "AllDisabled"
      ("All " ++ toString listed.length ++ " exporters matching the selector are disabled")
  else .ok matching

def matchingExporters (k : K8s) (lease : Lease) (sel : List Requirement) (reads : Reads) :
    Except Stop (List Exporter) :=
  match lease.spec.exporterRef with
  | some name => requestedExporter k lease sel reads name
  | none => listedExporters lease sel reads

/-! ## Policies -/

/-- The approved exporters and the descriptions of policies that did not match the client. -/
structure Approval where
  approved : List ApprovedExporter := []
  unmatchedDescriptions : List String := []

/-- The duration that `attachMatchingPolicies` compares with the maximum. -/
def requestedDuration (spec : LeaseSpec) : Int :=
  match spec.duration with
  | some d => d
  | none =>
    match spec.beginTime, spec.endTime with
    | some b, some e => subTime e b
    | _, _ => 0

def withinMaximum (p : Policy) (spec : LeaseSpec) : Bool :=
  match p.maximumDuration with
  | some m => requestedDuration spec ≤ m
  | none => true

/-- One client selector of policy `p`: the exporters approved so far, and whether one of the
policy's selectors matched. -/
def approveSource (k : K8s) (lease : Lease) (client : Client) (e : Exporter) (p : Policy)
    (acc : List ApprovedExporter × Bool) (source : LabelSelector) :
    Except String (List ApprovedExporter × Bool) :=
  match labelSelectorAsSelector k source with
  | .error err => .error ("reconcileStatusExporterRef: failed to convert client selector: " ++ err)
  | .ok sel =>
    if selectorMatches sel client.labels then
      if withinMaximum p lease.spec then
        .ok (acc.1 ++ [{ exporter := e, policy := p }], true)
      else .ok (acc.1, true)
    else .ok acc

def approvePolicy (k : K8s) (lease : Lease) (client : Client) (e : Exporter) (acc : Approval)
    (p : Policy) : Except String Approval :=
  match p.sources.foldlM (approveSource k lease client e p) (acc.approved, false) with
  | .error err => .error err
  | .ok (approved, clientMatched) =>
    let unmatched :=
      if !clientMatched && p.description ≠ "" && !acc.unmatchedDescriptions.contains p.description
      then acc.unmatchedDescriptions ++ [p.description]
      else acc.unmatchedDescriptions
    .ok ⟨approved, unmatched⟩

def approveAccess (k : K8s) (lease : Lease) (client : Client) (e : Exporter) (acc : Approval)
    (access : ExporterAccessPolicy) : Except String Approval :=
  match labelSelectorAsSelector k access.exporterSelector with
  | .error err => .error ("reconcileStatusExporterRef: failed to convert exporter selector: " ++ err)
  | .ok sel =>
    if selectorMatches sel e.labels then access.policies.foldlM (approvePolicy k lease client e) acc
    else .ok acc

def attachMatchingPolicies (k : K8s) (lease : Lease) (reads : Reads) (exporters : List Exporter) :
    Except String Approval :=
  let policies := reads.policies.filter fun p => p.ns = lease.ns
  if policies.isEmpty then .ok { approved := exporters.map fun e => { exporter := e } }
  else
    match reads.clients.find? fun c => c.ns = lease.ns && c.name = lease.spec.clientRef with
    | none => .error "reconcileStatusExporterRef: failed to get client: not found"
    | some client =>
      exporters.foldlM (fun acc e => policies.foldlM (approveAccess k lease client e) acc) {}

/-! ## Filters and order -/

/-- What `filterOutOfflineExporters` deletes. -/
def isOffline (a : ApprovedExporter) : Bool :=
  !a.exporter.isTrue .registered || !a.exporter.isTrue .online

/-- `attachExistingLeases`: the last of the leases that reference the exporter. -/
def attachExistingLeases (activeLeases : List Lease) (exporters : List ApprovedExporter) :
    List ApprovedExporter :=
  exporters.map fun a =>
    { a with existingLease := activeLeases.foldl (fun found l =>
        if l.status.exporterRef = some a.exporter.name then some l else found) a.existingLease }

def wrapInt64 (n : Int) : Int := (n + 0x8000000000000000) % 0x10000000000000000 - 0x8000000000000000

/-- `strings.Compare`. -/
def compareStrings (a b : String) : Int :=
  match compare a b with
  | .lt => -1
  | .eq => 0
  | .gt => 1

/-- The comparison of `orderApprovedExporters`. -/
def compareApproved (a b : ApprovedExporter) : Int :=
  if a.existingLease.isSome && b.existingLease.isNone then 1
  else if a.existingLease.isNone && b.existingLease.isSome then -1
  else if a.policy.spotAccess ≠ b.policy.spotAccess then if a.policy.spotAccess then 1 else -1
  else if a.policy.priority ≠ b.policy.priority then
    wrapInt64 (b.policy.priority - a.policy.priority)
  else compareStrings a.exporter.name b.exporter.name

def orderApprovedExporters (f : SortFunc) (exporters : List ApprovedExporter) :
    List ApprovedExporter :=
  f.sort compareApproved exporters

/-- What `filterOutLeasedExporters` deletes. -/
def isTaken (a : ApprovedExporter) : Bool :=
  match a.existingLease with
  | none => false
  | some l => !(!a.policy.spotAccess && l.status.spotAccess)

/-- What `filterOutNotReadyExporters` deletes. -/
def isNotReady (a : ApprovedExporter) : Bool :=
  let value := a.exporter.status.exporterStatusValue
  value ≠ .available && value ≠ .unspecified && value ≠ .unset

/-! ## The decision -/

/-- The characters of `s` in its first `n` bytes, a cut character as one replacement character for
each of its bytes. -/
def truncateBytes : Nat → List Char → List Char
  | _, [] => []
  | n, c :: cs =>
    if c.utf8Size ≤ n then c :: truncateBytes (n - c.utf8Size) cs
    else List.replicate n (Char.ofNat 0xfffd)

/-- The message for a lease that no policy approves. -/
def noAccessMessage (matching : Nat) (unmatched : List String) : String :=
  let message := "While there are " ++ toString matching ++
    " exporters matching the selector, none of them are approved by any policy for your client"
  if unmatched.isEmpty then message
  else
    let desc := "; ".intercalate unmatched
    let desc :=
      if desc.utf8ByteSize > 4096 then String.ofList (truncateBytes 4096 desc.toList) ++ "..."
      else desc
    message ++ ". Matching policies: " ++ desc

def approvedExporters (k : K8s) (lease : Lease) (reads : Reads) :
    Except Stop (List ApprovedExporter) :=
  match labelSelectorAsSelector k lease.spec.selector with
  | .error err =>
    .error (.fail ("reconcileStatusExporterRef: failed to get exporter selector: " ++ err))
  | .ok sel =>
    if sel.isEmpty && lease.spec.exporterRef.isNone then
      .error (.verdict (.invalid "InvalidSelector"
        "The selector for the lease is empty, a selector is required"))
    else
      match matchingExporters k lease sel reads with
      | .error stop => .error stop
      | .ok matching =>
        match attachMatchingPolicies k lease reads matching with
        | .error err =>
          .error (.fail ("reconcileStatusExporterRef: failed to handle policy approval: " ++ err))
        | .ok approval =>
          if approval.approved.isEmpty then
            unsatisfiable "NoAccess" (noAccessMessage matching.length approval.unmatchedDescriptions)
          else .ok approval.approved

def firstName (exporters : List ApprovedExporter) : String :=
  (exporters.headD default).exporter.name

/-- The exporter that the lease gets from its approved exporters. -/
def chooseExporter (f : SortFunc) (reads : Reads) (approved : List ApprovedExporter) :
    Except Stop ApprovedExporter :=
  -- `filterOutOfflineExporters`
  let online := deleteFunc isOffline approved
  let approved := clobbered isOffline approved
  if online.isEmpty then
    pending "Offline" ("While there are " ++ toString approved.length ++
      " available exporters (i.e. " ++ firstName approved ++ "), none of them are online")
  else
    let ordered := orderApprovedExporters f (attachExistingLeases reads.activeLeases online)
    if (ordered.headD default).policy.spotAccess then
      unsatisfiable "SpotAccess" ("The only possible exporters are under spot access (i.e. " ++
        firstName ordered ++ "), but spot access is still not implemented")
    else
      -- `filterOutLeasedExporters`
      let available := deleteFunc isTaken ordered
      let ordered := clobbered isTaken ordered
      if available.isEmpty then
        pending "NotAvailable" ("There are " ++ toString ordered.length ++
          " approved exporters, (i.e. " ++ firstName ordered ++
          ") but all of them are already leased")
      else
        match deleteFunc isNotReady available with
        | [] =>
          pending "NotReady" ("There are " ++ toString available.length ++
            " online exporters, but none are ready (still cleaning up previous lease)")
        | selected :: _ =>
          if selected.existingLease.isSome then
            pending "NotAvailable" ("Exporter " ++ selected.exporter.name ++
              " is already leased by another client under spot access, " ++
              "but spot access eviction still not implemented")
          else .ok selected

/-- The decision of `reconcileStatusExporterRef` for a lease without an exporter, with the clock at
`now`. -/
def selectExporter (k : K8s) (f : SortFunc) (now : Int) (reads : Reads) (lease : Lease) :
    Except String Selection :=
  if lease.spec.beginTime.any (· > now) then
    .ok (.wait (subTime (lease.spec.beginTime.getD now) now))
  else
    match approvedExporters k lease reads with
    | .error (.fail err) => .error err
    | .error (.verdict v) => .ok (.verdict v)
    | .ok approved =>
      match chooseExporter f reads approved with
      | .error (.fail err) => .error err
      | .error (.verdict v) => .ok (.verdict v)
      | .ok selected => .ok (.assign selected)

/-! ## What an assignment says -/

/-- Every exporter approved so far is approved for a duration that its policy allows. -/
def Allowed (lease : Lease) (l : List ApprovedExporter) : Prop :=
  ∀ a ∈ l, withinMaximum a.policy lease.spec = true

/-! What holds of every exporter that a policy approves: each loop appends one at a time. -/

variable {reads : Reads}

section Approved

variable {k : K8s} {lease : Lease} {client : Client} {P : ApprovedExporter → Prop} {e : Exporter}

theorem approveSource_forall {p : Policy}
    (hP : withinMaximum p lease.spec = true → P { exporter := e, policy := p })
    {acc acc' : List ApprovedExporter × Bool} {source : LabelSelector} (hacc : ∀ a ∈ acc.1, P a)
    (h : approveSource k lease client e p acc source = .ok acc') : ∀ a ∈ acc'.1, P a := by
  unfold approveSource at h
  split at h
  · cases h
  · split at h
    · split at h
      · rename_i hmax
        cases h
        intro a ha
        rcases mem_append.mp ha with ha | ha
        · exact hacc a ha
        · rw [mem_singleton.mp ha]
          exact hP hmax
      · cases h
        exact hacc
    · cases h
      exact hacc

variable (hP : ∀ e p, withinMaximum p lease.spec = true → P { exporter := e, policy := p })
include hP

theorem approvePolicy_forall {p : Policy} {acc acc' : Approval} (hacc : ∀ a ∈ acc.approved, P a)
    (h : approvePolicy k lease client e acc p = .ok acc') : ∀ a ∈ acc'.approved, P a := by
  unfold approvePolicy at h
  split at h
  · cases h
  · rename_i approved clientMatched hfold
    cases h
    exact foldlM_inv (P := fun acc : List ApprovedExporter × Bool => ∀ a ∈ acc.1, P a)
      (fun _ _ _ _ => approveSource_forall (hP e p)) hacc hfold

theorem approveAccess_forall {acc acc' : Approval} {access : ExporterAccessPolicy}
    (hacc : ∀ a ∈ acc.approved, P a) (h : approveAccess k lease client e acc access = .ok acc') :
    ∀ a ∈ acc'.approved, P a := by
  unfold approveAccess at h
  split at h
  · cases h
  · split at h
    · exact foldlM_inv (P := fun acc : Approval => ∀ a ∈ acc.approved, P a)
        (fun _ _ _ _ => approvePolicy_forall hP) hacc h
    · cases h
      exact hacc

theorem attachMatchingPolicies_forall {exporters : List Exporter} {r : Approval}
    (h : attachMatchingPolicies k lease reads exporters = .ok r) : ∀ a ∈ r.approved, P a := by
  unfold attachMatchingPolicies at h
  simp only at h
  split at h
  · cases h
    intro a ha
    obtain ⟨e, -, rfl⟩ := mem_map.mp ha
    exact hP e {} rfl
  · split at h
    · cases h
    · refine foldlM_inv (P := fun acc : Approval => ∀ a ∈ acc.approved, P a)
        (fun b e b' _ hb hb' => ?_) (fun a ha => absurd ha not_mem_nil) h
      exact foldlM_inv (P := fun acc : Approval => ∀ a ∈ acc.approved, P a)
        (fun _ _ _ _ => approveAccess_forall hP) hb hb'

theorem approvedExporters_forall {l : List ApprovedExporter} (h : approvedExporters k lease reads = .ok l) :
    ∀ a ∈ l, P a := by
  unfold approvedExporters at h
  split at h
  · cases h
  · split at h
    · cases h
    · split at h
      · cases h
      · split at h
        · cases h
        · rename_i hatt
          split at h
          · cases h
          · cases h
            exact attachMatchingPolicies_forall hP hatt

end Approved

theorem approvedExporters_allowed {k : K8s} {lease : Lease} {l : List ApprovedExporter}
    (h : approvedExporters k lease reads = .ok l) : Allowed lease l :=
  approvedExporters_forall (fun _ _ hmax => hmax) h

theorem foldl_existing_none {name : String} {leases : List Lease} {init : Option Lease} :
    leases.foldl (fun found l =>
      if l.status.exporterRef = some name then some l else found) init = none ↔
    init = none ∧ ∀ l ∈ leases, l.status.exporterRef ≠ some name := by
  induction leases generalizing init with
  | nil => simp
  | cons l leases ih =>
    rw [foldl_cons, ih]
    by_cases h : l.status.exporterRef = some name
    · simp [h]
    · simp [h]

theorem chooseExporter_ok {f : SortFunc} {approved : List ApprovedExporter} {a : ApprovedExporter}
    (h : chooseExporter f reads approved = .ok a) :
    (∃ a' ∈ approved, a'.policy = a.policy ∧ a'.exporter = a.exporter) ∧
      ∀ l ∈ reads.activeLeases, l.status.exporterRef ≠ some a.exporter.name := by
  unfold chooseExporter at h
  simp only at h
  split at h
  · cases h
  split at h
  · cases h
  split at h
  · cases h
  split at h
  · cases h
  rename_i selected rest hready
  split at h
  · cases h
  rename_i hnone
  cases h
  -- Back through the filters, to the slice with the attached leases.
  have hmem : a ∈ deleteFunc isNotReady (deleteFunc isTaken (orderApprovedExporters f
      (attachExistingLeases reads.activeLeases (deleteFunc isOffline approved)))) := by
    rw [hready]
    exact mem_cons_self
  have hmem := f.mem_sort.mp (mem_deleteFunc.mp (mem_deleteFunc.mp hmem).1).1
  obtain ⟨a', ha', rfl⟩ := mem_map.mp hmem
  refine ⟨⟨a', (mem_deleteFunc.mp ha').1, rfl, rfl⟩, ?_⟩
  exact (foldl_existing_none.mp (by simpa using hnone)).2

structure Assignable (now : Int) (reads : Reads) (lease : Lease) (a : ApprovedExporter) : Prop where
  begun : ∀ b, lease.spec.beginTime = some b → b ≤ now
  free : ∀ l ∈ reads.activeLeases, l.status.exporterRef ≠ some a.exporter.name
  within : withinMaximum a.policy lease.spec = true

theorem selectExporter_assign {k : K8s} {f : SortFunc} {now : Int} {lease : Lease} {a : ApprovedExporter}
    (h : selectExporter k f now reads lease = .ok (.assign a)) : Assignable now reads lease a := by
  unfold selectExporter at h
  split at h
  · cases h
  rename_i hbegin
  split at h
  · cases h
  · cases h
  · rename_i approved happ
    split at h
    · cases h
    · cases h
    · rename_i selected hsel
      cases h
      obtain ⟨⟨a', ha', hpol, -⟩, hfree⟩ := chooseExporter_ok hsel
      refine ⟨fun b hb => ?_, hfree, ?_⟩
      · rw [hb] at hbegin
        simpa using hbegin
      · rw [← hpol]
        exact approvedExporters_allowed happ a' ha'

end Jumpstarter.LeaseReconciler
