import Jumpstarter.Api.Types

/-!
# The status of an exporter: its writers

Two parties write `Exporter.Status`: the exporter through the calls of `ControllerService`
(`Register`, `Unregister`, `ReportStatus`, and the `Status` stream at its connect and at its ticks),
and `ExporterReconciler.Reconcile`. Each reads the exporter, changes its copy and writes the
difference as a merge patch (`ExporterStatus.mergePatch`), unconditionally: a field that the writer
left as it read it stays as it is stored.

- `reconcile` is the change that `Reconcile` makes to its copy; `reconcileOnline` is the part of it that
  decides the condition `Online`.
- `mergePatch_self`: a patch that meets the status it was computed from stores the changed copy.
-/

namespace Jumpstarter

/-- `strings.HasPrefix(s, p)`. -/
def hasPrefix (s p : String) : Bool := p.toList.isPrefixOf s.toList

/-! ## Merge patches -/

/-- A field of a merge patch: `new` is written if it differs from `orig`. -/
def mergeField {α : Type} [DecidableEq α] (orig new stored : α) : α :=
  if new = orig then stored else new

@[simp] theorem mergeField_self {α : Type} [DecidableEq α] (orig new : α) : mergeField orig new orig = new := by
  unfold mergeField
  split
  · exact Eq.symm ‹_›
  · rfl

@[simp] theorem mergeField_same {α : Type} [DecidableEq α] (orig stored : α) :
    mergeField orig orig stored = stored := by
  simp [mergeField]

namespace ExporterStatus

/-- `Status().Patch(ctx, new, client.MergeFrom(orig))` on the status `st` in the store. -/
def mergePatch (orig new st : ExporterStatus) : ExporterStatus :=
  let new := new.stored
  { conditions := mergeField orig.conditions new.conditions st.conditions
    credential := mergeField orig.credential new.credential st.credential
    devices := mergeField orig.devices new.devices st.devices
    leaseRef := mergeField orig.leaseRef new.leaseRef st.leaseRef
    lastSeen := mergeField orig.lastSeen new.lastSeen st.lastSeen
    endpoint := mergeField orig.endpoint new.endpoint st.endpoint
    exporterStatusValue :=
      mergeField orig.exporterStatusValue new.exporterStatusValue st.exporterStatusValue
    statusMessage := mergeField orig.statusMessage new.statusMessage st.statusMessage }

theorem mergePatch_self (orig new : ExporterStatus) : mergePatch orig new orig = new.stored := by
  simp [mergePatch]

end ExporterStatus

/-! ## Calls of the exporter -/

namespace Exporter

/-- `meta.SetStatusCondition` on the conditions of the exporter. -/
def setCondition (now : Int) (e : Exporter) (t : ExporterConditionType) (status : ConditionStatus)
    (reason : String) (message : String := "") : Exporter :=
  { e with status := { e.status with
      conditions := setStatusCondition now e.status.conditions
        { type := t, status, observedGeneration := e.generation, reason, message } } }

def syncOnlineConditionWithStatus (now : Int) (e : Exporter) : Exporter :=
  let value := e.status.exporterStatusValue
  if value ≠ .offline ∧ value ≠ .unspecified ∧ value ≠ .unset then
    e.setCondition now .online .true "StatusReported" ("Exporter reported status: " ++ value.toString)
  else
    e.setCondition now .online .false "Offline" e.status.statusMessage

/-- The `ExporterStatus` enumeration of the protocol; `other` is a number without a name. -/
inductive ProtoStatus where
  | unspecified | offline | available | beforeLeaseHook | leaseReady | afterLeaseHook
  | beforeLeaseHookFailed | afterLeaseHookFailed | other (n : Int)
  deriving DecidableEq, Inhabited

def protoStatusToString : ProtoStatus → ExporterStatusValue
  | .offline => .offline
  | .available => .available
  | .beforeLeaseHook => .beforeLeaseHook
  | .leaseReady => .leaseReady
  | .afterLeaseHook => .afterLeaseHook
  | .beforeLeaseHookFailed => .beforeLeaseHookFailed
  | .afterLeaseHookFailed => .afterLeaseHookFailed
  | .unspecified | .other _ => .unspecified

/-- The change of `ReportStatus`. -/
def reportStatus (now : Int) (e : Exporter) (value : ProtoStatus) (message : String) : Exporter :=
  syncOnlineConditionWithStatus now
    { e with status := { e.status with
        exporterStatusValue := protoStatusToString value
        statusMessage := message
        lastSeen := some now } }

def applyUnregisterStatus (now : Int) (e : Exporter) (reason : String) : Exporter :=
  let e := { e with status := { e.status with
    exporterStatusValue := .offline
    statusMessage := if reason = "" then "Exporter unregistered" else reason } }
  (e.syncOnlineConditionWithStatus now).setCondition now .registered .false "Unregister"
    "Exporter unregistered from the controller and became offline."

/-- The change of `Unregister`. -/
def unregister (now : Int) (e : Exporter) (reason : String) : Exporter :=
  applyUnregisterStatus now { e with status := { e.status with devices := [] } } reason

/-- The change of `Status` when the stream connects. -/
def connect (now : Int) (e : Exporter) : Exporter :=
  let e := { e with status := { e.status with lastSeen := some now } }
  if e.status.exporterStatusValue = .offline then
    { e with status := { e.status with exporterStatusValue := .unset, statusMessage := "" } }
  else e

/-- The change of `Status` at a tick (`online`). -/
def tick (now : Int) (e : Exporter) : Exporter :=
  { e with status := { e.status with lastSeen := some now } }

/-- The labels after `Register`: those of the request replace all with the prefix
`jumpstarter.dev/`. -/
def registerLabels (labels request : Labels) : Labels :=
  (request.filter fun p => hasPrefix p.1 "jumpstarter.dev/").foldl (fun ls p => ls.set p.1 p.2)
    (labels.filter fun p => !hasPrefix p.1 "jumpstarter.dev/")

/-- The change of `Register` to labels and devices. -/
def register (e : Exporter) (labels : Labels) (reports : List Device) : Exporter :=
  { e with
    labels := registerLabels e.labels labels
    status := { e.status with devices := reports } }

/-! ## `ExporterReconciler.Reconcile` -/

/-- `reconcileStatusCredential`, where `ensureSecret` succeeds. -/
def reconcileStatusCredential (e : Exporter) : Exporter :=
  { e with status := { e.status with credential := some (e.name ++ "-exporter") } }

/-- `reconcileStatusLeaseRef`: the last of the listed leases that hold the exporter. -/
def reconcileStatusLeaseRef (leases : List Lease) (e : Exporter) : Exporter :=
  { e with status := { e.status with
      leaseRef := leases.foldl (fun ref l =>
        if l.status.ended = false ∧ l.status.exporterRef = some e.name then some l.name else ref)
        none } }

/-- The part of `reconcileStatusConditionsOnline` that decides `Online`. -/
def reconcileOnline (now : Int) (e : Exporter) : Exporter :=
  match e.status.lastSeen with
  | none =>
    let e := e.setCondition now .online .false "Seen" "Never seen"
    { e with status := { e.status with statusMessage := "Never seen" } }
  | some t =>
    if now - t > minute then
      let e := e.setCondition now .online .false "Seen" "Last seen more than 1 minute ago"
      if e.status.exporterStatusValue ≠ .offline then
        { e with status := { e.status with
            exporterStatusValue := .offline
            statusMessage := "Connection lost - last seen more than 1 minute ago" } }
      else e
    else if e.status.exporterStatusValue = .offline then
      e.setCondition now .online .false "Offline" e.status.statusMessage
    else
      e.setCondition now .online .true "Seen" "Last seen less than 1 minute ago"

/-- The part that decides `Registered`. -/
def reconcileRegistered (now : Int) (e : Exporter) : Exporter :=
  if e.status.devices = [] then e.setCondition now .registered .false "Unregister"
  else e.setCondition now .registered .true "Register"

def reconcileStatusConditionsOnline (now : Int) (e : Exporter) : Exporter :=
  (e.reconcileOnline now).reconcileRegistered now

def reconcileStatusEndpoint (endpoint : String) (e : Exporter) : Exporter :=
  { e with status := { e.status with endpoint } }

/-- The change of `Reconcile` to the exporter that it read, with the active leases that it listed.
The clock is read once. -/
def reconcile (now : Int) (leases : List Lease) (endpoint : String) (e : Exporter) : Exporter :=
  ((e.reconcileStatusCredential.reconcileStatusLeaseRef leases).reconcileStatusConditionsOnline
    now).reconcileStatusEndpoint endpoint

/-! ## The fields that decide `Online` -/

variable (now : Int) (e : Exporter)

@[simp] theorem setCondition_isStatusCondition (t : ExporterConditionType) (status : ConditionStatus)
    (reason message : String) (t' : ExporterConditionType) (status' : ConditionStatus) :
    isStatusCondition (e.setCondition now t status reason message).status.conditions t' status' =
      if t = t' then decide (status = status') else isStatusCondition e.status.conditions t' status' :=
  isStatusCondition_setStatusCondition _ _ _ _ _

theorem syncOnlineConditionWithStatus_value :
    (e.syncOnlineConditionWithStatus now).status.exporterStatusValue = e.status.exporterStatusValue := by
  simp only [syncOnlineConditionWithStatus]
  split <;> rfl

theorem connect_value : (e.connect now).status.exporterStatusValue ≠ .offline := by
  simp only [connect]
  split
  · simp
  · assumption

@[simp] theorem reconcileRegistered_lastSeen :
    (e.reconcileRegistered now).status.lastSeen = e.status.lastSeen := by
  unfold reconcileRegistered
  split <;> rfl

@[simp] theorem reconcileRegistered_value :
    (e.reconcileRegistered now).status.exporterStatusValue = e.status.exporterStatusValue := by
  unfold reconcileRegistered
  split <;> rfl

@[simp] theorem reconcileRegistered_online (status : ConditionStatus) :
    isStatusCondition (e.reconcileRegistered now).status.conditions .online status =
      isStatusCondition e.status.conditions .online status := by
  unfold reconcileRegistered
  split <;> simp

@[simp] theorem reconcileOnline_lastSeen : (e.reconcileOnline now).status.lastSeen = e.status.lastSeen := by
  unfold reconcileOnline
  split
  · rfl
  · split
    · simp only
      split <;> rfl
    · split <;> rfl

theorem reconcileOnline_of_recent {now t : Int} {e : Exporter} (hs : e.status.lastSeen = some t)
    (ht : now - t ≤ minute) :
    (e.reconcileOnline now).status.exporterStatusValue = e.status.exporterStatusValue ∧
    isStatusCondition (e.reconcileOnline now).status.conditions .online .false =
      decide (e.status.exporterStatusValue = .offline) := by
  have hle : ¬ now - t > minute := by omega
  unfold reconcileOnline
  rw [hs]
  simp only [if_neg hle]
  split
  · rename_i hv
    exact ⟨rfl, by simp [hv]⟩
  · rename_i hv
    exact ⟨rfl, by simp [hv]⟩

theorem reconcile_eq (leases : List Lease) (endpoint : String) (e : Exporter) :
    ∃ e' : Exporter, e'.status.lastSeen = e.status.lastSeen ∧
      e'.status.exporterStatusValue = e.status.exporterStatusValue ∧
      e.reconcile now leases endpoint =
        ((e'.reconcileOnline now).reconcileRegistered now).reconcileStatusEndpoint endpoint :=
  ⟨e.reconcileStatusCredential.reconcileStatusLeaseRef leases, rfl, rfl, rfl⟩

end Exporter
end Jumpstarter
