import Jumpstarter.Api.Meta

/-!
# The API objects: `Exporter`, `Lease`, `Client`, `ExporterAccessPolicy`

The fields that the controllers and services read or write. A reference
(`corev1.LocalObjectReference`) is the name it holds; a nil pointer is `none`; a nil slice or map is
empty, as the store does not tell them apart (`omitempty`). The objects of a kind are in one
namespace each (`ns`).
-/

namespace Jumpstarter

/-! ## Exporter -/

inductive ExporterConditionType where
  | registered | online
  deriving DecidableEq, Inhabited

/-- The values of `ExporterStatusValue`; `unset` is the empty string. -/
inductive ExporterStatusValue where
  | unset | unspecified | offline | available | beforeLeaseHook | leaseReady | afterLeaseHook
  | beforeLeaseHookFailed | afterLeaseHookFailed
  deriving DecidableEq, Inhabited

def ExporterStatusValue.toString : ExporterStatusValue → String
  | .unset => ""
  | .unspecified => "Unspecified"
  | .offline => "Offline"
  | .available => "Available"
  | .beforeLeaseHook => "BeforeLeaseHook"
  | .leaseReady => "LeaseReady"
  | .afterLeaseHook => "AfterLeaseHook"
  | .beforeLeaseHookFailed => "BeforeLeaseHookFailed"
  | .afterLeaseHookFailed => "AfterLeaseHookFailed"

structure Device where
  uuid : String
  parentUuid : Option String
  labels : Labels
  deriving DecidableEq

structure ExporterStatus where
  conditions : List (Condition ExporterConditionType) := []
  credential : Option String := none
  devices : List Device := []
  leaseRef : Option String := none
  /-- `none`: the zero time. -/
  lastSeen : Option Int := none
  endpoint : String := ""
  exporterStatusValue : ExporterStatusValue := .unset
  statusMessage : String := ""
  deriving DecidableEq, Inhabited

def ExporterStatus.stored (st : ExporterStatus) : ExporterStatus :=
  { st with
    conditions := storedConditions st.conditions
    lastSeen := st.lastSeen.map truncateSecond }

structure Exporter where
  ns : String := ""
  name : String := ""
  generation : Int := 0
  labels : Labels := []
  controller : Option String := none
  enabled : Option Bool := none
  status : ExporterStatus := {}
  deriving DecidableEq, Inhabited

def Exporter.isEnabled (e : Exporter) : Bool := e.enabled.getD true

def Exporter.isTrue (e : Exporter) (t : ExporterConditionType) : Bool :=
  isStatusConditionTrue e.status.conditions t

/-! ## Lease -/

inductive LeaseConditionType where
  | pending | ready | unsatisfiable | invalid
  deriving DecidableEq, Inhabited

/-- `metav1.LabelSelectorOperator`; `other` is any text that is not an operator. -/
inductive SelectorOperator where
  | isIn | notIn | exists | doesNotExist | other (text : String)
  deriving DecidableEq, Inhabited

/-- `metav1.LabelSelectorRequirement`. -/
structure SelectorRequirement where
  key : String
  operator : SelectorOperator
  values : List String
  deriving DecidableEq, Inhabited

structure LabelSelector where
  matchLabels : Labels := []
  matchExpressions : List SelectorRequirement := []
  deriving DecidableEq, Inhabited

structure LeaseSpec where
  clientRef : String := ""
  duration : Option Int := none
  selector : LabelSelector := {}
  exporterRef : Option String := none
  tags : Labels := []
  allowDisabled : Bool := false
  release : Bool := false
  beginTime : Option Int := none
  endTime : Option Int := none
  context : Labels := []
  deriving DecidableEq, Inhabited

def LeaseSpec.stored (spec : LeaseSpec) : LeaseSpec :=
  { spec with
    beginTime := spec.beginTime.bind storedTime
    endTime := spec.endTime.bind storedTime }

structure LeaseStatus where
  beginTime : Option Int := none
  endTime : Option Int := none
  exporterRef : Option String := none
  ended : Bool := false
  priority : Int := 0
  spotAccess : Bool := false
  conditions : List (Condition LeaseConditionType) := []
  deriving DecidableEq, Inhabited

def LeaseStatus.stored (st : LeaseStatus) : LeaseStatus :=
  { st with
    beginTime := st.beginTime.map truncateSecond
    endTime := st.endTime.map truncateSecond
    conditions := storedConditions st.conditions }

@[simp] theorem LeaseStatus.stored_stored (st : LeaseStatus) : st.stored.stored = st.stored := by
  simp [LeaseStatus.stored, storedConditions, Function.comp_def]

structure Lease where
  ns : String := ""
  name : String := ""
  generation : Int := 0
  resourceVersion : Nat := 0
  labels : Labels := []
  controller : Option String := none
  spec : LeaseSpec := {}
  status : LeaseStatus := {}
  deriving DecidableEq, Inhabited

def leaseLabelEnded : String := "jumpstarter.dev/lease-ended"

def leaseLabelEndedValue : String := "true"

def leaseTagMetadataPrefix : String := "metadata.jumpstarter.dev/"

def LeaseStatus.isTrue (st : LeaseStatus) (t : LeaseConditionType) : Bool :=
  isStatusConditionTrue st.conditions t

def Lease.isTrue (l : Lease) (t : LeaseConditionType) : Bool := l.status.isTrue t

/-- `MatchingActiveLeases` selects the lease: it does not carry the key of the ended label. -/
def Lease.isActive (l : Lease) : Bool := !l.labels.has leaseLabelEnded

def Lease.key (l : Lease) : ObjectKey := ⟨l.ns, l.name⟩

/-! ## Client and access policy -/

structure Client where
  ns : String := ""
  name : String := ""
  labels : Labels := []
  deriving DecidableEq, Inhabited

/-- `Policy`; `sources` is `From`, a list of client selectors. -/
structure Policy where
  description : String := ""
  priority : Int := 0
  sources : List LabelSelector := []
  maximumDuration : Option Int := none
  spotAccess : Bool := false
  deriving DecidableEq, Inhabited

structure ExporterAccessPolicy where
  ns : String := ""
  name : String := ""
  exporterSelector : LabelSelector := {}
  policies : List Policy := []
  deriving DecidableEq, Inhabited

end Jumpstarter
