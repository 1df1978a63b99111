import Jumpstarter.Api.Selector
import Jumpstarter.Exporter.Reconcile
import Jumpstarter.Lib.Slice

/-!
# The calls of a client on its leases (`ClientService`)

`createLease`, `updateLease` and `deleteLease` of `ClientService`, and `releaseLease` of
`ControllerService`, as functions of the request, the authenticated client (`caller`) and what they
read. Each returns what the call writes, or its error; the writes are in
`Jumpstarter/Lease/System.lean`. A Go map is the list of its pairs, and a loop over a map takes them
in the order of the list.
-/

namespace Jumpstarter.ClientService

open Lib

/-- The codes of the errors of the calls; a plain Go error has the code `unknown`. -/
inductive Code where
  | unknown | invalidArgument | permissionDenied | failedPrecondition | notFound
  deriving DecidableEq

structure RpcError where
  code : Code
  message : String
  deriving DecidableEq

def plain {α : Type} (message : String) : Except RpcError α := .error ⟨.unknown, message⟩

/-- The result of a function with plain Go errors. -/
def plainly {α : Type} : Except String α → Except RpcError α
  | .error err => plain err
  | .ok a => .ok a

theorem plainly_ok {α : Type} {x : Except String α} {a : α} (h : plainly x = .ok a) : x = .ok a := by
  cases x with
  | error err => cases h
  | ok b =>
    cases h
    rfl

theorem plainly_error {α : Type} {x : Except String α} {err : String}
    (h : plainly x = .error ⟨.unknown, err⟩) : x = .error err := by
  cases x with
  | error e =>
    cases h
    rfl
  | ok a => cases h

/-- The call goes on only if `c` holds. -/
def require (c : Prop) [Decidable c] (err : RpcError) : Except RpcError Unit :=
  if c then .ok () else .error err

/-! ## Identifiers -/

/-- `strings.Split(s, "/")`. -/
def splitSlash : List Char → List (List Char)
  | [] => [[]]
  | c :: cs =>
    if c = '/' then [] :: splitSlash cs
    else
      match splitSlash cs with
      | [] => [[c]]
      | segment :: rest => (c :: segment) :: rest

def segments (identifier : String) : List String :=
  (splitSlash identifier.toList).map String.ofList

def inQuotes (s : String) : String := "\"" ++ s ++ "\""

def wrongLength (identifier : String) (expected : Nat) (segs : List String) : RpcError :=
  ⟨.invalidArgument, "invalid number of segments in identifier " ++ inQuotes identifier ++
    ", expecting " ++ toString expected ++ ", got " ++ toString segs.length⟩

def wrongSegment (identifier position expected segment : String) : RpcError :=
  ⟨.invalidArgument, "invalid " ++ position ++ " segment in identifier " ++ inQuotes identifier ++
    ", expecting " ++ inQuotes expected ++ ", got " ++ inQuotes segment⟩

def parseNamespaceIdentifier (identifier : String) : Except RpcError String :=
  match segments identifier with
  | [first, ns] =>
    if first ≠ "namespaces" then .error (wrongSegment identifier "first" "namespaces" first)
    else .ok ns
  | segs => .error (wrongLength identifier 2 segs)

def parseObjectIdentifier (identifier kind : String) : Except RpcError ObjectKey :=
  match segments identifier with
  | [first, ns, third, name] =>
    if first ≠ "namespaces" then .error (wrongSegment identifier "first" "namespaces" first)
    else if third ≠ kind then .error (wrongSegment identifier "third" kind third)
    else .ok ⟨ns, name⟩
  | segs => .error (wrongLength identifier 4 segs)

def parseLeaseIdentifier (identifier : String) : Except RpcError ObjectKey :=
  parseObjectIdentifier identifier "leases"

def parseClientIdentifier (identifier : String) : Except RpcError ObjectKey :=
  parseObjectIdentifier identifier "clients"

/-! ## The parts of a request -/

/-- The `Lease` message of a request. -/
structure LeaseMessage where
  name : String := ""
  selector : String := ""
  exporterName : Option String := none
  duration : Option Int := none
  beginTime : Option Int := none
  endTime : Option Int := none
  client : Option String := none
  tags : Labels := []
  context : Labels := []
  allowDisabled : Bool := false
  deriving DecidableEq

/-- The digits of `n` below the decimal point, of `prec` digits, without trailing zeros. -/
def fraction (n prec : Nat) : String :=
  let digits := (List.replicate (prec - (toString n).length) '0' ++ (toString n).toList)
  let kept := (digits.reverse.dropWhile (· = '0')).reverse
  if kept.isEmpty then "" else "." ++ String.ofList kept

/-- `Duration.String`. -/
def formatDuration (d : Int) : String :=
  let u := d.natAbs
  let text :=
    if u = 0 then "0s"
    else if u < 1000 then toString u ++ "ns"
    else if u < 1000000 then toString (u / 1000) ++ fraction (u % 1000) 3 ++ "µs"
    else if u < 1000000000 then toString (u / 1000000) ++ fraction (u % 1000000) 6 ++ "ms"
    else
      let s := u / 1000000000
      let seconds := toString (s % 60) ++ fraction (u % 1000000000) 9 ++ "s"
      if s < 60 then seconds
      else if s < 3600 then toString (s / 60) ++ "m" ++ seconds
      else toString (s / 3600) ++ "h" ++ toString (s / 60 % 60) ++ "m" ++ seconds
  if d < 0 then "-" ++ text else text

structure TimeFields where
  beginTime : Option Int
  endTime : Option Int
  duration : Option Int
  deriving DecidableEq

/-- The first part of `ReconcileLeaseTimeFields`: the missing field is calculated. -/
def fillTimeFields (t : TimeFields) : Except String TimeFields :=
  match t.beginTime, t.endTime with
  | some b, some e =>
    let calculated := subTime e b
    if t.duration.any fun d => d > 0 && d ≠ calculated then
      .error "duration conflicts with begin_time and end_time"
    else .ok { t with duration := some calculated }
  | none, some e =>
    match t.duration with
    | some d => if d > 0 then .ok { t with beginTime := some (e - d) } else .ok t
    | none => .ok t
  | _, none => .ok t

def reconcileLeaseTimeFields (t : TimeFields) : Except String TimeFields :=
  match fillTimeFields t with
  | .error err => .error err
  | .ok t =>
    match t.duration with
    | none =>
      .error "duration is required (must specify Duration, or both BeginTime and EndTime)"
    | some d =>
      if d ≤ 0 then .error ("duration must be positive, got " ++ formatDuration d) else .ok t

theorem reconcileLeaseTimeFields_ok {t t' : TimeFields} (h : reconcileLeaseTimeFields t = .ok t') :
    ∃ d, t'.duration = some d ∧ 0 < d := by
  unfold reconcileLeaseTimeFields at h
  split at h
  · cases h
  split at h
  · cases h
  rename_i d hd
  split at h
  · cases h
  · cases h
    exact ⟨d, hd, by omega⟩

/-- What the loop of `ParseLabelSelector` has collected. -/
structure SelectorParts where
  matchLabels : Labels := []
  matchExpressions : List SelectorRequirement := []
  notEqualsByKey : List (String × List String) := []

/-- `notEqualsByKey[key] = append(notEqualsByKey[key], value)`, without duplicates. -/
def addNotEquals (m : List (String × List String)) (key value : String) :
    List (String × List String) :=
  match m with
  | [] => [(key, [value])]
  | (k, vs) :: rest =>
    if k = key then (k, if vs.contains value then vs else vs ++ [value]) :: rest
    else (k, vs) :: addNotEquals rest key value

/-- One requirement in the loop of `ParseLabelSelector`. -/
def addRequirement (parts : SelectorParts) (r : ParsedRequirement) : Except String SelectorParts :=
  let expression (op : SelectorOperator) (values : List String) : Except String SelectorParts :=
    .ok { parts with matchExpressions := parts.matchExpressions ++ [⟨r.key, op, values⟩] }
  match r.operator with
  | .equals =>
    match r.values with
    | [v] =>
      match parts.matchLabels.lookup r.key with
      | some existing =>
        if existing ≠ v then
          .error ("invalid selector: label " ++ r.key ++
            " cannot have multiple equality requirements with different values (" ++ existing ++
            " and " ++ v ++ ")")
        else .ok { parts with matchLabels := parts.matchLabels.set r.key v }
      | none => .ok { parts with matchLabels := parts.matchLabels.set r.key v }
    | values => expression .isIn values
  | .notEquals =>
    match r.values with
    | [v] => .ok { parts with notEqualsByKey := addNotEquals parts.notEqualsByKey r.key v }
    | _ => .error "invalid selector: != operator requires exactly one value"
  | .isIn => expression .isIn r.values
  | .notIn => expression .notIn r.values
  | .exists => expression .exists []
  | .doesNotExist => expression .doesNotExist []
  | .doubleEquals | .greaterThan | .lessThan =>
    .error ("unsupported label selector operator: " ++ r.operator.toString)

def parseLabelSelector (k : K8s) (s : String) : Except String LabelSelector :=
  match k.parse s with
  | .error err => .error ("failed to parse label selector: " ++ err)
  | .ok none => .ok {}
  | .ok (some requirements) =>
    match requirements.foldlM addRequirement {} with
    | .error err => .error err
    | .ok parts =>
      .ok ⟨parts.matchLabels, parts.matchExpressions ++ parts.notEqualsByKey.map fun p => ⟨p.1, .notIn, p.2⟩⟩

/-- The error of one tag in `ValidateLeaseTags`. -/
def tagError (k : K8s) (tag : String × String) : Option String :=
  if hasPrefix tag.1 leaseTagMetadataPrefix || hasPrefix tag.1 "jumpstarter.dev/" then
    some ("tag key " ++ k.quote tag.1 ++ " must not use reserved prefix")
  else if tag.1.toList.contains '/' then
    some ("tag key " ++ k.quote tag.1 ++ " must not contain '/' (use simple names without prefix)")
  else if !(k.isQualifiedName (leaseTagMetadataPrefix ++ tag.1)).isEmpty then
    some ("tag key " ++ k.quote tag.1 ++ " is not a valid label key: " ++
      "; ".intercalate (k.isQualifiedName (leaseTagMetadataPrefix ++ tag.1)))
  else if !(k.isValidLabelValue tag.2).isEmpty then
    some ("tag value for key " ++ k.quote tag.1 ++ " is not a valid label value: " ++
      "; ".intercalate (k.isValidLabelValue tag.2))
  else none

/-- `ValidateLeaseTags`: its error. -/
def validateLeaseTags (k : K8s) (tags : Labels) (maxTags : Nat) : Option String :=
  if tags.length > maxTags then
    some ("too many tags: " ++ toString tags.length ++ " (maximum " ++ toString maxTags ++ ")")
  else tags.findSome? (tagError k)

/-- The labels of a lease: those of the selector, and the tags with their prefix. -/
def leaseLabels (matchLabels tags : Labels) : Labels :=
  tags.foldl (fun ls p => ls.set (leaseTagMetadataPrefix ++ p.1) p.2)
    (matchLabels.filter fun p => !hasPrefix p.1 leaseTagMetadataPrefix)

def leaseFromProtobuf (k : K8s) (req : LeaseMessage) (key : ObjectKey) (clientRef : String) :
    Except String Lease :=
  match parseLabelSelector k req.selector with
  | .error err => .error err
  | .ok selector =>
    match reconcileLeaseTimeFields ⟨req.beginTime, req.endTime, req.duration⟩ with
    | .error err => .error err
    | .ok t =>
      .ok
        { ns := key.ns, name := key.name, labels := leaseLabels selector.matchLabels req.tags
          spec :=
            { clientRef, duration := t.duration, selector, tags := req.tags, context := req.context
              exporterRef := req.exporterName.filter (· ≠ "")
              allowDisabled := req.allowDisabled
              beginTime := t.beginTime, endTime := t.endTime } }

/-! ## CreateLease -/

/-- `AuthClient`, for the client that the token names. -/
def authClient (caller : ObjectKey) (ns : String) : Except RpcError Unit :=
  require (ns = caller.ns) ⟨.permissionDenied, "namespace mismatch"⟩

def validateLeaseTarget : Option LeaseMessage → Except RpcError LeaseMessage
  | none => .error ⟨.invalidArgument, "lease is required"⟩
  | some lease =>
    if lease.selector = "" && lease.exporterName.getD "" = "" then
      .error ⟨.invalidArgument, "one of selector or exporter_name is required"⟩
    else .ok lease

/-- A `CreateLeaseRequest`. -/
structure CreateRequest where
  parent : String
  leaseId : String := ""
  lease : Option LeaseMessage

/-- The check of the tags in `CreateLease`. -/
def checkTags (k : K8s) (tags : Labels) (maxTags : Nat) : Except RpcError Unit :=
  match validateLeaseTags k tags maxTags with
  | some err => .error ⟨.invalidArgument, "invalid lease tags: " ++ err⟩
  | none => .ok ()

/-- `CreateLease`: the lease to create, as it is stored; `generated` is the generated name. -/
def createLease (k : K8s) (maxTags : Nat) (caller : ObjectKey) (generated : String) :
    Option CreateRequest → Except RpcError Lease
  | none => .error ⟨.invalidArgument, "request is required"⟩
  | some req => do
    let lease ← validateLeaseTarget req.lease
    checkTags k lease.tags maxTags
    let ns ← parseNamespaceIdentifier req.parent
    authClient caller ns
    let name := if req.leaseId = "" then generated else req.leaseId
    let l ← plainly (leaseFromProtobuf k lease ⟨ns, name⟩ caller.name)
    pure { l with spec := l.spec.stored }

/-! What a created lease is. -/

variable {k : K8s} {l : Lease}

theorem leaseFromProtobuf_ok {req : LeaseMessage} {key : ObjectKey} {clientRef : String}
    (h : leaseFromProtobuf k req key clientRef = .ok l) :
    l.status = {} ∧ ∃ t, reconcileLeaseTimeFields ⟨req.beginTime, req.endTime, req.duration⟩ = .ok t ∧
      l.spec.beginTime = t.beginTime ∧ l.spec.endTime = t.endTime ∧ l.spec.duration = t.duration := by
  unfold leaseFromProtobuf at h
  split at h
  · cases h
  · split at h
    · cases h
    · rename_i t ht
      cases h
      exact ⟨rfl, t, ht, rfl, rfl, rfl⟩

theorem validateLeaseTarget_ok {m : Option LeaseMessage} {lease : LeaseMessage}
    (h : validateLeaseTarget m = .ok lease) : m = some lease := by
  unfold validateLeaseTarget at h
  split at h
  · cases h
  · split at h
    · cases h
    · cases h
      rfl

variable {maxTags : Nat} {caller : ObjectKey} {generated : String} {req : Option CreateRequest}

section

variable (h : createLease k maxTags caller generated req = .ok l)
include h

theorem createLease_request :
    ∃ r lease key l', req = some r ∧ r.lease = some lease ∧
      leaseFromProtobuf k lease key caller.name = .ok l' ∧
      l = { l' with spec := l'.spec.stored } := by
  cases req with
  | none => cases h
  | some req =>
    obtain ⟨lease, hlease, h⟩ := bind_ok h
    obtain ⟨-, -, h⟩ := bind_ok h
    obtain ⟨ns, -, h⟩ := bind_ok h
    obtain ⟨-, -, h⟩ := bind_ok h
    obtain ⟨l', hl', h⟩ := bind_ok h
    cases h
    exact ⟨req, lease, _, l', rfl, validateLeaseTarget_ok hlease, plainly_ok hl', rfl⟩

theorem createLease_ok :
    ∃ lease key l', leaseFromProtobuf k lease key caller.name = .ok l' ∧
      l = { l' with spec := l'.spec.stored } := by
  obtain ⟨r, lease, key, l', -, -, hl', hl⟩ := createLease_request h
  exact ⟨lease, key, l', hl', hl⟩

theorem createLease_status : l.status = {} := by
  obtain ⟨lease, key, l', hl', rfl⟩ := createLease_ok h
  exact (leaseFromProtobuf_ok hl').1

theorem createLease_exporterRef : l.status.exporterRef = none := by
  rw [createLease_status h]

end

/-! ## Patches

The other calls read a lease, change its spec and send the difference as a merge patch
(`client.MergeFrom`), which the server applies to the lease as it is by then. -/

/-- A merge patch of the fields of a spec that the calls change; `none`: not in the patch. -/
structure SpecPatch where
  clientRef : Option String := none
  duration : Option (Option Int) := none
  release : Option Bool := none
  beginTime : Option (Option Int) := none
  endTime : Option (Option Int) := none
  deriving DecidableEq

def changed {α : Type} [DecidableEq α] (old new : α) : Option α := if new = old then none else some new

/-- The patch from the spec that was read to the changed one. -/
def SpecPatch.diff (old new : LeaseSpec) : SpecPatch where
  clientRef := changed old.clientRef new.clientRef
  duration := changed old.duration new.duration
  release := changed old.release new.release
  beginTime := changed old.stored.beginTime new.stored.beginTime
  endTime := changed old.stored.endTime new.stored.endTime

def SpecPatch.apply (p : SpecPatch) (spec : LeaseSpec) : LeaseSpec :=
  { spec with
    clientRef := p.clientRef.getD spec.clientRef
    duration := p.duration.getD spec.duration
    release := p.release.getD spec.release
    beginTime := p.beginTime.getD spec.beginTime
    endTime := p.endTime.getD spec.endTime }

/-- What the calls read: `Get` of a lease, and whether a client exists. -/
structure Lookup where
  lease : ObjectKey → Option Lease
  clientExists : ObjectKey → Bool

/-- The lease of a call that names it by an identifier. -/
def getLease (k : K8s) (look : Lookup) (caller : ObjectKey) (name : String) : Except RpcError Lease := do
  let key ← parseLeaseIdentifier name
  authClient caller key.ns
  match look.lease key with
  | none => plain (k.notFound "Lease" key)
  | some l => pure l

/-! ## UpdateLease -/

def LeaseMessage.hasTimes (req : LeaseMessage) : Bool :=
  req.beginTime.isSome || req.duration.isSome || req.endTime.isSome

/-- The time fields of the request in the spec of the lease `l`; `desired` is the lease that the
request alone describes. -/
def overlayTimes (l : Lease) (req : LeaseMessage) (desired : Lease) : Except RpcError LeaseSpec :=
  if req.beginTime.isSome && l.status.exporterRef.isSome &&
      (l.spec.beginTime.isNone || l.spec.beginTime ≠ desired.spec.beginTime) then
    plain "cannot update BeginTime: lease has already started"
  else
    .ok { l.spec with
      beginTime := if req.beginTime.isSome then desired.spec.beginTime else l.spec.beginTime
      duration := if req.duration.isSome then desired.spec.duration else l.spec.duration
      endTime := if req.endTime.isSome then desired.spec.endTime else l.spec.endTime }

/-- The spec with the time fields of the request, before the missing one is calculated. -/
def overlaySpec (k : K8s) (caller : ObjectKey) (l : Lease) (req : LeaseMessage) :
    Except RpcError LeaseSpec :=
  if req.hasTimes then do
    let desired ← plainly (leaseFromProtobuf k req l.key caller.name)
    overlayTimes l req desired
  else .ok l.spec

/-- The client of the lease: the one to which the request transfers it, if it names one. -/
def transferClient (k : K8s) (look : Lookup) (l : Lease) (req : LeaseMessage) :
    Except RpcError String :=
  match req.client.filter (· ≠ "") with
  | none => .ok l.spec.clientRef
  | some identifier =>
    if l.status.exporterRef.isNone then plain "cannot transfer lease: lease has not started yet"
    else if l.status.ended then plain "cannot transfer lease: lease has already ended"
    else
      match parseClientIdentifier identifier with
      | .error err => .error err
      | .ok key =>
        if key.ns ≠ l.ns then plain "cannot transfer lease to client in different namespace"
        else if !look.clientExists key then
          plain ("target client not found: " ++ k.notFound "Client" key)
        else .ok key.name

/-- The spec with its time fields made consistent, if the request sets one. -/
def settleTimes (req : LeaseMessage) (spec : LeaseSpec) : Except RpcError LeaseSpec :=
  if req.hasTimes then do
    let t ← plainly (reconcileLeaseTimeFields ⟨spec.beginTime, spec.endTime, spec.duration⟩)
    pure { spec with beginTime := t.beginTime, endTime := t.endTime, duration := t.duration }
  else .ok spec

def updateLease (k : K8s) (look : Lookup) (caller : ObjectKey) (req : LeaseMessage) :
    Except RpcError (ObjectKey × SpecPatch) := do
  let l ← getLease k look caller req.name
  require (l.spec.clientRef = caller.name) ⟨.unknown, "UpdateLease permission denied"⟩
  let spec ← overlaySpec k caller l req
  let clientRef ← transferClient k look l req
  let spec ← settleTimes req { spec with clientRef }
  pure (l.key, .diff l.spec spec)

/-! ## DeleteLease and ReleaseLease -/

def releasePatch (l : Lease) : ObjectKey × SpecPatch :=
  (l.key, .diff l.spec { l.spec with release := true })

def deleteLease (k : K8s) (look : Lookup) (caller : ObjectKey) (name : String) :
    Except RpcError (ObjectKey × SpecPatch) := do
  let l ← getLease k look caller name
  require (l.spec.clientRef = caller.name) ⟨.unknown, "DeleteLease permission denied"⟩
  require (!l.spec.release) ⟨.failedPrecondition, "lease " ++ k.quote name ++ " has already been released"⟩
  pure (releasePatch l)

/-- `ReleaseLease` by a client; `none`: nothing to do. -/
def releaseLease (k : K8s) (look : Lookup) (caller : ObjectKey) (name : String) :
    Except RpcError (Option (ObjectKey × SpecPatch)) :=
  match look.lease ⟨caller.ns, name⟩ with
  | none => plain (k.notFound "Lease" ⟨caller.ns, name⟩)
  | some l =>
    if l.spec.clientRef ≠ caller.name then plain "ReleaseLease permission denied"
    else if l.status.ended || l.spec.release then .ok none
    else .ok (some (releasePatch l))

/-- `releaseLeaseAsExporter`; `none`: nothing to do. -/
def releaseLeaseAsExporter (look : Lookup) (exporter : ObjectKey) (name : String) :
    Except RpcError (Option (ObjectKey × SpecPatch)) :=
  match look.lease ⟨exporter.ns, name⟩ with
  | none => .error ⟨.notFound, "lease " ++ name ++ " not found"⟩
  | some l =>
    if l.status.exporterRef ≠ some exporter.name then
      .error ⟨.failedPrecondition, "lease " ++ name ++ " is not held by exporter " ++ exporter.name⟩
    else if l.status.ended || l.spec.release then .ok none
    else .ok (some (releasePatch l))

end Jumpstarter.ClientService
