import Mathlib.Logic.Function.Basic
import Mathlib.Data.Set.Basic

/-!
# The router Services of the operator (`reconcileServices`, `cleanupExcessRouterServices`)

A reconcile of a Jumpstarter spec creates the Services of every router replica and endpoint, one for
each enabled service type, and then deletes those that it takes for left over.

- `Spec`, `Endpoint`, with their defaults (`applyDefaults`): with a base domain, every endpoint gets a service
  type, and an empty list of endpoints gets one endpoint.
- `Services`: the type of the Service of each name.
- `serviceName`, `ServiceType.suffix`: a name says which replica, endpoint and type its Service is for
  (`Key.name_injective`).
- `untilGap`: both loops of `cleanupExcessRouterServices` guess names from a first index on, up to a fixed
  bound, and stop at the first index without a Service.
-/

namespace Jumpstarter.Operator

/-! ## Specs -/

/-- The configuration of a service type: whether it is there, and then whether it is enabled. -/
abbrev Config := Option Bool

def Config.enabled (c : Config) : Bool := c == some true

/-- `Endpoint`. Its address, its ports, annotations and labels do not bear on names and types. -/
structure Endpoint where
  route : Config := none
  ingress : Config := none
  nodePort : Config := none
  loadBalancer : Config := none
  clusterIP : Config := none
  deriving DecidableEq

/-- The part of `JumpstarterSpec` that the router Services depend on. The CRD has 3 replicas as the
default and 1 as the minimum. -/
structure Spec where
  baseDomain : String := ""
  replicas : Nat := 3
  endpoints : List Endpoint := []
  replicas_pos : 1 ≤ replicas := by decide

/-- What the operator found out about its cluster. -/
structure Reconciler where
  routeAvailable : Bool := false
  ingressAvailable : Bool := false
  defaultBaseDomain : String := ""

def ensureEndpointServiceType (r : Reconciler) (endpoint : Endpoint) : Endpoint :=
  if Config.enabled endpoint.route || Config.enabled endpoint.ingress ||
      Config.enabled endpoint.loadBalancer || Config.enabled endpoint.nodePort ||
      Config.enabled endpoint.clusterIP then endpoint
  else if r.routeAvailable then { endpoint with route := some true }
  else if r.ingressAvailable then { endpoint with ingress := some true }
  else { endpoint with clusterIP := some true }

/-- `ApplyEndpointDefaults`, for the router endpoints. -/
def applyEndpointDefaults (r : Reconciler) (spec : Spec) : Spec :=
  if spec.baseDomain = "" then spec
  else if spec.endpoints = [] then { spec with endpoints := [ensureEndpointServiceType r {}] }
  else { spec with endpoints := spec.endpoints.map (ensureEndpointServiceType r) }

def applyDefaults (r : Reconciler) (ns : String) (spec : Spec) : Spec :=
  let domain := if spec.baseDomain = "" ∧ r.defaultBaseDomain ≠ "" then
    "jumpstarter." ++ ns ++ "." ++ r.defaultBaseDomain else spec.baseDomain
  applyEndpointDefaults r { spec with baseDomain := domain }

/-! ## Services -/

inductive ServiceType where
  | clusterIP | loadBalancer | nodePort
  deriving DecidableEq

@[simp] def ServiceType.suffix : ServiceType → String
  | .clusterIP => ""
  | .loadBalancer => "-lb"
  | .nodePort => "-np"

abbrev Services := String → Option ServiceType

/-- `buildServiceNameForReplicaEndpoint`. -/
def serviceName (name : String) (replica endpointIdx : Nat) : String :=
  if endpointIdx = 0 then name ++ "-router-" ++ toString replica
  else name ++ "-router-" ++ toString replica ++ "-" ++ toString endpointIdx

/-- `createService`: the Service is created, or updated to the type. -/
def createService (s : Services) (portName : String) (type : ServiceType) : Services :=
  Function.update s (portName ++ type.suffix) (some type)

def Endpoint.enables (e : Endpoint) : ServiceType → Bool
  | .loadBalancer => Config.enabled e.loadBalancer
  | .nodePort => Config.enabled e.nodePort
  -- Ingress and Route point to a ClusterIP Service.
  | .clusterIP => Config.enabled e.clusterIP || Config.enabled e.ingress || Config.enabled e.route

def reconcileRouterReplicaEndpoint (portName : String) (endpoint : Endpoint) (s : Services) :
    Services :=
  let create := fun s type => if endpoint.enables type then createService s portName type else s
  create (create (create s .loadBalancer) .nodePort) .clusterIP

/-- The Services of one replica. Without endpoints, a default one has no service type enabled. -/
def reconcileReplica (name : String) (endpoints : List Endpoint) (s : Services) (replica : Nat) :
    Services :=
  if endpoints = [] then reconcileRouterReplicaEndpoint (serviceName name replica 0) {} s
  else endpoints.zipIdx.foldl (fun s p => reconcileRouterReplicaEndpoint (serviceName name replica p.2) p.1 s) s

/-! ## Clean-up -/

/-- `Delete`, and whether a Service was found so far (`foundAny`). -/
def deleteService (acc : Services × Bool) (serviceName : String) : Services × Bool :=
  if (acc.1 serviceName).isSome then (Function.update acc.1 serviceName none, true) else acc

def deleteEndpoint (name : String) (replica : Nat) (acc : Services × Bool) (endpointIdx : Nat) :
    Services × Bool :=
  [ServiceType.clusterIP, .loadBalancer, .nodePort].foldl
    (fun acc type => deleteService acc (serviceName name replica endpointIdx ++ type.suffix)) acc

def deleteReplica (name : String) (acc : Services × Bool) (replica : Nat) : Services × Bool :=
  (List.range 10).foldl (deleteEndpoint name replica) acc

/-- A loop that deletes at the indices from `idx` on, at most `n` of them, and stops at the first
without a Service. -/
def untilGap (delete : Services × Bool → Nat → Services × Bool) : Nat → Nat → Services → Services
  | 0, _, s => s
  | n + 1, idx, s =>
    let acc := delete (s, false) idx
    if acc.2 then untilGap delete n (idx + 1) acc.1 else acc.1

def cleanupExcessRouterServices (name : String) (spec : Spec) (s : Services) : Services :=
  let s := untilGap (deleteReplica name) (100 - spec.replicas) spec.replicas s
  let numEndpoints := max spec.endpoints.length 1
  (List.range spec.replicas).foldl
    (fun s replica => untilGap (deleteEndpoint name replica) (10 - numEndpoints) numEndpoints s) s

/-- `reconcileServices`, for the router Services. -/
def reconcileServices (name : String) (spec : Spec) (s : Services) : Services :=
  cleanupExcessRouterServices name spec
    ((List.range spec.replicas).foldl (reconcileReplica name spec.endpoints) s)

/-- A successful reconcile, for the router Services. -/
def reconcile (r : Reconciler) (name ns : String) (spec : Spec) (s : Services) : Services :=
  reconcileServices name (applyDefaults r ns spec) s

/-! ## Names -/

structure Key where
  replica : Nat
  endpointIdx : Nat
  type : ServiceType
  deriving DecidableEq

def Key.name (name : String) (k : Key) : String :=
  serviceName name k.replica k.endpointIdx ++ k.type.suffix

variable {n : Nat}

theorem toDigits_inj {m : Nat} (h : Nat.toDigits 10 m = Nat.toDigits 10 n) : m = n := by
  simpa using congrArg (fun digits => Nat.ofDigitChars 10 digits 0) h

theorem isDigit_of_mem {c : Char} (h : c ∈ Nat.toDigits 10 n) : c.isDigit = true :=
  Nat.isDigit_of_mem_toDigits (by decide) (by decide) h

/-- The list does not begin with a digit. -/
def NoDigit (l : List Char) : Prop := ∀ c rest, l = c :: rest → c.isDigit = false

theorem digits_append_inj {m : Nat} {l l' : List Char} (hl : NoDigit l) (hl' : NoDigit l')
    (h : Nat.toDigits 10 m ++ l = Nat.toDigits 10 n ++ l') : m = n ∧ l = l' := by
  have htake : ∀ (k : Nat) (r : List Char), NoDigit r →
      (Nat.toDigits 10 k ++ r).takeWhile Char.isDigit = Nat.toDigits 10 k := by
    intro k r hr
    rw [List.takeWhile_append_of_pos fun c hc => isDigit_of_mem hc]
    cases r with
    | nil => simp
    | cons c r => simp [hr c r rfl]
  have hdigits : Nat.toDigits 10 m = Nat.toDigits 10 n := by
    rw [← htake m l hl, h, htake n l' hl']
  rw [hdigits] at h
  exact ⟨toDigits_inj hdigits, List.append_cancel_left h⟩

def endpointPart (endpointIdx : Nat) (type : ServiceType) : List Char :=
  (if endpointIdx = 0 then [] else '-' :: Nat.toDigits 10 endpointIdx) ++ type.suffix.toList

theorem toList_name (name : String) (k : Key) :
    (k.name name).toList = (name ++ "-router-").toList ++
      (Nat.toDigits 10 k.replica ++ endpointPart k.endpointIdx k.type) := by
  unfold Key.name serviceName endpointPart
  split <;> simp

variable {t t' : ServiceType}

theorem suffix_toList_inj (h : t.suffix.toList = t'.suffix.toList) : t = t' := by
  cases t <;> cases t' <;> simp at h <;> rfl

theorem suffix_noDigit (t : ServiceType) :
    NoDigit t.suffix.toList ∧ ∀ rest, t.suffix.toList = '-' :: rest → NoDigit rest := by
  cases t <;> simp [NoDigit]

theorem endpointPart_noDigit (e : Nat) (t : ServiceType) : NoDigit (endpointPart e t) := by
  unfold endpointPart
  split
  · simpa using (suffix_noDigit t).1
  · intro c rest h
    cases h
    decide

theorem digits_append_ne_suffix {e : Nat} : '-' :: Nat.toDigits 10 e ++ t.suffix.toList ≠ t'.suffix.toList := by
  intro h
  have hno := (suffix_noDigit t').2 _ h.symm
  cases hd : Nat.toDigits 10 e with
  | nil => exact Nat.toDigits_ne_nil hd
  | cons c rest =>
    have hfalse := hno c (rest ++ t.suffix.toList) (by rw [hd]; rfl)
    rw [isDigit_of_mem (n := e) (by rw [hd]; exact List.mem_cons_self)] at hfalse
    cases hfalse

theorem endpointPart_inj {e e' : Nat} (h : endpointPart e t = endpointPart e' t') : e = e' ∧ t = t' := by
  unfold endpointPart at h
  split at h
  · rename_i he
    split at h
    · rename_i he'
      exact ⟨he.trans he'.symm, suffix_toList_inj h⟩
    · exact absurd h.symm digits_append_ne_suffix
  · split at h
    · exact absurd h digits_append_ne_suffix
    · obtain ⟨hee, ht⟩ :=
        digits_append_inj (suffix_noDigit t).1 (suffix_noDigit t').1 (List.cons.inj h).2
      exact ⟨hee, suffix_toList_inj ht⟩

theorem Key.name_injective {name : String} {k k' : Key} (h : k.name name = k'.name name) : k = k' := by
  have hlist := congrArg String.toList h
  rw [toList_name, toList_name] at hlist
  obtain ⟨hr, hpart⟩ := digits_append_inj (endpointPart_noDigit _ _) (endpointPart_noDigit _ _)
    (List.append_cancel_left hlist)
  obtain ⟨he, ht⟩ := endpointPart_inj hpart
  cases k'
  cases hr
  cases he
  cases ht
  rfl

end Jumpstarter.Operator
