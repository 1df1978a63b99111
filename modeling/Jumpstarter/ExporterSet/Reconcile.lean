import Jumpstarter.Api.Selector

/-!
# Scaling of a pool of exporters (`ExporterSetReconciler.Reconcile`)

What one `Reconcile` of an `ExporterSet` decides (`reconcile`), from the exporters, pods and leases
that it lists. In this order:

1. disabled exporters without a lease are deleted (`cleanupDisabledExporters`), else
2. exporters without a lease whose pods have ended are (`cleanupTerminalExporters`), else
3. one exporter is created, by the first of three rules that applies (`reconcileScaleUp`), else
4. one idle exporter may be disabled (`reconcileScaleDown`).

Counts are integers (a list has fewer than `2 ^ 31` items).
-/

namespace Jumpstarter

inductive RecycleStrategy where
  | exitAndReplace | inPlaceReuse
  deriving DecidableEq, Inhabited

structure ExporterSet where
  ns : String := ""
  name : String := ""
  uid : String := ""
  minReplicas : Int := 0
  maxReplicas : Int := 4
  minAvailableReplicas : Int := 0
  scaleDownCooldown : Option Int := some (5 * minute)
  recycleStrategy : RecycleStrategy := .exitAndReplace
  selector : LabelSelector := {}
  /-- `Spec.Template.Metadata.Labels`. -/
  templateLabels : Labels := []
  deriving DecidableEq, Inhabited

inductive PodPhase where
  | pending | running | succeeded | failed | unknown
  deriving DecidableEq, Inhabited

structure PoolState where
  replicas : Int := 0
  ready : Int := 0
  available : Int := 0
  leased : Int := 0
  deriving DecidableEq, Inhabited

namespace ExporterSet

def isOnline (e : Exporter) : Bool := e.isTrue .online

/-- The exporter holds a lease, as far as its status says. -/
def isLeased (e : Exporter) : Bool := e.status.leaseRef.isSome

def computePoolState (exporters : List Exporter) : PoolState :=
  exporters.foldl (fun s e =>
    { replicas := s.replicas + 1
      ready := if isOnline e then s.ready + 1 else s.ready
      leased := if isLeased e then s.leased + 1 else s.leased
      available :=
        if isOnline e && e.isEnabled && !isLeased e then s.available + 1 else s.available }) {}

def isOwnedBy (e : Exporter) (uid : String) : Bool := e.controller = some uid

/-- `listOwnedExporters`: among `exporters`, those that the selector matches and the set controls. -/
def listOwnedExporters (k : K8s) (es : ExporterSet) (exporters : List Exporter) :
    Except String (List Exporter) :=
  match labelSelectorAsSelector k es.selector with
  | .error err => .error ("invalid label selector: " ++ err)
  | .ok sel =>
    .ok (exporters.filter fun e =>
      e.ns = es.ns && selectorMatches sel e.labels && isOwnedBy e es.uid)

/-- `cleanupDisabledExporters`: the names of the exporters to delete. -/
def cleanupDisabledExporters (owned : List Exporter) : List String :=
  (owned.filter fun e => !(e.isEnabled || isLeased e)).map (·.name)

def isTerminalPodPhase (phase : PodPhase) : Bool := phase = .succeeded || phase = .failed

def allPodsTerminal (pods : List PodPhase) : Bool := !pods.isEmpty && pods.all isTerminalPodPhase

/-- `cleanupTerminalExporters`: the names of the exporters to delete. -/
def cleanupTerminalExporters (es : ExporterSet) (owned : List Exporter)
    (podsByExporter : String → List PodPhase) : List String :=
  if es.recycleStrategy = .inPlaceReuse then []
  else (owned.filter fun e => !isLeased e && allPodsTerminal (podsByExporter e.name)).map (·.name)

def atMaxReplicas (es : ExporterSet) (current : Int) : Bool :=
  es.maxReplicas > 0 && current ≥ es.maxReplicas

def maxScaleUp (es : ExporterSet) (current : Int) : Int :=
  if es.maxReplicas ≤ 0 then 0x7fffffff
  else
    let room := es.maxReplicas - current
    if room < 0 then 0 else room

/-- The lease is pending and an exporter with the template's labels would match it. -/
def isPendingFor (k : K8s) (es : ExporterSet) (l : Lease) : Bool :=
  l.ns = es.ns && !(l.status.ended || l.status.exporterRef.isSome) && l.isTrue .pending &&
    match labelSelectorAsSelector k l.spec.selector with
    | .error _ => false
    | .ok sel => selectorMatches sel es.templateLabels

def countPendingLeases (k : K8s) (es : ExporterSet) (leases : List Lease) : Int :=
  (leases.filter (isPendingFor k es)).length

/-- The rules of `reconcileScaleUp`. -/
inductive Rule where
  | floor | warmBuffer | demand
  deriving DecidableEq, Inhabited

def belowFloor (es : ExporterSet) (state : PoolState) : Bool :=
  state.replicas < es.minReplicas && state.replicas - state.leased < es.minReplicas

def belowBuffer (es : ExporterSet) (state : PoolState) : Bool :=
  state.available < es.minAvailableReplicas &&
    state.replicas - state.leased < es.minAvailableReplicas && !atMaxReplicas es state.replicas

/-- `reconcileScaleUp`: the rule that creates an exporter. `pending` is what `countPendingLeases`
returns. -/
def reconcileScaleUp (es : ExporterSet) (state : PoolState) (pending : Except String Int) :
    Option Rule :=
  if belowFloor es state then
    if maxScaleUp es state.replicas > 0 then some .floor else none
  else if belowBuffer es state then
    if maxScaleUp es state.replicas > 0 then some .warmBuffer else none
  else if !atMaxReplicas es state.replicas then
    match pending with
    | .error _ => none
    | .ok pending =>
      if pending > 0 && state.available = 0 && maxScaleUp es state.replicas > 0 then some .demand
      else none
  else none

/-- What `reconcileScaleDown` does. -/
inductive ScaleDown where
  /-- There is no surplus: `clearSurplusAnnotation`. -/
  | noSurplus
  | wait (requeueAfter : Int)
  /-- `setSurplusAnnotation`: the cooldown begins. -/
  | mark (requeueAfter : Int)
  | disable (name : String) (requeueAfter : Int)
  | nothing
  deriving DecidableEq, Inhabited

def defaultScaleDownCooldown : Int := 5 * minute

/-- The exporter to disable: the first idle one that is online, else the first idle one. -/
def idleExporter (owned : List Exporter) : Option Exporter :=
  let idle (wantOnline : Bool) (e : Exporter) : Bool :=
    e.isEnabled && !isLeased e && isOnline e == wantOnline
  (owned.find? (idle true)).or (owned.find? (idle false))

/-- `reconcileScaleDown`. `surplusSince` is the annotation, if there is one, and its time, if it
parses; `lastAction` the time of the last disabling. -/
def reconcileScaleDown (now : Int) (lastAction : Option Int) (surplusSince : Option (Option Int))
    (es : ExporterSet) (owned : List Exporter) (state : PoolState) : ScaleDown :=
  let surplus := state.available - es.minAvailableReplicas
  let excessOverMin := state.replicas - es.minReplicas
  if excessOverMin ≤ 0 ∨ surplus ≤ 0 then .noSurplus
  else
    let cooldown := es.scaleDownCooldown.getD defaultScaleDownCooldown
    let remaining := lastAction.map fun t => cooldown - (now - t)
    if remaining.any (· > 0) then .wait (remaining.getD 0)
    else
      match surplusSince with
      | none | some none => .mark cooldown
      | some (some t) =>
        if now - t < cooldown then .wait (cooldown - (now - t))
        else
          match idleExporter owned with
          | some e => .disable e.name cooldown
          | none => .nothing

/-- What a `Reconcile` reads besides the exporters and leases. -/
structure Inputs where
  /-- The `VirtualTargetClass` exists and names this provisioner. -/
  classMatches : Bool := true
  podsByExporter : String → List PodPhase := fun _ => []
  /-- `deepMergeParameters` succeeds. -/
  parametersMerge : Bool := true
  /-- `countPendingLeases` lists the leases without an error. -/
  leasesListed : Bool := true
  now : Int := 0
  lastScaleDownAction : Option Int := none
  surplusSince : Option (Option Int) := none

/-- What a `Reconcile` does to the exporters. -/
inductive Decision where
  | skip
  | delete (names : List String)
  | create (rule : Rule)
  | scaleDown (d : ScaleDown)
  deriving DecidableEq, Inhabited

/-- `Reconcile`, up to its changes of the exporters. -/
def reconcile (k : K8s) (es : ExporterSet) (exporters : List Exporter) (leases : List Lease)
    (inp : Inputs) : Except String Decision :=
  if !inp.classMatches then .ok .skip
  else
    match listOwnedExporters k es exporters with
    | .error err => .error err
    | .ok owned =>
      if cleanupDisabledExporters owned ≠ [] then .ok (.delete (cleanupDisabledExporters owned))
      else if cleanupTerminalExporters es owned inp.podsByExporter ≠ [] then
        .ok (.delete (cleanupTerminalExporters es owned inp.podsByExporter))
      else if !inp.parametersMerge then .error "unable to merge parameters"
      else
        let state := computePoolState owned
        let pending : Except String Int :=
          if inp.leasesListed then .ok (countPendingLeases k es leases)
          else .error "unable to list Leases"
        match reconcileScaleUp es state pending with
        | some rule => .ok (.create rule)
        | none =>
          .ok (.scaleDown (reconcileScaleDown inp.now inp.lastScaleDownAction inp.surplusSince es owned state))

/-- The exporter that `scaleUp` creates, under the name that the server generates. -/
def newExporter (es : ExporterSet) (name : String) : Exporter :=
  { ns := es.ns, name, labels := es.templateLabels, controller := some es.uid, enabled := some true }

end ExporterSet
end Jumpstarter
