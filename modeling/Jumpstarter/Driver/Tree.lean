import Jumpstarter.Lib.Tree
import Jumpstarter.Lib.Dict
import Jumpstarter.Lib.Topological

/-!
# Driver trees and client trees (`Driver.enumerate`, `Proxy`, `client_from_channel`)

An exporter reports its tree of drivers as a flat list, a driver before its children, in which every
`Proxy` stands for the driver that its `ref` names from the root. The client builds a tree of driver
clients from that list.

- The exporter (`enumerate`, `report`, `getReport`): a driver is reported with its uuid, that of its
  parent and its labels; the name under which the parent holds it is one of the labels, unless it is
  empty. `enumerate` recurses into the target of a `Proxy`; the depth bound is the interpreter's stack.
- The client (`clientFromChannel`): one loop finds the parent of each report as the last report with the
  parent's uuid (`Topo.add`); then the clients are built in a topological order, each with the dict of
  its children by label, and the last one is returned (`makeClient`).
- The unfolding (`unfold`): the driver tree with every `Proxy` replaced by its target (`Mirrors`).

`import_class` and `graphlib.TopologicalSorter` are parameters.
-/

namespace Jumpstarter.Drivers

open Lib

/-! ## The drivers -/

abbrev Uuid := BitVec 128

abbrev Labels := List (String × String)

/-- The key of the label with the name of a driver. -/
def nameKey : String := "jumpstarter.dev/name"

def clientKey : String := "jumpstarter.dev/client"

/-- The fields of a driver that a report has. -/
structure Info where
  uuid : Uuid
  labels : Labels := []
  /-- `extra_labels()`. -/
  extraLabels : Labels := []
  /-- `client()`: the path of the client class. -/
  client : String

inductive Node where
  | driver (info : Info)
  /-- A `Proxy`, with the parts of its `ref` between the dots. -/
  | proxy (uuid : Uuid) (ref : List String)

def Node.uuid : Node → Uuid
  | .driver info => info.uuid
  | .proxy uuid _ => uuid

/-- A driver with its `children`. A `Proxy` may have children of its own, which are not reported. -/
abbrev Driver := NamedTree Node

inductive Error where
  /-- `ConfigurationError`: a `ref` that names no driver. -/
  | configuration
  /-- `RecursionError`. -/
  | recursion
  | key
  /-- `graphlib.CycleError`. -/
  | cycle
  /-- An import that failed with something other than `MissingDriverError`. -/
  | importing
  deriving DecidableEq

/-- `instance.children[name]`. -/
def child (d : Driver) (name : String) : Option Driver := Dict.get d.children name

/-- `Proxy._resolve_proxy_target`; `none`: it raises `ConfigurationError`. -/
def resolveProxyTarget (root : Driver) (path : List String) : Option Driver :=
  if path = [] then none else path.foldlM child root

/-- `enumerate(root, parent, name)`, of a driver or of a `Proxy`. -/
def enumerate (root : Driver) : Nat → Option Info → Option String → Driver →
    Except Error (List (NamedTree.Visit Info))
  | 0, _, _, _ => .error .recursion
  | n + 1, parent, name, .node (.driver info) children => do
    let below ← children.mapM fun c => enumerate root n (some info) (some c.1) c.2
    pure (⟨parent, name, info⟩ :: below.flatten)
  | n + 1, parent, name, .node (.proxy _ ref) _ =>
    match resolveProxyTarget root ref with
    | some target => enumerate root n parent name target
    | none => .error .configuration

/-- `DriverInstanceReport`. A `parent_uuid` of `""` is `none`. -/
structure Report where
  uuid : Uuid
  parentUuid : Option Uuid
  labels : Labels

/-- `{"jumpstarter.dev/name": name} if name else {}`. -/
def nameLabel : Option String → Labels
  | some name => if name = "" then [] else [(nameKey, name)]
  | none => []

/-- `labels | extra_labels() | …`: the right operand wins, so it comes first. -/
def reportLabels (info : Info) (name : Option String) : Labels :=
  nameLabel name ++ ([(clientKey, info.client)] ++ (info.extraLabels ++ info.labels))

/-- `Driver.report(parent, name)`. -/
def report (v : NamedTree.Visit Info) : Report where
  uuid := v.value.uuid
  parentUuid := v.parent.map Info.uuid
  labels := reportLabels v.value v.name

/-- The reports of `Session.GetReport`. -/
def getReport (depth : Nat) (root : Driver) : Except Error (List Report) :=
  (enumerate root depth none none root).map (List.map report)

/-! ## The client -/

/-- `labels[key]` of a report: a missing key reads as `""`. -/
def label (labels : Labels) (key : String) : String := (Dict.get labels key).getD ""

/-- The state of the loop over the reports. -/
structure Topo where
  topo : List (List Nat) := []
  lastSeen : Uuid → Option Nat := fun _ => none

/-- One iteration of the loop over the reports. -/
def Topo.add (s : Topo) (r : Report) : Except Error Topo :=
  let index := s.topo.length
  let lastSeen := Function.update s.lastSeen r.uuid (some index)
  match r.parentUuid with
  | none => .ok ⟨s.topo ++ [[]], lastSeen⟩
  | some parent =>
    match lastSeen parent with
    | some parentIndex => .ok ⟨(s.topo ++ [[]]).modify parentIndex (· ++ [index]), lastSeen⟩
    | none => .error .key

/-- What `import_class(path, allow, unsafe)` does. -/
inductive Import where
  | imported
  /-- `MissingDriverError`: not allowed, or not installed. -/
  | missing
  | raises
  deriving DecidableEq

/-- The class of a client, `none` for `StubDriverClient`. -/
def clientClass (importClass : String → Import) (path : String) : Except Error (Option String) :=
  match importClass path with
  | .imported => .ok (some path)
  | .missing => .ok none
  | .raises => .error .importing

/-- A driver client without its children. -/
structure ClientInfo where
  uuid : Uuid
  labels : Labels
  cls : Option String

abbrev Client := NamedTree ClientInfo

/-- `d[k]`, where it may raise `KeyError`. -/
def orKeyError {α : Type} : Option α → Except Error α
  | some a => .ok a
  | none => .error .key

/-- `clients[k]`, the newest entry being first. -/
def lookup (clients : List (Nat × Client)) (k : Nat) : Option Client :=
  (clients.find? fun p => p.1 == k).map Prod.snd

/-- The entry for report `k` in the dict of the children. -/
def childEntry (reports : List Report) (clients : List (Nat × Client)) (k : Nat) :
    Option (String × Client) :=
  match reports[k]?, lookup clients k with
  | some r, some c => some (label r.labels nameKey, c)
  | _, _ => none

/-- One iteration of the loop over the topological order. -/
def makeClient (importClass : String → Import) (reports : List Report) (topo : List (List Nat))
    (clients : List (Nat × Client)) (index : Nat) : Except Error (List (Nat × Client)) := do
  let report ← orKeyError reports[index]?
  let cls ← clientClass importClass (label report.labels clientKey)
  let below ← orKeyError topo[index]?
  let children ← orKeyError (below.mapM (childEntry reports clients))
  pure ((index, .node ⟨report.uuid, report.labels, cls⟩ (Dict.ofList children)) :: clients)

/-- `clients.popitem(last=True)[1]`. -/
def popLast : List (Nat × Client) → Except Error Client
  | (_, client) :: _ => .ok client
  | [] => .error .key

/-- `client_from_channel`, from the reply of `GetReport`. -/
def clientFromChannel (sorter : Sorter) (importClass : String → Import) (reports : List Report) :
    Except Error Client := do
  let s ← reports.foldlM Topo.add {}
  match sorter.staticOrder s.topo with
  | none => .error .cycle
  | some order =>
    let clients ← order.foldlM (makeClient importClass reports s.topo) []
    popLast clients

/-! ## What the client tree should be -/

/-- The tree below `d` with every `Proxy` replaced by its target, if it is at most `n` deep. -/
def unfold (root : Driver) : Nat → Driver → Option (NamedTree Info)
  | 0, _ => none
  | n + 1, .node (.driver info) children =>
    (children.mapM fun c => (unfold root n c.2).map fun t => (c.1, t)).map (NamedTree.node info)
  | n + 1, .node (.proxy _ ref) _ => (resolveProxyTarget root ref).bind (unfold root n)

/-- A tree of drivers: the root is no `Proxy`, the children of a driver are a dict, and each driver
has its own uuid (`uuid4`). -/
structure DriverTree where
  root : Driver
  notProxy : ∃ info, root.value = .driver info
  names : ∀ d ∈ root.subtrees, (Dict.keys d.children).Nodup
  uuids : (root.subtrees.map fun d => d.value.uuid).Nodup

/-- The client tree has the shape, the names and the uuids of the unfolded driver tree. -/
def Mirrors (c : Client) (t : NamedTree Info) : Prop := c.map ClientInfo.uuid = t.map Info.uuid

/-- The name that a driver has in its own labels. -/
def Info.labelName (info : Info) : String := label (info.extraLabels ++ info.labels) nameKey

/-- No child with the name `""` has another name in its own labels. -/
def NamesKept (t : NamedTree Info) : Prop :=
  ∀ s ∈ t.subtrees, ∀ c ∈ s.children, c.1 = "" → c.2.value.labelName = ""

/-- No import of a client class fails with anything but `MissingDriverError`. -/
def Imports (importClass : String → Import) (t : NamedTree Info) : Prop :=
  ∀ s ∈ t.subtrees, importClass s.value.client ≠ .raises

end Jumpstarter.Drivers
