import Jumpstarter.Lib.Dict
import Jumpstarter.Lib.Text

/-!
# Label selectors in the Python client (`client/selectors.py`)

`parse_label_selector` splits a selector at its commas and reads each part with six regular
expressions; `selector_contains` compares two selectors, and `jmp delete leases --selector` deletes the
leases whose selector contains the one that is given.

Each regular expression is a recogniser of a stripped part. It needs no backtracking but for `==?`: a
key, a run of spaces and a bracketed list end at the first character that they cannot contain. `$` is
the end of the part, which does not end in a newline, and `.` is any other character than a newline.
-/

namespace Jumpstarter.Selectors

open Lib

/-- `str.isspace`, which is `\s` too. -/
def isSpace (c : Char) : Bool :=
  let n := c.toNat
  (9 ≤ n && n ≤ 13) || (28 ≤ n && n ≤ 32) || n = 0x85 || n = 0xA0 || n = 0x1680 ||
    (0x2000 ≤ n && n ≤ 0x200A) || n = 0x2028 || n = 0x2029 || n = 0x202F || n = 0x205F || n = 0x3000

/-- A character of a key: a letter or digit of ASCII, or one of `_`, `.`, `/` and `-`. The regular
expressions below write `KEY` for this class. -/
def isKeyChar (c : Char) : Bool := c.isAlphanum || ['_', '.', '/', '-'].contains c

def strip (l : List Char) : List Char := Text.strip isSpace l

/-! ## The regular expressions -/

/-- `(KEY+)`, and the rest. -/
def matchKey (l : List Char) : Option (List Char × List Char) :=
  if l.takeWhile isKeyChar = [] then none
  else some (l.takeWhile isKeyChar, l.dropWhile isKeyChar)

/-- `\s+`. -/
def matchSpaces (l : List Char) : Option (List Char) :=
  if l.takeWhile isSpace = [] then none else some (l.dropWhile isSpace)

def matchWord (word l : List Char) : Option (List Char) :=
  if word.isPrefixOf l then some (l.drop word.length) else none

/-- `\(([^)]*)\)$`. -/
def matchBrackets : List Char → Option (List Char)
  | '(' :: l =>
    match l.dropWhile (· ≠ ')') with
    | [_] => some (l.takeWhile (· ≠ ')'))
    | _ => none
  | _ => none

/-- `\s*(.+)$`, and the group stripped. -/
def matchValue (l : List Char) : Option (List Char) :=
  let value := l.dropWhile isSpace
  if value = [] ∨ '\n' ∈ value then none else some (strip value)

/-- `^(KEY+)\s+in\s+\(([^)]*)\)$`, and the same with `notin`. -/
def matchSet (word part : List Char) : Option (List Char × List Char) := do
  let (key, l) ← matchKey part
  let l ← matchSpaces l
  let l ← matchWord word l
  let l ← matchSpaces l
  let values ← matchBrackets l
  return (key, values)

/-- `^!\s*(KEY+)$`. -/
def matchNotExists (part : List Char) : Option (List Char) := do
  let l ← matchWord ['!'] part
  let (key, l) ← matchKey (l.dropWhile isSpace)
  if l = [] then some key else none

/-- `^(KEY+)\s*!=\s*(.+)$`. -/
def matchNotEquals (part : List Char) : Option (List Char × List Char) := do
  let (key, l) ← matchKey part
  let l ← matchWord ['!', '='] (l.dropWhile isSpace)
  let value ← matchValue l
  return (key, value)

/-- `^(KEY+)\s*==?\s*(.+)$`: without the second `=` if the rest does not match after it. -/
def matchEquals (part : List Char) : Option (List Char × List Char) := do
  let (key, l) ← matchKey part
  let l ← matchWord ['='] (l.dropWhile isSpace)
  let value ← ((matchWord ['='] l).bind matchValue).or (matchValue l)
  return (key, value)

/-- `^KEY+$`. -/
def matchExists (part : List Char) : Option (List Char) := do
  let (key, l) ← matchKey part
  if l = [] then some key else none

/-! ## `parse_label_selector` -/

/-- The operators of match expressions; `other` is any other text. -/
inductive Op where
  | isIn | notIn | notExists | notEquals | exists
  | other (text : String)
  deriving DecidableEq

/-- What a part adds: `match_labels[key] = value`, or an expression. -/
inductive Item where
  | label (key value : String)
  | expression (key : String) (op : Op) (values : List String)
  deriving DecidableEq

/-- `[v.strip() for v in values.split(",")]`. -/
def splitValues (values : List Char) : List String :=
  (Text.splitBy (fun c _ => c = ',') values).map fun v => String.ofList (strip v)

def readPart (part : List Char) : Option Item :=
  match matchSet ['i', 'n'] part with
  | some (key, values) => some (.expression (String.ofList key) .isIn (splitValues values))
  | none =>
  match matchSet ['n', 'o', 't', 'i', 'n'] part with
  | some (key, values) => some (.expression (String.ofList key) .notIn (splitValues values))
  | none =>
  match matchNotExists part with
  | some key => some (.expression (String.ofList key) .notExists [])
  | none =>
  match matchNotEquals part with
  | some (key, value) =>
    some (.expression (String.ofList key) .notEquals [String.ofList value])
  | none =>
  match matchEquals part with
  | some (key, value) => some (.label (String.ofList key) (String.ofList value))
  | none =>
  match matchExists part with
  | some _ => some (.expression (String.ofList part) .exists [])
  | none => none

/-- The pair that `parse_label_selector` returns. -/
structure Parsed where
  labels : List (String × String) := []
  expressions : List (String × Op × List String) := []
  deriving DecidableEq

def Parsed.add (p : Parsed) : Item → Parsed
  | .label key value => { p with labels := Dict.set p.labels key value }
  | .expression key op values => { p with expressions := p.expressions ++ [(key, op, values)] }

/-- `[^()]*\)` matches: the next bracket is a closing one. -/
def closes (l : List Char) : Bool := l.find? (fun c => c = '(' || c = ')') == some ')'

/-- `re.split(r",(?![^()]*\))", selector)`. -/
def splitParts (selector : List Char) : List (List Char) :=
  Text.splitBy (fun c rest => c = ',' && !closes rest) selector

def addPart (p : Parsed) (part : List Char) : Parsed :=
  let part := strip part
  if part = [] then p
  else
    match readPart part with
    | some item => p.add item
    | none => p

/-- `not s or not s.strip()`. -/
def isBlank (s : String) : Bool := strip s.toList = []

def parseLabelSelector (selector : String) : Parsed :=
  if isBlank selector then {} else (splitParts selector.toList).foldl addPart {}

/-! ## `selector_contains` -/

def labelSatisfiesExpression (selLabels : List (String × String)) (key : String) (op : Op)
    (values : List String) : Except String Bool :=
  let label := Dict.get selLabels key
  match op with
  | .notExists => .ok label.isNone
  | .notIn | .notEquals => .ok (label.all (!values.contains ·))
  | .isIn => .ok (label.any values.contains)
  | .exists => .ok label.isSome
  | .other text => .error ("unknown label selector operator: '" ++ text ++ "'")

/-- `set(a) == set(b)`. -/
def sameSet (a b : List String) : Bool := a.all b.contains && b.all a.contains

/-- The loop of `selector_contains` over the expressions of `requirements`. -/
def containsExpressions (sel : Parsed) : List (String × Op × List String) → Except String Bool
  | [] => .ok true
  | (key, op, values) :: rest =>
    if sel.expressions.any fun e => e.1 = key && e.2.1 = op && sameSet e.2.2 values then
      containsExpressions sel rest
    else
      match labelSatisfiesExpression sel.labels key op values with
      | .error err => .error err
      | .ok false => .ok false
      | .ok true => containsExpressions sel rest

def selectorContains (selector requirements : String) : Except String Bool :=
  if isBlank requirements then .ok true
  else
    let req := parseLabelSelector requirements
    let sel := parseLabelSelector selector
    if req.labels.any fun p => Dict.get sel.labels p.1 ≠ some p.2 then .ok false
    else containsExpressions sel req.expressions

/-! ## `jmp delete leases` -/

/-- `Lease`: the fields that are read here. -/
structure Lease where
  name : String
  selector : String
  client : String
  deriving DecidableEq

/-- `LeaseList.filter_by_selector`: a lease for which `selector_contains` raises is skipped. -/
def filterBySelector (leases : List Lease) (filterSelector : String) : List Lease :=
  if filterSelector = "" then leases
  else leases.filter fun lease =>
    match selectorContains lease.selector filterSelector with
    | .ok contained => contained
    | .error _ => false

def filterByClient (leases : List Lease) (clientName : String) : List Lease :=
  leases.filter fun lease => lease.client = clientName

/-- The client configuration and the controller behind it. -/
structure Config where
  metadataName : String
  listLeases : Option String → Except String (List Lease)
  /-- The error of `delete_lease`, if it raises one. -/
  deleteLease : String → Option String

/-- The options of `jmp delete leases`. -/
structure DeleteOptions where
  names : List String := []
  selector : Option String := none
  deleteAll : Bool := false
  allClients : Bool := false
  /-- `--output name`. -/
  outputName : Bool := false

/-- What a run did: the names that `delete_lease` was called with, the lines it printed, and the error
that ended it. -/
structure Deletion where
  requested : List String := []
  printed : List String := []
  error : Option String := none
  deriving DecidableEq

/-- The last loop of `delete_leases`. -/
def deleteNames (config : Config) (outputName : Bool) : List String → Deletion
  | [] => {}
  | name :: rest =>
    match config.deleteLease name with
    | some err => { requested := [name], error := some err }
    | none =>
      let line := if outputName then name else "lease \"" ++ name ++ "\" deleted"
      let d := deleteNames config outputName rest
      { d with requested := name :: d.requested, printed := line :: d.printed }

def ownLeases (config : Config) (allClients : Bool) (leases : List Lease) : List Lease :=
  if allClients then leases else filterByClient leases config.metadataName

/-- The names that `delete_leases` collects. -/
def toDelete (config : Config) (o : DeleteOptions) : Except String (List String) :=
  if o.names ≠ [] then .ok o.names
  else if o.selector.getD "" ≠ "" then
    match config.listLeases o.selector with
    | .error err => .error err
    | .ok leases =>
      .ok ((ownLeases config o.allClients (filterBySelector leases (o.selector.getD ""))).map (·.name))
  else if o.deleteAll || o.allClients then
    match config.listLeases none with
    | .error err => .error err
    | .ok leases => .ok ((ownLeases config o.allClients leases).map (·.name))
  else .error "One of NAMES, --selector, --all or --all-clients must be specified"

def deleteLeases (config : Config) (o : DeleteOptions) : Deletion :=
  match toDelete config o with
  | .error err => { error := some err }
  | .ok [] => { error := some "no leases found matching the criteria" }
  | .ok names => deleteNames config o.outputName names

theorem requested_subset (config : Config) (outputName : Bool) (names : List String) :
    ∀ name ∈ (deleteNames config outputName names).requested, name ∈ names := by
  induction names with
  | nil => nofun
  | cons n names ih =>
    intro name h
    unfold deleteNames at h
    split at h
    · rw [List.mem_singleton.mp h]
      exact List.mem_cons_self
    · rcases List.mem_cons.mp h with rfl | h
      · exact List.mem_cons_self
      · exact List.mem_cons_of_mem _ (ih name h)

theorem mem_toDelete {config : Config} {o : DeleteOptions} {name : String}
    (h : name ∈ (deleteLeases config o).requested) :
    ∃ names, toDelete config o = .ok names ∧ name ∈ names := by
  unfold deleteLeases at h
  split at h
  · cases h
  · cases h
  · rename_i names _ hnames
    exact ⟨names, hnames, requested_subset _ _ _ name h⟩

end Jumpstarter.Selectors
