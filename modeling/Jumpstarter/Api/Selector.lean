import Jumpstarter.Api.Types

/-!
# Label selectors

`metav1.LabelSelectorAsSelector` and the matching of label sets, of `k8s.io/apimachinery`. What is not
modelled of that library (the syntax of label keys and values, the text of a selector) is in
`K8s`, a parameter of the functions that use it.
-/

namespace Jumpstarter

/-- The operators of `selection.Operator` that `LabelSelectorAsSelector` makes. -/
inductive Operator where
  | equals | isIn | notIn | exists | doesNotExist
  deriving DecidableEq, Inhabited

structure Requirement where
  key : String
  operator : Operator
  values : List String
  deriving DecidableEq, Inhabited

/-- `selection.Operator`. -/
inductive SelectionOperator where
  | equals | doubleEquals | notEquals | isIn | notIn | exists | doesNotExist | greaterThan | lessThan
  deriving DecidableEq, Inhabited

def SelectionOperator.toString : SelectionOperator → String
  | .equals => "="
  | .doubleEquals => "=="
  | .notEquals => "!="
  | .isIn => "in"
  | .notIn => "notin"
  | .exists => "exists"
  | .doesNotExist => "!"
  | .greaterThan => "gt"
  | .lessThan => "lt"

/-- A requirement that `labels.Parse` returns. -/
structure ParsedRequirement where
  key : String
  operator : SelectionOperator
  values : List String
  deriving DecidableEq, Inhabited

/-- The functions of `k8s.io/apimachinery` and of Go's library that the model does not define. -/
structure K8s where
  /-- The error of `labels.NewRequirement`, if it returns one. -/
  requirementError : Requirement → Option String
  formatLabelSelector : LabelSelector → String
  /-- `labels.Parse`: the requirements, or `none` for a selector that selects nothing. -/
  parse : String → Except String (Option (List ParsedRequirement))
  /-- `validation.IsQualifiedName`: the errors. -/
  isQualifiedName : String → List String
  /-- `validation.IsValidLabelValue`: the errors. -/
  isValidLabelValue : String → List String
  /-- The error of a `Get` for an object of a kind that does not exist. -/
  notFound : String → ObjectKey → String
  /-- `strconv.Quote`, which prints the verb `%q`. -/
  quote : String → String

/-- `Requirement.Matches`. -/
def Requirement.matchesSet (r : Requirement) (ls : Labels) : Bool :=
  match r.operator, ls.lookup r.key with
  | .equals, some v | .isIn, some v => r.values.contains v
  | .equals, none | .isIn, none => false
  | .notIn, some v => !r.values.contains v
  | .notIn, none => true
  | .exists, v => v.isSome
  | .doesNotExist, v => v.isNone

def newRequirement (k : K8s) (key : String) (operator : Operator) (values : List String) :
    Except String Requirement :=
  let r : Requirement := ⟨key, operator, values⟩
  match k.requirementError r with
  | some err => .error err
  | none => .ok r

def SelectorRequirement.toRequirement (k : K8s) (e : SelectorRequirement) :
    Except String Requirement :=
  match e.operator with
  | .isIn => newRequirement k e.key .isIn e.values
  | .notIn => newRequirement k e.key .notIn e.values
  | .exists => newRequirement k e.key .exists e.values
  | .doesNotExist => newRequirement k e.key .doesNotExist e.values
  | .other text => .error ("\"" ++ text ++ "\" is not a valid label selector operator")

/-- `metav1.LabelSelectorAsSelector`: the requirements, all of which must match. -/
def labelSelectorAsSelector (k : K8s) (ps : LabelSelector) : Except String (List Requirement) := do
  let labels ← ps.matchLabels.mapM fun p => newRequirement k p.1 .equals [p.2]
  let expressions ← ps.matchExpressions.mapM (·.toRequirement k)
  return labels ++ expressions

/-- A library for examples: it accepts every name and value, and `labels.Parse` reads its argument as
the one requirement that a label exists. -/
def anyK8s : K8s where
  requirementError _ := none
  formatLabelSelector _ := ""
  parse s := .ok (some [⟨s, .exists, []⟩])
  isQualifiedName _ := []
  isValidLabelValue _ := []
  notFound _ _ := "not found"
  quote s := "\"" ++ s ++ "\""

/-- `Selector.Matches`. -/
def selectorMatches (sel : List Requirement) (ls : Labels) : Bool := sel.all (·.matchesSet ls)

end Jumpstarter
