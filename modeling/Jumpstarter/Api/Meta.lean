/-!
# Object metadata: times, conditions, labels

What the API types share. A `time.Time` is a number of nanoseconds since the Unix epoch; a
`metav1.Time` is stored with whole seconds (`truncateSecond`). A condition is a `metav1.Condition`
over the condition types of its kind of object.

`setStatusCondition` and `isStatusConditionTrue` are those of `k8s.io/apimachinery/pkg/api/meta`.
What a proof needs of them is one equation (`isStatusCondition_setStatusCondition`): the condition
that was set is the one found, and those of the other types are as before.
-/

namespace Jumpstarter

def second : Int := 1000000000

def minute : Int := 60 * second

/-- The stored form of a time: `metav1.Time` is written with whole seconds. -/
def truncateSecond (t : Int) : Int := t - t % second

/-- The zero `time.Time`, year 1. -/
def zeroTime : Int := -62135596800 * second

/-- The stored form of a time of a request: the zero time is written as `null`. -/
def storedTime (t : Int) : Option Int := if t = zeroTime then none else some (truncateSecond t)

/-- `t.Sub(u)`: a `time.Duration` has 64 bits, and the difference saturates. -/
def subTime (t u : Int) : Int := max (-0x8000000000000000) (min (t - u) 0x7fffffffffffffff)

theorem truncateSecond_mono {t u : Int} (h : t ≤ u) : truncateSecond t ≤ truncateSecond u := by
  unfold truncateSecond second
  omega

@[simp] theorem truncateSecond_truncateSecond (t : Int) :
    truncateSecond (truncateSecond t) = truncateSecond t := by
  have h : truncateSecond t % second = 0 := by
    unfold truncateSecond
    exact Int.emod_eq_zero_of_dvd Int.dvd_self_sub_emod
  show truncateSecond t - truncateSecond t % second = truncateSecond t
  rw [h]
  exact Int.sub_zero _

inductive ConditionStatus where
  | unknown | true | false
  deriving DecidableEq, Inhabited

/-- `metav1.Condition`, with conditions of the types `T`. -/
structure Condition (T : Type) where
  type : T
  status : ConditionStatus
  observedGeneration : Int
  /-- `none`: the zero time. -/
  lastTransitionTime : Option Int := none
  reason : String
  message : String := ""
  deriving DecidableEq

section Conditions

variable {T : Type} [DecidableEq T]

/-- The condition `e` updated to `c` (same type) at `now`. -/
def Condition.update (now : Int) (e c : Condition T) : Condition T :=
  { c with
    lastTransitionTime :=
      if e.status = c.status then e.lastTransitionTime
      else some (c.lastTransitionTime.getD now) }

/-- `meta.SetStatusCondition`: the first condition of the type of `c` is updated; without one, `c`
is appended. -/
def setStatusCondition (now : Int) : List (Condition T) → Condition T → List (Condition T)
  | [], c => [{ c with lastTransitionTime := some (c.lastTransitionTime.getD now) }]
  | e :: es, c =>
    if e.type = c.type then e.update now c :: es else e :: setStatusCondition now es c

def findStatusCondition (cs : List (Condition T)) (t : T) : Option (Condition T) :=
  cs.find? fun c => c.type = t

/-- `meta.IsStatusConditionPresentAndEqual`. -/
def isStatusCondition (cs : List (Condition T)) (t : T) (status : ConditionStatus) : Bool :=
  match findStatusCondition cs t with
  | some c => c.status = status
  | none => false

def isStatusConditionTrue (cs : List (Condition T)) (t : T) : Bool :=
  isStatusCondition cs t .true

attribute [local simp] setStatusCondition findStatusCondition isStatusCondition

theorem isStatusCondition_setStatusCondition (now : Int) (cs : List (Condition T))
    (c : Condition T) (t : T) (status : ConditionStatus) :
    isStatusCondition (setStatusCondition now cs c) t status =
      if c.type = t then decide (c.status = status) else isStatusCondition cs t status := by
  induction cs with
  | nil =>
    by_cases h : c.type = t <;> simp [h]
  | cons e es ih =>
    by_cases hec : e.type = c.type
    · by_cases h : c.type = t <;> simp [Condition.update, hec, h]
    · by_cases he : e.type = t
      · have h : ¬ c.type = t := fun h => hec (he.trans h.symm)
        rw [setStatusCondition, if_neg hec]
        simp [he, h]
      · simpa [hec, he] using ih

@[simp] theorem isStatusConditionTrue_setStatusCondition (now : Int) (cs : List (Condition T))
    (c : Condition T) (t : T) :
    isStatusConditionTrue (setStatusCondition now cs c) t =
      if c.type = t then decide (c.status = .true) else isStatusConditionTrue cs t :=
  isStatusCondition_setStatusCondition now cs c t .true

/-- The stored form of a list of conditions. -/
def storedConditions (cs : List (Condition T)) : List (Condition T) :=
  cs.map fun c => { c with lastTransitionTime := c.lastTransitionTime.map truncateSecond }

@[simp] theorem isStatusCondition_storedConditions (cs : List (Condition T)) (t : T)
    (status : ConditionStatus) :
    isStatusCondition (storedConditions cs) t status = isStatusCondition cs t status := by
  induction cs with
  | nil => rfl
  | cons e es ih =>
    by_cases he : e.type = t
    · simp [storedConditions, he]
    · simpa [storedConditions, he] using ih

@[simp] theorem isStatusConditionTrue_storedConditions (cs : List (Condition T)) (t : T) :
    isStatusConditionTrue (storedConditions cs) t = isStatusConditionTrue cs t :=
  isStatusCondition_storedConditions cs t .true

end Conditions

/-- The labels of an object: a `map[string]string` as its pairs. -/
abbrev Labels := List (String × String)

/-- `labels[k] = v`. -/
def Labels.set (ls : Labels) (k v : String) : Labels := (k, v) :: ls.filter fun p => p.1 ≠ k

/-- `_, ok := labels[k]`. -/
def Labels.has (ls : Labels) (k : String) : Bool := ls.any fun p => p.1 = k

variable (ls : Labels) (k : String)

theorem Labels.has_set (v k' : String) : (ls.set k v).has k' = (decide (k = k') || ls.has k') := by
  by_cases h : k = k'
  · simp [Labels.set, Labels.has, h]
  · have hne : k' ≠ k := fun he => h he.symm
    simp only [Labels.set, Labels.has, List.any_cons, h, decide_false, Bool.false_or, List.any_filter]
    congr 1
    funext p
    by_cases hp : p.1 = k'
    · simp [hp, hne]
    · simp [hp]

theorem Labels.has_eq_isSome : ls.has k = (ls.lookup k).isSome := by
  induction ls with
  | nil => rfl
  | cons p ps ih =>
    obtain ⟨key, v⟩ := p
    by_cases h : key = k
    · simp [Labels.has, h]
    · have hne : (k == key) = false := by simpa using fun he => h he.symm
      simpa [Labels.has, List.lookup_cons, h, hne] using ih

@[simp] theorem Labels.lookup_set_self (v : String) : (ls.set k v).lookup k = some v := by
  simp [Labels.set]

structure ObjectKey where
  ns : String
  name : String
  deriving DecidableEq, Inhabited

end Jumpstarter
