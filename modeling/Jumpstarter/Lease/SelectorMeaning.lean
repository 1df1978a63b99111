import Mathlib
import Jumpstarter.Lease.Client

/-!
# The meaning of a selector that `ParseLabelSelector` converts

`ParseLabelSelector` regroups the requirements of `labels.Parse` into a map of labels, a list of
expressions and one `NotIn` for each key with a `!=`. `ParsedRequirement.matchesSet` is
`Requirement.Matches` for the requirements before that, and `K8s.Documented` is what is assumed of
the library.

* `Collected`: what the loop has collected means what the requirements so far mean, its labels are
  their equality values, and `NewRequirement` accepts all of it.
* `addRequirement_collected`: one iteration keeps that, for an operator other than `==`, unless the
  requirement has another equality value for a key.
* `asSelector_collected`: `LabelSelectorAsSelector` accepts what was collected and keeps its meaning.
* `parseLabelSelector_preserves_iff`: `==` has no case in the loop. A selector without it keeps its
  meaning or is rejected for two equality values of one key.
-/

namespace Jumpstarter

open Lib List

/-! ## The requirements of `labels.Parse` -/

/-- `strconv.ParseInt(s, 10, 64)`. -/
def parseInt64 (s : String) : Option Int :=
  let (negative, digits) :=
    match s.toList with
    | '-' :: rest => (true, rest)
    | '+' :: rest => (false, rest)
    | rest => (false, rest)
  if digits.isEmpty || digits.any (!·.isDigit) then none
  else
    let n : Int := digits.foldl (fun n c => 10 * n + (c.toNat - '0'.toNat : Nat)) 0
    let v := if negative then -n else n
    if -2 ^ 63 ≤ v ∧ v < 2 ^ 63 then some v else none

/-- The comparison of `gt` and `lt`: both sides are integers and there is one value. -/
def comparesInt (less : Int → Int → Bool) (values : List String) (v : String) : Bool :=
  match values with
  | [bound] =>
    match parseInt64 v, parseInt64 bound with
    | some a, some b => less b a
    | _, _ => false
  | _ => false

/-- `Requirement.Matches`, for every operator of `selection.Operator`. -/
def ParsedRequirement.matchesSet (r : ParsedRequirement) (ls : Labels) : Bool :=
  match r.operator, ls.lookup r.key with
  | .equals, some v | .doubleEquals, some v | .isIn, some v => r.values.contains v
  | .equals, none | .doubleEquals, none | .isIn, none => false
  | .notEquals, some v | .notIn, some v => !r.values.contains v
  | .notEquals, none | .notIn, none => true
  | .exists, v => v.isSome
  | .doesNotExist, v => v.isNone
  | .greaterThan, some v => comparesInt (· < ·) r.values v
  | .lessThan, some v => comparesInt (· > ·) r.values v
  | .greaterThan, none | .lessThan, none => false

/-- `Selector.Matches`, for the requirements of `labels.Parse`. -/
def parsedMatches (rs : List ParsedRequirement) (ls : Labels) : Bool := rs.all (·.matchesSet ls)

/-- `=` or `==`. -/
def ParsedRequirement.IsEquality (r : ParsedRequirement) : Prop :=
  r.operator = .equals ∨ r.operator = .doubleEquals

/-- Two equality requirements ask for different values of one key. -/
def Conflicting (rs : List ParsedRequirement) : Prop :=
  ∃ r₁ ∈ rs, ∃ r₂ ∈ rs, r₁.IsEquality ∧ r₂.IsEquality ∧ r₁.key = r₂.key ∧ r₁.values ≠ r₂.values

/-- The operator of a requirement that `LabelSelectorAsSelector` makes. -/
def Operator.selection : Operator → SelectionOperator
  | .equals => .equals
  | .isIn => .isIn
  | .notIn => .notIn
  | .exists => .exists
  | .doesNotExist => .doesNotExist

/-- The values that `NewRequirement` allows for an operator. -/
@[simp] def SelectionOperator.allows (op : SelectionOperator) (values : List String) : Bool :=
  match op with
  | .isIn | .notIn => !values.isEmpty
  | .equals | .doubleEquals | .notEquals => values.length = 1
  | .exists | .doesNotExist => values.isEmpty
  | .greaterThan | .lessThan => values.length = 1 && values.all fun v => (parseInt64 v).isSome

/-- `NewRequirement` accepts the key, the operator and the values. -/
structure K8s.Accepts (k : K8s) (key : String) (op : SelectionOperator) (values : List String) :
    Prop where
  key : k.isQualifiedName key = []
  allows : op.allows values = true
  values : ∀ v ∈ values, k.isValidLabelValue v = []

structure K8s.Documented (k : K8s) : Prop where
  requirement : ∀ r : Requirement, k.requirementError r = none ↔ k.Accepts r.key r.operator.selection r.values
  parse : ∀ s rs, k.parse s = .ok (some rs) → ∀ r ∈ rs, k.Accepts r.key r.operator r.values

theorem K8s.Documented.newRequirement_ok {k : K8s} (hk : k.Documented) {key : String}
    {op : Operator} {values : List String} (h : k.Accepts key op.selection values) :
    newRequirement k key op values = .ok ⟨key, op, values⟩ := by
  have hnone := (hk.requirement ⟨key, op, values⟩).mpr h
  simp only [newRequirement, hnone]

theorem K8s.Accepts.single {k : K8s} {key : String} {op : SelectionOperator} {values : List String}
    (h : k.Accepts key op values)
    (hop : op = .equals ∨ op = .doubleEquals ∨ op = .notEquals) : ∃ v, values = [v] := by
  have hlen : values.length = 1 := by
    have hall := h.allows
    rcases hop with rfl | rfl | rfl <;> simpa using hall
  exact length_eq_one_iff.mp hlen

variable {ls : Labels} {p : String × String}

theorem Labels.mem_set {k v : String} : p ∈ ls.set k v ↔ p = (k, v) ∨ p ∈ ls ∧ p.1 ≠ k := by
  simp [Labels.set]

theorem Labels.mem_of_lookup {k v : String} (h : ls.lookup k = some v) : (k, v) ∈ ls := by
  obtain ⟨before, after, rfl, -⟩ := lookup_eq_some_iff.mp h
  simp

theorem Labels.ne_of_lookup_none {k : String} (h : ls.lookup k = none) (hp : p ∈ ls) : p.1 ≠ k := by
  intro he
  have := lookup_eq_none_iff.mp h p hp
  simp [he] at this

namespace ClientService

/-! ## What the loop has collected -/

/-- The label set has what a match expression asks for. -/
def expressionMatches (e : SelectorRequirement) (ls : Labels) : Bool :=
  match e.operator, ls.lookup e.key with
  | .isIn, some v => e.values.contains v
  | .isIn, none => false
  | .notIn, some v => !e.values.contains v
  | .notIn, none => true
  | .exists, v => v.isSome
  | .doesNotExist, v => v.isNone
  | .other _, _ => false

/-- The operator of `selection` for the operator of an expression. -/
def selectionOf : SelectorOperator → Option Operator
  | .isIn => some .isIn
  | .notIn => some .notIn
  | .exists => some .exists
  | .doesNotExist => some .doesNotExist
  | .other _ => none

structure SelectorParts.Holds (parts : SelectorParts) (ls : Labels) : Prop where
  labels : ∀ p ∈ parts.matchLabels, ls.lookup p.1 = some p.2
  expressions : ∀ e ∈ parts.matchExpressions, expressionMatches e ls = true
  notEquals : ∀ p ∈ parts.notEqualsByKey, ∀ v ∈ p.2, ls.lookup p.1 ≠ some v

/-- Every requirement that `LabelSelectorAsSelector` makes of the parts is accepted. -/
structure SelectorParts.Accepted (k : K8s) (parts : SelectorParts) : Prop where
  labels : ∀ p ∈ parts.matchLabels, k.Accepts p.1 .equals [p.2]
  expressions : ∀ e ∈ parts.matchExpressions,
    ∃ op, selectionOf e.operator = some op ∧ k.Accepts e.key op.selection e.values
  notEquals : ∀ p ∈ parts.notEqualsByKey, k.Accepts p.1 .notIn p.2

/-- The parts are those of the requirements `done`. -/
structure Collected (k : K8s) (done : List ParsedRequirement) (parts : SelectorParts) : Prop where
  holds : ∀ ls, parts.Holds ls ↔ ∀ r ∈ done, r.matchesSet ls = true
  labels : ∀ p, p ∈ parts.matchLabels ↔ ∃ r ∈ done, r.operator = .equals ∧ r.key = p.1 ∧ r.values = [p.2]
  functional : ∀ p ∈ parts.matchLabels, ∀ q ∈ parts.matchLabels, p.1 = q.1 → p.2 = q.2
  accepted : parts.Accepted k

theorem collected_empty (k : K8s) : Collected k [] {} := by
  refine ⟨fun ls => ?_, fun p => ?_, by simp, ?_⟩
  · exact ⟨fun _ r hr => absurd hr not_mem_nil, fun _ => ⟨by simp, by simp, by simp⟩⟩
  · simp
  · exact ⟨by simp, by simp, by simp⟩

theorem forall_mem_snoc {α : Type} {l : List α} {a : α} {P : α → Prop} :
    (∀ b ∈ l ++ [a], P b) ↔ (∀ b ∈ l, P b) ∧ P a := by
  simp [or_imp, forall_and]

/-! ### One kind of part at a time -/

variable {parts : SelectorParts} {e : SelectorRequirement} {ls : Labels}

theorem holds_expression :
    SelectorParts.Holds { parts with matchExpressions := parts.matchExpressions ++ [e] } ls ↔
      parts.Holds ls ∧ expressionMatches e ls = true := by
  constructor
  · intro h
    have hall := forall_mem_snoc.mp h.expressions
    exact ⟨⟨h.labels, hall.1, h.notEquals⟩, hall.2⟩
  · rintro ⟨h, he⟩
    exact ⟨h.labels, forall_mem_snoc.mpr ⟨h.expressions, he⟩, h.notEquals⟩

variable {key v : String}

theorem mem_set_fresh (hsame : ∀ p ∈ ls, p.1 = key → p.2 = v) : p ∈ ls.set key v ↔ p = (key, v) ∨ p ∈ ls := by
  rw [Labels.mem_set]
  by_cases hp : p.1 = key
  · constructor
    · rintro (h | ⟨-, hne⟩)
      · exact .inl h
      · exact absurd hp hne
    · rintro (h | h)
      · exact .inl h
      · exact .inl (Prod.ext hp (hsame p h hp))
  · simp [hp]

theorem holds_label (hsame : ∀ p ∈ parts.matchLabels, p.1 = key → p.2 = v) :
    SelectorParts.Holds { parts with matchLabels := parts.matchLabels.set key v } ls ↔
      parts.Holds ls ∧ ls.lookup key = some v := by
  constructor
  · intro h
    refine ⟨⟨fun p hp => h.labels p ((mem_set_fresh hsame).mpr (.inr hp)), h.expressions, h.notEquals⟩, ?_⟩
    exact h.labels (key, v) ((mem_set_fresh hsame).mpr (.inl rfl))
  · rintro ⟨h, hv⟩
    refine ⟨fun p hp => ?_, h.expressions, h.notEquals⟩
    rcases (mem_set_fresh hsame).mp hp with rfl | hp
    · exact hv
    · exact h.labels p hp

theorem forall_addNotEquals {m : List (String × List String)} {Q : String → String → Prop} :
    (∀ p ∈ addNotEquals m key v, ∀ w ∈ p.2, Q p.1 w) ↔ (∀ p ∈ m, ∀ w ∈ p.2, Q p.1 w) ∧ Q key v := by
  induction m with
  | nil => simp [addNotEquals]
  | cons p m ih =>
    obtain ⟨key', vs⟩ := p
    by_cases hkey : key' = key
    · subst hkey
      by_cases hv : v ∈ vs
      · simp only [addNotEquals, if_true, contains_iff_mem, hv]
        refine ⟨fun h => ⟨h, h (key', vs) mem_cons_self v hv⟩, fun h => h.1⟩
      · simp only [addNotEquals, if_true, contains_iff_mem, hv, if_false, forall_mem_cons, forall_mem_snoc]
        tauto
    · simp only [addNotEquals, hkey, if_false, forall_mem_cons, ih]
      tauto

theorem holds_notEquals :
    SelectorParts.Holds { parts with notEqualsByKey := addNotEquals parts.notEqualsByKey key v } ls ↔
      parts.Holds ls ∧ ls.lookup key ≠ some v := by
  have hadd : (∀ p ∈ addNotEquals parts.notEqualsByKey key v, ∀ w ∈ p.2, ls.lookup p.1 ≠ some w) ↔
      (∀ p ∈ parts.notEqualsByKey, ∀ w ∈ p.2, ls.lookup p.1 ≠ some w) ∧ ls.lookup key ≠ some v :=
    forall_addNotEquals (Q := fun key w => ls.lookup key ≠ some w)
  constructor
  · intro h
    have hall := hadd.mp h.notEquals
    exact ⟨⟨h.labels, h.expressions, hall.1⟩, hall.2⟩
  · rintro ⟨h, hv⟩
    exact ⟨h.labels, h.expressions, hadd.mpr ⟨h.notEquals, hv⟩⟩

theorem accepts_addNotEquals {k : K8s} {m : List (String × List String)}
    (hm : ∀ p ∈ m, k.Accepts p.1 .notIn p.2) (hv : k.Accepts key .notEquals [v]) :
    ∀ p ∈ addNotEquals m key v, k.Accepts p.1 .notIn p.2 := by
  have hone : k.isValidLabelValue v = [] := hv.values v mem_cons_self
  induction m with
  | nil =>
    intro p hp
    rw [addNotEquals, mem_singleton] at hp
    subst hp
    exact ⟨hv.key, by simp, by simpa using hone⟩
  | cons p m ih =>
    obtain ⟨key', vs⟩ := p
    obtain ⟨hhead, htail⟩ := forall_mem_cons.mp hm
    by_cases hkey : key' = key
    · subst hkey
      simp only [addNotEquals, if_true]
      refine forall_mem_cons.mpr ⟨?_, htail⟩
      by_cases hmem : vs.contains v
      · simpa only [hmem, if_true] using hhead
      · simp only [hmem]
        exact ⟨hhead.key, by simp, forall_mem_snoc.mpr ⟨hhead.values, hone⟩⟩
    · simp only [addNotEquals, hkey, if_false]
      exact forall_mem_cons.mpr ⟨hhead, ih htail⟩

/-! ### One iteration -/

inductive Added (parts : SelectorParts) (r : ParsedRequirement) : SelectorParts → Prop
  | label (v : String) (hop : r.operator = .equals) (hv : r.values = [v])
      (hsame : ∀ w, parts.matchLabels.lookup r.key = some w → w = v) :
      Added parts r { parts with matchLabels := parts.matchLabels.set r.key v }
  | notEquals (v : String) (hop : r.operator = .notEquals) (hv : r.values = [v]) :
      Added parts r { parts with notEqualsByKey := addNotEquals parts.notEqualsByKey r.key v }
  | expression (op : SelectorOperator) (o : Operator) (hsel : selectionOf op = some o)
      (hop : r.operator = o.selection) (hne : o ≠ .equals) :
      Added parts r
        { parts with matchExpressions := parts.matchExpressions ++ [⟨r.key, op, r.values⟩] }

variable {parts' : SelectorParts} {r : ParsedRequirement}

theorem addRequirement_added {k : K8s} (hr : k.Accepts r.key r.operator r.values)
    (h : addRequirement parts r = .ok parts') : Added parts r parts' := by
  obtain ⟨key, operator, values⟩ := r
  cases operator with
  | equals =>
    obtain ⟨v, rfl⟩ := hr.single (.inl rfl)
    cases hl : parts.matchLabels.lookup key with
    | none =>
      simp only [addRequirement, hl] at h
      cases h
      exact .label v rfl rfl (by simp [hl])
    | some existing =>
      by_cases hv : existing = v
      · simp only [addRequirement, hl, hv, ne_eq, not_true, if_false] at h
        cases h
        exact .label v rfl rfl (by simp [hl, hv])
      · simp [addRequirement, hl, hv] at h
  | notEquals =>
    obtain ⟨v, rfl⟩ := hr.single (.inr (.inr rfl))
    cases h
    exact .notEquals v rfl rfl
  | isIn =>
    cases h
    exact .expression .isIn .isIn rfl rfl (by decide)
  | notIn =>
    cases h
    exact .expression .notIn .notIn rfl rfl (by decide)
  | «exists» =>
    have hnil : values = [] := by simpa using hr.allows
    subst hnil
    cases h
    exact .expression .exists .exists rfl rfl (by decide)
  | doesNotExist =>
    have hnil : values = [] := by simpa using hr.allows
    subst hnil
    cases h
    exact .expression .doesNotExist .doesNotExist rfl rfl (by decide)
  | doubleEquals | greaterThan | lessThan => cases h

theorem Added.supported (h : Added parts r parts') : r.operator ≠ .doubleEquals := by
  cases h with
  | label v hop => simp [hop]
  | notEquals v hop => simp [hop]
  | expression op o hsel hop hne =>
    rw [hop]
    cases o <;> decide

theorem addRequirement_rejects {k : K8s} {err : String} (hr : k.Accepts r.key r.operator r.values)
    (h : addRequirement parts r = .error err) :
    (r.operator = .doubleEquals ∨ r.operator = .greaterThan ∨ r.operator = .lessThan) ∨
      ∃ v w, r.operator = .equals ∧ r.values = [v] ∧ (r.key, w) ∈ parts.matchLabels ∧ w ≠ v := by
  obtain ⟨key, operator, values⟩ := r
  cases operator with
  | equals =>
    obtain ⟨v, rfl⟩ := hr.single (.inl rfl)
    cases hl : parts.matchLabels.lookup key with
    | none =>
      simp only [addRequirement, hl] at h
      cases h
    | some existing =>
      by_cases hv : existing = v
      · simp [addRequirement, hl, hv] at h
      · exact .inr ⟨v, existing, rfl, rfl, Labels.mem_of_lookup hl, hv⟩
  | notEquals =>
    obtain ⟨v, rfl⟩ := hr.single (.inr (.inr rfl))
    cases h
  | isIn | notIn | «exists» | doesNotExist => cases h
  | doubleEquals | greaterThan | lessThan => simp

/-! ### The meaning of one requirement -/

theorem matchesSet_equals (hop : r.operator = .equals) (hv : r.values = [v]) (ls : Labels) :
    r.matchesSet ls = true ↔ ls.lookup r.key = some v := by
  unfold ParsedRequirement.matchesSet
  cases hl : ls.lookup r.key with
  | none => simp [hop]
  | some w => simp [hop, hv]

theorem matchesSet_notEquals (hop : r.operator = .notEquals) (hv : r.values = [v]) (ls : Labels) :
    r.matchesSet ls = true ↔ ls.lookup r.key ≠ some v := by
  unfold ParsedRequirement.matchesSet
  cases hl : ls.lookup r.key with
  | none => simp [hop]
  | some w => simp [hop, hv]

variable {o : Operator}

theorem matchesSet_expression {op : SelectorOperator} (hsel : selectionOf op = some o)
    (hop : r.operator = o.selection) (hne : o ≠ .equals) (ls : Labels) :
    r.matchesSet ls = expressionMatches ⟨r.key, op, r.values⟩ ls := by
  unfold ParsedRequirement.matchesSet expressionMatches
  cases op with
  | isIn | notIn | «exists» | doesNotExist =>
    cases hsel
    rw [hop]
    cases ls.lookup r.key <;> rfl
  | other text => cases hsel

theorem addRequirement_collected {k : K8s} {done : List ParsedRequirement} (hc : Collected k done parts)
    (hr : k.Accepts r.key r.operator r.values) (h : addRequirement parts r = .ok parts') :
    Collected k (done ++ [r]) parts' := by
  have hmem : ∀ {Q : ParsedRequirement → Prop}, (∃ q ∈ done ++ [r], Q q) ↔ (∃ q ∈ done, Q q) ∨ Q r := by
    simp [or_and_right, exists_or]
  cases addRequirement_added hr h with
  | label v hop hv hsame =>
    have hsame' : ∀ p ∈ parts.matchLabels, p.1 = r.key → p.2 = v := by
      intro p hp hkey
      cases hl : parts.matchLabels.lookup r.key with
      | none => exact absurd hkey (Labels.ne_of_lookup_none hl hp)
      | some w =>
        rw [← hsame w hl]
        exact hc.functional p hp (r.key, w) (Labels.mem_of_lookup hl) hkey
    refine ⟨fun ls => ?_, fun p => ?_, ?_, ?_, hc.accepted.expressions, hc.accepted.notEquals⟩
    · rw [holds_label hsame', forall_mem_snoc, hc.holds, matchesSet_equals hop hv]
    · rw [mem_set_fresh hsame', hmem, ← hc.labels, or_comm]
      refine or_congr_right ⟨fun hp => ?_, fun ⟨_, hkey, hval⟩ => ?_⟩
      · subst hp
        exact ⟨hop, rfl, hv⟩
      · rw [hv, singleton_inj] at hval
        exact Prod.ext hkey.symm hval.symm
    · intro p hp q hq hkey
      rcases (mem_set_fresh hsame').mp hp with rfl | hp
      · rcases (mem_set_fresh hsame').mp hq with rfl | hq
        · rfl
        · exact (hsame' q hq hkey.symm).symm
      · rcases (mem_set_fresh hsame').mp hq with rfl | hq
        · exact hsame' p hp hkey
        · exact hc.functional p hp q hq hkey
    · intro p hp
      rcases (mem_set_fresh hsame').mp hp with rfl | hp
      · rw [hop, hv] at hr
        exact hr
      · exact hc.accepted.labels p hp
  | notEquals v hop hv =>
    refine ⟨fun ls => ?_, fun p => ?_, hc.functional, hc.accepted.labels, hc.accepted.expressions, ?_⟩
    · rw [holds_notEquals, forall_mem_snoc, hc.holds, matchesSet_notEquals hop hv]
    · rw [hmem, ← hc.labels]
      simp [hop]
    · rw [hop, hv] at hr
      exact accepts_addNotEquals hc.accepted.notEquals hr
  | expression op o hsel hop hne =>
    refine ⟨fun ls => ?_, fun p => ?_, hc.functional, hc.accepted.labels, ?_, hc.accepted.notEquals⟩
    · rw [holds_expression, forall_mem_snoc, hc.holds, matchesSet_expression hsel hop hne]
    · rw [hmem, ← hc.labels]
      have hequals : r.operator ≠ .equals := by
        rw [hop]
        cases o <;> first | decide | exact absurd rfl hne
      simp [hequals]
    · refine forall_mem_snoc.mpr ⟨hc.accepted.expressions, o, hsel, ?_⟩
      rw [← hop]
      exact hr

/-! ## The selector -/

/-- The selector that `ParseLabelSelector` returns for the parts. -/
def SelectorParts.selector (parts : SelectorParts) : LabelSelector :=
  ⟨parts.matchLabels, parts.matchExpressions ++ parts.notEqualsByKey.map fun p => ⟨p.1, .notIn, p.2⟩⟩

def requirementOf (e : SelectorRequirement) : Requirement :=
  ⟨e.key, (selectionOf e.operator).getD .equals, e.values⟩

theorem toRequirement_ok {k : K8s} (hk : k.Documented) (hsel : selectionOf e.operator = some o)
    (he : k.Accepts e.key o.selection e.values) : e.toRequirement k = .ok (requirementOf e) := by
  obtain ⟨key, op, values⟩ := e
  cases op with
  | isIn | notIn | «exists» | doesNotExist =>
    cases hsel
    exact hk.newRequirement_ok he
  | other text => cases hsel

theorem requirementOf_matches (hsel : selectionOf e.operator = some o) (ls : Labels) :
    (requirementOf e).matchesSet ls = expressionMatches e ls := by
  obtain ⟨key, op, values⟩ := e
  unfold requirementOf Requirement.matchesSet expressionMatches
  cases op with
  | isIn | notIn =>
    cases ls.lookup key <;> rfl
  | «exists» | doesNotExist => simp [selectionOf]
  | other text => cases hsel

theorem expressions_accepted {k : K8s} (ha : parts.Accepted k) :
    ∀ e ∈ parts.selector.matchExpressions,
      ∃ o, selectionOf e.operator = some o ∧ k.Accepts e.key o.selection e.values := by
  intro e he
  rcases mem_append.mp he with he | he
  · exact ha.expressions e he
  · obtain ⟨p, hp, rfl⟩ := mem_map.mp he
    exact ⟨.notIn, rfl, ha.notEquals p hp⟩

theorem equals_matches (p : String × String) (ls : Labels) :
    Requirement.matchesSet ⟨p.1, .equals, [p.2]⟩ ls = true ↔ ls.lookup p.1 = some p.2 := by
  unfold Requirement.matchesSet
  cases ls.lookup p.1 with
  | none => simp
  | some v => simp

theorem expressions_holds :
    (∀ e ∈ parts.selector.matchExpressions, expressionMatches e ls = true) ↔
      (∀ e ∈ parts.matchExpressions, expressionMatches e ls = true) ∧
      ∀ p ∈ parts.notEqualsByKey, ∀ v ∈ p.2, ls.lookup p.1 ≠ some v := by
  have hnot : ∀ p : String × List String,
      expressionMatches ⟨p.1, .notIn, p.2⟩ ls = true ↔ ∀ v ∈ p.2, ls.lookup p.1 ≠ some v := by
    intro p
    unfold expressionMatches
    cases ls.lookup p.1 with
    | none => simp
    | some w =>
      simp only [Bool.not_eq_true', contains_eq_mem, decide_eq_false_iff_not, ne_eq, Option.some.injEq]
      exact ⟨fun h v hv he => h (he ▸ hv), fun h hw => h w hw rfl⟩
  simp only [SelectorParts.selector, forall_mem_append, forall_mem_map, hnot]

/-- The requirements that `LabelSelectorAsSelector` makes of the selector. -/
def SelectorParts.requirements (parts : SelectorParts) : List Requirement :=
  (parts.matchLabels.map fun p => ⟨p.1, .equals, [p.2]⟩) ++ parts.selector.matchExpressions.map requirementOf

theorem asSelector_accepted {k : K8s} (hk : k.Documented) (ha : parts.Accepted k) :
    labelSelectorAsSelector k parts.selector = .ok parts.requirements := by
  have hlabels : parts.selector.matchLabels.mapM (fun p => newRequirement k p.1 .equals [p.2]) =
      .ok (parts.matchLabels.map fun p => ⟨p.1, .equals, [p.2]⟩) :=
    mapM_ok fun p hp => hk.newRequirement_ok (ha.labels p hp)
  have hexprs : parts.selector.matchExpressions.mapM (·.toRequirement k) =
      .ok (parts.selector.matchExpressions.map requirementOf) := by
    refine mapM_ok fun e he => ?_
    obtain ⟨o, hsel, hacc⟩ := expressions_accepted ha e he
    exact toRequirement_ok hk hsel hacc
  unfold labelSelectorAsSelector
  rw [hlabels, hexprs]
  rfl

theorem requirements_matches {k : K8s} (ha : parts.Accepted k) (ls : Labels) :
    selectorMatches parts.requirements ls = true ↔ parts.Holds ls := by
  have hreq : (∀ e ∈ parts.selector.matchExpressions,
      (requirementOf e).matchesSet ls = true) ↔
      ∀ e ∈ parts.selector.matchExpressions, expressionMatches e ls = true := by
    refine forall₂_congr fun e he => ?_
    obtain ⟨o, hsel, -⟩ := expressions_accepted ha e he
    rw [requirementOf_matches hsel]
  rw [selectorMatches, SelectorParts.requirements, all_eq_true, forall_mem_append,
    forall_mem_map, forall_mem_map, hreq, expressions_holds]
  simp only [equals_matches]
  exact ⟨fun ⟨hl, he, hn⟩ => ⟨hl, he, hn⟩, fun h => ⟨h.labels, h.expressions, h.notEquals⟩⟩

theorem asSelector_collected {k : K8s} (hk : k.Documented) (ha : parts.Accepted k) :
    ∃ reqs, labelSelectorAsSelector k parts.selector = .ok reqs ∧
      ∀ ls, selectorMatches reqs ls = true ↔ parts.Holds ls :=
  ⟨_, asSelector_accepted hk ha, requirements_matches ha⟩

/-! ## The whole loop -/

section Loop

variable {k : K8s} {rs : List ParsedRequirement}

theorem foldlM_collected (hrs : ∀ r ∈ rs, k.Accepts r.key r.operator r.values) :
    (∀ parts, rs.foldlM addRequirement {} = .ok parts →
      Collected k rs parts ∧ ∀ r ∈ rs, r.operator ≠ .doubleEquals) ∧
    (∀ err, rs.foldlM addRequirement {} = .error err →
      ∃ done r parts, done ++ [r] <+: rs ∧ Collected k done parts ∧
        addRequirement parts r = .error err) := by
  have hloop := foldlM_done (d := []) (l := rs) (f := addRequirement) (b := {})
    (P := fun done parts => Collected k done parts ∧ ∀ r ∈ done, r.operator ≠ .doubleEquals)
    (fun done r parts parts' hpre hc h => by
      have hr := hrs r (hpre.subset (by simp))
      exact ⟨addRequirement_collected hc.1 hr h,
        forall_mem_snoc.mpr ⟨hc.2, (addRequirement_added hr h).supported⟩⟩)
    ⟨collected_empty k, by simp⟩
  refine ⟨hloop.1, fun err h => ?_⟩
  obtain ⟨done, r, parts, hpre, hc, herr⟩ := hloop.2 err h
  exact ⟨done, r, parts, hpre, hc.1, herr⟩

theorem foldlM_rejects (hrs : ∀ r ∈ rs, k.Accepts r.key r.operator r.values)
    (hop : ∀ r ∈ rs, r.operator ≠ .greaterThan ∧ r.operator ≠ .lessThan) {err : String}
    (h : rs.foldlM addRequirement {} = .error err) :
    (∃ r ∈ rs, r.operator = .doubleEquals) ∨ Conflicting rs := by
  obtain ⟨done, r, parts, hpre, hc, herr⟩ := (foldlM_collected hrs).2 err h
  have hmem : r ∈ rs := hpre.subset (by simp)
  rcases addRequirement_rejects (hrs r hmem) herr with (hd | hg | hl) | ⟨v, w, heq, hv, hw, hne⟩
  · exact .inl ⟨r, hmem, hd⟩
  · exact absurd hg (hop r hmem).1
  · exact absurd hl (hop r hmem).2
  · obtain ⟨q, hq, hqop, hqkey, hqv⟩ := (hc.labels (r.key, w)).mp hw
    refine .inr ⟨q, hpre.subset (by simp [hq]), r, hmem, .inl hqop, .inl heq, hqkey, ?_⟩
    rw [hqv, hv]
    simpa using hne

end Loop

/-! ## `ParseLabelSelector` -/

/-- The selector means what the requirements of the text mean, or it was rejected and they ask for
two values of one key. -/
def MeaningPreserved (k : K8s) (s : String) (rs : List ParsedRequirement) : Prop :=
  (∃ sel reqs, parseLabelSelector k s = .ok sel ∧ labelSelectorAsSelector k sel = .ok reqs ∧
    ∀ ls, selectorMatches reqs ls = parsedMatches rs ls) ∨
  ((∃ err, parseLabelSelector k s = .error err) ∧ Conflicting rs)

/-- `ParseLabelSelector` keeps the meaning of a text exactly if no requirement of it is written with
`==`, or two of them ask for different values of one key. -/
theorem parseLabelSelector_preserves_iff {k : K8s} (hk : k.Documented) {s : String}
    {rs : List ParsedRequirement} (hs : k.parse s = .ok (some rs))
    (hop : ∀ r ∈ rs, r.operator ≠ .greaterThan ∧ r.operator ≠ .lessThan) :
    MeaningPreserved k s rs ↔ (∀ r ∈ rs, r.operator ≠ .doubleEquals) ∨ Conflicting rs := by
  have hrs := hk.parse s rs hs
  cases hloop : rs.foldlM addRequirement {} with
  | error err =>
    have hparse : parseLabelSelector k s = .error err := by
      simp only [parseLabelSelector, hs, hloop]
    refine ⟨fun h => ?_, fun h => .inr ⟨⟨err, hparse⟩, ?_⟩⟩
    · rcases h with ⟨sel, reqs, hsel, -⟩ | ⟨-, hconf⟩
      · rw [hparse] at hsel
        cases hsel
      · exact .inr hconf
    · rcases h with hnone | hconf
      · rcases foldlM_rejects hrs hop hloop with ⟨r, hr, hd⟩ | hconf
        · exact absurd hd (hnone r hr)
        · exact hconf
      · exact hconf
  | ok parts =>
    obtain ⟨hc, hdouble⟩ := (foldlM_collected hrs).1 parts hloop
    have hparse : parseLabelSelector k s = .ok parts.selector := by
      simp only [parseLabelSelector, hs, hloop, SelectorParts.selector]
    obtain ⟨reqs, hreqs, hmeans⟩ := asSelector_collected hk hc.accepted
    refine ⟨fun _ => .inl hdouble, fun _ => .inl ⟨_, reqs, hparse, hreqs, fun ls => ?_⟩⟩
    rw [Bool.eq_iff_iff, hmeans, hc.holds, parsedMatches, all_eq_true]

/-! ### A library that reads two texts -/

/-- The requirements of the texts that `sampleK8s` reads. -/
def sampleRequirements : String → Option (List ParsedRequirement)
  | "board==rcar" => some [⟨"board", .doubleEquals, ["rcar"]⟩]
  | "board=rcar,rev!=v3,rev!=" =>
    some [⟨"board", .equals, ["rcar"]⟩, ⟨"rev", .notEquals, ["v3"]⟩, ⟨"rev", .notEquals, [""]⟩]
  | _ => none

/-- A library that accepts every key and value and checks the number of values. -/
def sampleK8s : K8s where
  requirementError r := if r.operator.selection.allows r.values then none else some "values"
  formatLabelSelector _ := ""
  parse s :=
    match sampleRequirements s with
    | some rs => .ok (some rs)
    | none => .error "unable to parse requirement"
  isQualifiedName _ := []
  isValidLabelValue _ := []
  notFound _ _ := "not found"
  quote s := "\"" ++ s ++ "\""

theorem sampleK8s_documented : sampleK8s.Documented := by
  refine ⟨fun r => ?_, fun s rs h r hr => ?_⟩
  · by_cases hr : r.operator.selection.allows r.values = true
    · simp only [sampleK8s, hr, if_true, true_iff]
      exact ⟨rfl, hr, fun _ _ => rfl⟩
    · simp only [sampleK8s, hr]
      exact ⟨fun h => (nomatch h), fun h => absurd h.allows hr⟩
  · have hall : ∀ q ∈ rs, q.operator.allows q.values = true := by
      simp only [sampleK8s, sampleRequirements] at h
      split at h
      · rename_i hmatch
        cases h
        split at hmatch
        · cases hmatch
          decide
        · cases hmatch
          decide
        · cases hmatch
      · cases h
    exact ⟨rfl, hall r hr, fun _ _ => rfl⟩

/-- `==` is rejected although there is one requirement. -/
theorem parseLabelSelector_doubleEquals_rejected :
    sampleK8s.Documented ∧
      sampleK8s.parse "board==rcar" = .ok (some [⟨"board", .doubleEquals, ["rcar"]⟩]) ∧
      parseLabelSelector sampleK8s "board==rcar" =
        .error "unsupported label selector operator: ==" ∧
      ¬ MeaningPreserved sampleK8s "board==rcar" [⟨"board", .doubleEquals, ["rcar"]⟩] := by
  have hparse : parseLabelSelector sampleK8s "board==rcar" =
      .error "unsupported label selector operator: ==" := rfl
  refine ⟨sampleK8s_documented, rfl, hparse, ?_⟩
  rintro (⟨sel, reqs, hsel, -⟩ | ⟨-, r₁, h₁, r₂, h₂, -, -, -, hne⟩)
  · cases hsel
  · rw [mem_singleton] at h₁ h₂
    exact hne (by rw [h₁, h₂])

theorem parseLabelSelector_preserves_sample :
    MeaningPreserved sampleK8s "board=rcar,rev!=v3,rev!="
      [⟨"board", .equals, ["rcar"]⟩, ⟨"rev", .notEquals, ["v3"]⟩, ⟨"rev", .notEquals, [""]⟩] :=
  (parseLabelSelector_preserves_iff sampleK8s_documented rfl (by decide)).mpr (.inl (by decide))

end ClientService
end Jumpstarter
