import Jumpstarter.Client.SelectorGrammar
import Jumpstarter.Lib.Slice

/-!
# Requirements that the Python client drops

`Represents` says that `parse_label_selector` keeps every requirement, and `Passes s f` is what
`selector_contains(s, f)` stands for: every equality requirement of `f` is one of `s`, and every other one
is one of `s` or true of the labels that `s` asks for.

* `represents_iff`: every requirement is kept exactly if each one is spelled plainly at least once and
  no key has two equality values (`Readable`).
* `passes_of_selectorContains`: of readable selectors, `selector_contains` is right to answer `True`.
* `neverDrops_iff`: so are the leases that `jmp delete leases --selector` deletes, and for other
  selectors a requirement is dropped.
-/

namespace Jumpstarter.Selectors

open Lib List Dict

def SameValues (a b : List String) : Prop := ∀ v, v ∈ a ↔ v ∈ b

theorem sameSet_iff {a b : List String} : sameSet a b = true ↔ SameValues a b := by
  simp only [sameSet, Bool.and_eq_true, all_eq_true, contains_iff_mem, SameValues]
  exact ⟨fun h v => ⟨h.1 v, h.2 v⟩, fun h => ⟨fun v => (h v).mp, fun v => (h v).mpr⟩⟩

/-- Two requirements say the same: they differ at most in the order of their values. -/
def Same : Item → Item → Prop
  | .label key value, .label key' value' => key = key' ∧ value = value'
  | .expression key op values, .expression key' op' values' =>
    key = key' ∧ op = op' ∧ SameValues values values'
  | _, _ => False

/-- The pair of `parse_label_selector` has the requirement. -/
def Parsed.Has (p : Parsed) : Item → Prop
  | .label key value => Dict.get p.labels key = some value
  | .expression key op values => ∃ values', (key, op, values') ∈ p.expressions ∧ SameValues values' values

/-- `parse_label_selector` represents every requirement of the selector. -/
def Represents (s : Selector) : Prop :=
  ∀ item ∈ s.requirements, (parseLabelSelector (String.ofList s.text)).Has item

/-- An expression is true of the labels that the equality requirements of a selector give. -/
def TrueOf (items : List Item) (key : String) (op : Op) (values : List String) : Prop :=
  match op with
  | .isIn => ∃ v ∈ values, Item.label key v ∈ items
  | .notIn | .notEquals => ∀ v ∈ values, Item.label key v ∉ items
  | .exists => ∃ v, Item.label key v ∈ items
  | .notExists => ∀ v, Item.label key v ∉ items
  | .other _ => False

/-- The requirement of `f` is one of `s`, or true of its labels. -/
def Satisfied (items : List Item) : Item → Prop
  | .label key value => Item.label key value ∈ items
  | .expression key op values =>
    (∃ values', Item.expression key op values' ∈ items ∧ SameValues values' values) ∨ TrueOf items key op values

/-- What `selector_contains(s, f)` stands for. -/
def Passes (s f : Selector) : Prop := ∀ item ∈ f.requirements, Satisfied s.requirements item

def OneValue (items : List Item) : Prop :=
  ∀ key v v', Item.label key v ∈ items → Item.label key v' ∈ items → v = v'

/-- Each requirement is spelled plainly at least once, and no key has two equality values. -/
structure Readable (s : Selector) : Prop where
  plain : ∀ b ∈ s.bodies, ∃ b' ∈ s.bodies, b'.plain = true ∧ Same b'.requirement b.requirement
  oneValue : OneValue s.requirements

/-! ## What is collected -/

variable {items : List Item} {key v : String}

theorem get_collect {p : Parsed} (h : get (items.foldl Parsed.add p).labels key = some v) :
    Item.label key v ∈ items ∨ get p.labels key = some v := by
  induction items generalizing p with
  | nil => exact .inr h
  | cons item items ih =>
    rcases ih h with hmem | hget
    · exact .inl (mem_cons_of_mem _ hmem)
    · cases item with
      | label key' v' =>
        rw [Parsed.add, get_set] at hget
        split at hget
        · rename_i hkey
          cases hget
          rw [hkey]
          exact .inl mem_cons_self
        · exact .inr hget
      | expression key' op values => exact .inr hget

theorem get_collect_of {p : Parsed} (hone : ∀ v', Item.label key v' ∈ items → v' = v)
    (h : Item.label key v ∈ items ∨ get p.labels key = some v) :
    get (items.foldl Parsed.add p).labels key = some v := by
  induction items generalizing p with
  | nil =>
    rcases h with h | h
    · cases h
    · exact h
  | cons item items ih =>
    refine ih (fun v' hv' => hone v' (mem_cons_of_mem _ hv')) ?_
    cases item with
    | label key' v' =>
      by_cases hkey : key' = key
      · right
        rw [hkey] at hone
        rw [Parsed.add, get_set, if_pos hkey, hone v' mem_cons_self]
      · rcases h with h | h
        · rcases mem_cons.mp h with h | h
          · cases h
            exact absurd rfl hkey
          · exact .inl h
        · right
          rw [Parsed.add, get_set, if_neg hkey, h]
    | expression key' op values =>
      rcases h with h | h
      · exact .inl ((mem_cons.mp h).resolve_left nofun)
      · exact .inr h

theorem expressions_foldl (items : List Item) (p : Parsed) (key : String) (op : Op) (values : List String) :
    (key, op, values) ∈ (items.foldl Parsed.add p).expressions ↔
      Item.expression key op values ∈ items ∨ (key, op, values) ∈ p.expressions := by
  induction items generalizing p with
  | nil => simp
  | cons item items ih =>
    rw [foldl_cons, ih]
    cases item with
    | label key' v' => simp [Parsed.add]
    | expression key' op' values' =>
      simp only [Parsed.add, mem_append, mem_cons, Prod.mk.injEq, Item.expression.injEq]
      tauto

variable {op : Op} {values : List String}

theorem mem_expressions :
    (key, op, values) ∈ (collect items).expressions ↔ Item.expression key op values ∈ items := by
  rw [collect, expressions_foldl]
  simp

/-! ## What is read -/

variable {b : Body}

theorem reading_of_plain (h : b.plain = true) : b.reading = some b.requirement := by
  unfold Body.reading
  rw [if_pos h]

theorem plain_of_label (h : b.requirement = .label key v) : (b.plain = true ↔ v ≠ "") ∧ v ≠ "=" := by
  cases b with
  | equals key' gap double gap' value =>
    cases h
    have hne : value.name ≠ "=" := by
      intro heq
      have hchars : value.chars = ['='] := by simpa [Value.name] using congrArg String.toList heq
      exact absurd (value.valid '=' (by simp [hchars])) (by decide)
    refine ⟨?_, hne⟩
    simp [Body.plain, Value.name]
  | «exists» | notExists | notEquals | set => cases h

theorem reading_label (h : b.reading = some (.label key v)) :
    b.plain = true ∧ b.requirement = .label key v ∨
      v = "=" ∧ ∃ v', b.requirement = .label key v' ∧ b.plain = false := by
  unfold Body.reading at h
  split at h
  · rename_i hplain
    exact .inl ⟨hplain, Option.some.inj h⟩
  · rename_i hplain
    split at h
    · cases h
      exact .inr ⟨rfl, _, rfl, by simpa using hplain⟩
    · cases h

theorem reading_expression (h : b.reading = some (.expression key op values)) :
    b.plain = true ∧ b.requirement = .expression key op values := by
  unfold Body.reading at h
  split at h
  · rename_i hplain
    exact ⟨hplain, Option.some.inj h⟩
  · split at h
    · cases h
    · cases h

section Selector

variable {s : Selector}

theorem mem_requirements {item : Item} : item ∈ s.requirements ↔ ∃ b ∈ s.bodies, b.requirement = item := by
  simp [Selector.requirements]

theorem mem_readings {item : Item} :
    item ∈ s.bodies.filterMap (·.reading) ↔ ∃ b ∈ s.bodies, b.reading = some item := by
  simp

variable {key v : String}

theorem Readable.label_plain (hs : Readable s) {b : Body} (hb : b ∈ s.bodies)
    (h : b.requirement = .label key v) : b.plain = true := by
  obtain ⟨b', -, hplain, hsame⟩ := hs.plain b hb
  rw [h] at hsame
  cases hr : b'.requirement with
  | label key' v' =>
    rw [hr] at hsame
    rw [(plain_of_label h).1, ← hsame.2]
    exact (plain_of_label hr).1.mp hplain
  | expression => rw [hr] at hsame; cases hsame

theorem Readable.label_mem (hs : Readable s) :
    Item.label key v ∈ s.bodies.filterMap (·.reading) ↔ Item.label key v ∈ s.requirements := by
  rw [mem_readings, mem_requirements]
  constructor
  · rintro ⟨b, hb, hread⟩
    rcases reading_label hread with ⟨-, hreq⟩ | ⟨-, v', hreq, hplain⟩
    · exact ⟨b, hb, hreq⟩
    · rw [hs.label_plain hb hreq] at hplain
      cases hplain
  · rintro ⟨b, hb, hreq⟩
    exact ⟨b, hb, by rw [reading_of_plain (hs.label_plain hb hreq), hreq]⟩

theorem Readable.get_iff (hs : Readable s) :
    get (parseLabelSelector (String.ofList s.text)).labels key = some v ↔
      Item.label key v ∈ s.requirements := by
  rw [parseLabelSelector_text, collect, ← hs.label_mem]
  constructor
  · intro h
    rcases get_collect h with hmem | hget
    · exact hmem
    · cases hget
  · intro h
    refine get_collect_of (fun v' hv' => ?_) (.inl h)
    rw [hs.label_mem] at h hv'
    exact hs.oneValue key v' v hv' h

theorem expression_mem {op : Op} {values : List String}
    (h : (key, op, values) ∈ (parseLabelSelector (String.ofList s.text)).expressions) :
    Item.expression key op values ∈ s.requirements := by
  rw [parseLabelSelector_text, mem_expressions, mem_readings] at h
  obtain ⟨b, hb, hread⟩ := h
  exact mem_requirements.mpr ⟨b, hb, (reading_expression hread).2⟩

theorem Readable.represents (hs : Readable s) : Represents s := by
  intro item hitem
  obtain ⟨b, hb, rfl⟩ := mem_requirements.mp hitem
  cases hreq : b.requirement with
  | label key v => exact hs.get_iff.mpr (hreq ▸ hitem)
  | expression key op values =>
    obtain ⟨b', hb', hplain, hsame⟩ := hs.plain b hb
    rw [hreq] at hsame
    cases hreq' : b'.requirement with
    | label => rw [hreq'] at hsame; cases hsame
    | expression key' op' values' =>
      rw [hreq'] at hsame
      obtain ⟨rfl, rfl, hvalues⟩ := hsame
      refine ⟨values', ?_, hvalues⟩
      rw [parseLabelSelector_text, mem_expressions, mem_readings]
      exact ⟨b', hb', by rw [reading_of_plain hplain, hreq']⟩

theorem readable_of_represents (hs : Represents s) : Readable s := by
  constructor
  · intro b hb
    have hhas := hs b.requirement (mem_requirements.mpr ⟨b, hb, rfl⟩)
    cases hreq : b.requirement with
    | label key v =>
      rw [hreq] at hhas
      have hget : get (parseLabelSelector (String.ofList s.text)).labels key = some v := hhas
      rw [parseLabelSelector_text] at hget
      rcases get_collect hget with hmem | hnone
      · obtain ⟨b', hb', hread⟩ := mem_readings.mp hmem
        rcases reading_label hread with ⟨hplain, hreq'⟩ | ⟨hv, -⟩
        · exact ⟨b', hb', hplain, by rw [hreq']; exact ⟨rfl, rfl⟩⟩
        · exact absurd hv (plain_of_label hreq).2
      · cases hnone
    | expression key op values =>
      rw [hreq] at hhas
      obtain ⟨values', hmem, hvalues⟩ := hhas
      rw [parseLabelSelector_text, mem_expressions, mem_readings] at hmem
      obtain ⟨b', hb', hread⟩ := hmem
      obtain ⟨hplain, hreq'⟩ := reading_expression hread
      exact ⟨b', hb', hplain, by rw [hreq']; exact ⟨rfl, rfl, hvalues⟩⟩
  · intro key v v' hv hv'
    have hget : get (parseLabelSelector (String.ofList s.text)).labels key = some v := hs _ hv
    have hget' : get (parseLabelSelector (String.ofList s.text)).labels key = some v' := hs _ hv'
    rw [hget] at hget'
    exact Option.some.inj hget'

theorem represents_iff : Represents s ↔ Readable s :=
  ⟨readable_of_represents, Readable.represents⟩

end Selector

/-! ## `selector_contains` -/

theorem containsExpressions_true {sel : Parsed} {exprs : List (String × Op × List String)}
    (h : containsExpressions sel exprs = .ok true) :
    ∀ e ∈ exprs, (∃ values', (e.1, e.2.1, values') ∈ sel.expressions ∧ SameValues values' e.2.2) ∨
      labelSatisfiesExpression sel.labels e.1 e.2.1 e.2.2 = .ok true := by
  induction exprs with
  | nil => nofun
  | cons e exprs ih =>
    unfold containsExpressions at h
    split at h
    · rename_i hfound
      refine forall_mem_cons.mpr ⟨.inl ?_, ih h⟩
      obtain ⟨⟨key', op', values'⟩, hmem, hsame⟩ := any_eq_true.mp hfound
      simp only [Bool.and_eq_true, decide_eq_true_eq] at hsame
      obtain ⟨⟨rfl, rfl⟩, hvalues⟩ := hsame
      exact ⟨values', hmem, sameSet_iff.mp hvalues⟩
    · split at h
      · cases h
      · cases h
      · rename_i hsat
        exact forall_mem_cons.mpr ⟨.inr hsat, ih h⟩

theorem trueOf_of_satisfies {s : Selector} (hs : Readable s) {values' : List String}
    (hvalues : SameValues values' values)
    (h : labelSatisfiesExpression (parseLabelSelector (String.ofList s.text)).labels key op values' =
      .ok true) :
    TrueOf s.requirements key op values := by
  have hget : ∀ v, get (parseLabelSelector (String.ofList s.text)).labels key = some v ↔
      Item.label key v ∈ s.requirements := fun v => hs.get_iff
  unfold labelSatisfiesExpression at h
  cases hlabel : get (parseLabelSelector (String.ofList s.text)).labels key with
  | none =>
    have hno : ∀ v, Item.label key v ∉ s.requirements := by
      intro v hv
      rw [(hget v).mpr hv] at hlabel
      cases hlabel
    rw [hlabel] at h
    cases op with
    | isIn | «exists» | other => cases h
    | notIn | notEquals => exact fun v _ => hno v
    | notExists => exact hno
  | some w =>
    have hw := (hget w).mp hlabel
    rw [hlabel] at h
    cases op with
    | isIn => exact ⟨w, (hvalues w).mp (by simpa using h), hw⟩
    | «exists» => exact ⟨w, hw⟩
    | notExists | other => cases h
    | notIn | notEquals =>
      intro v hv hmem
      rw [hs.oneValue key v w hmem hw, ← hvalues] at hv
      simp [hv] at h

theorem passes_of_selectorContains {s f : Selector} (hs : Readable s) (hf : Readable f)
    (h : selectorContains (String.ofList s.text) (String.ofList f.text) = .ok true) : Passes s f := by
  intro item hitem
  unfold selectorContains at h
  rw [isBlank_text] at h
  split at h
  · rename_i hempty
    rw [Selector.requirements, List.isEmpty_iff.mp hempty] at hitem
    cases hitem
  · simp only at h
    split at h
    · cases h
    · rename_i hlabels
      have hhas := hf.represents item hitem
      cases item with
      | label key v =>
        have hmem := mem_of_get hhas
        have hget : get (parseLabelSelector (String.ofList s.text)).labels key = some v := by
          by_contra hne
          exact hlabels (any_eq_true.mpr ⟨(key, v), hmem, by simpa using hne⟩)
        exact hs.get_iff.mp hget
      | expression key op values =>
        obtain ⟨values', hmem, hvalues⟩ := hhas
        rcases containsExpressions_true h _ hmem with ⟨values'', hmem', hvalues'⟩ | hsat
        · exact .inl ⟨values'', expression_mem hmem', fun v => (hvalues' v).trans (hvalues v)⟩
        · exact .inr (trueOf_of_satisfies hs hvalues hsat)

/-! ## `jmp delete leases --selector` -/

theorem contains_of_requested {config : Config} {o : DeleteOptions} {leases : List Lease}
    {lease : Lease} {f : String} (hnames : o.names = []) (hsel : o.selector = some f) (hf : f ≠ "")
    (hlist : config.listLeases (some f) = .ok leases) (hnodup : (leases.map (·.name)).Nodup)
    (hmem : lease ∈ leases) (hreq : lease.name ∈ (deleteLeases config o).requested) :
    selectorContains lease.selector f = .ok true := by
  obtain ⟨names, hdel, hname⟩ := mem_toDelete hreq
  simp only [toDelete, hnames, ne_eq, not_true, if_false, hsel, Option.getD_some, hf, not_false_eq_true,
    if_true, hlist] at hdel
  cases hdel
  obtain ⟨lease', hlease', hsame⟩ := mem_map.mp hname
  have hfiltered : lease' ∈ filterBySelector leases f := by
    unfold ownLeases at hlease'
    split at hlease'
    · exact hlease'
    · exact mem_of_mem_filter hlease'
  rw [filterBySelector, if_neg hf] at hfiltered
  obtain ⟨hmem', hcontains⟩ := mem_filter.mp hfiltered
  have heq : lease' = lease := inj_on_of_nodup_map hnodup hmem' hmem hsame
  subst heq
  split at hcontains
  · rename_i contained hok
    rw [hok, hcontains]
  · cases hcontains

/-- No requirement of the two selectors is dropped: both are represented, `selector_contains` answers
`True` only if `s` passes, and the command deletes no lease whose selector does not. -/
structure NeverDrops (s f : Selector) : Prop where
  selector : Represents s
  filter : Represents f
  contains : selectorContains (String.ofList s.text) (String.ofList f.text) = .ok true → Passes s f
  deletes : ∀ (config : Config) (o : DeleteOptions) (leases : List Lease) (lease : Lease),
    o.names = [] → o.selector = some (String.ofList f.text) →
    config.listLeases (some (String.ofList f.text)) = .ok leases →
    (leases.map (·.name)).Nodup → lease ∈ leases → lease.selector = String.ofList s.text →
    lease.name ∈ (deleteLeases config o).requested → Passes s f

/-- For all selectors of the grammar: nothing is dropped exactly if both are readable. -/
theorem neverDrops_iff (s f : Selector) : NeverDrops s f ↔ Readable s ∧ Readable f := by
  constructor
  · intro h
    exact ⟨readable_of_represents h.selector, readable_of_represents h.filter⟩
  · rintro ⟨hs, hf⟩
    refine ⟨hs.represents, hf.represents, passes_of_selectorContains hs hf, ?_⟩
    intro config o leases lease hnames hsel hlist hnodup hmem hselector hreq
    by_cases hempty : String.ofList f.text = ""
    · -- the empty selector has no requirement
      have hblank : f.bodies.isEmpty = true := by
        rw [← isBlank_text, hempty]
        decide
      intro item hitem
      rw [Selector.requirements, List.isEmpty_iff.mp hblank] at hitem
      cases hitem
    · have hcontains := contains_of_requested hnames hsel hempty hlist hnodup hmem hreq
      rw [hselector] at hcontains
      exact passes_of_selectorContains hs hf hcontains

/-! ### A filter with `in(` -/

/-- `board=rcar`. -/
def boardSelector : Selector :=
  .list { body := .equals ⟨"board".toList, by decide, List.all_eq_true.mp (by decide)⟩ {} false {} ⟨"rcar".toList, List.all_eq_true.mp (by decide)⟩ } []

/-- `board=rcar,env in(prod)`. -/
def prodFilter : Selector :=
  .list { body := .equals ⟨"board".toList, by decide, List.all_eq_true.mp (by decide)⟩ {} false {} ⟨"rcar".toList, List.all_eq_true.mp (by decide)⟩ }
    [{ body := .set ⟨"env".toList, by decide, List.all_eq_true.mp (by decide)⟩ ⟨[' '], by simp⟩ (by decide) false {}
        { value := ⟨"prod".toList, List.all_eq_true.mp (by decide)⟩ } [] }]

/-- The requirement `env in(prod)` is dropped: a lease that asks for the board only is deleted. -/
theorem neverDrops_fails :
    String.ofList boardSelector.text = "board=rcar" ∧
      String.ofList prodFilter.text = "board=rcar,env in(prod)" ∧
      selectorContains "board=rcar" "board=rcar,env in(prod)" = .ok true ∧
      ¬ Passes boardSelector prodFilter ∧ ¬ NeverDrops boardSelector prodFilter := by
  have hreq : boardSelector.requirements = [.label "board" "rcar"] := by decide
  have hcontains : selectorContains "board=rcar" "board=rcar,env in(prod)" = .ok true := by
    decide +kernel
  have hpass : ¬ Passes boardSelector prodFilter := by
    intro h
    have henv := h (.expression "env" .isIn ["prod"]) (by decide)
    rcases henv with ⟨values, hmem, -⟩ | ⟨v, -, hmem⟩
    · simp [hreq] at hmem
    · simp [hreq] at hmem
  refine ⟨by decide, by decide, hcontains, hpass, fun h => hpass (h.contains ?_)⟩
  exact hcontains

end Jumpstarter.Selectors
