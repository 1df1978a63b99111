import Jumpstarter.Lease.RoundTrip
import Jumpstarter.Lease.StatusMachine

/-!
# The leases that a tag filter lists

The tags of a lease are stored twice: in `Spec.Tags`, and among its labels with the prefix
`metadata.jumpstarter.dev/`. `ListLeases` puts that prefix before the keys of a tag filter and lists by
labels.

- **The claim** (`tagFilter_iff`): the selector that `ListLeases` builds matches the labels of a created
  lease if and only if the filter matches its labels, the tag filter its tags, and the lease has not ended
  where only active ones are asked for.
- The labels under the prefix are the tags (`Tagged`): `LeaseFromProtobuf` leaves out those of the selector
  that use it. No later change touches them (`tagged_inductive`).

A tag map is a list of pairs with distinct keys (`IsMap`).
-/

namespace Jumpstarter

open Lib List

/-- The pairs of a map have distinct keys. -/
def IsMap (ls : Labels) : Prop := (ls.map Prod.fst).Nodup

instance (ls : Labels) : Decidable (IsMap ls) := inferInstanceAs (Decidable (List.Nodup _))

theorem Labels.lookup_filter_ne {ls : Labels} {k k' : String} (h : k ≠ k') :
    (ls.filter fun p => p.1 ≠ k).lookup k' = ls.lookup k' := by
  induction ls with
  | nil => rfl
  | cons p ls ih =>
    by_cases hp : p.1 = k
    · have hbeq : (k' == p.1) = false := by
        rw [hp]
        simpa using fun he => h he.symm
      rw [filter_cons_of_neg (by simpa using hp), List.lookup_cons, hbeq]
      exact ih
    · rw [filter_cons_of_pos (by simpa using hp), List.lookup_cons, List.lookup_cons, ih]

theorem Labels.lookup_set_ne {ls : Labels} {k k' v : String} (h : k ≠ k') :
    (ls.set k v).lookup k' = ls.lookup k' := by
  have hbeq : (k' == k) = false := by simpa using fun he => h he.symm
  rw [Labels.set, List.lookup_cons, hbeq]
  exact lookup_filter_ne h

namespace ClientService

/-! ## The selector of `ListLeases` -/

/-- A `ListLeasesRequest`. -/
structure ListRequest where
  parent : String
  filter : String := ""
  tagFilter : String := ""
  onlyActive : Option Bool := none

/-- `NewRequirement` accepts the requirement. -/
def accepts (k : K8s) (r : ParsedRequirement) : Bool :=
  (k.isQualifiedName r.key).isEmpty && r.operator.allows r.values &&
    r.values.all fun v => (k.isValidLabelValue v).isEmpty

/-- `labels.NewRequirement`, for every operator; `invalid` is the text of its error. -/
def newSelection (k : K8s) (invalid : ParsedRequirement → String) (r : ParsedRequirement) :
    Except String ParsedRequirement :=
  if accepts k r then .ok r else .error (invalid r)

/-- `Selector.Add`. A selector is a list of requirements, or `none` for one that matches nothing. -/
def addSelection (sel : Option (List ParsedRequirement)) (r : ParsedRequirement) :
    Option (List ParsedRequirement) :=
  sel.map (· ++ [r])

def onLabel (r : ParsedRequirement) : ParsedRequirement :=
  { r with key := leaseTagMetadataPrefix ++ r.key }

def addTagRequirements (k : K8s) (invalid : ParsedRequirement → String)
    (sel : Option (List ParsedRequirement)) (rs : List ParsedRequirement) :
    Except RpcError (Option (List ParsedRequirement)) :=
  rs.foldlM (fun sel r =>
    match newSelection k invalid (onLabel r) with
    | .error err => .error ⟨.invalidArgument, "invalid tag_filter requirement: " ++ err⟩
    | .ok r => .ok (addSelection sel r)) sel

def notEnded : ParsedRequirement := ⟨leaseLabelEnded, .doesNotExist, []⟩

/-- The tag filter of the request, if it has one. -/
def addTagFilter (k : K8s) (invalid : ParsedRequirement → String) (tagFilter : String)
    (sel : Option (List ParsedRequirement)) : Except RpcError (Option (List ParsedRequirement)) :=
  if tagFilter = "" then .ok sel
  else
    match k.parse tagFilter with
    | .error err => .error ⟨.invalidArgument, "invalid tag_filter: " ++ err⟩
    -- `Requirements` of a selector that matches nothing is empty
    | .ok tagSelector => addTagRequirements k invalid sel (tagSelector.getD [])

/-- Only active leases, unless the request says otherwise. -/
def addActiveFilter (k : K8s) (invalid : ParsedRequirement → String) (onlyActive : Option Bool)
    (sel : Option (List ParsedRequirement)) : Except String (Option (List ParsedRequirement)) :=
  if onlyActive.getD true then (newSelection k invalid notEnded).map (addSelection sel) else .ok sel

/-- The selector that `ListLeases` builds. -/
def listSelector (k : K8s) (invalid : ParsedRequirement → String) (req : ListRequest) :
    Except RpcError (Option (List ParsedRequirement)) := do
  let sel ← plainly (k.parse req.filter)
  let sel ← addTagFilter k invalid req.tagFilter sel
  plainly (addActiveFilter k invalid req.onlyActive sel)

/-- `Selector.Matches`. -/
def selectionMatches (sel : Option (List ParsedRequirement)) (ls : Labels) : Bool :=
  sel.any (parsedMatches · ls)

/-- `ListLeases`, of the leases `leases` in one page. -/
def listLeases (k : K8s) (invalid : ParsedRequirement → String) (now : Int) (caller : ObjectKey)
    (leases : List Lease) (req : ListRequest) : Except RpcError (List LeaseReply) := do
  let ns ← parseNamespaceIdentifier req.parent
  authClient caller ns
  let sel ← listSelector k invalid req
  return (leases.filter fun l => l.ns = ns && selectionMatches sel l.labels).map (toProtobuf k now)

/-! ## The labels of a lease -/

/-- The labels under the prefix are the tags. -/
def Tagged (l : Lease) : Prop :=
  ∀ key, l.labels.lookup (leaseTagMetadataPrefix ++ key) = l.spec.tags.lookup key

theorem hasPrefix_append (p key : String) : hasPrefix (p ++ key) p = true := by
  rw [hasPrefix, String.toList_append, isPrefixOf_iff_prefix]
  exact prefix_append _ _

theorem lookup_kept (matchLabels : Labels) (key : String) :
    (matchLabels.filter fun p => !hasPrefix p.1 leaseTagMetadataPrefix).lookup
      (leaseTagMetadataPrefix ++ key) = none := by
  refine lookup_eq_none_iff.mpr fun p hp => ?_
  have hnot := (mem_filter.mp hp).2
  by_contra heq
  have heq : leaseTagMetadataPrefix ++ key = p.1 := by simpa using heq
  rw [← heq, hasPrefix_append] at hnot
  cases hnot

theorem lookup_addTags {tags : Labels} (htags : IsMap tags) (base : Labels) (key : String) :
    (tags.foldl (fun ls p => ls.set (leaseTagMetadataPrefix ++ p.1) p.2) base).lookup
      (leaseTagMetadataPrefix ++ key) =
      (tags.lookup key).or (base.lookup (leaseTagMetadataPrefix ++ key)) := by
  induction tags generalizing base with
  | nil => rfl
  | cons p tags ih =>
    obtain ⟨hfresh, htags⟩ := nodup_cons.mp htags
    rw [foldl_cons, ih htags]
    obtain ⟨name, v⟩ := p
    by_cases h : key = name
    · subst h
      have hnone : tags.lookup key = none := by
        refine lookup_eq_none_iff.mpr fun q hq => ?_
        have hne : q.1 ≠ key := fun he => hfresh (mem_map.mpr ⟨q, hq, he⟩)
        simpa using fun he => hne he.symm
      simp [hnone]
    · have hne : leaseTagMetadataPrefix ++ name ≠ leaseTagMetadataPrefix ++ key :=
        fun he => h ((String.append_right_inj _).mp he).symm
      have hbeq : (key == name) = false := by simpa using h
      rw [Labels.lookup_set_ne hne, List.lookup_cons, hbeq]

theorem lookup_leaseLabels {tags : Labels} (htags : IsMap tags) (matchLabels : Labels) (key : String) :
    (leaseLabels matchLabels tags).lookup (leaseTagMetadataPrefix ++ key) = tags.lookup key := by
  rw [leaseLabels, lookup_addTags htags, lookup_kept, Option.or_none]

theorem tagged_created {k : K8s} {maxTags : Nat} {caller : ObjectKey} {generated : String}
    {req : Option CreateRequest} {l : Lease}
    (h : createLease k maxTags caller generated req = .ok l) (hmap : IsMap l.spec.tags) : Tagged l := by
  obtain ⟨lease, key, l', hl', rfl⟩ := createLease_ok h
  obtain ⟨sel, t, -, -, rfl⟩ := leaseFromProtobuf_iff.mp hl'
  exact lookup_leaseLabels hmap sel.matchLabels

/-! ## What the selector matches -/

variable {k : K8s}

theorem onLabel_matches {l : Lease} (h : Tagged l) (r : ParsedRequirement) :
    (onLabel r).matchesSet l.labels = r.matchesSet l.spec.tags := by
  unfold ParsedRequirement.matchesSet onLabel
  rw [h r.key]

theorem parsedMatches_append (rs rs' : List ParsedRequirement) (ls : Labels) :
    parsedMatches (rs ++ rs') ls = (parsedMatches rs ls && parsedMatches rs' ls) := List.all_append

theorem onLabels_match {l : Lease} (h : Tagged l) (rs : List ParsedRequirement) :
    parsedMatches (rs.map onLabel) l.labels = parsedMatches rs l.spec.tags := by
  unfold parsedMatches
  rw [all_map]
  congr 1
  funext r
  exact onLabel_matches h r

theorem accepts_onLabel {r : ParsedRequirement} (h : k.Accepts r.key r.operator r.values)
    (hkey : k.isQualifiedName (leaseTagMetadataPrefix ++ r.key) = []) : accepts k (onLabel r) = true := by
  simp only [accepts, onLabel, hkey, h.allows, isEmpty_nil, Bool.and_self, Bool.true_and, all_eq_true]
  intro v hv
  rw [h.values v hv]
  rfl

theorem addTagRequirements_ok {invalid : ParsedRequirement → String} {rs : List ParsedRequirement}
    (h : ∀ r ∈ rs, accepts k (onLabel r) = true) (qs : List ParsedRequirement) :
    addTagRequirements k invalid (some qs) rs = .ok (some (qs ++ rs.map onLabel)) := by
  unfold addTagRequirements
  induction rs generalizing qs with
  | nil => simp [pure, Except.pure]
  | cons r rs ih =>
    obtain ⟨hr, hrs⟩ := forall_mem_cons.mp h
    rw [foldlM_cons]
    simp only [newSelection, hr, if_true]
    refine (ih hrs (qs ++ [onLabel r])).trans ?_
    rw [map_cons, append_assoc]
    rfl

theorem listSelector_ok {invalid : ParsedRequirement → String} {req : ListRequest}
    {frs rs : List ParsedRequirement} (hempty : k.parse "" = .ok (some []))
    (hended : accepts k notEnded = true) (hfilter : k.parse req.filter = .ok (some frs))
    (htag : k.parse req.tagFilter = .ok (some rs)) (h : ∀ r ∈ rs, accepts k (onLabel r) = true) :
    listSelector k invalid req = .ok (some (frs ++ rs.map onLabel ++
      if req.onlyActive.getD true then [notEnded] else [])) := by
  have htags : addTagFilter k invalid req.tagFilter (some frs) = .ok (some (frs ++ rs.map onLabel)) := by
    unfold addTagFilter
    split
    · rename_i hnone
      rw [hnone, hempty] at htag
      cases htag
      simp
    · rw [htag]
      exact addTagRequirements_ok h frs
  unfold listSelector
  rw [hfilter]
  refine bind_ok_iff.mpr ⟨some frs, rfl, bind_ok_iff.mpr ⟨_, htags, ?_⟩⟩
  unfold addActiveFilter
  split
  · simp only [newSelection, hended, if_true]
    rfl
  · rw [append_nil]
    rfl

/-- **The tag filter lists by the tags.** For a created lease, the selector that `ListLeases` builds
matches the labels exactly if the filter does, the tag filter matches the tags, and the lease has not
ended or need not be active. -/
theorem tagFilter_iff (hk : k.Documented) (hempty : k.parse "" = .ok (some []))
    (hended : k.isQualifiedName leaseLabelEnded = []) {maxTags : Nat} {caller : ObjectKey}
    {generated : String} {create : Option CreateRequest} {l : Lease}
    (hl : createLease k maxTags caller generated create = .ok l) (hmap : IsMap l.spec.tags)
    {req : ListRequest} {frs rs : List ParsedRequirement} (hfilter : k.parse req.filter = .ok (some frs))
    (htag : k.parse req.tagFilter = .ok (some rs))
    (hkeys : ∀ r ∈ rs, k.isQualifiedName (leaseTagMetadataPrefix ++ r.key) = [])
    (invalid : ParsedRequirement → String) :
    ∃ sel, listSelector k invalid req = .ok sel ∧
      (selectionMatches sel l.labels = true ↔ parsedMatches frs l.labels = true ∧
        parsedMatches rs l.spec.tags = true ∧
        (req.onlyActive.getD true = true → l.labels.lookup leaseLabelEnded = none)) := by
  have hall : ∀ r ∈ rs, accepts k (onLabel r) = true :=
    fun r hr => accepts_onLabel (hk.parse _ rs htag r hr) (hkeys r hr)
  have hnot : accepts k notEnded = true := by
    simp [accepts, notEnded, hended, SelectionOperator.allows]
  refine ⟨_, listSelector_ok hempty hnot hfilter htag hall, ?_⟩
  rw [selectionMatches, Option.any_some, parsedMatches_append, parsedMatches_append,
    onLabels_match (tagged_created hl hmap), Bool.and_eq_true, Bool.and_eq_true, and_assoc]
  cases req.onlyActive.getD true with
  | false => simp [parsedMatches]
  | true => simp [parsedMatches, notEnded, ParsedRequirement.matchesSet]

/-- A lease with the tag `board` is listed, one with the label `board` is not. -/
theorem tagFilter_iff_board :
    (∃ l sel, annCreates { byName with tags := [("board", "rcar")] } = .ok l ∧
      listSelector plainK8s (fun _ => "") ⟨"namespaces/lab", "", "board=rcar", none⟩ = .ok sel ∧
      selectionMatches sel l.labels = true) ∧
    ∃ l sel, annCreates byBoard = .ok l ∧
      listSelector plainK8s (fun _ => "") ⟨"namespaces/lab", "", "board=rcar", none⟩ = .ok sel ∧
      selectionMatches sel l.labels = false := by
  let req : ListRequest := ⟨"namespaces/lab", "", "board=rcar", none⟩
  have hfilter : plainK8s.parse req.filter = .ok (some []) := rfl
  have htag : plainK8s.parse req.tagFilter = .ok (some [⟨"board", .equals, ["rcar"]⟩]) := rfl
  have hkeys : ∀ r ∈ [(⟨"board", .equals, ["rcar"]⟩ : ParsedRequirement)],
      plainK8s.isQualifiedName (leaseTagMetadataPrefix ++ r.key) = [] := fun _ _ => rfl
  constructor
  · obtain ⟨l, hl, htags, hlabels⟩ : ∃ l, annCreates { byName with tags := [("board", "rcar")] } = .ok l ∧
        l.spec.tags = [("board", "rcar")] ∧ l.labels.lookup leaseLabelEnded = none :=
      ⟨_, rfl, rfl, rfl⟩
    obtain ⟨sel, hsel, hiff⟩ := tagFilter_iff plainK8s_documented rfl rfl hl (by rw [htags]; decide)
      hfilter htag hkeys (fun _ => "")
    exact ⟨l, sel, hl, hsel, hiff.mpr ⟨rfl, by rw [htags]; rfl, fun _ => hlabels⟩⟩
  · obtain ⟨l, hl, htags⟩ : ∃ l, annCreates byBoard = .ok l ∧ l.spec.tags = [] := ⟨_, rfl, rfl⟩
    obtain ⟨sel, hsel, hiff⟩ := tagFilter_iff plainK8s_documented rfl rfl hl (by rw [htags]; decide)
      hfilter htag hkeys (fun _ => "")
    refine ⟨l, sel, hl, hsel, Bool.eq_false_iff.mpr fun h => ?_⟩
    have hmatch := (hiff.mp h).2.1
    rw [htags] at hmatch
    cases hmatch

end ClientService

/-! ## Whole runs -/

namespace LeaseSystem

open LeaseReconciler ClientService

def MapTags : Act → Prop
  | .create _ _ (some ⟨_, _, some m⟩) => IsMap m.tags
  | _ => True

theorem ended_ne_tag (key : String) : leaseLabelEnded ≠ leaseTagMetadataPrefix ++ key := by
  intro h
  have hhead := congrArg (fun s => s.toList.head?) h
  simp [leaseLabelEnded, leaseTagMetadataPrefix] at hhead

theorem tagged_write {cfg : Config} {s : St} {a : Act} {c c' : Lease} (h : Tagged c)
    (hw : Write cfg s a c c') : Tagged c' := by
  cases hw with
  | spec _ | status _ _ => exact h
  | labels _ =>
    intro key
    show (settleMeta c).labels.lookup _ = c.spec.tags.lookup key
    unfold settleMeta
    split
    · rw [Labels.lookup_set_ne (ended_ne_tag key)]
      exact h key
    · exact h key

theorem tagged_inductive (cfg : Config) : (sys cfg).InductiveIf (fun _ a => MapTags a)
    (fun s => Inv cfg s ∧ ∀ l ∈ s.store, Tagged l) where
  init := by
    rintro s rfl
    exact ⟨.start cfg, fun l hl => absurd hl (VStore.mem_empty l)⟩
  step := by
    intro s a s' ⟨hi, hall⟩ hmap hst
    refine ⟨hi.step hst, ?_⟩
    have he := step_effect hi.worker hst
    refine he.store.forall hall (fun _ _ hl => hl) ?_ fun c c' hc hw => tagged_write (hall c hc) hw
    rintro caller generated req l rfl hl
    obtain ⟨r, lease, key, l', rfl, hlease, hl', rfl⟩ := createLease_request hl
    obtain ⟨parent, leaseId, m⟩ := r
    cases hlease
    obtain ⟨sel, t, -, -, rfl⟩ := leaseFromProtobuf_iff.mp hl'
    have htagged : Tagged { leaseOf lease key caller.name sel t with
        spec := (leaseOf lease key caller.name sel t).spec.stored } := tagged_created hl hmap
    exact htagged

end LeaseSystem
end Jumpstarter
