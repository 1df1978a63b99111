import Jumpstarter.Lease.Order

/-!
# The exporter that a pending lease names

A lease that stays pending because its exporters are offline (`Offline`) or leased (`NotAvailable`)
names one of them in its condition, "(i.e. NAME)". The name is read from the slice that the filter
before it worked on, and `slices.DeleteFunc` zeroes what it deletes: where it deletes everything, the
name is empty. The two later filters work on a clone.

- **The claim** (`PendingNames`): the name is the one of an approved exporter of the lease.
- **The defect** (`pendingNames_fails`).
- **What holds** (`pendingNames_iff`): the claim, unless a filter deletes everything (`AllDeleted`).
  What is named under spot access (`evictionText`) is always right.
-/

namespace Jumpstarter.LeaseReconciler

open Lib List

/-! ## The texts -/

/-- The message of `Offline`. -/
def offlineText (count : Nat) (name : String) : String :=
  "While there are " ++ toString count ++ " available exporters (i.e. " ++ name ++ "), none of them are online"

/-- The message of `NotAvailable` for leased exporters. -/
def leasedText (count : Nat) (name : String) : String :=
  "There are " ++ toString count ++ " approved exporters, (i.e. " ++ name ++
    ") but all of them are already leased"

/-- The message of `NotAvailable` for an exporter that would have to be evicted. -/
def evictionText (name : String) : String :=
  "Exporter " ++ name ++ " is already leased by another client under spot access, " ++
    "but spot access eviction still not implemented"

/-- The reason and the message name the exporter `name`. -/
inductive Names (approved : List ApprovedExporter) (name reason message : String) : Prop
  | offline (hr : reason = "Offline") (hm : message = offlineText approved.length name)
  | leased (hr : reason = "NotAvailable") (hm : message = leasedText (onlineApproved approved).length name)
  | eviction (hr : reason = "NotAvailable") (hm : message = evictionText name)

/-- Whatever the sort, an exporter that a pending lease names is an approved one. -/
def PendingNames (k : K8s) (now : Int) (reads : Reads) (lease : Lease) : Prop :=
  ∀ f : SortFunc, f.SortsMembers → ∀ approved reason message,
    approvedExporters k lease reads = .ok approved →
    selectExporter k f now reads lease = .ok (.verdict (.pending reason message)) →
    reason = "Offline" ∨ reason = "NotAvailable" →
    ∃ a ∈ approved, Names approved a.exporter.name reason message

/-- One of the first two filters deletes everything: no approved exporter is online, or all that are
online are leased for good, and the lease is not given up for spot access. -/
def AllDeleted (reads : Reads) (approved : List ApprovedExporter) : Prop :=
  (∀ a ∈ approved, isOffline a = true) ∨
    ((∀ a ∈ onlineApproved approved, isTaken (attach reads a) = true) ∧
      ∃ a ∈ onlineApproved approved, a.policy.spotAccess = false)

/-! ## What the slices hold -/

variable {k : K8s} {f : SortFunc} {now : Int} {reads : Reads} {lease : Lease}
  {approved : List ApprovedExporter}

theorem length_clobbered {α : Type} [Inhabited α] (del : α → Bool) (l : List α) :
    (clobbered del l).length = l.length := by
  have hle : (deleteFunc del l).length ≤ l.length := length_filter_le _ l
  simp only [clobbered, length_append, length_replicate]
  omega

theorem firstName_clobbered {del : ApprovedExporter → Bool} {l : List ApprovedExporter}
    (h : deleteFunc del l = []) : firstName (clobbered del l) = "" := by
  unfold firstName clobbered
  rw [h]
  cases l with
  | nil => rfl
  | cons a l => rfl

theorem deleteFunc_eq_nil {α : Type} {del : α → Bool} {l : List α} :
    deleteFunc del l = [] ↔ ∀ a ∈ l, del a = true := by
  simp [deleteFunc]

theorem length_ordered : (ordered f reads approved).length = (onlineApproved approved).length := by
  have hperm := f.perm compareApproved (attachExistingLeases reads.activeLeases (onlineApproved approved))
  exact hperm.length_eq.trans (length_map _)

theorem forall_ordered {P : ApprovedExporter → Prop} :
    (∀ b ∈ ordered f reads approved, P b) ↔ ∀ a ∈ onlineApproved approved, P (attach reads a) := by
  constructor
  · exact fun h a ha => h _ (mem_ordered.mpr ⟨a, ha, rfl⟩)
  · intro h b hb
    obtain ⟨a, ha, rfl⟩ := mem_ordered.mp hb
    exact h a ha

/-- An online approved exporter that is not taken. -/
structure Available (reads : Reads) (approved : List ApprovedExporter) (a : ApprovedExporter) : Prop where
  mem : a ∈ onlineApproved approved
  free : isTaken (attach reads a) = false

/-- What `chooseExporter` reports. -/
inductive Report (f : SortFunc) (reads : Reads) (approved : List ApprovedExporter) :
    Except Stop ApprovedExporter → Prop
  | offline (h : onlineApproved approved = []) :
    Report f reads approved (pending "Offline" (offlineText approved.length ""))
  | spot (first : ApprovedExporter) (hfirst : (ordered f reads approved).head? = some first)
    (h : first.policy.spotAccess = true) (message : String) :
    Report f reads approved (unsatisfiable "SpotAccess" message)
  | leased (first : ApprovedExporter) (hfirst : (ordered f reads approved).head? = some first)
    (regular : first.policy.spotAccess = false)
    (h : ∀ a ∈ onlineApproved approved, isTaken (attach reads a) = true) :
    Report f reads approved (pending "NotAvailable" (leasedText (onlineApproved approved).length ""))
  | notReady (a : ApprovedExporter) (h : Available reads approved a) (message : String) :
    Report f reads approved (pending "NotReady" message)
  | eviction (a : ApprovedExporter) (h : Available reads approved a) :
    Report f reads approved (pending "NotAvailable" (evictionText a.exporter.name))
  | chosen (a : ApprovedExporter) (h : Available reads approved a) :
    Report f reads approved (.ok (attach reads a))

variable {b : ApprovedExporter}

theorem available_of_mem (h : b ∈ deleteFunc isTaken (ordered f reads approved)) :
    ∃ a, Available reads approved a ∧ attach reads a = b := by
  obtain ⟨hb, hfree⟩ := mem_deleteFunc.mp h
  obtain ⟨a, ha, rfl⟩ := mem_ordered.mp hb
  exact ⟨a, ⟨ha, hfree⟩, rfl⟩

theorem chooseExporter_report (f : SortFunc) (reads : Reads) (approved : List ApprovedExporter) :
    Report f reads approved (chooseExporter f reads approved) := by
  have hord : orderApprovedExporters f (attachExistingLeases reads.activeLeases
      (deleteFunc isOffline approved)) = ordered f reads approved := rfl
  unfold chooseExporter
  simp only [hord, length_clobbered]
  split
  · rename_i hnil
    have hnil : onlineApproved approved = [] := List.isEmpty_iff.mp hnil
    rw [firstName_clobbered hnil]
    exact .offline hnil
  rename_i hne
  have hne : ordered f reads approved ≠ [] := fun h => hne (List.isEmpty_iff.mpr (ordered_eq_nil.mp h))
  have hhead := head?_eq_some_head hne
  simp only [headD_eq_head?_getD, hhead, Option.getD_some]
  split
  · exact .spot _ hhead ‹_› _
  rename_i hspot
  split
  · rename_i hnil
    have hnil := List.isEmpty_iff.mp hnil
    rw [firstName_clobbered hnil, length_ordered]
    exact .leased _ hhead (by simpa using hspot) (forall_ordered.mp (deleteFunc_eq_nil.mp hnil))
  rename_i hfree
  split
  · obtain ⟨b, hb⟩ := exists_mem_of_ne_nil _ (fun h => hfree (List.isEmpty_iff.mpr h))
    obtain ⟨a, ha, -⟩ := available_of_mem hb
    exact .notReady a ha _
  · rename_i selected rest hready
    have hmem : selected ∈ deleteFunc isNotReady (deleteFunc isTaken (ordered f reads approved)) :=
      hready ▸ mem_cons_self
    obtain ⟨a, ha, rfl⟩ := available_of_mem (mem_deleteFunc.mp hmem).1
    split
    · exact .eviction a ha
    · exact .chosen a ha

/-! ## When the claim holds -/

variable {n : Nat} {a : String}

theorem offlineText_inj {b : String} (h : offlineText n a = offlineText n b) : a = b :=
  (String.append_right_inj _).mp ((String.append_left_inj _).mp h)

theorem leasedText_inj {b : String} (h : leasedText n a = leasedText n b) : a = b :=
  (String.append_right_inj _).mp ((String.append_left_inj _).mp h)

theorem evictionText_ne {b : String} : evictionText a ≠ leasedText n b := by
  intro h
  have hhead := congrArg (fun s => s.toList.head?) h
  simp [evictionText, leasedText] at hhead

variable {r : Except Stop ApprovedExporter}

theorem Report.names (h : Report f reads approved r) {reason message : String}
    (hr : r = pending reason message) (hreason : reason = "Offline" ∨ reason = "NotAvailable")
    (hdel : AllDeleted reads approved → ∃ a ∈ approved, a.exporter.name = "") :
    ∃ a ∈ approved, Names approved a.exporter.name reason message := by
  cases h with
  | offline hnil =>
    cases hr
    obtain ⟨a, ha, hname⟩ := hdel (.inl (deleteFunc_eq_nil.mp hnil))
    exact ⟨a, ha, .offline rfl (by rw [hname])⟩
  | leased first hfirst hregular htaken =>
    cases hr
    obtain ⟨b, hb, rfl⟩ := mem_ordered.mp (mem_of_head? hfirst)
    obtain ⟨a, ha, hname⟩ := hdel (.inr ⟨htaken, b, hb, hregular⟩)
    exact ⟨a, ha, .leased rfl (by rw [hname])⟩
  | notReady a ha message =>
    cases hr
    exact absurd hreason (by decide)
  | eviction a ha =>
    cases hr
    exact ⟨a, (mem_deleteFunc.mp ha.mem).1, .eviction rfl rfl⟩
  | spot first _ _ message => cases hr
  | chosen a _ => cases hr

/-! A filter that deletes everything leaves no name. -/

theorem Report.of_offline (h : Report f reads approved r) (hoff : ∀ a ∈ approved, isOffline a = true) :
    r = pending "Offline" (offlineText approved.length "") := by
  have hnil : onlineApproved approved = [] := deleteFunc_eq_nil.mpr hoff
  have hord : ordered f reads approved = [] := ordered_eq_nil.mpr hnil
  cases h with
  | offline _ => rfl
  | spot first hfirst _ _ | leased first hfirst _ _ =>
    rw [hord] at hfirst
    cases hfirst
  | notReady a ha _ | eviction a ha | chosen a ha =>
    have := ha.mem
    rw [hnil] at this
    cases this

theorem Report.of_taken (h : Report f reads approved r) {first : ApprovedExporter}
    {rest : List ApprovedExporter} (hord : ordered f reads approved = first :: rest)
    (hregular : first.policy.spotAccess = false)
    (htaken : ∀ a ∈ onlineApproved approved, isTaken (attach reads a) = true) :
    r = pending "NotAvailable" (leasedText (onlineApproved approved).length "") := by
  cases h with
  | offline hnil =>
    rw [ordered_eq_nil.mpr hnil] at hord
    cases hord
  | spot first' hfirst hspot _ =>
    rw [hord] at hfirst
    cases hfirst
    rw [hspot] at hregular
    cases hregular
  | leased _ _ _ _ => rfl
  | notReady a ha _ | eviction a ha | chosen a ha =>
    have := ha.free
    rw [htaken a ha.mem] at this
    cases this

theorem isSome_of_isTaken {a : ApprovedExporter} (h : isTaken a = true) : a.existingLease.isSome = true := by
  unfold isTaken at h
  split at h
  · cases h
  · rename_i l hl
    rw [hl]
    rfl

theorem compareApproved_regular {a : ApprovedExporter} (ha : a.existingLease.isSome = true)
    (hb : b.existingLease.isSome = true) (hregular : a.policy.spotAccess = false)
    (hspot : b.policy.spotAccess = true) : compareApproved a b < 0 := by
  unfold compareApproved
  obtain ⟨l, hl⟩ := Option.isSome_iff_exists.mp ha
  obtain ⟨l', hl'⟩ := Option.isSome_iff_exists.mp hb
  simp [hl, hl', hregular, hspot]

theorem exists_regular_first (htaken : ∀ a ∈ onlineApproved approved, isTaken (attach reads a) = true)
    (hb : b ∈ onlineApproved approved) (hregular : b.policy.spotAccess = false) :
    ∃ f : SortFunc, f.SortsMembers ∧ ∃ first rest, ordered f reads approved = first :: rest ∧
      first.policy.spotAccess = false := by
  let l := attachExistingLeases reads.activeLeases (onlineApproved approved)
  have hmem : attach reads b ∈ l := mem_map_of_mem hb
  by_cases hw : IsStrictWeakOn compareApproved l
  · refine ⟨.insertion, SortFunc.insertion_sortsMembers, ?_⟩
    have hf : SortFunc.insertion.SortsMembers := SortFunc.insertion_sortsMembers
    cases hord : ordered .insertion reads approved with
    | nil =>
      rw [ordered_eq_nil.mp hord] at hb
      cases hb
    | cons first rest =>
      have hnot := hf.head hw hord _ hmem
      have htaken' : ∀ c ∈ ordered .insertion reads approved, isTaken c = true :=
        forall_ordered.mpr htaken
      by_contra hspot
      refine hnot (compareApproved_regular ?_ ?_ hregular (by simpa using hspot))
      · exact isSome_of_isTaken (htaken b hb)
      · exact isSome_of_isTaken (htaken' first (hord ▸ mem_cons_self))
  · obtain ⟨f, hf, rest, hsort⟩ := SortFunc.exists_head hw hmem
    exact ⟨f, hf, _, rest, hsort, hregular⟩

theorem AllDeleted.exists_unnamed (h : AllDeleted reads approved) :
    ∃ f : SortFunc, f.SortsMembers ∧ ∃ reason message,
      chooseExporter f reads approved = pending reason message ∧
      (reason = "Offline" ∨ reason = "NotAvailable") ∧
      ∀ name, Names approved name reason message → name = "" := by
  rcases h with hoff | ⟨htaken, b, hb, hregular⟩
  · refine ⟨.insertion, SortFunc.insertion_sortsMembers, _, _,
      (chooseExporter_report _ reads approved).of_offline hoff, .inl rfl, fun name hn => ?_⟩
    cases hn with
    | offline _ hm => exact (offlineText_inj hm).symm
    | leased hr _ | eviction hr _ => exact absurd hr (by decide)
  · obtain ⟨f, hf, first, rest, hord, hfirst⟩ := exists_regular_first htaken hb hregular
    refine ⟨f, hf, _, _, (chooseExporter_report f reads approved).of_taken hord hfirst htaken,
      .inr rfl, fun name hn => ?_⟩
    cases hn with
    | offline hr _ => exact absurd hr (by decide)
    | leased _ hm => exact (leasedText_inj hm).symm
    | eviction _ hm => exact absurd hm.symm evictionText_ne

theorem PendingNames.unnamed (h : PendingNames k now reads lease) (hbegun : hasBegun now lease = true)
    (happ : approvedExporters k lease reads = .ok approved) (hdel : AllDeleted reads approved) :
    ∃ a ∈ approved, a.exporter.name = "" := by
  obtain ⟨f, hf, reason, message, hchoose, hreason, hname⟩ := hdel.exists_unnamed
  have hsel : selectExporter k f now reads lease = .ok (.verdict (.pending reason message)) := by
    rw [selectExporter_begun hbegun happ, hchoose]
    rfl
  obtain ⟨a, ha, hnames⟩ := h f hf approved reason message happ hsel hreason
  exact ⟨a, ha, hname _ hnames⟩

/-- **A pending lease names one of its approved exporters**, if and only if no filter deletes all of
them (an exporter without a name apart). -/
theorem pendingNames_iff (k : K8s) (now : Int) (reads : Reads) (lease : Lease) :
    PendingNames k now reads lease ↔
      (hasBegun now lease = true → ∀ approved, approvedExporters k lease reads = .ok approved →
        AllDeleted reads approved → ∃ a ∈ approved, a.exporter.name = "") := by
  refine ⟨fun h hbegun approved happ hdel => h.unnamed hbegun happ hdel, ?_⟩
  intro h f hf approved reason message happ hsel hreason
  obtain ⟨hbegun, hchoose⟩ := selectExporter_verdict hsel happ
  exact (chooseExporter_report f reads approved).names hchoose hreason (h hbegun approved happ)

/-- Two exporters of the lab that are offline. -/
def offlineReads : Reads :=
  { twoTiers [] with exporters := (twoTiers []).exporters.map fun e => { e with status := {} } }

theorem pendingNames_fails : ¬ PendingNames anyK8s 0 offlineReads boardLease ∧
    selectExporter anyK8s .insertion 0 offlineReads boardLease = .ok (.verdict (.pending "Offline"
      "While there are 2 available exporters (i.e. ), none of them are online")) := by
  have happ : approvedExporters anyK8s boardLease offlineReads =
      .ok (boardApproved.map fun a => { a with exporter := { a.exporter with status := {} } }) := rfl
  refine ⟨fun h => ?_, rfl⟩
  obtain ⟨a, ha, hname⟩ := h.unnamed rfl happ (.inl (by decide))
  have hnames : ∀ a ∈ boardApproved.map fun a => { a with exporter := { a.exporter with status := {} } },
      a.exporter.name ≠ "" := by
    decide
  exact hnames a ha hname

end Jumpstarter.LeaseReconciler
