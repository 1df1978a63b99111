import Jumpstarter.Lease.StatusMachine

/-!
# The maximum duration of a policy

A policy may limit the duration of the leases that it approves (`MaximumDuration`). The limit is checked
once, against the spec at the assignment; the instant at which the lease expires is calculated anew
in every `Reconcile`, from a spec that `UpdateLease` may have changed since.

- `maximum_fails`: `UpdateLease` extends a lease of an hour to a day under a policy with a maximum of
  an hour.
- `maximum_of_bounded`: the limit holds for the life of the lease if the updates of a lease that holds an
  exporter respect it, and the times of a lease are consistent when it gets its exporter (`bounded`).
-/

namespace Jumpstarter.LeaseSystem

open Lib LeaseReconciler ClientService Option

variable {cfg : Config} {s s' : St}

/-- For a lease that holds an exporter under a policy with a maximum: when it began, and the
maximum. -/
def limit (approved : ObjectKey → Option Policy) (l : Lease) : Option (Int × Int) :=
  if l.status.exporterRef.isSome && !l.status.ended then
    ((approved l.key).bind Policy.maximumDuration).bind fun m =>
      l.status.beginTime.map fun began => (began, m)
  else none

/-! ## The condition -/

/-- The end, if there is one, is not after the begin and the duration. -/
def consistent (spec : LeaseSpec) : Bool :=
  match spec.endTime with
  | none => true
  | some e =>
    match spec.beginTime, spec.duration with
    | some b, some d => e ≤ b + d
    | _, _ => false

variable {spec : LeaseSpec}

theorem consistent_end {e d : Int} (h : consistent spec = true) (he : spec.endTime = some e)
    (hd : spec.duration = some d) : ∃ b, spec.beginTime = some b ∧ e ≤ b + d := by
  unfold consistent at h
  cases hb : spec.beginTime with
  | none =>
    rw [he, hb, hd] at h
    cases h
  | some b =>
    rw [he, hb, hd] at h
    exact ⟨b, rfl, of_decide_eq_true h⟩

/-- The patch respects the maximum `m` of a lease that began at `began`: it writes no end after it and
removes no end; and if the lease has no end, it writes no longer duration and no later begin. -/
def respects (p : SpecPatch) (spec : LeaseSpec) (began m : Int) : Bool :=
  p.endTime ≠ some none && p.endTime.join.all (· ≤ began + m) &&
    ((p.apply spec).endTime.isSome || p.beginTime.join.all (· ≤ began) && p.duration.join.all (· ≤ m))

/-- The condition on a step. A `Reconcile` that assigns an exporter under a policy with a maximum reads a
clock that does not go back, and a lease with consistent times. A patch of a lease that holds such an exporter
respects the maximum. -/
def bounded (cfg : Config) (s : St) : Act → Bool
  | .compute clock order =>
    match s.worker with
    | .got l =>
      match reconcile cfg.k8s cfg.sortFunc clock (s.reads order) l with
      | .ok st => st.assigned.all fun a => a.policy.maximumDuration.isNone ||
          (clock.schedule ≤ clock.beginTime && consistent l.spec)
      | .error _ => true
    | _ => true
  | .patch i =>
    match s.calls[i]? with
    | some (key, p) => (s.store.get key).all fun c =>
        (limit s.approved c).all fun q => respects p c.spec q.1 q.2
    | none => true
  | _ => true

/-! ## Specs and patches -/

/-- What holds of the spec of every lease: a duration, and a begin of whole seconds. -/
structure SpecOk (spec : LeaseSpec) : Prop where
  duration : spec.duration ≠ none
  beginTime : ∀ b, spec.beginTime = some b → truncateSecond b = b

structure PatchOk (p : SpecPatch) : Prop where
  duration : p.duration ≠ some none
  beginTime : ∀ b, p.beginTime = some (some b) → truncateSecond b = b

/-- The spec ends a lease that began at `began` within the maximum `m`. -/
structure Within (spec : LeaseSpec) (began m : Int) : Prop where
  ends : ∀ e, spec.endTime = some e → e ≤ began + m
  begins : spec.endTime = none → ∀ b, spec.beginTime = some b → b ≤ began
  lasts : spec.endTime = none → ∀ d, spec.duration = some d → d ≤ m

variable {began m : Int}

theorem Within.expiration (h : Within spec began m) (hok : SpecOk spec) :
    expiration spec began ≤ began + m := by
  unfold LeaseReconciler.expiration
  split
  · exact h.ends _ ‹_›
  · rename_i hend
    split
    · have := h.begins hend _ ‹_›
      have := h.lasts hend _ ‹_›
      omega
    · have := h.lasts hend _ ‹_›
      omega
    · exact absurd ‹_› hok.duration

theorem truncate_stored {t : Option Int} {b : Int} (h : t.bind storedTime = some b) : truncateSecond b = b := by
  obtain ⟨u, -, hu⟩ := bind_eq_some_iff.mp h
  unfold storedTime at hu
  split at hu
  · cases hu
  · cases hu
    exact truncateSecond_truncateSecond u

variable {k : K8s} {l : Lease}

theorem SpecOk.new {maxTags : Nat} {caller : ObjectKey} {generated : String} {req : Option CreateRequest}
    (h : createLease k maxTags caller generated req = .ok l) : SpecOk l.spec := by
  obtain ⟨lease, key, l', hl', rfl⟩ := createLease_ok h
  obtain ⟨-, t, ht, -, -, hdur⟩ := leaseFromProtobuf_ok hl'
  obtain ⟨d, hd, -⟩ := reconcileLeaseTimeFields_ok ht
  refine ⟨?_, fun b hb => truncate_stored hb⟩
  show l'.spec.duration ≠ none
  rw [hdur, hd]
  simp

theorem SpecOk.apply {p : SpecPatch} (h : SpecOk spec) (hp : PatchOk p) : SpecOk (p.apply spec) := by
  refine ⟨?_, fun b hb => ?_⟩
  · show p.duration.getD spec.duration ≠ none
    cases hd : p.duration with
    | none => exact h.duration
    | some d =>
      rintro rfl
      exact hp.duration hd
  · change p.beginTime.getD spec.beginTime = some b at hb
    cases ht : p.beginTime with
    | none =>
      rw [ht] at hb
      exact h.beginTime b hb
    | some t =>
      rw [ht] at hb
      exact hp.beginTime b (ht.trans (congrArg some hb))

theorem PatchOk.diff {old new : LeaseSpec} (h : new.duration = old.duration ∨ new.duration ≠ none) :
    PatchOk (.diff old new) := by
  refine ⟨fun hd => ?_, fun b hb => ?_⟩
  · change changed old.duration new.duration = some none at hd
    unfold changed at hd
    split at hd
    · cases hd
    · rename_i hne
      rcases h with h | h
      · exact hne h
      · exact h (Option.some.inj hd)
  · change changed old.stored.beginTime new.stored.beginTime = some (some b) at hb
    unfold changed at hb
    split at hb
    · cases hb
    · exact truncate_stored (Option.some.inj hb)

variable {look : Lookup} {q : ObjectKey × SpecPatch}

theorem updateLease_diff {caller : ObjectKey} {req : LeaseMessage} (h : updateLease k look caller req = .ok q) :
    ∃ old new, q.2 = .diff old new ∧ (new.duration = old.duration ∨ ∃ d, new.duration = some d ∧ 0 < d) := by
  obtain ⟨l, -, h⟩ := bind_ok h
  obtain ⟨-, -, h⟩ := bind_ok h
  obtain ⟨spec, hover, h⟩ := bind_ok h
  obtain ⟨clientRef, -, h⟩ := bind_ok h
  obtain ⟨spec', hsettle, h⟩ := bind_ok h
  cases h
  refine ⟨l.spec, spec', rfl, ?_⟩
  unfold overlaySpec at hover
  unfold settleTimes at hsettle
  by_cases ht : req.hasTimes = true
  · -- The times were made consistent, so there is a duration.
    rw [if_pos ht] at hsettle
    obtain ⟨t, ht', h⟩ := bind_ok hsettle
    cases h
    exact .inr (reconcileLeaseTimeFields_ok (plainly_ok ht'))
  · rw [if_neg ht] at hover hsettle
    cases hover
    cases hsettle
    exact .inl rfl

theorem Call.patch_diff {c : Call} (h : c.patch k look = some q) :
    ∃ old new, q.2 = .diff old new ∧ (new.duration = old.duration ∨ ∃ d, new.duration = some d ∧ 0 < d) := by
  cases c with
  | update caller req => exact updateLease_diff (ok_of_toOption h)
  | delete caller name =>
    obtain ⟨l, -, h⟩ := bind_ok (ok_of_toOption h)
    obtain ⟨-, -, h⟩ := bind_ok h
    obtain ⟨-, -, h⟩ := bind_ok h
    cases h
    exact ⟨_, _, rfl, .inl rfl⟩
  | release caller name =>
    have h := ok_of_toOption (join_eq_some_iff.mp h)
    unfold releaseLease at h
    split at h
    · cases h
    split at h
    · cases h
    split at h
    · cases h
    · cases h
      exact ⟨_, _, rfl, .inl rfl⟩
  | releaseAsExporter exporter name =>
    have h := ok_of_toOption (join_eq_some_iff.mp h)
    unfold releaseLeaseAsExporter at h
    split at h
    · cases h
    split at h
    · cases h
    split at h
    · cases h
    · cases h
      exact ⟨_, _, rfl, .inl rfl⟩

theorem PatchOk.call {c : Call} (h : c.patch k look = some q) : PatchOk q.2 := by
  obtain ⟨old, new, hq, hd⟩ := c.patch_diff h
  rw [hq]
  refine .diff (hd.imp_right ?_)
  rintro ⟨d, hd, -⟩
  rw [hd]
  simp

theorem patch_field {x : Option (Option Int)} {y : Option Int} {q : Int → Bool}
    (hx : x.join.all q = true) (hy : ∀ v, y = some v → q v = true) {v : Int} (h : x.getD y = some v) :
    q v = true := by
  cases x with
  | none => exact hy v h
  | some w =>
    cases h
    exact hx

theorem Within.apply {p : SpecPatch} (h : Within spec began m) (hp : respects p spec began m = true) :
    Within (p.apply spec) began m := by
  unfold respects at hp
  simp only [Bool.and_eq_true, Bool.or_eq_true, decide_eq_true_eq] at hp
  obtain ⟨⟨hkeep, hend⟩, hopen⟩ := hp
  have hold : (p.apply spec).endTime = none → spec.endTime = none := by
    intro hnone
    change p.endTime.getD spec.endTime = none at hnone
    cases he : p.endTime with
    | none =>
      rw [he] at hnone
      exact hnone
    | some e =>
      rw [he] at hnone
      cases hnone
      exact absurd he hkeep
  have hopen : (p.apply spec).endTime = none →
      p.beginTime.join.all (· ≤ began) = true ∧ p.duration.join.all (· ≤ m) = true := by
    intro hnone
    rcases hopen with hsome | hopen
    · rw [hnone] at hsome
      cases hsome
    · exact hopen
  refine ⟨fun e he => ?_, fun hnone b hb => ?_, fun hnone d hd => ?_⟩
  · exact of_decide_eq_true (patch_field hend (fun v hv => decide_eq_true (h.ends v hv)) he)
  · exact of_decide_eq_true (patch_field (hopen hnone).1
      (fun v hv => decide_eq_true (h.begins (hold hnone) v hv)) hb)
  · exact of_decide_eq_true (patch_field (hopen hnone).2
      (fun v hv => decide_eq_true (h.lasts (hold hnone) v hv)) hd)

/-! ## The invariant -/

variable {approved : ObjectKey → Option Policy}

theorem limit_some (h : limit approved l = some (began, m)) :
    l.status.exporterRef.isSome = true ∧ l.status.ended = false ∧ l.status.beginTime = some began ∧
      ∃ p, approved l.key = some p ∧ p.maximumDuration = some m := by
  unfold limit at h
  split at h
  · rename_i hheld
    obtain ⟨href, hlive⟩ := Bool.and_eq_true_iff.mp hheld
    obtain ⟨m', hm', h⟩ := bind_eq_some_iff.mp h
    obtain ⟨p, hp, hmax⟩ := bind_eq_some_iff.mp hm'
    obtain ⟨b, hb, h⟩ := map_eq_some_iff.mp h
    cases h
    exact ⟨href, by simpa using hlive, hb, p, hp, hmax⟩
  · cases h

theorem limit_of {p : Policy} (href : l.status.exporterRef.isSome = true) (hlive : l.status.ended = false)
    (hb : l.status.beginTime = some began) (hp : approved l.key = some p) (hm : p.maximumDuration = some m) :
    limit approved l = some (began, m) := by
  unfold limit
  rw [href, hlive, hp, hb]
  simp [hm]

/-- The invariant: every lease is within the maximum of its policy, and so is the lease in the hands
of the worker with the exporter that it assigned. -/
structure Bounded (cfg : Config) (s : St) : Prop where
  inv : Inv cfg s
  specs : ∀ l ∈ s.store, SpecOk l.spec
  calls : ∀ q ∈ s.calls, PatchOk q.2
  got : ∀ l, s.worker = .got l → SpecOk l.spec
  within : ∀ l ∈ s.store, ∀ began m, limit s.approved l = some (began, m) → Within l.spec began m
  computed : ∀ st, s.worker = .computed st → ∀ a, st.assigned = some a →
    ∀ m, a.policy.maximumDuration = some m →
    ∀ began, st.lease.status.stored.beginTime = some began → Within st.lease.spec began m

theorem Bounded.within_compute (h : Bounded cfg s) {clock : Clock} {order : List ObjectKey} {st : Stage}
    (hw : s.worker = .got l) (hok : bounded cfg s (.compute clock order) = true)
    (hr : reconcile cfg.k8s cfg.sortFunc clock (s.reads order) l = .ok st) {a : ApprovedExporter}
    (ha : st.assigned = some a) (hm : a.policy.maximumDuration = some m)
    (hb : st.lease.status.stored.beginTime = some began) : Within st.lease.spec began m := by
  rcases reconcile_assigned hr with ⟨hnone, -⟩ | ⟨a', hass⟩
  · rw [hnone] at ha
    cases ha
  have := hass.assigned
  rw [ha] at this
  cases this
  -- What the condition says of this assignment.
  simp only [bounded, hw, hr, ha, hm, all_some, isNone_some, Bool.false_or,
    Bool.and_eq_true, decide_eq_true_eq] at hok
  obtain ⟨hclock, hcons⟩ := hok
  -- The lease began at the reading of the clock, cut to whole seconds.
  have hbegin : l.status.beginTime = none := by
    have := (h.inv.held hw).2.begun
    rw [hass.none] at this
    simpa using this.symm
  have hbegan : began = truncateSecond clock.beginTime := by
    simp only [LeaseStatus.stored, hass.beginTime hbegin, map_some, some.injEq] at hb
    exact hb.symm
  have hspec := h.got l hw
  obtain ⟨d, hd⟩ := ne_none_iff_exists'.mp hspec.duration
  have hmax : d ≤ m := by
    have := hass.assignable.within
    simpa [withinMaximum, hm, requestedDuration, hd] using this
  have hstart : ∀ b, l.spec.beginTime = some b → b ≤ began := by
    intro b hb
    have h1 := truncateSecond_mono (hass.assignable.begun b hb)
    have h2 := truncateSecond_mono (Int.ofNat_le.mpr hclock)
    rw [hspec.beginTime b hb] at h1
    omega
  rw [(reconcile_sameBut hr).spec]
  refine ⟨fun e he => ?_, fun _ => hstart, fun _ d' hd' => ?_⟩
  · obtain ⟨b, hb', hle⟩ := consistent_end hcons he hd
    have := hstart b hb'
    omega
  · rw [hd] at hd'
    cases hd'
    exact hmax

theorem Bounded.within_status (h : Bounded cfg s) {clock : Clock} {reads : Reads} {st : Stage} {c : Lease}
    (hw : s.worker = .computed st) (hc : c ∈ s.store)
    (hr : reconcile cfg.k8s cfg.sortFunc clock reads c = .ok st)
    (hlim : limit (approve s.approved c.key st) { c with status := st.lease.status.stored } =
      some (began, m)) :
    Within c.spec began m := by
  obtain ⟨href, hlive, hbegin, p, hp, hm⟩ := limit_some hlim
  have hok := h.inv.leases c hc
  have hforward := (hok.status.reconcile hr).2.stored hok.stored
  rcases reconcile_assigned hr with ⟨hnone, hsame⟩ | ⟨a, hass⟩
  · -- The lease had its exporter before, and its begin.
    change approve s.approved c.key st c.key = some p at hp
    simp only [approve, hnone] at hp
    have hcref : c.status.exporterRef.isSome = true := by
      rw [← hsame]
      exact href
    obtain ⟨b, hb⟩ := isSome_iff_exists.mp (hok.status.begun ▸ hcref)
    have := hforward.beginTime b hb
    rw [hbegin] at this
    cases this
    exact h.within c hc _ _ (limit_of hcref (hforward.live hlive) hb hp hm)
  · change approve s.approved c.key st c.key = some p at hp
    simp only [approve, hass.assigned, if_true, some.injEq] at hp
    subst hp
    have := h.computed st hw a hass.assigned m hm began hbegin
    rwa [(reconcile_sameBut hr).spec] at this

theorem Bounded.within_put (h : Bounded cfg s) {c : Lease}
    (hsame : ∀ key, key ≠ c.key → approved key = s.approved key)
    (hc : ∀ began m, limit approved c = some (began, m) → Within c.spec began m) :
    ∀ l ∈ s.store.put c, ∀ began m, limit approved l = some (began, m) → Within l.spec began m := by
  intro l hl began m hlim
  rcases VStore.mem_put hl with rfl | ⟨hl, hk⟩
  · obtain ⟨n, hn⟩ := s.store.next_stamp c
    rw [hn] at hlim ⊢
    exact hc began m hlim
  · obtain ⟨href, hlive, hbegin, p, hp, hm⟩ := limit_some hlim
    exact h.within l hl began m (limit_of href hlive hbegin ((hsame _ hk).symm.trans hp) hm)

theorem Bounded.within_step (h : Bounded cfg s) {a : Act} (hok : bounded cfg s a = true)
    (heff : Effect cfg s a s') :
    ∀ l ∈ s'.store, ∀ began m, limit s'.approved l = some (began, m) → Within l.spec began m := by
  cases heff with
  | cluster _ | call _ | drop _ | get _ | compute _ _ _ | stop _ => exact h.within
  | @create _ _ _ l₀ _ hnew hs =>
    intro l hl began m hlim
    rcases (VStore.mem_create hs).mp hl with rfl | hl
    · -- A new lease has no exporter.
      obtain ⟨href, -⟩ := limit_some hlim
      change l₀.status.exporterRef.isSome = true at href
      rw [createLease_exporterRef hnew] at href
      cases href
    · exact h.within l hl began m hlim
  | @patch i p c hc hp =>
    refine h.within_put (fun _ _ => rfl) fun began m hlim => ?_
    have hlim : limit s.approved c = some (began, m) := hlim
    refine (h.within c hc began m hlim).apply ?_
    have hget : s.store.get c.key = some c := VStore.get_of_mem hc
    simpa [bounded, hp, hget, hlim] using hok
  | writeStatus hw hc hr =>
    exact h.within_put (fun _ hk => approve_ne s.approved hk _) fun _ _ => h.within_status hw hc hr
  | @writeMeta c _ hc =>
    exact h.within_put (fun _ _ => rfl) fun began m hlim => h.within c hc began m hlim

theorem bounded_inductive (cfg : Config) :
    (sys cfg).InductiveIf (fun s a => bounded cfg s a = true) (Bounded cfg) where
  init := by
    rintro s rfl
    refine ⟨.start cfg, ?_, ?_, ?_, ?_, ?_⟩
    · exact fun l hl => absurd hl (VStore.mem_empty l)
    · exact fun q hq => absurd hq List.not_mem_nil
    · intro l hl
      cases hl
    · exact fun l hl => absurd hl (VStore.mem_empty l)
    · intro st hst
      cases hst
  step := by
    intro s a s' h hok hst
    have heff := step_effect h.inv.worker hst
    obtain ⟨hspecs, hcalls⟩ := heff.specs h.specs h.calls (fun _ _ _ _ => .new) (fun _ _ => .call)
      fun _ _ => .apply
    refine ⟨h.inv.step hst, hspecs, hcalls, fun l hw => ?_, h.within_step hok heff, fun st hw => ?_⟩
    · rcases heff.got hw with hw | hl
      · exact h.got l hw
      · exact h.specs l hl
    · rcases heff.computed hw with hw | ⟨clock, order, l, rfl, hgot, -, -, hr⟩
      · exact h.computed st hw
      · exact fun a ha m hm began hb => h.within_compute hgot hok hr ha hm hb

/-- **The maximum duration holds for the life of a lease** in every run whose steps are `bounded`:
a lease that holds an exporter under a policy with a maximum expires within it. -/
theorem maximum_of_bounded (cfg : Config) {s : St}
    (hs : (sys cfg).ReachIf (fun s a => bounded cfg s a = true) s) :
    ∀ l ∈ s.store, ∀ began m, limit s.approved l = some (began, m) → expiration l.spec began ≤ began + m := by
  intro l hl began m hlim
  have h := (bounded_inductive cfg).reach hs
  exact (h.within l hl began m hlim).expiration (h.specs l hl)

/-- A cluster with one exporter, for which a policy allows leases of at most `m`. -/
def limitedCluster (m : Int) : Cluster where
  exporters := [labExporter "lab" "rpi-1"]
  policies := [{ ns := "lab", name := "short", policies :=
    [{ sources := [{}], maximumDuration := some m }] }]
  clients := [{ ns := "lab", name := "ann" }]

/-- A lease of an hour under the policy, and an update of its duration once it has its exporter. -/
def extendedRun (m duration : Int) : List Act :=
  [.cluster (limitedCluster m), .create ⟨"lab", "ann"⟩ "lease-1" (some (labRequest "lab"))] ++
  labReconcile 5000000000 ⟨"lab", "lease-1"⟩ [⟨"lab", "lease-1"⟩] ++
  [.call (.update ⟨"lab", "ann"⟩
    { name := "namespaces/lab/leases/lease-1", duration := some duration }), .patch 0]

theorem maximum_of_bounded_extended :
    ∃ s, (sys labConfig).ReachIf (fun s a => bounded labConfig s a = true) s ∧
      (s.store.objects.items.any fun l =>
        limit s.approved l = some (5 * second, 120 * minute) ∧ l.spec.duration = some (90 * minute)) =
        true ∧
      ∀ l ∈ s.store, ∀ began m, limit s.approved l = some (began, m) → expiration l.spec began ≤ began + m := by
  have hrun : (((sys labConfig).execIf (bounded labConfig) {}
      (extendedRun (120 * minute) (90 * minute))).any fun s => s.store.objects.items.any fun l =>
        limit s.approved l = some (5 * second, 120 * minute) ∧
          l.spec.duration = some (90 * minute)) = true := by
    decide +kernel
  obtain ⟨s, hs, hp⟩ := Sys.ReachIf.execIf_any (.init rfl) _ hrun
  exact ⟨s, hs, hp, maximum_of_bounded labConfig hs⟩

/-- `UpdateLease` extends a lease of an hour to a day, under a policy with a maximum of an hour. -/
theorem maximum_fails :
    ∃ s, (sys labConfig).Reach s ∧ ∃ l ∈ s.store,
      limit s.approved l = some (5 * second, 60 * minute) ∧
      ¬ expiration l.spec (5 * second) ≤ 5 * second + 60 * minute := by
  have hrun : (((sys labConfig).exec {} (extendedRun (60 * minute) (1440 * minute))).any fun s =>
      s.store.objects.items.any fun l => limit s.approved l = some (5 * second, 60 * minute) ∧
        ¬ expiration l.spec (5 * second) ≤ 5 * second + 60 * minute) = true := by
    decide +kernel
  obtain ⟨s, hs, hp⟩ := Sys.Reach.exec_any (.init rfl) _ hrun
  obtain ⟨l, hl, hp⟩ := List.any_eq_true.mp hp
  exact ⟨s, hs, l, hl, of_decide_eq_true hp⟩

end Jumpstarter.LeaseSystem
