import Jumpstarter.Lease.Times

/-!
# The times that `UpdateLease` stores

A request sets some of the times of a lease. `fieldwise` is the overlay that it stands for: the fields
of the request replace those of the spec, and a stored duration goes where a begin and an end determine
it. `UpdateLease` gets there in two passes: the times of the request are made consistent on their own,
and the merged ones once more.

`updateLease_iff` says what both passes together accept (`Admitted`) and store. From it:

- `updateLease_overlay`: what is stored is the overlay, made consistent. A request that the overlay
  allows is refused only for its selector, its begin or its client, if its own times are consistent and
  the duration that is kept agrees with the new times.
- `keepsBegin_iff`: the begin of a lease that has started stays, unless the lease has none and the
  request sets a duration while there is an end: then the last pass calculates one.
-/

namespace Jumpstarter.ClientService

open Lib Option

/-! ## ReconcileLeaseTimeFields -/

variable {t : TimeFields}

theorem reconcile_window {b e : Int} {d : Option Int} :
    reconcileLeaseTimeFields ⟨some b, some e, d⟩ = .ok t ↔
      (∀ x, d = some x → 0 < x → x = subTime e b) ∧ 0 < subTime e b ∧
        t = ⟨some b, some e, some (subTime e b)⟩ := by
  have hany : (d.any fun x => x > 0 && x ≠ subTime e b) = false ↔
      ∀ x, d = some x → 0 < x → x = subTime e b := by
    cases d with
    | none => simp
    | some x => simp
  unfold reconcileLeaseTimeFields fillTimeFields
  simp only
  rw [← hany]
  cases d.any fun x => x > 0 && x ≠ subTime e b with
  | true => simp
  | false =>
    simp only [Bool.false_eq_true, if_false, true_and]
    by_cases hpos : subTime e b ≤ 0
    · simp [hpos]
    · simp only [hpos, if_false, Except.ok.injEq, not_le.mp hpos, true_and]
      exact eq_comm

theorem reconcile_open {b e d : Option Int} (hopen : b = none ∨ e = none) :
    reconcileLeaseTimeFields ⟨b, e, d⟩ = .ok t ↔
      ∃ x, d = some x ∧ 0 < x ∧ t = ⟨b.or (e.map (· - x)), e, some x⟩ := by
  have hfill : fillTimeFields ⟨b, e, d⟩ =
      .ok ⟨b.or (d.bind fun x => if 0 < x then e.map (· - x) else none), e, d⟩ := by
    unfold fillTimeFields
    rcases hopen with rfl | rfl
    · cases e with
      | none => cases d <;> simp
      | some e =>
        cases d with
        | none => rfl
        | some x => by_cases hx : 0 < x <;> simp [hx]
    · cases b <;> cases d <;> simp
  unfold reconcileLeaseTimeFields
  rw [hfill]
  cases d with
  | none => simp
  | some x =>
    by_cases hx : x ≤ 0
    · have hx' : ¬ 0 < x := by omega
      simp [hx, hx']
    · have hx' : 0 < x := by omega
      simp only [hx, hx', if_false, if_true, bind_some, Except.ok.injEq, some.injEq,
        exists_eq_left', true_and]
      exact eq_comm

/-! ## The overlay -/

/-- The time fields of a request, and those of the spec that it does not set. A stored duration is
dropped where the begin and the end determine it. -/
def fieldwise (spec : LeaseSpec) (req : LeaseMessage) : TimeFields :=
  let t := overlaid spec req
  if req.duration.isNone && t.beginTime.isSome && t.endTime.isSome then { t with duration := none }
  else t

def TimeFields.stored (t : TimeFields) : TimeFields :=
  { t with beginTime := t.beginTime.bind storedTime, endTime := t.endTime.bind storedTime }

/-- The request does not change the begin of a lease that has started. -/
def BeginAllowed (l : Lease) (req : LeaseMessage) : Prop :=
  req.beginTime.isSome = true → l.status.exporterRef.isSome = true → l.spec.beginTime = req.beginTime

/-- The stored duration, where the request keeps it, agrees with the new begin and end. -/
def DurationAgrees (l : Lease) (req : LeaseMessage) : Prop :=
  req.duration = none → ∀ b e d, (overlaid l.spec req).beginTime = some b →
    (overlaid l.spec req).endTime = some e → l.spec.duration = some d → 0 < d → d = subTime e b

/-- The times that the second pass starts from; `t` are those of the request after the first. -/
def mergedTimes (l : Lease) (req : LeaseMessage) (t : TimeFields) : TimeFields where
  beginTime := req.beginTime.or l.spec.beginTime
  endTime := req.endTime.or l.spec.endTime
  duration := if req.duration.isSome then t.duration else l.spec.duration

theorem reconcile_duration {t' : TimeFields} (h : reconcileLeaseTimeFields t = .ok t')
    (hopen : t.beginTime = none ∨ t.endTime = none) : t'.duration = t.duration := by
  obtain ⟨x, hx, -, rfl⟩ := (reconcile_open hopen).mp h
  exact hx.symm

variable {req : LeaseMessage} {spec : LeaseSpec}

theorem reconcile_agrees {b e : Int} (h : reconcileLeaseTimeFields req.times = .ok t)
    (hb : req.beginTime.or spec.beginTime = some b) (he : req.endTime.or spec.endTime = some e) :
    (∀ x, t.duration = some x → 0 < x → x = subTime e b) ↔
      ∀ x, req.duration = some x → 0 < x → x = subTime e b := by
  by_cases hopen : req.beginTime = none ∨ req.endTime = none
  · rw [reconcile_duration h hopen]
    rfl
  · -- both are those of the request
    obtain ⟨b', hb'⟩ := ne_none_iff_exists'.mp (not_or.mp hopen).1
    obtain ⟨e', he'⟩ := ne_none_iff_exists'.mp (not_or.mp hopen).2
    rw [hb'] at hb
    rw [he'] at he
    cases hb
    cases he
    rw [LeaseMessage.times, hb', he', reconcile_window] at h
    obtain ⟨hagrees, -, rfl⟩ := h
    exact ⟨fun _ => hagrees, fun _ x hx _ => (Option.some.inj hx).symm⟩

variable {l : Lease}

theorem mergedTimes_open (h : reconcileLeaseTimeFields req.times = .ok t)
    (hopen : (overlaid l.spec req).beginTime = none ∨ (overlaid l.spec req).endTime = none) :
    mergedTimes l req t = fieldwise l.spec req ∧ DurationAgrees l req := by
  have hreq : req.beginTime = none ∨ req.endTime = none :=
    hopen.imp (fun hb => (or_eq_none_iff.mp hb).1) fun he => (or_eq_none_iff.mp he).1
  have hfield : fieldwise l.spec req = overlaid l.spec req := by
    unfold fieldwise
    rcases hopen with hb | he
    · simp [hb]
    · simp [he]
  have hd : (if req.duration.isSome then t.duration else l.spec.duration) =
      req.duration.or l.spec.duration := by
    rw [reconcile_duration h hreq]
    show (if req.duration.isSome then req.duration else l.spec.duration) = _
    cases req.duration <;> rfl
  constructor
  · rw [hfield, mergedTimes, hd]
    rfl
  · intro _ b e _ hb he
    rcases hopen with hnone | hnone
    · rw [hnone] at hb
      cases hb
    · rw [hnone] at he
      cases he

theorem reconcile_merged {t₁ : TimeFields} (h : reconcileLeaseTimeFields req.times = .ok t₁) :
    reconcileLeaseTimeFields (mergedTimes l req t₁) = .ok t ↔
      reconcileLeaseTimeFields (fieldwise l.spec req) = .ok t ∧ DurationAgrees l req := by
  cases hb : req.beginTime.or l.spec.beginTime with
  | none =>
    obtain ⟨hmerged, hagrees⟩ := mergedTimes_open h (.inl hb)
    simp [hmerged, hagrees]
  | some b =>
    cases he : req.endTime.or l.spec.endTime with
    | none =>
      obtain ⟨hmerged, hagrees⟩ := mergedTimes_open h (.inr he)
      simp [hmerged, hagrees]
    | some e =>
      cases hd : req.duration with
      | none =>
        have hmerged : mergedTimes l req t₁ = ⟨some b, some e, l.spec.duration⟩ := by
          simp [mergedTimes, hb, he, hd]
        have hfield : fieldwise l.spec req = ⟨some b, some e, none⟩ := by
          simp [fieldwise, overlaid, hb, he, hd]
        have hagrees : DurationAgrees l req ↔ ∀ x, l.spec.duration = some x → 0 < x → x = subTime e b := by
          simp only [DurationAgrees, overlaid, hb, he, hd, some.injEq]
          exact ⟨fun h x => h trivial b e x rfl rfl, fun h _ _ _ x hb he => hb ▸ he ▸ h x⟩
        rw [hmerged, hfield, reconcile_window, reconcile_window, hagrees]
        simp [and_comm]
      | some d =>
        have hmerged : mergedTimes l req t₁ = ⟨some b, some e, t₁.duration⟩ := by
          simp [mergedTimes, hb, he, hd]
        have hfield : fieldwise l.spec req = ⟨some b, some e, some d⟩ := by
          simp [fieldwise, overlaid, hb, he, hd]
        have hagrees : DurationAgrees l req := by simp [DurationAgrees, hd]
        rw [hmerged, hfield, reconcile_window, reconcile_window, reconcile_agrees h hb he, hd]
        simp [hagrees]

/-! ## The call -/

/-- What both passes and the other checks of a request that sets times ask for; `c` is the client of
the lease after the call. -/
structure Admitted (k : K8s) (look : Lookup) (l : Lease) (req : LeaseMessage) (c : String) : Prop where
  selector : ∃ s, parseLabelSelector k req.selector = .ok s
  alone : ∃ t, reconcileLeaseTimeFields req.times = .ok t
  beginTime : BeginAllowed l req
  transfer : transferClient k look l req = .ok c
  duration : DurationAgrees l req

def withTimes (spec : LeaseSpec) (t : TimeFields) (clientRef : String) : LeaseSpec :=
  { spec with beginTime := t.beginTime, endTime := t.endTime, duration := t.duration, clientRef }

theorem guard_iff (h : reconcileLeaseTimeFields req.times = .ok t) :
    (req.beginTime.isSome && l.status.exporterRef.isSome &&
      (l.spec.beginTime.isNone || l.spec.beginTime ≠ t.beginTime)) = true ↔ ¬ BeginAllowed l req := by
  have hbegin : req.beginTime.isSome = true → t.beginTime = req.beginTime := (reconcile_keeps h).2
  unfold BeginAllowed
  cases hb : req.beginTime with
  | none => simp
  | some b =>
    rw [hbegin (by simp [hb]), hb]
    cases l.status.exporterRef <;> cases l.spec.beginTime <;> simp

variable {k : K8s} {caller : ObjectKey}

theorem overlaySpec_iff (htimes : req.hasTimes = true) :
    overlaySpec k caller l req = .ok spec ↔
      ∃ s t, parseLabelSelector k req.selector = .ok s ∧ reconcileLeaseTimeFields req.times = .ok t ∧
        BeginAllowed l req ∧ spec = withTimes l.spec (mergedTimes l req t) l.spec.clientRef := by
  unfold overlaySpec leaseFromProtobuf
  rw [if_pos htimes]
  show (plainly _ >>= _) = _ ↔ _
  cases hs : parseLabelSelector k req.selector with
  | error err => simp [plainly, plain, bind, Except.bind]
  | ok s =>
    cases ht : reconcileLeaseTimeFields ⟨req.beginTime, req.endTime, req.duration⟩ with
    | error err => simp [plainly, plain, bind, Except.bind, LeaseMessage.times, ht]
    | ok t =>
      have hguard := guard_iff (l := l) ht
      simp only [plainly, bind, Except.bind, overlayTimes, LeaseMessage.times, ht]
      by_cases hallowed : BeginAllowed l req
      · obtain ⟨hend, hbegin⟩ := reconcile_keeps ht
        have hspec : ({ l.spec with
            beginTime := if req.beginTime.isSome then t.beginTime else l.spec.beginTime
            duration := if req.duration.isSome then t.duration else l.spec.duration
            endTime := if req.endTime.isSome then t.endTime else l.spec.endTime } : LeaseSpec) =
            withTimes l.spec (mergedTimes l req t) l.spec.clientRef := by
          rw [ite_isSome hbegin, ite_isSome fun _ => hend]
          rfl
        rw [if_neg (by rwa [hguard, not_not]), hspec]
        simp [hallowed, eq_comm]
      · rw [if_pos (hguard.mpr hallowed)]
        simp [hallowed, plain]

variable {look : Lookup}

/-- **What `UpdateLease` accepts and stores**, of the requests that set a time. -/
theorem updateLease_iff (hget : getLease k look caller req.name = .ok l)
    (howner : l.spec.clientRef = caller.name) (htimes : req.hasTimes = true) {q : ObjectKey × SpecPatch} :
    updateLease k look caller req = .ok q ↔
      ∃ t c, Admitted k look l req c ∧ reconcileLeaseTimeFields (fieldwise l.spec req) = .ok t ∧
        q = (l.key, .diff l.spec (withTimes l.spec t c)) := by
  constructor
  · intro h
    obtain ⟨l', hl', h⟩ := bind_ok h
    cases hget.symm.trans hl'
    obtain ⟨-, -, h⟩ := bind_ok h
    obtain ⟨spec, hspec, h⟩ := bind_ok h
    obtain ⟨c, hc, h⟩ := bind_ok h
    obtain ⟨spec', hspec', h⟩ := bind_ok h
    cases h
    obtain ⟨s, t₁, hs, ht₁, hbegin, rfl⟩ := (overlaySpec_iff htimes).mp hspec
    unfold settleTimes at hspec'
    rw [if_pos htimes] at hspec'
    obtain ⟨t, ht, hspec'⟩ := bind_ok hspec'
    cases hspec'
    obtain ⟨ht, hagrees⟩ := (reconcile_merged ht₁).mp (plainly_ok ht)
    exact ⟨t, c, ⟨⟨s, hs⟩, ⟨t₁, ht₁⟩, hbegin, hc, hagrees⟩, ht, rfl⟩
  · rintro ⟨t, c, ⟨⟨s, hs⟩, ⟨t₁, ht₁⟩, hbegin, hc, hagrees⟩, ht, rfl⟩
    have hspec : overlaySpec k caller l req =
        .ok (withTimes l.spec (mergedTimes l req t₁) l.spec.clientRef) :=
      (overlaySpec_iff htimes).mpr ⟨s, t₁, hs, ht₁, hbegin, rfl⟩
    have hmerged := (reconcile_merged ht₁).mpr ⟨ht, hagrees⟩
    refine bind_ok_iff.mpr ⟨l, hget, bind_ok_iff.mpr ⟨(), if_pos howner, ?_⟩⟩
    refine bind_ok_iff.mpr ⟨_, hspec, bind_ok_iff.mpr ⟨c, hc, bind_ok_iff.mpr ⟨_, ?_, rfl⟩⟩⟩
    unfold settleTimes
    rw [if_pos htimes]
    refine bind_ok_iff.mpr ⟨t, ?_, rfl⟩
    show plainly (reconcileLeaseTimeFields (mergedTimes l req t₁)) = .ok t
    rw [hmerged]
    rfl

/-! ## The times after the call -/

theorem specTimes_diff_apply (spec : LeaseSpec) (t : TimeFields) (c : String) :
    specTimes ((SpecPatch.diff spec (withTimes spec t c)).apply spec.stored) = t.stored := by
  simp only [specTimes, SpecPatch.apply, SpecPatch.diff, LeaseSpec.stored, withTimes, getD_changed]
  rfl

/-- `UpdateLease` is the overlay: it accepts what the overlay allows, and stores it. -/
structure Overlays (k : K8s) (look : Lookup) (caller : ObjectKey) (req : LeaseMessage) (l : Lease) :
    Prop where
  succeeds : (∃ q, updateLease k look caller req = .ok q) ↔
    ∃ t, reconcileLeaseTimeFields (fieldwise l.spec req) = .ok t
  stores : ∀ key p t, updateLease k look caller req = .ok (key, p) →
    reconcileLeaseTimeFields (fieldwise l.spec req) = .ok t →
    key = l.key ∧ specTimes (p.apply l.spec.stored) = t.stored

/-- **`UpdateLease` stores the overlay of the request.** It refuses an overlay that is allowed for the
selector, the begin or the client of the request, and for nothing else if the request's own times are
consistent and the duration that it keeps agrees with the new times. -/
theorem updateLease_overlay {k : K8s} {look : Lookup} {caller : ObjectKey} {l : Lease}
    {req : LeaseMessage} (hget : getLease k look caller req.name = .ok l)
    (howner : l.spec.clientRef = caller.name) (htimes : req.hasTimes = true) :
    (∀ key p, updateLease k look caller req = .ok (key, p) →
      ∃ t, reconcileLeaseTimeFields (fieldwise l.spec req) = .ok t ∧ key = l.key ∧
        specTimes (p.apply l.spec.stored) = t.stored) ∧
    ((∃ t, reconcileLeaseTimeFields req.times = .ok t) → DurationAgrees l req →
      ((∃ q, updateLease k look caller req = .ok q) ↔
        (∃ t, reconcileLeaseTimeFields (fieldwise l.spec req) = .ok t) ∧ BeginAllowed l req ∧
          (∃ s, parseLabelSelector k req.selector = .ok s) ∧
          ∃ c, transferClient k look l req = .ok c)) := by
  constructor
  · intro key p h
    obtain ⟨t, c, -, ht, hq⟩ := (updateLease_iff hget howner htimes).mp h
    cases hq
    exact ⟨t, ht, rfl, specTimes_diff_apply l.spec t c⟩
  · intro halone hagrees
    constructor
    · rintro ⟨q, h⟩
      obtain ⟨t, c, had, ht, -⟩ := (updateLease_iff hget howner htimes).mp h
      exact ⟨⟨t, ht⟩, had.beginTime, had.selector, c, had.transfer⟩
    · rintro ⟨⟨t, ht⟩, hbegin, hs, c, hc⟩
      exact ⟨_, (updateLease_iff hget howner htimes).mpr ⟨t, c, ⟨hs, halone, hbegin, hc, hagrees⟩, ht, rfl⟩⟩

/-- The lease of `ann` that starts at 100 s, for an hour; `exporterRef` is the exporter that it has. -/
def annLease (exporterRef : Option String) : Lease :=
  { ns := "lab", name := "lease-1"
    spec := { clientRef := "ann", beginTime := some (100 * second), duration := some (60 * minute) }
    status := { exporterRef } }

/-- A request of `ann` for other times of the lease. -/
def annRequest (beginTime endTime duration : Option Int) : LeaseMessage :=
  { name := "namespaces/lab/leases/lease-1", beginTime, endTime, duration }

/-- The lease starts a minute later only while it has no exporter: `ReconcileLeaseTimeFields` accepts
the times, and the guard refuses them. -/
theorem overlays_fails : ¬ Overlays anyK8s (lookupOne (annLease (some "board")) fun _ => true)
    ⟨"lab", "ann"⟩ (annRequest (some (160 * second)) none (some (60 * minute)))
    (annLease (some "board")) := by
  intro h
  obtain ⟨q, hq⟩ := h.succeeds.mpr ⟨_, rfl⟩
  have hrefused : updateLease anyK8s (lookupOne (annLease (some "board")) fun _ => true)
      ⟨"lab", "ann"⟩ (annRequest (some (160 * second)) none (some (60 * minute))) =
      plain "cannot update BeginTime: lease has already started" := by
    decide +kernel
  cases hq

/-- Without an exporter the lease starts a minute later. -/
theorem updateLease_overlay_later : ∃ q, updateLease anyK8s (lookupOne (annLease none) fun _ => true)
    ⟨"lab", "ann"⟩ (annRequest (some (160 * second)) none (some (60 * minute))) = .ok q := by
  have hget : getLease anyK8s (lookupOne (annLease none) fun _ => true) ⟨"lab", "ann"⟩
      "namespaces/lab/leases/lease-1" = .ok (annLease none) := by
    rfl
  have hagrees : DurationAgrees (annLease none)
      (annRequest (some (160 * second)) none (some (60 * minute))) := fun h => nomatch h
  have hbegin : BeginAllowed (annLease none)
      (annRequest (some (160 * second)) none (some (60 * minute))) := fun _ h => nomatch h
  exact ((updateLease_overlay hget rfl rfl).2 ⟨_, rfl⟩ hagrees).mpr ⟨⟨_, rfl⟩, hbegin, ⟨_, rfl⟩, _, rfl⟩

/-! ## The begin of a started lease -/

/-- After a call that succeeds the begin is what it was. -/
def KeepsBegin (k : K8s) (look : Lookup) (caller : ObjectKey) (req : LeaseMessage) (l : Lease) : Prop :=
  ∀ key p, updateLease k look caller req = .ok (key, p) →
    (p.apply l.spec.stored).beginTime = l.spec.stored.beginTime

/-- The last pass calculates a begin that the lease did not have: the request sets a duration and there
is an end, of the request or stored. The other checks let the call through. -/
structure CalculatesBegin (k : K8s) (look : Lookup) (caller : ObjectKey) (req : LeaseMessage)
    (l : Lease) : Prop where
  owner : l.spec.clientRef = caller.name
  selector : ∃ s, parseLabelSelector k req.selector = .ok s
  transfer : ∃ c, transferClient k look l req = .ok c
  stored : l.spec.beginTime = none
  unset : req.beginTime = none
  window : ∃ d e, req.duration = some d ∧ 0 < d ∧ req.endTime.or l.spec.endTime = some e ∧ e - d ≠ zeroTime

theorem keepsBegin_diff {c : String} :
    ((SpecPatch.diff spec (withTimes spec t c)).apply spec.stored).beginTime = spec.stored.beginTime ↔
      t.beginTime.bind storedTime = spec.beginTime.bind storedTime := by
  have h := congrArg TimeFields.beginTime (specTimes_diff_apply spec t c)
  have h : ((SpecPatch.diff spec (withTimes spec t c)).apply spec.stored).beginTime =
      t.beginTime.bind storedTime := h
  rw [h]
  rfl

theorem fieldwise_unset (hb : req.beginTime = none) (hstored : spec.beginTime = none) :
    fieldwise spec req = ⟨none, req.endTime.or spec.endTime, req.duration.or spec.duration⟩ := by
  simp [fieldwise, overlaid, hb, hstored]

theorem duration_of_alone (hb : req.beginTime = none) (h : reconcileLeaseTimeFields req.times = .ok t) :
    ∃ d, req.duration = some d ∧ 0 < d := by
  obtain ⟨d, hd, hpos, -⟩ := (reconcile_open (.inl hb)).mp h
  exact ⟨d, hd, hpos⟩

theorem Admitted.calculates {c : String} (h : Admitted k look l req c)
    (hstarted : l.status.exporterRef.isSome = true)
    (ht : reconcileLeaseTimeFields (fieldwise l.spec req) = .ok t)
    (hne : t.beginTime.bind storedTime ≠ l.spec.beginTime.bind storedTime) :
    l.spec.beginTime = none ∧ req.beginTime = none ∧ ∃ d e, req.duration = some d ∧ 0 < d ∧
      req.endTime.or l.spec.endTime = some e ∧ e - d ≠ zeroTime := by
  have hfield : (fieldwise l.spec req).beginTime = req.beginTime.or l.spec.beginTime := by
    simp only [fieldwise]
    split <;> rfl
  -- a begin that is there before the last pass stays
  have hstored : l.spec.beginTime = none := by
    by_contra hsome
    have hor : req.beginTime.or l.spec.beginTime = l.spec.beginTime := by
      cases hb : req.beginTime with
      | none => rfl
      | some b =>
        rw [h.beginTime (by simp [hb]) hstarted, hb]
        rfl
    rw [hor] at hfield
    have hkept := (reconcile_keeps ht).2 (by rwa [hfield, isSome_iff_ne_none])
    rw [hkept, hfield] at hne
    exact hne rfl
  have hunset : req.beginTime = none := by
    by_contra hsome
    have := h.beginTime (isSome_iff_ne_none.mpr hsome) hstarted
    exact hsome (this.symm.trans hstored)
  obtain ⟨t₁, ht₁⟩ := h.alone
  obtain ⟨d, hd, hpos⟩ := duration_of_alone hunset ht₁
  rw [fieldwise_unset hunset hstored, hd, reconcile_open (.inl rfl)] at ht
  obtain ⟨x, hx, -, rfl⟩ := ht
  cases hx
  refine ⟨hstored, hunset, d, ?_⟩
  cases he : req.endTime.or l.spec.endTime with
  | none => simp [he, hstored] at hne
  | some e =>
    refine ⟨e, hd, hpos, rfl, fun hzero => ?_⟩
    simp [he, hstored, hzero, storedTime] at hne

theorem CalculatesBegin.updateLease (h : CalculatesBegin k look caller req l)
    (hget : getLease k look caller req.name = .ok l) : ¬ KeepsBegin k look caller req l := by
  intro hkeeps
  obtain ⟨d, e, hd, hpos, he, hne⟩ := h.window
  obtain ⟨c, hc⟩ := h.transfer
  have htimes : req.hasTimes = true := by simp [LeaseMessage.hasTimes, hd]
  have halone : ∃ t, reconcileLeaseTimeFields req.times = .ok t :=
    ⟨_, (reconcile_open (.inl h.unset)).mpr ⟨d, hd, hpos, rfl⟩⟩
  have hbegin : BeginAllowed l req := fun hsome => by simp [h.unset] at hsome
  have hagrees : DurationAgrees l req := fun hnone => by simp [hd] at hnone
  have ht : reconcileLeaseTimeFields (fieldwise l.spec req) = .ok ⟨some (e - d), some e, some d⟩ := by
    rw [fieldwise_unset h.unset h.stored, hd, he, reconcile_open (.inl rfl)]
    exact ⟨d, rfl, hpos, rfl⟩
  have hq := (updateLease_iff hget h.owner htimes).mpr
    ⟨_, c, ⟨h.selector, halone, hbegin, hc, hagrees⟩, ht, rfl⟩
  have := keepsBegin_diff.mp (hkeeps _ _ hq)
  simp [h.stored, storedTime, hne] at this

theorem updateLease_untimed (hget : getLease k look caller req.name = .ok l) (htimes : req.hasTimes = false)
    {q : ObjectKey × SpecPatch} (h : updateLease k look caller req = .ok q) :
    ∃ c, q = (l.key, .diff l.spec (withTimes l.spec (specTimes l.spec) c)) := by
  obtain ⟨l', spec, c, spec', hl', hspec, hspec', rfl⟩ := updateLease_ok h
  cases hget.symm.trans hl'
  unfold overlaySpec at hspec
  unfold settleTimes at hspec'
  rw [if_neg (by simp [htimes])] at hspec hspec'
  cases hspec
  cases hspec'
  exact ⟨c, rfl⟩

/-- **The begin of a started lease stays**, if and only if the last pass calculates none. -/
theorem keepsBegin_iff {k : K8s} {look : Lookup} {caller : ObjectKey} {req : LeaseMessage} {l : Lease}
    (hget : getLease k look caller req.name = .ok l)
    (hstarted : l.status.exporterRef.isSome = true) :
    KeepsBegin k look caller req l ↔ ¬ CalculatesBegin k look caller req l := by
  refine ⟨fun hkeeps h => h.updateLease hget hkeeps, fun hnot key p h => ?_⟩
  cases htimes : req.hasTimes with
  | false =>
    obtain ⟨c, hq⟩ := updateLease_untimed hget htimes h
    cases hq
    exact keepsBegin_diff.mpr rfl
  | true =>
    have howner : l.spec.clientRef = caller.name := by
      obtain ⟨l', hl', h⟩ := bind_ok h
      cases hget.symm.trans hl'
      obtain ⟨_, hreq, -⟩ := bind_ok h
      by_contra hother
      simp [require, hother] at hreq
    obtain ⟨t, c, had, ht, hq⟩ := (updateLease_iff hget howner htimes).mp h
    cases hq
    rw [keepsBegin_diff]
    by_contra hne
    obtain ⟨hstored, hunset, hwindow⟩ := had.calculates hstarted ht hne
    exact hnot ⟨howner, had.selector, ⟨c, had.transfer⟩, hstored, hunset, hwindow⟩

/-- The lease of `ann` that runs on `board` for an hour from the moment it got it. -/
def runningLease : Lease :=
  { ns := "lab", name := "lease-1", spec := { clientRef := "ann", duration := some (60 * minute) }
    status := { exporterRef := some "board", beginTime := some (100 * second) } }

/-- Two hours until 10000 s: the running lease begins at 2800 s by then. -/
theorem keepsBegin_fails : ¬ KeepsBegin anyK8s (lookupOne runningLease fun _ => true) ⟨"lab", "ann"⟩
    (annRequest none (some (10000 * second)) (some (120 * minute))) runningLease := by
  intro h
  have hbegin := h ⟨"lab", "lease-1"⟩ _ rfl
  cases hbegin

/-- Two hours from its begin: the running lease has no other begin. -/
theorem keepsBegin_longer : KeepsBegin anyK8s (lookupOne runningLease fun _ => true) ⟨"lab", "ann"⟩
    (annRequest none none (some (120 * minute))) runningLease := by
  refine (keepsBegin_iff rfl rfl).mpr fun h => ?_
  obtain ⟨d, e, -, -, he, -⟩ := h.window
  cases he

end Jumpstarter.ClientService
