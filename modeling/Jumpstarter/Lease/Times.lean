import Jumpstarter.Lease.Client
import Jumpstarter.Lib.Sys

/-!
# The stored times of a lease

The begin, the end and the duration of one lease through `CreateLease` and `UpdateLease` calls, with
any change of its status in between. Both calls make the three fields consistent
(`reconcileLeaseTimeFields`), with the times as the request has them. The store keeps times of whole
seconds.

- `times_fail`: a request with fractions of a second is stored with a duration that its own times
  contradict, and an `UpdateLease` with the stored duration is rejected.
- `times_of_aligned`: the stored times are consistent if the fractions agree (`aligned`).
-/

namespace Jumpstarter.ClientService

open Lib Option

/-- The greatest `time.Duration`. -/
def maxDuration : Int := 0x7fffffffffffffff

/-- `AsDuration` of a protobuf duration, which saturates. -/
def asDuration (d : Int) : Int := max (-0x8000000000000000) (min d maxDuration)

def LeaseMessage.decode (m : LeaseMessage) : LeaseMessage :=
  { m with duration := m.duration.map asDuration }

/-- The error for a duration that the times contradict. -/
@[simp] def durationConflict : String := "duration conflicts with begin_time and end_time"

/-! ## The system -/

/-- A call on the lease, or a change of its status. -/
inductive TimesAct where
  | create (caller : ObjectKey) (generated parent leaseId : String) (lease : LeaseMessage)
  | update (clientExists : ObjectKey → Bool) (caller : ObjectKey) (req : LeaseMessage)
  | status (st : LeaseStatus)

/-- What the calls read when `l` is the lease in the store. -/
def lookupOne (l : Lease) (clientExists : ObjectKey → Bool) : Lookup where
  lease key := if key = l.key then some l else none
  clientExists := clientExists

/-- The lease after a call that succeeds. -/
def timesStep (k : K8s) (maxTags : Nat) : Option Lease → TimesAct → Option (Option Lease)
  | none, .create caller generated parent leaseId lease =>
    match createLease k maxTags caller generated (some ⟨parent, leaseId, some lease.decode⟩) with
    | .ok l => some (some l)
    | .error _ => none
  | some l, .update clientExists caller req =>
    match updateLease k (lookupOne l clientExists) caller req.decode with
    | .ok (_, p) => some (some { l with spec := p.apply l.spec })
    | .error _ => none
  | some l, .status st => some (some { l with status := st })
  | _, _ => none

def timesSys (k : K8s) (maxTags : Nat) : Sys (Option Lease) TimesAct :=
  ⟨fun s => s = none, timesStep k maxTags⟩

def specTimes (spec : LeaseSpec) : TimeFields := ⟨spec.beginTime, spec.endTime, spec.duration⟩

def LeaseMessage.times (req : LeaseMessage) : TimeFields :=
  ⟨req.beginTime, req.endTime, req.duration⟩

/-- The time fields of a request, and those of the spec that it does not set. -/
def overlaid (spec : LeaseSpec) (req : LeaseMessage) : TimeFields where
  beginTime := req.beginTime.or spec.beginTime
  endTime := req.endTime.or spec.endTime
  duration := req.duration.or spec.duration

/-- The begin and the end are a whole number of seconds apart, in the range of a duration. Where the
begin is calculated, the distance is the duration. -/
def aligned (t : TimeFields) : Bool :=
  match t.beginTime, t.endTime with
  | some b, some e => (e - b) % second = 0 && e - b ≤ maxDuration
  | none, some _ => t.duration.all fun d => d % second = 0
  | _, none => true

/-- The condition on a call: the times that it makes consistent are aligned. -/
def alignedAct : Option Lease → TimesAct → Bool
  | _, .create _ _ _ _ lease => aligned lease.decode.times
  | some l, .update _ _ req => !req.hasTimes || aligned (overlaid l.spec req.decode)
  | _, _ => true

/-! ## Consistent times -/

/-- What holds of the stored times of a lease. -/
structure TimesOk (t : TimeFields) : Prop where
  positive : ∃ d, t.duration = some d ∧ 0 < d
  window : ∀ b e, t.beginTime = some b → t.endTime = some e → t.duration = some (e - b)
  beginWhole : ∀ b, t.beginTime = some b → truncateSecond b = b
  endWhole : ∀ e, t.endTime = some e → truncateSecond e = e
  range : ∀ d, t.duration = some d → d ≤ maxDuration

theorem subTime_le (t u : Int) : subTime t u ≤ maxDuration := by
  unfold subTime maxDuration
  omega

variable {u : Int}

theorem subTime_eq {t : Int} (hpos : 0 < subTime t u) (h : t - u ≤ maxDuration) : subTime t u = t - u := by
  unfold subTime maxDuration at *
  omega

variable {t : TimeFields} {b e : Int}

theorem TimesOk.subTime_eq (h : TimesOk t) (hb : t.beginTime = some b) (he : t.endTime = some e) :
    subTime e b = e - b := by
  have hwindow := h.window b e hb he
  obtain ⟨d, hd, hpos⟩ := h.positive
  obtain rfl := Option.some.inj (hd.symm.trans hwindow)
  have hrange := h.range _ hwindow
  unfold subTime maxDuration at *
  omega

theorem truncateSecond_sub (h : (e - b) % second = 0) : truncateSecond e - truncateSecond b = e - b := by
  unfold truncateSecond second at *
  omega

variable {req : LeaseMessage}

theorem decode_range {d : Int} (h : req.decode.duration = some d) : d ≤ maxDuration := by
  obtain ⟨d', -, rfl⟩ := map_eq_some_iff.mp h
  unfold asDuration maxDuration
  omega

variable {t' : TimeFields}

theorem fillTimeFields_ok (h : fillTimeFields t = .ok t') :
    t'.endTime = t.endTime ∧
      ((∃ b e, t.beginTime = some b ∧ t.endTime = some e ∧ t'.beginTime = some b ∧
          t'.duration = some (subTime e b)) ∨
        (∃ e d, t.beginTime = none ∧ t.endTime = some e ∧ t.duration = some d ∧
          t'.beginTime = some (e - d) ∧ t'.duration = some d) ∨
        (t' = t ∧ (t.beginTime = none ∨ t.endTime = none))) := by
  unfold fillTimeFields at h
  split at h
  · rename_i b e hb he
    simp only at h
    split at h
    · cases h
    · cases h
      exact ⟨rfl, .inl ⟨b, e, hb, he, hb, rfl⟩⟩
  · rename_i e hb he
    split at h
    · rename_i d hd
      split at h
      · cases h
        exact ⟨rfl, .inr (.inl ⟨e, d, hb, he, hd, rfl, hd⟩)⟩
      · cases h
        exact ⟨rfl, .inr (.inr ⟨rfl, .inl hb⟩)⟩
    · cases h
      exact ⟨rfl, .inr (.inr ⟨rfl, .inl hb⟩)⟩
  · rename_i he
    cases h
    exact ⟨rfl, .inr (.inr ⟨rfl, .inr he⟩)⟩

theorem fillTimeFields_beginTime (h : fillTimeFields t = .ok t') (hnone : t'.beginTime = none) :
    t.beginTime = none := by
  obtain ⟨-, ⟨b, e, -, -, hb, -⟩ | ⟨e, d, -, -, -, hb, -⟩ | ⟨rfl, -⟩⟩ := fillTimeFields_ok h
  · rw [hnone] at hb
    cases hb
  · rw [hnone] at hb
    cases hb
  · exact hnone

section

variable (h : reconcileLeaseTimeFields t = .ok t')
include h

theorem reconcileLeaseTimeFields_fill : fillTimeFields t = .ok t' := by
  unfold reconcileLeaseTimeFields at h
  split at h
  · cases h
  · rename_i t₁ ht₁
    split at h
    · cases h
    · split at h
      · cases h
      · cases h
        exact ht₁

theorem reconcileLeaseTimeFields_aligned (ha : aligned t = true)
    (hb : t'.beginTime = some b) (he : t'.endTime = some e) :
    t'.duration = some (truncateSecond e - truncateSecond b) := by
  obtain ⟨d, hd, hpos⟩ := reconcileLeaseTimeFields_ok h
  obtain ⟨hend, ⟨b', e', hb', he', hbt, hdt⟩ | ⟨e', d', hb', he', hd', hbt, hdt⟩ | ⟨rfl, hnone⟩⟩ :=
    fillTimeFields_ok (reconcileLeaseTimeFields_fill h)
  · obtain rfl := Option.some.inj (hb.symm.trans hbt)
    obtain rfl := Option.some.inj (he.symm.trans (hend.trans he'))
    have ha : (e - b) % second = 0 ∧ e - b ≤ maxDuration := by
      simpa [aligned, hb', he'] using ha
    have hsub : 0 < subTime e b := by
      rw [hd] at hdt
      exact Option.some.inj hdt ▸ hpos
    rw [hdt, subTime_eq hsub ha.2, truncateSecond_sub ha.1]
  · obtain rfl := Option.some.inj (hb.symm.trans hbt)
    obtain rfl := Option.some.inj (he.symm.trans (hend.trans he'))
    have ha : d' % second = 0 := by
      simpa [aligned, hb', he', hd'] using ha
    have hd'' : e - (e - d') = d' := by omega
    rw [hdt, truncateSecond_sub (hd''.symm ▸ ha), hd'']
  · rcases hnone with hnone | hnone
    · rw [hb] at hnone
      cases hnone
    · rw [he] at hnone
      cases hnone

theorem reconcileLeaseTimeFields_range
    (hr : ∀ d, t.duration = some d → d ≤ maxDuration) : ∀ d, t'.duration = some d → d ≤ maxDuration := by
  intro d hd
  obtain ⟨-, ⟨b, e, -, -, -, hdt⟩ | ⟨e, d', -, -, hd', -, hdt⟩ | ⟨rfl, -⟩⟩ :=
    fillTimeFields_ok (reconcileLeaseTimeFields_fill h)
  · obtain rfl := Option.some.inj (hd.symm.trans hdt)
    exact subTime_le e b
  · obtain rfl := Option.some.inj (hd.symm.trans hdt)
    exact hr d hd'
  · exact hr d hd

end

/-! ## What the calls store -/

theorem storedTime_some {t : Int} (h : storedTime t = some u) : u = truncateSecond t := by
  unfold storedTime at h
  split at h
  · cases h
  · exact (Option.some.inj h).symm

theorem getD_changed {α : Type} [DecidableEq α] (old new : α) : (changed old new).getD old = new := by
  unfold changed
  split
  · rename_i hsame
    exact hsame.symm
  · rfl

theorem changed_getD {old new : Option Int} (hold : ∀ t, old = some t → truncateSecond t = t)
    (hnone : new = none → old = none)
    (h : (changed (old.bind storedTime) (new.bind storedTime)).getD old = some u) :
    ∃ t, new = some t ∧ u = truncateSecond t := by
  unfold changed at h
  split at h
  · rename_i hsame
    have hu : old = some u := h
    cases hnew : new with
    | none => rw [hnone hnew] at hu; cases hu
    | some t =>
      refine ⟨t, rfl, ?_⟩
      have hsame : storedTime t = storedTime u := by
        rw [hnew, hu] at hsame
        exact hsame
      have hwhole := hold u hu
      unfold storedTime at hsame
      split at hsame <;> split at hsame
      · rename_i ht hu'
        rw [ht, ← hu', hwhole]
      · cases hsame
      · cases hsame
      · rw [Option.some.inj hsame, hwhole]
  · obtain ⟨t, ht, hst⟩ := bind_eq_some_iff.mp h
    exact ⟨t, ht, storedTime_some hst⟩

theorem TimesOk.of_reconcile {r : TimeFields} (h : reconcileLeaseTimeFields t = .ok t')
    (ha : aligned t = true) (hr : ∀ d, t.duration = some d → d ≤ maxDuration)
    (hb : ∀ u, r.beginTime = some u → ∃ b, t'.beginTime = some b ∧ u = truncateSecond b)
    (he : ∀ u, r.endTime = some u → ∃ e, t'.endTime = some e ∧ u = truncateSecond e)
    (hd : r.duration = t'.duration) : TimesOk r := by
  refine ⟨?_, fun u v hu hv => ?_, fun u hu => ?_, fun v hv => ?_, ?_⟩
  · rw [hd]
    exact reconcileLeaseTimeFields_ok h
  · obtain ⟨b, hb, rfl⟩ := hb u hu
    obtain ⟨e, he, rfl⟩ := he v hv
    rw [hd]
    exact reconcileLeaseTimeFields_aligned h ha hb he
  · obtain ⟨b, -, rfl⟩ := hb u hu
    exact truncateSecond_truncateSecond b
  · obtain ⟨e, -, rfl⟩ := he v hv
    exact truncateSecond_truncateSecond e
  · rw [hd]
    exact reconcileLeaseTimeFields_range h hr

variable {k : K8s} {caller : ObjectKey} {l : Lease}

theorem createLease_times {maxTags : Nat} {generated parent leaseId : String} {m : LeaseMessage}
    (h : createLease k maxTags caller generated (some ⟨parent, leaseId, some m.decode⟩) = .ok l)
    (ha : aligned m.decode.times = true) : TimesOk (specTimes l.spec) := by
  obtain ⟨r, lease, key, l', hr, hlease, hl', rfl⟩ := createLease_request h
  cases hr
  cases hlease
  obtain ⟨-, t, ht, hb, he, hd⟩ := leaseFromProtobuf_ok hl'
  refine .of_reconcile ht ha (fun d hd => decode_range hd) ?_ ?_ hd
  · intro u hu
    obtain ⟨b, hb', hst⟩ := bind_eq_some_iff.mp hu
    exact ⟨b, hb ▸ hb', storedTime_some hst⟩
  · intro u hu
    obtain ⟨e, he', hst⟩ := bind_eq_some_iff.mp hu
    exact ⟨e, he ▸ he', storedTime_some hst⟩

theorem reconcile_keeps (h : reconcileLeaseTimeFields t = .ok t') :
    t'.endTime = t.endTime ∧ (t.beginTime.isSome = true → t'.beginTime = t.beginTime) := by
  obtain ⟨hend, ⟨b, e, hb, -, hb', -⟩ | ⟨e, d, hb, -⟩ | ⟨rfl, -⟩⟩ :=
    fillTimeFields_ok (reconcileLeaseTimeFields_fill h)
  · exact ⟨hend, fun _ => hb'.trans hb.symm⟩
  · exact ⟨hend, fun hsome => by simp [hb] at hsome⟩
  · exact ⟨rfl, fun _ => rfl⟩

theorem ite_isSome {x y z : Option Int} (h : x.isSome = true → y = x) :
    (if x.isSome then y else z) = x.or z := by
  cases x with
  | none => rfl
  | some a => exact h rfl

variable {spec : LeaseSpec}

theorem overlaySpec_times (h : overlaySpec k caller l req = .ok spec) (hreq : req.hasTimes = true) :
    spec.beginTime = (overlaid l.spec req).beginTime ∧
      spec.endTime = (overlaid l.spec req).endTime ∧
      (spec.duration = (overlaid l.spec req).duration ∨
        ∃ b e, req.beginTime = some b ∧ req.endTime = some e ∧
          spec.duration = some (subTime e b)) := by
  unfold overlaySpec at h
  rw [if_pos hreq] at h
  obtain ⟨desired, hdes, h⟩ := bind_ok h
  obtain ⟨-, t, ht, hb, he, hd⟩ := leaseFromProtobuf_ok (plainly_ok hdes)
  obtain ⟨hend, hbegin⟩ := reconcile_keeps ht
  unfold overlayTimes at h
  split at h
  · cases h
  cases h
  refine ⟨?_, ?_, ?_⟩
  · simp only [hb]
    exact ite_isSome hbegin
  · simp only [he]
    exact ite_isSome fun _ => hend
  · simp only [hd]
    cases hreqd : req.duration with
    | none => exact .inl (by simp [overlaid, hreqd])
    | some d =>
      rw [isSome_some, if_pos rfl, overlaid, hreqd]
      obtain ⟨-, ⟨b', e', hb', he', -, htd⟩ | ⟨e', d', -, -, hd', -, htd⟩ | ⟨rfl, -⟩⟩ :=
        fillTimeFields_ok (reconcileLeaseTimeFields_fill ht)
      · exact .inr ⟨b', e', hb', he', htd⟩
      · exact .inl (htd.trans (hd'.symm.trans hreqd))
      · exact .inl hreqd

theorem overlaySpec_aligned (h : overlaySpec k caller l req = .ok spec) (hreq : req.hasTimes = true) :
    aligned (specTimes spec) = aligned (overlaid l.spec req) := by
  obtain ⟨hb, he, hd⟩ := overlaySpec_times h hreq
  unfold aligned
  simp only [specTimes, hb, he]
  split
  · rfl
  · rename_i hnone _
    rcases hd with hd | ⟨b, e, hb', -⟩
    · rw [hd]
    · simp [overlaid, hb'] at hnone
  · rfl

theorem overlaySpec_range (h : overlaySpec k caller l req.decode = .ok spec)
    (hreq : req.decode.hasTimes = true) (hl : TimesOk (specTimes l.spec)) :
    ∀ d, spec.duration = some d → d ≤ maxDuration := by
  intro d hd'
  obtain ⟨-, -, hd | ⟨b, e, -, -, hd⟩⟩ := overlaySpec_times h hreq
  · have hd' : req.decode.duration.or l.spec.duration = some d := hd.symm.trans hd'
    cases hr : req.decode.duration with
    | none =>
      rw [hr] at hd'
      exact hl.range d hd'
    | some d' =>
      rw [hr] at hd'
      cases hd'
      exact decode_range hr
  · obtain rfl := Option.some.inj (hd.symm.trans hd')
    exact subTime_le e b

variable {look : Lookup}

theorem updateLease_ok {q : ObjectKey × SpecPatch} (h : updateLease k look caller req = .ok q) :
    ∃ l spec clientRef spec', getLease k look caller req.name = .ok l ∧
      overlaySpec k caller l req = .ok spec ∧
      settleTimes req { spec with clientRef } = .ok spec' ∧ q = (l.key, .diff l.spec spec') := by
  obtain ⟨l, hl, h⟩ := bind_ok h
  obtain ⟨-, -, h⟩ := bind_ok h
  obtain ⟨spec, hspec, h⟩ := bind_ok h
  obtain ⟨clientRef, -, h⟩ := bind_ok h
  obtain ⟨spec', hspec', h⟩ := bind_ok h
  cases h
  exact ⟨l, spec, clientRef, spec', hl, hspec, hspec', rfl⟩

theorem getLease_lookupOne {l' : Lease} {clientExists : ObjectKey → Bool} {name : String}
    (h : getLease k (lookupOne l clientExists) caller name = .ok l') : l' = l := by
  obtain ⟨key, -, h⟩ := bind_ok h
  obtain ⟨-, -, h⟩ := bind_ok h
  simp only [lookupOne] at h
  split at h
  · cases h
  · rename_i l'' hl
    cases h
    split at hl
    · exact (Option.some.inj hl).symm
    · cases hl

theorem diff_apply_same {old new : LeaseSpec} (h : specTimes new = specTimes old) :
    specTimes ((SpecPatch.diff old new).apply old) = specTimes old := by
  have hb : new.beginTime = old.beginTime := congrArg TimeFields.beginTime h
  have he : new.endTime = old.endTime := congrArg TimeFields.endTime h
  have hd : new.duration = old.duration := congrArg TimeFields.duration h
  simp [specTimes, SpecPatch.apply, SpecPatch.diff, changed, LeaseSpec.stored, hb, he, hd]

theorem updateLease_times {clientExists : ObjectKey → Bool} {q : ObjectKey × SpecPatch}
    (h : updateLease k (lookupOne l clientExists) caller req.decode = .ok q)
    (ha : (!req.hasTimes || aligned (overlaid l.spec req.decode)) = true) (hl : TimesOk (specTimes l.spec)) :
    TimesOk (specTimes (q.2.apply l.spec)) := by
  obtain ⟨l', spec, clientRef, spec', hget, hspec, hset, rfl⟩ := updateLease_ok h
  obtain rfl := getLease_lookupOne hget
  have hhas : req.decode.hasTimes = req.hasTimes := by
    simp [LeaseMessage.hasTimes, LeaseMessage.decode]
  cases htimes : req.hasTimes with
  | false =>
    rw [htimes] at hhas
    have hspec' : spec' = { l'.spec with clientRef } := by
      unfold overlaySpec at hspec
      unfold settleTimes at hset
      rw [if_neg (by simp [hhas])] at hspec hset
      cases hspec
      exact (Except.ok.inj hset).symm
    rw [diff_apply_same (by rw [hspec']; rfl)]
    exact hl
  | true =>
    rw [htimes] at hhas
    have ha : aligned (overlaid l'.spec req.decode) = true := by simpa [htimes] using ha
    obtain ⟨hb, he, -⟩ := overlaySpec_times hspec hhas
    unfold settleTimes at hset
    rw [if_pos hhas] at hset
    obtain ⟨t, ht, hset⟩ := bind_ok hset
    cases hset
    have ht : reconcileLeaseTimeFields (specTimes spec) = .ok t := plainly_ok ht
    have hfill := reconcileLeaseTimeFields_fill ht
    refine .of_reconcile ht ((overlaySpec_aligned hspec hhas).trans ha)
      (overlaySpec_range hspec hhas hl) (fun u => changed_getD hl.beginWhole fun hnone => ?_)
      (fun u => changed_getD hl.endWhole fun hnone => ?_) ?_
    · have hover : spec.beginTime = none := fillTimeFields_beginTime hfill hnone
      rw [hb] at hover
      exact (or_eq_none_iff.mp hover).2
    · have hover : spec.endTime = none := (fillTimeFields_ok hfill).1.symm.trans hnone
      rw [he] at hover
      exact (or_eq_none_iff.mp hover).2
    · exact getD_changed l'.spec.duration t.duration

/-! ## Requests that change nothing -/

/-- The request sets no time to another value than the spec has. -/
structure KeepsTimes (t stored : TimeFields) : Prop where
  beginTime : ∀ b, t.beginTime = some b → stored.beginTime = some b
  endTime : ∀ e, t.endTime = some e → stored.endTime = some e
  duration : ∀ d, t.duration = some d → stored.duration = some d

theorem KeepsTimes.fill {stored : TimeFields} (h : KeepsTimes t stored) (hs : TimesOk stored) :
    ∃ t', fillTimeFields t = .ok t' := by
  unfold fillTimeFields
  split
  · rename_i b e hb he
    have hwindow := hs.window b e (h.beginTime b hb) (h.endTime e he)
    have hcalc := hs.subTime_eq (h.beginTime b hb) (h.endTime e he)
    have hsame : (t.duration.any fun d => d > 0 && d ≠ subTime e b) = false := by
      cases htd : t.duration with
      | none => rfl
      | some d =>
        have := Option.some.inj (hwindow.symm.trans (h.duration d htd))
        simp [hcalc, this]
    exact ⟨_, if_neg (by rw [hsame]; exact Bool.false_ne_true)⟩
  · split
    · split <;> exact ⟨_, rfl⟩
    · exact ⟨_, rfl⟩
  · exact ⟨_, rfl⟩

theorem ne_durationConflict {start : List Char} {rest : String} {c : Char} (h : start[9]? = some c)
    (hc : c ≠ 'c') : String.ofList start ++ rest ≠ durationConflict := by
  intro heq
  have hstart : (String.ofList start ++ rest).toList[9]? = some c := by
    rw [String.toList_append, String.toList_ofList,
      List.getElem?_append_left (List.getElem?_eq_some_iff.mp h).1, h]
  have hconflict : durationConflict.toList[9]? = some 'c' :=
    congrArg (fun l : List Char => l[9]?) String.toList_ofList
  rw [heq, hconflict] at hstart
  exact hc (Option.some.inj hstart).symm

variable {err : String}

theorem reconcileLeaseTimeFields_error (hfill : fillTimeFields t = .ok t')
    (h : reconcileLeaseTimeFields t = .error err) : err ≠ durationConflict := by
  unfold reconcileLeaseTimeFields at h
  rw [hfill] at h
  simp only at h
  split at h
  · cases h
    simp
  · split at h
    · cases h
      exact ne_durationConflict (c := 'm') rfl (by decide)
    · cases h

theorem addRequirement_error {parts : SelectorParts} {r : ParsedRequirement}
    (h : addRequirement parts r = .error err) : err ≠ durationConflict := by
  obtain ⟨key, operator, values⟩ := r
  unfold addRequirement at h
  cases operator with
  | equals =>
    simp only at h
    split at h
    · split at h
      · split at h
        · cases h
          simp only [String.append_assoc]
          exact ne_durationConflict (c := 'e') rfl (by decide)
        · cases h
      · cases h
    · cases h
  | notEquals =>
    simp only at h
    split at h
    · cases h
    · cases h
      simp
  | isIn | notIn | «exists» | doesNotExist => cases h
  | doubleEquals | greaterThan | lessThan =>
    cases h
    exact ne_durationConflict (c := 'e') rfl (by decide)

theorem parseLabelSelector_error {selector : String} (h : parseLabelSelector k selector = .error err) :
    err ≠ durationConflict := by
  unfold parseLabelSelector at h
  split at h
  · cases h
    exact ne_durationConflict (c := ' ') rfl (by decide)
  · cases h
  · split at h
    · rename_i hfold
      cases h
      obtain ⟨parts, r, hr⟩ := foldlM_error hfold
      exact addRequirement_error hr
    · cases h

theorem leaseFromProtobuf_error {key : ObjectKey} {clientRef : String}
    (hfill : fillTimeFields req.times = .ok t) (h : leaseFromProtobuf k req key clientRef = .error err) :
    err ≠ durationConflict := by
  unfold leaseFromProtobuf at h
  split at h
  · rename_i hsel
    cases h
    exact parseLabelSelector_error hsel
  · split at h
    · rename_i htimes
      cases h
      exact reconcileLeaseTimeFields_error hfill htimes
    · cases h

theorem plain_ne {α : Type} {message : String} (h : message ≠ durationConflict) :
    (plain message : Except RpcError α) ≠ .error ⟨.unknown, durationConflict⟩ := by
  intro he
  exact h (RpcError.mk.inj (Except.error.inj he)).2

theorem transferClient_error : transferClient k look l req ≠ .error ⟨.unknown, durationConflict⟩ := by
  intro h
  unfold transferClient at h
  split at h
  · cases h
  split at h
  · exact plain_ne (by simp) h
  split at h
  · exact plain_ne (by simp) h
  split at h
  · -- an identifier that does not parse has another code
    rename_i hparse
    cases h
    unfold parseClientIdentifier parseObjectIdentifier at hparse
    split at hparse
    · split at hparse
      · cases hparse
      · split at hparse <;> cases hparse
    · cases hparse
  split at h
  · exact plain_ne (by simp) h
  split at h
  · exact plain_ne (ne_durationConflict (c := 'i') rfl (by decide)) h
  · cases h

theorem KeepsTimes.overlaySpec (h : KeepsTimes req.times (specTimes l.spec))
    (hl : TimesOk (specTimes l.spec)) (hspec : overlaySpec k caller l req = .ok spec)
    (hreq : req.hasTimes = true) : KeepsTimes (specTimes spec) (specTimes l.spec) := by
  have hor : ∀ {x y : Option Int} {u : Int}, (∀ v, x = some v → y = some v) → x.or y = some u → y = some u := by
    intro x y u hx hor
    cases x with
    | none => exact hor
    | some v => exact hx u hor
  obtain ⟨hb, he, hd⟩ := overlaySpec_times hspec hreq
  refine ⟨fun b hb' => hor h.beginTime (hb.symm.trans hb'),
    fun e he' => hor h.endTime (he.symm.trans he'), fun d hd' => ?_⟩
  rcases hd with hd | ⟨b, e, hreqb, hreqe, hd⟩
  · exact hor h.duration (hd.symm.trans hd')
  · have hbegin := h.beginTime b hreqb
    have hend := h.endTime e hreqe
    rw [hl.window b e hbegin hend, ← hl.subTime_eq hbegin hend]
    exact hd.symm.trans hd'

theorem KeepsTimes.updateLease (h : KeepsTimes req.times (specTimes l.spec))
    (hl : TimesOk (specTimes l.spec)) (hget : getLease k look caller req.name = .ok l) :
    updateLease k look caller req ≠ .error ⟨.unknown, durationConflict⟩ := by
  intro herr
  rcases bind_error herr with herr | ⟨l', hl', herr⟩
  · rw [hget] at herr
    cases herr
  obtain rfl := Except.ok.inj (hget.symm.trans hl')
  rcases bind_error herr with herr | ⟨-, -, herr⟩
  · unfold require at herr
    split at herr
    · cases herr
    · exact plain_ne (by simp : "UpdateLease permission denied" ≠ _) herr
  rcases bind_error herr with herr | ⟨spec, hspec, herr⟩
  · -- the times of the request alone
    unfold ClientService.overlaySpec at herr
    split at herr
    · rcases bind_error herr with herr | ⟨desired, -, herr⟩
      · obtain ⟨t, ht⟩ := h.fill hl
        exact leaseFromProtobuf_error ht (plainly_error herr) rfl
      · unfold overlayTimes at herr
        split at herr
        · exact plain_ne (by simp) herr
        · cases herr
    · cases herr
  rcases bind_error herr with herr | ⟨clientRef, -, herr⟩
  · exact transferClient_error herr
  rcases bind_error herr with herr | ⟨spec', -, herr⟩
  · -- the times of the request and of the lease
    unfold settleTimes at herr
    split at herr
    · rename_i hreq
      rcases bind_error herr with herr | ⟨t, -, herr⟩
      · obtain ⟨t, ht⟩ := (h.overlaySpec hl hspec hreq).fill hl
        exact reconcileLeaseTimeFields_error ht (plainly_error herr) rfl
      · cases herr
    · cases herr
  · cases herr

/-! ## Whole runs -/

theorem timesOk_inductive (k : K8s) (maxTags : Nat) :
    (timesSys k maxTags).InductiveIf (fun s a => alignedAct s a = true)
      fun s => ∀ l, s = some l → TimesOk (specTimes l.spec) where
  init := by
    rintro s rfl l hl
    cases hl
  step := by
    intro s a s' hi hok h
    replace h : timesStep k maxTags s a = some s' := h
    unfold timesStep at h
    split at h
    · split at h
      · rename_i l hl
        cases h
        rintro _ ⟨⟩
        exact createLease_times hl hok
      · cases h
    · split at h
      · rename_i key p hp
        cases h
        rintro _ ⟨⟩
        exact updateLease_times hp hok (hi _ rfl)
      · cases h
    · rename_i l st
      cases h
      rintro _ ⟨⟩
      exact hi l rfl
    · cases h

/-- **The stored times of a lease are consistent**, if every call makes aligned times consistent:
the duration is positive and is the distance of the begin and the end, when both are stored. Then
no `UpdateLease` that changes nothing about the times is rejected because of them. -/
theorem times_of_aligned (k : K8s) (maxTags : Nat) {l : Lease}
    (hs : (timesSys k maxTags).ReachIf (fun s a => alignedAct s a = true) (some l)) :
    (∃ d, l.spec.duration = some d ∧ 0 < d) ∧
      (∀ b e, l.spec.beginTime = some b → l.spec.endTime = some e →
        l.spec.duration = some (e - b)) ∧
      ∀ look caller req, getLease k look caller req.name = .ok l →
        KeepsTimes req.times (specTimes l.spec) →
        updateLease k look caller req ≠ .error ⟨.unknown, durationConflict⟩ := by
  have h := (timesOk_inductive k maxTags).reach hs l rfl
  exact ⟨h.positive, h.window, fun look caller req hget hk => hk.updateLease h hget⟩

def windowRequest (b e : Int) : LeaseMessage :=
  { selector := "board", beginTime := some b, endTime := some e }

def windowRun : List TimesAct :=
  [.create ⟨"lab", "ann"⟩ "" "namespaces/lab" "lease-1"
      (windowRequest (101 * second + 900) (111 * second + 900)),
    .update (fun _ => true) ⟨"lab", "ann"⟩
      { name := "namespaces/lab/leases/lease-1", selector := "board"
        duration := some (60 * minute + 10 * second), endTime := some (111 * second + 60 * minute) }]

theorem times_of_aligned_longer : ∃ l : Lease,
    (timesSys anyK8s 10).ReachIf (fun s a => alignedAct s a = true) (some l) ∧
      l.spec.beginTime = some (101 * second) ∧
      (∃ d, l.spec.duration = some d ∧ 0 < d) ∧
      (∀ b e, l.spec.beginTime = some b → l.spec.endTime = some e →
        l.spec.duration = some (e - b)) ∧
      ∀ look caller req, getLease anyK8s look caller req.name = .ok l →
        KeepsTimes req.times (specTimes l.spec) →
        updateLease anyK8s look caller req ≠ .error ⟨.unknown, durationConflict⟩ := by
  have hrun : (((timesSys anyK8s 10).execIf alignedAct none windowRun).any fun s =>
      s.any fun l => l.spec.beginTime = some (101 * second)) = true := by
    decide +kernel
  obtain ⟨s, hs, hp⟩ := Sys.ReachIf.execIf_any (.init rfl) windowRun hrun
  cases s with
  | none => cases hp
  | some l => exact ⟨l, hs, of_decide_eq_true hp, times_of_aligned anyK8s 10 hs⟩

/-- A window from 101.9 s to 111.1 s is stored as one from 101 s to 111 s of 9.2 s. An `UpdateLease`
with this duration is rejected. -/
theorem times_fail : ∃ l : Lease, (timesSys anyK8s 10).Reach (some l) ∧
    l.spec.beginTime = some (101 * second) ∧ l.spec.endTime = some (111 * second) ∧
    l.spec.duration = some 9200000000 ∧
    updateLease anyK8s (lookupOne l fun _ => true) ⟨"lab", "ann"⟩
      { name := "namespaces/lab/leases/lease-1", selector := "board"
        duration := l.spec.duration } = .error ⟨.unknown, durationConflict⟩ := by
  have hrun : (((timesSys anyK8s 10).exec none
      [.create ⟨"lab", "ann"⟩ "" "namespaces/lab" "lease-1"
        (windowRequest 101900000000 111100000000)]).any fun s => s.any fun l =>
      l.spec.beginTime = some (101 * second) ∧ l.spec.endTime = some (111 * second) ∧
        l.spec.duration = some 9200000000 ∧
        updateLease anyK8s (lookupOne l fun _ => true) ⟨"lab", "ann"⟩
          { name := "namespaces/lab/leases/lease-1", selector := "board"
            duration := l.spec.duration } = .error ⟨.unknown, durationConflict⟩) = true := by
    decide +kernel
  obtain ⟨s, hs, hp⟩ := Sys.Reach.exec_any (.init rfl) _ hrun
  cases s with
  | none => cases hp
  | some l => exact ⟨l, hs, of_decide_eq_true hp⟩

end Jumpstarter.ClientService
