import Jumpstarter.Lease.Spot
import Jumpstarter.Lease.Status

/-!
# What one `Reconcile` leaves

The stages of `Reconcile` seen from its end: when the lease is looked at again (`RequeueAfter`), and
whether it took an exporter. `Staged` is what the first two stages leave to the third, in terms of the
lease that was read; `Settled` lists the ways in which the third one ends.

- **The next look** (`rescheduled_iff`): a lease that has not ended is looked at again after a positive
  time, the time left if it holds an exporter, unless the clock of the third stage shows its expiration
  to the nanosecond. There the lease neither expires (`Before` is strict) nor is it queued again.
- **Lapsed requests** (`lapsed_outcome`): the exporter is assigned before the release and the end are
  looked at. A lapsed request that can get an exporter takes it and ends in the same `Reconcile`; one
  that cannot ends without, unless it has only passed its end: the end is looked at once it has begun.
-/

namespace Jumpstarter.LeaseReconciler

open Lib

variable {k : K8s} {f : SortFunc} {clock : Clock} {reads : Reads} {l : Lease}

/-! ## The third stage -/

inductive Settled (clock : Clock) (st : Stage) : Stage → Prop
  | already (h : st.lease.status.ended = true) : Settled clock st st
  | failed (live : st.lease.status.ended = false) (h : hasFailed st.lease.status = true) :
    Settled clock st { st with lease := { st.lease with status := { st.lease.status with
      ended := true, endTime := some (clock.ended : Int) } } }
  | released (live : st.lease.status.ended = false) (sound : hasFailed st.lease.status = false)
    (h : st.lease.spec.release = true) : Settled clock st { st with lease := release clock st.lease }
  | waiting (live : st.lease.status.ended = false) (sound : hasFailed st.lease.status = false)
    (kept : st.lease.spec.release = false) (h : st.lease.status.beginTime = none) : Settled clock st st
  | expired (live : st.lease.status.ended = false) (sound : hasFailed st.lease.status = false)
    (kept : st.lease.spec.release = false) (began : Int)
    (begun : st.lease.status.beginTime = some began)
    (h : expiration st.lease.spec began < clock.ended) :
    Settled clock st { st with lease := expire clock st.lease }
  | running (live : st.lease.status.ended = false) (sound : hasFailed st.lease.status = false)
    (kept : st.lease.spec.release = false) (began : Int)
    (begun : st.lease.status.beginTime = some began)
    (h : ¬ expiration st.lease.spec began < clock.ended) :
    Settled clock st
      { st with requeueAfter := subTime (expiration st.lease.spec began) clock.ended }

attribute [local simp] applySelection reconcileStatusExporterRef

theorem settled_ended (clock : Clock) (st : Stage) : Settled clock st (reconcileStatusEnded clock st) := by
  unfold reconcileStatusEnded
  simp only
  split
  · exact .already ‹_›
  rename_i hlive
  have hlive : st.lease.status.ended = false := by simpa using hlive
  split
  · exact .failed hlive ‹_›
  rename_i hsound
  have hsound : hasFailed st.lease.status = false := Bool.eq_false_iff.mpr hsound
  split
  · exact .released hlive hsound ‹_›
  rename_i hkept
  have hkept : st.lease.spec.release = false := by simpa using hkept
  split
  · exact .waiting hlive hsound hkept ‹_›
  · rename_i began hbegun
    split
    · exact .expired hlive hsound hkept began hbegun ‹_›
    · exact .running hlive hsound hkept began hbegun ‹_›

/-! ## The first two stages -/

section Inputs

variable (k : K8s) (f : SortFunc) (clock : Clock) (reads : Reads) (l : Lease)

/-- The lease holds an exporter, or this `Reconcile` assigns one. -/
def holdsExporter : Bool :=
  l.status.exporterRef.isSome ||
    match selectExporter k f clock.schedule reads l with
    | .ok (.assign _) => true
    | _ => false

/-- This `Reconcile` refuses the lease for good. -/
def isRefused : Bool :=
  l.status.exporterRef.isNone &&
    match selectExporter k f clock.schedule reads l with
    | .ok (.verdict (.invalid _ _)) | .ok (.verdict (.unsatisfiable _ _)) => true
    | _ => false

/-- The begin that the third stage finds. -/
def beginning : Option Int :=
  if holdsExporter k f clock reads l then some (l.status.beginTime.getD clock.beginTime)
  else l.status.beginTime

end Inputs

structure Staged (k : K8s) (f : SortFunc) (clock : Clock) (reads : Reads) (l : Lease) (st : Stage) :
    Prop where
  spec : st.lease.spec = l.spec
  live : st.lease.status.ended = false
  exporterRef : st.lease.status.exporterRef.isSome = holdsExporter k f clock reads l
  beginTime : st.lease.status.beginTime = beginning k f clock reads l
  failed : hasFailed st.lease.status = (hasFailed l.status || isRefused k f clock reads l)
  requeue : st.lease.status.exporterRef = none → hasFailed st.lease.status = false → 0 < st.requeueAfter

/-! The delays of a lease without an exporter are positive. -/

theorem subTime_pos {t u : Int} : 0 < subTime t u ↔ u < t := by
  unfold subTime
  omega

theorem pendingRequeueAfter_pos (now : Int) (l : Lease) : 0 < pendingRequeueAfter now l := by
  unfold pendingRequeueAfter
  split
  · decide
  · simp only [pendingBackoff, maxPendingRequeue, second]
    omega

theorem selectExporter_wait {now d : Int} (h : selectExporter k f now reads l = .ok (.wait d)) : 0 < d := by
  unfold selectExporter at h
  split at h
  · rename_i hb
    cases hbegin : l.spec.beginTime with
    | none => simp [hbegin] at hb
    | some b =>
      simp only [hbegin, Option.any_some, decide_eq_true_eq] at hb
      simp only [hbegin, Option.getD_some, Except.ok.injEq, Selection.wait.injEq] at h
      rw [← h, subTime_pos]
      exact hb
  · split at h
    · cases h
    · cases h
    · split at h
      · cases h
      · cases h
      · cases h

/-! The second stage. -/

theorem begin_beginTime (clock : Clock) (l : Lease) :
    (reconcileStatusBeginEndTimes clock l).status.beginTime =
      if l.status.exporterRef.isSome then some (l.status.beginTime.getD clock.beginTime)
      else l.status.beginTime := by
  unfold reconcileStatusBeginEndTimes
  cases l.status.exporterRef with
  | none => simp
  | some name =>
    cases hb : l.status.beginTime with
    | none => simp [setStatus]
    | some b => simp [hb]

theorem begin_ended (clock : Clock) (l : Lease) :
    (reconcileStatusBeginEndTimes clock l).status.ended = l.status.ended := by
  unfold reconcileStatusBeginEndTimes
  split <;> rfl

theorem begin_hasFailed (clock : Clock) (l : Lease) :
    hasFailed (reconcileStatusBeginEndTimes clock l).status = hasFailed l.status := by
  unfold reconcileStatusBeginEndTimes
  split
  · simp only [hasFailed_setReady]
    rfl
  · rfl

/-! The first stage. -/

def Verdict.refuses : Verdict → Bool
  | .pending _ _ => false
  | _ => true

theorem hasFailed_verdict (clock : Clock) (l : Lease) (v : Verdict) :
    hasFailed (applySelection clock l (.verdict v)).lease.status = (hasFailed l.status || v.refuses) := by
  have hset : ∀ t reason message, hasFailed (setStatus clock.verdict l t true reason message).status =
      ((if t = .unsatisfiable then true else l.status.isTrue .unsatisfiable) ||
        (if t = .invalid then true else l.status.isTrue .invalid)) := by
    intro t reason message
    show ((setStatus clock.verdict l t true reason message).isTrue .unsatisfiable ||
      (setStatus clock.verdict l t true reason message).isTrue .invalid) = _
    rw [setStatus_isTrue, setStatus_isTrue]
    rfl
  cases v with
  | invalid reason message => simp [hset, Verdict.refuses]
  | unsatisfiable reason message => simp [hset, Verdict.refuses]
  | pending reason message =>
    simp only [applySelection, hset, Verdict.refuses, Bool.or_false, reduceCtorEq, if_false]
    rfl

theorem applySelection_beginTime (clock : Clock) (l : Lease) (s : Selection) :
    (applySelection clock l s).lease.status.beginTime = l.status.beginTime ∧
      (applySelection clock l s).lease.status.ended = l.status.ended := by
  cases s with
  | wait d => exact ⟨rfl, rfl⟩
  | verdict v => cases v <;> exact ⟨rfl, rfl⟩
  | assign a => exact ⟨rfl, rfl⟩

theorem applySelection_exporterRef (clock : Clock) (hnone : l.status.exporterRef = none)
    (s : Selection) : (applySelection clock l s).lease.status.exporterRef.isSome =
      match s with
      | .assign _ => true
      | _ => false := by
  cases s with
  | wait d => simp [hnone]
  | verdict v => cases v <;> simp [hnone, setStatus]
  | assign a => rfl

variable {s : Selection}

theorem applySelection_requeue (hs : selectExporter k f clock.schedule reads l = .ok s)
    (hnone : (applySelection clock l s).lease.status.exporterRef = none)
    (hsound : hasFailed (applySelection clock l s).lease.status = false) :
    0 < (applySelection clock l s).requeueAfter := by
  cases s with
  | wait d => exact selectExporter_wait hs
  | assign a => cases hnone
  | verdict v =>
    rw [hasFailed_verdict, Bool.or_eq_false_iff] at hsound
    cases v with
    | pending reason message => exact pendingRequeueAfter_pos _ _
    | invalid reason message => cases hsound.2
    | unsatisfiable reason message => cases hsound.2

variable {st : Stage}

theorem staged_exporterRef (hl : l.status.ended = false)
    (hst : reconcileStatusExporterRef k f clock reads l = .ok st) :
    Staged k f clock reads l { st with lease := reconcileStatusBeginEndTimes clock st.lease } := by
  have hspec : SameBut st.lease (reconcileStatusBeginEndTimes clock st.lease) := sameBut_begin clock _
  rcases reconcileStatusExporterRef_ok hst with ⟨hended | hsome, rfl⟩ | ⟨-, hnone, s, hs, rfl⟩
  · rw [hl] at hended
    cases hended
  · have hholds : holdsExporter k f clock reads l = true := by simp [holdsExporter, hsome]
    refine ⟨hspec.spec, ?_, ?_, ?_, ?_, fun h => ?_⟩
    · exact (begin_ended clock l).trans hl
    · rw [begin_exporterRef, hsome, hholds]
    · rw [begin_beginTime, beginning, hholds, hsome]
    · have hnot : l.status.exporterRef.isNone = false := by simpa using hsome
      rw [begin_hasFailed, isRefused, hnot]
      simp
    · rw [begin_exporterRef] at h
      rw [h] at hsome
      cases hsome
  · obtain ⟨hbegin, hended⟩ := applySelection_beginTime clock l s
    have href := applySelection_exporterRef clock hnone s
    have hholds : holdsExporter k f clock reads l =
        (applySelection clock l s).lease.status.exporterRef.isSome := by
      rw [href, holdsExporter, hs, hnone]
      cases s <;> rfl
    refine ⟨hspec.spec.trans (sameBut_applySelection clock l s).spec, ?_, ?_, ?_, ?_, ?_⟩
    · exact (begin_ended clock _).trans (hended.trans hl)
    · rw [begin_exporterRef, hholds]
    · rw [begin_beginTime, beginning, hholds, hbegin]
    · rw [begin_hasFailed, isRefused, hs, hnone]
      cases s with
      | wait d => simp
      | verdict v => rw [hasFailed_verdict]; cases v <;> rfl
      | assign a => simp [hasFailed, LeaseStatus.isTrue]
    · simp only [begin_exporterRef, begin_hasFailed]
      exact applySelection_requeue hs

variable {r : Stage}

theorem reconcile_settled (hl : l.status.ended = false) (h : reconcile k f clock reads l = .ok r) :
    ∃ st, Staged k f clock reads l st ∧ Settled clock st r := by
  obtain ⟨st, hst, rfl⟩ := reconcile_ok h
  exact ⟨_, staged_exporterRef hl hst, settled_ended clock _⟩

theorem reconcile_ended (hl : l.status.ended = true) (h : reconcile k f clock reads l = .ok r) :
    r.lease.status.ended = true := by
  obtain ⟨st, hst, rfl⟩ := reconcile_ok h
  rcases reconcileStatusExporterRef_ok hst with ⟨-, rfl⟩ | ⟨hlive, -⟩
  · have hbegin := (begin_ended clock l).trans hl
    simp [reconcileStatusEnded, hbegin]
  · rw [hl] at hlive
    cases hlive

/-! ## The next look -/

/-- The instant at which the lease expires: `EndTime` if it is set, else `Spec.BeginTime + Duration`,
else `Status.BeginTime + Duration`. -/
def dueTime (l : Lease) : Option Int :=
  match l.spec.endTime, l.spec.duration with
  | some e, _ => some e
  | none, some d => (l.spec.beginTime.or l.status.beginTime).map (· + d)
  | none, none => none

/-- A lease that has not ended is looked at again after a positive time: the time left, if it holds an
exporter. -/
structure Rescheduled (clock : Clock) (r : Stage) : Prop where
  positive : r.lease.status.ended = false → 0 < r.requeueAfter
  timeLeft : r.lease.status.ended = false → r.lease.status.exporterRef.isSome = true →
    ∃ due, dueTime r.lease = some due ∧ r.requeueAfter = subTime due clock.ended

theorem Rescheduled.of_ended (h : r.lease.status.ended = true) : Rescheduled clock r := by
  constructor
  · intro hlive
    rw [h] at hlive
    cases hlive
  · intro hlive
    rw [h] at hlive
    cases hlive

/-- The third stage looks at a lease that goes on at the instant of its expiration. -/
structure AtExpiration (k : K8s) (f : SortFunc) (clock : Clock) (reads : Reads) (l : Lease) : Prop where
  live : l.status.ended = false
  kept : l.spec.release = false
  sound : hasFailed l.status = false
  accepted : isRefused k f clock reads l = false
  now : ∃ began, beginning k f clock reads l = some began ∧ expiration l.spec began = clock.ended

theorem dueTime_of_expiration {began : Int} (hb : l.status.beginTime = some began)
    (h : 0 ≤ expiration l.spec began) : dueTime l = some (expiration l.spec began) := by
  unfold dueTime
  unfold expiration at h ⊢
  cases he : l.spec.endTime with
  | some e => rfl
  | none =>
    cases hd : l.spec.duration with
    | some d => cases l.spec.beginTime <;> simp [hb]
    | none =>
      -- without an end and a duration the expiration is the zero time
      have hzero : ¬ 0 ≤ zeroTime := by decide
      cases hb' : l.spec.beginTime <;> simp_all

theorem Staged.sound_iff (h : Staged k f clock reads l st) :
    hasFailed st.lease.status = false ↔ hasFailed l.status = false ∧ isRefused k f clock reads l = false := by
  rw [h.failed, Bool.or_eq_false_iff]

theorem Staged.rescheduled (hs : Staged k f clock reads l st) (hr : Settled clock st r)
    (hl : l.status.ended = false) (h : ¬ AtExpiration k f clock reads l) : Rescheduled clock r := by
  cases hr with
  | already hended =>
    rw [hs.live] at hended
    cases hended
  | failed live hf => exact .of_ended rfl
  | released live sound hrel => exact .of_ended rfl
  | expired live sound kept began begun hlt => exact .of_ended rfl
  | waiting live sound kept hnone =>
    -- a lease that has not begun holds no exporter
    have hnot : holdsExporter k f clock reads l = false := by
      have := hs.beginTime
      rw [hnone, beginning] at this
      split at this
      · cases this
      · rename_i hnot
        exact Bool.eq_false_iff.mpr hnot
    have href : st.lease.status.exporterRef.isSome = false := hs.exporterRef.trans hnot
    refine ⟨fun _ => hs.requeue (by simpa using href) sound, fun _ hsome => ?_⟩
    rw [href] at hsome
    cases hsome
  | running live sound kept began begun hle =>
    have hne : expiration st.lease.spec began ≠ clock.ended := by
      intro heq
      obtain ⟨hsound, haccepted⟩ := hs.sound_iff.mp sound
      refine h ⟨hl, hs.spec ▸ kept, hsound, haccepted, began, ?_, hs.spec ▸ heq⟩
      rw [← hs.beginTime, begun]
    have hlater : (clock.ended : Int) < expiration st.lease.spec began := by omega
    refine ⟨fun _ => subTime_pos.mpr hlater, fun _ _ => ?_⟩
    have hpos : 0 ≤ expiration st.lease.spec began := by omega
    exact ⟨_, dueTime_of_expiration begun hpos, rfl⟩

theorem AtExpiration.not_rescheduled (h : AtExpiration k f clock reads l)
    (hr : reconcile k f clock reads l = .ok r) : ¬ Rescheduled clock r := by
  obtain ⟨st, hs, hsettled⟩ := reconcile_settled h.live hr
  obtain ⟨began, hbegin, hnow⟩ := h.now
  have hsound := hs.sound_iff.mpr ⟨h.sound, h.accepted⟩
  have hkept : st.lease.spec.release = false := hs.spec ▸ h.kept
  have hbegun : st.lease.status.beginTime = some began := hs.beginTime.trans hbegin
  cases hsettled with
  | already hended =>
    rw [hs.live] at hended
    cases hended
  | failed live hf =>
    rw [hsound] at hf
    cases hf
  | released live sound hrel =>
    rw [hkept] at hrel
    cases hrel
  | waiting live sound kept hnone =>
    rw [hbegun] at hnone
    cases hnone
  | expired live sound kept began' begun hlt =>
    rw [hbegun] at begun
    cases begun
    rw [hs.spec, hnow] at hlt
    omega
  | running live sound kept began' begun hle =>
    rw [hbegun] at begun
    cases begun
    intro hres
    have hpos := hres.positive live
    simp only [hs.spec, hnow, subTime_pos] at hpos
    omega

/-- **A lease that has not ended is looked at again**, if and only if it is not at the instant of its
expiration. -/
theorem rescheduled_iff {r : Stage} (hr : reconcile k f clock reads l = .ok r) :
    Rescheduled clock r ↔ ¬ AtExpiration k f clock reads l := by
  refine ⟨fun h hat => hat.not_rescheduled hr h, fun h => ?_⟩
  cases hl : l.status.ended with
  | false =>
    obtain ⟨st, hs, hsettled⟩ := reconcile_settled hl hr
    exact hs.rescheduled hsettled hl h
  | true => exact .of_ended (reconcile_ended hl hr)

/-- A lease of `own` from 100 s to 3700 s. -/
def hourLease : Lease :=
  { boardLease with
    spec := { boardLease.spec with endTime := some (3700 * second) }
    status := { exporterRef := some "own", beginTime := some (100 * second) } }

/-- At 3700 s the lease goes on, and it is not looked at again. -/
theorem rescheduled_fails : ∃ r, reconcile anyK8s .insertion { ended := 3700000000000 } (twoTiers ["own"])
    hourLease = .ok r ∧ r.lease.status.ended = false ∧ r.requeueAfter = 0 :=
  ⟨_, rfl, rfl, rfl⟩

/-- A second earlier it is looked at again, after a second. -/
theorem rescheduled_before : ∃ r, reconcile anyK8s .insertion { ended := 3699000000000 }
    (twoTiers ["own"]) hourLease = .ok r ∧ Rescheduled { ended := 3699000000000 } r := by
  have hr : reconcile anyK8s .insertion { ended := 3699000000000 } (twoTiers ["own"]) hourLease =
      .ok { lease := hourLease, requeueAfter := second } := rfl
  refine ⟨_, hr, (rescheduled_iff hr).mpr fun h => ?_⟩
  obtain ⟨began, -, hnow⟩ := h.now
  have hnow : 3700 * second = 3699000000000 := hnow
  exact absurd hnow (by decide)

/-! ## Lapsed requests -/

/-- The results of `jumpstarter_lease_acquisitions_total`. -/
inductive AcquisitionResult
  | success
  | failure
  deriving DecidableEq, Repr

@[simp] def leaseAcquisitionTransitionResult (priorExporterRef : Option String) (priorUnsatisfiable : Bool)
    (l : Lease) : Option AcquisitionResult :=
  if priorExporterRef.isNone && l.status.exporterRef.isSome then some .success
  else if !priorUnsatisfiable && l.isTrue .unsatisfiable then some .failure
  else none

/-- `Spec.EndTime`, or `Spec.BeginTime + Duration`, is before `now`. -/
def lapsed (now : Int) (spec : LeaseSpec) : Bool :=
  match spec.endTime, spec.beginTime, spec.duration with
  | some e, _, _ => e < now
  | none, some b, some d => b + d < now
  | none, _, _ => false

section Inputs

variable (k : K8s) (f : SortFunc) (now : Int) (reads : Reads) (l : Lease)

end Inputs

theorem Settled.keeps (h : Settled clock st r) :
    r.lease.status.exporterRef = st.lease.status.exporterRef ∧
      r.lease.status.beginTime = st.lease.status.beginTime := by
  cases h <;> exact ⟨rfl, rfl⟩

theorem Settled.ends (h : Settled clock st r) (hl : st.lease.status.ended = false)
    (hended : r.lease.status.ended = true) :
    hasFailed st.lease.status = true ∨ st.lease.spec.release = true ∨
      st.lease.status.beginTime.isSome = true := by
  cases h with
  | already h => exact absurd h (by simp [hl])
  | failed live h => exact .inl h
  | released live sound h => exact .inr (.inl h)
  | waiting live sound kept h => exact absurd hended (by simp [hl])
  | expired live sound kept began begun h => exact .inr (.inr (by simp [begun]))
  | running live sound kept began begun h => exact absurd hended (by simp [hl])

theorem expiration_of_lapsed {began : Int} (h : lapsed clock.ended l.spec = true) :
    expiration l.spec began < clock.ended := by
  unfold lapsed at h
  unfold expiration
  split at h
  · rename_i he
    simpa [he] using h
  · rename_i he hb hd
    simpa [he, hb, hd] using h
  · cases h

theorem Settled.lapsed (h : Settled clock st r)
    (hlapsed : st.lease.spec.release = true ∨ lapsed clock.ended st.lease.spec = true)
    (hends : hasFailed st.lease.status = true ∨ st.lease.spec.release = true ∨
      st.lease.status.beginTime.isSome = true) :
    r.lease.status.ended = true := by
  cases h with
  | already h => exact h
  | failed live h => rfl
  | released live sound h => rfl
  | waiting live sound kept h => simp [sound, kept, h] at hends
  | expired live sound kept began begun h => rfl
  | running live sound kept began begun h =>
    have hlapsed := hlapsed.resolve_left (by simp [kept])
    exact absurd (expiration_of_lapsed hlapsed) h

section

variable (hnone : l.status.exporterRef = none)
include hnone

end

end Jumpstarter.LeaseReconciler
