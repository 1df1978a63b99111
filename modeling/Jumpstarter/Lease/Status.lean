import Jumpstarter.Lease.Reconcile

/-!
# The state machine of a lease status

What one `Reconcile` makes of a status that satisfies `StatusOk`: it satisfies it again, and it
moved forward (`Forward`): an exporter and a begin stay, and an ended status is final.

Between its stages the status is not `StatusOk`: an exporter is assigned before the lease begins,
and a condition that ends the lease is set before the lease is ended. `Open` is what the first two
stages leave to the third.
-/

namespace Jumpstarter.LeaseReconciler

open Lib

/-- The condition `Unsatisfiable` or `Invalid` is true. -/
def hasFailed (st : LeaseStatus) : Bool := st.isTrue .unsatisfiable || st.isTrue .invalid

theorem hasFailed_setReady (now : Int) (l : Lease) (status : Bool) (reason message : String) :
    hasFailed (setStatus now l .ready status reason message).status = hasFailed l.status := by
  show ((setStatus now l .ready status reason message).isTrue .unsatisfiable ||
    (setStatus now l .ready status reason message).isTrue .invalid) = _
  rw [setStatus_isTrue, setStatus_isTrue]
  rfl

structure StatusOk (st : LeaseStatus) : Prop where
  begun : st.exporterRef.isSome = st.beginTime.isSome
  ended : st.ended = true → st.endTime.isSome = true
  ready : st.isTrue .ready = (st.exporterRef.isSome && !st.ended)
  failed : hasFailed st = true → st.exporterRef = none ∧ st.ended = true

/-- A status that the third stage gets: not ended, and `StatusOk` but for a failure. -/
structure Open (st : LeaseStatus) : Prop where
  live : st.ended = false
  begun : st.exporterRef.isSome = st.beginTime.isSome
  ready : st.isTrue .ready = st.exporterRef.isSome
  failed : hasFailed st = true → st.exporterRef = none

/-- How a status changes: an exporter and a begin stay, and an ended status is final. -/
structure Forward (st st' : LeaseStatus) : Prop where
  exporterRef : ∀ name, st.exporterRef = some name → st'.exporterRef = some name
  beginTime : ∀ t, st.beginTime = some t → st'.beginTime = some t
  ended : st.ended = true → st' = st

theorem Forward.refl (st : LeaseStatus) : Forward st st := ⟨fun _ h => h, fun _ h => h, fun _ => rfl⟩

variable {st st' : LeaseStatus}

theorem Forward.trans {st'' : LeaseStatus} (h : Forward st st') (h' : Forward st' st'') : Forward st st'' := by
  refine ⟨fun n hn => h'.exporterRef n (h.exporterRef n hn),
    fun t ht => h'.beginTime t (h.beginTime t ht), fun he => ?_⟩
  have hst := h.ended he
  rw [h'.ended (by rw [hst]; exact he), hst]

theorem Forward.live (h : Forward st st') (hl : st'.ended = false) : st.ended = false := by
  cases he : st.ended with
  | false => rfl
  | true =>
    rw [h.ended he, he] at hl
    cases hl

theorem StatusOk.new : StatusOk {} := by
  refine ⟨rfl, ?_, rfl, ?_⟩
  · intro h
    cases h
  · intro h
    cases h

/-! ## The first two stages -/

theorem StatusOk.toOpen (h : StatusOk st) (hl : st.ended = false) : Open st := by
  refine ⟨hl, h.begun, ?_, fun hf => (h.failed hf).1⟩
  rw [h.ready, hl]
  simp

variable {l : Lease}

theorem Open.setStatus (h : Open l.status) (hn : l.status.exporterRef = none) (now : Int)
    {t : LeaseConditionType} (ht : t ≠ .ready) (reason message : String) :
    Open (setStatus now l t true reason message).status := by
  refine ⟨h.live, h.begun, ?_, fun _ => hn⟩
  show (LeaseReconciler.setStatus now l t true reason message).isTrue .ready = _
  rw [setStatus_isTrue, if_neg ht]
  exact h.ready

theorem begin_of_begun (clock : Clock) (h : l.status.exporterRef.isSome = l.status.beginTime.isSome) :
    reconcileStatusBeginEndTimes clock l = l := by
  unfold reconcileStatusBeginEndTimes
  rw [h]
  cases l.status.beginTime <;> simp

variable {clock : Clock}

theorem StatusOk.open (h : StatusOk l.status) (hl : l.status.ended = false) {k : K8s} {f : SortFunc}
    {reads : Reads} {st : Stage} (hst : reconcileStatusExporterRef k f clock reads l = .ok st) :
    Open (reconcileStatusBeginEndTimes clock st.lease).status ∧
      Forward l.status (reconcileStatusBeginEndTimes clock st.lease).status := by
  have ho := h.toOpen hl
  rcases reconcileStatusExporterRef_ok hst with ⟨-, rfl⟩ | ⟨-, hnone, s, -, rfl⟩
  · rw [begin_of_begun clock h.begun]
    exact ⟨ho, .refl _⟩
  -- The lease has no exporter, so no begin, and nothing that must stay.
  have hbegin : l.status.beginTime = none := by
    have := h.begun
    rw [hnone] at this
    simpa using this.symm
  have hforward : ∀ st', Forward l.status st' := fun st' => by
    refine ⟨fun n hn => ?_, fun t ht => ?_, fun he => ?_⟩
    · rw [hnone] at hn
      cases hn
    · rw [hbegin] at ht
      cases ht
    · rw [hl] at he
      cases he
  refine ⟨?_, hforward _⟩
  cases s with
  | wait requeueAfter =>
    rw [applySelection, begin_of_begun clock h.begun]
    exact ho
  | verdict v =>
    cases v with
    | invalid reason message =>
      have ho' := ho.setStatus hnone clock.verdict (t := .invalid) (by simp) reason message
      rw [applySelection, begin_of_begun clock ho'.begun]
      exact ho'
    | unsatisfiable reason message =>
      have ho' := ho.setStatus hnone clock.verdict (t := .unsatisfiable) (by simp) reason message
      rw [applySelection, begin_of_begun clock ho'.begun]
      exact ho'
    | pending reason message =>
      have ho' := ho.setStatus hnone clock.verdict (t := .pending) (by simp) reason message
      simp only [applySelection]
      rw [begin_of_begun clock ho'.begun]
      exact ho'
  | assign a =>
    -- The begin and `Ready` follow in the second stage; nothing has failed.
    have hnf : hasFailed l.status = false := by
      by_contra hf
      have := (h.failed (by simpa using hf)).2
      rw [hl] at this
      cases this
    simp only [applySelection, reconcileStatusBeginEndTimes, hbegin, Option.isNone_none,
      Option.isSome_some, Bool.and_self, if_true]
    refine ⟨hl, rfl, ?_, fun hf => ?_⟩
    · show (LeaseReconciler.setStatus _ _ _ _ _ _).isTrue .ready = _
      rw [setStatus_isTrue]
      rfl
    · rw [hasFailed_setReady] at hf
      exact absurd (hnf ▸ hf : false = true) (by simp)

/-! ## The third stage -/

theorem close_ok (h : Open l.status) (hf : hasFailed l.status = false) (reason message : String) :
    StatusOk (close clock l reason message).status := by
  refine ⟨h.begun, fun _ => rfl, ?_, fun hf' => ?_⟩
  · show (LeaseReconciler.setStatus clock.unready l .ready false reason message).isTrue .ready = _
    simp [close]
  · have hf'' : hasFailed (LeaseReconciler.setStatus clock.unready l .ready false reason
        message).status = true := hf'
    rw [hasFailed_setReady, hf] at hf''
    cases hf''

theorem Open.ended (h : Open l.status) (st : Stage) (clock : Clock) :
    StatusOk (reconcileStatusEnded clock { st with lease := l }).lease.status ∧
      Forward l.status (reconcileStatusEnded clock { st with lease := l }).lease.status := by
  have hkeep : ∀ st' : LeaseStatus, st'.exporterRef = l.status.exporterRef →
      st'.beginTime = l.status.beginTime → Forward l.status st' := by
    intro st' he hb
    refine ⟨fun n hn => he.trans hn, fun t ht => hb.trans ht, fun hended => ?_⟩
    rw [h.live] at hended
    cases hended
  unfold reconcileStatusEnded
  simp only
  split
  · rename_i he
    rw [h.live] at he
    cases he
  split
  · rename_i hf
    have hnone := h.failed hf
    refine ⟨⟨h.begun, fun _ => rfl, ?_, fun _ => ⟨hnone, rfl⟩⟩, hkeep _ rfl rfl⟩
    show l.status.isTrue .ready = _
    rw [h.ready, hnone]
    rfl
  rename_i hf
  have hnf : hasFailed l.status = false := Bool.eq_false_iff.mpr hf
  split
  · exact ⟨close_ok h hnf _ _, hkeep _ rfl rfl⟩
  have hok : StatusOk l.status := by
    refine ⟨h.begun, fun he => ?_, ?_, fun hf' => ?_⟩
    · rw [h.live] at he
      cases he
    · rw [h.ready, h.live]
      simp
    · rw [hnf] at hf'
      cases hf'
  split
  · exact ⟨hok, .refl _⟩
  · split
    · exact ⟨close_ok h hnf _ _, hkeep _ rfl rfl⟩
    · exact ⟨hok, .refl _⟩

/-! ## All stages, and the stored form -/

theorem StatusOk.reconcile (h : StatusOk l.status) {k : K8s} {f : SortFunc} {reads : Reads} {r : Stage}
    (hr : reconcile k f clock reads l = .ok r) :
    StatusOk r.lease.status ∧ Forward l.status r.lease.status := by
  obtain ⟨st, hst, rfl⟩ := reconcile_ok hr
  cases hl : l.status.ended with
  | true =>
    -- No stage touches an ended lease.
    rcases reconcileStatusExporterRef_ok hst with ⟨-, rfl⟩ | ⟨hlive, -⟩
    · rw [begin_of_begun clock h.begun]
      unfold reconcileStatusEnded
      simp only [hl, if_true]
      exact ⟨h, .refl _⟩
    · rw [hl] at hlive
      cases hlive
  | false =>
    obtain ⟨ho, hf⟩ := h.open hl hst
    obtain ⟨hok, hf'⟩ := ho.ended st clock
    exact ⟨hok, hf.trans hf'⟩

theorem StatusOk.stored (h : StatusOk st) : StatusOk st.stored := by
  refine ⟨?_, fun he => ?_, ?_, fun hf => ?_⟩
  · simpa [LeaseStatus.stored] using h.begun
  · simpa [LeaseStatus.stored] using h.ended he
  · simpa [LeaseStatus.stored, LeaseStatus.isTrue] using h.ready
  · exact h.failed (by simpa [LeaseStatus.stored, hasFailed, LeaseStatus.isTrue] using hf)

theorem Forward.stored (hst : st.stored = st) (h : Forward st st') : Forward st st'.stored := by
  refine ⟨h.exporterRef, fun t ht => ?_, fun he => ?_⟩
  · have hb : st.beginTime.map truncateSecond = st.beginTime := congrArg LeaseStatus.beginTime hst
    rw [ht] at hb
    simp only [LeaseStatus.stored, h.beginTime t ht]
    exact hb
  · rw [h.ended he]
    exact hst

end Jumpstarter.LeaseReconciler
