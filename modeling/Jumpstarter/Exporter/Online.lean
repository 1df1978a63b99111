import Jumpstarter.Exporter.Reconcile
import Jumpstarter.Lib.Sys

/-!
# When the condition `Online` is false

The writers of one exporter's status (`Jumpstarter/Exporter/Reconcile.lean`) as a system: the calls
of the exporter are atomic; a `Reconcile` is three steps, its read, the computation of its change
and its patch.

- `St.reportedOffline`: the latest `ReportStatus` or `Unregister` of the exporter since it last
  connected reported `Offline`.
- `Justified`, after every patch: `Online` is false of an exporter seen in the last minute only if it
  reported `Offline`.
- `justified_fails`: a `Reconcile` that read before the exporter connected writes its verdict over the
  connected exporter. And without any race, a `Reconcile` that finds `LastSeen` old writes `Offline` as
  the exporter's status, which the next one takes for a report of the exporter.
- `justified_of_unraced`: so it is in every run in which a patch meets the fields that its verdict rests
  on as they were read, and no tick comes while the status is an `Offline` that was not reported.
-/

namespace Jumpstarter.Online

open Lib Exporter

/-- A `Reconcile` in progress, with the status that it read. -/
inductive Inflight where
  | idle
  | got (orig : ExporterStatus)
  /-- The change was computed, with the clock at `time`. -/
  | computed (orig new : ExporterStatus) (time : Int)

/-- The exporter in the store, the clock, and the `Reconcile` in progress. -/
structure St where
  now : Int
  exporter : Exporter
  inflight : Inflight
  /-- The latest report of the exporter since it connected is `Offline`. -/
  reportedOffline : Bool

inductive Act where
  | advance (d : Nat)
  | register (labels : Labels) (reports : List Device)
  | reportStatus (value : Exporter.ProtoStatus) (message : String)
  | unregister (reason : String)
  | connect
  | tick
  | read
  | compute (leases : List Lease) (endpoint : String)
  | patch
  /-- The `Reconcile` fails, or its patch does. -/
  | fail

/-- A call of the exporter that reads the exporter and patches its status to that of `f`. -/
def St.call (s : St) (f : Exporter → Exporter) : St :=
  { s with exporter := { f s.exporter with
      status := s.exporter.status.mergePatch (f s.exporter).status s.exporter.status } }

def step (s : St) : Act → Option St
  | .advance d => some { s with now := s.now + d }
  | .register labels reports => some (s.call (·.register labels reports))
  | .reportStatus value message =>
    some { s.call (·.reportStatus s.now value message) with
      reportedOffline := Exporter.protoStatusToString value = .offline }
  | .unregister reason =>
    some { s.call (·.unregister s.now reason) with reportedOffline := true }
  | .connect => some { s.call (·.connect s.now) with reportedOffline := false }
  | .tick => some (s.call (·.tick s.now))
  | .read =>
    match s.inflight with
    | .idle => some { s with inflight := .got s.exporter.status }
    | _ => none
  | .compute leases endpoint =>
    match s.inflight with
    | .got orig =>
      let e := { s.exporter with status := orig }
      some { s with inflight := .computed orig (e.reconcile s.now leases endpoint).status s.now }
    | _ => none
  | .patch =>
    match s.inflight with
    | .computed orig new _ =>
      some { s with
        exporter := { s.exporter with status := orig.mergePatch new s.exporter.status }
        inflight := .idle }
    | _ => none
  | .fail => some { s with inflight := .idle }

/-- The runs of an exporter from its creation. -/
def sys : Sys St Act where
  init s := s.exporter.status = {} ∧ s.inflight = .idle ∧ s.reportedOffline = false
  step := step

/-- `LastSeen` is at most one minute old. -/
def Recent (now : Int) (st : ExporterStatus) : Prop := ∃ t, st.lastSeen = some t ∧ now - t ≤ minute

/-- `Online` is false of an exporter seen in the last minute only if it reported `Offline`. -/
def Justified (s : St) : Prop :=
  Recent s.now s.exporter.status →
    isStatusCondition s.exporter.status.conditions .online .false = true → s.reportedOffline = true

/-- A patch meets the fields that its verdict rests on as they were read (ticks may have refreshed a
`LastSeen` that was recent), and no tick comes while the status is an `Offline` that the exporter
did not report. -/
def Unraced (s : St) : Act → Prop
  | .patch => ∀ orig new time, s.inflight = .computed orig new time →
    s.exporter.status.conditions = orig.conditions ∧
    s.exporter.status.exporterStatusValue = orig.exporterStatusValue ∧
    (s.exporter.status.lastSeen = orig.lastSeen ∨ Recent time orig)
  | .tick => s.exporter.status.exporterStatusValue = .offline → s.reportedOffline = true
  | _ => True

/-! ## The defects -/

def start : St := ⟨0, { name := "exporter" }, .idle, false⟩

/-- A `Reconcile` reads the exporter, the exporter connects, the `Reconcile` patches. -/
def racedRun : List Act := [.read, .compute [] "", .connect]

/-- The exporter connects and is not seen for 61 s; a `Reconcile` marks it offline; a tick; another
`Reconcile`. -/
def lateTickRun : List Act :=
  [.connect, .advance 61000000000, .read, .compute [] "", .patch, .tick, .read, .compute [] ""]

/-- Right after a patch `Online` is false, `LastSeen` is the present, and the exporter reported
nothing: by a race, and without one. -/
theorem justified_fails :
    (∃ s s', sys.exec start racedRun = some s ∧ sys.Reach s ∧ step s .patch = some s' ∧
      ¬ Justified s') ∧
    (∃ s s', sys.exec start lateTickRun = some s ∧ sys.Reach s ∧ step s .patch = some s' ∧ ¬ Justified s') := by
  have hr : sys.Reach start := .init ⟨rfl, rfl, rfl⟩
  refine ⟨⟨_, _, rfl, hr.exec racedRun rfl, rfl, fun h => ?_⟩,
    ⟨_, _, rfl, hr.exec lateTickRun rfl, rfl, fun h => ?_⟩⟩
  · exact absurd (h ⟨0, by decide, by decide⟩ (by decide)) (by decide)
  · exact absurd (h ⟨61000000000, by decide, by decide⟩ (by decide)) (by decide)

/-! ## One `Reconcile` -/

theorem Recent.mono {now now' : Int} {st st' : ExporterStatus} (h : Recent now' st')
    (hn : now ≤ now') (hl : st'.lastSeen = st.lastSeen) : Recent now st := by
  obtain ⟨t, ht, hle⟩ := h
  exact ⟨t, hl ▸ ht, by omega⟩

variable (now : Int) (leases : List Lease) (endpoint : String) (e : Exporter)

theorem reconcile_lastSeen : (e.reconcile now leases endpoint).status.lastSeen = e.status.lastSeen := by
  obtain ⟨e', hs, -, h⟩ := e.reconcile_eq now leases endpoint
  rw [h, ← hs]
  simp [reconcileStatusEndpoint]

theorem reconcile_value :
    (e.reconcile now leases endpoint).status.exporterStatusValue = e.status.exporterStatusValue ∨
      ¬ Recent now e.status := by
  by_cases hr : Recent now e.status
  · obtain ⟨t, ht, hle⟩ := hr
    obtain ⟨e', hs, hv, h⟩ := e.reconcile_eq now leases endpoint
    refine .inl ?_
    rw [h, ← hv, ← (reconcileOnline_of_recent (hs.trans ht) hle).1]
    exact reconcileRegistered_value now _
  · exact .inr hr

theorem reconcile_online
    (h : isStatusCondition (e.reconcile now leases endpoint).status.conditions .online .false = true) :
    ¬ Recent now e.status ∨ e.status.exporterStatusValue = .offline := by
  by_cases hr : Recent now e.status
  · obtain ⟨t, ht, hle⟩ := hr
    obtain ⟨e', hs, hv, he⟩ := e.reconcile_eq now leases endpoint
    have hd := (reconcileOnline_of_recent (hs.trans ht) hle).2
    have hreg := reconcileRegistered_online now (e'.reconcileOnline now) .false
    rw [he] at h
    change isStatusCondition ((e'.reconcileOnline now).reconcileRegistered now).status.conditions
      .online .false = true at h
    rw [hreg, hd, decide_eq_true_eq, hv] at h
    exact .inr h
  · exact .inl hr

/-! ## The invariant -/

/-- The stored form of `LastSeen`. -/
def WholeSeconds (st : ExporterStatus) : Prop := st.lastSeen.map truncateSecond = st.lastSeen

/-- The status that the `Reconcile` in progress read. -/
def Inflight.orig : Inflight → Option ExporterStatus
  | .idle => none
  | .got orig | .computed orig _ _ => some orig

/-- The invariant: an `Offline` of an exporter seen recently is its own report; a computed change is
that of `reconcile` at an earlier time. -/
structure Inv (s : St) : Prop where
  offline : s.exporter.status.exporterStatusValue = .offline →
    s.reportedOffline = true ∨ ¬ Recent s.now s.exporter.status
  computed : ∀ orig new time, s.inflight = .computed orig new time → time ≤ s.now ∧
    ∃ (e : Exporter) (leases : List Lease) (endpoint : String),
      e.status = orig ∧ new = (e.reconcile time leases endpoint).status
  stored : WholeSeconds s.exporter.status
  read : ∀ orig, s.inflight.orig = some orig → WholeSeconds orig

theorem mergePatch_call (s : St) (f : Exporter → Exporter) :
    (s.call f).exporter.status = (f s.exporter).status.stored :=
  ExporterStatus.mergePatch_self _ _

theorem wholeSeconds_stored (st : ExporterStatus) : WholeSeconds st.stored := by
  simp only [WholeSeconds, ExporterStatus.stored]
  cases st.lastSeen <;> simp

variable {s : St}

theorem Inv.call (hi : Inv s) (f : Exporter → Exporter) (reported : Bool)
    (hv : (f s.exporter).status.exporterStatusValue = .offline →
      reported = true ∨ ¬ Recent s.now (s.call f).exporter.status) :
    Inv { s.call f with reportedOffline := reported } := by
  have hst := mergePatch_call s f
  refine ⟨fun h => hv ?_, hi.computed, ?_, hi.read⟩
  · change (s.call f).exporter.status.exporterStatusValue = _ at h
    rw [hst] at h
    exact h
  · show WholeSeconds (s.call f).exporter.status
    rw [hst]
    exact wholeSeconds_stored _

variable {orig new : ExporterStatus} {time : Int}

theorem Inv.patched (hi : Inv s) (hok : Unraced s .patch) (hc : s.inflight = .computed orig new time) :
    (orig.mergePatch new s.exporter.status).lastSeen = s.exporter.status.lastSeen ∧
    (orig.mergePatch new s.exporter.status).exporterStatusValue = new.exporterStatusValue ∧
    (orig.mergePatch new s.exporter.status).conditions = storedConditions new.conditions := by
  obtain ⟨hcond, hval, -⟩ := hok orig new time hc
  obtain ⟨-, e, leases, endpoint, he, hnew⟩ := hi.computed orig new time hc
  have hseen : new.lastSeen = orig.lastSeen := by rw [hnew, reconcile_lastSeen, he]
  have horig : WholeSeconds orig := hi.read orig (by rw [hc]; rfl)
  refine ⟨?_, ?_, ?_⟩
  · show mergeField orig.lastSeen (new.lastSeen.map truncateSecond) s.exporter.status.lastSeen = _
    rw [hseen, horig, mergeField_same]
  · show mergeField orig.exporterStatusValue new.exporterStatusValue _ = _
    rw [hval, mergeField_self]
  · show mergeField orig.conditions (storedConditions new.conditions) _ = _
    rw [hcond, mergeField_self]

theorem not_recent_of_read (hok : Unraced s .patch) (hc : s.inflight = .computed orig new time)
    (ht : time ≤ s.now) (hr : ¬ Recent time orig) : ¬ Recent s.now s.exporter.status := by
  obtain ⟨-, -, hseen | hseen⟩ := hok orig new time hc
  · exact fun h => hr (h.mono ht hseen)
  · exact absurd hseen hr

theorem Inv.patch (hi : Inv s) (hok : Unraced s .patch) (hc : s.inflight = .computed orig new time) :
    Inv { s with
      exporter := { s.exporter with status := orig.mergePatch new s.exporter.status }
      inflight := .idle } := by
  obtain ⟨hseen, hvalue, -⟩ := hi.patched hok hc
  obtain ⟨ht, e, leases, endpoint, rfl, hnew⟩ := hi.computed orig new time hc
  obtain ⟨-, hval, -⟩ := hok _ new time hc
  refine ⟨fun h => ?_, fun _ _ _ h => (nomatch h), ?_, fun _ h => (nomatch h)⟩
  · -- An `Offline` after the patch was there before it, or the verdict is that of a time-out.
    have hkeep : ¬ Recent s.now s.exporter.status →
        ¬ Recent s.now (e.status.mergePatch new s.exporter.status) :=
      fun hn hr => hn (hr.mono (Int.le_refl _) hseen)
    change (e.status.mergePatch new s.exporter.status).exporterStatusValue = _ at h
    rw [hvalue, hnew] at h
    rcases reconcile_value time leases endpoint e with hv | hr
    · rw [hv, ← hval] at h
      exact (hi.offline h).imp id hkeep
    · exact .inr (hkeep (not_recent_of_read hok hc ht hr))
  · show WholeSeconds (e.status.mergePatch new s.exporter.status)
    rw [WholeSeconds, hseen]
    exact hi.stored

theorem Inv.step {s' : St} (hi : Inv s) {a : Act} (hok : Unraced s a) (h : step s a = some s') : Inv s' := by
  cases a with
  | advance d =>
    cases h
    refine ⟨fun h => (hi.offline h).imp id fun hn hr => hn (hr.mono (by simp only; omega) rfl),
      fun orig new time hc => ?_, hi.stored, hi.read⟩
    obtain ⟨ht, hnew⟩ := hi.computed orig new time hc
    exact ⟨by simp only; omega, hnew⟩
  | register labels reports =>
    cases h
    refine hi.call (·.register labels reports) s.reportedOffline fun hv => ?_
    refine (hi.offline hv).imp id fun hn hr => hn (hr.mono (Int.le_refl _) ?_)
    rw [mergePatch_call]
    exact hi.stored
  | reportStatus value message =>
    cases h
    refine hi.call (·.reportStatus s.now value message) _ fun hv => .inl ?_
    rw [reportStatus, syncOnlineConditionWithStatus_value] at hv
    exact decide_eq_true hv
  | unregister reason =>
    cases h
    exact hi.call (·.unregister s.now reason) _ fun _ => .inl rfl
  | connect =>
    cases h
    exact hi.call (·.connect s.now) _ fun hv => absurd hv (connect_value s.now s.exporter)
  | tick =>
    cases h
    exact hi.call (·.tick s.now) s.reportedOffline fun hv => .inl (hok hv)
  | read =>
    simp only [Online.step] at h
    split at h
    · cases h
      refine ⟨hi.offline, fun _ _ _ h => (nomatch h), hi.stored, fun orig h => ?_⟩
      cases h
      exact hi.stored
    · cases h
  | compute leases endpoint =>
    simp only [Online.step] at h
    split at h
    · rename_i orig hg
      cases h
      refine ⟨hi.offline, fun orig' new time hc => ?_, hi.stored, fun orig' ho => hi.read orig' ?_⟩
      · cases hc
        exact ⟨Int.le_refl _, { s.exporter with status := orig }, leases, endpoint, rfl, rfl⟩
      · rw [hg]
        exact ho
    · cases h
  | patch =>
    simp only [Online.step] at h
    split at h
    · rename_i hc
      cases h
      exact hi.patch hok hc
    · cases h
  | fail =>
    cases h
    exact ⟨hi.offline, fun _ _ _ h => (nomatch h), hi.stored, fun _ h => nomatch h⟩

theorem inductive_inv : sys.InductiveIf Unraced Inv where
  init s hs := by
    obtain ⟨he, hf, -⟩ := hs
    refine ⟨fun h => ?_, fun _ _ _ h => ?_, ?_, fun _ h => ?_⟩
    · rw [he] at h
      cases h
    · rw [hf] at h
      cases h
    · rw [he]
      rfl
    · rw [hf] at h
      cases h
  step _ _ _ hi hok hst := hi.step hok hst

/-- **An offline verdict is justified** after every patch of a run whose steps meet `Unraced`. -/
theorem justified_of_unraced {s s' : St} (hs : sys.ReachIf Unraced s) (hok : Unraced s .patch)
    (h : sys.step s .patch = some s') : Justified s' := by
  have hi := inductive_inv.reach hs
  change step s .patch = some s' at h
  simp only [step] at h
  split at h
  · rename_i orig new time hc
    cases h
    intro hr ho
    obtain ⟨hseen, -, hcond⟩ := hi.patched hok hc
    obtain ⟨ht, e, leases, endpoint, rfl, hnew⟩ := hi.computed orig new time hc
    have hr' : Recent s.now s.exporter.status := hr.mono (Int.le_refl _) hseen
    change isStatusCondition (e.status.mergePatch new s.exporter.status).conditions _ _ = true at ho
    rw [hcond, isStatusCondition_storedConditions, hnew] at ho
    rcases reconcile_online time leases endpoint e ho with hn | hv
    · exact absurd hr' (not_recent_of_read hok hc ht hn)
    · obtain ⟨-, hval, -⟩ := hok _ new time hc
      rcases hi.offline (hval.trans hv) with h | h
      · exact h
      · exact absurd hr' h
  · cases h

/-- An exporter that connects and reports `Offline`: the next `Reconcile` says so. -/
theorem justified_shutdown : ∃ s s' : St, sys.ReachIf Unraced s ∧ sys.step s .patch = some s' ∧
    isStatusCondition s'.exporter.status.conditions .online .false = true ∧ Justified s' := by
  have h0 : sys.ReachIf Unraced start := .init ⟨rfl, rfl, rfl⟩
  have h1 := h0.step (a := Act.connect) trivial rfl
  have h2 := h1.step (a := Act.reportStatus .offline "shutting down") trivial rfl
  have h3 := h2.step (a := Act.read) trivial rfl
  have h4 := h3.step (a := Act.compute [] "") trivial rfl
  refine ⟨_, _, h4, rfl, by decide, justified_of_unraced h4 ?_ rfl⟩
  intro orig new time hc
  cases hc
  exact ⟨rfl, rfl, .inl rfl⟩

end Jumpstarter.Online
