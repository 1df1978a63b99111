import Jumpstarter.Lease.Select

/-!
# The status of a lease (`LeaseReconciler.Reconcile`)

The three stages of `Reconcile` on the lease that it read: `reconcileStatusExporterRef` assigns an
exporter or sets a condition, `reconcileStatusBeginEndTimes` starts the lease and
`reconcileStatusEnded` ends it. Each reads what the one before left in memory. `reconcile` is all
three; the writes that follow are in `Jumpstarter/Lease/System.lean`.

Every reading of the clock is its own (`Clock`), in nanoseconds since the Unix epoch; nothing says
that a later one is not smaller.
-/

namespace Jumpstarter.LeaseReconciler

open Lib

/-- The readings of the clock in one `Reconcile`. -/
structure Clock where
  /-- In `reconcileStatusExporterRef`, for a scheduled lease. -/
  schedule : Nat := 0
  /-- Of the condition that `reconcileStatusExporterRef` sets. -/
  verdict : Nat := 0
  /-- In `pendingRequeueAfter`. -/
  requeue : Nat := 0
  beginTime : Nat := 0
  /-- Of the condition `Ready` when the lease begins. -/
  ready : Nat := 0
  /-- In `reconcileStatusEnded`. -/
  ended : Nat := 0
  /-- `Status.EndTime` of a released or expired lease. -/
  endTime : Nat := 0
  /-- Of the condition `Ready` when the lease ends. -/
  unready : Nat := 0

/-- `Lease.SetStatusCondition`. -/
def setStatus (now : Int) (l : Lease) (t : LeaseConditionType) (status : Bool)
    (reason message : String) : Lease :=
  { l with status := { l.status with
      conditions := setStatusCondition now l.status.conditions
        { type := t, status := if status then .true else .false,
          observedGeneration := l.generation, lastTransitionTime := some now, reason, message } } }

def maxPendingRequeue : Int := 30 * second

/-- The loop of `pendingRequeueAfter`: at most `fuel` doublings. -/
def pendingBackoff (elapsed : Int) : Nat → Int → Int
  | 0, backoff => backoff
  | fuel + 1, backoff =>
    if backoff < maxPendingRequeue ∧ backoff < elapsed then pendingBackoff elapsed fuel (backoff * 2)
    else backoff

theorem pendingBackoff_exits (elapsed : Int) :
    ¬ (pendingBackoff elapsed 5 second < maxPendingRequeue ∧ pendingBackoff elapsed 5 second < elapsed) := by
  simp only [pendingBackoff, maxPendingRequeue, second]
  omega

def pendingRequeueAfter (now : Int) (l : Lease) : Int :=
  match findStatusCondition l.status.conditions .pending with
  | none => second
  | some c =>
    let elapsed := subTime now (c.lastTransitionTime.getD zeroTime)
    min (pendingBackoff elapsed 5 second) maxPendingRequeue

/-- A lease in the hands of a `Reconcile`, and the delay after which it is looked at again. -/
structure Stage where
  lease : Lease
  requeueAfter : Int := 0
  /-- The exporter that this `Reconcile` assigned. -/
  assigned : Option ApprovedExporter := none

/-- The lease after a decision of `reconcileStatusExporterRef`. -/
def applySelection (clock : Clock) (l : Lease) : Selection → Stage
  | .wait requeueAfter => { lease := l, requeueAfter }
  | .verdict (.invalid reason message) =>
    { lease := setStatus clock.verdict l .invalid true reason message }
  | .verdict (.unsatisfiable reason message) =>
    { lease := setStatus clock.verdict l .unsatisfiable true reason message }
  | .verdict (.pending reason message) =>
    let l := setStatus clock.verdict l .pending true reason message
    { lease := l, requeueAfter := pendingRequeueAfter clock.requeue l }
  | .assign a =>
    { lease := { l with status := { l.status with
        priority := a.policy.priority
        spotAccess := a.policy.spotAccess
        exporterRef := some a.exporter.name } }
      assigned := some a }

def reconcileStatusExporterRef (k : K8s) (f : SortFunc) (clock : Clock) (reads : Reads) (l : Lease) :
    Except String Stage :=
  if l.status.ended then .ok { lease := l }
  else if l.status.exporterRef.isSome then .ok { lease := l }
  else
    match selectExporter k f clock.schedule reads l with
    | .error err => .error err
    | .ok s => .ok (applySelection clock l s)

def reconcileStatusBeginEndTimes (clock : Clock) (l : Lease) : Lease :=
  if l.status.beginTime.isNone && l.status.exporterRef.isSome then
    let l := { l with status := { l.status with beginTime := some (clock.beginTime : Int) } }
    setStatus clock.ready l .ready true "Ready" "An exporter has been acquired for the client"
  else l

/-- The instant at which `reconcileStatusEnded` lets a lease expire that began at `began`. -/
def expiration (spec : LeaseSpec) (began : Int) : Int :=
  match spec.endTime with
  | some e => e
  | none =>
    match spec.beginTime, spec.duration with
    | some b, some d => b + d
    | none, some d => began + d
    | _, none => zeroTime

/-- The lease ended: `Release` and `Expire`. -/
def close (clock : Clock) (l : Lease) (reason message : String) : Lease :=
  let l := setStatus clock.unready l .ready false reason message
  { l with status := { l.status with ended := true, endTime := some (clock.endTime : Int) } }

def release (clock : Clock) (l : Lease) : Lease :=
  close clock l "Released" "The lease was marked for release"

def expire (clock : Clock) (l : Lease) : Lease := close clock l "Expired" "The lease has expired"

def reconcileStatusEnded (clock : Clock) (st : Stage) : Stage :=
  let l := st.lease
  if l.status.ended then st
  else if l.isTrue .unsatisfiable || l.isTrue .invalid then
    { st with lease := { l with status := { l.status with
        ended := true, endTime := some (clock.ended : Int) } } }
  else if l.spec.release then { st with lease := release clock l }
  else
    match l.status.beginTime with
    | none => st
    | some began =>
      if expiration l.spec began < clock.ended then { st with lease := expire clock l }
      else { st with requeueAfter := subTime (expiration l.spec began) clock.ended }

/-- The stages of `Reconcile`. -/
def reconcile (k : K8s) (f : SortFunc) (clock : Clock) (reads : Reads) (l : Lease) :
    Except String Stage :=
  match reconcileStatusExporterRef k f clock reads l with
  | .error err => .error err
  | .ok st =>
    .ok (reconcileStatusEnded clock
      { st with lease := reconcileStatusBeginEndTimes clock st.lease })

/-! ## What a `Reconcile` changes -/

@[simp] theorem setStatus_isTrue (now : Int) (l : Lease) (t : LeaseConditionType) (status : Bool)
    (reason message : String) (t' : LeaseConditionType) :
    (setStatus now l t status reason message).isTrue t' =
      if t = t' then status else l.isTrue t' := by
  unfold Lease.isTrue LeaseStatus.isTrue setStatus
  rw [isStatusConditionTrue_setStatusCondition]
  by_cases h : t = t'
  · cases status <;> rfl
  · simp

/-- The lease `l` with another status. -/
def SameBut (l l' : Lease) : Prop := l' = { l with status := l'.status }

variable {l l' : Lease}

theorem SameBut.trans {l'' : Lease} (h : SameBut l l') (h' : SameBut l' l'') : SameBut l l'' := by
  unfold SameBut at *
  rw [h', h]

theorem SameBut.key (h : SameBut l l') : l'.key = l.key := by
  rw [h]
  rfl

theorem SameBut.spec (h : SameBut l l') : l'.spec = l.spec := by
  rw [h]

theorem sameBut_applySelection (clock : Clock) (l : Lease) (s : Selection) :
    SameBut l (applySelection clock l s).lease := by
  cases s with
  | wait _ | assign _ => rfl
  | verdict v => cases v <;> rfl

theorem sameBut_begin (clock : Clock) (l : Lease) : SameBut l (reconcileStatusBeginEndTimes clock l) := by
  unfold reconcileStatusBeginEndTimes
  split <;> rfl

theorem sameBut_ended (clock : Clock) (st : Stage) :
    SameBut st.lease (reconcileStatusEnded clock st).lease := by
  unfold reconcileStatusEnded
  simp only
  split
  · rfl
  split
  · rfl
  split
  · rfl
  split
  · rfl
  · split <;> rfl

theorem begin_exporterRef (clock : Clock) (l : Lease) :
    (reconcileStatusBeginEndTimes clock l).status.exporterRef = l.status.exporterRef := by
  unfold reconcileStatusBeginEndTimes
  split <;> rfl

theorem ended_keeps (clock : Clock) (st : Stage) :
    (reconcileStatusEnded clock st).assigned = st.assigned ∧
      (reconcileStatusEnded clock st).lease.status.exporterRef = st.lease.status.exporterRef ∧
      (reconcileStatusEnded clock st).lease.status.beginTime = st.lease.status.beginTime := by
  unfold reconcileStatusEnded
  simp only
  split
  · exact ⟨rfl, rfl, rfl⟩
  split
  · exact ⟨rfl, rfl, rfl⟩
  split
  · exact ⟨rfl, rfl, rfl⟩
  split
  · exact ⟨rfl, rfl, rfl⟩
  · split
    · exact ⟨rfl, rfl, rfl⟩
    · exact ⟨rfl, rfl, rfl⟩

variable {k : K8s} {f : SortFunc} {clock : Clock} {reads : Reads}

theorem reconcileStatusExporterRef_ok {st : Stage} (h : reconcileStatusExporterRef k f clock reads l = .ok st) :
    ((l.status.ended = true ∨ l.status.exporterRef.isSome = true) ∧ st = { lease := l }) ∨
      (l.status.ended = false ∧ l.status.exporterRef = none ∧
        ∃ s, selectExporter k f clock.schedule reads l = .ok s ∧ st = applySelection clock l s) := by
  unfold reconcileStatusExporterRef at h
  split at h
  · cases h
    exact .inl ⟨.inl ‹_›, rfl⟩
  rename_i hended
  split at h
  · cases h
    exact .inl ⟨.inr ‹_›, rfl⟩
  rename_i href
  split at h
  · cases h
  · rename_i s hs
    cases h
    exact .inr ⟨by simpa using hended, by simpa using href, s, hs, rfl⟩

variable {r : Stage}

theorem reconcile_ok (h : reconcile k f clock reads l = .ok r) :
    ∃ st, reconcileStatusExporterRef k f clock reads l = .ok st ∧
      r = reconcileStatusEnded clock { st with lease := reconcileStatusBeginEndTimes clock st.lease } := by
  unfold reconcile at h
  split at h
  · cases h
  · cases h
    exact ⟨_, ‹_›, rfl⟩

theorem reconcile_sameBut (h : reconcile k f clock reads l = .ok r) : SameBut l r.lease := by
  obtain ⟨st, hst, rfl⟩ := reconcile_ok h
  have hsel : SameBut l st.lease := by
    rcases reconcileStatusExporterRef_ok hst with ⟨-, rfl⟩ | ⟨-, -, s, -, rfl⟩
    · rfl
    · exact sameBut_applySelection clock l s
  exact (hsel.trans (sameBut_begin clock st.lease)).trans (sameBut_ended clock _)

/-- A `Reconcile` that assigned the exporter `a` to the lease `l`, which became `r`. -/
structure Assigned (clock : Clock) (reads : Reads) (l : Lease) (r : Stage) (a : ApprovedExporter) :
    Prop where
  assigned : r.assigned = some a
  none : l.status.exporterRef = none
  exporterRef : r.lease.status.exporterRef = some a.exporter.name
  beginTime : l.status.beginTime = .none → r.lease.status.beginTime = some (clock.beginTime : Int)
  assignable : Assignable clock.schedule reads l a

theorem reconcile_assigned (h : reconcile k f clock reads l = .ok r) :
    (r.assigned = none ∧ r.lease.status.exporterRef = l.status.exporterRef) ∨
      ∃ a, Assigned clock reads l r a := by
  obtain ⟨st, hst, rfl⟩ := reconcile_ok h
  obtain ⟨hass, href, hbegin⟩ := ended_keeps clock
    { st with lease := reconcileStatusBeginEndTimes clock st.lease }
  rw [hass, href]
  simp only [begin_exporterRef]
  rcases reconcileStatusExporterRef_ok hst with ⟨-, rfl⟩ | ⟨-, hnone, s, hs, rfl⟩
  · exact .inl ⟨rfl, rfl⟩
  cases s with
  | wait _ => exact .inl ⟨rfl, rfl⟩
  | verdict v => cases v <;> exact .inl ⟨rfl, rfl⟩
  | assign a =>
    refine .inr ⟨a, hass, hnone, ?_, fun hb => ?_, selectExporter_assign hs⟩
    · rw [href, begin_exporterRef]
      rfl
    · rw [hbegin]
      simp [applySelection, reconcileStatusBeginEndTimes, hb, setStatus]

end Jumpstarter.LeaseReconciler
