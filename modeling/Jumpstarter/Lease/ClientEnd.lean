import Jumpstarter.Lease.MaxDuration

/-!
# The end of a lease, for the client and for the controller

Three functions say when an active lease ends: `reconcileStatusEnded` of the controller
(`expiration`), `Lease._get_lease_end_time` of the Python client, which warns the user before the
end, and `Lease._compute_expires_at`, which lists it. The client computes it from the lease that
`ToProtobuf` sends: always the moment at which the lease was acquired and its duration. The
controller takes the end or the begin of the spec, if there is one.

- `ends_differ`: a lease scheduled for 100 s and acquired at 700 s ends ten minutes later for the
  client.
- `agree_iff_onTime`: they agree if and only if the lease was acquired as its spec plans (`onTime`).

The client has times in microseconds, and its `datetime` ends with the year 9999.
-/

namespace Jumpstarter.LeaseEnd

open Lib LeaseReconciler ClientService LeaseSystem

/-! ## The protobuf lease -/

/-- The times of a protobuf `Lease`, in nanoseconds. -/
structure LeaseTimes where
  duration : Option Int
  beginTime : Option Int
  endTime : Option Int
  effectiveBeginTime : Option Int
  effectiveEndTime : Option Int

def toProtobuf (l : Lease) : LeaseTimes where
  duration := l.spec.duration
  beginTime := l.spec.beginTime
  endTime := l.spec.endTime
  effectiveBeginTime := l.status.beginTime
  effectiveEndTime := if l.status.beginTime.isSome then l.status.endTime else none

/-! ## The client -/

/-- An exception of the client: a `datetime` out of range. -/
inductive PyError where
  | overflowError
  deriving DecidableEq

/-- `datetime.min`, in microseconds since the Unix epoch. -/
def minDatetime : Int := -62135596800000000

/-- `datetime.max`. -/
def maxDatetime : Int := 253402300799999999

/-- There is a `datetime` for the instant `t` in a time zone `tz` east of UTC. -/
def inRange (tz t : Int) : Bool := minDatetime ≤ t + tz && t + tz ≤ maxDatetime

/-- The `datetime` of the instant `t` in the time zone `tz`. -/
def datetime (tz t : Int) : Except PyError Int :=
  if inRange tz t then .ok t else .error .overflowError

/-- `Timestamp.ToDatetime(tzinfo)`: first in UTC, then in the time zone. -/
def toDatetime (tz t : Int) : Except PyError Int := do
  let utc ← datetime 0 (t / 1000)
  datetime tz utc

def toTimedelta (d : Int) : Int := d.tdiv 1000

/-- A `Lease` of the client: the fields from which its end is computed, in microseconds. -/
structure ClientLease where
  duration : Int
  beginTime : Option Int
  effectiveBeginTime : Option Int
  effectiveEndTime : Option Int

/-- `Lease.from_protobuf`, in the local time zone `tz`. The end of the spec is not read. -/
def fromProtobuf (tz : Int) (data : LeaseTimes) : Except PyError ClientLease := do
  let beginTime ← data.beginTime.mapM (toDatetime tz)
  let effectiveBeginTime ← data.effectiveBeginTime.mapM (toDatetime tz)
  let effectiveEndTime ← data.effectiveEndTime.mapM (toDatetime tz)
  -- A message without a duration reads as one of zero.
  pure ⟨toTimedelta (data.duration.getD 0), beginTime, effectiveBeginTime, effectiveEndTime⟩

/-- `Lease._get_lease_end_time`. A duration of zero is false. -/
def getLeaseEndTime (tz : Int) (lease : ClientLease) : Except PyError (Option Int) :=
  match lease.effectiveEndTime, lease.effectiveBeginTime with
  | some e, _ => .ok (some e)
  | none, none => .ok none
  | none, some b =>
    if lease.duration = 0 then .ok none else (datetime tz (b + lease.duration)).map some

def computeExpiresAt (tz : Int) (lease : ClientLease) : Except PyError (Option Int) :=
  match lease.effectiveEndTime, lease.effectiveBeginTime, lease.beginTime with
  | some e, _, _ => .ok (some e)
  | none, none, none => .ok none
  | none, some b, _ | none, none, some b =>
    if lease.duration = 0 then .ok none else (datetime tz (b + lease.duration)).map some

def clientEnds (tz : Int) (l : Lease) : Except PyError (Option Int × Option Int) := do
  let lease ← fromProtobuf tz (toProtobuf l)
  let monitored ← getLeaseEndTime tz lease
  let listed ← computeExpiresAt tz lease
  pure (monitored, listed)

/-- The client and the controller agree on the end of a lease that began at `began`. -/
def Agree (tz : Int) (l : Lease) (began : Int) : Prop :=
  ∃ e, clientEnds tz l = .ok (some e, some e) ∧ 1000 * e = expiration l.spec began

/-! ## The condition -/

/-- A lease of the duration `d` that was acquired at `began` was acquired as its spec plans: the
duration before the end, or at the begin. Without either it may be acquired at any time. -/
def planned (spec : LeaseSpec) (began d : Int) : Bool :=
  match spec.endTime with
  | some e => e = began + (d - d % 1000)
  | none => d % 1000 = 0 && spec.beginTime.all (· = began)

/-- The client can read the time `t`. -/
def readable (tz t : Int) : Bool := inRange 0 (t / 1000) && inRange tz (t / 1000)

/-- The condition: the lease was acquired as planned, it lasts a microsecond or more, and its times
are in the range of the client. -/
def onTime (tz : Int) (spec : LeaseSpec) (began : Int) : Bool :=
  spec.duration.any fun d => 1000 ≤ d && planned spec began d &&
    spec.beginTime.all (readable tz) && readable tz began && inRange tz ((began + d) / 1000)

/-! ## The client on an active lease -/

variable {tz t : Int}

theorem datetime_ok {u : Int} : datetime tz t = .ok u ↔ inRange tz t = true ∧ u = t := by
  unfold datetime
  split
  · rename_i h
    simp [h, eq_comm]
  · rename_i h
    simp [h]

theorem toDatetime_ok {u : Int} : toDatetime tz t = .ok u ↔ readable tz t = true ∧ u = t / 1000 := by
  unfold readable
  rw [Bool.and_eq_true]
  constructor
  · intro h
    obtain ⟨v, hv, h⟩ := bind_ok h
    obtain ⟨h0, rfl⟩ := datetime_ok.mp hv
    obtain ⟨htz, rfl⟩ := datetime_ok.mp h
    exact ⟨⟨h0, htz⟩, rfl⟩
  · rintro ⟨⟨h0, htz⟩, rfl⟩
    unfold toDatetime
    rw [datetime_ok.mpr ⟨h0, rfl⟩]
    exact datetime_ok.mpr ⟨htz, rfl⟩

theorem mapM_toDatetime_ok {t u : Option Int} :
    t.mapM (toDatetime tz) = .ok u ↔ t.all (readable tz) = true ∧ u = t.map (· / 1000) := by
  cases t with
  | none =>
    show Except.ok none = Except.ok u ↔ _
    simp [eq_comm]
  | some t =>
    show (toDatetime tz t >>= fun v => pure (some v)) = .ok u ↔ _
    simp only [bind_ok_iff, toDatetime_ok, Option.all_some, Option.map_some]
    constructor
    · rintro ⟨v, ⟨hr, rfl⟩, h⟩
      cases h
      exact ⟨hr, rfl⟩
    · rintro ⟨hr, rfl⟩
      exact ⟨_, ⟨hr, rfl⟩, rfl⟩

variable {lease : ClientLease}

theorem fromProtobuf_ok {data : LeaseTimes} :
    fromProtobuf tz data = .ok lease ↔
      data.beginTime.all (readable tz) = true ∧ data.effectiveBeginTime.all (readable tz) = true ∧
        data.effectiveEndTime.all (readable tz) = true ∧
        lease = ⟨toTimedelta (data.duration.getD 0), data.beginTime.map (· / 1000),
          data.effectiveBeginTime.map (· / 1000), data.effectiveEndTime.map (· / 1000)⟩ := by
  simp only [fromProtobuf, bind_ok_iff, mapM_toDatetime_ok]
  constructor
  · rintro ⟨_, ⟨hb, rfl⟩, _, ⟨heb, rfl⟩, _, ⟨hee, rfl⟩, h⟩
    cases h
    exact ⟨hb, heb, hee, rfl⟩
  · rintro ⟨hb, heb, hee, rfl⟩
    exact ⟨_, ⟨hb, rfl⟩, _, ⟨heb, rfl⟩, _, ⟨hee, rfl⟩, rfl⟩

variable {e : Int}

theorem map_datetime_ok : (datetime tz t).map some = .ok (some e) ↔ inRange tz t = true ∧ e = t := by
  unfold datetime
  split
  · rename_i h
    simp [Except.map, h, eq_comm]
  · rename_i h
    simp [Except.map, h]

theorem getLeaseEndTime_ok {b : Int} (hend : lease.effectiveEndTime = none)
    (hbegin : lease.effectiveBeginTime = some b) :
    getLeaseEndTime tz lease = .ok (some e) ↔
      lease.duration ≠ 0 ∧ inRange tz (b + lease.duration) = true ∧ e = b + lease.duration := by
  unfold getLeaseEndTime
  rw [hend, hbegin]
  simp only
  split
  · rename_i h
    simp [h]
  · rename_i h
    simp [h, map_datetime_ok]

variable {l : Lease} {began d : Int}

theorem clientEnds_ok (hbegan : l.status.beginTime = some began) (hend : l.status.endTime = none)
    (hd : l.spec.duration = some d) :
    clientEnds tz l = .ok (some e, some e) ↔
      l.spec.beginTime.all (readable tz) = true ∧ readable tz began = true ∧ toTimedelta d ≠ 0 ∧
        inRange tz (began / 1000 + toTimedelta d) = true ∧ e = began / 1000 + toTimedelta d := by
  have hmsg : toProtobuf l = ⟨some d, l.spec.beginTime, l.spec.endTime, some began, none⟩ := by
    simp [toProtobuf, hbegan, hend, hd]
  simp only [clientEnds, hmsg, bind_ok_iff, fromProtobuf_ok]
  constructor
  · rintro ⟨lease, ⟨hb, heb, -, rfl⟩, _, hm, _, hl, h⟩
    cases h
    obtain ⟨hne, hrange, he⟩ := (getLeaseEndTime_ok rfl rfl).mp hm
    exact ⟨hb, heb, hne, hrange, he⟩
  · rintro ⟨hb, heb, hne, hrange, he⟩
    have hm : getLeaseEndTime tz ⟨toTimedelta d, l.spec.beginTime.map (· / 1000),
        some (began / 1000), none⟩ = .ok (some e) :=
      (getLeaseEndTime_ok rfl rfl).mpr ⟨hne, hrange, he⟩
    refine ⟨_, ⟨hb, heb, rfl, rfl⟩, _, hm, _, ?_, rfl⟩
    exact hm

/-! ## The controller on an active lease -/

theorem toTimedelta_eq (h : 0 < d) : toTimedelta d = d / 1000 :=
  Int.tdiv_eq_ediv_of_nonneg (Int.le_of_lt h)

theorem whole_mod (h : truncateSecond t = t) : t % 1000 = 0 := by
  unfold truncateSecond second at h
  omega

/-- The client's end is the expiration of a lease that was acquired as planned. The begin of the
spec and that of the lease are whole seconds, so a fraction of a microsecond in the duration makes
them differ. -/
theorem expiration_planned {spec : LeaseSpec} (hd : spec.duration = some d)
    (hbegan : truncateSecond began = began) (hbegin : ∀ b, spec.beginTime = some b → truncateSecond b = b) :
    1000 * (began / 1000 + d / 1000) = expiration spec began ↔ planned spec began d = true := by
  have hbegan := whole_mod hbegan
  unfold expiration planned
  cases spec.endTime with
  | some e =>
    simp only [decide_eq_true_eq]
    omega
  | none =>
    cases hb : spec.beginTime with
    | none =>
      simp only [hd, Option.all_none, Bool.and_true, decide_eq_true_eq]
      omega
    | some b =>
      have hwhole := whole_mod (hbegin b hb)
      simp only [hd, Option.all_some, Bool.and_eq_true, decide_eq_true_eq]
      omega

/-- What the ends of an active lease are computed from. -/
structure Timed (l : Lease) (began d : Int) : Prop where
  beginTime : l.status.beginTime = some began
  open_ : l.status.endTime = none
  whole : truncateSecond began = began
  duration : l.spec.duration = some d
  positive : 0 < d
  beginWhole : ∀ b, l.spec.beginTime = some b → truncateSecond b = b

theorem Timed.agree_iff (h : Timed l began d) (tz : Int) :
    Agree tz l began ↔ onTime tz l.spec began = true := by
  have hmod := whole_mod h.whole
  have hsum : (began + d) / 1000 = began / 1000 + d / 1000 := by omega
  have hne : d / 1000 ≠ 0 ↔ 1000 ≤ d := by
    have := h.positive
    omega
  unfold Agree onTime
  simp only [clientEnds_ok h.beginTime h.open_ h.duration, toTimedelta_eq h.positive, h.duration,
    Option.any_some, Bool.and_eq_true, decide_eq_true_eq, hsum, hne]
  rw [← expiration_planned h.duration h.whole h.beginWhole]
  constructor
  · rintro ⟨e, ⟨hb, hr, hlong, hrange, rfl⟩, hexp⟩
    exact ⟨⟨⟨⟨hlong, hexp⟩, hb⟩, hr⟩, hrange⟩
  · rintro ⟨⟨⟨⟨hlong, hexp⟩, hb⟩, hr⟩, hrange⟩
    exact ⟨_, ⟨hb, hr, hlong, hrange, rfl⟩, hexp⟩

/-! ## Leases of a run -/

/-- What holds of the spec of every lease. -/
structure Lasting (spec : LeaseSpec) : Prop where
  ok : SpecOk spec
  positive : ∃ d, spec.duration = some d ∧ 0 < d

structure LastingPatch (p : SpecPatch) : Prop where
  ok : PatchOk p
  positive : ∀ d, p.duration = some (some d) → 0 < d

variable {k : K8s}

theorem Lasting.new {maxTags : Nat} {caller : ObjectKey} {generated : String} {req : Option CreateRequest}
    (h : createLease k maxTags caller generated req = .ok l) : Lasting l.spec := by
  refine ⟨.new h, ?_⟩
  obtain ⟨lease, key, l', hl', rfl⟩ := createLease_ok h
  obtain ⟨-, t, ht, -, -, hd⟩ := leaseFromProtobuf_ok hl'
  show ∃ d, l'.spec.duration = some d ∧ 0 < d
  rw [hd]
  exact reconcileLeaseTimeFields_ok ht

theorem Lasting.apply {spec : LeaseSpec} {p : SpecPatch} (h : Lasting spec) (hp : LastingPatch p) :
    Lasting (p.apply spec) := by
  refine ⟨h.ok.apply hp.ok, ?_⟩
  show ∃ d, p.duration.getD spec.duration = some d ∧ 0 < d
  cases hd : p.duration with
  | none => exact h.positive
  | some d =>
    cases d with
    | none => exact absurd hd hp.ok.duration
    | some d => exact ⟨d, rfl, hp.positive d hd⟩

theorem LastingPatch.call {look : Lookup} {c : Call} {q : ObjectKey × SpecPatch}
    (h : c.patch k look = some q) : LastingPatch q.2 := by
  refine ⟨.call h, fun d hd => ?_⟩
  obtain ⟨old, new, hq, hnew⟩ := c.patch_diff h
  rw [hq] at hd
  change changed old.duration new.duration = some (some d) at hd
  unfold changed at hd
  split at hd
  · cases hd
  · rename_i hne
    obtain ⟨d', hd', hpos⟩ := hnew.resolve_left hne
    rw [hd'] at hd
    cases hd
    exact hpos

/-- A status that has not ended has no end. -/
def NoEnd (st : LeaseStatus) : Prop := st.ended = false → st.endTime = none

variable {clock : Clock}

theorem noEnd_applySelection (h : NoEnd l.status) (s : Selection) :
    NoEnd (applySelection clock l s).lease.status := by
  cases s with
  | wait _ | assign _ => exact h
  | verdict v => cases v <;> exact h

theorem noEnd_begin (h : NoEnd l.status) : NoEnd (reconcileStatusBeginEndTimes clock l).status := by
  unfold reconcileStatusBeginEndTimes
  split <;> exact h

theorem noEnd_ended {st : Stage} (h : NoEnd st.lease.status) :
    NoEnd (reconcileStatusEnded clock st).lease.status := by
  have hended : ∀ st' : LeaseStatus, st'.ended = true → NoEnd st' := by
    intro st' he hlive
    rw [he] at hlive
    cases hlive
  unfold reconcileStatusEnded
  simp only
  split
  · exact h
  split
  · exact hended _ rfl
  split
  · exact hended _ rfl
  split
  · exact h
  · split
    · exact hended _ rfl
    · exact h

theorem NoEnd.reconcile {f : SortFunc} {reads : Reads} {r : Stage} (h : NoEnd l.status)
    (hr : reconcile k f clock reads l = .ok r) : NoEnd r.lease.status := by
  obtain ⟨st, hst, rfl⟩ := reconcile_ok hr
  refine noEnd_ended (noEnd_begin ?_)
  rcases reconcileStatusExporterRef_ok hst with ⟨-, rfl⟩ | ⟨-, -, s, -, rfl⟩
  · exact h
  · exact noEnd_applySelection h s

theorem NoEnd.stored {st : LeaseStatus} (h : NoEnd st) : NoEnd st.stored := by
  intro hlive
  simp [LeaseStatus.stored, h hlive]

variable {cfg : Config} {s s' : St}

structure TimesInv (cfg : Config) (s : St) : Prop where
  inv : Inv cfg s
  specs : ∀ l ∈ s.store, Lasting l.spec
  calls : ∀ q ∈ s.calls, LastingPatch q.2
  ends : ∀ l ∈ s.store, NoEnd l.status

theorem TimesInv.step {a : Act} (h : TimesInv cfg s) (hst : step cfg s a = some s') : TimesInv cfg s' := by
  have heff := step_effect h.inv.worker hst
  obtain ⟨hspecs, hcalls⟩ := heff.specs h.specs h.calls (fun _ _ _ _ => .new) (fun _ _ => .call)
    fun _ _ => .apply
  refine ⟨h.inv.step hst, hspecs, hcalls, heff.store.forall h.ends (fun _ _ hl => hl) ?_ ?_⟩
  · intro _ _ _ l _ hnew
    show NoEnd l.status
    rw [createLease_status hnew]
    exact fun _ => rfl
  · intro c c' hc hw
    cases hw with
    | spec _ | labels _ => exact h.ends c hc
    | status _ hr => exact ((h.ends c hc).reconcile hr).stored

theorem timesInv_inductive (cfg : Config) (ok : St → Act → Prop) : (sys cfg).InductiveIf ok (TimesInv cfg) where
  init := by
    rintro s rfl
    refine ⟨.start cfg, ?_, ?_, ?_⟩
    · exact fun l hl => absurd hl (VStore.mem_empty l)
    · exact fun q hq => absurd hq List.not_mem_nil
    · exact fun l hl => absurd hl (VStore.mem_empty l)
  step := fun _ _ _ h _ hst => h.step hst

theorem TimesInv.timed (h : TimesInv cfg s) (hl : l ∈ s.store) (hlive : l.status.ended = false)
    (hbegan : l.status.beginTime = some began) : ∃ d, Timed l began d := by
  obtain ⟨d, hd, hpos⟩ := (h.specs l hl).positive
  have hstored := congrArg LeaseStatus.beginTime (h.inv.leases l hl).stored
  have hwhole : truncateSecond began = began := by
    simpa [LeaseStatus.stored, hbegan] using hstored
  exact ⟨d, hbegan, h.ends l hl hlive, hwhole, hd, hpos, (h.specs l hl).ok.beginTime⟩

/-- **The client and the controller agree on the end of an active lease** in every reachable state
if and only if the lease was acquired as its spec plans (`onTime`). -/
theorem agree_iff_onTime (cfg : Config) {s : St} (hs : (sys cfg).Reach s) {l : Lease}
    (hl : l ∈ s.store) (hlive : l.status.ended = false) {began : Int}
    (hbegan : l.status.beginTime = some began) (tz : Int) :
    Agree tz l began ↔ onTime tz l.spec began = true := by
  obtain ⟨d, h⟩ := ((timesInv_inductive cfg _).reach hs).timed hl hlive hbegan
  exact h.agree_iff tz

/-- A lease of an hour that is scheduled for 100 s and acquired at `now`. -/
def scheduledRun (now : Nat) : List Act :=
  [.cluster { exporters := [labExporter "lab" "rpi-1"] },
    .create ⟨"lab", "ann"⟩ "lease-1" (some { labRequest "lab" with
      lease := some { selector := "board", beginTime := some (100 * second),
                      duration := some (60 * minute) } })] ++
  labReconcile now ⟨"lab", "lease-1"⟩ [⟨"lab", "lease-1"⟩]

theorem agree_iff_onTime_scheduled : ∃ s, (sys labConfig).Reach s ∧ ∃ l ∈ s.store,
    l.status.ended = false ∧ l.status.beginTime = some (100 * second) ∧
      onTime 0 l.spec (100 * second) = true ∧
      ∀ tz, Agree tz l (100 * second) ↔ onTime tz l.spec (100 * second) = true := by
  have hrun : (((sys labConfig).exec {} (scheduledRun 100500000000)).any fun s =>
      s.store.objects.items.any fun l =>
        l.status.ended = false ∧ l.status.beginTime = some (100 * second) ∧
        onTime 0 l.spec (100 * second) = true) = true := by
    decide +kernel
  obtain ⟨s, hs, hp⟩ := Sys.Reach.exec_any (.init rfl) _ hrun
  obtain ⟨l, hl, hp⟩ := List.any_eq_true.mp hp
  obtain ⟨hlive, hbegan, hon⟩ := of_decide_eq_true hp
  exact ⟨s, hs, l, hl, hlive, hbegan, hon, agree_iff_onTime labConfig hs hl hlive hbegan⟩

/-- A lease that is acquired ten minutes late ends at 3700 s for the controller and at 4300 s for the
client. -/
theorem ends_differ : ∃ s, (sys labConfig).Reach s ∧ ∃ l ∈ s.store,
    l.status.ended = false ∧ l.status.beginTime = some (700 * second) ∧
      expiration l.spec (700 * second) = 3700 * second ∧
      clientEnds 0 l = .ok (some 4300000000, some 4300000000) ∧ ¬ Agree 0 l (700 * second) := by
  have hrun : (((sys labConfig).exec {} (scheduledRun 700000000000)).any fun s =>
      s.store.objects.items.any fun l =>
        l.status.ended = false ∧ l.status.beginTime = some (700 * second) ∧
        expiration l.spec (700 * second) = 3700 * second ∧
        clientEnds 0 l = .ok (some 4300000000, some 4300000000)) = true := by
    decide +kernel
  obtain ⟨s, hs, hp⟩ := Sys.Reach.exec_any (.init rfl) _ hrun
  obtain ⟨l, hl, hp⟩ := List.any_eq_true.mp hp
  obtain ⟨hlive, hbegan, hexp, hends⟩ := of_decide_eq_true hp
  refine ⟨s, hs, l, hl, hlive, hbegan, hexp, hends, ?_⟩
  rintro ⟨e, he, heq⟩
  rw [hends] at he
  cases he
  rw [hexp] at heq
  revert heq
  decide

end Jumpstarter.LeaseEnd
