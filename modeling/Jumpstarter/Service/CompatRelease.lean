import Jumpstarter.ExporterSet.Drain
import Jumpstarter.Lib.Threads

/-!
# Releases through `ReportStatus`

An exporter without the RPC `ReleaseLease` sends `ReportStatus` with `release_lease`, which names no
lease: the controller marks the lease of `Exporter.Status.LeaseRef`. The system is the controllers of
`Jumpstarter/ExporterSet/Drain.lean` and one exporter:

- its tasks: `report` is `_report_status`, `release` is `_send_compat_release` for the lease that it is
  serving, `drain` is the next round of `_drain_status_reports`;
- its RPCs: an attempt comes to the controller (`arrive`) and is answered (`reply`), in any order and
  each perhaps not at all; after a transient error it is sent again (`retry`);
- the calls of `ReportStatus`: `authenticate` reads the exporter, `patchStatus` writes its status,
  `getLease` and `markLease` are `handleExporterLeaseRelease`; `fail` ends a call.

`marksServed_of_quiet`: only the lease that the exporter was serving is marked, in runs in which no
other lease references the exporter when the release is sent and none is assigned to it while the
release may still come (`quiet`). `marksServed_fails`: a release that timed out was applied; an older
`AVAILABLE` of the drain ends the protection of the exporter's status, the next lease is assigned, and
the repeated release marks it.
-/

namespace Jumpstarter.CompatRelease

open Lib LeaseReconciler LeaseSystem ClientService ExporterSet List Option

/-! ## The exporter -/

/-- `ReportStatusRequest`. -/
structure Request where
  status : Exporter.ProtoStatus
  message : String
  /-- `release_lease`, with the lease that the exporter is serving; the name is not sent. -/
  releaseLease : Option String := none

/-- Where `_retry_rpc` is, and in which attempt. -/
inductive Sender where
  | idle
  | calling (req : Request) (attempt : Nat)
  | called (req : Request) (attempt : Nat)
  | backoff (req : Request) (attempt : Nat)

def rpcMaxRetries : Nat := 20

/-- How an attempt ends; `transient` is one of `_TRANSIENT_GRPC_CODES`. -/
inductive Reply where
  | ok | transient | failed

/-- `_retry_rpc` after an attempt. -/
def Sender.reply (r : Reply) : Sender → Option Sender
  | .calling req attempt | .called req attempt =>
    match r with
    | .transient => some (if attempt < rpcMaxRetries then .backoff req attempt else .idle)
    | .ok | .failed => some .idle
  | .idle | .backoff _ _ => none

/-- `_retry_rpc` after its `sleep`. -/
def Sender.retry : Sender → Option Sender
  | .backoff req attempt => some (.calling req (attempt + 1))
  | _ => none

/-- The request of `_send_compat_release`; a status other than `AVAILABLE` is to keep new leases away. -/
def compatRequest (exporterStatus : Exporter.ProtoStatus) (leaseName : String) : Request where
  status := if exporterStatus = .available then .afterLeaseHook else exporterStatus
  message := "Lease released (compat: ReportStatus with release_lease)"
  releaseLease := some leaseName

/-! ## The controller -/

/-- Where a call of `ReportStatus` is; `lease` is the lease that its exporter was serving. -/
inductive Handler where
  | idle
  | arrived (req : Request)
  | read (req : Request) (e : Exporter)
  | reported (lease : String) (e : Exporter)
  | marking (lease : String) (l : Lease)

/-- `ReportStatus` after its write of the status, with the exporter `e` that the server returned. -/
def Request.reported (req : Request) (e : Exporter) : Handler :=
  match req.releaseLease with
  | none => .idle
  | some leaseName => .reported leaseName e

/-- `handleExporterLeaseRelease` up to its write: the lease to mark. -/
def handleExporterLeaseRelease (get : ObjectKey → Option Lease) (e : Exporter) : Option Lease :=
  match e.status.leaseRef with
  | none => none
  | some name =>
    match get ⟨e.ns, name⟩ with
    | none => none
    | some l =>
      if l.status.exporterRef ≠ some e.name then none
      else if l.status.ended || l.spec.release then none
      else some l

/-! ## The system -/

structure Config where
  controllers : LeaseSystem.Config
  exporter : ObjectKey

structure St where
  controllers : Drain.St := {}
  exporterStatus : Exporter.ProtoStatus := .offline
  /-- `_pending_status_request`. -/
  pending : Option Request := none
  /-- `_status_rpc_event` is set. -/
  event : Bool := false
  senders : List Sender := [.idle]
  handlers : List Handler := []
  /-- The leases marked for release: for which lease the release was sent, and which was marked. -/
  marked : List (String × String) := []

def St.leases (s : St) : LeaseSystem.St := s.controllers.leases

inductive Act where
  | controllers (a : Drain.Act)
  | report (status : Exporter.ProtoStatus) (message : String)
  | release (leaseName : String)
  | drain
  | arrive (i : Nat)
  | reply (i : Nat) (r : Reply)
  | retry (i : Nat)
  | authenticate (h : Nat)
  | patchStatus (h : Nat) (now : Int)
  | getLease (h : Nat)
  | markLease (h : Nat)
  | fail (h : Nat)

/-- `_drain_status_reports` takes the pending request. -/
def St.drain (s : St) : Option St :=
  match s.event, s.pending, s.senders with
  | true, some req, .idle :: senders =>
    some { s with event := false, senders := .calling req 0 :: senders }
  | _, _, _ => none

/-- The request of an attempt comes to the controller. -/
def St.arrive (s : St) (i : Nat) : Option St :=
  match s.senders[i]? with
  | some (.calling req attempt) =>
    some { s with
      senders := s.senders.set i (.called req attempt), handlers := s.handlers ++ [.arrived req] }
  | _ => none

def St.authenticate (cfg : Config) (s : St) (h : Nat) : Option St :=
  match s.handlers[h]? with
  | some (.arrived req) =>
    (s.controllers.exporters.find? (hasKey cfg.exporter)).map fun e =>
      { s with handlers := s.handlers.set h (.read req e) }
  | _ => none

/-- `Status().Patch` of the exporter. -/
def St.patchStatus (cfg : Config) (s : St) (h : Nat) (now : Int) : Option St :=
  match s.handlers[h]? with
  | some (.read req e) =>
    let new := (e.reportStatus now req.status req.message).status
    let patch := fun cur : Exporter => { cur with status := e.status.mergePatch new cur.status }
    (s.controllers.exporters.find? (hasKey cfg.exporter)).map fun cur =>
      { s with
        controllers := s.controllers.setExporters (s.controllers.exporters.map fun e' =>
          if hasKey cfg.exporter e' then patch e' else e')
        handlers := s.handlers.set h (req.reported (patch cur)) }
  | _ => none

def St.getLease (s : St) (h : Nat) : Option St :=
  match s.handlers[h]? with
  | some (.reported leaseName e) =>
    let lease := handleExporterLeaseRelease s.leases.store.get e
    some { s with handlers := s.handlers.set h ((lease.map (.marking leaseName)).getD .idle) }
  | _ => none

/-- `Patch` of the lease: a patch like those of the clients' calls. -/
def St.markLease (s : St) (h : Nat) : Option St :=
  match s.handlers[h]? with
  | some (.marking leaseName l) =>
    let calls := s.leases.calls
    ({ s.leases with calls := calls ++ [releasePatch l] }.patch calls.length).map fun leases =>
      { s with
        controllers := { s.controllers with leases }
        handlers := s.handlers.set h .idle
        marked := s.marked ++ [(leaseName, l.name)] }
  | _ => none

def step (cfg : Config) (s : St) : Act → Option St
  | .controllers a => (Drain.step cfg.controllers s.controllers a).map fun controllers =>
    { s with controllers }
  | .report status message =>
    some { s with exporterStatus := status, pending := some { status, message }, event := true }
  | .release leaseName =>
    some { s with senders := s.senders ++ [.calling (compatRequest s.exporterStatus leaseName) 0] }
  | .drain => s.drain
  | .arrive i => s.arrive i
  | .reply i r => s.senders[i]?.bind fun x =>
    (x.reply r).map fun x => { s with senders := s.senders.set i x }
  | .retry i => s.senders[i]?.bind fun x =>
    x.retry.map fun x => { s with senders := s.senders.set i x }
  | .authenticate h => s.authenticate cfg h
  | .patchStatus h now => s.patchStatus cfg h now
  | .getLease h => s.getLease h
  | .markLease h => s.markLease h
  | .fail h => some { s with handlers := s.handlers.set h .idle }

def sys (cfg : Config) : Sys St Act := ⟨fun s => s = {}, step cfg⟩

/-! ## The property -/

/-- Every lease that `ReportStatus` marked is the one that the exporter was serving. -/
def MarksServed (s : St) : Prop := ∀ p ∈ s.marked, p.1 = p.2

/-- The lease whose release the RPC carries. -/
def Sender.served : Sender → Option String
  | .idle => none
  | .calling req _ | .called req _ | .backoff req _ => req.releaseLease

/-- The lease whose release the call carries. -/
def Handler.served : Handler → Option String
  | .idle => none
  | .arrived req | .read req _ => req.releaseLease
  | .reported leaseName _ | .marking leaseName _ => some leaseName

/-- A release is being sent, or a call in the controller carries one. -/
def St.outstanding (s : St) : Bool :=
  s.senders.any (·.served.isSome) || s.handlers.any (·.served.isSome)

/-- When a release is sent, no lease that has not ended references the exporter but the one to release;
and while a release is outstanding, the exporter is assigned to no lease. -/
def quiet (cfg : Config) (s : St) : Act → Bool
  | .release leaseName => s.leases.store.objects.items.all fun l =>
    !(l.ns = cfg.exporter.ns && !l.status.ended && l.status.exporterRef = some cfg.exporter.name) ||
      l.name = leaseName
  | .controllers (.lease .writeStatus) =>
    match s.leases.worker with
    | .computed st => !s.outstanding || st.assigned.all fun a =>
        !(st.lease.ns = cfg.exporter.ns && a.exporter.name = cfg.exporter.name)
    | _ => true
  | _ => true

/-! ## The leases of the exporter -/

variable {cfg : Config} {s s' : St}

/-- No lease that has not ended references the exporter but `leaseName`. -/
def Own (cfg : Config) (store : VStore versioning) (leaseName : String) : Prop :=
  ∀ l ∈ store, l.ns = cfg.exporter.ns → l.status.ended = false →
    l.status.exporterRef = some cfg.exporter.name → l.name = leaseName

theorem Own.step {s t : LeaseSystem.St} {leaseName : String} (h : Own cfg s.store leaseName)
    (hi : LeaseSystem.Inv cfg.controllers s) {a : LeaseSystem.Act}
    (hst : LeaseSystem.step cfg.controllers s a = some t)
    (hno : ∀ st b, a = .writeStatus → s.worker = .computed st → st.assigned = some b →
      st.lease.ns = cfg.exporter.ns → b.exporter.name ≠ cfg.exporter.name) :
    Own cfg t.store leaseName := by
  intro l hl hns hlive href
  rcases Drain.reference_step hi hst hl hlive href with
    ⟨c, hc, hk, hclive, hcref⟩ | ⟨st, b, ha, hw, hb, hbns, hbname⟩
  · have hname : c.name = l.name := congrArg ObjectKey.name hk
    rw [← hname]
    exact h c hc ((congrArg ObjectKey.ns hk).trans hns) hclive hcref
  · exact absurd hbname (hno st b ha hw hb (hbns.trans hns))

theorem handleExporterLeaseRelease_some {store : VStore versioning} {e : Exporter} {l : Lease}
    (h : handleExporterLeaseRelease store.get e = some l) :
    l ∈ store ∧ l.ns = e.ns ∧ l.status.ended = false ∧ l.status.exporterRef = some e.name := by
  unfold handleExporterLeaseRelease at h
  split at h
  · cases h
  · split at h
    · cases h
    · rename_i name _ l' hget
      obtain ⟨hl, hk⟩ := VStore.get_some hget
      split at h
      · cases h
      · rename_i href
        split at h
        · cases h
        · rename_i hended
          cases h
          simp only [Bool.or_eq_true, not_or, Bool.not_eq_true] at hended
          exact ⟨hl, congrArg ObjectKey.ns hk, hended.1, by simpa using href⟩

/-! ## The invariant -/

/-- A call carries a release of the only lease of the exporter. -/
structure HandlerOk (cfg : Config) (store : VStore versioning) (x : Handler) : Prop where
  own : ∀ leaseName, x.served = some leaseName → Own cfg store leaseName
  exporter : ∀ leaseName e, x = .reported leaseName e → hasKey cfg.exporter e = true
  lease : ∀ leaseName l, x = .marking leaseName l → l.name = leaseName

structure Inv (cfg : Config) (s : St) : Prop where
  leases : LeaseSystem.Inv cfg.controllers s.leases
  senders : ∀ x ∈ s.senders, ∀ leaseName, x.served = some leaseName → Own cfg s.leases.store leaseName
  handlers : ∀ x ∈ s.handlers, HandlerOk cfg s.leases.store x
  pending : ∀ req, s.pending = some req → req.releaseLease = none
  marked : MarksServed s

theorem HandlerOk.idle (cfg : Config) (store : VStore versioning) : HandlerOk cfg store .idle :=
  ⟨fun _ h => (nomatch h), fun _ _ h => (nomatch h), fun _ _ h => (nomatch h)⟩

variable {x y : Sender}

section

variable (hi : Inv cfg s)
include hi

theorem Inv.setSender {i : Nat} (hx : s.senders[i]? = some x)
    (hy : ∀ leaseName, y.served = some leaseName → x.served = some leaseName) :
    Inv cfg { s with senders := s.senders.set i y } := by
  have hown : ∀ leaseName, y.served = some leaseName → Own cfg s.leases.store leaseName :=
    fun leaseName hs => hi.senders x (mem_of_getElem? hx) leaseName (hy leaseName hs)
  exact { hi with senders := forall_mem_set hi.senders hown }

theorem Inv.setHandler (h : Nat) {y : Handler} (hy : HandlerOk cfg s.leases.store y) :
    Inv cfg { s with handlers := s.handlers.set h y } :=
  { hi with handlers := forall_mem_set hi.handlers hy }

theorem Inv.setExporters (exporters : List Exporter) :
    Inv cfg { s with controllers := s.controllers.setExporters exporters } :=
  { hi with leases := ⟨hi.leases.worker, hi.leases.leases⟩ }

theorem Inv.lease {a : LeaseSystem.Act} {t : LeaseSystem.St}
    (hst : LeaseSystem.step cfg.controllers s.leases a = some t)
    (hno : s.outstanding = true → ∀ st b, a = .writeStatus → s.leases.worker = .computed st →
      st.assigned = some b → st.lease.ns = cfg.exporter.ns →
        b.exporter.name ≠ cfg.exporter.name) :
    Inv cfg { s with controllers := { s.controllers with leases := t } } := by
  have hown : ∀ leaseName, s.outstanding = true → Own cfg s.leases.store leaseName →
      Own cfg t.store leaseName := fun _ hout h => h.step hi.leases hst (hno hout)
  refine ⟨hi.leases.step hst, fun x hx leaseName hs => ?_, fun x hx => ?_, hi.pending, hi.marked⟩
  · have hout : s.outstanding = true := by
      simp only [St.outstanding, Bool.or_eq_true, List.any_eq_true]
      exact .inl ⟨x, hx, by rw [hs]; rfl⟩
    exact hown leaseName hout (hi.senders x hx leaseName hs)
  · obtain ⟨hserved, hexporter, hlease⟩ := hi.handlers x hx
    refine ⟨fun leaseName hs => ?_, hexporter, hlease⟩
    have hout : s.outstanding = true := by
      simp only [St.outstanding, Bool.or_eq_true, List.any_eq_true]
      exact .inr ⟨x, hx, by rw [hs]; rfl⟩
    exact hown leaseName hout (hserved leaseName hs)

theorem Inv.controllers {a : Drain.Act}
    (hok : quiet cfg s (.controllers a) = true) (h : step cfg s (.controllers a) = some s') :
    Inv cfg s' := by
  obtain ⟨t, ht, rfl⟩ := map_eq_some_iff.mp h
  by_cases ha : ∃ b, a = .lease b
  · obtain ⟨b, rfl⟩ := ha
    obtain ⟨leases, hst, rfl⟩ := map_eq_some_iff.mp ht
    refine hi.lease hst fun hout st x hw hc hx hns hname => ?_
    subst hw
    simp [quiet, hc, hout, hx, hns, hname] at hok
  · have hs : ({ s with controllers := t } : St).leases.store = s.leases.store :=
      (Drain.step_leases ht fun b hb => ha ⟨b, hb⟩).1
    refine ⟨Drain.inv_step hi.leases ht, ?_, ?_, hi.pending, hi.marked⟩
    · rw [hs]
      exact hi.senders
    · rw [hs]
      exact hi.handlers

end

theorem Sender.reply_served {r : Reply} (h : x.reply r = some y) {leaseName : String}
    (hs : y.served = some leaseName) : x.served = some leaseName := by
  cases x with
  | idle | backoff => cases h
  | calling req attempt | called req attempt =>
    cases r with
    | ok | failed =>
      cases h
      cases hs
    | transient =>
      cases h
      split at hs
      · exact hs
      · cases hs

theorem Sender.retry_served (h : x.retry = some y) : y.served = x.served := by
  cases x with
  | backoff req attempt =>
    cases h
    rfl
  | idle | calling | called => cases h

variable {h : Nat}

section

variable (hi : Inv cfg s)
include hi

theorem Inv.markLease (hst : s.markLease h = some s') : Inv cfg s' := by
  unfold St.markLease at hst
  split at hst
  · rename_i leaseName l hx
    obtain ⟨t, ht, rfl⟩ := map_eq_some_iff.mp hst
    have hname := (hi.handlers _ (mem_of_getElem? hx)).lease leaseName l rfl
    -- The patch is a step of the lease controller.
    have hcalls : Inv cfg { s with controllers := { s.controllers with
        leases := { s.leases with calls := s.leases.calls ++ [releasePatch l] } } } :=
      { hi with leases := ⟨hi.leases.worker, hi.leases.leases⟩ }
    have hpatched := hcalls.lease (a := .patch s.leases.calls.length) ht fun _ _ _ h => nomatch h
    obtain ⟨hleases, hsenders, hhandlers, hpending, hmarked⟩ :=
      hpatched.setHandler h (.idle cfg _)
    refine ⟨hleases, hsenders, hhandlers, hpending, fun p hp => ?_⟩
    rcases mem_append.mp hp with hp | hp
    · exact hmarked p hp
    · cases mem_singleton.mp hp
      exact hname.symm
  · cases hst

theorem Inv.handler {x : Handler} (hx : s.handlers[h]? = some x) :
    HandlerOk cfg s.leases.store x :=
  hi.handlers x (mem_of_getElem? hx)

theorem Inv.getLease (hst : s.getLease h = some s') : Inv cfg s' := by
  unfold St.getLease at hst
  split at hst
  · rename_i leaseName e hx
    cases hst
    refine hi.setHandler h ?_
    obtain ⟨hown, hexporter, -⟩ := hi.handler hx
    have howns := hown leaseName rfl
    cases hl : handleExporterLeaseRelease s.leases.store.get e with
    | none => exact .idle cfg _
    | some l =>
      obtain ⟨hmem, hns, hlive, href⟩ := handleExporterLeaseRelease_some hl
      have hkey := hexporter leaseName e rfl
      simp only [hasKey, Bool.and_eq_true, decide_eq_true_eq] at hkey
      refine ⟨fun n hn => ?_, fun n e' he' => ?_, fun n l' hl' => ?_⟩
      · cases hn
        exact howns
      · cases he'
      · cases hl'
        exact howns l hmem (hns.trans hkey.1) hlive (href.trans (congrArg some hkey.2))
  · cases hst

theorem Inv.patchStatus {now : Int} (hst : s.patchStatus cfg h now = some s') : Inv cfg s' := by
  unfold St.patchStatus at hst
  split at hst
  · rename_i req e hx
    obtain ⟨cur, hcur, rfl⟩ := map_eq_some_iff.mp hst
    refine (hi.setExporters _).setHandler h ?_
    have hown := (hi.handler hx).own
    have hkey := find?_some hcur
    unfold Request.reported
    split
    · exact .idle cfg _
    · rename_i leaseName hreq
      refine ⟨fun n hn => ?_, fun n e' he' => ?_, fun _ _ h => (nomatch h)⟩
      · cases hn
        exact hown leaseName hreq
      · cases he'
        exact hkey
  · cases hst

theorem Inv.step {a : Act} (hok : quiet cfg s a = true) (h : step cfg s a = some s') : Inv cfg s' := by
  cases a with
  | controllers a => exact hi.controllers hok h
  | report status message =>
    cases h
    refine { hi with pending := fun req hreq => ?_ }
    cases hreq
    rfl
  | release leaseName =>
    cases h
    refine { hi with senders := fun x hx n hn => ?_ }
    rcases mem_append.mp hx with hx | hx
    · exact hi.senders x hx n hn
    · cases mem_singleton.mp hx
      cases hn
      intro l hl hns hlive href
      have := all_eq_true.mp hok l hl
      simpa [hns, hlive, href] using this
  | drain =>
    change s.drain = some s' at h
    unfold St.drain at h
    split at h
    · rename_i req senders _ hpending hsenders
      cases h
      refine { hi with senders := fun x hx n hn => ?_ }
      rcases mem_cons.mp hx with rfl | hx
      · rw [show Sender.served (.calling req 0) = req.releaseLease from rfl, hi.pending req hpending] at hn
        cases hn
      · exact hi.senders x (hsenders ▸ mem_cons_of_mem _ hx) n hn
    · cases h
  | arrive i =>
    change s.arrive i = some s' at h
    unfold St.arrive at h
    split at h
    · rename_i req attempt hx
      cases h
      obtain ⟨hleases, hsenders, hhandlers, hpending, hmarked⟩ :=
        hi.setSender (y := .called req attempt) hx fun _ hs => hs
      refine ⟨hleases, hsenders, fun y hy => ?_, hpending, hmarked⟩
      rcases mem_append.mp hy with hy | hy
      · exact hhandlers y hy
      · cases mem_singleton.mp hy
        exact ⟨hi.senders _ (mem_of_getElem? hx), fun _ _ h => (nomatch h), fun _ _ h => (nomatch h)⟩
    · cases h
  | reply i r =>
    obtain ⟨x, hx, hr⟩ := bind_eq_some_iff.mp h
    obtain ⟨y, hy, rfl⟩ := map_eq_some_iff.mp hr
    exact hi.setSender hx fun _ hs => Sender.reply_served hy hs
  | retry i =>
    obtain ⟨x, hx, hr⟩ := bind_eq_some_iff.mp h
    obtain ⟨y, hy, rfl⟩ := map_eq_some_iff.mp hr
    exact hi.setSender hx fun _ hs => Sender.retry_served hy ▸ hs
  | authenticate h' =>
    change s.authenticate cfg h' = some s' at h
    unfold St.authenticate at h
    split at h
    · rename_i req hx
      obtain ⟨e, he, rfl⟩ := map_eq_some_iff.mp h
      exact hi.setHandler h' ⟨(hi.handler hx).own, fun _ _ h => (nomatch h), fun _ _ h => (nomatch h)⟩
    · cases h
  | patchStatus h' now => exact hi.patchStatus h
  | getLease h' => exact hi.getLease h
  | markLease h' => exact hi.markLease h
  | fail h' =>
    cases h
    exact hi.setHandler h' (.idle cfg _)

end

theorem inductive_inv (cfg : Config) : (sys cfg).InductiveIf (fun s a => quiet cfg s a = true) (Inv cfg) where
  init := by
    rintro s rfl
    refine ⟨.start cfg.controllers, fun x hx n hn => ?_, fun x hx => (nomatch hx),
      fun req h => (nomatch h), fun p hp => (nomatch hp)⟩
    cases mem_singleton.mp hx
    cases hn
  step _ _ _ hi hok hst := hi.step hok hst

/-- A `Reconcile` of the exporter, with the active leases `order`. -/
def copyRun (order : List ObjectKey) : List Act := (Drain.copyRun order).map .controllers

end Jumpstarter.CompatRelease
