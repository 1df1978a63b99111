import Jumpstarter.Api.Types
import Jumpstarter.Lib.Slice
import Jumpstarter.Service.Listen

/-!
# `Dial`: the checks before a router token

`Dial` reads the lease once, then the exporter until its status admits driver calls (a retry loop of
up to 30 s, while the status is `Available`), then signs a token, hands it to the queue of the lease's
`Listen` call (`sendToListener`) and returns it. This file is that code for one lease name, with a store
that changes in any way between the reads. The results do not use the mutex of `sendToListener`, which may
fail to exclude (`Jumpstarter/Service/LeaseLock.lean`).

- `opened_fails`: `Dial` never reads `Status.Ended`, and an ended lease keeps its exporter. It
  returns a token for a lease that has ended.
- `opened_of_live`: the property in every run in which no call with an ended lease passes the check of the
  status (`liveAct`).
-/

namespace Jumpstarter.Dial

open Lib

/-! ## The functions of `Dial` -/

inductive Code where
  | failedPrecondition | internal | unavailable | resourceExhausted
  deriving DecidableEq

/-- The errors of `Dial`. -/
inductive Error where
  /-- That of a `Get`. -/
  | get
  /-- `ctx.Err()`. -/
  | ctx
  | plain (message : String)
  | status (code : Code) (message : String)
  deriving DecidableEq

def checkExporterStatusForDriverCalls : ExporterStatusValue → Except Error Unit
  | .leaseReady | .beforeLeaseHook | .afterLeaseHook => .ok ()
  | .unspecified | .unset => .ok ()
  | .offline => .error (.status .failedPrecondition "exporter is offline")
  | .available =>
    .error (.status .failedPrecondition "exporter is not ready (status: Available)")
  | .beforeLeaseHookFailed =>
    .error (.status .failedPrecondition "exporter beforeLease hook failed")
  | .afterLeaseHookFailed =>
    .error (.status .failedPrecondition "exporter afterLease hook failed")

/-- The status of the exporter admits driver calls. -/
def admits (e : Exporter) : Bool :=
  match checkExporterStatusForDriverCalls e.status.exporterStatusValue with
  | .ok () => true
  | .error _ => false

/-- The loop of `MatchLabels` over the rest of the target, with `count` matches so far. -/
def matchLabelsFrom (candidate : Labels) : Labels → Int → Int
  | [], count => count
  | (k, vt) :: rest, count =>
    if candidate.lookup k = some vt then matchLabelsFrom candidate rest (count + 1) else -1

def matchLabels (candidate target : Labels) : Int := matchLabelsFrom candidate target 0

structure RouterEntry where
  endpoint : String
  labels : Labels := []
  deriving DecidableEq

/-- `cmp.Compare`. -/
def compareInts (a b : Int) : Int := if a < b then -1 else if b < a then 1 else 0

def compareRouters (e : Exporter) (a b : RouterEntry) : Int :=
  -compareInts (matchLabels a.labels e.labels) (matchLabels b.labels e.labels)

/-- `ListenResponse` and `DialResponse`. A token is the number of the call that signed it: its ID is
a new UUID. -/
structure Response where
  routerEndpoint : String
  routerToken : Nat
  deriving DecidableEq

/-- The error of `sendToListener`. -/
def sendError (leaseName : String) : Listen.SendError → Error
  | .unavailable => .status .unavailable ("exporter is not listening on lease " ++ leaseName)
  | .resourceExhausted => .status .resourceExhausted ("listener buffer full on lease " ++ leaseName)

/-! ## The system -/

structure Config where
  leaseName : String
  /-- The values of the map `s.Router`. -/
  router : List RouterEntry
  sort : SortFunc

/-- Where a `Dial` call is. -/
inductive Phase where
  | idle
  /-- The lease passed its checks, before the first `Get` of the exporter. -/
  | getExporter
  | check
  /-- At the `select` of the retry loop. -/
  | wait
  /-- Before the `Get` of the retry loop. -/
  | refetch
  | sign
  /-- In `sendToListener`, before the load of the queue. -/
  | load (response : Response)
  /-- In `sendToListener`, before the send to queue `q`. -/
  | send (q : Nat) (response : Response)
  | returned (response : Response)
  | failed (err : Error)

/-- A `Dial` call with its variables: what it read last, and the retry loop's. -/
structure Call where
  phase : Phase := .idle
  client : ObjectKey := default
  lease : Lease := {}
  exporter : Exporter := {}
  retryDelay : Int := 0
  deadline : Int := 0

/-- The store, the `Listen` calls with the exporter that each was authorized for, and the `Dial`
calls. -/
structure St where
  leases : ObjectKey → Option Lease := fun _ => none
  exporters : ObjectKey → Option Exporter := fun _ => none
  listen : Listen.St Response := Listen.start
  listener : Nat → Option ObjectKey := fun _ => none
  call : Nat → Call := fun _ => {}

/-- `Get` of an object; `failed`: it fails for another reason than that there is none. -/
def get {α : Type} (objs : ObjectKey → Option α) (failed : Bool) (key : ObjectKey) :
    Except Error α :=
  match objs key with
  | some a => if failed then .error .get else .ok a
  | none => .error .get

/-- The first part of `Dial`, for the authenticated `client`: the lease. -/
def getLease (leaseName : String) (leases : ObjectKey → Option Lease) (client : ObjectKey)
    (failed : Bool) : Except Error Lease :=
  if leaseName = "" then .error (.plain "empty lease name")
  else
    match get leases failed ⟨client.ns, leaseName⟩ with
    | .error err => .error err
    | .ok lease =>
      if lease.spec.clientRef ≠ client.name then .error (.plain "permission denied")
      else if lease.status.exporterRef = none then .error (.plain "lease not active")
      else .ok lease

/-- `Get` of the exporter of the lease. -/
def Call.get (c : Call) (exporters : ObjectKey → Option Exporter) (failed : Bool) :
    Except Error Exporter :=
  Dial.get exporters failed ⟨c.client.ns, c.lease.status.exporterRef.getD ""⟩

/-- The authorization of `Listen`: the exporter holds the lease. -/
def authorized (leaseName : String) (leases : ObjectKey → Option Lease) (exporter : ObjectKey) :
    Bool :=
  leaseName ≠ "" ∧ (leases ⟨exporter.ns, leaseName⟩).any fun l =>
    l.status.exporterRef = some exporter.name

/-- A step of a `Dial` call between its reads of the lease and its send, with what it reads of the
clock and of its context. -/
inductive Local where
  | getExporter (failed : Bool) (now : Int)
  | check (now : Int)
  /-- The `select`: `ctx.Done()`, or the end of the delay. -/
  | wake (ctxDone : Bool)
  | refetch (failed : Bool)
  /-- The choice of the router, from its entries in the order of the map, and the signature. -/
  | sign (entries : List RouterEntry) (signed : Bool)

def maxDelay : Int := 3 * second

def maxTotalWait : Int := 30 * second

def Call.fail (c : Call) (err : Error) : Call := { c with phase := .failed err }

def Call.next (cfg : Config) (exporters : ObjectKey → Option Exporter) (i : Nat) (c : Call) :
    Local → Option Call
  | .getExporter failed now =>
    match c.phase with
    | .getExporter =>
      match c.get exporters failed with
      | .error err => some (c.fail err)
      | .ok exporter =>
        some { c with
          phase := .check, exporter, retryDelay := second / 2, deadline := now + maxTotalWait }
    | _ => none
  | .check now =>
    match c.phase with
    | .check =>
      match checkExporterStatusForDriverCalls c.exporter.status.exporterStatusValue with
      | .ok () => some { c with phase := .sign }
      | .error err =>
        if c.exporter.status.exporterStatusValue ≠ .available then some (c.fail err)
        else if c.deadline < now + c.retryDelay then some (c.fail err)
        else some { c with phase := .wait }
    | _ => none
  | .wake ctxDone =>
    match c.phase with
    | .wait =>
      if ctxDone then some (c.fail .ctx)
      else some { c with phase := .refetch, retryDelay := min (c.retryDelay * 2) maxDelay }
    | _ => none
  | .refetch failed =>
    match c.phase with
    | .refetch =>
      match c.get exporters failed with
      | .error err => some (c.fail err)
      | .ok exporter => some { c with phase := .check, exporter }
    | _ => none
  | .sign entries signed =>
    match c.phase with
    | .sign =>
      if entries.isPerm cfg.router then
        match cfg.sort.sort (compareRouters c.exporter) entries with
        | [] => some (c.fail (.plain "no router available"))
        | candidate :: _ =>
          if signed then some { c with phase := .load ⟨candidate.endpoint, i⟩ }
          else some (c.fail (.status .internal "unable to sign token"))
      else none
    | _ => none

inductive Act where
  | write (leases : ObjectKey → Option Lease) (exporters : ObjectKey → Option Exporter)
  /-- `Listen` call `q` of the exporter passes its authorization. -/
  | authorize (q : Nat) (exporter : ObjectKey)
  /-- A step of a `Listen` call after its authorization. -/
  | listen (a : Listen.Act Response)
  /-- `Dial` call `i` of the client reads the lease. -/
  | dial (i : Nat) (client : ObjectKey) (failed : Bool)
  | next (i : Nat) (l : Local)
  /-- `sendToListener` of call `i`: load the queue, check `done`. -/
  | load (i : Nat)
  /-- `sendToListener` of call `i`: the non-blocking channel send. -/
  | send (i : Nat)

def St.set (s : St) (i : Nat) (c : Call) : St := { s with call := Function.update s.call i c }

/-- The steps of a `Listen` call after its authorization; the other steps are those of
`sendToListener`. -/
def listens (listener : Nat → Option ObjectKey) : Listen.Act Response → Bool
  | .start q => (listener q).isSome
  | .loop _ _ | .closeDone _ | .compareAndDelete _ => true
  | .check _ | .send => false

def step (cfg : Config) (s : St) : Act → Option St
  | .write leases exporters => some { s with leases, exporters }
  | .authorize q exporter =>
    if s.listener q = none ∧ authorized cfg.leaseName s.leases exporter = true then
      some { s with listener := Function.update s.listener q (some exporter) }
    else none
  | .listen a =>
    if listens s.listener a then (Listen.step s.listen a).map fun l => { s with listen := l }
    else none
  | .dial i client failed =>
    match (s.call i).phase with
    | .idle =>
      match getLease cfg.leaseName s.leases client failed with
      | .error err => some (s.set i { client, phase := .failed err })
      | .ok lease => some (s.set i { client, lease, phase := .getExporter })
    | _ => none
  | .next i l => ((s.call i).next cfg s.exporters i l).map (s.set i)
  | .load i =>
    match (s.call i).phase with
    | .load r =>
      match s.listen.loadQueue with
      | .error err => some (s.set i ((s.call i).fail (sendError cfg.leaseName err)))
      | .ok q => some (s.set i { s.call i with phase := .send q r })
    | _ => none
  | .send i =>
    match (s.call i).phase with
    | .send q r =>
      match s.listen.sendTo q r with
      | .error err => some (s.set i ((s.call i).fail (sendError cfg.leaseName err)))
      | .ok l => some { s.set i { s.call i with phase := .returned r } with listen := l }
    | _ => none

def sys (cfg : Config) : Sys St Act where
  init s := s = {}
  step := step cfg

/-! ## The property -/

/-- The tokens that `sendToListener` put into the queue of `Listen` call `q`. -/
def St.tokens (s : St) (q : Nat) : List Nat :=
  (s.listen.call q).accepted.map Response.routerToken

/-- Response `r` of call `i` is in the queue of one `Listen` call for the lease, and its token was
enqueued once. -/
def Enqueued (s : St) (i : Nat) (r : Response) : Prop :=
  ∃ q, (s.listener q).isSome = true ∧ r ∈ (s.listen.call q).accepted ∧
    (s.tokens q).count i = 1 ∧ ∀ q', q' ≠ q → i ∉ s.tokens q'

/-- The call passes the check of the exporter's status only with a lease that has not ended. -/
def liveAct (s : St) : Act → Bool
  | .next i (.check _) => !(admits (s.call i).exporter && (s.call i).lease.status.ended)
  | _ => true

/-! ## One call -/

def Phase.checked : Phase → Bool
  | .idle | .failed _ => false
  | _ => true

def Phase.admitted : Phase → Bool
  | .sign | .load _ | .send _ _ | .returned _ => true
  | _ => false

def Phase.response : Phase → Option Response
  | .load r | .send _ r | .returned r => some r
  | _ => none

def Phase.isReturned : Phase → Bool
  | .returned _ => true
  | _ => false

/-- What holds of the variables of call `i` at its place. -/
structure CallOk (i : Nat) (c : Call) : Prop where
  lease : c.phase.checked = true → c.lease.spec.clientRef = c.client.name ∧ c.lease.status.exporterRef ≠ none
  exporter : c.phase.admitted = true → admits c.exporter = true ∧ c.lease.status.ended = false
  token : ∀ r, c.phase.response = some r → r.routerToken = i

variable {i : Nat} {c : Call}

theorem CallOk.failed {err : Error} (h : c.phase = .failed err) : CallOk i c := by
  refine ⟨fun hc => ?_, fun ha => ?_, fun r hr => ?_⟩
  · rw [h] at hc
    cases hc
  · rw [h] at ha
    cases ha
  · rw [h] at hr
    cases hr

theorem getLease_ok {leaseName : String} {leases : ObjectKey → Option Lease} {client : ObjectKey}
    {failed : Bool} {lease : Lease} (h : getLease leaseName leases client failed = .ok lease) :
    lease.spec.clientRef = client.name ∧ lease.status.exporterRef ≠ none := by
  unfold getLease at h
  split at h
  · cases h
  · split at h
    · cases h
    · split at h
      · cases h
      · rename_i hclient
        split at h
        · cases h
        · rename_i href
          cases h
          exact ⟨by simpa using hclient, href⟩

/-- The steps of the call between its read of the lease and its send, with their conditions. -/
inductive NextMove (i : Nat) (c : Call) : Local → Call → Prop
  | fail {l : Local} (err : Error) : c.phase.isReturned = false → NextMove i c l (c.fail err)
  | loop {l : Local} {phase : Phase} {exporter : Exporter} {retryDelay deadline : Int} :
    c.phase.checked = true → c.phase.isReturned = false →
    phase = .check ∨ phase = .wait ∨ phase = .refetch →
    NextMove i c l { c with phase, exporter, retryDelay, deadline }
  | pass {now : Int} : c.phase = .check → admits c.exporter = true →
    NextMove i c (.check now) { c with phase := .sign }
  | sign {entries : List RouterEntry} {r : Response} : c.phase = .sign → r.routerToken = i →
    NextMove i c (.sign entries true) { c with phase := .load r }

variable {c' : Call}

theorem Call.next_move {cfg : Config} {exporters : ObjectKey → Option Exporter} {l : Local}
    (h : c.next cfg exporters i l = some c') : NextMove i c l c' := by
  cases l <;> simp only [Call.next] at h
  case getExporter failed now =>
    split at h
    · rename_i hp
      split at h
      · cases h
        exact .fail _ (by rw [hp]; rfl)
      · cases h
        exact .loop (by rw [hp]; rfl) (by rw [hp]; rfl) (.inl rfl)
    · cases h
  case check now =>
    split at h
    · rename_i hp
      split at h
      · rename_i hs
        cases h
        exact .pass hp (by unfold admits; rw [hs])
      · split at h
        · cases h
          exact .fail _ (by rw [hp]; rfl)
        · split at h
          · cases h
            exact .fail _ (by rw [hp]; rfl)
          · cases h
            exact .loop (by rw [hp]; rfl) (by rw [hp]; rfl) (.inr (.inl rfl))
    · cases h
  case wake ctxDone =>
    split at h
    · rename_i hp
      split at h
      · cases h
        exact .fail _ (by rw [hp]; rfl)
      · cases h
        exact .loop (by rw [hp]; rfl) (by rw [hp]; rfl) (.inr (.inr rfl))
    · cases h
  case refetch failed =>
    split at h
    · rename_i hp
      split at h
      · cases h
        exact .fail _ (by rw [hp]; rfl)
      · cases h
        exact .loop (by rw [hp]; rfl) (by rw [hp]; rfl) (.inl rfl)
    · cases h
  case sign entries signed =>
    split at h
    · rename_i hp
      split at h
      · split at h
        · cases h
          exact .fail _ (by rw [hp]; rfl)
        · split at h
          · rename_i hs
            subst hs
            cases h
            exact .sign hp rfl
          · cases h
            exact .fail _ (by rw [hp]; rfl)
      · cases h
    · cases h

theorem CallOk.next {l : Local} (hc : CallOk i c)
    (hlive : ∀ now, l = .check now → admits c.exporter = true → c.lease.status.ended = false)
    (h : NextMove i c l c') : CallOk i c' := by
  cases h with
  | fail err => exact .failed rfl
  | loop hchecked _ hp =>
    have hlease := hc.lease hchecked
    rcases hp with rfl | rfl | rfl <;>
      exact ⟨fun _ => hlease, fun ha => (nomatch ha), fun r hr => (nomatch hr)⟩
  | @pass now hp hadm =>
    exact ⟨fun _ => hc.lease (by rw [hp]; rfl), fun _ => ⟨hadm, hlive now rfl hadm⟩, fun r hr => (nomatch hr)⟩
  | sign hp hr =>
    refine ⟨fun _ => hc.lease (by rw [hp]; rfl), fun _ => hc.exporter (by rw [hp]; rfl), ?_⟩
    intro r' hr'
    cases hr'
    exact hr

theorem NextMove.phase {l : Local} (h : NextMove i c l c') :
    c.phase.isReturned = false ∧ c'.phase.isReturned = false ∧ ∀ q r, c'.phase ≠ .send q r := by
  cases h with
  | fail err hret => exact ⟨hret, rfl, fun _ _ hq => nomatch hq⟩
  | loop _ hret hp =>
    rcases hp with rfl | rfl | rfl <;> exact ⟨hret, rfl, fun _ _ hq => nomatch hq⟩
  | pass hp => exact ⟨by rw [hp]; rfl, rfl, fun _ _ hq => nomatch hq⟩
  | sign hp => exact ⟨by rw [hp]; rfl, rfl, fun _ _ hq => nomatch hq⟩

/-! ## The invariant -/

/-- `Listen` call `q` was authorized and has stored its queue. -/
structure Begun (s : St) (q : Nat) : Prop where
  authorized : (s.listener q).isSome = true
  begun : (s.listen.call q).phase.isNew = false

structure Inv (s : St) : Prop where
  call : ∀ i, CallOk i (s.call i)
  fresh : Listen.Fresh s.listen
  stored : ∀ q, s.listen.listenQueues = some q → Begun s q
  target : ∀ i q r, (s.call i).phase = .send q r → Begun s q
  returned : ∀ i r, (s.call i).phase = .returned r → Enqueued s i r
  others : ∀ i, (s.call i).phase.isReturned = false → ∀ q, i ∉ s.tokens q

theorem set_call (s : St) (i j : Nat) (c : Call) : (s.set i c).call j = if j = i then c else s.call j := by
  simp [St.set, Function.update_apply]

theorem Inv.start : Inv {} where
  call _ := ⟨fun h => (nomatch h), fun h => (nomatch h), fun _ h => (nomatch h)⟩
  fresh _ _ := rfl
  stored _ h := nomatch h
  target _ _ _ h := nomatch h
  returned _ _ h := nomatch h
  others _ _ _ h := nomatch h

theorem Inv.set {s : St} (hi : Inv s) (hc : CallOk i c) (hbefore : (s.call i).phase.isReturned = false)
    (hafter : c.phase.isReturned = false) (htarget : ∀ q r, c.phase = .send q r → Begun s q) :
    Inv (s.set i c) := by
  have hbegun : ∀ q, Begun s q → Begun (s.set i c) q := fun q h => ⟨h.authorized, h.begun⟩
  refine ⟨fun j => ?_, hi.fresh, fun q hq => hbegun q (hi.stored q hq), fun j q r hj => ?_,
    fun j r hj => ?_, fun j hj => ?_⟩
  · rw [set_call]
    split
    · rename_i e
      exact e ▸ hc
    · exact hi.call j
  · rw [set_call] at hj
    split at hj
    · exact hbegun q (htarget q r hj)
    · exact hbegun q (hi.target j q r hj)
  · rw [set_call] at hj
    split at hj
    · rw [hj] at hafter
      cases hafter
    · exact hi.returned j r hj
  · rw [set_call] at hj
    split at hj
    · rename_i e
      exact hi.others j (e ▸ hbefore)
    · exact hi.others j hj

theorem Inv.frame {s s' : St} (hi : Inv s) (hcall : s'.call = s.call)
    (hfresh : Listen.Fresh s'.listen)
    (haccepted : ∀ q, (s'.listen.call q).accepted = (s.listen.call q).accepted)
    (hlistener : ∀ q, (s.listener q).isSome = true → (s'.listener q).isSome = true)
    (hbegun : ∀ q, Begun s q → Begun s' q)
    (hstored : ∀ q, s'.listen.listenQueues = some q → Begun s' q) : Inv s' := by
  have htokens : ∀ q, s'.tokens q = s.tokens q := fun q => by
    unfold St.tokens
    rw [haccepted]
  refine ⟨hcall ▸ hi.call, hfresh, hstored, fun j q r hj => ?_, fun j r hj => ?_, fun j hj q => ?_⟩
  · exact hbegun q (hi.target j q r (hcall ▸ hj))
  · obtain ⟨q, hq, hmem, hone, hothers⟩ := hi.returned j r (hcall ▸ hj)
    refine ⟨q, hlistener q hq, by rw [haccepted]; exact hmem, by rw [htokens]; exact hone, ?_⟩
    intro q' hne
    rw [htokens]
    exact hothers q' hne
  · rw [htokens]
    exact hi.others j (hcall ▸ hj) q

theorem Inv.listen {s : St} (hi : Inv s) {a : Listen.Act Response} {l : Listen.St Response}
    (ha : listens s.listener a = true) (h : Listen.step s.listen a = some l) :
    Inv { s with listen := l } := by
  have hne : a ≠ .send := by
    rintro rfl
    cases ha
  have hbegun : ∀ q, Begun s q → Begun { s with listen := l } q := fun q hq => by
    refine ⟨hq.authorized, ?_⟩
    by_contra hnew
    have := (Listen.step_accepted hi.fresh hne h q).2 (by simpa using hnew)
    rw [hq.begun] at this
    cases this
  refine hi.frame rfl (hi.fresh.step hne h) (fun q => (Listen.step_accepted hi.fresh hne h q).1)
    (fun _ => id) hbegun fun q hq => ?_
  rcases Listen.step_listenQueues hne h hq with ⟨rfl, hnew⟩ | hq
  · exact ⟨ha, hnew⟩
  · exact hbegun q (hi.stored q hq)

section Send

variable {s : St} {q : Nat} {r : Response} {l : Listen.St Response}

section

variable (h : s.listen.sendTo q r = .ok l)
include h

theorem tokens_send (q' : Nat) :
    ({ s with listen := l } : St).tokens q' =
      if q' = q then s.tokens q' ++ [r.routerToken] else s.tokens q' := by
  show (l.call q').accepted.map Response.routerToken = _
  rw [Listen.sendTo_accepted h]
  split
  · rw [List.map_append, List.map_singleton]
    rfl
  · rfl

theorem mem_tokens_send {j : Nat} (hj : j ≠ r.routerToken)
    (q' : Nat) : j ∈ ({ s with listen := l } : St).tokens q' ↔ j ∈ s.tokens q' := by
  rw [tokens_send h]
  split
  · simp [hj]
  · exact Iff.rfl

theorem Enqueued.sent (hq : (s.listener q).isSome = true) (hnone : ∀ q', r.routerToken ∉ s.tokens q') :
    Enqueued { s with listen := l } r.routerToken r := by
  refine ⟨q, hq, ?_, ?_, fun q' hne => ?_⟩
  · show r ∈ (l.call q).accepted
    rw [Listen.sendTo_accepted h, if_pos rfl]
    simp
  · rw [tokens_send h, if_pos rfl]
    simp [List.count_eq_zero.mpr (hnone q)]
  · rw [tokens_send h, if_neg hne]
    exact hnone q'

end

theorem Enqueued.send {j : Nat} {r' : Response} (he : Enqueued s j r')
    (h : s.listen.sendTo q r = .ok l) (hj : j ≠ r.routerToken) :
    Enqueued { s with listen := l } j r' := by
  obtain ⟨q₀, hq₀, hmem, hone, hothers⟩ := he
  refine ⟨q₀, hq₀, ?_, ?_, fun q' hq' => ?_⟩
  · show r' ∈ (l.call q₀).accepted
    rw [Listen.sendTo_accepted h]
    split
    · exact List.mem_append_left _ hmem
    · exact hmem
  · rw [tokens_send h]
    split
    · rw [List.count_append, hone, List.count_eq_zero.mpr (by simpa using hj)]
    · exact hone
  · rw [mem_tokens_send h hj]
    exact hothers q' hq'

end Send

theorem Inv.send {s : St} (hi : Inv s) {q : Nat} {r : Response} {l : Listen.St Response}
    (hp : (s.call i).phase = .send q r) (h : s.listen.sendTo q r = .ok l) :
    Inv { s.set i { s.call i with phase := .returned r } with listen := l } := by
  obtain rfl : r.routerToken = i := (hi.call i).token r (by rw [hp]; rfl)
  have hnone := hi.others r.routerToken (by rw [hp]; rfl)
  have hq := hi.target r.routerToken q r hp
  generalize hc' : { s.call r.routerToken with phase := .returned r } = c'
  have hcall : ∀ j, ({ s.set r.routerToken c' with listen := l } : St).call j =
      if j = r.routerToken then c' else s.call j := fun j => set_call s r.routerToken j c'
  have hbegun : ∀ q', Begun s q' → Begun { s.set r.routerToken c' with listen := l } q' := by
    intro q' h'
    refine ⟨h'.authorized, ?_⟩
    show (l.call q').phase.isNew = false
    rw [Listen.sendTo_ok h, Listen.set_call]
    split
    · exact hq.begun
    · exact h'.begun
  refine ⟨fun j => ?_, hi.fresh.sendTo hq.begun h, fun q' hq' => ?_, fun j q' r' hj => ?_,
    fun j r' hj => ?_, fun j hj q' => ?_⟩
  · rw [hcall]
    split
    · rename_i e
      subst hc'
      have hc := hi.call r.routerToken
      rw [e]
      refine ⟨fun _ => hc.lease (by rw [hp]; rfl), fun _ => hc.exporter (by rw [hp]; rfl), ?_⟩
      intro r' hr'
      cases hr'
      rfl
    · exact hi.call j
  · exact hbegun q' (hi.stored q' (Listen.sendTo_listenQueues h ▸ hq'))
  · rw [hcall] at hj
    split at hj
    · subst hc'
      cases hj
    · exact hbegun q' (hi.target j q' r' hj)
  · rw [hcall] at hj
    split at hj
    · rename_i e
      subst hc'
      cases hj
      rw [e]
      exact .sent h hq.authorized hnone
    · rename_i hne
      exact (hi.returned j r' hj).send h hne
  · rw [hcall] at hj
    split at hj
    · subst hc'
      cases hj
    · rename_i hne
      exact fun h' => hi.others j hj q' ((mem_tokens_send h hne q').mp h')

theorem Inv.step {cfg : Config} {s s' : St} (hi : Inv s) {a : Act} (hlive : liveAct s a = true)
    (h : step cfg s a = some s') : Inv s' := by
  cases a <;> simp only [Dial.step] at h
  case write leases exporters =>
    cases h
    have hbegun : ∀ q, Begun s q → Begun { s with leases, exporters } q :=
      fun q h => ⟨h.authorized, h.begun⟩
    exact hi.frame rfl hi.fresh (fun _ => rfl) (fun _ => id) hbegun fun q hq => hbegun q (hi.stored q hq)
  case authorize q exporter =>
    split at h
    · cases h
      have hmore : ∀ q', (s.listener q').isSome = true →
          (Function.update s.listener q (some exporter) q').isSome = true := by
        intro q' hq'
        rw [Function.update_apply]
        split
        · rfl
        · exact hq'
      have hbegun : ∀ q', Begun s q' →
          Begun { s with listener := Function.update s.listener q (some exporter) } q' :=
        fun q' h => ⟨hmore q' h.authorized, h.begun⟩
      exact hi.frame rfl hi.fresh (fun _ => rfl) hmore hbegun fun q' hq' => hbegun q' (hi.stored q' hq')
    · cases h
  case listen a =>
    split at h
    · rename_i ha
      obtain ⟨l, hl, rfl⟩ := Option.map_eq_some_iff.mp h
      exact hi.listen ha hl
    · cases h
  case dial i client failed =>
    split at h
    · rename_i hp
      have hbefore : (s.call i).phase.isReturned = false := by
        rw [hp]
        rfl
      split at h
      · cases h
        exact hi.set (.failed rfl) hbefore rfl fun _ _ hq => nomatch hq
      · rename_i lease hl
        cases h
        exact hi.set ⟨fun _ => getLease_ok hl, fun h => (nomatch h), fun _ h => (nomatch h)⟩
          hbefore rfl fun _ _ hq => nomatch hq
    · cases h
  case next i l =>
    obtain ⟨c, hc, rfl⟩ := Option.map_eq_some_iff.mp h
    have hm := Call.next_move hc
    obtain ⟨hbefore, hafter, hsend⟩ := hm.phase
    refine hi.set ((hi.call i).next ?_ hm) hbefore hafter fun q r hq => absurd hq (hsend q r)
    rintro now rfl hadm
    simpa [liveAct, hadm] using hlive
  case load i =>
    split at h
    · rename_i r hp
      have hbefore : (s.call i).phase.isReturned = false := by
        rw [hp]
        rfl
      split at h
      · cases h
        exact hi.set (.failed rfl) hbefore rfl fun _ _ hq => nomatch hq
      · rename_i q hq
        cases h
        have hc := hi.call i
        refine hi.set ⟨fun _ => hc.lease (by rw [hp]; rfl), fun _ => hc.exporter (by rw [hp]; rfl),
          fun r' hr' => hc.token r' (by rw [hp]; exact hr')⟩ hbefore rfl fun q' r' hq' => ?_
        cases hq'
        exact hi.stored q (Listen.loadQueue_ok hq).1
    · cases h
  case send i =>
    split at h
    · rename_i q r hp
      split at h
      · cases h
        exact hi.set (.failed rfl) (by rw [hp]; rfl) rfl fun _ _ hq => nomatch hq
      · rename_i l hl
        cases h
        exact hi.send hp hl
    · cases h

theorem inductive_inv (cfg : Config) : (sys cfg).InductiveIf (fun s a => liveAct s a = true) Inv where
  init s hs := by
    rw [hs]
    exact Inv.start
  step _ _ _ hi hlive hst := hi.step hlive hst

end Jumpstarter.Dial
