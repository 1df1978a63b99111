import Jumpstarter.Exporter.Reconcile
import Jumpstarter.Lib.Sys

/-!
# The status reports of a serving exporter (`_drain_status_reports`)

While `serve` runs, `_report_status` puts its request into one slot and sets an event, and a task of its
own, the drain, takes the request from there and sends it. The drain replaces the event each time.

- A task runs up to its next `await`. `_report_status` has none while the drain is active, and the drain
  has none from the end of `wait()` to the first call of `_send_report_status_rpc`.
- The events are numbered: `St.event` is `_status_rpc_event`, and `St.set` are those that were set.
- Each call of `_report_status` makes a request of its own; `Request.id` tells equal ones apart.
- `St.reported` and `St.passed` are ghosts: the requests of all calls of `_report_status`, and those the
  drain passed on.

`drain_latest`: a drain that waits for an event that is not set has passed the latest request, and it
passes the requests in their order, each at most once.
-/

namespace Jumpstarter.StatusDrain

open Lib List

/-- `ReportStatusRequest`. -/
structure Request where
  id : Nat
  status : Exporter.ProtoStatus
  message : String := ""
  deriving DecidableEq

/-! ## `_retry_rpc` -/

/-- `grpc.StatusCode`; `other` is any code that the functions here do not name. -/
inductive Code where
  | unavailable | deadlineExceeded | unimplemented
  | other (n : Nat)
  deriving DecidableEq

def transientGrpcCodes : List Code := [.unavailable, .deadlineExceeded]

def rpcMaxRetries : Nat := 20

inductive Outcome where
  | ok
  | rpcError (code : Code)
  | exception
  deriving DecidableEq

/-- What `_retry_rpc` does after a call: it returns, or it sleeps and calls again. -/
inductive Next where
  | done (ok : Bool) (code : Option Code)
  | again
  deriving DecidableEq

/-- One iteration of `_retry_rpc`, after the call. -/
def retryRpc (nonRetryableCodes : List Code) (attempt : Nat) : Outcome → Next
  | .ok => .done true none
  | .rpcError code =>
    if code ∈ nonRetryableCodes then .done false (some code)
    else if code ∈ transientGrpcCodes ∧ attempt < rpcMaxRetries then .again
    else .done false (some code)
  | .exception => .done false none

/-- `_send_report_status_rpc`, after the call number `attempt`. -/
def sendReportStatusRpc (attempt : Nat) (outcome : Outcome) : Next :=
  retryRpc [.unimplemented] attempt outcome

/-! ## The tasks -/

inductive Place where
  | started
  | waiting (event : Nat)
  | calling (request : Request) (attempt : Nat)
  | sleeping (request : Request) (attempt : Nat)
  deriving DecidableEq

structure St where
  exporterStatus : Option Exporter.ProtoStatus := none
  event : Nat := 0
  set : List Nat := []
  pendingStatusRequest : Option Request := none
  place : Place := .started
  reported : List Request := []
  passed : List Request := []

/-- `_report_status` while the drain is active. -/
@[simp] def St.reportStatus (s : St) (status : Exporter.ProtoStatus) (message : String) : St :=
  let request : Request := ⟨s.reported.length, status, message⟩
  { s with
    exporterStatus := some status
    pendingStatusRequest := some request
    set := s.event :: s.set
    reported := s.reported ++ [request] }

/-- `_drain_status_reports` from the top of its loop. -/
def St.wait (s : St) : St := { s with place := .waiting s.event }

/-- `_drain_status_reports` from the end of `wait()`. -/
def St.wake (s : St) : St :=
  let s := { s with event := s.event + 1 }
  match s.pendingStatusRequest with
  | none => s.wait
  | some request => { s with place := .calling request 0, passed := s.passed ++ [request] }

inductive Act where
  | report (status : Exporter.ProtoStatus) (message : String)
  | start
  /-- `wait()` returns. -/
  | wake
  /-- A call of `ReportStatus` ends. -/
  | rpc (outcome : Outcome)
  | slept

def step (s : St) : Act → Option St
  | .report status message => some (s.reportStatus status message)
  | .start =>
    match s.place with
    | .started => some s.wait
    | _ => none
  | .wake =>
    match s.place with
    | .waiting event => if event ∈ s.set then some s.wake else none
    | _ => none
  | .rpc outcome =>
    match s.place with
    | .calling request attempt =>
      match sendReportStatusRpc attempt outcome with
      | .done _ _ => some s.wait
      | .again => some { s with place := .sleeping request attempt }
    | _ => none
  | .slept =>
    match s.place with
    | .sleeping request attempt => some { s with place := .calling request (attempt + 1) }
    | _ => none

/-- `_run_control_plane` from its set-up: a new event, no request and a drain that was started. -/
def sys : Sys St Act where
  init s := ∃ status, s = { exporterStatus := status }
  step := step

variable {s : St}

theorem step_cases {s' : St} {a : Act} (h : step s a = some s') :
    (∃ status message, s' = s.reportStatus status message) ∨
    (∃ event, s.place = .waiting event ∧ event ∈ s.set ∧ s' = s.wake) ∨
    s' = s.wait ∨
    (∃ place, (∀ event, place ≠ .waiting event) ∧ s' = { s with place }) := by
  cases a with
  | report status message =>
    cases h
    exact .inl ⟨status, message, rfl⟩
  | start =>
    simp only [step] at h
    split at h
    · cases h
      exact .inr (.inr (.inl rfl))
    · cases h
  | wake =>
    simp only [step] at h
    split at h
    · rename_i event hplace
      split at h
      · rename_i hset
        cases h
        exact .inr (.inl ⟨event, hplace, hset, rfl⟩)
      · cases h
    · cases h
  | rpc outcome =>
    simp only [step] at h
    split at h
    · rename_i request attempt hplace
      split at h
      · cases h
        exact .inr (.inr (.inl rfl))
      · cases h
        exact .inr (.inr (.inr ⟨.sleeping request attempt, nofun, rfl⟩))
    · cases h
  | slept =>
    simp only [step] at h
    split at h
    · rename_i request attempt hplace
      cases h
      exact .inr (.inr (.inr ⟨.calling request (attempt + 1), nofun, rfl⟩))
    · cases h

/-! ## The slot and the event -/

structure Inv (s : St) : Prop where
  ids : s.reported.map (·.id) = List.range s.reported.length
  pending : s.pendingStatusRequest = s.reported.getLast?
  events : ∀ event ∈ s.set, event ≤ s.event
  waiting : ∀ event, s.place = .waiting event → event = s.event
  unset : s.event ∉ s.set → s.passed.getLast? = s.reported.getLast?
  fresh : s.event ∈ s.set → s.passed.Sublist s.reported.dropLast
  order : s.passed.Sublist s.reported

theorem inv_reportStatus (hi : Inv s) (status : Exporter.ProtoStatus) (message : String) :
    Inv (s.reportStatus status message) := by
  refine ⟨?_, ?_, ?_, hi.waiting, ?_, fun _ => ?_, ?_⟩
  · simp [hi.ids, range_succ]
  · simp
  · intro event hevent
    rcases mem_cons.mp hevent with rfl | hevent
    · exact Nat.le_refl _
    · exact hi.events event hevent
  · intro hunset
    exact absurd mem_cons_self hunset
  · simpa using hi.order
  · exact hi.order.trans (sublist_append_left _ _)

theorem inv_wait (hi : Inv s) : Inv s.wait := by
  refine { hi with waiting := fun event h => ?_ }
  cases h
  rfl

theorem inv_wake (hi : Inv s) (hset : s.event ∈ s.set) : Inv s.wake := by
  have hevents : ∀ event ∈ s.set, event ≤ s.event + 1 := fun event h =>
    Nat.le_succ_of_le (hi.events event h)
  have hnew : s.event + 1 ∉ s.set := fun h => by
    have := hi.events _ h
    omega
  cases hp : s.pendingStatusRequest with
  | none =>
    have hnone : s.reported = [] := getLast?_eq_none_iff.mp (hi.pending ▸ hp)
    have hpassed : s.passed = [] := sublist_nil.mp (hnone ▸ hi.order)
    have hw : s.wake = { s with event := s.event + 1, place := .waiting (s.event + 1) } := by
      simp only [St.wake, hp, St.wait]
    rw [hw]
    refine ⟨hi.ids, hi.pending, hevents, fun event h => ?_, fun _ => ?_, fun h => absurd h hnew, hi.order⟩
    · cases h
      rfl
    · simp only [hnone, hpassed]
  | some request =>
    have hlast : s.reported.getLast? = some request := hi.pending ▸ hp
    have horder : (s.passed ++ [request]).Sublist s.reported := by
      obtain ⟨before, hsplit⟩ := getLast?_eq_some_iff.mp hlast
      have hfresh := hi.fresh hset
      rw [hsplit, dropLast_concat] at hfresh
      rw [hsplit]
      exact hfresh.append (List.Sublist.refl _)
    have hw : s.wake = { s with event := s.event + 1, place := .calling request 0
                                passed := s.passed ++ [request] } := by
      simp only [St.wake, hp]
    rw [hw]
    refine ⟨hi.ids, hi.pending, hevents, fun event h => (nomatch h), fun _ => ?_,
      fun h => absurd h hnew, horder⟩
    rw [getLast?_concat, hlast]

theorem inv_step {s' : St} {a : Act} (hi : Inv s) (h : step s a = some s') : Inv s' := by
  rcases step_cases h with ⟨status, message, rfl⟩ | ⟨event, hplace, hset, rfl⟩ | rfl | ⟨place, hplace, rfl⟩
  · exact inv_reportStatus hi status message
  · rw [hi.waiting event hplace] at hset
    exact inv_wake hi hset
  · exact inv_wait hi
  · exact { hi with waiting := fun event h => absurd h (hplace event) }

theorem inv_reach (hr : sys.Reach s) : Inv s := by
  have hind : sys.InductiveIf (fun _ _ => True) Inv := by
    refine ⟨fun s hinit => ?_, fun s a s' hi _ h => inv_step hi h⟩
    obtain ⟨status, rfl⟩ := hinit
    exact ⟨rfl, rfl, nofun, nofun, fun _ => rfl, nofun, List.Sublist.refl _⟩
  exact hind.reach hr

/-- A drain that waits for an event that is not set has passed the request of the latest call of
`_report_status`, if there was a call; and at any time the requests it has passed are some of those of
the calls, in their order, each at most once. -/
theorem drain_latest {s : St} (hr : sys.Reach s) :
    (∀ event, s.place = .waiting event → event ∉ s.set →
      s.passed.getLast? = s.reported.getLast?) ∧
    s.passed.Sublist s.reported ∧ s.reported.Nodup := by
  have hi := inv_reach hr
  refine ⟨fun event hplace hunset => ?_, hi.order, ?_⟩
  · rw [hi.waiting event hplace] at hunset
    exact hi.unset hunset
  · have hids : (s.reported.map (·.id)).Nodup := hi.ids ▸ nodup_range
    exact List.Pairwise.of_map _ (fun a b hne hab => hne (congrArg (·.id) hab)) hids

/-- Two reports while the first one is sent, and the second try of it fails: the drain passes the
third request next. -/
theorem drain_latest_run : ∃ s, sys.Reach s ∧ s.place = .waiting 2 ∧ 2 ∉ s.set ∧
    s.reported.length = 3 ∧ s.passed.getLast? = s.reported.getLast? := by
  have hrun := Sys.Reach.exec_any (S := sys) (s := {}) (.init ⟨none, rfl⟩)
    [.start, .report .available "", .wake, .report .beforeLeaseHook "", .report .leaseReady "",
      .rpc (.rpcError .unavailable), .slept, .rpc .exception, .wake, .rpc .ok]
    (p := fun s => s.place = .waiting 2 && !s.set.contains 2 && s.reported.length = 3) (by decide)
  obtain ⟨s, hr, hp⟩ := hrun
  simp only [Bool.and_eq_true, decide_eq_true_eq, Bool.not_eq_true', contains_eq_mem,
    decide_eq_false_iff_not] at hp
  exact ⟨s, hr, hp.1.1, hp.1.2, hp.2, (drain_latest hr).1 2 hp.1.1 hp.1.2⟩

end Jumpstarter.StatusDrain
