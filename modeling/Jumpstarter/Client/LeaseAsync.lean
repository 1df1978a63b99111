import Jumpstarter.Api.Types
import Jumpstarter.Lib.Sys

/-!
# The lease of a Python client

`lease_async` (`config/client.py`) opens a `Lease` (`client/lease.py`) for the name of a lease or for a
selector. Entering the context is `request_async`: it takes the existing lease of that name, or it
creates one; `_acquire` polls it, and creates it again on the reason `NoExporter` of old controllers.
Leaving the context releases the lease, if that was decided at the start, by `DeleteLease`.

- `Place`: where the coroutine is. Each RPC is answered or raises; so does every other await when the
  acquisition times out or the task is cancelled (`Act.abort`).
- `St.created`, `St.deleted` are ghosts: the leases that `CreateLease` returned, and those for which
  `DeleteLease` was sent.

`givenBack_of_clean`: a context that is left has sent `DeleteLease` for every lease that it created, in
the runs of `clean`. `givenBack_fails`: the lease of the given name has another selector, and the new lease
is not released.
-/

namespace Jumpstarter.LeaseClient

open Lib

/-! ## What the controller answers -/

def conditionPresentAndEqual (conditions : List (Condition LeaseConditionType)) (t : LeaseConditionType)
    (status : ConditionStatus) (reason : Option String := none) : Bool :=
  match conditions.find? fun c => c.type = t && reason.all (· = c.reason) with
  | some c => c.status = status
  | none => false

def conditionMessage (conditions : List (Condition LeaseConditionType)) (t : LeaseConditionType) : String :=
  ((conditions.find? fun c => c.type = t).map (·.message)).getD "None"

/-- What `request_async` reads of the lease that `GetLease` returned. -/
structure Existing where
  /-- `effective_end_time` is set. -/
  ended : Bool
  client : String
  selector : String

/-- What `_acquire` does with the conditions of the lease. -/
inductive Poll where
  | ready | retry | pending
  | failed (message : String)
  deriving DecidableEq

/-- One round of the loop of `_acquire`. -/
def poll (name : String) (conditions : List (Condition LeaseConditionType)) : Poll :=
  if conditionPresentAndEqual conditions .ready .true then .ready
  else if conditionPresentAndEqual conditions .unsatisfiable .true then
    if conditionPresentAndEqual conditions .unsatisfiable .true (some "NoExporter") then .retry
    else .failed ("the lease cannot be satisfied: " ++ conditionMessage conditions .unsatisfiable)
  else if conditionPresentAndEqual conditions .invalid .true then
    .failed ("the lease is invalid: " ++ conditionMessage conditions .invalid)
  else if conditionPresentAndEqual conditions .pending .false then
    .failed s!"Lease {name} is not in pending, but it isn't in Ready or Unsatisfiable state either"
  else if conditionPresentAndEqual conditions .ready .false then
    let message := conditionMessage conditions .ready
    .failed (s!"lease {name}: " ++ if message = "" then "lease is no longer active" else message)
  else .pending

/-! ## The client -/

/-- The arguments of `lease_async`, and what it reads of the environment. -/
structure Args where
  selector : Option String
  leaseName : Option String
  jmpLease : Option String
  clientName : Option String

/-- The value of `lease_name or os.environ.get(JMP_LEASE, "")`. -/
def Args.name (args : Args) : String :=
  match args.leaseName with
  | some name => if name = "" then args.jmpLease.getD "" else name
  | none => args.jmpLease.getD ""

inductive Place where
  /-- Before `request_async`. -/
  | start
  /-- In `GetLease` for the lease of the given name. -/
  | gettingExisting
  /-- In `CreateLease`. -/
  | creating
  /-- In `GetLease` of `_acquire`. -/
  | polling
  | sleeping
  /-- In `_handle_no_exporter_retry`, before `CreateLease`. -/
  | retrying
  | body
  /-- In `GetLease` of the exit. -/
  | cleanupGet
  /-- In `DeleteLease`. -/
  | cleanupDelete
  | left
  deriving DecidableEq

structure St where
  args : Args
  place : Place := .start
  /-- `self.name`; Python's `None` is `""` here, both are false. -/
  name : String
  release : Bool
  /-- The text of the `LeaseError` that the context raised. -/
  error : Option String := none
  created : List String := []
  deleted : List String := []

/-- `lease_async` when it opens the `Lease`. -/
def St.init (args : Args) : St := { args, name := args.name, release := args.name = "" }

inductive Act where
  | request
  /-- `GetLease` returns the lease of the given name. -/
  | existing (lease : Existing)
  /-- `CreateLease` returns; `uuid` is the name that the controller makes up for a request without
  `lease_id`. -/
  | created (uuid : String)
  /-- `GetLease` of `_acquire` returns. -/
  | polled (conditions : List (Condition LeaseConditionType))
  /-- `GetLease` of `_acquire` raises `ConnectionError`, and is sent again. -/
  | repeatPoll
  | wake
  | leaveBody
  /-- `GetLease` of the exit returns. -/
  | gotLease
  /-- `DeleteLease` returns or raises. -/
  | deleted
  | abort

/-- The `finally` of the context. -/
def St.finish (s : St) : St :=
  { s with place := if s.release && s.name ≠ "" then .cleanupGet else .left }

/-- The context raises `LeaseError`. -/
def St.raise (s : St) (message : String) : St := St.finish { s with error := some message }

/-- `request_async` with the lease of the given name. -/
def St.useExisting (s : St) (lease : Existing) : St :=
  if lease.ended then s.raise s!"lease {s.name} has already ended"
  else if s.args.clientName.any fun client => client ≠ "" && lease.client ≠ client then
    s.raise ("lease " ++ s.name ++ " belongs to client '" ++ lease.client ++ "', " ++
      "not the current client '" ++ s.args.clientName.getD "" ++ "'")
  else if s.args.selector.any fun selector => lease.selector ≠ selector then
    { s with name := "", place := .creating }
  else { s with place := .polling }

/-- `CreateLease` of the controller takes the name from `lease_id`, if there is one. -/
def createName (leaseId uuid : String) : String := if leaseId = "" then uuid else leaseId

def step (s : St) (a : Act) : Option St :=
  match s.place, a with
  | .start, .request =>
    some { s with place := if s.name ≠ "" then .gettingExisting else .creating }
  | .gettingExisting, .existing lease => some (s.useExisting lease)
  | .creating, .created uuid =>
    if uuid = "" then none
    else
      let name := createName s.name uuid
      some { s with place := .polling, name, created := s.created ++ [name] }
  | .polling, .polled conditions =>
    match poll s.name conditions with
    | .ready => some { s with place := .body }
    | .retry => some { s with place := .retrying }
    | .pending => some { s with place := .sleeping }
    | .failed message => some (s.raise message)
  | .polling, .repeatPoll => some s
  | .sleeping, .wake => some { s with place := .polling }
  | .retrying, .wake => some { s with place := .creating }
  | .body, .leaveBody => some s.finish
  | .cleanupGet, .gotLease =>
    some { s with place := .cleanupDelete, deleted := s.deleted ++ [s.name] }
  | .cleanupDelete, .deleted => some { s with place := .left }
  -- the exit is shielded; what it raises is logged
  | .cleanupGet, .abort | .cleanupDelete, .abort => some { s with place := .left }
  | .gettingExisting, .abort | .creating, .abort | .polling, .abort | .sleeping, .abort
  | .retrying, .abort | .body, .abort => some s.finish
  | _, _ => none

def sys : Sys St Act := ⟨fun s => ∃ args, s = .init args, step⟩

/-! ## The property -/

/-- **Leases are given back**: a context that is left has sent `DeleteLease` for the leases that it
created. -/
def GivenBack (s : St) : Prop := s.place = .left → ∀ name ∈ s.created, name ∈ s.deleted

/-- Only a lease to release is created, and the `GetLease` of the exit is answered. -/
def clean (s : St) : Act → Bool
  | .created _ => s.release
  | .abort => s.place ≠ .cleanupGet
  | _ => true

/-! ## The invariant -/

variable {s s' : St}

def Place.early : Place → Bool
  | .start | .gettingExisting => true
  | _ => false

/-- `DeleteLease` is sent, or will not be. -/
def Place.late : Place → Bool
  | .cleanupDelete | .left => true
  | _ => false

/-- What clean runs keep: the leases created are the one to release. -/
structure Inv (s : St) : Prop where
  fresh : s.place.early = true → s.created = []
  name : ∀ name ∈ s.created, s.name = name ∧ name ≠ ""
  release : s.created ≠ [] → s.release = true
  deleted : s.place.late = true → ∀ name ∈ s.created, name ∈ s.deleted

section

variable (hi : Inv s)
include hi

theorem Inv.setPlace {x : Place} (hf : x.early = true → s.created = [])
    (hl : x.late = false) : Inv { s with place := x } where
  fresh := hf
  name := hi.name
  release := hi.release
  deleted hx := by rw [show x.late = true from hx] at hl; cases hl

/-- **The exit** skips the release only if no lease was created. -/
theorem Inv.finish {e : Option String} : Inv (St.finish { s with error := e }) := by
  unfold St.finish
  split
  · exact ⟨fun hx => (by cases hx), hi.name, hi.release, fun hx => by cases hx⟩
  · rename_i hc
    refine ⟨fun hx => (by cases hx), hi.name, hi.release, fun _ name hn => ?_⟩
    obtain ⟨hname, hne⟩ := hi.name name hn
    have hr := hi.release (List.ne_nil_of_mem hn)
    subst hname
    simp [hr, hne] at hc

theorem Inv.useExisting (hp : s.place = .gettingExisting) (lease : Existing) : Inv (s.useExisting lease) := by
  have hnone := hi.fresh (by rw [hp]; rfl)
  unfold St.useExisting
  split
  · exact hi.finish
  · split
    · exact hi.finish
    · split
      · have h : Inv { s with name := "" } := {
          fresh := hi.fresh
          name := fun name hn => by
            rw [show s.created = [] from hnone] at hn
            cases hn
          release := hi.release
          deleted := hi.deleted }
        exact h.setPlace (fun hx => by cases hx) rfl
      · exact hi.setPlace (fun hx => by cases hx) rfl

/-- **A lease is created**: its name is that of the lease created before. -/
theorem Inv.create {uuid : String} (hu : uuid ≠ "") (hr : s.release = true) : Inv { s with
    place := .polling, name := createName s.name uuid
    created := s.created ++ [createName s.name uuid] } := by
  have hne : createName s.name uuid ≠ "" := by
    unfold createName
    split
    · exact hu
    · assumption
  refine ⟨fun hx => (by cases hx), fun name hn => ?_, fun _ => hr, fun hx => by cases hx⟩
  rcases List.mem_append.mp hn with hn | hn
  · obtain ⟨rfl, hname⟩ := hi.name name hn
    exact ⟨by simp [createName, hname], hname⟩
  · rw [List.mem_singleton.mp hn]
    exact ⟨rfl, hne⟩

theorem Inv.delete : Inv { s with
    place := .cleanupDelete, deleted := s.deleted ++ [s.name] } := by
  refine ⟨fun hx => (by cases hx), hi.name, hi.release, fun _ name hn => ?_⟩
  exact List.mem_append_right _ (List.mem_singleton.mpr (hi.name name hn).1.symm)

theorem Inv.leave (hp : s.place = .cleanupDelete) : Inv { s with place := .left } :=
  ⟨fun hx => (by cases hx), hi.name, hi.release, fun _ => hi.deleted (by rw [hp]; rfl)⟩

end

theorem inductive_inv : sys.InductiveIf (fun s a => clean s a = true) Inv where
  init := by
    rintro s ⟨args, rfl⟩
    exact ⟨fun _ => rfl, fun _ hn => (by cases hn), fun h => absurd rfl h, fun _ _ hn => by cases hn⟩
  step := by
    intro s a s' hi hok hst
    change step s a = some s' at hst
    unfold step at hst
    split at hst
    · -- `request`
      rename_i hp
      cases hst
      have hnone := hi.fresh (by rw [hp]; rfl)
      split <;> exact hi.setPlace (fun _ => hnone) rfl
    · rename_i hp
      cases hst
      exact hi.useExisting hp _
    · split at hst <;> cases hst
      exact hi.create ‹_› hok
    · split at hst <;> cases hst
      · exact hi.setPlace (fun hx => by cases hx) rfl
      · exact hi.setPlace (fun hx => by cases hx) rfl
      · exact hi.setPlace (fun hx => by cases hx) rfl
      · exact hi.finish
    · cases hst
      exact hi
    · cases hst
      exact hi.setPlace (fun hx => by cases hx) rfl
    · cases hst
      exact hi.setPlace (fun hx => by cases hx) rfl
    · cases hst
      exact hi.finish
    · cases hst
      exact hi.delete
    · rename_i hp
      cases hst
      exact hi.leave hp
    · -- `GetLease` of the exit raises
      rename_i hp
      simp [clean, hp] at hok
    · rename_i hp
      cases hst
      exact hi.leave hp
    all_goals first
      | (cases hst; exact hi.finish)
      | cases hst

/-- **Leases are given back** in clean runs. -/
theorem givenBack_of_clean (h : sys.ReachIf (fun s a => clean s a = true) s) : GivenBack s :=
  fun hl => (inductive_inv.reach h).deleted (by rw [hl]; rfl)

def forSelector : Args where
  selector := some "board=a"
  leaseName := none
  jmpLease := none
  clientName := some "c"

def invalidRun : List Act := [.request, .created "u", .polled [{
    type := .invalid, status := .true, observedGeneration := 1, reason := "InvalidSelector" }],
  .gotLease, .deleted]

theorem givenBack_invalid : ∃ s, sys.ReachIf (fun s a => clean s a = true) s ∧ s.place = .left ∧
    s.created = ["u"] ∧ GivenBack s := by
  have hrun : ((sys.execIf clean (.init forSelector) invalidRun).any fun s =>
      s.place = .left && s.created = ["u"]) = true := by
    decide +kernel
  have hinit : sys.init (.init forSelector) := ⟨forSelector, rfl⟩
  obtain ⟨s, hs, hp⟩ := Sys.ReachIf.execIf_any (.init hinit) _ hrun
  simp only [Bool.and_eq_true, decide_eq_true_eq] at hp
  exact ⟨s, hs, hp.1, hp.2, givenBack_of_clean hs⟩

/-- The lease `l`, or a lease for a selector. -/
def forName : Args := { forSelector with leaseName := some "l" }

/-- The lease `l` has another selector: a new lease is created, and the block runs and ends. -/
def mismatchRun : List Act := [.request, .existing ⟨false, "c", "board=b"⟩, .created "u", .polled [{
    type := .ready, status := .true, observedGeneration := 1, reason := "Ready" }], .leaveBody]

theorem givenBack_fails : ¬ ∀ s, sys.Reach s → GivenBack s := by
  intro h
  have hinit : sys.init (.init forName) := ⟨forName, rfl⟩
  have hrun : ((sys.exec (.init forName) mismatchRun).any fun s =>
      s.place = .left && s.created = ["u"] && s.deleted = []) = true := by
    decide +kernel
  obtain ⟨s, hs, hp⟩ := Sys.Reach.exec_any (.init hinit) _ hrun
  simp only [Bool.and_eq_true, decide_eq_true_eq] at hp
  have hdel := h s hs hp.1.1 "u" (by rw [hp.1.2]; exact List.mem_singleton.mpr rfl)
  rw [hp.2] at hdel
  cases hdel

/-- What was deleted was created, and so was the lease that the exit releases. -/
structure OwnDeletes (s : St) : Prop where
  name : s.release = true → s.name = "" ∨ s.name ∈ s.created
  exit : s.place = .cleanupGet → s.release = true ∧ s.name ≠ ""
  deleted : ∀ name ∈ s.deleted, name ∈ s.created

theorem OwnDeletes.finish (h : OwnDeletes s) (e : Option String) : OwnDeletes (St.finish { s with error := e }) :=
  ⟨h.name, fun hp => by simpa [St.finish] using hp, h.deleted⟩

/-- **No lease of others is deleted**, whichever RPCs fail. -/
theorem ownDeletes_inductive (ok : St → Act → Prop) : sys.InductiveIf ok OwnDeletes where
  init := by
    rintro s ⟨args, rfl⟩
    exact ⟨fun h => .inl (of_decide_eq_true h), nofun, nofun⟩
  step := by
    intro s a s' h _ hst
    change step s a = some s' at hst
    unfold step St.useExisting at hst
    repeat' split at hst
    all_goals cases hst
    case h_3.isFalse => exact ⟨fun _ => .inr (by simp), nofun, fun name hn => by simp [h.deleted name hn]⟩
    case h_9 hp _ =>
      obtain ⟨hr, hne⟩ := h.exit hp
      have hmem := (h.name hr).resolve_left hne
      exact ⟨h.name, nofun, fun name hn => by grind [h.deleted name]⟩
    all_goals first
      | exact h.finish _
      | exact ⟨h.name, by grind, h.deleted⟩
      | exact ⟨fun _ => .inl rfl, nofun, h.deleted⟩

end Jumpstarter.LeaseClient
