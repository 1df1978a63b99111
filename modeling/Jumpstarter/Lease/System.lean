import Jumpstarter.Lease.Client
import Jumpstarter.Lease.Status
import Jumpstarter.Lib.Sys
import Jumpstarter.Lib.Versioned

/-!
# Leases in the store: clients and the reconciler

The system of the lease controller: a store of leases with resource versions, the calls of clients
and exporters, and one worker that runs `LeaseReconciler.Reconcile` for one lease after the other.

- A `Reconcile` is four steps: `get` reads the lease; `compute` reads the rest and runs the stages;
  `writeStatus` is `Status().Update` and `writeMeta` is `Update`, which end the `Reconcile` when the
  resource version of the copy is not the current one. `fail` ends it at any point (an API error).
- A call that changes a lease is two steps: `call` reads and makes the patch, `patch` applies it;
  `drop` is a patch that the server refuses. `CreateLease` is one.
- `cluster` changes the exporters, policies and clients in any way.
- `St.approved` is a ghost: the policy under which a lease got its exporter.

`step_effect` says once what a step can do, and `Effect.store` what it does to the leases.
-/

namespace Jumpstarter.LeaseSystem

open Lib LeaseReconciler ClientService List VStore

/-- Leases carry their key and their resource version. -/
def versioning : Versioning Lease ObjectKey where
  key := Lease.key
  version := Lease.resourceVersion
  stamp n l := { l with resourceVersion := n }
  key_stamp _ _ := rfl
  version_stamp _ _ := rfl
  stamp_version _ := rfl

/-- What a process of the controller is built and configured with. -/
structure Config where
  k8s : K8s
  sortFunc : SortFunc
  maxTags : Nat

/-- The objects that a `Reconcile` reads besides leases, in the order in which a list returns them. -/
structure Cluster where
  exporters : List Exporter := []
  policies : List ExporterAccessPolicy := []
  clients : List Client := []

/-- The point that the worker's `Reconcile` has reached. -/
inductive Worker where
  | idle
  | got (l : Lease)
  | computed (st : Stage)
  | written (l : Lease)

structure St where
  store : VStore versioning := .empty
  cluster : Cluster := {}
  worker : Worker := .idle
  calls : List (ObjectKey × SpecPatch) := []
  approved : ObjectKey → Option Policy := fun _ => none

inductive Call where
  | update (caller : ObjectKey) (req : LeaseMessage)
  | delete (caller : ObjectKey) (name : String)
  | release (caller : ObjectKey) (name : String)
  | releaseAsExporter (exporter : ObjectKey) (name : String)

inductive Act where
  | cluster (c : Cluster)
  | create (caller : ObjectKey) (generated : String) (req : Option CreateRequest)
  | call (c : Call)
  | patch (i : Nat)
  | drop (i : Nat)
  | get (key : ObjectKey)
  /-- `order` is the order in which the active leases are listed. -/
  | compute (clock : Clock) (order : List ObjectKey)
  | writeStatus
  | writeMeta
  | fail

/-! ## The calls -/

def St.lookup (s : St) : Lookup where
  lease := s.store.get
  clientExists key := s.cluster.clients.any fun c => c.ns = key.ns && c.name = key.name

/-- The patch that a call makes; `none`: it makes none. -/
def Call.patch (k : K8s) (look : Lookup) (c : Call) : Option (ObjectKey × SpecPatch) :=
  match c with
  | .update caller req => (updateLease k look caller req).toOption
  | .delete caller name => (deleteLease k look caller name).toOption
  | .release caller name => (releaseLease k look caller name).toOption.join
  | .releaseAsExporter exporter name =>
    (releaseLeaseAsExporter look exporter name).toOption.join

/-- `CreateLease`. -/
def St.create (cfg : Config) (s : St) (caller : ObjectKey) (generated : String)
    (req : Option CreateRequest) : Option St :=
  match createLease cfg.k8s cfg.maxTags caller generated req with
  | .error _ => none
  | .ok l => (s.store.create { l with generation := 1 }).map fun store => { s with store }

/-- A lease with the patch: the generation counts the changes of the spec. -/
def patched (p : SpecPatch) (c : Lease) : Lease :=
  { c with
    spec := p.apply c.spec
    generation := if p.apply c.spec = c.spec then c.generation else c.generation + 1 }

/-- The server applies the `i`-th patch. -/
def St.patch (s : St) (i : Nat) : Option St :=
  match s.calls[i]? with
  | none => none
  | some (key, p) =>
    (s.store.get key).map fun c =>
      { s with store := s.store.put (patched p c), calls := s.calls.eraseIdx i }

/-! ## The worker -/

/-- The leases of a namespace that `MatchingActiveLeases` selects. -/
def St.activeLeases (s : St) (ns : String) : List Lease :=
  s.store.objects.items.filter fun l => l.ns = ns && l.isActive

/-- What a `Reconcile` reads besides its lease, the active leases in the order `order`. -/
def St.reads (s : St) (order : List ObjectKey) : Reads where
  exporters := s.cluster.exporters
  policies := s.cluster.policies
  clients := s.cluster.clients
  activeLeases := order.filterMap s.store.get

/-- `Get` of the lease. -/
def St.getLease (s : St) (key : ObjectKey) : Option St :=
  match s.worker with
  | .idle => (s.store.get key).map fun l => { s with worker := .got l }
  | _ => none

/-- The stages of `Reconcile`. -/
def St.compute (cfg : Config) (s : St) (clock : Clock) (order : List ObjectKey) : Option St :=
  match s.worker with
  | .got l =>
    if order.isPerm ((s.activeLeases l.ns).map Lease.key) then
      match reconcile cfg.k8s cfg.sortFunc clock (s.reads order) l with
      | .error _ => some { s with worker := .idle }
      | .ok st => some { s with worker := .computed st }
    else none
  | _ => none

/-- The ghost after the stage `st` was written for the lease with key `key`. -/
def approve (approved : ObjectKey → Option Policy) (key : ObjectKey) (st : Stage) :
    ObjectKey → Option Policy :=
  match st.assigned with
  | none => approved
  | some a => fun key' => if key' = key then some a.policy else approved key'

theorem approve_ne (approved : ObjectKey → Option Policy) {key key' : ObjectKey} (h : key' ≠ key)
    (st : Stage) : approve approved key st key' = approved key' := by
  unfold approve
  cases st.assigned with
  | none => rfl
  | some a => exact if_neg h

/-- `Status().Update`: of the copy, the server takes the status only. -/
def St.writeStatus (s : St) : Option St :=
  match s.worker with
  | .computed st =>
    match s.store.current st.lease with
    | none => some { s with worker := .idle }
    | some c =>
      let c' := { c with status := st.lease.status.stored }
      some { s with
        store := s.store.put c'
        worker := .written (s.store.next c')
        approved := approve s.approved c.key st }
  | _ => none

/-- The labels and the controller reference that `Reconcile` sets after the status is written. -/
def settleMeta (l : Lease) : Lease :=
  { l with
    labels := if l.status.ended then l.labels.set leaseLabelEnded leaseLabelEndedValue else l.labels
    controller := l.status.exporterRef.or l.controller }

/-- `Update`: of the copy, the server takes all but the status. Before it, the exporter of the lease
is read. -/
def St.writeMeta (s : St) : Option St :=
  match s.worker with
  | .written l =>
    if l.status.exporterRef.all fun name =>
        s.cluster.exporters.any fun e => e.ns = l.ns && e.name = name then
      match s.store.current l with
      | none => some { s with worker := .idle }
      | some c =>
        some { s with
          store := s.store.put { settleMeta l with status := c.status }, worker := .idle }
    else some { s with worker := .idle }
  | _ => none

def step (cfg : Config) (s : St) : Act → Option St
  | .cluster c => some { s with cluster := c }
  | .create caller generated req => s.create cfg caller generated req
  | .call c => (c.patch cfg.k8s s.lookup).map fun p => { s with calls := s.calls ++ [p] }
  | .patch i => s.patch i
  | .drop i => some { s with calls := s.calls.eraseIdx i }
  | .get key => s.getLease key
  | .compute clock order => s.compute cfg clock order
  | .writeStatus => s.writeStatus
  | .writeMeta => s.writeMeta
  | .fail => some { s with worker := .idle }

/-- The system: it starts without leases. -/
def sys (cfg : Config) : Sys St Act := ⟨fun s => s = {}, step cfg⟩

/-! ## The copy of the worker

Only the worker writes a status, so the lease that it read still has the status it had then,
whatever the clients changed since. -/

/-- `l` is a copy of a lease of the store, with its present status. -/
structure Held (store : VStore versioning) (l : Lease) : Prop where
  copy : IsCopy store l
  status : ∃ c ∈ store, c.key = l.key ∧ c.status = l.status

namespace Held

variable {store store' : VStore versioning} {l : Lease}

theorem of_mem (h : l ∈ store) : Held store l := ⟨.of_mem h, l, h, rfl, rfl⟩

theorem create {l' : Lease} (h : Held store l) (hs : store.create l' = some store') : Held store' l := by
  obtain ⟨c, hc, hk, hst⟩ := h.status
  exact ⟨h.copy.create hs, c, (mem_create hs).mpr (.inr hc), hk, hst⟩

theorem put {c c' : Lease} (h : Held store l) (hc : c ∈ store) (hk : c'.key = c.key)
    (hst : c'.status = c.status) : Held (store.put c') l := by
  refine ⟨h.copy.put c', ?_⟩
  obtain ⟨d, hd, hdk, hdst⟩ := h.status
  by_cases hdc : d.key = c'.key
  · obtain rfl := store.eq_of_key hd hc (hdc.trans hk)
    obtain ⟨n, hn⟩ := store.next_stamp c'
    refine ⟨store.next c', next_mem_put hd hdc, ?_, ?_⟩
    · exact (store.key_next c').trans (hdc.symm.trans hdk)
    · rw [hn]
      exact hst.trans hdst
  · exact ⟨d, mem_put_of_ne hd hdc, hdk, hdst⟩

end Held

def Worker.Traced (cfg : Config) (store : VStore versioning) : Worker → Prop
  | .idle => True
  | .got l => Held store l
  | .computed st => ∃ clock reads l, Held store l ∧ reconcile cfg.k8s cfg.sortFunc clock reads l = .ok st
  | .written l => Held store l

theorem Worker.Traced.mono {cfg : Config} {store store' : VStore versioning} {w : Worker}
    (h : w.Traced cfg store) (hs : ∀ l, Held store l → Held store' l) : w.Traced cfg store' := by
  cases w with
  | idle => trivial
  | got l => exact hs l h
  | computed st =>
    obtain ⟨clock, reads, l, hl, hr⟩ := h
    exact ⟨clock, reads, l, hs l hl, hr⟩
  | written l => exact hs l h

/-! ## What a step does to the leases -/

/-- The step `a` writes `c'` in the place of `c`. -/
inductive Write (cfg : Config) (s : St) : Act → Lease → Lease → Prop
  | spec {i : Nat} {p : SpecPatch} {c : Lease} (hp : s.calls[i]? = some (c.key, p)) :
    Write cfg s (.patch i) c (patched p c)
  | status {st : Stage} {clock : Clock} {reads : Reads} {c : Lease} (hw : s.worker = .computed st)
    (hr : reconcile cfg.k8s cfg.sortFunc clock reads c = .ok st) :
    Write cfg s .writeStatus c { c with status := st.lease.status.stored }
  | labels {c : Lease} (hw : s.worker = .written c) : Write cfg s .writeMeta c (settleMeta c)

theorem Write.key {cfg : Config} {s : St} {a : Act} {c c' : Lease} (h : Write cfg s a c c') :
    c'.key = c.key := by
  cases h <;> rfl

/-- The leases after the step `a`. -/
inductive StoreStep (cfg : Config) (s : St) (a : Act) : VStore versioning → Prop
  | same : StoreStep cfg s a s.store
  | create {caller : ObjectKey} {generated : String} {req : Option CreateRequest} {l : Lease}
    {store : VStore versioning} (ha : a = .create caller generated req)
    (hl : createLease cfg.k8s cfg.maxTags caller generated req = .ok l)
    (hs : s.store.create { l with generation := 1 } = some store) : StoreStep cfg s a store
  | write {c c' : Lease} (hc : c ∈ s.store) (hw : Write cfg s a c c') : StoreStep cfg s a (s.store.put c')

variable {cfg : Config} {s s' : St}

theorem create_some {caller : ObjectKey} {generated : String} {req : Option CreateRequest}
    (h : s.create cfg caller generated req = some s') :
    ∃ l store, createLease cfg.k8s cfg.maxTags caller generated req = .ok l ∧
      s.store.create { l with generation := 1 } = some store ∧ s' = { s with store } := by
  unfold St.create at h
  split at h
  · cases h
  · rename_i l hl
    obtain ⟨store, hs, rfl⟩ := Option.map_eq_some_iff.mp h
    exact ⟨l, store, hl, hs, rfl⟩

theorem patch_some {i : Nat} (h : s.patch i = some s') :
    ∃ c p, c ∈ s.store ∧ s.calls[i]? = some (c.key, p) ∧
      s' = { s with store := s.store.put (patched p c), calls := s.calls.eraseIdx i } := by
  unfold St.patch at h
  split at h
  · cases h
  · rename_i key p hp
    obtain ⟨c, hget, rfl⟩ := Option.map_eq_some_iff.mp h
    obtain ⟨hc, rfl⟩ := get_some hget
    exact ⟨c, p, hc, hp, rfl⟩

theorem getLease_some {key : ObjectKey} (h : s.getLease key = some s') :
    ∃ l ∈ s.store, s' = { s with worker := .got l } := by
  unfold St.getLease at h
  split at h
  · obtain ⟨l, hget, rfl⟩ := Option.map_eq_some_iff.mp h
    exact ⟨l, (get_some hget).1, rfl⟩
  · cases h

theorem mem_reads {order : List ObjectKey} {ns : String}
    (h : order.Perm ((s.activeLeases ns).map Lease.key)) {c : Lease} (hc : c ∈ s.store)
    (hns : c.ns = ns) (ha : c.isActive = true) : c ∈ (s.reads order).activeLeases := by
  have hact : c ∈ s.activeLeases ns := mem_filter.mpr ⟨hc, by simp [hns, ha]⟩
  exact mem_filterMap.mpr ⟨c.key, h.mem_iff.mpr (mem_map_of_mem hact), get_of_mem hc⟩

theorem compute_some {clock : Clock} {order : List ObjectKey} (h : s.compute cfg clock order = some s') :
    ∃ l, s.worker = .got l ∧ order.Perm ((s.activeLeases l.ns).map Lease.key) ∧
      (s' = { s with worker := .idle } ∨
        ∃ st, reconcile cfg.k8s cfg.sortFunc clock (s.reads order) l = .ok st ∧
          s' = { s with worker := .computed st }) := by
  unfold St.compute at h
  split at h
  · rename_i l hw
    split at h
    · rename_i hperm
      refine ⟨l, hw, isPerm_iff.mp hperm, ?_⟩
      split at h
      · cases h
        exact .inl rfl
      · rename_i st hst
        cases h
        exact .inr ⟨st, hst, rfl⟩
    · cases h
  · cases h

theorem writeStatus_some (ht : s.worker.Traced cfg s.store) (h : s.writeStatus = some s') :
    s' = { s with worker := .idle } ∨
      ∃ clock reads st c, s.worker = .computed st ∧ c ∈ s.store ∧
        reconcile cfg.k8s cfg.sortFunc clock reads c = .ok st ∧
        s' = { s with
          store := s.store.put { c with status := st.lease.status.stored }
          worker := .written (s.store.next { c with status := st.lease.status.stored })
          approved := approve s.approved c.key st } := by
  unfold St.writeStatus at h
  split at h
  · rename_i st hw
    rw [hw] at ht
    obtain ⟨clock, reads, l, hl, hr⟩ := ht
    split at h
    · cases h
      exact .inl rfl
    · rename_i c hc
      cases h
      -- The copy in the hands of the worker has the version of `l`, so the current lease is `l`.
      have hsame := reconcile_sameBut hr
      have hcur : s.store.current l = some c := by
        rw [hsame] at hc
        exact hc
      obtain ⟨rfl, hmem⟩ := hl.copy.current hcur
      exact .inr ⟨clock, reads, st, c, hw, hmem, hr, rfl⟩
  · cases h

theorem writeMeta_some (ht : s.worker.Traced cfg s.store) (h : s.writeMeta = some s') :
    s' = { s with worker := .idle } ∨
      ∃ c ∈ s.store, s.worker = .written c ∧
        s' = { s with store := s.store.put (settleMeta c), worker := .idle } := by
  unfold St.writeMeta at h
  split at h
  · rename_i l hw
    rw [hw] at ht
    split at h
    · split at h
      · cases h
        exact .inl rfl
      · rename_i c hc
        cases h
        obtain ⟨rfl, hmem⟩ := ht.copy.current hc
        exact .inr ⟨c, hmem, hw, rfl⟩
    · cases h
      exact .inl rfl
  · cases h

inductive Effect (cfg : Config) (s : St) : Act → St → Prop
  | cluster (c : Cluster) : Effect cfg s (.cluster c) { s with cluster := c }
  | create {caller : ObjectKey} {generated : String} {req : Option CreateRequest} {l : Lease}
    {store : VStore versioning}
    (hl : createLease cfg.k8s cfg.maxTags caller generated req = .ok l)
    (hs : s.store.create { l with generation := 1 } = some store) :
    Effect cfg s (.create caller generated req) { s with store }
  | call {c : Call} {q : ObjectKey × SpecPatch} (hq : c.patch cfg.k8s s.lookup = some q) :
    Effect cfg s (.call c) { s with calls := s.calls ++ [q] }
  | patch {i : Nat} {p : SpecPatch} {c : Lease} (hc : c ∈ s.store) (hp : s.calls[i]? = some (c.key, p)) :
    Effect cfg s (.patch i)
      { s with store := s.store.put (patched p c), calls := s.calls.eraseIdx i }
  | drop (i : Nat) : Effect cfg s (.drop i) { s with calls := s.calls.eraseIdx i }
  | get {key : ObjectKey} {l : Lease} (hl : l ∈ s.store) : Effect cfg s (.get key) { s with worker := .got l }
  | compute {clock : Clock} {order : List ObjectKey} {l : Lease} {st : Stage}
    (hw : s.worker = .got l) (hperm : order.Perm ((s.activeLeases l.ns).map Lease.key))
    (hr : reconcile cfg.k8s cfg.sortFunc clock (s.reads order) l = .ok st) :
    Effect cfg s (.compute clock order) { s with worker := .computed st }
  | writeStatus {clock : Clock} {reads : Reads} {st : Stage} {c : Lease}
    (hw : s.worker = .computed st) (hc : c ∈ s.store)
    (hr : reconcile cfg.k8s cfg.sortFunc clock reads c = .ok st) :
    Effect cfg s .writeStatus { s with
      store := s.store.put { c with status := st.lease.status.stored }
      worker := .written (s.store.next { c with status := st.lease.status.stored })
      approved := approve s.approved c.key st }
  | writeMeta {c : Lease} (hw : s.worker = .written c) (hc : c ∈ s.store) :
    Effect cfg s .writeMeta { s with store := s.store.put (settleMeta c), worker := .idle }
  /-- The `Reconcile` ends without a write. -/
  | stop (a : Act) : Effect cfg s a { s with worker := .idle }

theorem step_effect {a : Act} (ht : s.worker.Traced cfg s.store) (h : step cfg s a = some s') :
    Effect cfg s a s' := by
  cases a with
  | cluster c =>
    cases h
    exact .cluster c
  | drop i =>
    cases h
    exact .drop i
  | fail =>
    cases h
    exact .stop _
  | create caller generated req =>
    obtain ⟨l, store, hl, hs, rfl⟩ := create_some h
    exact .create hl hs
  | call c =>
    obtain ⟨q, hq, rfl⟩ := Option.map_eq_some_iff.mp h
    exact .call hq
  | patch i =>
    obtain ⟨c, p, hc, hp, rfl⟩ := patch_some h
    exact .patch hc hp
  | get key =>
    obtain ⟨l, hl, rfl⟩ := getLease_some h
    exact .get hl
  | compute clock order =>
    obtain ⟨l, hw, hperm, rfl | ⟨st, hr, rfl⟩⟩ := compute_some h
    · exact .stop _
    · exact .compute hw hperm hr
  | writeStatus =>
    obtain rfl | ⟨clock, reads, st, c, hw, hc, hr, rfl⟩ := writeStatus_some ht h
    · exact .stop _
    · exact .writeStatus hw hc hr
  | writeMeta =>
    obtain rfl | ⟨c, hc, hw, rfl⟩ := writeMeta_some ht h
    · exact .stop _
    · exact .writeMeta hw hc

namespace Effect

variable {a : Act}

section

variable (h : Effect cfg s a s')
include h

theorem store : StoreStep cfg s a s'.store := by
  cases h with
  | cluster _ | call _ | drop _ | get _ | compute _ _ _ | stop _ => exact .same
  | create hl hs => exact .create rfl hl hs
  | patch hc hp => exact .write hc (.spec hp)
  | writeStatus hw hc hr => exact .write hc (.status hw hr)
  | writeMeta hw hc => exact .write hc (.labels hw)

theorem traced (ht : s.worker.Traced cfg s.store) : s'.worker.Traced cfg s'.store := by
  cases h with
  | cluster _ | call _ | drop _ => exact ht
  | create hl hs => exact ht.mono fun l hl => hl.create hs
  | patch hc hp => exact ht.mono fun l hl => hl.put hc rfl rfl
  | get hl => exact Held.of_mem hl
  | compute hw hperm hr =>
    rw [hw] at ht
    exact ⟨_, _, _, ht, hr⟩
  | writeStatus hw hc hr => exact Held.of_mem (next_mem_put hc rfl)
  | writeMeta _ _ | stop _ => trivial

theorem computed {st : Stage} (hw : s'.worker = .computed st) :
    s.worker = .computed st ∨
      ∃ clock order l, a = .compute clock order ∧ s.worker = .got l ∧ s'.store = s.store ∧
        order.Perm ((s.activeLeases l.ns).map Lease.key) ∧
        reconcile cfg.k8s cfg.sortFunc clock (s.reads order) l = .ok st := by
  cases h with
  | cluster _ | call _ | drop _ | create _ _ | patch _ _ => exact .inl hw
  | compute hgot hperm hr =>
    cases hw
    exact .inr ⟨_, _, _, rfl, hgot, rfl, hperm, hr⟩
  | get _ | writeStatus _ _ _ | writeMeta _ _ | stop _ => cases hw

theorem got {l : Lease} (hw : s'.worker = .got l) : s.worker = .got l ∨ l ∈ s.store := by
  cases h with
  | cluster _ | call _ | drop _ | create _ _ | patch _ _ => exact .inl hw
  | get hl =>
    cases hw
    exact .inr hl
  | compute _ _ _ | writeStatus _ _ _ | writeMeta _ _ | stop _ => cases hw

theorem calls {q : ObjectKey × SpecPatch} (hq : q ∈ s'.calls) :
    q ∈ s.calls ∨ ∃ c : Call, c.patch cfg.k8s s.lookup = some q := by
  cases h with
  | cluster _ | create _ _ | get _ | compute _ _ _ | writeStatus _ _ _ | writeMeta _ _ | stop _ =>
    exact .inl hq
  | patch _ _ | drop _ => exact .inl (mem_of_mem_eraseIdx hq)
  | call hc =>
    rcases mem_append.mp hq with hq | hq
    · exact .inl hq
    · rw [mem_singleton.mp hq]
      exact .inr ⟨_, hc⟩

end

end Effect

/-! ## Facts about every lease -/

/-- A fact about leases that does not depend on the resource version holds of every lease after a
step if it holds before, of a created lease and of what the step writes. -/
theorem StoreStep.forall {a : Act} {store : VStore versioning} {P : Lease → Prop}
    (h : StoreStep cfg s a store) (hall : ∀ l ∈ s.store, P l)
    (hstamp : ∀ n l, P l → P (versioning.stamp n l))
    (hcreate : ∀ caller generated req l, a = .create caller generated req →
      createLease cfg.k8s cfg.maxTags caller generated req = .ok l → P { l with generation := 1 })
    (hwrite : ∀ c c', c ∈ s.store → Write cfg s a c c' → P c') : ∀ l ∈ store, P l := by
  intro l hl
  cases h with
  | same => exact hall l hl
  | create ha hl' hs =>
    rcases (mem_create hs).mp hl with rfl | hl
    · exact hstamp _ _ (hcreate _ _ _ _ ha hl')
    · exact hall l hl
  | write hc hw =>
    rcases mem_put hl with rfl | ⟨hl, -⟩
    · obtain ⟨n, hn⟩ := s.store.next_stamp _
      rw [hn]
      exact hstamp n _ (hwrite _ _ hc hw)
    · exact hall l hl

/-- A fact about specs, and one about patches that keep it: they hold of every spec and of every patch
under way after a step if they hold before, of a created lease and of the patch of a call. -/
theorem Effect.specs {a : Act} {P : LeaseSpec → Prop} {Q : SpecPatch → Prop}
    (h : Effect cfg s a s') (hspecs : ∀ l ∈ s.store, P l.spec) (hcalls : ∀ q ∈ s.calls, Q q.2)
    (hcreate : ∀ caller generated req l,
      createLease cfg.k8s cfg.maxTags caller generated req = .ok l → P l.spec)
    (hcall : ∀ (c : Call) q, c.patch cfg.k8s s.lookup = some q → Q q.2)
    (happly : ∀ spec p, P spec → Q p → P (p.apply spec)) :
    (∀ l ∈ s'.store, P l.spec) ∧ ∀ q ∈ s'.calls, Q q.2 := by
  refine ⟨?_, fun q hq => ?_⟩
  · refine h.store.forall hspecs (fun _ _ hl => hl) ?_ ?_
    · exact fun caller generated req l _ hnew => hcreate caller generated req l hnew
    · intro c c' hc hw
      cases hw with
      | spec hp => exact happly _ _ (hspecs c hc) (hcalls _ (mem_of_getElem? hp))
      | status _ _ | labels _ => exact hspecs c hc
  · rcases h.calls hq with hq | ⟨c, hc⟩
    · exact hcalls q hq
    · exact hcall c q hc

theorem StoreStep.kept {a : Act} {store : VStore versioning} (h : StoreStep cfg s a store) {l : Lease}
    (hl : l ∈ s.store) :
    l ∈ store ∨ ∃ l' n, Write cfg s a l l' ∧ versioning.stamp n l' ∈ store := by
  cases h with
  | same => exact .inl hl
  | create _ _ hs => exact .inl ((mem_create hs).mpr (.inr hl))
  | @write c c' hc hw =>
    by_cases hk : l.key = c'.key
    · obtain rfl := s.store.eq_of_key hl hc (hk.trans hw.key)
      obtain ⟨n, hn⟩ := s.store.next_stamp c'
      exact .inr ⟨c', n, hw, hn ▸ next_mem_put hl hk⟩
    · exact .inl (mem_put_of_ne hl hk)

/-! ## A laboratory for examples -/

/-- Insertion sort, and the library `anyK8s`. -/
def labConfig : Config := ⟨anyK8s, .insertion, 10⟩

/-- An exporter that is ready for a lease. -/
def labExporter (ns name : String) : Exporter where
  ns := ns
  name := name
  labels := [("board", "rpi")]
  status := {
    conditions :=
      [⟨.registered, .true, 1, some 0, "Register", ""⟩, ⟨.online, .true, 1, some 0, "Seen", ""⟩]
    exporterStatusValue := .available }

/-- A request for a lease of an hour on an exporter with a label `board`. -/
def labRequest (ns : String) : CreateRequest where
  parent := "namespaces/" ++ ns
  lease := some { selector := "board", duration := some (60 * minute) }

/-- A whole `Reconcile` with the clock at `now`. -/
def labReconcile (now : Nat) (key : ObjectKey) (order : List ObjectKey) : List Act :=
  [.get key, .compute ⟨now, now, now, now, now, now, now, now⟩ order, .writeStatus, .writeMeta]

end Jumpstarter.LeaseSystem
