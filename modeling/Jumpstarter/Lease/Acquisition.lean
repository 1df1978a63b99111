import Jumpstarter.Lease.Outcome
import Jumpstarter.Lease.StatusMachine
import Jumpstarter.Lib.Threads

/-!
# The acquisition metric

`Reconcile` counts a lease in `jumpstarter_lease_acquisitions_total` once its status is written: as a
success when this write gave it an exporter, as a failure when it made it unsatisfiable. Any number of
`Reconcile`s run at once, on copies as old as their cache likes.

- `watch` brings the lease as it is now to the caches; `get` starts a `Reconcile` with any lease that a
  cache ever had.
- `writeStatus` is `Status().Update`, which a lease with another resource version refuses; `loseStatus`
  is one that the server carried out and reported as failed. `record` counts, `writeMeta` is the
  `Update` of the labels and the controller reference, and `fail` is any other error, or a crash.
- `create` and `edit` are everybody else: they write all of a lease but its status.

`acquisition_once`: each lease is counted at most once, and as what its stored status says. The
invariant is about the counts that were made and those that are due (`St.tokens`). An outcome stays
(`outcome_forward`), and a count falls due only with the write that settles it (`transition_settles`).
-/

namespace Jumpstarter.Acquisition

open Lib LeaseReconciler LeaseSystem List Option VStore

/-- The point that a `Reconcile` has reached. -/
inductive Phase where
  | done
  | got (l : Lease)
  /-- It ran the stages on the lease `prior`. -/
  | computed (prior : Lease) (st : Stage)
  | persisted (prior l : Lease)
  | counted (l : Lease)

structure St where
  store : VStore versioning := .empty
  seen : List Lease := []
  runs : List Phase := []
  recorded : List (ObjectKey × AcquisitionResult) := []

/-- The actions (module doc); `i` is a `Reconcile`. -/
inductive Act where
  | create (l : Lease)
  | edit (l : Lease)
  | watch (key : ObjectKey)
  | get (l : Lease)
  | compute (i : Nat) (clock : Clock) (reads : Reads)
  | writeStatus (i : Nat)
  | loseStatus (i : Nat)
  | record (i : Nat)
  | writeMeta (i : Nat)
  | fail (i : Nat)

/-- `recordLeaseAcquisitionTransition`. -/
def transition (prior l : Lease) : Option (ObjectKey × AcquisitionResult) :=
  (leaseAcquisitionTransitionResult prior.status.exporterRef (prior.isTrue .unsatisfiable) l).map
    fun r => (l.key, r)

def St.move (s : St) (i : Nat) (p : Phase) : St := { s with runs := s.runs.set i p }

/-- The server writes the status of the stage `st`, unless the lease has another version by now. -/
def St.update (s : St) (st : Stage) : Option (VStore versioning × Lease) :=
  (s.store.current st.lease).map fun c =>
    let c' := { c with status := st.lease.status.stored }
    (s.store.put c', s.store.next c')

def step (k : K8s) (f : SortFunc) (s : St) : Act → Option St
  | .create l => (s.store.create { l with status := {} }).map fun store => { s with store }
  | .edit l =>
    (s.store.get l.key).map fun c => { s with store := s.store.put { l with status := c.status } }
  | .watch key => (s.store.get key).map fun l => { s with seen := l :: s.seen }
  | .get l => if l ∈ s.seen then some { s with runs := s.runs ++ [.got l] } else none
  | .compute i clock reads =>
    match s.runs[i]? with
    | some (.got l) =>
      match reconcile k f clock reads l with
      | .error _ => some (s.move i .done)
      | .ok st => some (s.move i (.computed l st))
    | _ => none
  | .writeStatus i =>
    match s.runs[i]? with
    | some (.computed prior st) =>
      match s.update st with
      | none => some (s.move i .done)
      | some (store, l) => some { s.move i (.persisted prior l) with store }
    | _ => none
  | .loseStatus i =>
    match s.runs[i]? with
    | some (.computed _ st) =>
      match s.update st with
      | none => none
      | some (store, _) => some { s.move i .done with store }
    | _ => none
  | .record i =>
    match s.runs[i]? with
    | some (.persisted prior l) =>
      some { s.move i (.counted l) with recorded := s.recorded ++ (transition prior l).toList }
    | _ => none
  | .writeMeta i =>
    match s.runs[i]? with
    | some (.counted l) =>
      match s.store.current l with
      | none => some (s.move i .done)
      | some c =>
        some { s.move i .done with store := s.store.put { settleMeta l with status := c.status } }
    | _ => none
  | .fail i =>
    match s.runs[i]? with
    | some _ => some (s.move i .done)
    | none => none

/-- The system: it starts without leases. -/
def sys (k : K8s) (f : SortFunc) : Sys St Act := ⟨fun s => s = {}, step k f⟩

/-! ## Outcomes -/

/-- What a status says of the acquisition. -/
def outcome (st : LeaseStatus) : Option AcquisitionResult :=
  if st.exporterRef.isSome then some .success
  else if st.isTrue .unsatisfiable then some .failure
  else none

variable {st : LeaseStatus}

theorem outcome_success : outcome st = some .success ↔ st.exporterRef.isSome = true := by
  unfold outcome
  split
  · simp [*]
  · split <;> simp [*]

theorem hasFailed_of_unsatisfiable (h : st.isTrue .unsatisfiable = true) : hasFailed st = true := by
  rw [hasFailed, h]
  rfl

theorem outcome_failure (hok : StatusOk st) : outcome st = some .failure ↔ st.isTrue .unsatisfiable = true := by
  unfold outcome
  split
  · rename_i href
    refine iff_of_false (by simp) fun h => ?_
    rw [(hok.failed (hasFailed_of_unsatisfiable h)).1] at href
    cases href
  · split <;> simp [*]

theorem outcome_forward {st' : LeaseStatus} (hok : StatusOk st) (hf : Forward st st')
    {r : AcquisitionResult} (h : outcome st = some r) : outcome st' = some r := by
  cases r with
  | success =>
    obtain ⟨name, hname⟩ := isSome_iff_exists.mp (outcome_success.mp h)
    rw [outcome_success, hf.exporterRef name hname]
    rfl
  | failure =>
    have hfailed := hasFailed_of_unsatisfiable ((outcome_failure hok).mp h)
    rw [hf.ended (hok.failed hfailed).2]
    exact h

variable {prior l : Lease}

theorem transition_settles (hok : StatusOk prior.status) (hok' : StatusOk l.status)
    (hf : Forward prior.status l.status) {t : ObjectKey × AcquisitionResult}
    (h : transition prior l = some t) :
    t.1 = l.key ∧ outcome prior.status = none ∧ outcome l.status = some t.2 := by
  obtain ⟨r, hr, rfl⟩ := map_eq_some_iff.mp h
  have hnew : outcome l.status = some r := by
    unfold leaseAcquisitionTransitionResult at hr
    split at hr
    · rename_i hsome
      cases hr
      rw [outcome_success]
      exact (Bool.and_eq_true_iff.mp hsome).2
    · split at hr
      · rename_i hun
        cases hr
        rw [outcome_failure hok']
        exact (Bool.and_eq_true_iff.mp hun).2
      · cases hr
  refine ⟨rfl, ?_, hnew⟩
  -- an outcome before the write would be the same one, and not a transition
  cases hold : outcome prior.status with
  | none => rfl
  | some r' =>
    have hsame := outcome_forward hok hf hold
    rw [hnew] at hsame
    cases hsame
    unfold leaseAcquisitionTransitionResult at hr
    cases r with
    | success =>
      rw [outcome_success] at hold
      split at hr
      · rename_i hsome
        simp [isNone_iff_eq_none.mp (Bool.and_eq_true_iff.mp hsome).1] at hold
      · split at hr <;> cases hr
    | failure =>
      rw [outcome_failure hok] at hold
      split at hr
      · cases hr
      · rw [if_neg (by simp [Lease.isTrue, hold])] at hr
        cases hr

/-! ## What a step does -/

/-- The count that a `Reconcile` is about to make. -/
def Phase.due : Phase → Option (ObjectKey × AcquisitionResult)
  | .persisted prior l => transition prior l
  | _ => none

/-- The counts that were made or are due. -/
def St.tokens (s : St) : List (ObjectKey × AcquisitionResult) :=
  s.recorded ++ s.runs.filterMap Phase.due

/-- What a `Reconcile` holds. -/
def Phase.Traced (k : K8s) (f : SortFunc) (store : VStore versioning) : Phase → Prop
  | .got l => IsCopy store l
  | .computed prior st => IsCopy store prior ∧ ∃ clock reads, reconcile k f clock reads prior = .ok st
  | _ => True

/-- The leases of `store'` are those of `store`, moved forward, and new ones. -/
structure Advance (store store' : VStore versioning) : Prop where
  leases : ∀ l ∈ store', LeaseOk l
  copy : ∀ l, IsCopy store l → IsCopy store' l
  kept : ∀ c ∈ store, ∃ c' ∈ store', c'.key = c.key ∧ Forward c.status c'.status

variable {k : K8s} {f : SortFunc} {s s' : St} {store store' : VStore versioning} {p : Phase}

theorem Phase.Traced.mono (h : p.Traced k f store) (ha : Advance store store') : p.Traced k f store' := by
  cases p with
  | got l => exact ha.copy l h
  | computed prior st => exact ⟨ha.copy prior h.1, h.2⟩
  | done | persisted _ _ | counted _ => trivial

section

variable (h : ∀ l ∈ store, LeaseOk l)
include h

theorem Advance.refl : Advance store store :=
  ⟨h, fun _ h => h, fun c hc => ⟨c, hc, rfl, .refl _⟩⟩

theorem Advance.create (hs : store.create { l with status := {} } = some store') : Advance store store' := by
  refine ⟨fun c hc => ?_, fun c hc => hc.create hs, fun c hc => ?_⟩
  · rcases (mem_create hs).mp hc with rfl | hc
    · exact ⟨.new, rfl⟩
    · exact h c hc
  · exact ⟨c, (mem_create hs).mpr (.inr hc), rfl, .refl _⟩

theorem Advance.put {c c' : Lease} (hc : c ∈ store)
    (hk : c'.key = c.key) (hok : LeaseOk c') (hf : Forward c.status c'.status) :
    Advance store (store.put c') := by
  obtain ⟨n, hn⟩ := store.next_stamp c'
  refine ⟨fun d hd => ?_, fun d hd => hd.put c', fun d hd => ?_⟩
  · rcases mem_put hd with rfl | ⟨hd, -⟩
    · rw [hn]
      exact ⟨hok.status, hok.stored⟩
    · exact h d hd
  · by_cases hdk : d.key = c'.key
    · obtain rfl := store.eq_of_key hd hc (hdk.trans hk)
      refine ⟨store.next c', next_mem_put hd hdk, (store.key_next c').trans hdk.symm, ?_⟩
      rw [hn]
      exact hf
    · exact ⟨d, mem_put_of_ne hd hdk, rfl, .refl _⟩

theorem Advance.edit {c : Lease} (hc : c ∈ store) (hk : l.key = c.key) :
    Advance store (store.put { l with status := c.status }) :=
  .put h hc hk ⟨(h c hc).status, (h c hc).stored⟩ (.refl _)

end

theorem update_some {st : Stage} (h : ∀ l ∈ s.store, LeaseOk l)
    (ht : (Phase.computed prior st).Traced k f s.store) (hu : s.update st = some (store', l)) :
    Advance s.store store' ∧ prior ∈ s.store ∧ l ∈ store' ∧ l.key = prior.key ∧
      StatusOk l.status ∧ Forward prior.status l.status := by
  obtain ⟨c, hc, heq⟩ := map_eq_some_iff.mp hu
  obtain ⟨hcopy, clock, reads, hr⟩ := ht
  have hsame := reconcile_sameBut hr
  have hcopy' : s.store.current prior = some c := by
    rw [hsame] at hc
    exact hc
  obtain ⟨rfl, hmem⟩ := hcopy.current hcopy'
  cases heq
  obtain ⟨hok, hf⟩ := (h c hmem).status.reconcile hr
  have hf' := hf.stored (h c hmem).stored
  obtain ⟨n, hn⟩ := s.store.next_stamp { c with status := st.lease.status.stored }
  refine ⟨.put h hmem rfl ⟨hok.stored, LeaseStatus.stored_stored _⟩ hf', hmem,
    next_mem_put hmem rfl, s.store.key_next _, ?_⟩
  rw [hn]
  exact ⟨hok.stored, hf'⟩

/-- How the counts change: some are given up, or one falls due with its outcome. -/
inductive Counts (s s' : St) : Prop
  | fewer (gone : List (ObjectKey × AcquisitionResult)) (h : (s'.tokens ++ gone).Perm s.tokens)
  | due (t : ObjectKey × AcquisitionResult) (h : s'.tokens.Perm (s.tokens ++ [t]))
    (c : Lease) (hc : c ∈ s.store) (hkey : c.key = t.1) (unsettled : outcome c.status = none)
    (c' : Lease) (hc' : c' ∈ s'.store) (hkey' : c'.key = t.1) (settled : outcome c'.status = some t.2)

structure Effect (k : K8s) (f : SortFunc) (s s' : St) : Prop where
  store : Advance s.store s'.store
  seen : ∀ l ∈ s'.seen, l ∈ s.seen ∨ l ∈ s.store
  runs : ∀ p ∈ s'.runs, p ∈ s.runs ∨ p.Traced k f s.store
  counts : Counts s s'

theorem Counts.same (hr : s'.recorded = s.recorded) (hruns : s'.runs = s.runs) : Counts s s' := by
  refine .fewer [] ?_
  rw [append_nil, St.tokens, hr, hruns]
  exact .refl _

variable {i : Nat} {p' : Phase}

theorem Counts.move (hi : s.runs[i]? = some p) (hp : p'.due = none) (hr : s'.recorded = s.recorded)
    (hruns : s'.runs = s.runs.set i p') : Counts s s' := by
  have hperm := perm_filterMap_set (y := p') Phase.due hi
  rw [hp, toList_none, append_nil] at hperm
  refine .fewer p.due.toList ?_
  rw [St.tokens, hr, hruns, append_assoc]
  exact hperm.append_left _

theorem runs_set (hp : p'.Traced k f s.store) : ∀ p ∈ s.runs.set i p', p ∈ s.runs ∨ p.Traced k f s.store := by
  intro p h
  rcases mem_or_eq_of_mem_set h with h | rfl
  · exact .inl h
  · exact .inr hp

section

variable (h : ∀ l ∈ s.store, LeaseOk l)
include h

theorem Effect.move (hi : s.runs[i]? = some p) (hp : p'.due = none)
    (hp' : p'.Traced k f s.store) : Effect k f s (s.move i p') where
  store := .refl h
  seen := fun _ hl => .inl hl
  runs := runs_set hp'
  counts := .move hi hp rfl rfl

theorem Effect.persist {st : Stage}
    (hi : s.runs[i]? = some (.computed prior st)) (ht : (Phase.computed prior st).Traced k f s.store)
    (hu : s.update st = some (store', l)) :
    Effect k f s { s.move i (.persisted prior l) with store := store' } := by
  obtain ⟨hadv, hprior, hl, hkey, hok, hf⟩ := update_some h ht hu
  refine ⟨hadv, fun l hl => .inl hl, runs_set trivial, ?_⟩
  have hperm := perm_filterMap_set (y := Phase.persisted prior l) Phase.due hi
  cases htr : transition prior l with
  | none =>
    have hdue : Phase.due (.persisted prior l) = none := htr
    exact .move hi hdue rfl rfl
  | some t =>
    obtain ⟨hk, hopen, hsettled⟩ := transition_settles (h prior hprior).status hok hf htr
    refine .due t ?_ prior hprior (hkey.symm.trans hk.symm) hopen l hl hk.symm hsettled
    have hdue : Phase.due (.persisted prior l) = some t := htr
    rw [hdue] at hperm
    rw [St.tokens, St.tokens, append_assoc]
    exact (append_nil _ ▸ hperm).append_left _

theorem Effect.record (hi : s.runs[i]? = some (.persisted prior l)) :
    Effect k f s { s.move i (.counted l) with recorded := s.recorded ++ (transition prior l).toList } := by
  refine ⟨.refl h, fun l hl => .inl hl, runs_set trivial, .fewer [] ?_⟩
  have hperm := perm_filterMap_set (y := Phase.counted l) Phase.due hi
  have hdue : Phase.due (.counted l) = none := rfl
  have hdue' : Phase.due (.persisted prior l) = transition prior l := rfl
  rw [hdue, hdue', toList_none, append_nil] at hperm
  rw [append_nil, St.tokens, St.tokens, append_assoc]
  exact (perm_append_comm.trans hperm).append_left _

theorem step_effect {a : Act}
    (hruns : ∀ p ∈ s.runs, p.Traced k f s.store) (hst : step k f s a = some s')
    (hseen : ∀ l ∈ s.seen, IsCopy s.store l) : Effect k f s s' := by
  cases a <;> simp only [step] at hst
  case create l =>
    obtain ⟨store, hs, rfl⟩ := map_eq_some_iff.mp hst
    exact ⟨.create h hs, fun l hl => .inl hl, fun p hp => .inl hp, .same rfl rfl⟩
  case edit l =>
    obtain ⟨c, hget, rfl⟩ := map_eq_some_iff.mp hst
    obtain ⟨hc, hk⟩ := get_some hget
    exact ⟨.edit h hc hk.symm, fun l hl => .inl hl, fun p hp => .inl hp, .same rfl rfl⟩
  case watch key =>
    obtain ⟨l, hget, rfl⟩ := map_eq_some_iff.mp hst
    refine ⟨.refl h, fun l' hl' => ?_, fun p hp => .inl hp, .same rfl rfl⟩
    rcases mem_cons.mp hl' with rfl | hl'
    · exact .inr (get_some hget).1
    · exact .inl hl'
  case get l =>
    split at hst
    · rename_i hl
      cases hst
      refine ⟨.refl h, fun l hl => .inl hl, fun p hp => ?_, .fewer [] ?_⟩
      · rcases mem_append.mp hp with hp | hp
        · exact .inl hp
        · rw [mem_singleton.mp hp]
          exact .inr (hseen l hl)
      · have hdue : [Phase.got l].filterMap Phase.due = [] := rfl
        simp only [St.tokens, filterMap_append, hdue, append_nil]
        exact .refl _
    · cases hst
  case compute i clock reads =>
    split at hst
    · rename_i l hi
      split at hst
      · cases hst
        exact .move h hi rfl trivial
      · rename_i st hr
        cases hst
        have hl : IsCopy s.store l := hruns _ (mem_of_getElem? hi)
        exact .move h hi rfl ⟨hl, clock, reads, hr⟩
    · cases hst
  case writeStatus i =>
    split at hst
    · rename_i prior st hi
      split at hst
      · cases hst
        exact .move h hi rfl trivial
      · rename_i store l hu
        cases hst
        exact .persist h hi (hruns _ (mem_of_getElem? hi)) hu
    · cases hst
  case loseStatus i =>
    split at hst
    · rename_i prior st hi
      split at hst
      · cases hst
      · rename_i store l hu
        cases hst
        obtain ⟨hadv, -⟩ := update_some h (hruns _ (mem_of_getElem? hi)) hu
        exact ⟨hadv, fun l hl => .inl hl, runs_set trivial, .move hi rfl rfl rfl⟩
    · cases hst
  case record i =>
    split at hst
    · rename_i prior l hi
      cases hst
      exact .record h hi
    · cases hst
  case writeMeta i =>
    split at hst
    · rename_i l hi
      split at hst
      · cases hst
        exact .move h hi rfl trivial
      · rename_i c hc
        cases hst
        obtain ⟨hget, -⟩ := filter_eq_some_iff.mp hc
        obtain ⟨hmem, hk⟩ := get_some hget
        exact ⟨.edit h hmem hk.symm, fun l hl => .inl hl, runs_set trivial, .move hi rfl rfl rfl⟩
    · cases hst
  case fail i =>
    split at hst
    · rename_i p hi
      cases hst
      exact .move h hi rfl trivial
    · cases hst

end

/-! ## Whole runs -/

structure Inv (k : K8s) (f : SortFunc) (s : St) : Prop where
  leases : ∀ l ∈ s.store, LeaseOk l
  seen : ∀ l ∈ s.seen, IsCopy s.store l
  runs : ∀ p ∈ s.runs, p.Traced k f s.store
  once : (s.tokens.map Prod.fst).Nodup
  settled : ∀ t ∈ s.tokens, ∃ c ∈ s.store, c.key = t.1 ∧ outcome c.status = some t.2

theorem Inv.settled_step (hi : Inv k f s) (he : Effect k f s s') {t : ObjectKey × AcquisitionResult}
    (ht : t ∈ s.tokens) : ∃ c ∈ s'.store, c.key = t.1 ∧ outcome c.status = some t.2 := by
  obtain ⟨c, hc, hk, ho⟩ := hi.settled t ht
  obtain ⟨c', hc', hk', hf⟩ := he.store.kept c hc
  exact ⟨c', hc', hk'.trans hk, outcome_forward (hi.leases c hc).status hf ho⟩

theorem Inv.counts (hi : Inv k f s) (he : Effect k f s s') :
    (s'.tokens.map Prod.fst).Nodup ∧
      ∀ t ∈ s'.tokens, ∃ c ∈ s'.store, c.key = t.1 ∧ outcome c.status = some t.2 := by
  cases he.counts with
  | fewer gone hperm =>
    have hnodup := (hperm.map Prod.fst).nodup_iff.mpr hi.once
    rw [map_append] at hnodup
    refine ⟨hnodup.of_append_left, fun t ht => hi.settled_step he ?_⟩
    exact hperm.mem_iff.mp (mem_append_left _ ht)
  | due t hperm c hc hkey hopen c' hc' hkey' hsettled =>
    -- no count for this lease yet: its outcome was open
    have hfresh : t.1 ∉ s.tokens.map Prod.fst := by
      intro hmem
      obtain ⟨u, hu, huk⟩ := mem_map.mp hmem
      obtain ⟨d, hd, hdk, ho⟩ := hi.settled u hu
      obtain rfl := s.store.eq_of_key hd hc (hdk.trans (huk.trans hkey.symm))
      rw [hopen] at ho
      cases ho
    refine ⟨?_, fun u hu => ?_⟩
    · rw [(hperm.map Prod.fst).nodup_iff, map_append, nodup_append]
      refine ⟨hi.once, by simp, ?_⟩
      intro a ha b hb hab
      rw [hab, mem_singleton.mp hb] at ha
      exact hfresh ha
    · rcases mem_append.mp (hperm.mem_iff.mp hu) with hu | hu
      · exact hi.settled_step he hu
      · rw [mem_singleton.mp hu]
        exact ⟨c', hc', hkey', hsettled⟩

theorem inv_inductive (k : K8s) (f : SortFunc) : (sys k f).InductiveIf (fun _ _ => True) (Inv k f) where
  init := by
    rintro s rfl
    refine ⟨fun l hl => absurd hl (mem_empty l), ?_, ?_, nodup_nil, ?_⟩
    · exact fun l hl => absurd hl not_mem_nil
    · exact fun p hp => absurd hp not_mem_nil
    · exact fun t ht => absurd ht not_mem_nil
  step := by
    intro s a s' hi _ hst
    have he := step_effect hi.leases hi.runs hst hi.seen
    obtain ⟨honce, hsettled⟩ := hi.counts he
    refine ⟨he.store.leases, fun l hl => ?_, fun p hp => ?_, honce, hsettled⟩
    · rcases he.seen l hl with hl | hl
      · exact he.store.copy l (hi.seen l hl)
      · exact he.store.copy l (.of_mem hl)
    · rcases he.runs p hp with hp | hp
      · exact (hi.runs p hp).mono he.store
      · exact hp.mono he.store

theorem length_filter_key {l : List (ObjectKey × AcquisitionResult)} (h : (l.map Prod.fst).Nodup)
    (key : ObjectKey) : (l.filter fun t => t.1 = key).length ≤ 1 := by
  have hsub : ((l.filter fun t => t.1 = key).map Prod.fst).Nodup := h.sublist (filter_sublist.map _)
  have hall : (l.filter fun t => t.1 = key).map Prod.fst =
      List.replicate (l.filter fun t => t.1 = key).length key := by
    refine eq_replicate_iff.mpr ⟨length_map _, fun a ha => ?_⟩
    obtain ⟨t, ht, rfl⟩ := mem_map.mp ha
    exact of_decide_eq_true (mem_filter.mp ht).2
  rw [hall] at hsub
  exact nodup_replicate.mp hsub

/-- **Each lease is counted at most once**, a success only while its stored status has an exporter, a
failure only while it is unsatisfiable, and never both. -/
theorem acquisition_once (k : K8s) (f : SortFunc) {s : St} (hs : (sys k f).Reach s) (key : ObjectKey) :
    (s.recorded.filter fun t => t.1 = key).length ≤ 1 ∧
      ((key, .success) ∈ s.recorded → ∃ l ∈ s.store, l.key = key ∧ l.status.exporterRef.isSome = true) ∧
      ((key, .failure) ∈ s.recorded → ∃ l ∈ s.store, l.key = key ∧ l.isTrue .unsatisfiable = true) ∧
      ¬ ((key, .success) ∈ s.recorded ∧ (key, .failure) ∈ s.recorded) := by
  have hi := (inv_inductive k f).reach hs
  have hmade : (s.recorded.map Prod.fst).Nodup := by
    have := hi.once
    rw [St.tokens, map_append] at this
    exact this.of_append_left
  have hsettled : ∀ r, (key, r) ∈ s.recorded →
      ∃ l ∈ s.store, l.key = key ∧ outcome l.status = some r :=
    fun r hr => hi.settled (key, r) (mem_append_left _ hr)
  refine ⟨length_filter_key hmade key, fun h => ?_, fun h => ?_, fun h => ?_⟩
  · obtain ⟨l, hl, hk, ho⟩ := hsettled _ h
    exact ⟨l, hl, hk, outcome_success.mp ho⟩
  · obtain ⟨l, hl, hk, ho⟩ := hsettled _ h
    exact ⟨l, hl, hk, (outcome_failure (hi.leases l hl).status).mp ho⟩
  · obtain ⟨l, hl, hk, ho⟩ := hsettled _ h.1
    obtain ⟨l', hl', hk', ho'⟩ := hsettled _ h.2
    obtain rfl := s.store.eq_of_key hl hl' (hk.trans hk'.symm)
    rw [ho] at ho'
    cases ho'

/-- A clock at `now`. -/
def clockAt (now : Nat) : Clock := ⟨now, now, now, now, now, now, now, now⟩

/-- Two `Reconcile`s of one lease read the same copy. The first one gets the exporter and counts it; the
second one conflicts. -/
def twiceRun : List Act :=
  let reads : Reads := { exporters := [labExporter "lab" "rpi-1"] }
  let lease : Lease := { ns := "lab", name := "l", spec := { selector := ⟨[("board", "rpi")], []⟩ } }
  let key : ObjectKey := ⟨"lab", "l"⟩
  let first : Lease := { lease with resourceVersion := 1 }
  [.create lease, .watch key, .get first, .get first, .compute 0 (clockAt 1) reads,
    .compute 1 (clockAt 2) reads, .writeStatus 0, .writeStatus 1, .record 0, .writeMeta 0]

theorem acquisition_once_twice : ∃ s, (sys anyK8s .insertion).Reach s ∧
    (⟨"lab", "l"⟩, .success) ∈ s.recorded ∧
    (s.recorded.filter fun t => t.1 = ⟨"lab", "l"⟩).length ≤ 1 := by
  have hrun : (((sys anyK8s .insertion).exec {} twiceRun).any fun s =>
      decide ((⟨"lab", "l"⟩, AcquisitionResult.success) ∈ s.recorded)) = true := by
    decide +kernel
  obtain ⟨s, hs, hp⟩ := Sys.Reach.exec_any (.init rfl) twiceRun hrun
  exact ⟨s, hs, of_decide_eq_true hp, (acquisition_once anyK8s .insertion hs _).1⟩

end Jumpstarter.Acquisition
