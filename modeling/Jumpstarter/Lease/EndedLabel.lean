import Jumpstarter.Lease.StatusMachine

/-!
# The label of ended leases

`Reconcile` labels a lease whose status says that it has ended, and two tests read the label:
`isLeaseEnded` its value, `MatchingActiveLeases` its key. `CreateLease` also sets labels. It copies
the equality requirements of the selector to the lease, all but those under the prefix of the tags, so a
request can set this label too.

- `endedLabel_fails`: a lease that carries the key and has not ended, on which the two tests differ.
- `endedLabel_of_plain`: in runs without such a request (`plainSelector`) the label is the
  controller's, and the tests agree.
-/

namespace Jumpstarter

def isLeaseEnded (l : Lease) : Bool :=
  match l.labels.lookup leaseLabelEnded with
  | some v => v = leaseLabelEndedValue
  | none => false

variable {l : Lease}

namespace ClientService

theorem tagKey_ne_leaseLabelEnded (tag : String) : leaseTagMetadataPrefix ++ tag ≠ leaseLabelEnded := by
  intro h
  have h := congrArg (fun s => s.toList.head?) h
  simp [leaseTagMetadataPrefix, leaseLabelEnded] at h

theorem foldl_tags_has (tags ls : Labels) :
    Labels.has (tags.foldl (fun ls p => ls.set (leaseTagMetadataPrefix ++ p.1) p.2) ls)
      leaseLabelEnded = ls.has leaseLabelEnded := by
  induction tags generalizing ls with
  | nil => rfl
  | cons p ps ih =>
    rw [List.foldl_cons, ih, Labels.has_set]
    simp [tagKey_ne_leaseLabelEnded]

theorem leaseLabels_has {matchLabels tags : Labels}
    (h : (leaseLabels matchLabels tags).has leaseLabelEnded = true) :
    matchLabels.has leaseLabelEnded = true := by
  unfold leaseLabels at h
  rw [foldl_tags_has] at h
  obtain ⟨p, hp, hk⟩ := List.any_eq_true.mp h
  exact List.any_eq_true.mpr ⟨p, (List.mem_filter.mp hp).1, hk⟩

theorem createLease_labels {k : K8s} {maxTags : Nat} {caller : ObjectKey} {generated : String}
    {req : Option CreateRequest} (h : createLease k maxTags caller generated req = .ok l) :
    ∃ r lease sel, req = some r ∧ r.lease = some lease ∧
      parseLabelSelector k lease.selector = .ok sel ∧
      l.labels = leaseLabels sel.matchLabels lease.tags := by
  obtain ⟨r, lease, key, l', hr, hlease, hl', rfl⟩ := createLease_request h
  unfold leaseFromProtobuf at hl'
  split at hl'
  · cases hl'
  · rename_i sel hsel
    split at hl'
    · cases hl'
    · cases hl'
      exact ⟨r, lease, sel, hr, hlease, hsel, rfl⟩

end ClientService

namespace LeaseSystem

open Lib LeaseReconciler ClientService

variable {cfg : Config} {s s' : St}

/-- The condition on a step: the selector of a request for a lease has no equality requirement on
the key of the ended label. -/
def plainSelector (cfg : Config) : Act → Bool
  | .create _ _ req =>
    match req.bind CreateRequest.lease with
    | some lease =>
      match parseLabelSelector cfg.k8s lease.selector with
      | .ok sel => !sel.matchLabels.has leaseLabelEnded
      | .error _ => true
    | none => true
  | _ => true

/-- The label of the lease is the controller's. -/
structure LabelOk (l : Lease) : Prop where
  ended : l.labels.has leaseLabelEnded = true → l.status.ended = true
  value : ∀ v, l.labels.lookup leaseLabelEnded = some v → v = leaseLabelEndedValue

theorem LabelOk.of_not_has (h : l.labels.has leaseLabelEnded = false) : LabelOk l := by
  refine ⟨fun hk => ?_, fun v hv => ?_⟩
  · rw [h] at hk
    cases hk
  · rw [Labels.has_eq_isSome, hv] at h
    cases h

theorem LabelOk.new {caller : ObjectKey} {generated : String} {req : Option CreateRequest}
    (hok : plainSelector cfg (.create caller generated req) = true)
    (h : createLease cfg.k8s cfg.maxTags caller generated req = .ok l) : LabelOk l := by
  obtain ⟨r, lease, sel, rfl, hlease, hsel, hlabels⟩ := createLease_labels h
  have hplain : sel.matchLabels.has leaseLabelEnded = false := by
    simpa [plainSelector, hlease, hsel] using hok
  apply LabelOk.of_not_has
  rw [hlabels]
  cases hk : (leaseLabels sel.matchLabels lease.tags).has leaseLabelEnded with
  | false => rfl
  | true => rw [leaseLabels_has hk] at hplain; cases hplain

theorem LabelOk.write {a : Act} {c c' : Lease} (h : LabelOk c) (hl : LeaseOk c)
    (hw : Write cfg s a c c') : LabelOk c' := by
  refine ⟨hl.label_write hw h.ended, ?_⟩
  cases hw with
  | spec _ | status _ _ => exact h.value
  | labels _ =>
    cases he : c.status.ended with
    | false => simpa [settleMeta, he] using h.value
    | true => simp [settleMeta, he, eq_comm]

theorem LabelOk.tests_agree (h : LabelOk l) : isLeaseEnded l = !l.isActive := by
  unfold isLeaseEnded Lease.isActive
  rw [Labels.has_eq_isSome]
  cases hv : l.labels.lookup leaseLabelEnded with
  | none => rfl
  | some v => simp [h.value v hv]

theorem labelOk_inductive (cfg : Config) :
    (sys cfg).InductiveIf (fun _ a => plainSelector cfg a = true)
      fun s => Inv cfg s ∧ ∀ l ∈ s.store, LabelOk l where
  init := by
    rintro s rfl
    exact ⟨.start cfg, fun l hl => absurd hl (VStore.mem_empty l)⟩
  step := by
    rintro s a s' ⟨hi, hlabel⟩ hok h
    refine ⟨hi.step h, ?_⟩
    refine (step_effect hi.worker h).store.forall hlabel (fun _ _ hl => ⟨hl.ended, hl.value⟩) ?_ ?_
    · rintro caller generated req l rfl hl
      have hnew := LabelOk.new hok hl
      exact ⟨hnew.ended, hnew.value⟩
    · exact fun c c' hc hw => (hlabel c hc).write (hi.leases c hc) hw

/-- **The ended label is the controller's.** If no request has an equality requirement on the key
of the ended label in its selector, a lease carries the key only if its status says that it has
ended, and the two tests of the label agree on every lease. -/
theorem endedLabel_of_plain (cfg : Config) {s : St}
    (hs : (sys cfg).ReachIf (fun _ a => plainSelector cfg a = true) s) :
    ∀ l ∈ s.store, (l.labels.has leaseLabelEnded = true → l.status.ended = true) ∧
      isLeaseEnded l = !l.isActive := by
  intro l hl
  have h := ((labelOk_inductive cfg).reach hs).2 l hl
  exact ⟨h.ended, h.tests_agree⟩

/-- A released lease: its label is written. -/
theorem endedLabel_of_plain_deleted :
    ∃ s, (sys labConfig).ReachIf (fun _ a => plainSelector labConfig a = true) s ∧
      (s.store.objects.items.any fun l => l.labels.has leaseLabelEnded) = true ∧
      ∀ l ∈ s.store, (l.labels.has leaseLabelEnded = true → l.status.ended = true) ∧
        isLeaseEnded l = !l.isActive := by
  have hrun : (((sys labConfig).execIf (fun _ a => plainSelector labConfig a) {} deletedRun).any
      fun s => s.store.objects.items.any fun l => l.labels.has leaseLabelEnded) = true := by
    decide +kernel
  obtain ⟨s, hs, hp⟩ := Sys.ReachIf.execIf_any (.init rfl) deletedRun hrun
  exact ⟨s, hs, hp, endedLabel_of_plain labConfig hs⟩

/-- The configuration `labConfig` with a `labels.Parse` that reads `key=value`. -/
def equalityConfig : Config :=
  { labConfig with k8s := { anyK8s with parse := fun s => .ok (some
      [⟨.ofList (s.toList.takeWhile (· ≠ '=')), .equals,
        [.ofList ((s.toList.dropWhile (· ≠ '=')).drop 1)]⟩]) } }

def labelingRequest : CreateRequest where
  parent := "namespaces/lab"
  lease := some { selector := "jumpstarter.dev/lease-ended=no", duration := some (60 * minute) }

/-- `CreateLease` copies the requirement to the labels of the lease: it carries the key and has not
ended, and the tests differ on it. -/
theorem endedLabel_fails : ∃ s, (sys equalityConfig).Reach s ∧ ∃ l ∈ s.store,
    l.labels.has leaseLabelEnded = true ∧ l.status.ended = false ∧
      isLeaseEnded l = false ∧ l.isActive = false := by
  have hrun : (((sys equalityConfig).exec {}
      [.create ⟨"lab", "ann"⟩ "lease-1" (some labelingRequest)]).any fun s =>
        s.store.objects.items.any fun l => l.labels.has leaseLabelEnded = true ∧
          l.status.ended = false ∧ isLeaseEnded l = false ∧ l.isActive = false) = true := by
    decide +kernel
  obtain ⟨s, hs, hp⟩ := Sys.Reach.exec_any (.init rfl) _ hrun
  obtain ⟨l, hl, hp⟩ := List.any_eq_true.mp hp
  exact ⟨s, hs, l, hl, of_decide_eq_true hp⟩

end LeaseSystem
end Jumpstarter
