import Jumpstarter.Operator.Services
import Mathlib.Data.List.Chain

/-!
# Convergence of the router Services

The namespace is read as the set of keys whose Services exist (`Shows`); each operation of a reconcile is a
set operation there, since a name determines its key.

- `Deletes`: an operation that deletes the Services of a slice of the keys and says whether there was one.
  So do folds of such operations (`Deletes.foldl`), and a loop that stops at the first gap
  (`Deletes.untilGap`).
- `shows_reconcileServices`: the keys after one reconcile (`after`). It always has the keys that the spec
  wants (`wanted_subset_after`).
- `after_wanted_iff`: from the Services of `p`, a reconcile of `q` gets exactly those of `q` if and only if
  `Follows p q`.
- `converges_fails`: no clean-up looks at the types of an endpoint that is still there: from LoadBalancer
  to NodePort, the LoadBalancer Service stays.
- `converges_iff`: along a sequence of specs, the Services after each reconcile are those of the spec alone
  exactly if each spec follows the one before it.
-/

namespace Jumpstarter.Operator

open List

variable {name : String} {s : Services} {K : Key → Prop}

/-- The Services are those of the keys `K`. -/
def Shows (name : String) (s : Services) (K : Key → Prop) : Prop :=
  ∀ n t, s n = some t ↔ ∃ k, K k ∧ k.name name = n ∧ k.type = t

theorem Shows.empty (name : String) : Shows name (fun _ => none) fun _ => False := by
  intro n t
  simp

variable {K' : Key → Prop}

section

variable (h : Shows name s K)
include h

theorem Shows.congr (hk : ∀ k, K k ↔ K' k) : Shows name s K' := by
  intro n t
  simp only [h n t, hk]

theorem Shows.ext {s' : Services} (h' : Shows name s' K) : s = s' := by
  funext n
  refine Option.ext fun t => ?_
  rw [h n t, h' n t]

theorem Shows.at (k : Key) : s (k.name name) = some k.type ↔ K k := by
  rw [h]
  constructor
  · rintro ⟨k', hk', hname, -⟩
    exact Key.name_injective hname ▸ hk'
  · intro hk
    exact ⟨k, hk, rfl, rfl⟩

theorem Shows.isSome (k : Key) : (s (k.name name)).isSome ↔ K k := by
  rw [← h.at k]
  constructor
  · intro hsome
    obtain ⟨t, ht⟩ := Option.isSome_iff_exists.mp hsome
    obtain ⟨k', -, hname, htype⟩ := (h _ _).mp ht
    rw [ht, ← htype, Key.name_injective hname]
  · intro hsome
    rw [hsome]
    rfl

theorem Shows.unique (h' : Shows name s K') (k : Key) : K k ↔ K' k := by
  rw [← h.at k, ← h'.at k]

theorem Shows.create (k : Key) :
    Shows name (Function.update s (k.name name) (some k.type)) fun k' => K k' ∨ k' = k := by
  intro n t
  by_cases hn : n = k.name name
  · subst hn
    rw [Function.update_self]
    constructor
    · intro ht
      exact ⟨k, .inr rfl, rfl, Option.some.inj ht⟩
    · rintro ⟨k', -, hname, rfl⟩
      rw [Key.name_injective hname]
  · rw [Function.update_of_ne hn, h]
    constructor
    · rintro ⟨k', hk', hrest⟩
      exact ⟨k', .inl hk', hrest⟩
    · rintro ⟨k', hk' | rfl, hname, htype⟩
      · exact ⟨k', hk', hname, htype⟩
      · exact absurd hname.symm hn

theorem Shows.delete (k : Key) :
    Shows name (Function.update s (k.name name) none) fun k' => K k' ∧ ¬ k' = k := by
  intro n t
  by_cases hn : n = k.name name
  · subst hn
    rw [Function.update_self]
    constructor
    · intro ht
      cases ht
    · rintro ⟨k', ⟨-, hne⟩, hname, -⟩
      exact absurd (Key.name_injective hname) hne
  · rw [Function.update_of_ne hn, h]
    constructor
    · rintro ⟨k', hk', hname, htype⟩
      refine ⟨k', ⟨hk', ?_⟩, hname, htype⟩
      rintro rfl
      exact hn hname.symm
    · rintro ⟨k', ⟨hk', -⟩, hrest⟩
      exact ⟨k', hk', hrest⟩

end

/-! ## Creation -/

theorem Shows.createIf (h : Shows name s K) (k : Key) (b : Bool) :
    Shows name (if b then createService s (serviceName name k.replica k.endpointIdx) k.type else s)
      fun k' => K k' ∨ (k' = k ∧ b = true) := by
  cases b with
  | true => exact (h.create k).congr fun k' => by simp
  | false => exact h.congr fun k' => by simp

theorem shows_reconcileRouterReplicaEndpoint (h : Shows name s K) (i e : Nat) (ep : Endpoint) :
    Shows name (reconcileRouterReplicaEndpoint (serviceName name i e) ep s) fun k =>
      K k ∨ (k.replica = i ∧ k.endpointIdx = e ∧ ep.enables k.type = true) := by
  have hlb := h.createIf ⟨i, e, .loadBalancer⟩ (ep.enables .loadBalancer)
  have hnp := hlb.createIf ⟨i, e, .nodePort⟩ (ep.enables .nodePort)
  have hcip := hnp.createIf ⟨i, e, .clusterIP⟩ (ep.enables .clusterIP)
  refine hcip.congr fun ⟨i', e', t⟩ => ?_
  cases t <;> simp [and_assoc]

/-- One of the endpoints, which are numbered from `start`, has the index `e` and enables `t`. -/
def EnablesFrom (eps : List Endpoint) (start e : Nat) (t : ServiceType) : Prop :=
  ∃ ep, start ≤ e ∧ eps[e - start]? = some ep ∧ ep.enables t = true

variable {e : Nat} {t : ServiceType}

theorem enablesFrom_nil {start : Nat} : ¬ EnablesFrom [] start e t := by
  rintro ⟨ep, -, hget, -⟩
  cases hget

theorem enablesFrom_cons {ep : Endpoint} {eps : List Endpoint} {start : Nat} :
    EnablesFrom (ep :: eps) start e t ↔
      (e = start ∧ ep.enables t = true) ∨ EnablesFrom eps (start + 1) e t := by
  constructor
  · rintro ⟨ep', hle, hget, ht⟩
    rcases Nat.eq_or_lt_of_le hle with rfl | hlt
    · rw [Nat.sub_self, getElem?_cons_zero] at hget
      cases hget
      exact .inl ⟨rfl, ht⟩
    · have hsub : e - start = e - (start + 1) + 1 := by omega
      rw [hsub, getElem?_cons_succ] at hget
      exact .inr ⟨ep', hlt, hget, ht⟩
  · rintro (⟨rfl, ht⟩ | ⟨ep', hle, hget, ht⟩)
    · exact ⟨ep, Nat.le_refl e, by rw [Nat.sub_self, getElem?_cons_zero], ht⟩
    · have hsub : e - start = e - (start + 1) + 1 := by omega
      exact ⟨ep', by omega, by rw [hsub, getElem?_cons_succ, hget], ht⟩

theorem shows_endpoints (i : Nat) (eps : List Endpoint) (start : Nat) (h : Shows name s K) :
    Shows name ((eps.zipIdx start).foldl
        (fun s p => reconcileRouterReplicaEndpoint (serviceName name i p.2) p.1 s) s) fun k =>
      K k ∨ (k.replica = i ∧ EnablesFrom eps start k.endpointIdx k.type) := by
  induction eps generalizing start s K with
  | nil => exact h.congr fun k => by simp [enablesFrom_nil]
  | cons ep eps ih =>
    refine (ih (start + 1) (shows_reconcileRouterReplicaEndpoint h i start ep)).congr fun k => ?_
    rw [enablesFrom_cons, and_or_left, or_assoc]

theorem shows_reconcileReplica (i : Nat) (eps : List Endpoint) (h : Shows name s K) :
    Shows name (reconcileReplica name eps s i) fun k =>
      K k ∨ (k.replica = i ∧ EnablesFrom eps 0 k.endpointIdx k.type) := by
  unfold reconcileReplica
  split
  · rename_i hnil
    refine (shows_reconcileRouterReplicaEndpoint h i 0 {}).congr fun ⟨i', e, t⟩ => ?_
    cases t <;> simp [hnil, enablesFrom_nil, Endpoint.enables, Config.enabled]
  · exact shows_endpoints i eps 0 h

/-- The spec has an endpoint with the index that enables the type. -/
def Spec.Enables (p : Spec) (e : Nat) (t : ServiceType) : Prop := EnablesFrom p.endpoints 0 e t

/-- The keys of the Services that a spec asks for. -/
def Wanted (p : Spec) (k : Key) : Prop := k.replica < p.replicas ∧ p.Enables k.endpointIdx k.type

theorem shows_replicas (p : Spec) (h : Shows name s K) :
    Shows name ((List.range p.replicas).foldl (reconcileReplica name p.endpoints) s) fun k =>
      K k ∨ Wanted p k := by
  have hloop : ∀ n, Shows name ((List.range n).foldl (reconcileReplica name p.endpoints) s)
      fun k => K k ∨ (k.replica < n ∧ p.Enables k.endpointIdx k.type) := by
    intro n
    induction n with
    | zero => exact h.congr fun k => by simp
    | succ n ih =>
      rw [range_succ, foldl_append]
      refine (shows_reconcileReplica n p.endpoints ih).congr fun k => ?_
      rw [Nat.lt_succ_iff_lt_or_eq, or_and_right, or_assoc]
      rfl
  exact hloop p.replicas

/-! ## Deletion -/

section Deletes

variable {ι : Type}

/-- At each index, `delete` deletes the Services of a slice and says whether there was one. -/
def Deletes (name : String) (delete : Services × Bool → ι → Services × Bool)
    (slice : ι → Key → Prop) : Prop :=
  ∀ s K found i, Shows name s K →
    Shows name (delete (s, found) i).1 (fun k => K k ∧ ¬ slice i k) ∧
      ((delete (s, found) i).2 = true ↔ found = true ∨ ∃ k, K k ∧ slice i k)

theorem deletes_deleteService (i e : Nat) :
    Deletes name (fun acc t => deleteService acc (serviceName name i e ++ t.suffix))
      fun t k => k = ⟨i, e, t⟩ := by
  intro s K found t h
  have hsome := h.isSome ⟨i, e, t⟩
  change (s (serviceName name i e ++ t.suffix)).isSome ↔ _ at hsome
  simp only [deleteService, exists_eq_right]
  split
  · rename_i hin
    exact ⟨h.delete ⟨i, e, t⟩, by simp [hsome.mp hin]⟩
  · rename_i hout
    have hnot : ¬ K ⟨i, e, t⟩ := fun hk => hout (hsome.mpr hk)
    refine ⟨h.congr fun k => ⟨fun hk => ⟨hk, ?_⟩, fun hk => hk.1⟩, by simp [hnot]⟩
    rintro rfl
    exact hnot hk

theorem Deletes.foldl {delete : Services × Bool → ι → Services × Bool} {slice : ι → Key → Prop}
    (hd : Deletes name delete slice) (l : List ι) :
    Deletes name (fun acc (_ : Unit) => l.foldl delete acc) fun _ k => ∃ i ∈ l, slice i k := by
  rintro s K found ⟨⟩ h
  induction l generalizing s K found with
  | nil => exact ⟨h.congr fun k => by simp, by simp⟩
  | cons i l ih =>
    obtain ⟨hs, hf⟩ := hd s K found i h
    obtain ⟨hs', hf'⟩ := ih (delete (s, found) i).1 _ (delete (s, found) i).2 hs
    refine ⟨hs'.congr fun k => ?_, hf'.trans ?_⟩
    · simp only [mem_cons, exists_eq_or_imp, not_or, and_assoc]
    · rw [hf]
      constructor
      · rintro ((h | ⟨k, hk, hki⟩) | ⟨k, ⟨hk, -⟩, j, hj, hkj⟩)
        · exact .inl h
        · exact .inr ⟨k, hk, i, mem_cons_self, hki⟩
        · exact .inr ⟨k, hk, j, mem_cons_of_mem i hj, hkj⟩
      · rintro (h | ⟨k, hk, j, hj, hkj⟩)
        · exact .inl (.inl h)
        · by_cases hki : slice i k
          · exact .inl (.inr ⟨k, hk, hki⟩)
          · rcases mem_cons.mp hj with rfl | hj
            · exact absurd hkj hki
            · exact .inr ⟨k, ⟨hk, hki⟩, j, hj, hkj⟩

theorem Deletes.congr {delete : Services × Bool → ι → Services × Bool}
    {slice slice' : ι → Key → Prop} (hd : Deletes name delete slice)
    (hs : ∀ i k, slice i k ↔ slice' i k) : Deletes name delete slice' := by
  have heq : slice = slice' := funext fun i => funext fun k => propext (hs i k)
  exact heq ▸ hd

end Deletes

def EndpointSlice (replica endpointIdx : Nat) (k : Key) : Prop :=
  k.replica = replica ∧ k.endpointIdx = endpointIdx

/-- The keys of a replica that the clean-up tries. -/
def ReplicaSlice (replica : Nat) (k : Key) : Prop := k.replica = replica ∧ k.endpointIdx < 10

theorem deletes_deleteEndpoint (i : Nat) : Deletes name (deleteEndpoint name i) (EndpointSlice i) := by
  intro s K found e h
  have hslice : ∀ k : Key, (∃ t ∈ [ServiceType.clusterIP, .loadBalancer, .nodePort],
      k = ⟨i, e, t⟩) ↔ EndpointSlice i e k := by
    rintro ⟨i', e', t⟩
    cases t <;> simp [EndpointSlice]
  exact ((deletes_deleteService i e).foldl _).congr (fun _ => hslice) s K found () h

theorem deletes_deleteReplica : Deletes name (deleteReplica name) ReplicaSlice := by
  intro s K found i h
  have hslice : ∀ k, (∃ e ∈ List.range 10, EndpointSlice i e k) ↔ ReplicaSlice i k := by
    intro k
    constructor
    · rintro ⟨e, he, hi, rfl⟩
      exact ⟨hi, mem_range.mp he⟩
    · rintro ⟨hi, he⟩
      exact ⟨k.endpointIdx, mem_range.mpr he, hi, rfl⟩
  exact ((deletes_deleteEndpoint i).foldl _).congr (fun _ => hslice) s K found () h

/-- The slices from `idx` on, at most `n` of them, up to and with the first without a key of `K`. -/
def Scanned (slice : Nat → Key → Prop) (K : Key → Prop) (idx n : Nat) (k : Key) : Prop :=
  ∃ j, idx ≤ j ∧ j < idx + n ∧ slice j k ∧ ∀ j', idx ≤ j' → j' < j → ∃ k', K k' ∧ slice j' k'

variable {k : Key}

theorem Scanned.congr {slice : Nat → Key → Prop} {idx n : Nat} (h : ∀ j k, slice j k → (K k ↔ K' k)) :
    Scanned slice K idx n k ↔ Scanned slice K' idx n k := by
  unfold Scanned
  have hgap : ∀ j, (∃ k, K k ∧ slice j k) ↔ ∃ k, K' k ∧ slice j k :=
    fun j => exists_congr fun k => and_congr_left (h j k)
  simp only [hgap]

theorem Deletes.untilGap {delete : Services × Bool → Nat → Services × Bool}
    {slice : Nat → Key → Prop} (hd : Deletes name delete slice)
    (hdisj : ∀ j j' k, slice j k → slice j' k → j = j') (n idx : Nat) (s : Services)
    (K : Key → Prop) (h : Shows name s K) :
    Shows name (untilGap delete n idx s) fun k => K k ∧ ¬ Scanned slice K idx n k := by
  induction n generalizing idx s K with
  | zero =>
    refine h.congr fun k => ⟨fun hk => ⟨hk, ?_⟩, fun hk => hk.1⟩
    rintro ⟨j, hle, hlt, -⟩
    omega
  | succ n ih =>
    obtain ⟨hs, hf⟩ := hd s K false idx h
    simp only [Bool.false_eq_true, false_or] at hf
    simp only [Operator.untilGap]
    split
    · -- A Service was found: the loop goes on from the next index.
      rename_i hfound
      have hsome := hf.mp hfound
      refine (ih (idx + 1) _ _ hs).congr fun k => ⟨fun hk => ⟨hk.1.1, ?_⟩, fun hk => ⟨⟨hk.1, ?_⟩, ?_⟩⟩
      · rintro ⟨j, hle, hlt, hj, hbefore⟩
        rcases Nat.eq_or_lt_of_le hle with rfl | hlt'
        · exact hk.1.2 hj
        · refine hk.2 ⟨j, hlt', by omega, hj, fun j' hle' hlt'' => ?_⟩
          obtain ⟨k', hk', hs'⟩ := hbefore j' (by omega) hlt''
          exact ⟨k', ⟨hk', fun hidx => by have := hdisj _ _ _ hidx hs'; omega⟩, hs'⟩
      · exact fun hidx => hk.2 ⟨idx, Nat.le_refl _, by omega, hidx, fun j' _ _ => by omega⟩
      · rintro ⟨j, hle, hlt, hj, hbefore⟩
        refine hk.2 ⟨j, by omega, by omega, hj, fun j' hle' hlt' => ?_⟩
        rcases Nat.eq_or_lt_of_le hle' with rfl | hlt''
        · exact hsome
        · obtain ⟨k', ⟨hk', -⟩, hs'⟩ := hbefore j' hlt'' hlt'
          exact ⟨k', hk', hs'⟩
    · rename_i hfound
      have hnone : ¬ ∃ k, K k ∧ slice idx k := fun hne => hfound (hf.mpr hne)
      refine hs.congr fun k => ⟨fun hk => ⟨hk.1, ?_⟩, fun hk => ⟨hk.1, fun hidx => ?_⟩⟩
      · rintro ⟨j, hle, -, hj, hbefore⟩
        rcases Nat.eq_or_lt_of_le hle with rfl | hlt
        · exact hk.2 hj
        · exact hnone (hbefore idx (Nat.le_refl _) hlt)
      · exact hnone ⟨k, hk.1, hidx⟩

/-! ## One reconcile -/

/-- `len(Endpoints)`, or 1 for the default endpoint. -/
def Spec.numEndpoints (p : Spec) : Nat := max p.endpoints.length 1

def ExcessReplica (p : Spec) (K : Key → Prop) (k : Key) : Prop :=
  Scanned ReplicaSlice K p.replicas (100 - p.replicas) k

/-- The keys whose endpoint is left over. -/
def ExcessEndpoint (p : Spec) (K : Key → Prop) (k : Key) : Prop :=
  k.replica < p.replicas ∧ Scanned (EndpointSlice k.replica) K p.numEndpoints (10 - p.numEndpoints) k

theorem shows_excessEndpoints (p : Spec) (h : Shows name s K) :
    Shows name ((List.range p.replicas).foldl (fun s replica =>
        untilGap (deleteEndpoint name replica) (10 - p.numEndpoints) p.numEndpoints s) s) fun k =>
      K k ∧ ¬ ExcessEndpoint p K k := by
  have hloop : ∀ n, Shows name ((List.range n).foldl (fun s replica =>
      untilGap (deleteEndpoint name replica) (10 - p.numEndpoints) p.numEndpoints s) s) fun k =>
      K k ∧ ¬ (k.replica < n ∧ Scanned (EndpointSlice k.replica) K p.numEndpoints (10 - p.numEndpoints) k) := by
    intro n
    induction n with
    | zero => exact h.congr fun k => by simp
    | succ n ih =>
      rw [range_succ, foldl_append]
      have hdisj : ∀ j j' k, EndpointSlice n j k → EndpointSlice n j' k → j = j' :=
        fun j j' k hj hj' => hj.2.symm.trans hj'.2
      refine ((deletes_deleteEndpoint n).untilGap hdisj (10 - p.numEndpoints) p.numEndpoints _ _
        ih).congr fun k => ?_
      have hscan : Scanned (EndpointSlice n) (fun k' => K k' ∧ ¬ (k'.replica < n ∧ Scanned
          (EndpointSlice k'.replica) K p.numEndpoints (10 - p.numEndpoints) k'))
            p.numEndpoints (10 - p.numEndpoints) k ↔
          Scanned (EndpointSlice n) K p.numEndpoints (10 - p.numEndpoints) k := by
        -- The replicas before `n` do not bear on the slices of `n`.
        refine Scanned.congr fun j k' hj => ⟨fun hk => hk.1, fun hk => ⟨hk, fun hlt => ?_⟩⟩
        have := hj.1
        omega
      rw [hscan]
      constructor
      · rintro ⟨⟨hk, hlt⟩, hn⟩
        refine ⟨hk, fun ⟨hr, hs'⟩ => ?_⟩
        rcases Nat.lt_succ_iff_lt_or_eq.mp hr with hr | hr
        · exact hlt ⟨hr, hs'⟩
        · exact hn (hr ▸ hs')
      · rintro ⟨hk, hnot⟩
        refine ⟨⟨hk, fun ⟨hr, hs'⟩ => hnot ⟨Nat.lt_succ_of_lt hr, hs'⟩⟩, fun hs' => ?_⟩
        have hr : k.replica = n := by
          obtain ⟨j, -, -, hj, -⟩ := hs'
          exact hj.1
        exact hnot ⟨by omega, hr.symm ▸ hs'⟩
  exact hloop p.replicas

/-- The keys after a reconcile of `p`. -/
def After (p : Spec) (K : Key → Prop) (k : Key) : Prop :=
  ((K k ∨ Wanted p k) ∧ ¬ ExcessReplica p (fun k => K k ∨ Wanted p k) k) ∧
    ¬ ExcessEndpoint p (fun k => (K k ∨ Wanted p k) ∧ ¬ ExcessReplica p (fun k => K k ∨ Wanted p k) k) k

theorem shows_reconcileServices (p : Spec) (h : Shows name s K) :
    Shows name (reconcileServices name p s) (After p K) := by
  have hdisj : ∀ j j' k, ReplicaSlice j k → ReplicaSlice j' k → j = j' :=
    fun j j' k hj hj' => hj.1.symm.trans hj'.1
  have hreplicas := deletes_deleteReplica.untilGap hdisj (100 - p.replicas) p.replicas _ _ (shows_replicas p h)
  exact shows_excessEndpoints p hreplicas

/-! ## Two specs -/

variable {p : Spec}

theorem not_excessReplica (hk : k.replica < p.replicas) : ¬ ExcessReplica p K k := by
  rintro ⟨j, hle, -, hj, -⟩
  have hr := hj.1
  omega

theorem not_excessEndpoint (hk : k.endpointIdx < p.numEndpoints) : ¬ ExcessEndpoint p K k := by
  rintro ⟨-, j, hle, -, hj, -⟩
  have he := hj.2
  omega

theorem Spec.Enables.lt_numEndpoints (h : p.Enables e t) : e < p.numEndpoints := by
  obtain ⟨ep, -, hget, -⟩ := h
  have hlt := (List.getElem?_eq_some_iff.mp hget).1
  unfold Spec.numEndpoints
  omega

theorem after_of_wanted (hk : Wanted p k) : After p K k :=
  ⟨⟨.inr hk, not_excessReplica hk.1⟩, not_excessEndpoint hk.2.lt_numEndpoints⟩

theorem after_empty (p : Spec) (k : Key) : After p (fun _ => False) k ↔ Wanted p k := by
  constructor
  · rintro ⟨⟨hk | hk, -⟩, -⟩
    · exact hk.elim
    · exact hk
  · exact after_of_wanted

/-- A reconcile of `q` finds all that is left of the Services of `p`: the types that `p` enables at an
endpoint that `q` has (or at the first one) stay enabled; the endpoints that `q` drops have indices
below 10 without a gap; and if `q` has fewer replicas, `p` has at most 100 of them. -/
structure Follows (p q : Spec) : Prop where
  kept : ∀ e t, p.Enables e t → e < q.numEndpoints → q.Enables e t
  dropped : ∀ e t, p.Enables e t → q.numEndpoints ≤ e →
    e < 10 ∧ ∀ e', q.numEndpoints ≤ e' → e' < e → ∃ t', p.Enables e' t'
  scaled : q.replicas < p.replicas → ∀ e t, p.Enables e t → e < 10 ∧ p.replicas ≤ 100

variable {q : Spec}

theorem follows_of_after (h : ∀ k, After q (Wanted p) k ↔ Wanted q k) : Follows p q := by
  have hp := p.replicas_pos
  have hq := q.replicas_pos
  -- What the first replica, which both have, keeps.
  have hfirst : ∀ e t, p.Enables e t →
      (Wanted p ⟨0, e, t⟩ ∨ Wanted q ⟨0, e, t⟩) ∧
        ¬ ExcessReplica q (fun k => Wanted p k ∨ Wanted q k) ⟨0, e, t⟩ :=
    fun e t he => ⟨.inl ⟨hp, he⟩, not_excessReplica hq⟩
  refine ⟨fun e t he hlt => ?_, fun e t he hle => ?_, fun hlt e t he => ?_⟩
  · exact ((h _).mp ⟨hfirst e t he, not_excessEndpoint hlt⟩).2
  · -- `q` does not ask for the Service, so the clean-up deleted it.
    have hnot : ¬ Wanted q ⟨0, e, t⟩ := fun hw =>
      absurd hw.2.lt_numEndpoints (Nat.not_lt.mpr hle)
    have hexcess := Classical.not_not.mp fun hno => hnot ((h _).mp ⟨hfirst e t he, hno⟩)
    obtain ⟨-, j, hlej, hltj, hj, hbefore⟩ := hexcess
    have hje : e = j := hj.2
    subst hje
    refine ⟨by omega, fun e' hle' hlt' => ?_⟩
    obtain ⟨k', ⟨hk' | hk', -⟩, hs'⟩ := hbefore e' hle' hlt'
    · exact ⟨k'.type, hs'.2 ▸ hk'.2⟩
    · have hlast := hk'.2.lt_numEndpoints
      rw [hs'.2] at hlast
      omega
  · have hw : Wanted p ⟨p.replicas - 1, e, t⟩ := ⟨Nat.sub_lt hp Nat.one_pos, he⟩
    have hnot : ¬ Wanted q ⟨p.replicas - 1, e, t⟩ := fun hw' => by
      have hr : p.replicas - 1 < q.replicas := hw'.1
      omega
    have hexcess : ExcessReplica q (fun k => Wanted p k ∨ Wanted q k) ⟨p.replicas - 1, e, t⟩ := by
      refine Classical.not_not.mp fun hno => hnot ((h _).mp ⟨⟨.inl hw, hno⟩, fun hend => ?_⟩)
      have hr : p.replicas - 1 < q.replicas := hend.1
      omega
    obtain ⟨j, hlej, hltj, hj, -⟩ := hexcess
    have hjr : p.replicas - 1 = j := hj.1
    exact ⟨hj.2, by omega⟩

theorem after_of_follows (hf : Follows p q) (hk : After q (Wanted p) k) : Wanted q k := by
  obtain ⟨⟨hor, hreplica⟩, hendpoint⟩ := hk
  rcases hor with hp | hq
  · rcases Nat.lt_or_ge k.replica q.replicas with hr | hr
    · rcases Nat.lt_or_ge k.endpointIdx q.numEndpoints with he | he
      · exact ⟨hr, hf.kept _ _ hp.2 he⟩
      · obtain ⟨hten, hgap⟩ := hf.dropped _ _ hp.2 he
        refine absurd ⟨hr, k.endpointIdx, he, by omega, ⟨rfl, rfl⟩, fun e' hle' hlt' => ?_⟩ hendpoint
        obtain ⟨t', ht'⟩ := hgap e' hle' hlt'
        exact ⟨⟨k.replica, e', t'⟩, ⟨.inl ⟨hp.1, ht'⟩, not_excessReplica hr⟩, rfl, rfl⟩
    · have hlt : q.replicas < p.replicas := Nat.lt_of_le_of_lt hr hp.1
      obtain ⟨hten, hmax⟩ := hf.scaled hlt _ _ hp.2
      have hrp := hp.1
      refine absurd ⟨k.replica, hr, by omega, ⟨rfl, hten⟩, fun j' hle' hlt' => ?_⟩ hreplica
      exact ⟨⟨j', k.endpointIdx, k.type⟩, .inl ⟨Nat.lt_trans hlt' hp.1, hp.2⟩, rfl, hten⟩
  · exact hq

theorem after_wanted_iff : (∀ k, After q (Wanted p) k ↔ Wanted q k) ↔ Follows p q :=
  ⟨follows_of_after, fun hf _ => ⟨after_of_follows hf, after_of_wanted⟩⟩

/-! ## Sequences of specs -/

/-- The Services after a reconcile of each spec in turn, from an empty namespace. -/
def reconcileAll (r : Reconciler) (name ns : String) (specs : List Spec) : Services :=
  specs.foldl (fun s spec => reconcile r name ns spec s) fun _ => none

theorem reconcileAll_concat (r : Reconciler) (name ns : String) (specs : List Spec) (spec : Spec) :
    reconcileAll r name ns (specs ++ [spec]) = reconcile r name ns spec (reconcileAll r name ns specs) := by
  simp [reconcileAll]

/-- The Services after each reconcile are those that a reconcile of its spec alone creates. -/
def Converges (r : Reconciler) (name ns : String) (specs : List Spec) : Prop :=
  ∀ before spec, before ++ [spec] <+: specs →
    reconcileAll r name ns (before ++ [spec]) = reconcile r name ns spec fun _ => none

theorem shows_fresh (r : Reconciler) (name ns : String) (spec : Spec) :
    Shows name (reconcile r name ns spec fun _ => none) (Wanted (applyDefaults r ns spec)) :=
  (shows_reconcileServices _ (Shows.empty name)).congr (after_empty _)

theorem reconcile_fresh_iff (r : Reconciler) (name ns : String) (p q : Spec) :
    reconcile r name ns q (reconcile r name ns p fun _ => none) =
        reconcile r name ns q (fun _ => none) ↔
      Follows (applyDefaults r ns p) (applyDefaults r ns q) := by
  have hafter := shows_reconcileServices (applyDefaults r ns q) (shows_fresh r name ns p)
  have hfresh := shows_fresh r name ns q
  rw [← after_wanted_iff]
  constructor
  · intro h k
    change Shows name (reconcile r name ns q _) _ at hafter
    rw [h] at hafter
    exact hafter.unique hfresh k
  · intro h
    exact (hafter.congr h).ext hfresh

theorem converges_concat (r : Reconciler) (name ns : String) (specs : List Spec) (q : Spec) :
    Converges r name ns (specs ++ [q]) ↔ Converges r name ns specs ∧
      reconcileAll r name ns (specs ++ [q]) = reconcile r name ns q fun _ => none := by
  constructor
  · intro h
    exact ⟨fun before spec hpre => h before spec (hpre.trans (prefix_append _ _)), h specs q (prefix_refl _)⟩
  · rintro ⟨h, hq⟩ before spec hpre
    rcases prefix_concat_iff.mp hpre with heq | hpre
    · obtain ⟨rfl, hspec⟩ := append_inj' heq rfl
      cases hspec
      exact hq
    · exact h before spec hpre

/-- Along every sequence of specs, the Services are those of the last spec alone after each
reconcile exactly if every spec follows the one before it. -/
theorem converges_iff (r : Reconciler) (name ns : String) (specs : List Spec) :
    Converges r name ns specs ↔
      specs.IsChain fun p q => Follows (applyDefaults r ns p) (applyDefaults r ns q) := by
  induction specs using List.reverseRecOn with
  | nil =>
    refine ⟨fun _ => .nil, fun _ before spec hpre => ?_⟩
    simp at hpre
  | append_singleton specs q ih =>
    rw [converges_concat, ih, isChain_append]
    refine and_congr_right fun hchain => ?_
    rcases eq_nil_or_concat specs with rfl | ⟨init, p, rfl⟩
    · simp [reconcileAll]
    · rw [concat_eq_append] at hchain ih ⊢
      have hp := ih.mpr hchain init p (prefix_refl _)
      rw [reconcileAll_concat, hp, reconcile_fresh_iff]
      simp

/-- A spec with one endpoint of type LoadBalancer. -/
def loadBalancerSpec : Spec := { replicas := 1, endpoints := [{ loadBalancer := some true }] }

def nodePortSpec : Spec := { replicas := 1, endpoints := [{ nodePort := some true }] }

/-- From LoadBalancer to NodePort, the LoadBalancer Service stays. -/
theorem converges_fails :
    reconcileAll {} "js" "ns" [loadBalancerSpec, nodePortSpec] "js-router-0-lb" =
        some .loadBalancer ∧
      reconcile {} "js" "ns" nodePortSpec (fun _ => none) "js-router-0-lb" = none ∧
      reconcileAll {} "js" "ns" [loadBalancerSpec, nodePortSpec] ≠
        reconcile {} "js" "ns" nodePortSpec (fun _ => none) := by
  have hleft : reconcileAll {} "js" "ns" [loadBalancerSpec, nodePortSpec] "js-router-0-lb" =
      some .loadBalancer := by decide +kernel
  have hfresh : reconcile {} "js" "ns" nodePortSpec (fun _ => none) "js-router-0-lb" = none := by
    decide +kernel
  refine ⟨hleft, hfresh, fun h => ?_⟩
  rw [h, hfresh] at hleft
  cases hleft

end Jumpstarter.Operator
