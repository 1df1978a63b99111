import Jumpstarter.Lib.Sys
import Jumpstarter.Lib.Threads

/-!
# Sequences of mock responses

`_handle_sequence_counted` of the mitmproxy addon (`bundled_addon.py`), for requests that run concurrently. The
step of a request is chosen from the number of calls when it arrives, and the number is increased when its
response has been sent, which is after the simulated latency. The number is kept under the key of the endpoint,
also for the sequences of its rules.

* `pick_eq_assigned`: the loop of the code takes the step that the repeat counts assign to a position.
* `sequences_advance`: if no request arrives while another one with the key of its endpoint is suspended, or
  after one that selected another sequence under that key, the k-th request of each sequence gets the step of
  position k.
-/

namespace Jumpstarter.MitmSequences

open Lib List

/-! ## Sequences -/

structure Step where
  /-- `repeat`; `none`: without end. -/
  repeats : Option Nat := none
  latencyMs : Option Nat := none
  deriving DecidableEq

structure Sequence where
  first : Step
  rest : List Step
  deriving DecidableEq

/-- The loop over the steps; `i` is the index of the next one. -/
def pickFrom (callNum : Nat) : Nat → Nat → List Step → Option Nat
  | _, _, [] => none
  | position, i, step :: steps => match step.repeats with
    | none => some i
    | some n => if callNum < position + n then some i else pickFrom callNum (position + n) (i + 1) steps

def Sequence.pick (seq : Sequence) (callNum : Nat) : Nat :=
  (pickFrom callNum 0 0 (seq.first :: seq.rest)).getD seq.rest.length

def Sequence.step (seq : Sequence) (i : Nat) : Step := (seq.first :: seq.rest).getD i seq.first

/-- The step that the repeat counts assign to position `k`: the first one has the first positions, and the last
one all that are left. -/
def assigned (first : Step) : List Step → Nat → Nat
  | [], _ => 0
  | second :: rest, k => match first.repeats with
    | none => 0
    | some n => if k < n then 0 else assigned second rest (k - n) + 1

def Sequence.assigned (seq : Sequence) (k : Nat) : Nat := MitmSequences.assigned seq.first seq.rest k

theorem pickFrom_eq_assigned (callNum position i : Nat) (first : Step) (rest : List Step)
    (h : position ≤ callNum) :
    (pickFrom callNum position i (first :: rest)).getD (i + rest.length) =
      i + assigned first rest (callNum - position) := by
  induction rest generalizing first position i with
  | nil =>
    unfold pickFrom
    cases first.repeats with
    | none => rfl
    | some n => by_cases hlt : callNum < position + n <;> simp [hlt, pickFrom, assigned]
  | cons second rest ih =>
    unfold pickFrom assigned
    cases first.repeats with
    | none => rfl
    | some n =>
      by_cases hlt : callNum < position + n
      · have hlt' : callNum - position < n := by omega
        simp [hlt, hlt']
      · have hlt' : ¬callNum - position < n := by omega
        have hrest := ih (position + n) (i + 1) second (by omega)
        have hsub : callNum - (position + n) = callNum - position - n := by omega
        have hlen : i + (second :: rest).length = i + 1 + rest.length := by rw [length_cons]; omega
        simp only [hlt, hlt', if_false, hlen, hrest, hsub]
        omega

theorem pick_eq_assigned (seq : Sequence) (callNum : Nat) : seq.pick callNum = seq.assigned callNum := by
  have h := pickFrom_eq_assigned callNum 0 0 seq.first seq.rest (Nat.zero_le _)
  simpa [Sequence.pick, Sequence.assigned] using h

/-! ## Requests -/

/-- An endpoint that has a sequence, or rules of which some have one. -/
inductive Endpoint where
  | sequence (seq : Sequence)
  | rules (rules : List (Option Sequence))

structure Config where
  endpoints : String → Option Endpoint
  defaultLatencyMs : Nat := 0

/-- A sequence: the key of its endpoint, and its rule if it has one. -/
structure Ref where
  key : String
  rule : Option Nat := none
  deriving DecidableEq

def Config.sequence (cfg : Config) (ref : Ref) : Option Sequence :=
  match cfg.endpoints ref.key, ref.rule with
  | some (.sequence seq), none => some seq
  | some (.rules rules), some i => (rules.getD i none)
  | _, _ => none

/-- A request that has selected a sequence. -/
structure Call where
  ref : Ref
  step : Nat
  /-- It is in the `sleep` of `_send_response`. -/
  suspended : Bool

structure St where
  /-- `_sequence_state`. -/
  counts : String → Nat := fun _ => 0
  calls : List Call := []

inductive Act where
  | arrive (ref : Ref)
  | wake (i : Nat)

/-- `self._sequence_state[key] += 1`. -/
def St.increment (s : St) (key : String) : St :=
  { s with counts := fun key' => if key' = key then s.counts key' + 1 else s.counts key' }

/-- The request is answered, now or after the latency of its step. -/
def St.arrive (cfg : Config) (s : St) (ref : Ref) (seq : Sequence) : St :=
  let i := seq.pick (s.counts ref.key)
  if 0 < (seq.step i).latencyMs.getD cfg.defaultLatencyMs then { s with calls := s.calls ++ [⟨ref, i, true⟩] }
  else St.increment { s with calls := s.calls ++ [⟨ref, i, false⟩] } ref.key

def step (cfg : Config) (s : St) : Act → Option St
  | .arrive ref => (cfg.sequence ref).map fun seq => s.arrive cfg ref seq
  | .wake i => match s.calls[i]? with
    | some call =>
      if call.suspended then
        some (St.increment { s with calls := s.calls.set i { call with suspended := false } } call.ref.key)
      else none
    | none => none

def sys (cfg : Config) : Sys St Act := ⟨fun s => s = {}, step cfg⟩

/-- The steps of the requests that selected a sequence, in the order of their arrival. -/
def St.answers (s : St) (ref : Ref) : List Nat :=
  s.calls.filterMap fun call => if call.ref = ref then some call.step else none

/-- The k-th request of each sequence gets the step of position k. -/
def Advances (cfg : Config) (s : St) : Prop :=
  ∀ ref seq, cfg.sequence ref = some seq → ∀ k i, (s.answers ref)[k]? = some i → i = seq.assigned k

/-- No other request with the key is suspended, and none of them has selected another sequence. -/
def meets (s : St) : Act → Bool
  | .arrive ref => s.calls.all fun call => decide (call.ref.key ≠ ref.key) ||
    !call.suspended && decide (call.ref = ref)
  | .wake _ => true

/-! ## Every run -/

variable {cfg : Config} {s s' : St}

@[simp] def answered (key : String) (call : Call) : Bool := decide (call.ref.key = key) && !call.suspended

structure Inv (cfg : Config) (s : St) : Prop where
  counted : ∀ key, s.counts key = s.calls.countP (answered key)
  advances : Advances cfg s

theorem answers_concat (s : St) (call : Call) (ref : Ref) :
    St.answers { s with calls := s.calls ++ [call] } ref =
      s.answers ref ++ if call.ref = ref then [call.step] else [] := by
  unfold St.answers
  by_cases h : call.ref = ref <;> simp [h]

theorem counts_eq_length (h : Inv cfg s) {ref : Ref} (hm : meets s (.arrive ref) = true) :
    s.counts ref.key = (s.answers ref).length := by
  rw [h.counted, St.answers, length_filterMap_eq_countP]
  refine countP_congr fun call hcall => ?_
  have hcond := all_eq_true.mp hm call hcall
  simp only [Bool.or_eq_true, Bool.and_eq_true, decide_eq_true_eq, Bool.not_eq_true'] at hcond
  by_cases href : call.ref = ref
  · have hsusp : call.suspended = false := by
      rcases hcond with hcond | hcond
      · exact absurd (congrArg Ref.key href) hcond
      · exact hcond.1
    simp [href, hsusp]
  · have hkey : call.ref.key ≠ ref.key := by
      rcases hcond with hcond | hcond
      · exact hcond
      · exact absurd hcond.2 href
    simp [href, hkey]

theorem counted_increment {counts : String → Nat} {calls calls' : List Call} (last : String)
    (h : ∀ key, counts key = calls.countP (answered key))
    (hlast : ∀ key, calls'.countP (answered key) = calls.countP (answered key) + if last = key then 1 else 0)
    (key : String) : (St.increment ⟨counts, calls'⟩ last).counts key = calls'.countP (answered key) := by
  rw [hlast, ← h]
  unfold St.increment
  by_cases hkey : key = last
  · subst hkey
    simp
  · simp [hkey, Ne.symm hkey]

theorem inv_arrive (h : Inv cfg s) {ref : Ref} (hm : meets s (.arrive ref) = true) {seq : Sequence}
    (hseq : cfg.sequence ref = some seq) : Inv cfg (s.arrive cfg ref seq) := by
  have hadvances : ∀ suspended, Advances cfg
      { s with calls := s.calls ++ [⟨ref, seq.pick (s.counts ref.key), suspended⟩] } := by
    intro suspended ref' seq' hseq' k i hi
    rw [answers_concat] at hi
    by_cases href : ref = ref'
    · subst href
      obtain rfl : seq = seq' := Option.some.inj (hseq.symm.trans hseq')
      rw [if_pos rfl, getElem?_append] at hi
      split at hi
      · exact h.advances ref seq hseq k i hi
      · obtain ⟨hk, rfl⟩ : k - (s.answers ref).length = 0 ∧ seq.pick (s.counts ref.key) = i := by
          simpa [getElem?_singleton] using hi
        rw [pick_eq_assigned, counts_eq_length h hm]
        congr 1
        omega
    · rw [if_neg href, append_nil] at hi
      exact h.advances ref' seq' hseq' k i hi
  unfold St.arrive
  dsimp only
  split
  · refine ⟨fun key => ?_, hadvances true⟩
    simpa using h.counted key
  · refine ⟨counted_increment ref.key h.counted fun key => ?_, hadvances false⟩
    by_cases hkey : ref.key = key <;> simp [hkey]

theorem inv_wake (h : Inv cfg s) {i : Nat} {call : Call} (hcall : s.calls[i]? = some call)
    (hsusp : call.suspended = true) :
    Inv cfg (St.increment { s with calls := s.calls.set i { call with suspended := false } } call.ref.key) := by
  obtain ⟨hlt, hget⟩ := List.getElem?_eq_some_iff.mp hcall
  refine ⟨counted_increment call.ref.key h.counted fun key => ?_, fun ref seq hseq k j hj => ?_⟩
  · rw [countP_set hlt, hget]
    by_cases hkey : call.ref.key = key <;> simp [hkey, hsusp]
  · refine h.advances ref seq hseq k j ?_
    have hmap := map_set_of (f := fun call : Call => if call.ref = ref then some call.step else none)
      (y := { call with suspended := false }) hcall rfl
    have hanswers : ∀ l : List Call, l.filterMap (fun call => if call.ref = ref then some call.step else none) =
        (l.map fun call => if call.ref = ref then some call.step else none).filterMap id := by
      intro l
      rw [filterMap_map]
      rfl
    rw [St.answers, hanswers, ← hmap, ← hanswers]
    exact hj

theorem inv_reach (h : (sys cfg).ReachIf (fun s a => meets s a = true) s) : Inv cfg s := by
  have hind : (sys cfg).InductiveIf (fun s a => meets s a = true) (Inv cfg) := by
    refine ⟨?_, fun s a s' hi hm hst => ?_⟩
    · rintro _ rfl
      exact ⟨fun _ => rfl, fun _ _ _ _ _ hi => by cases hi⟩
    · cases a with
      | arrive ref =>
        obtain ⟨seq, hseq, rfl⟩ := Option.map_eq_some_iff.mp hst
        exact inv_arrive hi hm hseq
      | wake i =>
        simp only [sys, step] at hst
        split at hst
        · split at hst <;> cases hst
          exact inv_wake hi ‹_› ‹_›
        · cases hst
  exact hind.reach h

/-- **Sequences advance once per request.** In every run in which a request that selects a sequence finds no
other one with the key of its endpoint suspended, and none before it that selected another sequence under that
key, the k-th request of each sequence gets the step of position k. -/
theorem sequences_advance (cfg : Config) (s : St) (h : (sys cfg).ReachIf (fun s a => meets s a = true) s) :
    Advances cfg s :=
  (inv_reach h).advances

/-- An endpoint whose first step is given once, with a latency, and one with two rules. -/
def sampleConfig : Config where
  endpoints key :=
    if key = "GET /a" then some (.sequence ⟨⟨some 1, some 50⟩, [⟨none, none⟩]⟩)
    else if key = "GET /b" then
      some (.rules [some ⟨⟨some 1, none⟩, [⟨none, none⟩]⟩, some ⟨⟨some 1, none⟩, [⟨none, none⟩]⟩])
    else none

/-- One request after the other. -/
theorem sequences_advance_sample : ∃ s, (sys sampleConfig).ReachIf (fun s a => meets s a = true) s ∧
    s.answers ⟨"GET /a", none⟩ = [0, 1] ∧ Advances sampleConfig s := by
  have hinit : (sys sampleConfig).ReachIf (fun s a => meets s a = true) {} := .init rfl
  obtain ⟨s, hreach, hs⟩ := hinit.execIf_any
    [.arrive ⟨"GET /a", none⟩, .arrive ⟨"GET /b", some 1⟩, .wake 0, .arrive ⟨"GET /a", none⟩]
    (p := fun s => decide (s.answers ⟨"GET /a", none⟩ = [0, 1])) (by decide +kernel)
  exact ⟨s, hreach, of_decide_eq_true hs, sequences_advance sampleConfig s hreach⟩

/-- A request that arrives during the latency of another one gets the same step; and the first request of the
second rule gets the second step after one of the first rule. -/
theorem sequences_not_advance :
    (∃ s, (sys sampleConfig).Reach s ∧ s.answers ⟨"GET /a", none⟩ = [0, 0] ∧ ¬Advances sampleConfig s) ∧
    ∃ s, (sys sampleConfig).Reach s ∧ s.answers ⟨"GET /b", some 1⟩ = [1] ∧ ¬Advances sampleConfig s := by
  have hinit : (sys sampleConfig).Reach {} := .init rfl
  refine ⟨?_, ?_⟩
  · obtain ⟨s, hreach, hs⟩ := hinit.exec_any [.arrive ⟨"GET /a", none⟩, .arrive ⟨"GET /a", none⟩]
      (p := fun s => decide (s.answers ⟨"GET /a", none⟩ = [0, 0])) (by decide +kernel)
    have hs : s.answers ⟨"GET /a", none⟩ = [0, 0] := of_decide_eq_true hs
    refine ⟨s, hreach, hs, fun h => ?_⟩
    exact absurd (h ⟨"GET /a", none⟩ _ rfl 1 0 (by rw [hs]; rfl)) (by decide +kernel)
  · obtain ⟨s, hreach, hs⟩ := hinit.exec_any [.arrive ⟨"GET /b", some 0⟩, .arrive ⟨"GET /b", some 1⟩]
      (p := fun s => decide (s.answers ⟨"GET /b", some 1⟩ = [1])) (by decide +kernel)
    have hs : s.answers ⟨"GET /b", some 1⟩ = [1] := of_decide_eq_true hs
    refine ⟨s, hreach, hs, fun h => ?_⟩
    exact absurd (h ⟨"GET /b", some 1⟩ _ rfl 0 1 (by rw [hs]; rfl)) (by decide +kernel)

end Jumpstarter.MitmSequences
