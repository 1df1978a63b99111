import Jumpstarter.Lib.Sys
import Mathlib.Data.List.Pairwise
import Mathlib.Logic.Function.Basic

/-!
# Pairing of router streams (`RouterService.Stream`)

Both ends of a connection call `Stream` with the same stream name. The first call stores its
`streamContext` in the `sync.Map` `pending` and waits; the second finds it there, removes it and
forwards between the two streams. One operation on `pending` is a step.

- `St`, `step`: call `i` is at a place `Pc`; `pending` holds the number of the call whose
  `streamContext` is stored; `forwards` records, for each `Forward` that started, its two streams. A
  context ends by its own peer (`Act.ctxEnd`) or by a `cancel` of the code.
- `exclusive_fails`: the lookup (`LoadOrStore`) and the removal (`CompareAndDelete`) are two operations,
  and the result of the removal is not used: two calls that both find the waiting stream both forward
  to it.
- `exclusive_of_noDoubleFind`: a stream takes part in at most one `Forward` (`Exclusive`) in every run in
  which no call finds a stream that another call has found and not yet removed (`NoDoubleFind`).
-/

namespace Jumpstarter.Router

open Lib Option

/-- Where a call of `Stream` is. -/
inductive Pc where
  /-- Before `LoadOrStore`. -/
  | start
  /-- Its `streamContext` is stored; it waits for `ctx.Done`. -/
  | waiting
  /-- Its context ended, before the deferred `CompareAndDelete` and `cancel`. -/
  | cleanup
  /-- It found `first`, before `CompareAndDelete`. -/
  | remove (first : Nat)
  /-- Before `Forward(ctx, stream, first.stream)`. -/
  | ready (first : Nat)
  /-- In `Forward`. -/
  | forwarding (first : Nat)
  /-- `Forward` returned, before the deferred `first.cancel` and `cancel`. -/
  | cancelFirst (first : Nat)
  /-- It returned, from the branch of the first peer (`true`) or of the second. -/
  | returned (first : Bool)
  deriving DecidableEq

/-- The state of `pending` at the stream name, and of the calls. -/
structure St where
  pc : Nat → Pc
  pending : Option Nat
  canceled : Nat → Bool
  /-- The two streams of each `Forward` that started, newest first. -/
  forwards : List (Nat × Nat)

/-- An atomic step: the next operation of a call, or the end of a call's context from outside. -/
inductive Act where
  | run (i : Nat)
  | ctxEnd (i : Nat)

def St.goto (s : St) (i : Nat) (c : Pc) : St := { s with pc := Function.update s.pc i c }

def St.cancel (s : St) (i : Nat) : St := { s with canceled := Function.update s.canceled i true }

/-- `pending.CompareAndDelete(streamName, a)`. -/
def St.compareAndDelete (s : St) (a : Nat) : St :=
  { s with pending := if s.pending = some a then none else s.pending }

/-- The next operation of call `i`. `Forward` may return at any time. -/
def run (s : St) (i : Nat) : Option St :=
  match s.pc i with
  | .start =>
    match s.pending with
    | some first => some (s.goto i (.remove first))
    | none => some { s.goto i .waiting with pending := some i }
  | .waiting => if s.canceled i then some (s.goto i .cleanup) else none
  | .cleanup => some (((s.compareAndDelete i).cancel i).goto i (.returned true))
  | .remove first => some ((s.compareAndDelete first).goto i (.ready first))
  | .ready first => some { s.goto i (.forwarding first) with forwards := (i, first) :: s.forwards }
  | .forwarding first => some (s.goto i (.cancelFirst first))
  | .cancelFirst first => some (((s.cancel first).cancel i).goto i (.returned false))
  | .returned _ => none

def step (s : St) : Act → Option St
  | .run i => run s i
  | .ctxEnd i => some (s.cancel i)

def start : St := ⟨fun _ => .start, none, fun _ => false, []⟩

/-- Any number of calls of `Stream` with one stream name. -/
def sys : Sys St Act where
  init s := s = start
  step := step

/-- The number of `Forward`s that stream `i` takes part in. -/
def St.forwardCount (s : St) (i : Nat) : Nat :=
  (s.forwards.filter fun p => p.1 = i ∨ p.2 = i).length

/-- Each stream takes part in at most one `Forward`. -/
def Exclusive (s : St) : Prop := ∀ i, s.forwardCount i ≤ 1

/-- A call does not find a stream that another call has found and not yet removed. -/
def NoDoubleFind (s : St) : Act → Prop
  | .run i => s.pc i = .start → ∀ first, s.pending = some first → ∀ j, s.pc j ≠ .remove first
  | .ctxEnd _ => True

/-! ## The defect -/

def doubleFindRun : List Act := [.run 0, .run 1, .run 2, .run 1, .run 1, .run 2, .run 2]

/-- Stream 0 is forwarded to stream 1 and to stream 2 at the same time. -/
theorem exclusive_fails : ∃ s : St, sys.Reach s ∧ s.pc 1 = .forwarding 0 ∧ s.pc 2 = .forwarding 0 ∧
    s.forwardCount 0 = 2 ∧ ¬ Exclusive s := by
  have hr : sys.Reach start := .init rfl
  refine ⟨_, hr.exec doubleFindRun rfl, by decide, by decide, by decide, fun h => ?_⟩
  exact absurd (h 0) (by decide)

/-! ## The invariant -/

/-- The call stored its `streamContext`. -/
def Pc.waited : Pc → Bool
  | .waiting | .cleanup | .returned true => true
  | _ => false

/-- Call `j` took the stream of call `a` as its peer. -/
def Claims (s : St) (j a : Nat) : Prop :=
  s.pc j = .remove a ∨ s.pc j = .ready a ∨ (j, a) ∈ s.forwards

/-- The invariant: a claimed stream waited, has one claimer, and while it is stored its claimer
has yet to remove it; a call that forwards made one `Forward`. -/
structure Inv (s : St) : Prop where
  stored : ∀ a, s.pending = some a → s.pc a = .waiting ∨ s.pc a = .cleanup
  first : ∀ j a, Claims s j a → (s.pc a).waited = true
  one : ∀ j k a, Claims s j a → Claims s k a → j = k
  held : ∀ j a, s.pending = some a → Claims s j a → s.pc j = .remove a
  second : ∀ j a, (j, a) ∈ s.forwards →
    s.pc j = .forwarding a ∨ s.pc j = .cancelFirst a ∨ s.pc j = .returned false
  once : s.forwards.Pairwise fun p q => p.1 ≠ q.1

theorem Inv.start : Inv start := by
  refine ⟨?_, ?_, ?_, ?_, ?_, List.Pairwise.nil⟩ <;> simp [Router.start, Claims]

theorem goto_pc (s : St) (i : Nat) (c : Pc) (j : Nat) : (s.goto i c).pc j = if j = i then c else s.pc j := by
  simp [St.goto, Function.update_apply]

variable {s : St} {i a : Nat}

theorem goto_pc_of_waited (c : Pc) (hp : (s.pc i).waited = false) (h : (s.pc a).waited = true) :
    (s.goto i c).pc a = s.pc a := by
  rw [goto_pc, if_neg]
  rintro rfl
  rw [hp] at h
  cases h

theorem Inv.stored_waited (hi : Inv s) (h : s.pending = some a) : (s.pc a).waited = true := by
  rcases hi.stored a h with h | h <;> rw [h] <;> rfl

theorem Inv.not_mem_forwards (hi : Inv s)
    (hp : ∀ a, s.pc i ≠ .forwarding a ∧ s.pc i ≠ .cancelFirst a ∧ s.pc i ≠ .returned false) (a : Nat) :
    (i, a) ∉ s.forwards := by
  intro h
  obtain ⟨hf, hc, hr⟩ := hp a
  rcases hi.second i a h with h | h | h
  · exact hf h
  · exact hc h
  · exact hr h

theorem goto_pc_of_forwards {j : Nat} (c : Pc) (hp : ∀ a, (i, a) ∉ s.forwards) (h : (j, a) ∈ s.forwards) :
    (s.goto i c).pc j = s.pc j := by
  rw [goto_pc, if_neg]
  rintro rfl
  exact hp a h

theorem Inv.cancel (hi : Inv s) (i : Nat) : Inv (s.cancel i) :=
  { hi with }

theorem Claims.of_goto {j : Nat} {c : Pc} (hc : ∀ b, c ≠ .remove b ∧ c ≠ .ready b)
    (h : Claims (s.goto i c) j a) : Claims s j a := by
  rcases h with h | h | h
  · rw [goto_pc] at h
    split at h
    · exact absurd h (hc a).1
    · exact .inl h
  · rw [goto_pc] at h
    split at h
    · exact absurd h (hc a).2
    · exact .inr (.inl h)
  · exact .inr (.inr h)

theorem Inv.quiet (hi : Inv s) {c : Pc} (hc : ∀ b, c ≠ .remove b ∧ c ≠ .ready b)
    (hp : ∀ b, s.pc i ≠ .remove b) (hw : c.waited = (s.pc i).waited)
    (hs : s.pending = some i → c = .waiting ∨ c = .cleanup)
    (hf : ∀ a, (i, a) ∈ s.forwards → c = .forwarding a ∨ c = .cancelFirst a ∨ c = .returned false) :
    Inv (s.goto i c) := by
  refine ⟨fun a h => ?_, fun j a h => ?_, fun j k a h h' => ?_, fun j a h h' => ?_, fun j a h => ?_, hi.once⟩
  · rw [goto_pc]
    split
    · rename_i e; subst e; exact hs h
    · exact hi.stored a h
  · have := hi.first j a (h.of_goto hc)
    rw [goto_pc]
    split
    · rename_i e; subst e; rw [hw]; exact this
    · exact this
  · exact hi.one j k a (h.of_goto hc) (h'.of_goto hc)
  · have := hi.held j a h (h'.of_goto hc)
    rw [goto_pc]
    split
    · rename_i e; subst e; exact absurd this (hp a)
    · exact this
  · rw [goto_pc]
    split
    · rename_i e; subst e; exact hf a h
    · exact hi.second j a h

theorem Inv.compareAndDelete (hi : Inv s) (a : Nat) : Inv (s.compareAndDelete a) := by
  have hp : ∀ b, (s.compareAndDelete a).pending = some b → s.pending = some b := by
    intro b h
    simp only [St.compareAndDelete] at h
    split at h
    · cases h
    · exact h
  exact { hi with stored := fun b h => hi.stored b (hp b h), held := fun j b h => hi.held j b (hp b h) }

theorem Inv.store (hi : Inv s) (hp : s.pc i = .start) : Inv { s.goto i .waiting with pending := some i } := by
  -- A call that has not begun is claimed by nobody.
  have hno : ∀ j, ¬ Claims s j i := fun j h => by
    have := hi.first j i h
    rw [hp] at this
    cases this
  have hc : ∀ b : Nat, (Pc.waiting ≠ .remove b) ∧ (Pc.waiting ≠ .ready b) := by simp
  refine ⟨fun a h => ?_, fun j a h => ?_, fun j k a h h' => ?_, fun j a h h' => ?_, fun j a h => ?_, hi.once⟩
  · cases h
    exact .inl (by simp [goto_pc])
  · have hcl : Claims s j a := Claims.of_goto hc h
    have := hi.first j a hcl
    show ((s.goto i .waiting).pc a).waited = true
    rw [goto_pc]
    split
    · rfl
    · exact this
  · exact hi.one j k a (Claims.of_goto hc h) (Claims.of_goto hc h')
  · cases h
    exact absurd (Claims.of_goto hc h') (hno j)
  · show (s.goto i .waiting).pc j = _ ∨ _
    rw [goto_pc_of_forwards _ (hi.not_mem_forwards (by simp [hp])) h]
    exact hi.second j a h

variable {first : Nat}

theorem Inv.find (hi : Inv s) (hp : s.pc i = .start) (hs : s.pending = some first)
    (hok : ∀ j, s.pc j ≠ .remove first) : Inv (s.goto i (.remove first)) := by
  have hno : ∀ j, ¬ Claims s j first := fun j h => hok j (hi.held j first hs h)
  -- The claims after the step: those before it, and that of `i`.
  have hcl : ∀ {j a}, Claims (s.goto i (.remove first)) j a → (j = i ∧ a = first) ∨ Claims s j a := by
    rintro j a (h | h | h)
    · rw [goto_pc] at h
      split at h
      · cases h; exact .inl ⟨‹_›, rfl⟩
      · exact .inr (.inl h)
    · rw [goto_pc] at h
      split at h
      · cases h
      · exact .inr (.inr (.inl h))
    · exact .inr (.inr (.inr h))
  have hnew : (s.pc i).waited = false := by rw [hp]; rfl
  refine ⟨fun a h => ?_, fun j a h => ?_, fun j k a h h' => ?_, fun j a h h' => ?_, fun j a h => ?_, hi.once⟩
  · rw [goto_pc_of_waited _ hnew (hi.stored_waited h)]
    exact hi.stored a h
  · have hw : (s.pc a).waited = true := by
      rcases hcl h with ⟨-, rfl⟩ | h
      · exact hi.stored_waited hs
      · exact hi.first j a h
    rw [goto_pc_of_waited _ hnew hw]
    exact hw
  · rcases hcl h with ⟨hj, ha⟩ | hc <;> rcases hcl h' with ⟨hk, ha'⟩ | hc'
    · rw [hj, hk]
    · exact absurd (ha ▸ hc') (hno k)
    · exact absurd (ha' ▸ hc) (hno j)
    · exact hi.one j k a hc hc'
  · change s.pending = some a at h
    rcases hcl h' with ⟨rfl, rfl⟩ | h'
    · simp [goto_pc]
    · rw [hs] at h
      cases h
      exact absurd h' (hno j)
  · rw [goto_pc_of_forwards _ (hi.not_mem_forwards (by simp [hp])) h]
    exact hi.second j a h

theorem Inv.remove (hi : Inv s) (hp : s.pc i = .remove first) :
    Inv ((s.compareAndDelete first).goto i (.ready first)) := by
  have hd := hi.compareAndDelete first
  have hgone : (s.compareAndDelete first).pending ≠ some first := by
    simp only [St.compareAndDelete]
    split <;> simp_all
  have hcl : ∀ {j a}, Claims ((s.compareAndDelete first).goto i (.ready first)) j a → Claims s j a := by
    rintro j a (h | h | h)
    · rw [goto_pc] at h
      split at h
      · cases h
      · exact .inl h
    · rw [goto_pc] at h
      split at h
      · cases h; subst_vars; exact .inl hp
      · exact .inr (.inl h)
    · exact .inr (.inr h)
  have hpd : (s.compareAndDelete first).pc i = .remove first := hp
  have hnew : ((s.compareAndDelete first).pc i).waited = false := by rw [hpd]; rfl
  refine ⟨fun a h => ?_, fun j a h => ?_, fun j k a h h' => ?_, fun j a h h' => ?_, fun j a h => ?_, hi.once⟩
  · rw [goto_pc_of_waited _ hnew (hd.stored_waited h)]
    exact hd.stored a h
  · have hw := hd.first j a (hcl h)
    rw [goto_pc_of_waited _ hnew hw]
    exact hw
  · exact hi.one j k a (hcl h) (hcl h')
  · have hr := hd.held j a h (hcl h')
    have : j ≠ i := by
      rintro rfl
      rw [show s.pc j = _ from hr] at hp
      cases hp
      exact hgone h
    rw [goto_pc, if_neg this]
    exact hr
  · rw [goto_pc_of_forwards _ (hd.not_mem_forwards (by simp [hpd])) h]
    exact hd.second j a h

theorem Inv.forward (hi : Inv s) (hp : s.pc i = .ready first) :
    Inv { s.goto i (.forwarding first) with forwards := (i, first) :: s.forwards } := by
  have hi1 : Claims s i first := .inr (.inl hp)
  have hcl : ∀ {j a}, Claims { s.goto i (.forwarding first) with
      forwards := (i, first) :: s.forwards } j a → Claims s j a := by
    rintro j a (h | h | h)
    · change (s.goto i (.forwarding first)).pc j = _ at h
      rw [goto_pc] at h
      split at h
      · cases h
      · exact .inl h
    · change (s.goto i (.forwarding first)).pc j = _ at h
      rw [goto_pc] at h
      split at h
      · cases h
      · exact .inr (.inl h)
    · rcases List.mem_cons.mp h with h | h
      · cases h; exact hi1
      · exact .inr (.inr h)
  have hnew : (s.pc i).waited = false := by rw [hp]; rfl
  have hnone := hi.not_mem_forwards (i := i) (by simp [hp])
  refine ⟨fun a h => ?_, fun j a h => ?_, fun j k a h h' => ?_, fun j a h h' => ?_,
    fun j a h => ?_, List.pairwise_cons.mpr ⟨?_, hi.once⟩⟩
  · show (s.goto i (.forwarding first)).pc a = _ ∨ _
    rw [goto_pc_of_waited _ hnew (hi.stored_waited h)]
    exact hi.stored a h
  · have hw := hi.first j a (hcl h)
    show ((s.goto i (.forwarding first)).pc a).waited = true
    rw [goto_pc_of_waited _ hnew hw]
    exact hw
  · exact hi.one j k a (hcl h) (hcl h')
  · have hr := hi.held j a h (hcl h')
    have : j ≠ i := by
      rintro rfl
      rw [hp] at hr
      cases hr
    show (s.goto i (.forwarding first)).pc j = _
    rw [goto_pc, if_neg this]
    exact hr
  · show (s.goto i (.forwarding first)).pc j = _ ∨ _
    rcases List.mem_cons.mp h with h | h
    · cases h; exact .inl (by simp [goto_pc])
    · rw [goto_pc_of_forwards _ hnone h]
      exact hi.second j a h
  · rintro ⟨j, a⟩ h rfl
    exact hnone a h

theorem Inv.run {s' : St} (hi : Inv s) (hok : NoDoubleFind s (.run i)) (h : run s i = some s') : Inv s' := by
  unfold Router.run at h
  cases hp : s.pc i with
  | start =>
    cases hs : s.pending with
    | some first =>
      simp only [hp, hs, some.injEq] at h
      subst h
      exact hi.find hp hs (hok hp first hs)
    | none =>
      simp only [hp, hs, some.injEq] at h
      subst h
      exact hi.store hp
  | waiting =>
    simp only [hp] at h
    split at h
    · cases h
      exact hi.quiet (by simp) (by simp [hp]) (by rw [hp]; rfl) (fun _ => .inr rfl)
        fun a hf => absurd hf (hi.not_mem_forwards (by simp [hp]) a)
    · cases h
  | cleanup =>
    simp only [hp, some.injEq] at h
    subst h
    refine ((hi.compareAndDelete i).cancel i).quiet (by simp) (fun b => ?_) ?_ ?_ fun a hf => ?_
    · show s.pc i ≠ _
      simp [hp]
    · show _ = (s.pc i).waited
      rw [hp]; rfl
    · show (if s.pending = some i then none else s.pending) = some i → _
      split
      · rintro ⟨⟩
      · exact fun h => absurd h ‹_›
    · exact absurd hf (hi.not_mem_forwards (by simp [hp]) a)
  | remove first =>
    simp only [hp, some.injEq] at h
    subst h
    exact hi.remove hp
  | ready first =>
    simp only [hp, some.injEq] at h
    subst h
    exact hi.forward hp
  | forwarding first =>
    simp only [hp, some.injEq] at h
    subst h
    refine hi.quiet (by simp) (by simp [hp]) (by rw [hp]; rfl) (fun hs => ?_) fun a hf => ?_
    · have := hi.stored i hs
      rw [hp] at this
      simp at this
    · have := hi.second i a hf
      rw [hp] at this
      simp at this
      exact .inr (.inl (by rw [this]))
  | cancelFirst first =>
    simp only [hp, some.injEq] at h
    subst h
    refine ((hi.cancel first).cancel i).quiet (by simp) (fun b => ?_) ?_ (fun hs => ?_) fun a hf => ?_
    · show s.pc i ≠ _
      simp [hp]
    · show _ = (s.pc i).waited
      rw [hp]; rfl
    · have := hi.stored i hs
      rw [hp] at this
      simp at this
    · exact .inr (.inr rfl)
  | returned b =>
    simp only [hp] at h
    cases h

theorem inductive_inv : sys.InductiveIf NoDoubleFind Inv where
  init s hs := by rw [hs]; exact Inv.start
  step s a s' hi hok hst := by
    cases a with
    | run i => exact hi.run hok hst
    | ctxEnd i => cases hst; exact hi.cancel i

theorem Inv.disjoint (hi : Inv s) : s.forwards.Pairwise fun p q =>
    p.1 ≠ q.1 ∧ p.1 ≠ q.2 ∧ p.2 ≠ q.1 ∧ p.2 ≠ q.2 := by
  -- The second peer of a `Forward` never waited, and the first did.
  have hne : ∀ p ∈ s.forwards, ∀ q ∈ s.forwards, p.1 ≠ q.2 := by
    rintro ⟨j, a⟩ hp ⟨k, b⟩ hq rfl
    have hw := hi.first k j (.inr (.inr hq))
    rcases hi.second j a hp with h | h | h <;> rw [h] at hw <;> cases hw
  refine (List.Pairwise.and_mem.mp hi.once).imp fun {p q} ⟨hp, hq, h⟩ => ?_
  refine ⟨h, hne p hp q hq, (hne q hq p hp).symm, fun e => h ?_⟩
  exact hi.one p.1 q.1 p.2 (.inr (.inr hp)) (.inr (.inr (e ▸ hq)))

theorem filter_length_le_one {α : Type} {P : α → Bool} {l : List α}
    (h : l.Pairwise fun x y => ¬ (P x = true ∧ P y = true)) : (l.filter P).length ≤ 1 := by
  have hf : (l.filter P).Pairwise fun x y => ¬ (P x = true ∧ P y = true) := h.filter P
  match e : l.filter P with
  | [] => simp
  | [_] => simp
  | x :: y :: r =>
    have hx : P x = true := (List.mem_filter.mp (e ▸ (by simp : x ∈ x :: y :: r))).2
    have hy : P y = true := (List.mem_filter.mp (e ▸ (by simp : y ∈ x :: y :: r))).2
    rw [e] at hf
    exact absurd ⟨hx, hy⟩ ((List.pairwise_cons.mp hf).1 y (by simp))

/-- **Pairing is exclusive** in every run whose steps meet `NoDoubleFind`. -/
theorem exclusive_of_noDoubleFind {s : St} (hs : sys.ReachIf NoDoubleFind s) : Exclusive s := by
  intro i
  refine filter_length_le_one ((inductive_inv.reach hs).disjoint.imp ?_)
  rintro ⟨j, a⟩ ⟨k, b⟩ ⟨h1, h2, h3, h4⟩ ⟨hp, hq⟩
  simp only [decide_eq_true_eq] at hp hq
  rcases hp with rfl | rfl <;> rcases hq with rfl | rfl <;> simp_all

/-- Two calls: one `Forward`, between them. -/
theorem exclusive_pair : ∃ s : St, sys.ReachIf NoDoubleFind s ∧ s.forwards = [(1, 0)] ∧
    Exclusive s := by
  have h0 : sys.ReachIf NoDoubleFind start := .init rfl
  have h1 : sys.ReachIf NoDoubleFind { start.goto 0 .waiting with pending := some 0 } :=
    h0.step (a := .run 0) (by simp [NoDoubleFind, start]) rfl
  have ok : NoDoubleFind { start.goto 0 .waiting with pending := some 0 } (.run 1) := by
    intro _ first _ j
    show (start.goto 0 .waiting).pc j ≠ .remove first
    rw [goto_pc]
    split <;> simp [start]
  have h2 := h1.step ok rfl
  have h3 := h2.step (a := .run 1) (by rintro ⟨⟩) rfl
  have h4 := h3.step (a := .run 1) (by rintro ⟨⟩) rfl
  exact ⟨_, h4, rfl, exclusive_of_noDoubleFind h4⟩

end Jumpstarter.Router
