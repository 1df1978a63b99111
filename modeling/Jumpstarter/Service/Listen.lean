import Jumpstarter.Lib.Sys
import Mathlib.Logic.Function.Basic

/-!
# Delivery of router tokens from `Dial` to `Listen`

`Dial` hands a router token to the exporter through the queue of the exporter's `Listen` call
(`sendToListener`); a new `Listen` on the same lease swaps its own queue in and tells the previous
one to stop (`swapListenQueue`). This file is that code for one lease name. The per-lease mutex is a
mutual exclusion here (`St.mu`); what the code makes of it is `Jumpstarter/Service/LeaseLock.lean`.

- `St`, `step`: a `Listen` call has a place in its code (`Phase`), its queue (`ch`, and whether `done` is
  closed) and two histories: the tokens put into the queue, and those sent on its stream.
  `sendToListener` is two steps under the mutex: the load with the check of `done`, and the channel send.
- `Inv`: the tokens put into a queue are those sent, the one in hand and those in the buffer, in this
  order (`CallInv.flow`); an open queue is the one in `listenQueues`; while the mutex is held for a send,
  the queue of the send is open.
-/

namespace Jumpstarter.Listen

open Lib

variable {Tok : Type}

/-- How the loop of a `Listen` call ended. -/
inductive Exit (Tok : Type) where
  /-- `ctx.Done`. -/
  | ctxDone
  | superseded
  /-- `stream.Send` of the token failed. -/
  | sendError (tok : Tok)

/-- Where a `Listen` call is. -/
inductive Phase (Tok : Type) where
  | new
  /-- At a `select`: that of the main loop, or (`draining`) that of the superseded branch. -/
  | select (draining : Bool)
  /-- It received `tok`, before `stream.Send`. -/
  | sending (draining : Bool) (tok : Tok)
  /-- It returned, before the deferred `closeDone`. -/
  | exit (e : Exit Tok)
  /-- `done` is closed, before the deferred `CompareAndDelete`. -/
  | closed (e : Exit Tok)
  | finished (e : Exit Tok)

/-- A `Listen` call with its queue and histories (module doc). -/
structure Call (Tok : Type) where
  phase : Phase Tok := .new
  /-- The channel `done` is closed. -/
  done : Bool := false
  ch : List Tok := []
  accepted : List Tok := []
  sent : List Tok := []

structure St (Tok : Type) where
  call : Nat → Call Tok
  /-- `listenQueues[leaseName]`: the call whose queue is stored. -/
  listenQueues : Option Nat
  /-- The per-lease mutex: held by a `sendToListener` that will send this token to this queue. -/
  mu : Option (Nat × Tok)

/-- The capacity of `ch`. -/
def capacity : Nat := 8

/-- A step of a `Listen` call outside the mutex. -/
inductive Local where
  | recv | superseded | ctxDone | sendOk | sendErr | drained

/-- The steps of the loop of a `Listen` call. A `select` takes any branch that is ready. -/
def Call.loop (c : Call Tok) : Local → Option (Call Tok)
  | .recv =>
    match c.phase, c.ch with
    | .select d, tok :: rest => some { c with phase := .sending d tok, ch := rest }
    | _, _ => none
  | .superseded =>
    match c.phase with
    | .select false => if c.done then some { c with phase := .select true } else none
    | _ => none
  | .ctxDone =>
    match c.phase with
    | .select false => some { c with phase := .exit .ctxDone }
    | _ => none
  | .sendOk =>
    match c.phase with
    | .sending d tok => some { c with phase := .select d, sent := c.sent ++ [tok] }
    | _ => none
  | .sendErr =>
    match c.phase with
    | .sending _ tok => some { c with phase := .exit (.sendError tok) }
    | _ => none
  | .drained =>
    match c.phase, c.ch with
    | .select true, [] => some { c with phase := .exit .superseded }
    | _, _ => none

inductive Act (Tok : Type) where
  /-- `Listen` call `i` swaps its queue in and closes `done` of the previous one. -/
  | start (i : Nat)
  | loop (i : Nat) (l : Local)
  /-- The deferred `closeDone` of call `i`, under the mutex. -/
  | closeDone (i : Nat)
  /-- The deferred `CompareAndDelete` of call `i`. -/
  | compareAndDelete (i : Nat)
  /-- `sendToListener`: lock, load the queue, check `done`. -/
  | check (tok : Tok)
  /-- `sendToListener`: the non-blocking channel send, unlock. -/
  | send

def St.set (s : St Tok) (i : Nat) (c : Call Tok) : St Tok :=
  { s with call := Function.update s.call i c }

/-- `closeDone` of the queue of call `i`. -/
def St.closeDone (s : St Tok) (i : Nat) : St Tok := s.set i { s.call i with done := true }

/-- `swapListenQueue` of the new queue of call `i`. -/
def St.swapListenQueue (s : St Tok) (i : Nat) : St Tok :=
  let s := match s.listenQueues with
    | some old => s.closeDone old
    | none => s
  { s.set i { phase := .select false } with listenQueues := some i }

/-- The results of `sendToListener`: the code of its error. -/
inductive SendError where
  | unavailable | resourceExhausted

/-- The first part of `sendToListener`: the queue to send to. -/
def St.loadQueue (s : St Tok) : Except SendError Nat :=
  match s.listenQueues with
  | none => .error .unavailable
  | some q => if (s.call q).done then .error .unavailable else .ok q

/-- The second part of `sendToListener`: the send to queue `q`. -/
def St.sendTo (s : St Tok) (q : Nat) (tok : Tok) : Except SendError (St Tok) :=
  let c := s.call q
  if c.ch.length < capacity then
    .ok (s.set q { c with ch := c.ch ++ [tok], accepted := c.accepted ++ [tok] })
  else .error .resourceExhausted

def step (s : St Tok) : Act Tok → Option (St Tok)
  | .start i =>
    match s.mu, (s.call i).phase with
    | none, .new => some (s.swapListenQueue i)
    | _, _ => none
  | .loop i l => ((s.call i).loop l).map (s.set i)
  | .closeDone i =>
    match s.mu, (s.call i).phase with
    | none, .exit e => some (s.set i { s.call i with done := true, phase := .closed e })
    | _, _ => none
  | .compareAndDelete i =>
    match (s.call i).phase with
    | .closed e =>
      some { s.set i { s.call i with phase := .finished e } with
        listenQueues := if s.listenQueues = some i then none else s.listenQueues }
    | _ => none
  | .check tok =>
    match s.mu with
    | some _ => none
    | none =>
      match s.loadQueue with
      | .ok q => some { s with mu := some (q, tok) }
      | .error _ => some s
  | .send =>
    match s.mu with
    | none => none
    | some (q, tok) =>
      match s.sendTo q tok with
      | .ok s' => some { s' with mu := none }
      | .error _ => some { s with mu := none }

def start : St Tok := ⟨fun _ => {}, none, none⟩

/-- Any number of `Listen` and `sendToListener` calls on one lease name. -/
def sys (Tok : Type) : Sys (St Tok) (Act Tok) where
  init s := s = start
  step := step

/-! ## One call -/

/-- The token that the call received and has not sent (it never will be after a `Send` error). -/
def Phase.inHand : Phase Tok → List Tok
  | .sending _ tok | .exit (.sendError tok) | .closed (.sendError tok)
  | .finished (.sendError tok) => [tok]
  | _ => []

/-- The call is in, or left through, the superseded branch. -/
@[simp] def Phase.draining : Phase Tok → Bool
  | .select d | .sending d _ => d
  | .exit .superseded | .closed .superseded | .finished .superseded => true
  | _ => false

/-- The call left through the superseded branch, without a `Send` error. -/
@[simp] def Phase.drained : Phase Tok → Bool
  | .exit .superseded | .closed .superseded | .finished .superseded => true
  | _ => false

def Phase.isNew : Phase Tok → Bool
  | .new => true
  | _ => false

/-- The deferred `closeDone` has run. -/
@[simp] def Phase.afterClose : Phase Tok → Bool
  | .closed _ | .finished _ => true
  | _ => false

structure CallInv (c : Call Tok) : Prop where
  flow : c.accepted = c.sent ++ c.phase.inHand ++ c.ch
  stopped : c.phase.draining = true ∨ c.phase.afterClose = true → c.done = true
  emptied : c.phase.drained = true → c.ch = []

theorem CallInv.new : CallInv ({} : Call Tok) := by
  refine ⟨rfl, ?_, ?_⟩ <;> simp

variable {c : Call Tok}

theorem Call.loop_keep {c' : Call Tok} {l : Local} (h : c.loop l = some c') :
    c'.done = c.done ∧ c'.accepted = c.accepted ∧ c.phase.isNew = false ∧ c'.phase.isNew = false := by
  cases l <;> simp only [Call.loop] at h <;> split at h <;> try (cases h)
  all_goals first
    | (rename_i hp; exact ⟨rfl, rfl, by rw [hp]; rfl, rfl⟩)
    | (rename_i hp _; exact ⟨rfl, rfl, by rw [hp]; rfl, rfl⟩)
    | skip
  rename_i hp
  split at h
  · cases h; exact ⟨rfl, rfl, by rw [hp]; rfl, rfl⟩
  · cases h

theorem CallInv.loop {c' : Call Tok} (hi : CallInv c) {l : Local} (h : c.loop l = some c') : CallInv c' := by
  obtain ⟨hflow, hstop, hempty⟩ := hi
  cases l <;> simp only [Call.loop] at h
  case recv =>
    split at h
    · rename_i d tok rest hp hc
      cases h
      rw [hp, hc] at hflow
      rw [hp] at hstop
      refine ⟨by simpa [Phase.inHand] using hflow, ?_, by simp⟩
      rintro (hd | hd)
      · exact hstop (.inl hd)
      · cases hd
    · cases h
  case superseded =>
    split at h
    · rename_i hp
      split at h
      · rename_i hd
        cases h
        rw [hp] at hflow
        exact ⟨hflow, fun _ => hd, by simp⟩
      · cases h
    · cases h
  case ctxDone =>
    split at h
    · rename_i hp
      cases h
      rw [hp] at hflow
      exact ⟨hflow, by simp, by simp⟩
    · cases h
  case sendOk =>
    split at h
    · rename_i d tok hp
      cases h
      rw [hp] at hflow hstop
      refine ⟨by simpa [Phase.inHand] using hflow, ?_, by simp⟩
      rintro (hd | hd)
      · exact hstop (.inl hd)
      · cases hd
    · cases h
  case sendErr =>
    split at h
    · rename_i d tok hp
      cases h
      rw [hp] at hflow
      exact ⟨hflow, by simp, by simp⟩
    · cases h
  case drained =>
    split at h
    · rename_i hp hc
      cases h
      rw [hp] at hflow hstop
      exact ⟨hflow, fun _ => hstop (.inl rfl), fun _ => hc⟩
    · cases h

theorem CallInv.closeDone (hi : CallInv c) : CallInv { c with done := true } :=
  ⟨hi.flow, fun _ => rfl, hi.emptied⟩

variable {e : Exit Tok}

theorem CallInv.deferClose (hi : CallInv c) (hp : c.phase = .exit e) :
    CallInv { c with done := true, phase := .closed e } := by
  refine ⟨?_, fun _ => rfl, fun hd => hi.emptied ?_⟩
  · have := hi.flow
    rw [hp] at this
    cases e <;> exact this
  · rw [hp]
    cases e <;> first | rfl | cases hd

theorem CallInv.deferDelete (hi : CallInv c) (hp : c.phase = .closed e) :
    CallInv { c with phase := .finished e } := by
  refine ⟨?_, fun _ => hi.stopped (.inr (by rw [hp]; rfl)), fun hd => hi.emptied ?_⟩
  · have := hi.flow
    rw [hp] at this
    cases e <;> exact this
  · rw [hp]
    cases e <;> first | rfl | cases hd

theorem CallInv.accept (hi : CallInv c) (hd : c.done = false) (tok : Tok) :
    CallInv { c with ch := c.ch ++ [tok], accepted := c.accepted ++ [tok] } := by
  refine ⟨?_, hi.stopped, fun h => ?_⟩
  · simp [hi.flow]
  · have hdr : c.phase.draining = true := by
      cases hp : c.phase with
      | exit e | closed e | finished e =>
        rw [hp] at h
        cases e <;> first | rfl | cases h
      | _ => rw [hp] at h; cases h
    rw [hi.stopped (.inl hdr)] at hd
    cases hd

/-! ## All calls -/

/-- The invariant: that of each call; a begun call whose queue is open is the one in `listenQueues`;
a stored queue is of a begun call; while a send is in progress its queue is the stored one and
open; nothing was accepted for a call that has not begun. -/
structure Inv (s : St Tok) : Prop where
  call : ∀ i, CallInv (s.call i)
  current : ∀ i, (s.call i).phase.isNew = false → (s.call i).done = false → s.listenQueues = some i
  stored : ∀ i, s.listenQueues = some i → (s.call i).phase.isNew = false
  held : ∀ q tok, s.mu = some (q, tok) → s.listenQueues = some q ∧ (s.call q).done = false
  fresh : ∀ i, (s.call i).phase.isNew = true → (s.call i).accepted = []

theorem Inv.start : Inv (start : St Tok) := by
  refine ⟨fun i => CallInv.new, ?_, ?_, ?_, ?_⟩ <;> simp [Listen.start, Phase.isNew]

theorem set_call (s : St Tok) (i : Nat) (c : Call Tok) (j : Nat) :
    (s.set i c).call j = if j = i then c else s.call j := by
  simp [St.set, Function.update_apply]

variable {s : St Tok}

theorem Inv.set (hi : Inv s) {i : Nat} (hc : CallInv c) (hb : (s.call i).phase.isNew = false)
    (hn : c.phase.isNew = false) (hd : c.done = false → (s.call i).done = false)
    (hm : ∀ tok, s.mu = some (i, tok) → c.done = false) : Inv (s.set i c) := by
  refine ⟨fun j => ?_, fun j => ?_, fun j h => ?_, fun q tok h => ⟨(hi.held q tok h).1, ?_⟩, fun j => ?_⟩
  · rw [set_call]
    split
    · exact hc
    · exact hi.call j
  · rw [set_call]
    split
    · rename_i e; subst e
      exact fun _ h => hi.current j hb (hd h)
    · exact hi.current j
  · rw [set_call]
    split
    · exact hn
    · exact hi.stored j h
  · rw [set_call]
    split
    · rename_i e; subst e; exact hm tok h
    · exact (hi.held q tok h).2
  · rw [set_call]
    split
    · intro h
      rw [hn] at h
      cases h
    · exact hi.fresh j

theorem Inv.unlock (hi : Inv s) : Inv { s with mu := none } :=
  { hi with held := fun _ _ h => (nomatch h) }

theorem swapListenQueue_call (s : St Tok) (i j : Nat) : (s.swapListenQueue i).call j =
    if j = i then { phase := .select false } else
      if s.listenQueues = some j then { s.call j with done := true } else s.call j := by
  simp only [St.swapListenQueue]
  rw [set_call]
  split
  · rfl
  · split
    · rename_i old hq
      rw [St.closeDone, set_call, hq]
      by_cases h : j = old
      · subst h
        simp
      · rw [if_neg h, if_neg fun h' => h (Option.some.inj h').symm]
    · rename_i hq
      simp [hq]

theorem Inv.swapListenQueue (hi : Inv s) (hm : s.mu = none) (i : Nat) : Inv (s.swapListenQueue i) := by
  have hmu : (s.swapListenQueue i).mu = none := by
    unfold St.swapListenQueue
    split
    · exact hm
    · exact hm
  refine ⟨fun j => ?_, fun j => ?_, fun j h => ?_, fun q tok h => ?_, fun j => ?_⟩
  · rw [swapListenQueue_call]
    split
    · refine ⟨rfl, ?_, ?_⟩ <;> simp
    · split
      · exact (hi.call j).closeDone
      · exact hi.call j
  · rw [swapListenQueue_call]
    split
    · rename_i e
      subst e
      exact fun _ _ => rfl
    · split
      · exact fun _ hd => nomatch hd
      · rename_i hne
        exact fun hb hd => absurd (hi.current j hb hd) hne
  · cases h
    rw [swapListenQueue_call, if_pos rfl]
    rfl
  · rw [hmu] at h
    cases h
  · rw [swapListenQueue_call]
    split
    · exact fun _ => rfl
    · split
      · exact hi.fresh j
      · exact hi.fresh j

theorem Inv.compareAndDelete (hi : Inv s) {i : Nat} (hp : (s.call i).phase = .closed e) :
    Inv { s.set i { s.call i with phase := .finished e } with
      listenQueues := if s.listenQueues = some i then none else s.listenQueues } := by
  have hd : (s.call i).done = true := (hi.call i).stopped (.inr (by rw [hp]; rfl))
  have hi' : Inv (s.set i { s.call i with phase := .finished e }) :=
    hi.set ((hi.call i).deferDelete hp) (by rw [hp]; rfl) rfl id fun tok h => (hi.held i tok h).2
  refine ⟨hi'.call, fun j hb ho => ?_, fun j h => hi'.stored j ?_, fun q tok h => ?_, hi'.fresh⟩
  · have hj : s.listenQueues = some j := hi'.current j hb ho
    show (if s.listenQueues = some i then none else s.listenQueues) = some j
    split
    · rename_i hq
      rw [hj] at hq
      cases hq
      change ((s.set i _).call i).done = false at ho
      rw [set_call, if_pos rfl] at ho
      rw [show (s.call i).done = false from ho] at hd
      cases hd
    · exact hj
  · change (if s.listenQueues = some i then none else s.listenQueues) = some j at h
    split at h
    · cases h
    · exact h
  · obtain ⟨hq, ho⟩ := hi'.held q tok h
    refine ⟨?_, ho⟩
    show (if s.listenQueues = some i then none else s.listenQueues) = some q
    have hne : q ≠ i := by
      rintro rfl
      rw [(hi.held q tok h).2] at hd
      cases hd
    rw [if_neg]
    · exact hq
    · intro h'
      rw [show s.listenQueues = some q from hq] at h'
      exact hne (Option.some.inj h')

variable {q : Nat}

theorem loadQueue_ok (h : s.loadQueue = .ok q) : s.listenQueues = some q ∧ (s.call q).done = false := by
  simp only [St.loadQueue] at h
  split at h
  · cases h
  · split at h
    · cases h
    · cases h
      rename_i hd
      exact ⟨‹_›, by simpa using hd⟩

variable {s' : St Tok} {tok : Tok}

theorem sendTo_ok (h : s.sendTo q tok = .ok s') :
    s' = s.set q { s.call q with
      ch := (s.call q).ch ++ [tok], accepted := (s.call q).accepted ++ [tok] } := by
  simp only [St.sendTo] at h
  split at h
  · cases h; rfl
  · cases h

variable {a : Act Tok}

theorem Inv.step (hi : Inv s) (h : step s a = some s') : Inv s' := by
  cases a <;> simp only [Listen.step] at h
  case start i =>
    split at h
    · cases h
      exact hi.swapListenQueue ‹_› i
    · cases h
  case loop i l =>
    obtain ⟨c, hc, rfl⟩ := Option.map_eq_some_iff.mp h
    obtain ⟨hd, -, hb, hn⟩ := Call.loop_keep hc
    refine hi.set ((hi.call i).loop hc) hb hn (fun h => hd ▸ h) fun tok hm => ?_
    rw [hd]
    exact (hi.held i tok hm).2
  case closeDone i =>
    split at h
    · rename_i e hm hp
      cases h
      exact hi.set ((hi.call i).deferClose hp) (by rw [hp]; rfl) rfl (fun h => nomatch h) (by simp [hm])
    · cases h
  case compareAndDelete i =>
    split at h
    · cases h
      exact hi.compareAndDelete ‹_›
    · cases h
  case check tok =>
    split at h
    · cases h
    · split at h
      · rename_i q hq
        cases h
        refine { hi with held := fun q' tok' h => ?_ }
        cases h
        exact loadQueue_ok hq
      · cases h
        exact hi
  case send =>
    split at h
    · cases h
    · rename_i q tok hm
      obtain ⟨hq, hd⟩ := hi.held q tok hm
      have hb := hi.stored q hq
      split at h
      · rename_i t ht
        cases h
        rw [sendTo_ok ht]
        exact (hi.set ((hi.call q).accept hd tok) hb hb id fun _ _ => hd).unlock
      · cases h
        exact hi.unlock

theorem inductive_inv : (sys Tok).InductiveIf (fun _ _ => True) Inv where
  init s hs := by rw [hs]; exact Inv.start
  step _ _ _ hi _ hst := hi.step hst

/-! ## Delivery -/

/-- `sendToListener` accepts `tok` into the queue of call `i` in the step from `s` to `s'`. -/
def Accepts (s s' : St Tok) (i : Nat) (tok : Tok) : Prop :=
  (s'.call i).accepted = (s.call i).accepted ++ [tok]

/-- Nothing was accepted into the queue of a call that has not begun. -/
def Fresh (s : St Tok) : Prop := ∀ i, (s.call i).phase.isNew = true → (s.call i).accepted = []

theorem step_accepted (hf : Fresh s) (ha : a ≠ .send) (h : Listen.step s a = some s') (i : Nat) :
    (s'.call i).accepted = (s.call i).accepted ∧
      ((s'.call i).phase.isNew = true → (s.call i).phase.isNew = true) := by
  -- The steps that replace a call by one with the same history.
  have hset : ∀ (j : Nat) (c : Call Tok), c.accepted = (s.call j).accepted →
      c.phase.isNew = false → ((s.set j c).call i).accepted = (s.call i).accepted ∧
        (((s.set j c).call i).phase.isNew = true → (s.call i).phase.isNew = true) := by
    intro j c hc hn
    rw [set_call]
    split
    · rename_i e
      exact ⟨by rw [hc, e], by simp [hn]⟩
    · exact ⟨rfl, id⟩
  cases a with
  | start j =>
    simp only [Listen.step] at h
    split at h
    · rename_i hp
      cases h
      rw [swapListenQueue_call]
      split
      · rename_i e
        subst e
        exact ⟨(hf i (by rw [hp]; rfl)).symm, fun hn => nomatch hn⟩
      · split
        · exact ⟨rfl, id⟩
        · exact ⟨rfl, id⟩
    · cases h
  | loop j l =>
    obtain ⟨c, hc, rfl⟩ := Option.map_eq_some_iff.mp h
    obtain ⟨-, hacc, -, hn⟩ := Call.loop_keep hc
    exact hset j c hacc hn
  | closeDone j =>
    simp only [Listen.step] at h
    split at h
    · cases h
      exact hset j _ rfl rfl
    · cases h
  | compareAndDelete j =>
    simp only [Listen.step] at h
    split at h
    · cases h
      exact hset j _ rfl rfl
    · cases h
  | check tok =>
    simp only [Listen.step] at h
    split at h
    · cases h
    · split at h <;> cases h <;> exact ⟨rfl, id⟩
  | send => exact absurd rfl ha

theorem Fresh.step (hf : Fresh s) (ha : a ≠ .send) (h : Listen.step s a = some s') : Fresh s' := by
  intro i hn
  obtain ⟨hacc, hnew⟩ := step_accepted hf ha h i
  rw [hacc]
  exact hf i (hnew hn)

theorem sendTo_accepted (h : s.sendTo q tok = .ok s') (i : Nat) :
    (s'.call i).accepted =
      if i = q then (s.call i).accepted ++ [tok] else (s.call i).accepted := by
  rw [sendTo_ok h, set_call]
  split
  · rename_i e
    rw [e]
  · rfl

theorem sendTo_listenQueues (h : s.sendTo q tok = .ok s') : s'.listenQueues = s.listenQueues := by
  rw [sendTo_ok h]
  rfl

theorem step_listenQueues (ha : a ≠ .send) (h : Listen.step s a = some s') (hq : s'.listenQueues = some q) :
    (a = .start q ∧ (s'.call q).phase.isNew = false) ∨ s.listenQueues = some q := by
  cases a with
  | start i =>
    simp only [Listen.step] at h
    split at h
    · cases h
      cases hq
      refine .inl ⟨rfl, ?_⟩
      rw [swapListenQueue_call, if_pos rfl]
      rfl
    · cases h
  | loop i l =>
    obtain ⟨c, -, rfl⟩ := Option.map_eq_some_iff.mp h
    exact .inr hq
  | closeDone i =>
    simp only [Listen.step] at h
    split at h
    · cases h
      exact .inr hq
    · cases h
  | compareAndDelete i =>
    simp only [Listen.step] at h
    split at h
    · cases h
      change (if s.listenQueues = some i then none else s.listenQueues) = some q at hq
      split at hq
      · cases hq
      · exact .inr hq
    · cases h
  | check tok =>
    simp only [Listen.step] at h
    split at h
    · cases h
    · split at h <;> cases h <;> exact .inr hq
  | send => exact absurd rfl ha

theorem Fresh.sendTo (hf : Fresh s) (hq : (s.call q).phase.isNew = false) (h : s.sendTo q tok = .ok s') :
    Fresh s' := by
  intro i hn
  rw [sendTo_ok h, set_call] at hn ⊢
  split at hn
  · rw [hq] at hn
    cases hn
  · rename_i hne
    rw [if_neg hne]
    exact hf i hn

theorem Inv.accepted_step (hi : Inv s) (h : Listen.step s a = some s') (i : Nat) :
    (s'.call i).accepted = (s.call i).accepted ∨
      ∃ tok, s.mu = some (i, tok) ∧ Accepts s s' i tok ∧ s.listenQueues = some i ∧ (s.call i).done = false := by
  by_cases ha : a = .send
  · subst ha
    simp only [Listen.step] at h
    split at h
    · cases h
    · rename_i q tok hm
      split at h
      · rename_i t ht
        cases h
        have hacc := sendTo_accepted ht i
        split at hacc
        · rename_i e
          subst e
          exact .inr ⟨tok, hm, hacc, hi.held i tok hm⟩
        · exact .inl hacc
      · cases h
        exact .inl rfl
  · exact .inl (step_accepted hi.fresh ha h i).1

/-- **Delivery**, in every reachable state `s`:

- `sendToListener` accepts a token only into a queue that is open and in `listenQueues`, and nothing
  else changes what was accepted;
- at most one queue is open;
- the tokens sent on a stream are a prefix of those accepted into the queue of its call: each is
  sent at most once, on that stream only, in the order of acceptance;
- a call that left through the superseded branch without a `Send` error sent all of them. -/
theorem delivery {s : St Tok} (hs : (sys Tok).Reach s) :
    (∀ a s', (sys Tok).step s a = some s' → ∀ i, (s'.call i).accepted = (s.call i).accepted ∨
      ∃ tok, Accepts s s' i tok ∧ s.listenQueues = some i ∧ (s.call i).done = false) ∧
    (∀ i j, (s.call i).phase.isNew = false → (s.call j).phase.isNew = false →
      (s.call i).done = false → (s.call j).done = false → i = j) ∧
    (∀ i, (s.call i).sent <+: (s.call i).accepted) ∧
    (∀ i, (s.call i).phase.drained = true → (s.call i).sent = (s.call i).accepted) := by
  have hi := inductive_inv.reach hs
  refine ⟨fun a s' h i => ?_, fun i j hbi hbj hdi hdj => ?_, fun i => ?_, fun i hd => ?_⟩
  · rcases hi.accepted_step h i with h | ⟨tok, -, h⟩
    · exact .inl h
    · exact .inr ⟨tok, h⟩
  · have hqi := hi.current i hbi hdi
    rw [hi.current j hbj hdj] at hqi
    exact (Option.some.inj hqi).symm
  · rw [(hi.call i).flow, List.append_assoc]
    exact List.prefix_append _ _
  · have hflow := (hi.call i).flow
    have hin : (s.call i).phase.inHand = [] := by
      cases hp : (s.call i).phase with
      | exit e | closed e | finished e =>
        rw [hp] at hd
        cases e <;> first | rfl | cases hd
      | _ => rw [hp] at hd; cases hd
    rw [(hi.call i).emptied hd, hin] at hflow
    simpa using hflow.symm

/-- Call 0 accepts two tokens, sends the first, is superseded by call 1 and drains the second. -/
def handoverRun : List (Act Nat) :=
  [.start 0, .check 7, .send, .check 8, .send, .loop 0 .recv, .loop 0 .sendOk, .start 1, .check 9,
    .send, .loop 0 .superseded, .loop 0 .recv, .loop 0 .sendOk, .loop 0 .drained, .closeDone 0,
    .compareAndDelete 0]

theorem delivery_handover : ∃ s : St Nat, (sys Nat).Reach s ∧
    (s.call 0).phase.drained = true ∧ (s.call 0).accepted = [7, 8] ∧ (s.call 1).accepted = [9] ∧
    (s.call 0).sent = (s.call 0).accepted := by
  have h0 : (sys Nat).Reach Listen.start := .init rfl
  have hr := h0.exec handoverRun rfl
  exact ⟨_, hr, rfl, rfl, rfl, (delivery hr).2.2.2 0 rfl⟩

end Jumpstarter.Listen
