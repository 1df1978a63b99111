import Jumpstarter.Lib.Sys
import Jumpstarter.Lib.Threads

/-!
# Watching captured requests

`watch_captured_requests`, `clear_captured_requests` and the append of `_capture_read_loop` of the mitmproxy
driver (`driver.py`), with any number of streams. A stream takes the capture lock, yields what it has not
counted yet while it holds the lock, and keeps the length of the list as its place in it. The list can be
emptied between two polls.

A request is the number of its arrival. Each stream has a ghost (`owed`): what was stored when it started, and
then at each poll what is stored and was not stored at an earlier one.

* `lockOk_reach`: the lock is held by the stream that is suspended at a yield.
* `watch_complete`: a stream yields what it owes, if the list is not cleared while an open stream has a place in
  it; the lock is free at the yields only if nothing is yielded.
-/

namespace Jumpstarter.MitmWatch

open Lib List

/-! ## The driver -/

inductive Phase where
  | sleeping
  /-- At a yield; `rest` is still to be yielded, and `newCount` is the place afterwards. -/
  | yielding (rest : List Nat) (newCount : Nat)
  | closed
  deriving DecidableEq

def Phase.pending : Phase → List Nat
  | .yielding rest _ => rest
  | _ => []

@[simp] def Phase.isYielding : Phase → Bool
  | .yielding .. => true
  | _ => false

structure Stream where
  lastIndex : Nat
  phase : Phase
  yielded : List Nat := []
  /-- A ghost: the requests that the stream is to yield. -/
  owed : List Nat := []
  deriving DecidableEq

structure St where
  captured : List Nat := []
  next : Nat := 0
  lock : Option Nat := none
  streams : List Stream := []

/-- The stream that has the lock yields the first request, or releases the lock if there is none. -/
def Stream.yieldNext (st : Stream) (newCount : Nat) : List Nat → Stream
  | [] => { st with lastIndex := newCount, phase := .sleeping }
  | r :: rest => { st with yielded := st.yielded ++ [r], phase := .yielding rest newCount }

def lockAfter (i : Nat) : List Nat → Option Nat
  | [] => none
  | _ :: _ => some i

def Stream.look (st : Stream) (captured : List Nat) : Stream :=
  { st with owed := st.owed ++ captured.filter fun r => decide (r ∉ st.owed) }

inductive Act where
  /-- `_capture_read_loop` stores a request. -/
  | arrive
  | clear
  | watch
  | poll (i : Nat)
  | resume (i : Nat)
  | close (i : Nat)

def step (s : St) : Act → Option St
  | .arrive =>
    if s.lock = none then some { s with captured := s.captured ++ [s.next], next := s.next + 1 } else none
  | .clear => if s.lock = none then some { s with captured := [] } else none
  | .watch =>
    if s.lock = none then
      let st : Stream := { lastIndex := s.captured.length, phase := .sleeping }
      some { s with
        lock := lockAfter s.streams.length s.captured
        streams := s.streams ++ [(st.look s.captured).yieldNext s.captured.length s.captured] }
    else none
  | .poll i => match s.streams[i]? with
    | some st =>
      if st.phase = .sleeping ∧ s.lock = none then
        if st.lastIndex < s.captured.length then
          let fresh := s.captured.drop st.lastIndex
          some { s with
            lock := lockAfter i fresh
            streams := s.streams.set i ((st.look s.captured).yieldNext s.captured.length fresh) }
        else some { s with streams := s.streams.set i (st.look s.captured) }
      else none
    | none => none
  | .resume i => match s.streams[i]? with
    | some st => match st.phase with
      | .yielding rest newCount =>
        some { s with lock := lockAfter i rest, streams := s.streams.set i (st.yieldNext newCount rest) }
      | _ => none
    | none => none
  | .close i => match s.streams[i]? with
    | some st =>
      if st.phase = .closed then none
      else some { s with
        lock := if st.phase.isYielding then none else s.lock
        streams := s.streams.set i { st with phase := .closed } }
    | none => none

def sys : Sys St Act := ⟨fun s => s = {}, step⟩

/-- Each open stream has yielded, or is about to yield, what it owes, in the order of arrival and without
repetition. -/
def Complete (s : St) : Prop :=
  ∀ st ∈ s.streams, st.phase ≠ .closed → st.yielded ++ st.phase.pending = st.owed ∧ st.owed.Pairwise (· < ·)

/-- The list is cleared only while no open stream has a place in it. -/
def clearsUnwatched (s : St) : Act → Bool
  | .clear => s.streams.all fun st => decide (st.phase = .closed ∨ st.lastIndex = 0)
  | _ => true

/-- Besides, nothing is found to be yielded. -/
def findsNothing (s : St) : Act → Bool
  | .watch => s.captured.isEmpty
  | .poll i => s.streams[i]?.all fun st => decide (s.captured.length ≤ st.lastIndex)
  | a => clearsUnwatched s a

/-! ## The lock -/

variable {s s' : St} {a : Act}

/-- The lock is held exactly by the stream that is at a yield. -/
def LockOk (s : St) : Prop :=
  ∀ i, s.lock = some i ↔ ∃ st, s.streams[i]? = some st ∧ st.phase.isYielding = true

theorem isYielding_yieldNext (st : Stream) (newCount i : Nat) (rest : List Nat) :
    lockAfter i rest = some i ↔ (st.yieldNext newCount rest).phase.isYielding = true := by
  cases rest <;> simp [Stream.yieldNext, lockAfter]

theorem lockAfter_ne {i j : Nat} (h : j ≠ i) (rest : List Nat) : lockAfter i rest ≠ some j := by
  cases rest with
  | nil => exact fun he => by cases he
  | cons r rest => exact fun he => h (Option.some.inj he).symm

variable {st : Stream}

theorem LockOk.not_yielding (h : LockOk s) (hlock : s.lock = none) (hst : st ∈ s.streams) :
    st.phase.isYielding = false := by
  by_contra hyield
  obtain ⟨i, hi⟩ := mem_iff_getElem?.mp hst
  have hheld := (h i).mpr ⟨st, hi, by simpa using hyield⟩
  rw [hlock] at hheld
  cases hheld

theorem LockOk.set (h : LockOk s) {i : Nat} {st' : Stream} {lock : Option Nat}
    (hst : s.streams[i]? = some st) (hown : lock = some i ↔ st'.phase.isYielding = true)
    (hothers : ∀ j, j ≠ i → (lock = some j ↔ s.lock = some j)) (captured : List Nat) (next : Nat) :
    LockOk ⟨captured, next, lock, s.streams.set i st'⟩ := by
  intro j
  by_cases hj : j = i
  · subst hj
    rw [getElem?_set_of hst]
    simpa using hown
  · rw [getElem?_set_ne (Ne.symm hj)]
    exact (hothers j hj).trans (h j)

theorem lockOk_step (h : LockOk s) (hst : step s a = some s') : LockOk s' := by
  cases a <;> simp only [step] at hst
  case arrive =>
    split at hst <;> cases hst
    exact h
  case clear =>
    split at hst <;> cases hst
    exact h
  case watch =>
    split at hst <;> cases hst
    rename_i hlock
    intro j
    by_cases hj : j = s.streams.length
    · subst hj
      simpa using isYielding_yieldNext _ _ _ _
    · have hnone := lockAfter_ne hj s.captured
      simp only [hnone, false_iff]
      rintro ⟨st, hget, hyield⟩
      rcases Nat.lt_or_gt_of_ne hj with hlt | hgt
      · rw [getElem?_append_left hlt] at hget
        rw [h.not_yielding hlock (mem_of_getElem? hget)] at hyield
        cases hyield
      · rw [getElem?_eq_none (by simp; omega)] at hget
        cases hget
  case poll i =>
    split at hst
    · rename_i st hget
      split at hst
      · rename_i hidle
        split at hst <;> cases hst
        · refine h.set hget (isYielding_yieldNext ..) (fun j hj => ?_) _ _
          simp [hidle.2, lockAfter_ne hj]
        · refine h.set hget ?_ (fun _ _ => Iff.rfl) _ _
          simp [hidle.2, Stream.look, hidle.1]
      · cases hst
    · cases hst
  case resume i =>
    split at hst
    · rename_i st hget
      split at hst <;> cases hst
      rename_i hphase
      have hheld : s.lock = some i := (h i).mpr ⟨st, hget, by rw [hphase]; rfl⟩
      refine h.set hget (isYielding_yieldNext ..) (fun j hj => ?_) _ _
      simp [hheld, lockAfter_ne hj, Ne.symm hj]
    · cases hst
  case close i =>
    split at hst
    · rename_i st hget
      split at hst <;> cases hst
      cases hyield : st.phase.isYielding with
      | true =>
        have hheld : s.lock = some i := (h i).mpr ⟨st, hget, hyield⟩
        refine h.set hget (by simp) (fun j hj => ?_) _ _
        simp [hheld, Ne.symm hj]
      | false =>
        have hfree : s.lock ≠ some i := by
          intro hheld
          obtain ⟨st', hget', hyield'⟩ := (h i).mp hheld
          rw [hget] at hget'
          cases hget'
          rw [hyield] at hyield'
          cases hyield'
        refine h.set hget ?_ (fun _ _ => Iff.rfl) _ _
        simp [hfree]
    · cases hst

theorem lockOk_reach {ok : St → Act → Prop} (h : sys.ReachIf ok s) : LockOk s := by
  have hind : sys.InductiveIf ok LockOk := by
    refine ⟨?_, fun _ _ _ hi _ hst => lockOk_step hi hst⟩
    rintro _ rfl i
    simp
  exact hind.reach h

/-! ## What the streams yield -/

/-- A stream whose place is in the list owes what is before its place, and has yielded it but for the rest. -/
def StreamOk (captured : List Nat) (st : Stream) : Prop :=
  match st.phase with
  | .sleeping => st.lastIndex ≤ captured.length ∧ st.owed = captured.take st.lastIndex ∧ st.yielded = st.owed
  | .yielding rest newCount =>
    newCount ≤ captured.length ∧ st.owed = captured.take newCount ∧ st.yielded ++ rest = st.owed
  | .closed => True

structure Inv (s : St) : Prop where
  sorted : s.captured.Pairwise (· < ·)
  below : ∀ r ∈ s.captured, r < s.next
  streams : ∀ st ∈ s.streams, StreamOk s.captured st

variable {captured : List Nat}

theorem streamOk_yieldNext {todo : List Nat} (howed : st.owed = captured)
    (htodo : st.yielded ++ todo = captured) : StreamOk captured (st.yieldNext captured.length todo) := by
  have htake : captured.take captured.length = captured := take_length
  cases todo with
  | nil =>
    rw [append_nil] at htodo
    exact ⟨Nat.le_refl _, howed.trans htake.symm, htodo.trans howed.symm⟩
  | cons r rest =>
    refine ⟨Nat.le_refl _, howed.trans htake.symm, ?_⟩
    simp only [Stream.yieldNext, append_assoc, singleton_append]
    exact htodo.trans howed.symm

theorem take_append_filter {l : List Nat} (hl : l.Nodup) (n : Nat) :
    l.take n ++ l.filter (fun r => decide (r ∉ l.take n)) = l := by
  have hdisjoint : List.Disjoint (l.take n) (l.drop n) :=
    disjoint_take_drop hl (Nat.le_refl n)
  have hsplit : l.filter (fun r => decide (r ∉ l.take n)) =
      (l.take n ++ l.drop n).filter fun r => decide (r ∉ l.take n) := by rw [take_append_drop]
  have hbefore : (l.take n).filter (fun r => decide (r ∉ l.take n)) = [] := by
    simp
  have hafter : (l.drop n).filter (fun r => decide (r ∉ l.take n)) = l.drop n := by
    rw [filter_eq_self]
    exact fun r hr => decide_eq_true fun hin => hdisjoint hin hr
  rw [hsplit, filter_append, hbefore, hafter, nil_append, take_append_drop]

theorem owed_look (hsorted : captured.Pairwise (· < ·)) {n : Nat} (howed : st.owed = captured.take n) :
    (st.look captured).owed = captured := by
  have hnodup : captured.Nodup := hsorted.imp fun hlt => Nat.ne_of_lt hlt
  simp only [Stream.look, howed]
  exact take_append_filter hnodup n

theorem streamOk_concat (h : StreamOk captured st) (r : Nat) : StreamOk (captured ++ [r]) st := by
  unfold StreamOk at *
  cases hphase : st.phase with
  | sleeping =>
    simp only [hphase] at h
    refine ⟨by rw [length_append]; omega, ?_, h.2.2⟩
    rw [take_append_of_le_length h.1]
    exact h.2.1
  | yielding rest newCount =>
    simp only [hphase] at h
    refine ⟨by rw [length_append]; omega, ?_, h.2.2⟩
    rw [take_append_of_le_length h.1]
    exact h.2.1
  | closed => trivial

theorem inv_step (h : Inv s) (hlock : LockOk s) (hm : clearsUnwatched s a = true) (hst : step s a = some s') :
    Inv s' := by
  cases a <;> simp only [step] at hst
  case arrive =>
    split at hst <;> cases hst
    refine ⟨?_, ?_, fun st hmem => streamOk_concat (h.streams st hmem) _⟩
    · rw [pairwise_append]
      exact ⟨h.sorted, pairwise_singleton _ _, fun r hr r' hr' => by
        rw [mem_singleton.mp hr']; exact h.below r hr⟩
    · refine forall_mem_concat (fun r hr => ?_) (Nat.lt_succ_self _)
      exact Nat.lt_succ_of_lt (h.below r hr)
  case clear =>
    split at hst <;> cases hst
    rename_i hfree
    refine ⟨List.Pairwise.nil, fun _ hr => absurd hr not_mem_nil, fun st hmem => ?_⟩
    have hidle := hlock.not_yielding hfree hmem
    have hplace := of_decide_eq_true (all_eq_true.mp hm st hmem)
    have hst := h.streams st hmem
    unfold StreamOk at *
    cases hphase : st.phase with
    | sleeping =>
      simp only [hphase, reduceCtorEq, false_or] at hst hplace
      refine ⟨by simp [hplace], ?_, hst.2.2⟩
      rw [hst.2.1, hplace]
      rfl
    | yielding rest newCount =>
      rw [hphase] at hidle
      cases hidle
    | closed => trivial
  case watch =>
    split at hst <;> cases hst
    refine ⟨h.sorted, h.below, forall_mem_concat h.streams (streamOk_yieldNext ?_ rfl)⟩
    exact owed_look (n := 0) h.sorted rfl
  case poll i =>
    split at hst
    · rename_i st hget
      have hstream := h.streams st (mem_of_getElem? hget)
      split at hst
      · rename_i hidle
        simp only [StreamOk, hidle.1] at hstream
        obtain ⟨hle, howed, hyielded⟩ := hstream
        have hlook := owed_look h.sorted howed
        split at hst <;> cases hst
        · refine ⟨h.sorted, h.below, forall_mem_set h.streams (streamOk_yieldNext hlook ?_)⟩
          show st.yielded ++ s.captured.drop st.lastIndex = s.captured
          rw [hyielded, howed, take_append_drop]
        · refine ⟨h.sorted, h.below, forall_mem_set h.streams ?_⟩
          have hall : s.captured.take st.lastIndex = s.captured := take_of_length_le (by omega)
          have hphase : (st.look s.captured).phase = .sleeping := hidle.1
          simp only [StreamOk, hphase]
          refine ⟨hle, hlook.trans hall.symm, ?_⟩
          exact (hyielded.trans (howed.trans hall)).trans hlook.symm
      · cases hst
    · cases hst
  case resume i =>
    split at hst
    · rename_i st hget
      have hstream := h.streams st (mem_of_getElem? hget)
      split at hst <;> cases hst
      rename_i rest newCount hphase
      simp only [StreamOk, hphase] at hstream
      obtain ⟨hle, howed, hyielded⟩ := hstream
      refine ⟨h.sorted, h.below, forall_mem_set h.streams ?_⟩
      cases rest with
      | nil => exact ⟨hle, howed, by rwa [append_nil] at hyielded⟩
      | cons r rest =>
        refine ⟨hle, howed, ?_⟩
        simp only [Stream.yieldNext, append_assoc, singleton_append]
        exact hyielded
    · cases hst
  case close i =>
    split at hst
    · split at hst <;> cases hst
      exact ⟨h.sorted, h.below, forall_mem_set h.streams trivial⟩
    · cases hst

theorem inv_reach (h : sys.ReachIf (fun s a => clearsUnwatched s a = true) s) : Inv s := by
  induction h with
  | init hinit =>
    cases hinit
    exact ⟨List.Pairwise.nil, fun _ hr => absurd hr not_mem_nil, fun _ hst => absurd hst not_mem_nil⟩
  | step hreach hm hst ih => exact inv_step ih (lockOk_reach hreach) hm hst

theorem Inv.complete (h : Inv s) : Complete s := by
  intro st hmem hopen
  have hst := h.streams st hmem
  unfold StreamOk at hst
  cases hphase : st.phase with
  | sleeping =>
    simp only [hphase] at hst
    refine ⟨(append_nil _).trans hst.2.2, ?_⟩
    rw [hst.2.1]
    exact h.sorted.sublist (take_sublist ..)
  | yielding rest newCount =>
    simp only [hphase] at hst
    refine ⟨hst.2.2, ?_⟩
    rw [hst.2.1]
    exact h.sorted.sublist (take_sublist ..)
  | closed => exact absurd hphase hopen

theorem lock_step (hlock : LockOk s) (hfree : s.lock = none) (hm : findsNothing s a = true)
    (hst : step s a = some s') : s'.lock = none := by
  cases a with
  | arrive =>
    simp only [step, if_pos hfree] at hst
    cases hst
    exact hfree
  | clear =>
    simp only [step, if_pos hfree] at hst
    cases hst
    exact hfree
  | watch =>
    simp only [step, if_pos hfree] at hst
    cases hst
    dsimp only
    rw [List.isEmpty_iff.mp hm]
    rfl
  | poll i =>
    simp only [step] at hst
    split at hst
    · rename_i st hget
      simp only [findsNothing, hget, Option.all_some, decide_eq_true_eq] at hm
      split at hst
      · rw [if_neg (Nat.not_lt.mpr hm)] at hst
        cases hst
        exact hfree
      · cases hst
    · cases hst
  | resume i =>
    simp only [step] at hst
    split at hst
    · rename_i st hget
      have hidle := hlock.not_yielding hfree (mem_of_getElem? hget)
      split at hst <;> cases hst
      rename_i hphase
      rw [hphase] at hidle
      cases hidle
    · cases hst
  | close i =>
    simp only [step] at hst
    split at hst
    · split at hst <;> cases hst
      dsimp only
      split
      · rfl
      · exact hfree
    · cases hst

theorem findsNothing_clears (h : findsNothing s a = true) : clearsUnwatched s a = true := by
  cases a with
  | clear => exact h
  | _ => rfl

theorem lock_reach (h : sys.ReachIf (fun s a => findsNothing s a = true) s) : s.lock = none := by
  induction h with
  | init hinit =>
    cases hinit
    rfl
  | step hreach hm hst ih => exact lock_step (lockOk_reach hreach) ih hm hst

/-- **What a capture watcher misses.** If the list is cleared only while no open stream has a place in it, each
open stream yields what was stored when it started and then what is stored at its polls, once and in the order
of arrival. In every run the lock is held exactly by a stream that is at a yield. So the lock is free at the
yields, too, in the runs in which no stream finds anything. -/
theorem watch_complete (s : St) :
    (sys.ReachIf (fun s a => clearsUnwatched s a = true) s → Complete s) ∧
    (sys.Reach s → LockOk s) ∧
    (sys.ReachIf (fun s a => findsNothing s a = true) s → Complete s ∧ s.lock = none) :=
  ⟨fun h => (inv_reach h).complete, fun h => lockOk_reach h,
    fun h => ⟨(inv_reach (h.mono fun _ _ => findsNothing_clears)).complete, lock_reach h⟩⟩

/-- Two requests, a stream from before the second one, and a poll. -/
theorem watch_complete_sample : ∃ s, sys.ReachIf (fun s a => clearsUnwatched s a = true) s ∧
    s.streams.map Stream.yielded = [[0, 1]] ∧ Complete s ∧ LockOk s ∧
    ∃ t, sys.ReachIf (fun s a => findsNothing s a = true) t ∧ t.streams ≠ [] ∧ Complete t ∧ t.lock = none := by
  have hinit : sys.ReachIf (fun s a => clearsUnwatched s a = true) {} := .init rfl
  obtain ⟨s, hreach, hs⟩ := hinit.execIf_any [.arrive, .watch, .resume 0, .arrive, .poll 0, .resume 0]
    (p := fun s => decide (s.streams.map Stream.yielded = [[0, 1]])) (by decide +kernel)
  have hinit' : sys.ReachIf (fun s a => findsNothing s a = true) {} := .init rfl
  obtain ⟨t, hreach', ht⟩ := hinit'.execIf_any [.watch, .arrive, .clear, .poll 0]
    (p := fun s => !s.streams.isEmpty) (by decide +kernel)
  have hreach'' : sys.Reach s := hreach.mono fun _ _ _ => trivial
  refine ⟨s, hreach, of_decide_eq_true hs, (watch_complete s).1 hreach, (watch_complete s).2.1 hreach'', t,
    hreach', ?_, (watch_complete t).2.2 hreach'⟩
  simpa using ht

/-- After a clear a stream misses the next request, which is stored at its poll; and a stream holds the lock
while it is suspended at its first yield. -/
theorem watch_not_complete :
    (∃ s, sys.Reach s ∧ ¬Complete s) ∧ ∃ s, sys.Reach s ∧ s.lock = some 0 := by
  have hinit : sys.Reach {} := .init rfl
  refine ⟨?_, ?_⟩
  · obtain ⟨s, hreach, hs⟩ := hinit.exec_any [.arrive, .watch, .resume 0, .clear, .arrive, .poll 0]
      (p := fun s => decide (s.streams = [⟨1, .sleeping, [0], [0, 1]⟩])) (by decide +kernel)
    have hs : s.streams = [⟨1, .sleeping, [0], [0, 1]⟩] := of_decide_eq_true hs
    refine ⟨s, hreach, fun h => ?_⟩
    have hst := (h ⟨1, .sleeping, [0], [0, 1]⟩ (by rw [hs]; exact mem_singleton_self _) (by decide)).1
    exact absurd hst (by decide)
  · obtain ⟨s, hreach, hs⟩ := hinit.exec_any [.arrive, .watch] (p := fun s => decide (s.lock = some 0))
      (by decide +kernel)
    exact ⟨s, hreach, of_decide_eq_true hs⟩

end Jumpstarter.MitmWatch
