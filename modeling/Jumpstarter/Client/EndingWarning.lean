import Mathlib.Data.List.Basic

/-!
# The warning before a lease ends (`Lease.monitor_async`)

A client polls its lease at least every 30 seconds. The ending callback is to be called once when the time
that remains falls below a threshold, and once with no time left when the lease has ended.

- `warnsOnce_iff`: for a lease whose end stays fixed the callback is called so (`WarnsOnce`) exactly if a poll
  succeeds in the 30 seconds after the threshold is crossed and before the end, and none does at the very end
  while the threshold is not above 30 seconds.
- `warnsOnce_fails`: a slow or a failed call jumps over these 30 seconds.
- Successive polls are apart by what the monitor sleeps, so at most one of them falls into the window
  (`Closed`, `iterate_ok`).

Times are in microseconds, on a clock that does not go back. A sleep lasts at least as long as asked for, and
a call takes any time.
-/

namespace Jumpstarter.EndingWarning

open List

def second : Int := 1000000

def checkInterval : Int := 30 * second

/-- The fields of a lease that its end is read from. -/
structure Lease where
  effectiveBeginTime : Option Int := none
  effectiveEndTime : Option Int := none
  duration : Int := 0

def getLeaseEndTime (lease : Lease) : Option Int :=
  lease.effectiveEndTime <|>
    (if lease.duration = 0 then none else lease.effectiveBeginTime.map (· + lease.duration))

/-- A poll: the result of `get` (`none`: it raised), and the time at which it was there. -/
structure Poll where
  result : Option Lease
  now : Int

/-- The monitor. The next result is not there before `wake`; `calls` are those of the callback. -/
structure Monitor where
  lastKnownEndTime : Option Int := none
  wake : Int
  calls : List Int := []
  leaseEnded : Bool := false
  stopped : Bool := false

/-- `_notify_lease_ending`. -/
def Monitor.notify (m : Monitor) (remaining : Int) : Monitor :=
  { m with leaseEnded := m.leaseEnded || remaining ≤ 0, calls := m.calls ++ [remaining] }

/-- The lease has ended, and the loop is left. -/
def Monitor.stop (m : Monitor) : Monitor := { m.notify 0 with stopped := true }

/-- The window in which the callback is called. -/
def InWindow (threshold remain : Int) : Prop := threshold - checkInterval ≤ remain ∧ remain < threshold

instance (threshold remain : Int) : Decidable (InWindow threshold remain) :=
  inferInstanceAs (Decidable (_ ∧ _))

def onError (m : Monitor) (now : Int) : Monitor :=
  match m.lastKnownEndTime with
  | some endTime =>
    if endTime - now ≤ 0 then m.stop
    else { m with wake := now + min checkInterval (endTime - now) }
  | none => { m with wake := now + checkInterval }

def onEndTime (threshold : Int) (m : Monitor) (endTime now : Int) : Monitor :=
  let m := { m with lastKnownEndTime := some endTime }
  let remain := endTime - now
  if remain < 0 then m.stop
  else
    let m := if InWindow threshold remain then m.notify remain else m
    { m with wake := now + min remain checkInterval }

/-- One iteration of the loop, which is possible when the monitor is awake. -/
def iterate (threshold : Int) (m : Monitor) (p : Poll) : Option Monitor :=
  if m.stopped || p.now < m.wake then none
  else
    match p.result with
    | none => some (onError m p.now)
    | some lease =>
      match getLeaseEndTime lease with
      | none => some { m with wake := p.now + second }
      | some endTime => some (onEndTime threshold m endTime p.now)

def run (threshold : Int) (m : Monitor) : List Poll → Option Monitor
  | [] => some m
  | p :: polls => (iterate threshold m p).bind fun m' => run threshold m' polls

/-! ## What the claim says -/

/-- The end that a poll reads, and the time that remains until then. -/
@[simp] def Poll.endTime (p : Poll) : Option Int := p.result.bind getLeaseEndTime

def Poll.remain (p : Poll) : Option Int := p.endTime.map (· - p.now)

/-- The lease ends at `endTime`, which the monitor sees first above the threshold and later below it. -/
structure Watched (threshold endTime : Int) (polls : List Poll) : Prop where
  fixed : ∀ p ∈ polls, ∀ e, p.endTime = some e → e = endTime
  above : ∃ r, polls.findSome? Poll.remain = some r ∧ threshold < r
  below : ∃ p ∈ polls, ∃ r, p.remain = some r ∧ 0 ≤ r ∧ r ≤ threshold

/-- The callback was called once with time left, and, when the lease has ended, once with none. -/
structure WarnsOnce (m : Monitor) : Prop where
  before : m.calls.countP (0 < ·) = 1
  atEnd : m.calls.countP (· = 0) = if m.stopped then 1 else 0

/-- A poll in the window, with time left or without. -/
def Poll.inTime (threshold : Int) (p : Poll) : Bool :=
  p.remain.any fun r => 0 < r ∧ InWindow threshold r

def Poll.tooLate (threshold : Int) (p : Poll) : Bool :=
  p.remain.any fun r => r = 0 ∧ InWindow threshold r

/-! ## One iteration -/

/-- No poll from `wake` on is in the window with time left. -/
def Closed (threshold endTime wake : Int) : Prop :=
  endTime - wake ≤ 0 ∨ endTime - wake < threshold - checkInterval

theorem Closed.mono {threshold endTime wake wake' : Int} (h : Closed threshold endTime wake)
    (hle : wake ≤ wake') : Closed threshold endTime wake' := by
  unfold Closed at *
  omega

/-- What an iteration does to the calls, and when it lets the next one be. -/
inductive Effect (threshold : Int) (m : Monitor) (p : Poll) (m' : Monitor) : Prop where
  | silent (out : ∀ r, p.remain = some r → 0 ≤ r → ¬ InWindow threshold r)
      (calls : m'.calls = m.calls) (stopped : m'.stopped = false) (wake : p.now ≤ m'.wake)
  | ended (out : ∀ r, p.remain = some r → 0 ≤ r → ¬ InWindow threshold r)
      (calls : m'.calls = m.calls ++ [0]) (stopped : m'.stopped = true) (wake : m'.wake = m.wake)
  | warned (r : Int) (remain : p.remain = some r) (left : 0 ≤ r) (window : InWindow threshold r)
      (calls : m'.calls = m.calls ++ [r]) (stopped : m'.stopped = false)
      (wake : m'.wake = p.now + min r checkInterval)

section

variable {threshold : Int} {m m' : Monitor} {p : Poll}

theorem checkInterval_pos : 0 < checkInterval := by decide

theorem onError_effect (hrun : m.stopped = false) (hp : p.remain = none) :
    Effect threshold m p (onError m p.now) := by
  have hpos := checkInterval_pos
  have hout : ∀ r, p.remain = some r → 0 ≤ r → ¬ InWindow threshold r := by
    intro r hr
    rw [hp] at hr
    cases hr
  unfold onError
  split
  · split
    · exact .ended hout rfl rfl rfl
    · exact .silent hout rfl hrun (by simp only; omega)
  · exact .silent hout rfl hrun (by simp only; omega)

theorem onEndTime_effect {endTime : Int} (hrun : m.stopped = false) (hp : p.remain = some (endTime - p.now)) :
    Effect threshold m p (onEndTime threshold m endTime p.now) := by
  have hpos := checkInterval_pos
  unfold onEndTime
  by_cases hneg : endTime - p.now < 0
  · simp only [if_pos hneg]
    refine .ended ?_ rfl rfl rfl
    intro r hr hr0
    rw [hp] at hr
    cases hr
    omega
  simp only [if_neg hneg]
  by_cases hwin : InWindow threshold (endTime - p.now)
  · simp only [if_pos hwin]
    exact .warned _ hp (by omega) hwin rfl hrun rfl
  · simp only [if_neg hwin]
    refine .silent ?_ rfl hrun (by simp only; omega)
    intro r hr _
    rw [hp] at hr
    cases hr
    exact hwin

theorem iterate_effect (h : iterate threshold m p = some m') :
    m.stopped = false ∧ m.wake ≤ p.now ∧ Effect threshold m p m' := by
  unfold iterate at h
  split at h
  · cases h
  rename_i hawake
  simp only [Bool.or_eq_true, decide_eq_true_eq, not_or, Bool.not_eq_true, Int.not_lt] at hawake
  obtain ⟨hrun, hwake⟩ := hawake
  refine ⟨hrun, hwake, ?_⟩
  split at h
  · rename_i hres
    cases h
    exact onError_effect hrun (by simp [Poll.remain, hres])
  · rename_i lease hres
    split at h
    · rename_i hend
      cases h
      refine .silent ?_ rfl hrun (by simp only [second]; omega)
      intro r hr
      simp [Poll.remain, hres, hend] at hr
    · rename_i endTime hend
      cases h
      exact onEndTime_effect hrun (by simp [Poll.remain, hres, hend])

end

/-- What the monitor has done after the polls `done`. -/
structure Done (threshold endTime : Int) (done : List Poll) (m : Monitor) : Prop where
  before : m.calls.countP (0 < ·) = done.countP (Poll.inTime threshold)
  atEnd : m.calls.countP (· = 0) =
    done.countP (Poll.tooLate threshold) + if m.stopped then 1 else 0
  once : done.countP (Poll.inTime threshold) = 0 ∨
    done.countP (Poll.inTime threshold) = 1 ∧ Closed threshold endTime m.wake

theorem inTime_eq_false {threshold : Int} {p : Poll}
    (h : ∀ r, p.remain = some r → 0 ≤ r → ¬ InWindow threshold r) :
    p.inTime threshold = false ∧ p.tooLate threshold = false := by
  unfold Poll.inTime Poll.tooLate
  cases hr : p.remain with
  | none => exact ⟨rfl, rfl⟩
  | some r =>
    simp only [Option.any_some, decide_eq_false_iff_not]
    refine ⟨fun hin => h r hr (by omega) hin.2, fun hin => h r hr (by omega) hin.2⟩

theorem iterate_ok {threshold endTime : Int} {done : List Poll} {m m' : Monitor} {p : Poll}
    (h : Done threshold endTime done m) (hfixed : ∀ e, p.endTime = some e → e = endTime)
    (hit : iterate threshold m p = some m') : Done threshold endTime (done ++ [p]) m' := by
  obtain ⟨hrun, hwake, heffect⟩ := iterate_effect hit
  obtain ⟨hbefore, hatEnd, honce⟩ := h
  rw [hrun] at hatEnd
  rcases heffect with ⟨hout, hcalls, hstop, hwake'⟩ | ⟨hout, hcalls, hstop, hwake'⟩ |
    ⟨r, hr, hr0, hwin, hcalls, hstop, hwake'⟩
  · obtain ⟨hin, hlate⟩ := inTime_eq_false hout
    refine ⟨?_, ?_, ?_⟩
    · simpa [hin, hcalls] using hbefore
    · simpa [hlate, hcalls, hstop] using hatEnd
    · simp only [countP_append, countP_singleton, hin]
      exact honce.imp id (And.imp id fun hclosed => hclosed.mono (by omega))
  · obtain ⟨hin, hlate⟩ := inTime_eq_false hout
    refine ⟨?_, ?_, ?_⟩
    · simpa [hin, hcalls] using hbefore
    · simpa [hlate, hcalls, hstop] using hatEnd
    · simpa [hin, hwake'] using honce
  · have hend : r = endTime - p.now := by
      obtain ⟨e, he, rfl⟩ := Option.map_eq_some_iff.mp hr
      rw [hfixed e he]
    by_cases hpos : 0 < r
    · have hin : p.inTime threshold = true := by simp [Poll.inTime, hr, hpos, hwin]
      have hlate : p.tooLate threshold = false := by simp [Poll.tooLate, hr]; omega
      have hfirst : done.countP (Poll.inTime threshold) = 0 := by
        rcases honce with h | ⟨-, hclosed⟩
        · exact h
        · have := hclosed.mono hwake
          unfold Closed at this
          unfold InWindow at hwin
          omega
      refine ⟨?_, ?_, .inr ⟨?_, ?_⟩⟩
      · simpa [hin, hcalls, hpos] using hbefore
      · simpa [hlate, hcalls, hstop, Int.ne_of_gt hpos] using hatEnd
      · simp [hin, hfirst]
      · unfold Closed
        unfold InWindow at hwin
        omega
    · have hzero : r = 0 := by omega
      subst hzero
      have hin : p.inTime threshold = false := by simp [Poll.inTime, hr]
      have hlate : p.tooLate threshold = true := by simp [Poll.tooLate, hr, hwin]
      refine ⟨?_, ?_, ?_⟩
      · simpa [hin, hcalls] using hbefore
      · simpa [hlate, hcalls, hstop] using hatEnd
      · simp only [countP_append, countP_singleton, hin]
        refine honce.imp id (And.imp id fun hclosed => hclosed.mono ?_)
        have := checkInterval_pos
        omega

theorem run_ok {threshold endTime : Int} (polls : List Poll) {done : List Poll} {m m' : Monitor}
    (h : Done threshold endTime done m) (hfixed : ∀ p ∈ polls, ∀ e, p.endTime = some e → e = endTime)
    (hrun : run threshold m polls = some m') : Done threshold endTime (done ++ polls) m' := by
  induction polls generalizing done m with
  | nil =>
    cases hrun
    rwa [append_nil]
  | cons p polls ih =>
    obtain ⟨m₁, hit, hrest⟩ := Option.bind_eq_some_iff.mp hrun
    have hstep := iterate_ok h (hfixed p mem_cons_self) hit
    have hdone := ih hstep (fun q hq => hfixed q (mem_cons_of_mem p hq)) hrest
    rwa [append_assoc, singleton_append] at hdone

/-! ## The claim -/

/-- The callback is called as it should exactly if a poll is in time and none is too late. -/
theorem warnsOnce_iff {threshold endTime : Int} (start : Int) {polls : List Poll} {m : Monitor}
    (hwatched : Watched threshold endTime polls)
    (hrun : run threshold { wake := start } polls = some m) :
    WarnsOnce m ↔ (∃ p ∈ polls, p.inTime threshold = true) ∧ ¬ ∃ p ∈ polls, p.tooLate threshold = true := by
  have hdone : Done threshold endTime ([] ++ polls) m :=
    run_ok polls ⟨rfl, rfl, .inl rfl⟩ hwatched.fixed hrun
  rw [nil_append] at hdone
  obtain ⟨hbefore, hatEnd, honce⟩ := hdone
  have hin : (∃ p ∈ polls, p.inTime threshold = true) ↔ m.calls.countP (0 < ·) = 1 := by
    rw [hbefore, ← countP_pos_iff]
    omega
  have hlate : (¬ ∃ p ∈ polls, p.tooLate threshold = true) ↔
      m.calls.countP (· = 0) = if m.stopped then 1 else 0 := by
    rw [hatEnd, ← countP_pos_iff]
    omega
  rw [hin, hlate]
  exact ⟨fun h => ⟨h.before, h.atEnd⟩, fun h => ⟨h.1, h.2⟩⟩

/-- A poll of a lease that ends after 1000 seconds, with `r` seconds left. -/
def seen (r : Int) : Poll where
  result := some { effectiveEndTime := some (1000 * second) }
  now := (1000 - r) * second

theorem seen_watched {threshold first r : Int} {rest : List Int} (hfirst : threshold < first * second)
    (hr : r ∈ rest) (hbelow : 0 ≤ r * second ∧ r * second ≤ threshold) :
    Watched threshold (1000 * second) ((first :: rest).map seen) := by
  have hremain : ∀ r, (seen r).remain = some (r * second) := by
    intro r
    change some (1000 * second - (1000 - r) * second) = some (r * second)
    rw [← Int.sub_mul, Int.sub_sub_self]
  refine ⟨?_, ⟨first * second, ?_, hfirst⟩, seen r, ?_, _, hremain r, hbelow⟩
  · intro p hp e he
    obtain ⟨r, -, rfl⟩ := mem_map.mp hp
    exact (Option.some.inj he).symm
  · simp [hremain]
  · exact mem_map_of_mem (mem_cons_of_mem first hr)

/-- With a threshold of five minutes a call that takes 25 seconds skips the window. A lease with a threshold
of 20 seconds is polled at the very end. -/
theorem warnsOnce_fails :
    (Watched (300 * second) (1000 * second) ([310, 255, -1].map seen) ∧
      ∃ m, run (300 * second) { wake := 0 } ([310, 255, -1].map seen) = some m ∧
        m.calls = [0] ∧ ¬ WarnsOnce m) ∧
    Watched (20 * second) (1000 * second) ([40, 10, 0, -1].map seen) ∧
      ∃ m, run (20 * second) { wake := 0 } ([40, 10, 0, -1].map seen) = some m ∧
        m.calls = [10 * second, 0, 0] ∧ ¬ WarnsOnce m := by
  refine ⟨⟨?_, _, rfl, by decide, fun h => absurd h.before (by decide)⟩, ?_, _, rfl, by decide,
    fun h => absurd h.atEnd (by decide)⟩
  · exact seen_watched (r := 255) (by decide) (by decide) (by decide)
  · exact seen_watched (r := 10) (by decide) (by decide) (by decide)

/-- A run in which the second poll is in time. -/
theorem warnsOnce_iff_inTime :
    ∃ m, run (300 * second) { wake := 0 } ([310, 280, -1].map seen) = some m ∧ WarnsOnce m := by
  have hwatched : Watched (300 * second) (1000 * second) ([310, 280, -1].map seen) :=
    seen_watched (r := 280) (by decide) (by decide) (by decide)
  refine ⟨_, rfl, (warnsOnce_iff 0 hwatched rfl).mpr ⟨⟨seen 280, by simp, by decide⟩, by decide⟩⟩

end Jumpstarter.EndingWarning
