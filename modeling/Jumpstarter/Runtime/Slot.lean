import Jumpstarter.Runtime.Exporter

/-!
# The slot and the controller

Two results about the control-plane loop of `Jumpstarter/Runtime/Exporter.lean`.

- The slot follows the statuses that the controller sends (`Follows`), in every run in which the loop
  replays a stashed status only while it is still the last one sent (`freshReplay`). It is replayed as
  it was stashed: if the controller ended or changed the lease in between, the exporter takes the lease
  of the old status (`follows_fails`).
- A stopping exporter takes no lease, in every run in which `stop` leaves the loop running only with a
  lease in the slot (`stopsLeased`). With an empty slot the flag is read at the next `leased=false`,
  and a lease that comes before is taken (`takesNoLease_fails`).
-/

namespace Jumpstarter.Runtime

open Lib List Option

/-- The two statuses say the same about the lease of the exporter. -/
def StatusResponse.sameLease (m m' : StatusResponse) : Bool :=
  m.leased == m'.leased && (!m.leased || m.leaseName == m'.leaseName)

theorem StatusResponse.sameLease_refl (m : StatusResponse) : m.sameLease m = true := by
  simp [sameLease]

variable {m : StatusResponse}

theorem StatusResponse.sameLease_iff {m' : StatusResponse} :
    m.sameLease m' = true ↔ m.leased = m'.leased ∧ (m.leased = true → m.leaseName = m'.leaseName) := by
  simp only [sameLease, Bool.and_eq_true, beq_iff_eq, Bool.or_eq_true, Bool.not_eq_true']
  cases m.leased <;> simp

def lastStatus (q : List Message) : Option StatusResponse :=
  (q.filterMap fun | .status m => some m | .leaseFinished _ => none).getLast?

@[simp] theorem lastStatus_nil : lastStatus [] = none := rfl

@[simp] theorem lastStatus_append (q q' : List Message) :
    lastStatus (q ++ q') = (lastStatus q').or (lastStatus q) := by
  simp [lastStatus]

@[simp] theorem lastStatus_status (m : StatusResponse) (q : List Message) :
    lastStatus (.status m :: q) = (lastStatus q).or (some m) :=
  lastStatus_append [.status m] q

@[simp] theorem lastStatus_leaseFinished (i : Nat) (q : List Message) :
    lastStatus (.leaseFinished i :: q) = lastStatus q := rfl

namespace Exporter

variable {cfg : Config} {s s' : Exporter}

/-! ## The slot follows the controller -/

/-- The slot is what the last status of the controller says, or its lease has just completed. -/
def Follows (s : Exporter) : Prop :=
  ∀ m, s.lastSent = some m →
    (m.leased = false → s.slot = none) ∧
    (m.leased = true → (∃ i, s.slot = some i ∧ (s.ctx i).leaseName = m.leaseName) ∨
      s.slot = none ∧ s.lastCompletedLease = some m.leaseName)

/-- The lease in the slot, if any, is not tearing down. -/
def NotEnding (s : Exporter) : Prop := ∀ i, s.slot = some i → (s.ctx i).leaseEnded = false

/-- `_on_lease_finished` replays only a stashed status that says what the last one sent says. -/
def freshReplay (s : Exporter) : Act → Bool
  | .receive =>
    match s.queue, s.pendingLeaseStatus with
    | .leaseFinished i :: _, some m => s.slot ≠ some i || s.lastSent.any (m.sameLease ·)
    | _, _ => true
  | _ => true

/-- The slot after the loop has handled a status that says what `m` says. -/
structure Applied (s : Exporter) (m : StatusResponse) : Prop where
  idle : m.leased = false → ∀ i, s.slot = some i → (s.ctx i).leaseEnded = true
  leased : m.leased = true →
    (∃ i, s.slot = some i ∧ (s.ctx i).leaseName = m.leaseName) ∨
    (∃ i p, s.slot = some i ∧ (s.ctx i).leaseEnded = true ∧
      s.pendingLeaseStatus = some p ∧ p.sameLease m = true) ∨
    s.slot = none ∧ s.lastCompletedLease = some m.leaseName

/-- The last status of the controller is the last one in the queue, or it was handled. -/
structure SlotInv (s : Exporter) : Prop where
  queued : ∀ m, lastStatus s.queue = some m → s.lastSent.any (m.sameLease ·) = true
  applied : lastStatus s.queue = none → ∀ m, s.lastSent = some m → Applied s m
  named : ∀ m, .status m ∈ s.queue → m.leased = true → m.leaseName ≠ ""
  stashed : ∀ m, s.pendingLeaseStatus = some m → s.slot ≠ none ∧ (m.leased = true → m.leaseName ≠ "")

theorem Applied.congr {m' : StatusResponse} (h : Applied s m) (hsame : m.sameLease m' = true) :
    Applied s m' := by
  obtain ⟨hl, hn⟩ := StatusResponse.sameLease_iff.mp hsame
  refine ⟨fun hf => h.idle (hl.trans hf), fun ht => ?_⟩
  have htm := hl.trans ht
  rcases h.leased htm with ⟨i, hi, hname⟩ | ⟨i, p, hi, he, hp, hsame'⟩ | ⟨hnone, hdone⟩
  · exact .inl ⟨i, hi, by rw [hname, hn htm]⟩
  · obtain ⟨hpl, hpn⟩ := StatusResponse.sameLease_iff.mp hsame'
    refine .inr (.inl ⟨i, p, hi, he, hp, StatusResponse.sameLease_iff.mpr ⟨hpl.trans hl, ?_⟩⟩)
    exact fun hpt => (hpn hpt).trans (hn htm)
  · exact .inr (.inr ⟨hnone, by rw [hdone, hn htm]⟩)

variable {a : Act}

theorem CtxMove.keeps {j : Nat} (h : CtxMove cfg s s' j a) (hj : s.slot = some j) :
    (s'.ctx j).leaseName = (s.ctx j).leaseName ∧
      ((s.ctx j).leaseEnded = true → (s'.ctx j).leaseEnded = true) := by
  cases h with
  | keep hctx => exact ⟨by rw [hctx], by rw [hctx]; exact id⟩
  | touch _ ht => exact ⟨ht.leaseName, ht.leaseEnded⟩
  | task hs ht =>
    refine ⟨ht.leaseName.trans (LeaseContext.step_leaseName hs), fun he => ht.leaseEnded ?_⟩
    rw [LeaseContext.step_leaseEnded hs, he]
  | acquire _ hnone =>
    rw [hnone] at hj
    cases hj

theorem Applied.keep (h : Applied s m) (hm : Move cfg s a s') (hslot : s'.slot = s.slot)
    (hp : s'.pendingLeaseStatus = s.pendingLeaseStatus) (hl : s'.lastCompletedLease = s.lastCompletedLease) :
    Applied s' m := by
  have hctx : ∀ i, s.slot = some i → _ := fun i hi => (hm.ctx i).keeps hi
  refine ⟨fun hm i hi => ?_, fun hm => ?_⟩
  · rw [hslot] at hi
    exact (hctx i hi).2 (h.idle hm i hi)
  · rw [hslot, hp, hl]
    rcases h.leased hm with ⟨i, hi, hn⟩ | ⟨i, p, hi, he, hp⟩ | hnone
    · exact .inl ⟨i, hi, by rw [(hctx i hi).1, hn]⟩
    · exact .inr (.inl ⟨i, p, hi, (hctx i hi).2 he, hp⟩)
    · exact .inr (.inr hnone)

theorem SlotInv.keep (hi : SlotInv s) (hm : Move cfg s a s') (hslot : s'.slot = s.slot)
    (hp : s'.pendingLeaseStatus = s.pendingLeaseStatus) (hl : s'.lastCompletedLease = s.lastCompletedLease)
    (hsent : s'.lastSent = s.lastSent) (hq : lastStatus s'.queue = lastStatus s.queue)
    (hsub : ∀ m, .status m ∈ s'.queue → .status m ∈ s.queue) : SlotInv s' := by
  refine ⟨fun m hs => ?_, fun hs m hm' => ?_, fun m hs => hi.named m (hsub m hs), ?_⟩
  · rw [hsent]
    exact hi.queued m (hq ▸ hs)
  · exact (hi.applied (hq ▸ hs) m (hsent ▸ hm')).keep hm hslot hp hl
  · rw [hp, hslot]
    exact hi.stashed

theorem SlotInv.handled {rest : List Message} (hi : SlotInv s) (hq : s.queue = .status m :: rest)
    (hq' : s'.queue = rest) (hsent : s'.lastSent = s.lastSent) (happ : Applied s' m)
    (hstashed : ∀ m, s'.pendingLeaseStatus = some m → s'.slot ≠ none ∧ (m.leased = true → m.leaseName ≠ "")) :
    SlotInv s' := by
  have hlast : lastStatus s.queue = (lastStatus rest).or (some m) := by
    rw [hq, lastStatus_status]
  refine ⟨fun m' hs => ?_, fun hs m' hm' => happ.congr ?_, fun m' hs => ?_, hstashed⟩
  · rw [hsent]
    rw [hq'] at hs
    exact hi.queued m' (by rw [hlast, hs, some_or])
  · rw [hq'] at hs
    have hsame := hi.queued m (by rw [hlast, hs, none_or])
    rw [hsent] at hm'
    rw [hm'] at hsame
    exact hsame
  · rw [hq'] at hs
    exact hi.named m' (hq ▸ mem_cons_of_mem _ hs)

theorem SlotInv.loop (hi : SlotInv s) (hok : freshReplay s .receive = true)
    (hloop : s.loop = true) (hm : LoopMove cfg s s') : SlotInv s' := by
  have hmove : Move cfg s .receive s' := .receive hloop hm
  cases hm with
  | @ignored m rest hq hleased hslot hdone =>
    have hname := hi.named m (hq ▸ mem_cons_self) hleased
    refine hi.handled hq rfl rfl ⟨by simp [hleased], fun _ => .inr (.inr ⟨hslot, ?_⟩)⟩ hi.stashed
    exact hdone.resolve_left hname
  | @acquired m rest hq hleased hslot =>
    refine hi.handled hq rfl rfl ⟨by simp [hleased], fun _ => .inl ⟨_, rfl, ?_⟩⟩ fun p hp => ?_
    · show (Function.update s.ctx s.count _ s.count).leaseName = _
      rw [Function.update_self]
      rfl
    · exact absurd hslot (hi.stashed p hp).1
  | @reassigned m rest i hq hleased hslot =>
    refine hi.handled hq rfl rfl ⟨by simp [hleased], fun _ => .inr (.inl ?_)⟩ fun p hp => ?_
    · refine ⟨i, m, hslot, ?_, rfl, m.sameLease_refl⟩
      show (Function.update s.ctx i _ i).leaseEnded = true
      rw [Function.update_self]
    · cases hp
      exact ⟨by simp [hslot], hi.named m (hq ▸ mem_cons_self)⟩
  | @updated m rest i hq hleased hslot hname =>
    refine hi.handled hq rfl rfl ⟨by simp [hleased], fun _ => .inl ⟨i, hslot, ?_⟩⟩ hi.stashed
    show (Function.update s.ctx i _ i).leaseName = _
    rw [Function.update_self, ← hname]
  | @idle m rest tg loop hq hleased hslot =>
    refine hi.handled hq rfl rfl ⟨fun _ i hi => ?_, by simp [hleased]⟩ hi.stashed
    rw [show s.slot = some i from hi] at hslot
    cases hslot
  | @ended m rest i flag hq hleased hslot =>
    refine hi.handled hq rfl rfl ⟨fun _ j hj => ?_, by simp [hleased]⟩ hi.stashed
    rw [show s.slot = some j from hj] at hslot
    cases hslot
    show (Function.update s.ctx i _ i).leaseEnded = true
    rw [Function.update_self]
  | @finished rest i flag tg loop hq hslot =>
    have hlast : lastStatus s.queue = lastStatus rest := by rw [hq, lastStatus_leaseFinished]
    have hrest : ∀ m, .status m ∈ rest → .status m ∈ s.queue :=
      fun m hm => hq ▸ mem_cons_of_mem _ hm
    cases hp : s.pendingLeaseStatus with
    | none =>
      refine ⟨fun m hs => ?_, fun hs m hm => ?_, fun m hs => ?_, fun m hm => nomatch hm⟩
      · rw [map_none, toList_none, append_nil, ← hlast] at hs
        exact hi.queued m hs
      · rw [map_none, toList_none, append_nil, ← hlast] at hs
        refine ⟨fun _ j hj => (nomatch hj), fun ht => .inr (.inr ⟨rfl, ?_⟩)⟩
        -- No status is stashed, so the lease in the slot is the one of `m`.
        rcases (hi.applied hs m hm).leased ht with ⟨j, hj, hn⟩ | ⟨j, p, -, -, hp', -⟩ | ⟨hnone, -⟩
        · rw [hslot] at hj
          cases hj
          rw [hn]
        · rw [hp] at hp'
          cases hp'
        · rw [hslot] at hnone
          cases hnone
      · rw [map_none, toList_none, append_nil] at hs
        exact hi.named m (hrest m hs)
    | some p =>
      have hfresh : s.lastSent.any (p.sameLease ·) = true := by
        simpa [freshReplay, hq, hp, hslot] using hok
      refine ⟨fun m hs => ?_, fun hs => ?_, fun m hs => ?_, fun m hm => nomatch hm⟩
      · simp at hs
        exact hs ▸ hfresh
      · simp at hs
      · rcases mem_append.mp hs with hs | hs
        · exact hi.named m (hrest m hs)
        · have hmp : m = p := by simpa using hs
          exact hmp ▸ (hi.stashed p hp).2
  | other hq =>
    refine hi.keep hmove rfl rfl rfl rfl (by rw [hq]; rfl) fun m hm => ?_
    exact hq ▸ mem_cons_of_mem _ hm

theorem SlotInv.step (hi : SlotInv s) (hok : freshReplay s a = true) (h : Move cfg s a s') : SlotInv s' := by
  have hmove := h
  cases h with
  | serve | stop | fail | cancelLoop => exact hi.keep hmove rfl rfl rfl rfl rfl fun _ => id
  | @send m hname =>
    refine ⟨fun m' hs => ?_, fun hs => ?_, fun m' hs => ?_, hi.stashed⟩
    · simp at hs
      exact hs ▸ m.sameLease_refl
    · simp at hs
    · rcases mem_append.mp hs with hs | hs
      · exact hi.named m' hs
      · cases mem_singleton.mp hs
        exact hname
  | receive hloop hm => exact hi.loop hok hloop hm
  | @task i a c o =>
    obtain ⟨ctx, tg, flag, endings, heq, -⟩ := s.apply_eq i c o
    rw [heq] at hmove ⊢
    refine hi.keep hmove rfl rfl rfl rfl ?_ fun m hs => ?_
    · show lastStatus (s.queue ++ if o.finished then [.leaseFinished i] else []) = _
      split <;> simp
    · rcases mem_append.mp hs with hs | hs
      · exact hs
      · split at hs <;> simp at hs

theorem inductive_slotInv (cfg : Config) :
    (sys cfg).InductiveIf (fun s a => freshReplay s a = true) SlotInv where
  init s hs := by
    rw [hs]
    exact ⟨fun m h => (nomatch h), fun _ m h => (nomatch h), fun m h => (nomatch h), fun m h => (nomatch h)⟩
  step _ _ _ hi hok hst := hi.step hok (step_move hst)

/-- With an empty queue and no lease tearing down, the slot follows the controller. -/
theorem follows_of_freshReplay (cfg : Config) {s : Exporter}
    (hs : (sys cfg).ReachIf (fun s a => freshReplay s a = true) s) (hq : s.queue = [])
    (hne : NotEnding s) : Follows s := by
  intro m hm
  have happ := ((inductive_slotInv cfg).reach hs).applied (by rw [hq]; rfl) m hm
  refine ⟨fun hf => ?_, fun ht => ?_⟩
  · cases hslot : s.slot with
    | none => rfl
    | some i =>
      have hended := happ.idle hf i hslot
      rw [hne i hslot] at hended
      cases hended
  · rcases happ.leased ht with hslot | ⟨i, p, hslot, he, -⟩ | hnone
    · exact .inl hslot
    · rw [hne i hslot] at he
      cases he
    · exact .inr hnone

def takeRun (name : String) : List Act :=
  [.send { leased := true, leaseName := name }, .receive]

/-- The controller ends the lease before lease number `i` is set up. -/
def endRun (i : Nat) : List Act :=
  [.send { leased := false }, .receive, .task i (.handle .start)]

theorem follows_of_freshReplay_reassigned : ∃ s : Exporter,
    (sys {}).ReachIf (fun s a => freshReplay s a = true) s ∧ s.queue = [] ∧
      (s.slot = some 1 ∧ s.lastSent = some { leased := true, leaseName := "b" }) ∧ NotEnding s ∧
      Follows s := by
  have hrun : (((sys {}).execIf freshReplay {} (.serve :: takeRun "a" ++ takeRun "b" ++
      [.task 0 (.handle .start), .receive, .receive])).any fun s =>
        s.queue = [] ∧ (s.slot = some 1 ∧
          s.lastSent = some { leased := true, leaseName := "b" }) ∧
          (s.ctx 1).leaseEnded = false) = true := by decide +kernel
  obtain ⟨s, hs, hp⟩ := Sys.ReachIf.execIf_any (.init rfl) _ hrun
  obtain ⟨hq, hslot, hended⟩ := of_decide_eq_true hp
  have hne : NotEnding s := by
    intro i hi
    rw [hslot.1] at hi
    cases hi
    exact hended
  exact ⟨s, hs, hq, hslot, hne, follows_of_freshReplay {} hs hq hne⟩

/-- Lease `b` is stashed while lease `a` is tearing down, and the controller ends it; the exporter takes
it when `a` has finished. -/
theorem follows_fails : ∃ s : Exporter, (sys {}).Reach s ∧ s.queue = [] ∧
    s.stopRequested = false ∧ NotEnding s ∧ ¬ Follows s := by
  have hrun : (((sys {}).exec {} (.serve :: takeRun "a" ++ takeRun "b" ++ endRun 0 ++
      [.receive, .receive])).any fun s =>
        s.queue = [] ∧ s.stopRequested = false ∧ (s.slot = some 1 ∧
          s.lastSent = some { leased := false }) ∧ (s.ctx 1).leaseEnded = false) = true := by
    decide +kernel
  obtain ⟨s, hs, hp⟩ := Sys.Reach.exec_any (.init rfl) _ hrun
  obtain ⟨hq, hstop, ⟨hslot, hsent⟩, hended⟩ := of_decide_eq_true hp
  refine ⟨s, hs, hq, hstop, fun i hi => ?_, fun hf => ?_⟩
  · rw [hslot] at hi
    cases hi
    exact hended
  · have hnone := (hf _ hsent).1 rfl
    rw [hslot] at hnone
    cases hnone

/-! ## A stopping exporter -/

/-- A stopping exporter takes no lease: without a lease its loop has ended, and every step leaves it
stopping and acquires none. -/
def TakesNoLease (cfg : Config) (s : Exporter) : Prop :=
  s.stopRequested = true → (s.slot = none → s.loop = false) ∧
    ∀ a s', step cfg s a = some s' → s'.stopRequested = true ∧ s'.count = s.count

/-- A call of `stop`, from outside or by a hook, that does not cancel the task group comes with a lease
in the slot (or is not the first). -/
def stopsLeased (cfg : Config) (s : Exporter) : Act → Bool
  | .stop wait => s.stopRequested || s.stopsAtOnce wait || s.slot.isSome
  | .task i a =>
    s.stopRequested || s.slot.isSome || ((s.ctx i).step cfg s.view i a).all fun (_, o) => !o.shutdown
  | _ => true

/-- Where the loop of a stopping exporter is. -/
structure StopInv (s : Exporter) : Prop where
  notServed : s.tg = .none → s.slot = none ∧ s.loop = false ∧ s.stopRequested = false
  stopped : s.stopRequested = true → s.slot = none → s.loop = false

theorem StopInv.keep (hi : StopInv s) (hslot : s'.slot = s.slot) (hloop : s'.loop = s.loop)
    (htg : s.tg.Stays s'.tg)
    (hstop : s'.stopRequested = true → s.stopRequested = true ∨ s.slot ≠ none) : StopInv s' := by
  refine ⟨fun hnone => ?_, fun hs hnone => ?_⟩
  · obtain ⟨hsl, hl, hs⟩ := hi.notServed (by_contra fun h => htg.2 h hnone)
    refine ⟨hslot.trans hsl, hloop.trans hl, Bool.eq_false_iff.mpr fun hs' => ?_⟩
    rcases hstop hs' with h | h
    · rw [hs] at h
      cases h
    · exact h hsl
  · rw [hslot] at hnone
    rw [hloop]
    exact hi.stopped ((hstop hs).resolve_right (· hnone)) hnone

theorem StopInv.loop (hi : StopInv s) (hloop : s.loop = true) (hm : LoopMove cfg s s') : StopInv s' := by
  have htg : s.tg ≠ .none := fun h => by
    rw [(hi.notServed h).2.1] at hloop
    cases hloop
  have hflag : s.stopRequested = true → s.slot ≠ none := fun h hnone => by
    rw [hi.stopped h hnone] at hloop
    cases hloop
  cases hm with
  | ignored => exact hi.keep rfl rfl (.refl _) .inl
  | acquired => exact ⟨fun h => absurd h htg, fun _ h => nomatch h⟩
  | reassigned | updated => exact hi.keep rfl rfl (.refl _) .inl
  | idle _ _ hslot _ hstays =>
    exact ⟨fun h => absurd h (hstays.2 htg), fun h _ => absurd hslot (hflag h)⟩
  | ended _ _ hslot =>
    exact hi.keep rfl rfl (.refl _) fun _ => .inr (by simp [hslot])
  | finished _ _ _ hloop' hstays => exact ⟨fun h => absurd h (hstays.2 htg), fun h _ => hloop' h⟩
  | other _ _ hloop' hstays => exact ⟨fun h => absurd h (hstays.2 htg), fun h _ => hloop' h⟩

theorem StopInv.step (hi : StopInv s) (hok : stopsLeased cfg s a = true) (h : Move cfg s a s') :
    StopInv s' := by
  cases h with
  | serve hnone =>
    obtain ⟨hslot, -, hstop⟩ := hi.notServed hnone
    refine ⟨fun h => (nomatch h), fun h => ?_⟩
    rw [show s.stopRequested = true from h] at hstop
    cases hstop
  | send => exact hi.keep rfl rfl (.refl _) .inl
  | receive hloop hm => exact hi.loop hloop hm
  | @task i a c o hs =>
    obtain ⟨ctx, tg, flag, endings, heq, -, -, hflag, -, -, htg, -⟩ := s.apply_eq i c o
    rw [heq]
    refine hi.keep rfl rfl htg fun hf => ?_
    rcases hflag hf with h | h
    · exact .inl h
    · simpa [stopsLeased, hs, h, isSome_iff_ne_none] using hok
  | @stop wait tg flag _ hset htg =>
    refine hi.keep rfl rfl htg fun hf => ?_
    rcases hset hf with h | h
    · exact .inl h
    · simpa [stopsLeased, h, isSome_iff_ne_none] using hok
  | fail => exact hi.keep rfl rfl (TaskGroup.stays_cancelled _) .inl
  | cancelLoop htg =>
    refine ⟨fun h => ?_, fun _ _ => rfl⟩
    rw [show s.tg = .none from h] at htg
    cases htg

theorem inductive_stopInv (cfg : Config) :
    (sys cfg).InductiveIf (fun s a => stopsLeased cfg s a = true) StopInv where
  init s hs := by
    rw [hs]
    exact ⟨fun _ => ⟨rfl, rfl, rfl⟩, fun h => (nomatch h)⟩
  step _ _ _ hi hok hst := hi.step hok (step_move hst)

/-- Once `_stop_requested` is set no lease is acquired, and without a lease the loop has ended. -/
theorem takesNoLease_of_stopsLeased (cfg : Config) {s : Exporter}
    (hs : (sys cfg).ReachIf (fun s a => stopsLeased cfg s a = true) s) : TakesNoLease cfg s := by
  intro hstop
  have hi := (inductive_stopInv cfg).reach hs
  refine ⟨hi.stopped hstop, fun a s' hst => ⟨(step_move hst).stopRequested hstop, ?_⟩⟩
  cases (step_move hst).slot with
  | keep _ hcount => exact hcount
  | acquire hloop hnone =>
    rw [hi.stopped hstop hnone] at hloop
    cases hloop
  | release _ _ _ hcount => exact hcount

theorem takesNoLease_of_stopsLeased_serving : ∃ s : Exporter,
    (sys {}).ReachIf (fun s a => stopsLeased {} s a = true) s ∧
      (s.stopRequested = true ∧ s.slot = some 0) ∧ TakesNoLease {} s := by
  have hrun : (((sys {}).execIf (stopsLeased {}) {} (.serve :: takeRun "a" ++ [.stop true])).any
      fun s => s.stopRequested = true ∧ s.slot = some 0) = true := by decide +kernel
  obtain ⟨s, hs, hp⟩ := Sys.ReachIf.execIf_any (.init rfl) _ hrun
  exact ⟨s, hs, of_decide_eq_true hp, takesNoLease_of_stopsLeased {} hs⟩

/-- `stop` between two leases leaves the loop waiting, and the next lease is acquired. -/
theorem takesNoLease_fails : ∃ s : Exporter, (sys {}).Reach s ∧ ¬ TakesNoLease {} s := by
  have hrun : (((sys {}).exec {} (.serve :: takeRun "a" ++ endRun 0 ++
      [.receive, .stop true, .send { leased := true, leaseName := "b" }])).any fun s =>
        s.stopRequested = true ∧ s.slot = none ∧
          ((step {} s .receive).any fun s' => s'.count = s.count + 1) = true) = true := by
    decide +kernel
  obtain ⟨s, hs, hp⟩ := Sys.Reach.exec_any (.init rfl) _ hrun
  obtain ⟨hstop, hslot, hnext⟩ := of_decide_eq_true hp
  refine ⟨s, hs, fun h => ?_⟩
  cases hst : step {} s .receive with
  | none =>
    rw [hst] at hnext
    cases hnext
  | some s' =>
    rw [hst] at hnext
    have hcount : s'.count = s.count + 1 := of_decide_eq_true hnext
    have := ((h hstop).2 _ s' hst).2
    omega

end Exporter
end Jumpstarter.Runtime
