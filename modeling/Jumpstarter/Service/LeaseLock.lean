import Jumpstarter.Lib.Sys
import Jumpstarter.Lib.Count

/-!
# The reference-counted lock of one lease (`acquireLeaseLock`, `releaseLeaseLock`)

`controller_service.go` keeps one mutex per lease name in the `sync.Map` `leaseLocks`. An entry
counts its users in `refs`; the user that brings the count to 0 removes the entry with
`CompareAndDelete`. One atomic operation is a step, of any of `n` goroutines.

- `St`, `step`: a goroutine is at a place `Pc` of the two functions; entries are numbered in the order
  of their allocation. `addInt32` wraps, as `atomic.AddInt32` does.
- `SameLock`: who has returned from `acquireLeaseLock` and not begun `releaseLeaseLock` holds the mutex
  that `leaseLocks` stores.
- `sameLock_fails`: an acquirer that finds the count at 0 adds 1, sees `newRefs = 1` and backs out with
  a second `AddInt32`. A third goroutine that adds 1 between the two sees `newRefs = 2` and returns the
  mutex of an entry that is being removed.
- `sameLock_of_noOverlap`: `SameLock` in every run in which no goroutine adds itself to an entry that
  another one is backing out of. The invariant (`Inv`): the count of an entry is the number of its users
  and of those that back out of it, at most one; an entry with a user is the stored one.
-/

namespace Jumpstarter.LeaseLock

open Lib

/-- Where a goroutine is in `acquireLeaseLock` or `releaseLeaseLock`. -/
inductive Pc where
  /-- Outside, or at the `LoadOrStore` at the head of `acquireLeaseLock`'s loop. -/
  | loadOrStore
  /-- It loaded `ll`, before `AddInt32(&ll.refs, 1)`. -/
  | add (ll : Nat)
  /-- `newRefs <= 1`, before `AddInt32(&ll.refs, -1)` and the next try. -/
  | backOut (ll : Nat)
  /-- `acquireLeaseLock` returned `&ll.mu`. -/
  | holds (ll : Nat)
  /-- In `releaseLeaseLock` with the mutex of `ll`, before `Load`. -/
  | load (ll : Nat)
  /-- `Load` gave `ll`, before `AddInt32(&ll.refs, -1)`. -/
  | decr (ll : Nat)
  /-- The count of `ll` came to 0, before `CompareAndDelete`. -/
  | delete (ll : Nat)
  deriving DecidableEq

/-- The state of the map entry of the lease name and of `n` goroutines. -/
structure St (n : Nat) where
  pc : Fin n → Pc
  /-- `leaseLocks[leaseName]`. -/
  leaseLocks : Option Nat
  refs : Nat → Int
  next : Nat

/-- `atomic.AddInt32`: the sum in 32 bits. -/
def addInt32 (a d : Int) : Int := (a + d + 0x80000000) % 0x100000000 - 0x80000000

variable {n : Nat}

/-- `s` after goroutine `t` moved to `c`. -/
def St.goto (s : St n) (t : Fin n) (c : Pc) : St n := { s with pc := Function.update s.pc t c }

/-- `s` after `AddInt32(&ll.refs, d)`. -/
def St.addRefs (s : St n) (ll : Nat) (d : Int) : St n :=
  { s with refs := Function.update s.refs ll (addInt32 (s.refs ll) d) }

/-- The next atomic operation of goroutine `t`. -/
def step (s : St n) (t : Fin n) : St n :=
  match s.pc t with
  | .loadOrStore =>
    match s.leaseLocks with
    | some ll => s.goto t (.add ll)
    | none =>
      { s.goto t (.holds s.next) with
        leaseLocks := some s.next, refs := Function.update s.refs s.next 1, next := s.next + 1 }
  | .add ll =>
    if addInt32 (s.refs ll) 1 ≤ 1 then (s.addRefs ll 1).goto t (.backOut ll)
    else (s.addRefs ll 1).goto t (.holds ll)
  | .backOut ll => (s.addRefs ll (-1)).goto t .loadOrStore
  | .holds ll => s.goto t (.load ll)
  | .load _ =>
    match s.leaseLocks with
    | some ll => s.goto t (.decr ll)
    | none => s.goto t .loadOrStore
  | .decr ll =>
    if addInt32 (s.refs ll) (-1) = 0 then (s.addRefs ll (-1)).goto t (.delete ll)
    else (s.addRefs ll (-1)).goto t .loadOrStore
  | .delete ll =>
    { s.goto t .loadOrStore with
      leaseLocks := if s.leaseLocks = some ll then none else s.leaseLocks }

/-- No entry, and every goroutine outside. -/
def start : St n := ⟨fun _ => .loadOrStore, none, fun _ => 0, 0⟩

/-- `n` goroutines on one lease name. -/
def sys (n : Nat) : Sys (St n) (Fin n) where
  init s := s = start
  step s t := some (step s t)

/-- Every goroutine between its `acquireLeaseLock` and its `releaseLeaseLock` holds the mutex
that `leaseLocks` stores. -/
def SameLock (s : St n) : Prop := ∀ t ll, s.pc t = .holds ll → s.leaseLocks = some ll

/-- No goroutine adds itself to an entry that another one is backing out of. -/
def NoOverlap (s : St n) (t : Fin n) : Prop :=
  ∀ ll, s.pc t = .add ll → ∀ u, s.pc u ≠ .backOut ll

/-! ## The defect -/

/-- Goroutine 0 releases the only reference of entry 0; 1 and 2 have loaded the entry. 1 adds
itself and will back out; 2 adds itself on top of that and returns. Then 0 removes the entry and 3
makes a new one. -/
def overlapRun : List (Fin 4) := [0, 0, 0, 0, 1, 2, 1, 2, 0, 3]

/-- 2 holds the mutex of the removed entry 0, and 3 that of the stored entry 1. -/
theorem sameLock_fails : ∃ s : St 4, (sys 4).Reach s ∧ s.pc 2 = .holds 0 ∧ s.pc 3 = .holds 1 ∧
    s.leaseLocks = some 1 ∧ ¬ SameLock s := by
  have hr : (sys 4).Reach start := .init rfl
  refine ⟨_, hr.exec overlapRun rfl, by decide, by decide, by decide, fun h => ?_⟩
  exact absurd (h 2 0 (by decide)) (by decide)

/-! ## The invariant -/

/-- The entry that a goroutine's place names. -/
def Pc.entry : Pc → Option Nat
  | .loadOrStore => none
  | .add ll | .backOut ll | .holds ll | .load ll | .decr ll | .delete ll => some ll

/-- The goroutine's reference is in `ll.refs`, and it has not given it up. -/
@[simp] def Pc.uses (ll : Nat) : Pc → Bool
  | .holds l | .load l | .decr l => l == ll
  | _ => false

/-- The goroutine is backing out of `ll`. -/
@[simp] def Pc.backs (ll : Nat) : Pc → Bool
  | .backOut l => l == ll
  | _ => false

/-- The users of `ll`. -/
def users (s : St n) (ll : Nat) : Nat := count (Pc.uses ll) s.pc

/-- The goroutines that are backing out of `ll`. -/
def backers (s : St n) (ll : Nat) : Nat := count (Pc.backs ll) s.pc

structure Inv (s : St n) : Prop where
  fresh : ∀ t ll, (s.pc t).entry = some ll → ll < s.next
  mapped : ∀ ll, s.leaseLocks = some ll → ll < s.next
  refs : ∀ ll, s.refs ll = addInt32 (users s ll) (backers s ll)
  few : ∀ ll, users s ll < 0x80000000
  alone : ∀ ll, backers s ll ≤ 1
  stored : ∀ ll, 0 < users s ll → s.leaseLocks = some ll
  dead : ∀ t ll, s.pc t = .delete ll → users s ll = 0

theorem users_goto (s : St n) (t : Fin n) (c : Pc) (ll : Nat) :
    users (s.goto t c) ll + one ((s.pc t).uses ll) = users s ll + one (c.uses ll) :=
  count_update _ _ _ _

theorem backers_goto (s : St n) (t : Fin n) (c : Pc) (ll : Nat) :
    backers (s.goto t c) ll + one ((s.pc t).backs ll) = backers s ll + one (c.backs ll) :=
  count_update _ _ _ _

theorem uses_holds_ne {k l : Nat} (h : k ≠ l) : (Pc.holds k).uses l = false := by
  simpa using h

variable {ll : Nat} {t : Fin n} {s : St n}

theorem users_pos (h : (s.pc t).uses ll = true) : 0 < users s ll :=
  count_pos_of h

theorem goto_pc_self (s : St n) (t : Fin n) (c : Pc) : (s.goto t c).pc t = c := by
  simp [St.goto]

theorem goto_pc_ne (s : St n) {u : Fin n} (c : Pc) (h : u ≠ t) : (s.goto t c).pc u = s.pc u := by
  simp [St.goto, h]

@[simp] theorem addRefs_pc (s : St n) (ll : Nat) (d : Int) : (s.addRefs ll d).pc = s.pc := rfl

@[simp] theorem users_addRefs (s : St n) (ll : Nat) (d : Int) (l : Nat) :
    users (s.addRefs ll d) l = users s l := rfl

@[simp] theorem backers_addRefs (s : St n) (ll : Nat) (d : Int) (l : Nat) :
    backers (s.addRefs ll d) l = backers s l := rfl

variable {c : Pc}

theorem goto_all {P : Pc → Prop} (h : ∀ u, P (s.pc u)) (hc : P c) (u : Fin n) : P ((s.goto t c).pc u) := by
  by_cases hu : u = t
  · subst hu; rw [goto_pc_self]; exact hc
  · rw [goto_pc_ne _ _ hu]; exact h u

/-- A goroutine that neither gives up nor takes a reference, backs out of nothing before or after,
and does not come to remove an entry, keeps the invariant. -/
theorem Inv.quiet (hi : Inv s) (hu : ∀ ll, c.uses ll = (s.pc t).uses ll)
    (hb : ∀ ll, c.backs ll = (s.pc t).backs ll) (hf : ∀ ll, c.entry = some ll → ll < s.next)
    (hd : ∀ ll, c ≠ .delete ll) : Inv (s.goto t c) := by
  have eu : ∀ ll, users (s.goto t c) ll = users s ll := fun ll => by
    have := users_goto s t c ll; rw [hu] at this; omega
  have eb : ∀ ll, backers (s.goto t c) ll = backers s ll := fun ll => by
    have := backers_goto s t c ll; rw [hb] at this; omega
  refine ⟨goto_all (P := fun c => ∀ l, c.entry = some l → l < s.next) hi.fresh hf, hi.mapped, fun ll => ?_,
    fun ll => ?_, fun ll => ?_, fun ll h => ?_, fun u ll => ?_⟩
  · rw [eu, eb]; exact hi.refs ll
  · rw [eu]; exact hi.few ll
  · rw [eb]; exact hi.alone ll
  · rw [eu] at h; exact hi.stored ll h
  · rw [eu]
    exact goto_all (P := fun c => c = .delete ll → users s ll = 0) (fun u => hi.dead u ll)
      (fun h => absurd h (hd ll)) u

variable {d : Int}

theorem addInt32_addInt32 {u b u' b' : Int} (h : u' + b' = u + b + d) :
    addInt32 (addInt32 u b) d = addInt32 u' b' := by
  unfold addInt32; omega

section

variable (hi : Inv s)
include hi

section

variable (hd : (one (c.uses ll) : Int) + one (c.backs ll) = one ((s.pc t).uses ll) + one ((s.pc t).backs ll) + d)
include hd

/-- The counts after `AddInt32(&ll.refs, d)` and a move of goroutine `t`, when the move changes the
references of `ll` by `d` and those of no other entry. -/
theorem refs_move
    (ho : ∀ l, l ≠ ll → one (c.uses l) + one (c.backs l) = one ((s.pc t).uses l) + one ((s.pc t).backs l))
    (l : Nat) :
    ((s.addRefs ll d).goto t c).refs l =
      addInt32 (users ((s.addRefs ll d).goto t c) l) (backers ((s.addRefs ll d).goto t c) l) := by
  have hu := users_goto (s.addRefs ll d) t c l
  have hb := backers_goto (s.addRefs ll d) t c l
  simp only [users_addRefs, backers_addRefs, addRefs_pc] at hu hb
  by_cases hl : l = ll
  · subst hl
    show Function.update s.refs l (addInt32 (s.refs l) d) l = _
    rw [Function.update_self, hi.refs l]
    exact addInt32_addInt32 (by omega)
  · have := ho l hl
    show Function.update s.refs ll (addInt32 (s.refs ll) d) l = _
    rw [Function.update_of_ne hl, hi.refs l]
    unfold addInt32
    omega

theorem Inv.move
    (ho : ∀ l, l ≠ ll → c.uses l = (s.pc t).uses l ∧ c.backs l = (s.pc t).backs l)
    (hf : ∀ l, c.entry = some l → l < s.next)
    (hfew : users s ll + one (c.uses ll) < 0x80000000 + one ((s.pc t).uses ll))
    (halone : backers s ll + one (c.backs ll) ≤ 1 + one ((s.pc t).backs ll))
    (hst : c.uses ll = true → s.leaseLocks = some ll)
    (hdead : ∀ u l, s.pc u = .delete l → c.uses l = true → False)
    (hdel : ∀ l, c = .delete l → l = ll ∧ users s ll = one ((s.pc t).uses ll)) :
    Inv ((s.addRefs ll d).goto t c) := by
  have hu : ∀ l, users ((s.addRefs ll d).goto t c) l + one ((s.pc t).uses l) =
      users s l + one (c.uses l) := fun l => by
    simpa using users_goto (s.addRefs ll d) t c l
  have hb : ∀ l, backers ((s.addRefs ll d).goto t c) l + one ((s.pc t).backs l) =
      backers s l + one (c.backs l) := fun l => by
    simpa using backers_goto (s.addRefs ll d) t c l
  refine ⟨goto_all (P := fun c => ∀ l, c.entry = some l → l < s.next) hi.fresh hf, hi.mapped,
    refs_move hi hd fun l hl => by rw [(ho l hl).1, (ho l hl).2], fun l => ?_, fun l => ?_,
    fun l h => ?_, fun u l h => ?_⟩
  · by_cases hl : l = ll
    · subst hl; have := hu l; omega
    · have := hu l; have := hi.few l; rw [(ho l hl).1] at *; omega
  · by_cases hl : l = ll
    · subst hl; have := hb l; omega
    · have := hb l; have := hi.alone l; rw [(ho l hl).2] at *; omega
  · show s.leaseLocks = some l
    by_cases hl : c.uses l = true
    · by_cases he : l = ll
      · subst he; exact hst hl
      · rw [(ho l he).1] at hl; exact hi.stored l (users_pos hl)
    · have := hu l
      simp only [Bool.not_eq_true] at hl
      rw [hl] at this
      exact hi.stored l (by simp at this; omega)
  · have hl := hu l
    by_cases hut : u = t
    · subst hut
      rw [goto_pc_self] at h
      obtain ⟨rfl, h0⟩ := hdel l h
      subst h
      rw [show (Pc.delete l).uses l = false from rfl, one_false] at hl
      omega
    · rw [goto_pc_ne _ _ hut] at h
      have h0 := hi.dead u l h
      cases hc : c.uses l with
      | true => exact absurd hc fun hc => hdead u l h hc
      | false => rw [hc, one_false] at hl; omega

end

theorem Inv.store (hp : s.pc t = .loadOrStore) (hm : s.leaseLocks = none) :
    Inv { s.goto t (.holds s.next) with
      leaseLocks := some s.next, refs := Function.update s.refs s.next 1, next := s.next + 1 } := by
  -- Nothing is stored, so no entry has a user.
  have h0 : ∀ l, users s l = 0 := fun l => by
    have := hi.stored l
    rw [hm] at this
    by_contra h
    exact absurd (this (by omega)) (by simp)
  have hb0 : backers s s.next = 0 := by
    refine count_eq_zero.mpr fun u => ?_
    cases hc : s.pc u with
    | backOut l =>
      have : l < s.next := hi.fresh u l (by rw [hc]; rfl)
      simp; omega
    | _ => rfl
  have hu : ∀ l, users (s.goto t (.holds s.next)) l = one ((Pc.holds s.next).uses l) := fun l => by
    have := users_goto s t (.holds s.next) l
    rw [hp, h0 l] at this
    simpa using this
  have hb : ∀ l, backers (s.goto t (.holds s.next)) l = backers s l := fun l => by
    have := backers_goto s t (.holds s.next) l
    rw [hp] at this
    simpa using this
  refine ⟨fun u l h => ?_, fun l h => ?_, fun l => ?_, fun l => ?_, fun l => ?_, fun l h => ?_, fun u l h => ?_⟩
  · refine Nat.lt_succ_of_le ?_
    refine goto_all (P := fun c => ∀ l, c.entry = some l → l ≤ s.next)
      (fun u l h => Nat.le_of_lt (hi.fresh u l h)) ?_ u l h
    rintro l ⟨⟩
    exact Nat.le_refl _
  · cases h; exact Nat.lt_succ_self _
  · show Function.update s.refs s.next 1 l = addInt32 (users (s.goto t (.holds s.next)) l)
      (backers (s.goto t (.holds s.next)) l)
    rw [hu, hb]
    by_cases hl : l = s.next
    · subst hl
      rw [Function.update_self, hb0]
      simp [addInt32]
    · rw [Function.update_of_ne hl, hi.refs l, h0 l, uses_holds_ne (Ne.symm hl), one_false]
  · show users (s.goto t (.holds s.next)) l < 0x80000000
    rw [hu]; unfold one; split <;> decide
  · show backers (s.goto t (.holds s.next)) l ≤ 1
    rw [hb]; exact hi.alone l
  · change 0 < users (s.goto t (.holds s.next)) l at h
    rw [hu] at h
    by_cases hl : s.next = l
    · exact congrArg some hl
    · rw [uses_holds_ne hl, one_false] at h; omega
  · change (s.goto t (.holds s.next)).pc u = .delete l at h
    show users (s.goto t (.holds s.next)) l = 0
    have hl : l < s.next := by
      by_cases hut : u = t
      · subst hut; rw [goto_pc_self] at h; cases h
      · rw [goto_pc_ne _ _ hut] at h; exact hi.fresh u l (by rw [h]; rfl)
    rw [hu, uses_holds_ne (by omega), one_false]

theorem Inv.acquire (hp : s.pc t = .add ll) (hok : ∀ u, s.pc u ≠ .backOut ll) : Inv (step s t) := by
  have hb0 : backers s ll = 0 := by
    refine count_eq_zero.mpr fun u => ?_
    cases hc : s.pc u with
    | backOut l =>
      have : l ≠ ll := fun e => hok u (by rw [hc, e])
      simpa using this
    | _ => rfl
  have hlt : ll < s.next := hi.fresh t ll (by rw [hp]; rfl)
  have hr := hi.refs ll
  have hfew := hi.few ll
  have hother : ∀ {c : Pc} {l : Nat}, c = .backOut ll ∨ c = .holds ll → l ≠ ll →
      c.uses l = (s.pc t).uses l ∧ c.backs l = (s.pc t).backs l := by
    rintro c l (rfl | rfl) hl <;> rw [hp] <;> simp [Ne.symm hl]
  unfold step
  rw [hp]
  simp only
  split
  · refine hi.move (by simp [hp]) (fun l => hother (.inl rfl)) (by rintro l ⟨⟩; exact hlt) ?_ ?_ ?_ ?_ ?_
    · simp [hp]; omega
    · simp [hp]; omega
    · simp
    · simp
    · simp
  · -- The count was at least 1 and nobody backs out, so `ll` has a user: it is stored.
    rename_i hgt
    have hpos : 0 < users s ll ∧ users s ll + 1 < 0x80000000 := by
      rw [hr] at hgt
      unfold addInt32 at hgt
      omega
    refine hi.move (by simp [hp]) (fun l => hother (.inr rfl)) (by rintro l ⟨⟩; exact hlt) ?_ ?_ ?_ ?_ ?_
    · simp [hp]; omega
    · simp [hp]; omega
    · intro _; exact hi.stored ll hpos.1
    · intro u l hd hl
      have h0 := hi.dead u l hd
      simp only [Pc.uses, beq_iff_eq] at hl
      subst hl
      omega
    · simp

theorem Inv.backOut (hp : s.pc t = .backOut ll) : Inv (step s t) := by
  have hfew := hi.few ll
  have halone := hi.alone ll
  unfold step
  rw [hp]
  refine hi.move (by simp [hp]) (fun l hl => ?_) (by simp [Pc.entry]) ?_ ?_ (by simp) (by simp) (by simp)
  · rw [hp]; simp [Ne.symm hl]
  · simp [hp]; omega
  · simp [hp]; omega

theorem Inv.release (hp : s.pc t = .decr ll) : Inv (step s t) := by
  have hr := hi.refs ll
  have hfew := hi.few ll
  have halone := hi.alone ll
  have hpos : 0 < users s ll := users_pos (t := t) (by simp [hp])
  have hlt : ll < s.next := hi.fresh t ll (by rw [hp]; rfl)
  unfold step
  rw [hp]
  simp only
  split
  · rename_i h0
    have hlast : users s ll = 1 := by
      rw [hr] at h0
      unfold addInt32 at h0
      omega
    refine hi.move (by simp [hp]) (fun l hl => ?_) (by rintro l ⟨⟩; exact hlt) ?_ ?_ (by simp) (by simp) ?_
    · rw [hp]; simp [Ne.symm hl]
    · simp [hp]; omega
    · simp [hp]; omega
    · rintro l ⟨⟩; exact ⟨rfl, by simp [hp, hlast]⟩
  · refine hi.move (by simp [hp]) (fun l hl => ?_) (by simp [Pc.entry]) ?_ ?_ (by simp) (by simp) (by simp)
    · rw [hp]; simp [Ne.symm hl]
    · simp [hp]; omega
    · simp [hp]; omega

theorem Inv.delete (hp : s.pc t = .delete ll) : Inv (step s t) := by
  have hq : Inv (s.goto t .loadOrStore) :=
    hi.quiet (by simp [hp]) (by simp [hp]) (by simp [Pc.entry]) (by simp)
  have h0 : users (s.goto t .loadOrStore) ll = 0 := by
    have := users_goto s t .loadOrStore ll
    rw [hp, hi.dead t ll hp] at this
    simpa using this
  unfold step
  rw [hp]
  refine { hq with mapped := fun l h => ?_, stored := fun l h => ?_ }
  · dsimp only at h
    split at h
    · cases h
    · exact hi.mapped l h
  · have hs : s.leaseLocks = some l := hq.stored l h
    have hne : l ≠ ll := by
      rintro rfl
      change 0 < users (s.goto t .loadOrStore) l at h
      omega
    dsimp only
    rw [if_neg (by rw [hs]; simpa using hne)]
    exact hs

theorem Inv.step (hok : NoOverlap s t) : Inv (step s t) := by
  cases hp : s.pc t with
  | loadOrStore =>
    cases hm : s.leaseLocks with
    | none => simp only [LeaseLock.step, hp, hm]; exact hi.store hp hm
    | some ll =>
      simp only [LeaseLock.step, hp, hm]
      exact hi.quiet (by simp [hp]) (by simp [hp]) (by rintro l ⟨⟩; exact hi.mapped ll hm) (by simp)
  | add ll => exact hi.acquire hp (hok ll hp)
  | backOut ll => exact hi.backOut hp
  | holds ll =>
    simp only [LeaseLock.step, hp]
    exact hi.quiet (by simp [hp]) (by simp [hp])
      (by rintro l ⟨⟩; exact hi.fresh t ll (by rw [hp]; rfl)) (by simp)
  | load ll =>
    -- The caller is a user of its own entry, so `Load` gives that entry.
    have hm : s.leaseLocks = some ll := hi.stored ll (users_pos (t := t) (by simp [hp]))
    simp only [LeaseLock.step, hp, hm]
    exact hi.quiet (by simp [hp]) (by simp [hp]) (by rintro l ⟨⟩; exact hi.mapped ll hm) (by simp)
  | decr ll => exact hi.release hp
  | delete ll => exact hi.delete hp

end

theorem Inv.start : Inv (start : St n) := by
  have hu : ∀ ll, users (LeaseLock.start : St n) ll = 0 := fun ll =>
    count_eq_zero.mpr fun _ => rfl
  have hb : ∀ ll, backers (LeaseLock.start : St n) ll = 0 := fun ll =>
    count_eq_zero.mpr fun _ => rfl
  refine ⟨fun t ll h => ?_, fun ll h => ?_, fun ll => ?_, fun ll => ?_, fun ll => ?_,
    fun ll h => ?_, fun t ll h => ?_⟩
  · cases h
  · cases h
  · rw [hu, hb]; rfl
  · rw [hu]; decide
  · rw [hb]; decide
  · rw [hu] at h; omega
  · cases h

theorem inductive_inv : (sys n).InductiveIf NoOverlap Inv where
  init s hs := by rw [hs]; exact Inv.start
  step s t s' hi hok hst := by cases hst; exact hi.step hok

/-- **The lock is one lock** in every run whose steps meet `NoOverlap`: all goroutines between
`acquireLeaseLock` and `releaseLeaseLock` hold the mutex that `leaseLocks` stores. -/
theorem sameLock_of_noOverlap {s : St n} (hs : (sys n).ReachIf NoOverlap s) : SameLock s := by
  intro t ll h
  exact (inductive_inv.reach hs).stored ll (users_pos (t := t) (by simp [h]))

/-- Two goroutines that acquire one after the other share the stored mutex. -/
theorem sameLock_twoUsers : ∃ s : St 2, (sys 2).ReachIf NoOverlap s ∧ s.pc 0 = .holds 0 ∧
    s.pc 1 = .holds 0 ∧ SameLock s := by
  have h0 : (sys 2).ReachIf NoOverlap start := .init rfl
  have h1 := h0.step (a := 0) (by simp [NoOverlap, start]) rfl
  have h2 := h1.step (a := 1) (by simp [NoOverlap, step, start, St.goto]) rfl
  have h3 := h2.step (a := 1) (fun ll _ => Fin.forall_fin_two.mpr
    ⟨show Pc.holds 0 ≠ .backOut ll by simp, show Pc.add 0 ≠ .backOut ll by simp⟩) rfl
  exact ⟨_, h3, by decide, by decide, sameLock_of_noOverlap h3⟩

end Jumpstarter.LeaseLock
