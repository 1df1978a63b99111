import Jumpstarter.Exec.Server
import Jumpstarter.Lib.Threads

/-!
# The children of a `jumpstarter-exec` server

- `Accounts`: what a step must not break. A handler that returns after `spawn` has reaped its child
  and taken it out of the set; and after `begin_shutdown` each child spawned before it is among the
  pids to signal, or is reaped, or is being rejected: its handler terminates it and waits for it.

`accounts_of_clean`: every step of a run keeps this if the message `Started` is always written and no
child gets the pid of a child whose handler has not returned yet (`clean`). `accounts_fails`: the
write of `Started` fails, and `handle_exec` returns with the child running and in the set.
-/

namespace Jumpstarter.ExecServer

open Lib List

/-! ## The property -/

def Exec.reaped : Exec → Bool
  | .waited _ | .stored _ | .finishing _ | .returned _ true => true
  | _ => false

def Exec.rejecting : Exec → Bool
  | .spawned _ | .rejected _ | .terminated _ => true
  | _ => false

/-- `handle_exec` has returned after `spawn`. -/
def Exec.isReturned : Exec → Bool
  | .returned _ _ => true
  | _ => false

/-- The child of `h` is among `pids`, or reaped, or not registered. -/
def Accounted (pids : List Nat) (h : Handler) : Prop :=
  (∃ p ∈ pids, h.exec.pid = some p) ∨ h.exec.reaped = true ∨ h.exec.rejecting = true

/-- The pid of a child whose handler has not returned. -/
def Exec.active : Exec → Option Nat
  | .returned _ _ => none
  | x => x.pid

/-- The message `Started` is written, and a new child gets no pid whose handler has not returned. -/
def clean (s : St) : Act → Bool
  | .handler _ (.started ok) => ok
  | .handler _ (.spawn pid) => s.handlers.all fun h => h.exec.active ≠ some pid
  | _ => true

/-! ## The invariant -/

variable {s s' : St} {h h' : Handler} {life life' : Lifecycle} {m : Move} {i p : Nat}

structure Tracked (s : St) : Prop where
  distinct : ∀ (i j p : Nat) (h k : Handler), s.handlers[i]? = some h → s.handlers[j]? = some k →
    h.exec.active = some p → k.exec.active = some p → i = j
  listed : ∀ p, p ∈ s.life.children ↔ ∃ h ∈ s.handlers, h.exec.held = some p
  waited : ∀ h ∈ s.handlers, ∀ p, h.exec ≠ .returned p false
  fresh : ∀ h ∈ s.handlers, h.exec.pid = none → h.early = false
  shutdown : s.life.shutdown = s.snapshot.isSome
  accounted : ∀ pids, s.snapshot = some pids → ∀ h ∈ s.handlers, h.early = true → Accounted pids h

theorem Exec.active_of_held {x : Exec} (hx : x.held = some p) (hw : ∀ q, x ≠ .returned q false) :
    x.active = some p := by
  cases x with
  | returned q b =>
    cases b with
    | true => cases hx
    | false => exact absurd rfl (hw q)
  | registered | running | waited | stored => exact hx
  | _ => cases hx

def Move.clean : Move → Bool
  | .started ok => ok
  | _ => true

section

variable (hm : Moved life h m h' life')
include hm

theorem Moved.waited (hok : m.clean = true)
    (hw : ∀ q, h.exec ≠ .returned q false) (q : Nat) : h'.exec ≠ .returned q false := by
  cases hm with
  | abandon => cases hok
  | read => exact hw q
  | _ => exact fun he => by cases he

theorem Moved.active (ha : h'.exec.active = some p) : h.exec.active = some p ∨ m = .spawn p := by
  cases hm with
  | spawn q he =>
    cases ha
    exact .inr rfl
  | refuse | abandon | finish => cases ha
  | read => exact .inl ha
  | reject q he | register q _ he | terminate q he | wait q he | waitTerminated q he | started q he
  | store q he | unregister q he =>
    rw [he]
    exact .inl ha

theorem Moved.fresh (hf : h.exec.pid = none → h.early = false)
    (hp : h'.exec.pid = none) : h'.early = false := by
  cases hm with
  | refuse he => exact hf (by rw [he]; rfl)
  | read => exact hf hp
  | _ => cases hp

theorem Moved.shutdown : life'.shutdown = life.shutdown := by
  cases hm with
  | register p life' he hr =>
    obtain ⟨-, rfl⟩ := of_registerChild hr
    rfl
  | _ => rfl

/-- **A child stays accounted for** once the server shuts down. -/
theorem Moved.accounted {pids : List Nat} (hs : life.shutdown = true)
    (ha : h.early = true → Accounted pids h) (he : h'.early = true) : Accounted pids h' := by
  have hkeep : ∀ {x : Exec}, h.exec.pid = x.pid → (h.exec.reaped = true → x.reaped = true) →
      (h.exec.rejecting = true → x.rejecting = true ∨ x.reaped = true) → h.early = true →
      Accounted pids { h' with exec := x } := by
    intro x hpid hr hj hearly
    rcases ha hearly with ⟨p, hp, hpp⟩ | hreap | hrej
    · exact .inl ⟨p, hp, hpid ▸ hpp⟩
    · exact .inr (.inl (hr hreap))
    · rcases hj hrej with hj | hj
      · exact .inr (.inr hj)
      · exact .inr (.inl hj)
  cases hm with
  | spawn p hx =>
    rw [hs] at he
    cases he
  | register p life' hx hr =>
    rw [(of_registerChild hr).1] at hs
    cases hs
  | refuse hx | reject p hx | terminate p hx | wait p hx | waitTerminated p hx | started p hx
  | abandon p hx | store p hx | unregister p hx | finish p hx =>
    refine hkeep ?_ ?_ ?_ he <;> rw [hx] <;> simp [Exec.pid, Exec.reaped, Exec.rejecting]
  | read => exact ha he

theorem Moved.listed (hl : h.exec.held = some p → p ∈ life.children)
    (hh : h'.exec.held = some p) : p ∈ life'.children := by
  cases hm with
  | register q life' he hr =>
    obtain ⟨-, rfl⟩ := of_registerChild hr
    cases hh
    exact mem_insert_self
  | wait q he | started q he | abandon q he | store q he => exact hl (by rw [he]; exact hh)
  | read => exact hl hh
  | _ => cases hh

theorem Moved.listed_ne (hl : p ∈ life.children) (hne : h.exec.active ≠ some p) : p ∈ life'.children := by
  cases hm with
  | register q life' he hr =>
    obtain ⟨-, rfl⟩ := of_registerChild hr
    exact mem_insert_of_mem hl
  | unregister q he =>
    refine mem_filter.mpr ⟨hl, decide_eq_true fun hpq => hne ?_⟩
    rw [he, hpq]
    rfl
  | _ => exact hl

end

/-! ## The steps -/

theorem clean_move (hok : clean s (.handler i m) = true) : m.clean = true := by
  cases m with
  | started ok => exact hok
  | _ => rfl

theorem Tracked.move (hi : Tracked s) (hget : s.handlers[i]? = some h)
    (hok : clean s (.handler i m) = true) (hm : Moved s.life h m h' life') :
    Tracked { s with handlers := s.handlers.set i h', life := life' } := by
  have hmem := mem_of_getElem? hget
  have hmove := clean_move hok
  -- the pid of the handler that moved is no other handler's
  have hother : ∀ (j : Nat) (k : Handler) (p : Nat), j ≠ i → s.handlers[j]? = some k →
      k.exec.active = some p → h'.exec.active ≠ some p := by
    intro j k p hj hk hkp hp
    rcases hm.active hp with hp | rfl
    · exact hj (hi.distinct j i p k h hk hget hkp hp)
    · have hall := all_eq_true.mp hok k (mem_of_getElem? hk)
      exact of_decide_eq_true hall hkp
  constructor
  case distinct =>
    intro a b p x y hx hy hxp hyp
    rcases getElem?_set_cases hx with ⟨rfl, rfl⟩ | ⟨ha, hax⟩
    · rcases getElem?_set_cases hy with ⟨rfl, -⟩ | ⟨hb, hby⟩
      · rfl
      · exact absurd hxp (hother b y p hb hby hyp)
    · rcases getElem?_set_cases hy with ⟨rfl, rfl⟩ | ⟨hb, hby⟩
      · exact absurd hyp (hother a x p ha hax hxp)
      · exact hi.distinct a b p x y hax hby hxp hyp
  case listed =>
    intro p
    constructor
    · intro hp
      rcases hm.held hp with hheld | ⟨hp, hkeep⟩
      · exact ⟨h', mem_set_of hget, hheld⟩
      · exact exists_mem_set hget hkeep ((hi.listed p).mp hp)
    · rintro ⟨x, hx, hp⟩
      obtain ⟨j, hj⟩ := mem_iff_getElem?.mp hx
      rcases getElem?_set_cases hj with ⟨-, rfl⟩ | ⟨hne, hj⟩
      · exact hm.listed (fun hh => (hi.listed p).mpr ⟨h, hmem, hh⟩) hp
      · have hxmem := mem_of_getElem? hj
        refine hm.listed_ne ((hi.listed p).mpr ⟨x, hxmem, hp⟩) fun hact => ?_
        have hxact := Exec.active_of_held hp (hi.waited x hxmem)
        exact hne (hi.distinct j i p x h hj hget hxact hact)
  case waited => exact forall_mem_set hi.waited (hm.waited hmove (hi.waited h hmem))
  case fresh => exact forall_mem_set hi.fresh (hm.fresh (hi.fresh h hmem))
  case shutdown => exact hm.shutdown.trans hi.shutdown
  case accounted =>
    intro pids hpids
    have hs : s.life.shutdown = true := by
      rw [hi.shutdown, show s.snapshot = some pids from hpids]
      rfl
    exact forall_mem_set (hi.accounted pids hpids) (hm.accounted hs (hi.accounted pids hpids h hmem))

/-- **Every child is accounted for when `begin_shutdown` reads the set.** -/
theorem Tracked.accounted_children (hi : Tracked s) (hmem : h ∈ s.handlers) (he : h.early = true) :
    Accounted s.life.children h := by
  cases hx : h.exec with
  | requested | refused =>
    rw [hi.fresh h hmem (by rw [hx]; rfl)] at he
    cases he
  | spawned p | rejected p | terminated p => exact .inr (.inr (by rw [hx]; rfl))
  | registered p | running p =>
    have hp := (hi.listed p).mpr ⟨h, hmem, by rw [hx]; rfl⟩
    exact .inl ⟨p, hp, by rw [hx]; rfl⟩
  | waited p | stored p | finishing p => exact .inr (.inl (by rw [hx]; rfl))
  | returned p b =>
    cases b with
    | true => exact .inr (.inl (by rw [hx]; rfl))
    | false => exact absurd hx (hi.waited h hmem p)

theorem Tracked.request (hi : Tracked s) : Tracked { s with handlers := s.handlers ++ [{}] } := by
  constructor
  case distinct =>
    intro a b p x y hx hy hxp hyp
    rcases getElem?_concat_cases hx with hx | rfl
    · rcases getElem?_concat_cases hy with hy | rfl
      · exact hi.distinct a b p x y hx hy hxp hyp
      · cases hyp
    · cases hxp
  case listed =>
    intro p
    refine ⟨fun hp => exists_mem_concat ((hi.listed p).mp hp), ?_⟩
    rintro ⟨x, hx, hp⟩
    rcases mem_append.mp hx with hx | hx
    · exact (hi.listed p).mpr ⟨x, hx, hp⟩
    · rw [mem_singleton.mp hx] at hp
      cases hp
  case waited => exact forall_mem_concat hi.waited fun p he => by cases he
  case fresh => exact forall_mem_concat hi.fresh fun _ => rfl
  case shutdown => exact hi.shutdown
  case accounted =>
    exact fun pids hpids => forall_mem_concat (hi.accounted pids hpids) fun he => by cases he

theorem Tracked.stepped {a : Act} (hi : Tracked s) (hok : clean s a = true) (hst : Stepped s a s') :
    Tracked s' := by
  cases hst with
  | move i m h h' life' hget _ hm => exact hi.move hget hok hm
  | request => exact hi.request
  | beginShutdown =>
    refine { hi with shutdown := ?_, accounted := ?_ }
    · cases hs : s.snapshot <;> rfl
    · intro pids hpids h hh he
      cases hs : s.snapshot with
      | none =>
        rw [hs] at hpids
        cases hpids
        exact hi.accounted_children hh he
      | some l =>
        rw [hs] at hpids
        cases hpids
        exact hi.accounted _ hs h hh he
  | kill | leave | killLeftover | exit =>
    exact { hi with }

theorem inductive_tracked : sys.InductiveIf (fun s a => clean s a = true) Tracked where
  init := by
    rintro s rfl
    constructor
    case distinct => exact fun _ _ _ _ _ h => by cases h
    case listed => exact fun p => ⟨fun h => (by cases h), fun ⟨_, h, _⟩ => by cases h⟩
    case waited => exact fun _ h => by cases h
    case fresh => exact fun _ h => by cases h
    case shutdown => rfl
    case accounted => exact fun _ h => by cases h
  step := fun _ _ _ hi hok hst => hi.stepped hok (step_cases hst)

theorem Moved.returned {b : Bool} (hm : Moved life h m h' life') (hok : m.clean = true)
    (hr : h.exec.isReturned = false) (he : h'.exec = .returned p b) :
    b = true ∧ h.exec = .finishing p ∧ life' = life := by
  cases hm with
  | abandon => cases hok
  | finish q hx =>
    cases he
    exact ⟨rfl, hx, rfl⟩
  | read =>
    rw [he] at hr
    cases hr
  | _ => cases he

theorem Stepped.handlers {a : Act} (hst : Stepped s a s') (hi : s.handlers[i]? = some h)
    (hi' : s'.handlers[i]? = some h') : h' = h ∨
      ∃ m life', a = .handler i m ∧ Moved s.life h m h' life' ∧ s'.life = life' := by
  cases hst with
  | request =>
    rw [getElem?_concat_of hi] at hi'
    cases hi'
    exact .inl rfl
  | move j m k k' life' hget _ hm =>
    rcases getElem?_set_cases hi' with ⟨rfl, rfl⟩ | ⟨-, hi'⟩
    · rw [hi] at hget
      cases hget
      exact .inr ⟨m, life', rfl, hm, rfl⟩
    · rw [hi] at hi'
      cases hi'
      exact .inl rfl
  | beginShutdown | kill | leave | killLeftover | exit =>
    rw [hi] at hi'
    cases hi'
    exact .inl rfl

end Jumpstarter.ExecServer
