/-!
# Flashing a staged image (`BaseFlasherClient.flash`)

An image that is not fetched by the device itself is staged in the exporter's HTTP storage by a thread
(`_transfer_bg_thread`), while the device boots. Each attempt of the retry loop waits for the thread
before it sends the flash command (`_wait_for_storage_thread`) and raises the thread's exception if it
finds it in the queue. The thread is started once.

`flash` is the method from the start of the thread on. What goes wrong is an input: the end of the
thread, and for each attempt the exceptions before the wait, before the flash command, after it and on
leaving the console.

`safeTransfer_iff`: the first attempt that waits takes the exception of a failed transfer out of the queue.
A later one finds the thread ended and the queue empty, and flashes what is in the storage.
-/

namespace Jumpstarter.BaseFlasherClient

open Option

/-! ## Exceptions -/

/-- The classes of exceptions that the retry loop tells apart; `cancelled` is the `CancelledError` of
`concurrent.futures`. -/
inductive ExcClass where
  | flashNonRetryable | flashRetryable | cancelled | configuration | other
  deriving DecidableEq

/-- An `Exception`: its class, the name of its type, its text, the members of an `ExceptionGroup` and
`__cause__`. -/
inductive Exc where
  | mk (cls : ExcClass) (typeName text : String) (exceptions : List Exc) (cause : Option Exc)

def Exc.cls : Exc → ExcClass
  | .mk cls _ _ _ _ => cls

@[simp] theorem Exc.cls_mk {cls : ExcClass} {typeName text : String} {exceptions : List Exc}
    {cause : Option Exc} : (Exc.mk cls typeName text exceptions cause).cls = cls := rfl

def Exc.typeName : Exc → String
  | .mk _ typeName _ _ _ => typeName

def Exc.text : Exc → String
  | .mk _ _ text _ _ => text

mutual

def findExceptionInChain (target : ExcClass) : Exc → Option Exc
  | .mk cls typeName text exceptions cause =>
    (findInGroup target exceptions).or
      (if cls = target then some (.mk cls typeName text exceptions cause)
       else findInCauses target cause)

def findInGroup (target : ExcClass) : List Exc → Option Exc
  | [] => none
  | e :: es => (findExceptionInChain target e).or (findInGroup target es)

def findInCauses (target : ExcClass) : Option Exc → Option Exc
  | none => none
  | some (.mk cls typeName text exceptions cause) =>
    if cls = target then some (.mk cls typeName text exceptions cause)
    else (findInGroup target exceptions).or (findInCauses target cause)

end

def categorizeException (e : Exc) : Exc :=
  match findExceptionInChain .flashNonRetryable e with
  | some found => found
  | none =>
    match findExceptionInChain .flashRetryable e with
    | some found => found
    | none =>
      if e.cls = .cancelled then
        .mk .flashNonRetryable "FlashNonRetryableError" "Operation cancelled" [] none
      else
        match findExceptionInChain .configuration e with
        | some found => .mk .flashNonRetryable "FlashNonRetryableError" found.text [] none
        | none =>
          .mk .flashRetryable "FlashRetryableError"
            ("Unknown error occurred: " ++ e.typeName ++ ": " ++ e.text) [] (some e)

/-- What is raised: an `Exception`, or a `BaseException` that is none. -/
inductive Raise where
  | exception (e : Exc)
  | base

/-! ## The transfer -/

inductive Transfer where
  | succeeds
  /-- It raises an `Exception`, before or after `flash` looks at the queue for the first time. -/
  | fails (e : Exc) (early : Bool)
  /-- It raises a `BaseException` that is no `Exception`. -/
  | dies

def Transfer.failed : Transfer → Bool
  | .succeeds => false
  | _ => true

/-- `_transfer_bg_thread`: the queue when it has ended. -/
def transferBgThread : Transfer → List Exc
  | .fails e _ => [e]
  | _ => []

/-- The queue when `flash` looks at it before the first attempt. -/
def earlyQueue : Transfer → List Exc
  | .fails e true => [e]
  | _ => []

/-! ## An attempt -/

/-- What is raised in an attempt, where it gets so far. -/
structure Attempt where
  before : Option Raise := none
  unsent : Option Raise := none
  sent : Option Raise := none
  leaving : Option Raise := none

structure Performed where
  sent : Bool
  queue : List Exc
  raised : Option Raise

/-- `_perform_flash_operation` after the thread has ended. -/
def performFlashOperation (a : Attempt) (queue : List Exc) : Performed :=
  match a.before with
  | some r => ⟨false, queue, a.leaving.or (some r)⟩
  | none =>
    -- `_wait_for_storage_thread`
    match queue with
    | e :: queue => ⟨false, queue, a.leaving.or (some (.exception e))⟩
    | [] =>
      match a.unsent with
      | some r => ⟨false, [], a.leaving.or (some r)⟩
      | none => ⟨true, [], a.leaving.or a.sent⟩

/-! ## The method -/

/-- The inputs of `flash`. -/
structure Env where
  retries : Int := 3
  transfer : Transfer
  /-- What `setup_flasher_bundle` raises. -/
  setup : Option Raise := none
  starting : Option Raise := none
  attempts : Nat → Attempt
  stopping : Option Raise := none

/-- What `flash` did. -/
structure Flashed where
  sent : Bool
  raised : Option Raise

/-- The `FlashError` of the retry loop. -/
def flashError (text : String) (cause : Exc) : Raise :=
  .exception (.mk .other "FlashError" text [] (some cause))

/-- The retry loop, with `n` attempts left. -/
def retryLoop (env : Env) : (n attempt : Nat) → (queue : List Exc) → Flashed
  | 0, _, _ => ⟨false, none⟩
  | n + 1, attempt, queue =>
    let p := performFlashOperation (env.attempts attempt) queue
    match p.raised with
    | none => ⟨p.sent, none⟩
    | some .base => ⟨p.sent, some .base⟩
    | some (.exception e) =>
      let error := categorizeException e
      if error.cls = .flashNonRetryable then
        ⟨p.sent, some (flashError ("Flash operation failed: " ++ error.text) e)⟩
      else if attempt < env.retries then
        let rest := retryLoop env n (attempt + 1) p.queue
        ⟨p.sent || rest.sent, rest.raised⟩
      else
        ⟨p.sent, some (flashError ("Flash operation failed after " ++ toString (env.retries + 1) ++
          " attempts. Last error: " ++ error.text) e)⟩

def flash (env : Env) : Flashed :=
  match env.setup with
  | some r => ⟨false, some r⟩
  | none =>
    match earlyQueue env.transfer with
    | e :: _ => ⟨false, some (.exception e)⟩
    | [] =>
      match env.starting with
      | some r => ⟨false, env.stopping.or (some r)⟩
      | none =>
        let o := retryLoop env (env.retries + 1).toNat 0 (transferBgThread env.transfer)
        { o with raised := env.stopping.or o.raised }

/-- If the transfer fails, no flash command is sent and `flash` raises. -/
def SafeTransfer (env : Env) : Prop :=
  env.transfer.failed = true → (flash env).sent = false ∧ (flash env).raised.isSome = true

/-! ## Which exceptions are retried -/

variable {target : ExcClass} {found : Exc}

/-- `x` is `e`, or it is found through members of groups and causes. -/
inductive Reachable (x : Exc) : Exc → Prop where
  | self : Reachable x x
  | member {cls typeName text exceptions cause e} : e ∈ exceptions → Reachable x e →
    Reachable x (.mk cls typeName text exceptions cause)
  | cause {cls typeName text exceptions e} : Reachable x e →
    Reachable x (.mk cls typeName text exceptions (some e))

mutual

theorem findExceptionInChain_some :
    ∀ {e : Exc}, findExceptionInChain target e = some found → Reachable found e ∧ found.cls = target
  | .mk cls typeName text exceptions cause, h => by
    rw [findExceptionInChain, Option.or_eq_some_iff] at h
    rcases h with h | ⟨-, h⟩
    · obtain ⟨e, he, hr, hc⟩ := findInGroup_some h
      exact ⟨.member he hr, hc⟩
    · split at h
      · cases h
        exact ⟨.self, ‹_›⟩
      · obtain ⟨e, rfl, hr, hc⟩ := findInCauses_some h
        exact ⟨.cause hr, hc⟩

theorem findInGroup_some : ∀ {es : List Exc}, findInGroup target es = some found →
    ∃ e ∈ es, Reachable found e ∧ found.cls = target
  | [], h => by cases h
  | e :: es, h => by
    rw [findInGroup, Option.or_eq_some_iff] at h
    rcases h with h | ⟨-, h⟩
    · exact ⟨e, List.mem_cons_self, findExceptionInChain_some h⟩
    · obtain ⟨e', he, hfound⟩ := findInGroup_some h
      exact ⟨e', List.mem_cons_of_mem e he, hfound⟩

theorem findInCauses_some : ∀ {cause : Option Exc}, findInCauses target cause = some found →
    ∃ e, cause = some e ∧ Reachable found e ∧ found.cls = target
  | none, h => by cases h
  | some (.mk cls typeName text exceptions cause), h => by
    rw [findInCauses] at h
    split at h
    · cases h
      exact ⟨_, rfl, .self, ‹_›⟩
    · rw [Option.or_eq_some_iff] at h
      rcases h with h | ⟨-, h⟩
      · obtain ⟨e, he, hr, hc⟩ := findInGroup_some h
        exact ⟨_, rfl, .member he hr, hc⟩
      · obtain ⟨e, rfl, hr, hc⟩ := findInCauses_some h
        exact ⟨_, rfl, .cause hr, hc⟩

end

theorem findInGroup_isSome {e : Exc} {es : List Exc} (he : e ∈ es)
    (h : (findExceptionInChain target e).isSome = true) : (findInGroup target es).isSome = true := by
  induction es with
  | nil => cases he
  | cons e' es ih =>
    rw [findInGroup, isSome_or, Bool.or_eq_true]
    rcases List.mem_cons.mp he with rfl | he
    · exact .inl h
    · exact .inr (ih he)

/-- The walk along the causes looks at them in another order, and finds as much. -/
theorem findInCauses_isSome (e : Exc) :
    (findInCauses target (some e)).isSome = (findExceptionInChain target e).isSome := by
  obtain ⟨cls, typeName, text, exceptions, cause⟩ := e
  rw [findInCauses, findExceptionInChain]
  split <;> simp

theorem findExceptionInChain_isSome (e : Exc) :
    (findExceptionInChain target e).isSome = true ↔ ∃ x, Reachable x e ∧ x.cls = target := by
  constructor
  · intro h
    obtain ⟨found, hfound⟩ := isSome_iff_exists.mp h
    exact ⟨found, findExceptionInChain_some hfound⟩
  · rintro ⟨x, hr, rfl⟩
    induction hr with
    | self =>
      obtain ⟨cls, typeName, text, exceptions, cause⟩ := x
      simp [findExceptionInChain]
    | member he _ ih =>
      rw [findExceptionInChain, isSome_or, findInGroup_isSome he ih, Bool.true_or]
    | cause _ ih =>
      rw [← findInCauses_isSome] at ih
      rw [findExceptionInChain, isSome_or, Bool.or_eq_true]
      right
      split
      · rfl
      · exact ih

/-- An exception is not retried if there is a `FlashNonRetryableError` in its chain; or no
`FlashRetryableError`, and it is a `CancelledError` or has a `ConfigurationError` in its chain. -/
theorem categorizeException_cls (e : Exc) :
    (categorizeException e).cls = .flashNonRetryable ↔
      (findExceptionInChain .flashNonRetryable e).isSome = true ∨
      ((findExceptionInChain .flashRetryable e).isSome = false ∧
        (e.cls = .cancelled ∨ (findExceptionInChain .configuration e).isSome = true)) := by
  unfold categorizeException
  cases hn : findExceptionInChain .flashNonRetryable e with
  | some found => simp [(findExceptionInChain_some hn).2]
  | none =>
    cases hr : findExceptionInChain .flashRetryable e with
    | some found => simp [(findExceptionInChain_some hr).2]
    | none =>
      by_cases hcancelled : e.cls = .cancelled
      · simp [hcancelled]
      · cases findExceptionInChain .configuration e with
        | some found => simp [hcancelled]
        | none => simp [hcancelled]

/-- **The classification is complete.** The search finds an exception of a class exactly if one is reachable, so an
exception that is not retried is known by what is reachable from it. -/
theorem classification_complete (e : Exc) :
    (∀ target, (∃ found, findExceptionInChain target e = some found ∧ found.cls = target) ↔
      ∃ x, Reachable x e ∧ x.cls = target) ∧
    ((categorizeException e).cls = .flashNonRetryable ↔
      (∃ x, Reachable x e ∧ x.cls = .flashNonRetryable) ∨
      (¬∃ x, Reachable x e ∧ x.cls = .flashRetryable) ∧
        (e.cls = .cancelled ∨ ∃ x, Reachable x e ∧ x.cls = .configuration)) := by
  refine ⟨fun target => ?_, ?_⟩
  · rw [← findExceptionInChain_isSome, isSome_iff_exists]
    exact exists_congr fun found => ⟨And.left, fun h => ⟨h, (findExceptionInChain_some h).2⟩⟩
  · rw [categorizeException_cls, ← Bool.not_eq_true]
    simp only [findExceptionInChain_isSome]

/-! ## The attempts, one after the other -/

def isRetried : Option Raise → Bool
  | some (.exception e) => (categorizeException e).cls ≠ .flashNonRetryable
  | _ => false

/-- The attempt gets to the wait for the thread. -/
def Attempt.waits (a : Attempt) : Bool := a.before.isNone

def Attempt.sends (a : Attempt) : Bool := a.before.isNone && a.unsent.isNone

/-- What the attempt raises, if it finds this queue. -/
def Attempt.raises (a : Attempt) (queue : List Exc) : Option Raise :=
  a.leaving.or (a.before.or ((queue.head?.map .exception).or (a.unsent.or a.sent)))

theorem performFlashOperation_eq (a : Attempt) (queue : List Exc) :
    performFlashOperation a queue =
      { sent := a.sends && queue.isEmpty
        queue := if a.waits then queue.tail else queue
        raised := a.raises queue } := by
  unfold performFlashOperation Attempt.sends Attempt.waits Attempt.raises
  cases a.before with
  | some r => simp
  | none =>
    cases queue with
    | cons e queue => simp
    | nil => cases a.unsent <;> simp

theorem Attempt.sends_of_raises {a : Attempt} {queue : List Exc} (h : a.raises queue = none) :
    (a.sends && queue.isEmpty) = true := by
  unfold Attempt.raises at h
  simp only [or_eq_none_iff, map_eq_none_iff, List.head?_eq_none_iff] at h
  simp [Attempt.sends, h.2.1, h.2.2.1, h.2.2.2.1]

section Loop

variable (env : Env)

/-- One of the first `i` attempts gets to the wait. -/
def waitedBefore (i : Nat) : Bool := (List.range i).any fun m => (env.attempts m).waits

/-- The queue before attempt `i`: the first attempt that waits empties it. -/
def queueAt (i : Nat) : List Exc := if waitedBefore env i then [] else transferBgThread env.transfer

/-- Attempt `i` sends the flash command, if the loop gets to it. -/
def flashes (i : Nat) : Bool := (env.attempts i).sends && (queueAt env i).isEmpty

/-- The loop goes on after attempt `i`, if there are attempts left. -/
def goesOn (i : Nat) : Bool := isRetried ((env.attempts i).raises (queueAt env i))

theorem queueAt_succ (i : Nat) :
    queueAt env (i + 1) = if (env.attempts i).waits then (queueAt env i).tail else queueAt env i := by
  have htail : (transferBgThread env.transfer).tail = [] := by cases env.transfer <;> rfl
  unfold queueAt waitedBefore
  simp only [List.range_succ, List.any_append, List.any_cons, List.any_nil, Bool.or_false]
  cases (List.range i).any fun m => (env.attempts m).waits with
  | true => simp
  | false => by_cases hwaits : (env.attempts i).waits = true <;> simp [hwaits, htail]

variable {n i : Nat}

theorem retryLoop_sent (h : (i : Int) + n = env.retries) :
    (retryLoop env (n + 1) i (queueAt env i)).sent =
      (flashes env i || (goesOn env i && (retryLoop env n (i + 1) (queueAt env (i + 1))).sent)) := by
  rw [retryLoop, performFlashOperation_eq, ← queueAt_succ]
  unfold flashes goesOn isRetried
  cases (env.attempts i).raises (queueAt env i) with
  | none => simp
  | some r =>
    cases r with
    | base => simp
    | exception e =>
      by_cases hstop : (categorizeException e).cls = .flashNonRetryable
      · simp [hstop]
      · by_cases hleft : (i : Int) < env.retries
        · simp [hstop, hleft]
        · -- the last attempt: nothing is left of the loop
          have hn : n = 0 := by omega
          simp [hstop, hleft, hn, retryLoop]

theorem retryLoop_raised (h : (i : Int) + n = env.retries)
    (hsent : (retryLoop env (n + 1) i (queueAt env i)).sent = false) :
    (retryLoop env (n + 1) i (queueAt env i)).raised.isSome = true := by
  induction n generalizing i with
  | zero =>
    rw [retryLoop, performFlashOperation_eq] at hsent ⊢
    have hlast : ¬ (i : Int) < env.retries := by omega
    cases hr : (env.attempts i).raises (queueAt env i) with
    | none => simp [hr, Attempt.sends_of_raises hr] at hsent
    | some r =>
      cases r with
      | base => rfl
      | exception e =>
        by_cases hstop : (categorizeException e).cls = .flashNonRetryable <;> simp [hstop, hlast]
  | succ n ih =>
    rw [retryLoop_sent env h, Bool.or_eq_false_iff] at hsent
    rw [retryLoop, performFlashOperation_eq, ← queueAt_succ]
    have hleft : (i : Int) < env.retries := by omega
    cases hr : (env.attempts i).raises (queueAt env i) with
    | none => simp [flashes, Attempt.sends_of_raises hr] at hsent
    | some r =>
      cases r with
      | base => rfl
      | exception e =>
        by_cases hstop : (categorizeException e).cls = .flashNonRetryable
        · simp [hstop]
        · have hgoes : goesOn env i = true := by simp [goesOn, hr, isRetried, hstop]
          have hrest := hsent.2
          rw [hgoes, Bool.true_and] at hrest
          have hnext : ((i + 1 : Nat) : Int) + n = env.retries := by omega
          simpa [hstop, hleft] using ih hnext hrest

theorem retryLoop_sent_eq_false (h : (i : Int) + n = env.retries + 1) :
    (retryLoop env n i (queueAt env i)).sent = false ↔
      ∀ j, i ≤ j → j < i + n → flashes env j = true → ∃ m, i ≤ m ∧ m < j ∧ goesOn env m = false := by
  induction n generalizing i with
  | zero =>
    refine ⟨fun _ j hij hj => ?_, fun _ => rfl⟩
    omega
  | succ n ih =>
    have hnext : ((i + 1 : Nat) : Int) + n = env.retries + 1 := by omega
    rw [retryLoop_sent env (by omega), Bool.or_eq_false_iff, Bool.and_eq_false_iff, ih hnext]
    constructor
    · rintro ⟨hflash, hrest⟩ j hij hj hsends
      have hne : j ≠ i := by
        rintro rfl
        rw [hflash] at hsends
        cases hsends
      rcases hrest with hends | hrest
      · exact ⟨i, by omega, by omega, hends⟩
      · obtain ⟨m, him, hmj, hends⟩ := hrest j (by omega) (by omega) hsends
        exact ⟨m, by omega, hmj, hends⟩
    · intro hall
      refine ⟨?_, ?_⟩
      · rw [Bool.eq_false_iff]
        intro hflash
        obtain ⟨m, him, hmi, -⟩ := hall i (by omega) (by omega) hflash
        omega
      · by_cases hgoes : goesOn env i = true
        · refine .inr fun j hij hj hsends => ?_
          obtain ⟨m, him, hmj, hends⟩ := hall j (by omega) (by omega) hsends
          have hne : m ≠ i := by
            rintro rfl
            rw [hgoes] at hends
            cases hends
          exact ⟨m, by omega, hmj, hends⟩
        · exact .inl (by simpa using hgoes)

end Loop

/-! ## A failed transfer -/

/-- Every attempt that would send the flash command comes after one that ends the loop. The first
attempt that waits for a transfer with an exception in the queue sends none. -/
def Guarded (env : Env) : Prop :=
  ∀ j : Nat, (j : Int) ≤ env.retries → flashes env j = true → ∃ m, m < j ∧ goesOn env m = false

/-- `flash` raises before the first attempt. -/
def RaisesEarly (env : Env) : Prop :=
  env.setup.isSome = true ∨ earlyQueue env.transfer ≠ [] ∨ env.starting.isSome = true

theorem flash_raisesEarly {env : Env} (h : RaisesEarly env) :
    (flash env).sent = false ∧ (flash env).raised.isSome = true := by
  unfold RaisesEarly at h
  unfold flash
  cases hs : env.setup with
  | some r => exact ⟨rfl, rfl⟩
  | none =>
    cases hq : earlyQueue env.transfer with
    | cons e queue => exact ⟨rfl, rfl⟩
    | nil =>
      cases hst : env.starting with
      | some r => exact ⟨rfl, by cases env.stopping <;> rfl⟩
      | none => simp [hs, hq, hst] at h

theorem flash_loop {env : Env} (h : ¬ RaisesEarly env) :
    (flash env).sent = (retryLoop env (env.retries + 1).toNat 0 (queueAt env 0)).sent ∧
      (flash env).raised =
        env.stopping.or (retryLoop env (env.retries + 1).toNat 0 (queueAt env 0)).raised := by
  unfold RaisesEarly at h
  simp only [not_or, Bool.not_eq_true, isSome_eq_false_iff, isNone_iff_eq_none, ne_eq, Decidable.not_not] at h
  obtain ⟨hs, hq, hst⟩ := h
  unfold flash
  rw [hs, hq, hst]
  exact ⟨rfl, rfl⟩

/-- **After a failed transfer no flash command is sent and `flash` raises**, if and only if it raises
before the first attempt; or there are attempts and they are guarded; or there are none and stopping the
services raises. -/
theorem safeTransfer_iff (env : Env) (hfailed : env.transfer.failed = true) :
    SafeTransfer env ↔ RaisesEarly env ∨ (0 ≤ env.retries ∧ Guarded env) ∨
      (env.retries < 0 ∧ env.stopping.isSome = true) := by
  unfold SafeTransfer
  by_cases hearly : RaisesEarly env
  · simp [hearly, flash_raisesEarly hearly]
  obtain ⟨hsent, hraised⟩ := flash_loop hearly
  simp only [hearly, hfailed, hsent, hraised, false_or, forall_const]
  by_cases hr : 0 ≤ env.retries
  · obtain ⟨n, hn⟩ := Int.eq_ofNat_of_zero_le hr
    have hcount : (env.retries + 1).toNat = n + 1 := by omega
    have hguarded : (retryLoop env (n + 1) 0 (queueAt env 0)).sent = false ↔ Guarded env := by
      rw [retryLoop_sent_eq_false env (by omega)]
      constructor
      · intro h j hj hflash
        obtain ⟨m, -, hm⟩ := h j (by omega) (by omega) hflash
        exact ⟨m, hm⟩
      · intro h j _ hj hflash
        obtain ⟨m, hm⟩ := h j (by omega) hflash
        exact ⟨m, by omega, hm⟩
    have hneg : ¬ env.retries < 0 := by omega
    rw [hcount, hguarded]
    simp only [hr, hneg, true_and, false_and, or_false, and_iff_left_iff_imp]
    intro h
    have hloop := retryLoop_raised env (i := 0) (by omega) (hguarded.mpr h)
    rw [isSome_or, hloop, Bool.or_true]
  · have hcount : (env.retries + 1).toNat = 0 := by omega
    have hneg : env.retries < 0 := by omega
    rw [hcount]
    simp [hneg, hr, retryLoop]

/-- A transfer that fails with a network error. -/
def lostTransfer : Transfer := .fails (.mk .other "ConnectionError" "connection reset" [] none) false

/-- The first attempt gets the exception of the transfer, which is retried; the second one flashes. -/
theorem safeTransfer_fails :
    ¬ SafeTransfer { transfer := lostTransfer, attempts := fun _ => {} } := by
  intro h
  obtain ⟨hsent, -⟩ := h rfl
  revert hsent
  decide

/-- Without retries the first attempt is the only one. -/
theorem safeTransfer_once :
    SafeTransfer { retries := 0, transfer := lostTransfer, attempts := fun _ => {} } := by
  refine (safeTransfer_iff _ rfl).mpr (.inr (.inl ⟨by decide, fun j hj hflash => ?_⟩))
  have hj : j = 0 := by
    have hj : (j : Int) ≤ 0 := hj
    omega
  subst hj
  exact absurd hflash (by decide)

end Jumpstarter.BaseFlasherClient
