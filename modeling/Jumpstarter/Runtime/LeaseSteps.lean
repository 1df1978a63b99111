import Jumpstarter.Runtime.Lease

/-!
# What the tasks of a lease do

For each task of `Jumpstarter/Runtime/Lease.lean` a table of its steps with their conditions: the
context and the output after the step (`AfterMove`, `HandleMove`, `BeforeMove`, `EndMove`). The
proofs about the exporter read these and not the functions.

The invariant of a context (`LeaseContext.Ok`) relates its events to the places of its tasks; the
other parts of the exporter only set the client's name and `lease_ended` (`LeaseContext.Touched`),
which it does not mention.
-/

namespace Jumpstarter.Runtime

/-! ## The steps -/

/-! ### `run_after_lease_hook` -/

theorem afterHookEnded_cases (h : Hook) (outcome : Outcome) : ∃ failed shutdown reports,
    afterHookEnded h outcome = (.delay failed shutdown, { reports, shutdown }) ∧
      (failed = false → reports.getLast? = some .available) := by
  cases outcome with
  | ok => exact ⟨_, _, _, rfl, fun _ => rfl⟩
  | failed =>
    simp only [afterHookEnded]
    cases h.onFailure with
    | warn => exact ⟨_, _, _, rfl, fun _ => rfl⟩
    | endLease => exact ⟨_, _, _, rfl, fun hf => nomatch hf⟩
    | exit => exact ⟨_, _, _, rfl, fun hf => nomatch hf⟩
  | unexpected => exact ⟨_, _, _, rfl, fun hf => nomatch hf⟩

/-- The start of `run_after_lease_hook`. -/
inductive AfterStart (i : Nat) : AfterRun → Out → Prop
  | script : AfterStart i .script
      { reports := [.afterLeaseHook], scripts := [.started ⟨i, .after⟩] }
  | delay {failed shutdown : Bool} {reports : List ExporterStatus} :
    (failed = false → reports.getLast? = some .available) →
    AfterStart i (.delay failed shutdown) { reports, shutdown }

variable {run : AfterRun}

theorem runAfterLeaseHook_start {after : Option Hook} {i : Nat} {ready : Bool} {spawn : Spawn} {o : Out}
    (h : runAfterLeaseHook after i ready spawn = (run, o)) : AfterStart i run o := by
  unfold runAfterLeaseHook at h
  split at h
  · split at h
    · split at h
      · cases h
        exact .script
      · rename_i hook _ _ unexpected
        obtain ⟨failed, shutdown, reports, heq, hlast⟩ :=
          afterHookEnded_cases hook (Spawn.outcome unexpected)
        rw [heq] at h
        cases h
        refine .delay fun hf => ?_
        rw [List.getLast?_cons, hlast hf]
        rfl
    · cases h
      exact .delay fun _ => rfl
  · cases h
    exact .delay fun _ => rfl

/-- The steps of `run_after_lease_hook`, with their conditions. -/
inductive AfterMove (v : View) (i : Nat) :
    AfterRun → AfterAct → Option AfterRun → Out → Prop
  | exit {outcome : Outcome} {failed shutdown : Bool} {reports : List ExporterStatus} :
    (failed = false → reports.getLast? = some .available) →
    AfterMove v i .script (.exit outcome) (some (.delay failed shutdown))
      { reports, shutdown, scripts := [.finished ⟨i, .after⟩] }
  | shutdown {failed : Bool} : AfterMove v i (.delay failed true) .wake none {}
  | noRelease {failed : Bool} : requestLeaseRelease v = none → AfterMove v i (.delay failed false) .wake none {}
  | release {failed : Bool} {r : Release} : requestLeaseRelease v = some r →
    AfterMove v i (.delay failed false) .wake (some (.release r)) { release := some r.lease }
  | compat {j : Nat} :
    AfterMove v i (.release (.rpc j)) (.rpc .unsupported) (some (.release (.compat j)))
      { release := some j, releaseLeaseUnsupported := true }
  | released {r : Release} {res : RpcResult} :
    AfterMove v i (.release r) (.rpc res) none { reports := [.available], endsSlot := true }

theorem AfterRun.next_move {after : Option Hook} {v : View} {i : Nat} {a : AfterAct}
    {run' : Option AfterRun} {o : Out} (h : run.next after v i a = some (run', o)) :
    AfterMove v i run a run' o := by
  unfold AfterRun.next at h
  split at h
  · rename_i outcome
    obtain ⟨hook, -, heq⟩ := Option.map_eq_some_iff.mp h
    obtain ⟨failed, shutdown, reports, hended, hlast⟩ := afterHookEnded_cases hook outcome
    rw [hended] at heq
    cases heq
    exact .exit hlast
  · split at h
    · rename_i hs
      subst hs
      cases h
      exact .shutdown
    · rename_i hs
      rw [Bool.not_eq_true] at hs
      subst hs
      split at h
      · cases h
        exact .noRelease ‹_›
      · cases h
        exact .release ‹_›
  · rename_i r res
    cases r with
    | rpc j =>
      cases res with
      | unsupported =>
        cases h
        exact .compat
      | ok | failed =>
        cases h
        exact .released
    | compat j =>
      cases h
      exact .released
  · cases h

/-! ### `handle_lease` -/

/-- The steps of `handle_lease`, with their conditions. -/
inductive HandleMove (cfg : Config) (v : View) (i : Nat) (c : LeaseContext) :
    HandleAct → LeaseContext → Out → Prop
  | setup : c.handle = .start → c.leaseEnded = false →
    HandleMove cfg v i c .start { c with handle := .setup } {}
  | staleStart : c.handle = .start → c.leaseEnded = true →
    HandleMove cfg v i c .start
      { c with
        skipAfterLeaseHook := true, beforeLeaseHook := true, afterLeaseHookDone := true
        handle := .finished }
      { reports := if v.stopRequested then [] else [.available]
        finished := true, raises := c.raised }
  | raise : c.handle = .setup →
    HandleMove cfg v i c (.setUp true)
      { c with
        raised := true, beforeLeaseHook := true, afterLeaseHookDone := true
        handle := .finished }
      { finished := true, raises := true }
  | staleSetup : c.handle = .setup → c.leaseEnded = true →
    HandleMove cfg v i c (.setUp false)
      { c with
        ready := true, skipAfterLeaseHook := true, beforeLeaseHook := true
        afterLeaseHookDone := true, handle := .closing }
      { reports := if v.stopRequested then [] else [.available] }
  | serve : c.handle = .setup → c.leaseEnded = false → cfg.hookExecutor ≠ none →
    HandleMove cfg v i c (.setUp false)
      { c with ready := true, handle := .serving, endSession := .waiting } {}
  | serveReady : c.handle = .setup → c.leaseEnded = false → cfg.hookExecutor = none →
    HandleMove cfg v i c (.setUp false)
      { c with
        ready := true, handle := .serving, endSession := .waiting, beforeLeaseHook := true }
      { reports := [.leaseReady] }
  | connEnd (raised : Bool) : c.handle = .serving → raised = true ∨ c.leaseEnded = true →
    HandleMove cfg v i c (.connEnd raised) { c with handle := .waitBefore, raised } {}
  | waitAfter {timedOut : Bool} {spawn : Spawn} : c.handle = .waitBefore →
    c.beforeLeaseHook = true ∨ timedOut = true ∧ c.before = .script →
    c.afterLeaseHookStarted = true →
    HandleMove cfg v i c (.cleanup timedOut spawn)
      { c with beforeLeaseHook := true, handle := .waitAfter } {}
  | runAfter {timedOut : Bool} {spawn : Spawn} {run : AfterRun} {o : Out} :
    c.handle = .waitBefore → c.beforeLeaseHook = true ∨ timedOut = true ∧ c.before = .script →
    c.afterLeaseHookStarted = false →
    AfterStart i run o →
    HandleMove cfg v i c (.cleanup timedOut spawn)
      { c with
        beforeLeaseHook := true, afterLeaseHookStarted := true, handle := .after run } o
  | noAfter {timedOut : Bool} {spawn : Spawn} :
    c.handle = .waitBefore → c.beforeLeaseHook = true ∨ timedOut = true ∧ c.before = .script →
    c.afterLeaseHookStarted = false →
    HandleMove cfg v i c (.cleanup timedOut spawn)
      { c with
        beforeLeaseHook := true, afterLeaseHookStarted := true, handle := .closing
        afterLeaseHookDone := true }
      { reports := if v.stopRequested then [] else [.available] }
  | after {a : AfterAct} {run run' : AfterRun} {o : Out} : c.handle = .after run →
    AfterMove v i run a (some run') o →
    HandleMove cfg v i c (.after a) { c with handle := .after run' } o
  | afterReturn {a : AfterAct} {run : AfterRun} {o : Out} : c.handle = .after run →
    AfterMove v i run a none o →
    HandleMove cfg v i c (.after a) { c with handle := .closing, afterLeaseHookDone := true } o
  | afterDone : c.handle = .waitAfter → c.afterLeaseHookDone = true →
    HandleMove cfg v i c .afterDone { c with handle := .closing } {}
  | close : c.handle = .closing →
    HandleMove cfg v i c .close
      { c with beforeLeaseHook := true, afterLeaseHookDone := true, handle := .finished }
      { finished := true, raises := c.raised }
  | cancelNew : v.cancelled = true → c.handle = .start ∨ c.handle = .setup →
    HandleMove cfg v i c .cancel
      { c with beforeLeaseHook := true, afterLeaseHookDone := true, handle := .finished }
      { finished := true, raises := c.raised }
  | cancelServing : v.cancelled = true → c.handle = .serving →
    HandleMove cfg v i c .cancel { c with handle := .waitBefore } {}

theorem LeaseContext.handleStep_move {cfg : Config} {v : View} {i : Nat} {c c' : LeaseContext}
    {a : HandleAct} {o : Out} (h : c.handleStep cfg v i a = some (c', o)) :
    HandleMove cfg v i c a c' o := by
  cases a <;> simp only [handleStep] at h
  case start =>
    split at h
    · split at h
      · cases h
        exact .staleStart ‹_› ‹_›
      · rename_i he
        cases h
        exact .setup ‹_› (by simpa using he)
    · cases h
  case setUp raised =>
    split at h
    · split at h
      · rename_i hr
        subst hr
        cases h
        exact .raise ‹_›
      · rename_i hr
        rw [Bool.not_eq_true] at hr
        subst hr
        split at h
        · cases h
          exact .staleSetup ‹_› ‹_›
        · rename_i he
          rw [Bool.not_eq_true] at he
          split at h
          · rename_i hx
            cases h
            exact .serve ‹_› he (by simp [hx])
          · cases h
            exact .serveReady ‹_› he ‹_›
    · cases h
  case connEnd raised =>
    split at h
    · split at h
      · rename_i he
        cases h
        exact .connEnd raised ‹_› (by simpa using he)
      · cases h
    · cases h
  case cleanup timedOut spawn =>
    split at h
    · split at h
      · rename_i hp hg
        have hg' : c.beforeLeaseHook = true ∨ timedOut = true ∧ c.before = .script := by
          simpa using hg
        simp only [cleanupAfterLease] at h
        split at h
        · cases h
          exact .waitAfter hp hg' ‹_›
        · rename_i hs
          rw [Bool.not_eq_true] at hs
          split at h
          · cases h
            exact .runAfter hp hg' hs (runAfterLeaseHook_start rfl)
          · cases h
            exact .noAfter hp hg' hs
      · cases h
    · cases h
  case after a =>
    split at h
    · obtain ⟨⟨run', o'⟩, hrun, heq⟩ := Option.map_eq_some_iff.mp h
      cases heq
      cases run' with
      | none => exact .afterReturn ‹_› (AfterRun.next_move hrun)
      | some run' => exact .after ‹_› (AfterRun.next_move hrun)
    · cases h
  case afterDone =>
    split at h
    · split at h
      · cases h
        exact .afterDone ‹_› ‹_›
      · cases h
    · cases h
  case close =>
    split at h
    · cases h
      exact .close ‹_›
    · cases h
  case cancel =>
    split at h
    · split at h
      · cases h
        exact .cancelNew ‹_› (.inl ‹_›)
      · cases h
        exact .cancelNew ‹_› (.inr ‹_›)
      · cases h
        exact .cancelServing ‹_› ‹_›
      · cases h
    · cases h

/-! ### `run_before_lease_hook` -/

/-- The steps of `run_before_lease_hook`, with their conditions. -/
inductive BeforeMove (cfg : Config) (v : View) (i : Nat) (c : LeaseContext) :
    BeforeAct → LeaseContext → Out → Prop
  /-- It returns without a script; with the event already set and the lease ended, it is silent if
  there is a hook or no session. -/
  | skip {timeout : Bool} {spawn : Spawn} {reports : List ExporterStatus} {shutdown skip : Bool} :
    c.before = .polling →
    (c.leaseEnded = true → c.ready = false ∨ cfg.beforeLease ≠ none →
      reports = [] ∧ shutdown = false) →
    BeforeMove cfg v i c (.poll timeout spawn)
      { c with skipAfterLeaseHook := skip, beforeLeaseHook := true, before := .done }
      { reports, shutdown }
  | notStarted {timeout : Bool} {spawn : Spawn} {reports : List ExporterStatus} :
    c.before = .polling → c.ready = true → c.leaseEnded = false →
    BeforeMove cfg v i c (.poll timeout spawn)
      { c with skipAfterLeaseHook := true, beforeLeaseHook := true, before := .delay } { reports }
  | script {timeout : Bool} {spawn : Spawn} :
    c.before = .polling → c.ready = true → c.leaseEnded = false →
    BeforeMove cfg v i c (.poll timeout spawn) { c with before := .script }
      { reports := [.beforeLeaseHook], scripts := [.started ⟨i, .before⟩] }
  | exit {outcome : Outcome} {reports : List ExporterStatus} {shutdown skip : Bool} :
    c.before = .script →
    BeforeMove cfg v i c (.exit outcome)
      { c with skipAfterLeaseHook := skip, beforeLeaseHook := true, before := .done }
      { reports, shutdown, scripts := [.finished ⟨i, .before⟩] }
  | exitDelay {outcome : Outcome} {reports : List ExporterStatus} :
    c.before = .script →
    BeforeMove cfg v i c (.exit outcome)
      { c with skipAfterLeaseHook := true, beforeLeaseHook := true, before := .delay }
      { reports, scripts := [.finished ⟨i, .before⟩] }
  | noRelease : c.before = .delay → requestLeaseRelease v = none →
    BeforeMove cfg v i c .wake { c with before := .done } {}
  | release {r : Release} : c.before = .delay → requestLeaseRelease v = some r →
    BeforeMove cfg v i c .wake { c with before := .release r } { release := some r.lease }
  | compat {j : Nat} : c.before = .release (.rpc j) →
    BeforeMove cfg v i c (.rpc .unsupported) { c with before := .release (.compat j) }
      { release := some j, releaseLeaseUnsupported := true }
  | released {res : RpcResult} {r : Release} : c.before = .release r →
    BeforeMove cfg v i c (.rpc res) { c with before := .done }
      { reports := [.available], endsSlot := true }
  | cancel {alive : Bool} : v.cancelled = true → c.before = .polling →
    BeforeMove cfg v i c (.cancel alive) { c with beforeLeaseHook := true, before := .done } {}
  | cancelScript : v.cancelled = true → c.before = .script →
    BeforeMove cfg v i c (.cancel false) { c with beforeLeaseHook := true, before := .done }
      { scripts := [.finished ⟨i, .before⟩] }
  | abandon : v.cancelled = true → c.before = .script →
    BeforeMove cfg v i c (.cancel true)
      { c with beforeLeaseHook := true, before := .done, orphan := true } {}
  | orphanExit : c.orphan = true →
    BeforeMove cfg v i c .orphanExit { c with orphan := false }
      { scripts := [.finished ⟨i, .before⟩] }

theorem LeaseContext.beforeHookEnded_cases (h : Hook) (c : LeaseContext) (outcome : Outcome) :
    (∃ reports shutdown skip, c.beforeHookEnded h outcome =
      ({ c with skipAfterLeaseHook := skip, beforeLeaseHook := true, before := .done },
        { reports, shutdown })) ∨
    ∃ reports, c.beforeHookEnded h outcome =
      ({ c with skipAfterLeaseHook := true, beforeLeaseHook := true, before := .delay },
        { reports }) := by
  cases outcome with
  | ok => exact .inl ⟨_, _, _, rfl⟩
  | failed =>
    simp only [beforeHookEnded]
    cases h.onFailure with
    | warn => exact .inl ⟨_, _, _, rfl⟩
    | endLease => exact .inr ⟨_, rfl⟩
    | exit => exact .inl ⟨_, _, _, rfl⟩
  | unexpected => exact .inl ⟨_, _, _, rfl⟩

theorem LeaseContext.beforeStep_move {cfg : Config} {v : View} {i : Nat} {c c' : LeaseContext}
    {a : BeforeAct} {o : Out} (h : c.beforeStep cfg v i a = some (c', o)) :
    BeforeMove cfg v i c a c' o := by
  cases a <;> simp only [beforeStep] at h
  case poll timeout spawn =>
    split at h
    · rename_i hp
      split at h
      · rename_i hready
        simp only [runBeforeLeaseHook] at h
        split at h
        · rename_i hnone
          cases h
          exact .skip hp fun _ hor => by simp [hready, hnone] at hor
        · split at h
          · cases h
            exact .skip hp fun _ _ => ⟨rfl, rfl⟩
          · rename_i hended
            rw [Bool.not_eq_true] at hended
            split at h
            · split at h
              · cases h
                exact .script hp hready hended
              · rename_i unexpected
                rcases beforeHookEnded_cases _ c (Spawn.outcome unexpected) with
                  ⟨reports, shutdown, skip, he⟩ | ⟨reports, he⟩
                · rw [he] at h
                  cases h
                  exact .skip hp fun hended' => by simp [hended] at hended'
                · rw [he] at h
                  cases h
                  exact .notStarted hp hready hended
            · cases h
              exact .skip hp fun hended' => by simp [hended] at hended'
      · split at h
        · cases h
          exact .skip hp fun _ _ => ⟨rfl, rfl⟩
        · rename_i hended
          split at h
          · cases h
            exact .skip hp fun hended' => absurd hended' hended
          · cases h
    · cases h
  case exit outcome =>
    split at h
    · rename_i hk hp _
      rcases beforeHookEnded_cases hk c outcome with ⟨reports, shutdown, skip, he⟩ | ⟨reports, he⟩
      · rw [he] at h
        cases h
        exact .exit hp
      · rw [he] at h
        cases h
        exact .exitDelay hp
    · cases h
  case wake =>
    split at h
    · split at h
      · cases h
        exact .noRelease ‹_› ‹_›
      · cases h
        exact .release ‹_› ‹_›
    · cases h
  case rpc res =>
    split at h
    · rename_i r hp
      unfold Release.next at h
      split at h
      · cases h
        exact .compat hp
      · cases h
        exact .released hp
    · cases h
  case cancel alive =>
    split at h
    · split at h
      · cases h
        exact .cancel ‹_› ‹_›
      · split at h
        · rename_i ha
          subst ha
          cases h
          exact .abandon ‹_› ‹_›
        · rename_i ha
          rw [Bool.not_eq_true] at ha
          subst ha
          cases h
          exact .cancelScript ‹_› ‹_›
      · cases h
    · cases h
  case orphanExit =>
    split at h
    · cases h
      exact .orphanExit ‹_›
    · cases h

/-! ### `_handle_end_session` -/

/-- The steps of `_handle_end_session` and of the client, with their conditions. -/
inductive EndMove (cfg : Config) (v : View) (i : Nat) (c : LeaseContext) :
    EndAct → LeaseContext → Out → Prop
  | leave {spawn : Spawn} : c.endSession = .waiting →
    EndMove cfg v i c (.wake spawn) { c with endSession := .done } {}
  | waitAfter {spawn : Spawn} : c.endSession = .waiting → c.afterLeaseHookStarted = true →
    EndMove cfg v i c (.wake spawn) { c with endSession := .waitAfter } {}
  | runAfter {spawn : Spawn} {run : AfterRun} {o : Out} : c.endSession = .waiting →
    c.endSessionRequested = true → c.afterLeaseHookStarted = false →
    AfterStart i run o →
    EndMove cfg v i c (.wake spawn)
      { c with afterLeaseHookStarted := true, endSession := .after run } o
  | noAfter {spawn : Spawn} : c.endSession = .waiting →
    c.endSessionRequested = true → c.afterLeaseHookStarted = false →
    EndMove cfg v i c (.wake spawn)
      { c with afterLeaseHookStarted := true, endSession := .done, afterLeaseHookDone := true }
      { reports := [.available] }
  | after {a : AfterAct} {run run' : AfterRun} {o : Out} : c.endSession = .after run →
    AfterMove v i run a (some run') o →
    EndMove cfg v i c (.after a) { c with endSession := .after run' } o
  | afterReturn {a : AfterAct} {run : AfterRun} {o : Out} : c.endSession = .after run →
    AfterMove v i run a none o →
    EndMove cfg v i c (.after a) { c with endSession := .done, afterLeaseHookDone := true } o
  | afterDone : c.endSession = .waitAfter → c.afterLeaseHookDone = true →
    EndMove cfg v i c .afterDone { c with endSession := .done } {}
  | cancelWaiting : v.cancelled = true → c.endSession = .waiting →
    EndMove cfg v i c .cancel { c with endSession := .done } {}
  | cancelWaitAfter : v.cancelled = true → c.endSession = .waitAfter →
    EndMove cfg v i c .cancel { c with endSession := .done, afterLeaseHookDone := true } {}
  | connect : c.handle = .serving → c.beforeLeaseHook = true →
    EndMove cfg v i c .connect { c with connected := true } {}
  | request : c.connected = true → c.handle ≠ .finished →
    EndMove cfg v i c .endSession { c with endSessionRequested := true } {}

theorem LeaseContext.endStep_move {cfg : Config} {v : View} {i : Nat} {c c' : LeaseContext}
    {a : EndAct} {o : Out} (h : c.endStep cfg v i a = some (c', o)) : EndMove cfg v i c a c' o := by
  cases a <;> simp only [endStep] at h
  case wake spawn =>
    split at h
    · rename_i hp
      split at h
      · simp only [handleEndSession] at h
        split at h
        · cases h
          exact .leave hp
        · have hreq : c.endSessionRequested = true := by
            cases hr : c.endSessionRequested with
            | true => rfl
            | false => simp_all
          split at h
          · cases h
            exact .waitAfter hp ‹_›
          · rename_i hs
            rw [Bool.not_eq_true] at hs
            split at h
            · cases h
              exact .runAfter hp hreq hs (runAfterLeaseHook_start rfl)
            · cases h
              exact .noAfter hp hreq hs
      · cases h
    · cases h
  case after a =>
    split at h
    · obtain ⟨⟨run', o'⟩, hrun, heq⟩ := Option.map_eq_some_iff.mp h
      cases heq
      cases run' with
      | none => exact .afterReturn ‹_› (AfterRun.next_move hrun)
      | some run' => exact .after ‹_› (AfterRun.next_move hrun)
    · cases h
  case afterDone =>
    split at h
    · split at h
      · cases h
        exact .afterDone ‹_› ‹_›
      · cases h
    · cases h
  case cancel =>
    split at h
    · split at h
      · cases h
        exact .cancelWaiting ‹_› ‹_›
      · cases h
        exact .cancelWaitAfter ‹_› ‹_›
      · cases h
    · cases h
  case connect =>
    split at h
    · rename_i hg
      cases h
      exact .connect hg.1 hg.2
    · cases h
  case endSession =>
    split at h
    · rename_i hg
      cases h
      exact .request hg.1 hg.2
    · cases h

/-! ### Outputs -/

section

variable {cfg : Config} {v : View} {i : Nat} {c c' : LeaseContext} {o : Out}

theorem AfterStart.finished (h : AfterStart i run o) : o.finished = false := by
  cases h <;> rfl

theorem AfterMove.finished {a : AfterAct} {run' : Option AfterRun} (h : AfterMove v i run a run' o) :
    o.finished = false := by
  cases h <;> rfl

theorem BeforeMove.handle {a : BeforeAct} (h : BeforeMove cfg v i c a c' o) : c'.handle = c.handle := by
  cases h <;> rfl

theorem EndMove.handle {a : EndAct} (h : EndMove cfg v i c a c' o) : c'.handle = c.handle := by
  cases h <;> rfl

variable {a : TaskAct}

section

variable (h : c.step cfg v i a = some (c', o))
include h

theorem LeaseContext.step_finished (hf : o.finished = true) : c'.handle = .finished := by
  cases a with
  | handle a =>
    cases handleStep_move h with
    | staleStart | raise | close | cancelNew => rfl
    | runAfter _ _ _ hs =>
      rw [hs.finished] at hf
      cases hf
    | after _ hm | afterReturn _ hm =>
      rw [hm.finished] at hf
      cases hf
    | _ => cases hf
  | before a => cases beforeStep_move h <;> cases hf
  | endSession a =>
    cases endStep_move h with
    | runAfter _ _ _ hs =>
      rw [hs.finished] at hf
      cases hf
    | after _ hm | afterReturn _ hm =>
      rw [hm.finished] at hf
      cases hf
    | _ => cases hf

theorem LeaseContext.step_of_finished (hc : c.handle = .finished) : c'.handle = .finished := by
  cases a with
  | handle a => cases handleStep_move h <;> simp_all
  | before a => rw [(beforeStep_move h).handle, hc]
  | endSession a => rw [(endStep_move h).handle, hc]

theorem LeaseContext.step_of_idle (hhandle : c.handle = .finished)
    (hbefore : c.before = .done) (hend : c.endSession = .notStarted) (hconnected : c.connected = false)
    (horphan : c.orphan = false) : False := by
  cases a with
  | handle a => cases handleStep_move h <;> simp_all
  | before a => cases beforeStep_move h <;> simp_all
  | endSession a =>
    cases endStep_move h with
    | request hc =>
      rw [hconnected] at hc
      cases hc
    | _ => simp_all

theorem LeaseContext.step_leaseName : c'.leaseName = c.leaseName := by
  cases a with
  | handle a => cases handleStep_move h <;> rfl
  | before a => cases beforeStep_move h <;> rfl
  | endSession a => cases endStep_move h <;> rfl

theorem LeaseContext.step_leaseEnded : c'.leaseEnded = c.leaseEnded := by
  cases a with
  | handle a => cases handleStep_move h <;> rfl
  | before a => cases beforeStep_move h <;> rfl
  | endSession a => cases endStep_move h <;> rfl

end

end

/-! ## The invariant of a context -/

@[simp] def HandleLease.isNew : HandleLease → Bool
  | .start | .setup => true
  | _ => false

/-- Before the part of `_cleanup_after_lease` that follows the wait for `before_lease_hook`. -/
@[simp] def HandleLease.isOpen : HandleLease → Bool
  | .start | .setup | .serving | .waitBefore => true
  | _ => false

theorem HandleLease.ne_finished_of_isOpen {h : HandleLease} (ho : h.isOpen = true) : h ≠ .finished := by
  rintro rfl
  cases ho

/-- In `run_after_lease_hook`. -/
@[simp] def HandleLease.isAfter : HandleLease → Bool
  | .after _ => true
  | _ => false

theorem HandleLease.isAfter_of_isOpen {h : HandleLease} (ho : h.isOpen = true) : h.isAfter = false := by
  cases h <;> first | rfl | cases ho

/-- In `run_after_lease_hook`. -/
@[simp] def EndSession.isAfter : EndSession → Bool
  | .after _ => true
  | _ => false

namespace LeaseContext

/-- How the events of a context and the places of its tasks are related. -/
structure Ok (cfg : Config) (c : LeaseContext) : Prop where
  fresh : c.handle.isNew = true → c.ready = false ∧ c.endSession = .notStarted ∧
    c.connected = false ∧ c.afterLeaseHookStarted = false
  /-- The teardown and the client wait for `before_lease_hook`. -/
  waits : c.beforeLeaseHook = false → c.handle.isOpen = true ∧ c.connected = false
  requested : c.endSessionRequested = true → c.connected = true
  started : c.afterLeaseHookStarted = true → c.beforeLeaseHook = true
  /-- A lease that was served is not torn down without `after_lease_hook_started`. -/
  notStarted : c.afterLeaseHookStarted = false →
    (c.handle.isOpen = true ∧ c.afterLeaseHookDone = false) ∨
      (c.handle = .closing ∨ c.handle = .finished) ∧ c.endSession = .notStarted
  startedEnd : c.endSession.isAfter = true ∨ c.endSession = .waitAfter → c.afterLeaseHookStarted = true
  /-- Only one task runs the `afterLease` hook, and the other waits for it. -/
  handleAfter : c.handle.isAfter = true → c.endSession.isAfter = false
  endAfter : c.endSession.isAfter = true →
    c.afterLeaseHookDone = false ∧ (c.handle.isOpen = true ∨ c.handle = .waitAfter)
  executor : c.before = .polling → cfg.hookExecutor ≠ none
  /-- The event of a `run_before_lease_hook` that has not come to its hook is set by others only for
  a lease that ended or was not set up. -/
  polls : c.before = .polling →
    c.beforeLeaseHook = false ∨ c.leaseEnded = true ∨ c.ready = false ∧ c.handle = .finished
  scripted : c.before = .script → c.ready = true

variable {cfg : Config} {v : View} {i : Nat} {c c' : LeaseContext} {o : Out}

/-! ### Read off the invariant -/

section

variable (h : c.Ok cfg)
include h

theorem Ok.afterLeaseHookDone (ho : c.handle.isOpen = true)
    (hs : c.afterLeaseHookStarted = false) : c.afterLeaseHookDone = false := by
  rcases h.notStarted hs with ⟨-, hd⟩ | ⟨hc | hc, -⟩
  · exact hd
  · rw [hc] at ho
    cases ho
  · rw [hc] at ho
    cases ho

theorem Ok.beforeLeaseHook_of_closed (hc : c.handle.isOpen = false) : c.beforeLeaseHook = true := by
  cases hb : c.beforeLeaseHook with
  | true => rfl
  | false =>
    rw [(h.waits hb).1] at hc
    cases hc

theorem Ok.beforeLeaseHook_of_connected (hc : c.connected = true) : c.beforeLeaseHook = true := by
  cases hb : c.beforeLeaseHook with
  | true => rfl
  | false =>
    rw [(h.waits hb).2] at hc
    cases hc

theorem Ok.endSession_isAfter (hs : c.afterLeaseHookStarted = false) : c.endSession.isAfter = false := by
  cases ha : c.endSession.isAfter with
  | false => rfl
  | true =>
    rw [h.startedEnd (.inl ha)] at hs
    cases hs

theorem Ok.ne_finished_of_endAfter (ha : c.endSession.isAfter = true) : c.handle ≠ .finished := by
  rcases (h.endAfter ha).2 with ho | hw
  · exact HandleLease.ne_finished_of_isOpen ho
  · rw [hw]
    nofun

theorem Ok.beforeLeaseHook (hp : c.before = .polling) (hr : c.ready = true)
    (he : c.leaseEnded = false) : c.beforeLeaseHook = false := by
  rcases h.polls hp with hb | he' | ⟨hr', -⟩
  · exact hb
  · rw [he] at he'
    cases he'
  · rw [hr] at hr'
    cases hr'

theorem Ok.leaseEnded_of_polling (hf : c.handle ≠ .finished)
    (hp : c.before = .polling) (hb : c.beforeLeaseHook = true) : c.leaseEnded = true := by
  rcases h.polls hp with hb' | he | ⟨-, hf'⟩
  · rw [hb] at hb'
    cases hb'
  · exact he
  · exact absurd hf' hf

theorem Ok.isOpen_of_waiting (he : c.endSession = .waiting)
    (hs : c.afterLeaseHookStarted = false) : c.handle.isOpen = true := by
  rcases h.notStarted hs with ⟨hopen, -⟩ | ⟨-, he'⟩
  · exact hopen
  · rw [he] at he'
    cases he'

end

/-! ### The steps of `handle_lease` -/

variable {p : HandleLease}

theorem Ok.moveOpen {raised : Bool} (h : c.Ok cfg) (ho : c.handle.isOpen = true) (hp : p.isOpen = true)
    (hn : p.isNew = true → c.handle.isNew = true) : Ok cfg { c with handle := p, raised } :=
  { h with
    fresh := fun hnew => h.fresh (hn hnew)
    waits := fun hb => ⟨hp, (h.waits hb).2⟩
    notStarted := fun hs => .inl ⟨hp, h.afterLeaseHookDone ho hs⟩
    handleAfter := fun ha => absurd ha (Bool.eq_false_iff.mp (HandleLease.isAfter_of_isOpen hp))
    endAfter := fun ha => ⟨(h.endAfter ha).1, .inl hp⟩
    polls := fun hpoll => (h.polls hpoll).imp_right
      (Or.imp_right fun hf => absurd hf.2 (HandleLease.ne_finished_of_isOpen ho)) }

theorem Ok.finishNew {skip raised : Bool} (h : c.Ok cfg) (hn : c.handle.isNew = true) :
    Ok cfg { c with
      skipAfterLeaseHook := skip, raised, beforeLeaseHook := true, afterLeaseHookDone := true
      handle := .finished } := by
  obtain ⟨hready, hend, -, -⟩ := h.fresh hn
  exact { h with
    fresh := fun hnew => nomatch hnew
    waits := fun hb => nomatch hb
    started := fun _ => rfl
    notStarted := fun _ => .inr ⟨.inr rfl, hend⟩
    handleAfter := fun ha => nomatch ha
    endAfter := fun ha => absurd ha (by simp [hend])
    polls := fun _ => .inr (.inr ⟨hready, rfl⟩) }

theorem Ok.skipStale (h : c.Ok cfg) (hp : c.handle = .setup) (he : c.leaseEnded = true) :
    Ok cfg { c with
      ready := true, skipAfterLeaseHook := true, beforeLeaseHook := true
      afterLeaseHookDone := true, handle := .closing } := by
  obtain ⟨-, hend, -, -⟩ := h.fresh (by simp [hp])
  exact { h with
    fresh := fun hnew => nomatch hnew
    waits := fun hb => nomatch hb
    started := fun _ => rfl
    notStarted := fun _ => .inr ⟨.inl rfl, hend⟩
    handleAfter := fun ha => nomatch ha
    endAfter := fun ha => absurd ha (by simp [hend])
    polls := fun _ => .inr (.inl he)
    scripted := fun _ => rfl }

variable {b : Bool}

theorem Ok.serve (h : c.Ok cfg) (hp : c.handle = .setup) (hb : c.beforeLeaseHook = true → b = true)
    (hx : c.before = .polling → b = c.beforeLeaseHook) :
    Ok cfg { c with
      ready := true, handle := .serving, endSession := .waiting, beforeLeaseHook := b } := by
  obtain ⟨-, -, hconnected, -⟩ := h.fresh (by simp [hp])
  exact { h with
    fresh := fun hnew => nomatch hnew
    waits := fun _ => ⟨rfl, hconnected⟩
    started := fun hs => hb (h.started hs)
    notStarted := fun hs => .inl ⟨rfl, h.afterLeaseHookDone (by simp [hp]) hs⟩
    startedEnd := fun he => by rcases he with he | he <;> cases he
    handleAfter := fun ha => nomatch ha
    endAfter := fun ha => nomatch ha
    polls := fun hpoll => by
      rcases h.polls hpoll with hb' | he | ⟨-, hf⟩
      · exact .inl ((hx hpoll).trans hb')
      · exact .inr (.inl he)
      · rw [hp] at hf
        cases hf
    scripted := fun _ => rfl }

variable {d : Bool}

theorem Ok.cleanup {timedOut s : Bool} (h : c.Ok cfg) (hp : c.handle = .waitBefore)
    (hg : c.beforeLeaseHook = true ∨ timedOut = true ∧ c.before = .script) (hs : s = true)
    (hn : p.isNew = false) (hh : p.isAfter = true → c.endSession.isAfter = false)
    (he : c.endSession.isAfter = true → d = false ∧ p = .waitAfter) :
    Ok cfg { c with
      beforeLeaseHook := true, afterLeaseHookStarted := s, afterLeaseHookDone := d, handle := p } :=
  { h with
    fresh := fun hnew => absurd hnew (Bool.eq_false_iff.mp hn)
    waits := fun hb => nomatch hb
    started := fun _ => rfl
    notStarted := fun hs' => absurd hs' (by simp [hs])
    startedEnd := fun _ => hs
    handleAfter := hh
    endAfter := fun ha => ⟨(he ha).1, .inr (he ha).2⟩
    polls := fun hpoll => by
      rcases hg with hb | ⟨-, hscript⟩
      · exact .inr (.inl (h.leaseEnded_of_polling (by simp [hp]) hpoll hb))
      · rw [hpoll] at hscript
        cases hscript }

theorem Ok.moveClosed (h : c.Ok cfg) (ho : c.handle.isOpen = false) (hf : c.handle ≠ .finished)
    (he : c.endSession.isAfter = false) (hb : b = true) (hp : p.isNew = false)
    (hc : c.handle = .closing → p = .finished) :
    Ok cfg { c with beforeLeaseHook := b, afterLeaseHookDone := d, handle := p } :=
  { h with
    fresh := fun hnew => absurd hnew (Bool.eq_false_iff.mp hp)
    waits := fun hb' => absurd hb' (by simp [hb])
    started := fun _ => hb
    notStarted := fun hs => by
      rcases h.notStarted hs with ⟨hopen, -⟩ | ⟨hclosing | hfinished, hend⟩
      · rw [ho] at hopen
        cases hopen
      · exact .inr ⟨.inr (hc hclosing), hend⟩
      · exact absurd hfinished hf
    handleAfter := fun _ => he
    endAfter := fun ha => absurd ha (Bool.eq_false_iff.mp he)
    polls := fun hpoll =>
      .inr (.inl (h.leaseEnded_of_polling hf hpoll (h.beforeLeaseHook_of_closed ho))) }

theorem Ok.handle {a : HandleAct} (h : c.Ok cfg) (hm : HandleMove cfg v i c a c' o) : c'.Ok cfg := by
  cases hm with
  | setup hp => exact h.moveOpen (by simp [hp]) rfl fun _ => by simp [hp]
  | staleStart hp => exact h.finishNew (by simp [hp])
  | raise hp => exact h.finishNew (by simp [hp])
  | staleSetup hp he => exact h.skipStale hp he
  | serve hp => exact h.serve hp id fun _ => rfl
  | serveReady hp _ hx => exact h.serve hp (fun _ => rfl) fun hpoll => absurd hx (h.executor hpoll)
  | connEnd raised hp => exact h.moveOpen (by simp [hp]) rfl fun hnew => nomatch hnew
  | waitAfter hp hg hs =>
    exact h.cleanup hp hg hs rfl (fun ha => nomatch ha) fun ha => ⟨(h.endAfter ha).1, rfl⟩
  | runAfter hp hg hs =>
    have ha := h.endSession_isAfter hs
    exact h.cleanup hp hg rfl rfl (fun _ => ha) fun ha' => absurd ha' (Bool.eq_false_iff.mp ha)
  | noAfter hp hg hs =>
    have ha := h.endSession_isAfter hs
    exact h.cleanup hp hg rfl rfl (fun _ => ha) fun ha' => absurd ha' (Bool.eq_false_iff.mp ha)
  | after hp | afterReturn hp =>
    have ho : c.handle.isOpen = false := by simp [hp]
    exact h.moveClosed ho (by simp [hp]) (h.handleAfter (by simp [hp]))
      (h.beforeLeaseHook_of_closed ho) rfl (by simp [hp])
  | afterDone hp hd =>
    have ho : c.handle.isOpen = false := by simp [hp]
    have ha : c.endSession.isAfter = false := by
      cases ha : c.endSession.isAfter with
      | false => rfl
      | true =>
        rw [(h.endAfter ha).1] at hd
        cases hd
    exact h.moveClosed ho (by simp [hp]) ha (h.beforeLeaseHook_of_closed ho) rfl (by simp [hp])
  | close hp =>
    have ha : c.endSession.isAfter = false := by
      cases ha : c.endSession.isAfter with
      | false => rfl
      | true => simpa [hp] using h.endAfter ha
    exact h.moveClosed (by simp [hp]) (by simp [hp]) ha rfl rfl fun _ => rfl
  | cancelNew _ hp => exact h.finishNew (by rcases hp with hp | hp <;> simp [hp])
  | cancelServing _ hp => exact h.moveOpen (by simp [hp]) rfl fun hnew => nomatch hnew

/-! ### The steps of the other tasks -/

theorem Ok.setBefore {skip orphan : Bool} {p : BeforeLease} (h : c.Ok cfg)
    (hb : c.beforeLeaseHook = true → b = true) (hp : p ≠ .polling) (hs : p = .script → c.ready = true) :
    Ok cfg { c with skipAfterLeaseHook := skip, beforeLeaseHook := b, before := p, orphan } :=
  { h with
    waits := fun hb' => h.waits (by
      cases hc : c.beforeLeaseHook with
      | false => rfl
      | true => exact (hb hc).symm.trans hb')
    started := fun hs => hb (h.started hs)
    executor := fun hp' => absurd hp' hp
    polls := fun hp' => absurd hp' hp
    scripted := hs }

theorem Ok.before {a : BeforeAct} (h : c.Ok cfg) (hm : BeforeMove cfg v i c a c' o) : c'.Ok cfg := by
  cases hm with
  | skip | notStarted | exit | exitDelay | cancel | cancelScript | abandon =>
    exact h.setBefore (fun _ => rfl) nofun nofun
  | script _ hr => exact h.setBefore id nofun fun _ => hr
  | noRelease | release | compat | released => exact h.setBefore id nofun nofun
  | orphanExit => exact { h with }

theorem Ok.moveEnd {s : Bool} {p : EndSession} (h : c.Ok cfg) (hn : c.endSession ≠ .notStarted)
    (hs : c.afterLeaseHookStarted = true → s = true) (hb : s = true → c.beforeLeaseHook = true)
    (hd : s = false → d = c.afterLeaseHookDone) (hw : p.isAfter = true ∨ p = .waitAfter → s = true)
    (ha : p.isAfter = true → d = false ∧ (c.handle.isOpen = true ∨ c.handle = .waitAfter)) :
    Ok cfg { c with afterLeaseHookStarted := s, endSession := p, afterLeaseHookDone := d } :=
  { h with
    fresh := fun hnew => absurd (h.fresh hnew).2.1 hn
    started := hb
    notStarted := fun hs' => by
      have hc : c.afterLeaseHookStarted = false := by
        cases hc : c.afterLeaseHookStarted with
        | false => rfl
        | true => exact (hs hc).symm.trans hs'
      rcases h.notStarted hc with ⟨hopen, hdone⟩ | ⟨-, hend⟩
      · exact .inl ⟨hopen, (hd hs').trans hdone⟩
      · exact absurd hend hn
    startedEnd := hw
    handleAfter := fun hh => by
      cases hp : p.isAfter with
      | false => rfl
      | true =>
        rcases (ha hp).2 with ho | hwait
        · rw [HandleLease.isAfter_of_isOpen ho] at hh
          cases hh
        · rw [hwait] at hh
          cases hh
    endAfter := ha }

theorem Ok.endSession {a : EndAct} (h : c.Ok cfg) (hm : EndMove cfg v i c a c' o) : c'.Ok cfg := by
  cases hm with
  | leave hp => exact h.moveEnd (by simp [hp]) id h.started (fun _ => rfl) (by simp) (by simp)
  | waitAfter hp hs =>
    exact h.moveEnd (by simp [hp]) id h.started (fun _ => rfl) (fun _ => hs) (by simp)
  | runAfter hp hr hs =>
    have ho := h.isOpen_of_waiting hp hs
    exact h.moveEnd (by simp [hp]) (fun _ => rfl)
      (fun _ => h.beforeLeaseHook_of_connected (h.requested hr)) (fun _ => rfl) (fun _ => rfl)
      fun _ => ⟨h.afterLeaseHookDone ho hs, .inl ho⟩
  | noAfter hp hr =>
    exact h.moveEnd (by simp [hp]) (fun _ => rfl)
      (fun _ => h.beforeLeaseHook_of_connected (h.requested hr)) (by simp) (by simp) (by simp)
  | after hp =>
    have ha : c.endSession.isAfter = true := by simp [hp]
    exact h.moveEnd (by simp [hp]) id h.started (fun _ => rfl) (fun _ => h.startedEnd (.inl ha))
      fun _ => h.endAfter ha
  | afterReturn hp =>
    have hs := h.startedEnd (.inl (by simp [hp]))
    exact h.moveEnd (by simp [hp]) id h.started (by simp [hs]) (by simp) (by simp)
  | afterDone hp => exact h.moveEnd (by simp [hp]) id h.started (fun _ => rfl) (by simp) (by simp)
  | cancelWaiting _ hp =>
    exact h.moveEnd (by simp [hp]) id h.started (fun _ => rfl) (by simp) (by simp)
  | cancelWaitAfter _ hp =>
    have hs := h.startedEnd (.inr hp)
    exact h.moveEnd (by simp [hp]) id h.started (by simp [hs]) (by simp) (by simp)
  | connect hp hb =>
    exact { h with
      fresh := fun hnew => absurd hnew (by simp [hp])
      waits := fun hb' => absurd hb' (by simp [hb])
      requested := fun _ => rfl }
  | request hc => exact { h with requested := fun _ => hc }

/-! ### What other tasks do to a context -/

/-- The context after `lease_ended` was set (`b`), or not. -/
def endIf (c : LeaseContext) (b : Bool) : LeaseContext := { c with leaseEnded := c.leaseEnded || b }

@[simp] theorem endIf_false (c : LeaseContext) : c.endIf false = c := by
  simp [endIf]

/-- What the loop and the releases of other leases do to a context: they set the name of the client
and `lease_ended`. -/
def Touched (c c' : LeaseContext) : Prop := ∃ client b, c' = { c.endIf b with clientName := client }

theorem touched_endIf (c : LeaseContext) (b : Bool) : c.Touched (c.endIf b) :=
  ⟨c.clientName, b, rfl⟩

theorem touched_leaseEnded (c : LeaseContext) : c.Touched { c with leaseEnded := true } :=
  ⟨c.clientName, true, by simp [endIf]⟩

theorem touched_clientName (c : LeaseContext) (client : String) :
    c.Touched { c with clientName := client } :=
  ⟨client, false, by simp⟩

section

variable (h : c.Touched c')
include h

theorem Touched.handle : c'.handle = c.handle := by
  obtain ⟨client, b, rfl⟩ := h
  rfl

theorem Touched.before : c'.before = c.before := by
  obtain ⟨client, b, rfl⟩ := h
  rfl

theorem Touched.afterLeaseHookStarted : c'.afterLeaseHookStarted = c.afterLeaseHookStarted := by
  obtain ⟨client, b, rfl⟩ := h
  rfl

theorem Touched.leaseName : c'.leaseName = c.leaseName := by
  obtain ⟨client, b, rfl⟩ := h
  rfl

theorem Touched.leaseEnded (he : c.leaseEnded = true) : c'.leaseEnded = true := by
  obtain ⟨client, b, rfl⟩ := h
  simp [endIf, he]

end

theorem Ok.touched (h : c.Ok cfg) (ht : c.Touched c') : c'.Ok cfg := by
  obtain ⟨client, b, rfl⟩ := ht
  refine { h with polls := fun hp => ?_ }
  rcases h.polls hp with hb | he | hr
  · exact .inl hb
  · exact .inr (.inl (by simp [endIf, he]))
  · exact .inr (.inr hr)

theorem Ok.step {a : TaskAct} (h : c.Ok cfg) (hs : c.step cfg v i a = some (c', o)) : c'.Ok cfg := by
  cases a with
  | handle a => exact h.handle (handleStep_move hs)
  | before a => exact h.before (beforeStep_move hs)
  | endSession a => exact h.endSession (endStep_move hs)

/-- The step is the safety timeout of `_cleanup_after_lease`. -/
def safetyTimeout (c : LeaseContext) : TaskAct → Bool
  | .handle (.cleanup _ _) => !c.beforeLeaseHook
  | _ => false

/-- The event is not set while the script of the `beforeLease` hook runs. -/
def Waits (c : LeaseContext) : Prop := c.before = .script → c.beforeLeaseHook = false

theorem Waits.step {a : TaskAct} (hw : c.Waits) (hok : c.Ok cfg)
    (hs : c.step cfg v i a = some (c', o)) (hto : c.safetyTimeout a = false) : c'.Waits := by
  intro hp
  cases a with
  | handle a =>
    have hm := handleStep_move hs
    have hnew : c.handle.isNew = true → c.before ≠ .script := by
      intro hn hb
      have hr := hok.scripted hb
      rw [(hok.fresh hn).1] at hr
      cases hr
    cases hm with
    | setup | serve | connEnd | after | afterReturn | afterDone | cancelServing => exact hw hp
    | staleStart hh => exact absurd hp (hnew (by rw [hh]; rfl))
    | raise hh => exact absurd hp (hnew (by rw [hh]; rfl))
    | staleSetup hh => exact absurd hp (hnew (by rw [hh]; rfl))
    | serveReady hh => exact absurd hp (hnew (by rw [hh]; rfl))
    | cancelNew _ hh => exact absurd hp (hnew (by rcases hh with hh | hh <;> rw [hh] <;> rfl))
    | waitAfter | runAfter | noAfter =>
      have hb : c.beforeLeaseHook = true := by simpa [safetyTimeout] using hto
      rw [hw hp] at hb
      cases hb
    | close hh =>
      have hopen := (hok.waits (hw hp)).1
      rw [hh] at hopen
      cases hopen
  | before a =>
    cases beforeStep_move hs with
    | script hb hr he => exact hok.beforeLeaseHook hb hr he
    | orphanExit => exact hw hp
    | _ => cases hp
  | endSession a => cases endStep_move hs <;> exact hw hp

theorem Waits.touched (h : c.Waits) (ht : c.Touched c') : c'.Waits := by
  obtain ⟨client, b, rfl⟩ := ht
  exact h

end LeaseContext
end Jumpstarter.Runtime
