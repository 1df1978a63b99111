import Jumpstarter.Runtime.Exporter

/-!
# The order of the hook scripts

The scripts of all hooks run one after the other, in the order of the leases and for each lease
`beforeLease` first (`Serial`), in every run without the safety timeout of `_cleanup_after_lease` in
which no cancellation leaves the script of a `beforeLease` hook running (`orderedAct`).

A cancelled `run_before_lease_hook` sends `SIGTERM` to its script and sets `before_lease_hook`; its
`sleep` before `SIGKILL` and its wait for the process are cancelled too. The shielded
`_cleanup_after_lease` goes on, and starts the `afterLease` script next to the other
(`serial_fails`).
-/

namespace Jumpstarter.Runtime

open Lib List LeaseContext

/-! ## The log of the scripts -/

def Script.lt (y x : Script) : Prop :=
  y.lease < x.lease ∨ y.lease = x.lease ∧ y.hook = .before ∧ x.hook = .after

/-- When a script starts, all that started before it are earlier in the order, and have finished. -/
def Serial (log : List ScriptEvent) : Prop :=
  ∀ pre x post, log = pre ++ .started x :: post → ∀ y, .started y ∈ pre → .finished y ∈ pre ∧ y.lt x

theorem Serial.nil : Serial [] := by
  intro pre x post h
  simp at h

theorem Serial.concat {log : List ScriptEvent} {e : ScriptEvent} (h : Serial log)
    (he : ∀ x, e = .started x → ∀ y, .started y ∈ log → .finished y ∈ log ∧ y.lt x) :
    Serial (log ++ [e]) := by
  intro pre x post heq
  rcases eq_nil_or_concat post with rfl | ⟨post', e', rfl⟩
  · obtain ⟨rfl, hx⟩ := append_inj' heq rfl
    exact he x (List.cons.inj hx).1
  · have heq' : log ++ [e] = (pre ++ .started x :: post') ++ [e'] := by
      rw [heq, concat_eq_append, append_assoc, cons_append]
    exact h pre x post' (append_inj' heq' rfl).1

/-! ## The tasks of a lease -/

theorem AfterMove.scripts {v : View} {i : Nat} {run : AfterRun} {a : AfterAct}
    {run' : Option AfterRun} {o : Out} (h : AfterMove v i run a run' o) :
    (o.scripts = [] ∧ run ≠ .script) ∨ o.scripts = [.finished ⟨i, .after⟩] := by
  cases h with
  | exit => exact .inr rfl
  | _ => exact .inl ⟨rfl, nofun⟩

namespace LeaseContext

variable {cfg : Config} {v : View} {i : Nat} {c c' : LeaseContext} {o : Out}

/-- The script of the hook runs, and a task of the lease waits for it. -/
@[simp] def runs (c : LeaseContext) : HookType → Bool
  | .before => c.before = .script
  | .after => c.handle = .after .script ∨ c.endSession = .after .script

/-- A cancellation leaves the script of the `beforeLease` hook running. -/
def abandons (c : LeaseContext) : TaskAct → Bool
  | .before (.cancel alive) => alive && c.before = .script
  | _ => false

inductive Logs (i : Nat) (c c' : LeaseContext) : List ScriptEvent → Prop
  | nothing : Logs i c c' []
  | finished (k : HookType) : Logs i c c' [.finished ⟨i, k⟩]
  | before : c.before = .polling → c.beforeLeaseHook = false → c'.runs .before = true →
    Logs i c c' [.started ⟨i, .before⟩]
  | after : c.afterLeaseHookStarted = false → c'.afterLeaseHookStarted = true →
    c.handle ≠ .finished → c.beforeLeaseHook = true → c'.runs .after = true →
    Logs i c c' [.started ⟨i, .after⟩]

theorem Logs.started {es : List ScriptEvent} (h : Logs i c c' es) {x : Script}
    (hx : .started x ∈ es) : x.lease = i ∧ c'.runs x.hook = true ∧
      (x.hook = .after → c'.afterLeaseHookStarted = true) := by
  cases h with
  | nothing => cases hx
  | finished => simp at hx
  | before _ _ hr =>
    cases mem_singleton.mp hx
    exact ⟨rfl, hr, nofun⟩
  | after _ hs _ _ hr =>
    cases mem_singleton.mp hx
    exact ⟨rfl, hr, fun _ => hs⟩

theorem Touched.runs (h : c.Touched c') (k : HookType) : c'.runs k = c.runs k := by
  obtain ⟨client, b, rfl⟩ := h
  cases k <;> rfl

theorem step_logs {a : TaskAct} (hok : c.Ok cfg) (h : c.step cfg v i a = some (c', o))
    (hto : c.safetyTimeout a = false) : Logs i c c' o.scripts := by
  have hafter : ∀ {run a run' o}, AfterMove v i run a run' o → Logs i c c' o.scripts := by
    intro run a run' o hm
    rcases hm.scripts with ⟨hs, -⟩ | hs <;> rw [hs]
    · exact .nothing
    · exact .finished .after
  cases a with
  | handle a =>
    cases handleStep_move h with
    | runAfter hh _ hnot hs =>
      cases hs with
      | script =>
        exact .after hnot rfl (by rw [hh]; nofun) (by simpa [safetyTimeout] using hto) (by simp)
      | delay => exact .nothing
    | after _ hm | afterReturn _ hm => exact hafter hm
    | _ => exact .nothing
  | before a =>
    cases beforeStep_move h with
    | script hp hr he => exact .before hp (hok.beforeLeaseHook hp hr he) (by simp)
    | exit | exitDelay | cancelScript | orphanExit => exact .finished .before
    | _ => exact .nothing
  | endSession a =>
    cases endStep_move h with
    | runAfter he hrequested hnot hs =>
      cases hs with
      | script =>
        -- `EndSession` came over a connection, which waited for the event.
        have hb := hok.beforeLeaseHook_of_connected (hok.requested hrequested)
        have hopen := HandleLease.ne_finished_of_isOpen (hok.isOpen_of_waiting he hnot)
        exact .after hnot rfl hopen hb (by simp)
      | delay => exact .nothing
    | after _ hm | afterReturn _ hm => exact hafter hm
    | _ => exact .nothing

theorem step_runs {a : TaskAct} (hok : c.Ok cfg) (h : c.step cfg v i a = some (c', o)) {k : HookType}
    (hr : c.runs k = true) (hab : c.abandons a = false) :
    c'.runs k = true ∨ .finished ⟨i, k⟩ ∈ o.scripts := by
  -- The step of `run_after_lease_hook` from the script is its end.
  have hexit : ∀ {run a run' o}, AfterMove v i run a run' o → run = .script →
      .finished ⟨i, .after⟩ ∈ o.scripts := by
    intro run a run' o hm hrun
    rcases hm.scripts with ⟨-, hne⟩ | hs
    · exact absurd hrun hne
    · rw [hs]
      exact mem_singleton_self _
  cases k with
  | before =>
    have hb : c.before = .script := by simpa using hr
    cases a with
    | handle a => cases handleStep_move h <;> exact .inl hr
    | before a =>
      cases beforeStep_move h with
      | exit | exitDelay | cancelScript => exact .inr (mem_singleton_self _)
      | orphanExit => exact .inl hr
      | abandon => simp [abandons, hb] at hab
      | _ => simp_all
    | endSession a => cases endStep_move h <;> exact .inl hr
  | after =>
    have ha : c.handle = .after .script ∨ c.endSession = .after .script := by simpa using hr
    cases a with
    | handle a =>
      rcases ha with hh | he
      · cases handleStep_move h with
        | after hp hm | afterReturn hp hm =>
          rw [hh] at hp
          cases hp
          exact .inr (hexit hm rfl)
        | _ => simp_all
      · cases handleStep_move h with
        | serve hh | serveReady hh =>
          have := (hok.fresh (by rw [hh]; rfl)).2.1
          simp_all
        | _ => exact .inl (by simp [he])
    | before a => cases beforeStep_move h <;> exact .inl hr
    | endSession a =>
      rcases ha with hh | he
      · cases endStep_move h <;> exact .inl (by simp [hh])
      · cases endStep_move h with
        | after hp hm | afterReturn hp hm =>
          rw [he] at hp
          cases hp
          exact .inr (hexit hm rfl)
        | connect | request => exact .inl hr
        | _ => simp_all

theorem step_polling {a : TaskAct} (h : c.step cfg v i a = some (c', o))
    (hp : c'.before = .polling) : c.before = .polling := by
  cases a with
  | handle a => cases handleStep_move h <;> exact hp
  | before a =>
    cases beforeStep_move h with
    | orphanExit => exact hp
    | _ => cases hp
  | endSession a => cases endStep_move h <;> exact hp

theorem step_afterLeaseHookStarted {a : TaskAct} (h : c.step cfg v i a = some (c', o))
    (hs : c.afterLeaseHookStarted = true) : c'.afterLeaseHookStarted = true := by
  cases a with
  | handle a => cases handleStep_move h <;> first | exact hs | rfl
  | before a => cases beforeStep_move h <;> exact hs
  | endSession a => cases endStep_move h <;> first | exact hs | rfl

end LeaseContext

/-! ## The exporter -/

namespace Exporter

variable {cfg : Config} {s s' : Exporter}

/-- The step is not the safety timeout, and leaves no script running without its task. -/
def orderedAct (s : Exporter) : Act → Bool
  | .task i a => noTimeout s (.task i a) && !(s.ctx i).abandons a
  | _ => true

structure OrderInv (s : Exporter) : Prop where
  serial : Serial s.scripts
  done : ∀ y, .started y ∈ s.scripts → .finished y ∈ s.scripts ∨ (s.ctx y.lease).runs y.hook = true
  before : ∀ j, .started ⟨j, .before⟩ ∈ s.scripts → (s.ctx j).before ≠ .polling
  after : ∀ j, .started ⟨j, .after⟩ ∈ s.scripts → (s.ctx j).afterLeaseHookStarted = true
  count : ∀ y, .started y ∈ s.scripts → y.lease < s.count
  waits : ∀ j, (s.ctx j).Waits

theorem OrderInv.slot_of_runs (ho : OrderInv s) (hi : Inv cfg s) {j : Nat} {k : HookType}
    (hr : (s.ctx j).runs k = true) : s.slot = some j := by
  cases k with
  | before =>
    have hopen := (hi.ok j).waits (ho.waits j (by simpa [runs] using hr))
    exact hi.live j (HandleLease.ne_finished_of_isOpen hopen.1)
  | after =>
    refine hi.live j fun hf => ?_
    have hend : (s.ctx j).endSession = .after .script := by
      simpa [runs, hf] using hr
    exact (hi.ok j).ne_finished_of_endAfter (by rw [hend]; rfl) hf

theorem OrderInv.earlier (ho : OrderInv s) (hi : Inv cfg s) {i : Nat} (hslot : s.slot = some i)
    {y : Script} (hy : .started y ∈ s.scripts) (hne : y.lease ≠ i) :
    .finished y ∈ s.scripts ∧ y.lease < i := by
  have hlt := ho.count y hy
  have hlast := hi.last i hslot
  refine ⟨(ho.done y hy).resolve_right fun hr => hne ?_, by omega⟩
  have hslot' := ho.slot_of_runs hi hr
  rw [hslot] at hslot'
  cases hslot'
  rfl

theorem OrderInv.serial_step (ho : OrderInv s) (hi : Inv cfg s) {i : Nat} {c : LeaseContext}
    {es : List ScriptEvent} (hl : LeaseContext.Logs i (s.ctx i) c es) :
    Serial (s.scripts ++ es) := by
  cases hl with
  | nothing => exact (append_nil s.scripts).symm ▸ ho.serial
  | finished => exact ho.serial.concat nofun
  | before hp hb =>
    have hslot := hi.live i (HandleLease.ne_finished_of_isOpen ((hi.ok i).waits hb).1)
    refine ho.serial.concat fun x hx y hy => ?_
    cases hx
    by_cases hne : y.lease = i
    · -- No script of the lease has started.
      obtain ⟨j, k⟩ := y
      cases hne
      cases k with
      | before => exact absurd hp (ho.before j hy)
      | after =>
        have := (hi.ok j).started (ho.after j hy)
        rw [hb] at this
        cases this
    · exact (ho.earlier hi hslot hy hne).imp_right .inl
  | after hnot _ hopen hb =>
    have hslot := hi.live i hopen
    refine ho.serial.concat fun x hx y hy => ?_
    cases hx
    by_cases hne : y.lease = i
    · obtain ⟨j, k⟩ := y
      cases hne
      cases k with
      | before =>
        refine ⟨(ho.done _ hy).resolve_right fun hr => ?_, .inr ⟨rfl, rfl, rfl⟩⟩
        rw [ho.waits j (by simpa [runs] using hr)] at hb
        cases hb
      | after =>
        rw [ho.after j hy] at hnot
        cases hnot
    · exact (ho.earlier hi hslot hy hne).imp_right .inl

def logged (cfg : Config) (s : Exporter) : Act → List ScriptEvent
  | .task i a => (((s.ctx i).step cfg s.view i a).map fun (_, o) => o.scripts).getD []
  | _ => []

variable {a : Act}

theorem Move.scripts (h : Move cfg s a s') : s'.scripts = s.scripts ++ logged cfg s a := by
  cases h with
  | serve | send | stop | fail | cancelLoop => exact (append_nil _).symm
  | receive _ hm =>
    refine .trans ?_ (append_nil _).symm
    cases hm <;> rfl
  | @task i a c o hs =>
    obtain ⟨ctx, tg, flag, endings, heq, -⟩ := s.apply_eq i c o
    simp [heq, logged, hs]

theorem CtxMove.order {j : Nat} (h : CtxMove cfg s s' j a) (hi : Inv cfg s) (hok : orderedAct s a = true)
    (hj : j < s.count) :
    (∀ k, (s.ctx j).runs k = true →
      (s'.ctx j).runs k = true ∨ .finished ⟨j, k⟩ ∈ logged cfg s a) ∧
    ((s'.ctx j).before = .polling → (s.ctx j).before = .polling) ∧
    ((s.ctx j).afterLeaseHookStarted = true → (s'.ctx j).afterLeaseHookStarted = true) := by
  cases h with
  | keep hctx =>
    rw [hctx]
    exact ⟨fun _ => .inl, id, id⟩
  | touch _ ht =>
    rw [ht.before, ht.afterLeaseHookStarted]
    exact ⟨fun k hr => .inl (ht.runs k ▸ hr), id, id⟩
  | @task b c o hs ht =>
    have hab : (s.ctx j).abandons b = false := by
      simp only [orderedAct, Bool.and_eq_true, Bool.not_eq_true'] at hok
      exact hok.2
    have hlog : logged cfg s (.task j b) = o.scripts := by simp [logged, hs]
    rw [hlog, ht.before, ht.afterLeaseHookStarted]
    refine ⟨fun k hr => ?_, step_polling hs, step_afterLeaseHookStarted hs⟩
    rw [ht.runs k]
    exact step_runs (hi.ok j) hs hr hab
  | acquire hcount => omega

theorem Move.logs (h : Move cfg s a s') (hi : Inv cfg s) (hok : orderedAct s a = true) :
    ∃ i c, LeaseContext.Logs i (s.ctx i) c (logged cfg s a) ∧
      (logged cfg s a ≠ [] → i < s.count ∧ c.Touched (s'.ctx i)) := by
  cases h with
  | @task i b c o hs =>
    have hto : (s.ctx i).safetyTimeout b = false := by
      simp only [orderedAct, noTimeout, Bool.and_eq_true, Bool.not_eq_true'] at hok
      exact hok.1
    refine ⟨i, c, ?_, fun _ => ⟨hi.lt_count hs, ?_⟩⟩
    · simp only [logged, hs, Option.map_some, Option.getD_some]
      exact step_logs (hi.ok i) hs hto
    · rw [s.apply_ctx, if_pos rfl]
      exact c.touched_endIf _
  | _ => exact ⟨0, s.ctx 0, .nothing, fun h => absurd rfl h⟩

theorem Move.started (h : Move cfg s a s') (hi : Inv cfg s) (hok : orderedAct s a = true) {x : Script}
    (hx : .started x ∈ logged cfg s a) :
    x.lease < s.count ∧ (s'.ctx x.lease).runs x.hook = true ∧
      (x.hook = .after → (s'.ctx x.lease).afterLeaseHookStarted = true) := by
  obtain ⟨i, c, hl, hc⟩ := h.logs hi hok
  obtain ⟨hlt, ht⟩ := hc (ne_nil_of_mem hx)
  obtain ⟨rfl, hr, hs⟩ := hl.started hx
  exact ⟨hlt, by rw [ht.runs, hr], fun hk => by rw [ht.afterLeaseHookStarted, hs hk]⟩

theorem OrderInv.step (ho : OrderInv s) (hi : Inv cfg s) (hok : orderedAct s a = true) (h : Move cfg s a s') :
    OrderInv s' := by
  have hto : noTimeout s a = true := by
    cases a with
    | task i b =>
      simp only [orderedAct, Bool.and_eq_true] at hok
      exact hok.1
    | _ => rfl
  -- A script in the log was there before the step, or the step started it.
  have hmem : ∀ e, e ∈ s'.scripts ↔ e ∈ s.scripts ∨ e ∈ logged cfg s a := fun e => by
    rw [h.scripts, mem_append]
  have hctx : ∀ y, .started y ∈ s.scripts → _ :=
    fun y hy => (h.ctx y.lease).order hi hok (ho.count y hy)
  refine ⟨?_, fun y hy => ?_, fun j hj => ?_, fun j hj => ?_, fun y hy => ?_, hi.waits_step hto h ho.waits⟩
  · obtain ⟨i, c, hl, -⟩ := h.logs hi hok
    rw [h.scripts]
    exact ho.serial_step hi hl
  · rw [hmem]
    rcases (hmem _).mp hy with hy | hy
    · rcases ho.done y hy with hf | hr
      · exact .inl (.inl hf)
      · rcases (hctx y hy).1 _ hr with hr | hf
        · exact .inr hr
        · exact .inl (.inr hf)
    · exact .inr (h.started hi hok hy).2.1
  · rcases (hmem _).mp hj with hj | hj
    · exact fun hp => ho.before j hj ((hctx _ hj).2.1 hp)
    · have hr := (h.started hi hok hj).2.1
      intro hp
      simp [runs, hp] at hr
  · rcases (hmem _).mp hj with hj | hj
    · exact (hctx _ hj).2.2 (ho.after j hj)
    · exact (h.started hi hok hj).2.2 rfl
  · have hcount := h.slot.count_le
    rcases (hmem _).mp hy with hy | hy
    · have := ho.count y hy
      omega
    · have := (h.started hi hok hy).1
      omega

theorem inductive_orderInv (cfg : Config) :
    (sys cfg).InductiveIf (fun s a => orderedAct s a = true) fun s => Inv cfg s ∧ OrderInv s where
  init s hs := by
    rw [hs]
    exact ⟨Inv.start cfg, Serial.nil, nofun, nofun, nofun, nofun, fun _ h => (nomatch h)⟩
  step s a s' hi hok hst := by
    obtain ⟨hi, ho⟩ := hi
    have hm := step_move hst
    exact ⟨hi.step hm, ho.step hi hok hm⟩

/-- The scripts of the hooks run one after the other, in order. -/
theorem serial_of_ordered (cfg : Config) {s : Exporter}
    (hs : (sys cfg).ReachIf (fun s a => orderedAct s a = true) s) : Serial s.scripts :=
  ((inductive_orderInv cfg).reach hs).2.serial

def hooksConfig : Config where
  hookExecutor := some { beforeLease := some {}, afterLease := some {} }

/-- A lease whose `beforeLease` script has started. -/
def startedRun : List Act :=
  [.serve, .send { leased := true, leaseName := "a", clientName := "c" }, .receive,
    .task 0 (.handle .start), .task 0 (.handle (.setUp false)),
    .task 0 (.before (.poll false .started))]

theorem serial_of_ordered_ended : ∃ s : Exporter,
    (sys hooksConfig).ReachIf (fun s a => orderedAct s a = true) s ∧
      s.scripts = [.started ⟨0, .before⟩, .finished ⟨0, .before⟩, .started ⟨0, .after⟩] ∧
      Serial s.scripts := by
  have hrun : (((sys hooksConfig).execIf orderedAct {} (startedRun ++
      [.send { leased := false }, .receive, .task 0 (.handle (.connEnd false)),
        .task 0 (.before (.exit .ok)), .task 0 (.handle (.cleanup false .started))])).any fun s =>
          s.scripts = [.started ⟨0, .before⟩, .finished ⟨0, .before⟩, .started ⟨0, .after⟩]) =
        true := by decide +kernel
  obtain ⟨s, hs, hp⟩ := Sys.ReachIf.execIf_any (.init rfl) _ hrun
  exact ⟨s, hs, of_decide_eq_true hp, serial_of_ordered hooksConfig hs⟩

/-- `stop` cancels the tasks while the `beforeLease` script runs, and the `afterLease` script starts
before it has ended. -/
theorem serial_fails : ∃ s : Exporter,
    (sys hooksConfig).ReachIf (fun s a => noTimeout s a = true) s ∧ ¬ Serial s.scripts := by
  have hrun : (((sys hooksConfig).execIf noTimeout {} (startedRun ++
      [.stop false, .task 0 (.before (.cancel true)), .task 0 (.handle .cancel),
        .task 0 (.handle (.cleanup false .started))])).any fun s =>
          s.scripts = [.started ⟨0, .before⟩, .started ⟨0, .after⟩]) = true := by decide +kernel
  obtain ⟨s, hs, hp⟩ := Sys.ReachIf.execIf_any (.init rfl) _ hrun
  refine ⟨s, hs, fun h => ?_⟩
  have hfin := (h [.started ⟨0, .before⟩] ⟨0, .after⟩ [] (of_decide_eq_true hp) ⟨0, .before⟩
    (mem_singleton_self _)).1
  simp at hfin

end Exporter
end Jumpstarter.Runtime
