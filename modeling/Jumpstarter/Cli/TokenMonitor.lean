import Jumpstarter.Cli.TokenRecovery
import Jumpstarter.Lib.Sys
import Jumpstarter.Lib.Threads

/-!
# Token monitors of a shell (`_shell_with_signal_handling`, `_monitor_token_expiry`)

The shell enters a lease and starts a token monitor for it. When the exporter is unreachable it leaves the
lease and enters a new one, with a monitor of its own, and the monitors of the leases that it left keep
running. They share one config, and each of them gives a new channel to its own lease only.

- `refresh_reaches`: after a recovery of the token, and until the token changes again, the channel of the
  lease in use carries the token, or the lease was created later (`Reaches`), in every run in which
  recoveries are completed by the monitor of the lease in use, or while there is none (`byUser`).
- `refresh_reaches_fails`: the monitor of a lease that was left refreshes the token first.
- What a step can do to the channels and to the token (`step_effect`), and the invariant (`Inv`).

A step runs a task up to its next `await`: the sleep of a monitor, the grant, or the new channel. The stages
of a recovery are the ones of `TokenRecovery`. The messages of the monitors are left out.
-/

namespace Jumpstarter.TokenMonitor

open Lib List
open TokenRecovery

/-- Where a monitor is; `old` is the config that its handler restores. -/
inductive Monitor where
  | waiting | starting | idle
  | granting (old : Config) | channeling (old : Config) | reloading (old : Config)
  | done

/-- A lease that the shell has created: the token of its channel, and its monitor. -/
structure LeaseCtx where
  channel : Option String
  monitor : Monitor

/-- Where the shell is, with respect to the last lease it created. -/
inductive Shell where
  | outside | acquiring | inside
  deriving DecidableEq

/-- A state of the shell. `fresh` is a ghost: the number of leases that had been created when a recovery
succeeded, as long as the token stays the same. -/
structure St where
  world : World
  leases : List LeaseCtx
  shell : Shell
  fresh : Option Nat

/-- What the functions that a monitor calls see: `get_token_remaining_seconds`, whether the issuer can be
decoded, and whether the config file can be read. -/
structure View where
  remaining : String → Except String (Option Int)
  issuer : Except String Unit
  read : Except String Unit

/-- The steps. The index is the one of the lease whose monitor moves. -/
inductive Act where
  | create | enter | leave
  | login (path : String) (stored : Stored)
  | start (i : Nat)
  | poll (i : Nat) (view : View)
  | granted (i : Nat) (tokens : Tokens) (view : View)
  | grantFailed (i : Nat) (view : View)
  | channelMade (i : Nat) (save : Save)
  | channelFailed (i : Nat) (view : View)

/-- `_TOKEN_REFRESH_THRESHOLD_SECONDS`. -/
def tokenRefreshThreshold : Int := 120

/-! ## The steps of a monitor -/

/-- `_try_reload_token_from_disk` up to its channel. -/
def startReload (view : View) (w : World) : Monitor × World :=
  match diskToken view.read view.remaining w with
  | none => (.idle, w)
  | some disk =>
    (.reloading w.config,
      { w with config := { w.config with token := disk.token, refreshToken := disk.refreshToken } })

/-- The handler of `_try_refresh_token`, and then the second method. -/
def refreshFailed (view : View) (old : Config) (w : World) : Monitor × World :=
  startReload view { w with config := w.config.restore old }

/-- `_attempt_token_recovery` up to the grant. -/
def startRecovery (view : View) (w : World) : Monitor × World :=
  match truthy w.config.refreshToken, view.issuer with
  | none, _ => startReload view w
  | some _, .error _ => refreshFailed view w.config w
  | some _, .ok _ => (.granting w.config, w)

/-- One iteration of `_monitor_token_expiry`. -/
def pollToken (view : View) (w : World) : Monitor × World :=
  match w.config.token.map view.remaining with
  | some (.ok (some seconds)) =>
    if seconds ≤ tokenRefreshThreshold then startRecovery view w else (.idle, w)
  | _ => (.done, w)

/-- A step of a monitor that is at `m`, for the steps that make no channel. -/
def monitorStep (m : Monitor) (w : World) : Act → Option (Monitor × World)
  | .start _ =>
    match m with
    | .starting => some (if (truthy w.config.token).isSome then .idle else .done, w)
    | _ => none
  | .poll _ view =>
    match m with
    | .idle => some (pollToken view w)
    | _ => none
  | .granted _ tokens view =>
    match m with
    | .granting old =>
      match w.config.assign tokens with
      | some c => some (.channeling old, { w with config := c })
      | none => some (refreshFailed view old w)
    | _ => none
  | .grantFailed _ view =>
    match m with
    | .granting old => some (refreshFailed view old w)
    | _ => none
  | .channelFailed _ view =>
    match m with
    | .channeling old => some (refreshFailed view old w)
    | .reloading old => some (.idle, { w with config := w.config.restore old })
    | _ => none
  | _ => none

def channelStep (save : Save) (m : Monitor) (w : World) : Option World :=
  match m with
  | .channeling _ => some (w.save save)
  | .reloading _ => some w
  | _ => none

/-! ## The system -/

def St.moveMonitor (s : St) (i : Nat) (a : Act) : Option St := do
  let lease ← s.leases[i]?
  let (m, w) ← monitorStep lease.monitor s.world a
  return { s with
    world := w
    leases := s.leases.set i { lease with monitor := m }
    fresh := if w.config.token = s.world.config.token then s.fresh else none }

/-- A monitor completes a recovery: `refresh_channel` of its lease, for the token that the config has. -/
def St.complete (s : St) (i : Nat) (save : Save) : Option St := do
  let lease ← s.leases[i]?
  let w ← channelStep save lease.monitor s.world
  return { s with
    world := w
    leases := s.leases.set i ⟨s.world.config.token, .idle⟩
    fresh := some s.leases.length }

/-- The monitor of the last lease is started. -/
def St.startMonitor (s : St) : List LeaseCtx :=
  s.leases.modify (s.leases.length - 1) fun lease => { lease with monitor := .starting }

def step (s : St) (a : Act) : Option St :=
  match a with
  | .create =>
    if s.shell = .outside then
      some { s with leases := s.leases ++ [⟨s.world.config.token, .waiting⟩], shell := .acquiring }
    else none
  | .enter =>
    if s.shell = .acquiring then some { s with leases := s.startMonitor, shell := .inside } else none
  | .leave => if s.shell = .inside then some { s with shell := .outside } else none
  | .login path stored =>
    some { s with world :=
      { s.world with files := fun p => if p = path then some stored else s.world.files p } }
  | .channelMade i save => s.complete i save
  | .start i | .poll i _ | .granted i _ _ | .grantFailed i _ | .channelFailed i _ => s.moveMonitor i a

def system : Sys St Act where
  init s := s.leases = [] ∧ s.shell = .outside ∧ s.fresh = none
  step := step

def St.inUse (s : St) : Option Nat :=
  if s.shell = .inside then some (s.leases.length - 1) else none

/-- After a recovery the channel of the lease in use carries the token, or the lease was created later. -/
def Reaches (s : St) : Prop :=
  ∀ n i lease, s.fresh = some n → s.inUse = some i → s.leases[i]? = some lease →
    lease.channel = s.world.config.token ∨ n ≤ i

/-- A recovery is completed by the monitor of the lease in use, or before the next lease is created. -/
def byUser (s : St) : Act → Bool
  | .channelMade i _ => s.inUse = some i || s.shell = .outside
  | _ => true

/-! ## What a step can do -/

def St.channels (s : St) : List (Option String) := s.leases.map LeaseCtx.channel

/-- What a step does to the channels, to the token and to `fresh`. -/
inductive Effect (s : St) (a : Act) (s' : St) : Prop where
  | created (h : s'.channels = s.channels ++ [s.world.config.token])
      (token : s'.world.config.token = s.world.config.token) (fresh : s'.fresh = s.fresh)
  | kept (h : s'.channels = s.channels)
      (fresh : s'.fresh = none ∨ s'.fresh = s.fresh ∧ s'.world.config.token = s.world.config.token)
      (shell : s.shell = .outside → s'.shell = .outside)
  | completed (i : Nat) (save : Save) (act : a = .channelMade i save) (bound : i < s.channels.length)
      (h : s'.channels = s.channels.set i s.world.config.token)
      (token : s'.world.config.token = s.world.config.token)
      (fresh : s'.fresh = some s.channels.length) (shell : s'.shell = s.shell)

variable {s s' : St} {i : Nat}

theorem moveMonitor_effect {a : Act} (h : s.moveMonitor i a = some s') : Effect s a s' := by
  unfold St.moveMonitor at h
  obtain ⟨lease, hlease, h⟩ := Option.bind_eq_some_iff.mp h
  obtain ⟨⟨m, w⟩, -, h⟩ := Option.bind_eq_some_iff.mp h
  cases h
  refine .kept (map_set_of hlease rfl) ?_ id
  by_cases htoken : w.config.token = s.world.config.token
  · exact .inr ⟨if_pos htoken, htoken⟩
  · exact .inl (if_neg htoken)

theorem channelStep_token {save : Save} {m : Monitor} {w w' : World}
    (h : channelStep save m w = some w') : w'.config.token = w.config.token := by
  unfold channelStep at h
  split at h
  · cases h
    cases save <;> rfl
  · cases h
    rfl
  · cases h

theorem complete_effect {save : Save} (h : s.complete i save = some s') :
    Effect s (.channelMade i save) s' := by
  unfold St.complete at h
  obtain ⟨lease, hlease, h⟩ := Option.bind_eq_some_iff.mp h
  obtain ⟨w, hw, h⟩ := Option.bind_eq_some_iff.mp h
  cases h
  have hlen : s.channels.length = s.leases.length := length_map _
  refine .completed i save rfl ?_ map_set (channelStep_token hw) (by rw [hlen]) rfl
  rw [hlen]
  exact (List.getElem?_eq_some_iff.mp hlease).1

theorem startMonitor_channels (s : St) : s.startMonitor.map LeaseCtx.channel = s.channels := by
  refine ext_getElem? fun j => ?_
  rw [St.startMonitor, St.channels, getElem?_map, getElem?_map, getElem?_modify]
  cases s.leases[j]? with
  | none => rfl
  | some lease => split <;> rfl

theorem step_effect {a : Act} (h : step s a = some s') : Effect s a s' := by
  cases a with
  | create =>
    simp only [step] at h
    split at h
    · cases h
      exact .created map_append rfl rfl
    · cases h
  | enter =>
    simp only [step] at h
    split at h
    · rename_i hshell
      cases h
      exact .kept (startMonitor_channels s) (.inr ⟨rfl, rfl⟩) (by simp [hshell])
    · cases h
  | leave =>
    simp only [step] at h
    split at h
    · cases h
      exact .kept rfl (.inr ⟨rfl, rfl⟩) fun _ => rfl
    · cases h
  | login path stored =>
    cases h
    exact .kept rfl (.inr ⟨rfl, rfl⟩) id
  | channelMade i save => exact complete_effect h
  | start i => exact moveMonitor_effect h
  | poll i view => exact moveMonitor_effect h
  | granted i tokens view => exact moveMonitor_effect h
  | grantFailed i view => exact moveMonitor_effect h
  | channelFailed i view => exact moveMonitor_effect h

/-! ## Runs -/

/-- The channel of the last lease carries a recovered token. -/
def Inv (s : St) : Prop :=
  s.fresh.isSome → s.shell ≠ .outside → s.channels.getLast? = some s.world.config.token

theorem inUse_last (h : s.inUse = some i) : s.shell = .inside ∧ s.channels.length - 1 = i := by
  have hlen : s.channels.length = s.leases.length := length_map _
  unfold St.inUse at h
  split at h
  · rw [hlen]
    exact ⟨‹_›, Option.some.inj h⟩
  · cases h

theorem inv_inductive : system.InductiveIf (fun s a => byUser s a = true) Inv where
  init := by
    rintro s ⟨-, -, hfresh⟩ hsome
    rw [hfresh] at hsome
    cases hsome
  step := by
    intro s a s' hinv hby hstep hsome hshell'
    rcases step_effect hstep with ⟨hch, htoken, -⟩ | ⟨hch, hfresh, hshell⟩ |
      ⟨i, save, rfl, hbound, hch, htoken, -, hshell⟩
    · rw [hch, htoken, getLast?_concat]
    · rcases hfresh with hnone | ⟨hfresh, htoken⟩
      · rw [hnone] at hsome
        cases hsome
      · rw [hfresh] at hsome
        rw [hch, htoken]
        exact hinv hsome fun h => hshell' (hshell h)
    · -- the lease is the last one, because it is in use
      rw [hshell] at hshell'
      have huse : s.inUse = some i := by simpa [byUser, hshell'] using hby
      rw [hch, htoken, getLast?_eq_getElem?, length_set, (inUse_last huse).2]
      exact getElem?_set_self hbound

/-- A refreshed token reaches the lease in use if the monitor of that lease refreshes it, or if it is
refreshed while no lease is in use. -/
theorem refresh_reaches {s : St} (h : system.ReachIf (fun s a => byUser s a = true) s) : Reaches s := by
  intro n i lease hfresh huse hlease
  obtain ⟨hinside, hlast⟩ := inUse_last huse
  have hinv := inv_inductive.reach h (by simp [hfresh]) (by simp [hinside])
  rw [getLast?_eq_getElem?, hlast, St.channels, getElem?_map, hlease] at hinv
  exact .inl (Option.some.inj hinv)

/-! ## Two leases -/

def start0 : St where
  world :=
    { config := { token := some "a0", refreshToken := some "r0", path := none, defaultPath := "d.yaml" }
      files := fun _ => none }
  leases := []
  shell := .outside
  fresh := none

/-- `a0` has a minute left, every other token an hour. -/
def soon : View where
  remaining token := .ok (some (if token = "a0" then 60 else 3600))
  issuer := .ok ()
  read := .ok ()

/-- The shell enters a second lease before the monitor of the first one refreshes the token. Then both poll. -/
def twoLeases : List Act :=
  [.create, .enter, .start 0, .leave, .create, .enter, .start 1, .poll 0 soon,
    .granted 0 ⟨some "a1", some "r1"⟩ soon, .channelMade 0 .written, .poll 0 soon, .poll 1 soon]

def staleChannel (s : St) : Bool :=
  s.fresh = some 2 && s.inUse = some 1 && s.channels = [some "a1", some "a0"] &&
    s.world.config.token = some "a1"

theorem refresh_reaches_fails : ∃ s, system.Reach s ∧ ¬ Reaches s := by
  have hinit : system.Reach start0 := .init ⟨rfl, rfl, rfl⟩
  obtain ⟨s, hs, hstale⟩ := hinit.exec_any twoLeases (p := staleChannel) (by decide)
  refine ⟨s, hs, fun hreaches => ?_⟩
  simp only [staleChannel, Bool.and_eq_true, decide_eq_true_eq] at hstale
  obtain ⟨⟨⟨hfresh, huse⟩, hch⟩, htoken⟩ := hstale
  have hget : s.channels[1]? = some (some "a0") := by rw [hch]; rfl
  rw [St.channels, getElem?_map] at hget
  obtain ⟨lease, hlease, hchannel⟩ := Option.map_eq_some_iff.mp hget
  rcases hreaches 2 1 lease hfresh huse hlease with h | h
  · rw [hchannel, htoken] at h
    exact absurd h (by decide)
  · exact absurd h (by decide)

def ownRefresh : List Act :=
  [.create, .enter, .start 0, .leave, .create, .enter, .start 1, .poll 1 soon,
    .granted 1 ⟨some "a1", some "r1"⟩ soon, .channelMade 1 .written, .poll 0 soon]

theorem refresh_reaches_own : ∃ s,
    system.ReachIf (fun s a => byUser s a = true) s ∧ s.fresh = some 2 ∧ Reaches s := by
  have hinit : system.ReachIf (fun s a => byUser s a = true) start0 := .init ⟨rfl, rfl, rfl⟩
  obtain ⟨s, hs, hfresh⟩ := hinit.execIf_any ownRefresh (p := fun s => s.fresh = some 2) (by decide)
  exact ⟨s, hs, of_decide_eq_true hfresh, refresh_reaches hs⟩

end Jumpstarter.TokenMonitor
