import Jumpstarter.Lib.Sys
import Mathlib.Tactic.Common

/-!
# The manager of the demuxer process

Drivers register with the `DemuxerManager`, whose monitor thread waits for the device, starts the demuxer and
reads the paths that it prints. Methods that hold the lock are one step; the monitor reads the configuration
without the lock, field by field.

- `own_of_settled`: a driver gets only paths that its own configuration has led to, in every run in which a
  first driver with another configuration comes only while the monitor waits for a device. The monitor
  outlives the drivers, so this is not so in general (`not_own`).
- `dead_of_seen`: after `_cleanup` no demuxer runs, if `_cleanup` does not look for the process between the
  monitor's test of `_shutdown` and the moment the process is stored (`not_dead`), and the process can be killed.
-/

namespace Jumpstarter.Nvdemux

open Lib

/-- What the demuxer is started with; `device` is the pattern. -/
@[grind ext] structure Config where
  demuxerPath : String
  device : String
  chip : String
  deriving DecidableEq

structure DriverInfo where
  driverId : String
  target : String
  config : Config
  deriving DecidableEq

inductive Monitor where
  | absent
  /-- In `_wait_for_device`, or between two cycles. -/
  | waiting
  | found (device : String)
  /-- `_shutdown` was not set. -/
  | checked (device : String)
  | named (device demuxerPath : String)
  /-- `Popen` has returned, and `_process` is not assigned yet. -/
  | spawned (cmd : Config)
  | reading (cmd : Config)
  /-- In `_cleanup_demuxer_process`. -/
  | closing
  deriving DecidableEq

/-- Where `_cleanup` is. -/
inductive Cleanup where
  | idle
  | shutdown
  /-- It has read `_process`, which was not `None` if `found`. -/
  | took (found : Bool)
  | joining
  | done
  deriving DecidableEq

/-- A path, and the demuxer that printed it. -/
structure Pts where
  path : String
  cmd : Config
  deriving DecidableEq

structure St where
  /-- `_demuxer_path`, `_device` and `_chip`, which the first driver sets. -/
  config : Config := ⟨"", "", ""⟩
  drivers : List DriverInfo := []
  /-- `_pts_map`. -/
  ptsMap : List (String × Pts) := []
  monitor : Monitor := .absent
  shutdown : Bool := false
  /-- `_process` is not `None`. -/
  process : Bool := false
  live : Bool := false
  cleanup : Cleanup := .idle

inductive Act where
  | registerDriver (info : DriverInfo)
  | unregisterDriver (driverId : String)
  | findDevice
  | testShutdown
  | readPath
  | popen (ok : Bool)
  | store
  | line (target path : String)
  | endOfOutput
  | cleanupProcess
  | leave
  | exit
  | setShutdown
  | take
  /-- `terminate`, then `kill`; the process may outlive both. -/
  | kill (dies : Bool)
  /-- `join` returns, or its timeout is over; the maps are cleared. -/
  | join (timeout : Bool)

/-- `register_driver`; a driver that it refuses changes nothing. -/
def St.registerDriver (s : St) (info : DriverInfo) : St :=
  if s.drivers ≠ [] ∧ (info.config ≠ s.config ∨ s.drivers.any (·.target = info.target)) then s
  else
    let s := { s with
      config := if s.drivers = [] then info.config else s.config
      drivers := s.drivers.filter (·.driverId ≠ info.driverId) ++ [info] }
    if s.monitor = .absent then { s with monitor := .waiting, shutdown := false } else s

/-- `get_pts_path`. -/
def St.getPtsPath (s : St) (driverId : String) : Option Pts :=
  (s.drivers.find? (·.driverId = driverId)).bind fun info =>
    (s.ptsMap.find? (·.1 = info.target)).map (·.2)

def step (s : St) : Act → Option St
  | .registerDriver info => some (s.registerDriver info)
  | .unregisterDriver driverId => some { s with drivers := s.drivers.filter (·.driverId ≠ driverId) }
  | .findDevice =>
    if s.monitor = .waiting ∧ s.shutdown = false then some { s with monitor := .found s.config.device } else none
  | .testShutdown =>
    match s.monitor with
    | .found device => some { s with monitor := if s.shutdown then .waiting else .checked device }
    | _ => none
  | .readPath =>
    match s.monitor with
    | .checked device => some { s with monitor := .named device s.config.demuxerPath }
    | _ => none
  | .popen ok =>
    match s.monitor with
    | .named device path =>
      if ok then some { s with monitor := .spawned ⟨path, device, s.config.chip⟩, live := true }
      else some { s with monitor := .waiting }
    | _ => none
  | .store =>
    match s.monitor with
    | .spawned cmd => some { s with monitor := .reading cmd, process := true }
    | _ => none
  | .line target path =>
    match s.monitor with
    | .reading cmd =>
      if s.shutdown then some { s with monitor := .closing, ptsMap := [] }
      else some { s with ptsMap := s.ptsMap.filter (·.1 ≠ target) ++ [(target, ⟨path, cmd⟩)] }
    | _ => none
  | .endOfOutput =>
    match s.monitor with
    | .reading _ => some { s with monitor := .closing, ptsMap := [] }
    | _ => none
  | .cleanupProcess =>
    if s.monitor = .closing then
      some { s with monitor := .waiting, ptsMap := [], process := false, live := s.live && !s.process }
    else none
  | .leave => if s.monitor = .waiting ∧ s.shutdown then some { s with monitor := .absent } else none
  | .exit => some { s with live := false }
  | .setShutdown => if s.cleanup = .idle then some { s with shutdown := true, cleanup := .shutdown } else none
  | .take => if s.cleanup = .shutdown then some { s with cleanup := .took s.process } else none
  | .kill dies =>
    match s.cleanup with
    | .took found =>
      if found then some { s with process := false, live := s.live && !dies, cleanup := .joining }
      else some { s with cleanup := .joining }
    | _ => none
  | .join timeout =>
    if s.cleanup = .joining ∧ (timeout ∨ s.monitor = .absent) then
      some { s with drivers := [], ptsMap := [], cleanup := .done }
    else none

def sys : Sys St Act := ⟨(· = {}), step⟩

/-! ## Paths -/

def Monitor.Agrees (config : Config) : Monitor → Prop
  | .found device | .checked device => device = config.device
  | .named device path => device = config.device ∧ path = config.demuxerPath
  | .spawned cmd | .reading cmd => cmd = config
  | _ => True

/-- A first driver with another configuration comes while the monitor waits; `_cleanup` is not called. -/
def settled (s : St) : Act → Bool
  | .registerDriver info =>
    s.drivers ≠ [] ∨ info.config = s.config ∨ s.monitor = .absent ∨ s.monitor = .waiting
  | .setShutdown => false
  | _ => true

structure Own (s : St) : Prop where
  drivers : ∀ info ∈ s.drivers, info.config = s.config
  monitor : s.monitor.Agrees s.config
  ptsMap : ∀ e ∈ s.ptsMap, e.2.cmd = s.config ∧ ∃ cmd, s.monitor = .reading cmd
  cleanup : s.cleanup = .idle

variable {s s' : St}

theorem Own.registerDriver (h : Own s) {info : DriverInfo} (hok : settled s (.registerDriver info) = true) :
    Own (s.registerDriver info) := by
  obtain ⟨hd, hm, hp, hc⟩ := h
  simp only [settled, decide_eq_true_eq] at hok
  unfold St.registerDriver
  cases hmon : s.monitor <;> simp only [hmon, Monitor.Agrees] at hok hm hp <;>
    refine ⟨?_, ?_, ?_, ?_⟩ <;> grind [Monitor.Agrees]

theorem inductive_own : sys.InductiveIf (fun s a => settled s a = true) Own where
  init s hs := by
    rw [hs]
    exact ⟨nofun, trivial, nofun, rfl⟩
  step s a s' hi hok hst := by
    cases a with
    | registerDriver info =>
      cases hst
      exact hi.registerDriver hok
    | _ =>
      obtain ⟨hd, hm, hp, hc⟩ := hi
      simp only [sys, step, settled] at hst hok
      refine ⟨?_, ?_, ?_, ?_⟩ <;> grind [Monitor.Agrees]

/-- **A path belongs to the configuration of the driver that gets it.** -/
theorem own_of_settled {s : St} (hs : sys.ReachIf (fun s a => settled s a = true) s) {info : DriverInfo}
    (hinfo : info ∈ s.drivers) {pts : Pts} (hpts : s.getPtsPath info.driverId = some pts) :
    pts.cmd = info.config := by
  obtain ⟨hd, -, hp, -⟩ := inductive_own.reach hs
  obtain ⟨info', hinfo', hpts⟩ := Option.bind_eq_some_iff.mp hpts
  obtain ⟨e, he, rfl⟩ := Option.map_eq_some_iff.mp hpts
  rw [(hp e (List.mem_of_find?_eq_some he)).1, hd info hinfo]

def demo (device driverId target : String) : DriverInfo := ⟨driverId, target, ⟨"nv_tcu_demuxer", device, "T264"⟩⟩

def pathRun : List Act :=
  [.registerDriver (demo "A" "1" "CCPLEX: 0"), .findDevice, .testShutdown, .readPath, .popen true, .store,
    .line "CCPLEX: 0" "/dev/pts/4"]

theorem own_of_settled_pts : ∃ s : St, sys.ReachIf (fun s a => settled s a = true) s ∧
    ∃ pts, s.getPtsPath "1" = some pts ∧ pts.cmd = (demo "A" "1" "CCPLEX: 0").config := by
  have hrun : ((sys.execIf settled {} pathRun).any fun s =>
      s.drivers = [demo "A" "1" "CCPLEX: 0"] ∧ (s.getPtsPath "1").isSome) = true := by decide +kernel
  obtain ⟨s, hs, hp⟩ := Sys.ReachIf.execIf_any (.init rfl) _ hrun
  obtain ⟨hdrivers, hsome⟩ := of_decide_eq_true hp
  obtain ⟨pts, hpts⟩ := Option.isSome_iff_exists.mp hsome
  exact ⟨s, hs, pts, hpts, own_of_settled hs (hdrivers ▸ List.mem_singleton_self _) hpts⟩

theorem not_own : ∃ s : St, sys.Reach s ∧ demo "B" "2" "CCPLEX: 0" ∈ s.drivers ∧
    ∃ pts, s.getPtsPath "2" = some pts ∧ pts.cmd ≠ (demo "B" "2" "CCPLEX: 0").config :=
  ⟨_, Sys.Reach.exec (.init rfl)
    (pathRun ++ [.unregisterDriver "1", .registerDriver (demo "B" "2" "CCPLEX: 0")]) rfl,
    by decide +kernel, _, rfl, by decide +kernel⟩

/-! ## Cleanup -/

/-- The monitor has tested `_shutdown`, and `_process` is not assigned yet. -/
def Monitor.starting : Monitor → Bool
  | .checked _ | .named .. | .spawned _ => true
  | _ => false

/-- `_cleanup` does not read `_process` while the monitor starts one, what it kills dies, and no driver
registers after it was called. -/
def seen (s : St) : Act → Bool
  | .take => !s.monitor.starting
  | .kill dies => dies
  | .registerDriver _ => s.cleanup = .idle
  | _ => true

structure Tracked (s : St) : Prop where
  shutdown : s.cleanup ≠ .idle → s.shutdown = true
  process : s.process = true → s.monitor = .closing ∨ ∃ cmd, s.monitor = .reading cmd
  live : s.live = true → (∃ cmd, s.monitor = .spawned cmd) ∨ s.process = true
  taken : s.cleanup ≠ .idle → s.cleanup ≠ .shutdown → s.monitor.starting = false
  dead : s.cleanup = .took false ∨ s.cleanup = .joining ∨ s.cleanup = .done → s.live = false

theorem Tracked.registerDriver (h : Tracked s) (hc : s.cleanup = .idle) (info : DriverInfo) :
    Tracked (s.registerDriver info) := by
  obtain ⟨h1, h2, h3, h4, h5⟩ := h
  unfold St.registerDriver
  refine ⟨?_, ?_, ?_, ?_, ?_⟩ <;> grind [Monitor.starting]

theorem inductive_tracked : sys.InductiveIf (fun s a => seen s a = true) Tracked where
  init s hs := by
    rw [hs]
    exact ⟨nofun, nofun, nofun, fun _ _ => rfl, fun _ => rfl⟩
  step s a s' hi hok hst := by
    cases a with
    | registerDriver info =>
      cases hst
      exact hi.registerDriver (of_decide_eq_true hok) info
    | _ =>
      obtain ⟨h1, h2, h3, h4, h5⟩ := hi
      simp only [sys, step, seen] at hst hok
      repeat' split at hst
      all_goals cases hst
      all_goals constructor <;> simp_all [Monitor.starting]
      all_goals grind

/-- **No demuxer survives `_cleanup`**: when it has returned none is running, and none is in any later state. -/
theorem dead_of_seen {s : St} (hs : sys.ReachIf (fun s a => seen s a = true) s) (hd : s.cleanup = .done) :
    s.live = false :=
  (inductive_tracked.reach hs).dead (.inr (.inr hd))

theorem dead_of_seen_kill : ∃ s : St, s.cleanup = .done ∧ s.live = false := by
  have hrun : ((sys.execIf seen {} (pathRun ++ [.setShutdown, .take, .kill true, .join true])).any
      fun s => s.cleanup = .done) = true := by decide +kernel
  obtain ⟨s, hs, hp⟩ := Sys.ReachIf.execIf_any (.init rfl) _ hrun
  exact ⟨s, of_decide_eq_true hp, dead_of_seen hs (of_decide_eq_true hp)⟩

theorem not_dead : ∃ s : St, sys.Reach s ∧ s.cleanup = .done ∧ s.live = true :=
  ⟨_, Sys.Reach.exec (.init rfl) (pathRun.take 3 ++ [.setShutdown, .take, .kill true, .readPath, .popen true,
    .store, .join true]) rfl, by decide +kernel⟩

end Jumpstarter.Nvdemux
