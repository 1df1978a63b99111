import Jumpstarter.DutNetwork.Aliases

/-!
# The forwarding flags when the setup of a DUT network fails

`_setup_network` turns on IPv4 forwarding for the interface of the DUT and for the upstream interface, and
`cleanup` turns off what it finds recorded as `"0"`. That is also the default of the two records, which are
made after half of the setup. What raises is an input here.

`restored_iff`: the flags are restored exactly if every flag that was on has been read when the setup fails
(`Recorded`), or belongs to an upstream interface that was not known yet.
-/

namespace Jumpstarter.DutNetwork.Forwarding

/-- `net.ipv4.conf.<iface>.forwarding`; `true` is the text `"1"`. -/
abbrev Flags := String → Bool

/-- The calls of `_setup_network`. -/
inductive Step where
  | detectUpstream
  /-- The prefix length, the state directory, NetworkManager and the addresses of the interface. -/
  | prepare
  | getInterface
  | getUpstream
  | setInterface
  | setUpstream
  | later
  deriving DecidableEq

/-- The fields of the driver, and what the calls of the setup do. -/
structure Setup where
  interface : String
  upstreamInterface : Option String := none
  /-- `_nat_disabled`. -/
  natDisabled : Bool := false
  raises : Step → Bool := fun _ => false
  /-- `detect_upstream_interface`. -/
  detected : Option String := none
  /-- The command of `get_interface_forwarding` fails, which raises nothing. -/
  sysctlFails : Step → Bool := fun _ => false

/-- The flags, and the fields of the driver that `cleanup` reads. -/
structure St where
  flags : Flags
  upstream : Option String := none
  prevFwdIface : Bool := false
  prevFwdUpstream : Bool := false

namespace Setup

/-- `get_interface_forwarding`: `stdout.strip() or "0"`. -/
def getInterfaceForwarding (o : Setup) (k : Step) (flag : Bool) : Bool := !o.sysctlFails k && flag

/-- `self.upstream_interface or detect_upstream_interface()`; `none` if it is falsy, or not known since
`detect_upstream_interface` raised. -/
def upstream (o : Setup) : Option String :=
  (truthy o.upstreamInterface).or (if o.raises .detectUpstream then none else truthy o.detected)

/-- `_setup_network`, and whether it returned. -/
def setupNetwork (o : Setup) (flags : Flags) : St × Bool :=
  if o.natDisabled then
    ({ flags, upstream := truthy o.upstreamInterface }, !o.raises .prepare && !o.raises .later)
  else
    match o.upstream with
    | none => ({ flags }, false)
    | some up =>
      let s : St := { flags, upstream := some up }
      if o.raises .prepare || o.raises .getInterface then (s, false)
      else
        let s := { s with prevFwdIface := o.getInterfaceForwarding .getInterface (flags o.interface) }
        if o.raises .getUpstream then (s, false)
        else
          let s := { s with prevFwdUpstream := o.getInterfaceForwarding .getUpstream (flags up) }
          if o.raises .setInterface then (s, false)
          else
            let s := { s with flags := Function.update s.flags o.interface true }
            if o.raises .setUpstream then (s, false)
            else ({ s with flags := Function.update s.flags up true }, !o.raises .later)

/-- The flags after a `cleanup` that completes. -/
def cleanup (o : Setup) (s : St) : Flags :=
  if o.natDisabled then s.flags
  else
    let flags := if s.prevFwdIface then s.flags else Function.update s.flags o.interface false
    match s.prevFwdUpstream, s.upstream with
    | false, some up => Function.update flags up false
    | _, _ => flags

/-- Each flag that was on has been read when the setup fails, or its interface is not known yet. -/
structure Recorded (o : Setup) (flags : Flags) : Prop where
  interface : flags o.interface = true → o.upstream ≠ none ∧ o.raises .prepare = false ∧
    o.raises .getInterface = false ∧ o.sysctlFails .getInterface = false
  upstream : ∀ up, o.upstream = some up → flags up = true → o.raises .prepare = false ∧
    o.raises .getInterface = false ∧ o.raises .getUpstream = false ∧ o.sysctlFails .getUpstream = false

variable {o : Setup} {flags : Flags}

theorem cleanup_apply (hnat : o.natDisabled = false) (s : St) (i : String) :
    o.cleanup s i = (s.flags i && (s.prevFwdIface || i ≠ o.interface) &&
      (s.prevFwdUpstream || s.upstream ≠ some i)) := by
  obtain ⟨flags, upstream, iface, up⟩ := s
  cases iface <;> cases up <;> cases upstream <;> simp [cleanup, hnat, Function.update_apply] <;> grind

theorem cleanup_eq_iff (hnat : o.natDisabled = false) {s : St}
    (hi : s.prevFwdIface = true → flags o.interface = true)
    (hu : ∀ up, s.upstream = some up → s.prevFwdUpstream = true → flags up = true)
    (hf : ∀ i, s.flags i = flags i ∨ s.flags i = true ∧ (i = o.interface ∨ s.upstream = some i)) :
    o.cleanup s = flags ↔ (s.prevFwdIface = false → flags o.interface = false) ∧
      ∀ up, s.upstream = some up → s.prevFwdUpstream = false → flags up = false := by
  simp only [funext_iff, cleanup_apply hnat]
  constructor
  · intro h
    refine ⟨fun hp => ?_, fun up hup hp => ?_⟩
    · simpa [hp] using (h o.interface).symm
    · simpa [hp, hup] using (h up).symm
  · rintro ⟨hi', hu'⟩ i
    have hi := hf i
    by_cases h : i = o.interface <;> by_cases h' : s.upstream = some i <;>
      cases hp : s.prevFwdIface <;> cases hq : s.prevFwdUpstream <;> simp_all

/-- **When the cleanup restores the flags**, whichever call of the setup raised. -/
theorem restored_iff (o : Setup) (flags : Flags) :
    o.cleanup (o.setupNetwork flags).1 = flags ↔ (o.natDisabled = false → o.Recorded flags) := by
  cases hnat : o.natDisabled with
  | true => simp [cleanup, setupNetwork, hnat]
  | false =>
    have hrec : ∀ k flag, o.getInterfaceForwarding k flag = true → flag = true := by
      simp [getInterfaceForwarding]
    rw [forall_prop_of_true rfl, cleanup_eq_iff hnat]
    · unfold setupNetwork
      constructor
      · intro h
        constructor <;> grind [getInterfaceForwarding]
      · rintro ⟨hi, hu⟩
        grind [getInterfaceForwarding]
    · unfold setupNetwork
      grind
    · unfold setupNetwork
      grind
    · unfold setupNetwork
      repeat' split
      all_goals simp
      all_goals grind

theorem not_restored : ∃ (o : Setup) (flags : Flags), (o.setupNetwork flags).2 = false ∧
    flags "eth0" = true ∧ o.cleanup (o.setupNetwork flags).1 "eth0" = false :=
  ⟨{ interface := "eth1", upstreamInterface := some "eth0", raises := (· = .prepare) }, (· = "eth0"),
    by decide, by decide, by decide⟩

end Setup
end Jumpstarter.DutNetwork.Forwarding
