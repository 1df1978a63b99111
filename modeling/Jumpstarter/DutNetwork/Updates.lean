import Jumpstarter.DutNetwork.Aliases

/-!
# Rejected updates of the addresses and DNS entries

`add_address`, `remove_address`, `add_dns_entry` and `remove_dns_entry` change the lists of the driver first.
Then the writer of the dnsmasq configuration checks every entry of both lists, and in `1to1` mode so do the
rules of NAT. An entry that they reject stays in its list, and with it every later call is rejected.

`leavesNoTrace_iff`: the calls leave no trace of what was rejected exactly if none of them gets as far as the
lists with an invalid entry.
-/

namespace Jumpstarter.DutNetwork.Updates

structure Library where
  /-- `ipaddress.ip_address` accepts the text. -/
  isIp : String → Bool
  /-- `nat_mode` is `1to1`. -/
  oneToOne : Bool := false
  /-- `apply_1to1_rules` and `add_ip_alias` accept the private and the public address. -/
  natAccepts : String → String → Bool := fun _ _ => true

/-- The characters that a pattern has to match: `$` also matches before a newline at the end. -/
def matched (s : String) : List Char :=
  if s.toList.getLast? = some '\n' then s.toList.dropLast else s.toList

/-- `_HOSTNAME_RE`. -/
def hostnameMatches (s : String) : Bool :=
  1 ≤ (matched s).length ∧ (matched s).length ≤ 253 ∧
    (matched s).all fun c => c.isAlphanum || ['.', '_', '-'].contains c

/-- `_MAC_RE`. -/
def macMatches (s : String) : Bool :=
  (matched s).length = 17 ∧ (matched s).zipIdx.all fun (c, i) =>
    if i % 3 = 2 then c = ':' else c.isDigit || ('a' ≤ c.toLower && c.toLower ≤ 'f')

structure DnsEntry where
  hostname : String
  ip : String
  deriving DecidableEq

structure St where
  addresses : List Entry := []
  dnsEntries : List DnsEntry := []
  deriving DecidableEq

/-- `write_dns_hosts` raises nothing for the entry. -/
def DnsEntry.accepted (lib : Library) (e : DnsEntry) : Bool := lib.isIp e.ip && hostnameMatches e.hostname

/-- `write_dhcp_hosts`, to which only entries with a `mac` are given, and `_sync_1to1_nat` raise nothing for
the entry. -/
def entryAccepted (lib : Library) (e : Entry) : Bool :=
  (match truthy e.mac with
    | none => true
    | some mac => macMatches mac && lib.isIp e.ip && (truthy e.hostname).all hostnameMatches) &&
  (!lib.oneToOne || (truthy e.publicIp).all (lib.natAccepts e.ip))

/-- `_reload_dnsmasq_config` and `_sync_1to1_nat` raise nothing. -/
@[simp] def St.accepted (lib : Library) (s : St) : Bool :=
  s.dnsEntries.all (·.accepted lib) && s.addresses.all (entryAccepted lib)

/-- The calls; `answer` is that of the DNS for the public address. -/
inductive Call where
  | addAddress (ip : String) (mac : Option String) (hostname : String) (publicIp answer : Option String)
  | removeAddress (ip : String)
  | addDnsEntry (hostname ip : String)
  | removeDnsEntry (hostname : String)

/-- `_resolve_ip`; `none` if it raises. -/
def resolveIp (lib : Library) (answer : Option String) (value : String) : Option String :=
  if lib.isIp value then some value else answer

/-- The `new_entry` of `add_address`; `none` if the public address is not resolved. -/
def newEntry (lib : Library) (ip : String) (mac : Option String) (hostname : String)
    (publicIp answer : Option String) : Option Entry :=
  let entry : Entry := { ip, mac := truthy mac, hostname := truthy (some hostname) }
  match truthy publicIp with
  | none => some entry
  | some v => (resolveIp lib answer v).map fun p => { entry with publicIp := some p }

/-- The lists that a call makes; `none` if it raises before it changes them. -/
@[simp] def Call.lists (lib : Library) (s : St) : Call → Option St
  | .addAddress ip mac hostname publicIp answer =>
    (newEntry lib ip mac hostname publicIp answer).map fun entry =>
      { s with addresses := s.addresses.filter (·.ip ≠ ip) ++ [entry] }
  | .removeAddress ip => some { s with addresses := s.addresses.filter (·.ip ≠ ip) }
  | .addDnsEntry hostname ip =>
    some { s with dnsEntries := s.dnsEntries.filter (·.hostname ≠ hostname) ++ [⟨hostname, ip⟩] }
  | .removeDnsEntry hostname => some { s with dnsEntries := s.dnsEntries.filter (·.hostname ≠ hostname) }

/-- The lists after the call, and whether it returned. -/
def Call.run (lib : Library) (s : St) (call : Call) : St × Bool :=
  match call.lists lib s with
  | none => (s, false)
  | some s' => (s', s'.accepted lib)

@[simp] def Call.unresolved (lib : Library) : Call → Bool
  | .addAddress ip mac hostname publicIp answer => (newEntry lib ip mac hostname publicIp answer).isNone
  | _ => false

@[simp] def Call.valid (lib : Library) : Call → Bool
  | .addAddress ip mac hostname publicIp answer =>
    (newEntry lib ip mac hostname publicIp answer).any (entryAccepted lib)
  | .addDnsEntry hostname ip => DnsEntry.accepted lib ⟨hostname, ip⟩
  | _ => true

/-- Each call with invalid arguments leaves the lists as they were, and each call with valid ones returns. -/
def LeavesNoTrace (lib : Library) : St → List Call → Prop
  | _, [] => True
  | s, call :: calls =>
    (if call.valid lib then (call.run lib s).2 = true else (call.run lib s).1 = s) ∧
      LeavesNoTrace lib (call.run lib s).1 calls

variable {lib : Library} {s : St} {call : Call}

theorem run_of_unresolved (h : call.unresolved lib = true) : call.run lib s = (s, false) := by
  cases call <;> simp_all [Call.run]

theorem run_of_valid (hs : s.accepted lib = true) (h : call.valid lib = true) :
    (call.run lib s).2 = true ∧ (call.run lib s).1.accepted lib = true := by
  cases call with
  | addAddress ip mac hostname publicIp answer =>
    cases hn : newEntry lib ip mac hostname publicIp answer with
    | none => simp [hn] at h
    | some entry => simp_all [Call.run]
  | _ => simp_all [Call.run]

theorem run_of_invalid (hs : s.accepted lib = true) (h : call.valid lib = false)
    (hu : call.unresolved lib = false) : (call.run lib s).1 ≠ s := by
  intro hsame
  rw [← hsame] at hs
  cases call with
  | addAddress ip mac hostname publicIp answer =>
    cases hn : newEntry lib ip mac hostname publicIp answer with
    | none => simp [hn] at hu
    | some entry => simp_all [Call.run]
  | addDnsEntry hostname ip => simp_all [Call.run]
  | removeAddress | removeDnsEntry => cases h

/-- **When rejected calls leave no trace**: all entries that the driver starts with are accepted, since its
constructor writes them too. -/
theorem leavesNoTrace_iff (calls : List Call) (hs : s.accepted lib = true) :
    LeavesNoTrace lib s calls ↔ ∀ call ∈ calls, call.valid lib = true ∨ call.unresolved lib = true := by
  induction calls generalizing s with
  | nil => simp [LeavesNoTrace]
  | cons call calls ih =>
    rw [List.forall_mem_cons, LeavesNoTrace]
    cases hv : call.valid lib with
    | true =>
      obtain ⟨hrun, hok⟩ := run_of_valid hs hv
      simp [hrun, ih hok]
    | false =>
      cases hu : call.unresolved lib with
      | true =>
        rw [run_of_unresolved hu]
        simp [ih hs]
      | false => simp [run_of_invalid hs hv hu]

theorem leavesNoTrace_iff_sample :
    LeavesNoTrace ⟨fun s => s = "10.0.0.1", false, fun _ _ => true⟩ {}
      [.addDnsEntry "a" "10.0.0.1", .addAddress "10.0.0.1" none "" (some "b") none, .removeDnsEntry "a"] :=
  (leavesNoTrace_iff _ (by decide)).mpr (by decide +kernel)

theorem not_leavesNoTrace : ∃ (lib : Library) (bad good : Call) (s : St), s.accepted lib = true ∧
    bad.valid lib = false ∧ (bad.run lib s).1 ≠ s ∧
      good.valid lib = true ∧ (good.run lib (bad.run lib s).1).2 = false :=
  ⟨⟨fun s => s = "10.0.0.1", false, fun _ _ => true⟩, .addDnsEntry "a" "x", .addDnsEntry "b" "10.0.0.1", {},
    by decide +kernel⟩

end Jumpstarter.DutNetwork.Updates
