import Jumpstarter.Lib.Journal

/-!
# The addresses that a DUT network in 1to1 mode puts on the upstream interface

The life of a `DutNetwork` with `nat_mode: 1to1`: its constructor (`_setup_network`, and `cleanup` if
that raises), `add_address`, `remove_address` and `cleanup`, with the functions of `iproute` that change
addresses. Every command may fail, and changes nothing then; what fails is an input, and so are the answers of
the DNS and the order in which Python goes through a set.

`_added_aliases` is the journal of the additions. It is not always a right one: `add_ip_alias` skips an
address that is there already, which is then recorded all the same; `_sync_1to1_nat` forgets an alias whose
removal failed, and records the new ones only after all of them were added.

* `setupAliases_journal`, `sync_journal`: the journal is right after the constructor and after a call, if
  nothing of this happens.
* `lifetime_restores`: then the addresses of every other interface are those from before the constructor.
-/

namespace Jumpstarter.DutNetwork

open Lib List Function

/-! ## `iproute` -/

/-- The command `ip` and the addresses it reads and prints, and the texts that Python accepts as
addresses. -/
structure Iproute (Address : Type) where
  /-- What `ip addr add` and `ip addr del` read; `none` if they refuse the text. -/
  read : String → Option Address
  /-- What `ip -o -4 addr show` prints for an address; `none` for an IPv6 address. -/
  print : Address → Option String
  read_print : ∀ {a text}, print a = some text → read text = some a
  /-- `ipaddress.ip_address` accepts the text. -/
  isIp : String → Bool

abbrev World (Address : Type) := String → Finset Address

variable {Address : Type} [DecidableEq Address]

/-- `f"{ip}/{prefix_len}"`. -/
def aliasText (ip : String) (prefixLen : Nat) : String := ip ++ "/" ++ toString prefixLen

def Iproute.alias (k : Iproute Address) (prefixLen : Nat) (ip : String) : Option Address :=
  k.read (aliasText ip prefixLen)

/-- `addr in get_interface_addresses(interface)`; a command that fails gives an empty list. -/
def listed (k : Iproute Address) (fails : Bool) (addrs : Finset Address) (addr : String) : Bool :=
  !fails && decide (∃ a ∈ addrs, k.print a = some addr)

/-- The commands of one `add_ip_alias`. -/
structure AddOutcome where
  listFails : Bool := false
  addFails : Bool := false

/-- `add_ip_alias`; `none` if it raises. The kernel does not add an address twice. -/
def addIpAlias (k : Iproute Address) (prefixLen : Nat) (o : AddOutcome) (addrs : Finset Address)
    (ip : String) : Option (Finset Address) :=
  if listed k o.listFails addrs (aliasText ip prefixLen) then some addrs
  else
    match k.alias prefixLen ip with
    | none => none
    | some a => if o.addFails ∨ a ∈ addrs then none else some (insert a addrs)

/-- `remove_ip_alias`, which raises nothing. -/
def removeIpAlias (k : Iproute Address) (prefixLen : Nat) (fails : Bool) (addrs : Finset Address)
    (ip : String) : Finset Address :=
  match k.alias prefixLen ip with
  | none => addrs
  | some a => if fails then addrs else addrs.erase a

def removeAliases (k : Iproute Address) (prefixLen : Nat) :
    List String → List Bool → Finset Address → Finset Address
  | [], _, addrs => addrs
  | ip :: ips, fails, addrs =>
    removeAliases k prefixLen ips fails.tail (removeIpAlias k prefixLen (fails.headD false) addrs ip)

def addAliases (k : Iproute Address) (prefixLen : Nat) :
    List String → List AddOutcome → Finset Address → Finset Address × Bool
  | [], _, addrs => (addrs, true)
  | ip :: ips, os, addrs =>
    match addIpAlias k prefixLen (os.headD {}) addrs ip with
    | none => (addrs, false)
    | some addrs => addAliases k prefixLen ips os.tail addrs

/-! ## The driver -/

/-- An entry of `addresses`. -/
structure Entry where
  ip : String
  mac : Option String := none
  hostname : Option String := none
  publicIp : Option String := none
  deriving DecidableEq

/-- The fields of the driver that the addresses of interfaces depend on. -/
structure Net where
  interface : String
  gatewayIp : String := "192.168.100.1"
  /-- `_prefix_len`, of the subnet. -/
  prefixLen : Nat := 24
  upstreamInterface : Option String := none
  publicInterface : Option String := none
  addresses : List Entry
  upstream : Option String := none
  upstreamPrefixLen : Nat := 24
  /-- `_added_aliases`, without duplicates. -/
  addedAliases : List String := []
  deriving DecidableEq

/-- `x` if it is neither `None` nor empty. -/
def truthy (x : Option String) : Option String := x.filter (· ≠ "")

/-- `upstream_for_alias`, or `none` if it is falsy. -/
def Net.upstreamForAlias (net : Net) : Option String := (truthy net.publicInterface).or (truthy net.upstream)

/-- `_resolve_ip`, given the answer of the DNS; `none` if it raises. -/
def resolveIp (k : Iproute Address) (answer : Option String) (value : String) : Option String :=
  if k.isIp value then some value else answer

/-- The public addresses of `_get_1to1_mappings`, given the answers of the DNS by the position of the
entry; `none` if it raises. -/
def Net.publicIps (net : Net) (k : Iproute Address) (dns : Nat → Option String) : Option (List String) :=
  (net.addresses.zipIdx.filterMap fun (e, i) => (truthy e.publicIp).map fun v => (v, i)).mapM
    fun (v, i) => resolveIp k (dns i) v

/-- What a method leaves, and whether it returned. -/
structure Result (Address : Type) where
  world : World Address
  net : Net
  ok : Bool

/-- Python goes through a set in some order. -/
structure SetOrder where
  order : List String → List String := id
  perm : ∀ l, (order l).Perm l := by exact fun l => .refl l

/-- The commands of `cleanup`. -/
structure CleanupOutcome where
  /-- NTP, tcpdump, dnsmasq, its state directory and the rules of nftables: one of them raises. -/
  stopFails : Bool := false
  order : SetOrder := {}
  dels : List Bool := []
  restoreFails : Bool := false
  flushFails : Bool := false

structure CleanupOutcome.Succeeds (o : CleanupOutcome) : Prop where
  stop : o.stopFails = false
  dels : ∀ fails ∈ o.dels, fails = false
  restore : o.restoreFails = false
  flush : o.flushFails = false

/-- The removal of the aliases in `cleanup`. -/
def removeAdded (k : Iproute Address) (o : CleanupOutcome) (w : World Address) (net : Net) :
    World Address × Net :=
  match net.upstreamForAlias with
  | none => (w, net)
  | some i =>
    (Function.update w i (removeAliases k net.upstreamPrefixLen (o.order.order net.addedAliases) o.dels (w i)),
      { net with addedAliases := [] })

def cleanup (k : Iproute Address) (o : CleanupOutcome) (w : World Address) (net : Net) :
    Result Address :=
  if o.stopFails then ⟨w, net, false⟩
  else
    let (w, net) := removeAdded k o w net
    if o.restoreFails then ⟨w, net, false⟩
    -- `deconfigure_interface`
    else ⟨if o.flushFails then w else Function.update w net.interface ∅, net, true⟩

structure SetupOutcome where
  /-- A requirement is missing, or another check of `_validate_config` raises. -/
  checkFails : Bool := false
  /-- `detect_upstream_interface`. -/
  detected : Option String := none
  /-- `get_interface_prefix_len`. -/
  prefixLen : Option Nat := none
  stateDirFails : Bool := false
  flushFails : Bool := false
  addFails : Bool := false
  upFails : Bool := false
  servicesFail : Bool := false
  dns : Nat → Option String := fun _ => none
  adds : List AddOutcome := []
  /-- `apply_1to1_rules`, or one of the commands for NTP, raises. -/
  rulesFail : Bool := false
  /-- `cleanup` after an exception. -/
  cleanup : CleanupOutcome := {}

/-- `configure_interface`, and whether it returned. -/
def configureInterface (k : Iproute Address) (o : SetupOutcome) (w : World Address) (net : Net) :
    World Address × Bool :=
  if o.flushFails then (w, false)
  else
    match o.addFails, k.alias net.prefixLen net.gatewayIp with
    | false, some a => (Function.update w net.interface {a}, !o.upFails)
    | _, _ => (Function.update w net.interface ∅, false)

/-- The loop of `_setup_network`: each alias is recorded when it was added. -/
def setupAliases (k : Iproute Address) (i : String) :
    List String → List AddOutcome → World Address → Net → Result Address
  | [], _, w, net => ⟨w, net, true⟩
  | ip :: ips, os, w, net =>
    match addIpAlias k net.upstreamPrefixLen (os.headD {}) (w i) ip with
    | none => ⟨w, net, false⟩
    | some addrs =>
      setupAliases k i ips os.tail (Function.update w i addrs)
        { net with addedAliases := if ip ∈ net.addedAliases then net.addedAliases else net.addedAliases ++ [ip] }

/-- The start of `_setup_network`: `_upstream`, and `_upstream_prefix_len` if that is known. -/
def Net.detect (net : Net) (o : SetupOutcome) : Net :=
  match (truthy net.upstreamInterface).or (truthy o.detected) with
  | none => { net with upstream := none }
  | some up =>
    { net with upstream := some up, upstreamPrefixLen := o.prefixLen.getD net.upstreamPrefixLen }

/-- The rest of `_setup_network`. -/
def setupDetected (k : Iproute Address) (o : SetupOutcome) (w : World Address) (net : Net) :
    Result Address :=
  match net.upstream with
  | none => ⟨w, net, false⟩
  | some up =>
    if o.stateDirFails then ⟨w, net, false⟩
    else
      let (w, ok) := configureInterface k o w net
      if !ok || o.servicesFail then ⟨w, net, false⟩
      else
        match net.publicIps k o.dns with
        | none => ⟨w, net, false⟩
        | some ips =>
          let r := setupAliases k ((truthy net.publicInterface).getD up) ips o.adds w net
          { r with ok := r.ok && !o.rulesFail }

def setupNetwork (k : Iproute Address) (o : SetupOutcome) (w : World Address) (net : Net) :
    Result Address :=
  setupDetected k o w (net.detect o)

/-- The fields with `init=False` have their defaults. -/
def Net.initial (net : Net) : Net :=
  { net with upstream := none, upstreamPrefixLen := 24, addedAliases := [] }

/-- `__post_init__`: the driver, or no driver if it raises. -/
def construct (k : Iproute Address) (o : SetupOutcome) (w : World Address) (net : Net) :
    World Address × Option Net :=
  if o.checkFails || !net.addresses.any (fun e => (truthy e.publicIp).isSome) then (w, none)
  else
    let r := setupNetwork k o w net.initial
    if r.ok then (r.world, some r.net) else ((cleanup k o.cleanup r.world r.net).world, none)

/-- The commands of `add_address` and `remove_address`. -/
structure CallOutcome where
  answer : Option String := none
  /-- `_reload_dnsmasq_config` raises. -/
  reloadFails : Bool := false
  dns : Nat → Option String := fun _ => none
  staleOrder : SetOrder := {}
  newOrder : SetOrder := {}
  dels : List Bool := []
  adds : List AddOutcome := []
  /-- `flush_rules` or `apply_1to1_rules` raises. -/
  rulesFail : Bool := false

def sync1to1Nat (k : Iproute Address) (o : CallOutcome) (w : World Address) (net : Net) :
    Result Address :=
  match net.upstreamForAlias with
  | none => ⟨w, net, true⟩
  | some i =>
    match net.publicIps k o.dns with
    | none => ⟨w, net, false⟩
    | some ips =>
      let wanted := ips.dedup
      let stale := net.addedAliases.filter (· ∉ wanted)
      let new := wanted.filter (· ∉ net.addedAliases)
      let removed := removeAliases k net.upstreamPrefixLen (o.staleOrder.order stale) o.dels (w i)
      let (addrs, ok) := addAliases k net.upstreamPrefixLen (o.newOrder.order new) o.adds removed
      if ok then ⟨Function.update w i addrs, { net with addedAliases := wanted }, !o.rulesFail⟩
      else ⟨Function.update w i addrs, net, false⟩

/-- The exported methods that change the addresses. -/
inductive Call where
  | addAddress (ip : String) (mac : Option String) (hostname : String) (publicIp : Option String)
  | removeAddress (ip : String)

/-- The entries after the call; `none` if the public address is not resolved. -/
def Call.entries (k : Iproute Address) (o : CallOutcome) (addresses : List Entry) :
    Call → Option (List Entry)
  | .addAddress ip mac hostname publicIp =>
    let others := addresses.filter (·.ip ≠ ip)
    let entry : Entry := { ip, mac := truthy mac, hostname := truthy (some hostname) }
    match truthy publicIp with
    | none => some (others ++ [entry])
    | some v => (resolveIp k o.answer v).map fun p => others ++ [{ entry with publicIp := some p }]
  | .removeAddress ip => some (addresses.filter (·.ip ≠ ip))

/-- `add_address` and `remove_address`. -/
def Call.run (k : Iproute Address) (o : CallOutcome) (w : World Address) (net : Net) (call : Call) :
    Result Address :=
  match call.entries k o net.addresses with
  | none => ⟨w, net, false⟩
  | some addresses =>
    let net := { net with addresses }
    if o.reloadFails then ⟨w, net, false⟩ else sync1to1Nat k o w net

/-- The calls, one after the other, whether they return or raise. -/
def runCalls (k : Iproute Address) : List (Call × CallOutcome) → World Address → Net → World Address × Net
  | [], w, net => (w, net)
  | (call, o) :: calls, w, net =>
    let r := call.run k o w net
    runCalls k calls r.world r.net

/-- The constructor, the calls if there is a driver, and its `cleanup`. -/
def lifetime (k : Iproute Address) (setup : SetupOutcome) (calls : List (Call × CallOutcome))
    (last : CleanupOutcome) (w : World Address) (net : Net) : World Address :=
  match construct k setup w net with
  | (w, none) => w
  | (w, some net) =>
    let (w, net) := runCalls k calls w net
    (cleanup k last w net).world

/-! ## The loops -/

variable {ips : List String}

section Loops

variable {k : Iproute Address} {len : Nat} {start addrs : Finset Address} {added : Set Address} {ip : String}

omit [DecidableEq Address] in
theorem of_listed {fails : Bool} (h : listed k fails addrs (aliasText ip len) = true) :
    ∃ a ∈ addrs, k.alias len ip = some a := by
  simp only [listed, Bool.and_eq_true, decide_eq_true_eq] at h
  obtain ⟨-, a, ha, hprint⟩ := h
  exact ⟨a, ha, k.read_print hprint⟩

variable {o : AddOutcome}

theorem addIpAlias_some {addrs' : Finset Address} (h : addIpAlias k len o addrs ip = some addrs') :
    addrs' = addrs ∨ ∃ a, k.alias len ip = some a ∧ addrs' = insert a addrs := by
  unfold addIpAlias at h
  split at h
  · exact .inl (Option.some.inj h).symm
  · split at h
    · cases h
    · rename_i a ha
      split at h
      · cases h
      · exact .inr ⟨a, ha, (Option.some.inj h).symm⟩

theorem addIpAlias_fresh {a : Address} (ha : k.alias len ip = some a) (hnot : a ∉ addrs)
    (ho : o.addFails = false) : addIpAlias k len o addrs ip = some (insert a addrs) := by
  have hlisted : ¬ listed k o.listFails addrs (aliasText ip len) = true := by
    intro h
    obtain ⟨b, hb, hread⟩ := of_listed h
    rw [ha] at hread
    cases hread
    exact hnot hb
  unfold addIpAlias
  rw [if_neg hlisted, ha]
  simp [ho, hnot]

theorem journal_addIpAlias {addrs' : Finset Address} (h : addIpAlias k len o addrs ip = some addrs')
    (hj : Journal start addrs added) (hip : ∀ a, k.alias len ip = some a → a ∈ added) :
    Journal start addrs' added := by
  rcases addIpAlias_some h with rfl | ⟨a, ha, rfl⟩
  · exact hj
  · exact hj.add (hip a ha)

theorem journal_addAliases (os : List AddOutcome) (hj : Journal start addrs added)
    (hips : ∀ ip ∈ ips, ∀ a, k.alias len ip = some a → a ∈ added) :
    Journal start (addAliases k len ips os addrs).1 added := by
  induction ips generalizing os addrs with
  | nil => exact hj
  | cons ip ips ih =>
    obtain ⟨hip, hrest⟩ := forall_mem_cons.mp hips
    unfold addAliases
    split
    · exact hj
    · rename_i addrs' hadd
      exact ih os.tail (journal_addIpAlias hadd hj hip) hrest

theorem addAliases_ok {os : List AddOutcome} (hos : ∀ o ∈ os, o.addFails = false)
    (hnew : ∀ ip ∈ ips, ∃ a, k.alias len ip = some a ∧ a ∉ addrs)
    (hdiff : ips.Pairwise fun p q => k.alias len p ≠ k.alias len q) :
    (addAliases k len ips os addrs).2 = true := by
  induction ips generalizing os addrs with
  | nil => rfl
  | cons ip ips ih =>
    obtain ⟨⟨a, ha, hnot⟩, hrest⟩ := forall_mem_cons.mp hnew
    obtain ⟨hne, hdiff⟩ := pairwise_cons.mp hdiff
    have ho : (os.headD {}).addFails = false := by
      cases os with
      | nil => rfl
      | cons o os => exact hos o mem_cons_self
    unfold addAliases
    rw [addIpAlias_fresh ha hnot ho]
    refine ih (fun o h => hos o (mem_of_mem_tail h)) (fun p hp => ?_) hdiff
    obtain ⟨b, hb, hb'⟩ := hrest p hp
    refine ⟨b, hb, fun hmem => ?_⟩
    rcases Finset.mem_insert.mp hmem with rfl | hmem
    · exact hne p hp (ha.trans hb.symm)
    · exact hb' hmem

theorem addAliases_one {os : List AddOutcome} (hone : ips.length ≤ 1)
    (hfail : (addAliases k len ips os addrs).2 = false) : (addAliases k len ips os addrs).1 = addrs := by
  cases ips with
  | nil => rfl
  | cons ip ips =>
    have hnil : ips = [] := by simpa using hone
    subst hnil
    unfold addAliases at hfail ⊢
    split
    · rfl
    · rename_i addrs' hadd
      rw [hadd] at hfail
      cases hfail

theorem removeIpAlias_false (addrs : Finset Address) (ip : String) (a : Address) :
    a ∈ removeIpAlias k len false addrs ip ↔ a ∈ addrs ∧ k.alias len ip ≠ some a := by
  unfold removeIpAlias
  cases h : k.alias len ip with
  | none => simp
  | some b =>
    simp only [Bool.false_eq_true, if_false, Finset.mem_erase, ne_eq, Option.some.injEq]
    constructor
    · exact fun ⟨hne, ha⟩ => ⟨ha, fun he => hne he.symm⟩
    · exact fun ⟨ha, hne⟩ => ⟨fun he => hne he.symm, ha⟩

theorem mem_removeAliases {fails : List Bool} (hfails : ∀ f ∈ fails, f = false) (a : Address) :
    a ∈ removeAliases k len ips fails addrs ↔ a ∈ addrs ∧ ∀ ip ∈ ips, k.alias len ip ≠ some a := by
  induction ips generalizing fails addrs with
  | nil => simp [removeAliases]
  | cons ip ips ih =>
    have hhead : fails.headD false = false := by
      cases fails with
      | nil => rfl
      | cons f fails => exact hfails f mem_cons_self
    rw [removeAliases, ih fun f h => hfails f (mem_of_mem_tail h), hhead, removeIpAlias_false,
      forall_mem_cons, and_assoc]

theorem journal_removeAliases (fails : List Bool) (hj : Journal start addrs added)
    (hips : ∀ ip ∈ ips, ∀ a, k.alias len ip = some a → a ∈ added) :
    Journal start (removeAliases k len ips fails addrs) added := by
  induction ips generalizing fails addrs with
  | nil => exact hj
  | cons ip ips ih =>
    obtain ⟨hip, hrest⟩ := forall_mem_cons.mp hips
    refine ih fails.tail ?_ hrest
    unfold removeIpAlias
    split
    · exact hj
    · rename_i a ha
      split
      · exact hj
      · exact hj.remove (hip a ha)

end Loops

/-! ## The journal of the driver -/

/-- The addresses of the recorded aliases. -/
def recorded (k : Iproute Address) (net : Net) : Set Address :=
  {a | ∃ ip ∈ net.addedAliases, k.alias net.upstreamPrefixLen ip = some a}

/-- `_added_aliases` is a right journal, and the other interfaces are unchanged. The DUT's own interface
is flushed. -/
structure Right (k : Iproute Address) (own : String) (start w : World Address) (net : Net) : Prop where
  interface : net.interface = own
  journal : ∀ x, x ≠ own → net.upstreamForAlias = some x → Journal (start x) (w x) (recorded k net)
  others : ∀ x, x ≠ own → net.upstreamForAlias ≠ some x → w x = start x

section Right

variable {k : Iproute Address} {own : String} {start w : World Address} {net : Net}

omit [DecidableEq Address] in
theorem Right.update (h : Right k own start w net) {i : String} (hi : net.upstreamForAlias = some i)
    {aliases : List String} {addrs : Finset Address}
    (hj : i ≠ own → Journal (start i) addrs (recorded k { net with addedAliases := aliases })) :
    Right k own start (Function.update w i addrs) { net with addedAliases := aliases } := by
  refine ⟨h.interface, fun x hx hsome => ?_, fun x hx hne => ?_⟩
  · obtain rfl : i = x := Option.some.inj (hi.symm.trans hsome)
    rw [update_self]
    exact hj hx
  · have hxi : x ≠ i := fun he => hne (he ▸ hi)
    rw [update_of_ne hxi]
    exact h.others x hx hne

theorem cleanup_restores (h : Right k own start w net) {o : CleanupOutcome} (ho : o.Succeeds) {x : String}
    (hx : x ≠ own) : (cleanup k o w net).world x = start x := by
  have hadded : (removeAdded k o w net).1 x = start x ∧ (removeAdded k o w net).2.interface = own := by
    unfold removeAdded
    split
    · rename_i hnone
      exact ⟨h.others x hx (by simp [hnone]), h.interface⟩
    · rename_i i hi
      refine ⟨?_, h.interface⟩
      by_cases hxi : x = i
      · subst hxi
        have hmem : ∀ {ip}, ip ∈ o.order.order net.addedAliases ↔ ip ∈ net.addedAliases :=
          (o.order.perm net.addedAliases).mem_iff
        have hj : Journal (start x) (removeAliases k net.upstreamPrefixLen
            (o.order.order net.addedAliases) o.dels (w x)) (recorded k net) :=
          journal_removeAliases o.dels (h.journal x hx hi) fun ip hip a ha => ⟨ip, hmem.mp hip, ha⟩
        simp only [update_self]
        refine hj.undone fun a ⟨ip, hip, ha⟩ hin => ?_
        exact ((mem_removeAliases ho.dels a).mp hin).2 ip (hmem.mpr hip) ha
      · simp only [update_of_ne hxi]
        refine h.others x hx fun he => hxi ?_
        rw [hi] at he
        exact (Option.some.inj he).symm
  unfold cleanup
  simp only [ho.stop, ho.restore, ho.flush, Bool.false_eq_true, if_false]
  rw [update_of_ne]
  · exact hadded.1
  · rw [hadded.2]
    exact hx

theorem setupAliases_right {i : String} (os : List AddOutcome) (h : Right k own start w net)
    (hi : net.upstreamForAlias = some i)
    (hfresh : i ≠ own → ∀ ip ∈ ips, ∀ a, k.alias net.upstreamPrefixLen ip = some a → a ∉ start i) :
    Right k own start (setupAliases k i ips os w net).world (setupAliases k i ips os w net).net := by
  induction ips generalizing os w net with
  | nil => exact h
  | cons ip ips ih =>
    unfold setupAliases
    split
    · exact h
    · rename_i addrs hadd
      refine ih os.tail ?_ hi fun hown p hp => hfresh hown p (mem_cons_of_mem ip hp)
      refine h.update hi fun hown => ?_
      have hj := h.journal i hown hi
      have hrec : ∀ a, a ∈ recorded k { net with addedAliases :=
          if ip ∈ net.addedAliases then net.addedAliases else net.addedAliases ++ [ip] } ↔
          a ∈ recorded k net ∨ k.alias net.upstreamPrefixLen ip = some a := by
        intro a
        by_cases hmem : ip ∈ net.addedAliases
        · simp only [recorded, hmem, if_true, Set.mem_ofPred_eq]
          exact ⟨.inl, fun hor => hor.elim id fun ha => ⟨ip, hmem, ha⟩⟩
        · simp only [recorded, hmem, if_false, Set.mem_ofPred_eq, mem_append, mem_singleton,
            or_and_right, exists_or, exists_eq_left]
      refine journal_addIpAlias hadd (hj.rewrite (fun a ha => ?_) fun a ha _ => ?_) fun a ha => ?_
      · rcases (hrec a).mp ha with hold | hnew
        · exact hj.fresh a hold
        · exact hfresh hown ip mem_cons_self a hnew
      · exact (hrec a).mpr (.inl ha)
      · exact (hrec a).mpr (.inr ha)

/-- What `_sync_1to1_nat` must find for its journal to stay right. The aliases that it adds are not on the
interface, no removal fails, and there is only one alias to add or no addition can fail. -/
structure CarefulSync (k : Iproute Address) (o : CallOutcome) (addrs : Finset Address) (net : Net)
    (ips : List String) : Prop where
  fresh : ∀ ip ∈ ips, ip ∉ net.addedAliases → ∀ a, k.alias net.upstreamPrefixLen ip = some a → a ∉ addrs
  dels : ∀ fails ∈ o.dels, fails = false
  adds :
    (∀ p ∈ ips, ∀ q ∈ ips, p ∉ net.addedAliases → q ∉ net.addedAliases → p = q) ∨
    (∀ add ∈ o.adds, add.addFails = false) ∧
      ∀ p ∈ ips, p ∉ net.addedAliases → k.alias net.upstreamPrefixLen p ≠ none ∧
        ∀ q ∈ ips, q ∉ net.addedAliases →
          k.alias net.upstreamPrefixLen p = k.alias net.upstreamPrefixLen q → p = q

/-- What `_sync_1to1_nat` must find on the interfaces. -/
def CarefulSyncs (k : Iproute Address) (o : CallOutcome) (w : World Address) (net : Net) : Prop :=
  ∀ i, net.upstreamForAlias = some i → ∀ ips, net.publicIps k o.dns = some ips → CarefulSync k o (w i) net ips

theorem addAliases_careful {o : CallOutcome} {addrs removed : Finset Address}
    (hc : CarefulSync k o addrs net ips) (hsub : removed ⊆ addrs) :
    let new := o.newOrder.order (ips.dedup.filter (· ∉ net.addedAliases))
    (addAliases k net.upstreamPrefixLen new o.adds removed).2 = true ∨
      (addAliases k net.upstreamPrefixLen new o.adds removed).1 = removed := by
  intro new
  have hperm := o.newOrder.perm (ips.dedup.filter (· ∉ net.addedAliases))
  have hmem : ∀ p ∈ new, p ∈ ips ∧ p ∉ net.addedAliases := by
    intro p hp
    have := hperm.mem_iff.mp hp
    rw [mem_filter, mem_dedup] at this
    exact ⟨this.1, by simpa using this.2⟩
  have hnodup : new.Nodup := hperm.nodup_iff.mpr ((nodup_dedup ips).filter _)
  rcases hc.adds with hone | ⟨hos, hdiff⟩
  · cases hok : (addAliases k net.upstreamPrefixLen new o.adds removed).2 with
    | true => exact .inl rfl
    | false =>
      refine .inr (addAliases_one ?_ hok)
      match new, hmem, hnodup with
      | [], _, _ => simp
      | [p], _, _ => simp
      | p :: q :: rest, hmem, hnodup =>
        have hp := hmem p (by simp)
        have hq := hmem q (by simp)
        simp only [nodup_cons, mem_cons, not_or] at hnodup
        exact absurd (hone p hp.1 q hq.1 hp.2 hq.2) hnodup.1.1
  · refine .inl (addAliases_ok hos (fun p hp => ?_) ?_)
    · obtain ⟨hip, hnot⟩ := hmem p hp
      obtain ⟨a, ha⟩ := Option.ne_none_iff_exists'.mp (hdiff p hip hnot).1
      exact ⟨a, ha, fun hin => hc.fresh p hip hnot a ha (hsub hin)⟩
    · refine hnodup.imp_of_mem fun hp hq hne heq => hne ?_
      exact (hdiff _ (hmem _ hp).1 (hmem _ hp).2).2 _ (hmem _ hq).1 (hmem _ hq).2 heq

theorem sync_right {o : CallOutcome} (h : Right k own start w net) (hc : CarefulSyncs k o w net) :
    Right k own start (sync1to1Nat k o w net).world (sync1to1Nat k o w net).net := by
  unfold sync1to1Nat
  split
  · exact h
  rename_i i hi
  split
  · exact h
  rename_i ips hips
  have hcareful := hc i hi ips hips
  have hstale := o.staleOrder.perm (net.addedAliases.filter (· ∉ ips.dedup))
  have hmem : ∀ {p}, p ∈ o.staleOrder.order (net.addedAliases.filter (· ∉ ips.dedup)) ↔
      p ∈ net.addedAliases ∧ p ∉ ips := by
    intro p
    rw [hstale.mem_iff, mem_filter]
    simp
  simp only
  generalize hremoved : removeAliases k net.upstreamPrefixLen
    (o.staleOrder.order (net.addedAliases.filter (· ∉ ips.dedup))) o.dels (w i) = removed
  have hin : ∀ a, a ∈ removed ↔ a ∈ w i ∧ ∀ p, p ∈ net.addedAliases ∧ p ∉ ips →
      k.alias net.upstreamPrefixLen p ≠ some a := by
    intro a
    rw [← hremoved, mem_removeAliases hcareful.dels]
    simp only [hmem]
  have hjournal : i ≠ own → Journal (start i) removed (recorded k net) := by
    intro hown
    rw [← hremoved]
    exact journal_removeAliases o.dels (h.journal i hown hi) fun p hp a ha => ⟨p, (hmem.mp hp).1, ha⟩
  -- the removed aliases are gone, so the wanted ones explain what is left
  have hwanted : i ≠ own → Journal (start i) removed (recorded k { net with addedAliases := ips.dedup }) := by
    intro hown
    refine (hjournal hown).rewrite (fun a ⟨p, hp, ha⟩ => ?_) fun a ⟨p, hp, ha⟩ hleft => ?_
    · by_cases hold : p ∈ net.addedAliases
      · exact (h.journal i hown hi).fresh a ⟨p, hold, ha⟩
      · exact fun hs => hcareful.fresh p (mem_dedup.mp hp) hold a ha ((h.journal i hown hi).kept hs)
    · refine ⟨p, mem_dedup.mpr ?_, ha⟩
      by_contra hnot
      exact ((hin a).mp hleft).2 p ⟨hp, hnot⟩ ha
  have hadds := addAliases_careful hcareful fun a ha => ((hin a).mp ha).1
  split
  · refine h.update hi fun hown => ?_
    refine journal_addAliases o.adds (hwanted hown) fun p hp a ha => ⟨p, ?_, ha⟩
    exact mem_of_mem_filter ((o.newOrder.perm _).mem_iff.mp hp)
  · rename_i hok
    rw [hadds.resolve_left hok]
    exact h.update hi hjournal

/-! ## The life of a driver -/

/-- What `_setup_network` must find: the aliases that it adds are not on the interface. -/
def CarefulSetup (k : Iproute Address) (o : SetupOutcome) (w : World Address) (net : Net) : Prop :=
  ∀ i, (net.detect o).upstreamForAlias = some i → ∀ ips, (net.detect o).publicIps k o.dns = some ips →
    ∀ ip ∈ ips, ∀ a, k.alias (net.detect o).upstreamPrefixLen ip = some a → a ∉ w i

def CarefulCall (k : Iproute Address) (o : CallOutcome) (w : World Address) (net : Net) (call : Call) :
    Prop :=
  ∀ addresses, call.entries k o net.addresses = some addresses → CarefulSyncs k o w { net with addresses }

def CarefulCalls (k : Iproute Address) : List (Call × CallOutcome) → World Address → Net → Prop
  | [], _, _ => True
  | (call, o) :: calls, w, net =>
    CarefulCall k o w net call ∧ CarefulCalls k calls (call.run k o w net).world (call.run k o w net).net

theorem call_right {o : CallOutcome} {call : Call} (h : Right k own start w net)
    (hc : CarefulCall k o w net call) :
    Right k own start (call.run k o w net).world (call.run k o w net).net := by
  unfold Call.run
  split
  · exact h
  · rename_i addresses hentries
    have hnet : Right k own start w { net with addresses } := { h with }
    split
    · exact hnet
    · exact sync_right hnet (hc addresses hentries)

theorem runCalls_right {calls : List (Call × CallOutcome)} (h : Right k own start w net)
    (hc : CarefulCalls k calls w net) :
    Right k own start (runCalls k calls w net).1 (runCalls k calls w net).2 := by
  induction calls generalizing w net with
  | nil => exact h
  | cons c calls ih =>
    exact ih (call_right h hc.1) hc.2

theorem eq_of_truthy {x : Option String} {v : String} (h : truthy x = some v) : truthy (some v) = some v := by
  obtain ⟨-, hne⟩ := Option.filter_eq_some_iff.mp h
  exact Option.filter_eq_some_iff.mpr ⟨rfl, hne⟩

theorem detect_upstream {o : SetupOutcome} {up : String} (h : (net.detect o).upstream = some up) :
    (net.detect o).upstreamForAlias = some ((truthy (net.detect o).publicInterface).getD up) := by
  have hup : truthy (some up) = some up := by
    unfold Net.detect at h
    split at h
    · cases h
    · rename_i up' hor
      cases h
      rcases Option.or_eq_some_iff.mp hor with ha | ⟨-, hb⟩
      · exact eq_of_truthy ha
      · exact eq_of_truthy hb
  unfold Net.upstreamForAlias
  rw [h, hup]
  cases truthy (net.detect o).publicInterface <;> rfl

theorem detect_interface (net : Net) (o : SetupOutcome) : (net.detect o).interface = net.interface := by
  unfold Net.detect
  split <;> rfl

theorem detect_addedAliases (net : Net) (o : SetupOutcome) :
    (net.detect o).addedAliases = net.addedAliases := by
  unfold Net.detect
  split <;> rfl

omit [DecidableEq Address] in
theorem configureInterface_of_ne (k : Iproute Address) (o : SetupOutcome) (w : World Address) {net : Net}
    {x : String} (hx : x ≠ net.interface) : (configureInterface k o w net).1 x = w x := by
  unfold configureInterface
  split
  · rfl
  · split <;> exact update_of_ne hx _ _

omit [DecidableEq Address] in
theorem right_of_nil (hnil : net.addedAliases = []) (hown : net.interface = own)
    (hsame : ∀ x, x ≠ own → w x = start x) : Right k own start w net := by
  refine ⟨hown, fun x hx _ => ?_, fun x hx _ => hsame x hx⟩
  have hempty : recorded k net = ∅ := by
    simp [recorded, hnil]
  rw [hempty, hsame x hx]
  exact Journal.empty (start x)

theorem setupNetwork_right {o : SetupOutcome} (hnil : net.addedAliases = []) (hc : CarefulSetup k o w net) :
    Right k net.interface w (setupNetwork k o w net).world (setupNetwork k o w net).net := by
  have hdnil : (net.detect o).addedAliases = [] := (detect_addedAliases net o).trans hnil
  have hown := detect_interface net o
  have hsame : Right k net.interface w w (net.detect o) := right_of_nil hdnil hown fun _ _ => rfl
  have hconf : Right k net.interface w (configureInterface k o w (net.detect o)).1 (net.detect o) :=
    right_of_nil hdnil hown fun x hx => configureInterface_of_ne k o w (hown ▸ hx)
  unfold setupNetwork setupDetected
  split
  · exact hsame
  rename_i up hup
  split
  · exact hsame
  simp only
  split
  · exact hconf
  split
  · exact hconf
  rename_i ips hips
  exact setupAliases_right o.adds hconf (detect_upstream hup)
    fun _ ip hip => hc _ (detect_upstream hup) ips hips ip hip

/-- The addresses of every interface but the DUT's own are those from before the constructor, if the
constructor and every call find what they must find. -/
theorem lifetime_restores (k : Iproute Address) (setup : SetupOutcome) (calls : List (Call × CallOutcome))
    (last : CleanupOutcome) (w : World Address) (net : Net) (hsetup : CarefulSetup k setup w net.initial)
    (hcalls : ∀ w' net', construct k setup w net = (w', some net') → CarefulCalls k calls w' net')
    (hfail : setup.cleanup.Succeeds) (hlast : last.Succeeds) (x : String) (hx : x ≠ net.interface) :
    lifetime k setup calls last w net x = w x := by
  have hright : Right k net.interface w (setupNetwork k setup w net.initial).world
      (setupNetwork k setup w net.initial).net := setupNetwork_right rfl hsetup
  unfold lifetime
  cases hconstruct : construct k setup w net with
  | mk w' driver =>
    cases driver with
    | none =>
      unfold construct at hconstruct
      split at hconstruct
      · cases hconstruct
        rfl
      · simp only at hconstruct
        split at hconstruct
        · cases hconstruct
        · cases hconstruct
          exact cleanup_restores hright hfail hx
    | some net' =>
      have hcareful := hcalls w' net' hconstruct
      unfold construct at hconstruct
      split at hconstruct
      · cases hconstruct
      · simp only at hconstruct
        split at hconstruct
        · cases hconstruct
          exact cleanup_restores (runCalls_right hright hcareful) hlast hx
        · cases hconstruct

end Right

/-! ## Samples -/

def sampleIproute : Iproute String where
  read := some
  print := some
  read_print h := h.symm
  isIp _ := true

/-- The upstream interface with one address. -/
def sampleWorld (addr : String) : World String := fun x => if x = "eth0" then {addr} else ∅

def sampleNet : Net :=
  { interface := "br-jmp", upstreamInterface := some "eth0"
    addresses := [{ ip := "192.168.100.50", publicIp := some "10.0.0.50" }] }

/-- A second alias, whose addition fails. -/
def sampleCalls : List (Call × CallOutcome) :=
  [(.addAddress "192.168.100.51" none "" (some "10.0.0.51"), { adds := [{ addFails := true }] })]

def sampleDriver : Net :=
  { sampleNet with upstream := some "eth0", addedAliases := ["10.0.0.50"] }

theorem lifetime_sample :
    lifetime sampleIproute {} sampleCalls {} (sampleWorld "10.0.0.1/24") sampleNet "eth0" =
      {"10.0.0.1/24"} := by
  have hread : ∀ ip, sampleIproute.alias 24 ip = some (aliasText ip 24) := fun _ => rfl
  refine lifetime_restores sampleIproute {} sampleCalls {} (sampleWorld "10.0.0.1/24") sampleNet ?_ ?_
    ⟨rfl, nofun, rfl, rfl⟩ ⟨rfl, nofun, rfl, rfl⟩ "eth0" (by decide)
  · intro i hi ips hips ip hip a ha
    obtain rfl : "eth0" = i := Option.some.inj hi
    obtain rfl : ["10.0.0.50"] = ips := Option.some.inj hips
    obtain rfl := mem_singleton.mp hip
    obtain rfl := Option.some.inj ((hread _).symm.trans ha)
    decide +kernel
  · intro w' net' h
    have hw : (construct sampleIproute {} (sampleWorld "10.0.0.1/24") sampleNet).1 = w' :=
      congrArg Prod.fst h
    have hn : (construct sampleIproute {} (sampleWorld "10.0.0.1/24") sampleNet).2 = some net' :=
      congrArg Prod.snd h
    have hdriver : (construct sampleIproute {} (sampleWorld "10.0.0.1/24") sampleNet).2 =
        some sampleDriver := by decide +kernel
    obtain rfl : sampleDriver = net' := Option.some.inj (hdriver.symm.trans hn)
    subst hw
    refine ⟨fun addresses ha i hi ips hips => ?_, trivial⟩
    obtain rfl := Option.some.inj ha
    obtain rfl : "eth0" = i := Option.some.inj hi
    obtain rfl : ["10.0.0.50", "10.0.0.51"] = ips := Option.some.inj hips
    refine ⟨fun ip hip hnot a halias => ?_, nofun, .inl ?_⟩
    · obtain rfl := Option.some.inj ((hread _).symm.trans halias)
      rcases mem_pair.mp hip with rfl | rfl
      · exact absurd (by decide) hnot
      · decide +kernel
    · decide

/-- Three ways in which the addresses are not restored: the alias is there from the start and is removed by
`cleanup`; a removal fails and is forgotten; two aliases are to be added, the second addition fails
and the first one is not recorded. -/
theorem lifetime_not_restored :
    lifetime sampleIproute {} [] {} (sampleWorld "10.0.0.50/24") sampleNet "eth0" = ∅ ∧
    lifetime sampleIproute {} [(.removeAddress "192.168.100.50", { dels := [true] })] {}
      (sampleWorld "10.0.0.1/24") sampleNet "eth0" = {"10.0.0.1/24", "10.0.0.50/24"} ∧
    lifetime sampleIproute {}
      [(.addAddress "192.168.100.51" none "" (some "10.0.0.51"), { reloadFails := true }),
        (.addAddress "192.168.100.52" none "" (some "10.0.0.52"), { adds := [{}, { addFails := true }] })] {}
      (sampleWorld "10.0.0.1/24") sampleNet "eth0" = {"10.0.0.1/24", "10.0.0.51/24"} := by
  refine ⟨?_, ?_, ?_⟩ <;> decide +kernel

end Jumpstarter.DutNetwork
