import Jumpstarter.DutNetwork.Nft

/-!
# The traffic filter of a DUT network in masquerade mode

`FilterConfig` with its validators, `_render_filter_rule`, `_build_forward_chain` and
`apply_masquerade_rules`: the lines that are given to `nft`. `FilterConfig.verdict` is what a
configuration says about a packet that starts a connection.

`_render_filter_rule` writes one address of a rule: the destination of an egress rule, the source of an
ingress rule. The other one is overlooked. A protocol without a port is written as a word of its own,
which `nft` does not read, and so are addresses that are not plain IPv4 networks.

* `readLine_render`: what `nft` reads of a rule, or that it rejects it.
* `verdict_forward`: the verdict of the forward chain, rule by rule.
* `masquerade_faithful_iff`: the ruleset is accepted and means what the configuration says exactly if every
  rule is written as `nft` reads it, and the overlooked address of the first rule that otherwise matches makes
  no difference.
-/

namespace Jumpstarter.DutFilter

open Lib Nft List Option

/-- What `ipaddress.ip_network(text, strict=False)` returns. -/
inductive Network where
  | v4 (net : Net)
  | v6
  deriving DecidableEq

structure Library where
  /-- `ipaddress.ip_network(text, strict=False)`; `none` for `ValueError`. -/
  ipNetwork : String → Option Network
  /-- Python reads a plain IPv4 network as `nft` does. -/
  plain : ∀ {s net}, readAddress s = some net → ipNetwork s = some (.v4 net)
  /-- Only the scope of an IPv6 address can have a space, so the first word is no IPv4 address. -/
  spaced : ∀ {s n}, ipNetwork s = some n → ' ' ∈ s.toList → ∀ w ∈ (words s).head?, readAddress w = none
  /-- `repr` of a text. -/
  repr : String → String

/-! ## The configuration -/

structure FilterRule where
  action : String
  destination : Option String := none
  source : Option String := none
  port : Option Int := none
  protocol : Option String := none
  deriving DecidableEq

structure FilterDirection where
  policy : String := "accept"
  rules : List FilterRule := []
  deriving DecidableEq

structure FilterConfig where
  egress : Option FilterDirection := none
  ingress : Option FilterDirection := none
  deriving DecidableEq

/-- `_VALID_ACTIONS`, `_VALID_POLICIES`. -/
def validActions : List String := ["accept", "drop"]

def validProtocols : List String := ["tcp", "udp"]

section Validators

variable (lib : Library)

/-- The check of an address in `FilterRule.__post_init__`: its error. -/
def addressError (field : String) : Option String → Option String
  | none => none
  | some text =>
    if (lib.ipNetwork text).isNone then
      some (field ++ " is not a valid network address: " ++ lib.repr text)
    else none

/-- `FilterRule.__post_init__`: its error. -/
def FilterRule.postInit (r : FilterRule) : Option String :=
  if r.action ∉ validActions then
    some ("action must be one of ('accept', 'drop'), got " ++ lib.repr r.action)
  else if (addressError lib "destination" r.destination).isSome then
    addressError lib "destination" r.destination
  else if (addressError lib "source" r.source).isSome then addressError lib "source" r.source
  else if r.port.isSome ∧ r.protocol = none then some "port requires protocol to be set"
  else
    match r.protocol with
    | some protocol =>
      if protocol ∉ validProtocols then
        some ("protocol must be one of ('tcp', 'udp'), got " ++ lib.repr protocol)
      else none
    | none => none

/-- `FilterDirection.__post_init__`: its error, or the one of a rule. -/
def FilterDirection.postInit (d : FilterDirection) : Option String :=
  if d.policy ∉ validActions then
    some ("policy must be one of ('accept', 'drop'), got " ++ lib.repr d.policy)
  else d.rules.findSome? (·.postInit lib)

/-- `FilterConfig.__post_init__`: the error of a direction. -/
def FilterConfig.postInit (c : FilterConfig) : Option String :=
  (c.egress.bind (·.postInit lib)).or (c.ingress.bind (·.postInit lib))

end Validators

/-! ## The ruleset -/

/-- The direction of a connection: from the DUT, or to it. -/
inductive Direction where
  | egress | ingress
  deriving DecidableEq

/-- `addr_field`: the address that is written. -/
def FilterRule.shown (r : FilterRule) : Direction → Option String
  | .egress => r.destination
  | .ingress => r.source

def FilterRule.overlooked (r : FilterRule) : Direction → Option String
  | .egress => r.source
  | .ingress => r.destination

def addressKeyword : Direction → String
  | .egress => "ip daddr"
  | .ingress => "ip saddr"

/-- `" ".join(parts)`. -/
def joinWords : List String → String
  | [] => ""
  | [s] => s
  | s :: t :: rest => s ++ " " ++ joinWords (t :: rest)

/-- `iifname "{iif}" oifname "{oif}"`, indented. -/
def interfaces (iif oif : String) : String :=
  joinWords ["        iifname", quoted iif, "oifname", quoted oif]

def renderFilterRule (r : FilterRule) (iif oif : String) (dir : Direction) : String :=
  joinWords ([interfaces iif oif] ++ ((r.shown dir).map fun a => joinWords [addressKeyword dir, a]).toList ++
    r.protocol.toList ++ (r.port.map fun p => joinWords ["dport", toString p]).toList ++ [r.action])

/-- The rules and the policy of one direction in `_build_forward_chain`. -/
def directionLines (d : Option FilterDirection) (iif oif : String) (dir : Direction) : List String :=
  ((d.map (·.rules)).getD []).map (renderFilterRule · iif oif dir) ++
    [joinWords [interfaces iif oif, (d.map (·.policy)).getD "accept"]]

/-- `_build_forward_chain` without extra rules. -/
def buildForwardChain (interface upstream : String) (filterConfig : Option FilterConfig) : List String :=
  ["    chain forward \x7b", "        type filter hook forward priority filter; policy accept;"] ++
    (match filterConfig with
    | none =>
      [joinWords [interfaces interface upstream, "accept"],
        joinWords [interfaces upstream interface, "ct state related,established accept"]]
    | some c =>
      ["        ct state related,established accept"] ++
        directionLines c.egress interface upstream .egress ++
        directionLines c.ingress upstream interface .ingress) ++
    ["    \x7d"]

/-- `[a-zA-Z0-9._-]`. -/
def isIfaceChar (c : Char) : Bool := c.isAlphanum || ['.', '_', '-'].contains c

/-- `_validate_iface`: its error. `$` also matches before a newline at the end. -/
def validateIface (lib : Library) (name : String) : Option String :=
  let chars := if name.toList.getLast? = some '\n' then name.toList.dropLast else name.toList
  if 1 ≤ chars.length ∧ chars.length ≤ 15 ∧ chars.all isIfaceChar then none
  else some ("Invalid interface name: " ++ lib.repr name)

def tableNameFor (interface : String) : String :=
  String.ofList (("jumpstarter_" ++ interface).toList.map fun c => if c = '-' then '_' else c)

/-- `apply_masquerade_rules`: the lines of the ruleset, or the error of a validator. -/
def applyMasqueradeRules (lib : Library) (interface upstream subnet table : String)
    (filterConfig : Option FilterConfig) : Except String (List String) :=
  match (validateIface lib interface).or (validateIface lib upstream) with
  | some err => .error err
  | none =>
    if (lib.ipNetwork subnet).isNone then
      .error (lib.repr subnet ++ " does not appear to be an IPv4 or IPv6 network")
    else
      .ok ([joinWords ["table ip", table, "\x7b"], "    chain postrouting \x7b",
        "        type nat hook postrouting priority srcnat; policy accept;",
        joinWords ["        oifname", quoted upstream, "ip saddr", subnet, "masquerade"],
        "    \x7d"] ++ buildForwardChain interface upstream filterConfig ++ ["\x7d"])

/-! ## What a configuration says -/

def statementOf (action : String) : Statement := if action = "drop" then .drop else .accept

def addressMatches (lib : Library) (text : Option String) (a : BitVec 32) : Bool :=
  match text with
  | none => true
  | some text =>
    match lib.ipNetwork text with
    | some (.v4 net) => net.contains a
    | _ => false

@[simp] def protocolMatches (protocol : Option String) (t : Transport) : Bool :=
  match protocol, t with
  | none, _ => true
  | some p, .tcp _ => p = "tcp"
  | some p, .udp _ => p = "udp"
  | some _, .other _ => false

def portMatches (port : Option Int) (t : Transport) : Bool :=
  match port, t with
  | none, _ => true
  | some p, .tcp dport | some p, .udp dport => p = dport.toNat
  | some _, .other _ => false

/-- The remote address of a packet: the one that is written in a rule of its direction. -/
def shownAddress (p : Packet) : Direction → BitVec 32
  | .egress => p.daddr
  | .ingress => p.saddr

def overlookedAddress (p : Packet) : Direction → BitVec 32
  | .egress => p.saddr
  | .ingress => p.daddr

/-- The fields that are written match the packet. -/
def FilterRule.shownMatches (lib : Library) (r : FilterRule) (dir : Direction) (p : Packet) : Bool :=
  addressMatches lib (r.shown dir) (shownAddress p dir) && protocolMatches r.protocol p.transport &&
    portMatches r.port p.transport

/-- The address that is not written matches the packet. -/
def FilterRule.overlookedMatches (lib : Library) (r : FilterRule) (dir : Direction) (p : Packet) :
    Bool :=
  addressMatches lib (r.overlooked dir) (overlookedAddress p dir)

def FilterRule.matchesPacket (lib : Library) (r : FilterRule) (p : Packet) : Bool :=
  addressMatches lib r.source p.saddr && addressMatches lib r.destination p.daddr &&
    protocolMatches r.protocol p.transport && portMatches r.port p.transport

open FilterRule

theorem matchesPacket_eq (lib : Library) (r : FilterRule) (dir : Direction) (p : Packet) :
    r.matchesPacket lib p = (r.shownMatches lib dir p && r.overlookedMatches lib dir p) := by
  cases dir <;>
    simp only [matchesPacket, shownMatches, overlookedMatches,
      shown, overlooked, shownAddress, overlookedAddress] <;>
    ac_rfl

/-- The first rule that matches, or the policy. -/
@[simp] def rulesVerdict (lib : Library) (policy : String) (p : Packet) (rules : List FilterRule) : Statement :=
  match rules.find? (·.matchesPacket lib p) with
  | some r => statementOf r.action
  | none => statementOf policy

def FilterConfig.direction (c : FilterConfig) : Direction → Option FilterDirection
  | .egress => c.egress
  | .ingress => c.ingress

/-- What a configuration says about a packet. -/
def FilterConfig.verdict (lib : Library) (c : FilterConfig) (dir : Direction) (p : Packet) : Statement :=
  match c.direction dir with
  | some d => rulesVerdict lib d.policy p d.rules
  | none => .accept

/-! ## What the validators leave -/

structure FilterRule.Valid (lib : Library) (r : FilterRule) : Prop where
  action : r.action = "accept" ∨ r.action = "drop"
  address : ∀ dir, ∀ a ∈ r.shown dir, ∃ n, lib.ipNetwork a = some n
  port : r.protocol = none → r.port = none
  protocol : ∀ p ∈ r.protocol, p = "tcp" ∨ p = "udp"

theorem addressError_none {lib : Library} {field : String} {text : Option String}
    (h : ¬ (addressError lib field text).isSome) : ∀ a ∈ text, ∃ n, lib.ipNetwork a = some n := by
  rintro a rfl
  simp only [addressError] at h
  cases hn : lib.ipNetwork a with
  | none => simp [hn] at h
  | some n => exact ⟨n, rfl⟩

theorem postInit_valid {lib : Library} {r : FilterRule} (h : r.postInit lib = none) : r.Valid lib := by
  unfold postInit at h
  split at h
  · cases h
  rename_i haction
  split at h
  · rename_i hdest
    rw [h] at hdest
    cases hdest
  rename_i hdest
  split at h
  · rename_i hsrc
    rw [h] at hsrc
    cases hsrc
  rename_i hsrc
  split at h
  · cases h
  rename_i hport
  refine ⟨?_, fun dir => ?_, fun hnone => ?_, ?_⟩
  · simpa [validActions] using not_not.mp haction
  · cases dir with
    | egress => exact addressError_none hdest
    | ingress => exact addressError_none hsrc
  · cases hp : r.port with
    | none => rfl
    | some p => exact absurd ⟨by simp [hp], hnone⟩ hport
  · rintro p hp
    rw [hp] at h
    simp only at h
    split at h
    · cases h
    · rename_i hvalid
      simpa [validProtocols] using not_not.mp hvalid

/-- A configuration that the validators accept. -/
structure FilterConfig.Valid (lib : Library) (c : FilterConfig) : Prop where
  policy : ∀ dir, ∀ d ∈ c.direction dir, d.policy = "accept" ∨ d.policy = "drop"
  rules : ∀ dir, ∀ d ∈ c.direction dir, ∀ r ∈ d.rules, r.Valid lib

theorem direction_valid {lib : Library} {d : FilterDirection} (h : d.postInit lib = none) :
    (d.policy = "accept" ∨ d.policy = "drop") ∧ ∀ r ∈ d.rules, r.Valid lib := by
  unfold FilterDirection.postInit at h
  split at h
  · cases h
  · rename_i hpolicy
    refine ⟨by simpa [validActions] using not_not.mp hpolicy, fun r hr => postInit_valid ?_⟩
    exact findSome?_eq_none_iff.mp h r hr

theorem config_valid {lib : Library} {c : FilterConfig} (h : c.postInit lib = none) : c.Valid lib := by
  obtain ⟨he, hi⟩ := or_eq_none_iff.mp h
  have hdir : ∀ dir, ∀ d ∈ c.direction dir, d.postInit lib = none := by
    intro dir d hd
    cases dir with
    | egress => exact bind_eq_none_iff.mp he d hd
    | ingress => exact bind_eq_none_iff.mp hi d hd
  exact ⟨fun dir d hd => (direction_valid (hdir dir d hd)).1,
    fun dir d hd => (direction_valid (hdir dir d hd)).2⟩

/-! ## One rule -/

/-- A protocol has a port, and the port is one. -/
structure FilterRule.PortWritten (r : FilterRule) : Prop where
  protocol : r.protocol ≠ none → r.port ≠ none
  port : ∀ p, r.port = some p → 0 ≤ p ∧ p ≤ 65535

/-- A rule whose text `nft` reads: the address that is written is a plain IPv4 network, and a protocol
is written with its port. -/
structure FilterRule.Written (r : FilterRule) (dir : Direction) : Prop extends r.PortWritten where
  address : ∀ a, r.shown dir = some a → ∃ net, readAddress a = some net

theorem words_joinWords (parts : List String) : words (joinWords parts) = parts.flatMap words := by
  induction parts with
  | nil => rfl
  | cons s parts ih =>
    cases parts with
    | nil => simp [joinWords]
    | cons t rest =>
      rw [joinWords, words_append, ih]
      rfl

structure Iface where
  name : String
  length : 1 ≤ name.length ∧ name.length ≤ 15
  valid : ∀ c ∈ name.toList, isIfaceChar c = true

theorem Iface.not_space (i : Iface) : ' ' ∉ i.name.toList := fun h =>
  absurd (i.valid _ h) (by decide)

theorem words_quoted (i : Iface) : words (quoted i.name) = [quoted i.name] := by
  refine words_of_not_mem ?_ ?_
  · intro h
    have := congrArg String.toList h
    simp [quoted] at this
  · have := i.not_space
    simp [quoted, this]

theorem words_interfaces (i o : Iface) :
    words (interfaces i.name o.name) = ["iifname", quoted i.name, "oifname", quoted o.name] := by
  have h1 : words "        iifname" = ["iifname"] := by decide +kernel
  have h2 : words "oifname" = ["oifname"] := by decide +kernel
  rw [interfaces, words_joinWords]
  simp only [flatMap_cons, flatMap_nil, words_quoted, h1, h2]
  rfl

variable {line : String} {i : Iface}

theorem readLine_interfaces {o : Iface} {ws : List String}
    (h : words line = words (interfaces i.name o.name) ++ ws) :
    readLine line = ((readRule (ws.map lexWord)).map fun r =>
      (r.also (.oifname o.name)).also (.iifname i.name)).map .rule := by
  rw [words_interfaces] at h
  have hlex : (["iifname", quoted i.name, "oifname", quoted o.name] ++ ws).map lexWord =
      .iifname :: .other (quoted i.name) :: .oifname :: .other (quoted o.name) :: ws.map lexWord := by
    simp only [cons_append, nil_append, map_cons, lexWord_quoted]
    rfl
  have hline := readLine_of_words h (by decide)
  rw [hline]
  change (readRule ((["iifname", quoted i.name, "oifname", quoted o.name] ++ ws).map lexWord)).map Line.rule = _
  rw [hlex, readRule, readRule, readQuoted_quoted, readQuoted_quoted]
  simp [Function.comp_def]

/-- The parts of a rule after its address. -/
@[simp] def FilterRule.tail (r : FilterRule) : List String :=
  r.protocol.toList ++ (r.port.map fun p => joinWords ["dport", toString p]).toList ++ [r.action]

def FilterRule.tailTokens (r : FilterRule) : List Token := (r.tail.flatMap words).map lexWord

def portMatch (protocol : String) (port : Nat) : Match :=
  if protocol = "tcp" then .tcpDport port else .udpDport port

variable {dir : Direction}

section Rule

variable {lib : Library} {r : FilterRule}

theorem readRule_action (hv : r.Valid lib) :
    readRule ((words r.action).map lexWord) = some ⟨[], statementOf r.action⟩ ∧
      ∃ t, (words r.action).map lexWord = [t] ∧ ∀ w, t ≠ .other w := by
  rcases hv.action with h | h
  · have hw : (words "accept").map lexWord = [.accept] := by decide +kernel
    rw [h, hw]
    exact ⟨rfl, .accept, rfl, nofun⟩
  · have hw : (words "drop").map lexWord = [.drop] := by decide +kernel
    rw [h, hw]
    exact ⟨rfl, .drop, rfl, nofun⟩

theorem tailTokens_none (hv : r.Valid lib) (hp : r.protocol = none) :
    r.tailTokens = (words r.action).map lexWord := by
  simp [tailTokens, hp, hv.port hp]

theorem words_dport (p : Int) : words (joinWords ["dport", toString p]) = ["dport", toString p] := by
  have hd : words "dport" = ["dport"] := by decide +kernel
  rw [words_joinWords]
  simp only [flatMap_cons, flatMap_nil, hd, words_toString]
  rfl

theorem tailTokens_some (hv : r.Valid lib) {protocol : String} (hp : r.protocol = some protocol) :
    ∃ t, (t = .tcp ∧ protocol = "tcp" ∨ t = .udp ∧ protocol = "udp") ∧
      r.tailTokens = t :: ((r.port.map fun p => [Token.dport, .other (toString p)]).getD [] ++
        (words r.action).map lexWord) := by
  have htoken : ∃ t, (t = .tcp ∧ protocol = "tcp" ∨ t = .udp ∧ protocol = "udp") ∧
      (words protocol).map lexWord = [t] := by
    rcases hv.protocol protocol hp with rfl | rfl
    · exact ⟨.tcp, .inl ⟨rfl, rfl⟩, by decide +kernel⟩
    · exact ⟨.udp, .inr ⟨rfl, rfl⟩, by decide +kernel⟩
  obtain ⟨t, ht, hwords⟩ := htoken
  refine ⟨t, ht, ?_⟩
  have hdport : lexWord "dport" = .dport := rfl
  cases hport : r.port with
  | none =>
    simp only [FilterRule.tailTokens, FilterRule.tail, hp, hport, toList_some, map_none,
      toList_none, append_nil, flatMap_append, flatMap_cons, flatMap_nil,
      map_append, hwords, getD_none]
    rfl
  | some p =>
    simp only [FilterRule.tailTokens, FilterRule.tail, hp, hport, toList_some, map_some,
      append_nil, flatMap_append, flatMap_cons, flatMap_nil, map_append,
      hwords, words_dport, map_cons, map_nil, lexWord_toString, hdport, getD_some]
    rfl

theorem tailTokens_head (hv : r.Valid lib) : ∃ t ts, r.tailTokens = t :: ts ∧ ∀ w, t ≠ .other w := by
  cases hp : r.protocol with
  | none =>
    obtain ⟨t, ht, hne⟩ := (readRule_action hv).2
    exact ⟨t, [], by rw [tailTokens_none hv hp, ht], hne⟩
  | some protocol =>
    obtain ⟨t, ht, htokens⟩ := tailTokens_some hv hp
    refine ⟨t, _, htokens, ?_⟩
    rcases ht with ⟨rfl, -⟩ | ⟨rfl, -⟩ <;> nofun

theorem portMatch_holds {protocol : String} (h : protocol = "tcp" ∨ protocol = "udp") {port : Int}
    (hport : 0 ≤ port) (p : Packet) :
    (portMatch protocol port.toNat).holds p =
      (protocolMatches (some protocol) p.transport && portMatches (some port) p.transport) := by
  have hnat : ∀ d : BitVec 16, decide (d.toNat = port.toNat) = decide (port = (d.toNat : Int)) := by
    intro d
    rw [decide_eq_decide]
    omega
  rcases h with rfl | rfl
  · cases ht : p.transport <;> simp [portMatch, Match.holds, ht, portMatches, hnat]
  · cases ht : p.transport <;> simp [portMatch, Match.holds, ht, portMatches, hnat]

theorem readRule_tail (hv : r.Valid lib) :
    (r.PortWritten → ∃ R, readRule r.tailTokens = some R ∧ R.statement = statementOf r.action ∧
      ∀ p, R.holds p = (protocolMatches r.protocol p.transport && portMatches r.port p.transport)) ∧
    (¬ r.PortWritten → readRule r.tailTokens = none) := by
  obtain ⟨haction, t₀, hwords, -⟩ := readRule_action hv
  cases hp : r.protocol with
  | none =>
    have hport := hv.port hp
    rw [tailTokens_none hv hp, haction, hport]
    refine ⟨fun _ => ⟨_, rfl, rfl, fun p => rfl⟩, fun h => absurd ?_ h⟩
    exact ⟨fun hne => absurd hp hne, fun p hsome => by rw [hport] at hsome; cases hsome⟩
  | some protocol =>
    obtain ⟨t, ht, htokens⟩ := tailTokens_some hv hp
    rw [htokens]
    cases hport : r.port with
    | none =>
      refine ⟨fun h => absurd hport (h.protocol (by simp [hp])), fun _ => ?_⟩
      rw [map_none, getD_none, nil_append, hwords]
      rcases ht with ⟨rfl, -⟩ | ⟨rfl, -⟩ <;> cases t₀ <;> rfl
    | some port =>
      have hread : readRule (t :: ((some port).map (fun p => [Token.dport, .other (toString p)])).getD []
          ++ (words r.action).map lexWord) =
          (readPort (toString port)).bind fun n => (some ⟨[], statementOf r.action⟩ : Option Rule).map
            (·.also (portMatch protocol n)) := by
        rw [← haction]
        rcases ht with ⟨rfl, rfl⟩ | ⟨rfl, rfl⟩ <;> rfl
      rw [← cons_append, hread, readPort, readNumber_toString]
      by_cases hrange : 0 ≤ port ∧ port ≤ (65535 : Nat)
      · rw [if_pos hrange]
        refine ⟨fun _ => ⟨_, rfl, rfl, fun p => ?_⟩, fun h => absurd ?_ h⟩
        · rw [← portMatch_holds (hv.protocol protocol hp) hrange.1]
          simp [Rule.holds, Rule.also]
        · refine ⟨fun _ => by simp [hport], fun p hsome => ?_⟩
          rw [hport] at hsome
          cases hsome
          exact_mod_cast hrange
      · rw [if_neg hrange]
        refine ⟨fun h => absurd ?_ hrange, fun _ => rfl⟩
        exact_mod_cast h.port port hport

def addressMatch : Direction → Net → Match
  | .egress, net => .daddr net
  | .ingress, net => .saddr net

theorem addressMatch_holds (lib : Library) {a : String} {net : Net} (h : readAddress a = some net)
    (p : Packet) : (addressMatch dir net).holds p = addressMatches lib (some a) (shownAddress p dir) := by
  cases dir <;> simp [addressMatch, Match.holds, addressMatches, lib.plain h, shownAddress]

def addressTokens : Direction → List Token
  | .egress => [.ip, .daddr]
  | .ingress => [.ip, .saddr]

theorem readRule_address {a : String} {n : Network} (hn : lib.ipNetwork a = some n) {rest : List Token}
    (hrest : ∃ t ts, rest = t :: ts ∧ ∀ w, t ≠ .other w) :
    readRule (addressTokens dir ++ ((words a).map lexWord ++ rest)) =
      (readAddress a).bind fun net => (readRule rest).map (·.also (addressMatch dir net)) := by
  cases ha : readAddress a with
  | some net =>
    rw [readAddress_word ha]
    simp only [map_cons, map_nil, lexWord_address ha]
    cases dir <;> simp [addressTokens, readRule, ha, addressMatch]
  | none =>
    -- whatever comes first is not an address
    have hreject : ∀ t ts, (∀ w, t = .other w → readAddress w = none) →
        readRule (addressTokens dir ++ t :: ts) = none := by
      intro t ts ht
      cases t with
      | other w => cases dir <;> simp [addressTokens, readRule, ht w rfl]
      | _ => cases dir <;> rfl
    rw [bind_none]
    cases hw : words a with
    | nil =>
      obtain ⟨t, ts, rfl, hother⟩ := hrest
      exact hreject t ts fun w he => absurd he (hother w)
    | cons w ws =>
      refine hreject _ _ fun w' he => ?_
      rw [← eq_of_lexWord he]
      by_cases hspace : ' ' ∈ a.toList
      · exact lib.spaced hn hspace w (by simp [hw])
      · have hne : a ≠ "" := by
          rintro rfl
          have hnil : words "" = [] := by decide +kernel
          rw [hnil] at hw
          cases hw
        rw [words_of_not_mem hne hspace] at hw
        cases hw
        exact ha

theorem words_addressKeyword (dir : Direction) :
    (words (addressKeyword dir)).map lexWord = addressTokens dir := by
  cases dir <;> decide +kernel

theorem readLine_render (hv : r.Valid lib) (i o : Iface) (dir : Direction) :
    (r.Written dir → ∃ R, readLine (renderFilterRule r i.name o.name dir) = some (.rule R) ∧
      R.statement = statementOf r.action ∧ ∀ p : Packet, R.holds p =
        (decide (p.iif = i.name) && decide (p.oif = o.name) && r.shownMatches lib dir p)) ∧
    (¬ r.Written dir → readLine (renderFilterRule r i.name o.name dir) = none) := by
  have hwords : words (renderFilterRule r i.name o.name dir) = words (interfaces i.name o.name) ++
      ((((r.shown dir).map fun a => joinWords [addressKeyword dir, a]).toList ++ r.tail).flatMap words) := by
    rw [renderFilterRule, words_joinWords]
    simp
  rw [readLine_interfaces hwords]
  obtain ⟨htail, hreject⟩ := readRule_tail hv
  cases ha : r.shown dir with
  | none =>
    have htokens : (((none : Option String).map fun a => joinWords [addressKeyword dir, a]).toList ++
        r.tail).flatMap words = r.tail.flatMap words := rfl
    rw [htokens]
    refine ⟨fun hw => ?_, fun hw => ?_⟩
    · obtain ⟨R, hR, hstat, hholds⟩ := htail hw.toPortWritten
      rw [tailTokens] at hR
      rw [hR]
      refine ⟨_, rfl, hstat, fun p => ?_⟩
      simp [hholds, shownMatches, ha, addressMatches, Bool.and_assoc]
    · have hport : ¬ r.PortWritten := fun h => hw ⟨h, by simp [ha]⟩
      have hnone := hreject hport
      rw [tailTokens] at hnone
      rw [hnone]
      rfl
  | some a =>
    obtain ⟨n, hn⟩ := hv.address dir a ha
    have htokens : ((((some a).map fun a => joinWords [addressKeyword dir, a]).toList ++
        r.tail).flatMap words).map lexWord =
        addressTokens dir ++ ((words a).map lexWord ++ r.tailTokens) := by
      simp only [map_some, toList_some, flatMap_append, flatMap_cons,
        flatMap_nil, append_nil, words_joinWords, map_append, words_addressKeyword,
        tailTokens, append_assoc]
    rw [htokens, readRule_address hn (tailTokens_head hv)]
    refine ⟨fun hw => ?_, fun hw => ?_⟩
    · obtain ⟨net, hnet⟩ := hw.address a ha
      obtain ⟨R, hR, hstat, hholds⟩ := htail hw.toPortWritten
      rw [hnet, hR]
      refine ⟨_, rfl, hstat, fun p => ?_⟩
      simp [hholds, shownMatches, ha, addressMatch_holds lib hnet, Bool.and_assoc]
    · cases hnet : readAddress a with
      | none => rfl
      | some net =>
        have hport : ¬ r.PortWritten := by
          refine fun h => hw ⟨h, fun a' ha' => ?_⟩
          rw [ha] at ha'
          cases ha'
          exact ⟨net, hnet⟩
        rw [hreject hport]
        rfl

end Rule

/-! ## One direction -/

@[simp] def shownVerdict (lib : Library) (dir : Direction) (policy : String) (p : Packet)
    (rules : List FilterRule) : Statement :=
  match rules.find? (·.shownMatches lib dir p) with
  | some r => statementOf r.action
  | none => statementOf policy

/-- The packet goes from `i` to `o`. -/
def goes (i o : Iface) (p : Packet) : Bool := p.iif = i.name && p.oif = o.name

section Chain

variable {lib : Library} {cs : List Chain} {name : String}

theorem foldlM_line {l : Line} {place place' : Place} (h : readLine line = some l)
    (hnext : place.next l = some place') (lines : List String) :
    (line :: lines).foldlM Place.read place = lines.foldlM Place.read place' := by
  simp [Place.read, h, hnext]

theorem foldlM_rule {R : Rule} (h : readLine line = some (.rule R)) (rules : List Rule) (lines : List String) :
    (line :: lines).foldlM Place.read (.chain cs name rules) =
      lines.foldlM Place.read (.chain cs name (rules ++ [R])) :=
  foldlM_line h rfl lines

theorem foldlM_none (h : readLine line = none) (place : Place) (lines : List String) :
    (line :: lines).foldlM Place.read place = none := by
  simp [Place.read, h]

theorem foldlM_lines (cs : List Chain) (name : String) {policy : String}
    (hpolicy : policy = "accept" ∨ policy = "drop") (i o : Iface) (dir : Direction)
    {rs : List FilterRule} (hv : ∀ r ∈ rs, r.Valid lib) (rules : List Rule)
    (lines : List String) :
    ((∀ r ∈ rs, r.Written dir) → ∃ Rs, (rs.map (renderFilterRule · i.name o.name dir) ++
        joinWords [interfaces i.name o.name, policy] :: lines).foldlM Place.read (.chain cs name rules) =
        lines.foldlM Place.read (.chain cs name (rules ++ Rs)) ∧
      ∀ p, firstMatch Rs p = if goes i o p then some (shownVerdict lib dir policy p rs) else none) ∧
    (¬ (∀ r ∈ rs, r.Written dir) → (rs.map (renderFilterRule · i.name o.name dir) ++
      joinWords [interfaces i.name o.name, policy] :: lines).foldlM Place.read
        (.chain cs name rules) = none) := by
  induction rs generalizing rules with
  | nil =>
    refine ⟨fun _ => ?_, fun h => absurd (by simp) h⟩
    have hwords : words (joinWords [interfaces i.name o.name, policy]) =
        words (interfaces i.name o.name) ++ words policy := by
      simp [words_joinWords]
    have hread : readRule ((words policy).map lexWord) = some ⟨[], statementOf policy⟩ := by
      rcases hpolicy with rfl | rfl <;> decide +kernel
    have hline := readLine_interfaces hwords
    rw [hread] at hline
    refine ⟨_, foldlM_rule hline rules lines, fun p => ?_⟩
    rw [firstMatch_cons]
    simp [goes, Rule.holds, Rule.also]
  | cons r rs ih =>
    obtain ⟨hr, hrs⟩ := forall_mem_cons.mp hv
    obtain ⟨hread, hreject⟩ := readLine_render hr i o dir
    refine ⟨fun hw => ?_, fun hw => ?_⟩
    · obtain ⟨hwr, hwrs⟩ := forall_mem_cons.mp hw
      obtain ⟨R, hR, hstat, hholds⟩ := hread hwr
      obtain ⟨Rs, hfold, hfirst⟩ := (ih hrs (rules ++ [R])).1 hwrs
      refine ⟨R :: Rs, ?_, fun p => ?_⟩
      · rw [map_cons, cons_append, foldlM_rule hR, hfold, append_assoc]
        rfl
      · rw [firstMatch_cons, hholds, hfirst, hstat]
        by_cases hgo : goes i o p = true
        · have hpair : p.iif = i.name ∧ p.oif = o.name := by simpa [goes] using hgo
          by_cases hs : r.shownMatches lib dir p = true
          · simp [hgo, hpair, hs]
          · simp [hgo, hpair, hs]
        · have hpair : (decide (p.iif = i.name) && decide (p.oif = o.name)) = false := by
            simpa [goes] using hgo
          simp [hgo, hpair]
    · by_cases hwr : r.Written dir
      · obtain ⟨R, hR, -⟩ := hread hwr
        have hwrs : ¬ ∀ r ∈ rs, r.Written dir := fun h => hw (forall_mem_cons.mpr ⟨hwr, h⟩)
        rw [map_cons, cons_append, foldlM_rule hR]
        exact (ih hrs (rules ++ [R])).2 hwrs
      · rw [map_cons, cons_append]
        exact foldlM_none (hreject hwr) _ _

end Chain

/-- The address that a rule overlooks makes no difference: the first rule whose written fields match the
packet matches it in the other address too, or the rules after it say the same as it does. -/
def Undisturbed (lib : Library) (dir : Direction) (policy : String) (p : Packet) :
    List FilterRule → Prop
  | [] => True
  | r :: rest =>
    if r.shownMatches lib dir p then
      r.overlookedMatches lib dir p = true ∨ rulesVerdict lib policy p rest = statementOf r.action
    else Undisturbed lib dir policy p rest

theorem shownVerdict_eq_iff (lib : Library) (dir : Direction) (policy : String) (p : Packet)
    (rules : List FilterRule) :
    shownVerdict lib dir policy p rules = rulesVerdict lib policy p rules ↔
      Undisturbed lib dir policy p rules := by
  induction rules with
  | nil => simp [Undisturbed]
  | cons r rest ih =>
    have hm := matchesPacket_eq lib r dir p
    unfold Undisturbed
    by_cases hs : r.shownMatches lib dir p = true
    · rw [hs, Bool.true_and] at hm
      have hshown : shownVerdict lib dir policy p (r :: rest) = statementOf r.action := by
        simp [hs]
      rw [hshown, if_pos hs]
      by_cases ho : r.overlookedMatches lib dir p = true
      · rw [ho] at hm
        simp [hm, ho]
      · have hm' : r.matchesPacket lib p = false := by simpa [hm] using ho
        have hrest : rulesVerdict lib policy p (r :: rest) = rulesVerdict lib policy p rest := by
          simp [hm']
        rw [hrest]
        constructor
        · exact fun h => .inr h.symm
        · exact fun h => (h.resolve_left ho).symm
    · have hm' : r.matchesPacket lib p = false := by simp [hm, hs]
      have hshown : shownVerdict lib dir policy p (r :: rest) = shownVerdict lib dir policy p rest := by
        simp [hs]
      have hrest : rulesVerdict lib policy p (r :: rest) = rulesVerdict lib policy p rest := by
        simp [hm']
      rw [hshown, hrest, if_neg hs, ih]

/-! ## The whole ruleset -/

def FilterConfig.rules (c : FilterConfig) (dir : Direction) : List FilterRule :=
  ((c.direction dir).map (·.rules)).getD []

def FilterConfig.policy (c : FilterConfig) (dir : Direction) : String :=
  ((c.direction dir).map (·.policy)).getD "accept"

theorem FilterConfig.Valid.policy_mem {lib : Library} {c : FilterConfig} (hc : c.Valid lib)
    (dir : Direction) : c.policy dir = "accept" ∨ c.policy dir = "drop" := by
  unfold FilterConfig.policy
  cases hd : c.direction dir with
  | none => exact .inl rfl
  | some d => exact hc.policy dir d hd

theorem FilterConfig.Valid.rules_valid {lib : Library} {c : FilterConfig} (hc : c.Valid lib)
    (dir : Direction) : ∀ r ∈ c.rules dir, r.Valid lib := by
  unfold FilterConfig.rules
  cases hd : c.direction dir with
  | none => nofun
  | some d => exact hc.rules dir d hd

theorem verdict_eq (lib : Library) (c : FilterConfig) (dir : Direction) (p : Packet) :
    c.verdict lib dir p = rulesVerdict lib (c.policy dir) p (c.rules dir) := by
  unfold FilterConfig.verdict FilterConfig.policy FilterConfig.rules
  cases c.direction dir <;> rfl

theorem directionLines_eq (c : FilterConfig) (i o : String) (dir : Direction) :
    directionLines (c.direction dir) i o dir =
      (c.rules dir).map (renderFilterRule · i o dir) ++ [joinWords [interfaces i o, c.policy dir]] := rfl

theorem validateIface_none (lib : Library) (i : Iface) : validateIface lib i.name = none := by
  have hlast : i.name.toList.getLast? ≠ some '\n' := fun h =>
    absurd (i.valid _ (mem_of_getLast? h)) (by decide)
  have hlen : 1 ≤ i.name.toList.length ∧ i.name.toList.length ≤ 15 := by
    rw [String.length_toList]
    exact i.length
  have hall : i.name.toList.all isIfaceChar = true := all_eq_true.mpr i.valid
  simp only [validateIface, hlast, if_false, hlen, hall, and_self, if_true]

theorem words_table (i : Iface) :
    words (joinWords ["table ip", tableNameFor i.name, "\x7b"]) =
      ["table", "ip", tableNameFor i.name, "\x7b"] ∧ isIdentifier (tableNameFor i.name) = true := by
  have hlist : (tableNameFor i.name).toList = 'j' :: ("umpstarter_".toList ++ i.name.toList).map
      (fun c => if c = '-' then '_' else c) := by
    simp [tableNameFor]
  have hchar : ∀ c ∈ "umpstarter_".toList ++ i.name.toList, isIfaceChar c = true := by
    intro c hc
    rcases mem_append.mp hc with hc | hc
    · have hall : "umpstarter_".toList.all isIfaceChar = true := by decide
      exact all_eq_true.mp hall c hc
    · exact i.valid c hc
  have hrest : ∀ c ∈ ("umpstarter_".toList ++ i.name.toList).map (fun c => if c = '-' then '_' else c),
      isIfaceChar c = true := by
    intro c hc
    obtain ⟨d, hd, rfl⟩ := mem_map.mp hc
    split
    · decide
    · exact hchar d hd
  have hspace : ' ' ∉ (tableNameFor i.name).toList := by
    rw [hlist]
    intro h
    rcases mem_cons.mp h with h | h
    · revert h
      decide
    · exact absurd (hrest _ h) (by decide)
  have hne : tableNameFor i.name ≠ "" := by
    intro h
    rw [h] at hlist
    simp at hlist
  constructor
  · have h1 : words "table ip" = ["table", "ip"] := by decide +kernel
    have h2 : words "\x7b" = ["\x7b"] := by decide +kernel
    rw [words_joinWords]
    simp only [flatMap_cons, flatMap_nil, h1, h2, words_of_not_mem hne hspace]
    rfl
  · unfold isIdentifier
    rw [hlist]
    simp only [Bool.and_eq_true, List.all_eq_true]
    refine ⟨by decide, fun c hc => ?_⟩
    have := hrest c hc
    simp only [isIfaceChar, contains_cons, contains_nil, Bool.or_false, Bool.or_eq_true, beq_iff_eq] at this ⊢
    rcases this with h | h | h | h
    · exact .inl h
    · exact .inr (.inr (.inr (.inr h)))
    · exact .inr (.inr (.inr (.inl h)))
    · exact .inr (.inr (.inl h))

theorem readLine_masquerade {lib : Library} (u : Iface) {subnet : String} {n : Network}
    (hn : lib.ipNetwork subnet = some n) :
    readLine (joinWords ["        oifname", quoted u.name, "ip saddr", subnet, "masquerade"]) =
      ((readAddress subnet).map fun net => ⟨[.oifname u.name, .saddr net], .masquerade⟩).map .rule := by
  have h1 : words "        oifname" = ["oifname"] := by decide +kernel
  have h2 : words "masquerade" = ["masquerade"] := by decide +kernel
  have h3 : words "ip saddr" = ["ip", "saddr"] := by decide +kernel
  have hwords : words (joinWords ["        oifname", quoted u.name, "ip saddr", subnet, "masquerade"]) =
      "oifname" :: quoted u.name :: "ip" :: "saddr" :: (words subnet ++ ["masquerade"]) := by
    rw [words_joinWords]
    simp only [flatMap_cons, flatMap_nil, h1, h2, h3, words_quoted, append_nil, cons_append, nil_append]
  have hlex : ("oifname" :: quoted u.name :: "ip" :: "saddr" :: (words subnet ++ ["masquerade"])).map
      lexWord = .oifname :: .other (quoted u.name) ::
        (addressTokens .ingress ++ ((words subnet).map lexWord ++ [.masquerade])) := by
    have hl : lexWord "oifname" = .oifname ∧ lexWord "ip" = .ip ∧ lexWord "saddr" = .saddr ∧
        lexWord "masquerade" = .masquerade := by decide +kernel
    simp only [map_cons, map_append, map_nil, lexWord_quoted, hl, addressTokens, cons_append, nil_append]
  have hrest : ∃ t ts, [Token.masquerade] = t :: ts ∧ ∀ w, t ≠ .other w :=
    ⟨.masquerade, [], rfl, nofun⟩
  have haddr : readRule (addressTokens .ingress ++ ((words subnet).map lexWord ++ [.masquerade])) =
      (readAddress subnet).bind fun net => (readRule [.masquerade]).map (·.also (.saddr net)) :=
    readRule_address hn hrest
  rw [readLine_of_words hwords (by decide), hlex, readRule, readQuoted_quoted, haddr]
  cases readAddress subnet with
  | none => rfl
  | some net => rfl

/-- Every line is written as `nft` reads it. -/
structure RulesetWritten (subnet : String) (c : FilterConfig) : Prop where
  subnet : ∃ net, readAddress subnet = some net
  rules : ∀ dir, ∀ r ∈ c.rules dir, r.Written dir

/-- Where a packet of this direction comes from. -/
@[simp] def Direction.from (i u : Iface) : Direction → Iface
  | .egress => i
  | .ingress => u

/-- Where a packet of this direction goes. -/
def Direction.to (i u : Iface) : Direction → Iface
  | .egress => u
  | .ingress => i

/-- `ct state related,established accept`. -/
def stateRule : Rule := ⟨[.ctState [.related, .established]], .accept⟩

section Ruleset

variable {lib : Library} {c : FilterConfig} {subnet : String} {n : Network}

theorem foldlM_forward (hc : c.Valid lib) (i u : Iface) (cs : List Chain) (lines : List String) :
    ((∀ dir, ∀ r ∈ c.rules dir, r.Written dir) → ∃ Es Is,
      (buildForwardChain i.name u.name (some c) ++ lines).foldlM Place.read (.table cs) =
        lines.foldlM Place.read (.table (cs ++ [⟨"forward", stateRule :: (Es ++ Is)⟩])) ∧
      (∀ p, firstMatch Es p =
        if goes i u p then some (shownVerdict lib .egress (c.policy .egress) p (c.rules .egress)) else none) ∧
      ∀ p, firstMatch Is p =
        if goes u i p then some (shownVerdict lib .ingress (c.policy .ingress) p (c.rules .ingress))
        else none) ∧
    (¬ (∀ dir, ∀ r ∈ c.rules dir, r.Written dir) →
      (buildForwardChain i.name u.name (some c) ++ lines).foldlM Place.read (.table cs) = none) := by
  have hchain : readLine "    chain forward \x7b" = some (.chain "forward") := by decide +kernel
  have hhook : readLine "        type filter hook forward priority filter; policy accept;" = some .hook := by
    decide +kernel
  have hstate : readLine "        ct state related,established accept" = some (.rule stateRule) := by
    decide +kernel
  have hclose : readLine "    \x7d" = some .close := by decide +kernel
  have hlines : buildForwardChain i.name u.name (some c) ++ lines =
      "    chain forward \x7b" :: "        type filter hook forward priority filter; policy accept;" ::
        "        ct state related,established accept" ::
        ((c.rules .egress).map (renderFilterRule · i.name u.name .egress) ++
          joinWords [interfaces i.name u.name, c.policy .egress] ::
          ((c.rules .ingress).map (renderFilterRule · u.name i.name .ingress) ++
            joinWords [interfaces u.name i.name, c.policy .ingress] :: "    \x7d" :: lines)) := by
    have he := directionLines_eq c i.name u.name .egress
    have hi := directionLines_eq c u.name i.name .ingress
    simp only [FilterConfig.direction] at he hi
    simp only [buildForwardChain, he, hi, cons_append, nil_append, append_assoc]
  rw [hlines, foldlM_line hchain rfl, foldlM_line hhook rfl, foldlM_line hstate rfl]
  have hegress := foldlM_lines cs "forward" (hc.policy_mem .egress) i u .egress (hc.rules_valid .egress)
  have hingress := foldlM_lines cs "forward" (hc.policy_mem .ingress) u i .ingress (hc.rules_valid .ingress)
  by_cases he : ∀ r ∈ c.rules .egress, r.Written .egress
  · obtain ⟨Es, hEs, hfirstE⟩ := (hegress [stateRule] _).1 he
    by_cases hi : ∀ r ∈ c.rules .ingress, r.Written .ingress
    · refine ⟨fun _ => ?_, fun hw => absurd (fun dir => ?_) hw⟩
      · obtain ⟨Is, hIs, hfirstI⟩ := (hingress ([stateRule] ++ Es) ("    \x7d" :: lines)).1 hi
        refine ⟨Es, Is, ?_, hfirstE, hfirstI⟩
        rw [nil_append, hEs, hIs, foldlM_line hclose rfl, append_assoc]
        rfl
      · cases dir with
        | egress => exact he
        | ingress => exact hi
    · refine ⟨fun hw => absurd (hw .ingress) hi, fun _ => ?_⟩
      rw [nil_append, hEs]
      exact (hingress _ _).2 hi
  · exact ⟨fun hw => absurd (hw .egress) he, fun _ => (hegress _ _).2 he⟩

def rulesetLines (i u : Iface) (subnet : String) (c : FilterConfig) : List String :=
  joinWords ["table ip", tableNameFor i.name, "\x7b"] :: "    chain postrouting \x7b" ::
    "        type nat hook postrouting priority srcnat; policy accept;" ::
    joinWords ["        oifname", quoted u.name, "ip saddr", subnet, "masquerade"] :: "    \x7d" ::
    (buildForwardChain i.name u.name (some c) ++ ["\x7d"])

theorem applyMasqueradeRules_eq (lib : Library) (i u : Iface) (subnet : String) (c : FilterConfig) :
    applyMasqueradeRules lib i.name u.name subnet (tableNameFor i.name) (some c) =
      if (lib.ipNetwork subnet).isNone then
        .error (lib.repr subnet ++ " does not appear to be an IPv4 or IPv6 network")
      else .ok (rulesetLines i u subnet c) := by
  unfold applyMasqueradeRules
  rw [validateIface_none, validateIface_none]
  rfl

theorem readRuleset_lines (hc : c.Valid lib) (hn : lib.ipNetwork subnet = some n) (i u : Iface) :
    (RulesetWritten subnet c → ∃ Es Is post, post.name = "postrouting" ∧
      readRuleset (rulesetLines i u subnet c) = some [post, ⟨"forward", stateRule :: (Es ++ Is)⟩] ∧
      (∀ p, firstMatch Es p =
        if goes i u p then some (shownVerdict lib .egress (c.policy .egress) p (c.rules .egress)) else none) ∧
      ∀ p, firstMatch Is p =
        if goes u i p then some (shownVerdict lib .ingress (c.policy .ingress) p (c.rules .ingress))
        else none) ∧
    (¬ RulesetWritten subnet c → readRuleset (rulesetLines i u subnet c) = none) := by
  have htable : readLine (joinWords ["table ip", tableNameFor i.name, "\x7b"]) =
      some (.table (tableNameFor i.name)) := by
    unfold readLine
    rw [(words_table i).1]
    simp only [(words_table i).2, if_true]
  have hchain : readLine "    chain postrouting \x7b" = some (.chain "postrouting") := by decide +kernel
  have hhook : readLine "        type nat hook postrouting priority srcnat; policy accept;" =
      some .hook := by
    decide +kernel
  have hclose : readLine "    \x7d" = some .close := by decide +kernel
  have hend : readLine "\x7d" = some .close := by decide +kernel
  have hmasq := readLine_masquerade u hn
  unfold readRuleset rulesetLines
  rw [foldlM_line htable rfl, foldlM_line hchain rfl, foldlM_line hhook rfl]
  cases hnet : readAddress subnet with
  | none =>
    refine ⟨fun hw => ?_, fun _ => ?_⟩
    · obtain ⟨net, hsome⟩ := hw.subnet
      rw [hnet] at hsome
      cases hsome
    · rw [hnet] at hmasq
      rw [foldlM_none hmasq]
  | some net =>
    rw [hnet] at hmasq
    rw [foldlM_rule hmasq, foldlM_line hclose rfl]
    have hforward := fun cs => foldlM_forward hc i u cs ["\x7d"]
    refine ⟨fun hw => ?_, fun hw => ?_⟩
    · obtain ⟨Es, Is, hfold, hfirst⟩ := (hforward _).1 hw.rules
      refine ⟨Es, Is, ⟨"postrouting", [⟨[.oifname u.name, .saddr net], .masquerade⟩]⟩, rfl, ?_, hfirst⟩
      rw [hfold, foldlM_line hend rfl]
      rfl
    · have hrules : ¬ ∀ dir, ∀ r ∈ c.rules dir, r.Written dir := fun h => hw ⟨⟨net, hnet⟩, h⟩
      rw [(hforward _).2 hrules]

end Ruleset

/-- A packet that starts a connection in the direction `dir`. -/
structure Starts (i u : Iface) (dir : Direction) (p : Packet) : Prop where
  new : p.state = .new
  iif : p.iif = (dir.from i u).name
  oif : p.oif = (dir.to i u).name

theorem verdict_forward {lib : Library} {c : FilterConfig} {u : Iface} (hne : i.name ≠ u.name) {p : Packet}
    (hp : Starts i u dir p) {Es Is : List Rule}
    (hE : firstMatch Es p =
      if goes i u p then some (shownVerdict lib .egress (c.policy .egress) p (c.rules .egress)) else none)
    (hI : firstMatch Is p =
      if goes u i p then some (shownVerdict lib .ingress (c.policy .ingress) p (c.rules .ingress))
      else none) :
    Chain.verdict ⟨"forward", stateRule :: (Es ++ Is)⟩ p =
      shownVerdict lib dir (c.policy dir) p (c.rules dir) := by
  have hstate : stateRule.holds p = false := by
    simp [stateRule, Rule.holds, Match.holds, hp.new]
  unfold Chain.verdict
  rw [firstMatch_cons, hstate, if_neg (by simp), firstMatch_append, hE, hI]
  have hiif := hp.iif
  have hoif := hp.oif
  cases dir with
  | egress =>
    have hgo : goes i u p = true := by simp [goes, hiif, hoif, Direction.to]
    rw [if_pos hgo]
    rfl
  | ingress =>
    have hgo : goes u i p = true := by simp [goes, hiif, hoif, Direction.to]
    have hback : ¬ goes i u p = true := by
      simp [goes, hiif, Ne.symm hne]
    rw [if_pos hgo, if_neg hback]
    rfl

theorem readRuleset_forward {lib : Library} {c : FilterConfig} {u : Iface} {subnet : String} {n : Network}
    (hc : c.postInit lib = none) (hne : i.name ≠ u.name) (hn : lib.ipNetwork subnet = some n) :
    (RulesetWritten subnet c → ∃ chains chain, readRuleset (rulesetLines i u subnet c) = some chains ∧
      chains.find? (·.name = "forward") = some chain ∧
      ∀ {dir p}, Starts i u dir p →
        chain.verdict p = shownVerdict lib dir (c.policy dir) p (c.rules dir)) ∧
    (¬ RulesetWritten subnet c → readRuleset (rulesetLines i u subnet c) = none) := by
  obtain ⟨haccept, hreject⟩ := readRuleset_lines (config_valid hc) hn i u
  refine ⟨fun hw => ?_, hreject⟩
  obtain ⟨Es, Is, post, hpost, hread, hE, hI⟩ := haccept hw
  refine ⟨_, _, hread, ?_, fun hp => verdict_forward hne hp (hE _) (hI _)⟩
  simp [hpost]

/-- The ruleset of `apply_masquerade_rules` is accepted, and its forward chain says about the packet
what the configuration says. -/
def Faithful (lib : Library) (i u : Iface) (subnet : String) (c : FilterConfig) (dir : Direction)
    (p : Packet) : Prop :=
  ∃ ruleset chains chain,
    applyMasqueradeRules lib i.name u.name subnet (tableNameFor i.name) (some c) = .ok ruleset ∧
    readRuleset ruleset = some chains ∧ chains.find? (·.name = "forward") = some chain ∧
    chain.verdict p = c.verdict lib dir p

/-- The ruleset is accepted and means what the configuration says exactly if every line is written as
`nft` reads it, and the address that the first matching rule does not write makes no difference. -/
theorem masquerade_faithful_iff (lib : Library) (i u : Iface) (hne : i.name ≠ u.name) (subnet : String)
    (c : FilterConfig) (hc : c.postInit lib = none) (dir : Direction) (p : Packet)
    (hp : Starts i u dir p) :
    Faithful lib i u subnet c dir p ↔
      RulesetWritten subnet c ∧ Undisturbed lib dir (c.policy dir) p (c.rules dir) := by
  unfold Faithful
  rw [applyMasqueradeRules_eq, verdict_eq, ← shownVerdict_eq_iff]
  cases hn : lib.ipNetwork subnet with
  | none =>
    constructor
    · rintro ⟨_, _, _, hok, -⟩
      cases hok
    · rintro ⟨⟨⟨net, hnet⟩, -⟩, -⟩
      rw [lib.plain hnet] at hn
      cases hn
  | some n =>
    obtain ⟨haccept, hreject⟩ := readRuleset_forward hc hne hn
    by_cases hw : RulesetWritten subnet c
    · obtain ⟨chains, chain, hread, hfind, hforward⟩ := haccept hw
      have hverdict := hforward hp
      constructor
      · rintro ⟨_, _, _, hok, hread', hfind', hsame⟩
        cases hok
        rw [hread] at hread'
        cases hread'
        rw [hfind] at hfind'
        cases hfind'
        exact ⟨hw, hverdict.symm.trans hsame⟩
      · exact fun h => ⟨_, _, _, rfl, hread, hfind, hverdict.trans h.2⟩
    · constructor
      · rintro ⟨_, _, _, hok, hread, -⟩
        cases hok
        rw [hreject hw] at hread
        cases hread
      · exact fun h => absurd h.1 hw

/-- A library that knows plain IPv4 networks only. -/
def sampleLibrary : Library where
  ipNetwork s := (readAddress s).map .v4
  plain h := by rw [h]; rfl
  spaced {s n} h hspace := by
    have hnone : readAddress s = none := by simp [readAddress, hspace]
    rw [hnone] at h
    cases h
  repr s := "'" ++ s ++ "'"

theorem readAddress_sample : readAddress "192.168.100.0/24" = some ⟨0xC0A86400, 24⟩ := by
  decide +kernel

def sampleInterface : Iface := ⟨"br-jmp", by decide, by simp [isIfaceChar]⟩

def sampleUpstream : Iface := ⟨"eth0", by decide, by simp [isIfaceChar]⟩

/-- The DUT opens a connection to a web server. -/
def samplePacket : Packet :=
  { iif := "br-jmp", oif := "eth0", saddr := 0xC0A86402, daddr := 0x0A000001, transport := .tcp 443,
    state := .new }

theorem samplePacket_starts : Starts sampleInterface sampleUpstream .egress samplePacket :=
  ⟨rfl, rfl, rfl⟩

/-- Only HTTPS to one network is allowed. -/
def sampleConfig : FilterConfig :=
  { egress := some
      { policy := "drop"
        rules := [{ action := "accept", destination := some "10.0.0.0/8", port := some 443,
                    protocol := some "tcp" }] } }

theorem sampleConfig_faithful :
    Faithful sampleLibrary sampleInterface sampleUpstream "192.168.100.0/24" sampleConfig .egress
      samplePacket := by
  refine (masquerade_faithful_iff sampleLibrary sampleInterface sampleUpstream (by decide) _ sampleConfig
    (by decide +kernel) .egress samplePacket samplePacket_starts).mpr ⟨⟨?_, ?_⟩, ?_⟩
  · exact ⟨_, readAddress_sample⟩
  · intro dir r hr
    cases dir with
    | egress =>
      obtain rfl := mem_singleton.mp hr
      exact ⟨⟨by decide, by simp⟩, by rintro a ⟨rfl⟩; exact ⟨⟨0x0A000000, 8⟩, by decide +kernel⟩⟩
    | ingress => cases hr
  · have hshown : FilterRule.shownMatches sampleLibrary
        { action := "accept", destination := some "10.0.0.0/8", port := some 443,
          protocol := some "tcp" } .egress samplePacket = true := by
      decide +kernel
    exact (if_pos hshown).mpr (.inl rfl)

/-- One DUT is cut off. The rule is written without its source, and drops the packets of all others. -/
def sourceConfig : FilterConfig :=
  { egress := some { rules := [{ action := "drop", source := some "192.168.100.7" }] } }

/-- Nothing but TCP is allowed. The protocol is written without a port, which `nft` does not read. -/
def protocolConfig : FilterConfig :=
  { egress := some { policy := "drop", rules := [{ action := "accept", protocol := some "tcp" }] } }

theorem sourceConfig_written : RulesetWritten "192.168.100.0/24" sourceConfig := by
  refine ⟨⟨_, readAddress_sample⟩, fun dir r hr => ?_⟩
  cases dir with
  | egress =>
    obtain rfl := mem_singleton.mp hr
    exact ⟨⟨by simp, by simp⟩, fun a ha => by cases ha⟩
  | ingress => cases hr

theorem protocolConfig_not_written : ¬ RulesetWritten "192.168.100.0/24" protocolConfig := by
  intro h
  exact (h.rules .egress _ mem_cons_self).protocol (by simp) rfl

theorem applyMasqueradeRules_sample (c : FilterConfig) :
    applyMasqueradeRules sampleLibrary sampleInterface.name sampleUpstream.name "192.168.100.0/24"
      (tableNameFor sampleInterface.name) (some c) =
        .ok (rulesetLines sampleInterface sampleUpstream "192.168.100.0/24" c) := by
  rw [applyMasqueradeRules_eq, sampleLibrary.plain readAddress_sample]
  rfl

/-- Both configurations are valid. The forward chain of the first one drops a packet that no rule
matches, and `nft` rejects the ruleset of the second one. -/
theorem masquerade_unfaithful :
    (sourceConfig.postInit sampleLibrary = none ∧
      sourceConfig.verdict sampleLibrary .egress samplePacket = .accept ∧
      ((applyMasqueradeRules sampleLibrary sampleInterface.name sampleUpstream.name "192.168.100.0/24"
        (tableNameFor sampleInterface.name) (some sourceConfig)).toOption.bind readRuleset).bind
          (fun chains => (chains.find? (·.name = "forward")).map (·.verdict samplePacket)) = some .drop ∧
      ¬ Faithful sampleLibrary sampleInterface sampleUpstream "192.168.100.0/24" sourceConfig .egress
        samplePacket) ∧
    protocolConfig.postInit sampleLibrary = none ∧
      (applyMasqueradeRules sampleLibrary sampleInterface.name sampleUpstream.name "192.168.100.0/24"
        (tableNameFor sampleInterface.name) (some protocolConfig)).toOption.map readRuleset = some none := by
  have hnet := sampleLibrary.plain readAddress_sample
  have hne : sampleInterface.name ≠ sampleUpstream.name := by decide
  have hsource : sourceConfig.postInit sampleLibrary = none := by decide +kernel
  have hprotocol : protocolConfig.postInit sampleLibrary = none := by decide +kernel
  have haccept : sourceConfig.verdict sampleLibrary .egress samplePacket = .accept := by decide +kernel
  have hshown : shownVerdict sampleLibrary .egress (sourceConfig.policy .egress) samplePacket
      (sourceConfig.rules .egress) = .drop := by
    decide +kernel
  obtain ⟨chains, chain, hread, hfind, hforward⟩ :=
    (readRuleset_forward hsource hne hnet).1 sourceConfig_written
  have hdrop : chain.verdict samplePacket = .drop := (hforward samplePacket_starts).trans hshown
  have hreject := (readRuleset_forward hprotocol hne hnet).2 protocolConfig_not_written
  rw [applyMasqueradeRules_sample, applyMasqueradeRules_sample]
  refine ⟨⟨hsource, haccept, ?_, ?_⟩, hprotocol, ?_⟩
  · simp only [Except.toOption, bind_some, hread, hfind, map_some, hdrop]
  · rintro ⟨ruleset, chains', chain', hok, hread', hfind', hsame⟩
    rw [applyMasqueradeRules_sample] at hok
    cases hok
    rw [hread] at hread'
    cases hread'
    rw [hfind] at hfind'
    cases hfind'
    rw [hdrop, haccept] at hsame
    cases hsame
  · simp only [Except.toOption, map_some, hreject]

end Jumpstarter.DutFilter
