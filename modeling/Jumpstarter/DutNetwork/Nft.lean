import Mathlib
import Jumpstarter.Lib.Text

/-!
# Rulesets of `nft`

The part of the language of `nft` that the generated rulesets use: a table `ip` of base chains, rules
that match interfaces, IPv4 addresses, ports and the connection state, and the statements `accept`,
`drop` and `masquerade`. A ruleset is read line by line, and a line word by word.

* `readRuleset` is `none` for a ruleset that `nft` rejects.
* `Chain.verdict` is the statement of the first rule that matches a packet, or the policy of the chain.
* `words_append`: the words of two texts with a space between them.
-/

namespace Jumpstarter.Nft

open Lib List

/-! ## Words -/

def words (s : String) : List String :=
  ((Text.splitBy (fun c _ => decide (c = ' ')) s.toList).filter (· ≠ [])).map String.ofList

theorem words_append (a b : String) : words (a ++ " " ++ b) = words a ++ words b := by
  have hlist : (a ++ " " ++ b).toList = a.toList ++ ' ' :: b.toList := by simp
  rw [words, hlist, Text.splitBy_append_sep, filter_append, map_append]
  rfl

variable {s : String}

theorem words_of_not_mem (hne : s ≠ "") (h : ' ' ∉ s.toList) : words s = [s] := by
  have hnil : s.toList ≠ [] := by simpa using hne
  rw [words, Text.splitBy_of_not_mem h]
  simp [hnil]

theorem isDigit_of_mem_repr {n : Nat} {c : Char} (h : c ∈ n.repr.toList) : c.isDigit = true := by
  rw [Nat.repr_eq_ofList_toDigits, String.toList_ofList] at h
  exact Nat.isDigit_of_mem_toDigits (by decide) (by decide) h

theorem toString_chars (n : Int) : toString n ≠ "" ∧ ∀ c ∈ (toString n).toList, c.isDigit = true ∨ c = '-' := by
  rw [Int.toString_eq_repr, Int.repr_eq_if]
  split
  · exact ⟨Nat.repr_ne_empty, fun c hc => .inl (isDigit_of_mem_repr hc)⟩
  · refine ⟨?_, fun c hc => ?_⟩
    · intro he
      have := congrArg String.toList he
      simp at this
    · rw [String.toList_append] at hc
      rcases mem_append.mp hc with hc | hc
      · right
        simpa using hc
      · exact .inl (isDigit_of_mem_repr hc)

theorem words_toString (n : Int) : words (toString n) = [toString n] := by
  refine words_of_not_mem (toString_chars n).1 fun h => ?_
  have := (toString_chars n).2 ' ' h
  revert this
  decide

/-! ## Addresses -/

/-- An IPv4 network: an address of it and the length of its mask. -/
structure Net where
  addr : Nat
  len : Nat
  deriving DecidableEq

def Net.contains (n : Net) (a : BitVec 32) : Bool :=
  a.toNat / 2 ^ (32 - n.len) = n.addr / 2 ^ (32 - n.len)

/-- The number of at most `max` with this decimal text. -/
def readNumber (max : Nat) (l : List Char) : Option Nat :=
  (List.range (max + 1)).find? fun n => n.repr.toList = l

theorem readNumber_toString (max : Nat) (n : Int) :
    readNumber max (toString n).toList = if 0 ≤ n ∧ n ≤ max then some n.toNat else none := by
  have hrepr : ∀ m : Nat, m.repr.toList = (toString n).toList ↔ (m : Int) = n := by
    intro m
    rw [String.toList_inj]
    exact Int.repr_inj (a := (m : Int))
  unfold readNumber
  split
  · rw [find?_range_eq_some]
    refine ⟨?_, by simp; omega, fun j hj => ?_⟩
    · rw [decide_eq_true_eq, hrepr]
      omega
    · simp only [hrepr, Bool.not_eq_true', decide_eq_false_iff_not]
      omega
  · rw [find?_eq_none]
    intro m hm
    simp only [hrepr, decide_eq_true_eq]
    have := mem_range.mp hm
    omega

def readOctets (l : List Char) : Option Nat :=
  match (Text.splitBy (fun c _ => decide (c = '.')) l).map (readNumber 255) with
  | [some a, some b, some c, some d] => some (((a * 256 + b) * 256 + c) * 256 + d)
  | _ => none

/-- An IPv4 address or network, which is one word. -/
def readAddress (s : String) : Option Net :=
  if ' ' ∈ s.toList then none
  else
    match Text.splitBy (fun c _ => decide (c = '/')) s.toList with
    | [addr] => (readOctets addr).map fun a => ⟨a, 32⟩
    | [addr, len] =>
      match readOctets addr, readNumber 32 len with
      | some a, some n => some ⟨a, n⟩
      | _, _ => none
    | _ => none

theorem readAddress_of_not_mem (hdot : '.' ∉ s.toList) (hslash : '/' ∉ s.toList) : readAddress s = none := by
  have hoctets : readOctets s.toList = none := by
    rw [readOctets, Text.splitBy_of_not_mem hdot]
    simp
  unfold readAddress
  split
  · rfl
  · rw [Text.splitBy_of_not_mem hslash]
    simp [hoctets]

theorem readAddress_word {net : Net} (h : readAddress s = some net) : words s = [s] := by
  have hne : s ≠ "" := by
    rintro rfl
    cases h
  unfold readAddress at h
  split at h
  · cases h
  · rename_i hspace
    exact words_of_not_mem hne hspace

/-! ## Rules -/

/-- The state of the connection of a packet. -/
inductive CtState where
  | new | established | related | invalid | untracked
  deriving DecidableEq

inductive Transport where
  | tcp (dport : BitVec 16)
  | udp (dport : BitVec 16)
  | other (protocol : Nat)
  deriving DecidableEq

structure Packet where
  iif : String
  oif : String
  saddr : BitVec 32
  daddr : BitVec 32
  transport : Transport
  state : CtState

inductive Match where
  | iifname (name : String)
  | oifname (name : String)
  | saddr (net : Net)
  | daddr (net : Net)
  | tcpDport (port : Nat)
  | udpDport (port : Nat)
  | ctState (states : List CtState)
  deriving DecidableEq

def Match.holds (p : Packet) : Match → Bool
  | .iifname name => p.iif = name
  | .oifname name => p.oif = name
  | .saddr net => net.contains p.saddr
  | .daddr net => net.contains p.daddr
  | .tcpDport port =>
    match p.transport with
    | .tcp dport => dport.toNat = port
    | _ => false
  | .udpDport port =>
    match p.transport with
    | .udp dport => dport.toNat = port
    | _ => false
  | .ctState states => states.contains p.state

@[simp] theorem holds_iifname (p : Packet) (name : String) :
    (Match.iifname name).holds p = decide (p.iif = name) := rfl

@[simp] theorem holds_oifname (p : Packet) (name : String) :
    (Match.oifname name).holds p = decide (p.oif = name) := rfl

inductive Statement where
  | accept | drop | masquerade
  deriving DecidableEq

structure Rule where
  conditions : List Match
  statement : Statement
  deriving DecidableEq

def Rule.also (r : Rule) (m : Match) : Rule := { r with conditions := m :: r.conditions }

def Rule.holds (r : Rule) (p : Packet) : Bool := r.conditions.all (·.holds p)

@[simp] theorem Rule.holds_also (r : Rule) (m : Match) (p : Packet) :
    (r.also m).holds p = (m.holds p && r.holds p) := rfl

/-- The words that the rules use, and all other words. -/
inductive Token where
  | iifname | oifname | ip | saddr | daddr | tcp | udp | dport | ct | state
  | accept | drop | masquerade
  | other (word : String)
  deriving DecidableEq

def Token.isOther : Token → Bool
  | .other _ => true
  | _ => false

/-- The words that have a token of their own. -/
def tokens : List (String × Token) :=
  [("iifname", .iifname), ("oifname", .oifname), ("ip", .ip), ("saddr", .saddr), ("daddr", .daddr),
    ("tcp", .tcp), ("udp", .udp), ("dport", .dport), ("ct", .ct), ("state", .state),
    ("accept", .accept), ("drop", .drop), ("masquerade", .masquerade)]

def keywords : List String := tokens.map Prod.fst

def lexWord (w : String) : Token := (tokens.lookup w).getD (.other w)

variable {w : String}

theorem lexWord_other (h : w ∉ keywords) : lexWord w = .other w := by
  have hnone : tokens.lookup w = none := by
    rw [lookup_eq_none_iff]
    intro p hp
    have hne : w ≠ p.1 := fun he => h (he ▸ mem_map_of_mem hp)
    simpa using hne
  rw [lexWord, hnone]
  rfl

theorem eq_of_lexWord {w' : String} (h : lexWord w = .other w') : w = w' := by
  unfold lexWord at h
  cases hl : tokens.lookup w with
  | none =>
    rw [hl] at h
    exact Token.other.inj h
  | some t =>
    obtain ⟨before, after, hsplit, -⟩ := lookup_eq_some_iff.mp hl
    have hmem : (w, t) ∈ tokens := by simp [hsplit]
    have htoken : ∀ p ∈ tokens, p.2.isOther = false := by decide
    have := htoken (w, t) hmem
    rw [hl, Option.getD_some] at h
    rw [h] at this
    cases this

theorem isLower_of_keyword : ∀ w ∈ keywords, w.toList ≠ [] ∧ ∀ c ∈ w.toList, c.isLower = true := by
  intro w hw
  simp only [keywords, tokens, map_cons, map_nil, mem_cons, not_mem_nil, or_false] at hw
  rcases hw with rfl | rfl | rfl | rfl | rfl | rfl | rfl | rfl | rfl | rfl | rfl | rfl | rfl <;> simp

theorem lexWord_toString (n : Int) : lexWord (toString n) = .other (toString n) := by
  refine lexWord_other fun h => ?_
  obtain ⟨hne, hlower⟩ := isLower_of_keyword _ h
  obtain ⟨c, hc⟩ := exists_mem_of_ne_nil _ hne
  have hl := hlower c hc
  rcases (toString_chars n).2 c hc with hd | rfl
  · simp only [Char.isLower, Char.isDigit, Bool.and_eq_true, decide_eq_true_eq, ge_iff_le,
      UInt32.le_iff_toNat_le] at hl hd
    have h9 : '9'.val.toNat = 57 := rfl
    have ha : 'a'.val.toNat = 97 := rfl
    omega
  · revert hl
    decide

theorem readAddress_keyword (h : w ∈ keywords) : readAddress w = none := by
  have hlower := (isLower_of_keyword w h).2
  refine readAddress_of_not_mem (fun hc => ?_) (fun hc => ?_)
  · exact absurd (hlower _ hc) (by decide)
  · exact absurd (hlower _ hc) (by decide)

theorem lexWord_address {net : Net} (h : readAddress w = some net) : lexWord w = .other w := by
  refine lexWord_other fun hk => ?_
  rw [readAddress_keyword hk] at h
  cases h

def quoted (name : String) : String := "\"" ++ name ++ "\""

theorem lexWord_quoted (name : String) : lexWord (quoted name) = .other (quoted name) := by
  refine lexWord_other fun h => ?_
  have hmem : '\x22' ∈ (quoted name).toList := by simp [quoted]
  have hl := (isLower_of_keyword _ h).2 _ hmem
  revert hl
  decide

def readQuoted (w : String) : Option String :=
  match w.toList with
  | '\x22' :: rest => if rest.getLast? = some '\x22' then some (String.ofList rest.dropLast) else none
  | _ => none

theorem readQuoted_quoted (name : String) : readQuoted (quoted name) = some name := by
  have hlist : (quoted name).toList = '\x22' :: (name.toList ++ ['\x22']) := by simp [quoted]
  simp [readQuoted, hlist]

def readPort (w : String) : Option Nat := readNumber 65535 w.toList

def readState : List Char → Option CtState
  | ['n', 'e', 'w'] => some .new
  | ['e', 's', 't', 'a', 'b', 'l', 'i', 's', 'h', 'e', 'd'] => some .established
  | ['r', 'e', 'l', 'a', 't', 'e', 'd'] => some .related
  | ['i', 'n', 'v', 'a', 'l', 'i', 'd'] => some .invalid
  | ['u', 'n', 't', 'r', 'a', 'c', 'k', 'e', 'd'] => some .untracked
  | _ => none

def readStates (w : String) : Option (List CtState) :=
  (Text.splitBy (fun c _ => decide (c = ',')) w.toList).mapM readState

def readRule : List Token → Option Rule
  | [.accept] => some ⟨[], .accept⟩
  | [.drop] => some ⟨[], .drop⟩
  | [.masquerade] => some ⟨[], .masquerade⟩
  | .iifname :: .other w :: rest =>
    (readQuoted w).bind fun name => (readRule rest).map (·.also (.iifname name))
  | .oifname :: .other w :: rest =>
    (readQuoted w).bind fun name => (readRule rest).map (·.also (.oifname name))
  | .ip :: .saddr :: .other w :: rest =>
    (readAddress w).bind fun net => (readRule rest).map (·.also (.saddr net))
  | .ip :: .daddr :: .other w :: rest =>
    (readAddress w).bind fun net => (readRule rest).map (·.also (.daddr net))
  | .tcp :: .dport :: .other w :: rest =>
    (readPort w).bind fun port => (readRule rest).map (·.also (.tcpDport port))
  | .udp :: .dport :: .other w :: rest =>
    (readPort w).bind fun port => (readRule rest).map (·.also (.udpDport port))
  | .ct :: .state :: .other w :: rest =>
    (readStates w).bind fun states => (readRule rest).map (·.also (.ctState states))
  | _ => none

/-! ## Rulesets -/

/-- A base chain; the policies that are read are all `accept`. -/
structure Chain where
  name : String
  rules : List Rule
  deriving DecidableEq

/-- The statement of the first rule that matches. -/
def firstMatch (rules : List Rule) (p : Packet) : Option Statement :=
  (rules.find? (·.holds p)).map (·.statement)

@[simp] theorem firstMatch_nil (p : Packet) : firstMatch [] p = none := rfl

theorem firstMatch_cons (r : Rule) (rules : List Rule) (p : Packet) :
    firstMatch (r :: rules) p = if r.holds p then some r.statement else firstMatch rules p := by
  by_cases h : r.holds p <;> simp [firstMatch, h]

theorem firstMatch_append (a b : List Rule) (p : Packet) :
    firstMatch (a ++ b) p = (firstMatch a p).or (firstMatch b p) := by
  induction a with
  | nil => rfl
  | cons r a ih =>
    rw [cons_append, firstMatch_cons, firstMatch_cons, ih]
    split <;> rfl

/-- The first rule that matches, or the policy. -/
def Chain.verdict (c : Chain) (p : Packet) : Statement := (firstMatch c.rules p).getD .accept

def isIdentifier (s : String) : Bool :=
  match s.toList with
  | c :: rest => c.isAlpha && rest.all fun c => c.isAlphanum || ['/', '-', '_', '.'].contains c
  | [] => false

inductive Line where
  | table (name : String)
  | chain (name : String)
  /-- `type … hook … priority …; policy accept;`. -/
  | hook
  | rule (r : Rule)
  | close
  deriving DecidableEq

def isHook (type hook priority : String) : Bool :=
  [("nat", "postrouting", "srcnat;"), ("filter", "forward", "filter;")].contains (type, hook, priority)

def readLine (line : String) : Option Line :=
  match words line with
  | ["table", "ip", name, "\x7b"] => if isIdentifier name then some (.table name) else none
  | ["chain", name, "\x7b"] => if isIdentifier name then some (.chain name) else none
  | ["type", type, "hook", hook, "priority", priority, "policy", "accept;"] =>
    if isHook type hook priority then some .hook else none
  | ["\x7d"] => some .close
  | ws => (readRule (ws.map lexWord)).map .rule

theorem readLine_of_words {line : String} {ws : List String} (h : words line = w :: ws)
    (hw : w ∉ ["table", "chain", "type", "\x7d"]) :
    readLine line = (readRule ((w :: ws).map lexWord)).map .rule := by
  simp only [mem_cons, not_mem_nil, or_false, not_or] at hw
  unfold readLine
  rw [h]
  split
  · rename_i heq
    exact absurd (List.cons.inj heq).1 hw.1
  · rename_i heq
    exact absurd (List.cons.inj heq).1 hw.2.1
  · rename_i heq
    exact absurd (List.cons.inj heq).1 hw.2.2.1
  · rename_i heq
    exact absurd (List.cons.inj heq).1 hw.2.2.2
  · rfl

/-- Where the reader is: before the table, in it, in a chain (with its hook or before it), after it. -/
inductive Place where
  | start
  | table (chains : List Chain)
  | opened (chains : List Chain) (name : String)
  | chain (chains : List Chain) (name : String) (rules : List Rule)
  | done (chains : List Chain)
  deriving DecidableEq

def Place.next : Place → Line → Option Place
  | .start, .table _ => some (.table [])
  | .table chains, .chain name => some (.opened chains name)
  | .table chains, .close => some (.done chains)
  | .opened chains name, .hook => some (.chain chains name [])
  | .chain chains name rules, .rule r => some (.chain chains name (rules ++ [r]))
  | .chain chains name rules, .close => some (.table (chains ++ [⟨name, rules⟩]))
  | _, _ => none

def Place.read (p : Place) (line : String) : Option Place := (readLine line).bind p.next

/-- The chains of a ruleset, or `none` if `nft` rejects it. -/
def readRuleset (lines : List String) : Option (List Chain) :=
  match lines.foldlM Place.read .start with
  | some (.done chains) => some chains
  | _ => none

end Jumpstarter.Nft
