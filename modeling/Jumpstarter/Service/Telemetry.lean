import Jumpstarter.Lib.Text

/-!
# Log entries of exporters (`TelemetryService.PushLogs`)

An exporter pushes a batch of log entries. The service takes the identity of the exporter from its token,
drops entries that claim another one, and writes the others as records whose trusted fields it sets itself.

- `pushLogs_sound`: for a valid token every entry of the batch is accepted or dropped, the first 500 are looked
  at, and every record carries the identity of the token and extra fields within the limits, none of them with
  a reserved key (`Genuine`).
- One entry (`pushEntry_ok`) and the loop over the batch (`pushEntries_ok`) keep the counts right.
- What is left of a key that is cut has more bytes than any reserved one (`truncate_not_reserved`).

Texts are sequences of characters: the strings of a protobuf message are valid UTF-8. The pairs of a map are
listed in the order in which the loop takes them.
-/

namespace Jumpstarter.Telemetry

open Lib

/-- `maxExtraFields`, `maxKeyLen`, `maxValueLen` and `maxEntriesPerBatch`. -/
def maxExtraFields : Nat := 16
def maxKeyLen : Nat := 64
def maxValueLen : Nat := 256
def maxEntriesPerBatch : Nat := 500

@[simp] def reservedExtraFieldKeys : List String :=
  ["component", "exporter", "severity", "namespace", "ts", "lease", "client", "operation", "result",
    "driver_type"]

/-- A `LogEntry`. -/
structure LogEntry where
  timestamp : Option Int := none
  severity : String := ""
  message : String := ""
  component : String := ""
  exporter : String := ""
  lease : String := ""
  client : String := ""
  operation : String := ""
  result : String := ""
  driverType : String := ""
  extraFields : List (String × String) := []
  ns : String := ""

/-- A `PushLogsRequest`. The length of a message is sent in four bytes. -/
structure PushLogsRequest where
  entries : List LogEntry
  size : entries.length < 0x100000000

/-- What the logger writes: the level `Error` or `Info`, the message and the fields. -/
structure Record where
  isError : Bool
  message : String
  fields : List (String × String)

inductive Code where
  | invalidArgument | unauthenticated | permissionDenied
  deriving DecidableEq

structure RpcError where
  code : Code
  message : String
  deriving DecidableEq

/-- What the call uses: `Signer.ParseSubject`, `Format(time.RFC3339Nano)` of a time and `strings.ToLower`. -/
structure Env where
  parseSubject : String → Except String String
  format : Int → String
  toLower : String → String

/-! ## One entry -/

def truncate (s : String) (n : Nat) : String :=
  if s.utf8ByteSize ≤ n then s else String.ofList (Text.fitting Char.utf8Size n 0 s.toList)

def optional (key value : String) : List (String × String) :=
  if value ≠ "" then [(key, value)] else []

def trustedFields (env : Env) (ns name : String) (e : LogEntry) : List (String × String) :=
  [("component", e.component), ("exporter", name), ("namespace", ns), ("severity", e.severity)] ++
    (e.timestamp.map fun t => ("ts", env.format t)).toList ++
    optional "lease" e.lease ++ optional "client" e.client ++ optional "operation" e.operation ++
    optional "result" e.result ++ optional "driver_type" e.driverType

/-- The loop over the extra fields, after `count` of them. -/
@[simp] def takeExtraFields : Nat → List (String × String) → List (String × String)
  | _, [] => []
  | count, (k, v) :: rest =>
    if count ≥ maxExtraFields then []
    else if reservedExtraFieldKeys.contains k then takeExtraFields count rest
    else (truncate k maxKeyLen, truncate v maxValueLen) :: takeExtraFields (count + 1) rest

open List

def recordOf (env : Env) (ns name : String) (e : LogEntry) : Record where
  isError := env.toLower e.severity = "error" || env.toLower e.severity = "critical"
  message := e.message
  fields := trustedFields env ns name e ++ takeExtraFields 0 e.extraFields

/-- The counts of the response, what was written, and (a ghost) how many entries were looked at. -/
structure Batch where
  accepted : UInt32 := 0
  dropped : UInt32 := 0
  records : List Record := []
  examined : Nat := 0

def pushEntry (env : Env) (ns name : String) (b : Batch) (e : LogEntry) : Batch :=
  if e.exporter ≠ "" && e.exporter ≠ name then
    { b with dropped := b.dropped + 1, examined := b.examined + 1 }
  else if e.ns ≠ "" && e.ns ≠ ns then
    { b with dropped := b.dropped + 1, examined := b.examined + 1 }
  else
    { b with
      accepted := b.accepted + 1
      records := b.records ++ [recordOf env ns name e]
      examined := b.examined + 1 }

/-- The loop over the entries, of which those after the first 500 are dropped. -/
def pushEntries (env : Env) (ns name : String) (entries : List LogEntry) : Batch :=
  let dropped :=
    if entries.length > maxEntriesPerBatch then UInt32.ofNat (entries.length - maxEntriesPerBatch)
    else 0
  (entries.take maxEntriesPerBatch).foldl (pushEntry env ns name) { dropped }

/-! ## The call -/

/-- `BearerTokenFromContext`, for the values of the `authorization` header in the metadata. -/
def bearerTokenFromContext : Option (List String) → Except RpcError String
  | none => .error ⟨.invalidArgument, "missing metadata"⟩
  | some [] => .error ⟨.unauthenticated, "missing authorization header"⟩
  | some [authorization] =>
    if (authorization.toList.take 7).map Char.toLower = "bearer ".toList then
      .ok (String.ofList (authorization.toList.drop 7))
    else .error ⟨.invalidArgument, "malformed authorization header"⟩
  | some (_ :: _ :: _) => .error ⟨.invalidArgument, "multiple authorization headers"⟩

/-- The namespace and the name in the subject of a token. -/
def exporterIdentity (subject : String) : Except RpcError (String × String) :=
  match (Text.splitN ':' 4 subject.toList).map String.ofList with
  | [kind, ns, name, _] =>
    if kind ≠ "exporter" then .error ⟨.permissionDenied, "token is not an exporter token"⟩
    else if ns = "" || name = "" then
      .error ⟨.permissionDenied, "token has incomplete exporter identity"⟩
    else .ok (ns, name)
  | _ => .error ⟨.permissionDenied, "token is not an exporter token"⟩

def pushLogs (env : Env) (md : Option (List String)) (req : PushLogsRequest) : Except RpcError Batch := do
  let token ← bearerTokenFromContext md
  match env.parseSubject token with
  | .error err => .error ⟨.unauthenticated, "invalid token: " ++ err⟩
  | .ok subject =>
    let (ns, name) ← exporterIdentity subject
    return pushEntries env ns name req.entries

/-! ## Cut texts -/

theorem utf8ByteSize_ofList (l : List Char) : (String.ofList l).utf8ByteSize = Text.weight Char.utf8Size l := by
  induction l with
  | nil => rfl
  | cons c l ih =>
    rw [String.ofList_cons, String.utf8ByteSize_append, String.utf8ByteSize_singleton, ih, Text.weight]

/-- A cut text starts the text and has at most `n` bytes. -/
structure Cut (n : Nat) (s t : String) : Prop where
  initial : t.toList <+: s.toList
  size : t.utf8ByteSize ≤ n

theorem truncate_cut (s : String) (n : Nat) : Cut n s (truncate s n) := by
  unfold truncate
  split
  · exact ⟨prefix_rfl, ‹_›⟩
  · refine ⟨?_, ?_⟩
    · rw [String.toList_ofList]
      exact Text.fitting_isPrefix _ _ _ _
    · rw [utf8ByteSize_ofList]
      simpa using Text.fitting_le Char.utf8Size (Nat.zero_le n) s.toList

theorem truncate_not_reserved {k : String} (h : k ∉ reservedExtraFieldKeys) :
    truncate k maxKeyLen ∉ reservedExtraFieldKeys := by
  unfold truncate
  split
  · exact h
  have hsize : k.utf8ByteSize = Text.weight Char.utf8Size k.toList := by
    rw [← utf8ByteSize_ofList, String.ofList_toList]
  have hclose := Text.fitting_close Char.utf8Size_le_four (n := maxKeyLen) (b := 0) (l := k.toList) (by omega)
  rw [← utf8ByteSize_ofList] at hclose
  intro hmem
  have hshort : ∀ r ∈ reservedExtraFieldKeys, r.utf8ByteSize ≤ 11 := by decide
  have := hshort _ hmem
  unfold maxKeyLen at *
  omega

/-! ## Extra fields -/

/-- Extra fields as they may be written: few, short, cut from those of the entry, and of no reserved key. -/
structure ExtraFieldsOk (given : List (String × String)) (room : Nat) (out : List (String × String)) :
    Prop where
  few : out.length ≤ room
  cut : ∀ kv ∈ out, ∃ kv' ∈ given, Cut maxKeyLen kv'.1 kv.1 ∧ Cut maxValueLen kv'.2 kv.2
  unreserved : ∀ kv ∈ out, kv.1 ∉ reservedExtraFieldKeys

theorem takeExtraFields_ok (count : Nat) (given : List (String × String)) :
    ExtraFieldsOk given (maxExtraFields - count) (takeExtraFields count given) := by
  induction given generalizing count with
  | nil => exact ⟨Nat.zero_le _, by simp, by simp⟩
  | cons kv given ih =>
    obtain ⟨k, v⟩ := kv
    rw [takeExtraFields]
    by_cases hfull : count ≥ maxExtraFields
    · rw [if_pos hfull]
      exact ⟨Nat.zero_le _, by simp, by simp⟩
    rw [if_neg hfull]
    by_cases hres : reservedExtraFieldKeys.contains k = true
    · rw [if_pos hres]
      obtain ⟨few, cut, unreserved⟩ := ih count
      refine ⟨few, fun kv hkv => ?_, unreserved⟩
      obtain ⟨kv', hmem, hcut⟩ := cut kv hkv
      exact ⟨kv', mem_cons_of_mem _ hmem, hcut⟩
    · rw [if_neg hres]
      obtain ⟨few, cut, unreserved⟩ := ih (count + 1)
      refine ⟨?_, fun kv hkv => ?_, fun kv hkv => ?_⟩
      · rw [length_cons]
        omega
      · rcases mem_cons.mp hkv with rfl | hkv
        · exact ⟨(k, v), mem_cons_self, truncate_cut k maxKeyLen, truncate_cut v maxValueLen⟩
        · obtain ⟨kv', hmem, hcut⟩ := cut kv hkv
          exact ⟨kv', mem_cons_of_mem _ hmem, hcut⟩
      · rcases mem_cons.mp hkv with rfl | hkv
        · exact truncate_not_reserved (by simpa using hres)
        · exact unreserved kv hkv

/-! ## Records -/

/-- A record for the entry `e` that nobody but the exporter `name` of `ns` can have caused. -/
structure Genuine (ns name : String) (e : LogEntry) (r : Record) : Prop where
  exporter : ("exporter", name) ∈ r.fields ∧ ∀ v, ("exporter", v) ∈ r.fields → v = name
  ns : ("namespace", ns) ∈ r.fields ∧ ∀ v, ("namespace", v) ∈ r.fields → v = ns
  extra : ∃ trusted extra, r.fields = trusted ++ extra ∧
    (∀ kv ∈ trusted, kv.1 ∈ reservedExtraFieldKeys) ∧ ExtraFieldsOk e.extraFields maxExtraFields extra

theorem mem_optional {key value : String} {kv : String × String} (h : kv ∈ optional key value) :
    kv = (key, value) := by
  unfold optional at h
  split at h
  · exact mem_singleton.mp h
  · cases h

/-- A field that the service may set: its key is reserved, and an identity is the one of the token. -/
structure TrustedField (ns name : String) (kv : String × String) : Prop where
  reserved : kv.1 ∈ reservedExtraFieldKeys
  exporter : kv.1 = "exporter" → kv.2 = name
  ns : kv.1 = "namespace" → kv.2 = ns

theorem TrustedField.other {key : String} (ns name value : String)
    (h : key ∈ reservedExtraFieldKeys ∧ key ≠ "exporter" ∧ key ≠ "namespace") :
    TrustedField ns name (key, value) :=
  ⟨h.1, fun hkey => absurd hkey h.2.1, fun hkey => absurd hkey h.2.2⟩

variable {env : Env} {ns name : String} {e : LogEntry}

theorem trustedFields_trusted {kv : String × String} (h : kv ∈ trustedFields env ns name e) :
    TrustedField ns name kv := by
  unfold trustedFields at h
  simp only [mem_append, mem_cons, not_mem_nil, or_false, Option.mem_toList, Option.map_eq_some_iff] at h
  rcases h with (((((((rfl | rfl | rfl | rfl) | ⟨t, ht, rfl⟩) | h) | h) | h) | h) | h)
  · exact .other ns name _ (by decide)
  · exact ⟨by simp, fun _ => rfl, fun hkey => absurd hkey (by simp)⟩
  · exact ⟨by simp, fun hkey => absurd hkey (by simp), fun _ => rfl⟩
  · exact .other ns name _ (by decide)
  · exact .other ns name _ (by decide)
  all_goals
    rw [mem_optional h]
    exact .other ns name _ (by decide)

theorem recordOf_genuine (env : Env) (ns name : String) (e : LogEntry) :
    Genuine ns name e (recordOf env ns name e) := by
  have hextra := takeExtraFields_ok 0 e.extraFields
  -- a field under a reserved key is one that the service set
  have htrusted : ∀ {k v}, k ∈ reservedExtraFieldKeys → (k, v) ∈ (recordOf env ns name e).fields →
      TrustedField ns name (k, v) := by
    intro k v hres hmem
    rcases mem_append.mp hmem with hmem | hmem
    · exact trustedFields_trusted hmem
    · exact absurd hres (hextra.unreserved _ hmem)
  refine ⟨⟨?_, fun v hv => ?_⟩, ⟨?_, fun v hv => ?_⟩, ?_⟩
  · simp [recordOf, trustedFields]
  · exact (htrusted (by decide) hv).exporter rfl
  · simp [recordOf, trustedFields]
  · exact (htrusted (by decide) hv).ns rfl
  · exact ⟨_, _, rfl, fun kv hkv => (trustedFields_trusted hkv).reserved, hextra⟩

/-! ## The batch -/

def claimsOwn (ns name : String) (e : LogEntry) : Bool :=
  (e.exporter = "" || e.exporter = name) && (e.ns = "" || e.ns = ns)

theorem pushEntry_own (h : claimsOwn ns name e = true) (b : Batch) : pushEntry env ns name b e =
      { b with
        accepted := b.accepted + 1
        records := b.records ++ [recordOf env ns name e]
        examined := b.examined + 1 } := by
  simp only [claimsOwn, Bool.and_eq_true, Bool.or_eq_true, decide_eq_true_eq] at h
  rw [pushEntry, if_neg, if_neg]
  · simpa [← or_iff_not_imp_left] using h.2
  · simpa [← or_iff_not_imp_left] using h.1

theorem pushEntry_other (h : claimsOwn ns name e = false) (b : Batch) :
    pushEntry env ns name b e =
      { b with dropped := b.dropped + 1, examined := b.examined + 1 } := by
  unfold pushEntry
  split
  · rfl
  split
  · rfl
  · rename_i hexp hns
    have hown : claimsOwn ns name e = true := by
      simpa [claimsOwn, or_iff_not_imp_left] using And.intro hexp hns
    rw [hown] at h
    cases h

/-- The state of the loop after the entries `done`, `cutOff` of the batch having been dropped before it. -/
structure Done (env : Env) (ns name : String) (cutOff : Nat) (done : List LogEntry) (b : Batch) : Prop where
  accounted : b.accepted.toNat + b.dropped.toNat = cutOff + done.length
  examined : b.examined = done.length
  accepted : b.accepted.toNat = b.records.length
  records : b.records = (done.filter (claimsOwn ns name)).map (recordOf env ns name)

theorem toNat_add_one {n : UInt32} (h : n.toNat + 1 < 0x100000000) : (n + 1).toNat = n.toNat + 1 := by
  exact Nat.mod_eq_of_lt h

theorem pushEntry_ok {cutOff : Nat} {done : List LogEntry} {b : Batch} (h : Done env ns name cutOff done b)
    (e : LogEntry) (hsize : cutOff + done.length + 1 < 0x100000000) :
    Done env ns name cutOff (done ++ [e]) (pushEntry env ns name b e) := by
  have hacc := h.accounted
  cases hown : claimsOwn ns name e with
  | true =>
    have hone : (b.accepted + 1).toNat = b.accepted.toNat + 1 := toNat_add_one (by omega)
    rw [pushEntry_own hown]
    refine ⟨?_, ?_, ?_, ?_⟩
    · simp only [hone, length_append, length_singleton]
      omega
    · simp [h.examined]
    · simp [hone, h.accepted]
    · simp [h.records, filter_append, hown]
  | false =>
    have hone : (b.dropped + 1).toNat = b.dropped.toNat + 1 := toNat_add_one (by omega)
    rw [pushEntry_other hown]
    refine ⟨?_, ?_, h.accepted, ?_⟩
    · simp only [hone, length_append, length_singleton]
      omega
    · simp [h.examined]
    · simp [h.records, filter_append, hown]

theorem foldl_pushEntry_ok {cutOff : Nat} (rest : List LogEntry) {done : List LogEntry} {b : Batch}
    (h : Done env ns name cutOff done b) (hsize : cutOff + done.length + rest.length < 0x100000000) :
    Done env ns name cutOff (done ++ rest) (rest.foldl (pushEntry env ns name) b) := by
  induction rest generalizing done b with
  | nil => simpa using h
  | cons e rest ih =>
    rw [length_cons] at hsize
    have hstep := pushEntry_ok h e (by omega)
    have hrest := ih hstep (by rw [length_append, length_singleton]; omega)
    rwa [append_assoc, singleton_append] at hrest

theorem pushEntries_ok (env : Env) (ns name : String) {entries : List LogEntry}
    (hsize : entries.length < 0x100000000) :
    Done env ns name (entries.length - maxEntriesPerBatch) (entries.take maxEntriesPerBatch)
      (pushEntries env ns name entries) := by
  have hstart : Done env ns name (entries.length - maxEntriesPerBatch) []
      { dropped := if entries.length > maxEntriesPerBatch then
          UInt32.ofNat (entries.length - maxEntriesPerBatch) else 0 } := by
    refine ⟨?_, rfl, rfl, rfl⟩
    split
    · have hof : (UInt32.ofNat (entries.length - maxEntriesPerBatch)).toNat =
          entries.length - maxEntriesPerBatch :=
        UInt32.toNat_ofNat_of_lt' (Nat.lt_of_le_of_lt (Nat.sub_le _ _) hsize)
      simp [hof]
    · simp only [UInt32.toNat_zero, length_nil]
      omega
  have hlen : (entries.take maxEntriesPerBatch).length = min maxEntriesPerBatch entries.length :=
    length_take
  exact foldl_pushEntry_ok _ hstart (by simp; omega)

/-! ## The claim -/

/-- A token that `Signer` issued for the exporter `name` of `ns`: the two are names of Kubernetes objects. -/
structure ExporterToken (env : Env) (token ns name : String) : Prop where
  subject : ∃ uid, env.parseSubject token = .ok ("exporter:" ++ ns ++ ":" ++ name ++ ":" ++ uid)
  ns : ns ≠ "" ∧ ':' ∉ ns.toList
  name : name ≠ "" ∧ ':' ∉ name.toList

theorem exporterIdentity_subject {uid : String} (hns : ns ≠ "" ∧ ':' ∉ ns.toList)
    (hname : name ≠ "" ∧ ':' ∉ name.toList) :
    exporterIdentity ("exporter:" ++ ns ++ ":" ++ name ++ ":" ++ uid) = .ok (ns, name) := by
  have hlist : ("exporter:" ++ ns ++ ":" ++ name ++ ":" ++ uid).toList =
      "exporter".toList ++ ':' :: (ns.toList ++ ':' :: (name.toList ++ ':' :: uid.toList)) := by
    simp [String.toList_append]
  have hsplit : Text.splitN ':' 4 ("exporter:" ++ ns ++ ":" ++ name ++ ":" ++ uid).toList =
      ["exporter".toList, ns.toList, name.toList, uid.toList] := by
    rw [hlist, Text.splitN_append_sep (by decide), Text.splitN_append_sep hns.2,
      Text.splitN_append_sep hname.2, Text.splitN]
  rw [exporterIdentity, hsplit]
  simp [hns.1, hname.1]

/-- What the service did with a batch of the exporter `name` of `ns`. -/
structure Accounted (ns name : String) (entries : List LogEntry) (b : Batch) : Prop where
  all : b.accepted.toNat + b.dropped.toNat = entries.length
  examined : b.examined = min entries.length maxEntriesPerBatch
  written : b.records.length = b.accepted.toNat
  genuine : ∀ r ∈ b.records, ∃ e ∈ entries.take maxEntriesPerBatch, Genuine ns name e r

/-- A batch is fully accounted for, and no entry passes as one of another exporter. -/
theorem pushLogs_sound (env : Env) (md : Option (List String)) (req : PushLogsRequest)
    {token ns name : String} (hmd : bearerTokenFromContext md = .ok token)
    (htoken : ExporterToken env token ns name) :
    ∃ b, pushLogs env md req = .ok b ∧ Accounted ns name req.entries b := by
  obtain ⟨⟨uid, hsubject⟩, hns, hname⟩ := htoken
  have hrun : pushLogs env md req = .ok (pushEntries env ns name req.entries) := by
    simp only [pushLogs, hmd, bind, Except.bind, hsubject, exporterIdentity_subject hns hname]
    rfl
  refine ⟨_, hrun, ?_⟩
  have hdone := pushEntries_ok env ns name req.size
  have hlen : (req.entries.take maxEntriesPerBatch).length =
      min maxEntriesPerBatch req.entries.length := length_take
  refine ⟨?_, ?_, hdone.accepted.symm, fun r hr => ?_⟩
  · rw [hdone.accounted]
    omega
  · rw [hdone.examined, hlen, Nat.min_comm]
  · rw [hdone.records] at hr
    obtain ⟨e, he, rfl⟩ := mem_map.mp hr
    exact ⟨e, (mem_filter.mp he).1, recordOf_genuine env ns name e⟩

def piEnv : Env where
  parseSubject token := if token = "t" then .ok "exporter:lab:pi:42" else .error "unknown"
  format _ := "1970-01-01T00:00:00Z"
  toLower s := s

/-- An entry that claims another exporter, and one whose extra fields do. -/
def forged : PushLogsRequest where
  entries := [{ exporter := "tango" }, { extraFields := [("exporter", "tango"), ("board", "pi4")] }]
  size := by decide

theorem pushLogs_sound_forged :
    ExporterToken piEnv "t" "lab" "pi" ∧
      ∃ b, pushLogs piEnv (some ["Bearer t"]) forged = .ok b ∧ Accounted "lab" "pi" forged.entries b := by
  have htoken : ExporterToken piEnv "t" "lab" "pi" :=
    ⟨⟨"42", rfl⟩, ⟨by decide, by decide⟩, by decide, by decide⟩
  exact ⟨htoken, pushLogs_sound piEnv _ forged rfl htoken⟩

end Jumpstarter.Telemetry
