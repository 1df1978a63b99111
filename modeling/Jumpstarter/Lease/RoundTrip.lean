import Jumpstarter.Lease.SelectorMeaning
import Jumpstarter.Lease.Times

/-!
# A lease as a message and back

`ToProtobuf` writes a lease as the message that the calls return, and `LeaseFromProtobuf` makes a lease
of a message, as `UpdateLease` does with one that a client sends back.

- `RoundTrips`: a lease that `CreateLease` made comes back from its own message, with a selector that matches
  the same label sets.
- `roundTrip_fails`: a lease without a selector, for an exporter by name, is written with the selector
  `<none>`, which does not parse. A lease with fractions of a second is stored with times that its duration
  contradicts.
- `roundTrip_iff`: the leases that have a selector (`HasSelector`) and whose stored end is their stored begin
  plus their duration (`TimesFit`).

`K8s.Formats` is what is assumed of `metav1.FormatLabelSelector`.
-/

namespace Jumpstarter

open Lib List

/-- The requirement `p` was read from the text of `r`. -/
structure Rereads (r : Requirement) (p : ParsedRequirement) : Prop where
  key : p.key = r.key
  operator : p.operator = r.operator.selection
  values : ∀ v, v ∈ p.values ↔ v ∈ r.values

variable {p : ParsedRequirement}

theorem Rereads.matches {r : Requirement} (h : Rereads r p) (ls : Labels) :
    p.matchesSet ls = r.matchesSet ls := by
  unfold ParsedRequirement.matchesSet Requirement.matchesSet
  rw [h.key, h.operator]
  cases r.operator <;> cases ls.lookup r.key <;> simp [Operator.selection, h.values]

/-- `metav1.FormatLabelSelector` and `labels.Parse` are documented to do this with the selector. -/
structure K8s.Formats (k : K8s) (sel : LabelSelector) : Prop where
  empty : sel = {} → k.formatLabelSelector sel = "<none>"
  none : ∃ err, k.parse "<none>" = .error err
  text : ∀ reqs, labelSelectorAsSelector k sel = .ok reqs → reqs ≠ [] →
    ∃ rs rs', k.parse (k.formatLabelSelector sel) = .ok (some rs) ∧ rs.Perm rs' ∧ List.Forall₂ Rereads reqs rs'

namespace ClientService

/-! ## The message -/

/-- A `Lease` message with the fields that the server sets. -/
structure LeaseReply where
  message : LeaseMessage
  conditions : List (Condition LeaseConditionType)
  effectiveBeginTime : Option Int
  effectiveEndTime : Option Int
  effectiveDuration : Option Int
  exporter : Option String

/-- `Lease.ToProtobuf`, with the clock at `now`. -/
def toProtobuf (k : K8s) (now : Int) (l : Lease) : LeaseReply where
  message :=
    { name := "namespaces/" ++ l.ns ++ "/leases/" ++ l.name
      selector := k.formatLabelSelector l.spec.selector
      client := some ("namespaces/" ++ l.ns ++ "/clients/" ++ l.spec.clientRef)
      tags := l.spec.tags
      allowDisabled := l.spec.allowDisabled
      context := l.spec.context
      exporterName := l.spec.exporterRef
      duration := l.spec.duration
      beginTime := l.spec.beginTime
      endTime := l.spec.endTime }
  conditions := l.status.conditions
  effectiveBeginTime := l.status.beginTime
  effectiveEndTime := l.status.beginTime.bind fun _ => l.status.endTime
  effectiveDuration := l.status.beginTime.map fun b => max (subTime (l.status.endTime.getD now) b) 0
  exporter := l.status.exporterRef.map fun name => "namespaces/" ++ l.ns ++ "/exporters/" ++ name

/-- The selectors match the same label sets. -/
def SameMeaning (k : K8s) (sel sel' : LabelSelector) : Prop :=
  ∃ reqs reqs', labelSelectorAsSelector k sel = .ok reqs ∧ labelSelectorAsSelector k sel' = .ok reqs' ∧
    ∀ ls, selectorMatches reqs ls = selectorMatches reqs' ls

/-- The spec comes back as it was, the selector by its meaning. -/
structure SameSpec (k : K8s) (spec spec' : LeaseSpec) : Prop where
  selector : SameMeaning k spec.selector spec'.selector
  exporterRef : spec'.exporterRef = spec.exporterRef
  allowDisabled : spec'.allowDisabled = spec.allowDisabled
  tags : spec'.tags = spec.tags
  context : spec'.context = spec.context
  times : specTimes spec' = specTimes spec

/-- `LeaseFromProtobuf` makes the lease of its own message. -/
def RoundTrips (k : K8s) (now : Int) (l : Lease) : Prop :=
  ∃ l', leaseFromProtobuf k (toProtobuf k now l).message.decode l.key l.spec.clientRef = .ok l' ∧
    SameSpec k l.spec l'.spec

def HasSelector (l : Lease) : Prop := l.spec.selector ≠ {}

/-- An end comes with a begin, and the duration is the time between. -/
def TimesFit (t : TimeFields) : Prop :=
  ∀ e, t.endTime = some e → ∃ b, t.beginTime = some b ∧ t.duration = some (subTime e b)

/-! ## The selector -/

variable {k : K8s}

theorem forall₂_matches {reqs : List Requirement} {rs : List ParsedRequirement}
    (h : List.Forall₂ Rereads reqs rs) (ls : Labels) : parsedMatches rs ls = selectorMatches reqs ls := by
  unfold parsedMatches selectorMatches
  induction h with
  | nil => rfl
  | cons hr _ ih => rw [all_cons, all_cons, hr.matches, ih]

theorem parseLabelSelector_collected (hk : k.Documented) {s : String} {sel : LabelSelector}
    (h : parseLabelSelector k s = .ok sel) :
    ∃ rs parts, Collected k rs parts ∧ sel = parts.selector := by
  unfold parseLabelSelector at h
  split at h
  · cases h
  · cases h
    exact ⟨[], {}, collected_empty k, rfl⟩
  · rename_i rs hs
    split at h
    · cases h
    · rename_i parts hloop
      cases h
      exact ⟨rs, parts, ((foldlM_collected (hk.parse s rs hs)).1 parts hloop).1, rfl⟩

theorem exists_rereads {reqs : List Requirement} {rs : List ParsedRequirement}
    (h : List.Forall₂ Rereads reqs rs) (hp : p ∈ rs) : ∃ r ∈ reqs, Rereads r p := by
  induction h with
  | nil => cases hp
  | cons hr _ ih =>
    rcases mem_cons.mp hp with rfl | hp
    · exact ⟨_, mem_cons_self, hr⟩
    · obtain ⟨r, hmem, hr⟩ := ih hp
      exact ⟨r, mem_cons_of_mem _ hmem, hr⟩

theorem selection_ne (op : Operator) : op.selection ≠ .doubleEquals ∧ op.selection ≠ .greaterThan ∧
    op.selection ≠ .lessThan := by
  cases op <;> decide

variable {parts : SelectorParts}

theorem label_of_rereads (ha : parts.Accepted k) {r : Requirement} (h : Rereads r p)
    (hr : r ∈ parts.requirements) (hp : k.Accepts p.key p.operator p.values) (he : p.IsEquality) :
    ∃ q ∈ parts.matchLabels, p.key = q.1 ∧ p.values = [q.2] := by
  have hop : p.operator = .equals := by
    refine he.resolve_right ?_
    rw [h.operator]
    exact (selection_ne r.operator).1
  obtain ⟨v, hv⟩ := hp.single (.inl hop)
  rcases mem_append.mp hr with hr | hr
  · obtain ⟨q, hq, rfl⟩ := mem_map.mp hr
    have hmem : v = q.2 := by
      have := (h.values v).mp (by rw [hv]; exact mem_singleton_self v)
      exact mem_singleton.mp this
    exact ⟨q, hq, h.key, by rw [hv, hmem]⟩
  · -- the operators of expressions are others
    obtain ⟨e, he', rfl⟩ := mem_map.mp hr
    obtain ⟨o, ho, -⟩ := expressions_accepted ha e he'
    have hsel : o.selection = .equals := by
      rw [← hop, h.operator, requirementOf, ho]
      rfl
    revert ho
    cases e.operator <;> intro ho <;> cases ho <;> cases hsel

theorem parse_format (hk : k.Documented) {rs₀ : List ParsedRequirement} (hc : Collected k rs₀ parts)
    (hf : k.Formats parts.selector) (hne : parts.requirements ≠ []) :
    ∃ sel', parseLabelSelector k (k.formatLabelSelector parts.selector) = .ok sel' ∧
      SameMeaning k parts.selector sel' := by
  have hsel := asSelector_accepted hk hc.accepted
  obtain ⟨rs, rs', hparse, hperm, hread⟩ := hf.text _ hsel hne
  have hrs := hk.parse _ rs hparse
  have hback : ∀ p ∈ rs, ∃ r ∈ parts.requirements, Rereads r p :=
    fun p hp => exists_rereads hread (hperm.mem_iff.mp hp)
  have hops : ∀ p ∈ rs, p.operator ≠ .doubleEquals ∧ p.operator ≠ .greaterThan ∧ p.operator ≠ .lessThan := by
    intro p hp
    obtain ⟨r, -, hr⟩ := hback p hp
    rw [hr.operator]
    exact selection_ne r.operator
  have hconf : ¬ Conflicting rs := by
    rintro ⟨p₁, h₁, p₂, h₂, he₁, he₂, hkey, hvalues⟩
    obtain ⟨r₁, hr₁, hread₁⟩ := hback p₁ h₁
    obtain ⟨r₂, hr₂, hread₂⟩ := hback p₂ h₂
    obtain ⟨q₁, hq₁, hk₁, hv₁⟩ := label_of_rereads hc.accepted hread₁ hr₁ (hrs p₁ h₁) he₁
    obtain ⟨q₂, hq₂, hk₂, hv₂⟩ := label_of_rereads hc.accepted hread₂ hr₂ (hrs p₂ h₂) he₂
    have hsame := hc.functional q₁ hq₁ q₂ hq₂ (by rw [← hk₁, ← hk₂, hkey])
    exact hvalues (by rw [hv₁, hv₂, hsame])
  cases hloop : rs.foldlM addRequirement {} with
  | error err =>
    rcases foldlM_rejects hrs (fun p hp => (hops p hp).2) hloop with ⟨p, hp, hd⟩ | h
    · exact absurd hd (hops p hp).1
    · exact absurd h hconf
  | ok parts' =>
    obtain ⟨hc', -⟩ := (foldlM_collected hrs).1 parts' hloop
    refine ⟨parts'.selector, ?_, _, _, hsel, asSelector_accepted hk hc'.accepted, fun ls => ?_⟩
    · unfold parseLabelSelector
      rw [hparse]
      simp only [hloop]
      rfl
    · rw [← forall₂_matches hread, Bool.eq_iff_iff, requirements_matches hc'.accepted, hc'.holds,
        parsedMatches, all_eq_true]
      exact forall_congr' fun p => imp_congr_left hperm.mem_iff.symm

theorem requirements_eq_nil : parts.requirements = [] ↔ parts.selector = {} := by
  unfold SelectorParts.requirements
  rw [append_eq_nil_iff, map_eq_nil_iff, map_eq_nil_iff]
  constructor
  · rintro ⟨hl, he⟩
    show (⟨parts.matchLabels, parts.selector.matchExpressions⟩ : LabelSelector) = _
    rw [hl, he]
  · intro h
    exact ⟨congrArg LabelSelector.matchLabels h, congrArg LabelSelector.matchExpressions h⟩

/-! ## The times -/

theorem reconcileLeaseTimeFields_self {t : TimeFields} (hpos : ∃ d, t.duration = some d ∧ 0 < d) :
    reconcileLeaseTimeFields t = .ok t ↔ TimesFit t := by
  obtain ⟨b, e, d⟩ := t
  obtain ⟨d, rfl, hd⟩ := hpos
  have hnot : ¬ d ≤ 0 := by omega
  cases e with
  | none =>
    refine iff_of_true ?_ fun e he => nomatch he
    cases b <;> simp [reconcileLeaseTimeFields, fillTimeFields, hnot]
  | some e =>
    cases b with
    | none =>
      refine iff_of_false ?_ fun h => ?_
      · simp [reconcileLeaseTimeFields, fillTimeFields, hnot, hd]
      · obtain ⟨b, hb, -⟩ := h e rfl
        cases hb
    | some b =>
      by_cases hsub : d = subTime e b
      · refine iff_of_true ?_ fun e' he' => ⟨b, rfl, ?_⟩
        · simp [reconcileLeaseTimeFields, fillTimeFields, ← hsub, hd]
        · cases he'
          rw [hsub]
      · refine iff_of_false ?_ fun h => ?_
        · simp [reconcileLeaseTimeFields, fillTimeFields, hsub, hd]
        · obtain ⟨b', hb', hd'⟩ := h e rfl
          cases hb'
          cases hd'
          exact hsub rfl

/-! ## Created leases -/

def leaseOf (req : LeaseMessage) (key : ObjectKey) (clientRef : String) (selector : LabelSelector)
    (t : TimeFields) : Lease :=
  { ns := key.ns, name := key.name, labels := leaseLabels selector.matchLabels req.tags
    spec :=
      { clientRef, duration := t.duration, selector, tags := req.tags, context := req.context
        exporterRef := req.exporterName.filter (· ≠ "")
        allowDisabled := req.allowDisabled
        beginTime := t.beginTime, endTime := t.endTime } }

variable {l : Lease}

theorem leaseFromProtobuf_iff {req : LeaseMessage} {key : ObjectKey} {clientRef : String} :
    leaseFromProtobuf k req key clientRef = .ok l ↔
      ∃ sel t, parseLabelSelector k req.selector = .ok sel ∧
        reconcileLeaseTimeFields req.times = .ok t ∧ l = leaseOf req key clientRef sel t := by
  unfold leaseFromProtobuf
  constructor
  · intro h
    split at h
    · cases h
    rename_i sel hsel
    split at h
    · cases h
    rename_i t ht
    cases h
    exact ⟨sel, t, hsel, ht, rfl⟩
  · rintro ⟨sel, t, hsel, ht, rfl⟩
    rw [hsel]
    rw [show reconcileLeaseTimeFields ⟨req.beginTime, req.endTime, req.duration⟩ = .ok t from ht]
    rfl

/-- What is known of a lease that `CreateLease` made. -/
structure Created (k : K8s) (l : Lease) : Prop where
  selector : ∃ rs parts, Collected k rs parts ∧ l.spec.selector = parts.selector
  exporterRef : l.spec.exporterRef.filter (· ≠ "") = l.spec.exporterRef
  duration : ∃ d, l.spec.duration = some d ∧ 0 < d ∧ d ≤ maxDuration

theorem created (hk : k.Documented) {maxTags : Nat} {caller : ObjectKey} {generated parent leaseId : String}
    {m : LeaseMessage}
    (h : createLease k maxTags caller generated (some ⟨parent, leaseId, some m.decode⟩) = .ok l) :
    Created k l := by
  obtain ⟨r, lease, key, l', hr, hlease, hl', rfl⟩ := createLease_request h
  cases hr
  cases hlease
  obtain ⟨sel, t, hsel, ht, rfl⟩ := leaseFromProtobuf_iff.mp hl'
  refine ⟨parseLabelSelector_collected hk hsel, ?_, ?_⟩
  · show ((m.decode.exporterName.filter _).filter _) = m.decode.exporterName.filter _
    simp
  · obtain ⟨d, hd, hpos⟩ := reconcileLeaseTimeFields_ok ht
    exact ⟨d, hd, hpos, reconcileLeaseTimeFields_range ht (fun d hd => decode_range hd) d hd⟩

theorem Created.decode (h : Created k l) (now : Int) :
    (toProtobuf k now l).message.decode = (toProtobuf k now l).message := by
  obtain ⟨d, hd, hpos, hmax⟩ := h.duration
  have hkeep : l.spec.duration.map asDuration = l.spec.duration := by
    rw [hd]
    unfold asDuration maxDuration at *
    simp only [Option.map_some, Option.some.injEq]
    omega
  unfold LeaseMessage.decode
  simp only [toProtobuf, hkeep]

theorem Created.roundTrips_iff (h : Created k l) (now : Int) :
    RoundTrips k now l ↔
      (∃ sel', parseLabelSelector k (k.formatLabelSelector l.spec.selector) = .ok sel' ∧
        SameMeaning k l.spec.selector sel') ∧
      reconcileLeaseTimeFields (specTimes l.spec) = .ok (specTimes l.spec) := by
  unfold RoundTrips
  rw [h.decode now]
  constructor
  · rintro ⟨l', hl', hsame⟩
    obtain ⟨sel', t, hsel', ht, rfl⟩ := leaseFromProtobuf_iff.mp hl'
    exact ⟨⟨sel', hsel', hsame.selector⟩, ht.trans (congrArg Except.ok hsame.times)⟩
  · rintro ⟨⟨sel', hsel', hmeans⟩, ht⟩
    exact ⟨_, leaseFromProtobuf_iff.mpr ⟨sel', _, hsel', ht, rfl⟩, hmeans, h.exporterRef, rfl, rfl,
      rfl, rfl⟩

/-- **A created lease comes back from its message** if and only if it has a selector and its stored end
is its stored begin plus its duration. -/
theorem roundTrip_iff (hk : k.Documented) {maxTags : Nat} {caller : ObjectKey}
    {generated parent leaseId : String} {m : LeaseMessage} {l : Lease}
    (h : createLease k maxTags caller generated (some ⟨parent, leaseId, some m.decode⟩) = .ok l)
    (hf : k.Formats l.spec.selector) (now : Int) :
    RoundTrips k now l ↔ HasSelector l ∧ TimesFit (specTimes l.spec) := by
  have hc := created hk h
  obtain ⟨d, hd, hpos, -⟩ := hc.duration
  rw [hc.roundTrips_iff, reconcileLeaseTimeFields_self ⟨d, hd, hpos⟩]
  refine and_congr_left fun _ => ?_
  obtain ⟨rs, parts, hcoll, hsel⟩ := hc.selector
  unfold HasSelector
  rw [hsel] at hf ⊢
  constructor
  · -- the text of the empty selector is not parsed
    rintro ⟨sel', hparse, -⟩ hempty
    obtain ⟨err, herr⟩ := hf.none
    rw [hf.empty hempty] at hparse
    simp only [parseLabelSelector, herr] at hparse
    cases hparse
  · intro hne
    exact parse_format hk hcoll hf fun h => hne (requirements_eq_nil.mp h)

/-! ## A library that reads two texts -/

/-- The requirements of the texts that `plainK8s` reads. -/
def plainRequirements : String → Option (List ParsedRequirement)
  | "" => some []
  | "board=rcar" => some [⟨"board", .equals, ["rcar"]⟩]
  | _ => none

/-- `sampleK8s` for the selectors that ask for nothing or for one board. -/
def plainK8s : K8s :=
  { sampleK8s with
    formatLabelSelector := fun sel => if sel = {} then "<none>" else "board=rcar"
    parse := fun s =>
      match plainRequirements s with
      | some rs => .ok (some rs)
      | none => .error "unable to parse requirement" }

theorem plainK8s_documented : plainK8s.Documented := by
  refine ⟨fun r => ?_, fun s rs h r hr => ?_⟩
  · rw [show plainK8s.requirementError r = sampleK8s.requirementError r from rfl,
      sampleK8s_documented.requirement]
    exact ⟨fun h => { h with }, fun h => { h with }⟩
  have hall : ∀ q ∈ rs, q.operator.allows q.values = true := by
    simp only [plainK8s, plainRequirements] at h
    split at h
    · rename_i hmatch
      cases h
      split at hmatch
      · cases hmatch
        decide
      · cases hmatch
        decide
      · cases hmatch
    · cases h
  exact ⟨rfl, hall r hr, fun _ _ => rfl⟩

theorem plainK8s_formats_none : plainK8s.Formats {} := by
  refine ⟨fun _ => rfl, ⟨_, rfl⟩, fun reqs h hne => ?_⟩
  cases h
  exact absurd rfl hne

theorem plainK8s_formats_board : plainK8s.Formats ⟨[("board", "rcar")], []⟩ := by
  refine ⟨fun h => (nomatch h), ⟨_, rfl⟩, fun reqs h _ => ?_⟩
  cases h
  exact ⟨_, _, rfl, .refl _, .cons ⟨rfl, rfl, fun _ => Iff.rfl⟩ .nil⟩

/-- The lease that the client `ann` of the lab creates. -/
def annCreates (m : LeaseMessage) : Except RpcError Lease :=
  createLease plainK8s 10 ⟨"lab", "ann"⟩ "l1" (some ⟨"namespaces/lab", "", some m.decode⟩)

/-- A request for an exporter by name, one for a board, and one for it from 101.9 s to 111.1 s. -/
def byName : LeaseMessage := { exporterName := some "rpi", duration := some (60 * minute) }

def byBoard : LeaseMessage := { selector := "board=rcar", duration := some (60 * minute) }

def byWindow : LeaseMessage :=
  { selector := "board=rcar", beginTime := some 101900000000, endTime := some 111100000000 }

/-- The lease of an exporter by name does not come back, nor does the one with fractions of a second. -/
theorem roundTrip_fails :
    (∃ l, annCreates byName = .ok l ∧
      plainK8s.Formats l.spec.selector ∧
      leaseFromProtobuf plainK8s (toProtobuf plainK8s 0 l).message.decode l.key l.spec.clientRef =
        .error "failed to parse label selector: unable to parse requirement" ∧
      ¬ RoundTrips plainK8s 0 l) ∧
    ∃ l, annCreates byWindow = .ok l ∧
      plainK8s.Formats l.spec.selector ∧
      leaseFromProtobuf plainK8s (toProtobuf plainK8s 0 l).message.decode l.key l.spec.clientRef =
        .error "duration conflicts with begin_time and end_time" ∧
      ¬ RoundTrips plainK8s 0 l := by
  have hnot : ∀ {l : Lease} {err : String}, leaseFromProtobuf plainK8s
      (toProtobuf plainK8s 0 l).message.decode l.key l.spec.clientRef = .error err →
      ¬ RoundTrips plainK8s 0 l := by
    rintro l err herr ⟨l', hl', -⟩
    rw [herr] at hl'
    cases hl'
  exact ⟨⟨_, rfl, plainK8s_formats_none, rfl, hnot rfl⟩, ⟨_, rfl, plainK8s_formats_board, rfl, hnot rfl⟩⟩

theorem roundTrip_iff_board : ∃ l, annCreates byBoard = .ok l ∧ RoundTrips plainK8s 0 l := by
  obtain ⟨l, hl, hsel, hend⟩ : ∃ l, annCreates byBoard = .ok l ∧
      l.spec.selector = ⟨[("board", "rcar")], []⟩ ∧ l.spec.endTime = none := ⟨_, rfl, rfl, rfl⟩
  have hf : plainK8s.Formats l.spec.selector := hsel ▸ plainK8s_formats_board
  refine ⟨l, hl, (roundTrip_iff plainK8s_documented hl hf 0).mpr ⟨?_, fun e he => ?_⟩⟩
  · rw [HasSelector, hsel]
    decide
  · rw [specTimes, hend] at he
    cases he

end ClientService
end Jumpstarter
