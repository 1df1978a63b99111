import Jumpstarter.Lib.Sys
import Mathlib.Data.List.Basic

/-!
# An exec session of the SSH proxy (`SSHMITM`)

`_handle_session` for an exec request, from `_proxy_channels` on: two threads that run `forward` between
the client's channel and that of the DUT, and the main thread, which joins both of them and then passes
the exit status on. The command on the DUT writes its output, ends it and exits at any time, and the
client may end its input at any time.

A channel of paramiko keeps what it has received until it is read. `close` ends both directions: what comes
later is discarded, and nothing more reaches the other side.

`session_outcome`: `forward` closes its destination when its source ends, so in no session does an exit
status reach the client. The client has received the output of a complete session exactly if none of it
came to the closed channel of the DUT (`late`).
-/

namespace Jumpstarter.SshProxy

open Lib List

abbrev Bytes := List UInt8

inductive Item where
  | data (bytes : Bytes)
  | eof
  | exit (status : Nat)

def Item.bytes : Item → Bytes
  | .data bytes => bytes
  | _ => []

def bytesOf (items : List Item) : Bytes := items.flatMap Item.bytes

@[simp] theorem bytesOf_nil : bytesOf [] = [] := rfl

@[simp] theorem bytesOf_cons (item : Item) (items : List Item) :
    bytesOf (item :: items) = item.bytes ++ bytesOf items := rfl

@[simp] theorem bytesOf_append (a b : List Item) : bytesOf (a ++ b) = bytesOf a ++ bytesOf b :=
  flatMap_append

structure Channel where
  buffer : Bytes := []
  eof : Bool := false
  closed : Bool := false

/-- A thread that runs `forward`. -/
inductive Thread where
  /-- In `src.recv`. -/
  | reading
  /-- In `dst.sendall`. -/
  | sending (data : Bytes)
  /-- In the `finally`. -/
  | closing
  | done
  deriving DecidableEq

/-- What the thread has read and not sent. -/
@[simp] def Thread.pending : Thread → Bytes
  | .sending data => data
  | _ => []

def bufferSize : Nat := 65536

/-- One step of `forward`, and the bytes that reach the other side of `dst`. -/
def forward (t : Thread) (src dst : Channel) : Option (Thread × Channel × Channel × Bytes) :=
  match t with
  | .reading =>
    if src.buffer ≠ [] then
      some (.sending (src.buffer.take bufferSize), { src with buffer := src.buffer.drop bufferSize }, dst, [])
    else if src.eof || src.closed then some (.closing, src, dst, [])
    else none
  | .sending data =>
    -- `sendall` on a closed channel raises
    if dst.closed then some (.closing, src, dst, []) else some (.reading, src, dst, data)
  | .closing => some (.done, src, { dst with closed := true }, [])
  | .done => none

inductive Main where
  | joinFirst | joinSecond
  /-- In `recv_exit_status`. -/
  | recvStatus
  | sendStatus (status : Int)
  | finished
  deriving DecidableEq

structure St where
  /-- `client_channel`. -/
  client : Channel := {}
  /-- `dut_channel`. -/
  dut : Channel := {}
  /-- The exit status that `dut_channel` has received. -/
  exitStatus : Option Nat := none
  flight : List Item := []
  /-- The thread `client→dut`. -/
  t1 : Thread := .reading
  /-- The thread `dut→client`. -/
  t2 : Thread := .reading
  main : Main := .joinFirst
  written : Bytes := []
  ended : Bool := false
  exited : Option Nat := none
  input : Bytes := []
  received : Bytes := []
  status : Option Int := none
  /-- A ghost: the output that came to the closed channel. -/
  late : Bytes := []

inductive Act where
  | clientData (bytes : Bytes)
  | clientEof
  | write (bytes : Bytes)
  | endOutput
  | exit (status : Nat)
  /-- The next item comes to `dut_channel`. -/
  | arrive
  | t1
  /-- `sendall` raises in the first thread; the DUT has closed the channel. -/
  | t1Raises
  | t2
  | main

/-- An item comes to `dut_channel`. -/
@[simp] def St.arrive (s : St) : Item → St
  | .data bytes => { s with dut := { s.dut with buffer := s.dut.buffer ++ bytes } }
  | .eof => { s with dut := { s.dut with eof := true } }
  | .exit status => { s with exitStatus := some status }

def step (s : St) : Act → Option St
  | .clientData bytes =>
    if s.client.eof then none
    else if s.client.closed then some s
    else some { s with client := { s.client with buffer := s.client.buffer ++ bytes } }
  | .clientEof => if s.client.eof then none else some { s with client := { s.client with eof := true } }
  | .write bytes =>
    if s.ended then none
    else some { s with written := s.written ++ bytes, flight := s.flight ++ [.data bytes] }
  | .endOutput => if s.ended then none else some { s with ended := true, flight := s.flight ++ [.eof] }
  | .exit status =>
    if s.exited.isSome then none
    else some { s with exited := some status, flight := s.flight ++ [.exit status] }
  | .arrive =>
    match s.flight with
    | [] => none
    | item :: rest =>
      if s.dut.closed then some { s with flight := rest, late := s.late ++ item.bytes }
      else some (St.arrive { s with flight := rest } item)
  | .t1 => (forward s.t1 s.client s.dut).map fun (t, client, dut, data) =>
      { s with t1 := t, client := client, dut := dut, input := s.input ++ data }
  | .t1Raises =>
    match s.t1 with
    | .sending _ => some { s with t1 := .closing }
    | _ => none
  | .t2 => (forward s.t2 s.dut s.client).map fun (t, dut, client, data) =>
      { s with t2 := t, dut := dut, client := client, received := s.received ++ data }
  | .main =>
    match s.main with
    | .joinFirst => if s.t1 = .done then some { s with main := .joinSecond } else none
    | .joinSecond => if s.t2 = .done then some { s with main := .recvStatus } else none
    | .recvStatus =>
      match s.exitStatus with
      | some status => some { s with main := .sendStatus status }
      -- `close` wakes the waiter, who finds no status
      | none => if s.dut.closed then some { s with main := .sendStatus (-1) } else none
    | .sendStatus status =>
      some { s with main := .finished, status := if s.client.closed then s.status else some status }
    | .finished => none

def sys : Sys St Act := ⟨fun s => s = {}, step⟩

/-! ## The property -/

/-- The command has terminated, and the proxy is done with the session. -/
structure Complete (s : St) : Prop where
  ended : s.ended = true
  exited : s.exited.isSome = true
  arrived : s.flight = []
  finished : s.main = .finished

/-- The client has all output, and the exit status. -/
structure Preserved (s : St) : Prop where
  output : s.received = s.written
  status : s.status = s.exited.map Int.ofNat

/-! ## The invariant -/

variable {s s' : St} {a : Act}

def Main.joined : Main → Bool
  | .joinFirst | .joinSecond => false
  | _ => true

structure Inv (s : St) : Prop where
  shut : s.client.closed = true ↔ s.t2 = .done
  joined : s.main.joined = true → s.t2 = .done
  status : s.status = none
  order : ∀ before after, s.flight = before ++ .eof :: after → s.ended = true ∧ bytesOf after = []
  eof : s.dut.eof = true → s.ended = true ∧ bytesOf s.flight = []
  dry : s.t2 = .closing ∨ s.t2 = .done → s.dut.buffer = [] ∧ (s.dut.eof = true ∨ s.dut.closed = true)
  late : s.dut.closed = false → s.late = []
  bytes : s.written = s.received ++ s.t2.pending ++ s.dut.buffer ++ s.late ++ bytesOf s.flight

variable {t : Thread}

theorem forward_cases {src dst : Channel} {r : Thread × Channel × Channel × Bytes}
    (h : forward t src dst = some r) :
    (t = .reading ∧ r = (.sending (src.buffer.take bufferSize),
      { src with buffer := src.buffer.drop bufferSize }, dst, [])) ∨
    (t = .reading ∧ src.buffer = [] ∧ (src.eof = true ∨ src.closed = true) ∧
      r = (.closing, src, dst, [])) ∨
    (∃ data, t = .sending data ∧ dst.closed = true ∧ r = (.closing, src, dst, [])) ∨
    (∃ data, t = .sending data ∧ dst.closed = false ∧ r = (.reading, src, dst, data)) ∨
    (t = .closing ∧ r = (.done, src, { dst with closed := true }, [])) := by
  cases t with
  | reading =>
    simp only [forward] at h
    split at h
    · exact .inl ⟨rfl, (Option.some.inj h).symm⟩
    · rename_i hempty
      split at h
      · rename_i hend
        exact .inr (.inl ⟨rfl, not_not.mp hempty, by simpa using hend, (Option.some.inj h).symm⟩)
      · cases h
  | sending data =>
    simp only [forward] at h
    split at h
    · rename_i hc
      exact .inr (.inr (.inl ⟨data, rfl, hc, (Option.some.inj h).symm⟩))
    · rename_i hc
      exact .inr (.inr (.inr (.inl ⟨data, rfl, Bool.eq_false_iff.mpr hc, (Option.some.inj h).symm⟩)))
  | closing => exact .inr (.inr (.inr (.inr ⟨rfl, (Option.some.inj h).symm⟩)))
  | done => cases h

theorem Inv.setFirst (h : Inv s) {client dut : Channel} {input : Bytes}
    (hclient : client.closed = s.client.closed) (hbuffer : dut.buffer = s.dut.buffer)
    (heof : dut.eof = s.dut.eof) (hclosed : s.dut.closed = true → dut.closed = true) :
    Inv { s with t1 := t, client := client, dut := dut, input := input } where
  __ := h
  shut := by rw [hclient]; exact h.shut
  eof he := h.eof (heof ▸ he)
  dry ht := by
    obtain ⟨hempty, hend⟩ := h.dry ht
    refine ⟨hbuffer.trans hempty, ?_⟩
    rcases hend with he | hc
    · exact .inl (heof.trans he)
    · exact .inr (hclosed hc)
  late hc := by
    refine h.late (Bool.eq_false_iff.mpr fun ht => ?_)
    rw [hclosed ht] at hc
    cases hc
  bytes := by rw [hbuffer]; exact h.bytes

theorem inv_t1 (h : Inv s) (hst : step s .t1 = some s') : Inv s' := by
  obtain ⟨r, hr, rfl⟩ := Option.map_eq_some_iff.mp hst
  obtain ⟨-, rfl⟩ | ⟨-, -, -, rfl⟩ | ⟨data, -, -, rfl⟩ | ⟨data, -, -, rfl⟩ | ⟨-, rfl⟩ :=
    forward_cases hr
  · exact h.setFirst rfl rfl rfl id
  · exact h.setFirst rfl rfl rfl id
  · exact h.setFirst rfl rfl rfl id
  · exact h.setFirst rfl rfl rfl id
  · exact h.setFirst rfl rfl rfl fun _ => rfl

theorem Inv.setSecond (h : Inv s) (hne : s.t2 ≠ .done) (ht : t ≠ .done) {dut : Channel} {received : Bytes}
    (heof : dut.eof = s.dut.eof) (hclosed : dut.closed = s.dut.closed)
    (hdry : t = .closing → dut.buffer = [] ∧ (s.dut.eof = true ∨ s.dut.closed = true))
    (hbytes : received ++ t.pending ++ dut.buffer = s.received ++ s.t2.pending ++ s.dut.buffer) :
    Inv { s with t2 := t, dut := dut, received := received } where
  __ := h
  shut := ⟨fun hc => absurd (h.shut.mp hc) hne, fun hd => absurd hd ht⟩
  joined hm := absurd (h.joined hm) hne
  eof he := h.eof (heof ▸ he)
  dry hor := by
    obtain ⟨hempty, hend⟩ := hdry (hor.resolve_right ht)
    refine ⟨hempty, ?_⟩
    rw [heof, hclosed]
    exact hend
  late hc := h.late (hclosed ▸ hc)
  bytes := by
    rw [hbytes]
    exact h.bytes

theorem inv_t2 (h : Inv s) (hst : step s .t2 = some s') : Inv s' := by
  obtain ⟨r, hr, rfl⟩ := Option.map_eq_some_iff.mp hst
  obtain ⟨ht, rfl⟩ | ⟨ht, hempty, hend, rfl⟩ | ⟨data, ht, hc, rfl⟩ | ⟨data, ht, -, rfl⟩ | ⟨ht, rfl⟩ :=
    forward_cases hr
  · have hne : s.t2 ≠ .done := by rw [ht]; nofun
    refine h.setSecond hne (t := .sending _) nofun rfl rfl nofun ?_
    rw [ht]
    simp [take_append_drop]
  · have hne : s.t2 ≠ .done := by rw [ht]; nofun
    refine h.setSecond hne (t := .closing) nofun rfl rfl (fun _ => ⟨hempty, hend⟩) ?_
    rw [ht]
    simp
  · -- only this thread closes the client's channel
    have hdone := h.shut.mp hc
    rw [ht] at hdone
    cases hdone
  · have hne : s.t2 ≠ .done := by rw [ht]; nofun
    refine h.setSecond hne (t := .reading) nofun rfl rfl nofun ?_
    rw [ht]
    simp
  · have hbytes := h.bytes
    rw [ht] at hbytes
    refine ⟨by simp, fun _ => rfl, h.status, h.order, h.eof, fun _ => h.dry (.inl ht), h.late, ?_⟩
    simpa using hbytes

theorem order_concat {flight before after : List Item} {item : Item} (hitem : item ≠ .eof)
    (h : flight ++ [item] = before ++ .eof :: after) :
    ∃ rest, after = rest ++ [item] ∧ flight = before ++ .eof :: rest := by
  rcases eq_nil_or_concat' after with rfl | ⟨rest, last, rfl⟩
  · have hlast := append_inj_right' h rfl
    exact absurd (List.cons.inj hlast).1 hitem
  · rw [← cons_append, ← append_assoc] at h
    obtain ⟨hflight, hlast⟩ := append_inj' h rfl
    obtain rfl := (List.cons.inj hlast).1
    exact ⟨rest, rfl, hflight⟩

section

variable (h : Inv s)
include h

theorem Inv.send (item : Item) (exited : Option Nat) (hitem : item ≠ .eof)
    (hended : s.ended = true → item.bytes = []) :
    Inv { s with written := s.written ++ item.bytes, exited := exited, flight := s.flight ++ [item] } where
  __ := h
  order before after hf := by
    obtain ⟨rest, rfl, hflight⟩ := order_concat hitem hf
    obtain ⟨he, hrest⟩ := h.order before rest hflight
    exact ⟨he, by simp [hrest, hended he]⟩
  eof he := by
    obtain ⟨hend, hempty⟩ := h.eof he
    exact ⟨hend, by simp [hempty, hended hend]⟩
  bytes := by
    rw [h.bytes]
    simp

theorem inv_write {bytes : Bytes} (hst : step s (.write bytes) = some s') : Inv s' := by
  simp only [step] at hst
  split at hst
  · cases hst
  · rename_i hend
    cases hst
    exact h.send (.data bytes) s.exited nofun fun he => absurd he hend

theorem inv_exit {status : Nat} (hst : step s (.exit status) = some s') : Inv s' := by
  simp only [step] at hst
  split at hst
  · cases hst
  · cases hst
    have hsend := h.send (.exit status) (some status) nofun fun _ => rfl
    simpa [Item.bytes] using hsend

theorem inv_endOutput (hst : step s .endOutput = some s') : Inv s' := by
  simp only [step] at hst
  split at hst
  · cases hst
  rename_i hend
  cases hst
  have hnoeof : ∀ before after, s.flight ≠ before ++ .eof :: after :=
    fun before after hf => hend (h.order before after hf).1
  refine { h with order := fun before after hf => ⟨rfl, ?_⟩, eof := fun he => ?_, bytes := ?_ }
  · rcases eq_nil_or_concat' after with rfl | ⟨rest, last, rfl⟩
    · rfl
    · rw [← cons_append, ← append_assoc] at hf
      exact absurd (append_inj' hf rfl).1 (hnoeof before rest)
  · exact absurd (h.eof he).1 hend
  · rw [h.bytes]
    simp [Item.bytes]

theorem inv_arrive (hst : step s .arrive = some s') : Inv s' := by
  simp only [step] at hst
  split at hst
  · cases hst
  rename_i item rest hflight
  have horder : ∀ before after, rest = before ++ .eof :: after → s.ended = true ∧ bytesOf after = [] :=
    fun before after hr => h.order (item :: before) after (by rw [hflight, hr]; rfl)
  have heof : s.dut.eof = true → s.ended = true ∧ item.bytes = [] ∧ bytesOf rest = [] := by
    intro he
    obtain ⟨hend, hempty⟩ := h.eof he
    rw [hflight, bytesOf_cons, append_eq_nil_iff] at hempty
    exact ⟨hend, hempty⟩
  have hbytes := h.bytes
  rw [hflight, bytesOf_cons] at hbytes
  split at hst
  · rename_i hclosed
    cases hst
    refine ⟨h.shut, h.joined, h.status, horder, fun he => ⟨(heof he).1, (heof he).2.2⟩, h.dry,
      fun hc => absurd hclosed (by simp [show s.dut.closed = false from hc]), ?_⟩
    simp [hbytes]
  · rename_i hclosed
    cases hst
    have hlate : s.late = [] := h.late (Bool.eq_false_iff.mpr hclosed)
    cases item with
    | data bytes =>
      refine ⟨h.shut, h.joined, h.status, horder, fun he => ⟨(heof he).1, (heof he).2.2⟩, fun ht => ?_,
        h.late, ?_⟩
      · obtain ⟨hempty, hend⟩ := h.dry ht
        have he := hend.resolve_right hclosed
        refine ⟨?_, .inl he⟩
        have hnil : bytes = [] := (heof he).2.1
        simp [hempty, hnil]
      · simp [hbytes, hlate, Item.bytes]
    | eof =>
      refine ⟨h.shut, h.joined, h.status, horder, fun _ => ?_, fun ht => ⟨(h.dry ht).1, .inl rfl⟩, h.late, ?_⟩
      · exact h.order [] rest hflight
      · simp [hbytes, hlate, Item.bytes]
    | exit status =>
      refine { h with order := horder, eof := fun he => ⟨(heof he).1, (heof he).2.2⟩, bytes := ?_ }
      simp [hbytes, hlate, Item.bytes]

theorem inv_main (hst : step s .main = some s') : Inv s' := by
  have hset : ∀ main : Main, (main.joined = true → s.t2 = .done) → Inv { s with main := main } :=
    fun main hm => { h with joined := hm }
  cases hmain : s.main <;> simp only [step, hmain] at hst
  case joinFirst =>
    split at hst <;> cases hst
    exact hset _ nofun
  case joinSecond =>
    split at hst <;> cases hst
    exact hset _ fun _ => ‹_›
  case recvStatus =>
    have hdone := h.joined (by rw [hmain]; rfl)
    split at hst
    · cases hst
      exact hset _ fun _ => hdone
    · split at hst <;> cases hst
      exact hset _ fun _ => hdone
  case sendStatus status =>
    -- the second thread is joined, so the channel is closed
    have hdone := h.joined (by rw [hmain]; rfl)
    cases hst
    simp only [h.shut.mpr hdone, if_true]
    exact hset _ fun _ => hdone
  case finished => cases hst

theorem inv_step (hst : step s a = some s') : Inv s' := by
  cases a with
  | clientData bytes =>
    simp only [step] at hst
    split at hst
    · cases hst
    · split at hst
      · cases hst
        exact h
      · cases hst
        exact h.setFirst (t := s.t1) rfl rfl rfl id
  | clientEof =>
    simp only [step] at hst
    split at hst
    · cases hst
    · cases hst
      exact h.setFirst (t := s.t1) rfl rfl rfl id
  | write bytes => exact inv_write h hst
  | endOutput => exact inv_endOutput h hst
  | exit status => exact inv_exit h hst
  | arrive => exact inv_arrive h hst
  | t1 => exact inv_t1 h hst
  | t1Raises =>
    simp only [step] at hst
    split at hst
    · cases hst
      exact h.setFirst (t := .closing) rfl rfl rfl id
    · cases hst
  | t2 => exact inv_t2 h hst
  | main => exact inv_main h hst

end

theorem inv_reach (h : sys.Reach s) : Inv s := by
  have hind : sys.InductiveIf (fun _ _ => True) Inv := by
    refine ⟨?_, fun _ _ _ hi _ hst => inv_step hi hst⟩
    rintro s rfl
    exact ⟨by simp, nofun, rfl, by simp, nofun, by simp, fun _ => rfl, rfl⟩
  exact hind.reach h

/-! ## The outcome of a session -/

/-- No exit status reaches the client, in no session. What it has received is a part of the output from
its start, and all of it in a complete session exactly if nothing came to the closed channel. -/
theorem session_outcome (s : St) (h : sys.Reach s) :
    s.status = none ∧ s.received <+: s.written ∧
      (Complete s → ¬ Preserved s ∧ (s.received = s.written ↔ s.late = [])) := by
  have hi := inv_reach h
  refine ⟨hi.status, ?_, fun hc => ⟨fun hp => ?_, ?_⟩⟩
  · rw [hi.bytes]
    simp only [append_assoc]
    exact prefix_append _ _
  · have hstatus := hp.status
    obtain ⟨n, hn⟩ := Option.isSome_iff_exists.mp hc.exited
    rw [hi.status, hn] at hstatus
    cases hstatus
  · have hdone := hi.joined (by rw [hc.finished]; rfl)
    have hbytes := hi.bytes
    rw [(hi.dry (.inr hdone)).1, hc.arrived, hdone] at hbytes
    simp only [Thread.pending, append_nil, bytesOf_nil] at hbytes
    rw [hbytes]
    simp

/-- The command writes a line and exits with code 3. The client does not end its input, and has all
output when the thread that copies it closes the client's channel. -/
def plainRun : List Act :=
  [.write [111, 107], .exit 3, .endOutput, .arrive, .arrive, .arrive, .t2, .t2, .t2, .t2, .t1, .t1, .main,
    .main, .main, .main]

theorem session_outcome_plain :
    ∃ s, Complete s ∧ s.exited = some 3 ∧ s.received = [111, 107] ∧ s.status = none := by
  obtain ⟨s, hreach, hs⟩ := Sys.Reach.exec_any (S := sys) (s := {})
    (p := fun s => s.ended && s.exited == some 3 && s.flight.isEmpty && s.main == .finished &&
      s.received == [111, 107]) (.init rfl) plainRun (by decide +kernel)
  simp only [Bool.and_eq_true, beq_iff_eq, List.isEmpty_iff] at hs
  obtain ⟨⟨⟨⟨hended, hexited⟩, hflight⟩, hmain⟩, hreceived⟩ := hs
  exact ⟨s, ⟨hended, by simp [hexited], hflight, hmain⟩, hexited, hreceived, (session_outcome s hreach).1⟩

/-- The client ends its input at once, and the channel of the DUT is closed before its output comes. -/
def closedInputRun : List Act :=
  [.clientEof, .t1, .t1, .write [111, 107], .arrive, .endOutput, .arrive, .exit 3, .arrive, .t2, .t2, .main,
    .main, .main, .main]

/-- The client gets neither the output nor the exit status. -/
theorem session_loses_output :
    ∃ s, sys.Reach s ∧ Complete s ∧ s.written = [111, 107] ∧ s.exited = some 3 ∧ s.received = [] ∧
      s.status = none ∧ ¬ Preserved s := by
  obtain ⟨s, hreach, hs⟩ := Sys.Reach.exec_any (S := sys) (s := {})
    (p := fun s => s.ended && s.exited == some 3 && s.flight.isEmpty && s.main == .finished &&
      s.received == [] && s.written == [111, 107] && s.status == none) (.init rfl) closedInputRun
    (by decide +kernel)
  simp only [Bool.and_eq_true, beq_iff_eq, List.isEmpty_iff] at hs
  obtain ⟨⟨⟨⟨⟨⟨hended, hexited⟩, hflight⟩, hmain⟩, hreceived⟩, hwritten⟩, hstatus⟩ := hs
  refine ⟨s, hreach, ⟨hended, by simp [hexited], hflight, hmain⟩, hwritten, hexited, hreceived, hstatus,
    fun hp => ?_⟩
  have houtput := hp.output
  rw [hreceived, hwritten] at houtput
  cases houtput

end Jumpstarter.SshProxy
