import Jumpstarter.Lib.Sys
import Jumpstarter.Lib.Frames
import Mathlib.Data.Prod.Lex

/-!
# The output and the exit code of a remote command

`handle_exec` of `jumpstarter-exec` after `spawn` (`src/server.rs`) and `wait_for_exit` of its client
(`src/client.rs`): the two threads of `forward_output`, the thread that waits for the child, and the client,
which reads the socket byte by byte. The child and its descendants write to the pipes, close them, and the
child exits, in any order; the client stays connected and the server is not shut down.

The threads share the socket through a mutex. `send` makes the text of a message before it takes the lock,
and writes it in pieces. A read of a pipe that is interrupted is tried again, and is no step here.

* `Framed`: what is on the socket are whole messages, in the order in which the lock was taken.
* `Told`: the messages carry what was read of the pipes, and `Exit` comes after both of them have ended.
-/

namespace Jumpstarter.ExecOutput

open Lib List Function

abbrev Bytes := List UInt8

/-! ## The messages -/

inductive ServerMessage where
  | started (pid : Nat)
  | stdout (data : String)
  | stderr (data : String)
  | exit (code : Option Int)
  | error (message : String)
  deriving DecidableEq

def ServerMessage.isTerminal : ServerMessage → Bool
  | .exit _ | .error _ => true
  | _ => false

def newline : UInt8 := 10

def carriageReturn : UInt8 := 13

/-- `base64` and `serde_json`. -/
structure Codec where
  encode : Bytes → String
  decode : String → Option Bytes
  decode_encode : ∀ bytes, decode (encode bytes) = some bytes
  toVec : ServerMessage → Bytes
  fromStr : Bytes → Option ServerMessage
  fromStr_toVec : ∀ msg, fromStr (toVec msg) = some msg
  no_newline : ∀ msg, newline ∉ toVec msg
  no_return : ∀ msg, (toVec msg).getLast? ≠ some carriageReturn

inductive Stream where
  | out | err
  deriving DecidableEq

/-- The message of `forward_output`. -/
def output : Stream → String → ServerMessage
  | .out, data => .stdout data
  | .err, data => .stderr data

def outputOf (codec : Codec) : Stream → ServerMessage → Bytes
  | .out, .stdout data | .err, .stderr data => (codec.decode data).getD []
  | _, _ => []

def outputsOf (codec : Codec) (σ : Stream) (msgs : List ServerMessage) : Bytes :=
  msgs.flatMap (outputOf codec σ)

/-! ## The threads -/

/-- Where a thread is in `send`. -/
inductive Send where
  | want (msg : ServerMessage)
  /-- In `write_all`, with the lock. -/
  | write (rest : Bytes)

/-- A thread of `forward_output`. -/
inductive Forwarder where
  | unborn
  /-- In `source.read`. -/
  | reading
  | sending (x : Send)
  | done

/-- The thread of `handle_exec`. -/
inductive Main where
  /-- It sends `Started`. -/
  | starting (x : Send)
  /-- In `child.wait`. -/
  | waiting
  | joinOut (code : Option Int)
  | joinErr (code : Option Int)
  /-- It sends `Exit`. -/
  | finishing (x : Send)
  | returned

inductive Who where
  | main
  | forwarder (σ : Stream)
  deriving DecidableEq

/-- What `wait_for_exit` returns. -/
inductive Outcome where
  | ok (code : Int)
  | err
  deriving DecidableEq

structure Client where
  line : Bytes := []
  shown : Stream → Bytes := fun _ => []
  /-- A ghost: the messages it has handled. -/
  handled : List ServerMessage := []
  result : Option Outcome := none

structure Pipe where
  bytes : Bytes := []
  closed : Bool := false

inductive ExitStatus where
  | exited (code : Int)
  | signaled (number : Nat)

def ExitStatus.code : ExitStatus → Option Int
  | .exited code => some code
  | .signaled _ => none

structure St where
  pipe : Stream → Pipe := fun _ => {}
  exited : Option ExitStatus := none
  forwarder : Stream → Forwarder := fun _ => .unborn
  main : Main
  lock : Option Who := none
  wire : Bytes := []
  client : Client := {}
  /-- A ghost: all bytes that were written to the pipes. -/
  written : Stream → Bytes := fun _ => []
  /-- A ghost: the messages for which the lock was taken, in this order. -/
  log : List ServerMessage := []

/-- Where a thread is in `send`. -/
def St.send (s : St) : Who → Option Send
  | .main => match s.main with
    | .starting x | .finishing x => some x
    | _ => none
  | .forwarder σ => match s.forwarder σ with
    | .sending x => some x
    | _ => none

/-- A thread that is in `send` moves in it. -/
@[simp] def St.setSend (s : St) (x : Send) : Who → St
  | .main => match s.main with
    | .starting _ => { s with main := .starting x }
    | _ => { s with main := .finishing x }
  | .forwarder σ => { s with forwarder := Function.update s.forwarder σ (.sending x) }

/-- `send` returns. After `Started` the other threads are spawned. -/
@[simp] def St.sent (s : St) : Who → St
  | .main => match s.main with
    | .starting _ => { s with main := .waiting, forwarder := fun _ => .reading }
    | _ => { s with main := .returned }
  | .forwarder σ => { s with forwarder := Function.update s.forwarder σ .reading }

@[simp] def Client.handle (codec : Codec) (c : Client) : ServerMessage → Client
  | .started _ => c
  | .stdout data => match codec.decode data with
    | some bytes => { c with shown := Function.update c.shown .out (c.shown .out ++ bytes) }
    | none => c
  | .stderr data => match codec.decode data with
    | some bytes => { c with shown := Function.update c.shown .err (c.shown .err ++ bytes) }
    | none => c
  | .exit code => { c with result := some (.ok (code.getD 1)) }
  | .error _ => { c with result := some (.ok 1) }

/-- `BufRead::lines` drops a carriage return before the newline. -/
def chomp (line : Bytes) : Bytes :=
  if line.getLast? = some carriageReturn then line.dropLast else line

def Client.feed (codec : Codec) (c : Client) (b : UInt8) : Client :=
  if b = newline then
    match codec.fromStr (chomp c.line) with
    | none => { c with line := [], result := some .err }
    | some msg => { c.handle codec msg with line := [], handled := c.handled ++ [msg] }
  else { c with line := c.line ++ [b] }

inductive Act where
  | write (σ : Stream) (bytes : Bytes)
  | close (σ : Stream)
  | exit (status : ExitStatus)
  | read (σ : Stream) (n : Nat)
  | eof (σ : Stream)
  | lock (who : Who)
  | push (who : Who) (n : Nat)
  | wait
  | joinOut
  | joinErr
  | consume

/-- The size of the buffer of `forward_output`. -/
def bufferSize : Nat := 4096

def step (codec : Codec) (s : St) : Act → Option St
  | .write σ bytes =>
    if (s.pipe σ).closed then none
    else some { s with
      pipe := Function.update s.pipe σ { s.pipe σ with bytes := (s.pipe σ).bytes ++ bytes }
      written := Function.update s.written σ (s.written σ ++ bytes) }
  | .close σ =>
    if (s.pipe σ).closed then none
    else some { s with pipe := Function.update s.pipe σ { s.pipe σ with closed := true } }
  | .exit status => if s.exited.isSome then none else some { s with exited := some status }
  | .read σ n => match s.forwarder σ with
    | .reading =>
      if 0 < n ∧ n ≤ bufferSize ∧ n ≤ (s.pipe σ).bytes.length then
        some { s with
          pipe := Function.update s.pipe σ { s.pipe σ with bytes := (s.pipe σ).bytes.drop n }
          forwarder := Function.update s.forwarder σ
            (.sending (.want (output σ (codec.encode ((s.pipe σ).bytes.take n))))) }
      else none
    | _ => none
  | .eof σ => match s.forwarder σ with
    | .reading =>
      if (s.pipe σ).bytes = [] ∧ (s.pipe σ).closed then
        some { s with forwarder := Function.update s.forwarder σ .done }
      else none
    | _ => none
  | .lock who => match s.lock, s.send who with
    | none, some (.want msg) =>
      some (St.setSend { s with lock := some who, log := s.log ++ [msg] }
        (.write (codec.toVec msg ++ [newline])) who)
    | _, _ => none
  | .push who n => match s.send who with
    | some (.write rest) =>
      if 0 < n ∧ n < rest.length then
        some (St.setSend { s with wire := s.wire ++ rest.take n } (.write (rest.drop n)) who)
      else if n = rest.length then
        some (St.sent { s with wire := s.wire ++ rest, lock := none } who)
      else none
    | _ => none
  | .wait => match s.main, s.exited with
    | .waiting, some status => some { s with main := .joinOut status.code }
    | _, _ => none
  | .joinOut => match s.main, s.forwarder .out with
    | .joinOut code, .done => some { s with main := .joinErr code }
    | _, _ => none
  | .joinErr => match s.main, s.forwarder .err with
    | .joinErr code, .done => some { s with main := .finishing (.want (.exit code)) }
    | _, _ => none
  | .consume => match s.client.result, s.wire with
    | none, b :: rest => some { s with wire := rest, client := s.client.feed codec b }
    | _, _ => none

def sys (codec : Codec) (pid : Nat) : Sys St Act :=
  ⟨fun s => s = { main := .starting (.want (.started pid)) }, step codec⟩

variable {codec : Codec} {s s' : St} {w w' : Who} {x : Send} {σ : Stream}

/-! ## The socket -/

/-- What the holder of the lock has still to write. -/
@[simp] def St.pending (s : St) : Bytes :=
  match s.lock with
  | none => []
  | some w => match s.send w with
    | some (.write rest) => rest
    | _ => []

/-- The threads are spawned after `Started`. -/
def St.Born (s : St) : Prop := ∀ x σ, s.main = .starting x → s.forwarder σ = .unborn

/-- What is on the socket, from what the client has read of a line to what is still to be written, are the
messages that the client has not handled. Only the holder of the lock writes. -/
structure Framed (codec : Codec) (s : St) : Prop where
  due : ∃ due, s.log = s.client.handled ++ due ∧
    s.client.line ++ (s.wire ++ s.pending) = frames codec.toVec newline due
  line : newline ∉ s.client.line
  holder : ∀ w rest, s.send w = some (.write rest) → s.lock = some w ∧ rest ≠ []
  held : ∀ w, s.lock = some w → ∃ rest, s.send w = some (.write rest)
  born : s.Born

open St

theorem send_setSend (hw : (s.send w).isSome = true) (w' : Who) :
    (s.setSend x w).send w' = if w' = w then some x else s.send w' := by
  cases w with
  | main =>
    cases hm : s.main <;> simp [send, hm] at hw <;> cases w' <;> simp [send, hm]
  | forwarder σ =>
    cases w' with
    | main => simp [send]
    | forwarder τ =>
      by_cases hτ : τ = σ
      · subst hτ
        simp [send]
      · simp [send, hτ]

theorem send_sent (hborn : s.Born) (hw : (s.send w).isSome = true) (w' : Who) :
    (s.sent w).send w' = if w' = w then none else s.send w' := by
  cases w with
  | main =>
    cases hm : s.main <;> simp [send, hm] at hw
    case starting x =>
      cases w' with
      | main => simp [send, hm]
      | forwarder τ => simp [send, hm, hborn x τ hm]
    case finishing =>
      cases w' <;> simp [send, hm]
  | forwarder σ =>
    cases w' with
    | main => simp [send]
    | forwarder τ =>
      by_cases hτ : τ = σ
      · subst hτ
        simp [send]
      · simp [send, hτ]

theorem setSend_eq (s : St) (x : Send) (w : Who) : s.setSend x w =
    { s with main := (s.setSend x w).main, forwarder := (s.setSend x w).forwarder } := by
  cases w with
  | main =>
    simp only [setSend]
    split <;> rfl
  | forwarder σ => rfl

theorem sent_eq (s : St) (w : Who) :
    s.sent w = { s with main := (s.sent w).main, forwarder := (s.sent w).forwarder } := by
  cases w with
  | main =>
    simp only [sent]
    split <;> rfl
  | forwarder σ => rfl

theorem pending_of_locked (hl : s.lock = some w) (hw : s.send w = some (.write rest)) : s.pending = rest := by
  simp [hl, hw]

theorem Framed.pending_eq (h : Framed codec s) (hw : s.send w = some (.write rest)) : s.pending = rest :=
  pending_of_locked (h.holder w rest hw).1 hw

theorem pending_of_unlocked (h : s.lock = none) : s.pending = [] := by simp [h]

theorem Framed.keep (h : Framed codec s) (hborn : s'.Born) (hlock : s'.lock = s.lock)
    (hwire : s'.wire = s.wire) (hclient : s'.client = s.client) (hlog : s'.log = s.log)
    (hsend : ∀ w rest, s'.send w = some (.write rest) ↔ s.send w = some (.write rest)) :
    Framed codec s' := by
  have hpending : s'.pending = s.pending := by
    cases hl : s.lock with
    | none => rw [pending_of_unlocked hl, pending_of_unlocked (hlock.trans hl)]
    | some w =>
      obtain ⟨rest, hrest⟩ := h.held w hl
      simp [hlock, hl, hrest, (hsend w rest).mpr hrest]
  refine ⟨?_, by rw [hclient]; exact h.line, fun w rest hw => ?_, fun w hw => ?_, hborn⟩
  · rw [hlog, hclient, hwire, hpending]
    exact h.due
  · rw [hlock]
    exact h.holder w rest ((hsend w rest).mp hw)
  · obtain ⟨rest, hrest⟩ := h.held w (hlock ▸ hw)
    exact ⟨rest, (hsend w rest).mpr hrest⟩

theorem born_setSend (h : s.Born) (hw : (s.send w).isSome = true) : (s.setSend x w).Born := by
  intro y σ hy
  cases w with
  | main =>
    cases hm : s.main <;> simp [send, hm] at hw <;> simp [hm] at hy ⊢
    exact h _ σ hm
  | forwarder τ =>
    have hunborn := h y τ hy
    simp [send, hunborn] at hw

theorem born_sent (h : s.Born) (hw : (s.send w).isSome = true) : (s.sent w).Born := by
  intro y σ hy
  cases w with
  | main => cases hm : s.main <;> simp [send, hm] at hw <;> simp [hm] at hy
  | forwarder τ =>
    have hunborn := h y τ hy
    simp [send, hunborn] at hw

variable {msg : ServerMessage}

section

variable (h : Framed codec s)
include h

theorem Framed.moved {y : Option Send} (hborn : s'.Born) (hclient : s'.client = s.client)
    (hsend : ∀ w', s'.send w' = if w' = w then y else s.send w')
    (hothers : ∀ w' rest', s.send w' = some (.write rest') → w' = w)
    (hy : y = some (.write rest) ∧ rest ≠ [] ∧ s'.lock = some w ∨ y = none ∧ rest = [] ∧ s'.lock = none)
    (hdue : ∃ due, s'.log = s.client.handled ++ due ∧
      s.client.line ++ (s'.wire ++ rest) = frames codec.toVec newline due) : Framed codec s' := by
  have hpending : s'.pending = rest := by
    rcases hy with ⟨rfl, -, hl⟩ | ⟨-, rfl, hl⟩
    · exact pending_of_locked hl (by rw [hsend, if_pos rfl])
    · exact pending_of_unlocked hl
  refine ⟨by rw [hpending, hclient]; exact hdue, by rw [hclient]; exact h.line, fun w' rest' hw' => ?_,
    fun w' hw' => ?_, hborn⟩
  · rw [hsend] at hw'
    split at hw'
    · rename_i he
      rcases hy with ⟨rfl, hne, hl⟩ | ⟨rfl, -⟩ <;> cases hw'
      exact ⟨he ▸ hl, hne⟩
    · rename_i he
      exact absurd (hothers w' rest' hw') he
  · rcases hy with ⟨rfl, -, hl⟩ | ⟨-, -, hl⟩ <;> rw [hl] at hw' <;> cases hw'
    exact ⟨rest, by rw [hsend, if_pos rfl]⟩

theorem Framed.lock (hl : s.lock = none) (hw : s.send w = some (.want msg)) :
    Framed codec (setSend { s with lock := some w, log := s.log ++ [msg] }
      (.write (codec.toVec msg ++ [newline])) w) := by
  have hsome : (s.send w).isSome = true := by rw [hw]; rfl
  obtain ⟨due, hlog, hbytes⟩ := h.due
  rw [pending_of_unlocked hl, append_nil] at hbytes
  refine h.moved (born_setSend h.born hsome) (by rw [setSend_eq]) (send_setSend hsome)
    (fun w' rest' hw' => ?_) (.inl ⟨rfl, by simp, by rw [setSend_eq]⟩) ⟨due ++ [msg], ?_, ?_⟩
  · have hold := (h.holder w' rest' hw').1
    rw [hl] at hold
    cases hold
  · rw [setSend_eq]
    simp [hlog]
  · rw [setSend_eq, frames_append, ← hbytes]
    simp

section

variable (hw : s.send w = some (.write rest))
include hw

theorem Framed.not_write (w' : Who) (rest' : Bytes) (hw' : s.send w' = some (.write rest')) : w' = w := by
  have h1 := (h.holder w rest hw).1
  have h2 := (h.holder w' rest' hw').1
  rw [h1] at h2
  exact (Option.some.inj h2).symm

theorem Framed.push (hn : 0 < n ∧ n < rest.length) :
    Framed codec (setSend { s with wire := s.wire ++ rest.take n } (.write (rest.drop n)) w) := by
  have hsome : (s.send w).isSome = true := by rw [hw]; rfl
  obtain ⟨due, hlog, hbytes⟩ := h.due
  rw [h.pending_eq hw] at hbytes
  refine h.moved (born_setSend h.born hsome) (by rw [setSend_eq]) (send_setSend hsome) (h.not_write hw)
    (.inl ⟨rfl, by simpa using hn.2, by rw [setSend_eq]; exact (h.holder w rest hw).1⟩) ⟨due, ?_, ?_⟩
  · rw [setSend_eq]
    exact hlog
  · rw [setSend_eq, ← hbytes]
    simp

theorem Framed.pushLast : Framed codec (sent { s with wire := s.wire ++ rest, lock := none } w) := by
  have hsome : (s.send w).isSome = true := by rw [hw]; rfl
  obtain ⟨due, hlog, hbytes⟩ := h.due
  rw [h.pending_eq hw] at hbytes
  refine h.moved (born_sent h.born hsome) (by rw [sent_eq]) (send_sent h.born hsome) (h.not_write hw)
    (.inr ⟨rfl, rfl, by rw [sent_eq]⟩) ⟨due, ?_, ?_⟩
  · rw [sent_eq]
    exact hlog
  · rw [sent_eq, append_nil, ← hbytes]

end

end

theorem chomp_toVec (codec : Codec) (msg : ServerMessage) : chomp (codec.toVec msg) = codec.toVec msg :=
  if_neg (codec.no_return msg)

variable {b : UInt8}

theorem Framed.consume (h : Framed codec s) (hwire : s.wire = b :: rest) :
    Framed codec { s with wire := rest, client := s.client.feed codec b } ∧
      (b = newline → ∃ msg, s.client.feed codec b = { s.client.handle codec msg with
        line := [], handled := s.client.handled ++ [msg] } ∧ s.client.handled ++ [msg] <+: s.log) ∧
      (b ≠ newline → s.client.feed codec b = { s.client with line := s.client.line ++ [b] }) := by
  obtain ⟨due, hlog, hbytes⟩ := h.due
  rw [hwire] at hbytes
  have hpending : pending { s with wire := rest, client := s.client.feed codec b } = s.pending := rfl
  by_cases hb : b = newline
  · subst hb
    obtain ⟨msg, due', rfl, hline, hrest⟩ := line_eq codec.no_newline h.line hbytes
    have hfeed : s.client.feed codec newline = { s.client.handle codec msg with
        line := [], handled := s.client.handled ++ [msg] } := by
      simp [Client.feed, hline, chomp_toVec, codec.fromStr_toVec]
    refine ⟨⟨⟨due', ?_, ?_⟩, ?_, h.holder, h.held, h.born⟩, fun _ => ⟨msg, hfeed, ?_⟩,
      fun hne => absurd rfl hne⟩
    · simp [hfeed, hlog]
    · rw [hpending, hfeed]
      simpa using hrest
    · simp [hfeed]
    · rw [hlog]
      exact ⟨due', by simp⟩
  · have hfeed : s.client.feed codec b = { s.client with line := s.client.line ++ [b] } := by
      simp [Client.feed, hb]
    refine ⟨⟨⟨due, ?_, ?_⟩, ?_, h.holder, h.held, h.born⟩, fun he => absurd he hb, fun _ => hfeed⟩
    · rw [hfeed]
      exact hlog
    · rw [hpending, hfeed, ← hbytes]
      simp
    · rw [hfeed]
      simp only [mem_append, mem_singleton, not_or]
      exact ⟨h.line, fun he => hb he.symm⟩

/-! ## The messages that are sent -/

def unsentOf (codec : Codec) (σ : Stream) : Forwarder → Bytes
  | .sending (.want msg) => outputOf codec σ msg
  | _ => []

def Main.joined : Main → Stream → Bool
  | .joinErr _, .out | .finishing _, _ | .returned, _ => true
  | _, _ => false

/-- `Exit` is in the log. -/
def Main.announced : Main → Bool
  | .finishing (.write _) | .returned => true
  | _ => false

/-- What the messages in the log say, and what is still to be said. -/
structure Told (codec : Codec) (s : St) : Prop where
  bytes : ∀ σ, s.written σ = outputsOf codec σ s.log ++ (unsentOf codec σ (s.forwarder σ) ++ (s.pipe σ).bytes)
  msg : ∀ σ msg, s.forwarder σ = .sending (.want msg) → ∃ data, msg = output σ data
  done : ∀ σ, s.forwarder σ = .done → (s.pipe σ).bytes = [] ∧ (s.pipe σ).closed = true
  joined : ∀ σ, s.main.joined σ = true → s.forwarder σ = .done
  started : ∀ msg, s.main = .starting (.want msg) → ∃ pid, msg = .started pid
  code : ∀ code, s.main = .joinOut code ∨ s.main = .joinErr code ∨
    s.main = .finishing (.want (.exit code)) → ∃ status, s.exited = some status ∧ code = status.code
  exitMsg : ∀ msg, s.main = .finishing (.want msg) → ∃ code, msg = .exit code
  quiet : s.main.announced = false → ∀ msg ∈ s.log, msg.isTerminal = false
  said : s.main.announced = true → ∃ before status, s.exited = some status ∧
    s.log = before ++ [.exit status.code] ∧ ∀ msg ∈ before, msg.isTerminal = false
  spawned : ∀ σ, s.forwarder σ = .unborn → ∃ x, s.main = .starting x

theorem outputsOf_append (codec : Codec) (σ : Stream) (a b : List ServerMessage) :
    outputsOf codec σ (a ++ b) = outputsOf codec σ a ++ outputsOf codec σ b :=
  flatMap_append

theorem outputsOf_singleton (codec : Codec) (σ : Stream) (msg : ServerMessage) :
    outputsOf codec σ [msg] = outputOf codec σ msg := by
  simp [outputsOf]

theorem outputOf_encode (codec : Codec) (σ : Stream) (bytes : Bytes) :
    outputOf codec σ (output σ (codec.encode bytes)) = bytes := by
  cases σ <;> simp [outputOf, output, codec.decode_encode]

theorem outputsOf_other (codec : Codec) {τ : Stream} (h : τ ≠ σ) {msgs : List ServerMessage}
    (hmsgs : ∀ msg ∈ msgs, ∃ data, msg = output σ data) : outputsOf codec τ msgs = [] := by
  refine flatMap_eq_nil_iff.mpr fun msg hmsg => ?_
  obtain ⟨data, rfl⟩ := hmsgs msg hmsg
  cases σ <;> cases τ <;> first | rfl | exact absurd rfl h

theorem output_not_terminal (σ : Stream) (data : String) : (output σ data).isTerminal = false := by
  cases σ <;> rfl

theorem Told.not_joined (h : Told codec s) (hσ : s.forwarder σ ≠ .done) : s.main.joined σ = false :=
  Bool.eq_false_iff.mpr fun hj => hσ (h.joined σ hj)

variable {m : Main}

theorem announced_of_not_joined (h : m.joined σ = false) : m.announced = false := by
  cases m with
  | finishing x => cases σ <;> cases h
  | returned => cases σ <;> cases h
  | _ => rfl

variable {f : Forwarder}

theorem Told.setForwarder (h : Told codec s) (hσ : s.forwarder σ ≠ .done) {p : Pipe}
    {msgs log : List ServerMessage} (hlog : log = s.log ++ msgs)
    (hmsgs : ∀ msg ∈ msgs, ∃ data, msg = output σ data) (hborn : f ≠ .unborn)
    (hmsg : ∀ msg, f = .sending (.want msg) → ∃ data, msg = output σ data)
    (hdone : f = .done → p.bytes = [] ∧ p.closed = true)
    (hbytes : outputsOf codec σ msgs ++ (unsentOf codec σ f ++ p.bytes) =
      unsentOf codec σ (s.forwarder σ) ++ (s.pipe σ).bytes) :
    Told codec { s with
      pipe := Function.update s.pipe σ p, forwarder := Function.update s.forwarder σ f, log := log } where
  __ := h
  bytes τ := by
    rw [hlog, outputsOf_append, h.bytes τ]
    by_cases hτ : τ = σ
    · subst hτ
      simp only [update_self, ← hbytes, append_assoc]
    · simp only [update_of_ne hτ, outputsOf_other codec hτ hmsgs, append_nil]
  msg τ msg hf := by
    by_cases hτ : τ = σ
    · subst hτ
      exact hmsg msg (by simpa using hf)
    · exact h.msg τ msg (by simpa [hτ] using hf)
  done τ hf := by
    by_cases hτ : τ = σ
    · subst hτ
      simpa using hdone (by simpa using hf)
    · simpa [hτ] using h.done τ (by simpa [hτ] using hf)
  joined τ hj := by
    by_cases hτ : τ = σ
    · subst hτ
      exact absurd (h.joined τ hj) hσ
    · simpa [hτ] using h.joined τ hj
  quiet ha := by
    rw [hlog]
    refine forall_mem_append.mpr ⟨h.quiet ha, fun msg hm => ?_⟩
    obtain ⟨data, rfl⟩ := hmsgs msg hm
    exact output_not_terminal σ data
  said ha := by
    rw [announced_of_not_joined (h.not_joined hσ)] at ha
    cases ha
  spawned τ hf := by
    by_cases hτ : τ = σ
    · subst hτ
      exact absurd (by simpa using hf) hborn
    · exact h.spawned τ (by simpa [hτ] using hf)

theorem Told.goOn (h : Told codec s) (hσ : s.forwarder σ ≠ .done) {msgs log : List ServerMessage}
    (hlog : log = s.log ++ msgs) (hmsgs : ∀ msg ∈ msgs, ∃ data, msg = output σ data)
    (hborn : f ≠ .unborn) (hmsg : ∀ msg, f ≠ .sending (.want msg)) (hdone : f ≠ .done)
    (hbytes : outputsOf codec σ msgs = unsentOf codec σ (s.forwarder σ)) :
    Told codec { s with forwarder := Function.update s.forwarder σ f, log := log } := by
  have hnil : unsentOf codec σ f = [] := by
    unfold unsentOf
    split
    · exact absurd rfl (hmsg _)
    · rfl
  have hset := h.setForwarder (p := s.pipe σ) hσ hlog hmsgs hborn (fun msg he => absurd he (hmsg msg))
    (fun he => absurd he hdone) (by rw [hnil, hbytes, nil_append])
  rw [update_eq_self] at hset
  exact hset

theorem Told.setMain (h : Told codec s) (hquiet : s.main.announced = false)
    (hnot : ∀ x, s.main ≠ .starting x) (hjoined : ∀ σ, m.joined σ = true → s.forwarder σ = .done)
    (hstarted : ∀ x, m ≠ .starting x)
    (hcode : ∀ code, m = .joinOut code ∨ m = .joinErr code ∨ m = .finishing (.want (.exit code)) →
      ∃ status, s.exited = some status ∧ code = status.code)
    (hexit : ∀ msg, m = .finishing (.want msg) → ∃ code, msg = .exit code) (hm : m.announced = false) :
    Told codec { s with main := m } where
  __ := h
  joined := hjoined
  started msg he := absurd he (hstarted _)
  code := hcode
  exitMsg := hexit
  quiet _ := h.quiet hquiet
  said ha := by
    rw [hm] at ha
    cases ha
  spawned σ hf := by
    obtain ⟨x, hx⟩ := h.spawned σ hf
    exact absurd hx (hnot x)

theorem Told.socket (h : Told codec s) (lock : Option Who) (wire : Bytes) (client : Client) :
    Told codec { s with lock := lock, wire := wire, client := client } :=
  { h with }

theorem forwarder_of_send (h : s.send (.forwarder σ) = some x) : s.forwarder σ = .sending x := by
  simp only [send] at h
  split at h
  · rename_i hf
    rw [hf, Option.some.inj h]
  · cases h

theorem main_of_send (h : s.send .main = some x) : s.main = .starting x ∨ s.main = .finishing x := by
  simp only [send] at h
  split at h
  · rename_i hm
    exact .inl (by rw [hm, Option.some.inj h])
  · rename_i hm
    exact .inr (by rw [hm, Option.some.inj h])
  · cases h

section

variable (h : Told codec s)
include h

theorem Told.not_unborn (hm : s.main = .finishing x) : s.forwarder σ ≠ .unborn := by
  intro hf
  obtain ⟨y, hy⟩ := h.spawned σ hf
  rw [hm] at hy
  cases hy

theorem Told.lock (hw : s.send w = some (.want msg)) :
    Told codec (setSend { s with lock := some w, log := s.log ++ [msg] } (.write rest) w) := by
  cases w with
  | main =>
    have hbytes (hnone : ∀ σ, outputOf codec σ msg = []) (σ : Stream) : s.written σ =
        outputsOf codec σ (s.log ++ [msg]) ++ (unsentOf codec σ (s.forwarder σ) ++ (s.pipe σ).bytes) := by
      rw [outputsOf_append, outputsOf_singleton, hnone, append_nil]
      exact h.bytes σ
    rcases main_of_send hw with hm | hm
    · obtain ⟨pid, rfl⟩ := h.started msg hm
      have hquiet := h.quiet (by rw [hm]; rfl)
      simp only [setSend, hm]
      exact ⟨hbytes fun σ => by cases σ <;> rfl, h.msg, h.done, nofun, nofun, nofun, nofun,
        fun _ => forall_mem_append.mpr ⟨hquiet, by simp [ServerMessage.isTerminal]⟩, nofun,
        fun _ _ => ⟨_, rfl⟩⟩
    · obtain ⟨code, rfl⟩ := h.exitMsg msg hm
      obtain ⟨status, hexited, rfl⟩ := h.code code (.inr (.inr hm))
      have hquiet := h.quiet (by rw [hm]; rfl)
      simp only [setSend, hm]
      exact ⟨hbytes fun σ => by cases σ <;> rfl, h.msg, h.done,
        fun σ _ => h.joined σ (by rw [hm]; cases σ <;> rfl), nofun, by simp, by simp, nofun,
        fun _ => ⟨s.log, status, hexited, rfl, hquiet⟩, fun σ hf => absurd hf (h.not_unborn hm)⟩
  | forwarder σ =>
    have hf := forwarder_of_send hw
    obtain ⟨data, rfl⟩ := h.msg σ msg hf
    have hlog : s.log ++ [output σ data] = s.log ++ [output σ data] := rfl
    have hgo := h.goOn (σ := σ) (f := .sending (.write rest)) (by rw [hf]; nofun) hlog
      (fun m hm => ⟨data, mem_singleton.mp hm⟩) nofun nofun nofun (by rw [hf, outputsOf_singleton]; rfl)
    exact hgo.socket _ s.wire s.client

theorem Told.written (hf : s.forwarder σ = .sending (.write rest)) (hborn : f ≠ .unborn)
    (hmsg : ∀ msg, f ≠ .sending (.want msg)) (hdone : f ≠ .done) :
    Told codec { s with forwarder := Function.update s.forwarder σ f } :=
  h.goOn (by rw [hf]; nofun) (append_nil _).symm nofun hborn hmsg hdone (by rw [hf]; rfl)

theorem Told.push {wire rest' : Bytes} (hw : s.send w = some (.write rest)) :
    Told codec (setSend { s with wire := wire } (.write rest') w) := by
  cases w with
  | main =>
    rcases main_of_send hw with hm | hm <;> simp only [setSend, hm]
    · exact ⟨h.bytes, h.msg, h.done, nofun, nofun, nofun, nofun, fun _ => h.quiet (by rw [hm]; rfl), nofun,
        fun _ _ => ⟨_, rfl⟩⟩
    · exact ⟨h.bytes, h.msg, h.done, fun σ _ => h.joined σ (by rw [hm]; cases σ <;> rfl), nofun, by simp,
        by simp, nofun, fun _ => h.said (by rw [hm]; rfl), fun σ hf => absurd hf (h.not_unborn hm)⟩
  | forwarder σ =>
    have hgo := h.written (forwarder_of_send hw) (f := .sending (.write rest')) nofun nofun nofun
    exact hgo.socket s.lock wire s.client

theorem Told.pushLast (hborn : s.Born) {wire : Bytes}
    (hw : s.send w = some (.write rest)) : Told codec (sent { s with wire := wire, lock := none } w) := by
  cases w with
  | main =>
    rcases main_of_send hw with hm | hm <;> simp only [sent, hm]
    · refine ⟨fun σ => ?_, nofun, nofun, nofun, nofun, nofun, nofun, fun _ => h.quiet (by rw [hm]; rfl), nofun,
        nofun⟩
      have hbytes := h.bytes σ
      rw [hborn _ σ hm] at hbytes
      exact hbytes
    · exact ⟨h.bytes, h.msg, h.done, fun σ _ => h.joined σ (by rw [hm]; cases σ <;> rfl), nofun, nofun, nofun,
        nofun, fun _ => h.said (by rw [hm]; rfl), fun σ hf => absurd hf (h.not_unborn hm)⟩
  | forwarder σ =>
    have hgo := h.written (forwarder_of_send hw) (f := .reading) nofun nofun nofun
    exact hgo.socket none wire s.client

theorem Told.setPipe (hopen : ¬ (s.pipe σ).closed = true) {p : Pipe} {bytes : Bytes}
    (hp : p.bytes = (s.pipe σ).bytes ++ bytes) {written : Stream → Bytes}
    (hwritten : written = Function.update s.written σ (s.written σ ++ bytes)) :
    Told codec { s with pipe := Function.update s.pipe σ p, written := written } := by
  refine { h with bytes := fun τ => ?_, done := fun τ hd => ?_ }
  · rw [hwritten]
    by_cases hτ : τ = σ
    · subst hτ
      simp only [update_self, h.bytes τ, hp, append_assoc]
    · simp only [update_of_ne hτ]
      exact h.bytes τ
  · by_cases hτ : τ = σ
    · subst hτ
      exact absurd (h.done τ hd).2 hopen
    · simpa [hτ] using h.done τ hd

end

/-! ## The client -/

/-- What the client has done with the messages that it has handled. -/
structure Shown (codec : Codec) (s : St) : Prop where
  shown : ∀ σ, s.client.shown σ = outputsOf codec σ s.client.handled
  running : s.client.result = none → ∀ msg ∈ s.client.handled, msg.isTerminal = false
  ended : ∀ r, s.client.result = some r → ∃ before code, s.client.handled = before ++ [.exit code] ∧
    (∀ msg ∈ before, msg.isTerminal = false) ∧ r = .ok (code.getD 1)

theorem handle_shown (codec : Codec) (c : Client) (msg : ServerMessage) (σ : Stream) :
    (c.handle codec msg).shown σ = c.shown σ ++ outputOf codec σ msg := by
  cases msg with
  | stdout data =>
    cases hd : codec.decode data <;> cases σ <;> simp [outputOf, hd]
  | stderr data =>
    cases hd : codec.decode data <;> cases σ <;> simp [outputOf, hd]
  | started | exit | error => cases σ <;> simp [outputOf]

theorem handle_result (h : msg.isTerminal = false) (c : Client) : (c.handle codec msg).result = c.result := by
  cases msg with
  | stdout data => cases hd : codec.decode data <;> simp [hd]
  | stderr data => cases hd : codec.decode data <;> simp [hd]
  | started => rfl
  | exit | error => cases h

theorem Told.exit_of_terminal (h : Told codec s) (hmem : msg ∈ s.log) (ht : msg.isTerminal = true) :
    ∃ code, msg = .exit code := by
  cases ha : s.main.announced with
  | false =>
    rw [h.quiet ha msg hmem] at ht
    cases ht
  | true =>
    obtain ⟨before, status, -, hlog, hbefore⟩ := h.said ha
    rw [hlog] at hmem
    rcases mem_append.mp hmem with hm | hm
    · rw [hbefore msg hm] at ht
      cases ht
    · exact ⟨_, mem_singleton.mp hm⟩

theorem Shown.consume (h : Shown codec s) (hf : Framed codec s) (ht : Told codec s)
    (hwire : s.wire = b :: rest) (hresult : s.client.result = none) :
    Shown codec { s with wire := rest, client := s.client.feed codec b } := by
  obtain ⟨-, hline, hbyte⟩ := hf.consume hwire
  by_cases hb : b = newline
  · obtain ⟨msg, hfeed, hlog⟩ := hline hb
    have hrun := h.running hresult
    cases hterm : msg.isTerminal with
    | false =>
      have hnone : (s.client.handle codec msg).result = none := (handle_result hterm s.client).trans hresult
      refine ⟨fun σ => ?_, fun _ => ?_, fun r hr => ?_⟩
      · rw [hfeed]
        simp only [handle_shown, h.shown, outputsOf_append, outputsOf_singleton]
      · rw [hfeed]
        exact forall_mem_append.mpr ⟨hrun, by simp [hterm]⟩
      · rw [hfeed] at hr
        simp only [hnone] at hr
        cases hr
    | true =>
      obtain ⟨code, rfl⟩ := ht.exit_of_terminal (hlog.subset (by simp)) hterm
      refine ⟨fun σ => ?_, fun hr => ?_, fun r hr => ?_⟩
      · rw [hfeed]
        simp only [handle_shown, h.shown, outputsOf_append, outputsOf_singleton]
      · rw [hfeed] at hr
        cases hr
      · rw [hfeed] at hr ⊢
        exact ⟨s.client.handled, code, rfl, hrun, (Option.some.inj hr).symm⟩
  · rw [hbyte hb]
    exact { h with }

theorem Shown.keep (h : Shown codec s) (hclient : s'.client = s.client) : Shown codec s' := by
  refine ⟨?_, ?_, ?_⟩ <;> rw [hclient]
  · exact h.shown
  · exact h.running
  · exact h.ended

/-! ## The invariant -/

structure Inv (codec : Codec) (s : St) : Prop where
  framed : Framed codec s
  told : Told codec s
  shown : Shown codec s

section

variable (h : Inv codec s)
include h

theorem Inv.keep (ht : Told codec s') (hborn : s'.Born) (hlock : s'.lock = s.lock)
    (hwire : s'.wire = s.wire) (hclient : s'.client = s.client) (hlog : s'.log = s.log)
    (hsend : ∀ w rest, s'.send w = some (.write rest) ↔ s.send w = some (.write rest)) : Inv codec s' :=
  ⟨h.framed.keep hborn hlock hwire hclient hlog hsend, ht, h.shown.keep hclient⟩

theorem Inv.setForwarder (hσ : s.forwarder σ = .reading) {p : Pipe}
    (hf : ∀ rest, f ≠ .sending (.write rest)) (ht : Told codec { s with
      pipe := Function.update s.pipe σ p, forwarder := Function.update s.forwarder σ f }) :
    Inv codec { s with
      pipe := Function.update s.pipe σ p, forwarder := Function.update s.forwarder σ f } := by
  refine h.keep ht (fun x τ hm => ?_) rfl rfl rfl rfl fun w rest => ?_
  · have hunborn := h.framed.born x σ hm
    rw [hσ] at hunborn
    cases hunborn
  · cases w with
    | main => exact Iff.rfl
    | forwarder τ =>
      by_cases hτ : τ = σ
      · subst hτ
        simp only [send, update_self, hσ]
        refine ⟨fun hs => ?_, nofun⟩
        split at hs
        · exact absurd (by rw [Option.some.inj hs]) (hf rest)
        · cases hs
      · simp [send, hτ]

theorem Inv.setMain (hs : s.send .main = none) (hm : ∀ x, m ≠ .starting x)
    (hwrite : ∀ rest, m ≠ .finishing (.write rest)) (ht : Told codec { s with main := m }) :
    Inv codec { s with main := m } := by
  refine h.keep ht (fun x σ he => absurd he (hm x)) rfl rfl rfl rfl fun w rest => ?_
  cases w with
  | main =>
    rw [hs]
    refine ⟨fun he => ?_, nofun⟩
    rcases main_of_send he with he | he
    · exact absurd he (hm _)
    · exact absurd he (hwrite _)
  | forwarder τ => exact Iff.rfl

theorem inv_write {bytes : Bytes} (hst : step codec s (.write σ bytes) = some s') : Inv codec s' := by
  simp only [step] at hst
  split at hst
  · cases hst
  rename_i hopen
  cases hst
  exact h.keep (h.told.setPipe hopen rfl rfl) h.framed.born rfl rfl rfl rfl fun _ _ => Iff.rfl

theorem inv_close (hst : step codec s (.close σ) = some s') : Inv codec s' := by
  simp only [step] at hst
  split at hst
  · cases hst
  rename_i hopen
  cases hst
  have hwritten : s.written = Function.update s.written σ (s.written σ ++ []) := by simp
  have ht := h.told.setPipe (p := { s.pipe σ with closed := true }) hopen (append_nil _).symm hwritten
  exact h.keep ht h.framed.born rfl rfl rfl rfl fun _ _ => Iff.rfl

theorem inv_exit {status : ExitStatus} (hst : step codec s (.exit status) = some s') : Inv codec s' := by
  simp only [step] at hst
  split at hst
  · cases hst
  rename_i hnone
  cases hst
  have ht := h.told
  refine h.keep { ht with code := fun code hc => ?_, said := fun ha => ?_ } h.framed.born rfl rfl rfl rfl
    fun _ _ => Iff.rfl
  · obtain ⟨st, hst, -⟩ := ht.code code hc
    simp [hst] at hnone
  · obtain ⟨-, st, hst, -⟩ := ht.said ha
    simp [hst] at hnone

theorem inv_read (hst : step codec s (.read σ n) = some s') : Inv codec s' := by
  simp only [step] at hst
  split at hst
  · rename_i hf
    split at hst
    · cases hst
      refine h.setForwarder hf nofun (h.told.setForwarder (by rw [hf]; nofun) (append_nil _).symm nofun
        nofun ?_ nofun ?_)
      · rintro msg ⟨rfl⟩
        exact ⟨_, rfl⟩
      · rw [hf]
        simp [outputsOf, unsentOf, outputOf_encode, take_append_drop]
    · cases hst
  · cases hst

theorem inv_eof (hst : step codec s (.eof σ) = some s') : Inv codec s' := by
  simp only [step] at hst
  split at hst
  · rename_i hf
    split at hst
    · rename_i hend
      cases hst
      have hset := h.setForwarder (p := s.pipe σ) (f := .done) hf nofun
        (h.told.setForwarder (by rw [hf]; nofun) (append_nil _).symm nofun nofun nofun (fun _ => hend)
          (by rw [hf]; rfl))
      rw [update_eq_self] at hset
      exact hset
    · cases hst
  · cases hst

theorem inv_lock (hst : step codec s (.lock w) = some s') : Inv codec s' := by
  simp only [step] at hst
  split at hst
  · rename_i msg hl hw
    cases hst
    exact ⟨h.framed.lock hl hw, h.told.lock hw, h.shown.keep (by rw [setSend_eq])⟩
  · cases hst

theorem inv_push (hst : step codec s (.push w n) = some s') : Inv codec s' := by
  simp only [step] at hst
  split at hst
  · rename_i rest hw
    split at hst
    · rename_i hn
      cases hst
      exact ⟨h.framed.push hw hn, h.told.push hw, h.shown.keep (by rw [setSend_eq])⟩
    · split at hst
      · cases hst
        exact ⟨h.framed.pushLast hw, h.told.pushLast h.framed.born hw, h.shown.keep (by rw [sent_eq])⟩
      · cases hst
  · cases hst

theorem inv_wait (hst : step codec s .wait = some s') : Inv codec s' := by
  simp only [step] at hst
  split at hst
  · rename_i status hm hexited
    cases hst
    refine h.setMain (by simp [send, hm]) nofun nofun
      (h.told.setMain (by rw [hm]; rfl) (by rw [hm]; nofun) nofun nofun ?_ nofun rfl)
    rintro code (he | he | he) <;> cases he
    exact ⟨status, hexited, rfl⟩
  · cases hst

theorem inv_joinOut (hst : step codec s .joinOut = some s') : Inv codec s' := by
  simp only [step] at hst
  split at hst
  · rename_i code hm hdone
    cases hst
    refine h.setMain (by simp [send, hm]) nofun nofun
      (h.told.setMain (by rw [hm]; rfl) (by rw [hm]; nofun) (fun σ hj => ?_) nofun ?_ nofun rfl)
    · cases σ with
      | out => exact hdone
      | err => cases hj
    · rintro code' (he | he | he) <;> cases he
      exact h.told.code code (.inl hm)
  · cases hst

theorem inv_joinErr (hst : step codec s .joinErr = some s') : Inv codec s' := by
  simp only [step] at hst
  split at hst
  · rename_i code hm hdone
    cases hst
    refine h.setMain (by simp [send, hm]) nofun nofun
      (h.told.setMain (by rw [hm]; rfl) (by rw [hm]; nofun) (fun σ _ => ?_) nofun ?_ ?_ rfl)
    · cases σ with
      | out => exact h.told.joined .out (by rw [hm]; rfl)
      | err => exact hdone
    · rintro code' (he | he | he) <;> cases he
      exact h.told.code code (.inr (.inl hm))
    · rintro msg ⟨rfl⟩
      exact ⟨code, rfl⟩
  · cases hst

theorem inv_consume (hst : step codec s .consume = some s') : Inv codec s' := by
  simp only [step] at hst
  split at hst
  · rename_i b rest hresult hwire
    cases hst
    exact ⟨(h.framed.consume hwire).1, h.told.socket s.lock rest _,
      h.shown.consume h.framed h.told hwire hresult⟩
  · cases hst

theorem inv_step {a : Act} (hst : step codec s a = some s') : Inv codec s' := by
  cases a with
  | write σ bytes => exact inv_write h hst
  | close σ => exact inv_close h hst
  | exit status => exact inv_exit h hst
  | read σ n => exact inv_read h hst
  | eof σ => exact inv_eof h hst
  | lock w => exact inv_lock h hst
  | push w n => exact inv_push h hst
  | wait => exact inv_wait h hst
  | joinOut => exact inv_joinOut h hst
  | joinErr => exact inv_joinErr h hst
  | consume => exact inv_consume h hst

end

theorem inv_reach {pid : Nat} (h : (sys codec pid).Reach s) : Inv codec s := by
  have hind : (sys codec pid).InductiveIf (fun _ _ => True) (Inv codec) := by
    refine ⟨?_, fun _ _ _ hi _ hst => inv_step hi hst⟩
    rintro s rfl
    refine ⟨⟨⟨[], rfl, rfl⟩, nofun, fun w rest hw => ?_, nofun, fun _ _ _ => rfl⟩, ?_, ?_⟩
    · cases w <;> cases hw
    · refine ⟨fun _ => rfl, nofun, nofun, nofun, ?_, nofun, nofun, nofun, nofun, fun _ _ => ⟨_, rfl⟩⟩
      rintro msg ⟨rfl⟩
      exact ⟨pid, rfl⟩
    · exact ⟨fun _ => rfl, nofun, nofun⟩
  exact hind.reach h

/-! ## The result -/

theorem Inv.handled_prefix (h : Inv codec s) : s.client.handled <+: s.log := by
  obtain ⟨due, hlog, -⟩ := h.framed.due
  exact ⟨due, hlog.symm⟩

theorem Inv.shown_prefix (h : Inv codec s) (σ : Stream) : s.client.shown σ <+: s.written σ := by
  obtain ⟨due, hlog, -⟩ := h.framed.due
  rw [h.shown.shown, h.told.bytes, hlog, outputsOf_append, append_assoc]
  exact prefix_append _ _

theorem joined_of_announced (h : m.announced = true) (σ : Stream) : m.joined σ = true := by
  cases m with
  | finishing x => cases σ <;> rfl
  | returned => cases σ <;> rfl
  | _ => cases h

theorem Inv.returned (h : Inv codec s) {r : Outcome} (hr : s.client.result = some r) :
    (∀ σ, s.client.shown σ = s.written σ) ∧ s.client.handled = s.log ∧
      ∃ before status, s.exited = some status ∧ s.log = before ++ [.exit status.code] ∧
        (∀ msg ∈ before, msg.isTerminal = false) ∧ r = .ok (status.code.getD 1) := by
  obtain ⟨seen, code, hhandled, -, rfl⟩ := h.shown.ended r hr
  have hmem : ServerMessage.exit code ∈ s.client.handled := by simp [hhandled]
  cases ha : s.main.announced with
  | false =>
    have := h.told.quiet ha _ (h.handled_prefix.subset hmem)
    cases this
  | true =>
    obtain ⟨before, status, hexited, hlog, hbefore⟩ := h.told.said ha
    have hall : s.client.handled = s.log := by
      have hprefix := h.handled_prefix
      rw [hlog] at hprefix
      rcases prefix_concat_iff.mp hprefix with he | hp
      · rw [he, hlog]
      · have := hbefore _ (hp.subset hmem)
        cases this
    have hcode : code = status.code := by
      rw [hhandled, hlog] at hall
      have hlast := append_inj_right' hall rfl
      exact ServerMessage.exit.inj (List.cons.inj hlast).1
    refine ⟨fun σ => ?_, hall, before, status, hexited, hlog, hbefore, by rw [hcode]⟩
    have hdone := h.told.joined σ (joined_of_announced ha σ)
    rw [h.shown.shown, h.told.bytes, hall, hdone, (h.told.done σ hdone).1]
    simp [unsentOf]

/-- The child has exited, and the pipes are closed. -/
structure Ended (s : St) : Prop where
  exited : s.exited.isSome = true
  closed : ∀ σ, (s.pipe σ).closed = true

theorem forwarder_moves (he : Ended s) (hσ : s.forwarder σ = .reading) : ∃ a s', step codec s a = some s' := by
  cases hp : (s.pipe σ).bytes with
  | nil =>
    refine ⟨.eof σ, { s with forwarder := Function.update s.forwarder σ .done }, ?_⟩
    simp [step, hσ, hp, he.closed σ]
  | cons b bytes =>
    have hn : 0 < 1 ∧ 1 ≤ bufferSize ∧ 1 ≤ (s.pipe σ).bytes.length := ⟨by decide, by decide, by simp [hp]⟩
    exact ⟨.read σ 1, _, by simp only [step, hσ]; exact if_pos hn⟩

theorem Inv.moves (h : Inv codec s) (he : Ended s) (hr : s.client.result = none) :
    ∃ a s', step codec s a = some s' := by
  cases hwire : s.wire with
  | cons b rest => exact ⟨.consume, _, by simp only [step, hr, hwire]; rfl⟩
  | nil =>
  cases hl : s.lock with
  | some w =>
    obtain ⟨rest, hw⟩ := h.framed.held w hl
    refine ⟨.push w rest.length, sent { s with wire := s.wire ++ rest, lock := none } w, ?_⟩
    simp [step, hw]
  | none =>
  -- nobody holds the lock, so who is in `send` can take it
  by_cases hwant : ∃ w msg, s.send w = some (.want msg)
  · obtain ⟨w, msg, hw⟩ := hwant
    exact ⟨.lock w, _, by simp only [step, hl, hw]; rfl⟩
  have hsend : ∀ w, s.send w = none := by
    intro w
    cases hw : s.send w with
    | none => rfl
    | some x =>
      cases x with
      | want msg => exact absurd ⟨w, msg, hw⟩ hwant
      | write rest =>
        have := (h.framed.holder w rest hw).1
        rw [hl] at this
        cases this
  have hmain : ∀ x, s.main ≠ .starting x := by
    intro x hx
    have hs := hsend .main
    simp [send, hx] at hs
  have hidle : ∀ σ, s.forwarder σ = .reading ∨ s.forwarder σ = .done := by
    intro σ
    have hs := hsend (.forwarder σ)
    cases hf : s.forwarder σ <;> simp [send, hf] at hs ⊢
    obtain ⟨x, hx⟩ := h.told.spawned σ hf
    exact hmain x hx
  cases hm : s.main with
  | starting x => exact absurd hm (hmain x)
  | waiting =>
    obtain ⟨status, hstatus⟩ := Option.isSome_iff_exists.mp he.exited
    exact ⟨.wait, _, by simp only [step, hm, hstatus]; rfl⟩
  | joinOut code =>
    rcases hidle .out with hf | hf
    · exact forwarder_moves he hf
    · exact ⟨.joinOut, _, by simp only [step, hm, hf]; rfl⟩
  | joinErr code =>
    rcases hidle .err with hf | hf
    · exact forwarder_moves he hf
    · exact ⟨.joinErr, _, by simp only [step, hm, hf]; rfl⟩
  | finishing x =>
    have hs := hsend .main
    simp [send, hm] at hs
  | returned =>
    -- all is written and read, so the client has handled `Exit`
    obtain ⟨due, hlog, hbytes⟩ := h.framed.due
    rw [hwire, pending_of_unlocked hl, append_nil, append_nil] at hbytes
    have hnil := nil_of_line h.framed.line hbytes
    obtain ⟨before, status, -, hlog', -⟩ := h.told.said (by rw [hm]; rfl)
    rw [hnil, append_nil, hlog'] at hlog
    have := h.shown.running hr (.exit status.code) (by simp [← hlog])
    cases this

/-! ## Every run comes to its end -/

def Send.rank : Send → Nat
  | .want _ => 3
  | .write _ => 2

def Forwarder.rank : Forwarder → Nat
  | .unborn | .reading => 1
  | .sending x => x.rank
  | .done => 0

@[simp] def Main.rank : Main → Nat
  | .starting x => x.rank + 6
  | .waiting => 7
  | .joinOut _ => 6
  | .joinErr _ => 5
  | .finishing x => x.rank + 1
  | .returned => 0

def St.unread (s : St) : Nat := (s.pipe .out).bytes.length + (s.pipe .err).bytes.length

@[simp] def St.rank (s : St) : Nat := s.main.rank + (s.forwarder .out).rank + (s.forwarder .err).rank

def St.traffic (s : St) : Nat := 2 * s.pending.length + s.wire.length

def St.measure (s : St) : Nat ×ₗ Nat ×ₗ Nat := toLex (s.unread, toLex (s.rank, s.traffic))

theorem measure_lt_of_rank (hpipe : s'.pipe = s.pipe) (hr : s'.rank < s.rank) : s'.measure < s.measure :=
  Prod.Lex.toLex_lt_toLex.mpr (.inr ⟨by rw [unread, hpipe, unread], Prod.Lex.toLex_lt_toLex.mpr (.inl hr)⟩)

theorem measure_lt_of_traffic (hpipe : s'.pipe = s.pipe) (hr : s'.rank = s.rank)
    (ht : s'.traffic < s.traffic) : s'.measure < s.measure :=
  Prod.Lex.toLex_lt_toLex.mpr
    (.inr ⟨by rw [unread, hpipe, unread], Prod.Lex.toLex_lt_toLex.mpr (.inr ⟨hr, ht⟩)⟩)

theorem Ended.keep (he : Ended s) (hpipe : s'.pipe = s.pipe) (hexited : s'.exited = s.exited) : Ended s' :=
  ⟨hexited ▸ he.exited, hpipe ▸ he.closed⟩

theorem rank_setForwarder (s : St) (σ : Stream) (f : Forwarder) :
    rank { s with forwarder := Function.update s.forwarder σ f } + (s.forwarder σ).rank = s.rank + f.rank := by
  cases σ <;> simp <;> omega

theorem rank_setSend {y : Send} (hw : s.send w = some y) : (s.setSend x w).rank + y.rank = s.rank + x.rank := by
  cases w with
  | main =>
    rcases main_of_send hw with hm | hm <;> simp [hm] <;> omega
  | forwarder σ =>
    have hset := rank_setForwarder s σ (.sending x)
    rw [forwarder_of_send hw] at hset
    exact hset

theorem rank_sent (hborn : s.Born) (hw : s.send w = some (.write rest)) : (s.sent w).rank < s.rank := by
  cases w with
  | main =>
    rcases main_of_send hw with hm | hm
    · simp [hm, Send.rank, Forwarder.rank, hborn _ _ hm]
    · simp [hm, Send.rank]
  | forwarder σ =>
    have hset := rank_setForwarder s σ .reading
    rw [forwarder_of_send hw] at hset
    simp only [Forwarder.rank, Send.rank] at hset
    simp only [sent]
    omega

theorem Inv.measure_lt {a : Act} (h : Inv codec s) (he : Ended s) (hst : step codec s a = some s') :
    s'.measure < s.measure ∧ Ended s' := by
  cases a <;> simp only [step] at hst
  case write σ bytes => simp [he.closed σ] at hst
  case close σ => simp [he.closed σ] at hst
  case exit status => simp [he.exited] at hst
  case read σ n =>
    split at hst
    · split at hst
      · cases hst
        refine ⟨Prod.Lex.toLex_lt_toLex.mpr (.inl ?_), he.exited, fun τ => ?_⟩
        · cases σ <;> simp [unread] <;> omega
        · by_cases hτ : τ = σ
          · subst hτ
            simpa using he.closed τ
          · simpa [hτ] using he.closed τ
      · cases hst
    · cases hst
  case eof σ =>
    split at hst
    · rename_i hf
      split at hst
      · cases hst
        refine ⟨measure_lt_of_rank rfl ?_, he.exited, he.closed⟩
        have hset := rank_setForwarder s σ .done
        rw [hf] at hset
        simp only [Forwarder.rank] at hset
        omega
      · cases hst
    · cases hst
  case lock w =>
    split at hst
    · rename_i msg hl hw
      cases hst
      refine ⟨measure_lt_of_rank (by rw [setSend_eq]) ?_, he.keep (by rw [setSend_eq]) (by rw [setSend_eq])⟩
      have hset := rank_setSend (s := { s with lock := some w, log := s.log ++ [msg] })
        (x := .write (codec.toVec msg ++ [newline])) hw
      simp only [Send.rank] at hset
      have hsame : rank { s with lock := some w, log := s.log ++ [msg] } = s.rank := rfl
      omega
    · cases hst
  case push w n =>
    split at hst
    · rename_i rest hw
      split at hst
      · rename_i hn
        cases hst
        refine ⟨measure_lt_of_traffic (by rw [setSend_eq]) ?_ ?_,
          he.keep (by rw [setSend_eq]) (by rw [setSend_eq])⟩
        · have hset := rank_setSend (s := { s with wire := s.wire ++ rest.take n })
            (x := .write (rest.drop n)) hw
          simp only [Send.rank] at hset
          have hsame : rank { s with wire := s.wire ++ rest.take n } = s.rank := rfl
          omega
        · have hpending := (h.framed.push hw hn).pending_eq
            (by rw [send_setSend (by simpa [send] using congrArg Option.isSome hw), if_pos rfl])
          rw [traffic, traffic, hpending, setSend_eq, h.framed.pending_eq hw]
          simp only [length_drop, length_append, length_take]
          omega
      · split at hst
        · cases hst
          refine ⟨measure_lt_of_rank (by rw [sent_eq]) ?_, he.keep (by rw [sent_eq]) (by rw [sent_eq])⟩
          exact rank_sent (s := { s with wire := s.wire ++ rest, lock := none }) h.framed.born hw
        · cases hst
    · cases hst
  case wait =>
    split at hst
    · rename_i hm _
      cases hst
      exact ⟨measure_lt_of_rank rfl (by simp [hm]), he.exited, he.closed⟩
    · cases hst
  case joinOut =>
    split at hst
    · rename_i hm _
      cases hst
      exact ⟨measure_lt_of_rank rfl (by simp [hm]), he.exited, he.closed⟩
    · cases hst
  case joinErr =>
    split at hst
    · rename_i hm _
      cases hst
      exact ⟨measure_lt_of_rank rfl (by simp [hm, Send.rank]), he.exited, he.closed⟩
    · cases hst
  case consume =>
    split at hst
    · rename_i b rest _ hwire
      cases hst
      refine ⟨measure_lt_of_traffic rfl rfl ?_, he.exited, he.closed⟩
      have hpending : pending { s with wire := rest, client := s.client.feed codec b } = s.pending := rfl
      rw [traffic, traffic, hpending, hwire]
      simp
    · cases hst

theorem Inv.acc (h : Inv codec s) (he : Ended s) : Acc (fun t u => ∃ a, step codec u a = some t) s := by
  induction hm : s.measure using WellFoundedLT.induction generalizing s with
  | ind m ih =>
    refine ⟨s, fun t ⟨a, hst⟩ => ?_⟩
    obtain ⟨hlt, het⟩ := h.measure_lt he hst
    exact ih t.measure (hm ▸ hlt) (inv_step h hst) het rfl

/-- **The output and the exit code of the child.** What the client has written to a stream is a part of the
output from its start. When it returns it has written all of it, the terminal message is one and the last
of all that the server sends, and the result is the child's code, or 1 if it was killed. Once the
child has exited and the pipes are closed there are only finite runs, and they end with the client's
return. -/
theorem exec_output (codec : Codec) (pid : Nat) (s : St) (h : (sys codec pid).Reach s) :
    (∀ σ, s.client.shown σ <+: s.written σ) ∧
    (∀ r, s.client.result = some r → (∀ σ, s.client.shown σ = s.written σ) ∧ s.client.handled = s.log ∧
      ∃ before status, s.exited = some status ∧ s.log = before ++ [.exit status.code] ∧
        (∀ msg ∈ before, msg.isTerminal = false) ∧ r = .ok (status.code.getD 1)) ∧
    (Ended s → Acc (fun t u => ∃ a, step codec u a = some t) s ∧
      (s.client.result = none → ∃ a s', step codec s a = some s')) := by
  have hi := inv_reach h
  exact ⟨hi.shown_prefix, fun r hr => hi.returned hr, fun he => ⟨hi.acc he, hi.moves he⟩⟩

/-! ### A codec -/

@[simp] def ServerMessage.numbers : ServerMessage → List Nat
  | .started pid => [0, pid]
  | .stdout data => 1 :: data.toList.map Char.toNat
  | .stderr data => 2 :: data.toList.map Char.toNat
  | .exit none => [3]
  | .exit (some (.ofNat n)) => [4, n]
  | .exit (some (.negSucc n)) => [5, n]
  | .error message => 6 :: message.toList.map Char.toNat

def text (numbers : List Nat) : String := .ofList (numbers.map Char.ofNat)

def ofNumbers : List Nat → Option ServerMessage
  | [0, pid] => some (.started pid)
  | 1 :: data => some (.stdout (text data))
  | 2 :: data => some (.stderr (text data))
  | [3] => some (.exit none)
  | [4, n] => some (.exit (some (.ofNat n)))
  | [5, n] => some (.exit (some (.negSucc n)))
  | 6 :: message => some (.error (text message))
  | _ => none

theorem text_toNat (data : String) : text (data.toList.map Char.toNat) = data := by
  simp [text, map_map, comp_def]

theorem ofNumbers_numbers (msg : ServerMessage) : ofNumbers msg.numbers = some msg := by
  cases msg with
  | started pid => rfl
  | stdout data => simp [ofNumbers, text_toNat]
  | stderr data => simp [ofNumbers, text_toNat]
  | exit code => rcases code with - | (n | n) <;> rfl
  | error message => simp [ofNumbers, text_toNat]

/-- A number is written with as many bytes, and a byte that ends it. -/
def unary (n : Nat) : Bytes := List.replicate n 65

/-- `n` bytes of the next number were read. -/
def readNumbers : Nat → Bytes → List Nat
  | _, [] => []
  | n, b :: rest => if b = 66 then n :: readNumbers 0 rest else readNumbers (n + 1) rest

theorem readNumbers_unary (k n : Nat) (rest : Bytes) :
    readNumbers k (unary n ++ 66 :: rest) = (k + n) :: readNumbers 0 rest := by
  induction n generalizing k with
  | zero => simp [unary, readNumbers]
  | succ n ih =>
    have hstep := ih (k + 1)
    rw [Nat.add_right_comm, Nat.add_assoc] at hstep
    simpa [unary, replicate_succ, readNumbers] using hstep

theorem readNumbers_frames (numbers : List Nat) : readNumbers 0 (frames unary 66 numbers) = numbers := by
  induction numbers with
  | nil => rfl
  | cons n numbers ih =>
    rw [frames_cons, append_assoc, singleton_append, readNumbers_unary, ih, Nat.zero_add]

theorem mem_frames_unary {numbers : List Nat} (hb : b ∈ frames unary 66 numbers) : b = 65 ∨ b = 66 := by
  simp only [frames, mem_flatMap, mem_append, mem_singleton] at hb
  obtain ⟨n, -, hb | hb⟩ := hb
  · exact .inl (eq_of_mem_replicate hb)
  · exact .inr hb

theorem ofNat_toNat_char (b : UInt8) : UInt8.ofNat (Char.ofNat b.toNat).toNat = b := by
  have hb := b.toNat_lt
  have hvalid : b.toNat.isValidChar := .inl (by omega)
  rw [Char.ofNat, dif_pos hvalid]
  exact UInt8.ofNat_toNat

/-- Bytes as characters, and messages as numbers. -/
def sampleCodec : Codec where
  encode bytes := .ofList (bytes.map fun b => Char.ofNat b.toNat)
  decode data := some (data.toList.map fun c => UInt8.ofNat c.toNat)
  decode_encode bytes := by
    simp [List.map_map, Function.comp_def, ofNat_toNat_char]
  toVec msg := frames unary 66 msg.numbers
  fromStr line := ofNumbers (readNumbers 0 line)
  fromStr_toVec msg := by rw [readNumbers_frames, ofNumbers_numbers]
  no_newline msg hmem := by
    rcases mem_frames_unary hmem with hb | hb <;> cases hb
  no_return msg hlast := by
    rcases mem_frames_unary (List.mem_of_getLast? hlast) with hb | hb <;> cases hb

/-- The child writes a byte to each stream and exits with 3; the threads take the lock in turn. -/
def sampleRun : List Act :=
  [.lock .main, .write .out [1], .exit (.exited 3), .push .main 4, .push .main 6, .write .err [2],
    .close .err, .close .out, .wait, .read .err 1, .read .out 1, .lock (.forwarder .err),
    .push (.forwarder .err) 7, .lock (.forwarder .out), .push (.forwarder .out) 5, .eof .out, .joinOut,
    .eof .err, .joinErr, .lock .main, .push .main 10] ++ List.replicate 32 .consume

theorem exec_output_sample : ∃ s, (sys sampleCodec 7).Reach s ∧
    (s.client.result = some (.ok 3) ∧ s.written .out = [1] ∧ s.written .err = [2] ∧ Ended s) ∧
    (s.client.shown .out = [1] ∧ s.client.shown .err = [2]) ∧
    Acc (fun t u => ∃ a, step sampleCodec u a = some t) s := by
  obtain ⟨s, hreach, hs⟩ := Sys.Reach.exec_any (S := sys sampleCodec 7) (.init rfl) sampleRun
    (p := fun s => decide (s.client.result = some (.ok 3) ∧ s.written .out = [1] ∧ s.written .err = [2] ∧
      s.exited.isSome = true ∧ (s.pipe .out).closed = true ∧ (s.pipe .err).closed = true))
    (by decide +kernel)
  obtain ⟨hresult, hout, herr, hexited, hco, hce⟩ := of_decide_eq_true hs
  have hended : Ended s := ⟨hexited, fun σ => by cases σ <;> assumption⟩
  obtain ⟨-, hreturned, hend⟩ := exec_output sampleCodec 7 s hreach
  have hshown := (hreturned _ hresult).1
  exact ⟨s, hreach, ⟨hresult, hout, herr, hended⟩, ⟨(hshown .out).trans hout, (hshown .err).trans herr⟩,
    (hend hended).1⟩

end Jumpstarter.ExecOutput
