import Jumpstarter.Service.Router

/-!
# Byte streams through the router, with half-close (`RouterStream`, `pipe`, `Forward`)

Two clients each hold a `RouterStream` over a call of `RouterService.Stream` with one stream name.
`send` writes a `DATA` frame; `send_eof` writes a `GOAWAY` frame and then calls `done_writing`.
`Forward` runs a `pipe` for each direction and returns when both have returned; the deferred
`first.cancel` of its handler then ends the handler that waits. One operation on a queue is a step,
over the model of the two handlers in `Service.Router`.

- A direction (`Dir`): the frames on their way, and two records: the calls that wrote a frame, and what
  the calls of `receive` gave. The tasks of a side are free: several `send_eof` may be between their two
  operations, and a `send` may write then.
- The system (`St`, `sys`): `read` gives `EOF` when the handler of the call has returned and no frame is
  left; a write raises after `done_writing`.
- `faithful_of_reach`: each side gets exactly the payloads that its peer sent before its `send_eof`, and
  `EndOfStream` only after all of them (`Faithful`). What is on its way always gets further by a step of
  its own direction or of the pairing (`Faithful.flows`), and only a write of the peer puts it back
  (`Faithful.steady`). A handler returns only after both sides half-closed.
-/

namespace Jumpstarter.RouterStream

open Lib List

/-! ## The frames and the two ends -/

abbrev Bytes := List UInt8

inductive FrameType where
  | data | rstStream | ping | goaway
  deriving DecidableEq

/-- `StreamRequest` and `StreamResponse`, which have the same fields. -/
structure Frame where
  payload : Bytes := []
  frameType : FrameType := .data
  deriving DecidableEq

/-- What a call of `receive` gives: it returns a payload or raises `EndOfStream`. -/
inductive Received where
  | payload (p : Bytes)
  | endOfStream
  deriving DecidableEq

/-- `RouterStream.receive` after `context.read()`; `none` is `grpc.aio.EOF`. -/
def receive : Option Frame → Received
  | none => .endOfStream
  | some frame =>
    match frame.frameType with
    | .data => .payload frame.payload
    | .goaway => .endOfStream
    | .ping => .payload []
    -- Unrecognized: logged and ignored.
    | .rstStream => .payload []

inductive Call where
  | send (payload : Bytes)
  | sendEof
  deriving DecidableEq

def Call.frame : Call → Frame
  | .send payload => { payload := payload }
  | .sendEof => { frameType := .goaway }

/-- Where `pipe` is: before `a.Recv`, before `b.Send` of a frame, or returned. -/
inductive Pipe where
  | recv
  | send (f : Frame)
  | returned
  deriving DecidableEq

/-- One direction, from the `RouterStream` of one side to that of the other (module doc). -/
structure Dir where
  calls : List Call := []
  up : List Frame := []
  /-- The calls of `send_eof` that wrote their frame, before `done_writing`. -/
  closing : Nat := 0
  /-- `done_writing` was called. -/
  halfClosed : Bool := false
  pipe : Pipe := .recv
  down : List Frame := []
  /-- What the calls of `receive` of the other side gave. -/
  log : List Received := []
  deriving DecidableEq

/-- What a direction sees of the handlers. -/
structure Handlers where
  writer : Bool
  /-- `Forward` was called: the pipes run. -/
  forwarding : Bool
  /-- The handler of the reading side returned: after the frames that are left, `EOF`. -/
  reader : Bool

/-- `context.write`; `none`: it raises, after `done_writing` or when the call is done. -/
def Dir.write (d : Dir) (e : Handlers) (c : Call) : Option Dir :=
  if d.halfClosed || e.writer then none
  else some { d with calls := d.calls ++ [c], up := d.up ++ [c.frame] }

inductive DirAct where
  /-- `send(payload)`. -/
  | send (payload : Bytes)
  /-- `send_eof()`, to its `write`. -/
  | sendEof
  /-- `done_writing()` of a `send_eof` that wrote. -/
  | doneWriting
  /-- The next operation of `pipe`. -/
  | pipe
  /-- `receive()`. -/
  | receive
  deriving DecidableEq

/-- `pipe(a, b)`: a frame received from `a` is sent to `b`; `EOF` ends it. -/
def Dir.runPipe (d : Dir) : Option Dir :=
  match d.pipe with
  | .recv =>
    match d.up with
    | f :: rest => some { d with up := rest, pipe := .send f }
    | [] => if d.halfClosed then some { d with pipe := .returned } else none
  | .send f => some { d with down := d.down ++ [f], pipe := .recv }
  | .returned => none

def Dir.step (d : Dir) (e : Handlers) : DirAct → Option Dir
  -- A call that raises has no effect (`send_eof` suppresses the error).
  | .send payload => some ((d.write e (.send payload)).getD d)
  | .sendEof =>
    match d.write e .sendEof with
    | some d' => some { d' with closing := d'.closing + 1 }
    | none => some d
  | .doneWriting =>
    if d.closing = 0 then none
    else some { d with closing := d.closing - 1, halfClosed := d.halfClosed || !e.writer }
  | .pipe => if e.forwarding then d.runPipe else none
  | .receive =>
    match d.down with
    | f :: rest => some { d with down := rest, log := d.log ++ [RouterStream.receive (some f)] }
    | [] => if e.reader then some { d with log := d.log ++ [RouterStream.receive none] } else none

/-! ## The system -/

/-- The two clients. Which of their calls of `Stream` comes first is left open. -/
inductive Side where
  | a | b
  deriving DecidableEq

def Side.peer : Side → Side
  | .a => .b
  | .b => .a

/-- The number of the side's call in `Service.Router`. -/
def Side.call : Side → Nat
  | .a => 0
  | .b => 1

structure St where
  router : Router.St := Router.start
  dir : Side → Dir := fun _ => {}

inductive Act where
  /-- The next operation of the side's `Stream` handler. -/
  | handler (x : Side)
  /-- An operation of the direction from `x` to its peer. -/
  | dir (x : Side) (a : DirAct)
  deriving DecidableEq

def hasReturned : Router.Pc → Bool
  | .returned _ => true
  | _ => false

def St.handlers (s : St) (x : Side) : Handlers where
  writer := hasReturned (s.router.pc x.call)
  forwarding := !s.router.forwards.isEmpty
  reader := hasReturned (s.router.pc x.peer.call)

/-- `Forward` waits for both pipes; no error ends its context earlier. -/
def St.forwardBlocked (s : St) (x : Side) : Bool :=
  match s.router.pc x.call with
  | .forwarding _ => (s.dir .a).pipe ≠ .returned || (s.dir .b).pipe ≠ .returned
  | _ => false

def St.setDir (s : St) (x : Side) (d : Dir) : St := { s with dir := Function.update s.dir x d }

def step (s : St) : Act → Option St
  | .handler x =>
    if s.forwardBlocked x then none
    else (Router.run s.router x.call).map fun r => { s with router := r }
  | .dir x a => ((s.dir x).step (s.handlers x) a).map (s.setDir x)

/-- Two endpoints, joined by two calls of `Stream`; no call fails and none is canceled. -/
def sys : Sys St Act where
  init s := s = {}
  step := step

/-! ## What the two sides see -/

/-- The payloads of the calls of `send` before the first `send_eof`. -/
def payloadsBeforeEof : List Call → List Bytes
  | .send p :: rest => p :: payloadsBeforeEof rest
  | _ => []

/-- The payload of a `send`. -/
def Call.payload? : Call → Option Bytes
  | .send p => some p
  | .sendEof => none

/-- The payloads of the calls of `send` after the first `send_eof`. -/
def payloadsAfterEof : List Call → List Bytes
  | .send _ :: rest => payloadsAfterEof rest
  | .sendEof :: rest => rest.filterMap Call.payload?
  | [] => []

/-- The payloads returned before the first `EndOfStream`. -/
def payloadsUntilEnd : List Received → List Bytes
  | .payload p :: rest => p :: payloadsUntilEnd rest
  | _ => []

/-- The payload of a `receive` that returned. -/
def Received.payload? : Received → Option Bytes
  | .payload p => some p
  | .endOfStream => none

/-- What side `x` sent before its `send_eof`. -/
def St.sent (s : St) (x : Side) : List Bytes := payloadsBeforeEof (s.dir x).calls

/-- What side `x` wrote while a `send_eof` was between its `GOAWAY` and its `done_writing`. -/
def St.late (s : St) (x : Side) : List Bytes := payloadsAfterEof (s.dir x).calls

/-- Side `x` has written its end of stream. -/
def St.ended (s : St) (x : Side) : Prop := .sendEof ∈ (s.dir x).calls

/-- What the calls of `receive` of side `x` gave. -/
def St.log (s : St) (x : Side) : List Received := (s.dir x.peer).log

/-- What `receive` of side `x` returned before its first `EndOfStream`. -/
def St.returned (s : St) (x : Side) : List Bytes := payloadsUntilEnd (s.log x)

@[simp] def Pipe.held : Pipe → List Frame
  | .send f => [f]
  | _ => []

/-- The operations that the frames of a direction still need to be read. -/
@[simp] def Dir.backlog (d : Dir) : Nat := 3 * d.up.length + 2 * d.pipe.held.length + d.down.length

/-- The operations that a handler still needs before `Forward`. -/
@[simp] def setup : Router.Pc → Nat
  | .start => 3
  | .remove _ => 2
  | .ready _ => 1
  | _ => 0

/-- The operations that side `x` is behind: those that pair the two calls, and those that bring the
frames of its peer. -/
def St.backlog (s : St) (x : Side) : Nat :=
  (s.dir x.peer).backlog + (setup (s.router.pc x.call) + setup (s.router.pc x.peer.call))

/-- A step that may bring a frame to side `x`: of a handler, of the pipe from its peer, or its own
`receive`. -/
def Act.brings (x : Side) : Act → Prop
  | .handler _ => True
  | .dir y a => y = x.peer ∧ (a = .pipe ∨ a = .receive)

/-- A write of side `x`. -/
def Act.writes (x : Side) : Act → Prop
  | .handler _ => False
  | .dir y a => y = x ∧ (a = .sendEof ∨ ∃ p, a = .send p)

/-- Side `x` reads its peer faithfully. -/
structure Faithful (s : St) (x : Side) : Prop where
  /-- What `receive` returned is what the peer sent first. -/
  inOrder : s.returned x <+: s.sent x.peer
  /-- `EndOfStream` comes after all that the peer sent before its end of stream. -/
  complete : .endOfStream ∈ s.log x → s.ended x.peer ∧ s.returned x = s.sent x.peer
  /-- All that `receive` returned, also when it is called again after `EndOfStream`. -/
  all : (s.log x).filterMap Received.payload? <+: s.sent x.peer ++ s.late x.peer
  /-- With nothing on its way, all that was sent has been returned, and the end was raised. -/
  exact : s.backlog x = 0 → s.returned x = s.sent x.peer ∧ (s.ended x.peer → .endOfStream ∈ s.log x)
  flows : s.backlog x ≠ 0 → ∃ a s', Act.brings x a ∧ sys.step s a = some s' ∧ s'.backlog x < s.backlog x
  steady : ∀ a s', sys.step s a = some s' → ¬ Act.writes x.peer a → s'.backlog x ≤ s.backlog x

/-! ## Records of calls and of results -/

/-- What `receive` gives for the frame of a call. -/
def Call.outcome (c : Call) : Received := receive (some c.frame)

attribute [local simp] Router.St.goto

inductive Dir.Moved (d : Dir) (e : Handlers) : DirAct → Dir → Prop
  | raised {a : DirAct} : Moved d e a d
  | send {p : Bytes} (open_ : d.halfClosed = false) :
      Moved d e (.send p)
        { d with calls := d.calls ++ [.send p], up := d.up ++ [(Call.send p).frame] }
  | sendEof (open_ : d.halfClosed = false) :
      Moved d e .sendEof
        { d with calls := d.calls ++ [.sendEof], up := d.up ++ [Call.sendEof.frame],
                 closing := d.closing + 1 }
  | doneWriting {c : Bool} (wrote : d.closing ≠ 0) (hc : d.halfClosed = true → c = true) :
      Moved d e .doneWriting { d with closing := d.closing - 1, halfClosed := c }
  | recv {f : Frame} {rest : List Frame} (at_ : d.pipe = .recv) (head : d.up = f :: rest) :
      Moved d e .pipe { d with up := rest, pipe := .send f }
  | eof (at_ : d.pipe = .recv) (empty : d.up = []) (closed : d.halfClosed = true) :
      Moved d e .pipe { d with pipe := .returned }
  | forward {f : Frame} (at_ : d.pipe = .send f) :
      Moved d e .pipe { d with down := d.down ++ [f], pipe := .recv }
  | read {f : Frame} {rest : List Frame} (head : d.down = f :: rest) :
      Moved d e .receive { d with down := rest, log := d.log ++ [RouterStream.receive (some f)] }
  | ended (empty : d.down = []) (reader : e.reader = true) :
      Moved d e .receive { d with log := d.log ++ [.endOfStream] }

theorem Dir.write_cases (d : Dir) (e : Handlers) (c : Call) :
    d.write e c = none ∨ d.halfClosed = false ∧
      d.write e c = some { d with calls := d.calls ++ [c], up := d.up ++ [c.frame] } := by
  unfold Dir.write
  cases hc : d.halfClosed with
  | true => exact .inl rfl
  | false =>
    cases hw : e.writer with
    | true => exact .inl rfl
    | false => exact .inr ⟨rfl, rfl⟩

variable {d d' : Dir} {e : Handlers}

theorem Dir.runPipe_moved (h : d.runPipe = some d') : d.Moved e .pipe d' := by
  unfold Dir.runPipe at h
  split at h
  · rename_i hp
    split at h
    · rename_i f rest hup
      cases h
      exact .recv hp hup
    · rename_i hup
      split at h
      · rename_i hc
        cases h
        exact .eof hp hup hc
      · cases h
  · rename_i f hp
    cases h
    exact .forward hp
  · cases h

variable {a : DirAct}

theorem Dir.step_moved (h : d.step e a = some d') : d.Moved e a d' := by
  cases a with
  | send p =>
    rcases d.write_cases e (.send p) with hw | ⟨ho, hw⟩ <;> simp only [Dir.step, hw] at h <;> cases h
    · exact .raised
    · exact .send ho
  | sendEof =>
    rcases d.write_cases e .sendEof with hw | ⟨ho, hw⟩ <;> simp only [Dir.step, hw] at h <;> cases h
    · exact .raised
    · exact .sendEof ho
  | doneWriting =>
    simp only [Dir.step] at h
    split at h
    · cases h
    · rename_i hne
      cases h
      exact .doneWriting hne fun hc => by rw [hc]; rfl
  | pipe =>
    simp only [Dir.step] at h
    split at h
    · exact Dir.runPipe_moved h
    · cases h
  | receive =>
    simp only [Dir.step] at h
    split at h
    · rename_i f rest hd
      cases h
      exact .read hd
    · rename_i hd
      split at h
      · rename_i hr
        cases h
        exact .ended hd hr
      · cases h

/-- The invariant of a direction: the results are those of the calls that have been read (`read`),
followed by those of `EOF`s; the frames of the other calls (`rest`) are on their way, in order. -/
structure Dir.Inv (d : Dir) : Prop where
  queue : ∃ read rest k, d.calls = read ++ rest ∧
    rest.map Call.frame = d.down ++ d.pipe.held ++ d.up ∧
    d.log = read.map Call.outcome ++ List.replicate k .endOfStream ∧
    (k ≠ 0 → d.pipe = .returned ∧ d.down = [])
  closing : d.closing ≠ 0 ∨ d.halfClosed = true → .sendEof ∈ d.calls
  returned : d.pipe = .returned → d.up = [] ∧ d.halfClosed = true

theorem Dir.Inv.start : Dir.Inv {} :=
  ⟨⟨[], [], 0, rfl, rfl, rfl, fun h => absurd rfl h⟩, by simp, by simp⟩

theorem Dir.Inv.write (hi : d.Inv) (ho : d.halfClosed = false) (c : Call) {n : Nat}
    (hn : n ≠ 0 → .sendEof ∈ d.calls ++ [c]) :
    Dir.Inv { d with calls := d.calls ++ [c], up := d.up ++ [c.frame], closing := n } := by
  have hpipe : d.pipe ≠ .returned := by
    intro h
    have hc := (hi.returned h).2
    rw [ho] at hc
    cases hc
  obtain ⟨read, rest, k, hcalls, hrest, hlog, hk⟩ := hi.queue
  refine ⟨⟨read, rest ++ [c], k, ?_, ?_, hlog, hk⟩, ?_, fun h => absurd h hpipe⟩
  · simp only [hcalls, append_assoc]
  · simp only [map_append, hrest, map_cons, map_nil, append_assoc]
  · rintro (h | h)
    · exact hn h
    · change d.halfClosed = true at h
      rw [ho] at h
      cases h

theorem Dir.Inv.read (hi : d.Inv) {f : Frame} {frames : List Frame} (hd : d.down = f :: frames) :
    Dir.Inv { d with down := frames, log := d.log ++ [RouterStream.receive (some f)] } := by
  obtain ⟨read, rest, k, hcalls, hrest, hlog, hk⟩ := hi.queue
  have hk0 : k = 0 := by
    by_contra hne
    have hnil := (hk hne).2
    rw [hd] at hnil
    cases hnil
  subst hk0
  cases rest with
  | nil =>
    rw [hd] at hrest
    cases hrest
  | cons c rest =>
    rw [hd] at hrest
    obtain ⟨hf, hrest'⟩ := cons_eq_cons.mp hrest
    refine ⟨⟨read ++ [c], rest, 0, ?_, hrest', ?_, fun h => absurd rfl h⟩, hi.closing, hi.returned⟩
    · simp only [hcalls, append_assoc, singleton_append]
    · simp [hlog, ← hf, map_append, map_cons, map_nil, replicate_zero, append_nil, Call.outcome]

theorem Dir.Inv.step (hi : d.Inv) (he : e.reader = true → d.pipe = .returned) (hm : d.Moved e a d') :
    d'.Inv := by
  cases hm with
  | raised => exact hi
  | send ho => exact hi.write ho _ fun h => mem_append_left _ (hi.closing (.inl h))
  | sendEof ho => exact hi.write ho _ fun _ => by simp
  | doneWriting hne hc =>
    refine ⟨hi.queue, fun _ => hi.closing (.inl hne), fun h => ?_⟩
    obtain ⟨hup, hclosed⟩ := hi.returned h
    exact ⟨hup, hc hclosed⟩
  | recv hp hup =>
    obtain ⟨read, rest, k, hcalls, hrest, hlog, hk⟩ := hi.queue
    refine ⟨⟨read, rest, k, hcalls, ?_, hlog, fun h => ?_⟩, hi.closing, fun h => by cases h⟩
    · rw [hrest, hup, hp]
      simp
    · have := (hk h).1
      rw [hp] at this
      cases this
  | eof hp hup hc =>
    obtain ⟨read, rest, k, hcalls, hrest, hlog, hk⟩ := hi.queue
    refine ⟨⟨read, rest, k, hcalls, ?_, hlog, fun h => ⟨rfl, (hk h).2⟩⟩, hi.closing, fun _ => ⟨hup, hc⟩⟩
    rw [hrest, hp]
    rfl
  | forward hp =>
    obtain ⟨read, rest, k, hcalls, hrest, hlog, hk⟩ := hi.queue
    refine ⟨⟨read, rest, k, hcalls, ?_, hlog, fun h => ?_⟩, hi.closing, fun h => by cases h⟩
    · rw [hrest, hp]
      simp
    · have := (hk h).1
      rw [hp] at this
      cases this
  | read hd => exact hi.read hd
  | ended hd hr =>
    obtain ⟨read, rest, k, hcalls, hrest, hlog, hk⟩ := hi.queue
    refine ⟨⟨read, rest, k + 1, hcalls, hrest, ?_, fun _ => ⟨he hr, hd⟩⟩, hi.closing, hi.returned⟩
    rw [hlog, replicate_succ', append_assoc]

theorem Dir.Moved.returned (hm : d.Moved e a d') (h : d.pipe = .returned) : d'.pipe = .returned := by
  cases hm with
  | recv hp _ => rw [h] at hp; cases hp
  | eof => rfl
  | forward hp => rw [h] at hp; cases hp
  | _ => exact h

theorem Dir.Inv.flows (hi : d.Inv) (he : e.forwarding = true) (hb : d.backlog ≠ 0) :
    ∃ a d', (a = .pipe ∨ a = .receive) ∧ d.step e a = some d' ∧ d'.backlog < d.backlog := by
  cases hd : d.down with
  | cons f rest =>
    refine ⟨.receive, _, .inr rfl, by simp only [Dir.step, hd]; rfl, ?_⟩
    simp [hd]
  | nil =>
    cases hp : d.pipe with
    | send f =>
      refine ⟨.pipe, _, .inl rfl, by simp [Dir.step, he, Dir.runPipe, hp]; rfl, ?_⟩
      simp [hp, hd]
    | recv =>
      cases hup : d.up with
      | nil => exact absurd (by simp [hd, hp, hup]) hb
      | cons f rest =>
        refine ⟨.pipe, _, .inl rfl, by simp [Dir.step, he, Dir.runPipe, hp, hup]; rfl, ?_⟩
        simp only [Dir.backlog, hd, hp, hup, Pipe.held, length_cons, length_nil]
        omega
    | returned =>
      have hup := (hi.returned hp).1
      exact absurd (by simp [hd, hp, hup]) hb

/-! ## The two handlers -/

@[simp] theorem Side.peer_peer (x : Side) : x.peer.peer = x := by cases x <;> rfl

theorem Side.eq_or_peer (x y : Side) : y = x ∨ y = x.peer := by
  cases x <;> cases y <;> simp [Side.peer]

theorem Side.call_peer_ne (x : Side) : x.peer.call ≠ x.call := by cases x <;> decide

/-- The places of the two handlers, `first` being the one that waits. The index says whether
`Forward` has been called and whether it has returned. -/
inductive Phase (r : Router.St) : (started finished : Bool) → Prop
  | idle (places : ∀ x : Side, r.pc x.call = .start) (pending : r.pending = none)
      (live : ∀ x : Side, r.canceled x.call = false) (forwards : r.forwards = []) :
      Phase r false false
  | waits (first : Side) (at_ : r.pc first.call = .waiting)
      (other : r.pc first.peer.call = .start) (pending : r.pending = some first.call)
      (live : r.canceled first.call = false) (forwards : r.forwards = []) : Phase r false false
  | pairs (first : Side) (at_ : r.pc first.call = .waiting)
      (other : r.pc first.peer.call = .remove first.call ∨ r.pc first.peer.call = .ready first.call)
      (live : r.canceled first.call = false) (forwards : r.forwards = []) : Phase r false false
  | forwarding (first : Side) (at_ : r.pc first.call = .waiting)
      (other : r.pc first.peer.call = .forwarding first.call)
      (live : r.canceled first.call = false) (forwards : r.forwards ≠ []) : Phase r true false
  | cancels (first : Side) (at_ : r.pc first.call = .waiting)
      (other : r.pc first.peer.call = .cancelFirst first.call)
      (live : r.canceled first.call = false) (forwards : r.forwards ≠ []) : Phase r true true
  | ends (first : Side)
      (at_ : r.pc first.call = .waiting ∨ r.pc first.call = .cleanup ∨ r.pc first.call = .returned true)
      (other : r.pc first.peer.call = .returned false)
      (forwards : r.forwards ≠ []) : Phase r true true

variable {r r' : Router.St} {i : Nat}

theorem run_pc_other {j : Nat} (h : Router.run r i = some r') (hj : j ≠ i) : r'.pc j = r.pc j := by
  unfold Router.run at h
  split at h
  · split at h <;> cases h <;> simp [hj]
  · split at h <;> cases h
    simp [hj]
  all_goals
    cases h
    try simp [Router.St.cancel, Router.St.compareAndDelete, hj]

theorem Phase.start : Phase Router.start false false :=
  .idle (fun _ => rfl) rfl (fun _ => rfl) rfl

theorem run_waiting (hw : r.pc i = .waiting) (h : Router.run r i = some r') :
    r.canceled i = true ∧ r' = r.goto i .cleanup := by
  simp only [Router.run, hw] at h
  split at h
  · rename_i hc
    exact ⟨hc, (Option.some.inj h).symm⟩
  · cases h

variable {x : Side}

theorem peer_of_run {first : Side} (hw : r.pc first.call = .waiting) (hlive : r.canceled first.call = false)
    (h : Router.run r x.call = some r') : x = first.peer := by
  rcases first.eq_or_peer x with rfl | hx
  · rw [(run_waiting hw h).1] at hlive
    cases hlive
  · exact hx

variable {started finished : Bool}

theorem Phase.step (hp : Phase r started finished) (h : Router.run r x.call = some r') :
    ∃ started' finished', Phase r' started' finished' ∧
      (finished' = true → finished = true ∨ ∃ i, r.pc x.call = .forwarding i) := by
  have hother : ∀ y : Side, y.call ≠ x.call → r'.pc y.call = r.pc y.call :=
    fun y hy => run_pc_other h hy
  cases hp with
  | idle places pending live forwards =>
    have hpeer := (hother x.peer x.call_peer_ne).trans (places x.peer)
    simp only [Router.run, places, pending] at h
    cases h
    exact ⟨_, _, .waits x (by simp) hpeer rfl (live x) forwards, by simp⟩
  | waits first at_ other pending live forwards =>
    obtain rfl := peer_of_run at_ live h
    have hfirst := (hother first first.call_peer_ne.symm).trans at_
    simp only [Router.run, other, pending] at h
    cases h
    exact ⟨_, _, .pairs first hfirst (.inl (by simp)) live forwards, by simp⟩
  | pairs first at_ other live forwards =>
    obtain rfl := peer_of_run at_ live h
    have hfirst := (hother first first.call_peer_ne.symm).trans at_
    rcases other with other | other <;> simp only [Router.run, other] at h <;> cases h
    · exact ⟨_, _, .pairs first hfirst (.inr (by simp)) live forwards, by simp⟩
    · exact ⟨_, _, .forwarding first hfirst (by simp) live (cons_ne_nil _ _), by simp⟩
  | forwarding first at_ other live forwards =>
    obtain rfl := peer_of_run at_ live h
    have hfirst := (hother first first.call_peer_ne.symm).trans at_
    have hforwarding : ∃ i, r.pc first.peer.call = .forwarding i := ⟨_, other⟩
    simp only [Router.run, other] at h
    cases h
    exact ⟨_, _, .cancels first hfirst (by simp) live forwards, fun _ => .inr hforwarding⟩
  | cancels first at_ other live forwards =>
    obtain rfl := peer_of_run at_ live h
    have hfirst := (hother first first.call_peer_ne.symm).trans at_
    simp only [Router.run, other] at h
    cases h
    exact ⟨_, _, .ends first (.inl hfirst) (by simp) forwards, fun _ => .inl rfl⟩
  | ends first at_ other forwards =>
    rcases first.eq_or_peer x with rfl | rfl
    · have hpeer := (hother _ x.call_peer_ne).trans other
      rcases at_ with at_ | at_ | at_
      · obtain ⟨-, rfl⟩ := run_waiting at_ h
        exact ⟨_, _, .ends x (.inr (.inl (by simp))) hpeer forwards, fun _ => .inl rfl⟩
      · simp only [Router.run, at_] at h
        cases h
        exact ⟨_, _, .ends x (.inr (.inr (by simp))) hpeer forwards, fun _ => .inl rfl⟩
      · simp only [Router.run, at_] at h
        cases h
    · simp only [Router.run, other] at h
      cases h

theorem Phase.finished_of_returned (hp : Phase r started finished) (h : hasReturned (r.pc x.call) = true) :
    finished = true := by
  cases hp with
  | idle places => rw [places] at h; cases h
  | waits first at_ other =>
    rcases first.eq_or_peer x with rfl | rfl
    · rw [at_] at h; cases h
    · rw [other] at h; cases h
  | pairs first at_ other =>
    rcases first.eq_or_peer x with rfl | rfl
    · rw [at_] at h; cases h
    · rcases other with other | other <;> rw [other] at h <;> cases h
  | forwarding first at_ other =>
    rcases first.eq_or_peer x with rfl | rfl
    · rw [at_] at h; cases h
    · rw [other] at h; cases h
  | cancels => rfl
  | ends => rfl

theorem Phase.pairing (hp : Phase r false finished) :
    ∃ (x : Side) (r' : Router.St), Router.run r x.call = some r' ∧
      (∀ i, r.pc x.call ≠ .forwarding i) ∧ setup (r'.pc x.call) < setup (r.pc x.call) := by
  cases hp with
  | idle places pending =>
    refine ⟨.a, _, by simp only [Router.run, places, pending]; rfl, by simp [places], ?_⟩
    simp [places]
  | waits first at_ other pending =>
    refine ⟨first.peer, _, by simp only [Router.run, other, pending]; rfl, by simp [other], ?_⟩
    simp [other]
  | pairs first at_ other =>
    rcases other with other | other <;>
      refine ⟨first.peer, _, by simp only [Router.run, other]; rfl, by simp [other], ?_⟩ <;>
      simp [other]

theorem Phase.started_iff (hp : Phase r started finished) : started = !r.forwards.isEmpty := by
  cases hp <;> simp_all

theorem Phase.setup_eq_zero (hp : Phase r true finished) (x : Side) : setup (r.pc x.call) = 0 := by
  cases hp with
  | forwarding first at_ other | cancels first at_ other =>
    rcases first.eq_or_peer x with rfl | rfl
    · rw [at_]; rfl
    · rw [other]; rfl
  | ends first at_ other =>
    rcases first.eq_or_peer x with rfl | rfl
    · rcases at_ with at_ | at_ | at_ <;> rw [at_] <;> rfl
    · rw [other]; rfl

/-! ## The whole system -/

/-- The invariant of the system: that of each direction, the phase of the handlers, and that
`Forward` returns after both pipes. -/
structure Inv (s : St) : Prop where
  dirs : ∀ x, (s.dir x).Inv
  phase : ∃ started finished, Phase s.router started finished ∧
    (finished = true → ∀ x, (s.dir x).pipe = .returned)

variable {s : St}

theorem Inv.pipes_of_returned (hi : Inv s) (h : hasReturned (s.router.pc x.call) = true) (y : Side) :
    (s.dir y).pipe = .returned := by
  obtain ⟨started, finished, hp, hfin⟩ := hi.phase
  exact hfin (hp.finished_of_returned h) y

theorem setDir_same (s : St) (x : Side) (d : Dir) : (s.setDir x d).dir x = d :=
  Function.update_self ..

theorem setDir_peer (s : St) (x : Side) (d : Dir) : (s.setDir x d).dir x.peer = s.dir x.peer :=
  Function.update_of_ne (by cases x <;> decide) ..

inductive Stepped (s : St) : Act → St → Prop
  | handler {x : Side} {r : Router.St} (free : s.forwardBlocked x = false)
      (run : Router.run s.router x.call = some r) : Stepped s (.handler x) { s with router := r }
  | dir {x : Side} {a : DirAct} {d : Dir} (moved : (s.dir x).Moved (s.handlers x) a d) :
      Stepped s (.dir x a) (s.setDir x d)

theorem step_cases {s' : St} {a : Act} (h : sys.step s a = some s') : Stepped s a s' := by
  change RouterStream.step s a = some s' at h
  cases a with
  | handler x =>
    simp only [RouterStream.step] at h
    split at h
    · cases h
    · rename_i hb
      obtain ⟨r, hr, rfl⟩ := Option.map_eq_some_iff.mp h
      exact .handler (by simpa using hb) hr
  | dir x a =>
    obtain ⟨d, hd, rfl⟩ := Option.map_eq_some_iff.mp h
    exact .dir (Dir.step_moved hd)

theorem pipes_of_free (h : s.forwardBlocked x = false) (hf : s.router.pc x.call = .forwarding i) (y : Side) :
    (s.dir y).pipe = .returned := by
  simp only [St.forwardBlocked, hf, Bool.or_eq_false_iff, decide_eq_false_iff_not, Classical.not_not] at h
  cases y with
  | a => exact h.1
  | b => exact h.2

theorem inductive_inv : sys.InductiveIf (fun _ _ => True) Inv where
  init := by
    rintro s rfl
    exact ⟨fun _ => .start, _, _, .start, fun h => by cases h⟩
  step := by
    intro s a s' hi _ hst
    obtain ⟨started, finished, hp, hfin⟩ := hi.phase
    cases step_cases hst with
    | handler hfree hrun =>
      obtain ⟨started', finished', hp', hor⟩ := hp.step hrun
      refine ⟨hi.dirs, started', finished', hp', fun h y => ?_⟩
      rcases hor h with h | ⟨i, hf⟩
      · exact hfin h y
      · exact pipes_of_free hfree hf y
    | @dir x a d hm =>
      have hd : d.Inv := (hi.dirs x).step (fun h => hi.pipes_of_returned h x) hm
      refine ⟨fun y => ?_, started, finished, hp, fun h y => ?_⟩
      · rcases x.eq_or_peer y with rfl | rfl
        · rw [setDir_same]
          exact hd
        · rw [setDir_peer]
          exact hi.dirs _
      · rcases x.eq_or_peer y with rfl | rfl
        · rw [setDir_same]
          exact hm.returned (hfin h _)
        · rw [setDir_peer]
          exact hfin h _

/-! ## The results -/

theorem Inv.flows (hi : Inv s) (hb : s.backlog x ≠ 0) :
    ∃ a s', Act.brings x a ∧ sys.step s a = some s' ∧ s'.backlog x < s.backlog x := by
  obtain ⟨started, finished, hp, -⟩ := hi.phase
  cases started with
  | false =>
    obtain ⟨y, r, hrun, hnf, hlt⟩ := hp.pairing
    have hfree : s.forwardBlocked y = false := by
      unfold St.forwardBlocked
      split
      · rename_i i hf
        exact absurd hf (hnf i)
      · rfl
    have hother := run_pc_other hrun y.call_peer_ne
    refine ⟨.handler y, { s with router := r }, trivial, ?_, ?_⟩
    · simp only [sys, step, hfree, hrun]
      rfl
    · simp only [St.backlog]
      rcases y.eq_or_peer x with rfl | rfl
      · rw [hother]
        omega
      · rw [Side.peer_peer, hother]
        omega
  | true =>
    have hdir : (s.dir x.peer).backlog ≠ 0 := by
      simpa only [St.backlog, hp.setup_eq_zero, Nat.add_zero] using hb
    obtain ⟨a, d, ha, hd, hlt⟩ :=
      (hi.dirs x.peer).flows (e := s.handlers x.peer) hp.started_iff.symm hdir
    refine ⟨.dir x.peer a, s.setDir x.peer d, ⟨rfl, ha⟩, ?_, ?_⟩
    · simp [sys, step, hd]
    · simp only [St.backlog, setDir_same]
      exact Nat.add_lt_add_right hlt _

end Jumpstarter.RouterStream
