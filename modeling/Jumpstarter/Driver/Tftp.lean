import Jumpstarter.Lib.StopAndWait
import Jumpstarter.Lib.Sys
import Mathlib.Data.Rat.Defs

/-!
# A TFTP read transfer

`TftpReadTransfer` of `jumpstarter_driver_tftp/server.py` from `start` to `cleanup`, with a receiver that
follows RFC 1350, over a network that loses, copies and reorders packets. A packet that was sent can be
delivered at any later time and any number of times, or never.

The numbers on the wire are those of the code, modulo 65536. Beside them each packet has its block as a
ghost, which nobody reads; a packet is late by the blocks that the party which gets it is ahead of the
packet's block (`timely`).

* `Wire`: the blocks in flight are those of the file, and the two parties are linked (`Lib.Link`).
* `transfer_exact`: the receiver always holds a part of the file from its start, and all of it once
  `_send_with_retries` succeeded for a block that is shorter than the block size.
* `transfer_completes`: over a network that delivers, every file is transferred.
-/

namespace Jumpstarter.TftpTransfer

open Lib List

abbrev Bytes := List UInt8

/-! ## The transfer -/

/-- `negotiated_options`. -/
structure Options where
  blksize : Option Nat := none
  timeout : Option Int := none

def Options.isEmpty (o : Options) : Bool := o.blksize.isNone && o.timeout.isNone

structure Config where
  file : Bytes
  blockSize : Nat
  retries : Nat
  /-- `self.server.timeout`. -/
  serverTimeout : Rat
  options : Options

/-- If `_initialize_transfer` sends an OACK. `none`: a `KeyError`. -/
def Config.needsOack (cfg : Config) : Option Bool :=
  if cfg.options.isEmpty then some false
  else match cfg.options.blksize with
    | none => none
    | some blksize =>
      if blksize ≠ 512 then some true
      else cfg.options.timeout.map fun timeout => decide ((timeout : Rat) ≠ cfg.serverTimeout)

inductive Packet where
  | oack
  | data (blockNum : Nat) (payload : Bytes)
  deriving DecidableEq

/-- A packet of the server, with its block. -/
structure Flight where
  packet : Packet
  block : Nat
  deriving DecidableEq

structure Ack where
  blockNum : Nat
  block : Nat
  deriving DecidableEq

/-- The calls of `_send_with_retries`: in `_initialize_transfer` and in the branches of
`_handle_data_block`. -/
inductive Job where
  | oack
  | emptyFile
  | data (payload : Bytes)
  | finalBlock

def Job.payload : Job → Bytes
  | .data payload => payload
  | _ => []

/-- `_create_oack_packet` and `_create_data_packet`. -/
def Job.packet (blockNum : Nat) : Job → Packet
  | .oack => .oack
  | job => .data blockNum job.payload

/-- `expected_block`. -/
def Job.expected (blockNum : Nat) : Job → Nat
  | .oack => 0
  | _ => blockNum

inductive Pc where
  | opening
  | reading (data : Bytes)
  /-- `_send_with_retries` waits for `ack_received`. -/
  | waiting (job : Job) (expected attempt : Nat)
  | ended

structure Receiver where
  next : Nat := 1
  received : Bytes := []
  /-- A ghost: the blocks that were accepted. -/
  blocks : Nat := 0

structure St where
  blockNum : Nat := 0
  ackReceived : Bool := false
  lastAck : Nat := 0
  oackConfirmed : Bool := false
  currentPacket : Option Flight := none
  pc : Pc := .ended
  pos : Nat := 0
  transport : Bool := true
  /-- `shutdown_event`. -/
  shutdown : Bool := false
  flights : List Flight := []
  acks : List Ack := []
  receiver : Receiver := {}
  /-- A ghost: the block that has the number `blockNum`. -/
  block : Nat := 0
  /-- A ghost: `_send_with_retries` has succeeded for a block that is shorter than the block size. -/
  delivered : Bool := false

/-- The loop of `_send_with_retries`, from an attempt to its `await`. Without a transport `_send_packet`
raises; after the last attempt `False` is returned. The transfer ends in both cases. -/
def St.attempt (cfg : Config) (s : St) (job : Job) (expected attempt : Nat) : St :=
  if attempt ≤ cfg.retries ∧ s.transport = true then
    { s with
      flights := s.flights ++ s.currentPacket.toList
      ackReceived := false
      pc := .waiting job expected attempt }
  else { s with pc := .ended }

def St.sendWithRetries (cfg : Config) (s : St) (job : Job) : St :=
  St.attempt cfg { s with currentPacket := some ⟨job.packet s.blockNum, s.block⟩ } job
    (job.expected s.blockNum) 1

/-- The end of `_initialize_transfer`, and what `start` does after it. -/
def St.initialized (cfg : Config) (s : St) : St :=
  { s with
    blockNum := 1
    block := 1
    oackConfirmed := s.oackConfirmed || cfg.options.isEmpty
    pc := .opening }

def start (cfg : Config) : St :=
  match cfg.needsOack with
  | none => {}
  | some true => St.sendWithRetries cfg {} .oack
  | some false => St.initialized cfg {}

/-- The head of the loop of `_perform_transfer`. -/
def St.loop (s : St) : St := if s.shutdown then { s with pc := .ended } else { s with pc := .reading [] }

def St.handleDataBlock (cfg : Config) (s : St) (data : Bytes) : St :=
  if data = [] ∧ s.blockNum = 1 then s.sendWithRetries cfg .emptyFile
  else if data ≠ [] then s.sendWithRetries cfg (.data data)
  else s.sendWithRetries cfg .finalBlock

@[simp] def St.noteDelivered (cfg : Config) (s : St) (payload : Bytes) : St :=
  { s with delivered := s.delivered || decide (payload.length < cfg.blockSize) }

/-- What follows when `_send_with_retries` returns `True`. -/
def St.succeeded (cfg : Config) (s : St) : Job → St
  | .oack => s.initialized cfg
  | .emptyFile | .finalBlock => { s.noteDelivered cfg [] with pc := .ended }
  | .data payload =>
    let s' := { s.noteDelivered cfg payload with blockNum := (s.blockNum + 1) % 65536, block := s.block + 1 }
    if payload.length < cfg.blockSize then { s' with pc := .ended } else s'.loop

def St.handleAck (cfg : Config) (s : St) (blockNum : Nat) : St :=
  if s.oackConfirmed = false ∧ cfg.options.isEmpty = false ∧ blockNum = 0 then
    { s with oackConfirmed := true, lastAck := blockNum, ackReceived := true }
  else if blockNum = s.blockNum then { s with lastAck := blockNum, ackReceived := true }
  else if blockNum + 1 = s.blockNum then
    { s with flights := s.flights ++ s.currentPacket.toList }
  else s

/-- The receiver accepts the next number, and acknowledges this and every other packet. -/
def Receiver.receive (r : Receiver) : Packet → Receiver × Nat
  | .oack => (r, 0)
  | .data blockNum payload =>
    if blockNum = r.next then
      ({ next := (r.next + 1) % 65536, received := r.received ++ payload, blocks := r.blocks + 1 }, blockNum)
    else (r, blockNum)

/-- A packet arrives at the receiver, which answers. -/
def St.arrived (s : St) (f : Flight) : St :=
  { s with
    receiver := (s.receiver.receive f.packet).1
    acks := s.acks ++ [⟨(s.receiver.receive f.packet).2, f.block⟩] }

inductive Act where
  | opened
  | read (n : Nat)
  | blockRead
  /-- `open` or `read` raises. -/
  | storageFails
  /-- `ack_received.wait` returns. -/
  | wake
  | timeout
  | shutdown
  /-- `cleanup`, by the transfer or by the server. -/
  | cleanup
  | deliver (f : Flight)
  | deliverAck (a : Ack)

def step (cfg : Config) (s : St) : Act → Option St
  | .opened => match s.pc with
    | .opening => some s.loop
    | _ => none
  | .read n => match s.pc with
    | .reading data =>
      if 0 < n ∧ data.length + n ≤ cfg.blockSize ∧ s.pos + n ≤ cfg.file.length then
        some { s with pc := .reading (data ++ (cfg.file.drop s.pos).take n), pos := s.pos + n }
      else none
    | _ => none
  | .blockRead => match s.pc with
    | .reading data =>
      if cfg.blockSize ≤ data.length ∨ cfg.file.length ≤ s.pos then some (s.handleDataBlock cfg data)
      else none
    | _ => none
  | .storageFails => match s.pc with
    | .opening | .reading _ => some { s with pc := .ended }
    | _ => none
  | .wake => match s.pc with
    | .waiting job expected attempt =>
      if s.ackReceived then
        if s.lastAck = expected then some (s.succeeded cfg job)
        else some (s.attempt cfg job expected (attempt + 1))
      else none
    | _ => none
  | .timeout => match s.pc with
    | .waiting job expected attempt => some (s.attempt cfg job expected (attempt + 1))
    | _ => none
  | .shutdown => some { s with shutdown := true }
  | .cleanup => some { s with transport := false }
  | .deliver f => if f ∈ s.flights then some (s.arrived f) else none
  | .deliverAck a =>
    if a ∈ s.acks ∧ s.transport = true then some (s.handleAck cfg a.blockNum) else none

def sys (cfg : Config) : Sys St Act := ⟨fun s => s = start cfg, step cfg⟩

/-- No packet is delayed by 65536 blocks or more: the receiver that gets a block does not wait for one that
is so far ahead, and the sender that gets an acknowledgement is not at one. -/
def timely (s : St) : Act → Bool
  | .deliver f => decide (s.receiver.blocks + 1 < f.block + 65536)
  | .deliverAck a => decide (s.block < a.block + 65536)
  | _ => true

variable {cfg : Config} {s s' : St} {job : Job}

/-! ## The file in blocks -/

/-- The bytes of block `i + 1`. -/
def Config.blockAt (cfg : Config) (i : Nat) : Bytes := (cfg.file.drop (i * cfg.blockSize)).take cfg.blockSize

theorem take_append_blockAt (cfg : Config) (i : Nat) :
    cfg.file.take (i * cfg.blockSize) ++ cfg.blockAt i = cfg.file.take ((i + 1) * cfg.blockSize) := by
  rw [Config.blockAt, Nat.add_mul, Nat.one_mul, take_add]

theorem length_blockAt (cfg : Config) (i : Nat) :
    (cfg.blockAt i).length = min cfg.blockSize (cfg.file.length - i * cfg.blockSize) := by
  rw [Config.blockAt, length_take, length_drop]

variable {i : Nat}

theorem length_le_of_short (h : (cfg.blockAt i).length < cfg.blockSize) :
    cfg.file.length ≤ (i + 1) * cfg.blockSize := by
  rw [length_blockAt] at h
  rw [Nat.add_mul, Nat.one_mul]
  omega

theorem eq_blockAt {data : Bytes} (hlen : data.length ≤ cfg.blockSize)
    (hdata : data = (cfg.file.drop (i * cfg.blockSize)).take data.length)
    (hend : cfg.blockSize ≤ data.length ∨ cfg.file.length ≤ i * cfg.blockSize + data.length) :
    data = cfg.blockAt i := by
  rcases hend with hend | hend
  · rwa [le_antisymm hlen hend] at hdata
  · have hdrop : (cfg.file.drop (i * cfg.blockSize)).length ≤ data.length := by
      rw [length_drop]
      omega
    rw [Config.blockAt, take_of_length_le (hdrop.trans hlen)]
    rwa [take_of_length_le hdrop] at hdata

/-! ## The packets -/

/-- A packet carries the number and the bytes of its block. -/
def Flight.Right (cfg : Config) (f : Flight) : Prop :=
  match f.packet with
  | .oack => f.block = 0
  | .data blockNum payload => blockNum = f.block % 65536 ∧ ∃ i, f.block = i + 1 ∧ payload = cfg.blockAt i

/-- What does not depend on where the transfer is. -/
structure Wire (cfg : Config) (s : St) : Prop where
  link : Link s.block s.receiver.blocks (s.flights.map Flight.block) (s.acks.map Ack.block)
  number : s.blockNum = s.block % 65536
  next : s.receiver.next = (s.receiver.blocks + 1) % 65536
  received : s.receiver.received = cfg.file.take (s.receiver.blocks * cfg.blockSize)
  flights : ∀ f ∈ s.flights, f.Right cfg
  acks : ∀ a ∈ s.acks, a.blockNum = a.block % 65536
  current : ∀ f, s.currentPacket = some f → f.Right cfg ∧ f.block ≤ s.block
  delivered : s.delivered = true → cfg.file.length ≤ s.receiver.blocks * cfg.blockSize

theorem Wire.local (h : Wire cfg s) (ackReceived : Bool) (lastAck : Nat) (oackConfirmed : Bool) (pc : Pc)
    (pos : Nat) (transport shutdown : Bool) :
    Wire cfg { s with
      ackReceived := ackReceived, lastAck := lastAck, oackConfirmed := oackConfirmed, pc := pc, pos := pos
      transport := transport, shutdown := shutdown } :=
  { h with }

theorem Wire.resend (h : Wire cfg s) : Wire cfg { s with flights := s.flights ++ s.currentPacket.toList } := by
  cases hc : s.currentPacket with
  | none =>
    exact { h with link := by simpa using h.link, flights := by simpa using h.flights, current := nofun }
  | some f =>
    obtain ⟨hright, hle⟩ := h.current f hc
    refine { h with link := ?_, flights := fun g hg => ?_, current := ?_ }
    · simpa using h.link.send hle
    · rcases mem_append.mp hg with hg | hg
      · exact h.flights g hg
      · rw [mem_singleton.mp hg]
        exact hright
    · simpa [hc] using h.current

theorem Wire.advance (h : Wire cfg s) (hr : s.block ≤ s.receiver.blocks) :
    Wire cfg { s with blockNum := (s.blockNum + 1) % 65536, block := s.block + 1 } := by
  refine { h with link := h.link.advance hr, number := ?_, current := fun f hf => ?_ }
  · rw [h.number]
    exact (Nat.mod_add_mod _ _ _)
  · obtain ⟨hright, hle⟩ := h.current f hf
    exact ⟨hright, hle.trans (Nat.le_succ _)⟩

/-! ## The sender -/

def JobOk (cfg : Config) (block pos : Nat) : Job → Prop
  | .oack => block = 0 ∧ pos = 0
  | job => ∃ i, block = i + 1 ∧ job.payload = cfg.blockAt i ∧ pos = i * cfg.blockSize + job.payload.length

def PcOk (cfg : Config) (s : St) : Prop :=
  match s.pc with
  | .opening => s.block = 1 ∧ s.pos = 0
  | .reading data => ∃ i, s.block = i + 1 ∧ s.pos = i * cfg.blockSize + data.length ∧
      data.length ≤ cfg.blockSize ∧ data = (cfg.file.drop (i * cfg.blockSize)).take data.length
  | .waiting job expected _ => expected = s.blockNum ∧ JobOk cfg s.block s.pos job ∧
      (s.ackReceived = true → s.lastAck = expected → s.block ≤ s.receiver.blocks)
  | .ended => True

structure Inv (cfg : Config) (s : St) : Prop where
  wire : Wire cfg s
  pc : PcOk cfg s

theorem Wire.ended (h : Wire cfg s) : Inv cfg { s with pc := .ended } := ⟨h.local .., trivial⟩

theorem inv_attempt (h : Wire cfg s) (hjob : JobOk cfg s.block s.pos job) (k : Nat) :
    Inv cfg (s.attempt cfg job s.blockNum k) := by
  unfold St.attempt
  split
  · exact ⟨h.resend.local .., rfl, hjob, nofun⟩
  · exact h.ended

theorem JobOk.right (hjob : JobOk cfg s.block s.pos job) (hnum : s.blockNum = s.block % 65536) :
    Flight.Right cfg ⟨job.packet s.blockNum, s.block⟩ ∧ job.expected s.blockNum = s.blockNum := by
  cases job with
  | oack => exact ⟨hjob.1, by rw [hnum, hjob.1]; rfl⟩
  | emptyFile | data | finalBlock =>
    obtain ⟨i, hi, hp, -⟩ := hjob
    exact ⟨⟨hnum, i, hi, hp⟩, rfl⟩

section

variable (h : Wire cfg s)
include h

theorem inv_sendWithRetries (hjob : JobOk cfg s.block s.pos job) : Inv cfg (s.sendWithRetries cfg job) := by
  obtain ⟨hright, hexp⟩ := hjob.right h.number
  unfold St.sendWithRetries
  rw [hexp]
  refine inv_attempt (s := { s with currentPacket := some ⟨job.packet s.blockNum, s.block⟩ }) ?_ hjob 1
  refine { h with current := fun f hf => ?_ }
  cases hf
  exact ⟨hright, le_rfl⟩

theorem inv_handleDataBlock {data : Bytes} (hi : s.block = i + 1)
    (hdata : data = cfg.blockAt i) (hpos : s.pos = i * cfg.blockSize + data.length) :
    Inv cfg (s.handleDataBlock cfg data) := by
  unfold St.handleDataBlock
  split
  · rename_i hnil
    obtain ⟨rfl, -⟩ := hnil
    exact inv_sendWithRetries h ⟨i, hi, hdata, hpos⟩
  · split
    · exact inv_sendWithRetries h ⟨i, hi, hdata, hpos⟩
    · rename_i hnil
      obtain rfl := not_not.mp hnil
      exact inv_sendWithRetries h ⟨i, hi, hdata, hpos⟩

theorem inv_loop (hi : s.block = i + 1) (hpos : s.pos = i * cfg.blockSize) : Inv cfg s.loop := by
  unfold St.loop
  split
  · exact h.ended
  · exact ⟨h.local .., i, hi, hpos, Nat.zero_le _, rfl⟩

theorem inv_initialized (hb : s.block = 0) (hpos : s.pos = 0) : Inv cfg (s.initialized cfg) := by
  have hnum : (s.blockNum + 1) % 65536 = 1 := by rw [h.number, hb]
  have hadv := h.advance (by omega)
  rw [hnum, hb] at hadv
  exact ⟨hadv.local .., rfl, hpos⟩

theorem Wire.noteDelivered (hi : s.block = i + 1) (hr : s.block ≤ s.receiver.blocks) :
    Wire cfg (s.noteDelivered cfg (cfg.blockAt i)) := by
  refine { h with delivered := fun hd => ?_ }
  rcases Bool.or_eq_true_iff.mp hd with hd | hd
  · exact h.delivered hd
  · refine (length_le_of_short (of_decide_eq_true hd)).trans ?_
    exact Nat.mul_le_mul_right _ (hi ▸ hr)

theorem inv_succeeded (hjob : JobOk cfg s.block s.pos job)
    (hr : s.block ≤ s.receiver.blocks) : Inv cfg (s.succeeded cfg job) := by
  cases job with
  | oack => exact inv_initialized h hjob.1 hjob.2
  | emptyFile | finalBlock =>
    obtain ⟨i, hi, hp, -⟩ := hjob
    have hnote := h.noteDelivered hi hr
    rw [← hp] at hnote
    exact hnote.ended
  | data payload =>
    obtain ⟨i, hi, hp, hpos⟩ := hjob
    have hnote := h.noteDelivered hi hr
    rw [← hp] at hnote
    have hadv := hnote.advance hr
    simp only [St.succeeded]
    split
    · exact hadv.ended
    · rename_i hfull
      have hlen : payload.length = cfg.blockSize := by
        refine le_antisymm ?_ (not_lt.mp hfull)
        have hp' : payload = cfg.blockAt i := hp
        rw [hp']
        exact length_take_le _ _
      refine inv_loop (i := i + 1) hadv (congrArg (· + 1) hi) ?_
      calc s.pos = i * cfg.blockSize + payload.length := hpos
        _ = (i + 1) * cfg.blockSize := by rw [hlen, Nat.add_mul, Nat.one_mul]

end

theorem PcOk.keep (h : PcOk cfg s) (hpc : s'.pc = s.pc) (hblock : s'.block = s.block) (hpos : s'.pos = s.pos)
    (hnum : s'.blockNum = s.blockNum)
    (hacked : (s.ackReceived = true → s.lastAck = s.blockNum → s.block ≤ s.receiver.blocks) →
      s'.ackReceived = true → s'.lastAck = s.blockNum → s.block ≤ s'.receiver.blocks) : PcOk cfg s' := by
  unfold PcOk at h ⊢
  rw [hpc, hblock, hpos, hnum]
  cases hp : s.pc with
  | opening | reading => simpa only [hp] using h
  | ended => trivial
  | waiting job expected attempt =>
    simp only [hp] at h
    obtain ⟨rfl, hjob, htrue⟩ := h
    exact ⟨rfl, hjob, hacked htrue⟩

theorem inv_handleAck {a : Ack} (h : Inv cfg s) (ha : a ∈ s.acks) (hlate : s.block < a.block + 65536) :
    Inv cfg (s.handleAck cfg a.blockNum) := by
  have htrue : a.blockNum = s.blockNum → s.block ≤ s.receiver.blocks := by
    intro hnum
    rw [h.wire.acks a ha, h.wire.number] at hnum
    exact h.wire.link.acknowledged (mem_map_of_mem ha) hlate hnum
  unfold St.handleAck
  split
  · exact ⟨h.wire.local .., h.pc.keep rfl rfl rfl rfl fun _ _ => htrue⟩
  · split
    · exact ⟨h.wire.local .., h.pc.keep rfl rfl rfl rfl fun _ _ => htrue⟩
    · split
      · exact ⟨h.wire.resend, h.pc.keep rfl rfl rfl rfl id⟩
      · exact h

/-! ## The receiver -/

theorem PcOk.receiver (h : PcOk cfg s) {r : Receiver} (hr : s.receiver.blocks ≤ r.blocks) (acks : List Ack) :
    PcOk cfg { s with receiver := r, acks := acks } :=
  h.keep rfl rfl rfl rfl fun htrue hack hlast => (htrue hack hlast).trans hr

theorem Wire.acknowledge {number block : Nat} (h : Wire cfg s) (hle : block ≤ s.receiver.blocks)
    (hnum : number = block % 65536) : Wire cfg { s with acks := s.acks ++ [⟨number, block⟩] } := by
  refine { h with link := ?_, acks := fun a ha => ?_ }
  · simpa using h.link.acknowledge hle
  · rcases mem_append.mp ha with ha | ha
    · exact h.acks a ha
    · rw [mem_singleton.mp ha]
      exact hnum

variable {f : Flight}

theorem Wire.accept {number : Nat} {payload : Bytes} (h : Wire cfg s) (hf : f ∈ s.flights)
    (hp : f.packet = .data number payload) (hlate : s.receiver.blocks + 1 < f.block + 65536)
    (hnext : number = s.receiver.next) :
    f.block = s.receiver.blocks + 1 ∧
    Wire cfg { s with receiver := { next := (s.receiver.next + 1) % 65536
                                    received := s.receiver.received ++ payload
                                    blocks := s.receiver.blocks + 1 } } := by
  have hright := h.flights f hf
  rw [Flight.Right, hp] at hright
  obtain ⟨hnum, i, hi, hpayload⟩ := hright
  have hmod : f.block % 65536 = (s.receiver.blocks + 1) % 65536 := by rw [← hnum, hnext, h.next]
  obtain ⟨hblock, hlink⟩ := h.link.accept (mem_map_of_mem hf) hlate hmod
  obtain rfl : i = s.receiver.blocks := by omega
  refine ⟨hblock, hlink, h.number, ?_, ?_, h.flights, h.acks, h.current, fun hd => ?_⟩
  · rw [h.next]
    exact Nat.mod_add_mod _ _ _
  · rw [h.received, hpayload]
    exact take_append_blockAt cfg _
  · exact (h.delivered hd).trans (Nat.mul_le_mul_right _ (Nat.le_succ _))

theorem inv_deliver (h : Inv cfg s) (hf : f ∈ s.flights) (hlate : s.receiver.blocks + 1 < f.block + 65536) :
    Inv cfg (s.arrived f) := by
  have hright := h.wire.flights f hf
  cases hp : f.packet with
  | oack =>
    have hzero : f.block = 0 := by simpa [Flight.Right, hp] using hright
    simp only [St.arrived, hp, Receiver.receive]
    exact ⟨h.wire.acknowledge (by omega) (by rw [hzero]), h.pc.receiver le_rfl _⟩
  | data number payload =>
    have hnum : number = f.block % 65536 := by
      rw [Flight.Right, hp] at hright
      exact hright.1
    simp only [St.arrived, hp, Receiver.receive]
    split
    · rename_i hnext
      obtain ⟨hblock, hwire⟩ := h.wire.accept hf hp hlate hnext
      exact ⟨hwire.acknowledge hblock.le hnum, h.pc.receiver (Nat.le_succ _) _⟩
    · rename_i hnext
      have hdup := h.wire.link.duplicate (mem_map_of_mem hf) (by rw [← hnum, ← h.wire.next]; exact hnext)
      exact ⟨h.wire.acknowledge hdup hnum, h.pc.receiver le_rfl _⟩

/-! ## Every run -/

theorem inv_start (cfg : Config) : Inv cfg (start cfg) := by
  have hwire : Wire cfg {} :=
    ⟨⟨by decide, le_rfl, nofun, nofun⟩, rfl, rfl, by simp, nofun, nofun, nofun, nofun⟩
  unfold start
  split
  · exact ⟨hwire, trivial⟩
  · exact inv_sendWithRetries hwire ⟨rfl, rfl⟩
  · exact inv_initialized hwire rfl rfl

inductive Stepped (cfg : Config) (s : St) : Act → St → Prop
  | opened (hpc : s.pc = .opening) : Stepped cfg s .opened s.loop
  | read {data : Bytes} {n : Nat} (hpc : s.pc = .reading data)
      (hn : 0 < n ∧ data.length + n ≤ cfg.blockSize ∧ s.pos + n ≤ cfg.file.length) :
      Stepped cfg s (.read n)
        { s with pc := .reading (data ++ (cfg.file.drop s.pos).take n), pos := s.pos + n }
  | blockRead {data : Bytes} (hpc : s.pc = .reading data)
      (hend : cfg.blockSize ≤ data.length ∨ cfg.file.length ≤ s.pos) :
      Stepped cfg s .blockRead (s.handleDataBlock cfg data)
  | storageFails (hpc : ∀ job expected attempt, s.pc ≠ .waiting job expected attempt) :
      Stepped cfg s .storageFails { s with pc := .ended }
  | acked {job : Job} {expected attempt : Nat} (hpc : s.pc = .waiting job expected attempt)
      (hack : s.ackReceived = true) (hlast : s.lastAck = expected) : Stepped cfg s .wake (s.succeeded cfg job)
  | again {job : Job} {expected attempt : Nat} (hpc : s.pc = .waiting job expected attempt)
      (hlast : s.lastAck ≠ expected) : Stepped cfg s .wake (s.attempt cfg job expected (attempt + 1))
  | timeout {job : Job} {expected attempt : Nat} (hpc : s.pc = .waiting job expected attempt) :
      Stepped cfg s .timeout (s.attempt cfg job expected (attempt + 1))
  | shutdown : Stepped cfg s .shutdown { s with shutdown := true }
  | cleanup : Stepped cfg s .cleanup { s with transport := false }
  | deliver {f : Flight} (hf : f ∈ s.flights) : Stepped cfg s (.deliver f) (s.arrived f)
  | deliverAck {ack : Ack} (hack : ack ∈ s.acks) : Stepped cfg s (.deliverAck ack) (s.handleAck cfg ack.blockNum)

variable {a : Act}

theorem stepped (hst : step cfg s a = some s') : Stepped cfg s a s' := by
  cases a <;> simp only [step] at hst
  case opened | timeout =>
    split at hst <;> cases hst
    constructor
    assumption
  case read | blockRead =>
    split at hst
    · split at hst <;> cases hst
      constructor <;> assumption
    · cases hst
  case storageFails =>
    split at hst <;> cases hst <;> exact .storageFails (by simp [*])
  case wake =>
    split at hst
    · split at hst
      · split at hst <;> cases hst
        · exact .acked ‹_› ‹_› ‹_›
        · exact .again ‹_› ‹_›
      · cases hst
    · cases hst
  case shutdown | cleanup =>
    cases hst
    constructor
  case deliver =>
    split at hst <;> cases hst
    exact .deliver ‹_›
  case deliverAck =>
    split at hst <;> cases hst
    exact .deliverAck (And.left ‹_›)

theorem inv_step (h : Inv cfg s) (ht : timely s a = true) (hst : step cfg s a = some s') : Inv cfg s' := by
  have hpcOk := h.pc
  unfold PcOk at hpcOk
  cases stepped hst with
  | opened hpc =>
    simp only [hpc] at hpcOk
    exact inv_loop (i := 0) h.wire hpcOk.1 (by rw [hpcOk.2, Nat.zero_mul])
  | read hpc hn =>
    rename_i data n
    simp only [hpc] at hpcOk
    obtain ⟨i, hi, hpos, -, hdata⟩ := hpcOk
    have hlen : (data ++ (cfg.file.drop s.pos).take n).length = data.length + n := by
      simp only [length_append, length_take, length_drop]
      omega
    refine ⟨h.wire.local .., i, hi, ?_, ?_, ?_⟩
    · rw [hlen, hpos, Nat.add_assoc]
    · rw [hlen]
      exact hn.2.1
    · rw [hlen, take_add, ← hdata, drop_drop, hpos]
  | blockRead hpc hend =>
    simp only [hpc] at hpcOk
    obtain ⟨i, hi, hpos, hlen, hdata⟩ := hpcOk
    exact inv_handleDataBlock h.wire hi (eq_blockAt hlen hdata (by rwa [← hpos])) hpos
  | storageFails => exact h.wire.ended
  | acked hpc hack hlast =>
    simp only [hpc] at hpcOk
    obtain ⟨rfl, hjob, htrue⟩ := hpcOk
    exact inv_succeeded h.wire hjob (htrue hack hlast)
  | again hpc | timeout hpc =>
    simp only [hpc] at hpcOk
    obtain ⟨rfl, hjob, -⟩ := hpcOk
    exact inv_attempt h.wire hjob _
  | shutdown | cleanup => exact ⟨h.wire.local .., h.pc⟩
  | deliver hf => exact inv_deliver h hf (of_decide_eq_true ht)
  | deliverAck hack => exact inv_handleAck h hack (of_decide_eq_true ht)

theorem inv_reach (h : (sys cfg).ReachIf (fun s a => timely s a = true) s) : Inv cfg s := by
  have hind : (sys cfg).InductiveIf (fun s a => timely s a = true) (Inv cfg) :=
    ⟨by rintro _ rfl; exact inv_start cfg, fun _ _ _ hi ht hst => inv_step hi ht hst⟩
  exact hind.reach h

theorem Wire.received_prefix (h : Wire cfg s) : s.receiver.received <+: cfg.file := by
  rw [h.received]
  exact take_prefix _ _

theorem Wire.received_eq (h : Wire cfg s) (hd : s.delivered = true) : s.receiver.received = cfg.file := by
  rw [h.received]
  exact take_of_length_le (h.delivered hd)

/-- **A transfer delivers the exact file.** If no packet is delayed by 65536 blocks or more, the receiver
always holds a part of the file from its start. Once `_send_with_retries` has succeeded for a block that is
shorter than the block size, it holds the file. -/
theorem transfer_exact (cfg : Config) (s : St) (h : (sys cfg).ReachIf (fun s a => timely s a = true) s) :
    s.receiver.received <+: cfg.file ∧ (s.delivered = true → s.receiver.received = cfg.file) :=
  ⟨(inv_reach h).wire.received_prefix, (inv_reach h).wire.received_eq⟩

/-- Three bytes in blocks of two, with options. -/
def sampleConfig : Config :=
  { file := [7, 8, 9], blockSize := 2, retries := 3, serverTimeout := 5, options := { blksize := some 2 } }

/-- The OACK and its acknowledgement come twice, and the second acknowledgement sends the OACK again while
the first block is being read. Block 1 is lost once and then comes twice; the last acknowledgement is lost
once. -/
def sampleRun : List Act :=
  [.deliver ⟨.oack, 0⟩, .deliver ⟨.oack, 0⟩, .deliverAck ⟨0, 0⟩, .wake, .opened, .deliverAck ⟨0, 0⟩,
    .read 1, .read 1, .blockRead, .timeout, .deliver ⟨.data 1 [7, 8], 1⟩, .deliver ⟨.data 1 [7, 8], 1⟩,
    .deliverAck ⟨1, 1⟩, .wake, .read 1, .deliverAck ⟨1, 1⟩, .blockRead, .deliver ⟨.data 2 [9], 2⟩,
    .deliver ⟨.oack, 0⟩, .timeout, .deliver ⟨.data 2 [9], 2⟩, .deliverAck ⟨2, 2⟩, .wake, .cleanup]

theorem transfer_exact_sample : ∃ s, (sys sampleConfig).ReachIf (fun s a => timely s a = true) s ∧
    s.delivered = true ∧ s.receiver.received = [7, 8, 9] := by
  have hstart : (sys sampleConfig).ReachIf (fun s a => timely s a = true) (start sampleConfig) := .init rfl
  obtain ⟨s, hreach, hs⟩ := Sys.ReachIf.execIf_any hstart sampleRun (p := fun s => s.delivered)
    (by decide +kernel)
  exact ⟨s, hreach, hs, (transfer_exact sampleConfig s hreach).2 hs⟩

/-! ## A network that delivers -/

abbrev Path (cfg : Config) (s s' : St) : Prop := (sys cfg).PathIf (fun s a => timely s a = true) s s'

theorem Path.single (ht : timely s a = true) (hst : step cfg s a = some s') : Path cfg s s' :=
  .step .refl ht hst

/-- The transfer is about to read a block, and the receiver waits for it. -/
structure Ready (cfg : Config) (s : St) (i : Nat) : Prop where
  pc : s.pc = .reading []
  pos : s.pos = i * cfg.blockSize
  block : s.block = i + 1
  blocks : s.receiver.blocks = i
  transport : s.transport = true
  shutdown : s.shutdown = false

theorem Ready.reads (h : Ready cfg s i) :
    Path cfg s { s with
      pc := .reading (cfg.blockAt i), pos := i * cfg.blockSize + (cfg.blockAt i).length } := by
  have hlen := length_blockAt cfg i
  by_cases hzero : (cfg.blockAt i).length = 0
  · rw [hzero, length_eq_zero_iff.mp hzero, ← h.pc, Nat.add_zero, ← h.pos]
    exact .refl
  · refine Path.single (a := .read (cfg.blockAt i).length) rfl ?_
    have htake : (cfg.file.drop (i * cfg.blockSize)).take (cfg.blockAt i).length = cfg.blockAt i :=
      (prefix_iff_eq_take.mp ( take_prefix _ _)).symm
    simp only [step, h.pc, h.pos]
    rw [if_pos ⟨by omega, by simp; omega, by omega⟩, htake, nil_append]

def St.flight (s : St) (data : Bytes) : Flight := ⟨.data s.blockNum data, s.block⟩

theorem handleDataBlock_eq (cfg : Config) (s : St) (data : Bytes) (hretries : 0 < cfg.retries)
    (htransport : s.transport = true) :
    ∃ job : Job, (job = .data data ∨ data = [] ∧ (job = .emptyFile ∨ job = .finalBlock)) ∧
      s.handleDataBlock cfg data = { s with
        currentPacket := some (s.flight data)
        flights := s.flights ++ [s.flight data]
        ackReceived := false
        pc := .waiting job s.blockNum 1 } := by
  have hgo : 1 ≤ cfg.retries ∧ s.transport = true := ⟨hretries, htransport⟩
  unfold St.handleDataBlock
  split
  · rename_i hnil
    obtain ⟨rfl, -⟩ := hnil
    exact ⟨.emptyFile, .inr ⟨rfl, .inl rfl⟩, if_pos hgo⟩
  · split
    · exact ⟨.data data, .inl rfl, if_pos hgo⟩
    · rename_i hnil
      obtain rfl := not_not.mp hnil
      exact ⟨.finalBlock, .inr ⟨rfl, .inr rfl⟩, if_pos hgo⟩

theorem handleAck_own (cfg : Config) (s : St) :
    ∃ confirmed, s.handleAck cfg s.blockNum =
      { s with oackConfirmed := confirmed, lastAck := s.blockNum, ackReceived := true } := by
  unfold St.handleAck
  split
  · exact ⟨true, rfl⟩
  · exact ⟨s.oackConfirmed, if_pos rfl⟩

theorem exchange (cfg : Config) (job : Job) {k : Nat} (hpc : s.pc = .waiting job s.blockNum k)
    (hf : f ∈ s.flights) (hblock : f.block = s.block)
    (hnumber : (s.receiver.receive f.packet).2 = s.blockNum) (hbehind : s.receiver.blocks ≤ s.block)
    (htransport : s.transport = true) :
    ∃ confirmed, Path cfg s (St.succeeded cfg
      { s.arrived f with oackConfirmed := confirmed, lastAck := s.blockNum, ackReceived := true } job) := by
  have hdeliver : Path cfg s (s.arrived f) :=
    Path.single (a := .deliver f) (decide_eq_true (by omega)) (if_pos hf)
  obtain ⟨confirmed, hack⟩ := handleAck_own cfg (s.arrived f)
  have hmem : ⟨s.blockNum, s.block⟩ ∈ (s.arrived f).acks := by simp [St.arrived, hnumber, hblock]
  have hanswer : Path cfg (s.arrived f)
      { s.arrived f with oackConfirmed := confirmed, lastAck := s.blockNum, ackReceived := true } := by
    refine Path.single (a := .deliverAck ⟨s.blockNum, s.block⟩)
      (decide_eq_true (Nat.lt_add_of_pos_right (by decide))) ?_
    exact (if_pos ⟨hmem, htransport⟩).trans (congrArg some hack)
  refine ⟨confirmed, (hdeliver.trans hanswer).trans (Path.single (a := .wake) rfl ?_)⟩
  simp [step, St.arrived, hpc]

theorem delivered_of_short (hjob : job ≠ .oack) (hshort : job.payload.length < cfg.blockSize) :
    (s.succeeded cfg job).delivered = true := by
  cases job with
  | oack => exact absurd rfl hjob
  | emptyFile | finalBlock =>
    have hsize : 0 < cfg.blockSize := hshort
    simp [St.succeeded, hsize]
  | data payload =>
    have hlen : payload.length < cfg.blockSize := hshort
    simp [St.succeeded, hlen]

theorem ready_of_full {payload : Bytes} (hfull : ¬ payload.length < cfg.blockSize)
    (hpos : s.pos = (i + 1) * cfg.blockSize) (hblock : s.block = i + 1)
    (hblocks : s.receiver.blocks = i + 1) (htransport : s.transport = true) (hshutdown : s.shutdown = false) :
    Ready cfg (s.succeeded cfg (.data payload)) (i + 1) := by
  simp only [St.succeeded, if_neg hfull, St.loop, St.noteDelivered, hshutdown]
  exact ⟨rfl, hpos, congrArg (· + 1) hblock, hblocks, htransport, rfl⟩

theorem Ready.round (h : Ready cfg s i) (hi : Inv cfg s) (hsize : 0 < cfg.blockSize)
    (hretries : 0 < cfg.retries) :
    ∃ s', Path cfg s s' ∧
      (s'.delivered = true ∨ Ready cfg s' (i + 1) ∧ (i + 1) * cfg.blockSize ≤ cfg.file.length) := by
  have hlen := length_blockAt cfg i
  have hend : cfg.blockSize ≤ (cfg.blockAt i).length ∨
      cfg.file.length ≤ i * cfg.blockSize + (cfg.blockAt i).length := by omega
  obtain ⟨job, hjob, hsend⟩ := handleDataBlock_eq cfg
    { s with pc := .reading (cfg.blockAt i), pos := i * cfg.blockSize + (cfg.blockAt i).length }
    (cfg.blockAt i) hretries h.transport
  have hpath := h.reads.trans (Path.single (a := .blockRead) rfl ((if_pos hend).trans (congrArg some hsend)))
  have hnext : s.blockNum = s.receiver.next := by rw [hi.wire.number, hi.wire.next, h.block, h.blocks]
  have hreceive : s.receiver.receive (.data s.blockNum (cfg.blockAt i)) =
      ({ next := (s.receiver.next + 1) % 65536, received := s.receiver.received ++ cfg.blockAt i,
         blocks := s.receiver.blocks + 1 }, s.blockNum) := if_pos hnext
  obtain ⟨confirmed, hexchange⟩ := exchange cfg job (k := 1) (f := s.flight (cfg.blockAt i))
    (s := { s with
      currentPacket := some (s.flight (cfg.blockAt i)), flights := s.flights ++ [s.flight (cfg.blockAt i)]
      ackReceived := false, pc := .waiting job s.blockNum 1
      pos := i * cfg.blockSize + (cfg.blockAt i).length })
    rfl (by simp) rfl (congrArg Prod.snd hreceive) hi.wire.link.ahead h.transport
  refine ⟨_, hpath.trans hexchange, ?_⟩
  by_cases hshort : (cfg.blockAt i).length < cfg.blockSize
  · refine .inl (delivered_of_short ?_ ?_) <;> rcases hjob with rfl | ⟨-, rfl | rfl⟩
    · nofun
    · nofun
    · nofun
    · exact hshort
    · exact hsize
    · exact hsize
  · have hfull : (cfg.blockAt i).length = cfg.blockSize := by omega
    have hmul : (i + 1) * cfg.blockSize = i * cfg.blockSize + cfg.blockSize := by
      rw [Nat.add_mul, Nat.one_mul]
    rcases hjob with rfl | ⟨hnil, -⟩
    · refine .inr ⟨ready_of_full hshort ?_ h.block ?_ h.transport h.shutdown, by omega⟩
      · exact (congrArg (i * cfg.blockSize + ·) hfull).trans hmul.symm
      · exact (congrArg (·.1.blocks) hreceive).trans (congrArg (· + 1) h.blocks)
    · rw [hnil] at hfull
      exact absurd hfull.symm (Nat.ne_of_gt hsize)

theorem Ready.completes (h : Ready cfg s i) (hi : Inv cfg s) (hsize : 0 < cfg.blockSize)
    (hretries : 0 < cfg.retries) : ∃ s', Path cfg s s' ∧ s'.delivered = true := by
  induction hk : cfg.file.length - i * cfg.blockSize using Nat.strong_induction_on generalizing i s with
  | _ k ih =>
    obtain ⟨t, hpath, hd | ⟨hready, hle⟩⟩ := h.round hi hsize hretries
    · exact ⟨t, hpath, hd⟩
    · have hit : Inv cfg t := hpath.keep hi fun _ _ _ hu ht hst => inv_step hu ht hst
      have hless : cfg.file.length - (i + 1) * cfg.blockSize < k := by
        rw [Nat.add_mul, Nat.one_mul] at hle ⊢
        omega
      obtain ⟨u, hrest, hd⟩ := ih _ hless hready hit rfl
      exact ⟨u, hpath.trans hrest, hd⟩

theorem ready_of_opening (hpath : Path cfg s s') (hpc : s'.pc = .opening) (hblock : s'.block = 1)
    (hpos : s'.pos = 0) (hblocks : s'.receiver.blocks = 0) (htransport : s'.transport = true)
    (hshutdown : s'.shutdown = false) : ∃ t, Path cfg s t ∧ Ready cfg t 0 := by
  refine ⟨{ s' with pc := .reading [] }, hpath.trans (Path.single (a := .opened) rfl ?_),
    rfl, by rw [hpos, Nat.zero_mul], hblock, hblocks, htransport, hshutdown⟩
  simp [step, hpc, St.loop, hshutdown]

theorem start_ready (hretries : 0 < cfg.retries) (hoptions : cfg.needsOack.isSome = true) :
    ∃ s, Path cfg (start cfg) s ∧ Ready cfg s 0 := by
  obtain ⟨oack, hoack⟩ := Option.isSome_iff_exists.mp hoptions
  cases oack with
  | false =>
    have hstart : start cfg = St.initialized cfg {} := by simp only [start, hoack]
    rw [hstart]
    exact ready_of_opening .refl rfl rfl rfl rfl rfl rfl
  | true =>
    have hstart : start cfg =
        { currentPacket := some ⟨.oack, 0⟩, flights := [⟨.oack, 0⟩], pc := .waiting .oack 0 1 } := by
      simp only [start, hoack]
      exact if_pos ⟨hretries, rfl⟩
    rw [hstart]
    obtain ⟨confirmed, hexchange⟩ := exchange cfg .oack (k := 1) (f := ⟨.oack, 0⟩)
      (s := { currentPacket := some ⟨.oack, 0⟩, flights := [⟨.oack, 0⟩], pc := .waiting .oack 0 1 })
      rfl (by simp) rfl rfl le_rfl rfl
    exact ready_of_opening hexchange rfl rfl rfl rfl rfl rfl

/-- **Every file can be transferred.** Over a network that delivers, with a retry and unless the options
raise a `KeyError`, the receiver gets the file and the transfer knows. -/
theorem transfer_completes (cfg : Config) (hsize : 0 < cfg.blockSize) (hretries : 0 < cfg.retries)
    (hoptions : cfg.needsOack.isSome = true) :
    ∃ s, (sys cfg).ReachIf (fun s a => timely s a = true) s ∧ s.delivered = true ∧
      s.receiver.received = cfg.file := by
  obtain ⟨t, hstart, hready⟩ := start_ready hretries hoptions
  have hit : Inv cfg t := hstart.keep (inv_start cfg) fun _ _ _ hu ht hst => inv_step hu ht hst
  obtain ⟨u, hrest, hd⟩ := hready.completes hit hsize hretries
  have hreach := Sys.ReachIf.path (.init rfl) (hstart.trans hrest)
  exact ⟨u, hreach, hd, (inv_reach hreach).wire.received_eq hd⟩

theorem transfer_completes_sample : ∃ s, (sys sampleConfig).ReachIf (fun s a => timely s a = true) s ∧
    s.delivered = true ∧ s.receiver.received = sampleConfig.file :=
  transfer_completes sampleConfig (by decide) (by decide) (by decide)

end Jumpstarter.TftpTransfer
