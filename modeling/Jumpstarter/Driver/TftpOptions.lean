import Jumpstarter.Driver.Tftp
import Jumpstarter.Lib.Dict

/-!
# The options of a TFTP read request

`_negotiate_options` of `jumpstarter_driver_tftp/server.py`, the transfer that `_start_transfer` makes from
its result, and the OACK of `_initialize_transfer`.

Three defaults meet here. Without a `blksize` option the transfer uses the server's block size and nothing
about it is negotiated; with one that is no number from 512 to 65464 the server's block size is negotiated;
and an OACK is sent if what was negotiated is not 512. RFC 2348 has 512 without an OACK, and a number up to
the requested one in it.

* `sameBlockSize_iff`: when the two ends use the same block size.
* `needsOack_eq_none`: when `_initialize_transfer` raises a `KeyError`.
-/

namespace Jumpstarter.TftpTransfer

open Lib

/-- `int(x)` of a float. -/
def truncate (x : Rat) : Int := x.num.tdiv x.den

/-- `TftpServer`. -/
structure Server where
  blockSize : Nat := 512
  timeout : Rat := 5
  retries : Nat := 3

section
/- `int(text)`; `none`: a `ValueError`. -/
variable (int : String → Option Int)

def Server.negotiateBlockSize (sv : Server) : Option String → Nat
  | none => sv.blockSize
  | some requested => match int requested with
    | none => sv.blockSize
    | some blksize => if 512 ≤ blksize ∧ blksize ≤ 65464 then blksize.toNat else sv.blockSize

def Server.negotiateTimeout (sv : Server) : Option String → Rat
  | none => sv.timeout
  | some requested => match int requested with
    | none => sv.timeout
    | some timeout => if 1 ≤ timeout ∧ timeout ≤ 255 then (timeout : Rat) else sv.timeout

/-- What is negotiated, and the block size and the timeout of the transfer. -/
@[simp] def Server.negotiateOptions (sv : Server) (options : List (String × String)) : Options × Nat × Rat :=
  let blksize := (Dict.get options "blksize").map fun requested => sv.negotiateBlockSize int (some requested)
  let timeout := (Dict.get options "timeout").map fun requested => sv.negotiateTimeout int (some requested)
  (⟨blksize, timeout.map truncate⟩, blksize.getD sv.blockSize, timeout.getD sv.timeout)

/-- The transfer of `_start_transfer`. When `_send_with_retries` times out is left open. -/
def Server.readTransfer (sv : Server) (file : Bytes) (options : List (String × String)) : Config :=
  { file := file
    blockSize := (sv.negotiateOptions int options).2.1
    retries := sv.retries
    serverTimeout := sv.timeout
    options := (sv.negotiateOptions int options).1 }

end

/-- What `_create_oack_packet` puts in the OACK, if one is sent. -/
def Config.oack (cfg : Config) : Option Options :=
  if cfg.needsOack = some true then some cfg.options else none

/-- The number of the `blksize` option in the OACK, if there is one. -/
def Config.oackBlksize (cfg : Config) : Option Nat := cfg.oack.bind Options.blksize

/-- The keys that `_initialize_transfer` reads are there. -/
def Options.readable (o : Options) : Bool :=
  o.isEmpty || match o.blksize with
    | none => false
    | some blksize => decide (blksize ≠ 512) || o.timeout.isSome

open Config

theorem needsOack_eq_none (cfg : Config) : cfg.needsOack = none ↔ cfg.options.readable = false := by
  unfold needsOack Options.readable
  cases hempty : cfg.options.isEmpty with
  | true => simp
  | false =>
    cases cfg.options.blksize with
    | none => simp
    | some blksize =>
      by_cases h512 : blksize = 512
      · cases cfg.options.timeout <;> simp [h512]
      · simp [h512]

/-! ## The block size -/

section
variable {int : String → Option Int} {sv : Server} {file : Bytes} {options : List (String × String)}

/-- The client uses 512 without an OACK that has `blksize`, and the number in it otherwise; if the transfer
starts, that is the server's block size, and it is not above the requested one. -/
def SameBlockSize (int : String → Option Int) (sv : Server) (file : Bytes)
    (options : List (String × String)) : Prop :=
  let cfg := sv.readTransfer int file options
  (cfg.needsOack ≠ none → cfg.blockSize = cfg.oackBlksize.getD 512) ∧
  ∀ blksize ∈ cfg.oackBlksize, ∀ requested ∈ (Dict.get options "blksize").bind int, (blksize : Int) ≤ requested

/-- A timeout is negotiated that is not the server's. -/
def OtherTimeout (int : String → Option Int) (sv : Server) (options : List (String × String)) : Prop :=
  ∃ requested ∈ Dict.get options "timeout",
    (truncate (sv.negotiateTimeout int (some requested)) : Rat) ≠ sv.timeout

variable {requested : String}

theorem negotiateBlockSize_of_mem {blksize : Int} (hint : int requested = some blksize)
    (h : 512 ≤ blksize ∧ blksize ≤ 65464) : (sv.negotiateBlockSize int (some requested) : Int) = blksize := by
  simp only [Server.negotiateBlockSize, hint, if_pos h]
  omega

theorem negotiateBlockSize_of_not_mem {blksize : Int} (hint : int requested = some blksize)
    (h : ¬(512 ≤ blksize ∧ blksize ≤ 65464)) : sv.negotiateBlockSize int (some requested) = sv.blockSize := by
  simp only [Server.negotiateBlockSize, hint, if_neg h]

theorem sameBlockSize_of_none (hb : Dict.get options "blksize" = none) :
    SameBlockSize int sv file options ↔ (Dict.get options "timeout" = none → sv.blockSize = 512) := by
  cases ht : Dict.get options "timeout" with
  | none =>
    simp [SameBlockSize, Server.readTransfer, needsOack, oackBlksize, oack, Options.isEmpty, hb, ht]
  | some requested =>
    simp [SameBlockSize, Server.readTransfer, needsOack, oackBlksize, oack, Options.isEmpty, hb, ht]

theorem needsOack_iff (hb : Dict.get options "blksize" = some requested) :
    (sv.readTransfer int file options).needsOack = some true ↔
      sv.negotiateBlockSize int (some requested) ≠ 512 ∨ OtherTimeout int sv options := by
  unfold needsOack OtherTimeout
  simp only [Server.readTransfer, Server.negotiateOptions, Options.isEmpty, hb]
  by_cases h512 : sv.negotiateBlockSize int (some requested) = 512
  · cases ht : Dict.get options "timeout" <;> simp [h512]
  · simp [h512]

theorem sameBlockSize_of_some (hb : Dict.get options "blksize" = some requested) :
    SameBlockSize int sv file options ↔
      ((sv.readTransfer int file options).needsOack = some true →
        ∀ n, int requested = some n → (sv.negotiateBlockSize int (some requested) : Int) ≤ n) := by
  have hused : (sv.readTransfer int file options).blockSize = sv.negotiateBlockSize int (some requested) := by
    simp [Server.readTransfer, hb]
  have hoptions : (sv.readTransfer int file options).options.blksize =
      some (sv.negotiateBlockSize int (some requested)) := by
    simp [Server.readTransfer, hb]
  by_cases hsend : (sv.readTransfer int file options).needsOack = some true
  · have hoack : (sv.readTransfer int file options).oackBlksize =
        some (sv.negotiateBlockSize int (some requested)) := by
      rw [oackBlksize, oack, if_pos hsend, Option.bind_some, hoptions]
    simp [SameBlockSize, hsend, hoack, hused, hb]
  · have hoack : (sv.readTransfer int file options).oackBlksize = none := by
      rw [oackBlksize, oack, if_neg hsend, Option.bind_none]
    have h512 : sv.negotiateBlockSize int (some requested) = 512 := by
      by_contra hne
      exact hsend ((needsOack_iff hb).mpr (.inl hne))
    simp [SameBlockSize, hsend, hoack, hused, h512]

/-- **The two ends of a TFTP transfer use the same block size** exactly if, without options, the server's
block size is 512, and, when the request has a number that is not from 512 to 65464 and an OACK is sent, the
server's block size is not above that number. -/
theorem sameBlockSize_iff (int : String → Option Int) (sv : Server) (file : Bytes)
    (options : List (String × String)) :
    SameBlockSize int sv file options ↔
      (Dict.get options "blksize" = none → Dict.get options "timeout" = none → sv.blockSize = 512) ∧
      ∀ requested ∈ (Dict.get options "blksize").bind int, ¬(512 ≤ requested ∧ requested ≤ 65464) →
        (sv.blockSize ≠ 512 ∨ OtherTimeout int sv options) → (sv.blockSize : Int) ≤ requested := by
  cases hb : Dict.get options "blksize" with
  | none => simp [sameBlockSize_of_none hb]
  | some requested =>
    rw [sameBlockSize_of_some hb, needsOack_iff hb]
    simp only [reduceCtorEq, false_implies, true_and, Option.bind_some, Option.mem_def]
    constructor
    · intro h n hn hout hsend
      rw [negotiateBlockSize_of_not_mem hn hout] at h
      exact h hsend n hn
    · intro h hsend n hn
      by_cases hin : 512 ≤ n ∧ n ≤ 65464
      · exact (negotiateBlockSize_of_mem hn hin).le
      · rw [negotiateBlockSize_of_not_mem hn hin] at hsend ⊢
        exact h n hn hin hsend

/-- `int` of some texts. -/
def sampleInt : String → Option Int
  | "1" => some 1
  | "8" => some 8
  | "1024" => some 1024
  | _ => none

/-- A server with blocks of 1024 bytes and a request without options; and the default server, asked for
blocks of 8 bytes and a timeout of one second, which answers with 512. -/
theorem not_sameBlockSize :
    ¬SameBlockSize sampleInt { blockSize := 1024 } [] [] ∧
    ¬SameBlockSize sampleInt {} [] [("blksize", "8"), ("timeout", "1")] := by
  refine ⟨?_, ?_⟩
  · rw [sameBlockSize_of_none rfl]
    decide
  · have hb : Dict.get [("blksize", "8"), ("timeout", "1")] "blksize" = some "8" := rfl
    rw [sameBlockSize_of_some hb]
    intro h
    exact absurd (h (by decide +kernel) 8 rfl) (by decide +kernel)

end

end Jumpstarter.TftpTransfer
