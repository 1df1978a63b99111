import Jumpstarter.Lib.Decoder

/-!
# Automatic decompression (`AutoDecompressIterator`)

The iterator reads chunks until it has eight bytes, looks for the signature of a compression format, and
then decompresses what it has and every further chunk with one decompressor object. At the end of the
source it flushes a decompressor that can be flushed, which is only that of `zlib`.

The decompressors are as they are documented: they stop at the end of the first member. After that `zlib`
ignores further input, and the others raise `EOFError` at the next call.

- `run_plain`, `run_detected`: a whole iteration, in terms of the pieces that the decompressor is given.
- `Member.run_content`, `Member.run_eof`, `Member.run_part`: over a payload that begins with a member, and
  over a part of one.
- `meets_iff`: the iteration gives the content of the first member only, and never asks whether a member
  was complete.
-/

namespace Jumpstarter.Encoding

open Lib List

abbrev Bytes := List UInt8

/-! ## Detection -/

inductive Compression where
  | gzip | xz | bz2 | zstd
  deriving DecidableEq

namespace Compression

def text : Compression → String
  | gzip => "gzip"
  | xz => "xz"
  | bz2 => "bz2"
  | zstd => "zstd"

/-- Its entry of `COMPRESSION_SIGNATURES`. -/
def signature : Compression → Bytes
  | gzip => [0x1f, 0x8b, 0x08]
  | xz => [0xfd, 0x37, 0x7a, 0x58, 0x5a, 0x00]
  | bz2 => [0x42, 0x5a, 0x68]
  | zstd => [0x28, 0xb5, 0x2f, 0xfd]

/-- The decompressor has a method `flush`. -/
def flushes : Compression → Bool
  | gzip => true
  | _ => false

end Compression

def compressionSignatures : List Compression := [.gzip, .xz, .bz2, .zstd]

def signatureBufferSize : Nat := 8

def detectCompressionFromSignature (data : Bytes) : Option Compression :=
  compressionSignatures.find? fun c => c.signature.isPrefixOf data

/-! ## The decompressors -/

/-- What is raised: the `RuntimeError` of `_call_decompressor`, or an `EOFError`, which it lets through. -/
inductive Raised where
  | runtimeError (text : String)
  | eofError
  deriving DecidableEq

section Iterator

variable {σ : Type} (codec : Compression → Decoder σ UInt8 UInt8)

/-- `_call_decompressor("decompress", data)`. -/
def decompress (c : Compression) (phase : Decoder.Phase σ UInt8) (data : Bytes) :
    Except Raised (Bytes × Decoder.Phase σ UInt8) :=
  match c, phase with
  | .xz, .ended _ | .bz2, .ended _ | .zstd, .ended _ => .error .eofError
  | _, _ =>
    match (codec c).feed phase data with
    | .error e => .error (.runtimeError ("Failed to decompress " ++ c.text ++ ": " ++ e))
    | .ok r => .ok r

/-- `_call_decompressor("flush")`. -/
def flush (c : Compression) : Decoder.Phase σ UInt8 → Bytes
  | .running s => (codec c).pending s
  | .ended pending => pending

/-! ## The iterator -/

/-- The fields of an `AutoDecompressIterator`; `source` is what its source has still to give. -/
structure Iter (σ : Type) where
  source : List Bytes
  decompressor : Option (Compression × Decoder.Phase σ UInt8) := none
  detected : Bool := false
  buffer : Bytes := []
  exhausted : Bool := false

/-- What `__anext__` does: it returns data, or raises `StopAsyncIteration` or an error. -/
inductive Next where
  | yields (data : Bytes)
  | stops
  | raises (e : Raised)

/-- The loop of `_detect_compression`: the buffer, the rest of the source, and whether the source is
exhausted. -/
def fill : Bytes → List Bytes → Bytes × List Bytes × Bool
  | buffer, [] => (buffer, [], decide (buffer.length < signatureBufferSize))
  | buffer, chunk :: source =>
    if buffer.length < signatureBufferSize then fill (buffer ++ chunk) source
    else (buffer, chunk :: source, false)

@[simp] def detectCompression (it : Iter σ) : Iter σ :=
  match fill it.buffer it.source with
  | (buffer, source, exhausted) =>
    { source := source
      buffer := buffer
      exhausted := exhausted
      detected := true
      decompressor :=
        (detectCompressionFromSignature buffer).map fun c => (c, .running (codec c).start) }

/-- The data goes through the decompressor, if there is one. -/
def process (it : Iter σ) (data : Bytes) : Next × Iter σ :=
  match it.decompressor with
  | none => (.yields data, it)
  | some (c, phase) =>
    match decompress codec c phase data with
    | .error e => (.raises e, it)
    | .ok (out, phase) => (.yields out, { it with decompressor := some (c, phase) })

/-- `__anext__` at the end of the source. -/
def finish (it : Iter σ) : Next × Iter σ :=
  match it.decompressor with
  | some (c, phase) =>
    if c.flushes then
      let remaining := flush codec c phase
      let it := { it with exhausted := true, decompressor := none }
      if remaining = [] then (.stops, it) else (.yields remaining, it)
    else (.stops, { it with exhausted := true })
  | none => (.stops, { it with exhausted := true })

/-- `__anext__`, after the detection. -/
@[simp] def nextDetected (it : Iter σ) : Next × Iter σ :=
  if it.buffer ≠ [] then process codec { it with buffer := [] } it.buffer
  else if it.exhausted then (.stops, it)
  else
    match it.source with
    | [] => finish codec it
    | chunk :: source => process codec { it with source := source } chunk

def anext (it : Iter σ) : Next × Iter σ :=
  nextDetected codec (if it.detected then it else detectCompression codec it)

/-- An iteration of at most `n` calls: all the data it gives, or the error. -/
def iterate : (n : Nat) → Iter σ → Option (Except Raised Bytes)
  | 0, _ => none
  | n + 1, it =>
    match anext codec it with
    | (.stops, _) => some (.ok [])
    | (.raises e, _) => some (.error e)
    | (.yields data, it) =>
      match iterate n it with
      | some (.ok rest) => some (.ok (data ++ rest))
      | r => r

/-- An iteration to the end. There is at most one call for each chunk, one that flushes and one that
stops. -/
def run (chunks : List Bytes) : Option (Except Raised Bytes) :=
  iterate codec (chunks.length + 2) { source := chunks }

/-! ## Payloads -/

/-- A complete member: its bytes and its content, part of which may be left for the flush. -/
structure Member (c : Compression) where
  bytes : Bytes
  out : Bytes
  pending : Bytes
  isMember : (codec c).IsMember bytes out pending
  signature : c.signature <+: bytes
  length_le : signatureBufferSize ≤ bytes.length
  drained : c.flushes = false → pending = []

variable {codec}

@[simp] def Member.content {c : Compression} (m : Member codec c) : Bytes := m.out ++ m.pending

variable (codec)

inductive Payload where
  | plain (data : Bytes) (undetected : detectCompressionFromSignature data = none)
  | members (c : Compression) (first : Member codec c) (rest : List (Member codec c))
  | cut (c : Compression) (complete : List (Member codec c)) (last : Member codec c) (part : Bytes)
      (part_isPrefix : part <+: last.bytes) (part_ne_nil : part ≠ [])
      (part_ne : part ≠ last.bytes)

namespace Payload

variable {codec}

def bytes : Payload codec → Bytes
  | plain data _ => data
  | members _ first rest => first.bytes ++ rest.flatMap Member.bytes
  | cut _ complete _ part _ _ _ => complete.flatMap Member.bytes ++ part

/-- The iteration gives the whole content, or raises if the payload is cut short. -/
def Meets (p : Payload codec) (chunks : List Bytes) : Prop :=
  match p with
  | plain data _ => run codec chunks = some (.ok data)
  | members _ first rest =>
    run codec chunks = some (.ok (first.content ++ rest.flatMap Member.content))
  | cut .. => ∃ e, run codec chunks = some (.error e)

end Payload

end Iterator

/-- A chunk, maybe an empty one, begins after the first `n` bytes. -/
def chunkAfter : Nat → List Bytes → Bool
  | _, [] => false
  | n, chunk :: chunks => n == 0 || chunkAfter (n - chunk.length) chunks

/-- The payload is not compressed; or the members after the first are empty, and except for `gzip` no
chunk comes after the first; or the payload is cut short, it is not `gzip`, and a chunk comes after a
complete member. -/
@[simp] def Payload.Harmless {σ : Type} {codec : Compression → Decoder σ UInt8 UInt8} (p : Payload codec)
    (chunks : List Bytes) : Prop :=
  match p with
  | .plain .. => True
  | .members c first rest =>
    (∀ m ∈ rest, m.content = []) ∧ (c.flushes = true ∨ chunkAfter first.bytes.length chunks = false)
  | .cut c complete _ _ _ _ _ =>
    c.flushes = false ∧ ∃ first, complete.head? = some first ∧ chunkAfter first.bytes.length chunks = true

/-! ## Chunks -/

theorem chunkAfter_append (n : Nat) (chunks chunks' : List Bytes) :
    chunkAfter n (chunks ++ chunks') =
      (chunkAfter n chunks || chunkAfter (n - chunks.flatten.length) chunks') := by
  induction chunks generalizing n with
  | nil => simp [chunkAfter]
  | cons chunk chunks ih =>
    have hsub : n - (chunk ++ chunks.flatten).length = n - chunk.length - chunks.flatten.length := by
      rw [length_append]
      omega
    rw [cons_append, chunkAfter, chunkAfter, ih, flatten_cons, hsub, Bool.or_assoc]

variable {n : Nat}

theorem chunkAfter_eq_false {chunks : List Bytes} (h : chunks.flatten.length < n) :
    chunkAfter n chunks = false := by
  induction chunks generalizing n with
  | nil => rfl
  | cons chunk chunks ih =>
    rw [flatten_cons, length_append] at h
    have hn : n ≠ 0 := by omega
    rw [chunkAfter, ih (by omega), Bool.or_false]
    simpa using hn

/-- What the loop of the detection does: it takes chunks until it has eight bytes. -/
structure Fills (buffer : Bytes) (source : List Bytes) (r : Bytes × List Bytes × Bool) : Prop where
  taken : ∃ taken, source = taken ++ r.2.1 ∧ r.1 = buffer ++ taken.flatten ∧
    ∀ n, signatureBufferSize ≤ n → chunkAfter (n - buffer.length) taken = false
  exhausted : r.2.2 = true → r.2.1 = [] ∧ r.1.length < signatureBufferSize
  filled : r.2.2 = false → signatureBufferSize ≤ r.1.length

theorem fill_spec (buffer : Bytes) (source : List Bytes) : Fills buffer source (fill buffer source) := by
  induction source generalizing buffer with
  | nil =>
    refine ⟨⟨[], by simp [fill], by simp [fill], fun n hn => rfl⟩, ?_, ?_⟩
    · intro h
      exact ⟨rfl, by simpa [fill] using h⟩
    · intro h
      simpa [fill] using h
  | cons chunk source ih =>
    unfold fill
    by_cases hshort : buffer.length < signatureBufferSize
    · rw [if_pos hshort]
      obtain ⟨⟨taken, hsource, hbuffer, hafter⟩, hexhausted, hfilled⟩ := ih (buffer ++ chunk)
      refine ⟨⟨chunk :: taken, ?_, ?_, fun n hn => ?_⟩, hexhausted, hfilled⟩
      · rw [cons_append, ← hsource]
      · rw [hbuffer, flatten_cons, append_assoc]
      · have hsub : n - buffer.length - chunk.length = n - (buffer ++ chunk).length := by
          rw [length_append]
          omega
        have hne : n - buffer.length ≠ 0 := by omega
        rw [chunkAfter, hsub, hafter n hn, Bool.or_false]
        simpa using hne
    · rw [if_neg hshort]
      refine ⟨⟨[], by simp, by simp, fun n hn => rfl⟩, ?_, fun _ => ?_⟩
      · intro h
        cases h
      · simpa using hshort

/-! ## Whole iterations -/

section Runs

variable {σ : Type} (codec : Compression → Decoder σ UInt8 UInt8)

def decompressAll (c : Compression) :
    Decoder.Phase σ UInt8 → List Bytes → Except Raised (Bytes × Decoder.Phase σ UInt8)
  | phase, [] => .ok ([], phase)
  | phase, piece :: pieces =>
    match decompress codec c phase piece with
    | .error e => .error e
    | .ok (out, phase) =>
      match decompressAll c phase pieces with
      | .error e => .error e
      | .ok (rest, phase) => .ok (out ++ rest, phase)

@[simp] def flushed (c : Compression) (atEnd : Bool) :
    Except Raised (Bytes × Decoder.Phase σ UInt8) → Except Raised Bytes
  | .error e => .error e
  | .ok (out, phase) => .ok (out ++ if c.flushes && atEnd then flush codec c phase else [])

def streaming (source : List Bytes) (decompressor : Option (Compression × Decoder.Phase σ UInt8)) : Iter σ where
  source := source
  decompressor := decompressor
  detected := true

theorem anext_cons (chunk : Bytes) (source : List Bytes)
    (decompressor : Option (Compression × Decoder.Phase σ UInt8)) :
    anext codec (streaming (chunk :: source) decompressor) =
      process codec (streaming source decompressor) chunk := rfl

theorem anext_nil (decompressor : Option (Compression × Decoder.Phase σ UInt8)) :
    anext codec (streaming [] decompressor) = finish codec (streaming [] decompressor) := rfl

theorem iterate_exhausted (n : Nat) {it : Iter σ} (hdetected : it.detected = true)
    (hbuffer : it.buffer = []) (hexhausted : it.exhausted = true) :
    iterate codec (n + 1) it = some (.ok []) := by
  have hstops : anext codec it = (.stops, it) := by
    simp [anext, hdetected, hbuffer, hexhausted]
  rw [iterate, hstops]

theorem iterate_plain {source : List Bytes} (h : source.length < n) :
    iterate codec n (streaming source none) = some (.ok source.flatten) := by
  induction source generalizing n with
  | nil =>
    obtain ⟨n, rfl⟩ : ∃ k, n = k + 1 := ⟨n - 1, by simp at h; omega⟩
    rfl
  | cons chunk source ih =>
    rw [length_cons] at h
    obtain ⟨n, rfl⟩ : ∃ k, n = k + 1 := ⟨n - 1, by omega⟩
    have hrest := ih (n := n) (by omega)
    rw [iterate, anext_cons]
    simp only [process, streaming] at hrest ⊢
    rw [hrest, flatten_cons]

theorem iterate_streaming {source : List Bytes} (h : source.length + 1 < n) (c : Compression)
    (phase : Decoder.Phase σ UInt8) :
    iterate codec n (streaming source (some (c, phase))) =
      some (flushed codec c true (decompressAll codec c phase source)) := by
  induction source generalizing n phase with
  | nil =>
    obtain ⟨n, rfl⟩ : ∃ k, n = k + 2 := ⟨n - 2, by simp at h; omega⟩
    rw [iterate, anext_nil]
    simp only [finish, streaming, decompressAll, flushed, nil_append]
    by_cases hflushes : c.flushes = true
    · by_cases hremaining : flush codec c phase = []
      · simp [hflushes, hremaining]
      · simp [hflushes, hremaining, iterate_exhausted]
    · simp [hflushes]
  | cons chunk source ih =>
    rw [length_cons] at h
    obtain ⟨n, rfl⟩ : ∃ k, n = k + 1 := ⟨n - 1, by omega⟩
    rw [iterate, anext_cons, decompressAll]
    simp only [process, streaming]
    cases decompress codec c phase chunk with
    | error e => rfl
    | ok r =>
      obtain ⟨out, phase'⟩ := r
      have hrest := ih (n := n) (by omega) phase'
      simp only [streaming] at hrest ⊢
      rw [hrest]
      cases decompressAll codec c phase' source with
      | error e => rfl
      | ok r => simp

theorem length_fill {chunks : List Bytes} (h : (fill [] chunks).1 ≠ []) :
    (fill [] chunks).2.1.length + 1 ≤ chunks.length := by
  obtain ⟨taken, hchunks, hbuffer, -⟩ := (fill_spec [] chunks).taken
  have htaken : taken ≠ [] := by
    rintro rfl
    exact h hbuffer
  have hpos : 0 < taken.length := length_pos_iff.2 htaken
  have hlength : chunks.length = taken.length + (fill [] chunks).2.1.length := by
    rw [← length_append, ← hchunks]
  omega

theorem flatten_fill (chunks : List Bytes) :
    (fill [] chunks).1 ++ (fill [] chunks).2.1.flatten = chunks.flatten := by
  obtain ⟨taken, hchunks, hbuffer, -⟩ := (fill_spec [] chunks).taken
  rw [hbuffer, nil_append, ← flatten_append, ← hchunks]

theorem anext_first {chunks : List Bytes} (h : (fill [] chunks).1 ≠ []) :
    anext codec { source := chunks } =
      process codec
        { streaming (fill [] chunks).2.1
            ((detectCompressionFromSignature (fill [] chunks).1).map
              fun c => (c, .running (codec c).start)) with
          exhausted := (fill [] chunks).2.2 }
        (fill [] chunks).1 := by
  simp [anext, h, streaming]

theorem run_plain {chunks : List Bytes} (h : detectCompressionFromSignature (fill [] chunks).1 = none) :
    run codec chunks = some (.ok chunks.flatten) := by
  have hall := flatten_fill chunks
  have hfill := fill_spec [] chunks
  by_cases hempty : (fill [] chunks).1 = []
  · -- nothing came: the source is exhausted
    have hexhausted : (fill [] chunks).2.2 = true := by
      cases hopen : (fill [] chunks).2.2 with
      | true => rfl
      | false =>
        have hfilled := hfill.filled hopen
        rw [hempty] at hfilled
        cases hfilled
    have hflatten : chunks.flatten = [] := by
      rw [← hall, hempty, (hfill.exhausted hexhausted).1]
      rfl
    rw [run, iterate, hflatten]
    simp [anext, hempty, hexhausted]
  · have hlength := length_fill hempty
    rw [run, iterate, anext_first codec hempty, h]
    simp only [process, streaming, Option.map_none]
    cases hexhausted : (fill [] chunks).2.2 with
    | true =>
      rw [iterate_exhausted codec _ rfl rfl rfl, ← hall, (hfill.exhausted hexhausted).1]
      simp
    | false =>
      have hrest : iterate codec (chunks.length + 1) (streaming (fill [] chunks).2.1 none) =
          some (.ok (fill [] chunks).2.1.flatten) := iterate_plain codec (by omega)
      simp only [streaming] at hrest
      rw [hrest, ← hall]

theorem run_detected {chunks : List Bytes} {c : Compression}
    (h : detectCompressionFromSignature (fill [] chunks).1 = some c) :
    run codec chunks =
      some (flushed codec c (!(fill [] chunks).2.2)
        (decompressAll codec c (.running (codec c).start)
          ((fill [] chunks).1 :: (fill [] chunks).2.1))) := by
  have hempty : (fill [] chunks).1 ≠ [] := by
    intro hempty
    rw [hempty] at h
    cases h
  have hlength := length_fill hempty
  rw [run, iterate, anext_first codec hempty, h, decompressAll]
  simp only [process, streaming, Option.map_some]
  cases decompress codec c (.running (codec c).start) (fill [] chunks).1 with
  | error e => rfl
  | ok r =>
    obtain ⟨out, phase⟩ := r
    cases hexhausted : (fill [] chunks).2.2 with
    | true =>
      rw [((fill_spec [] chunks).exhausted hexhausted).1]
      simp [iterate_exhausted, decompressAll]
    | false =>
      have hlt : (fill [] chunks).2.1.length + 1 < chunks.length + 1 := by omega
      have hrest := iterate_streaming codec hlt c phase
      simp only [streaming] at hrest ⊢
      rw [hrest]
      cases decompressAll codec c phase (fill [] chunks).2.1 with
      | error e => rfl
      | ok r => simp

end Runs

/-! ## The signatures -/

variable {data : Bytes}

theorem Compression.signature_inj {c c' : Compression} (h : c.signature <+: data)
    (h' : c'.signature <+: data) : c = c' := by
  obtain ⟨t, rfl⟩ := h
  -- the first bytes differ
  cases c <;> cases c' <;> first | rfl | simp [signature] at h'

theorem signature_of_detect {c : Compression} (h : detectCompressionFromSignature data = some c) :
    c.signature <+: data := by
  unfold detectCompressionFromSignature at h
  have hfound := find?_some h
  exact isPrefixOf_iff_prefix.1 hfound

theorem detect_of_signature {c : Compression} (h : c.signature <+: data) :
    detectCompressionFromSignature data = some c := by
  cases hdetect : detectCompressionFromSignature data with
  | none =>
    have hmem : c ∈ compressionSignatures := by cases c <;> decide
    have hnot := find?_eq_none.1 hdetect c hmem
    exact absurd ( isPrefixOf_iff_prefix.2 h) hnot
  | some c' => rw [Compression.signature_inj h (signature_of_detect hdetect)]

theorem detect_eq_none_of_prefix {buffer : Bytes} (hbuffer : buffer <+: data)
    (h : detectCompressionFromSignature data = none) : detectCompressionFromSignature buffer = none := by
  cases hdetect : detectCompressionFromSignature buffer with
  | none => rfl
  | some c =>
    rw [detect_of_signature ((signature_of_detect hdetect).trans hbuffer)] at h
    cases h

theorem buffer_isPrefix (chunks : List Bytes) : (fill [] chunks).1 <+: chunks.flatten := by
  rw [← flatten_fill chunks]
  exact prefix_append _ _

/-! ## Members -/

section Members

variable {σ : Type} {codec : Compression → Decoder σ UInt8 UInt8} {c : Compression}

theorem Member.detected (m : Member codec c) {chunks : List Bytes} (h : m.bytes <+: chunks.flatten) :
    detectCompressionFromSignature (fill [] chunks).1 = some c ∧ (fill [] chunks).2.2 = false := by
  have hlong : signatureBufferSize ≤ chunks.flatten.length :=
    Nat.le_trans m.length_le h.length_le
  have hopen : (fill [] chunks).2.2 = false := by
    cases hexhausted : (fill [] chunks).2.2 with
    | false => rfl
    | true =>
      obtain ⟨hrest, hshort⟩ := (fill_spec [] chunks).exhausted hexhausted
      rw [← flatten_fill chunks, hrest, flatten_nil, append_nil] at hlong
      omega
  have hfilled := (fill_spec [] chunks).filled hopen
  have hsignature : c.signature.length ≤ signatureBufferSize := by cases c <;> decide
  refine ⟨detect_of_signature ?_, hopen⟩
  exact prefix_of_prefix_length_le (m.signature.trans h) (buffer_isPrefix chunks) (by omega)

theorem decompress_ok {phase : Decoder.Phase σ UInt8} {r : Bytes × Decoder.Phase σ UInt8}
    (h : (codec c).feed phase data = .ok r) (hopen : c.flushes = true ∨ ∃ s, phase = .running s) :
    decompress codec c phase data = .ok r := by
  unfold decompress
  rcases hopen with hflushes | ⟨s, rfl⟩
  · cases c with
    | gzip => simp [h]
    | xz | bz2 | zstd => cases hflushes
  · cases c <;> simp [h]

theorem decompress_ended (hflushes : c.flushes = false) (pending data : Bytes) :
    decompress codec c (.ended pending) data = .error .eofError := by
  cases c with
  | gzip => cases hflushes
  | xz | bz2 | zstd => rfl

section Pieces

variable (m : Member codec c) {rest d piece out : Bytes} {phase : Decoder.Phase σ UInt8}
  {pieces : List Bytes}

theorem Member.feed_ok (hd : d <+: m.bytes ++ rest) :
    ∃ out phase, (codec c).feed (.running (codec c).start) d = .ok (out, phase) := by
  by_cases hlt : d.length < m.bytes.length
  · obtain ⟨out, s, hfeed⟩ := m.isMember.feed_of_length_lt hd hlt
    exact ⟨out, .running s, hfeed⟩
  · exact ⟨m.out, .ended m.pending, m.isMember.feed_of_length_le hd (by omega)⟩

theorem Member.feed_piece (hpre : d ++ piece <+: m.bytes ++ rest)
    (hd : (codec c).feed (.running (codec c).start) d = .ok (out, phase)) :
    ∃ out' phase', (codec c).feed phase piece = .ok (out', phase') ∧
      (codec c).feed (.running (codec c).start) (d ++ piece) = .ok (out ++ out', phase') := by
  obtain ⟨all, last, hall⟩ := m.feed_ok hpre
  simp only [Decoder.feed_append, hd] at hall ⊢
  cases hpiece : (codec c).feed phase piece with
  | error e =>
    rw [hpiece] at hall
    cases hall
  | ok r => exact ⟨r.1, r.2, rfl, rfl⟩

theorem Member.running (hpre : d ++ piece <+: m.bytes ++ rest)
    (hd : (codec c).feed (.running (codec c).start) d = .ok (out, phase))
    (hlt : d.length < m.bytes.length) : ∃ s, phase = .running s := by
  obtain ⟨o, s, hrunning⟩ :=
    m.isMember.feed_of_length_lt ((prefix_append _ _).trans hpre) hlt
  rw [hd] at hrunning
  cases hrunning
  exact ⟨s, rfl⟩

/-- The pieces of such a payload after the bytes `d`. As long as no piece comes after the member or
further input is ignored, they are decompressed as one. -/
theorem Member.decompressAll_ok (hpre : d ++ pieces.flatten <+: m.bytes ++ rest)
    (hd : (codec c).feed (.running (codec c).start) d = .ok (out, phase))
    (hopen : c.flushes = true ∨ chunkAfter (m.bytes.length - d.length) pieces = false) :
    ∃ out' phase', decompressAll codec c phase pieces = .ok (out', phase') ∧
      (codec c).feed (.running (codec c).start) (d ++ pieces.flatten) = .ok (out ++ out', phase') := by
  induction pieces generalizing d out phase with
  | nil => exact ⟨[], phase, rfl, by simpa using hd⟩
  | cons piece pieces ih =>
    rw [flatten_cons, ← append_assoc] at hpre ⊢
    have hnext : d ++ piece <+: m.bytes ++ rest := (prefix_append _ _).trans hpre
    obtain ⟨o, phase₁, hpiece, hfeed⟩ := m.feed_piece hnext hd
    have hhere : c.flushes = true ∨ ∃ s, phase = .running s := by
      rcases hopen with hflushes | hafter
      · exact .inl hflushes
      · rw [chunkAfter, Bool.or_eq_false_iff] at hafter
        have hne : m.bytes.length - d.length ≠ 0 := by simpa using hafter.1
        exact .inr (m.running hnext hd (by omega))
    have hlater : c.flushes = true ∨ chunkAfter (m.bytes.length - (d ++ piece).length) pieces = false := by
      rcases hopen with hflushes | hafter
      · exact .inl hflushes
      · rw [chunkAfter, Bool.or_eq_false_iff, Nat.sub_sub, ← length_append] at hafter
        exact .inr hafter.2
    obtain ⟨out', phase', hall, hfeeds⟩ := ih hpre hfeed hlater
    refine ⟨o ++ out', phase', ?_, by rw [hfeeds, append_assoc]⟩
    rw [decompressAll, decompress_ok hpiece hhere]
    simp only [hall]

theorem Member.decompressAll_eof (hflushes : c.flushes = false)
    (hpre : d ++ pieces.flatten <+: m.bytes ++ rest)
    (hd : (codec c).feed (.running (codec c).start) d = .ok (out, phase))
    (hafter : chunkAfter (m.bytes.length - d.length) pieces = true) :
    decompressAll codec c phase pieces = .error .eofError := by
  induction pieces generalizing d out phase with
  | nil => cases hafter
  | cons piece pieces ih =>
    rw [flatten_cons, ← append_assoc] at hpre
    have hnext : d ++ piece <+: m.bytes ++ rest := (prefix_append _ _).trans hpre
    by_cases hlt : d.length < m.bytes.length
    · obtain ⟨o, phase₁, hpiece, hfeed⟩ := m.feed_piece hnext hd
      have hne : ¬ m.bytes.length - d.length = 0 := by omega
      rw [chunkAfter, Bool.or_eq_true, beq_iff_eq, or_iff_right hne, Nat.sub_sub, ← length_append] at hafter
      rw [decompressAll, decompress_ok hpiece (.inr (m.running hnext hd hlt))]
      simp only [ih hpre hfeed hafter]
    · have hended :=
        m.isMember.feed_of_length_le ((prefix_append _ _).trans hnext) (Nat.le_of_not_lt hlt)
      rw [hd] at hended
      cases hended
      rw [decompressAll, decompress_ended hflushes]

end Pieces

section Iterations

variable (m : Member codec c) {rest : Bytes} {chunks : List Bytes}

theorem Member.chunkAfter_fill :
    chunkAfter m.bytes.length chunks =
      chunkAfter m.bytes.length ((fill [] chunks).1 :: (fill [] chunks).2.1) := by
  obtain ⟨taken, hchunks, hbuffer, hafter⟩ := (fill_spec [] chunks).taken
  have hpos : m.bytes.length ≠ 0 := by
    have hlong := m.length_le
    unfold signatureBufferSize at hlong
    omega
  have htaken : chunkAfter m.bytes.length taken = false := by simpa using hafter _ m.length_le
  calc chunkAfter m.bytes.length chunks
      = chunkAfter m.bytes.length (taken ++ (fill [] chunks).2.1) := by rw [← hchunks]
    _ = chunkAfter (m.bytes.length - taken.flatten.length) (fill [] chunks).2.1 := by
        rw [chunkAfter_append, htaken, Bool.false_or]
    _ = chunkAfter m.bytes.length ((fill [] chunks).1 :: (fill [] chunks).2.1) := by
        rw [chunkAfter, hbuffer, nil_append, beq_false_of_ne hpos, Bool.false_or]

theorem flatten_pieces (chunks : List Bytes) :
    [] ++ ((fill [] chunks).1 :: (fill [] chunks).2.1).flatten = chunks.flatten := flatten_fill chunks

/-- An iteration over a payload that begins with a member, or over a part of one: it gives what the
decompressor makes of the payload as a whole. -/
theorem Member.run_ok (hdetect : detectCompressionFromSignature (fill [] chunks).1 = some c)
    (hpre : chunks.flatten <+: m.bytes ++ rest)
    (hopen : c.flushes = true ∨ chunkAfter m.bytes.length chunks = false) :
    ∃ out phase, (codec c).feed (.running (codec c).start) chunks.flatten = .ok (out, phase) ∧
      run codec chunks =
        some (flushed codec c (!(fill [] chunks).2.2) (.ok (out, phase))) := by
  rw [m.chunkAfter_fill] at hopen
  rw [← flatten_pieces chunks] at hpre ⊢
  obtain ⟨out, phase, hall, hfeed⟩ :=
    m.decompressAll_ok hpre (Decoder.feed_nil _ _) hopen
  exact ⟨out, phase, hfeed, by rw [run_detected codec hdetect, hall]⟩

theorem Member.run_content (hall : chunks.flatten = m.bytes ++ rest)
    (hopen : ¬ (c.flushes = false ∧ chunkAfter m.bytes.length chunks = true)) :
    run codec chunks = some (.ok m.content) := by
  have hbegins : m.bytes <+: chunks.flatten := ⟨rest, hall.symm⟩
  have hpre : chunks.flatten <+: m.bytes ++ rest := ⟨[], by rw [hall, append_nil]⟩
  obtain ⟨hdetect, hfilled⟩ := m.detected hbegins
  by_cases hflushes : c.flushes = true
  · obtain ⟨out, phase, hfeed, hrun⟩ := m.run_ok hdetect hpre (.inl hflushes)
    rw [hall, m.isMember.feed_append] at hfeed
    cases hfeed
    simp [hrun, hfilled, flush, hflushes]
  · rw [Bool.not_eq_true] at hflushes
    have hafter : chunkAfter m.bytes.length chunks = false := by simpa [hflushes] using hopen
    obtain ⟨out, phase, hfeed, hrun⟩ := m.run_ok hdetect hpre (.inr hafter)
    rw [hall, m.isMember.feed_append] at hfeed
    cases hfeed
    simp [hrun, hflushes, m.drained hflushes]

theorem Member.run_eof (hall : chunks.flatten = m.bytes ++ rest)
    (hlate : c.flushes = false ∧ chunkAfter m.bytes.length chunks = true) :
    run codec chunks = some (.error .eofError) := by
  obtain ⟨hflushes, hafter⟩ := hlate
  have hbegins : m.bytes <+: chunks.flatten := ⟨rest, hall.symm⟩
  have hpre : chunks.flatten <+: m.bytes ++ rest := ⟨[], by rw [hall, append_nil]⟩
  rw [m.chunkAfter_fill] at hafter
  rw [← flatten_pieces chunks] at hpre
  have heof := m.decompressAll_eof hflushes hpre (Decoder.feed_nil _ _) hafter
  rw [run_detected codec (m.detected hbegins).1, heof]
  rfl

end Iterations

theorem Member.run_part (m : Member codec c) {chunks : List Bytes}
    (hpart : chunks.flatten <+: m.bytes) (hne : chunks.flatten ≠ m.bytes) :
    ∃ out, run codec chunks = some (.ok out) := by
  cases hdetect : detectCompressionFromSignature (fill [] chunks).1 with
  | none => exact ⟨_, run_plain codec hdetect⟩
  | some c' =>
    -- the signature that was found is the one of the member
    have hfound : c'.signature <+: m.bytes :=
      (signature_of_detect hdetect).trans ((buffer_isPrefix chunks).trans hpart)
    obtain rfl := Compression.signature_inj m.signature hfound
    have hlt : chunks.flatten.length < m.bytes.length := by
      have hle := hpart.length_le
      have hnelen : chunks.flatten.length ≠ m.bytes.length := fun hlen => hne (hpart.eq_of_length hlen)
      omega
    have hpre : chunks.flatten <+: m.bytes ++ [] := by rwa [append_nil]
    obtain ⟨out, phase, -, hrun⟩ := m.run_ok hdetect hpre (.inr (chunkAfter_eq_false hlt))
    exact ⟨_, hrun⟩

/-- The iteration gives the whole content of a payload, or raises if it is cut short, if and only if the
payload and its chunks are harmless. -/
theorem meets_iff (p : Payload codec) {chunks : List Bytes} (h : chunks.flatten = p.bytes) :
    p.Meets chunks ↔ p.Harmless chunks := by
  cases p with
  | plain data hplain =>
    have hdetect : detectCompressionFromSignature (fill [] chunks).1 = none := by
      apply detect_eq_none_of_prefix (buffer_isPrefix chunks)
      rw [h]
      exact hplain
    refine iff_of_true ?_ trivial
    exact (run_plain codec hdetect).trans (by rw [h]; rfl)
  | members c first rest =>
    by_cases hlate : c.flushes = false ∧ chunkAfter first.bytes.length chunks = true
    · simp [Payload.Meets, first.run_eof h hlate, hlate]
    · have hopen : c.flushes = true ∨ chunkAfter first.bytes.length chunks = false := by
        rcases Classical.not_and_iff_not_or_not.1 hlate with hflushes | hafter
        · exact .inl (by simpa using hflushes)
        · exact .inr (by simpa using hafter)
      simp [Payload.Meets, first.run_content h hlate, hopen]
  | cut c complete last part hpart hne_nil hne =>
    cases complete with
    | nil =>
      simp only [Payload.bytes, flatMap_nil, nil_append] at h
      rw [← h] at hpart hne
      obtain ⟨out, hrun⟩ := last.run_part hpart hne
      simp [Payload.Meets, hrun]
    | cons first complete =>
      simp only [Payload.bytes, flatMap_cons, append_assoc] at h
      by_cases hlate : c.flushes = false ∧ chunkAfter first.bytes.length chunks = true
      · simp [Payload.Meets, first.run_eof h hlate, hlate]
      · simpa [Payload.Meets, first.run_content h hlate] using hlate

end Members

/-! ## Two images -/

/-- Every format is eight bytes, the content and a zero. -/
def labCodec (_ : Compression) : Decoder Nat UInt8 UInt8 where
  start := 0
  push := fun n byte =>
    if n < 8 then .more (n + 1) [] else if byte = 0 then .last [] [] else .more (n + 1) [byte]
  pending := fun _ => []

def kernel : Member labCodec .gzip where
  bytes := [0x1f, 0x8b, 0x08, 0, 0, 0, 0, 0, 1, 0]
  out := [1]
  pending := []
  isMember := ⟨[0x1f, 0x8b, 0x08, 0, 0, 0, 0, 0, 1], 0, 9, [1], [], rfl, rfl, rfl, rfl⟩
  signature := by decide
  length_le := by decide
  drained := fun _ => rfl

def initramfs : Member labCodec .gzip where
  bytes := [0x1f, 0x8b, 0x08, 0, 0, 0, 0, 0, 2, 0]
  out := [2]
  pending := []
  isMember := ⟨[0x1f, 0x8b, 0x08, 0, 0, 0, 0, 0, 2], 0, 9, [2], [], rfl, rfl, rfl, rfl⟩
  signature := by decide
  length_le := by decide
  drained := fun _ => rfl

/-- One member is decompressed, also if the first chunk is shorter than the signature. -/
theorem meets_kernel :
    (Payload.members .gzip kernel []).Meets [[0x1f], [0x8b, 0x08, 0, 0, 0, 0, 0], [], [1, 0]] := by
  apply (meets_iff (Payload.members .gzip kernel []) rfl).2
  exact ⟨by simp, .inl rfl⟩

/-- Of two members only the first is decompressed, and a member that is cut short is no error. -/
theorem meets_fails :
    ¬ (Payload.members .gzip kernel [initramfs]).Meets [kernel.bytes, initramfs.bytes] ∧
    ¬ (Payload.cut .gzip [] kernel [0x1f, 0x8b, 0x08, 0, 0, 0, 0, 0, 1] (by decide) (by decide)
        (by decide)).Meets [[0x1f, 0x8b, 0x08, 0, 0, 0, 0, 0, 1]] := by
  have htwo : run labCodec [kernel.bytes, initramfs.bytes] = some (.ok [1]) := rfl
  have hcut : run labCodec [[0x1f, 0x8b, 0x08, 0, 0, 0, 0, 0, 1]] = some (.ok [1]) := rfl
  constructor
  · simp only [Payload.Meets, htwo]
    simp [kernel, initramfs]
  · simp [Payload.Meets, hcut]

end Jumpstarter.Encoding
