import Mathlib.Data.Int.Notation
import Matinier.Foundation.Spans
import Matinier.Foundation.Checked

/-!
# The audio chunker

Frames of PCM16 audio are gathered into the chunks a provider takes. A chunker keeps the bytes
that do not fill a chunk yet.
-/

namespace Matinier
namespace Captions

abbrev Bytes := List UInt8

/-- The chunker as its constructor and its two methods leave it: less than a chunk is kept. -/
structure AudioChunker where
  sampleWidthBytes : ℕ
  bytesPerChunk : ℕ
  buffer : Bytes
  short : buffer.length < bytesPerChunk

namespace AudioChunker

theorem bytesPerChunk_pos (chunker : AudioChunker) : 0 < chunker.bytesPerChunk :=
  Nat.zero_lt_of_lt chunker.short

def byteMilliseconds (sampleRate channels sampleWidthBytes chunkDurationMs : ℤ) : ℤ :=
  sampleRate * channels * sampleWidthBytes * chunkDurationMs

theorem bytes_pos {sampleRate channels sampleWidthBytes chunkDurationMs : ℤ}
    (hrate : 0 < sampleRate) (hchannels : 0 < channels) (hwidth : sampleWidthBytes = 2)
    (hduration : 0 < chunkDurationMs)
    (hwhole : byteMilliseconds sampleRate channels sampleWidthBytes chunkDurationMs % 1000 = 0) :
    ([] : Bytes).length <
      (byteMilliseconds sampleRate channels sampleWidthBytes chunkDurationMs / 1000).toNat := by
  have hpos : 0 < byteMilliseconds sampleRate channels sampleWidthBytes chunkDurationMs := by
    subst hwidth
    exact Int.mul_pos (Int.mul_pos (Int.mul_pos hrate hchannels) (by decide)) hduration
  simp only [List.length_nil]
  omega

/-- `AudioChunker.__init__`. -/
def create (sampleRate channels sampleWidthBytes chunkDurationMs : ℤ) :
    Except String AudioChunker :=
  if hrate : sampleRate ≤ 0 then .error "sample_rate must be positive"
  else if hchannels : channels ≤ 0 then .error "channels must be positive"
  else if hwidth : sampleWidthBytes ≠ 2 then .error "only PCM16 (2-byte samples) is supported"
  else if hduration : chunkDurationMs ≤ 0 then .error "chunk_duration_ms must be positive"
  else if hwhole :
      byteMilliseconds sampleRate channels sampleWidthBytes chunkDurationMs % 1000 ≠ 0 then
    .error "chunk duration must produce a whole number of bytes"
  else .ok
    { sampleWidthBytes := sampleWidthBytes.toNat
      bytesPerChunk :=
        (byteMilliseconds sampleRate channels sampleWidthBytes chunkDurationMs / 1000).toNat
      buffer := []
      short := bytes_pos (Int.not_le.mp hrate) (Int.not_le.mp hchannels)
        (Decidable.not_not.mp hwidth) (Int.not_le.mp hduration) (Decidable.not_not.mp hwhole) }

variable (chunker : AudioChunker)

/-- The chunks that `pcm` completes, and what is kept then. -/
def aggregate (pcm : Bytes) : List Bytes × Bytes :=
  cutBlocks chunker.bytesPerChunk (chunker.buffer ++ pcm).length (chunker.buffer ++ pcm)

/-- `AudioChunker.feed`. -/
def feed (pcm : Bytes) : Except String (List Bytes × AudioChunker) :=
  if pcm.length % chunker.sampleWidthBytes ≠ 0 then
    .error "PCM16 input must contain complete 2-byte samples"
  else if pcm = [] then .ok ([], chunker)
  else .ok ((chunker.aggregate pcm).1,
    { chunker with
      buffer := (chunker.aggregate pcm).2
      short := cutBlocks_rest chunker.bytesPerChunk_pos (Nat.le_refl _) })

/-- `AudioChunker.flush`. -/
def flush : Option Bytes × AudioChunker :=
  (if chunker.buffer = [] then none else some chunker.buffer,
    { chunker with buffer := [], short := chunker.bytesPerChunk_pos })

variable {chunker} {chunker' : AudioChunker} {pcm : Bytes} {chunks : List Bytes}

/-- What a feed returns and keeps is what was kept and what was fed, in whole chunks. -/
theorem feed_spec (h : chunker.feed pcm = .ok (chunks, chunker')) :
    chunks.flatten ++ chunker'.buffer = chunker.buffer ++ pcm ∧
      chunker'.bytesPerChunk = chunker.bytesPerChunk ∧
      ∀ chunk ∈ chunks, chunk.length = chunker.bytesPerChunk := by
  unfold feed at h
  split_ifs at h with hodd hempty
  · cases h
    simp [hempty]
  · cases h
    exact ⟨cutBlocks_flatten _ _ _, rfl, length_of_mem_cutBlocks⟩

theorem feed_short (h : chunker.feed pcm = .ok (chunks, chunker'))
    (hshort : chunker.buffer.length + pcm.length < chunker.bytesPerChunk) : chunks = [] := by
  unfold feed at h
  split_ifs at h with hodd hempty
  · cases h
    rfl
  · cases h
    unfold aggregate
    rw [cutBlocks_of_lt (by simpa using hshort)]

theorem flush_eq_none : chunker.flush.1 = none ↔ chunker.buffer = [] := by
  simp [flush]

theorem flush_eq_some {tail : Bytes} :
    chunker.flush.1 = some tail ↔ chunker.buffer ≠ [] ∧ tail = chunker.buffer := by
  simp [flush, eq_comm]

end AudioChunker
end Captions
end Matinier
