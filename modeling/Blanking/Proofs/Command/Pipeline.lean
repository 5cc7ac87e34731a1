import Mathlib.Logic.Relation
import Blanking.Proofs.Command.Frames
import Blanking.Proofs.Sample.Level

/-! # Decoding while the output is written

A file is read and decoded in one place while its records are written in another. Bytes arrive in
parts of any length, and decoded field pairs wait in a queue until they are written. However the
two sides take turns, they come to an end, and then what was written is what one after the other
would have written. -/

namespace Blanking

theorem Sampling.Valid.frameSize_pos {s : Sampling} (h : s.Valid) : 0 < s.frameSize := by
  have hsamples : 0 < s.samplesPerLine := Nat.pos_of_ne_zero (Sampling.valid_iff.mp h).2.1
  exact Nat.mul_pos (Nat.mul_pos hsamples s.format.bytesPerSample_pos) h.totalLines_pos

/-- The two sides and what is under way between them. -/
structure Pipeline where
  /-- What was not read yet. -/
  unread : List UInt8
  /-- What was read of the next field pair. -/
  buffer : List UInt8
  /-- Whether the side that reads has not come to its end. -/
  reading : Bool
  decoder : Decoder
  /-- The number of the next field pair. -/
  number : Nat
  /-- Decoded field pairs that were not written yet, the first one in front. -/
  queue : List Stream.Frame
  writer : Writer

namespace Pipeline

def start (d : Decoder) (format : OutputFormat) (lines : Nat) (file : ByteArray) : Pipeline :=
  ⟨file.data.toList, [], true, d, 0, [], .new format lines⟩

/-- What one of the sides does next, with field pairs of `size` bytes. -/
inductive Step (size capacity : Nat) : Pipeline → Pipeline → Prop where
  /-- Some bytes arrive, as many as fit into the buffer at most. -/
  | read {p : Pipeline} (count : Nat) (hreading : p.reading = true) (hpos : 0 < count)
      (hfits : p.buffer.length + count ≤ size) (hcount : count ≤ p.unread.length) :
      Step size capacity p
        { p with buffer := p.buffer ++ p.unread.take count, unread := p.unread.drop count }
  /-- A whole field pair is decoded and handed over. -/
  | decode {p : Pipeline} {next : Decoder} {records : List Record} (hreading : p.reading = true)
      (hfull : p.buffer.length = size)
      (hnext : (Decoder.InWords.decode p.decoder capacity ⟨p.buffer.toArray⟩).run =
        some (.ok (next, records))) :
      Step size capacity p { p with
        buffer := []
        decoder := next
        number := p.number + 1
        queue := p.queue ++ [⟨p.number, records⟩] }
  /-- There is nothing more to read. What is left of a field pair is dropped. -/
  | close {p : Pipeline} (hreading : p.reading = true) (hpart : p.buffer.length < size)
      (hend : p.unread = []) : Step size capacity p { p with reading := false }
  /-- The first field pair that waits is written. -/
  | write {p : Pipeline} {frame : Stream.Frame} {rest : List Stream.Frame}
      (hqueue : p.queue = frame :: rest) :
      Step size capacity p
        { p with queue := rest, writer := p.writer.write frame.number frame.records }

/-- Whether both sides have come to their end. -/
def Finished (p : Pipeline) : Prop := p.reading = false ∧ p.queue = []

section Run

variable {d : Decoder} {file : ByteArray} {format : OutputFormat} {lines capacity : Nat}
  (calls : Decoder.Calls d (file.size / d.sampling.frameSize))

/-- What holds at any time: all whole field pairs before the next one were decoded in their order,
and what was written together with what waits is what they make. -/
structure Sound (format : OutputFormat) (lines : Nat) (p : Pipeline) : Prop where
  input : p.buffer ++ p.unread = file.data.toList.drop (p.number * d.sampling.frameSize)
  buffer_le : p.buffer.length ≤ d.sampling.frameSize
  number_le : p.number ≤ file.size / d.sampling.frameSize
  decoder : p.decoder = calls.decoder p.number
  output : p.writer.writeFrames p.queue = (Writer.new format lines).writeFrames
    ((List.range p.number).map fun number => ⟨number, calls.records number⟩)
  closed : p.reading = false → p.number = file.size / d.sampling.frameSize

theorem sound_start : Sound calls format lines (start d format lines file) where
  input := by simp [start]
  buffer_le := Nat.zero_le _
  number_le := Nat.zero_le _
  decoder := calls.start.symm
  output := rfl
  closed h := absurd h (by simp [start])

theorem toList_frameAt (size number : Nat) : (Decode.frameAt size file number).data.toList =
    (file.data.toList.drop (number * size)).take size := by
  simp [Decode.frameAt]

variable {calls}

/-- What is in a full buffer is the next field pair. -/
theorem Sound.full {p : Pipeline} (h : Sound calls format lines p)
    (hpos : 0 < d.sampling.frameSize) (hfull : p.buffer.length = d.sampling.frameSize) :
    p.number < file.size / d.sampling.frameSize ∧
      (⟨p.buffer.toArray⟩ : ByteArray) = Decode.frameAt d.sampling.frameSize file p.number := by
  have hlength := congrArg List.length h.input
  rw [List.length_append, List.length_drop, Array.length_toList, ByteArray.size_data] at hlength
  constructor
  · rw [Nat.lt_iff_add_one_le, Nat.le_div_iff_mul_le hpos, Nat.succ_mul]
    omega
  · apply ByteArray.ext
    apply Array.toList_inj.mp
    rw [toList_frameAt, ← h.input, ← hfull, List.take_left]

/-- With less than a field pair left there are no more of them. -/
theorem Sound.last {p : Pipeline} (h : Sound calls format lines p)
    (hpos : 0 < d.sampling.frameSize) (hpart : p.buffer.length < d.sampling.frameSize)
    (hend : p.unread = []) : p.number = file.size / d.sampling.frameSize := by
  have hlength := congrArg List.length h.input
  rw [hend, List.append_nil, List.length_drop, Array.length_toList, ByteArray.size_data] at hlength
  have hless : file.size / d.sampling.frameSize < p.number + 1 := by
    rw [Nat.div_lt_iff_lt_mul hpos, Nat.succ_mul]
    omega
  exact Nat.le_antisymm h.number_le (Nat.le_of_lt_succ hless)

theorem Sound.step {p next : Pipeline} (h : Sound calls format lines p)
    (hwords : Decode.FitsWords calls) (hpos : 0 < d.sampling.frameSize)
    (hraw : ∀ call, calls.raw call = Decode.frameAt d.sampling.frameSize file call)
    (hcapacity : ∀ call, calls.capacity call = capacity)
    (hstep : Step d.sampling.frameSize capacity p next) : Sound calls format lines next := by
  cases hstep with
  | read count hreading hcount hfits hunread =>
      refine { h with input := ?_, buffer_le := ?_ }
      · rw [List.append_assoc, List.take_append_drop]
        exact h.input
      · rw [List.length_append, List.length_take, Nat.min_eq_left hunread]
        exact hfits
  | @decode after records hreading hfull hnext =>
      obtain ⟨hless, hframe⟩ := h.full hpos hfull
      rw [h.decoder, hframe, ← hraw, ← hcapacity p.number, hwords p.number hless] at hnext
      obtain ⟨rfl, rfl⟩ := Prod.mk.inj (Except.ok.inj (Option.some.inj hnext))
      constructor
      · rw [List.nil_append, Nat.succ_mul, ← List.drop_drop, ← h.input]
        exact (List.drop_left' hfull).symm
      · exact Nat.zero_le _
      · exact hless
      · rfl
      · dsimp only
        rw [List.range_succ, List.map_append, List.map_singleton, Writer.writeFrames_append,
          Writer.writeFrames_append, h.output]
      · intro hclosed
        rw [hreading] at hclosed
        exact absurd hclosed (by simp)
  | close hreading hpart hend => exact { h with closed := fun _ => h.last hpos hpart hend }
  | @write frame rest hqueue =>
      refine { h with output := ?_ }
      rw [← h.output, hqueue]
      rfl

/-- One of the sides can go on as long as not both have come to their end. -/
theorem Sound.exists_step {p : Pipeline} (h : Sound calls format lines p)
    (hwords : Decode.FitsWords calls) (hpos : 0 < d.sampling.frameSize)
    (hraw : ∀ call, calls.raw call = Decode.frameAt d.sampling.frameSize file call)
    (hcapacity : ∀ call, calls.capacity call = capacity) (hbusy : ¬ p.Finished) :
    ∃ next, Step d.sampling.frameSize capacity p next := by
  cases hqueue : p.queue with
  | cons frame rest => exact ⟨_, .write hqueue⟩
  | nil =>
      have hreading : p.reading = true := by
        by_contra hclosed
        exact hbusy ⟨by simpa using hclosed, hqueue⟩
      obtain hfull | hpart := h.buffer_le.eq_or_lt
      · obtain ⟨hless, hframe⟩ := h.full hpos hfull
        have hnext := hwords p.number hless
        rw [hcapacity, hraw, ← hframe, ← h.decoder] at hnext
        exact ⟨_, .decode hreading hfull hnext⟩
      · cases hunread : p.unread with
        | nil => exact ⟨_, .close hreading hpart hunread⟩
        | cons byte rest =>
            exact ⟨_, .read 1 hreading Nat.one_pos hpart (by simp [hunread])⟩

/-- How much there is left to do. -/
def left (p : Pipeline) : Nat :=
  3 * p.unread.length + 2 * p.buffer.length + p.queue.length + p.reading.toNat

/-- Each step leaves less to do. -/
theorem left_lt_of_step {p next : Pipeline} {size : Nat} (hpos : 0 < size)
    (hstep : Step size capacity p next) : next.left < p.left := by
  cases hstep with
  | read count hreading hcount hfits hunread =>
      simp only [left, List.length_append, List.length_take, List.length_drop]
      omega
  | decode hreading hfull hnext =>
      simp only [left, List.length_append, List.length_singleton, List.length_nil]
      omega
  | close hreading hpart hend =>
      simp only [left, hreading, Bool.toNat_false, Bool.toNat_true]
      omega
  | write hqueue =>
      simp only [left, hqueue, List.length_cons]
      omega

/-- From any time on both sides come to their end. -/
theorem Sound.exists_finished {p : Pipeline} (h : Sound calls format lines p)
    (hwords : Decode.FitsWords calls) (hpos : 0 < d.sampling.frameSize)
    (hraw : ∀ call, calls.raw call = Decode.frameAt d.sampling.frameSize file call)
    (hcapacity : ∀ call, calls.capacity call = capacity) :
    ∃ last, Relation.ReflTransGen (Step d.sampling.frameSize capacity) p last ∧ last.Finished := by
  induction hleft : p.left using Nat.strong_induction_on generalizing p with
  | _ left ih =>
      by_cases hfinished : p.Finished
      · exact ⟨p, .refl, hfinished⟩
      · obtain ⟨next, hstep⟩ := h.exists_step hwords hpos hraw hcapacity hfinished
        obtain ⟨last, hsteps, hlast⟩ := ih next.left (hleft ▸ left_lt_of_step hpos hstep)
          (h.step hwords hpos hraw hcapacity hstep) rfl
        exact ⟨last, .head hstep hsteps, hlast⟩

end Run

/-- However the two sides take turns, they can always go on until both have come to their end, and
then what was written is what one after the other would have written. -/
theorem finish_eq_stream {d : Decoder} (hreachable : d.Reachable) (format : OutputFormat)
    (lines : Nat) (file : ByteArray) {decoded : List (List Record)}
    (hall : Decode.decodeAll d d.sampling.totalLines (Decode.frames d.sampling.frameSize file) =
      (decoded, true)) {p : Pipeline}
    (h : Relation.ReflTransGen (Step d.sampling.frameSize d.sampling.totalLines)
      (start d format lines file) p) :
    (p.Finished → p.writer.finish = Decode.stream format lines decoded) ∧
      ∃ last, Relation.ReflTransGen (Step d.sampling.frameSize d.sampling.totalLines) p last ∧
        last.Finished := by
  have hpos := hreachable.valid.frameSize_pos
  let calls := Decode.callsOf d file (fun _ => d.sampling.totalLines) fun _ => Nat.le_refl _
  obtain ⟨hwords, hstream⟩ :=
    Decode.stream_eq calls hreachable format lines rfl (fun _ => rfl) hall
  have hsound : Sound calls format lines p := by
    induction h with
    | refl => exact sound_start calls
    | tail _ hstep ih => exact ih.step hwords hpos (fun _ => rfl) (fun _ => rfl) hstep
  refine ⟨?_, hsound.exists_finished hwords hpos (fun _ => rfl) fun _ => rfl⟩
  rintro ⟨hclosed, hqueue⟩
  have hwritten := hsound.output
  rw [hqueue, hsound.closed hclosed] at hwritten
  rw [hstream, ← hwritten]
  rfl

end Pipeline

end Blanking
