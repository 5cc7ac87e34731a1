import Blanking.Command.Decode
import Blanking.Proofs.Decoder.Truncation
import Blanking.Proofs.Output.Writer

/-! # The field pairs of a file

One decoder is given the whole field pairs of a file one after the other. What is written of them
is a stream of its answers, whatever room it has for them. -/

namespace Blanking.Decode

/-- The field pair of a number in a file. -/
def frameAt (size : Nat) (file : ByteArray) (number : Nat) : ByteArray :=
  file.extract (number * size) (number * size + size)

theorem size_frameAt {size number : Nat} {file : ByteArray} (hnumber : number < file.size / size) :
    (frameAt size file number).size = size := by
  have hend : number * size + size ≤ file.size := by
    rw [← Nat.succ_mul]
    exact (Nat.mul_le_mul_right size hnumber).trans (Nat.div_mul_le_self _ _)
  rw [frameAt, ByteArray.size_extract, Nat.min_eq_left hend, Nat.add_sub_cancel_left]

theorem frames_eq (size : Nat) (file : ByteArray) :
    frames size file = (List.range' 0 (file.size / size)).map (frameAt size file) := by
  rw [frames, List.range_eq_range']
  rfl

section Calls

variable {d : Decoder} {count : Nat} (calls : Decoder.Calls d count)

/-- Whether all calls come to something in words. -/
def FitsWords : Prop :=
  ∀ call < count, (Decoder.InWords.decode (calls.decoder call) (calls.capacity call)
    (calls.raw call)).run = some (.ok (calls.decoder (call + 1), calls.records call))

/-- Where all field pairs are decoded, with room for a record of every line, they are decoded as in
any calls with such room. -/
theorem decodeAll_eq (hreachable : d.Reachable) {capacity : Nat}
    (hroom : d.sampling.totalLines ≤ capacity) {first later : Nat}
    (hlater : first + later ≤ count) {decoded : List (List Record)}
    (hall : decodeAll (calls.decoder first) capacity ((List.range' first later).map calls.raw) =
      (decoded, true)) :
    decoded = (List.range' first later).map calls.records ∧
      ∀ call, first ≤ call → call < first + later →
        (Decoder.InWords.decode (calls.decoder call) (calls.capacity call)
          (calls.raw call)).run = some (.ok (calls.decoder (call + 1), calls.records call)) := by
  induction later generalizing first decoded with
  | zero =>
      obtain ⟨rfl, _⟩ := Prod.mk.inj hall
      exact ⟨rfl, fun call hge hlt => by omega⟩
  | succ later ih =>
      have hfirst : first < count := by omega
      have hnow := calls.reachable hreachable hfirst.le
      have hlines := hnow.consistent.length_patterns_le
      rw [calls.sampling hfirst.le] at hlines
      rw [List.range'_succ, List.map_cons, decodeAll] at hall
      split at hall
      next next records hdecode =>
        -- The answer is the one of the call, which has other room.
        have hwords : (Decoder.InWords.decode (calls.decoder first) (calls.capacity first)
            (calls.raw first)).run = some _ :=
          hnow.sound.run_decode_of_le (by omega) hdecode
        rw [calls.decoded first hfirst] at hwords
        have hplain := hnow.sound.decode_agrees _ hdecode
        have hroomy := calls.roomy first hfirst
        rw [hnow.consistent.decode_congr_capacity (by rwa [calls.sampling hfirst.le]) hroomy,
          calls.decoded first hfirst] at hplain
        obtain ⟨rfl, rfl⟩ := Prod.mk.inj (Except.ok.inj hplain)
        dsimp only at hall
        obtain ⟨rfl, hwhole⟩ := Prod.mk.inj hall
        obtain ⟨hrecords, hcalls⟩ := ih (by omega) (Prod.ext rfl hwhole)
        refine ⟨?_, fun call hge hlt => ?_⟩
        · rw [List.range'_succ, List.map_cons]
          exact congrArg (calls.records first :: ·) hrecords
        · obtain rfl | hlater := Nat.eq_or_lt_of_le hge
          · exact hwords
          · exact hcalls call hlater (by omega)
      next => exact absurd (Prod.mk.inj hall).2 (by simp)

theorem writeAll_eq (w : Writer) (records : Nat → List Record) (first later : Nat) :
    writeAll w first ((List.range' first later).map records) =
      w.writeFrames ((List.range' first later).map fun number => ⟨number, records number⟩) := by
  induction later generalizing w first with
  | zero => rfl
  | succ later ih =>
      rw [List.range'_succ, List.map_cons, List.map_cons, writeAll, ih]
      rfl

/-- What is written of a file are the answers of a decoder that is given its field pairs. -/
theorem stream_eq (hreachable : d.Reachable) {file : ByteArray} (format : OutputFormat)
    (lines : Nat) (hcount : count = file.size / d.sampling.frameSize)
    (hraw : ∀ call, calls.raw call = frameAt d.sampling.frameSize file call)
    {decoded : List (List Record)} (hall : decodeAll d d.sampling.totalLines
      (frames d.sampling.frameSize file) = (decoded, true)) :
    FitsWords calls ∧
      stream format lines decoded = ((Writer.new format lines).writeFrames
        ((List.range count).map fun number => ⟨number, calls.records number⟩)).finish := by
  have hframes : frames d.sampling.frameSize file = (List.range' 0 count).map calls.raw := by
    rw [frames_eq, ← hcount, funext hraw]
  have hcalls : decodeAll (calls.decoder 0) d.sampling.totalLines
      ((List.range' 0 count).map calls.raw) = (decoded, true) := by
    rw [calls.start, ← hframes, hall]
  obtain ⟨rfl, hwords⟩ := decodeAll_eq calls hreachable (Nat.le_refl _)
    (Nat.zero_add count).le hcalls
  refine ⟨fun call hcall => hwords call (Nat.zero_le _) (by omega), ?_⟩
  rw [stream, writeAll_eq, List.range_eq_range']

end Calls

/-- The calls in which a decoder is given the field pairs of a file. -/
def callsOf (d : Decoder) (file : ByteArray) (capacity : Nat → Nat)
    (hroom : ∀ call, d.sampling.totalLines ≤ capacity call) :
    Decoder.Calls d (file.size / d.sampling.frameSize) :=
  .ofRaw d capacity (frameAt d.sampling.frameSize file) _
    (fun _ hcall => (size_frameAt hcall).ge) fun call _ => hroom call

end Blanking.Decode
