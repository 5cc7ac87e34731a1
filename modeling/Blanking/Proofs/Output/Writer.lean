import Blanking.Proofs.Output.Stream

/-! # Binary output

A writer puts the header in front of the first field pair, or writes it in the end if there was
none. What it has written can be read back, and nothing else reads as the same. -/

namespace Blanking.Writer

/-- Writes field pairs one after the other. -/
def writeFrames (w : Writer) (frames : List Stream.Frame) : Writer :=
  frames.foldl (fun w frame => w.write frame.number frame.records) w

theorem writeFrames_append (w : Writer) (frames rest : List Stream.Frame) :
    w.writeFrames (frames ++ rest) = (w.writeFrames frames).writeFrames rest := List.foldl_append

section Binary

variable {w : Writer}

theorem format_start (w : Writer) : w.start.format = w.format := by
  unfold start
  split <;> rfl

theorem started_start (h : w.format = .binary) : w.start.started = true := by
  unfold start
  split
  next hdone => simpa [h] using hdone
  next => rfl

theorem start_of_started (h : w.started = true) : w.start = w := by
  rw [start, h, Bool.true_or, if_pos rfl]

theorem format_write (h : w.format = .binary) (number : Nat) (records : List Record) :
    (w.write number records).format = .binary := by
  rw [write, h]
  exact (format_start w).trans h

/-- Each field pair goes behind what would be there without it. -/
theorem finish_write (h : w.format = .binary) (number : Nat) (records : List Record) :
    (w.write number records).finish.data.toList =
      w.finish.data.toList ++ Stream.ofFrame ⟨number, records⟩ := by
  have hstarted : (w.write number records).started = true := by
    rw [write, h]
    exact started_start h
  rw [finish, start_of_started hstarted, write, h, finish]
  simp only [ByteArray.toList_data_append, List.toList_data_toByteArray]

theorem finish_writeFrames (h : w.format = .binary) (frames : List Stream.Frame) :
    (w.writeFrames frames).finish.data.toList =
      w.finish.data.toList ++ frames.flatMap Stream.ofFrame := by
  induction frames generalizing w with
  | nil => simp [writeFrames]
  | cons frame frames ih =>
      rw [writeFrames, List.foldl_cons, ← writeFrames, ih (format_write h _ _), finish_write h,
        List.flatMap_cons, List.append_assoc]

theorem finish_new (lines : Nat) :
    (new .binary lines).finish.data.toList = Stream.header lines := by
  simp [finish, start, new]

end Binary

/-- The stream of some field pairs. -/
theorem finish_writeFrames_new (lines : Nat) (frames : List Stream.Frame) :
    ((new .binary lines).writeFrames frames).finish.data.toList =
      Stream.ofFrames lines frames := by
  rw [finish_writeFrames rfl, finish_new, Stream.ofFrames]

/-- The bytes that are written for some field pairs are a header, once, and then the field pairs.
They read as these field pairs and no other bytes do. So field pairs that differ in anything, or
come from another scanning, are never written alike. -/
theorem read_finish_writeFrames {lines : Nat} {frames : List Stream.Frame}
    (hlines : lines < 2 ^ 16) (hframes : ∀ frame ∈ frames, frame.Fits) :
    ((new .binary lines).writeFrames frames).finish.data.toList =
        Stream.header lines ++ frames.flatMap Stream.ofFrame ∧
      (∀ bytes : ByteArray, Stream.read bytes.data.toList = some (lines, frames) ↔
        bytes = ((new .binary lines).writeFrames frames).finish) ∧
      ∀ (lines' : Nat) (frames' : List Stream.Frame), lines' < 2 ^ 16 →
        (∀ frame ∈ frames', frame.Fits) →
        ((new .binary lines').writeFrames frames').finish =
          ((new .binary lines).writeFrames frames).finish →
        lines' = lines ∧ frames' = frames := by
  have hread : Stream.read ((new .binary lines).writeFrames frames).finish.data.toList =
      some (lines, frames) :=
    Stream.read_eq_some_iff.mpr ⟨⟨hlines, hframes⟩, finish_writeFrames_new lines frames⟩
  refine ⟨finish_writeFrames_new lines frames, ?_, ?_⟩
  · intro bytes
    constructor
    · intro hbytes
      apply ByteArray.ext
      apply Array.toList_inj.mp
      rw [(Stream.read_eq_some_iff.mp hbytes).2, finish_writeFrames_new]
    · rintro rfl
      exact hread
  · intro lines' frames' hlines' hframes' hsame
    have hread' : Stream.read ((new .binary lines').writeFrames frames').finish.data.toList =
        some (lines', frames') :=
      Stream.read_eq_some_iff.mpr ⟨⟨hlines', hframes'⟩, finish_writeFrames_new lines' frames'⟩
    rw [hsame, hread, Option.some.injEq, Prod.mk.injEq] at hread'
    exact ⟨hread'.1.symm, hread'.2.symm⟩

/-- A field pair with two records, the second of no known service, and one without. -/
def mixedFrames : List Stream.Frame :=
  [⟨3, [.ofPayload .vps 16 (List.replicate 13 0xAB),
      .ofId ⟨0x80000003⟩ 0 [0x56, 0x42, 0x49, 0x53]]⟩,
    ⟨0xFFFFFFFFFFFFFFFF, []⟩]

theorem read_finish_writeFrames_mixedFrames :
    625 < 2 ^ 16 ∧ (∀ frame ∈ mixedFrames, frame.Fits) ∧
      Stream.read ((new .binary 625).writeFrames mixedFrames).finish.data.toList =
        some (625, mixedFrames) := by
  have hframes : ∀ frame ∈ mixedFrames, frame.Fits := by
    simp only [mixedFrames, List.forall_mem_cons, List.not_mem_nil, false_implies, implies_true,
      and_true]
    exact ⟨⟨by decide, by decide, by decide⟩, ⟨by decide, by decide, by decide⟩⟩
  have hlines : 625 < 2 ^ 16 := by decide
  obtain ⟨_, hread, _⟩ := read_finish_writeFrames hlines hframes
  exact ⟨hlines, hframes, (hread _).mpr rfl⟩

end Blanking.Writer
