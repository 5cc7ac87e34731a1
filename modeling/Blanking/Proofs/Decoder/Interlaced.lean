import Mathlib.Data.List.Basic
import Mathlib.Data.List.Forall2
import Blanking.Proofs.Decoder.Flat

/-! # Layout of the buffer

The lines of both fields may alternate in the buffer, or those of the second field may follow those
of the first one. Two decoders for the same lines in the two layouts go through the same states and
give the same answers, as long as each gets the rows where it looks for them. -/

namespace Blanking

/-! ## Frames -/

namespace Sampling

/-- The same lines with one field behind the other. -/
def sequential (s : Sampling) : Sampling := { s with interlaced := false }

/-- A row of a buffer. -/
def rowAt (s : Sampling) (raw : ByteArray) (number : Nat) : ByteArray :=
  raw.extract (number * s.bytesPerLine) ((number + 1) * s.bytesPerLine)

/-- Whether a buffer holds field by field the rows that alternate in another one, if that has all of
its rows. -/
structure Deinterlaced (s : Sampling) (raw raw' : ByteArray) : Prop where
  size : raw'.size = raw.size
  rows : s.frameSize ≤ raw.size → ∀ (field : Field), ∀ index < s.count.on field,
    s.rowAt raw' (field.index * s.count.on field + index) = s.rowAt raw (2 * index + field.index)

theorem rowOf_eq_rowAt (s : Sampling) (raw : ByteArray) (field : Field) (index : Nat) :
    s.rowOf raw field index = s.rowAt raw (s.row field index) := by
  rw [rowOf, rowAt, Nat.succ_mul]

/-- A consistent sampling of alternating lines is consistent in the other layout, too. -/
theorem Valid.sequential {s : Sampling} (h : s.Valid) : s.sequential.Valid := by
  obtain ⟨hrate, hsamples, hlines, scanning, hscanning, hfirst, hsecond, _⟩ := valid_iff.mp h
  exact valid_iff.mpr ⟨hrate, hsamples, hlines, scanning, hscanning, hfirst, hsecond, rfl⟩

/-- Each line is where its layout has it. -/
theorem Valid.rowOf_sequential {s : Sampling} (h : s.Valid) (hinterlaced : s.interlaced = true)
    {raw raw' : ByteArray} (hframe : s.Deinterlaced raw raw') (hsize : s.frameSize ≤ raw.size)
    {field : Field} {index : Nat} (hindex : index < s.count.on field) :
    s.sequential.rowOf raw' field index = s.rowOf raw field index := by
  have hrow : s.row field index = 2 * index + field.index := by
    rw [row, if_pos hinterlaced, Nat.mul_comm]
  have hrow' : s.sequential.row field index = field.index * s.count.on field + index := by
    have hcount := h.count_eq hinterlaced
    cases field <;>
      simp [row, Sampling.sequential, position, base, Field.index, PerField.on, hcount]
  rw [rowOf_eq_rowAt, rowOf_eq_rowAt, hrow, hrow']
  exact hframe.rows hsize field index hindex

end Sampling

/-! ## Operations -/

namespace Decoder

/-- The decoder for the same lines with one field behind the other. -/
def sequential (d : Decoder) : Decoder := { d with sampling := d.sampling.sequential }

theorem addService_sequential (d : Decoder) (service : Service) (strictness : Strictness) :
    d.sequential.addService service strictness =
      (d.addService service strictness).map sequential := by
  have hpermit : d.sequential.sampling.permit service.transmission strictness =
      d.sampling.permit service.transmission strictness := rfl
  have hassign : d.sequential.assign service strictness = d.assign service strictness := rfl
  have hcandidates : d.sequential.sampling.candidates service.transmission =
      d.sampling.candidates service.transmission := rfl
  have hpatterns : d.sequential.patternsOrNew = d.patternsOrNew := rfl
  have hservices : d.sequential.services = d.services := rfl
  unfold addService
  rw [hpermit, hassign, hcandidates, hpatterns, hservices]
  split
  next => rfl
  next =>
    cases d.sampling.permit service.transmission strictness with
    | error cause => rfl
    | ok _ =>
        cases d.assign service strictness with
        | error cause => rfl
        | ok assigned =>
            dsimp only
            split <;> rfl

theorem addEach_sequential (d : Decoder) (strictness : Strictness) (services : List Service) :
    d.sequential.addEach strictness services =
      ((d.addEach strictness services).1.sequential, (d.addEach strictness services).2) := by
  induction services generalizing d with
  | nil => rfl
  | cons service rest ih =>
      rw [addEach, addEach, addService_sequential]
      cases d.addService service strictness with
      | error cause => simp only [Except.map, ih]
      | ok next =>
          simp only [Except.map, ih]
          rfl

theorem dropFrom_sequential (s : Sampling) (removed : ServiceSet) (number : Nat) (jobs : List Job)
    (patterns : List LinePattern) :
    dropFrom s.sequential removed number jobs patterns =
      dropFrom s removed number jobs patterns := by
  have hcandidates : s.sequential.candidates = s.candidates := rfl
  induction jobs generalizing number patterns with
  | nil => rfl
  | cons job rest ih => simp only [dropFrom, ih, hcandidates]

theorem removeServices_sequential (d : Decoder) (services : ServiceSet) :
    d.sequential.removeServices services = (d.removeServices services).sequential := by
  have hservices : d.sequential.services = d.services := rfl
  have hdrop := dropFrom_sequential d.sampling (d.services ∩ services) 0 d.jobs d.patterns
  rw [removeServices_eq, removeServices_eq, hservices]
  rw [sequential, hdrop]
  rfl

theorem decodeLines_sequential {s : Sampling} {raw raw' : ByteArray} {sites : List (Field × Nat)}
    (hrows : ∀ site ∈ sites,
      s.sequential.rowOf raw' site.1 site.2 = s.rowOf raw site.1 site.2)
    (probe : Bool) (patterns : List LinePattern) (jobs : List Job) (room : Nat) :
    decodeLines s.sequential raw' probe sites patterns jobs room =
      decodeLines s raw probe sites patterns jobs room := by
  have hline : s.sequential.lineNumber = s.lineNumber := rfl
  induction sites generalizing patterns jobs room with
  | nil => rfl
  | cons site sites ih =>
      obtain ⟨field, index⟩ := site
      obtain ⟨hrow, hrows⟩ := List.forall_mem_cons.mp hrows
      rcases patterns with _ | ⟨pattern, patterns⟩
      · rfl
      rcases room with _ | room
      · rfl
      simp only [decodeLines, hline, hrow, ih hrows]

theorem decode_sequential {d : Decoder} {raw raw' : ByteArray} (hvalid : d.sampling.Valid)
    (hinterlaced : d.sampling.interlaced = true) (hframe : d.sampling.Deinterlaced raw raw')
    (capacity : Nat) :
    d.sequential.decode capacity raw' =
      (d.decode capacity raw).map fun (next, records) => (next.sequential, records) := by
  have hframeSize : d.sequential.sampling.frameSize = d.sampling.frameSize := rfl
  unfold decode
  rw [hframeSize, hframe.size]
  split
  next => rfl
  next hsize =>
    -- Sites, line numbers and patterns go by field in both layouts, so only rows differ.
    have hverdicts : d.sequential.verdicts capacity raw' = d.verdicts capacity raw := by
      apply decodeLines_sequential
      rintro ⟨field, index⟩ hsite
      obtain ⟨position, hposition⟩ := List.mem_iff_getElem?.mp hsite
      exact hvalid.rowOf_sequential hinterlaced hframe (Nat.le_of_not_lt hsize)
        (Sampling.getElem?_sites.mp hposition).1
    rw [hverdicts]
    rfl

/-! ## Runs -/

/-- What a decoder answers when it is asked for something. -/
inductive Answer where
  | added (result : Except AddError Unit)
  /-- Those of the services that are decoded now, and what became of each new one. -/
  | addedSome (decoded : ServiceSet) (outcomes : List Outcome)
  | remaining (services : ServiceSet)
  | done
  | changed (result : Except SamplingError (ServiceSet × List Outcome))
  | decoded (result : Except DecodeError (List Record))

def answer (d : Decoder) : Operation → Answer
  | .addService service strictness =>
      .added ((d.addService service strictness).map fun _ => ())
  | .addServices services strictness =>
      let (next, outcomes) := d.addServices services strictness
      .addedSome (next.services ∩ services) outcomes
  | .removeServices services => .remaining (d.removeServices services).services
  | .reset => .done
  | .setSampling s strictness =>
      .changed ((d.setSampling s strictness).map fun (next, outcomes) => (next.services, outcomes))
  | .decode capacity raw => .decoded ((d.decode capacity raw).map (·.2))

/-- The answers to one operation after the other. -/
def answers (d : Decoder) : List Operation → List Answer
  | [] => []
  | operation :: rest => d.answer operation :: (d.after operation).answers rest

def Answer.records : Answer → List Record
  | .decoded (.ok records) => records
  | _ => []

/-- The same operations on decoders for the two layouts, each with frames in its own layout. -/
inductive Matching (s : Sampling) : Operation → Operation → Prop where
  | addService (service : Service) (strictness : Strictness) :
      Matching s (.addService service strictness) (.addService service strictness)
  | addServices (services : ServiceSet) (strictness : Strictness) :
      Matching s (.addServices services strictness) (.addServices services strictness)
  | removeServices (services : ServiceSet) :
      Matching s (.removeServices services) (.removeServices services)
  | reset : Matching s .reset .reset
  | decode (capacity : Nat) {raw raw' : ByteArray} (h : s.Deinterlaced raw raw') :
      Matching s (.decode capacity raw) (.decode capacity raw')

section Run

variable {s : Sampling} (hvalid : s.Valid) (hinterlaced : s.interlaced = true)

include hvalid hinterlaced

/-- The two decoders answer alike, and stay alike but for the layout. -/
theorem Matching.step {operation operation' : Operation} (h : Matching s operation operation')
    {d : Decoder} (hsampling : d.sampling = s) :
    d.sequential.answer operation' = d.answer operation ∧
      d.sequential.after operation' = (d.after operation).sequential ∧
      (d.after operation).sampling = s := by
  subst hsampling
  cases h with
  | addService service strictness =>
      simp only [answer, after, addService_sequential]
      cases hadd : d.addService service strictness with
      | error cause => exact ⟨rfl, rfl, rfl⟩
      | ok next => exact ⟨rfl, rfl, sampling_addService hadd⟩
  | addServices services strictness =>
      have hadd : d.sequential.addServices services strictness =
          ((d.addServices services strictness).1.sequential,
            (d.addServices services strictness).2) :=
        addEach_sequential d strictness (services \ d.services).toList
      simp only [answer, after, hadd]
      exact ⟨rfl, trivial, sampling_addEach d strictness _⟩
  | removeServices services =>
      simp only [answer, after, removeServices_sequential]
      exact ⟨rfl, trivial, sampling_removeServices d services⟩
  | reset => exact ⟨rfl, rfl, rfl⟩
  | @decode capacity raw raw' hframe =>
      simp only [answer, after, decode_sequential hvalid hinterlaced hframe]
      cases hdecode : d.decode capacity raw with
      | error cause => exact ⟨rfl, rfl, rfl⟩
      | ok result =>
          obtain ⟨next, records⟩ := result
          obtain ⟨_, rfl, _⟩ := decode_eq_ok hdecode
          exact ⟨rfl, rfl, rfl⟩

theorem Matching.run {operations operations' : List Operation}
    (h : List.Forall₂ (Matching s) operations operations') {d : Decoder}
    (hsampling : d.sampling = s) :
    d.sequential.answers operations' = d.answers operations ∧
      d.sequential.run operations' = (d.run operations).sequential ∧
      (d.run operations).sampling = s := by
  induction h generalizing d with
  | nil => exact ⟨rfl, rfl, hsampling⟩
  | cons hmatching _ ih =>
      obtain ⟨hanswer, hafter, hkept⟩ := hmatching.step hvalid hinterlaced hsampling
      obtain ⟨hanswers, hrun, hsame⟩ := ih hkept
      refine ⟨?_, ?_, hsame⟩
      · rw [answers, answers, hanswer, hafter, hanswers]
      · rw [Decoder.run, List.foldl_cons, hafter]
        exact hrun

/-- Alternating lines are decoded as lines of one field behind the other are: both layouts are
consistent, and new decoders for them give the same answers in every run in which each gets its
frames in its own layout. In the end they differ in the layout only. -/
theorem answers_interlaced :
    ∃ d d', Decoder.new s = .ok d ∧ Decoder.new { s with interlaced := false } = .ok d' ∧
      ∀ operations operations', List.Forall₂ (Matching s) operations operations' →
        d'.answers operations' = d.answers operations ∧
        d'.run operations' =
          { d.run operations with sampling := { s with interlaced := false } } := by
  have hnew {s : Sampling} (h : s.Valid) : Decoder.new s = .ok (ofSampling s) := by
    rw [Decoder.new, h]
  refine ⟨_, _, hnew hvalid, hnew hvalid.sequential, ?_⟩
  intro operations operations' h
  have hsampling : (ofSampling s).sampling = s := rfl
  obtain ⟨hanswers, hrun, hsame⟩ := Matching.run hvalid hinterlaced h hsampling
  refine ⟨hanswers, hrun.trans ?_⟩
  rw [sequential, hsame]
  rfl

end Run

/-! ## Buffers of given rows -/

/-- A buffer with rows one after the other. -/
def bufferOf (rows : List ByteArray) : ByteArray := ⟨(rows.map (·.data.toList)).flatten.toArray⟩

theorem take_drop_flatten {α : Type} {length number : Nat} {rows : List (List α)} {row : List α}
    (hrows : ∀ row ∈ rows, row.length = length) (h : rows[number]? = some row) :
    (rows.flatten.drop (number * length)).take length = row := by
  induction rows generalizing number with
  | nil => simp at h
  | cons first rest ih =>
      obtain ⟨hfirst, hrest⟩ := List.forall_mem_cons.mp hrows
      cases number with
      | zero =>
          obtain rfl : first = row := by simpa using h
          simp [← hfirst]
      | succ number =>
          rw [List.flatten_cons, Nat.succ_mul, Nat.add_comm, ← List.drop_drop, ← hfirst,
            List.drop_left, hfirst]
          exact ih hrest h

section Buffers

variable {s : Sampling} {rows rows' : List ByteArray}
  (hrows : ∀ row ∈ rows, row.size = s.bytesPerLine)

include hrows

theorem rowAt_bufferOf {number : Nat} {row : ByteArray} (h : rows[number]? = some row) :
    s.rowAt (bufferOf rows) number = row := by
  have hlengths : ∀ line ∈ rows.map (·.data.toList), line.length = s.bytesPerLine := by
    simpa using hrows
  have hrow : (rows.map (·.data.toList))[number]? = some row.data.toList := by simp [h]
  apply ByteArray.ext
  apply Array.toList_inj.mp
  rw [Sampling.rowAt, ByteArray.data_extract, Array.toList_extract, List.extract_eq_take_drop,
    Nat.succ_mul, Nat.add_sub_cancel_left]
  exact take_drop_flatten hlengths hrow

theorem size_bufferOf : (bufferOf rows).size = rows.length * s.bytesPerLine := by
  induction rows with
  | nil => simp [bufferOf, ← ByteArray.size_data]
  | cons row rest ih =>
      obtain ⟨hrow, hrest⟩ := List.forall_mem_cons.mp hrows
      have hsize : (bufferOf (row :: rest)).size = row.size + (bufferOf rest).size := by
        simp [bufferOf, ← ByteArray.size_data]
      rw [hsize, hrow, ih hrest, List.length_cons, Nat.succ_mul, Nat.add_comm]

theorem deinterlaced_bufferOf (hrows' : ∀ row ∈ rows', row.size = s.bytesPerLine)
    (hlength : rows'.length = rows.length)
    (h : ∀ field, ∀ index < s.count.on field, ∃ row, rows[2 * index + field.index]? = some row ∧
      rows'[field.index * s.count.on field + index]? = some row) :
    s.Deinterlaced (bufferOf rows) (bufferOf rows') where
  size := by rw [size_bufferOf hrows, size_bufferOf hrows', hlength]
  rows _ field index hindex := by
    obtain ⟨row, hrow, hrow'⟩ := h field index hindex
    rw [rowAt_bufferOf hrows hrow, rowAt_bufferOf hrows' hrow']

end Buffers

/-- Two lines of each field, at two samples for each bit of a caption run-in. -/
def interlacedSampling : Sampling where
  standards := .lines625
  format := .yuv420
  rate := 2000000
  offset := 0
  samplesPerLine := 110
  start := ⟨22, 334⟩
  count := ⟨2, 2⟩
  interlaced := true
  synchronous := true

def emptyLine : ByteArray := ⟨Array.replicate 110 16⟩

/-- Captions on one line of each field, and another line of each field without. -/
def interlacedFrame : ByteArray := bufferOf [captionFrame, brightLine, emptyLine, captionFrame]

/-- The same lines, with those of the first field in front. -/
def sequentialFrame : ByteArray := bufferOf [captionFrame, emptyLine, brightLine, captionFrame]

/-- Both captions are found, and only one of them after its service was given up. -/
def captionRun (raw : ByteArray) : List Operation :=
  [.addServices .caption625 .loose, .decode 4 raw,
    .removeServices (.singleton .caption625Field1), .decode 4 raw]

theorem answers_interlaced_captionRun :
    interlacedSampling.Valid ∧ interlacedSampling.interlaced = true ∧
      ∃ d d', Decoder.new interlacedSampling = .ok d ∧
        Decoder.new { interlacedSampling with interlaced := false } = .ok d' ∧
        d'.answers (captionRun sequentialFrame) = d.answers (captionRun interlacedFrame) ∧
        (d.answers (captionRun interlacedFrame)).map (·.records.map Record.line) =
          [[], [22, 335], [], [335]] := by
  have hvalid : interlacedSampling.Valid := rfl
  have hframe : interlacedSampling.Deinterlaced interlacedFrame sequentialFrame := by
    apply deinterlaced_bufferOf
    · decide +kernel
    · decide +kernel
    · rfl
    · rintro (_ | _) (_ | _ | index) hindex
      · exact ⟨captionFrame, rfl, rfl⟩
      · exact ⟨emptyLine, rfl, rfl⟩
      · exact absurd hindex (by simp [interlacedSampling, PerField.on])
      · exact ⟨brightLine, rfl, rfl⟩
      · exact ⟨captionFrame, rfl, rfl⟩
      · exact absurd hindex (by simp [interlacedSampling, PerField.on])
  have hmatching : List.Forall₂ (Matching interlacedSampling) (captionRun interlacedFrame)
      (captionRun sequentialFrame) :=
    .cons (.addServices _ _) (.cons (.decode 4 hframe) (.cons (.removeServices _)
      (.cons (.decode 4 hframe) .nil)))
  obtain ⟨d, d', hd, hd', hsame⟩ := answers_interlaced hvalid rfl
  obtain ⟨hanswers, _⟩ := hsame _ _ hmatching
  obtain rfl : ofSampling interlacedSampling = d := Except.ok.inj hd
  exact ⟨hvalid, rfl, _, d', rfl, hd', hanswers, by decide +kernel⟩

end Decoder

end Blanking
