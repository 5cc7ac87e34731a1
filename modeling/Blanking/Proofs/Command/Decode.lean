import Blanking.Proofs.Command.Pipeline
import Blanking.Proofs.Command.Run
import Blanking.Proofs.Decoder.Attribution

/-! # The binary output of the decoder command

A command that succeeds has decoded the field pairs of its input one after the other, and nothing
else is in its output. -/

namespace Blanking.Decode

/-- Whether a command has put out some bytes and nothing else: they were printed, or written to a
file. -/
def PutOut (path : String) (report : Report) (bytes : ByteArray) : Prop :=
  if isPipe path then report.stdout = bytes ∧ report.written = none
  else report.stdout = ByteArray.empty ∧ report.written = some (path, bytes)

theorem putOut_of_output {before after : Report} {path : String} {content : ByteArray}
    (hclean : Report.SameOutput ⟨[], ByteArray.empty, none⟩ before)
    (h : (Run.output path content).runFrom before = (.ok (), after)) :
    PutOut path after content := by
  unfold Run.output at h
  unfold PutOut
  split at h
  next hpipe =>
    obtain ⟨_, rfl⟩ := Prod.mk.inj h
    rw [if_pos hpipe]
    refine ⟨?_, hclean.written⟩
    dsimp only
    rw [hclean.stdout, ByteArray.empty_append]
  next hfile =>
    obtain ⟨_, rfl⟩ := Prod.mk.inj h
    rw [if_neg hfile]
    exact ⟨hclean.stdout, rfl⟩

/-- Whether some bytes are the stream of the whole field pairs of a file, of `size` bytes and
`total` lines each, in their order and each with its number, and of nothing that is left behind
them. -/
structure Streamed (d : Decoder) (size total lines : Nat) (file bytes : ByteArray) : Prop where
  /-- The records are those that the decoder returns for one field pair after the other, with any
  room for a record of every line. -/
  sequential : ∀ capacity : Nat → Nat, (∀ call, total ≤ capacity call) →
    ∃ calls : Decoder.Calls d (file.size / size), calls.capacity = capacity ∧
      (∀ call, calls.raw call = file.extract (call * size) (call * size + size)) ∧
      (∀ call < file.size / size,
        (Decoder.InWords.decode (calls.decoder call) (calls.capacity call) (calls.raw call)).run =
          some (.ok (calls.decoder (call + 1), calls.records call))) ∧
      bytes.data.toList = Stream.header lines ++
        (List.range (file.size / size)).flatMap fun call =>
          Stream.littleEndian 8 call ++ Stream.littleEndian 4 (calls.records call).length ++
            (calls.records call).flatMap Stream.ofRecord
  /-- It makes no difference how those who read, decode and write take turns, and they come to an
  end. -/
  concurrent : ∀ p : Pipeline, Relation.ReflTransGen (Pipeline.Step size total)
      (.start d .binary lines file) p →
    (p.Finished → p.writer.finish = bytes) ∧
      ∃ last, Relation.ReflTransGen (Pipeline.Step size total) p last ∧ last.Finished

theorem streamed_of_decodeAll {d : Decoder} (hreachable : d.Reachable) (lines : Nat)
    {file : ByteArray} {decoded : List (List Record)}
    (hall : decodeAll d d.sampling.totalLines (frames d.sampling.frameSize file) =
      (decoded, true)) :
    Streamed d d.sampling.frameSize d.sampling.totalLines lines file
      (stream .binary lines decoded) := by
  constructor
  · intro capacity hroom
    let calls := callsOf d file capacity hroom
    obtain ⟨hwords, hstream⟩ := stream_eq calls hreachable .binary lines rfl (fun _ => rfl) hall
    refine ⟨calls, rfl, fun _ => rfl, hwords, ?_⟩
    rw [hstream, Writer.finish_writeFrames_new, Stream.ofFrames, List.flatMap_map]
    rfl
  · intro p hsteps
    exact Pipeline.finish_eq_stream hreachable .binary lines file hall hsteps

section Run

variable {files : Files} {common : CommonOptions} {input : String} {options : SamplingOptions}
  {services : String} {format : OutputFormat} {path : Option String} {report : Report}

/-- A command that succeeds finds a consistent sampling, services and a file, and puts out what is
decoded of them. -/
theorem run_eq_ok
    (h : (run files common input options services format path).run = (.ok (), report)) :
    ∃ sampling requested decoder outcomes size total file decoded,
      (Run.sampling files options).run.1 = .ok sampling ∧
      sampling.validate?.run = some (.ok ()) ∧ ServiceSet.parse services = .ok requested ∧
      Decoder.InWords.addServices (.ofSampling sampling)
        (sampling.selected requested (.ofLevel options.strictness))
        (.ofLevel options.strictness) = some (decoder, outcomes) ∧
      sampling.frameSize? = some size ∧ sampling.totalLines? = some total ∧
      (if isPipe input then file = files.piped else files.read input = .ok file) ∧
      decodeAll decoder total (frames size file) = (decoded, true) ∧
      PutOut (path.getD "-") report
        (stream format ((sampling.scanning.map Scanning.lines).getD 625) decoded) := by
  rw [Run.run_eq_runFrom] at h
  unfold run at h
  obtain ⟨sampling, _, hsampling, h⟩ := Run.bind_eq_ok h
  obtain ⟨hvalid, hdescribed⟩ := Run.sampling_eq_ok hsampling
  dsimp only at h
  obtain ⟨requested, _, hparse, h⟩ := Run.bind_eq_ok h
  obtain ⟨hrequested, hparsed⟩ := Run.ofExcept_eq_ok hparse
  obtain ⟨selected, _, hselect, h⟩ := Run.bind_eq_ok h
  obtain ⟨hchosen, rfl⟩ := Run.selectServices_eq_ok hselect
  obtain ⟨fresh, _, hnew, h⟩ := Run.bind_eq_ok h
  obtain ⟨hfresh, hmade⟩ := Run.ofChecked_eq_ok hnew
  obtain ⟨_, rfl⟩ := Decoder.new_eq_ok (Decoder.agrees_new _ hfresh).symm
  obtain ⟨⟨decoder, outcomes⟩, _, hadd, h⟩ := Run.bind_eq_ok h
  obtain ⟨hadded, hserved⟩ := Run.ofWords_eq_ok hadd
  dsimp only at h
  obtain ⟨_, hreported, h⟩ := Run.log_bind_eq_ok h
  obtain ⟨_, h⟩ := Run.ite_throw_eq_ok h
  obtain ⟨size, _, hmeasure, h⟩ := Run.bind_eq_ok h
  obtain ⟨hsize, hmeasured⟩ := Run.ofWords_eq_ok hmeasure
  obtain ⟨_, hbegun, h⟩ := Run.log_bind_eq_ok h
  obtain ⟨_, hpipe, h⟩ := Run.ite_log_eq_ok h
  obtain ⟨found, _, hinput, h⟩ := Run.bind_eq_ok h
  obtain ⟨hfound, hcontent⟩ := Run.input_eq_ok hinput
  obtain ⟨_, _, hcheck, h⟩ := Run.bind_eq_ok h
  have hopened := hdescribed |>.trans hparsed |>.trans hchosen |>.trans hmade |>.trans hserved
    |>.trans hreported |>.trans hmeasured |>.trans hbegun |>.trans hpipe |>.trans hfound
    |>.trans (Run.checkOutput_eq_ok hcheck)
  cases found with
  | ok file =>
    obtain ⟨_, _, hfile, h⟩ := Run.bind_eq_ok h
    obtain ⟨hfile, hread⟩ := Run.pure_eq_ok hfile
    obtain rfl := Except.ok.inj hfile
    obtain ⟨total, _, hcounting, h⟩ := Run.bind_eq_ok h
    obtain ⟨htotal, hcounted⟩ := Run.ofWords_eq_ok hcounting
    obtain ⟨_, hrecords, h⟩ := Run.log_bind_eq_ok h
    obtain ⟨hwhole, h⟩ := Run.ite_action_throw_eq_ok h
    obtain ⟨_, hrest, h⟩ := Run.ite_log_eq_ok h
    obtain ⟨_, hcount, h⟩ := Run.log_bind_eq_ok h
    obtain ⟨_, _, houtput, h⟩ := Run.bind_eq_ok h
    have hclean := hopened |>.trans hread |>.trans hcounted |>.trans hrecords |>.trans hrest
      |>.trans hcount
    have hput := putOut_of_output hclean houtput
    obtain ⟨_, rfl⟩ := Prod.mk.inj h
    exact ⟨sampling, requested, decoder, outcomes, size, total, file, _,
      congrArg Prod.fst hsampling, hvalid, hrequested, hadded, hsize, htotal, hcontent file rfl,
      Prod.ext rfl (by simpa using hwhole), hput⟩
  | error cause =>
    -- An input that cannot be read is an error, whatever was put out before.
    obtain ⟨_, _, _, h⟩ := Run.bind_eq_ok h
    obtain ⟨_, _, hthrow, _⟩ := Run.bind_eq_ok h
    exact absurd (congrArg Prod.fst hthrow) (by simp [Run.runFrom])

/-- A command that succeeds puts out a binary stream of its input, decoded by one decoder with the
services that were asked for and can be decoded. -/
theorem run_binary
    (h : (run files common input options services .binary path).run = (.ok (), report)) :
    ∃ sampling scanning requested fresh decoder outcomes size total file bytes,
      (Run.sampling files options).run.1 = .ok sampling ∧
      sampling.validate?.run = some (.ok ()) ∧ sampling.scanning = some scanning ∧
      ServiceSet.parse services = .ok requested ∧
      (Decoder.InWords.new sampling).run = some (.ok fresh) ∧
      Decoder.InWords.addServices fresh
        (sampling.selected requested (.ofLevel options.strictness))
        (.ofLevel options.strictness) = some (decoder, outcomes) ∧
      sampling.frameSize? = some size ∧ sampling.totalLines? = some total ∧
      (if isPipe input then file = files.piped else files.read input = .ok file) ∧
      PutOut (path.getD "-") report bytes ∧
      Streamed decoder size total scanning.lines file bytes := by
  obtain ⟨sampling, requested, decoder, outcomes, size, total, file, decoded, hsampling,
    hconsistent, hrequested, hadded, hsize, htotal, hfile, hall, hput⟩ := run_eq_ok h
  have hvalid : sampling.Valid := Sampling.validate?_eq_ok_iff.mp hconsistent
  obtain ⟨scanning, hscanning, _⟩ := hvalid.exists_scanning
  have hlines : (sampling.scanning.map Scanning.lines).getD 625 = scanning.lines := by
    rw [hscanning]
    rfl
  rw [hlines] at hput
  have hnew := Decoder.run_new hvalid
  have hafter : Decoder.InWords.after? (.ofSampling sampling) (.addServices
      (sampling.selected requested (.ofLevel options.strictness)) (.ofLevel options.strictness)) =
        some decoder := by
    rw [Decoder.InWords.after?, hadded]
    rfl
  have hreachable := ((Decoder.InWords.Reachable.new hnew).step _ hafter).reachable
  obtain rfl : decoder.sampling = sampling := by
    have hplain := Decoder.addEach_agrees (d := .ofSampling sampling) hvalid hadded
    have hkept := Decoder.sampling_addEach (.ofSampling sampling) (.ofLevel options.strictness)
    exact (congrArg (·.1.sampling) hplain).symm.trans (hkept _)
  obtain ⟨_, _, _, rfl⟩ := Sampling.frameSize?_eq_some_iff.mp hsize
  obtain ⟨_, rfl⟩ := Sampling.totalLines?_eq_some_iff.mp htotal
  have hstreamed := streamed_of_decodeAll hreachable scanning.lines hall
  exact ⟨_, scanning, requested, _, decoder, outcomes, _, _, file, _, hsampling, hconsistent,
    hscanning, hrequested, hnew, hadded, hsize, htotal, hfile, hput, hstreamed⟩

end Run

/-- Settings of a line with a caption. -/
def captionSettings : String :=
  "pixel_format: yuv420\nsampling_rate: 2000000\noffset: 0\nsamples_per_line: 110\n" ++
    "start: [22, 0]\ncount: [1, 0]\ninterlaced: false\n"

/-- Two field pairs with a caption, and the start of a third one. -/
def captionFiles : Files where
  read path :=
    if path = "settings" then .ok captionSettings.toUTF8
    else .ok (Decoder.captionFrame ++ Decoder.captionFrame ++ ⟨#[1, 2, 3]⟩)
  canWrite _ := .ok ()
  piped := ByteArray.empty

def captionRun : Run Unit :=
  run captionFiles ⟨none, false, .plain, false⟩ "in" ⟨some "settings", none, none, false, 0⟩
    "caption-625-f1" .binary (some "out")

theorem run_binary_captionFile :
    ∃ report, captionRun.run = (.ok (), report) ∧
      ∃ decoder scanning size total file bytes,
        captionFiles.read "in" = .ok file ∧ report.written = some ("out", bytes) ∧
        Streamed decoder size total scanning file bytes := by
  have hok : captionRun.run.1 = .ok () := by decide +kernel
  generalize hrun : captionRun.run = result at hok ⊢
  obtain ⟨outcome, report⟩ := result
  obtain rfl : outcome = .ok () := hok
  obtain ⟨sampling, scanning, requested, fresh, decoder, outcomes, size, total, file, bytes, _, _,
    _, _, _, _, _, _, hfile, hput, hstreamed⟩ := run_binary hrun
  exact ⟨report, rfl, decoder, scanning.lines, size, total, file, bytes, hfile, hput.2, hstreamed⟩

end Blanking.Decode
