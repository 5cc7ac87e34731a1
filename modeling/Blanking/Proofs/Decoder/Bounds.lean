import Mathlib.Data.List.Basic
import Blanking.Proofs.Decoder.Checked
import Blanking.Proofs.Decoder.Flat
import Blanking.Proofs.Slicer.Bounds

/-! # Reads and writes of a decoder

A field pair is decoded here in place and with a check of every access: lines have a pattern, the
jobs of a pattern exist and can slice the row of the line, rows lie inside the buffer, and there is
a place for each record. None of the checks fails, so decoding needs none of them. -/

namespace Blanking.Decoder

/-! ## Checked decoding -/

namespace Guarded

/-- `rowOf` with a check that the row lies inside the buffer. -/
def row? (s : Sampling) (raw : ByteArray) (field : Field) (index : Nat) : Option ByteArray :=
  let start := s.row field index * s.bytesPerLine
  if start + s.bytesPerLine ≤ raw.size then some (raw.extract start (start + s.bytesPerLine))
  else none

/-- `tryJobs` with a check that each job exists and that its slicer does not refuse the row. -/
def tryJobs (field : Field) (line : Nat) (row : ByteArray) :
    (way : Nat) → (order : List Nat) → List Job → Option (List Job × Option Hit)
  | _, [], jobs => some (jobs, none)
  | way, number :: order, jobs =>
      match jobs[number]? with
      | none => none
      | some job =>
          match job.slicer.slice (Vector.replicate recordBytes 0) row with
          | .error _ => none
          | .ok none => tryJobs field line row (way + 1) order jobs
          | .ok (some (slicer, data)) =>
              let job := { job with slicer := slicer }
              let jobs := jobs.set number job
              match job.identify field line data.toList with
              | some service => some (jobs, some ⟨way, service, data⟩)
              | none => tryJobs field line row (way + 1) order jobs

/-- What changes from line to line. -/
structure Progress (size : Nat) where
  jobs : List Job
  patterns : List LinePattern
  output : Vector Record size
  written : Nat

section Lines

variable {size : Nat} (s : Sampling) (raw : ByteArray) (probe : Bool)

/-- Decodes one line. -/
def decodeLine (field : Field) (index : Nat) (now : Progress size) : Option (Progress size) := do
  let position := s.position field index
  let pattern ← now.patterns[position]?
  if !pattern.isTried probe then some now
  else
    let line := s.lineNumber field index
    let row ← row? s raw field index
    match ← tryJobs field line row 0 pattern.jobs now.jobs with
    | (jobs, none) =>
        some { now with jobs := jobs, patterns := now.patterns.set position pattern.miss }
    | (jobs, some hit) =>
        if h : now.written < size then
          some {
            jobs := jobs
            patterns := now.patterns.set position (pattern.promote hit.way)
            output := now.output.set now.written ⟨.singleton hit.service, line, hit.data⟩ h
            written := now.written + 1 }
        else none

/-- Decodes lines until the output is full. -/
def decodeLines : List (Field × Nat) → Progress size → Option (Progress size)
  | [], now => some now
  | (field, index) :: sites, now =>
      if now.written = size then some now
      else (decodeLine s raw probe field index now).bind (decodeLines sites)

end Lines

/-- Decodes a field pair into an output, and tells how many records were written. -/
def decode {size : Nat} (d : Decoder) (output : Vector Record size) (raw : ByteArray) :
    Option (Except DecodeError (Decoder × Vector Record size × Nat)) :=
  if raw.size < d.sampling.frameSize then
    some (.error (.rawTooShort d.sampling.frameSize raw.size))
  else
    let sinceProbe := (d.sinceProbe + 1) % probePeriod
    if d.patterns.isEmpty then some (.ok ({ d with sinceProbe := sinceProbe }, output, 0))
    else do
      let last ← decodeLines d.sampling raw (d.sinceProbe == 0) d.sampling.sites
        ⟨d.jobs, d.patterns, output, 0⟩
      some (.ok ({ d with
        jobs := last.jobs
        patterns := last.patterns
        sinceProbe := sinceProbe }, last.output, last.written))

end Guarded

/-! ## Jobs and rows -/

/-- Whether lines and records have the sizes that all jobs need. -/
def FitLines (s : Sampling) (jobs : List Job) : Prop :=
  ∀ job ∈ jobs,
    job.slicer.config.payloadBytes ≤ recordBytes ∧ job.slicer.config.rowBytes = s.bytesPerLine

theorem FitLines.of_setup {s : Sampling} {before jobs : List Job} (h : FitLines s before)
    (hsetup : jobs.map Job.setup = before.map Job.setup) : FitLines s jobs := by
  intro job hjob
  obtain ⟨number, hnumber⟩ := List.mem_iff_getElem?.mp hjob
  obtain ⟨original, horiginal, hsame⟩ := setup_getElem? hsetup hnumber
  rw [show job.slicer.config = original.slicer.config from (congrArg Prod.snd hsame).symm]
  exact h original (List.mem_of_getElem? horiginal)

theorem Sound.fitLines {d : Decoder} (h : d.Sound) : FitLines d.sampling d.jobs := by
  intro job hjob
  obtain ⟨hlayout, hsamples, _, _, _, hpayload⟩ := (h.jobs job hjob).config_sampling
  refine ⟨hpayload, ?_⟩
  rw [SlicerConfig.rowBytes, hsamples, hlayout]
  rfl

/-- A slicer does not refuse a line of the sizes that it needs. -/
theorem tryJob_eq_map {job : Job} {row : ByteArray}
    (hsizes : job.slicer.checkSizes recordBytes row = .ok ()) :
    ∃ found, job.slicer.slice (Vector.replicate recordBytes 0) row = .ok found ∧
      tryJob job row = found.map fun (slicer, data) => ({ job with slicer := slicer }, data) := by
  obtain ⟨found, hslice⟩ : ∃ found,
      job.slicer.slice (Vector.replicate recordBytes 0) row = .ok found := by
    rw [Slicer.slice, hsizes]
    exact ⟨_, rfl⟩
  refine ⟨found, hslice, ?_⟩
  rw [tryJob, hslice]
  cases found <;> rfl

theorem Consistent.number_lt {d : Decoder} (h : d.Consistent) {pattern : LinePattern}
    (hpattern : pattern ∈ d.patterns) {number : Nat} (hnumber : number ∈ pattern.jobs) :
    number < d.jobs.length := by
  obtain ⟨position, hposition⟩ := List.mem_iff_getElem?.mp hpattern
  obtain ⟨_, ⟨job, hjob, _⟩, _⟩ :=
    ((h.registered position pattern hposition).mem_jobs_iff number).mp hnumber
  exact (List.getElem?_eq_some_iff.mp hjob).1

namespace Guarded

variable {s : Sampling} {raw : ByteArray}

theorem row?_eq (hvalid : s.Valid) (hsize : s.frameSize ≤ raw.size) {field : Field} {index : Nat}
    (hindex : index < s.count.on field) :
    row? s raw field index = some (s.rowOf raw field index) := by
  have hrow := hvalid.row_succ_mul_le hindex
  rw [Nat.succ_mul] at hrow
  exact if_pos (hrow.trans hsize)

theorem tryJobs_eq {field : Field} {line : Nat} {row : ByteArray} {order : List Nat}
    {jobs : List Job} (hfit : FitLines s jobs) (hrow : row.size = s.bytesPerLine)
    (horder : ∀ number ∈ order, number < jobs.length) (way : Nat) :
    tryJobs field line row way order jobs =
      some (Decoder.tryJobs field line row way order jobs) := by
  induction order generalizing way jobs with
  | nil => rfl
  | cons number order ih =>
      obtain ⟨hnumber, horder⟩ := List.forall_mem_cons.mp horder
      have hget : jobs[number]? = some jobs[number] := List.getElem?_eq_getElem hnumber
      obtain ⟨hpayload, hbytes⟩ := hfit _ (List.getElem_mem hnumber)
      obtain ⟨found, hslice, htry⟩ := tryJob_eq_map
        (Slicer.checkSizes_eq_ok_iff.mpr ⟨hpayload, (hbytes.trans hrow.symm).le⟩)
      simp only [tryJobs, Decoder.tryJobs, hget, Option.bind_some, hslice, htry]
      cases found with
      | none => exact ih hfit horder (way + 1)
      | some found =>
          have hsetup := map_setup_set hget (setup_tryJob htry)
          simp only [Option.map_some]
          cases Job.identify { jobs[number] with slicer := found.1 } field line found.2.toList with
          | some service => rfl
          | none => exact ih (hfit.of_setup hsetup) (by simpa using horder) (way + 1)

end Guarded

/-! ## Records -/

/-- The records of some lines. -/
def recordsOn (s : Sampling) (sites : List (Field × Nat)) (verdicts : List Verdict) :
    List Record :=
  (sites.zip verdicts).filterMap fun (site, verdict) => verdict.record? s site

theorem map_reports (s : Sampling) (verdicts : List Verdict) :
    (reports s verdicts).map (·.2) = recordsOn s s.sites verdicts := by
  rw [reports, recordsOn, List.map_filterMap]
  congr 1
  funext line
  obtain ⟨site, verdict⟩ := line
  cases verdict <;> rfl

theorem recordsOn_cons (s : Sampling) (site : Field × Nat) (sites : List (Field × Nat))
    (verdict : Verdict) (verdicts : List Verdict) :
    recordsOn s (site :: sites) (verdict :: verdicts) =
      (verdict.record? s site).toList ++ recordsOn s sites verdicts := by
  cases h : verdict.record? s site <;> simp [recordsOn, h]

theorem recordsOn_skipped {α : Type} (s : Sampling) (sites : List (Field × Nat))
    (lines : List α) : recordsOn s sites (lines.map fun _ => .skipped) = [] := by
  rw [recordsOn, List.filterMap_eq_nil_iff]
  rintro ⟨site, verdict⟩ hmem
  obtain ⟨_, _, rfl⟩ := List.mem_map.mp (List.of_mem_zip hmem).2
  rfl

/-- Lines that are skipped learn nothing. -/
theorem learn_skipped (patterns : List LinePattern) :
    List.zipWith Verdict.learn (patterns.map fun _ => .skipped) patterns = patterns := by
  induction patterns with
  | nil => rfl
  | cons pattern rest ih => exact congrArg (pattern :: ·) ih

/-- There is at most one record for each line with jobs, and none without room for it. -/
theorem length_recordsOn_le {s : Sampling} {raw : ByteArray} {probe : Bool}
    (sites : List (Field × Nat)) (patterns : List LinePattern) (jobs : List Job) (room : Nat) :
    (recordsOn s sites (decodeLines s raw probe sites patterns jobs room).2).length ≤ room ∧
      (recordsOn s sites (decodeLines s raw probe sites patterns jobs room).2).length ≤
        (patterns.filter (!·.isEmpty)).length := by
  fun_induction decodeLines s raw probe sites patterns jobs room with
  | case1 field index sites pattern patterns jobs room _ rest verdicts hrest ih =>
      rw [hrest] at ih
      have hle := (List.sublist_cons_self pattern patterns).filter (!·.isEmpty) |>.length_le
      exact ⟨ih.1, ih.2.trans hle⟩
  | case2 field index sites pattern patterns jobs room htried after htry rest verdicts hrest ih =>
      rw [hrest] at ih
      have hle := (List.sublist_cons_self pattern patterns).filter (!·.isEmpty) |>.length_le
      exact ⟨ih.1, ih.2.trans hle⟩
  | case3 field index sites pattern patterns jobs room htried after hit htry rest verdicts hrest
      ih =>
      rw [hrest] at ih
      obtain ⟨hfull, _⟩ : pattern.isEmpty = false ∧ (pattern.isBlank = true → probe = true) := by
        simpa [LinePattern.isTried] using htried
      rw [List.filter_cons_of_pos (by rw [hfull]; rfl)]
      exact ⟨Nat.succ_le_succ ih.1, Nat.succ_le_succ ih.2⟩
  | case4 =>
      rw [recordsOn_skipped]
      exact ⟨Nat.zero_le _, Nat.zero_le _⟩

/-! ## The checks never fail -/

/-- Whether some sites are those of all positions from one on. -/
def FromPosition (s : Sampling) (start : Nat) (sites : List (Field × Nat)) : Prop :=
  ∀ place field index, sites[place]? = some (field, index) →
    index < s.count.on field ∧ s.position field index = start + place

theorem FromPosition.tail {s : Sampling} {start : Nat} {site : Field × Nat}
    {sites : List (Field × Nat)} (h : FromPosition s start (site :: sites)) :
    FromPosition s (start + 1) sites := by
  intro place field index hsite
  obtain ⟨hindex, hposition⟩ := h (place + 1) field index hsite
  exact ⟨hindex, by omega⟩

theorem fromPosition_sites (s : Sampling) : FromPosition s 0 s.sites := by
  intro place field index hsite
  obtain ⟨hindex, hposition⟩ := Sampling.getElem?_sites.mp hsite
  exact ⟨hindex, by rw [Sampling.position, hposition, Nat.zero_add]⟩

namespace Guarded

section Lines

variable {size : Nat} {s : Sampling} {raw : ByteArray} {probe : Bool} {output : Vector Record size}
  (hvalid : s.Valid) (hsize : s.frameSize ≤ raw.size)

include hvalid hsize

/-- One line, with the lines before it done and the records in front of the output. -/
theorem decodeLine_eq {field : Field} {index : Nat} {jobs : List Job} {pattern : LinePattern}
    {done rest : List LinePattern} {front : List Record} (hindex : index < s.count.on field)
    (hposition : s.position field index = done.length) (hfit : FitLines s jobs)
    (hnumbers : ∀ number ∈ pattern.jobs, number < jobs.length) (hroom : front.length < size) :
    decodeLine s raw probe field index
        ⟨jobs, done ++ pattern :: rest, overwrite front output, front.length⟩ =
      some (if pattern.isTried probe then
        match Decoder.tryJobs field (s.lineNumber field index) (s.rowOf raw field index) 0
          pattern.jobs jobs with
        | (jobs, none) =>
            ⟨jobs, done ++ pattern.miss :: rest, overwrite front output, front.length⟩
        | (jobs, some hit) =>
            let record := ⟨.singleton hit.service, s.lineNumber field index, hit.data⟩
            ⟨jobs, done ++ pattern.promote hit.way :: rest, overwrite (front ++ [record]) output,
              front.length + 1⟩
      else ⟨jobs, done ++ pattern :: rest, overwrite front output, front.length⟩) := by
  have hget : (done ++ pattern :: rest)[s.position field index]? = some pattern := by
    simp [hposition]
  have hset (next : LinePattern) :
      (done ++ pattern :: rest).set (s.position field index) next = done ++ next :: rest := by
    simp [hposition]
  simp only [decodeLine, hget, Option.bind_eq_bind, Option.bind_some, hset]
  cases htried : pattern.isTried probe with
  | false => rfl
  | true =>
      have hjobs := @tryJobs_eq s field (s.lineNumber field index) _ _ _ hfit
        (hvalid.size_rowOf hsize hindex) hnumbers 0
      simp only [row?_eq hvalid hsize hindex, Option.bind_some, hjobs]
      obtain ⟨jobs, found⟩ := Decoder.tryJobs field (s.lineNumber field index)
        (s.rowOf raw field index) 0 pattern.jobs jobs
      cases found with
      | none => rfl
      | some hit => simp [hroom, set_overwrite]

/-- All lines from one on, by induction on their patterns. Those before it are done, and their
records are in front of the output. -/
theorem decodeLines_eq {sites : List (Field × Nat)} {jobs after : List Job}
    {done rest : List LinePattern} {front : List Record} {verdicts : List Verdict} {room : Nat}
    (hlength : sites.length = rest.length) (hsites : FromPosition s done.length sites)
    (hfit : FitLines s jobs)
    (hnumbers : ∀ pattern ∈ rest, ∀ number ∈ pattern.jobs, number < jobs.length)
    (hroom : front.length + room = size)
    (h : Decoder.decodeLines s raw probe sites rest jobs room = (after, verdicts)) :
    decodeLines s raw probe sites ⟨jobs, done ++ rest, overwrite front output, front.length⟩ =
      some ⟨after, done ++ List.zipWith Verdict.learn verdicts rest,
        overwrite (front ++ recordsOn s sites verdicts) output,
        (front ++ recordsOn s sites verdicts).length⟩ := by
  induction rest generalizing sites jobs done front room after verdicts with
  | nil =>
      obtain rfl := List.length_eq_zero_iff.mp hlength
      obtain ⟨rfl, rfl⟩ := Prod.mk.inj h
      simp [decodeLines, recordsOn]
  | cons pattern rest ih =>
      obtain ⟨⟨field, index⟩, sites, rfl⟩ := List.exists_cons_of_length_eq_add_one hlength
      cases room with
      | zero =>
          -- The output is full, and both ways of decoding leave the lines from here on alone.
          obtain ⟨rfl, rfl⟩ := Prod.mk.inj h
          have hfull : front.length = size := hroom
          simp only [decodeLines, if_pos hfull, learn_skipped, recordsOn_skipped, List.append_nil]
      | succ room =>
          obtain ⟨hindex, hposition⟩ := hsites 0 field index rfl
          obtain ⟨hpattern, hnumbers⟩ := List.forall_mem_cons.mp hnumbers
          have hlength : sites.length = rest.length := Nat.succ.inj hlength
          have hsites (next : LinePattern) : FromPosition s (done ++ [next]).length sites := by
            simpa using hsites.tail
          rw [decodeLines, if_neg (by simp only; omega), decodeLine_eq hvalid hsize hindex hposition
            hfit hpattern (by omega), Option.bind_some]
          cases htried : pattern.isTried probe with
          | false =>
              simp only [Decoder.decodeLines, htried] at h
              obtain ⟨rfl, rfl⟩ := Prod.mk.inj h
              have hlines := ih hlength (hsites pattern) hfit hnumbers hroom rfl
              simpa [recordsOn_cons, Verdict.learn, Verdict.record?] using hlines
          | true =>
              rcases htry : Decoder.tryJobs field (s.lineNumber field index)
                (s.rowOf raw field index) 0 pattern.jobs jobs with ⟨adapted, found⟩
              -- Jobs may have adapted to the line, but there are as many, of the same setup.
              have hsetup := map_setup_of_tryJobs_eq htry
              have hcount : adapted.length = jobs.length := by
                simpa using congrArg List.length hsetup
              simp only [Decoder.decodeLines, htried, htry] at h
              cases found with
              | none =>
                  obtain ⟨rfl, rfl⟩ := Prod.mk.inj h
                  have hlines := ih hlength (hsites pattern.miss) (hfit.of_setup hsetup)
                    (by rwa [hcount]) hroom rfl
                  simpa [recordsOn_cons, Verdict.learn, Verdict.record?] using hlines
              | some hit =>
                  obtain ⟨rfl, rfl⟩ := Prod.mk.inj h
                  let record : Record :=
                    ⟨.singleton hit.service, s.lineNumber field index, hit.data⟩
                  have hlines := @ih _ _ _ _ (front ++ [record]) _ room hlength
                    (hsites (pattern.promote hit.way)) (hfit.of_setup hsetup) (by rwa [hcount])
                    (by simp; omega) rfl
                  simpa [recordsOn_cons, Verdict.learn, Verdict.record?] using hlines

end Lines

end Guarded

section Reachable

variable {d : Decoder} (h : d.Reachable) {raw : ByteArray}
  (hsize : d.sampling.frameSize ≤ raw.size)

include h hsize

/-- Decoding with checks ends as decoding without them does. -/
theorem Reachable.guarded_decode_eq {size : Nat} (output : Vector Record size) :
    ∃ next records, d.decode size raw = .ok (next, records) ∧
      Guarded.decode d output raw =
        some (.ok (next, overwrite records output, records.length)) := by
  rcases hverdicts : d.verdicts size raw with ⟨after, verdicts⟩
  refine ⟨_, _, by rw [decode, if_neg (Nat.not_lt.mpr hsize), hverdicts], ?_⟩
  rw [Guarded.decode, if_neg (Nat.not_lt.mpr hsize), map_reports]
  rw [Decoder.verdicts] at hverdicts
  rcases h.consistent.length_eq with ⟨hnone, _⟩ | hlength
  · have hnothing : decodeLines d.sampling raw (d.sinceProbe == 0) d.sampling.sites [] d.jobs size =
        (d.jobs, []) := by
      cases d.sampling.sites <;> rfl
    rw [hnone, hnothing] at hverdicts
    obtain ⟨rfl, rfl⟩ := Prod.mk.inj hverdicts
    simp [hnone, recordsOn, overwrite_nil]
  · have hsome : d.patterns.isEmpty = false := by
      have hpos := h.valid.totalLines_pos
      rw [← hlength] at hpos
      simpa using List.ne_nil_of_length_pos hpos
    have hlines := @Guarded.decodeLines_eq size d.sampling raw (d.sinceProbe == 0) output h.valid
      hsize _ _ _ [] _ [] _ _ (by rw [Sampling.length_sites, hlength])
      (fromPosition_sites d.sampling) h.sound.fitLines
      (fun pattern hpattern number => h.consistent.number_lt hpattern) (Nat.zero_add size) hverdicts
    simp only [List.nil_append, overwrite_nil, List.length_nil] at hlines
    simp [hsome, hlines]

end Reachable

/-- A field pair that has all of its lines is decoded, whatever the output, unless a position behind
a run-in is no word. Each line that is tried has a pattern and a row inside the buffer, each job of
the pattern exists and its slicer takes the row, and each record has a place. There are no more
records than places or lines with jobs, and the places behind the records stay as they were. -/
theorem InWords.Reachable.decode_inBounds {d : Decoder} (h : InWords.Reachable d)
    {raw : ByteArray} {bytes : Nat} (hbytes : d.sampling.frameSize? = some bytes)
    (hsize : bytes ≤ raw.size) {size : Nat} (output : Vector Record size) :
    (∀ job ∈ d.jobs, (∃ target, SlicerConfig.ofTarget target = .ok job.slicer.config) ∧
      job.slicer.config.payloadBytes ≤ recordBytes ∧
      job.slicer.config.rowBytes = d.sampling.bytesPerLine) ∧
    ∃ next records,
      (∀ outcome, (InWords.decode d size raw).run = some outcome →
        outcome = .ok (next, records)) ∧
      ((∀ job ∈ d.jobs, job.slicer.config.PositionsFit) →
        (InWords.decode d size raw).run = some (.ok (next, records))) ∧
      Guarded.decode d output raw =
        some (.ok (next, overwrite records output, records.length)) ∧
      records.length ≤ size ∧
      records.length ≤ (d.patterns.filter (!·.jobs.isEmpty)).length ∧
      ∀ place, records.length ≤ place → (overwrite records output)[place]? = output[place]? := by
  have hplain := h.reachable
  obtain ⟨_, _, _, rfl⟩ := Sampling.frameSize?_eq_some_iff.mp hbytes
  have hconfigured (job : Job) (hjob : job ∈ d.jobs) :
      ∃ target, SlicerConfig.ofTarget target = .ok job.slicer.config := by
    obtain ⟨service, hservice⟩ := (hplain.sound.jobs job hjob).exists_contains
    obtain ⟨strictness, hconfig⟩ := (hplain.sound.jobs job hjob).configured
    exact ⟨_, hconfig service hservice⟩
  obtain ⟨next, records, hdecode, hguarded⟩ := hplain.guarded_decode_eq hsize output
  obtain ⟨_, _, hrecords⟩ := decode_eq_ok hdecode
  have hjobs : d.patterns.filter (!·.isEmpty) = d.patterns.filter (!·.jobs.isEmpty) := by
    apply List.filter_congr
    intro pattern hpattern
    obtain ⟨position, hposition⟩ := List.mem_iff_getElem?.mp hpattern
    rw [(hplain.consistent.registered position pattern hposition).wellFormed.isEmpty_eq]
  obtain ⟨hroom, hlines⟩ := @length_recordsOn_le d.sampling raw (d.sinceProbe == 0)
    d.sampling.sites d.patterns d.jobs size
  rw [map_reports, verdicts] at hrecords
  rw [← hrecords] at hroom hlines
  refine ⟨fun job hjob => ⟨hconfigured job hjob, hplain.sound.fitLines job hjob⟩, next, records,
    ?_, ?_, hguarded, hroom, hjobs ▸ hlines, fun place hplace => getElem?_overwrite_of_le hplace⟩
  · intro outcome houtcome
    rw [hplain.sound.decode_agrees _ houtcome, hdecode]
  · intro hfit
    rw [run_decode hbytes hfit, hdecode]

/-- A record that was left in an output. -/
def staleRecord : Record := ⟨.empty, 7, Vector.replicate recordBytes 0xEE⟩

theorem decode_inBounds_captionFrame :
    InWords.Reachable captionDecoder ∧
      captionDecoder.sampling.frameSize? = some captionFrame.size ∧
      ∃ next records output,
        (InWords.decode captionDecoder 2 captionFrame).run = some (.ok (next, records)) ∧
        Guarded.decode captionDecoder (Vector.replicate 2 staleRecord) captionFrame =
          some (.ok (next, output, 1)) ∧
        output[1]? = some staleRecord := by
  have hrun : InWords.run? (ofSampling captionSampling) [.addService .caption625Field1 .loose] =
      some captionDecoder := by decide +kernel
  have hreachable : InWords.Reachable captionDecoder :=
    .of_run? (show captionSampling.Valid from rfl) hrun
  have hbytes : captionDecoder.sampling.frameSize? = some captionFrame.size := by decide +kernel
  have hfit : ∀ job ∈ captionDecoder.jobs, job.slicer.config.PositionsFit := by decide +kernel
  have hfound : (captionDecoder.decode 2 captionFrame).toOption.map (·.2.length) = some 1 := by
    decide +kernel
  obtain ⟨_, next, records, honly, hdecode, hguarded, _, _, hrest⟩ :=
    InWords.Reachable.decode_inBounds hreachable hbytes (Nat.le_refl _)
      (Vector.replicate 2 staleRecord)
  have hdecode := hdecode hfit
  have hplain := hreachable.reachable.sound.decode_agrees _ hdecode
  have hone : records.length = 1 := by simpa [← hplain, Except.toOption] using hfound
  rw [hone] at hguarded hrest
  exact ⟨hreachable, hbytes, next, records, _, hdecode, hguarded,
    (hrest 1 (Nat.le_refl 1)).trans rfl⟩

end Blanking.Decoder
