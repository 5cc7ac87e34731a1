import Blanking.Proofs.Decoder.Attribution
import Blanking.Proofs.Decoder.Calls
import Blanking.Proofs.Decoder.History

/-! # No line is overlooked for long

All lines share one counter of field pairs, which says when blank lines are probed, and each has
its own count of failures, which says whether it is blank. Together they make sure that every
line with a job is tried again within one period. -/

namespace Blanking.Decoder

/-! ## The period -/

theorem Reachable.sinceProbe_lt {d : Decoder} (h : d.Reachable) : d.sinceProbe < probePeriod := by
  refine h.invariant (fun d => d.sinceProbe < probePeriod) ?_ ?_ ?_ ?_
  · exact fun _ _ => Nat.zero_lt_succ _
  · intro d next service strictness hlt hnext
    obtain ⟨rfl, _⟩ | ⟨jobs, number, hadded⟩ := addService_eq_ok hnext
    · exact hlt
    · rw [hadded.next_eq]
      exact hlt
  · intro d services hlt
    rwa [removeServices_eq]
  · intro d next capacity raw records _ hnext
    obtain ⟨_, rfl, _⟩ := decode_eq_ok hnext
    exact Nat.mod_lt _ (by decide)

/-! ## Lines that are tried -/

/-- Whether some job is registered on the line at a position. -/
def HasJobs (d : Decoder) (position : Nat) : Prop :=
  ∃ pattern, d.patterns[position]? = some pattern ∧ pattern.jobs ≠ []

/-- Whether the jobs of the line at a position are tried on a field pair, in the order of its
pattern and until one of them finds something. By then they may have adapted to other lines. -/
def Tries (d : Decoder) (capacity : Nat) (raw : ByteArray) (position : Nat) : Prop :=
  ∃ field index pattern now, d.sampling.sites[position]? = some (field, index) ∧
    d.patterns[position]? = some pattern ∧ now.map Job.setup = d.jobs.map Job.setup ∧
    (d.verdicts capacity raw).2[position]? =
      some (.ofHit? (tryJobs field (d.sampling.lineNumber field index)
        (d.sampling.rowOf raw field index) 0 pattern.jobs now).2)

section Lines

variable {d next : Decoder} {capacity position : Nat} {raw : ByteArray} {records : List Record}
  {pattern : LinePattern}

theorem isTried_iff (h : d.Consistent) (hpattern : d.patterns[position]? = some pattern) :
    pattern.isTried (d.sinceProbe == 0) = true ↔
      pattern.jobs ≠ [] ∧ (d.sinceProbe = 0 ∨ pattern.misses < blankLimit) := by
  have hempty := (h.registered position pattern hpattern).wellFormed.isEmpty_eq
  simp [LinePattern.isTried, LinePattern.isBlank, hempty, or_comm]

/-- With room for a record of every line, a line is tried exactly if its pattern says so. -/
theorem tries_iff (h : d.Consistent) (hroom : d.sampling.totalLines ≤ capacity)
    (hpattern : d.patterns[position]? = some pattern) :
    d.Tries capacity raw position ↔
      pattern.jobs ≠ [] ∧ (d.sinceProbe = 0 ∨ pattern.misses < blankLimit) := by
  rw [← isTried_iff h hpattern]
  constructor
  · rintro ⟨field, index, _, now, _, _, _, hverdict⟩
    have hjudged := h.verdict_judged hroom hpattern hverdict
    by_contra hskipped
    exact Verdict.ofHit?_ne_skipped _ (hjudged.skipped (by simpa using hskipped))
  · intro htried
    have hlt := (List.getElem?_eq_some_iff.mp hpattern).1
    have hverdict := List.getElem?_eq_getElem (d.length_verdicts capacity raw ▸ hlt)
    obtain ⟨field, index, now, hsite, hsetup, hfound⟩ :=
      (h.verdict_judged hroom hpattern hverdict).tried htried
    exact ⟨field, index, pattern, now, hsite, hpattern, hsetup, hverdict.trans (hfound ▸ rfl)⟩

theorem HasJobs.decode (h : d.Consistent) (hjobs : d.HasJobs position)
    (hnext : d.decode capacity raw = .ok (next, records)) : next.HasJobs position := by
  obtain ⟨pattern, hpattern, hne⟩ := hjobs
  obtain ⟨number, hnumber⟩ := List.exists_mem_of_ne_nil _ hne
  have hafter := h.decode hnext
  obtain ⟨_, heq, _⟩ := decode_eq_ok hnext
  have hlength : next.patterns.length = d.patterns.length := by
    rw [heq, List.length_zipWith, length_verdicts, Nat.min_self]
  have hlt := (List.getElem?_eq_some_iff.mp hpattern).1
  have hget := List.getElem?_eq_getElem (hlength.symm ▸ hlt)
  have hsetup : d.jobs.map Job.setup = next.jobs.map Job.setup := by
    rw [heq]
    exact (d.map_setup_verdicts capacity raw).symm
  refine ⟨_, hget, List.ne_nil_of_mem (a := number) ?_⟩
  rw [(hafter.registered position _ hget).mem_jobs_iff, heq]
  obtain ⟨service, hserves, hcandidate⟩ :=
    ((h.registered position pattern hpattern).mem_jobs_iff number).mp hnumber
  exact ⟨service, heq ▸ serves_of_setup hsetup hserves, hcandidate⟩

/-- A line on which something was found is not blank afterwards. -/
theorem misses_of_found (hnext : d.decode capacity raw = .ok (next, records)) {hit : Hit}
    (hfound : (d.verdicts capacity raw).2[position]? = some (.found hit))
    (hpattern : next.patterns[position]? = some pattern) : pattern.misses = 0 := by
  obtain ⟨_, rfl, _⟩ := decode_eq_ok hnext
  obtain ⟨verdict, before, hverdict, _, rfl⟩ := List.getElem?_zipWith_eq_some.mp hpattern
  obtain rfl := Option.some.inj (hfound.symm.trans hverdict)
  exact LinePattern.misses_promote _ _

end Lines

/-! ## Calls in a row -/

namespace Calls

variable {first : Decoder} {count : Nat} (calls : Calls first count)

/-- Whether the line at a position is tried in a call. -/
def Tried (call position : Nat) : Prop :=
  (calls.decoder call).Tries (calls.capacity call) (calls.raw call) position

/-- The records of a call, each with the line that it was found on. -/
def reports (call : Nat) : List ((Field × Nat) × Record) :=
  Decoder.reports (calls.decoder call).sampling
    ((calls.decoder call).verdicts (calls.capacity call) (calls.raw call)).2

variable {calls}

theorem sinceProbe_add {call later : Nat} (hlater : call + later ≤ count)
    (hlt : (calls.decoder call).sinceProbe < probePeriod) :
    (calls.decoder (call + later)).sinceProbe =
      ((calls.decoder call).sinceProbe + later) % probePeriod := by
  induction later with
  | zero => exact (Nat.mod_eq_of_lt hlt).symm
  | succ later ih =>
      obtain ⟨_, hnext, _⟩ := decode_eq_ok (calls.decoded (call + later) hlater)
      rw [← Nat.add_assoc, hnext]
      dsimp only
      rw [ih (Nat.le_of_succ_le hlater), Nat.mod_add_mod, Nat.add_assoc]

/-- The counter comes by zero once in every period. -/
theorem existsUnique_sinceProbe {call : Nat} (hcall : call + probePeriod ≤ count)
    (hlt : (calls.decoder call).sinceProbe < probePeriod) :
    ∃! probing, call ≤ probing ∧ probing < call + probePeriod ∧
      (calls.decoder probing).sinceProbe = 0 := by
  have hcounter {later : Nat} (hlater : later < probePeriod) :=
    sinceProbe_add (show call + later ≤ count by omega) hlt
  have hperiod : probePeriod = 16 := rfl
  generalize (calls.decoder call).sinceProbe = counter at hlt hcounter
  rw [hperiod] at *
  refine ⟨call + (16 - counter) % 16, ⟨Nat.le_add_right _ _, ?_, ?_⟩, ?_⟩
  · omega
  · rw [hcounter (by omega)]
    omega
  · rintro probing ⟨hfirst, hlast, hzero⟩
    obtain ⟨later, rfl⟩ := Nat.exists_eq_add_of_le hfirst
    rw [hcounter (by omega)] at hzero
    omega

theorem hasJobs_add (hfirst : first.Reachable) {call later position : Nat}
    (hlater : call + later ≤ count) (h : (calls.decoder call).HasJobs position) :
    (calls.decoder (call + later)).HasJobs position := by
  induction later with
  | zero => exact h
  | succ later ih =>
      have hbefore := ih (Nat.le_of_succ_le hlater)
      have hconsistent := (calls.reachable hfirst (Nat.le_of_succ_le hlater)).consistent
      exact hbefore.decode hconsistent (calls.decoded (call + later) hlater)

theorem tried_iff (hfirst : first.Reachable) {call position : Nat} {pattern : LinePattern}
    (hcall : call < count) (hpattern : (calls.decoder call).patterns[position]? = some pattern) :
    calls.Tried call position ↔ pattern.jobs ≠ [] ∧
      ((calls.decoder call).sinceProbe = 0 ∨ pattern.misses < blankLimit) :=
  tries_iff (calls.reachable hfirst hcall.le).consistent (calls.roomy call hcall) hpattern

/-- A line with jobs is tried within one period, when the counter comes by zero if not before. -/
theorem exists_tried (hfirst : first.Reachable) {call position : Nat}
    (hcall : call + probePeriod ≤ count) (hjobs : (calls.decoder call).HasJobs position) :
    ∃ trying, call ≤ trying ∧ trying < call + probePeriod ∧ calls.Tried trying position := by
  have hlt := (calls.reachable hfirst (Nat.le_of_add_right_le hcall)).sinceProbe_lt
  obtain ⟨probing, ⟨hle, hless, hzero⟩, _⟩ := existsUnique_sinceProbe hcall hlt
  obtain ⟨later, rfl⟩ := Nat.exists_eq_add_of_le hle
  obtain ⟨pattern, hpattern, hne⟩ := hasJobs_add hfirst (hless.le.trans hcall) hjobs
  exact ⟨call + later, hle, hless,
    (tried_iff hfirst (hless.trans_le hcall) hpattern).mpr ⟨hne, Or.inl hzero⟩⟩

/-- Where something was found, the line is not blank in the next call. -/
theorem tried_of_mem_reports (hfirst : first.Reachable) {call position : Nat}
    (hcall : call + 1 < count) {site : Field × Nat} {record : Record}
    (hreport : (site, record) ∈ calls.reports call)
    (hsite : (calls.decoder call).sampling.sites[position]? = some site) :
    calls.Tried (call + 1) position := by
  have hnext := calls.decoded call (Nat.lt_of_succ_lt hcall)
  have hconsistent := (calls.reachable hfirst (Nat.lt_of_succ_lt hcall).le).consistent
  obtain ⟨position', hit, hsite', hfound, _⟩ := mem_reports hreport
  obtain rfl : position' = position := by
    rw [(Sampling.getElem?_sites.mp hsite).2, (Sampling.getElem?_sites.mp hsite').2]
  obtain ⟨_, _, tried, _, hpattern, htried, _⟩ := decodeLines_found hfound
  have hjobs := ((isTried_iff hconsistent hpattern).mp htried).1
  obtain ⟨pattern, hpattern', hne⟩ := HasJobs.decode hconsistent ⟨tried, hpattern, hjobs⟩ hnext
  have hmisses : pattern.misses < blankLimit := by
    rw [misses_of_found hnext hfound hpattern']
    exact Nat.zero_lt_succ _
  exact (tried_iff hfirst hcall hpattern').mpr ⟨hne, Or.inr hmisses⟩

/-- What was counted on a line is the end of its history. -/
theorem missed_suffix_history {s : Sampling} {start : Decoder} (hnew : Decoder.new s = .ok start)
    {operations : List Operation} (calls : Calls (start.run operations) count)
    {call position : Nat} {pattern : LinePattern} (hcall : call ≤ count)
    (hpattern : (calls.decoder call).patterns[position]? = some pattern) :
    List.replicate pattern.misses .missed <:+
      start.history position (operations ++ calls.operations call) := by
  obtain ⟨_, rfl⟩ := new_eq_ok hnew
  have hfresh : CountedAt position [] (ofSampling s) := countedAt_ofSampling s
  have hcounted := hfresh.run (.new hnew) (operations ++ calls.operations call)
  have hrun : (ofSampling s).run (operations ++ calls.operations call) = calls.decoder call := by
    rw [run, List.foldl_append]
    exact calls.run_operations hcall
  rw [hrun] at hcounted
  exact hcounted pattern hpattern

/-- However a decoder came to its state, of any sixteen calls in a row exactly one probes blank
lines. A line with jobs is tried whenever that is so or it has failed less than 128 times, and if
it is not, then the last that happened to it is that it failed 128 times in a row. So it is tried
at least once in sixteen calls, and in the next one after something was found on it. -/
theorem no_line_overlooked {s : Sampling} {start : Decoder} (hnew : Decoder.new s = .ok start)
    (operations : List Operation) {count : Nat} (calls : Calls (start.run operations) count) :
    (∀ first, first + 16 ≤ count → ∃! call, first ≤ call ∧ call < first + 16 ∧
      (calls.decoder call).sinceProbe = 0) ∧
    (∀ call < count, ∀ position pattern,
      (calls.decoder call).patterns[position]? = some pattern → pattern.jobs ≠ [] →
        (calls.Tried call position ↔
          (calls.decoder call).sinceProbe = 0 ∨ pattern.misses < 128) ∧
        (¬ calls.Tried call position → List.replicate 128 .missed <:+
          start.history position (operations ++ calls.operations call))) ∧
    (∀ first position, first + 16 ≤ count → (calls.decoder first).HasJobs position →
      ∃ call, first ≤ call ∧ call < first + 16 ∧ calls.Tried call position) ∧
    ∀ call, call + 1 < count →
      calls.records call = (calls.reports call).map (·.2) ∧
      ∀ site record position, (site, record) ∈ calls.reports call →
        (calls.decoder call).sampling.sites[position]? = some site →
          calls.Tried (call + 1) position := by
  have hfirst : (start.run operations).Reachable := (Reachable.new hnew).run operations
  refine ⟨?_, ?_, fun first position hlast hjobs => exists_tried hfirst hlast hjobs, ?_⟩
  · intro first hlast
    exact existsUnique_sinceProbe hlast
      (calls.reachable hfirst (Nat.le_of_add_right_le hlast)).sinceProbe_lt
  · intro call hcall position pattern hpattern hjobs
    have htried := tried_iff hfirst hcall hpattern
    refine ⟨htried.trans (and_iff_right hjobs), fun hskipped => ?_⟩
    have hmany : 128 ≤ pattern.misses := by
      by_contra hfew
      exact hskipped (htried.mpr ⟨hjobs, Or.inr (Nat.lt_of_not_le hfew)⟩)
    have hless : List.replicate 128 LineEvent.missed <:+ List.replicate pattern.misses .missed :=
      List.suffix_replicate_iff.mpr ⟨by simpa using hmany, by simp⟩
    exact hless.trans (missed_suffix_history hnew calls hcall.le hpattern)
  · intro call hcall
    refine ⟨(decode_eq_ok (calls.decoded call (Nat.lt_of_succ_lt hcall))).2.2, ?_⟩
    intro site record position hreport hsite
    exact tried_of_mem_reports hfirst hcall hreport hsite

end Calls

/-- A line without a caption. -/
def blankFrame : ByteArray := ⟨Array.replicate 110 16⟩

/-- The caption decoder after some field pairs without a caption. -/
def captionDecoderAfter (blanks : Nat) : Decoder :=
  { captionDecoder with
    sampling := captionSampling
    patterns := [.ofJobs [0] (min blanks blankLimit)]
    sinceProbe := blanks % probePeriod }

/-- Tried or not, the line counts one failure more up to the limit. -/
theorem decodeLines_blankFrame (blanks : Nat) (probe : Bool) : ∃ verdict,
    decodeLines captionSampling blankFrame probe captionSampling.sites
        [.ofJobs [0] (min blanks blankLimit)] captionDecoder.jobs 1 =
      (captionDecoder.jobs, [verdict]) ∧
    verdict.learn (.ofJobs [0] (min blanks blankLimit)) =
      .ofJobs [0] (min (blanks + 1) blankLimit) ∧
    verdict.record? captionSampling (.first, 0) = none := by
  have hsites : captionSampling.sites = [(.first, 0)] := by decide
  have hjobs : (LinePattern.ofJobs [0] (min blanks blankLimit)).jobs = [0] :=
    LinePattern.jobs_ofJobs (by decide)
  obtain ⟨hkept, hnone⟩ :
      (tryJobs .first (captionSampling.lineNumber .first 0)
        (captionSampling.rowOf blankFrame .first 0) 0 [0] captionDecoder.jobs).1 =
          captionDecoder.jobs ∧
      (tryJobs .first (captionSampling.lineNumber .first 0)
        (captionSampling.rowOf blankFrame .first 0) 0 [0] captionDecoder.jobs).2.isNone = true := by
    decide +kernel
  rw [hsites]
  by_cases hskip : (!(LinePattern.ofJobs [0] (min blanks blankLimit)).isTried probe) = true
  · refine ⟨.skipped, by simp only [decodeLines, if_pos hskip, List.map_nil], ?_, rfl⟩
    have hblank : blankLimit ≤ min blanks blankLimit := by
      simp only [LinePattern.isTried, LinePattern.isEmpty_ofJobs, LinePattern.isBlank,
        LinePattern.misses_ofJobs] at hskip
      by_contra hfew
      simp [hfew] at hskip
    exact congrArg (LinePattern.ofJobs [0]) (by omega)
  · refine ⟨.missed, ?_, ?_, rfl⟩
    · rcases htry : tryJobs .first (captionSampling.lineNumber .first 0)
        (captionSampling.rowOf blankFrame .first 0) 0 [0] captionDecoder.jobs with ⟨jobs, found⟩
      rw [htry] at hkept hnone
      obtain rfl : jobs = captionDecoder.jobs := hkept
      obtain rfl : found = none := Option.isNone_iff_eq_none.mp hnone
      simp only [decodeLines, if_neg hskip, hjobs, htry, List.map_nil]
    · rw [Verdict.learn, LinePattern.miss_ofJobs]
      exact congrArg (LinePattern.ofJobs [0]) (by omega)

theorem decode_blankFrame (blanks : Nat) :
    (captionDecoderAfter blanks).decode 1 blankFrame =
      .ok (captionDecoderAfter (blanks + 1), []) := by
  have hlong : ¬ blankFrame.size < captionSampling.frameSize := by decide +kernel
  have hsites : captionSampling.sites = [(.first, 0)] := by decide
  obtain ⟨verdict, hlines, hlearn, hrecord⟩ :=
    decodeLines_blankFrame blanks (blanks % probePeriod == 0)
  have hverdicts : (captionDecoderAfter blanks).verdicts 1 blankFrame =
      (captionDecoder.jobs, [verdict]) := hlines
  have hreports : reports (captionDecoderAfter blanks).sampling [verdict] = [] := by
    rw [reports, show (captionDecoderAfter blanks).sampling.sites = [(.first, 0)] from hsites]
    simp [captionDecoderAfter, hrecord]
  rw [decode, if_neg (show ¬ blankFrame.size < (captionDecoderAfter blanks).sampling.frameSize
    from hlong), hverdicts]
  dsimp only
  rw [hreports, List.map_nil]
  simp only [captionDecoderAfter, List.zipWith_cons_cons, List.zipWith_nil_left, hlearn,
    Nat.mod_add_mod]

/-- The caption decoder while it is given lines without a caption. -/
theorem decoderAfter_blankFrame {raw : Nat → ByteArray} {caption : Nat}
    (hraw : ∀ call < caption, raw call = blankFrame) {call : Nat} (hcall : call ≤ caption) :
    captionDecoder.decoderAfter (fun _ => 1) raw call = captionDecoderAfter call := by
  induction call with
  | zero =>
      have hstart : captionDecoder = captionDecoderAfter 0 := by decide +kernel
      exact hstart
  | succ call ih =>
      rw [decoderAfter, ih (Nat.le_of_succ_le hcall), after, hraw call hcall,
        decode_blankFrame]

namespace Calls

/-- A line that never holds a caption is tried 128 times and then left out, until it is probed; once
a caption was found there, it is tried again. -/
theorem no_line_overlooked_captionFrame :
    Decoder.new captionSampling = .ok (ofSampling captionSampling) ∧
      ∃ calls : Calls captionDecoder 146,
        (∀ call, calls.raw call = if call = 144 then captionFrame else blankFrame) ∧
        ¬ calls.Tried 129 0 ∧
        List.replicate 128 .missed <:+ (ofSampling captionSampling).history 0
          ([.addService .caption625Field1 .loose] ++ calls.operations 129) ∧
        (∃! call, 129 ≤ call ∧ call < 129 + 16 ∧ (calls.decoder call).sinceProbe = 0) ∧
        (∃ call, 129 ≤ call ∧ call < 129 + 16 ∧ calls.Tried call 0) ∧
        calls.Tried 145 0 := by
  have hnew : Decoder.new captionSampling = .ok (ofSampling captionSampling) := rfl
  have hsampling : captionDecoder.sampling = captionSampling := by decide +kernel
  let raw (call : Nat) : ByteArray := if call = 144 then captionFrame else blankFrame
  have hsize (call : Nat) : captionDecoder.sampling.frameSize ≤ (raw call).size := by
    rw [hsampling]
    dsimp only [raw]
    split <;> decide +kernel
  have hroom : captionDecoder.sampling.totalLines ≤ 1 := by
    rw [hsampling]
    decide
  let calls : Calls captionDecoder 146 := .ofRaw captionDecoder (fun _ => 1) raw 146
    (fun call _ => hsize call) fun _ _ => hroom
  have hdecoder {call : Nat} (hcall : call ≤ 144) :
      calls.decoder call = captionDecoderAfter call :=
    decoderAfter_blankFrame (fun call hcall => if_neg (Nat.ne_of_lt hcall)) hcall
  obtain ⟨hprobed, htried, hperiod, hfound⟩ :=
    no_line_overlooked hnew [.addService .caption625Field1 .loose] calls
  have hblank : (calls.decoder 129).patterns[0]? = some (.ofJobs [0] 128) := by
    rw [hdecoder (by decide)]
    rfl
  have hcounter : (calls.decoder 129).sinceProbe = 1 := by
    rw [hdecoder (by decide)]
    rfl
  have hjobs : (LinePattern.ofJobs [0] 128).jobs ≠ [] := by
    rw [LinePattern.jobs_ofJobs (by decide)]
    simp
  obtain ⟨hiff, hmisses⟩ := htried 129 (by decide) 0 _ hblank hjobs
  have hskipped : ¬ calls.Tried 129 0 := by
    intro htried
    rcases hiff.mp htried with hprobed | hfew
    · exact absurd (hcounter.symm.trans hprobed) (by decide)
    · rw [LinePattern.misses_ofJobs] at hfew
      exact Nat.lt_irrefl _ hfew
  have hsite : (calls.decoder 144).sampling.sites[0]? = some (.first, 0) := by
    rw [hdecoder (Nat.le_refl _)]
    decide +kernel
  have hreports : (Decoder.reports (captionDecoderAfter 144).sampling
      ((captionDecoderAfter 144).verdicts 1 captionFrame).2).map (·.1) = [(.first, 0)] := by
    decide +kernel
  have hlast : calls.reports 144 = Decoder.reports (captionDecoderAfter 144).sampling
      ((captionDecoderAfter 144).verdicts 1 captionFrame).2 := by
    rw [Calls.reports, hdecoder (Nat.le_refl _)]
    rfl
  obtain ⟨⟨_, record⟩, hrecord, rfl⟩ : ∃ report ∈ calls.reports 144, report.1 = (.first, 0) := by
    rw [hlast]
    exact List.mem_map.mp (by rw [hreports]; exact List.mem_singleton_self _)
  refine ⟨hnew, calls, fun _ => rfl, hskipped, hmisses hskipped, hprobed 129 (by decide),
    hperiod 129 0 (by decide) ⟨_, hblank, hjobs⟩, ?_⟩
  exact (hfound 144 (by decide)).2 _ record 0 hrecord hsite

end Calls

end Blanking.Decoder
