import Blanking.Proofs.Decoder.Attribution
import Blanking.Proofs.Slicer.Flat

/-! # Frames without contrast

A frame whose lines have one level each holds no data. All jobs but those for captions at 525
lines see that; these check the last two bits of the run-in only, and take a bright line for a
caption. -/

namespace Blanking

namespace Service

/-- The bits of the run-in that a slicer checks. -/
def checkedBits (service : Service) : UInt32 :=
  service.transmission.criMask &&& lowBits service.transmission.criBits

/-- What a slicer expects of them. -/
def expectedBits (service : Service) : UInt32 :=
  service.transmission.cri &&& service.checkedBits

theorem expectedBits_ne_zero (service : Service) : service.expectedBits ≠ 0 := by
  cases service <;> decide

theorem ones_and_checkedBits_ne {service : Service}
    (hother : ServiceSet.caption525.contains service = false) (count : Nat) :
    ones count &&& service.checkedBits ≠ service.expectedBits := by
  have hfew : ∀ few < 33, ones few &&& service.checkedBits ≠ service.expectedBits := by
    revert hother
    cases service <;> decide +kernel
  rcases Nat.lt_or_ge count 33 with hlt | hge
  · exact hfew count hlt
  · rw [ones_of_le (by omega)]
    exact hfew 32 (by decide)

theorem ones_and_checkedBits_eq_iff {service : Service}
    (hcaption : ServiceSet.caption525.contains service = true) (count : Nat) :
    ones count &&& service.checkedBits = service.expectedBits ↔ count = 2 := by
  have hfew : ∀ few < 33, ones few &&& service.checkedBits = service.expectedBits ↔ few = 2 := by
    revert hcaption
    cases service <;> decide +kernel
  rcases Nat.lt_or_ge count 33 with hlt | hge
  · exact hfew count hlt
  · rw [ones_of_le (by omega), hfew 32 (by decide)]
    omega

end Service

/-- Whether a job finds captions at 525 lines. -/
def Job.FindsCaption525 (job : Job) : Prop :=
  ∃ service, ServiceSet.caption525.contains service = true ∧ job.services.contains service = true

namespace Job.Sound

variable {s : Sampling} {services : ServiceSet} {job : Job}

theorem config_patterns (h : job.Sound s services) {service : Service}
    (hservice : job.services.contains service = true) :
    job.slicer.config.criMask = service.checkedBits ∧
      job.slicer.config.cri = service.expectedBits ∧
      job.slicer.config.criBits = service.transmission.criBits ∧
      job.slicer.config.frcBits = service.transmission.frcBits ∧
      job.slicer.config.frc =
        service.transmission.frc &&& lowBits service.transmission.frcBits := by
  obtain ⟨strictness, hconfig⟩ := h.config_eq
  obtain ⟨_, hderive⟩ := hconfig service hservice
  rw [hderive]
  exact ⟨rfl, rfl, rfl, rfl, rfl⟩

/-- A job for captions at 525 lines has no other services. -/
theorem caption525_of_findsCaption525 (h : job.Sound s services) (hcaption : job.FindsCaption525)
    {service : Service} (hservice : job.services.contains service = true) :
    ServiceSet.caption525.contains service = true := by
  obtain ⟨caption, hmem, hcontains⟩ := hcaption
  have hbits : service.transmission.criBits = caption.transmission.criBits :=
    (h.config_patterns hservice).2.2.1.symm.trans (h.config_patterns hcontains).2.2.1
  revert hbits hmem
  cases caption <;> cases service <;> decide

end Job.Sound

namespace Decoder

section Jobs

variable {s : Sampling} {services : ServiceSet} {job : Job} {row : ByteArray} {value : Nat}

theorem tryJob_isSome_iff (hsizes : job.slicer.checkSizes recordBytes row = .ok ()) :
    (tryJob job row).isSome = true ↔
      (job.slicer.receive (job.slicer.config.layout.level row)).isSome = true := by
  unfold tryJob Slicer.slice
  rw [hsizes]
  cases job.slicer.receive (job.slicer.config.layout.level row) <;> rfl

theorem isFlat_of_sound (hsound : job.Sound s services)
    (hflat : ∀ index < s.samplesPerLine, s.format.layout.level row index = value) :
    job.slicer.config.IsFlat (job.slicer.config.layout.level row) value := by
  obtain ⟨hlayout, hsamples, _⟩ := hsound.config_sampling
  rw [hlayout]
  intro index hindex
  exact hflat index (hsamples ▸ hindex)

/-- Lines of one level leave jobs as they are. -/
theorem tryJob_flat_stable (hsound : job.Sound s services)
    (hflat : ∀ index < s.samplesPerLine, s.format.layout.level row index = value) {next : Job}
    {data : Vector UInt8 recordBytes} (h : tryJob job row = some (next, data)) : next = job := by
  obtain ⟨_, hsamples, hend, _⟩ := hsound.config_sampling
  obtain ⟨slicer, reception, hreceive, rfl, _⟩ := tryJob_eq_some h
  rw [← hsamples] at hend
  rw [Slicer.receive_flat_stable (isFlat_of_sound hsound hflat) hend hreceive]

theorem tryJob_flat_isSome_iff (hsound : job.Sound s services) (hsize : row.size = s.bytesPerLine)
    (hflat : ∀ index < s.samplesPerLine, s.format.layout.level row index = value) :
    (tryJob job row).isSome = true ↔ job.FindsCaption525 ∧ job.slicer.TakesFlat value := by
  obtain ⟨hlayout, hsamples, hend, hpos, hrate, hpayload⟩ := hsound.config_sampling
  have hsizes : job.slicer.checkSizes recordBytes row = .ok () := by
    have hrow : job.slicer.config.rowBytes = row.size := by
      rw [SlicerConfig.rowBytes, hsamples, hlayout, hsize]
      rfl
    rw [Slicer.checkSizes, if_neg (Nat.not_lt.mpr hpayload), if_neg (by rw [hrow]; omega)]
  have hsame := isFlat_of_sound hsound hflat
  rw [tryJob_isSome_iff hsizes]
  rw [← hsamples] at hend
  by_cases hcaption : job.FindsCaption525
  · obtain ⟨service, hmem, hservice⟩ := id hcaption
    obtain ⟨hmask, hcri, _, hfrcBits, hfrc⟩ := hsound.config_patterns hservice
    have hiff := Slicer.receive_flat_isSome_iff hsame hend hrate hpos
      (hcri ▸ service.expectedBits_ne_zero)
      (by rw [hmask, hcri]; exact Service.ones_and_checkedBits_eq_iff hmem)
      (by rw [hfrcBits]; revert hmem; cases service <;> decide)
      (by rw [hfrc]; revert hmem; cases service <;> decide)
    rw [hiff]
    exact ⟨fun htakes => ⟨hcaption, htakes⟩, fun h => h.2⟩
  · obtain ⟨service, hservice⟩ := hsound.known.exists_contains hsound.nonempty
    obtain ⟨hmask, hcri, _⟩ := hsound.config_patterns hservice
    have hother : ServiceSet.caption525.contains service = false :=
      Bool.eq_false_iff.mpr fun hmem => hcaption ⟨service, hmem, hservice⟩
    have hnone := Slicer.receive_flat_eq_none hsame hend hrate (Nat.lt_of_lt_of_le hpos hrate)
      (hcri ▸ service.expectedBits_ne_zero)
      (by rw [hmask, hcri]; exact Service.ones_and_checkedBits_ne hother)
    rw [hnone]
    simp [hcaption]

/-- Captions at 525 lines have no check that could fail. -/
theorem identify_ne_none (hsound : job.Sound s services) (hcaption : job.FindsCaption525)
    {field : Field} {line : Nat} (hlocated : (job.located? field line).isSome = true)
    (data : List UInt8) : job.identify field line data ≠ none := by
  obtain ⟨service, hservice⟩ := Option.isSome_iff_exists.mp hlocated
  have hmem := hsound.caption525_of_findsCaption525 hcaption (Job.located?_eq_some hservice).1
  have hintact : service.intact data = true := by
    obtain rfl | rfl := ServiceSet.mem_caption525.mp hmem <;> rfl
  rw [Job.identify, Job.serviceOn?, hservice, Option.some_or, Option.filter_some, if_pos hintact]
  simp

/-- On a line of one level a job fails unless it takes it for a caption at 525 lines. -/
theorem identify_eq_none_flat_iff (hsound : job.Sound s services)
    (hsize : row.size = s.bytesPerLine)
    (hflat : ∀ index < s.samplesPerLine, s.format.layout.level row index = value)
    {field : Field} {line : Nat} (hlocated : (job.located? field line).isSome = true) :
    (∀ data, tryJob job row = some (job, data) → job.identify field line data.toList = none) ↔
      (job.FindsCaption525 → ¬ job.slicer.TakesFlat value) := by
  have hfinds := tryJob_flat_isSome_iff hsound hsize hflat
  constructor
  · intro hfail hcaption htakes
    obtain ⟨⟨next, data⟩, htry⟩ := Option.isSome_iff_exists.mp (hfinds.mpr ⟨hcaption, htakes⟩)
    obtain rfl := tryJob_flat_stable hsound hflat htry
    exact identify_ne_none hsound hcaption hlocated _ (hfail data htry)
  · intro hnever data htry
    obtain ⟨hcaption, htakes⟩ := hfinds.mp (Option.isSome_iff_exists.mpr ⟨_, htry⟩)
    exact absurd htakes (hnever hcaption)

end Jobs

theorem reports_eq_nil_iff {s : Sampling} {verdicts : List Verdict}
    (hlength : verdicts.length ≤ s.sites.length) :
    reports s verdicts = [] ↔ ∀ hit, .found hit ∉ verdicts := by
  rw [reports, List.filterMap_eq_nil_iff]
  constructor
  · intro hnone hit hmem
    obtain ⟨position, hposition⟩ := List.mem_iff_getElem?.mp hmem
    have hlt : position < s.sites.length :=
      Nat.lt_of_lt_of_le (List.getElem?_eq_some_iff.mp hposition).1 hlength
    have hzip : (s.sites.zip verdicts)[position]? = some (s.sites[position], .found hit) :=
      List.getElem?_zip_eq_some.mpr ⟨List.getElem?_eq_getElem hlt, hposition⟩
    exact absurd (hnone _ (List.mem_of_getElem? hzip)) (by simp [Verdict.record?])
  · rintro hnone ⟨site, verdict⟩ hmem
    have hverdict := (List.of_mem_zip hmem).2
    cases verdict with
    | skipped => rfl
    | missed => rfl
    | found hit => exact absurd hverdict (hnone hit)

section Frames

variable {d : Decoder} {raw : ByteArray} {level : Field → Nat → Nat}

theorem length_verdicts_le (hconsistent : d.Consistent) (capacity : Nat) :
    (d.verdicts capacity raw).2.length ≤ d.sampling.sites.length := by
  rw [length_verdicts]
  exact hconsistent.length_patterns_le_sites

theorem stable_of_flat (hsound : d.Sound)
    (hflat : ∀ field, ∀ index < d.sampling.count.on field, ∀ i < d.sampling.samplesPerLine,
      d.sampling.format.layout.level (d.sampling.rowOf raw field index) i = level field index) :
    ∀ site ∈ d.sampling.sites, ∀ (number : Nat) (job next : Job)
      (data : Vector UInt8 recordBytes), d.jobs[number]? = some job →
        tryJob job (d.sampling.rowOf raw site.1 site.2) = some (next, data) → next = job := by
  rintro ⟨field, index⟩ hsite number job next data hget htry
  obtain ⟨position, hposition⟩ := List.mem_iff_getElem?.mp hsite
  have hindex := (Sampling.getElem?_sites.mp hposition).1
  have hjob := hsound.jobs job (List.mem_of_getElem? hget)
  exact tryJob_flat_stable hjob (hflat field index hindex) htry

theorem nothingFound_flat_iff (h : d.Reachable) (hsize : d.sampling.frameSize ≤ raw.size)
    (hflat : ∀ field, ∀ index < d.sampling.count.on field, ∀ i < d.sampling.samplesPerLine,
      d.sampling.format.layout.level (d.sampling.rowOf raw field index) i = level field index) :
    NothingFound d.sampling raw (d.sinceProbe == 0) d.jobs (d.sampling.sites.zip d.patterns) ↔
      ∀ field index pattern, ((field, index), pattern) ∈ d.sampling.sites.zip d.patterns →
        pattern.isTried (d.sinceProbe == 0) = true → ∀ number ∈ pattern.jobs, ∀ job,
        d.jobs[number]? = some job → job.FindsCaption525 →
          ¬ job.slicer.TakesFlat (level field index) := by
  apply forall₃_congr
  intro field index pattern
  apply forall₂_congr
  intro hmem htried
  obtain ⟨position, hposition⟩ := List.mem_iff_getElem?.mp hmem
  obtain ⟨hsite, hpattern⟩ := List.getElem?_zip_eq_some.mp hposition
  have hindex := (Sampling.getElem?_sites.mp hsite).1
  have hrow := h.valid.size_rowOf hsize hindex
  have hstable := stable_of_flat h.sound hflat _ (List.mem_of_getElem? hsite)
  rw [(tryJobs_of_stable hstable 0 pattern.jobs).2]
  apply forall₂_congr
  intro number hnumber
  apply forall_congr'
  intro job
  have hfails (hget : d.jobs[number]? = some job) :=
    identify_eq_none_flat_iff (h.sound.jobs job (List.mem_of_getElem? hget)) hrow
      (hflat field index hindex)
      (located?_isSome_of_mem_jobs h.sound h.consistent hsite hpattern hnumber hget)
  constructor
  · intro hnone hget
    exact (hfails hget).mp fun data htry => hnone data hget htry
  · intro hnever data hget htry
    exact (hfails hget).mpr (hnever hget) data htry

end Frames

/-- A frame whose lines have one level each adapts no slicer. It yields records exactly if there
is room for them and a job for captions at 525 lines is tried on a line that it takes for one:
the level counts as set, two bits of it are complete before the search ends, and the data fit on
the line behind them. Without such services it yields nothing. -/
theorem Reachable.decode_flat {d next : Decoder} {capacity : Nat} {raw : ByteArray}
    {records : List Record} (h : d.Reachable) (level : Field → Nat → Nat)
    (hflat : ∀ field, ∀ index < d.sampling.count.on field, ∀ i < d.sampling.samplesPerLine,
      d.sampling.format.layout.level (d.sampling.rowOf raw field index) i = level field index)
    (hdecode : d.decode capacity raw = .ok (next, records)) :
    next.jobs = d.jobs ∧
    (records = [] ↔ capacity = 0 ∨ ∀ field index pattern,
      ((field, index), pattern) ∈ d.sampling.sites.zip d.patterns →
      pattern.isTried (d.sinceProbe == 0) = true → ∀ number ∈ pattern.jobs, ∀ job,
      d.jobs[number]? = some job → job.FindsCaption525 →
        ¬ job.slicer.TakesFlat (level field index)) ∧
    ((∀ service, d.services.contains service = true →
      ServiceSet.caption525.contains service = false) → records = []) := by
  obtain ⟨hsize, rfl, rfl⟩ := decode_eq_ok hdecode
  -- Since no job adapts, each line is tried by the jobs that the decoder had before the frame.
  obtain ⟨hjobs, hverdicts⟩ := decodeLines_of_stable d.sampling.sites
    d.patterns d.jobs capacity (stable_of_flat h.sound hflat)
  have hrecords : (reports d.sampling (d.verdicts capacity raw).2).map (·.2) = [] ↔ _ :=
    List.map_eq_nil_iff.trans ((reports_eq_nil_iff (length_verdicts_le h.consistent capacity)).trans
      (hverdicts.trans (or_congr_right (nothingFound_flat_iff h hsize hflat))))
  refine ⟨hjobs, hrecords, ?_⟩
  intro hnone
  apply hrecords.mpr
  right
  intro field index pattern _ _ number _ job hget hcaption
  obtain ⟨service, hmem, hservice⟩ := hcaption
  have hjob := h.sound.jobs job (List.mem_of_getElem? hget)
  have hother := hnone service (hjob.decoded service hservice)
  exact absurd hmem (Bool.eq_false_iff.mp hother)

/-- A bright line for the caption decoder. -/
def brightLine : ByteArray := ⟨Array.replicate 110 200⟩

theorem decode_flat_brightLine :
    captionDecoder.Reachable ∧
      ∃ next, captionDecoder.decode 1 brightLine = .ok (next, []) ∧
        next.jobs = captionDecoder.jobs := by
  have hnew : Decoder.new captionSampling = .ok (ofSampling captionSampling) := rfl
  have hreachable : captionDecoder.Reachable := (Reachable.new hnew).run _
  have hsampling : captionDecoder.sampling = captionSampling := by decide +kernel
  have hflat : ∀ field, ∀ index < captionSampling.count.on field,
      ∀ i < captionSampling.samplesPerLine,
        captionSampling.format.layout.level (captionSampling.rowOf brightLine field index) i =
          200 := by
    intro field
    cases field <;> decide +kernel
  have hother : ∀ service, captionDecoder.services.contains service = true →
      ServiceSet.caption525.contains service = false := by
    intro service
    cases service <;> decide +kernel
  have hok : (captionDecoder.decode 1 brightLine).isOk = true := by decide +kernel
  cases hdecode : captionDecoder.decode 1 brightLine with
  | error cause => simp [hdecode, Except.isOk, Except.toBool] at hok
  | ok result =>
      obtain ⟨next, records⟩ := result
      rw [← hsampling] at hflat
      obtain ⟨hjobs, _, hnone⟩ :=
        Reachable.decode_flat hreachable (fun _ _ => 200) hflat hdecode
      exact ⟨hreachable, next, by rw [hnone hother], hjobs⟩

/-- One line at two samples for each bit of a caption run-in, at 525 lines. -/
def captionSampling525 : Sampling where
  standards := .lines525
  format := .yuv420
  rate := 2000000
  offset := 0
  samplesPerLine := 80
  start := ⟨21, 0⟩
  count := ⟨1, 0⟩
  interlaced := false
  synchronous := true

def captionDecoder525 : Decoder :=
  (ofSampling captionSampling525).run [.addService .caption525Field1 .loose]

/-- A bright line yields a record if it may hold a caption at 525 lines. -/
theorem not_decode_flat_eq_nil :
    ¬ ∀ (d next : Decoder) (capacity : Nat) (raw : ByteArray) (records : List Record)
      (level : Field → Nat → Nat), d.Reachable →
      (∀ field, ∀ index < d.sampling.count.on field, ∀ i < d.sampling.samplesPerLine,
        d.sampling.format.layout.level (d.sampling.rowOf raw field index) i = level field index) →
      d.decode capacity raw = .ok (next, records) → records = [] := by
  intro hall
  have hnew : Decoder.new captionSampling525 = .ok (ofSampling captionSampling525) := rfl
  have hreachable : captionDecoder525.Reachable := (Reachable.new hnew).run _
  have hsampling : captionDecoder525.sampling = captionSampling525 := by decide +kernel
  have hflat : ∀ field, ∀ index < captionSampling525.count.on field,
      ∀ i < captionSampling525.samplesPerLine,
        captionSampling525.format.layout.level
          (captionSampling525.rowOf ⟨Array.replicate 80 200⟩ field index) i = 200 := by
    intro field
    cases field <;> decide +kernel
  have hfound : (captionDecoder525.decode 1 ⟨Array.replicate 80 200⟩).toOption.map
      (·.2.map Record.payload) = some [[0xFF, 0xFF]] := by decide +kernel
  cases hdecode : captionDecoder525.decode 1 ⟨Array.replicate 80 200⟩ with
  | error cause => simp [hdecode, Except.toOption] at hfound
  | ok result =>
      obtain ⟨next, records⟩ := result
      rw [← hsampling] at hflat
      have hnil := hall _ next 1 _ records (fun _ _ => 200) hreachable hflat hdecode
      simp [hdecode, Except.toOption, hnil] at hfound

end Decoder

end Blanking
