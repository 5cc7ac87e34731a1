import Blanking.Proofs.Decoder.Jobs
import Blanking.Proofs.Decoder.Registration
import Blanking.Proofs.Sampling.Permit
import Blanking.Proofs.Slicer.Data

/-! # Which service a record belongs to

A job that is on a line always has a service that is sent there, so the services of records are
never guessed. The record of a line holds the payload that was found on it and nothing else. -/

namespace Blanking

namespace Job

theorem located?_eq_some {job : Job} {field : Field} {line : Nat} {service : Service}
    (h : job.located? field line = some service) :
    job.services.contains service = true ∧ service.transmission.onField field = true ∧
      (line ≠ 0 → service.transmission.covers field line = true) := by
  unfold located? at h
  dsimp only at h
  split at h
  next hunknown =>
    have hfield : service.transmission.onField field = true := by simpa using List.find?_some h
    exact ⟨ServiceSet.mem_toList.mp (List.mem_of_find?_eq_some h), hfield,
      fun hline => absurd hunknown hline⟩
  next =>
    have hcovers : service.transmission.covers field line = true := by
      simpa using List.find?_some h
    refine ⟨ServiceSet.mem_toList.mp (List.mem_of_find?_eq_some h), ?_, fun _ => hcovers⟩
    simp only [Transmission.covers, Bool.and_eq_true] at hcovers
    exact hcovers.1.1

theorem located?_isSome {job : Job} {field : Field} {line : Nat} {service : Service}
    (hmem : job.services.contains service = true)
    (hfield : service.transmission.onField field = true)
    (hline : line ≠ 0 → service.transmission.covers field line = true) :
    (job.located? field line).isSome = true := by
  unfold located?
  dsimp only
  split
  next =>
    rw [List.find?_isSome]
    exact ⟨service, ServiceSet.mem_toList.mpr hmem, hfield⟩
  next hknown =>
    rw [List.find?_isSome]
    exact ⟨service, ServiceSet.mem_toList.mpr hmem, hline hknown⟩

theorem identify_eq_some {job : Job} {field : Field} {line : Nat} {data : List UInt8}
    {service : Service} (hlocated : (job.located? field line).isSome = true)
    (h : job.identify field line data = some service) :
    job.located? field line = some service ∧ service.intact data = true := by
  obtain ⟨hservice, hintact⟩ := Option.filter_eq_some_iff.mp h
  rw [serviceOn?, Option.or_of_isSome hlocated] at hservice
  exact ⟨hservice, hintact⟩

end Job

namespace Decoder

/-- A job on a line has a service that is sent there. -/
theorem located?_isSome_of_mem_jobs {d : Decoder} (hsound : d.Sound) (hconsistent : d.Consistent)
    {position index number : Nat} {field : Field} {pattern : LinePattern} {job : Job}
    (hsite : d.sampling.sites[position]? = some (field, index))
    (hpattern : d.patterns[position]? = some pattern) (hmem : number ∈ pattern.jobs)
    (hjob : d.jobs[number]? = some job) :
    (job.located? field (d.sampling.lineNumber field index)).isSome = true := by
  have hregistered := hconsistent.registered position pattern hpattern
  obtain ⟨service, ⟨job', hjob', hservice⟩, hcandidate⟩ :=
    (hregistered.mem_jobs_iff number).mp hmem
  obtain rfl : job = job' := Option.some.inj (hjob.symm.trans hjob')
  cases hsync : d.sampling.synchronous with
  | true =>
      obtain ⟨hfield, hline⟩ :=
        (Sampling.mem_candidates_of_synchronous hsync hsite).mp hcandidate
      apply Job.located?_isSome hservice hfield
      intro hknown
      simp only [Sampling.lineNumber, hsync, Bool.true_and, decide_eq_true_eq] at hknown ⊢
      split at hknown
      next hstart =>
        rw [if_pos hstart]
        exact hline.resolve_left (Nat.ne_of_gt hstart)
      next => exact absurd rfl hknown
  | false =>
      -- The line may be of either field, but only services of both fields are permitted.
      have hjobSound := hsound.jobs job (List.mem_of_getElem? hjob)
      obtain ⟨strictness, hpermit⟩ := hsound.permitted service (hjobSound.decoded service hservice)
      refine Job.located?_isSome hservice (Sampling.onField_of_permit hsync hpermit field) ?_
      simp [Sampling.lineNumber, hsync]

theorem payloadBytes_le (service : Service) : service.transmission.payloadBytes ≤ recordBytes := by
  cases service <;> decide

/-- What is written for a found payload is the record of that payload. -/
theorem record_eq_ofPayload {job next : Job} {row : ByteArray} {data : Vector UInt8 recordBytes}
    {s : Sampling} {service : Service} {strictness : Strictness} (line : Nat)
    (hfound : tryJob job row = some (next, data))
    (hconfig : SlicerConfig.ofTarget (.ofService service.transmission s strictness) =
      .ok job.slicer.config) :
    (⟨.singleton service, line, data⟩ : Record) =
      .ofPayload service line (Record.payload ⟨.singleton service, line, data⟩) := by
  obtain ⟨slicer, reception, hreceive, _, rfl⟩ := tryJob_eq_some hfound
  obtain ⟨lock, _, hreception, _⟩ := Slicer.receive_eq_some hreceive
  obtain ⟨bits, hbits, hpayload⟩ := SlicerConfig.payload_of_receive hconfig hreception
  have hlength : reception.payload.length = service.transmission.payloadBytes := by
    rw [hpayload, Payload.ofBits, Payload.length_pack, hbits]
    rfl
  have hle : reception.payload.length ≤ recordBytes := hlength ▸ payloadBytes_le service
  have hkept : Record.payload ⟨.singleton service, line,
      overwrite reception.payload (Vector.replicate recordBytes 0)⟩ = reception.payload := by
    rw [Record.payload, Record.service?, ServiceSet.single?_singleton, Option.map_some,
      Option.getD_some, ← hlength, take_overwrite hle]
  rw [hkept]
  rfl

theorem mem_reports {s : Sampling} {verdicts : List Verdict} {site : Field × Nat}
    {record : Record} (h : (site, record) ∈ reports s verdicts) :
    ∃ (position : Nat) (hit : Hit), s.sites[position]? = some site ∧
      verdicts[position]? = some (.found hit) ∧
      record = ⟨.singleton hit.service, s.lineNumber site.1 site.2, hit.data⟩ := by
  obtain ⟨⟨site', verdict⟩, hzip, hrecord⟩ := List.mem_filterMap.mp h
  obtain ⟨record', hverdict, hpair⟩ := Option.map_eq_some_iff.mp hrecord
  obtain ⟨rfl, rfl⟩ := Prod.mk.inj hpair
  obtain ⟨position, hposition⟩ := List.mem_iff_getElem?.mp hzip
  obtain ⟨hsite, hget⟩ := List.getElem?_zip_eq_some.mp hposition
  cases verdict with
  | found hit => exact ⟨position, hit, hsite, hget, (Option.some.inj hverdict).symm⟩
  | skipped => exact absurd hverdict (by simp [Verdict.record?])
  | missed => exact absurd hverdict (by simp [Verdict.record?])

/-- Every record that is written for a line belongs to one service that is decoded, that is sent
on the field of the line and, if the number of the line is known, on that line. The service is
found by field and line and never an arbitrary one of a job. Its payload passes the check of the
service, and is all that the record holds. -/
theorem Reachable.records_attributed {d next : Decoder} {capacity : Nat} {raw : ByteArray}
    {records : List Record} (h : d.Reachable)
    (hdecode : d.decode capacity raw = .ok (next, records)) :
    records = (reports d.sampling (d.verdicts capacity raw).2).map (·.2) ∧
    (∀ (position : Nat) (field : Field) (index : Nat) (pattern : LinePattern) (number : Nat)
      (job : Job), d.sampling.sites[position]? = some (field, index) →
      d.patterns[position]? = some pattern → number ∈ pattern.jobs →
      d.jobs[number]? = some job →
        (job.located? field (d.sampling.lineNumber field index)).isSome = true) ∧
    ∀ field index record,
      ((field, index), record) ∈ reports d.sampling (d.verdicts capacity raw).2 →
      index < d.sampling.count.on field ∧ ∃ service,
        record.service? = some service ∧ d.services.contains service = true ∧
        service.transmission.onField field = true ∧
        record.line = d.sampling.lineNumber field index ∧
        (record.line ≠ 0 → service.transmission.first.on field ≤ record.line ∧
          record.line ≤ service.transmission.last.on field) ∧
        (service = .wss625 → Check.wss625Ok record.data.toList = true) ∧
        (service = .wssCpr1204 → Check.cpr1204Ok record.data.toList = true) ∧
        record = .ofPayload service record.line record.payload := by
  have hsound := h.sound
  have hconsistent := h.consistent
  refine ⟨(decode_eq_ok hdecode).2.2, fun _ _ _ _ _ _ =>
    located?_isSome_of_mem_jobs hsound hconsistent, ?_⟩
  intro field index record hreport
  obtain ⟨position, hit, hsite, hverdict, rfl⟩ := mem_reports hreport
  obtain ⟨field', index', tried, hsite', hpattern, _, hfound⟩ := decodeLines_found hverdict
  obtain ⟨rfl, rfl⟩ := Prod.mk.inj (Option.some.inj (hsite.symm.trans hsite'))
  obtain ⟨place, number, original, job, adapted, _, horder, hget, hsetup, htry, hidentify⟩ := hfound
  -- The job may have adapted to the lines before, but not the services that it has.
  have hservices : adapted.services = original.services :=
    congrArg Prod.fst ((setup_tryJob htry).trans hsetup)
  have hlocated : (adapted.located? field (d.sampling.lineNumber field index)).isSome = true := by
    have hsome := located?_isSome_of_mem_jobs hsound hconsistent hsite hpattern
      (List.mem_of_getElem? horder) hget
    rwa [Job.located?, ← hservices] at hsome
  obtain ⟨hservice, hintact⟩ := Job.identify_eq_some hlocated hidentify
  obtain ⟨hcontains, hfield, hline⟩ := Job.located?_eq_some hservice
  have hjob := hsound.jobs original (List.mem_of_getElem? hget)
  rw [hservices] at hcontains
  refine ⟨(Sampling.getElem?_sites.mp hsite).1, hit.service, ServiceSet.single?_singleton _,
    hjob.decoded _ hcontains, hfield, rfl, ?_, ?_, ?_, ?_⟩
  · intro hknown
    have hcovers := hline hknown
    simp only [Transmission.covers, Bool.and_eq_true, decide_eq_true_eq] at hcovers
    exact ⟨hcovers.1.2, hcovers.2⟩
  · intro hwss
    simpa [Service.intact, hwss] using hintact
  · intro hcpr
    simpa [Service.intact, hcpr] using hintact
  · obtain ⟨strictness, hconfig⟩ := hjob.configured
    have hconfig := hconfig hit.service hcontains
    have hsame : job.slicer.config = original.slicer.config := congrArg Prod.snd hsetup
    exact record_eq_ofPayload _ htry (hsame ▸ hconfig)

/-- One line at two samples for each bit of a caption run-in. -/
def captionSampling : Sampling where
  standards := .lines625
  format := .yuv420
  rate := 2000000
  offset := 0
  samplesPerLine := 110
  start := ⟨22, 0⟩
  count := ⟨1, 0⟩
  interlaced := false
  synchronous := true

/-- A line with a caption of two bytes. -/
def captionFrame : ByteArray :=
  let runIn := (Check.bitsOf 0x1554 14).flatMap (List.replicate 2)
  let data := (false :: true :: Payload.unpack false 16 [0x94, 0x2C]).flatMap (List.replicate 4)
  let signal := (runIn ++ data).map fun bit => if bit then 200 else 16
  ⟨(List.replicate 4 16 ++ signal ++ List.replicate 6 16 : List UInt8).toArray⟩

def captionDecoder : Decoder :=
  (ofSampling captionSampling).run [.addService .caption625Field1 .loose]

theorem records_attributed_captionFrame :
    captionDecoder.Reachable ∧ ∃ next records,
      captionDecoder.decode 1 captionFrame = .ok (next, records) ∧
      records.length = 1 ∧ ∀ record ∈ records,
        ∃ service, record.service? = some service ∧
          captionDecoder.services.contains service = true ∧
          record = .ofPayload service record.line record.payload := by
  have hnew : Decoder.new captionSampling = .ok (ofSampling captionSampling) := rfl
  have hreachable : captionDecoder.Reachable := (Reachable.new hnew).run _
  have hfound : (captionDecoder.decode 1 captionFrame).toOption.map (·.2.length) = some 1 := by
    decide +kernel
  cases hdecode : captionDecoder.decode 1 captionFrame with
  | error cause => simp [hdecode, Except.toOption] at hfound
  | ok result =>
      obtain ⟨next, records⟩ := result
      obtain ⟨hrecords, _, hreports⟩ := Reachable.records_attributed hreachable hdecode
      refine ⟨hreachable, next, records, rfl, ?_, ?_⟩
      · simpa [hdecode, Except.toOption] using hfound
      · intro record hrecord
        rw [hrecords] at hrecord
        obtain ⟨⟨⟨field, index⟩, record⟩, hreport, rfl⟩ := List.mem_map.mp hrecord
        obtain ⟨_, service, hservice, hdecoded, _, _, _, _, _, hpayload⟩ :=
          hreports field index record hreport
        exact ⟨service, hservice, hdecoded, hpayload⟩

end Decoder

end Blanking
