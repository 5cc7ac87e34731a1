import Blanking.Proofs.Command.Assignment
import Blanking.Proofs.Decoder.Attribution
import Blanking.Proofs.Payload.Check
import Blanking.Proofs.Waveform.Render

/-! # Test data can be drawn

The lines that services are given are sampled lines of their own, and payloads of test data have
the length of their service and pass its check. So nothing keeps test data from being drawn. -/

namespace Blanking

/-- A payload of the length of its service is all of the payload of its record. -/
theorem Record.payload_ofPayload {service : Service} {line : Nat} {payload : List UInt8}
    (hlength : payload.length = service.transmission.payloadBytes) :
    (Record.ofPayload service line payload).payload = payload := by
  have hservice : (Record.ofPayload service line payload).service? = some service :=
    ServiceSet.single?_singleton service
  rw [Record.payload, hservice, Option.map_some, Option.getD_some, ← hlength]
  exact take_overwrite (hlength.trans_le (Decoder.payloadBytes_le service))

namespace Synth

variable {s : Sampling} {service : Service} {lines : Lines}

/-! ## Payloads -/

theorem length_testPayload (service : Service) (frame : Nat) :
    (testPayload service frame).length = service.transmission.payloadBytes := by
  cases service
  -- The bytes of these two are written out, so that both sides are numbers.
  case wss625 => exact (rfl : 2 = Service.wss625.transmission.payloadBytes)
  case wssCpr1204 => exact (rfl : 3 = Service.wssCpr1204.transmission.payloadBytes)
  all_goals exact (List.length_map _).trans List.length_range

theorem wss625Ok_testPayload (frame : Nat) :
    Check.wss625Ok (testPayload .wss625 frame) = true := by
  have hgroups : ∀ group ∈ wssGroups, Check.wss625Ok [UInt8.ofNat group] = true := by decide
  have hindex : frame % wssGroups.length < wssGroups.length := Nat.mod_lt _ (by decide)
  have hgroup := hgroups _ (List.getElem_mem hindex)
  rw [testPayload, List.getElem?_eq_getElem hindex]
  exact hgroup

/-- A payload of test data passes the check of its service. -/
theorem intact_testPayload (service : Service) (frame : Nat) :
    service.intact (testPayload service frame) = true := by
  cases service
  case wss625 => exact wss625Ok_testPayload frame
  case wssCpr1204 => exact Check.cpr1204Ok_encode frame []
  all_goals rfl

/-! ## Lines -/

/-- What lines are to be for services to show up on them. -/
structure Suits (s : Sampling) (services : ServiceSet) (lines : Lines) : Prop where
  rising : lines.Pairwise (·.2 < ·.2)
  /-- A line is one of its service, on a field with lines of known numbers. -/
  sound : ∀ service line, (service, line) ∈ lines → services.contains service = true ∧
    ∃ field, s.HasLine field line ∧ service.transmission.covers field line = true
  once : ∀ service field line line', (service, line) ∈ lines → (service, line') ∈ lines →
    s.HasLine field line → s.HasLine field line' → line = line'
  /-- A service goes without a line on a field if it could have none there but those of services
  before it. -/
  without_iff : ∀ service field, services.contains service = true →
    ((∀ line, s.HasLine field line → (service, line) ∉ lines) ↔
      s.count.on field = 0 ∨ s.start.on field = 0 ∨
        ∀ line, s.HasLine field line → service.transmission.covers field line = true →
          ∃ earlier, earlier.Before service ∧ (earlier, line) ∈ lines)

theorem suits_assignLines (hvalid : s.Valid) (services : ServiceSet) :
    Suits s services (assignLines s services).1 := by
  have hassigned := assigned_assignAll hvalid services
  constructor
  case rising => exact pairwise_assignLines hvalid services
  case sound =>
    intro service line hmem
    obtain ⟨field, hplace, hline⟩ := hassigned.sound service line (mem_assignLines.mp hmem)
    exact ⟨mem_places.mp hplace, field, hline⟩
  case once =>
    intro service field line line' hmem hmem'
    exact hassigned.once service field line line' (mem_assignLines.mp hmem)
      (mem_assignLines.mp hmem')
  case without_iff =>
    intro service field hservice
    constructor
    · intro hwithout
      obtain ⟨line, hmem, hline⟩ | htaken :=
        hassigned.complete service field (mem_places.mpr hservice)
      · exact absurd (mem_assignLines.mpr hmem) (hwithout line hline)
      · refine Or.inr (Or.inr fun line hline hcovers => ?_)
        obtain ⟨earlier, hearlier, hmem⟩ := htaken line hline hcovers
        exact ⟨earlier, hearlier, mem_assignLines.mpr hmem⟩
    · rintro hreason line hline hmem
      obtain hcount | hstart | htaken := hreason
      · obtain ⟨_, hfirst, hlast⟩ := hline
        omega
      · exact absurd hstart (Nat.ne_of_gt hline.1)
      · obtain ⟨_, field', hline', hcovers⟩ :=
          hassigned.sound service line (mem_assignLines.mp hmem)
        obtain rfl := hvalid.eq_of_hasLine hline' hline
        obtain ⟨earlier, hearlier, hmem'⟩ := htaken line hline hcovers
        cases List.inj_on_of_nodup_map hassigned.nodup (mem_assignLines.mp hmem')
          (mem_assignLines.mp hmem) rfl
        exact Nat.lt_irrefl _ hearlier

/-! ## Records -/

/-- Records of test data can be drawn on any lines that were sampled. -/
theorem exists_render_recordsOf (hvalid : s.Valid) {raw : ByteArray}
    (hraw : s.frameSize ≤ raw.size)
    (hlines : ∀ service line, (service, line) ∈ lines → ∃ field, s.HasLine field line)
    (frame : Nat) :
    ∃ out, s.render raw blank white (recordsOf lines frame) = .ok out := by
  refine Sampling.exists_render_iff.mpr ⟨hvalid, hraw, fun record hrecord => ?_⟩
  obtain ⟨⟨service, line⟩, hmem, rfl⟩ := List.mem_map.mp hrecord
  obtain ⟨field, hline⟩ := hlines service line hmem
  refine ⟨Option.isSome_of_eq_some (ServiceSet.single?_singleton service), ?_⟩
  exact Option.isSome_of_eq_some (hvalid.locate?_of_hasLine hline)

/-- A record of test data is one of its service, with a payload of test data. -/
theorem mem_recordsOf {frame : Nat} {record : Record} (h : record ∈ recordsOf lines frame) :
    ∃ service, (service, record.line) ∈ lines ∧ record.service? = some service ∧
      record.payload = testPayload service frame := by
  obtain ⟨⟨service, line⟩, hmem, rfl⟩ := List.mem_map.mp h
  exact ⟨service, hmem, ServiceSet.single?_singleton service,
    Record.payload_ofPayload (length_testPayload service frame)⟩

/-- Every service has its lines, and the records on them can be drawn and pass their checks. -/
theorem testData_fits (s : Sampling) (h : s.validate?.run = some (.ok ()))
    (services : ServiceSet) :
    Suits s services (assignLines s services).1 ∧
      ∀ frame : Nat,
        (∀ (size : Nat) (raw : ByteArray), s.frameSize? = some size → size ≤ raw.size →
          ∃ out, (s.render? raw blank white (recordsOf (assignLines s services).1 frame)).run =
            some (.ok out)) ∧
        ∀ record ∈ recordsOf (assignLines s services).1 frame,
          ∃ service, (service, record.line) ∈ (assignLines s services).1 ∧
            record.service? = some service ∧
            record.payload.length = service.transmission.payloadBytes ∧
            (service = .wss625 → Check.wss625Ok record.payload = true) ∧
            (service = .wssCpr1204 → Check.cpr1204Ok record.payload = true) := by
  have hvalid : s.Valid := Sampling.validate?_eq_ok_iff.mp h
  have hsuits := suits_assignLines hvalid services
  refine ⟨hsuits, fun frame => ⟨fun size raw hsize hraw => ?_, fun record hrecord => ?_⟩⟩
  · obtain ⟨_, _, _, rfl⟩ := Sampling.frameSize?_eq_some_iff.mp hsize
    obtain ⟨out, hout⟩ := exists_render_recordsOf hvalid hraw (fun service line hmem => by
      obtain ⟨_, field, hline, _⟩ := hsuits.sound service line hmem
      exact ⟨field, hline⟩) frame
    exact ⟨out, Sampling.render?_eq_ok_iff.mpr ⟨hsize, hout⟩⟩
  · obtain ⟨service, hmem, hservice, hpayload⟩ := mem_recordsOf hrecord
    have hintact := intact_testPayload service frame
    rw [hpayload]
    refine ⟨service, hmem, hservice, length_testPayload service frame, ?_, ?_⟩
    · rintro rfl
      exact hintact
    · rintro rfl
      exact hintact

/-- Two sampled lines of one field and one of the other. -/
def threeLines : Sampling := { Sampling.preset625 with start := ⟨22, 335⟩, count := ⟨2, 1⟩ }

/-- Teletext takes the lines that captions would have, and leaves one to wide screen signalling. -/
theorem testData_fits_threeLines :
    let lines : Lines := [(.teletextB625Level1, 22), (.wss625, 23), (.teletextB625Level1, 335)]
    threeLines.validate?.run = some (.ok ()) ∧
      (assignLines threeLines (.teletextB625 ∪ .caption625 ∪ .singleton .wss625)).1 = lines ∧
      Suits threeLines (.teletextB625 ∪ .caption625 ∪ .singleton .wss625) lines ∧
      threeLines.frameSize? = some 4320 ∧
      ∃ out, (threeLines.render? ⟨Array.replicate 4320 0⟩ blank white (recordsOf lines 7)).run =
        some (.ok out) := by
  intro lines
  have hvalid : threeLines.validate?.run = some (.ok ()) :=
    Sampling.run_validate? (show threeLines.Valid from rfl)
  have hsize : threeLines.frameSize? = some 4320 := by decide +kernel
  have hassigned : (assignAll threeLines []
      (places (.teletextB625 ∪ .caption625 ∪ .singleton .wss625))).1 =
        [(.teletextB625Level1, 22), (.teletextB625Level1, 335), (.wss625, 23)] := by
    decide
  have hlines :
      (assignLines threeLines (.teletextB625 ∪ .caption625 ∪ .singleton .wss625)).1 = lines := by
    rw [assignLines_fst, hassigned]
    simp [List.mergeSort, List.MergeSort.Internal.splitInTwo, lines]
  obtain ⟨hsuits, hrecords⟩ :=
    testData_fits threeLines hvalid (.teletextB625 ∪ .caption625 ∪ .singleton .wss625)
  rw [hlines] at hsuits hrecords
  exact ⟨hvalid, hlines, hsuits, hsize,
    (hrecords 7).1 4320 _ hsize (Nat.le_of_eq Array.size_replicate.symm)⟩

end Synth

end Blanking
