import Blanking.Proofs.Decoder.Order

/-! # Room for fewer records

A decoder that has room for fewer records goes through the same lines in the same way, until there
is no room left. So it writes the first of the records that it would write otherwise. -/

namespace Blanking.Decoder

section Lines

variable {s : Sampling} {raw : ByteArray} {probe : Bool} {sites : List (Field × Nat)}
  {patterns : List LinePattern} {room room' : Nat}

/-- With less room the same is done on the first lines, up to the last one or to the one that fills
the room. By induction on the lines, as each leaves room for one record less if it has one. -/
theorem decodeLines_lockstep (hsites : patterns.length ≤ sites.length) (hle : room ≤ room')
    (jobs : List Job) :
    ∃ done ≤ patterns.length,
      decodeLines s raw probe (sites.take done) (patterns.take done) jobs room' =
        decodeLines s raw probe (sites.take done) (patterns.take done) jobs room ∧
      (done = patterns.length ∨
        (recordsOn s (sites.take done)
          (decodeLines s raw probe (sites.take done) (patterns.take done) jobs room).2).length =
            room) := by
  induction patterns generalizing sites jobs room room' with
  | nil => exact ⟨0, Nat.le_refl 0, by simp [decodeLines], Or.inl rfl⟩
  | cons pattern patterns ih =>
      obtain ⟨⟨field, index⟩, sites, rfl⟩ :=
        List.exists_cons_of_length_pos (Nat.zero_lt_of_lt hsites)
      have hsites : patterns.length ≤ sites.length := Nat.le_of_succ_le_succ hsites
      cases room with
      | zero => exact ⟨0, Nat.zero_le _, by simp [decodeLines], Or.inr rfl⟩
      | succ room =>
          obtain ⟨room', rfl⟩ := Nat.exists_eq_add_one.mpr (Nat.zero_lt_of_lt hle)
          by_cases hskip : (!pattern.isTried probe) = true
          · obtain ⟨done, hdone, hsame, hend⟩ := ih hsites hle jobs
            refine ⟨done + 1, Nat.succ_le_succ hdone, ?_, ?_⟩
            · simp only [List.take_succ_cons, decodeLines, if_pos hskip, hsame]
            · simp only [List.take_succ_cons, decodeLines, if_pos hskip, recordsOn_cons]
              exact hend.imp_left (congrArg Nat.succ)
          · rcases htry : tryJobs field (s.lineNumber field index) (s.rowOf raw field index) 0
              pattern.jobs jobs with ⟨after, _ | hit⟩
            · obtain ⟨done, hdone, hsame, hend⟩ := ih hsites hle after
              refine ⟨done + 1, Nat.succ_le_succ hdone, ?_, ?_⟩
              · simp only [List.take_succ_cons, decodeLines, if_neg hskip, htry, hsame]
              · simp only [List.take_succ_cons, decodeLines, if_neg hskip, htry, recordsOn_cons]
                exact hend.imp_left (congrArg Nat.succ)
            · obtain ⟨done, hdone, hsame, hend⟩ := ih hsites (Nat.le_of_succ_le_succ hle) after
              refine ⟨done + 1, Nat.succ_le_succ hdone, ?_, ?_⟩
              · simp only [List.take_succ_cons, decodeLines, if_neg hskip, htry, hsame]
              · simp only [List.take_succ_cons, decodeLines, if_neg hskip, htry, recordsOn_cons]
                exact hend.imp (congrArg Nat.succ) (congrArg Nat.succ)

theorem recordsOn_append {verdicts : List Verdict} (hlength : verdicts.length = sites.length)
    (sites' : List (Field × Nat)) (verdicts' : List Verdict) :
    recordsOn s (sites ++ sites') (verdicts ++ verdicts') =
      recordsOn s sites verdicts ++ recordsOn s sites' verdicts' := by
  rw [recordsOn, List.zip_append hlength.symm, List.filterMap_append]
  rfl

/-- The lines that are still gone through give the first records, and the others give none. -/
theorem recordsOn_decodeLines_take (hsites : patterns.length ≤ sites.length) (hle : room ≤ room')
    (jobs : List Job) :
    recordsOn s sites (decodeLines s raw probe sites patterns jobs room).2 =
      (recordsOn s sites (decodeLines s raw probe sites patterns jobs room').2).take room := by
  obtain ⟨done, hdone, hsame, hend⟩ := @decodeLines_lockstep s raw probe _ _ _ _ hsites hle jobs
  set front := decodeLines s raw probe (sites.take done) (patterns.take done) jobs room with hfront
  have hlength : (sites.take done).length = (patterns.take done).length := by
    rw [List.length_take, List.length_take, Nat.min_eq_left hdone,
      Nat.min_eq_left (hdone.trans hsites)]
  have hverdicts : front.2.length = (sites.take done).length := by
    rw [hfront, length_decodeLines, hlength]
  have hfits : (recordsOn s (sites.take done) front.2).length ≤ room :=
    (length_recordsOn_le _ _ _ _).1
  -- All lines with some room, taken apart where the run with less room ends.
  have hsplit {room : Nat}
      (h : decodeLines s raw probe (sites.take done) (patterns.take done) jobs room = front) :
      recordsOn s sites (decodeLines s raw probe sites patterns jobs room).2 =
        recordsOn s (sites.take done) front.2 ++ recordsOn s (sites.drop done)
          (decodeLines s raw probe (sites.drop done) (patterns.drop done) front.1
            (room - (recordsOn s (sites.take done) front.2).length)).2 := by
    have hlines := @decodeLines_append s raw probe _ _ hlength (sites.drop done)
      (patterns.drop done) jobs room
    rw [List.take_append_drop, List.take_append_drop, h] at hlines
    rw [hlines, ← recordsOn_append hverdicts, List.take_append_drop]
  rw [hsplit hfront.symm, hsplit hsame]
  rcases hend with hall | hfull
  · have hnone (jobs : List Job) (room : Nat) : recordsOn s (sites.drop done)
        (decodeLines s raw probe (sites.drop done) (patterns.drop done) jobs room).2 = [] := by
      apply List.eq_nil_of_length_eq_zero
      have hle := (@length_recordsOn_le s raw probe (sites.drop done) (patterns.drop done) jobs
        room).2
      simpa [hall] using hle
    rw [hnone, hnone, List.append_nil, List.take_of_length_le hfits]
  · rw [hfull, Nat.sub_self, decodeLines_zero, recordsOn_skipped, List.append_nil, ← hfull,
      List.take_left]

/-! ## Less room in words -/

/-- With less room no more lines are gone through, so there is a result if there was one. -/
theorem exists_decodeLines (hroom : min room patterns.length ≤ room') {jobs : List Job}
    {found' : List Job × List Verdict}
    (h : InWords.decodeLines s raw probe sites patterns jobs room' = some found') :
    ∃ found, InWords.decodeLines s raw probe sites patterns jobs room = some found := by
  fun_induction InWords.decodeLines s raw probe sites patterns jobs room
    generalizing room' found' with
  | case1 field index sites pattern patterns jobs room htried ih =>
      rw [List.length_cons] at hroom
      obtain ⟨room', rfl⟩ := Nat.exists_eq_add_one.mpr (show 0 < room' by omega)
      rw [InWords.decodeLines, if_pos htried] at h
      obtain ⟨rest', hrest', _⟩ := Option.bind_eq_some_iff.mp h
      obtain ⟨rest, hrest⟩ := ih (by omega) hrest'
      exact ⟨_, by rw [hrest]; rfl⟩
  | case2 field index sites pattern patterns jobs room htried htry =>
      rw [List.length_cons] at hroom
      obtain ⟨room', rfl⟩ := Nat.exists_eq_add_one.mpr (show 0 < room' by omega)
      rw [InWords.decodeLines, if_neg htried, htry] at h
      exact absurd h (by simp)
  | case3 field index sites pattern patterns jobs room htried after htry ih =>
      rw [List.length_cons] at hroom
      obtain ⟨room', rfl⟩ := Nat.exists_eq_add_one.mpr (show 0 < room' by omega)
      rw [InWords.decodeLines, if_neg htried, htry] at h
      obtain ⟨rest', hrest', _⟩ := Option.bind_eq_some_iff.mp h
      obtain ⟨rest, hrest⟩ := ih (by omega) hrest'
      exact ⟨_, by rw [hrest]; rfl⟩
  | case4 field index sites pattern patterns jobs room htried after hit htry ih =>
      rw [List.length_cons] at hroom
      obtain ⟨room', rfl⟩ := Nat.exists_eq_add_one.mpr (show 0 < room' by omega)
      rw [InWords.decodeLines, if_neg htried, htry] at h
      obtain ⟨rest', hrest', _⟩ := Option.bind_eq_some_iff.mp h
      obtain ⟨rest, hrest⟩ := ih (by omega) hrest'
      exact ⟨_, by rw [hrest]; rfl⟩
  | case5 sites patterns jobs room hnot => exact ⟨_, rfl⟩

end Lines

section Room

variable {d : Decoder} {raw : ByteArray} {capacity capacity' : Nat}

/-- What comes to something with some room does so with less, or with any if there is room for a
record of every line. -/
theorem Sound.run_decode_of_le (h : d.Sound) (hroom : min capacity d.patterns.length ≤ capacity')
    {outcome : Except DecodeError (Decoder × List Record)}
    (houtcome : (InWords.decode d capacity' raw).run = some outcome) :
    (InWords.decode d capacity raw).run = some (d.decode capacity raw) := by
  obtain ⟨found, hfound⟩ : ∃ found, (InWords.decode d capacity raw).run = some found := by
    unfold InWords.decode at houtcome ⊢
    obtain ⟨size, hsize, houtcome⟩ := Checked.ofOption_bind_eq_some_iff.mp houtcome
    rw [hsize, Checked.run_ofOption_bind]
    split at houtcome
    next hshort => exact ⟨_, by rw [if_pos hshort]; rfl⟩
    next hlong =>
      obtain ⟨_, hlines', _⟩ := Checked.ofOption_bind_eq_some_iff.mp houtcome
      obtain ⟨lines, hlines⟩ := exists_decodeLines hroom hlines'
      exact ⟨_, by rw [if_neg hlong, hlines]; rfl⟩
  rw [hfound, h.decode_agrees _ hfound]

/-- A field pair is rejected only for its size. -/
theorem run_decode_eq_error_iff {cause : DecodeError} :
    (InWords.decode d capacity raw).run = some (.error cause) ↔
      ∃ size, d.sampling.frameSize? = some size ∧ raw.size < size ∧
        cause = .rawTooShort size raw.size := by
  unfold InWords.decode
  rw [Checked.ofOption_bind_eq_some_iff]
  refine exists_congr fun size => and_congr_right fun _ => ?_
  split
  next hshort => simp [hshort, eq_comm]
  next hlong =>
    constructor
    · intro h
      obtain ⟨_, _, h⟩ := Checked.ofOption_bind_eq_some_iff.mp h
      exact absurd (Option.some.inj h) (by simp)
    · rintro ⟨hshort, _⟩
      exact absurd hshort hlong

/-- With less room a decoder writes the first of the records that it writes with more, as many as
there is room for, and it rejects the same field pairs. From room for a record of every line on, it
also comes to the same state. -/
theorem InWords.Reachable.decode_truncates (h : InWords.Reachable d) (raw : ByteArray) :
    (∀ capacity capacity', capacity ≤ capacity' → ∀ next' records,
      (InWords.decode d capacity' raw).run = some (.ok (next', records)) →
        ∃ next, (InWords.decode d capacity raw).run =
          some (.ok (next, records.take (min capacity records.length)))) ∧
    (∀ capacity capacity' cause, (InWords.decode d capacity raw).run = some (.error cause) →
      (InWords.decode d capacity' raw).run = some (.error cause)) ∧
    ∀ total, d.sampling.totalLines? = some total → ∀ capacity capacity',
      total ≤ capacity → total ≤ capacity' →
        (InWords.decode d capacity raw).run = (InWords.decode d capacity' raw).run := by
  have hsound := h.reachable.sound
  have hconsistent := h.reachable.consistent
  refine ⟨?_, ?_, ?_⟩
  · intro capacity capacity' hle next' records hdecode
    rw [hsound.run_decode_of_le (by omega) hdecode]
    obtain ⟨hsize, _, rfl⟩ := decode_eq_ok (hsound.decode_agrees _ hdecode).symm
    obtain ⟨next, first, hfirst⟩ := decode_of_size capacity hsize
    obtain ⟨_, _, rfl⟩ := decode_eq_ok hfirst
    refine ⟨next, ?_⟩
    rw [hfirst, map_reports, map_reports, ← List.take_eq_take_min]
    exact congrArg (fun records => some (Except.ok (next, records)))
      (recordsOn_decodeLines_take hconsistent.length_patterns_le_sites hle d.jobs)
  · intro capacity capacity' cause hdecode
    exact run_decode_eq_error_iff.mpr (run_decode_eq_error_iff.mp hdecode)
  · intro total htotal capacity capacity' hle hle'
    obtain ⟨_, rfl⟩ := Sampling.totalLines?_eq_some_iff.mp htotal
    have hlength := hconsistent.length_patterns_le
    have hplain : d.decode capacity raw = d.decode capacity' raw :=
      hconsistent.decode_congr_capacity hle hle'
    cases hdecode : (InWords.decode d capacity raw).run with
    | some outcome =>
        rw [hsound.run_decode_of_le (by omega) hdecode, ← hplain,
          hsound.decode_agrees _ hdecode]
    | none =>
        cases hdecode' : (InWords.decode d capacity' raw).run with
        | none => rfl
        | some outcome =>
            rw [hsound.run_decode_of_le (by omega) hdecode'] at hdecode
            exact absurd hdecode (by simp)

end Room

/-- Of two captions the first one is written if there is room for one record only. -/
theorem decode_truncates_interlacedFrame :
    InWords.Reachable interlacedDecoder ∧ 1 ≤ 4 ∧ ∃ next next' records,
      (InWords.decode interlacedDecoder 4 interlacedFrame).run = some (.ok (next', records)) ∧
        (InWords.decode interlacedDecoder 1 interlacedFrame).run =
          some (.ok (next, records.take 1)) ∧
        records.length = 2 ∧
        (InWords.decode interlacedDecoder 4 interlacedFrame).run =
          (InWords.decode interlacedDecoder 9 interlacedFrame).run := by
  have hrun : InWords.run? (ofSampling interlacedSampling) [.addServices .caption625 .loose] =
      some interlacedDecoder := by decide +kernel
  have hreachable : InWords.Reachable interlacedDecoder :=
    .of_run? (show interlacedSampling.Valid from rfl) hrun
  have htotal : interlacedDecoder.sampling.totalLines? = some 4 := by decide +kernel
  have hsize : interlacedDecoder.sampling.frameSize? =
      some interlacedDecoder.sampling.frameSize := by decide +kernel
  have hfit : ∀ job ∈ interlacedDecoder.jobs, job.slicer.config.PositionsFit := by decide +kernel
  obtain ⟨htake, _, hroomy⟩ := InWords.Reachable.decode_truncates hreachable interlacedFrame
  obtain ⟨next', records, hplain, hlines⟩ := decode_interlacedFrame
  have hdecode : (InWords.decode interlacedDecoder 4 interlacedFrame).run =
      some (.ok (next', records)) := by
    rw [run_decode hsize hfit, hplain]
  have htwo : records.length = 2 := by
    have hlength := congrArg List.length hlines
    rwa [List.length_map] at hlength
  obtain ⟨next, hfirst⟩ := htake 1 4 (by decide) next' records hdecode
  rw [htwo] at hfirst
  exact ⟨hreachable, by decide, next, next', records, hdecode, hfirst, htwo,
    hroomy 4 htotal 4 9 (by decide) (by decide)⟩

end Blanking.Decoder
