import Blanking.Proofs.Decoder.Registration

/-! # Field pairs one after the other

A decoder is given field pairs, each with room for a record of every line. Then no line is left
out for lack of room, and it makes no difference how much of it there is. -/

namespace Blanking.Decoder

/-! ## Room for a record of every line -/

/-- What became of a line whose jobs were tried. -/
def Verdict.ofHit? : Option Hit → Verdict
  | none => .missed
  | some hit => .found hit

theorem Verdict.ofHit?_ne_skipped (found : Option Hit) : Verdict.ofHit? found ≠ .skipped := by
  cases found <;> exact Verdict.noConfusion

section Room

variable {s : Sampling} {raw : ByteArray} {probe : Bool} {sites : List (Field × Nat)}
  {patterns : List LinePattern} {jobs : List Job} {room : Nat}

/-- Lines end with their patterns if there is room for all of them. -/
theorem patterns_eq_nil_of_done (hsites : patterns.length ≤ sites.length)
    (hroom : patterns.length ≤ room)
    (hdone : ∀ field index rest pattern others less, sites = (field, index) :: rest →
      patterns = pattern :: others → room = less + 1 → False) : patterns = [] := by
  cases patterns with
  | nil => rfl
  | cons pattern others =>
      rw [List.length_cons] at hsites hroom
      obtain ⟨site, rest, rfl⟩ := List.exists_cons_of_length_pos (Nat.zero_lt_of_lt hsites)
      obtain ⟨less, rfl⟩ := Nat.exists_eq_add_one.mpr (Nat.zero_lt_of_lt hroom)
      exact (hdone _ _ _ _ _ _ rfl rfl rfl).elim

theorem decodeLines_congr_room (hsites : patterns.length ≤ sites.length)
    (hroom : patterns.length ≤ room) {room' : Nat} (hroom' : patterns.length ≤ room') :
    decodeLines s raw probe sites patterns jobs room =
      decodeLines s raw probe sites patterns jobs room' := by
  fun_induction decodeLines s raw probe sites patterns jobs room generalizing room' with
  | case1 field index sites pattern patterns jobs room hskip after verdicts hrest ih =>
      rw [List.length_cons] at hroom hroom'
      obtain ⟨room', rfl⟩ := Nat.exists_eq_add_one.mpr (Nat.zero_lt_of_lt hroom')
      rw [decodeLines, if_pos hskip,
        ← ih (Nat.le_of_succ_le_succ hsites) (by omega) (by omega), hrest]
  | case2 field index sites pattern patterns jobs room htried now htry after verdicts hrest ih
  | case3 field index sites pattern patterns jobs room htried now hit htry after verdicts hrest
      ih =>
      rw [List.length_cons] at hroom hroom'
      obtain ⟨room', rfl⟩ := Nat.exists_eq_add_one.mpr (Nat.zero_lt_of_lt hroom')
      rw [decodeLines, if_neg htried, htry]
      dsimp only
      rw [← ih (Nat.le_of_succ_le_succ hsites) (by omega) (by omega), hrest]
  | case4 sites room patterns jobs hdone =>
      obtain rfl := patterns_eq_nil_of_done hsites hroom hdone
      simp [decodeLines]

/-- What becomes of a line for which there is room: it is skipped, or else its jobs are tried in
their order. By then they may have adapted to other lines. -/
structure Judged (s : Sampling) (raw : ByteArray) (probe : Bool) (site : Option (Field × Nat))
    (pattern : LinePattern) (jobs : List Job) (verdict : Verdict) : Prop where
  skipped : pattern.isTried probe = false → verdict = .skipped
  tried : pattern.isTried probe = true → ∃ field index now, site = some (field, index) ∧
    now.map Job.setup = jobs.map Job.setup ∧
    verdict = .ofHit? (tryJobs field (s.lineNumber field index) (s.rowOf raw field index) 0
      pattern.jobs now).2

theorem Judged.of_setup {site : Option (Field × Nat)} {pattern : LinePattern} {verdict : Verdict}
    {before : List Job} (hsetup : before.map Job.setup = jobs.map Job.setup)
    (h : Judged s raw probe site pattern before verdict) :
    Judged s raw probe site pattern jobs verdict := by
  refine ⟨h.skipped, fun htried => ?_⟩
  obtain ⟨field, index, now, hsite, hnow, hfound⟩ := h.tried htried
  exact ⟨field, index, now, hsite, hnow.trans hsetup, hfound⟩

theorem Judged.of_tryJobs {field : Field} {index : Nat} {pattern : LinePattern} {now : List Job}
    {found : Option Hit} (htried : ¬ (!pattern.isTried probe) = true)
    (h : tryJobs field (s.lineNumber field index) (s.rowOf raw field index) 0 pattern.jobs jobs =
      (now, found)) :
    Judged s raw probe (some (field, index)) pattern jobs (.ofHit? found) := by
  refine ⟨fun hskip => absurd (by rw [hskip]; rfl) htried, fun _ => ?_⟩
  exact ⟨field, index, jobs, rfl, rfl, by rw [h]⟩

theorem decodeLines_judged (hsites : patterns.length ≤ sites.length)
    (hroom : patterns.length ≤ room) {position : Nat} {pattern : LinePattern} {verdict : Verdict}
    (hpattern : patterns[position]? = some pattern)
    (hverdict : (decodeLines s raw probe sites patterns jobs room).2[position]? = some verdict) :
    Judged s raw probe sites[position]? pattern jobs verdict := by
  fun_induction decodeLines s raw probe sites patterns jobs room generalizing position with
  | case1 field index sites first patterns jobs room hskip after verdicts hrest ih =>
      rw [List.length_cons] at hroom
      cases position with
      | zero =>
          obtain rfl : first = pattern := Option.some.inj hpattern
          obtain rfl : Verdict.skipped = verdict := Option.some.inj hverdict
          refine ⟨fun _ => rfl, fun htried => ?_⟩
          rw [htried] at hskip
          exact absurd hskip (by simp)
      | succ position =>
          rw [hrest] at ih
          exact ih (Nat.le_of_succ_le_succ hsites) (by omega) hpattern hverdict
  | case2 field index sites first patterns jobs room htried now htry after verdicts hrest ih =>
      rw [List.length_cons] at hroom
      cases position with
      | zero =>
          obtain rfl : first = pattern := Option.some.inj hpattern
          obtain rfl : Verdict.missed = verdict := Option.some.inj hverdict
          exact .of_tryJobs htried htry
      | succ position =>
          rw [hrest] at ih
          exact (ih (Nat.le_of_succ_le_succ hsites) (by omega) hpattern hverdict).of_setup
            (map_setup_of_tryJobs_eq htry)
  | case3 field index sites first patterns jobs room htried now hit htry after verdicts hrest
      ih =>
      rw [List.length_cons] at hroom
      cases position with
      | zero =>
          obtain rfl : first = pattern := Option.some.inj hpattern
          obtain rfl : Verdict.found hit = verdict := Option.some.inj hverdict
          exact .of_tryJobs htried htry
      | succ position =>
          rw [hrest] at ih
          exact (ih (Nat.le_of_succ_le_succ hsites) (by omega) hpattern hverdict).of_setup
            (map_setup_of_tryJobs_eq htry)
  | case4 sites room patterns jobs hdone =>
      obtain rfl := patterns_eq_nil_of_done hsites hroom hdone
      exact absurd hpattern (by simp)

end Room

section Frames

variable {d : Decoder} {capacity : Nat} {raw : ByteArray}

/-- A field pair is decoded to the same records however much room there is for them, as long as
there is room for one of every line. -/
theorem Consistent.decode_congr_capacity (h : d.Consistent) {capacity' : Nat}
    (hroom : d.sampling.totalLines ≤ capacity) (hroom' : d.sampling.totalLines ≤ capacity') :
    d.decode capacity raw = d.decode capacity' raw := by
  have hlength := h.length_patterns_le
  have hverdicts : d.verdicts capacity raw = d.verdicts capacity' raw :=
    decodeLines_congr_room h.length_patterns_le_sites (hlength.trans hroom) (hlength.trans hroom')
  rw [Decoder.decode, Decoder.decode, hverdicts]

theorem Consistent.verdict_judged (h : d.Consistent) (hroom : d.sampling.totalLines ≤ capacity)
    {position : Nat} {pattern : LinePattern} {verdict : Verdict}
    (hpattern : d.patterns[position]? = some pattern)
    (hverdict : (d.verdicts capacity raw).2[position]? = some verdict) :
    Judged d.sampling raw (d.sinceProbe == 0) d.sampling.sites[position]? pattern d.jobs
      verdict :=
  decodeLines_judged h.length_patterns_le_sites (h.length_patterns_le.trans hroom) hpattern hverdict

end Frames

/-! ## Calls in a row -/

/-- Some field pairs that a decoder is given one after the other, each with room for a record of
every line. None of them is rejected. -/
structure Calls (first : Decoder) (count : Nat) where
  /-- The decoder before each call. -/
  decoder : Nat → Decoder
  capacity : Nat → Nat
  raw : Nat → ByteArray
  records : Nat → List Record
  start : decoder 0 = first
  decoded : ∀ call < count, (decoder call).decode (capacity call) (raw call) =
    .ok (decoder (call + 1), records call)
  roomy : ∀ call < count, (decoder call).sampling.totalLines ≤ capacity call

namespace Calls

variable {first : Decoder} {count : Nat} (calls : Calls first count)

/-- The calls before one of them. -/
def operations (call : Nat) : List Operation :=
  (List.range call).map fun before => .decode (calls.capacity before) (calls.raw before)

theorem run_operations {call : Nat} (hcall : call ≤ count) :
    first.run (calls.operations call) = calls.decoder call := by
  induction call with
  | zero => exact calls.start.symm
  | succ call ih =>
      have hbefore : (calls.operations call).foldl Decoder.after first = calls.decoder call :=
        ih (Nat.le_of_succ_le hcall)
      rw [run, operations, List.range_succ, List.map_append, List.foldl_append, ← operations,
        hbefore, List.map_singleton, List.foldl_cons, List.foldl_nil, Decoder.after,
        calls.decoded call hcall]

theorem reachable (hfirst : first.Reachable) {call : Nat} (hcall : call ≤ count) :
    (calls.decoder call).Reachable := by
  rw [← calls.run_operations hcall]
  exact hfirst.run _

theorem sampling {call : Nat} (hcall : call ≤ count) :
    (calls.decoder call).sampling = first.sampling := by
  induction call with
  | zero => rw [calls.start]
  | succ call ih =>
      obtain ⟨_, hnext, _⟩ := decode_eq_ok (calls.decoded call hcall)
      rw [hnext]
      exact ih (Nat.le_of_succ_le hcall)

end Calls

/-- A field pair is decoded if all of it is there. -/
theorem decode_of_size {d : Decoder} {raw : ByteArray} (capacity : Nat)
    (hsize : d.sampling.frameSize ≤ raw.size) :
    ∃ next records, d.decode capacity raw = .ok (next, records) := by
  rw [decode, if_neg (Nat.not_lt.mpr hsize)]
  exact ⟨_, _, rfl⟩

/-- The decoder after some field pairs. -/
def decoderAfter (d : Decoder) (capacity : Nat → Nat) (raw : Nat → ByteArray) : Nat → Decoder
  | 0 => d
  | call + 1 =>
      (decoderAfter d capacity raw call).after (.decode (capacity call) (raw call))

section DecoderAfter

variable (d : Decoder) (capacity : Nat → Nat) (raw : Nat → ByteArray)

theorem sampling_decoderAfter (call : Nat) :
    (d.decoderAfter capacity raw call).sampling = d.sampling := by
  induction call with
  | zero => rfl
  | succ call ih =>
      rw [decoderAfter, after]
      split
      next next records hnext =>
        obtain ⟨_, rfl, _⟩ := decode_eq_ok hnext
        exact ih
      next => exact ih

/-- The calls with given field pairs, all of which are complete. -/
def Calls.ofRaw (count : Nat) (hsize : ∀ call < count, d.sampling.frameSize ≤ (raw call).size)
    (hroom : ∀ call < count, d.sampling.totalLines ≤ capacity call) : Calls d count where
  decoder := d.decoderAfter capacity raw
  capacity := capacity
  raw := raw
  records call :=
    match (d.decoderAfter capacity raw call).decode (capacity call) (raw call) with
    | .ok (_, records) => records
    | .error _ => []
  start := rfl
  decoded call hcall := by
    have hframe := hsize call hcall
    rw [← sampling_decoderAfter d capacity raw call] at hframe
    obtain ⟨next, records, hnext⟩ := decode_of_size (capacity call) hframe
    rw [hnext, decoderAfter, after, hnext]
  roomy call hcall := by
    rw [sampling_decoderAfter]
    exact hroom call hcall

end DecoderAfter

end Blanking.Decoder
