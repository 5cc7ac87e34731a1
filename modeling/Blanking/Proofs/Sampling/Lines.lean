import Mathlib.Data.List.Basic
import Mathlib.Data.List.Nodup
import Blanking.Decoder.Basic
import Blanking.Proofs.Sampling.Permit

/-! # Lines of a sampling

Sampled lines go by their position among all of them, those of the first field in front. The
candidates for a service are described by field and index. -/

namespace Blanking.Sampling

/-- A sampling is consistent if it has samples and lines, all of one scanning, and if the fields
can alternate in case they do. -/
theorem valid_iff {s : Sampling} :
    s.Valid ↔ s.rate ≠ 0 ∧ s.samplesPerLine ≠ 0 ∧ 0 < s.totalLines ∧
      ∃ scanning, s.scanning = some scanning ∧ s.validateField scanning .first = .ok () ∧
        s.validateField scanning .second = .ok () ∧ s.validateLayout = .ok () := by
  have hlines : (s.count.first = 0 && s.count.second = 0) = false ↔ 0 < s.totalLines := by
    rw [totalLines, Bool.and_eq_false_iff, decide_eq_false_iff_not, decide_eq_false_iff_not]
    omega
  unfold Valid validate
  split
  next hrate => simp [hrate]
  next hrate =>
    split
    next hsamples => simp [hsamples]
    next hsamples =>
      split
      next hnone => simp [← hlines, hnone]
      next hsome =>
        have hsome : 0 < s.totalLines := hlines.mp (by simpa using hsome)
        cases s.scanning with
        | none => simp
        | some scanning => simp [bind_eq_ok, hrate, hsamples, hsome]

theorem Valid.totalLines_pos {s : Sampling} (h : s.Valid) : 0 < s.totalLines :=
  (valid_iff.mp h).2.2.1

/-- A consistent sampling has lines of one scanning. -/
theorem Valid.exists_scanning {s : Sampling} (h : s.Valid) :
    ∃ scanning, s.scanning = some scanning ∧ s.validateLayout = .ok () := by
  obtain ⟨_, _, _, scanning, hscanning, _, _, hlayout⟩ := valid_iff.mp h
  exact ⟨scanning, hscanning, hlayout⟩

/-- Fields alternate only if both have the same number of lines. -/
theorem Valid.count_eq {s : Sampling} (h : s.Valid) (hinterlaced : s.interlaced = true) :
    s.count.first = s.count.second := by
  obtain ⟨_, _, hlayout⟩ := h.exists_scanning
  unfold validateLayout at hlayout
  split at hlayout
  next => exact absurd hlayout (by simp)
  next hequal =>
    simp only [hinterlaced, Bool.true_and, Bool.or_eq_true, bne_iff_ne, not_or, not_not] at hequal
    exact hequal.1

theorem validateField_eq_ok_iff {s : Sampling} {scanning : Scanning} {field : Field} :
    s.validateField scanning field = .ok () ↔
      s.start.on field = 0 ∨ s.count.on field = 0 ∨
        (scanning.fieldLines.on field).1 ≤ s.start.on field ∧
          s.lastLine field ≤ (scanning.fieldLines.on field).2 := by
  unfold validateField
  split
  next hnone =>
    rw [Bool.or_eq_true, decide_eq_true_eq, decide_eq_true_eq] at hnone
    simp only [true_iff]
    exact hnone.imp_right Or.inl
  next hsome =>
    rw [Bool.or_eq_true, decide_eq_true_eq, decide_eq_true_eq, not_or] at hsome
    simp only [hsome.1, hsome.2, false_or]
    split
    next hout =>
      rw [Bool.or_eq_true, decide_eq_true_eq, decide_eq_true_eq] at hout
      simp only [reduceCtorEq, false_iff]
      omega
    next hin =>
      rw [Bool.or_eq_true, decide_eq_true_eq, decide_eq_true_eq] at hin
      simp only [true_iff]
      omega

/-- Known lines of the second field have larger numbers than those of the first one. -/
theorem Valid.start_first_add_lt {s : Sampling} (h : s.Valid) (hfirst : 0 < s.start.first)
    (hsecond : 0 < s.start.second) (hlines : 0 < s.count.second) {index : Nat}
    (hindex : index < s.count.first) : s.start.first + index < s.start.second := by
  obtain ⟨_, _, _, scanning, _, hfieldFirst, hfieldSecond, _⟩ := valid_iff.mp h
  obtain hzero | hzero | ⟨_, hlast⟩ := validateField_eq_ok_iff.mp hfieldFirst
  · exact absurd hzero (Nat.ne_of_gt hfirst)
  · exact absurd hzero (Nat.ne_of_gt (Nat.zero_lt_of_lt hindex))
  obtain hzero | hzero | ⟨hstart, _⟩ := validateField_eq_ok_iff.mp hfieldSecond
  · exact absurd hzero (Nat.ne_of_gt hsecond)
  · exact absurd hzero (Nat.ne_of_gt hlines)
  -- The fields of either scanning meet without an overlap.
  cases scanning <;>
    simp only [lastLine, Scanning.fieldLines, PerField.on] at hlast hstart <;> omega

/-! ## Rows -/

theorem Valid.row_lt {s : Sampling} (h : s.Valid) {field : Field} {index : Nat}
    (hindex : index < s.count.on field) : s.row field index < s.totalLines := by
  unfold row totalLines
  split
  next hinterlaced =>
    have hcount := h.count_eq hinterlaced
    cases field <;> simp only [PerField.on, Field.index] at hindex ⊢ <;> omega
  next =>
    cases field <;> simp only [PerField.on, position, base] at hindex ⊢ <;> omega

/-- The row of a line ends inside a buffer that holds a field pair. -/
theorem Valid.row_succ_mul_le {s : Sampling} (h : s.Valid) {field : Field} {index : Nat}
    (hindex : index < s.count.on field) :
    (s.row field index + 1) * s.bytesPerLine ≤ s.frameSize := by
  rw [frameSize, Nat.mul_comm s.bytesPerLine]
  exact Nat.mul_le_mul_right _ (h.row_lt hindex)

/-- A buffer that holds a field pair has all samples of each line. -/
theorem Valid.size_rowOf {s : Sampling} (h : s.Valid) {raw : ByteArray}
    (hsize : s.frameSize ≤ raw.size) {field : Field} {index : Nat}
    (hindex : index < s.count.on field) : (s.rowOf raw field index).size = s.bytesPerLine := by
  have hrow := h.row_succ_mul_le hindex
  rw [Nat.succ_mul] at hrow
  rw [rowOf, ByteArray.size_extract]
  omega

/-! ## Sites -/

theorem length_sites (s : Sampling) : s.sites.length = s.totalLines := by
  simp [sites, Field.all, totalLines, PerField.on]

theorem getElem?_sites {s : Sampling} {position : Nat} {field : Field} {index : Nat} :
    s.sites[position]? = some (field, index) ↔
      index < s.count.on field ∧ position = s.base field + index := by
  simp only [sites, Field.all, List.flatMap_cons, List.flatMap_nil, List.append_nil]
  by_cases hfirst : position < s.count.first
  · rw [List.getElem?_append_left (by simpa [PerField.on] using hfirst), List.getElem?_map]
    cases field <;> simp [PerField.on, base, hfirst] <;> omega
  · rw [List.getElem?_append_right (by simpa [PerField.on] using hfirst), List.getElem?_map]
    cases field <;> simp [PerField.on, base, List.getElem?_eq_some_iff] <;> omega

/-- Lines of the first field come before those of the second one, and those of a field in the
order of their indices. -/
def Earlier (a b : Field × Nat) : Prop := a.1.index < b.1.index ∨ a.1 = b.1 ∧ a.2 < b.2

theorem Earlier.ne {a b : Field × Nat} (h : Earlier a b) : a ≠ b := by
  rintro rfl
  exact h.elim (Nat.lt_irrefl _) fun hindex => Nat.lt_irrefl _ hindex.2

theorem pairwise_sites (s : Sampling) : s.sites.Pairwise Earlier := by
  have hfield (field : Field) :
      ((List.range (s.count.on field)).map fun index => (field, index)).Pairwise Earlier :=
    List.pairwise_map.mpr (List.pairwise_lt_range.imp fun hlt => Or.inr ⟨rfl, hlt⟩)
  simp only [sites, Field.all, List.flatMap_cons, List.flatMap_nil, List.append_nil]
  refine List.pairwise_append.mpr ⟨hfield .first, hfield .second, ?_⟩
  intro a ha b hb
  obtain ⟨_, _, rfl⟩ := List.mem_map.mp ha
  obtain ⟨_, _, rfl⟩ := List.mem_map.mp hb
  exact Or.inl Nat.zero_lt_one

/-- Among lines of known numbers a later one has a larger number. -/
theorem Valid.lineNumber_lt {s : Sampling} (h : s.Valid) {a b : Field × Nat}
    (hearlier : Earlier a b) (ha : a.2 < s.count.on a.1) (hb : b.2 < s.count.on b.1)
    (hknown : s.lineNumber a.1 a.2 ≠ 0) (hknown' : s.lineNumber b.1 b.2 ≠ 0) :
    s.lineNumber a.1 a.2 < s.lineNumber b.1 b.2 := by
  obtain ⟨field, index⟩ := a
  obtain ⟨field', index'⟩ := b
  simp only [lineNumber, Bool.and_eq_true, decide_eq_true_eq] at hknown hknown' ⊢
  split at hknown
  next hstart =>
    split at hknown'
    next hstart' =>
      rw [if_pos hstart, if_pos hstart']
      obtain hfields | ⟨rfl, hindex⟩ := hearlier
      · obtain ⟨rfl, rfl⟩ : field = .first ∧ field' = .second := by
          cases field <;> cases field' <;> simp [Field.index] at hfields ⊢
        have hlt := h.start_first_add_lt hstart.2 hstart'.2 (Nat.zero_lt_of_lt hb) ha
        exact Nat.lt_add_right index' hlt
      · exact Nat.add_lt_add_left hindex _
    next => exact absurd rfl hknown'
  next => exact absurd rfl hknown

/-! ## Candidates -/

theorem mem_positions {start count position : Nat} :
    position ∈ positions start count ↔ start ≤ position ∧ position < start + count := by
  simp only [positions, List.mem_map, List.mem_range]
  constructor
  · rintro ⟨offset, hoffset, rfl⟩
    omega
  · rintro ⟨hstart, hstop⟩
    exact ⟨position - start, by omega, by omega⟩

theorem mem_candidatesOn {s : Sampling} {t : Transmission} {field : Field} {position : Nat} :
    position ∈ s.candidatesOn t field ↔
      ∃ index < s.count.on field, position = s.base field + index ∧ t.onField field = true ∧
        (s.start.on field = 0 ∨ t.covers field (s.start.on field + index) = true) := by
  unfold candidatesOn
  by_cases hfield : t.onField field = true
  · by_cases hcount : s.count.on field = 0
    · simp [hcount]
    by_cases hstart : s.start.on field = 0
    · simp only [hfield, hstart, Bool.not_true, beq_eq_false_iff_ne.mpr hcount,
        Bool.or_false, Bool.false_eq_true, if_false, if_true, mem_positions, true_or, and_true]
      constructor
      · rintro ⟨hbase, hend⟩
        exact ⟨position - s.base field, by omega, by omega⟩
      · rintro ⟨index, hindex, rfl⟩
        omega
    · simp only [hfield, hstart, Bool.not_true, beq_eq_false_iff_ne.mpr hcount, Bool.or_false,
        Bool.false_eq_true, if_false, mem_positions, Transmission.covers, lastLine, true_and,
        false_or, Bool.and_eq_true, decide_eq_true_eq]
      constructor
      · rintro ⟨hbase, hend⟩
        exact ⟨position - s.base field, by omega, by omega, by omega, by omega⟩
      · rintro ⟨index, hindex, rfl, hfirst, hlast⟩
        omega
  · simp [hfield]

/-- Where fields can be told apart, the lines of unknown number may carry a service if their
field does, the others if they are among its lines. -/
theorem mem_candidates_of_synchronous {s : Sampling} (hsync : s.synchronous = true)
    {t : Transmission} {position : Nat} {field : Field} {index : Nat}
    (hsite : s.sites[position]? = some (field, index)) :
    position ∈ s.candidates t ↔ t.onField field = true ∧
      (s.start.on field = 0 ∨ t.covers field (s.start.on field + index) = true) := by
  obtain ⟨hindex, rfl⟩ := getElem?_sites.mp hsite
  rw [candidates, if_pos hsync, List.mem_flatMap]
  constructor
  · rintro ⟨field', _, hcandidate⟩
    obtain ⟨index', hindex', hposition, hfield, hline⟩ := mem_candidatesOn.mp hcandidate
    have hsite' := getElem?_sites.mpr ⟨hindex', hposition⟩
    obtain ⟨rfl, rfl⟩ := Prod.mk.inj (Option.some.inj (hsite.symm.trans hsite'))
    exact ⟨hfield, hline⟩
  · rintro ⟨hfield, hline⟩
    exact ⟨field, field.mem_all, mem_candidatesOn.mpr ⟨index, hindex, rfl, hfield, hline⟩⟩

theorem lt_of_mem_candidates {s : Sampling} {t : Transmission} {position : Nat}
    (h : position ∈ s.candidates t) : position < s.totalLines := by
  unfold candidates at h
  split at h
  next =>
    obtain ⟨field, _, hfield⟩ := List.mem_flatMap.mp h
    obtain ⟨index, hindex, rfl, _⟩ := mem_candidatesOn.mp hfield
    cases field <;> simp only [PerField.on, base, totalLines] at hindex ⊢ <;> omega
  next => exact List.mem_range.mp h

theorem nodup_candidatesOn (s : Sampling) (t : Transmission) (field : Field) :
    (s.candidatesOn t field).Nodup := by
  have hpositions (start count : Nat) : (positions start count).Nodup :=
    List.nodup_range.map fun _ _ => Nat.add_left_cancel
  unfold candidatesOn
  split
  next => exact List.nodup_nil
  next =>
    split
    next => exact hpositions _ _
    next => exact hpositions _ _

/-- No line is a candidate twice. -/
theorem nodup_candidates (s : Sampling) (t : Transmission) : (s.candidates t).Nodup := by
  unfold candidates
  split
  next =>
    refine List.nodup_flatMap.mpr ⟨fun field _ => s.nodup_candidatesOn t field, ?_⟩
    refine List.pairwise_pair.mpr fun position hfirst hsecond => ?_
    obtain ⟨index, hindex, rfl, _⟩ := mem_candidatesOn.mp hfirst
    obtain ⟨index', _, heq, _⟩ := mem_candidatesOn.mp hsecond
    simp only [PerField.on, base] at hindex heq
    omega
  next => exact List.nodup_range

end Blanking.Sampling
