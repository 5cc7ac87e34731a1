import Mathlib.Data.List.Basic
import Mathlib.Data.List.Nodup
import Mathlib.Data.List.Perm.Basic
import Blanking.Decoder.Pattern

/-! # Line patterns as lists of jobs

A pattern stands for the jobs of a line in the order of trial and a count of failures. Every
operation is described by what it does to the two. -/

namespace Blanking.LinePattern

/-- What holds of every pattern that was made by the operations: the jobs fill the first places
without a gap and without repeats, and only the last place holds a count, within its limit. -/
structure WellFormed (p : LinePattern) : Prop where
  gapFree : ∀ way < patternWays, p.slots[way]? = some (.ofJob? p.jobs[way]?)
  counter : ∃ count ≤ blankLimit, p.slots[7] = .misses count
  nodup : p.jobs.Nodup

section OfJobs

variable {jobs : List Nat} {misses : Nat}

theorem getElem_slots_ofJobs {i : Nat} (hi : i < patternSlots) :
    (ofJobs jobs misses).slots[i] =
      if i < patternWays then .ofJob? jobs[i]? else .misses misses := by
  simp [ofJobs]

theorem ways_ofJobs (hlength : jobs.length ≤ patternWays) :
    (ofJobs jobs misses).ways =
      jobs.map .job ++ List.replicate (patternWays - jobs.length) .empty := by
  apply List.ext_getElem
  · simp [ways]
    omega
  intro i hi _
  have hway : i < patternWays := by simp [ways] at hi; omega
  simp only [ways, List.getElem_take, Vector.getElem_toList, getElem_slots_ofJobs, if_pos hway]
  by_cases hjob : i < jobs.length
  · simp [hjob, List.getElem_append_left, Slot.ofJob?]
  · rw [List.getElem_append_right (by simpa using hjob)]
    simp [hjob, Slot.ofJob?]

theorem leadingJobs_map_append (jobs : List Nat) (free : Nat) :
    leadingJobs (jobs.map .job ++ List.replicate free .empty) = jobs := by
  induction jobs with
  | nil => cases free <;> rfl
  | cons job rest ih => simp [leadingJobs, ih]

@[simp]
theorem jobs_ofJobs (hlength : jobs.length ≤ patternWays) : (ofJobs jobs misses).jobs = jobs := by
  rw [LinePattern.jobs, ways_ofJobs hlength, leadingJobs_map_append]

@[simp]
theorem misses_ofJobs : (ofJobs jobs misses).misses = misses := by
  simp [LinePattern.misses, getElem_slots_ofJobs]

theorem wellFormed_ofJobs (hlength : jobs.length ≤ patternWays) (hnodup : jobs.Nodup)
    (hmisses : misses ≤ blankLimit) : (ofJobs jobs misses).WellFormed where
  gapFree way hway := by
    rw [Vector.getElem?_eq_getElem (Nat.lt_succ_of_lt hway), getElem_slots_ofJobs, if_pos hway,
      jobs_ofJobs hlength]
  counter := ⟨misses, hmisses, by simp [getElem_slots_ofJobs]⟩
  nodup := by rwa [jobs_ofJobs hlength]

@[simp]
theorem withMisses_ofJobs (count : Nat) : (ofJobs jobs misses).withMisses count =
    ofJobs jobs count := by
  rw [withMisses, ofJobs, ofJobs, LinePattern.mk.injEq]
  ext i hi
  by_cases hlast : i = 7
  · simp [hlast]
  · have hway : i < patternWays := Nat.lt_of_le_of_ne (Nat.le_of_lt_succ hi) hlast
    simp [hway, Ne.symm hlast]

end OfJobs

theorem wellFormed_empty : empty.WellFormed :=
  wellFormed_ofJobs (Nat.zero_le _) List.nodup_nil (Nat.zero_le _)

@[simp]
theorem jobs_empty : empty.jobs = [] := jobs_ofJobs (Nat.zero_le _)

theorem length_leadingJobs_le (slots : List Slot) :
    (leadingJobs slots).length ≤ slots.length := by
  induction slots with
  | nil => simp [leadingJobs]
  | cons slot rest ih => cases slot <;> simp [leadingJobs, ih]

theorem length_jobs_le (p : LinePattern) : p.jobs.length ≤ patternWays := by
  have hle := length_leadingJobs_le p.ways
  have hways : p.ways.length = patternWays := by simp [ways]
  exact hways ▸ hle

namespace WellFormed

variable {p : LinePattern}

theorem misses_le (h : p.WellFormed) : p.misses ≤ blankLimit := by
  obtain ⟨count, hcount, hslot⟩ := h.counter
  rwa [LinePattern.misses, hslot]

theorem eq_ofJobs (h : p.WellFormed) : p = ofJobs p.jobs p.misses := by
  obtain ⟨count, _, hslot⟩ := h.counter
  have hmisses : p.misses = count := by rw [LinePattern.misses, hslot]
  have hslots : p.slots = (ofJobs p.jobs p.misses).slots := by
    ext i hi
    rw [getElem_slots_ofJobs hi]
    split
    next hway =>
      have hget := h.gapFree i hway
      rw [Vector.getElem?_eq_getElem hi] at hget
      exact Option.some.inj hget
    next hway =>
      have hlast : i = 7 := Nat.le_antisymm (Nat.le_of_lt_succ hi) (Nat.le_of_not_lt hway)
      subst hlast
      rw [hmisses, hslot]
  cases p
  exact congrArg LinePattern.mk hslots

end WellFormed

/-! ## Operations on lists of jobs -/

section Operations

variable {jobs : List Nat} {misses : Nat}

theorem isEmpty_ofJobs : (ofJobs jobs misses).isEmpty = jobs.isEmpty := by
  cases jobs <;> simp [isEmpty, getElem_slots_ofJobs, Slot.ofJob?]

theorem hasRoom_ofJobs : (ofJobs jobs misses).hasRoom = decide (jobs.length < patternWays) := by
  simp only [hasRoom, getElem_slots_ofJobs]
  by_cases hroom : jobs.length < 7
  · simp [hroom, List.getElem?_eq_none (Nat.le_of_lt_succ hroom), Slot.ofJob?]
  · have hjob : 6 < jobs.length := by omega
    simp [hroom, List.getElem?_eq_getElem hjob, Slot.ofJob?]

theorem findIdx?_map_append (jobs : List Nat) (free : Nat) :
    (jobs.map Slot.job ++ List.replicate free Slot.empty).findIdx? (· == Slot.empty) =
      if free = 0 then none else some jobs.length := by
  induction jobs with
  | nil => cases free <;> simp [List.replicate_succ, List.findIdx?_cons]
  | cons job rest ih =>
      have hjob : (Slot.job job == Slot.empty) = false := rfl
      rw [List.map_cons, List.cons_append, List.findIdx?_cons, ih, hjob]
      cases free <;> simp

/-- A new job goes behind the others. -/
theorem add_ofJobs {job : Nat} (hroom : jobs.length < patternWays) (hnew : job ∉ jobs) :
    (ofJobs jobs misses).add job = (ofJobs (jobs ++ [job]) 0, true) := by
  have hlength := Nat.le_of_lt hroom
  have hfree : patternWays - jobs.length ≠ 0 := by omega
  have hslots : (ofJobs jobs misses).slots.setIfInBounds jobs.length (.job job) =
      (ofJobs (jobs ++ [job]) misses).slots := by
    ext i hi
    rw [Vector.getElem_setIfInBounds, getElem_slots_ofJobs hi, getElem_slots_ofJobs hi]
    rcases Nat.lt_trichotomy jobs.length i with hbehind | rfl | hfront
    · have hnone : (jobs ++ [job])[i]? = none := by
        rw [List.getElem?_eq_none_iff, List.length_append, List.length_singleton]
        omega
      have hnone' : jobs[i]? = none := List.getElem?_eq_none (Nat.le_of_lt hbehind)
      rw [if_neg (Nat.ne_of_lt hbehind), hnone, hnone']
    · simp [hroom, Slot.ofJob?]
    · rw [if_neg (Nat.ne_of_gt hfront), List.getElem?_append_left hfront]
  -- The first free place is the one right behind the jobs.
  rw [add, contains, jobs_ofJobs hlength, ways_ofJobs hlength, findIdx?_map_append,
    if_neg (by simpa using hnew), if_neg hfree]
  simp only [hslots]
  exact congrArg (·, true) (withMisses_ofJobs 0)

theorem remove_ofJobs {job : Nat} (hlength : jobs.length ≤ patternWays) :
    (ofJobs jobs misses).remove job =
      ofJobs (jobs.filter (· != job)) (if job ∈ jobs then 0 else misses) := by
  rw [remove, contains, jobs_ofJobs hlength]
  by_cases hmem : job ∈ jobs
  · simp [hmem]
  · have hkept : jobs.filter (· != job) = jobs := by
      rw [List.filter_eq_self]
      exact fun other hother => bne_iff_ne.mpr fun heq => hmem (heq ▸ hother)
    simp [hmem, hkept]

theorem removeAndRenumber_ofJobs {job : Nat} (hlength : jobs.length ≤ patternWays) :
    (ofJobs jobs misses).removeAndRenumber job =
      ofJobs ((jobs.filter (· != job)).map fun other => if job < other then other - 1 else other)
        (if job ∈ jobs then 0 else misses) := by
  rw [removeAndRenumber, remove_ofJobs hlength]
  apply congrArg LinePattern.mk
  ext i hi
  simp only [Vector.getElem_ofFn, Fin.getElem_fin, getElem_slots_ofJobs hi, List.getElem?_map]
  by_cases hway : i < patternWays
  · rw [if_pos hway, if_pos hway, if_pos hway]
    cases (jobs.filter (· != job))[i]? <;> rfl
  · rw [if_neg hway, if_neg hway, if_neg hway]

theorem promote_ofJobs {way : Nat} (hlength : jobs.length ≤ patternWays)
    (hway : way < jobs.length) :
    (ofJobs jobs misses).promote way = ofJobs (jobs[way] :: jobs.eraseIdx way) 0 := by
  have hlt : way < patternWays := Nat.lt_of_lt_of_le hway hlength
  have hslot : way < patternSlots := Nat.lt_succ_of_lt hlt
  have hslots : (Vector.ofFn fun i : Fin patternSlots =>
      if i.val = 0 then (ofJobs jobs misses).slots[way]
      else if i.val ≤ way then (ofJobs jobs misses).slots[i.val - 1]
      else (ofJobs jobs misses).slots[i]) =
      (ofJobs (jobs[way] :: jobs.eraseIdx way) misses).slots := by
    ext i hi
    simp only [Vector.getElem_ofFn, Fin.getElem_fin, getElem_slots_ofJobs]
    rcases i with _ | i
    · simp [hlt, hway, Slot.ofJob?]
    · rw [if_neg (Nat.succ_ne_zero i), List.getElem?_cons_succ, List.getElem?_eraseIdx,
        Nat.add_sub_cancel]
      by_cases hle : i + 1 ≤ way
      · have hfront : i + 1 < patternWays := Nat.lt_of_le_of_lt hle hlt
        have hbefore : i < patternWays := Nat.lt_of_succ_lt hfront
        rw [if_pos hle, if_pos hbefore, if_pos hfront, if_pos (Nat.lt_of_succ_le hle)]
      · rw [if_neg hle, if_neg (show ¬ i < way from hle)]
  rw [promote, dif_pos hlt]
  exact (congrArg (fun slots => withMisses ⟨slots⟩ 0) hslots).trans (withMisses_ofJobs 0)

theorem miss_ofJobs :
    (ofJobs jobs misses).miss = ofJobs jobs (min (misses + 1) blankLimit) := by
  rw [miss, misses_ofJobs, withMisses_ofJobs]

end Operations

/-! ## Operations on well-formed patterns -/

namespace WellFormed

variable {p : LinePattern} {job other : Nat}

theorem isEmpty_eq (h : p.WellFormed) : p.isEmpty = p.jobs.isEmpty := by
  rw [h.eq_ofJobs, isEmpty_ofJobs, jobs_ofJobs p.length_jobs_le]

theorem hasRoom_eq (h : p.WellFormed) : p.hasRoom = decide (p.jobs.length < patternWays) := by
  rw [h.eq_ofJobs, hasRoom_ofJobs, jobs_ofJobs p.length_jobs_le]

theorem add_of_hasRoom (h : p.WellFormed) (hnew : p.contains job = false)
    (hroom : p.hasRoom = true) : (p.add job).1 = ofJobs (p.jobs ++ [job]) 0 := by
  have hlength : p.jobs.length < patternWays := by simpa [h.hasRoom_eq] using hroom
  have hnotMem : job ∉ p.jobs := by simpa [contains] using hnew
  have hadd : (ofJobs p.jobs p.misses).add job = _ := add_ofJobs hlength hnotMem
  rw [← h.eq_ofJobs] at hadd
  rw [hadd]

/-- Adding a job succeeds on a line that has it or has room for it. -/
theorem add (h : p.WellFormed) (hroom : p.contains job = true ∨ p.hasRoom = true) :
    (p.add job).1.WellFormed ∧
      ∀ other, other ∈ (p.add job).1.jobs ↔ other ∈ p.jobs ∨ other = job := by
  cases hpresent : p.contains job with
  | true =>
      have hmem : job ∈ p.jobs := by simpa [contains] using hpresent
      have hsame : (p.add job).1 = p := by rw [LinePattern.add, if_pos hpresent]
      rw [hsame]
      refine ⟨h, fun other => ⟨Or.inl, ?_⟩⟩
      rintro (hother | rfl)
      · exact hother
      · exact hmem
  | false =>
      have hroom : p.hasRoom = true := by simpa [hpresent] using hroom
      have hlength : (p.jobs ++ [job]).length ≤ patternWays := by
        have hlt : p.jobs.length < patternWays := by simpa [h.hasRoom_eq] using hroom
        rwa [List.length_append, List.length_singleton]
      have hnew : job ∉ p.jobs := by simpa [contains] using hpresent
      rw [h.add_of_hasRoom hpresent hroom]
      refine ⟨wellFormed_ofJobs hlength ?_ (Nat.zero_le _), ?_⟩
      · exact h.nodup.append (List.nodup_singleton job) (by simpa using hnew)
      · intro other
        simp [jobs_ofJobs hlength]

theorem remove_eq (h : p.WellFormed) : p.remove job =
    ofJobs (p.jobs.filter (· != job)) (if job ∈ p.jobs then 0 else p.misses) := by
  have hremove : (ofJobs p.jobs p.misses).remove job = _ := remove_ofJobs p.length_jobs_le
  rwa [← h.eq_ofJobs] at hremove

theorem length_filter_le (p : LinePattern) (job : Nat) :
    (p.jobs.filter (· != job)).length ≤ patternWays :=
  Nat.le_trans (List.length_filter_le _ _) p.length_jobs_le

theorem remove (h : p.WellFormed) (job : Nat) : (p.remove job).WellFormed := by
  rw [h.remove_eq]
  apply wellFormed_ofJobs (length_filter_le p job) (h.nodup.filter _)
  split
  · exact Nat.zero_le _
  · exact h.misses_le

theorem jobs_remove (h : p.WellFormed) : (p.remove job).jobs = p.jobs.filter (· != job) := by
  rw [h.remove_eq, jobs_ofJobs (length_filter_le p job)]

/-- A line that gives up a job has room for another one. -/
theorem hasRoom_remove (h : p.WellFormed) (hmem : job ∈ p.jobs) :
    (p.remove job).hasRoom = true := by
  have hshorter : (p.jobs.filter (· != job)).length < p.jobs.length := by
    rw [List.length_filter_lt_length_iff_exists]
    exact ⟨job, hmem, by simp⟩
  rw [(h.remove job).hasRoom_eq, h.jobs_remove, decide_eq_true_eq]
  exact Nat.lt_of_lt_of_le hshorter p.length_jobs_le

theorem removeAndRenumber_eq (h : p.WellFormed) : p.removeAndRenumber job =
    ofJobs ((p.jobs.filter (· != job)).map fun other => if job < other then other - 1 else other)
      (if job ∈ p.jobs then 0 else p.misses) := by
  have hrenumber : (ofJobs p.jobs p.misses).removeAndRenumber job = _ :=
    removeAndRenumber_ofJobs p.length_jobs_le
  rwa [← h.eq_ofJobs] at hrenumber

theorem length_renumbered_le (p : LinePattern) (job : Nat) :
    ((p.jobs.filter (· != job)).map fun other =>
      if job < other then other - 1 else other).length ≤ patternWays := by
  rw [List.length_map]
  exact length_filter_le p job

theorem removeAndRenumber (h : p.WellFormed) (job : Nat) :
    (p.removeAndRenumber job).WellFormed := by
  rw [h.removeAndRenumber_eq]
  refine wellFormed_ofJobs (length_renumbered_le p job) ?_ ?_
  · refine List.Nodup.map_on ?_ (h.nodup.filter _)
    intro a ha b hb heq
    have hne : a ≠ job := by simpa using (List.mem_filter.mp ha).2
    have hne' : b ≠ job := by simpa using (List.mem_filter.mp hb).2
    -- Two numbers could only meet at that of the removed job.
    split at heq <;> split at heq <;> omega
  · split
    · exact Nat.zero_le _
    · exact h.misses_le

/-- The jobs behind a removed one go by the number before theirs. -/
theorem mem_jobs_removeAndRenumber (h : p.WellFormed) :
    other ∈ (p.removeAndRenumber job).jobs ↔
      (if other < job then other else other + 1) ∈ p.jobs := by
  rw [h.removeAndRenumber_eq, jobs_ofJobs (length_renumbered_le p job), List.mem_map]
  constructor
  · rintro ⟨before, hbefore, rfl⟩
    obtain ⟨hmem, hne⟩ := List.mem_filter.mp hbefore
    have hne : before ≠ job := by simpa using hne
    -- Moved down and up again a number is what it was, since it is not that of the removed job.
    have hback : (if (if job < before then before - 1 else before) < job then
        (if job < before then before - 1 else before)
      else (if job < before then before - 1 else before) + 1) = before := by
      split <;> split <;> omega
    rwa [hback]
  · intro hmem
    refine ⟨_, List.mem_filter.mpr ⟨hmem, ?_⟩, ?_⟩
    · rw [bne_iff_ne]
      split <;> omega
    · split <;> split <;> omega

theorem promote_eq (h : p.WellFormed) {way : Nat} (hway : way < p.jobs.length) :
    p.promote way = ofJobs (p.jobs[way] :: p.jobs.eraseIdx way) 0 := by
  have hpromote : (ofJobs p.jobs p.misses).promote way = _ :=
    promote_ofJobs p.length_jobs_le hway
  rwa [← h.eq_ofJobs] at hpromote

theorem length_promoted_le {way : Nat} (hway : way < p.jobs.length) :
    (p.jobs[way] :: p.jobs.eraseIdx way).length ≤ patternWays := by
  have hlength := p.length_jobs_le
  rw [List.length_cons, List.length_eraseIdx_of_lt hway]
  omega

theorem jobs_promote (h : p.WellFormed) {way : Nat} (hway : way < p.jobs.length) :
    (p.promote way).jobs = p.jobs[way] :: p.jobs.eraseIdx way := by
  rw [h.promote_eq hway, jobs_ofJobs (length_promoted_le hway)]

theorem promote_perm (h : p.WellFormed) {way : Nat} (hway : way < p.jobs.length) :
    (p.promote way).jobs.Perm p.jobs := by
  rw [h.jobs_promote hway]
  exact List.getElem_cons_eraseIdx_perm hway

theorem promote (h : p.WellFormed) {way : Nat} (hway : way < p.jobs.length) :
    (p.promote way).WellFormed := by
  have hnodup := (h.promote_perm hway).nodup_iff.mpr h.nodup
  rw [h.jobs_promote hway] at hnodup
  rw [h.promote_eq hway]
  exact wellFormed_ofJobs (length_promoted_le hway) hnodup (Nat.zero_le _)

theorem miss_eq (h : p.WellFormed) :
    p.miss = ofJobs p.jobs (min (p.misses + 1) blankLimit) := by
  have hmiss : (ofJobs p.jobs p.misses).miss = _ := miss_ofJobs
  rwa [← h.eq_ofJobs] at hmiss

theorem miss (h : p.WellFormed) : p.miss.WellFormed := by
  rw [h.miss_eq]
  exact wellFormed_ofJobs p.length_jobs_le h.nodup (Nat.min_le_right _ _)

theorem jobs_miss (h : p.WellFormed) : p.miss.jobs = p.jobs := by
  rw [h.miss_eq, jobs_ofJobs p.length_jobs_le]

end WellFormed

end Blanking.LinePattern
