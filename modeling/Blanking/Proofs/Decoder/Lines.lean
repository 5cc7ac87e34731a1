import Blanking.Decoder.Basic
import Blanking.Proofs.Slicer.Data

/-! # Decoding one line after the other

While lines are decoded only the thresholds of the slicers change: services and configuration of
each job stay. Whatever is found on a line was found there by a job of its pattern. -/

namespace Blanking

/-- What decoding never changes of a job. -/
def Job.setup (job : Job) : ServiceSet × SlicerConfig := (job.services, job.slicer.config)

namespace Decoder

/-- What a job of a line found there. -/
theorem tryJob_eq_some {job next : Job} {row : ByteArray} {data : Vector UInt8 recordBytes}
    (h : tryJob job row = some (next, data)) :
    ∃ slicer reception,
      job.slicer.receive (job.slicer.config.layout.level row) = some (slicer, reception) ∧
      next = { job with slicer := slicer } ∧
      data = overwrite reception.payload (Vector.replicate recordBytes 0) := by
  unfold tryJob at h
  split at h
  next slicer filled hslice =>
    obtain ⟨rfl, rfl⟩ := Prod.mk.inj (Option.some.inj h)
    obtain ⟨reception, hreceive, rfl⟩ := Slicer.slice_eq_some hslice
    exact ⟨slicer, reception, hreceive, rfl, rfl⟩
  next => exact absurd h (by simp)

theorem setup_tryJob {job next : Job} {row : ByteArray} {data : Vector UInt8 recordBytes}
    (h : tryJob job row = some (next, data)) : next.setup = job.setup := by
  obtain ⟨slicer, reception, hreceive, rfl, _⟩ := tryJob_eq_some h
  simp only [Job.setup, Slicer.config_receive hreceive]

theorem map_setup_set {jobs : List Job} {number : Nat} {job next : Job}
    (hget : jobs[number]? = some job) (hsetup : next.setup = job.setup) :
    (jobs.set number next).map Job.setup = jobs.map Job.setup := by
  have hmap : (jobs.map Job.setup)[number]? = some job.setup := by simp [hget]
  obtain ⟨hlt, hvalue⟩ := List.getElem?_eq_some_iff.mp hmap
  rw [List.map_set, hsetup, ← hvalue, List.set_getElem_self]

theorem setup_getElem? {before jobs : List Job} (h : before.map Job.setup = jobs.map Job.setup)
    {number : Nat} {job : Job} (hget : before[number]? = some job) :
    ∃ job', jobs[number]? = some job' ∧ job'.setup = job.setup := by
  have hmap : (jobs.map Job.setup)[number]? = some job.setup := by rw [← h]; simp [hget]
  rw [List.getElem?_map, Option.map_eq_some_iff] at hmap
  exact hmap

section TryJobs

variable {field : Field} {line : Nat} {row : ByteArray}

/-- A hit comes from one of some jobs that are tried in order after `way` others. By the time of
its trial the job may have adapted to other lines. -/
def FoundBy (jobs : List Job) (field : Field) (line : Nat) (row : ByteArray) (way : Nat)
    (order : List Nat) (hit : Hit) : Prop :=
  ∃ place number original job next, hit.way = way + place ∧ order[place]? = some number ∧
    jobs[number]? = some original ∧ Job.setup job = original.setup ∧
    tryJob job row = some (next, hit.data) ∧
    next.identify field line hit.data.toList = some hit.service

theorem FoundBy.of_setup {before jobs : List Job} {way : Nat} {order : List Nat} {hit : Hit}
    (hsetup : before.map Job.setup = jobs.map Job.setup)
    (h : FoundBy before field line row way order hit) :
    FoundBy jobs field line row way order hit := by
  obtain ⟨place, number, original, job, next, hway, horder, hget, hjob, hfound⟩ := h
  obtain ⟨original', hget', hsame⟩ := setup_getElem? hsetup hget
  exact ⟨place, number, original', job, next, hway, horder, hget', hjob.trans hsame.symm, hfound⟩

theorem FoundBy.cons {jobs : List Job} {way number : Nat} {order : List Nat} {hit : Hit}
    (h : FoundBy jobs field line row (way + 1) order hit) :
    FoundBy jobs field line row way (number :: order) hit := by
  obtain ⟨place, number', original, job, next, hway, horder, hfound⟩ := h
  exact ⟨place + 1, number', original, job, next, by omega, horder, hfound⟩

/-- Trying jobs on a line only moves their thresholds. -/
theorem map_setup_tryJobs (way : Nat) (order : List Nat) (jobs : List Job) :
    (tryJobs field line row way order jobs).1.map Job.setup = jobs.map Job.setup := by
  induction order generalizing way jobs with
  | nil => rfl
  | cons number order ih =>
      unfold tryJobs
      split
      next => exact ih (way + 1) jobs
      next job data hfound =>
        obtain ⟨before, hget, htry⟩ := Option.bind_eq_some_iff.mp hfound
        have hset := map_setup_set hget (setup_tryJob htry)
        dsimp only
        split
        next => exact hset
        next => exact (ih (way + 1) _).trans hset

theorem map_setup_of_tryJobs_eq {way : Nat} {order : List Nat} {jobs after : List Job}
    {found : Option Hit} (h : tryJobs field line row way order jobs = (after, found)) :
    after.map Job.setup = jobs.map Job.setup := by
  rw [← map_setup_tryJobs way order jobs, h]

theorem tryJobs_eq_some {way : Nat} {order : List Nat} {jobs after : List Job} {hit : Hit}
    (h : tryJobs field line row way order jobs = (after, some hit)) :
    FoundBy jobs field line row way order hit := by
  induction order generalizing way jobs with
  | nil => exact absurd h (by simp [tryJobs])
  | cons number order ih =>
      unfold tryJobs at h
      split at h
      next => exact (ih h).cons
      next next data hfound =>
        obtain ⟨job, hget, htry⟩ := Option.bind_eq_some_iff.mp hfound
        dsimp only at h
        split at h
        next service hservice =>
          obtain ⟨_, hhit⟩ := Prod.mk.inj h
          obtain rfl := Option.some.inj hhit
          exact ⟨0, number, job, job, next, rfl, rfl, hget, rfl, htry, hservice⟩
        next =>
          exact ((ih h).of_setup (map_setup_set hget (setup_tryJob htry))).cons

/-- Jobs that do not adapt to a line stay as they are, and nothing is found if none of those in
the order finds anything. -/
theorem tryJobs_of_stable {jobs : List Job}
    (hstable : ∀ (number : Nat) (job next : Job) (data : Vector UInt8 recordBytes),
      jobs[number]? = some job → tryJob job row = some (next, data) → next = job)
    (way : Nat) (order : List Nat) :
    (tryJobs field line row way order jobs).1 = jobs ∧
      ((tryJobs field line row way order jobs).2 = none ↔
        ∀ number ∈ order, ∀ (job : Job) (data : Vector UInt8 recordBytes),
          jobs[number]? = some job → tryJob job row = some (job, data) →
            job.identify field line data.toList = none) := by
  induction order generalizing way with
  | nil => simp [tryJobs]
  | cons number order ih =>
      obtain ⟨hjobs, hnone⟩ := ih (way + 1)
      unfold tryJobs
      split
      next hfail =>
        refine ⟨hjobs, hnone.trans ?_⟩
        rw [List.forall_mem_cons]
        refine ⟨fun hrest => ⟨?_, hrest⟩, fun hall => hall.2⟩
        intro job data hget htry
        rw [hget, Option.bind_some, htry] at hfail
        exact absurd hfail (by simp)
      next next data hfound =>
        obtain ⟨job, hget, htry⟩ := Option.bind_eq_some_iff.mp hfound
        obtain rfl := hstable number job next data hget htry
        have hsame : jobs.set number next = jobs := by
          obtain ⟨hlt, rfl⟩ := List.getElem?_eq_some_iff.mp hget
          exact List.set_getElem_self hlt
        rw [hsame]
        dsimp only
        split
        next service hservice =>
          refine ⟨rfl, ?_⟩
          simp only [reduceCtorEq, false_iff]
          intro hall
          have hidentify := hall number List.mem_cons_self next data hget htry
          rw [hservice] at hidentify
          exact absurd hidentify (by simp)
        next hfail =>
          refine ⟨hjobs, hnone.trans ?_⟩
          rw [List.forall_mem_cons]
          refine ⟨fun hrest => ⟨?_, hrest⟩, fun hall => hall.2⟩
          intro job data' hget' htry'
          obtain rfl := Option.some.inj (hget.symm.trans hget')
          obtain ⟨_, rfl⟩ := Prod.mk.inj (Option.some.inj (htry.symm.trans htry'))
          exact hfail

theorem tryJobs_after_eq {jobs after : List Job}
    (hstable : ∀ (number : Nat) (job next : Job) (data : Vector UInt8 recordBytes),
      jobs[number]? = some job → tryJob job row = some (next, data) → next = job)
    {way : Nat} {order : List Nat} {found : Option Hit}
    (h : tryJobs field line row way order jobs = (after, found)) : after = jobs := by
  rw [← (tryJobs_of_stable hstable way order).1, h]

end TryJobs

section DecodeLines

variable {s : Sampling} {raw : ByteArray} {probe : Bool}

theorem length_decodeLines (sites : List (Field × Nat)) (patterns : List LinePattern)
    (jobs : List Job) (room : Nat) :
    (decodeLines s raw probe sites patterns jobs room).2.length = patterns.length := by
  fun_induction decodeLines s raw probe sites patterns jobs room <;> simp_all

theorem map_setup_decodeLines (sites : List (Field × Nat)) (patterns : List LinePattern)
    (jobs : List Job) (room : Nat) :
    (decodeLines s raw probe sites patterns jobs room).1.map Job.setup = jobs.map Job.setup := by
  fun_induction decodeLines s raw probe sites patterns jobs room with
  | case1 => simp_all
  | case2 field index sites pattern patterns jobs room _ after htry rest verdicts hrest ih
  | case3 field index sites pattern patterns jobs room _ after hit htry rest verdicts hrest ih =>
      have hafter := map_setup_of_tryJobs_eq htry
      rw [hrest] at ih
      exact ih.trans hafter
  | case4 => rfl

theorem length_verdicts (d : Decoder) (capacity : Nat) (raw : ByteArray) :
    (d.verdicts capacity raw).2.length = d.patterns.length :=
  length_decodeLines _ _ _ _

theorem map_setup_verdicts (d : Decoder) (capacity : Nat) (raw : ByteArray) :
    (d.verdicts capacity raw).1.map Job.setup = d.jobs.map Job.setup :=
  map_setup_decodeLines _ _ _ _

/-- Something is found on a line by a job of its pattern, if the line is tried. -/
def FoundOn (s : Sampling) (raw : ByteArray) (probe : Bool) (site : Option (Field × Nat))
    (pattern : Option LinePattern) (jobs : List Job) (hit : Hit) : Prop :=
  ∃ field index tried, site = some (field, index) ∧ pattern = some tried ∧
    tried.isTried probe = true ∧
    FoundBy jobs field (s.lineNumber field index) (s.rowOf raw field index) 0 tried.jobs hit

theorem FoundOn.of_setup {before jobs : List Job} {site : Option (Field × Nat)}
    {pattern : Option LinePattern} {hit : Hit}
    (hsetup : before.map Job.setup = jobs.map Job.setup)
    (h : FoundOn s raw probe site pattern before hit) :
    FoundOn s raw probe site pattern jobs hit := by
  obtain ⟨field, index, tried, hsite, hpattern, htried, hfound⟩ := h
  exact ⟨field, index, tried, hsite, hpattern, htried, hfound.of_setup hsetup⟩

/-- Whatever is found on a line was found by a job of the pattern of that line. -/
theorem decodeLines_found {sites : List (Field × Nat)} {patterns : List LinePattern}
    {jobs : List Job} {room position : Nat} {hit : Hit}
    (h : (decodeLines s raw probe sites patterns jobs room).2[position]? = some (.found hit)) :
    FoundOn s raw probe sites[position]? patterns[position]? jobs hit := by
  fun_induction decodeLines s raw probe sites patterns jobs room generalizing position with
  | case1 field index sites pattern patterns jobs room _ rest verdicts hrest ih =>
      cases position with
      | zero => simp at h
      | succ position => exact ih (by rw [hrest]; exact h)
  | case2 field index sites pattern patterns jobs room htried after htry rest verdicts hrest ih =>
      have hafter := map_setup_of_tryJobs_eq htry
      cases position with
      | zero => simp at h
      | succ position => exact (ih (by rw [hrest]; exact h)).of_setup hafter
  | case3 field index sites pattern patterns jobs room htried after hit' htry rest verdicts hrest
      ih =>
      have hafter := map_setup_of_tryJobs_eq htry
      cases position with
      | zero =>
          obtain rfl : hit' = hit := by simpa using h
          exact ⟨field, index, pattern, rfl, rfl, by simpa using htried, tryJobs_eq_some htry⟩
      | succ position => exact (ih (by rw [hrest]; exact h)).of_setup hafter
  | case4 =>
      rw [List.getElem?_map] at h
      obtain ⟨_, _, hskipped⟩ := Option.map_eq_some_iff.mp h
      exact absurd hskipped (by simp)

/-- Whether no job of any line that is tried finds anything. -/
def NothingFound (s : Sampling) (raw : ByteArray) (probe : Bool) (jobs : List Job)
    (lines : List ((Field × Nat) × LinePattern)) : Prop :=
  ∀ field index pattern, ((field, index), pattern) ∈ lines → pattern.isTried probe = true →
    (tryJobs field (s.lineNumber field index) (s.rowOf raw field index) 0 pattern.jobs jobs).2 =
      none

theorem nothingFound_cons {jobs : List Job} {field : Field} {index : Nat}
    {pattern : LinePattern} {lines : List ((Field × Nat) × LinePattern)} :
    NothingFound s raw probe jobs (((field, index), pattern) :: lines) ↔
      (pattern.isTried probe = true → (tryJobs field (s.lineNumber field index)
        (s.rowOf raw field index) 0 pattern.jobs jobs).2 = none) ∧
      NothingFound s raw probe jobs lines := by
  constructor
  · intro h
    exact ⟨h field index pattern List.mem_cons_self,
      fun field index pattern hmem => h field index pattern (List.mem_cons_of_mem _ hmem)⟩
  · rintro ⟨hfirst, hrest⟩ field' index' pattern' hmem
    rcases List.mem_cons.mp hmem with heq | hmem
    · obtain ⟨⟨rfl, rfl⟩, rfl⟩ := by simpa only [Prod.mk.injEq] using heq
      exact hfirst
    · exact hrest field' index' pattern' hmem

/-- Jobs that do not adapt to any line stay as they are, and nothing is found if there is no room
for it or if none of the lines that are tried holds anything. -/
theorem decodeLines_of_stable (sites : List (Field × Nat)) (patterns : List LinePattern)
    (jobs : List Job) (room : Nat)
    (hstable : ∀ site ∈ sites, ∀ (number : Nat) (job next : Job)
      (data : Vector UInt8 recordBytes), jobs[number]? = some job →
        tryJob job (s.rowOf raw site.1 site.2) = some (next, data) → next = job) :
    (decodeLines s raw probe sites patterns jobs room).1 = jobs ∧
      ((∀ hit, .found hit ∉ (decodeLines s raw probe sites patterns jobs room).2) ↔
        room = 0 ∨ NothingFound s raw probe jobs (sites.zip patterns)) := by
  fun_induction decodeLines s raw probe sites patterns jobs room with
  | case1 field index sites pattern patterns jobs room hskip rest verdicts hrest ih =>
      obtain ⟨hjobs, hnone⟩ := ih fun site hsite => hstable site (List.mem_cons_of_mem _ hsite)
      rw [hrest] at hjobs hnone
      refine ⟨hjobs, ?_⟩
      simp only [List.zip_cons_cons, nothingFound_cons]
      simpa [Bool.eq_false_iff.mp (by simpa using hskip)] using hnone
  | case2 field index sites pattern patterns jobs room htried after htry rest verdicts hrest ih =>
      obtain rfl := tryJobs_after_eq (hstable _ List.mem_cons_self) htry
      obtain ⟨hjobs, hnone⟩ := ih fun site hsite => hstable site (List.mem_cons_of_mem _ hsite)
      rw [hrest] at hjobs hnone
      refine ⟨hjobs, ?_⟩
      simp only [List.zip_cons_cons, nothingFound_cons]
      simpa [htry] using hnone
  | case3 field index sites pattern patterns jobs room htried after hit htry rest verdicts hrest
      ih =>
      obtain rfl := tryJobs_after_eq (hstable _ List.mem_cons_self) htry
      obtain ⟨hjobs, _⟩ := ih fun site hsite => hstable site (List.mem_cons_of_mem _ hsite)
      rw [hrest] at hjobs
      refine ⟨hjobs, ?_⟩
      have htried : pattern.isTried probe = true := by simpa using htried
      simp only [List.zip_cons_cons, nothingFound_cons, htry, htried]
      constructor
      · intro hall
        exact absurd List.mem_cons_self (hall hit)
      · rintro (hroom | ⟨hfirst, _⟩)
        · exact absurd hroom (Nat.succ_ne_zero room)
        · exact absurd (hfirst trivial) (by simp)
  | case4 sites room patterns jobs hdone =>
      refine ⟨rfl, ?_⟩
      have hskipped (hit : Hit) : Verdict.found hit ∉ patterns.map fun _ => .skipped := by simp
      simp only [hskipped, not_false_eq_true, implies_true, true_iff]
      rcases room with _ | room
      · exact Or.inl rfl
      · right
        rcases sites with _ | ⟨⟨field, index⟩, sites⟩
        · exact fun _ _ _ hmem => absurd hmem (by simp)
        · rcases patterns with _ | ⟨pattern, patterns⟩
          · exact fun _ _ _ hmem => absurd hmem (by simp)
          · exact (hdone field index sites pattern patterns room rfl rfl rfl).elim

end DecodeLines

end Decoder

end Blanking
