import Blanking.Proofs.Decoder.Probing

/-! # What decoding learns

The lines of a field pair are decoded one after the other. Each is judged by what the lines in
front of it left behind: the room for records and the thresholds of the slicers. What a line learns
is about that line only, and a slicer learns from the lines that it matches only. -/

namespace Blanking.Decoder

/-! ## One line after the other -/

section Lines

variable {s : Sampling} {raw : ByteArray} {probe : Bool}

theorem decodeLines_zero (sites : List (Field × Nat)) (patterns : List LinePattern)
    (jobs : List Job) :
    decodeLines s raw probe sites patterns jobs 0 = (jobs, patterns.map fun _ => .skipped) := by
  rw [decodeLines]
  rintro _ _ _ _ _ _ _ _ ⟨⟩

/-- Some lines are decoded with the jobs and the room that the lines in front of them leave. -/
theorem decodeLines_append {sites : List (Field × Nat)} {patterns : List LinePattern}
    (hlength : sites.length = patterns.length) (sites' : List (Field × Nat))
    (patterns' : List LinePattern) (jobs : List Job) (room : Nat) :
    decodeLines s raw probe (sites ++ sites') (patterns ++ patterns') jobs room =
      let front := decodeLines s raw probe sites patterns jobs room
      let rest := decodeLines s raw probe sites' patterns' front.1
        (room - (recordsOn s sites front.2).length)
      (rest.1, front.2 ++ rest.2) := by
  fun_induction decodeLines s raw probe sites patterns jobs room with
  | case1 field index sites pattern patterns jobs room hskip after verdicts hrest ih =>
      rw [hrest] at ih
      rw [List.cons_append, List.cons_append, decodeLines, if_pos hskip,
        ih (Nat.succ.inj hlength)]
      simp [recordsOn_cons, Verdict.record?]
  | case2 field index sites pattern patterns jobs room htried now htry after verdicts hrest ih
  | case3 field index sites pattern patterns jobs room htried now hit htry after verdicts hrest
      ih =>
      rw [hrest] at ih
      rw [List.cons_append, List.cons_append, decodeLines, if_neg htried, htry]
      dsimp only
      rw [ih (Nat.succ.inj hlength)]
      simp [recordsOn_cons, Verdict.record?]
  | case4 sites room patterns jobs hdone =>
      dsimp only
      rw [recordsOn_skipped, List.length_nil, Nat.sub_zero]
      rcases room with _ | room
      · rw [decodeLines_zero, decodeLines_zero, List.map_append]
      · rcases sites with _ | ⟨⟨field, index⟩, sites⟩
        · obtain rfl := List.eq_nil_of_length_eq_zero hlength.symm
          rfl
        · rcases patterns with _ | ⟨pattern, patterns⟩
          · cases hlength
          · exact (hdone field index sites pattern patterns room rfl rfl rfl).elim

theorem decodeLines_singleton_of_skipped {field : Field} {index : Nat} {pattern : LinePattern}
    {jobs : List Job} {room : Nat} (h : pattern.isTried probe = false ∨ room = 0) :
    decodeLines s raw probe [(field, index)] [pattern] jobs room = (jobs, [.skipped]) := by
  cases room with
  | zero => rfl
  | succ room =>
      have hskip : pattern.isTried probe = false := h.resolve_right (Nat.succ_ne_zero room)
      simp [decodeLines, hskip]

theorem decodeLines_singleton_of_tried {field : Field} {index : Nat} {pattern : LinePattern}
    {jobs : List Job} {room : Nat} (htried : pattern.isTried probe = true) (hroom : 0 < room) :
    decodeLines s raw probe [(field, index)] [pattern] jobs room =
      let tried := tryJobs field (s.lineNumber field index) (s.rowOf raw field index) 0
        pattern.jobs jobs
      (tried.1, [.ofHit? tried.2]) := by
  obtain ⟨room, rfl⟩ := Nat.exists_eq_add_one.mpr hroom
  simp only [decodeLines, htried]
  generalize tryJobs field (s.lineNumber field index) (s.rowOf raw field index) 0 pattern.jobs
    jobs = tried
  obtain ⟨after, found⟩ := tried
  cases found <;> rfl

/-- A record needs the site of its line only. -/
theorem recordsOn_take (sites : List (Field × Nat)) (verdicts : List Verdict) (count : Nat) :
    recordsOn s (sites.take count) (verdicts.take count) =
      recordsOn s sites (verdicts.take count) := by
  induction count generalizing sites verdicts with
  | zero => simp [recordsOn]
  | succ count ih =>
      cases sites with
      | nil => rfl
      | cons site sites =>
          cases verdicts with
          | nil => rfl
          | cons verdict verdicts =>
              rw [List.take_succ_cons, List.take_succ_cons, recordsOn_cons, recordsOn_cons, ih]

end Lines

/-! ## The lines in front of a position -/

section Before

variable {d : Decoder} {capacity : Nat} {raw : ByteArray} {position : Nat}

/-- The jobs and verdicts that the lines in front of a position lead to. -/
def before (d : Decoder) (capacity : Nat) (raw : ByteArray) (position : Nat) :
    List Job × List Verdict :=
  decodeLines d.sampling raw (d.sinceProbe == 0) (d.sampling.sites.take position)
    (d.patterns.take position) d.jobs capacity

/-- Records of the lines in front of a position. -/
def written (d : Decoder) (capacity : Nat) (raw : ByteArray) (position : Nat) : Nat :=
  (recordsOn d.sampling d.sampling.sites ((d.verdicts capacity raw).2.take position)).length

theorem length_take_sites (h : d.Consistent) (hposition : position ≤ d.patterns.length) :
    (d.sampling.sites.take position).length = (d.patterns.take position).length := by
  have hsites := hposition.trans h.length_patterns_le_sites
  rw [List.length_take, List.length_take, Nat.min_eq_left hsites, Nat.min_eq_left hposition]

theorem length_before (hposition : position ≤ d.patterns.length) :
    (d.before capacity raw position).2.length = position := by
  rw [before, length_decodeLines, List.length_take, Nat.min_eq_left hposition]

/-- What becomes of a line depends on the lines in front of it only. -/
theorem before_snd (h : d.Consistent) (hposition : position ≤ d.patterns.length) :
    (d.before capacity raw position).2 = (d.verdicts capacity raw).2.take position := by
  have happend := @decodeLines_append d.sampling raw (d.sinceProbe == 0) _ _
    (length_take_sites h hposition) (d.sampling.sites.drop position) (d.patterns.drop position)
    d.jobs capacity
  rw [List.take_append_drop, List.take_append_drop] at happend
  rw [verdicts, happend]
  exact (List.take_left' (length_before hposition)).symm

theorem before_length (h : d.Consistent) :
    (d.before capacity raw d.patterns.length).1 = (d.verdicts capacity raw).1 := by
  have happend := @decodeLines_append d.sampling raw (d.sinceProbe == 0) _ _
    (length_take_sites h (Nat.le_refl _)) (d.sampling.sites.drop d.patterns.length) []
    d.jobs capacity
  rw [List.take_append_drop, List.append_nil, List.take_length] at happend
  rw [verdicts, happend, before, List.take_length]
  cases d.sampling.sites.drop d.patterns.length <;> rfl

theorem written_eq (h : d.Consistent) (hposition : position ≤ d.patterns.length) :
    d.written capacity raw position = (recordsOn d.sampling (d.sampling.sites.take position)
      (d.before capacity raw position).2).length := by
  rw [written, before_snd h hposition, recordsOn_take]

theorem written_le (h : d.Consistent) (hposition : position ≤ d.patterns.length) :
    d.written capacity raw position ≤ capacity := by
  rw [written_eq h hposition]
  exact (length_recordsOn_le _ _ _ _).1

/-- Whether a line is passed over: there is no job on it, or it is blank and not probed, or there
is no room for a record any more. -/
def Skips (d : Decoder) (capacity : Nat) (raw : ByteArray) (position : Nat)
    (pattern : LinePattern) : Prop :=
  pattern.jobs = [] ∨ (blankLimit ≤ pattern.misses ∧ d.sinceProbe ≠ 0) ∨
    d.written capacity raw position = capacity

variable {field : Field} {index : Nat} {pattern : LinePattern}

theorem skips_iff (h : d.Consistent) (hpattern : d.patterns[position]? = some pattern) :
    d.Skips capacity raw position pattern ↔
      pattern.isTried (d.sinceProbe == 0) = false ∨
        capacity - d.written capacity raw position = 0 := by
  have hlt := (List.getElem?_eq_some_iff.mp hpattern).1
  have hle : d.written capacity raw position ≤ capacity := written_le h hlt.le
  rw [← Bool.not_eq_true, isTried_iff h hpattern, Skips]
  constructor
  · rintro (hnone | ⟨hblank, hprobe⟩ | hfull)
    · exact Or.inl fun htried => htried.1 hnone
    · exact Or.inl fun htried => htried.2.elim hprobe (Nat.not_lt.mpr hblank)
    · exact Or.inr (by omega)
  · rintro (hskip | hfull)
    · by_cases hnone : pattern.jobs = []
      · exact Or.inl hnone
      · have hblank := not_or.mp fun hreason => hskip ⟨hnone, hreason⟩
        exact Or.inr (Or.inl ⟨Nat.not_lt.mp hblank.2, hblank.1⟩)
    · exact Or.inr (Or.inr (by omega))

/-- A line gets the jobs and the room that the lines in front of it leave. -/
theorem before_succ (h : d.Consistent)
    (hsite : d.sampling.sites[position]? = some (field, index))
    (hpattern : d.patterns[position]? = some pattern) :
    d.before capacity raw (position + 1) =
      let line := decodeLines d.sampling raw (d.sinceProbe == 0) [(field, index)] [pattern]
        (d.before capacity raw position).1 (capacity - d.written capacity raw position)
      (line.1, (d.before capacity raw position).2 ++ line.2) := by
  have hlt := (List.getElem?_eq_some_iff.mp hpattern).1
  rw [before, List.take_add_one, List.take_add_one, hsite, hpattern, written_eq h hlt.le]
  exact decodeLines_append (length_take_sites h hlt.le) _ _ _ _

/-- A line that is passed over changes nothing. -/
theorem before_succ_of_skips (h : d.Consistent)
    (hsite : d.sampling.sites[position]? = some (field, index))
    (hpattern : d.patterns[position]? = some pattern)
    (hskips : d.Skips capacity raw position pattern) :
    d.before capacity raw (position + 1) =
      ((d.before capacity raw position).1, (d.before capacity raw position).2 ++ [.skipped]) := by
  rw [before_succ h hsite hpattern,
    decodeLines_singleton_of_skipped ((skips_iff h hpattern).mp hskips)]

/-- On any other line jobs are tried until one of them finds something. -/
theorem before_succ_of_not_skips (h : d.Consistent)
    (hsite : d.sampling.sites[position]? = some (field, index))
    (hpattern : d.patterns[position]? = some pattern)
    (hskips : ¬d.Skips capacity raw position pattern) :
    d.before capacity raw (position + 1) =
      let tried := tryJobs field (d.sampling.lineNumber field index)
        (d.sampling.rowOf raw field index) 0 pattern.jobs (d.before capacity raw position).1
      (tried.1, (d.before capacity raw position).2 ++ [.ofHit? tried.2]) := by
  rw [skips_iff h hpattern, not_or, Bool.not_eq_false] at hskips
  rw [before_succ h hsite hpattern,
    decodeLines_singleton_of_tried hskips.1 (Nat.pos_of_ne_zero hskips.2)]

theorem verdict_of_before_succ (h : d.Consistent) {jobs : List Job} {verdict : Verdict}
    (hposition : position < d.patterns.length)
    (hnext : d.before capacity raw (position + 1) =
      (jobs, (d.before capacity raw position).2 ++ [verdict])) :
    (d.verdicts capacity raw).2[position]? = some verdict := by
  have hlast : ((d.verdicts capacity raw).2.take (position + 1))[position]? = some verdict := by
    rw [← before_snd h hposition, hnext,
      List.getElem?_append_right (length_before hposition.le).le, length_before hposition.le,
      Nat.sub_self]
    rfl
  rwa [List.getElem?_take_of_lt (Nat.lt_succ_self position)] at hlast

end Before

/-! ## The jobs of one line -/

section Order

variable {field : Field} {line : Nat} {row : ByteArray} {way : Nat} {order : List Nat}
  {jobs : List Job}

/-- A job as it is when its turn comes on a line. None of those in front of it in the order has
found anything there. -/
structure TriedIn (field : Field) (line : Nat) (row : ByteArray) (way : Nat) (order : List Nat)
    (jobs : List Job) (place number : Nat) (job : Job) : Prop where
  turn : order[place]? = some number
  failed : (tryJobs field line row way (order.take place) jobs).2 = none
  current : (tryJobs field line row way (order.take place) jobs).1[number]? = some job

theorem tryJobs_cons_of_failed {number : Nat} {after : List Job}
    (h : tryJobs field line row way [number] jobs = (after, none)) (order : List Nat) :
    tryJobs field line row way (number :: order) jobs =
      tryJobs field line row (way + 1) order after := by
  rw [tryJobs] at h ⊢
  split at h
  next =>
    obtain ⟨rfl, _⟩ := Prod.mk.inj h
    rfl
  next =>
    dsimp only at h ⊢
    split at h
    next => cases h
    next =>
      obtain ⟨rfl, _⟩ := Prod.mk.inj h
      rfl

theorem TriedIn.cons {first place number : Nat} {after : List Job} {job : Job}
    (hfailed : tryJobs field line row way [first] jobs = (after, none))
    (h : TriedIn field line row (way + 1) order after place number job) :
    TriedIn field line row way (first :: order) jobs (place + 1) number job := by
  have hfront := tryJobs_cons_of_failed hfailed (order.take place)
  refine ⟨h.turn, ?_, ?_⟩
  · rw [List.take_succ_cons, hfront, h.failed]
  · rw [List.take_succ_cons, hfront, h.current]

/-- The first job of an order settles a line, or it leaves it to the others. -/
theorem tryJobs_cons_cases (field : Field) (line : Nat) (row : ByteArray) (way first : Nat)
    (order : List Nat) (jobs : List Job) :
    tryJobs field line row way [first] jobs = (jobs, none) ∨
      ∃ job next data, jobs[first]? = some job ∧ tryJob job row = some (next, data) ∧
        (tryJobs field line row way [first] jobs = (jobs.set first next, none) ∨
          ∃ service, next.identify field line data.toList = some service ∧
            tryJobs field line row way (first :: order) jobs =
              (jobs.set first next, some ⟨way, service, data⟩)) := by
  cases hfirst : jobs[first]?.bind (tryJob · row) with
  | none => exact Or.inl (by simp [tryJobs, hfirst])
  | some found =>
      obtain ⟨next, data⟩ := found
      obtain ⟨job, hget, htry⟩ := Option.bind_eq_some_iff.mp hfirst
      refine Or.inr ⟨job, next, data, hget, htry, ?_⟩
      cases hservice : next.identify field line data.toList with
      | none => exact Or.inl (by simp [tryJobs, hfirst, hservice])
      | some service => exact Or.inr ⟨service, rfl, by simp [tryJobs, hfirst, hservice]⟩

/-- What is found on a line was found by the job whose turn it was. -/
theorem tryJobs_found {hit : Hit} (h : (tryJobs field line row way order jobs).2 = some hit) :
    ∃ place number job next, hit.way = way + place ∧
      TriedIn field line row way order jobs place number job ∧
      tryJob job row = some (next, hit.data) ∧
      next.identify field line hit.data.toList = some hit.service := by
  induction order generalizing way jobs with
  | nil => cases h
  | cons first order ih =>
      have hlater {after : List Job}
          (hfailed : tryJobs field line row way [first] jobs = (after, none)) :
          ∃ place number job next, hit.way = way + place ∧
            TriedIn field line row way (first :: order) jobs place number job ∧
            tryJob job row = some (next, hit.data) ∧
            next.identify field line hit.data.toList = some hit.service := by
        rw [tryJobs_cons_of_failed hfailed] at h
        obtain ⟨place, number, job, next, hway, htried, hfound⟩ := ih h
        exact ⟨place + 1, number, job, next, by omega, htried.cons hfailed, hfound⟩
      rcases tryJobs_cons_cases field line row way first order jobs with
        hfailed | ⟨job, next, data, hget, htry, hfailed | ⟨service, hservice, hfound⟩⟩
      · exact hlater hfailed
      · exact hlater hfailed
      · rw [hfound] at h
        obtain rfl := Option.some.inj h
        exact ⟨0, first, job, next, rfl, ⟨rfl, rfl, hget⟩, htry, hservice⟩

/-- A job changes on a line only if it matches there when its turn comes. -/
theorem tryJobs_changed {number : Nat}
    (h : (tryJobs field line row way order jobs).1[number]? ≠ jobs[number]?) :
    ∃ place job, TriedIn field line row way order jobs place number job ∧
      (tryJob job row).isSome = true := by
  induction order generalizing way jobs with
  | nil => exact absurd rfl h
  | cons first order ih =>
      have hlater {after : List Job} (hsame : after[number]? = jobs[number]?)
          (hfailed : tryJobs field line row way [first] jobs = (after, none)) :
          ∃ place job, TriedIn field line row way (first :: order) jobs place number job ∧
            (tryJob job row).isSome = true := by
        rw [tryJobs_cons_of_failed hfailed, ← hsame] at h
        obtain ⟨place, job, htried, hmatch⟩ := ih h
        exact ⟨place + 1, job, htried.cons hfailed, hmatch⟩
      rcases tryJobs_cons_cases field line row way first order jobs with
        hfailed | ⟨job, next, data, hget, htry, hrest⟩
      · exact hlater rfl hfailed
      · by_cases hnumber : first = number
        · obtain rfl := hnumber
          exact ⟨0, job, ⟨rfl, rfl, hget⟩, by rw [htry]; rfl⟩
        · have hsame : (jobs.set first next)[number]? = jobs[number]? :=
            List.getElem?_set_ne hnumber
          rcases hrest with hfailed | ⟨_, _, hfound⟩
          · exact hlater hsame hfailed
          · rw [hfound] at h
            exact absurd hsame h

end Order

/-! ## What a field pair teaches -/

section Learning

variable {d next : Decoder} {capacity : Nat} {raw : ByteArray} {position : Nat}

/-- The turn of a job comes on the line at a position. -/
def Attempts (d : Decoder) (capacity : Nat) (raw : ByteArray) (position : Nat) (field : Field)
    (index number : Nat) (job : Job) : Prop :=
  d.sampling.sites[position]? = some (field, index) ∧
    ∃ pattern place, d.patterns[position]? = some pattern ∧
      ¬d.Skips capacity raw position pattern ∧
      TriedIn field (d.sampling.lineNumber field index) (d.sampling.rowOf raw field index) 0
        pattern.jobs (d.before capacity raw position).1 place number job

/-- The slicer of a job matches the line at a position, whatever becomes of the payload. -/
def Matches (d : Decoder) (capacity : Nat) (raw : ByteArray) (position number : Nat) : Prop :=
  ∃ field index job, d.Attempts capacity raw position field index number job ∧
    (tryJob job (d.sampling.rowOf raw field index)).isSome = true

/-- A record comes from what a job finds on the line at a position. -/
def Writes (d : Decoder) (capacity : Nat) (raw : ByteArray) (position : Nat) (field : Field)
    (index number : Nat) (record : Record) : Prop :=
  ∃ job next data service, d.Attempts capacity raw position field index number job ∧
    tryJob job (d.sampling.rowOf raw field index) = some (next, data) ∧
    next.identify field (d.sampling.lineNumber field index) data.toList = some service ∧
    record = ⟨.singleton service, d.sampling.lineNumber field index, data⟩

/-- A job that is not as it was has matched one of the lines in front. -/
theorem exists_matches (h : d.Consistent) (hposition : position ≤ d.patterns.length)
    {number : Nat} (hchanged : (d.before capacity raw position).1[number]? ≠ d.jobs[number]?) :
    ∃ earlier < position, d.Matches capacity raw earlier number := by
  induction position with
  | zero => exact absurd rfl hchanged
  | succ position ih =>
      -- Either this line has changed the job, or it was no longer as it was in front of it.
      by_cases hbefore : (d.before capacity raw position).1[number]? = d.jobs[number]?
      · have hsites := hposition.trans h.length_patterns_le_sites
        have hpattern := List.getElem?_eq_getElem hposition
        obtain ⟨⟨field, index⟩, hsite⟩ : ∃ site, d.sampling.sites[position]? = some site :=
          ⟨_, List.getElem?_eq_getElem hsites⟩
        by_cases hskips : d.Skips capacity raw position d.patterns[position]
        · rw [before_succ_of_skips h hsite hpattern hskips] at hchanged
          exact absurd hbefore hchanged
        · rw [before_succ_of_not_skips h hsite hpattern hskips, ← hbefore] at hchanged
          obtain ⟨place, job, htried, hmatch⟩ := tryJobs_changed hchanged
          exact ⟨position, Nat.lt_succ_self position, field, index, job,
            ⟨hsite, _, place, hpattern, hskips, htried⟩, hmatch⟩
      · obtain ⟨earlier, hless, hmatches⟩ := ih (Nat.le_of_succ_le hposition) hbefore
        exact ⟨earlier, Nat.lt_succ_of_lt hless, hmatches⟩

variable {field : Field} {index : Nat} {pattern after : LinePattern}

theorem mem_reports_iff (hsite : d.sampling.sites[position]? = some (field, index))
    {record : Record} :
    ((field, index), record) ∈ reports d.sampling (d.verdicts capacity raw).2 ↔
      ∃ hit, (d.verdicts capacity raw).2[position]? = some (.found hit) ∧
        record = ⟨.singleton hit.service, d.sampling.lineNumber field index, hit.data⟩ := by
  constructor
  · intro h
    obtain ⟨position', hit, hsite', hverdict, hrecord⟩ := mem_reports h
    -- A field has a line only once, so the site tells the position.
    obtain rfl : position' = position := by
      rw [(Sampling.getElem?_sites.mp hsite).2, (Sampling.getElem?_sites.mp hsite').2]
    exact ⟨hit, hverdict, hrecord⟩
  · rintro ⟨hit, hverdict, rfl⟩
    have hline : ((field, index), .found hit) ∈
        d.sampling.sites.zip (d.verdicts capacity raw).2 :=
      List.mem_of_getElem? (List.getElem?_zip_eq_some.mpr ⟨hsite, hverdict⟩)
    exact List.mem_filterMap.mpr ⟨_, hline, rfl⟩

/-- What a field pair teaches the line at a position: nothing if it is passed over, to try the
job of its record first if it has one, and else that it has failed once more. -/
structure Learns (d : Decoder) (capacity : Nat) (raw : ByteArray) (position : Nat) (field : Field)
    (index : Nat) (pattern after : LinePattern) : Prop where
  perm : after.jobs.Perm pattern.jobs
  skipped : d.Skips capacity raw position pattern → after = pattern ∧
    ∀ record, ((field, index), record) ∉ reports d.sampling (d.verdicts capacity raw).2
  found : ∀ record, ((field, index), record) ∈ reports d.sampling (d.verdicts capacity raw).2 →
    ∃ number, d.Writes capacity raw position field index number record ∧
      after.jobs = number :: pattern.jobs.erase number ∧ after.misses = 0
  missed : ¬d.Skips capacity raw position pattern →
    (∀ record, ((field, index), record) ∉ reports d.sampling (d.verdicts capacity raw).2) →
    after.jobs = pattern.jobs ∧ after.misses = min (pattern.misses + 1) blankLimit

theorem Learns.of_skips (h : d.Consistent)
    (hsite : d.sampling.sites[position]? = some (field, index))
    (hpattern : d.patterns[position]? = some pattern)
    (hskips : d.Skips capacity raw position pattern) :
    (d.verdicts capacity raw).2[position]? = some .skipped ∧
      d.Learns capacity raw position field index pattern pattern := by
  have hlt := (List.getElem?_eq_some_iff.mp hpattern).1
  have hverdict := verdict_of_before_succ h hlt (before_succ_of_skips h hsite hpattern hskips)
  have hnone (record : Record) :
      ((field, index), record) ∉ reports d.sampling (d.verdicts capacity raw).2 := by
    rw [mem_reports_iff hsite, hverdict]
    simp
  exact ⟨hverdict, .refl _, fun _ => ⟨rfl, hnone⟩,
    fun record hrecord => absurd hrecord (hnone record), fun hnot => absurd hskips hnot⟩

theorem Learns.of_missed (h : d.Consistent)
    (hsite : d.sampling.sites[position]? = some (field, index))
    (hpattern : d.patterns[position]? = some pattern)
    (hskips : ¬d.Skips capacity raw position pattern)
    (hverdict : (d.verdicts capacity raw).2[position]? = some .missed) :
    d.Learns capacity raw position field index pattern pattern.miss := by
  have hwellFormed := (h.registered position pattern hpattern).wellFormed
  have hnone (record : Record) :
      ((field, index), record) ∉ reports d.sampling (d.verdicts capacity raw).2 := by
    rw [mem_reports_iff hsite, hverdict]
    simp
  refine ⟨hwellFormed.jobs_miss ▸ .refl _, fun hskip => absurd hskip hskips,
    fun record hrecord => absurd hrecord (hnone record), fun _ _ => ?_⟩
  exact ⟨hwellFormed.jobs_miss, LinePattern.misses_miss pattern⟩

theorem Learns.of_found (h : d.Consistent)
    (hsite : d.sampling.sites[position]? = some (field, index))
    (hpattern : d.patterns[position]? = some pattern)
    (hskips : ¬d.Skips capacity raw position pattern) {hit : Hit}
    (hverdict : (d.verdicts capacity raw).2[position]? = some (.found hit))
    (htried : (tryJobs field (d.sampling.lineNumber field index)
      (d.sampling.rowOf raw field index) 0 pattern.jobs (d.before capacity raw position).1).2 =
        some hit) :
    d.Learns capacity raw position field index pattern (pattern.promote hit.way) := by
  have hwellFormed := (h.registered position pattern hpattern).wellFormed
  obtain ⟨place, number, job, next, hway, hturn, hfound, hservice⟩ := tryJobs_found htried
  obtain ⟨hlt, hnumber⟩ := List.getElem?_eq_some_iff.mp hturn.turn
  obtain rfl : hit.way = place := by omega
  have hjobs : (pattern.promote hit.way).jobs = number :: pattern.jobs.erase number := by
    rw [hwellFormed.jobs_promote hlt, ← hnumber, hwellFormed.nodup.erase_getElem]
  have hreport : ((field, index), ⟨.singleton hit.service, d.sampling.lineNumber field index,
      hit.data⟩) ∈ reports d.sampling (d.verdicts capacity raw).2 :=
    (mem_reports_iff hsite).mpr ⟨hit, hverdict, rfl⟩
  refine ⟨hwellFormed.promote_perm hlt, fun hskip => absurd hskip hskips, ?_,
    fun _ hnone => absurd hreport (hnone _)⟩
  intro record hrecord
  obtain ⟨hit', hverdict', rfl⟩ := (mem_reports_iff hsite).mp hrecord
  obtain rfl : hit = hit' := Verdict.found.inj (Option.some.inj (hverdict.symm.trans hverdict'))
  exact ⟨number, ⟨job, next, hit.data, hit.service,
    ⟨hsite, pattern, hit.way, hpattern, hskips, hturn⟩, hfound, hservice, rfl⟩, hjobs,
    LinePattern.misses_promote _ _⟩

theorem learns_of_decode (h : d.Consistent)
    (hsite : d.sampling.sites[position]? = some (field, index))
    (hpattern : d.patterns[position]? = some pattern)
    (hafter : (List.zipWith Verdict.learn (d.verdicts capacity raw).2 d.patterns)[position]? =
      some after) :
    d.Learns capacity raw position field index pattern after := by
  obtain ⟨verdict, pattern', hverdict, hpattern', rfl⟩ := List.getElem?_zipWith_eq_some.mp hafter
  obtain rfl : pattern = pattern' := Option.some.inj (hpattern.symm.trans hpattern')
  -- The verdict on a line comes from what its jobs find behind the lines in front of it.
  by_cases hskips : d.Skips capacity raw position pattern
  · obtain ⟨hskipped, hlearns⟩ := Learns.of_skips h hsite hpattern hskips
    obtain rfl : Verdict.skipped = verdict := Option.some.inj (hskipped.symm.trans hverdict)
    exact hlearns
  · have hlt := (List.getElem?_eq_some_iff.mp hpattern).1
    have hjudged := verdict_of_before_succ h hlt
      (before_succ_of_not_skips h hsite hpattern hskips)
    obtain rfl := Option.some.inj (hjudged.symm.trans hverdict)
    cases htried : (tryJobs field (d.sampling.lineNumber field index)
        (d.sampling.rowOf raw field index) 0 pattern.jobs (d.before capacity raw position).1).2 with
    | none =>
        rw [htried] at hjudged
        exact .of_missed h hsite hpattern hskips hjudged
    | some hit =>
        rw [htried] at hjudged
        exact .of_found h hsite hpattern hskips hjudged htried

/-- What decoding a field pair changes. Services, sampling, and for each job its services and the
configuration of its slicer stay as they are, the counter of field pairs goes on by one, and each
line learns what it was taught. The threshold of a slicer changes only if the slicer matches some
line. -/
theorem Reachable.decode_learns {records : List Record} (h : d.Reachable)
    (hdecode : d.decode capacity raw = .ok (next, records)) :
    records = (reports d.sampling (d.verdicts capacity raw).2).map (·.2) ∧
      next.sampling = d.sampling ∧ next.services = d.services ∧
      next.jobs.map (fun job => (job.services, job.slicer.config)) =
        d.jobs.map (fun job => (job.services, job.slicer.config)) ∧
      next.sinceProbe = (d.sinceProbe + 1) % 16 ∧
      next.patterns.length = d.patterns.length ∧
      (∀ position pattern after, d.patterns[position]? = some pattern →
        next.patterns[position]? = some after →
          ∃ field index, d.sampling.sites[position]? = some (field, index) ∧
            d.Learns capacity raw position field index pattern after) ∧
      ∀ number job after, d.jobs[number]? = some job → next.jobs[number]? = some after →
        after.slicer.threshold ≠ job.slicer.threshold →
          ∃ position, d.Matches capacity raw position number := by
  have hconsistent := h.consistent
  obtain ⟨_, rfl, hrecords⟩ := decode_eq_ok hdecode
  refine ⟨hrecords, rfl, rfl, d.map_setup_verdicts capacity raw, rfl, ?_, ?_, ?_⟩
  · rw [List.length_zipWith, length_verdicts, Nat.min_self]
  · intro position pattern after hpattern hafter
    have hlt := (List.getElem?_eq_some_iff.mp hpattern).1
    obtain ⟨⟨field, index⟩, hsite⟩ : ∃ site, d.sampling.sites[position]? = some site :=
      ⟨_, List.getElem?_eq_getElem (hlt.trans_le hconsistent.length_patterns_le_sites)⟩
    exact ⟨field, index, hsite, learns_of_decode hconsistent hsite hpattern hafter⟩
  · intro number job after hjob hafter hmoved
    have hchanged : (d.before capacity raw d.patterns.length).1[number]? ≠ d.jobs[number]? := by
      rw [before_length hconsistent, hjob, hafter]
      rintro hsame
      obtain rfl := Option.some.inj hsame
      exact hmoved rfl
    obtain ⟨position, _, hmatches⟩ := exists_matches hconsistent (Nat.le_refl _) hchanged
    exact ⟨position, hmatches⟩

end Learning

/-- The line of the caption learns to try the job of the caption first, which is the only one. -/
theorem decode_learns_captionFrame :
    captionDecoder.Reachable ∧ ∃ next records pattern after,
      captionDecoder.decode 1 captionFrame = .ok (next, records) ∧ next.sinceProbe = 1 ∧
        captionDecoder.patterns[0]? = some pattern ∧ next.patterns[0]? = some after ∧
        pattern.jobs = [0] ∧ after.jobs = [0] ∧ after.misses = 0 := by
  have hnew : Decoder.new captionSampling = .ok (ofSampling captionSampling) := rfl
  have hreachable : captionDecoder.Reachable := (Reachable.new hnew).run _
  have hok : (captionDecoder.decode 1 captionFrame).toOption.isSome = true := by decide +kernel
  have hjobs : captionDecoder.patterns.map (·.jobs) = [[0]] := by decide +kernel
  have hsite : captionDecoder.sampling.sites[0]? = some (.first, 0) := by decide +kernel
  have hreports : (reports captionDecoder.sampling
      (captionDecoder.verdicts 1 captionFrame).2).map (·.1) = [(.first, 0)] := by decide +kernel
  have hprobed : captionDecoder.sinceProbe = 0 := by decide +kernel
  cases hdecode : captionDecoder.decode 1 captionFrame with
  | error cause => simp [hdecode, Except.toOption] at hok
  | ok result =>
      obtain ⟨next, records⟩ := result
      obtain ⟨_, _, _, _, hcounter, hlength, hlines, _⟩ := hreachable.decode_learns hdecode
      obtain ⟨pattern, hpattern, hone⟩ : ∃ pattern, captionDecoder.patterns[0]? = some pattern ∧
          pattern.jobs = [0] := by
        have hget : (captionDecoder.patterns.map (·.jobs))[0]? = some [0] := by rw [hjobs]; rfl
        rwa [List.getElem?_map, Option.map_eq_some_iff] at hget
      obtain ⟨after, hafter⟩ : ∃ after, next.patterns[0]? = some after :=
        ⟨_, List.getElem?_eq_getElem (hlength ▸ (List.getElem?_eq_some_iff.mp hpattern).1)⟩
      obtain ⟨field, index, hsite', hlearns⟩ := hlines 0 pattern after hpattern hafter
      obtain ⟨rfl, rfl⟩ := Prod.mk.inj (Option.some.inj (hsite'.symm.trans hsite))
      obtain ⟨⟨_, record⟩, hrecord, rfl⟩ : ∃ report ∈ reports captionDecoder.sampling
          (captionDecoder.verdicts 1 captionFrame).2, report.1 = (.first, 0) :=
        List.mem_map.mp (hreports ▸ List.mem_singleton_self _)
      obtain ⟨_, _, _, hmisses⟩ := hlearns.found record hrecord
      have hperm := hlearns.perm
      rw [hone] at hperm
      rw [hprobed] at hcounter
      exact ⟨hreachable, next, records, pattern, after, rfl, hcounter, hpattern, hafter, hone,
        List.perm_singleton.mp hperm, hmisses⟩

end Blanking.Decoder
