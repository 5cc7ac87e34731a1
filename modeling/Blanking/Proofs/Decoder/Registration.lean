import Blanking.Proofs.Decoder.Checked
import Blanking.Proofs.Decoder.Lines
import Blanking.Proofs.Decoder.Pattern
import Blanking.Proofs.Decoder.Reachable
import Blanking.Proofs.Service.Set

/-! # Which jobs are on which lines

A job is on a line exactly if one of its services may be sent there. Each operation is shown to
keep that, whatever it does to the services of the jobs and to their numbers. -/

namespace Blanking.Decoder

/-- Whether the job of a number finds a service. -/
def Serves (jobs : List Job) (number : Nat) (service : Service) : Prop :=
  ∃ job, jobs[number]? = some job ∧ job.services.contains service = true

/-- What holds of the pattern of each line: it is well-formed, and its jobs are those that serve
a service for which the line is a candidate. -/
structure Registered (s : Sampling) (serves : Nat → Service → Prop) (position : Nat)
    (pattern : LinePattern) : Prop where
  wellFormed : pattern.WellFormed
  mem_jobs_iff : ∀ number, number ∈ pattern.jobs ↔
    ∃ service, serves number service ∧ position ∈ s.candidates service.transmission

/-- Whether all patterns are right for the services that are served. -/
def AllRegistered (s : Sampling) (serves : Nat → Service → Prop)
    (patterns : List LinePattern) : Prop :=
  ∀ position pattern, patterns[position]? = some pattern → Registered s serves position pattern

/-- What holds of the lines of a decoder at any time. -/
structure Consistent (d : Decoder) : Prop where
  length_eq : (d.patterns = [] ∧ d.jobs = []) ∨ d.patterns.length = d.sampling.totalLines
  registered : AllRegistered d.sampling (Serves d.jobs) d.patterns

/-- The patterns once a job is registered for several services. -/
def registerAll (s : Sampling) (number : Nat) (services : List Service)
    (patterns : List LinePattern) : List LinePattern :=
  services.foldl (fun patterns service =>
    register patterns (s.candidates service.transmission) number) patterns

/-- The patterns once a job is taken off its lines and registered for the services that it keeps. -/
def registerAnew (s : Sampling) (number : Nat) (services : ServiceSet)
    (patterns : List LinePattern) : List LinePattern :=
  registerAll s number services.toList (patterns.map (·.remove number))

section Registration

variable {s : Sampling} {serves serves' : Nat → Service → Prop} {patterns : List LinePattern}

theorem Registered.congr {position : Nat} {pattern : LinePattern}
    (h : Registered s serves position pattern)
    (hserves : ∀ number service, serves' number service ↔ serves number service) :
    Registered s serves' position pattern :=
  ⟨h.wellFormed, fun number => by simp only [h.mem_jobs_iff, hserves]⟩

theorem AllRegistered.congr (h : AllRegistered s serves patterns)
    (hserves : ∀ number service, serves' number service ↔ serves number service) :
    AllRegistered s serves' patterns :=
  fun position pattern hget => (h position pattern hget).congr hserves

/-- Patterns that are changed one by one are right if each of them is. -/
theorem AllRegistered.map {change : LinePattern → LinePattern}
    (h : AllRegistered s serves patterns)
    (hchange : ∀ position pattern, Registered s serves position pattern →
      Registered s serves' position (change pattern)) :
    AllRegistered s serves' (patterns.map change) := by
  intro position pattern hget
  obtain ⟨before, hbefore, rfl⟩ := Option.map_eq_some_iff.mp (List.getElem?_map ▸ hget)
  exact hchange position before (h position before hbefore)

/-! ## Registration of one service after the other -/

theorem length_register (patterns : List LinePattern) (positions : List Nat) (number : Nat) :
    (register patterns positions number).length = patterns.length := by
  simp [register]

theorem getElem?_register {positions : List Nat} {number position : Nat}
    {pattern : LinePattern} (h : (register patterns positions number)[position]? = some pattern) :
    ∃ before, patterns[position]? = some before ∧
      ((position ∈ positions ∧ pattern = (before.add number).1) ∨
        position ∉ positions ∧ pattern = before) := by
  rw [register, List.getElem?_mapIdx, Option.map_eq_some_iff] at h
  obtain ⟨before, hbefore, h⟩ := h
  refine ⟨before, hbefore, ?_⟩
  by_cases hmem : position ∈ positions
  · exact Or.inl ⟨hmem, by simpa [hmem] using h.symm⟩
  · exact Or.inr ⟨hmem, by simpa [hmem] using h.symm⟩

/-- Registering a job for a service makes the lines right for it, if none of them is full. -/
theorem AllRegistered.register (h : AllRegistered s serves patterns) {number : Nat}
    {service : Service}
    (hroom : ∀ position pattern, patterns[position]? = some pattern →
      position ∈ s.candidates service.transmission →
        pattern.contains number = true ∨ pattern.hasRoom = true) :
    AllRegistered s (fun number' service' =>
        serves number' service' ∨ number' = number ∧ service' = service)
      (register patterns (s.candidates service.transmission) number) := by
  intro position pattern hget
  obtain ⟨before, hbefore, ⟨hmem, rfl⟩ | ⟨hnot, rfl⟩⟩ := getElem?_register hget
  · have hregistered := h position before hbefore
    obtain ⟨hwell, hjobs⟩ := hregistered.wellFormed.add (hroom position before hbefore hmem)
    refine ⟨hwell, ?_⟩
    intro number'
    rw [hjobs, hregistered.mem_jobs_iff]
    constructor
    · rintro (⟨service', hserves, hcandidate⟩ | rfl)
      · exact ⟨service', Or.inl hserves, hcandidate⟩
      · exact ⟨service, Or.inr ⟨rfl, rfl⟩, hmem⟩
    · rintro ⟨service', hserves | ⟨rfl, _⟩, hcandidate⟩
      · exact Or.inl ⟨service', hserves, hcandidate⟩
      · exact Or.inr rfl
  · have hregistered := h position pattern hbefore
    refine ⟨hregistered.wellFormed, ?_⟩
    intro number'
    rw [hregistered.mem_jobs_iff]
    constructor
    · rintro ⟨service', hserves, hcandidate⟩
      exact ⟨service', Or.inl hserves, hcandidate⟩
    · rintro ⟨service', hserves | ⟨_, rfl⟩, hcandidate⟩
      · exact ⟨service', hserves, hcandidate⟩
      · exact absurd hcandidate hnot

/-- Registering a job for several services makes the lines right for all of them, if each line
has the job, or has room for it, or carries none of the services. -/
theorem AllRegistered.registerAll (services : List Service) (number : Nat)
    (h : AllRegistered s serves patterns)
    (hroom : ∀ position pattern, patterns[position]? = some pattern →
      pattern.contains number = true ∨ pattern.hasRoom = true ∨
        ∀ service ∈ services, position ∉ s.candidates service.transmission) :
    AllRegistered s (fun number' service' =>
        serves number' service' ∨ number' = number ∧ service' ∈ services)
      (Decoder.registerAll s number services patterns) := by
  induction services generalizing serves patterns with
  | nil => exact h.congr (by simp)
  | cons service rest ih =>
      have hfirst : ∀ position pattern, patterns[position]? = some pattern →
          position ∈ s.candidates service.transmission →
            pattern.contains number = true ∨ pattern.hasRoom = true := by
        intro position pattern hget hcandidate
        rcases hroom position pattern hget with hhas | hroom | hnone
        · exact Or.inl hhas
        · exact Or.inr hroom
        · exact absurd hcandidate (hnone service List.mem_cons_self)
      have hnext := h.register hfirst
      refine (ih hnext ?_).congr fun number' service' => ?_
      · intro position pattern hget
        obtain ⟨before, hbefore, ⟨hmem, rfl⟩ | ⟨_, rfl⟩⟩ := getElem?_register hget
        · have hadded := (h position before hbefore).wellFormed.add
            (hfirst position before hbefore hmem)
          exact Or.inl (by simp [LinePattern.contains, hadded.2])
        · refine (hroom position pattern hbefore).imp_right (Or.imp_right ?_)
          exact fun hnone service hservice => hnone service (List.mem_cons_of_mem _ hservice)
      · rw [List.mem_cons, and_or_left, or_assoc]

theorem Registered.remove {position : Nat} {pattern : LinePattern}
    (h : Registered s serves position pattern) (number : Nat) :
    Registered s (fun number' service => number' ≠ number ∧ serves number' service) position
      (pattern.remove number) := by
  refine ⟨h.wellFormed.remove number, ?_⟩
  intro number'
  rw [h.wellFormed.jobs_remove, List.mem_filter, h.mem_jobs_iff, bne_iff_ne]
  constructor
  · rintro ⟨⟨service, hserves, hcandidate⟩, hne⟩
    exact ⟨service, ⟨hne, hserves⟩, hcandidate⟩
  · rintro ⟨service, ⟨hne, hserves⟩, hcandidate⟩
    exact ⟨⟨service, hserves, hcandidate⟩, hne⟩

theorem Registered.removeAndRenumber {position number : Nat} {pattern : LinePattern}
    (h : Registered s serves position pattern) :
    Registered s (fun other => serves (if other < number then other else other + 1)) position
      (pattern.removeAndRenumber number) :=
  ⟨h.wellFormed.removeAndRenumber number, fun other => by
    rw [h.wellFormed.mem_jobs_removeAndRenumber, h.mem_jobs_iff]⟩

end Registration

/-! ## Services of jobs -/

theorem serves_assign {d : Decoder} {service : Service} {strictness : Strictness}
    {jobs : List Job} {number : Nat} (h : d.assign service strictness = .ok (jobs, number))
    (number' : Nat) (service' : Service) :
    Serves jobs number' service' ↔
      Serves d.jobs number' service' ∨ number' = number ∧ service' = service := by
  obtain ⟨job, hget, _, rfl⟩ | ⟨slicer, _, rfl, rfl⟩ := assign_eq_ok h
  · obtain ⟨hlt, rfl⟩ := List.getElem?_eq_some_iff.mp hget
    by_cases heq : number = number'
    · subst heq
      simp [Serves, hlt, @eq_comm _ service' service]
    · simp [Serves, List.getElem?_set_ne heq, Ne.symm heq]
  · rcases Nat.lt_trichotomy number' d.jobs.length with hlt | rfl | hgt
    · simp [Serves, List.getElem?_append_left hlt, Nat.ne_of_lt hlt]
    · simp [Serves, @eq_comm _ service' service]
    · have hnone : d.jobs[number']? = none := List.getElem?_eq_none (Nat.le_of_lt hgt)
      have hnone' : (d.jobs ++ [⟨.singleton service, slicer⟩])[number']? = none := by
        rw [List.getElem?_eq_none_iff, List.length_append, List.length_singleton]
        omega
      simp [Serves, hnone, hnone', Nat.ne_of_gt hgt]

theorem serves_of_setup {before jobs : List Job}
    (h : before.map Job.setup = jobs.map Job.setup) {number : Nat} {service : Service}
    (hserves : Serves before number service) : Serves jobs number service := by
  obtain ⟨job, hget, hcontains⟩ := hserves
  obtain ⟨job', hget', hsetup⟩ := setup_getElem? h hget
  refine ⟨job', hget', ?_⟩
  rwa [show job'.services = job.services from congrArg Prod.fst hsetup]

/-- Without one job all later ones go by the number before theirs. -/
theorem getElem?_dropped (done rest : List Job) (job : Job) {number : Nat}
    (hne : number ≠ done.length) :
    (done ++ rest)[if done.length < number then number - 1 else number]? =
      (done ++ job :: rest)[number]? := by
  split
  next hbehind =>
    obtain ⟨place, rfl⟩ := Nat.exists_eq_add_of_lt hbehind
    rw [List.getElem?_append_right (by omega), List.getElem?_append_right (by omega),
      show done.length + place + 1 - done.length = place + 1 by omega, List.getElem?_cons_succ,
      show done.length + place + 1 - 1 - done.length = place by omega]
  next hfront =>
    rw [List.getElem?_append_left (by omega), List.getElem?_append_left (by omega)]

theorem serves_dropped (done rest : List Job) (job : Job) (number : Nat) (service : Service) :
    Serves (done ++ rest) number service ↔
      Serves (done ++ job :: rest) (if number < done.length then number else number + 1)
        service := by
  have hget : (done ++ rest)[number]? =
      (done ++ job :: rest)[if number < done.length then number else number + 1]? := by
    split
    next hlt => rw [List.getElem?_append_left hlt, List.getElem?_append_left hlt]
    next hle =>
      have hle : done.length ≤ number := Nat.le_of_not_lt hle
      rw [List.getElem?_append_right hle, List.getElem?_append_right (Nat.le_succ_of_le hle),
        Nat.succ_sub hle, List.getElem?_cons_succ]
  simp only [Serves, hget]

/-- A job that is given another value leaves the other jobs alone. -/
theorem getElem?_replaced (done rest : List Job) (job next : Job) {number : Nat}
    (hne : number ≠ done.length) :
    (done ++ next :: rest)[number]? = (done ++ job :: rest)[number]? := by
  rw [List.getElem?_append, List.getElem?_append]
  split
  next => rfl
  next hle =>
    obtain ⟨behind, hbehind⟩ : ∃ behind, number - done.length = behind + 1 :=
      Nat.exists_eq_succ_of_ne_zero (by omega)
    rw [hbehind, List.getElem?_cons_succ, List.getElem?_cons_succ]

/-- A job that gives up services leaves those of the other jobs alone. -/
theorem serves_replaced (done rest : List Job) (job next : Job) (number : Nat)
    (service : Service) :
    Serves (done ++ next :: rest) number service ↔
      (number ≠ done.length ∧ Serves (done ++ job :: rest) number service) ∨
        number = done.length ∧ service ∈ next.services.toList := by
  by_cases heq : number = done.length
  · subst heq
    simp [Serves, ServiceSet.mem_toList]
  · have hget := getElem?_replaced done rest job next heq
    simp [Serves, hget, heq]

/-! ## Operations -/

theorem length_registerAll (s : Sampling) (number : Nat) (services : List Service)
    (patterns : List LinePattern) :
    (registerAll s number services patterns).length = patterns.length := by
  induction services generalizing patterns with
  | nil => rfl
  | cons service rest ih => exact (ih _).trans (length_register _ _ _)

theorem length_registerAnew (s : Sampling) (number : Nat) (services : ServiceSet)
    (patterns : List LinePattern) :
    (registerAnew s number services patterns).length = patterns.length := by
  rw [registerAnew, length_registerAll, List.length_map]

theorem length_patterns_dropFrom (s : Sampling) (removed : ServiceSet) (number : Nat)
    (jobs : List Job) (patterns : List LinePattern) :
    (dropFrom s removed number jobs patterns).2.length = patterns.length := by
  fun_induction dropFrom s removed number jobs patterns with
  | case1 => rfl
  | case2 number job rest patterns _ jobs after hrest ih => rw [← ih, hrest]
  | case3 number job rest patterns _ remaining _ ih => rw [ih, List.length_map]
  | case4 number job rest patterns _ remaining _ cleared moved jobs after hrest ih =>
      rw [hrest] at ih
      exact ih.trans (length_registerAnew s number remaining patterns)

/-- What is kept where one job is deleted, and where one is left with fewer services, is kept where
services are given up. The jobs before the current one are done. -/
theorem dropFrom_invariant {s : Sampling} {removed : ServiceSet}
    (Inv : List Job → List LinePattern → Prop)
    (hdelete : ∀ done job rest patterns, Inv (done ++ job :: rest) patterns →
      Inv (done ++ rest) (patterns.map (·.removeAndRenumber done.length)))
    (hreduce : ∀ done job rest patterns, Inv (done ++ job :: rest) patterns →
      Inv (done ++ { job with services := job.services \ removed } :: rest)
        (registerAnew s done.length (job.services \ removed) patterns))
    (done : List Job) {rest : List Job} {patterns : List LinePattern}
    (h : Inv (done ++ rest) patterns) :
    Inv (done ++ (dropFrom s removed done.length rest patterns).1)
      (dropFrom s removed done.length rest patterns).2 := by
  induction rest generalizing done patterns with
  | nil => exact h
  | cons job rest ih =>
      have hnext (next : Job) {patterns : List LinePattern}
          (h : Inv (done ++ next :: rest) patterns) :
          Inv (done ++ next :: (dropFrom s removed (done.length + 1) rest patterns).1)
            (dropFrom s removed (done.length + 1) rest patterns).2 := by
        rw [List.append_cons] at h ⊢
        have hrest := ih (done ++ [next]) h
        rwa [List.length_append, List.length_singleton] at hrest
      unfold dropFrom
      split
      next => exact hnext job h
      next =>
        dsimp only
        split
        next => exact ih done (hdelete done job rest patterns h)
        next => exact hnext _ (hreduce done job rest patterns h)

/-- A job that is left with fewer services is registered for these anew. It was taken off its
lines before, so these have room for it, and no other line carries one of the services. -/
theorem AllRegistered.registerAnew {s : Sampling} {done rest : List Job} {job : Job}
    {remaining : ServiceSet} {patterns : List LinePattern}
    (h : AllRegistered s (Serves (done ++ job :: rest)) patterns)
    (hkept : ∀ service, remaining.contains service = true →
      job.services.contains service = true) :
    AllRegistered s (Serves (done ++ { job with services := remaining } :: rest))
      (Decoder.registerAnew s done.length remaining patterns) := by
  have hcleared := h.map fun position pattern hregistered => hregistered.remove done.length
  refine (hcleared.registerAll remaining.toList done.length ?_).congr
    (serves_replaced done rest job { job with services := remaining })
  intro position pattern hget
  obtain ⟨before, hbefore, rfl⟩ := Option.map_eq_some_iff.mp (List.getElem?_map ▸ hget)
  have hregistered := h position before hbefore
  by_cases hmem : done.length ∈ before.jobs
  · exact Or.inr (Or.inl (hregistered.wellFormed.hasRoom_remove hmem))
  · refine Or.inr (Or.inr fun service hservice hcandidate => hmem ?_)
    rw [hregistered.mem_jobs_iff]
    exact ⟨service, ⟨job, by simp, hkept service (ServiceSet.mem_toList.mp hservice)⟩, hcandidate⟩

/-- Giving up services keeps the lines right. -/
theorem AllRegistered.dropFrom {s : Sampling} (removed : ServiceSet) {jobs : List Job}
    {patterns : List LinePattern} (h : AllRegistered s (Serves jobs) patterns) :
    AllRegistered s (Serves (Decoder.dropFrom s removed 0 jobs patterns).1)
      (Decoder.dropFrom s removed 0 jobs patterns).2 := by
  refine dropFrom_invariant (fun jobs patterns => AllRegistered s (Serves jobs) patterns)
    ?_ ?_ [] h
  · intro done job rest patterns hlines
    exact hlines.map fun position pattern hregistered =>
      hregistered.removeAndRenumber.congr (serves_dropped done rest job)
  · intro done job rest patterns hlines
    exact hlines.registerAnew fun _ => ServiceSet.contains_of_sdiff

theorem hasRoom_of_fullLine?_eq_none {patterns : List LinePattern} {positions : List Nat}
    {number position : Nat} {pattern : LinePattern}
    (h : fullLine? patterns positions number = none) (hget : patterns[position]? = some pattern)
    (hmem : position ∈ positions) :
    pattern.contains number = true ∨ pattern.hasRoom = true := by
  have hnot := List.find?_eq_none.mp h position hmem
  simp only [hget, Bool.and_eq_true, Bool.not_eq_true', not_and, Bool.not_eq_false] at hnot
  by_cases hhas : pattern.contains number = true
  · exact Or.inl hhas
  · exact Or.inr (hnot (by simpa using hhas))

/-- A found payload moves the job that found it to the front of its line, and a failure is only
counted: the jobs of a line stay the same. -/
theorem Registered.learn {s : Sampling} {serves : Nat → Service → Prop} {position : Nat}
    {pattern : LinePattern} {verdict : Verdict} (h : Registered s serves position pattern)
    (hway : ∀ hit, verdict = .found hit → hit.way < pattern.jobs.length) :
    Registered s serves position (verdict.learn pattern) := by
  cases verdict with
  | skipped => exact h
  | missed =>
      refine ⟨h.wellFormed.miss, ?_⟩
      intro number
      rw [Verdict.learn, h.wellFormed.jobs_miss, h.mem_jobs_iff]
  | found hit =>
      have hway := hway hit rfl
      refine ⟨h.wellFormed.promote hway, ?_⟩
      intro number
      rw [Verdict.learn, (h.wellFormed.promote_perm hway).mem_iff, h.mem_jobs_iff]

namespace Consistent

theorem ofSampling (s : Sampling) : (Decoder.ofSampling s).Consistent where
  length_eq := Or.inl ⟨rfl, rfl⟩
  registered position pattern hget := absurd hget (by simp [Decoder.ofSampling])

theorem patternsOrNew {d : Decoder} (h : d.Consistent) :
    d.patternsOrNew.length = d.sampling.totalLines ∧
      AllRegistered d.sampling (Serves d.jobs) d.patternsOrNew := by
  unfold Decoder.patternsOrNew
  split
  next hempty =>
    have hnil : d.patterns = [] := List.isEmpty_iff.mp hempty
    refine ⟨List.length_replicate, ?_⟩
    intro position pattern hget
    obtain rfl := List.eq_of_mem_replicate (List.mem_of_getElem? hget)
    refine ⟨LinePattern.wellFormed_empty, ?_⟩
    intro number
    rcases h.length_eq with ⟨_, hjobs⟩ | hlength
    · simp [hjobs, Serves]
    · -- A sampling without lines has no patterns at all.
      rw [hnil, List.length_nil] at hlength
      simp [← hlength] at hget
  next hne =>
    refine ⟨h.length_eq.resolve_left ?_, h.registered⟩
    rintro ⟨hnil, _⟩
    exact hne (by simp [hnil])

theorem addService {d next : Decoder} {service : Service} {strictness : Strictness}
    (h : d.Consistent) (hnext : d.addService service strictness = .ok next) :
    next.Consistent := by
  rcases addService_eq_ok hnext with ⟨rfl, _⟩ | ⟨jobs, number, hadded⟩
  · exact h
  · obtain ⟨hlength, hregistered⟩ := h.patternsOrNew
    rw [hadded.next_eq]
    refine ⟨Or.inr (by simpa [length_register] using hlength), ?_⟩
    refine (hregistered.register fun position pattern hget hcandidate => ?_).congr
      (serves_assign hadded.assigned)
    exact hasRoom_of_fullLine?_eq_none hadded.hasRoom hget hcandidate

theorem removeServices {d : Decoder} (h : d.Consistent) (services : ServiceSet) :
    (d.removeServices services).Consistent := by
  rw [removeServices_eq]
  refine ⟨?_, h.registered.dropFrom _⟩
  rcases h.length_eq with ⟨hpatterns, hjobs⟩ | hlength
  · simp [hpatterns, hjobs, Decoder.dropFrom]
  · exact Or.inr ((length_patterns_dropFrom _ _ _ _ _).trans hlength)

theorem decode {d next : Decoder} {capacity : Nat} {raw : ByteArray} {records : List Record}
    (h : d.Consistent) (hnext : d.decode capacity raw = .ok (next, records)) :
    next.Consistent := by
  obtain ⟨_, rfl, _⟩ := decode_eq_ok hnext
  have hsetup := d.map_setup_verdicts capacity raw
  have hverdicts := d.length_verdicts capacity raw
  constructor
  · rcases h.length_eq with ⟨hpatterns, hjobs⟩ | hlength
    · rw [hjobs, List.map_nil, List.map_eq_nil_iff] at hsetup
      simp [hpatterns, hsetup]
    · simp [hverdicts, hlength]
  · intro position pattern hget
    obtain ⟨verdict, before, hverdict, hbefore, rfl⟩ := List.getElem?_zipWith_eq_some.mp hget
    refine ((h.registered position before hbefore).congr fun number service =>
      ⟨serves_of_setup hsetup, serves_of_setup hsetup.symm⟩).learn ?_
    rintro hit rfl
    obtain ⟨field, index, tried, _, htried, _, hfound⟩ := decodeLines_found hverdict
    obtain rfl : before = tried := Option.some.inj (hbefore.symm.trans htried)
    obtain ⟨place, number, _, _, _, hway, horder, _⟩ := hfound
    -- The way of a hit counts places in the order of trial, which is that of the pattern.
    rw [hway, Nat.zero_add]
    exact (List.getElem?_eq_some_iff.mp horder).1

theorem length_patterns_le {d : Decoder} (h : d.Consistent) :
    d.patterns.length ≤ d.sampling.totalLines := by
  rcases h.length_eq with ⟨hnil, _⟩ | hlength
  · simp [hnil]
  · exact Nat.le_of_eq hlength

theorem length_patterns_le_sites {d : Decoder} (h : d.Consistent) :
    d.patterns.length ≤ d.sampling.sites.length := by
  rw [Sampling.length_sites]
  exact h.length_patterns_le

end Consistent

theorem Reachable.consistent {d : Decoder} (h : d.Reachable) : d.Consistent :=
  h.invariant Consistent (fun s _ => Consistent.ofSampling s)
    (fun _ _ _ _ hd hnext => hd.addService hnext) (fun _ services hd => hd.removeServices services)
    fun _ _ _ _ _ hd hnext => hd.decode hnext

/-! ## Lines in words -/

/-- Whether there are no patterns, or so many that a word tells their number. -/
def Counted (d : Decoder) : Prop := d.patterns = [] ∨ d.sampling.totalLines < wordLimit

namespace Counted

variable {d next : Decoder}

/-- Lines are counted before the first job is put on them. -/
theorem addService {service : Service} {strictness : Strictness} (h : d.Counted)
    (hvalid : d.sampling.Valid)
    (hnext : (InWords.addService d service strictness).run = some (.ok next)) : next.Counted := by
  have hplain := addService_agrees hvalid _ hnext
  unfold InWords.addService at hnext
  split at hnext
  next => exact Except.ok.inj (Option.some.inj hnext) ▸ h
  next =>
    right
    obtain ⟨_, _, hnext⟩ := Checked.bind_eq_ok hnext
    obtain ⟨_, _, hnext⟩ := Checked.bind_eq_ok hnext
    obtain ⟨patterns, hpatterns, _⟩ := Checked.bind_eq_ok hnext
    rw [sampling_addService hplain.symm]
    rcases h with hnone | hcounted
    · rw [InWords.patternsOrNew, hnone] at hpatterns
      obtain ⟨_, hpatterns, _⟩ := Checked.run_ofOption_eq_some_iff.mp hpatterns
      obtain ⟨total, htotal, _⟩ := Option.map_eq_some_iff.mp hpatterns
      exact (Sampling.totalLines?_eq_some_iff.mp htotal).1
    · exact hcounted

theorem addEach {strictness : Strictness} {services : List Service}
    {found : Decoder × List Outcome} (h : d.Counted) (hvalid : d.sampling.Valid)
    (hfound : InWords.addEach d strictness services = some found) : found.1.Counted := by
  induction services generalizing d found with
  | nil => exact Option.some.inj hfound ▸ h
  | cons service rest ih =>
      obtain ⟨outcome, houtcome, hfound⟩ := Option.bind_eq_some_iff.mp hfound
      cases outcome with
      | error cause =>
          obtain ⟨later, hlater, hfound⟩ := Option.bind_eq_some_iff.mp hfound
          have hcounted := ih h hvalid hlater
          exact Option.some.inj hfound ▸ hcounted
      | ok first =>
          obtain ⟨later, hlater, hfound⟩ := Option.bind_eq_some_iff.mp hfound
          have hsame := sampling_addService (addService_agrees hvalid _ houtcome).symm
          have hcounted := ih (h.addService hvalid houtcome) (by rwa [hsame]) hlater
          exact Option.some.inj hfound ▸ hcounted

theorem removeServices (h : d.Counted) (services : ServiceSet) :
    (d.removeServices services).Counted := by
  rw [removeServices_eq]
  refine h.imp_left fun hnone => ?_
  rw [← List.length_eq_zero_iff, length_patterns_dropFrom, hnone, List.length_nil]

theorem decode {capacity : Nat} {raw : ByteArray} {records : List Record} (h : d.Counted)
    (hnext : d.decode capacity raw = .ok (next, records)) : next.Counted := by
  obtain ⟨_, rfl, _⟩ := decode_eq_ok hnext
  exact h.imp_left fun hnone => by simp [hnone]

theorem after? (h : d.Counted) (hreachable : d.Reachable) {operation : Operation}
    (hnext : InWords.after? d operation = some next) : next.Counted := by
  cases operation with
  | addService service strictness =>
      obtain ⟨outcome, houtcome, rfl⟩ := Option.map_eq_some_iff.mp hnext
      cases outcome with
      | ok next => exact h.addService hreachable.valid houtcome
      | error cause => exact h
  | addServices services strictness =>
      obtain ⟨found, hfound, rfl⟩ := Option.map_eq_some_iff.mp hnext
      exact h.addEach hreachable.valid hfound
  | removeServices services => exact Option.some.inj hnext ▸ h.removeServices services
  | reset => exact Option.some.inj hnext ▸ Or.inl rfl
  | setSampling s strictness =>
      obtain ⟨outcome, houtcome, rfl⟩ := Option.map_eq_some_iff.mp hnext
      cases outcome with
      | error cause => exact h
      | ok found =>
          obtain ⟨_, hvalid, hrest⟩ := Checked.bind_eq_ok houtcome
          obtain ⟨_, hadded, hfound⟩ := Checked.run_ofOption_eq_some_iff.mp hrest
          obtain rfl := Except.ok.inj hfound
          have hfresh : (Decoder.ofSampling s).Counted := Or.inl rfl
          exact hfresh.addEach (Sampling.validate?_eq_ok_iff.mp hvalid) hadded
  | decode capacity raw =>
      obtain ⟨outcome, houtcome, rfl⟩ := Option.map_eq_some_iff.mp hnext
      cases outcome with
      | ok found => exact h.decode (hreachable.sound.decode_agrees _ houtcome).symm
      | error cause => exact h

end Counted

theorem InWords.Reachable.counted {d : Decoder} (h : InWords.Reachable d) : d.Counted := by
  induction h with
  | new hnew =>
      rw [(new_eq_ok (agrees_new _ hnew).symm).2]
      exact Or.inl rfl
  | step operation hbefore hnext ih => exact ih.after? hbefore.reachable hnext

/-- In every state of a decoder there are no patterns, and then no jobs, or there is a pattern
for each sampled line. The places for jobs hold distinct numbers of jobs without a gap, the last
place holds the count of failures, and a job is on a line exactly if it has a service for which
the line is a candidate. -/
theorem InWords.Reachable.pattern_invariant {d : Decoder} (h : InWords.Reachable d) :
    (d.patterns = [] → d.jobs = []) ∧
      (d.patterns ≠ [] → d.sampling.totalLines? = some d.patterns.length ∧
        d.sampling.sites.length = d.patterns.length) ∧
      ∀ position pattern, d.patterns[position]? = some pattern →
        (∀ way < patternWays, pattern.slots[way]? = some (.ofJob? pattern.jobs[way]?)) ∧
        (∃ count ≤ blankLimit, pattern.slots[patternWays]? = some (.misses count)) ∧
        pattern.jobs.Nodup ∧
        (∀ number ∈ pattern.jobs, number < d.jobs.length) ∧
        ∀ number job, d.jobs[number]? = some job →
          (number ∈ pattern.jobs ↔ ∃ service, job.services.contains service = true ∧
            ∃ candidates, d.sampling.candidates? service.transmission = some candidates ∧
              position ∈ candidates) := by
  have hvalid := h.reachable.valid
  have hconsistent := h.reachable.consistent
  refine ⟨?_, ?_, ?_⟩
  · intro hnil
    rcases hconsistent.length_eq with ⟨_, hjobs⟩ | hlength
    · exact hjobs
    · have hpos := hvalid.totalLines_pos
      rw [hnil, List.length_nil] at hlength
      omega
  · intro hne
    have hlength := hconsistent.length_eq.resolve_left fun hnil => hne hnil.1
    have hcounted := h.counted.resolve_left hne
    exact ⟨Sampling.totalLines?_eq_some_iff.mpr ⟨hcounted, hlength⟩,
      (Sampling.length_sites _).trans hlength.symm⟩
  · intro position pattern hget
    have hregistered := hconsistent.registered position pattern hget
    obtain ⟨count, hcount, hslot⟩ := hregistered.wellFormed.counter
    refine ⟨hregistered.wellFormed.gapFree, ⟨count, hcount, ?_⟩, hregistered.wellFormed.nodup,
      ?_, ?_⟩
    · rw [← hslot]
      exact Vector.getElem?_eq_getElem (by decide)
    · intro number hmem
      obtain ⟨_, ⟨job, hjob, _⟩, _⟩ := (hregistered.mem_jobs_iff number).mp hmem
      exact (List.getElem?_eq_some_iff.mp hjob).1
    · intro number job hjob
      simp [hregistered.mem_jobs_iff, Serves, hjob, hvalid.candidates?_eq]

/-- A run after which a job has lost one of its two services. -/
def runWithoutVps : Decoder :=
  (ofSampling .preset625).run
    [.addServices (.vps ∪ .caption625) .strict, .removeServices (.singleton .vps)]

theorem pattern_invariant_runWithoutVps :
    InWords.Reachable runWithoutVps ∧ runWithoutVps.patterns ≠ [] ∧
      runWithoutVps.patterns.length = 36 ∧
      ∀ job, runWithoutVps.jobs[0]? = some job →
        ∀ pattern, runWithoutVps.patterns[28]? = some pattern → 0 ∈ pattern.jobs →
          ∃ service, job.services.contains service = true ∧
            28 ∈ Sampling.preset625.candidates service.transmission := by
  have hrun : InWords.run? (ofSampling .preset625)
      [.addServices (.vps ∪ .caption625) .strict, .removeServices (.singleton .vps)] =
        some runWithoutVps := by decide +kernel
  have hvalid : Sampling.preset625.Valid := rfl
  have hreachable : InWords.Reachable runWithoutVps := .of_run? hvalid hrun
  have hsampling : runWithoutVps.sampling = .preset625 := by decide +kernel
  have hpatterns : runWithoutVps.patterns ≠ [] := by decide +kernel
  obtain ⟨_, hlength, hlines⟩ := InWords.Reachable.pattern_invariant hreachable
  refine ⟨hreachable, hpatterns, ?_, ?_⟩
  · rw [← (hlength hpatterns).2, hsampling]
    rfl
  · intro job hjob pattern hget hmem
    have hiff := (hlines 28 pattern hget).2.2.2.2 0 job hjob
    rw [hsampling] at hiff
    obtain ⟨service, hservice, candidates, hcandidates, hposition⟩ := hiff.mp hmem
    rw [hvalid.candidates?_eq] at hcandidates
    exact ⟨service, hservice, Option.some.inj hcandidates ▸ hposition⟩

end Blanking.Decoder
