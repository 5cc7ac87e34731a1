import Blanking.Proofs.Decoder.Capacity
import Blanking.Proofs.Decoder.History

/-! # What stays when services are given up

Jobs without services are deleted, all later ones go by smaller numbers, and jobs that keep some
of their services are put on the lines of these anew. None of this is seen by the other jobs:
each stays what it is, and on every line they are tried one after the other as before. -/

namespace Blanking

/-- Whether a job has a service left without some others. -/
def Job.outlasts (removed : ServiceSet) (job : Job) : Bool := !(job.services \ removed).isEmpty

theorem Job.outlasts_of_spared {removed : ServiceSet} {job : Job}
    (hspared : job.services.intersects removed = false) (hne : job.services.isEmpty = false) :
    job.outlasts removed = true := by
  rw [outlasts, ServiceSet.sdiff_eq_self hspared, hne]
  rfl

/-- How a line changes when some jobs lose services and all jobs are renumbered. -/
structure LinePattern.Spares (loses : Nat → Bool) (renumber : Nat → Nat)
    (before after : LinePattern) : Prop where
  /-- The jobs that lose nothing are tried first and in the order that they had. Only jobs that
  lose services come behind them. -/
  order : ∃ moved, after.jobs = (before.jobs.filter (!loses ·)).map renumber ++ moved ∧
    ∀ number ∈ moved, ∃ old, loses old = true ∧ renumber old = number
  /-- Without a job that loses services the line stays the same. -/
  untouched : (∀ number ∈ before.jobs, loses number = false) →
    after.jobs = before.jobs.map renumber ∧ after.misses = before.misses

namespace LinePattern

section Spares

variable {before middle after : LinePattern} {loses first second : Nat → Bool}
  {renumber shift move : Nat → Nat}

/-- A line on which no job loses a service. -/
theorem Spares.of_untouched (hjobs : after.jobs = before.jobs.map renumber)
    (hmisses : after.misses = before.misses)
    (hloses : ∀ number ∈ before.jobs, loses number = false) :
    before.Spares loses renumber after where
  order := by
    refine ⟨[], ?_, fun _ hmem => absurd hmem (by simp)⟩
    rw [List.append_nil, hjobs, List.filter_eq_self.mpr fun number hmem => by simp [hloses _ hmem]]
  untouched _ := ⟨hjobs, hmisses⟩

/-- Two changes in a row lose what either of them does. -/
theorem Spares.trans (h : before.Spares first shift middle) (h' : middle.Spares second move after)
    (honto : ∀ number, ∃ old, shift old = number)
    (hloses : ∀ number, loses number = (first number || second (shift number)))
    (hrenumber : ∀ number, renumber number = move (shift number)) :
    before.Spares loses renumber after := by
  obtain ⟨moved, hjobs, hmoved⟩ := h.order
  obtain ⟨moved', hjobs', hmoved'⟩ := h'.order
  have hfilter : (before.jobs.filter (!first ·)).filter (fun number => !second (shift number)) =
      before.jobs.filter (!loses ·) := by
    rw [List.filter_filter]
    exact List.filter_congr fun number _ => by rw [hloses, Bool.not_or, Bool.and_comm]
  constructor
  · refine ⟨(moved.filter (!second ·)).map move ++ moved', ?_, ?_⟩
    · rw [hjobs', hjobs, List.filter_append, List.filter_map, List.map_append, List.map_map,
        List.append_assoc]
      refine congrArg (· ++ _) ?_
      exact (congrArg _ hfilter).trans (List.map_congr_left fun number _ => (hrenumber number).symm)
    · intro number hnumber
      rcases List.mem_append.mp hnumber with hnumber | hnumber
      · obtain ⟨between, hbetween, rfl⟩ := List.mem_map.mp hnumber
        obtain ⟨old, hold, rfl⟩ := hmoved between (List.mem_filter.mp hbetween).1
        exact ⟨old, by rw [hloses, hold, Bool.true_or], hrenumber old⟩
      · obtain ⟨between, hbetween, rfl⟩ := hmoved' number hnumber
        obtain ⟨old, rfl⟩ := honto between
        exact ⟨old, by rw [hloses, hbetween, Bool.or_true], hrenumber old⟩
  · intro hnone
    have hboth (number : Nat) (hnumber : number ∈ before.jobs) :
        first number = false ∧ second (shift number) = false := by
      have hnot := hnone number hnumber
      rwa [hloses, Bool.or_eq_false_iff] at hnot
    obtain ⟨hsame, hmisses⟩ := h.untouched fun number hnumber => (hboth number hnumber).1
    obtain ⟨hsame', hmisses'⟩ := h'.untouched fun number hnumber => by
      obtain ⟨old, hold, rfl⟩ := List.mem_map.mp (hsame ▸ hnumber)
      exact (hboth old hold).2
    refine ⟨?_, hmisses'.trans hmisses⟩
    rw [hsame', hsame, List.map_map]
    exact List.map_congr_left fun number _ => (hrenumber number).symm

/-- A job that is deleted is taken off its lines, and all later ones are renumbered. -/
theorem spares_removeAndRenumber (p : LinePattern) (hwell : p.WellFormed) (job : Nat) :
    p.Spares (· == job) (fun other => if job < other then other - 1 else other)
      (p.removeAndRenumber job) where
  order := by
    refine ⟨[], ?_, fun _ hmem => absurd hmem (by simp)⟩
    rw [jobs_removeAndRenumber, hwell.jobs_remove, List.append_nil]
    rfl
  untouched hnone := by
    have hnot : p.contains job = false := by
      by_contra hmem
      have hfound := hnone job (by simpa [contains] using hmem)
      simp at hfound
    rw [jobs_removeAndRenumber, misses_removeAndRenumber, remove, hnot]
    exact ⟨rfl, rfl⟩

/-- A job that is taken off a line may be put on it again, behind the other ones. -/
theorem spares_remove {p : LinePattern} (hwell : p.WellFormed) {job : Nat}
    (hafter : after = p.remove job ∨ job ∈ p.jobs ∧ after = ((p.remove job).add job).1) :
    p.Spares (· == job) id after := by
  have hremoved : (p.remove job).jobs = p.jobs.filter (!· == job) := hwell.jobs_remove
  by_cases hmem : job ∈ p.jobs
  · have hnone : ¬ ∀ number ∈ p.jobs, (number == job) = false :=
      fun hnone => by simpa using hnone job hmem
    refine ⟨?_, fun h => absurd h hnone⟩
    obtain rfl | ⟨_, rfl⟩ := hafter
    · exact ⟨[], by simp [hremoved], fun _ hmem => absurd hmem (by simp)⟩
    · have hnew : (p.remove job).contains job = false := by simp [contains, hremoved]
      have hroom := hwell.hasRoom_remove hmem
      have hlength : ((p.remove job).jobs ++ [job]).length ≤ patternWays := by
        rw [(hwell.remove job).hasRoom_eq, decide_eq_true_eq] at hroom
        rwa [List.length_append, List.length_singleton]
      refine ⟨[job], ?_, fun number hnumber => ⟨number, by simpa using hnumber, rfl⟩⟩
      rw [(hwell.remove job).add_of_hasRoom hnew hroom, jobs_ofJobs hlength, hremoved,
        List.map_id]
  · have hsame : p.remove job = p := by
      rw [remove, if_neg (by simpa [contains] using hmem)]
    obtain rfl | ⟨hhas, _⟩ := hafter
    · refine .of_untouched (by rw [hsame, List.map_id]) (by rw [hsame]) ?_
      intro number hnumber
      rw [beq_eq_false_iff_ne]
      exact fun heq => hmem (heq ▸ hnumber)
    · exact absurd hhas hmem

end Spares

end LinePattern

namespace Decoder

/-! ## New numbers -/

/-- Whether the job of a number has some of the removed services. -/
def loses (removed : ServiceSet) (jobs : List Job) (number : Nat) : Bool :=
  jobs[number]?.any (·.services.intersects removed)

/-- The number by which a job goes once the jobs without services are deleted: the jobs before it
that have a service left. -/
def numberAfter (removed : ServiceSet) (jobs : List Job) (number : Nat) : Nat :=
  (jobs.take number).countP (Job.outlasts removed)

section Numbers

variable {removed : ServiceSet} {jobs done rest : List Job} {job next : Job} {number : Nat}

theorem numberAfter_append : numberAfter removed (done ++ rest) number =
    numberAfter removed done number + numberAfter removed rest (number - done.length) := by
  rw [numberAfter, List.take_append, List.countP_append]
  rfl

theorem numberAfter_of_length_le (removed : ServiceSet) (hle : jobs.length ≤ number) :
    numberAfter removed jobs number = jobs.countP (Job.outlasts removed) := by
  rw [numberAfter, List.take_of_length_le hle]

/-- Without a job that has no service left all later ones go by the number before theirs. -/
theorem numberAfter_dropped (hgone : job.outlasts removed = false) :
    numberAfter removed (done ++ job :: rest) number =
      numberAfter removed (done ++ rest)
        (if done.length < number then number - 1 else number) := by
  rw [numberAfter_append, numberAfter_append]
  split
  next hbehind =>
    obtain ⟨place, rfl⟩ := Nat.exists_eq_add_of_lt hbehind
    rw [numberAfter_of_length_le removed (Nat.le_of_lt hbehind),
      numberAfter_of_length_le removed (Nat.le_sub_one_of_lt hbehind),
      show done.length + place + 1 - done.length = place + 1 by omega,
      show done.length + place + 1 - 1 - done.length = place by omega]
    simp [numberAfter, hgone]
  next hfront =>
    rw [Nat.sub_eq_zero_of_le (Nat.le_of_not_lt hfront)]
    rfl

theorem numberAfter_replaced (hsame : next.outlasts removed = job.outlasts removed) :
    numberAfter removed (done ++ job :: rest) number =
      numberAfter removed (done ++ next :: rest) number := by
  rw [numberAfter_append, numberAfter_append]
  refine congrArg _ ?_
  cases number - done.length with
  | zero => rfl
  | succ place => simp [numberAfter, List.countP_cons, hsame]

theorem numberAfter_of_outlast (houtlast : ∀ job ∈ jobs, job.outlasts removed = true)
    (hle : number ≤ jobs.length) : numberAfter removed jobs number = number := by
  rw [numberAfter, List.countP_eq_length.mpr, List.length_take_of_le hle]
  exact fun job hjob => houtlast job (List.mem_of_mem_take hjob)

theorem numberAfter_lt {first second : Nat} (hget : jobs[first]? = some job)
    (houtlasts : job.outlasts removed = true) (hlt : first < second) :
    numberAfter removed jobs first < numberAfter removed jobs second := by
  have hnext : numberAfter removed jobs (first + 1) = numberAfter removed jobs first + 1 := by
    rw [numberAfter, List.take_add_one, hget, List.countP_append]
    simp [houtlasts, numberAfter]
  have hmono : numberAfter removed jobs (first + 1) ≤ numberAfter removed jobs second :=
    (List.take_prefix_take_left hlt).sublist.countP_le
  omega

/-- The jobs that have a service left go by their new numbers. -/
theorem getElem?_numberAfter (hget : jobs[number]? = some job)
    (houtlasts : job.outlasts removed = true) :
    ((jobs.map (Job.without removed)).filter (!·.services.isEmpty))[numberAfter removed jobs
      number]? = some (job.without removed) := by
  induction jobs generalizing number with
  | nil => simp at hget
  | cons first rest ih =>
      have hleft : (!(first.without removed).services.isEmpty) = first.outlasts removed := rfl
      cases number with
      | zero =>
          obtain rfl := Option.some.inj hget
          rw [List.map_cons, List.filter_cons, if_pos (hleft.trans houtlasts)]
          rfl
      | succ number =>
          have hrest := ih (List.getElem?_cons_succ ▸ hget)
          rw [List.map_cons, List.filter_cons, hleft, numberAfter, List.take_succ_cons,
            List.countP_cons]
          split
          next => rwa [List.getElem?_cons_succ]
          next => exact hrest

theorem loses_dropped (hmeets : job.services.intersects removed = true) :
    loses removed (done ++ job :: rest) number = (number == done.length ||
      loses removed (done ++ rest) (if done.length < number then number - 1 else number)) := by
  by_cases hhere : number = done.length
  · simp [loses, hhere, hmeets]
  · rw [loses, loses, getElem?_dropped done rest job hhere, beq_eq_false_iff_ne.mpr hhere,
      Bool.false_or]

theorem loses_replaced (hmeets : job.services.intersects removed = true) :
    loses removed (done ++ job :: rest) number = (number == done.length ||
      loses removed (done ++ next :: rest) number) := by
  by_cases hhere : number = done.length
  · simp [loses, hhere, hmeets]
  · rw [loses, loses, getElem?_replaced done rest next job hhere,
      beq_eq_false_iff_ne.mpr hhere, Bool.false_or]

theorem loses_eq_false (hspared : ∀ job ∈ jobs, job.services.intersects removed = false) :
    loses removed jobs number = false := by
  rw [loses, Option.any_eq_false]
  intro job hget
  simpa using hspared job (List.mem_of_getElem? hget)

end Numbers

/-! ## Removal -/

section Removal

variable {s : Sampling} {removed : ServiceSet} {patterns : List LinePattern} {position : Nat}
  {before after : LinePattern}

/-- A job that is registered for several services is put on a line at most once. -/
theorem getElem?_registerAll (services : List Service) {number : Nat}
    (hget : patterns[position]? = some before) (hwell : before.WellFormed)
    (hroom : ∀ service ∈ services, position ∈ s.candidates service.transmission →
      before.contains number = true ∨ before.hasRoom = true) :
    ∃ after, (registerAll s number services patterns)[position]? = some after ∧
      (after = before ∨ (∃ service ∈ services, position ∈ s.candidates service.transmission) ∧
        after = (before.add number).1) := by
  induction services generalizing patterns before with
  | nil => exact ⟨before, hget, Or.inl rfl⟩
  | cons service rest ih =>
      by_cases hcandidate : position ∈ s.candidates service.transmission
      · -- Once the job is on the line, nothing that follows changes the line.
        have hadded := hwell.add (hroom service List.mem_cons_self hcandidate)
        have hhas : (before.add number).1.contains number = true := by
          simp [LinePattern.contains, hadded.2]
        have hsame : ((before.add number).1.add number).1 = (before.add number).1 := by
          rw [LinePattern.add, if_pos hhas]
        have hnext : (register patterns (s.candidates service.transmission) number)[position]? =
            some (before.add number).1 := by
          simp [register, hget, hcandidate]
        obtain ⟨after, hafter, hrest⟩ := ih hnext hadded.1 fun _ _ _ => Or.inl hhas
        refine ⟨after, hafter, Or.inr ⟨⟨service, List.mem_cons_self, hcandidate⟩, ?_⟩⟩
        obtain hrest | ⟨_, hrest⟩ := hrest
        · exact hrest
        · exact hrest.trans hsame
      · have hnext : (register patterns (s.candidates service.transmission) number)[position]? =
            some before := by
          simp [register, hget, hcandidate]
        obtain ⟨after, hafter, hrest⟩ := ih hnext hwell fun other hother =>
          hroom other (List.mem_cons_of_mem _ hother)
        refine ⟨after, hafter, hrest.imp_right (And.imp_left ?_)⟩
        rintro ⟨other, hother, hhere⟩
        exact ⟨other, List.mem_cons_of_mem _ hother, hhere⟩

/-- Whichever lines a job is left on, the other jobs of each line are spared. -/
theorem exists_spares_registerAnew {done rest : List Job} {job : Job} {remaining : ServiceSet}
    (hregistered : AllRegistered s (Serves (done ++ job :: rest)) patterns)
    (hkept : ∀ service, remaining.contains service = true → job.services.contains service = true)
    (hbefore : patterns[position]? = some before) :
    ∃ after, (registerAnew s done.length remaining patterns)[position]? = some after ∧
      before.Spares (· == done.length) id after := by
  have hline := hregistered position before hbefore
  have hmem (service : Service) (hservice : service ∈ remaining.toList)
      (hcandidate : position ∈ s.candidates service.transmission) :
      done.length ∈ before.jobs := by
    rw [hline.mem_jobs_iff]
    exact ⟨service, ⟨job, by simp, hkept service (ServiceSet.mem_toList.mp hservice)⟩, hcandidate⟩
  have hcleared : (patterns.map (·.remove done.length))[position]? =
      some (before.remove done.length) := by
    rw [List.getElem?_map, hbefore]
    rfl
  obtain ⟨after, hafter, hadded⟩ := getElem?_registerAll remaining.toList
    hcleared (hline.wellFormed.remove _) fun service hservice hcandidate =>
      Or.inr (hline.wellFormed.hasRoom_remove (hmem service hservice hcandidate))
  refine ⟨after, hafter, LinePattern.spares_remove hline.wellFormed (hadded.imp_right ?_)⟩
  rintro ⟨⟨service, hservice, hcandidate⟩, rfl⟩
  exact ⟨hmem service hservice hcandidate, rfl⟩

/-- Giving up services spares all lines. The jobs before the current one are done. -/
theorem spares_dropFrom (done : List Job) {rest : List Job}
    (hdone : ∀ job ∈ done,
      job.services.intersects removed = false ∧ job.outlasts removed = true)
    (hrest : ∀ job ∈ rest, job.services.isEmpty = false)
    (hregistered : AllRegistered s (Serves (done ++ rest)) patterns)
    (hbefore : patterns[position]? = some before)
    (hafter : (dropFrom s removed done.length rest patterns).2[position]? = some after) :
    before.Spares (loses removed (done ++ rest)) (numberAfter removed (done ++ rest)) after := by
  induction rest generalizing done patterns before with
  | nil =>
      obtain rfl := Option.some.inj (hbefore.symm.trans hafter)
      rw [List.append_nil] at hregistered ⊢
      have hsame : ∀ number ∈ before.jobs, numberAfter removed done number = id number := by
        intro number hnumber
        obtain ⟨_, ⟨job, hjob, _⟩, _⟩ :=
          ((hregistered position before hbefore).mem_jobs_iff number).mp hnumber
        exact numberAfter_of_outlast (fun job hjob => (hdone job hjob).2)
          (Nat.le_of_lt (List.getElem?_eq_some_iff.mp hjob).1)
      refine .of_untouched ?_ rfl fun number _ => loses_eq_false fun job hjob => (hdone job hjob).1
      rw [List.map_congr_left hsame, List.map_id]
  | cons job rest ih =>
      obtain ⟨hjob, hrest⟩ := List.forall_mem_cons.mp hrest
      have hnext (next : Job) : (done ++ [next]).length = done.length + 1 := by simp
      have hadd (next : Job) (hspared : next.services.intersects removed = false)
          (houtlasts : next.outlasts removed = true) : ∀ job ∈ done ++ [next],
            job.services.intersects removed = false ∧ job.outlasts removed = true :=
        List.forall_mem_append.mpr ⟨hdone, List.forall_mem_singleton.mpr ⟨hspared, houtlasts⟩⟩
      unfold dropFrom at hafter
      split at hafter
      next hspared =>
        have hspared : job.services.intersects removed = false := by simpa using hspared
        rw [List.append_cons] at hregistered ⊢
        rw [← hnext job] at hafter
        exact ih _ (hadd job hspared (Job.outlasts_of_spared hspared hjob)) hrest hregistered
          hbefore hafter
      next hmeets =>
        have hmeets : job.services.intersects removed = true := by simpa using hmeets
        dsimp only at hafter
        split at hafter
        next hnone =>
          -- The job is deleted, and the number of done jobs stays.
          have hgone : job.outlasts removed = false := by simpa [Job.outlasts] using hnone
          have hline := hregistered position before hbefore
          have hdeleted := hregistered.map fun position pattern hregistered =>
            hregistered.removeAndRenumber.congr (serves_dropped done rest job)
          have hmiddle : (patterns.map (·.removeAndRenumber done.length))[position]? =
              some (before.removeAndRenumber done.length) := by
            rw [List.getElem?_map, hbefore]
            rfl
          refine (LinePattern.spares_removeAndRenumber before hline.wellFormed done.length).trans
            (ih done hdone hrest hdeleted hmiddle hafter) (fun number => ?_)
            (fun number => loses_dropped hmeets) fun number => numberAfter_dropped hgone
          refine ⟨if number < done.length then number else number + 1, ?_⟩
          split <;> split <;> omega
        next hleft =>
          -- The job is done with the services that it keeps.
          set remaining := job.services \ removed
          have hkept (service : Service) (hservice : remaining.contains service = true) :
              job.services.contains service = true :=
            ServiceSet.contains_of_sdiff hservice
          have hspared : remaining.intersects removed = false := ServiceSet.not_intersects_sdiff _ _
          have houtlasts : Job.outlasts removed { job with services := remaining } = true :=
            Job.outlasts_of_spared hspared (by simpa using hleft)
          have hsame : Job.outlasts removed { job with services := remaining } =
              job.outlasts removed := by
            rw [Job.outlasts, ServiceSet.sdiff_eq_self hspared, Job.outlasts]
          obtain ⟨middle, hmiddle, hspares⟩ := exists_spares_registerAnew hregistered hkept hbefore
          have hreduced := hregistered.registerAnew hkept
          rw [List.append_cons] at hreduced
          rw [← hnext { job with services := remaining }] at hafter
          have hdone := hadd { job with services := remaining } hspared houtlasts
          have hlast := ih _ hdone hrest hreduced hmiddle hafter
          rw [← List.append_cons] at hlast
          exact hspares.trans hlast (fun number => ⟨number, rfl⟩)
            (fun number => loses_replaced hmeets) fun number => numberAfter_replaced hsame

end Removal

/-! ## Services that are not decoded -/

namespace Sound

variable {d : Decoder}

theorem loses_inter (h : d.Sound) (services : ServiceSet) :
    loses (d.services ∩ services) d.jobs = loses services d.jobs := by
  funext number
  unfold loses
  cases hget : d.jobs[number]? with
  | none => rfl
  | some job =>
      have hjob := h.jobs job (List.mem_of_getElem? hget)
      exact hjob.known.intersects_inter hjob.decoded

theorem outlasts_inter (h : d.Sound) (services : ServiceSet) {job : Job} (hjob : job ∈ d.jobs) :
    job.outlasts (d.services ∩ services) = job.outlasts services := by
  have hjob := h.jobs job hjob
  rw [Job.outlasts, hjob.known.sdiff_inter hjob.decoded, Job.outlasts]

theorem numberAfter_inter (h : d.Sound) (services : ServiceSet) :
    numberAfter (d.services ∩ services) d.jobs = numberAfter services d.jobs := by
  funext number
  refine List.countP_congr fun job hjob => ?_
  rw [h.outlasts_inter services (List.mem_of_mem_take hjob)]

theorem jobs_removeServices (h : d.Sound) (services : ServiceSet) :
    (d.removeServices services).jobs =
      (d.jobs.map (Job.without services)).filter (!·.services.isEmpty) := by
  have hwithout : d.jobs.map (Job.without (d.services ∩ services)) =
      d.jobs.map (Job.without services) := by
    refine List.map_congr_left fun job hjob => ?_
    have hjob := h.jobs job hjob
    rw [Job.without, hjob.known.sdiff_inter hjob.decoded, Job.without]
  rw [removeServices_eq, ← hwithout]
  exact dropFrom_fst fun job hjob => (h.jobs job hjob).nonempty

end Sound

theorem Reachable.spares_removeServices {d : Decoder} (h : d.Reachable) (services : ServiceSet)
    {position : Nat} {before after : LinePattern} (hbefore : d.patterns[position]? = some before)
    (hafter : (d.removeServices services).patterns[position]? = some after) :
    before.Spares (loses services d.jobs) (numberAfter services d.jobs) after := by
  rw [removeServices_eq] at hafter
  rw [← h.sound.loses_inter, ← h.sound.numberAfter_inter]
  exact spares_dropFrom [] (by simp) (fun job hjob => (h.sound.jobs job hjob).nonempty)
    h.consistent.registered hbefore hafter

/-- How a decoder is left by giving up services. -/
structure Without (services : ServiceSet) (before after : Decoder) : Prop where
  services_eq : after.services = before.services \ services
  sampling_eq : after.sampling = before.sampling
  sinceProbe_eq : after.sinceProbe = before.sinceProbe
  /-- Jobs with no service left are deleted, and the others keep their order and their slicers. -/
  jobs_eq : after.jobs =
    (before.jobs.map (Job.without services)).filter (!·.services.isEmpty)
  ordered : ∀ first second job, before.jobs[first]? = some job → job.outlasts services = true →
    first < second →
      numberAfter services before.jobs first < numberAfter services before.jobs second
  /-- A job that loses nothing is the same under its new number. -/
  spared : ∀ number job, before.jobs[number]? = some job →
    job.services.intersects services = false →
      after.jobs[numberAfter services before.jobs number]? = some job
  length_eq : after.patterns.length = before.patterns.length
  lines : ∀ (position : Nat) (pattern pattern' : LinePattern),
    before.patterns[position]? = some pattern → after.patterns[position]? = some pattern' →
      pattern.Spares (loses services before.jobs) (numberAfter services before.jobs) pattern'
  /-- A job with services left is on the lines of these. -/
  reduced : ∀ number job, before.jobs[number]? = some job → job.outlasts services = true →
    after.jobs[numberAfter services before.jobs number]? = some (job.without services) ∧
      ∀ (position : Nat) (pattern : LinePattern), after.patterns[position]? = some pattern →
        (numberAfter services before.jobs number ∈ pattern.jobs ↔
          ∃ service, (job.services \ services).contains service = true ∧
            position ∈ before.sampling.candidates service.transmission)

/-- Giving up services takes them from their jobs and leaves all else alone. In the order that
they had, jobs that lose nothing stay as they are, and those that keep some services keep their
slicers and are on exactly the lines of these services. On each line the former are tried first
and in the order that they had, and a line that had only such jobs keeps its count of failures. -/
theorem Reachable.removal_spares {d : Decoder} (h : d.Reachable) (services : ServiceSet) :
    Without services d (d.removeServices services) := by
  have hjobs := h.sound.jobs_removeServices services
  have hkept (number : Nat) (job : Job) (hget : d.jobs[number]? = some job)
      (houtlasts : job.outlasts services = true) :
      (d.removeServices services).jobs[numberAfter services d.jobs number]? =
        some (job.without services) := by
    rw [hjobs]
    exact getElem?_numberAfter hget houtlasts
  have hlines := (h.step (.removeServices services)).consistent.registered
  refine ⟨?_, sampling_removeServices d services, by rw [removeServices_eq], hjobs, ?_, ?_, ?_, ?_,
    ?_⟩
  · rw [removeServices_eq, h.partitioned.divided.known.sdiff_inter fun _ => id]
  · intro first second job hget houtlasts hlt
    exact numberAfter_lt hget houtlasts hlt
  · intro number job hget hspared
    have hne := (h.sound.jobs job (List.mem_of_getElem? hget)).nonempty
    rw [hkept number job hget (Job.outlasts_of_spared hspared hne), Job.without,
      ServiceSet.sdiff_eq_self hspared]
  · rw [removeServices_eq]
    exact length_patterns_dropFrom _ _ _ _ _
  · intro position pattern pattern' hpattern hpattern'
    exact h.spares_removeServices services hpattern hpattern'
  · intro number job hget houtlasts
    have hnext := hkept number job hget houtlasts
    refine ⟨hnext, fun position pattern hpattern => ?_⟩
    have hline := hlines position pattern hpattern
    rw [hline.mem_jobs_iff, after, sampling_removeServices]
    simp [Serves, hnext, Job.without]

/-- A run with three jobs: one for VPS on either field, one for wide screen signalling and one
for captions. -/
def runWithThree : Decoder :=
  (ofSampling .preset625).run [.addServices (.vps ∪ .caption625 ∪ .wss) .strict]

/-- Without wide screen signalling and half of VPS, captions are the job behind that of VPS. Their
lines are the same, and VPS is still on the line of its other half. -/
theorem removal_spares_runWithThree :
    runWithThree.Reachable ∧
      (∃ job : Job, runWithThree.jobs[2]? = some job ∧
        (runWithThree.removeServices (.wss ∪ .singleton .vps)).jobs[1]? = some job) ∧
      (∃ pattern pattern' : LinePattern,
        runWithThree.patterns[16]? = some pattern ∧ pattern.jobs = [2] ∧
        (runWithThree.removeServices (.wss ∪ .singleton .vps)).patterns[16]? = some pattern' ∧
        pattern'.jobs = [1] ∧ pattern'.misses = pattern.misses) ∧
      ∃ pattern : LinePattern,
        (runWithThree.removeServices (.wss ∪ .singleton .vps)).patterns[29]? = some pattern ∧
          0 ∈ pattern.jobs := by
  have hnew : Decoder.new .preset625 = .ok (ofSampling .preset625) := rfl
  have hreachable : runWithThree.Reachable := (Reachable.new hnew).run _
  have hsampling : runWithThree.sampling = .preset625 := sampling_run_addServices _ _ _
  have hservices : runWithThree.jobs.map Job.services =
      [.vps, .singleton .wss625, .caption625] := by
    decide +kernel
  have hpatterns : runWithThree.patterns.length = 36 ∧
      runWithThree.patterns[16]?.map LinePattern.jobs = some [2] := by
    decide +kernel
  set removed : ServiceSet := .wss ∪ .singleton .vps
  have hwithout := Reachable.removal_spares hreachable removed
  have hnumber (number : Nat) : numberAfter removed runWithThree.jobs number =
      ((runWithThree.jobs.map Job.services).take number).countP
        fun services => !(services \ removed).isEmpty := by
    rw [← List.map_take, List.countP_map]
    rfl
  have hget (number : Nat) (set : ServiceSet)
      (hset : (runWithThree.jobs.map Job.services)[number]? = some set) :
      ∃ job, runWithThree.jobs[number]? = some job ∧ job.services = set := by
    rwa [List.getElem?_map, Option.map_eq_some_iff] at hset
  obtain ⟨vps, hvps, hvpsServices⟩ := hget 0 .vps (by rw [hservices]; rfl)
  obtain ⟨caption, hcaption, hcaptionServices⟩ := hget 2 .caption625 (by rw [hservices]; rfl)
  have hspared : caption.services.intersects removed = false := by
    rw [hcaptionServices]
    decide
  have hvpsNumber : numberAfter removed runWithThree.jobs 0 = 0 := by
    rw [hnumber, hservices]
    rfl
  have hcaptionNumber : numberAfter removed runWithThree.jobs 2 = 1 := by
    rw [hnumber, hservices]
    decide
  have hline (position : Nat) (hlt : position < 36) :
      ∃ pattern, (runWithThree.removeServices removed).patterns[position]? = some pattern := by
    rw [← hpatterns.1, ← hwithout.length_eq] at hlt
    exact ⟨_, List.getElem?_eq_getElem hlt⟩
  refine ⟨hreachable, ⟨caption, hcaption, ?_⟩, ?_, ?_⟩
  · rw [← hcaptionNumber]
    exact hwithout.spared 2 caption hcaption hspared
  · obtain ⟨pattern, hpattern, hjobs⟩ := Option.map_eq_some_iff.mp hpatterns.2
    obtain ⟨pattern', hpattern'⟩ := hline 16 (by decide)
    obtain ⟨hjobs', hmisses⟩ := (hwithout.lines 16 pattern pattern' hpattern hpattern').untouched
      (by simp [hjobs, loses, hcaption, hspared])
    exact ⟨pattern, pattern', hpattern, hjobs, hpattern', by simp [hjobs', hjobs, hcaptionNumber],
      hmisses⟩
  · obtain ⟨pattern, hpattern⟩ := hline 29 (by decide)
    have hplaced := (hwithout.reduced 0 vps hvps (by rw [Job.outlasts, hvpsServices]; decide)).2
      29 pattern hpattern
    rw [hvpsNumber, hvpsServices, hsampling] at hplaced
    exact ⟨pattern, hpattern, hplaced.mpr ⟨.vpsField2, by decide, by decide⟩⟩

end Decoder

end Blanking
