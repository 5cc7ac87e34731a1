import Blanking.Proofs.Decoder.Bounds

/-! # What happened to a line

The count of failures of a line is what became of it at last: as many failures in a row, with no
success among them and no change of the jobs that are registered on the line. -/

namespace Blanking

/-! ## Counts of patterns -/

namespace LinePattern

@[simp]
theorem misses_withMisses (p : LinePattern) (count : Nat) :
    (p.withMisses count).misses = count := by
  simp [withMisses, misses]

@[simp]
theorem misses_miss (p : LinePattern) : p.miss.misses = min (p.misses + 1) blankLimit := by
  rw [miss, misses_withMisses]

@[simp]
theorem misses_promote (p : LinePattern) (way : Nat) : (p.promote way).misses = 0 := by
  unfold promote
  split <;> exact misses_withMisses _ _

/-- A new job starts the count anew. -/
theorem add_eq_or (p : LinePattern) (job : Nat) :
    (p.add job).1 = p ∨ (p.add job).1.misses = 0 := by
  unfold add
  split
  next => exact Or.inl rfl
  next =>
    split
    next => exact Or.inr (misses_withMisses _ _)
    next => exact Or.inl rfl

theorem remove_eq_or (p : LinePattern) (job : Nat) :
    (p.remove job = p ∧ job ∉ p.jobs) ∨ (p.remove job).misses = 0 := by
  unfold remove
  split
  next => exact Or.inr misses_ofJobs
  next hnot => exact Or.inl ⟨rfl, by simpa [contains] using hnot⟩

theorem misses_removeAndRenumber (p : LinePattern) (job : Nat) :
    (p.removeAndRenumber job).misses = (p.remove job).misses := by
  simp [removeAndRenumber, misses]

theorem leadingJobs_map_renumber (job : Nat) (slots : List Slot) :
    leadingJobs (slots.map (Slot.renumber job)) =
      (leadingJobs slots).map fun other => if job < other then other - 1 else other := by
  induction slots with
  | nil => rfl
  | cons slot rest ih => cases slot <;> simp [leadingJobs, Slot.renumber, ih]

theorem jobs_removeAndRenumber (p : LinePattern) (job : Nat) :
    (p.removeAndRenumber job).jobs =
      (p.remove job).jobs.map fun other => if job < other then other - 1 else other := by
  have hways : (p.removeAndRenumber job).ways = (p.remove job).ways.map (Slot.renumber job) := by
    apply List.ext_getElem
    · simp [ways]
    · intro way hway _
      have hlt : way < patternWays := by simp [ways] at hway; omega
      simp [ways, removeAndRenumber, hlt]
  rw [jobs, hways, leadingJobs_map_renumber, jobs]

end LinePattern

namespace Decoder

/-! ## The jobs of a line -/

/-- The jobs on a line in the order of trial, whatever their numbers are. -/
def lineUp (jobs : List Job) (p : LinePattern) : List SlicerConfig :=
  p.jobs.filterMap fun number => (jobs.map (·.slicer.config))[number]?

/-- The jobs on the line at a position, none if there are no patterns. -/
def lineUpAt (d : Decoder) (position : Nat) : List SlicerConfig :=
  (d.patterns[position]?.map (lineUp d.jobs)).getD []

/-- Whether the count of a line goes on from an earlier state only if the jobs on the line are the
same. -/
def KeptAt (position : Nat) (jobs jobs' : List Job) (patterns patterns' : List LinePattern) :
    Prop :=
  ∀ pattern', patterns'[position]? = some pattern' → pattern'.misses = 0 ∨
    ∃ pattern, patterns[position]? = some pattern ∧ pattern'.misses = pattern.misses ∧
      lineUp jobs' pattern' = lineUp jobs pattern

section Kept

variable {position : Nat} {jobs jobs' jobs'' : List Job}
  {patterns patterns' patterns'' : List LinePattern}

theorem KeptAt.refl : KeptAt position jobs jobs patterns patterns :=
  fun pattern hget => Or.inr ⟨pattern, hget, rfl, rfl⟩

theorem KeptAt.trans (h : KeptAt position jobs jobs' patterns patterns')
    (h' : KeptAt position jobs' jobs'' patterns' patterns'') :
    KeptAt position jobs jobs'' patterns patterns'' := by
  intro pattern'' hget''
  obtain hzero | ⟨pattern', hget', hmisses', hlineUp'⟩ := h' pattern'' hget''
  · exact Or.inl hzero
  · obtain hzero | ⟨pattern, hget, hmisses, hlineUp⟩ := h pattern' hget'
    · exact Or.inl (hmisses'.trans hzero)
    · exact Or.inr ⟨pattern, hget, hmisses'.trans hmisses, hlineUp'.trans hlineUp⟩

theorem lineUp_congr {p : LinePattern}
    (h : ∀ number ∈ p.jobs, (jobs'.map (·.slicer.config))[number]? =
      (jobs.map (·.slicer.config))[number]?) : lineUp jobs' p = lineUp jobs p :=
  List.filterMap_congr h

/-- Patterns that stay, or else start their count anew, with the same jobs. -/
theorem KeptAt.of_eq_or
    (hpatterns : ∀ pattern', patterns'[position]? = some pattern' →
      ∃ pattern, patterns[position]? = some pattern ∧ (pattern' = pattern ∨ pattern'.misses = 0))
    (hjobs : ∀ pattern, patterns[position]? = some pattern →
      lineUp jobs' pattern = lineUp jobs pattern) :
    KeptAt position jobs jobs' patterns patterns' := by
  intro pattern' hget'
  obtain ⟨pattern, hget, rfl | hzero⟩ := hpatterns pattern' hget'
  · exact Or.inr ⟨pattern', hget, rfl, hjobs pattern' hget⟩
  · exact Or.inl hzero

theorem register_eq_or {positions : List Nat} {number : Nat} {pattern' : LinePattern}
    (h : (register patterns positions number)[position]? = some pattern') :
    ∃ pattern, patterns[position]? = some pattern ∧
      (pattern' = pattern ∨ pattern'.misses = 0) := by
  obtain ⟨pattern, hget, ⟨_, rfl⟩ | ⟨_, rfl⟩⟩ := getElem?_register h
  · exact ⟨pattern, hget, pattern.add_eq_or number⟩
  · exact ⟨pattern', hget, Or.inl rfl⟩

theorem registerAll_eq_or {s : Sampling} {services : List Service} {number : Nat}
    {pattern' : LinePattern}
    (h : (registerAll s number services patterns)[position]? = some pattern') :
    ∃ pattern, patterns[position]? = some pattern ∧
      (pattern' = pattern ∨ pattern'.misses = 0) := by
  induction services generalizing patterns with
  | nil => exact ⟨pattern', h, Or.inl rfl⟩
  | cons service rest ih =>
      obtain ⟨middle, hmiddle, rfl | hzero⟩ := ih h
      · exact register_eq_or hmiddle
      · obtain ⟨pattern, hget, _⟩ := register_eq_or hmiddle
        exact ⟨pattern, hget, Or.inr hzero⟩

/-! ## Operations -/

/-- Without one job all later ones go by the number before theirs, and are the same. -/
theorem keptAt_removeAndRenumber (done rest : List Job) (job : Job) :
    KeptAt position (done ++ job :: rest) (done ++ rest) patterns
      (patterns.map (·.removeAndRenumber done.length)) := by
  intro pattern' hget'
  obtain ⟨pattern, hget, rfl⟩ := Option.map_eq_some_iff.mp (List.getElem?_map ▸ hget')
  rw [LinePattern.misses_removeAndRenumber]
  obtain ⟨hsame, hnot⟩ | hzero := pattern.remove_eq_or done.length
  · refine Or.inr ⟨pattern, hget, by rw [hsame], ?_⟩
    rw [lineUp, LinePattern.jobs_removeAndRenumber, hsame, List.filterMap_map, lineUp]
    apply List.filterMap_congr
    intro number hnumber
    have hne : number ≠ done.length := fun heq => hnot (heq ▸ hnumber)
    rw [Function.comp_apply, List.getElem?_map, List.getElem?_map,
      getElem?_dropped done rest job hne]
  · exact Or.inl hzero

theorem keptAt_registerAnew {s : Sampling} (remaining : ServiceSet) (done rest : List Job)
    (job : Job) :
    KeptAt position (done ++ job :: rest) (done ++ { job with services := remaining } :: rest)
      patterns (registerAnew s done.length remaining patterns) := by
  refine .of_eq_or (fun pattern' hget' => ?_) fun pattern _ => lineUp_congr fun _ _ => by simp
  obtain ⟨cleared, hcleared, hkept⟩ := registerAll_eq_or hget'
  obtain ⟨pattern, hget, rfl⟩ := Option.map_eq_some_iff.mp (List.getElem?_map ▸ hcleared)
  refine ⟨pattern, hget, ?_⟩
  obtain rfl | hzero := hkept
  · exact (pattern.remove_eq_or done.length).imp And.left id
  · exact Or.inr hzero

theorem keptAt_dropFrom {s : Sampling} (removed : ServiceSet) (jobs : List Job) :
    KeptAt position jobs (dropFrom s removed 0 jobs patterns).1 patterns
      (dropFrom s removed 0 jobs patterns).2 := by
  refine dropFrom_invariant (KeptAt position jobs · patterns ·) ?_ ?_ [] .refl
  · intro done job rest middle hkept
    exact hkept.trans (keptAt_removeAndRenumber done rest job)
  · intro done job rest middle hkept
    exact hkept.trans (keptAt_registerAnew _ done rest job)

theorem KeptAt.addService {d next : Decoder} {service : Service} {strictness : Strictness}
    (h : d.Consistent) (hnext : d.addService service strictness = .ok next) :
    KeptAt position d.jobs next.jobs d.patterns next.patterns := by
  obtain ⟨rfl, _⟩ | ⟨jobs, number, hadded⟩ := addService_eq_ok hnext
  · exact .refl
  rw [hadded.next_eq]
  intro pattern' hget'
  obtain ⟨pattern, hget, hkept⟩ := register_eq_or hget'
  obtain rfl | hzero := hkept
  · unfold patternsOrNew at hget
    split at hget
    next =>
      -- The first service finds lines that have not been tried before.
      obtain rfl := List.eq_of_mem_replicate (List.mem_of_getElem? hget)
      exact Or.inl LinePattern.misses_ofJobs
    next =>
      refine Or.inr ⟨pattern', hget, rfl, lineUp_congr fun other hother => ?_⟩
      have hlt := h.number_lt (List.mem_of_getElem? hget) hother
      obtain ⟨job, hjob, _, rfl⟩ | ⟨slicer, _, rfl, rfl⟩ := assign_eq_ok hadded.assigned
      · obtain ⟨hnumber, rfl⟩ := List.getElem?_eq_some_iff.mp hjob
        have hsame : (d.jobs.map (·.slicer.config)).set number d.jobs[number].slicer.config =
            d.jobs.map (·.slicer.config) := by
          rw [← List.map_set, List.set_getElem_self]
        rw [List.map_set, hsame]
      · rw [List.map_append, List.getElem?_append_left (by rwa [List.length_map])]
  · exact Or.inl hzero

theorem KeptAt.addEach {d : Decoder} (h : d.Consistent) (strictness : Strictness)
    (services : List Service) :
    KeptAt position d.jobs (d.addEach strictness services).1.jobs d.patterns
      (d.addEach strictness services).1.patterns := by
  refine (addEach_invariant (fun next => next.Consistent ∧
    KeptAt position d.jobs next.jobs d.patterns next.patterns) ?_ strictness services
      ⟨h, .refl⟩).2
  rintro next last service strictness ⟨hnext, hkept⟩ hlast
  exact ⟨hnext.addService hlast, hkept.trans (.addService hnext hlast)⟩

theorem KeptAt.removeServices (d : Decoder) (services : ServiceSet) :
    KeptAt position d.jobs (d.removeServices services).jobs d.patterns
      (d.removeServices services).patterns := by
  rw [removeServices_eq]
  exact keptAt_dropFrom _ d.jobs

end Kept

/-! ## Histories -/

/-- What can happen to a line. -/
inductive LineEvent where
  /-- It was tried, and all of its jobs failed. -/
  | missed
  | found
  /-- Other jobs were registered on it than before. -/
  | registered
deriving DecidableEq, Repr

/-- What a line sees of what became of it. -/
def Verdict.event? : Verdict → Option LineEvent
  | .skipped => none
  | .missed => some .missed
  | .found _ => some .found

/-- What an operation does to the line at a position. -/
def eventsAt (d : Decoder) (position : Nat) : Operation → List LineEvent
  | .decode capacity raw =>
      match d.decode capacity raw with
      | .ok _ => ((d.verdicts capacity raw).2[position]?.bind Verdict.event?).toList
      | .error _ => []
  | .reset => [.registered]
  | .setSampling s strictness =>
      match d.setSampling s strictness with
      | .ok _ => [.registered]
      | .error _ => []
  | operation =>
      if (d.after operation).lineUpAt position = d.lineUpAt position then [] else [.registered]

/-- All that happens to the line at a position, in this order. -/
def history (d : Decoder) (position : Nat) : List Operation → List LineEvent
  | [] => []
  | operation :: rest => d.eventsAt position operation ++ (d.after operation).history position rest

/-- Whether the failures that a line has counted are the last that happened to it. -/
def CountedAt (position : Nat) (events : List LineEvent) (d : Decoder) : Prop :=
  ∀ pattern, d.patterns[position]? = some pattern →
    List.replicate pattern.misses .missed <:+ events

section Counted

variable {position : Nat} {events : List LineEvent} {d next : Decoder}

theorem CountedAt.of_kept (h : CountedAt position events d)
    (hkept : KeptAt position d.jobs next.jobs d.patterns next.patterns) :
    CountedAt position (events ++
      if next.lineUpAt position = d.lineUpAt position then [] else [.registered]) next := by
  intro pattern' hget'
  obtain hzero | ⟨pattern, hget, hmisses, hlineUp⟩ := hkept pattern' hget'
  · rw [hzero]
    exact List.nil_suffix
  · have hsame : next.lineUpAt position = d.lineUpAt position := by
      rw [lineUpAt, lineUpAt, hget', hget, Option.map_some, Option.map_some, hlineUp]
    rw [if_pos hsame, List.append_nil, hmisses]
    exact h pattern hget

theorem countedAt_ofSampling (s : Sampling) : CountedAt position events (ofSampling s) :=
  fun _ hget => absurd hget (by simp [ofSampling])

theorem CountedAt.decode (h : CountedAt position events d) {capacity : Nat} {raw : ByteArray}
    {records : List Record} (hnext : d.decode capacity raw = .ok (next, records)) :
    CountedAt position (events ++
      ((d.verdicts capacity raw).2[position]?.bind Verdict.event?).toList) next := by
  obtain ⟨_, rfl, _⟩ := decode_eq_ok hnext
  intro pattern' hget'
  obtain ⟨verdict, pattern, hverdict, hget, rfl⟩ := List.getElem?_zipWith_eq_some.mp hget'
  have hbefore := h pattern hget
  rw [hverdict]
  cases verdict with
  | skipped =>
      rw [Option.bind_some, Verdict.event?, Option.toList_none, List.append_nil]
      exact hbefore
  | missed =>
      rw [Verdict.learn, LinePattern.misses_miss]
      have hless : List.replicate (min (pattern.misses + 1) blankLimit) LineEvent.missed <:+
          List.replicate (pattern.misses + 1) .missed :=
        List.suffix_replicate_iff.mpr ⟨by simp, by simp⟩
      refine hless.trans ?_
      rw [List.replicate_succ']
      exact List.suffix_append_self_iff.mpr hbefore
  | found hit =>
      rw [Verdict.learn, LinePattern.misses_promote]
      exact List.nil_suffix

theorem CountedAt.after (h : CountedAt position events d) (hconsistent : d.Consistent)
    (operation : Operation) :
    CountedAt position (events ++ d.eventsAt position operation) (d.after operation) := by
  cases operation with
  | addService service strictness =>
      refine h.of_kept ?_
      rw [Decoder.after]
      split
      next next hnext => exact .addService hconsistent hnext
      next => exact .refl
  | addServices services strictness => exact h.of_kept (.addEach hconsistent strictness _)
  | removeServices services => exact h.of_kept (.removeServices d services)
  | reset => exact countedAt_ofSampling d.sampling
  | setSampling s strictness =>
      cases hnext : d.setSampling s strictness with
      | error cause =>
          simp only [eventsAt, Decoder.after, hnext, List.append_nil]
          exact h
      | ok result =>
          obtain ⟨next, outcomes⟩ := result
          simp only [eventsAt, Decoder.after, hnext]
          obtain ⟨_, rfl⟩ := setSampling_eq_ok hnext
          have hkept : KeptAt position _ _ (ofSampling s).patterns _ :=
            .addEach (.ofSampling s) strictness (d.services \ (ofSampling s).services).toList
          intro pattern' hget'
          obtain hzero | ⟨_, hget, _⟩ := hkept pattern' hget'
          · rw [hzero]
            exact List.nil_suffix
          · exact absurd hget (by simp [ofSampling])
  | decode capacity raw =>
      cases hnext : d.decode capacity raw with
      | error cause =>
          simp only [eventsAt, Decoder.after, hnext, List.append_nil]
          exact h
      | ok result =>
          obtain ⟨next, records⟩ := result
          simp only [eventsAt, Decoder.after, hnext]
          exact h.decode hnext

theorem CountedAt.run (h : CountedAt position events d) (hreachable : d.Reachable)
    (operations : List Operation) :
    CountedAt position (events ++ d.history position operations) (d.run operations) := by
  induction operations generalizing d events with
  | nil =>
      rw [history, List.append_nil]
      exact h
  | cons operation rest ih =>
      rw [history, ← List.append_assoc]
      exact ih (h.after hreachable.consistent operation) (hreachable.step operation)

end Counted

end Decoder

end Blanking
