import Mathlib.Data.List.Pairwise
import Blanking.Proofs.Decoder.Checked
import Blanking.Proofs.Service.Group

/-! # How services are divided among jobs

Every service that is decoded belongs to one job. The services of a group share a job, and any
other service has one of its own. Whatever is added, removed or decoded, the jobs divide the
services in this way. -/

namespace Blanking

/-- A pair that is replaced by one that stands in the same relations. -/
theorem pairwise_set {α : Type} {R : α → α → Prop} {values : List α} {position : Nat}
    {before after : α} (h : values.Pairwise R) (hget : values[position]? = some before)
    (hleft : ∀ value, R before value → R after value)
    (hright : ∀ value, R value before → R value after) :
    (values.set position after).Pairwise R := by
  induction values generalizing position with
  | nil => exact h
  | cons first rest ih =>
      obtain ⟨hfirst, hrest⟩ := List.pairwise_cons.mp h
      cases position with
      | zero =>
          obtain rfl := Option.some.inj hget
          exact List.pairwise_cons.mpr
            ⟨fun value hvalue => hleft value (hfirst value hvalue), hrest⟩
      | succ position =>
          refine List.pairwise_cons.mpr ⟨?_, ih hrest hget⟩
          intro value hvalue
          rcases List.mem_or_eq_of_mem_set hvalue with hvalue | rfl
          · exact hfirst value hvalue
          · exact hright first (hfirst before (List.mem_of_getElem? hget))

/-! ## Shares of a set of services -/

/-- Sets that divide a set of services among them. Services of one group are in one share, and
those of different groups in different ones. -/
structure ServiceSet.Divided (services : ServiceSet) (shares : List ServiceSet) : Prop where
  known : services.IsKnown
  covered : ∀ service, services.contains service = true ↔
    ∃ share ∈ shares, share.contains service = true
  alike : ∀ share ∈ shares, ∀ a b, share.contains a = true → share.contains b = true →
    a.leader = b.leader
  apart : shares.Pairwise fun first second => ∀ a b, first.contains a = true →
    second.contains b = true → a.leader ≠ b.leader

namespace ServiceSet.Divided

variable {services : ServiceSet} {shares : List ServiceSet} {service : Service}

theorem empty : ServiceSet.empty.Divided [] where
  known := isKnown_empty
  covered service := by simp
  alike share hshare := absurd hshare (by simp)
  apart := List.Pairwise.nil

/-- A service may join a share with which it is mergeable. -/
theorem join (h : services.Divided shares) {number : Nat} {share : ServiceSet} {member : Service}
    (hget : shares[number]? = some share) (hmember : share.contains member = true)
    (hmergeable : (share.insert service).isMergeable = true) :
    (services.insert service).Divided (shares.set number (share.insert service)) := by
  have hmem := List.mem_of_getElem? hget
  have hjoined : share.insert service ∈ shares.set number (share.insert service) := by
    apply List.mem_of_getElem? (i := number)
    rw [List.getElem?_set_self', hget]
    rfl
  have halike (other : Service) (hother : (share.insert service).contains other = true) :
      other.leader = member.leader := by
    apply leader_eq_of_isMergeable hmergeable hother
    simp [hmember]
  constructor
  · exact h.known.insert service
  · intro other
    rw [contains_insert, Bool.or_eq_true, h.covered, decide_eq_true_eq]
    constructor
    · rintro (⟨held, hheld, hother⟩ | rfl)
      · obtain ⟨place, hplace⟩ := List.mem_iff_getElem?.mp hheld
        by_cases hsame : number = place
        · -- The share that the service joins keeps the services that it had.
          subst hsame
          obtain rfl := Option.some.inj (hget.symm.trans hplace)
          exact ⟨share.insert service, hjoined, by simp [hother]⟩
        · refine ⟨held, List.mem_of_getElem? (i := place) ?_, hother⟩
          rw [List.getElem?_set_ne hsame, hplace]
      · exact ⟨share.insert service, hjoined, by simp⟩
    · rintro ⟨held, hheld, hother⟩
      rcases List.mem_or_eq_of_mem_set hheld with hheld | rfl
      · exact Or.inl ⟨held, hheld, hother⟩
      · rw [contains_insert, Bool.or_eq_true, decide_eq_true_eq] at hother
        exact hother.imp_left fun hother => ⟨share, hmem, hother⟩
  · intro held hheld a b ha hb
    rcases List.mem_or_eq_of_mem_set hheld with hheld | rfl
    · exact h.alike held hheld a b ha hb
    · rw [halike a ha, halike b hb]
  · refine pairwise_set h.apart hget ?_ ?_
    · intro held hheld a b ha hb
      rw [halike a ha]
      exact hheld member b hmember hb
    · intro held hheld a b ha hb
      rw [halike b hb]
      exact hheld a member ha hmember

/-- A service that is mergeable with none of the shares becomes one of its own. -/
theorem append (h : services.Divided shares) (hnew : services.contains service = false)
    (hshares : ∀ share ∈ shares, share.IsKnown)
    (hnot : ∀ share ∈ shares, (share.insert service).isMergeable = false) :
    (services.insert service).Divided (shares ++ [singleton service]) := by
  have hfresh (share : ServiceSet) (hshare : share ∈ shares) :
      share.contains service = false := by
    by_contra hhas
    rw [(h.covered service).mpr ⟨share, hshare, by simpa using hhas⟩] at hnew
    exact absurd hnew (by decide)
  constructor
  · exact h.known.insert service
  · intro other
    simp only [contains_insert, Bool.or_eq_true, h.covered, List.mem_append, List.mem_singleton,
      or_and_right, exists_or, exists_eq_left, contains_singleton]
  · intro share hshare a b ha hb
    rcases List.mem_append.mp hshare with hshare | hshare
    · exact h.alike share hshare a b ha hb
    · obtain rfl := List.mem_singleton.mp hshare
      obtain rfl : service = a := by simpa using ha
      obtain rfl : service = b := by simpa using hb
      rfl
  · refine List.pairwise_append.mpr ⟨h.apart, List.pairwise_singleton _ _, ?_⟩
    intro share hshare last hlast a b ha hb heq
    obtain rfl := List.mem_singleton.mp hlast
    obtain rfl : service = b := by simpa using hb
    -- All of a share are of the group of the service if one of them is.
    have hmergeable : (share.insert service).isMergeable = true :=
      isMergeable_insert (hshares share hshare) ha (hfresh share hshare)
        fun other hother => (h.alike share hshare other a hother ha).trans heq
    rw [hnot share hshare] at hmergeable
    exact absurd hmergeable (by decide)

/-- Shares may give up services, and those that have none left are dropped. -/
theorem sdiff (h : services.Divided shares) (removed : ServiceSet) :
    (services \ removed).Divided ((shares.map (· \ removed)).filter (!·.isEmpty)) := by
  constructor
  · exact h.known.sdiff removed
  · intro service
    rw [contains_sdiff, Bool.and_eq_true, h.covered]
    constructor
    · rintro ⟨⟨share, hshare, hservice⟩, hkept⟩
      have hrest : (share \ removed).contains service = true := by simp [hservice, hkept]
      refine ⟨share \ removed, List.mem_filter.mpr ⟨List.mem_map_of_mem hshare, ?_⟩, hrest⟩
      rw [isEmpty_of_contains hrest]
      rfl
    · rintro ⟨rest, hrest, hservice⟩
      obtain ⟨share, hshare, rfl⟩ := List.mem_map.mp (List.mem_filter.mp hrest).1
      rw [contains_sdiff, Bool.and_eq_true] at hservice
      exact ⟨⟨share, hshare, hservice.1⟩, hservice.2⟩
  · intro rest hrest a b ha hb
    obtain ⟨share, hshare, rfl⟩ := List.mem_map.mp (List.mem_filter.mp hrest).1
    exact h.alike share hshare a b (contains_of_sdiff ha) (contains_of_sdiff hb)
  · refine (List.pairwise_map.mpr (h.apart.imp ?_)).filter _
    intro first second hapart a b ha hb
    exact hapart a b (contains_of_sdiff ha) (contains_of_sdiff hb)

/-- Two services that stand for one group are in one share. -/
theorem share_eq (h : services.Divided shares) {first second : ServiceSet} {a b : Service}
    (hfirst : first ∈ shares) (hsecond : second ∈ shares) (ha : first.contains a = true)
    (hb : second.contains b = true) (heq : a.leader = b.leader) : first = second := by
  by_contra hne
  have hsymm : Std.Symm fun first second : ServiceSet => ∀ a b, first.contains a = true →
      second.contains b = true → a.leader ≠ b.leader :=
    ⟨fun first second hapart a b ha hb heq => hapart b a hb ha heq.symm⟩
  exact h.apart.forall hfirst hsecond hne a b ha hb heq

end ServiceSet.Divided

/-! ## Jobs -/

/-- A job without some services. -/
def Job.without (removed : ServiceSet) (job : Job) : Job :=
  { job with services := job.services \ removed }

namespace Decoder

/-- Jobs give up the removed services, and those that have none left are dropped. -/
theorem dropFrom_fst {s : Sampling} {removed : ServiceSet} {number : Nat} {jobs : List Job}
    {patterns : List LinePattern} (hjobs : ∀ job ∈ jobs, job.services.isEmpty = false) :
    (dropFrom s removed number jobs patterns).1 =
      (jobs.map (Job.without removed)).filter (!·.services.isEmpty) := by
  fun_induction dropFrom s removed number jobs patterns with
  | case1 => rfl
  | case2 number job rest patterns hdisjoint jobs after hrest ih =>
      rw [hrest] at ih
      have hsame : job.without removed = job := by
        rw [Job.without, ServiceSet.sdiff_eq_self (by simpa using hdisjoint)]
      have hjob := hjobs job List.mem_cons_self
      have htail := ih fun other hother => hjobs other (List.mem_cons_of_mem _ hother)
      simp only at htail
      simp only [List.map_cons, hsame, List.filter_cons, hjob, Bool.not_false, if_true, htail]
  | case3 number job rest patterns hmeets remaining hempty ih =>
      rw [ih fun other hother => hjobs other (List.mem_cons_of_mem _ hother), List.map_cons,
        List.filter_cons_of_neg]
      simpa [Job.without] using hempty
  | case4 number job rest patterns hmeets remaining hleft cleared moved jobs after hrest ih =>
      rw [hrest] at ih
      have hkept : (job.without removed).services.isEmpty = false := Bool.eq_false_iff.mpr hleft
      have htail := ih fun other hother => hjobs other (List.mem_cons_of_mem _ hother)
      simp only at htail
      simp only [List.map_cons, List.filter_cons, hkept, Bool.not_false, if_true, htail]
      rfl

theorem isMergeable_of_assign {d : Decoder} {service : Service} {strictness : Strictness}
    {jobs : List Job} (h : d.assign service strictness = .ok (jobs, d.jobs.length)) {job : Job}
    (hjob : job ∈ d.jobs) : (job.services.insert service).isMergeable = false := by
  unfold assign at h
  split at h
  next found hfound =>
    obtain ⟨hlt, _⟩ := List.findIdx?_eq_some_iff_getElem.mp hfound
    obtain ⟨_, rfl⟩ := Prod.mk.inj (Except.ok.inj h)
    exact absurd hlt (Nat.lt_irrefl _)
  next hnone => exact List.findIdx?_eq_none_iff.mp hnone job hjob

/-- Whichever job gets a service, the services are divided among the jobs as before. -/
theorem divided_assign {d : Decoder} (hsound : d.Sound)
    (h : d.services.Divided (d.jobs.map Job.services)) {service : Service}
    {strictness : Strictness} {jobs : List Job} {number : Nat}
    (hnew : d.services.contains service = false)
    (hassign : d.assign service strictness = .ok (jobs, number)) :
    (d.services.insert service).Divided (jobs.map Job.services) := by
  obtain ⟨job, hget, hmergeable, rfl⟩ | ⟨slicer, _, rfl, rfl⟩ := assign_eq_ok hassign
  · have hjob := hsound.jobs job (List.mem_of_getElem? hget)
    obtain ⟨member, hmember⟩ := hjob.exists_contains
    rw [List.map_set]
    exact h.join (by simp [hget]) hmember hmergeable
  · rw [List.map_append]
    refine h.append hnew ?_ ?_
    · intro share hshare
      obtain ⟨job, hjob, rfl⟩ := List.mem_map.mp hshare
      exact (hsound.jobs job hjob).known
    · intro share hshare
      obtain ⟨job, hjob, rfl⟩ := List.mem_map.mp hshare
      exact isMergeable_of_assign hassign hjob

/-- What holds of the services of a decoder and its jobs at any time. -/
structure Partitioned (d : Decoder) : Prop where
  sound : d.Sound
  divided : d.services.Divided (d.jobs.map Job.services)

namespace Partitioned

theorem ofSampling (s : Sampling) : (Decoder.ofSampling s).Partitioned :=
  ⟨Sound.ofSampling s, .empty⟩

theorem addService {d next : Decoder} {service : Service} {strictness : Strictness}
    (h : d.Partitioned) (hnext : d.addService service strictness = .ok next) :
    next.Partitioned := by
  refine ⟨h.sound.addService hnext, ?_⟩
  rcases addService_eq_ok hnext with ⟨rfl, _⟩ | ⟨jobs, number, hadded⟩
  · exact h.divided
  · rw [hadded.next_eq]
    exact divided_assign h.sound h.divided hadded.isNew hadded.assigned

theorem removeServices {d : Decoder} (h : d.Partitioned) (services : ServiceSet) :
    (d.removeServices services).Partitioned := by
  refine ⟨h.sound.removeServices services, ?_⟩
  have hrest := h.divided.sdiff (d.services ∩ services)
  rw [List.map_map, List.filter_map] at hrest
  rw [removeServices_eq, dropFrom_fst fun job hjob => (h.sound.jobs job hjob).nonempty]
  dsimp only
  rw [List.filter_map, List.map_map]
  exact hrest

theorem decode {d next : Decoder} {capacity : Nat} {raw : ByteArray} {records : List Record}
    (h : d.Partitioned) (hnext : d.decode capacity raw = .ok (next, records)) :
    next.Partitioned := by
  refine ⟨h.sound.decode hnext, ?_⟩
  obtain ⟨_, rfl, _⟩ := decode_eq_ok hnext
  have hservices := congrArg (List.map Prod.fst) (d.map_setup_verdicts capacity raw)
  rw [List.map_map, List.map_map] at hservices
  change d.services.Divided ((d.verdicts capacity raw).1.map Job.services)
  exact hservices ▸ h.divided

end Partitioned

theorem Reachable.partitioned {d : Decoder} (h : d.Reachable) : d.Partitioned :=
  h.invariant Partitioned (fun s _ => Partitioned.ofSampling s)
    (fun _ _ _ _ hd hnext => hd.addService hnext) (fun _ services hd => hd.removeServices services)
    fun _ _ _ _ _ hd hnext => hd.decode hnext

/-- In every state of a decoder its services are the disjoint union of those of its jobs. No job
is without a service, two services share a job exactly if they lie in one group, and the slicer of
a job is the one that each of its services would be given. -/
theorem InWords.Reachable.jobs_partition {d : Decoder} (h : InWords.Reachable d) :
    d.services = (d.jobs.map Job.services).foldl (· ∪ ·) .empty ∧
      (d.jobs.Pairwise fun first second => first.services.intersects second.services = false) ∧
      (∀ job ∈ d.jobs, ∃ service, job.services.contains service = true) ∧
      (∀ a b, d.services.contains a = true → d.services.contains b = true → a ≠ b →
        ((∃ job ∈ d.jobs, job.services.contains a = true ∧ job.services.contains b = true) ↔
          a.SameGroup b)) ∧
      ∀ job ∈ d.jobs, ∃ strictness, ∀ service, job.services.contains service = true →
        SlicerConfig.ofTarget (.ofService service.transmission d.sampling strictness) =
          .ok job.slicer.config := by
  obtain ⟨hsound, hdivided⟩ := h.reachable.partitioned
  have hknown (share : ServiceSet) (hshare : share ∈ d.jobs.map Job.services) :
      share.IsKnown := by
    obtain ⟨job, hjob, rfl⟩ := List.mem_map.mp hshare
    exact (hsound.jobs job hjob).known
  refine ⟨?_, ?_, ?_, ?_, fun job hjob => (hsound.jobs job hjob).configured⟩
  · apply hdivided.known.ext (.foldl_union hknown ServiceSet.isKnown_empty)
    intro service
    rw [Bool.eq_iff_iff, ServiceSet.contains_foldl_union, hdivided.covered]
    simp
  · refine (List.pairwise_map.mp hdivided.apart).imp_of_mem ?_
    intro first second hfirst _ hapart
    by_contra hmeet
    obtain ⟨service, ha, hb⟩ := (hsound.jobs first hfirst).known.exists_contains_inter
      (by simpa using hmeet)
    exact hapart service service ha hb rfl
  · intro job hjob
    exact (hsound.jobs job hjob).exists_contains
  · intro a b ha hb hne
    have hgroup : a.SameGroup b ↔ a.leader = b.leader := by
      rw [Service.leader_eq_iff, or_iff_right hne]
    rw [hgroup]
    constructor
    · rintro ⟨job, hjob, hjobA, hjobB⟩
      exact hdivided.alike job.services (List.mem_map_of_mem hjob) a b hjobA hjobB
    · intro heq
      obtain ⟨first, hfirst, hfirstA⟩ := (hdivided.covered a).mp ha
      obtain ⟨second, hsecond, hsecondB⟩ := (hdivided.covered b).mp hb
      obtain rfl := hdivided.share_eq hfirst hsecond hfirstA hsecondB heq
      obtain ⟨job, hjob, rfl⟩ := List.mem_map.mp hfirst
      exact ⟨job, hjob, hfirstA, hsecondB⟩

/-- A run in which half of a group is given up and taken on again. -/
def runWithVpsAgain : Decoder :=
  (ofSampling .preset625).run
    [.addServices (.vps ∪ .caption625) .strict, .removeServices (.singleton .vps),
      .addService .vps .loose]

/-- Both halves share a job again, and no caption is in it. -/
theorem jobs_partition_runWithVpsAgain :
    InWords.Reachable runWithVpsAgain ∧
      (∃ job ∈ runWithVpsAgain.jobs, job.services.contains .vps = true ∧
        job.services.contains .vpsField2 = true) ∧
      ¬ ∃ job ∈ runWithVpsAgain.jobs, job.services.contains .vps = true ∧
        job.services.contains .caption625Field1 = true := by
  have hrun : InWords.run? (ofSampling .preset625)
      [.addServices (.vps ∪ .caption625) .strict, .removeServices (.singleton .vps),
        .addService .vps .loose] = some runWithVpsAgain := by decide +kernel
  have hreachable : InWords.Reachable runWithVpsAgain :=
    .of_run? (show Sampling.preset625.Valid from rfl) hrun
  have hservices : runWithVpsAgain.services = .vps ∪ .caption625 := by decide +kernel
  obtain ⟨_, _, _, hshare, _⟩ := InWords.Reachable.jobs_partition hreachable
  simp only [hservices] at hshare
  refine ⟨hreachable, ?_, ?_⟩
  · exact (hshare .vps .vpsField2 (by decide) (by decide) (by decide)).mpr
      ⟨.vps, by decide, by decide, by decide⟩
  · rw [hshare .vps .caption625Field1 (by decide) (by decide) (by decide)]
    unfold Service.SameGroup
    decide

end Decoder

end Blanking
