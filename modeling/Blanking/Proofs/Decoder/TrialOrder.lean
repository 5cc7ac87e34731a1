import Mathlib.Data.List.Forall2
import Blanking.Proofs.Decoder.Pattern

/-! # Patterns as move-to-front lists

A pattern keeps its jobs in places and its count of failures behind them. To those who use it it is
a list of at most seven jobs, in which a successful job moves to the front, and a count: whatever
calls are made, each of them does to the places what it is meant to do to the list. -/

namespace Blanking

/-- The jobs of a line in the order of trial, and how often in a row all of them have failed. -/
@[ext]
structure TrialOrder where
  jobs : List Nat
  misses : Nat
  length_le : jobs.length ≤ patternWays
  nodup : jobs.Nodup
  misses_le : misses ≤ blankLimit
deriving DecidableEq

namespace LinePattern

/-- What is asked of a pattern. -/
inductive Call where
  | add (job : Nat)
  | remove (job : Nat)
  | removeAndRenumber (job : Nat)
  | promote (way : Nat)
  | miss
deriving DecidableEq

/-- The pattern after a call, and what the caller is told. -/
def call (p : LinePattern) : Call → LinePattern × Option Bool
  | .add job => ((p.add job).1, some (p.add job).2)
  | .remove job => (p.remove job, none)
  | .removeAndRenumber job => (p.removeAndRenumber job, none)
  | .promote way => (p.promote way, none)
  | .miss => (p.miss, none)

/-- Whether a call may be made: only a place that holds a job may be promoted, or one that is not
for jobs. -/
def Allows (p : LinePattern) : Call → Prop
  | .promote way => (p.jobAt? way).isSome ∨ patternWays ≤ way
  | _ => True

/-- Whether calls may be made one after the other. -/
def AllowsAll : LinePattern → List Call → Prop
  | _, [] => True
  | p, call :: rest => p.Allows call ∧ (p.call call).1.AllowsAll rest

/-- The pattern after each of some calls, with what the caller was told. -/
def history : LinePattern → List Call → List (LinePattern × Option Bool)
  | _, [] => []
  | p, call :: rest => p.call call :: (p.call call).1.history rest

instance (p : LinePattern) (call : Call) : Decidable (p.Allows call) := by
  cases call <;> unfold Allows <;> infer_instance

instance decidableAllowsAll : (p : LinePattern) → (calls : List Call) →
    Decidable (p.AllowsAll calls)
  | _, [] => isTrue trivial
  | p, call :: rest =>
      have := (p.call call).1.decidableAllowsAll rest
      inferInstanceAs (Decidable (p.Allows call ∧ (p.call call).1.AllowsAll rest))

end LinePattern

namespace TrialOrder

open LinePattern (Call)

/-- No jobs, and no failures yet. -/
def start : TrialOrder := ⟨[], 0, Nat.zero_le _, List.nodup_nil, Nat.zero_le _⟩

/-- The number of a job once an earlier job does not exist any more. -/
def lowered (removed job : Nat) : Nat := if removed < job then job - 1 else job

/-- The order of trial after a call. -/
def jobsAfter (t : TrialOrder) : Call → List Nat
  | .add job =>
      if job ∉ t.jobs ∧ t.jobs.length < patternWays then t.jobs ++ [job] else t.jobs
  | .remove job => t.jobs.erase job
  | .removeAndRenumber job => (t.jobs.erase job).map (lowered job)
  | .promote way =>
      match t.jobs[way]? with
      | some job => job :: t.jobs.erase job
      | none => t.jobs
  | .miss => t.jobs

/-- Whether a call inserts, deletes or promotes a job. -/
def resets (t : TrialOrder) : Call → Bool
  | .add job => job ∉ t.jobs ∧ t.jobs.length < patternWays
  | .remove job | .removeAndRenumber job => job ∈ t.jobs
  | .promote _ => true
  | .miss => false

/-- The failures in a row after a call. -/
def missesAfter (t : TrialOrder) (call : Call) : Nat :=
  if t.resets call then 0
  else if call = .miss then min (t.misses + 1) blankLimit
  else t.misses

/-- A job is not added where it is missing and there is no room. No other call is answered. -/
def answer (t : TrialOrder) : Call → Option Bool
  | .add job => some (job ∈ t.jobs ∨ t.jobs.length < patternWays)
  | _ => none

theorem lowered_injective_of_ne {removed a b : Nat} (ha : a ≠ removed) (hb : b ≠ removed)
    (h : lowered removed a = lowered removed b) : a = b := by
  unfold lowered at h
  split at h <;> split at h <;> omega

theorem erase_eq_filter (t : TrialOrder) (job : Nat) :
    t.jobs.erase job = t.jobs.filter (· != job) := t.nodup.erase_eq_filter job

theorem length_jobsAfter_le (t : TrialOrder) (call : Call) :
    (t.jobsAfter call).length ≤ patternWays := by
  have hlength := t.length_le
  have herase (job : Nat) : (t.jobs.erase job).length ≤ patternWays :=
    Nat.le_trans List.erase_sublist.length_le hlength
  cases call with
  | add job =>
      rw [jobsAfter]
      split
      next hnew =>
        rw [List.length_append, List.length_singleton]
        exact hnew.2
      next => exact hlength
  | remove job => exact herase job
  | removeAndRenumber job =>
      rw [jobsAfter, List.length_map]
      exact herase job
  | promote way =>
      rw [jobsAfter]
      split
      next job hjob =>
        have hmem := List.mem_of_getElem? hjob
        rwa [List.length_cons, List.length_erase_of_mem hmem,
          Nat.sub_add_cancel (List.length_pos_of_mem hmem)]
      next => exact hlength
  | miss => exact hlength

theorem nodup_jobsAfter (t : TrialOrder) (call : Call) : (t.jobsAfter call).Nodup := by
  cases call with
  | add job =>
      rw [jobsAfter]
      split
      next hnew => exact t.nodup.append (List.nodup_singleton job) (by simpa using hnew.1)
      next => exact t.nodup
  | remove job => exact t.nodup.erase job
  | removeAndRenumber job =>
      refine List.Nodup.map_on ?_ (t.nodup.erase job)
      intro a ha b hb
      exact lowered_injective_of_ne (t.nodup.mem_erase_iff.mp ha).1 (t.nodup.mem_erase_iff.mp hb).1
  | promote way =>
      rw [jobsAfter]
      split
      next job _ =>
        exact List.nodup_cons.mpr ⟨fun hmem => (t.nodup.mem_erase_iff.mp hmem).1 rfl,
          t.nodup.erase job⟩
      next => exact t.nodup
  | miss => exact t.nodup

theorem missesAfter_le (t : TrialOrder) (call : Call) : t.missesAfter call ≤ blankLimit := by
  unfold missesAfter
  split
  next => exact Nat.zero_le _
  next =>
    split
    next => exact Nat.min_le_right _ _
    next => exact t.misses_le

/-- What a call does to an order of trial. -/
def after (t : TrialOrder) (call : Call) : TrialOrder :=
  ⟨t.jobsAfter call, t.missesAfter call, t.length_jobsAfter_le call, t.nodup_jobsAfter call,
    t.missesAfter_le call⟩

/-- The order of trial after each of some calls, with what the caller is told. -/
def history : TrialOrder → List Call → List (TrialOrder × Option Bool)
  | _, [] => []
  | t, call :: rest => (t.after call, t.answer call) :: (t.after call).history rest

end TrialOrder

namespace LinePattern

/-- The pattern that stands for an order of trial. -/
def ofOrder (t : TrialOrder) : LinePattern := ofJobs t.jobs t.misses

/-- What can be seen of a pattern is what there is to see of an order of trial. -/
structure Shows (p : LinePattern) (t : TrialOrder) : Prop where
  jobs : p.jobs = t.jobs
  jobAt? : ∀ way, p.jobAt? way = t.jobs[way]?
  contains : ∀ job, p.contains job = decide (job ∈ t.jobs)
  hasRoom : p.hasRoom = decide (t.jobs.length < patternWays)
  isEmpty : p.isEmpty = t.jobs.isEmpty
  misses : p.misses = t.misses
  isBlank : p.isBlank = decide (t.misses = blankLimit)

section OfOrder

variable (t : TrialOrder)

@[simp]
theorem jobs_ofOrder : (ofOrder t).jobs = t.jobs := jobs_ofJobs t.length_le

@[simp]
theorem misses_ofOrder : (ofOrder t).misses = t.misses := misses_ofJobs

theorem contains_ofOrder (job : Nat) : (ofOrder t).contains job = decide (job ∈ t.jobs) := by
  rw [contains, jobs_ofOrder, List.contains_eq_mem]

theorem jobAt?_ofOrder (way : Nat) : (ofOrder t).jobAt? way = t.jobs[way]? := by
  rw [jobAt?, ofOrder, ways_ofJobs t.length_le]
  by_cases hway : way < t.jobs.length
  · simp [List.getElem?_append_left, hway, Slot.job?]
  · rw [List.getElem?_append_right (by simpa using hway), List.getElem?_replicate,
      List.getElem?_eq_none (Nat.le_of_not_lt hway)]
    split <;> rfl

theorem shows_ofOrder : (ofOrder t).Shows t where
  jobs := jobs_ofOrder t
  jobAt? := jobAt?_ofOrder t
  contains := contains_ofOrder t
  hasRoom := hasRoom_ofJobs
  isEmpty := isEmpty_ofJobs
  misses := misses_ofOrder t
  isBlank := by
    have hle := t.misses_le
    rw [isBlank, misses_ofOrder, decide_eq_decide]
    omega

end OfOrder

/-! ## Calls -/

section Calls

variable (t : TrialOrder)

theorem ofOrder_after (call : Call) :
    ofOrder (t.after call) = ofJobs (t.jobsAfter call) (t.missesAfter call) := rfl

theorem add_ofOrder (job : Nat) :
    (ofOrder t).add job =
      (ofOrder (t.after (.add job)), decide (job ∈ t.jobs ∨ t.jobs.length < patternWays)) := by
  have hmisses : t.missesAfter (.add job) =
      if job ∉ t.jobs ∧ t.jobs.length < patternWays then 0 else t.misses := by
    simp [TrialOrder.missesAfter, TrialOrder.resets]
  rw [ofOrder_after, TrialOrder.jobsAfter, hmisses]
  by_cases hmem : job ∈ t.jobs
  · rw [add, if_pos (by rw [contains_ofOrder, decide_eq_true hmem])]
    simp [hmem, ofOrder]
  · by_cases hroom : t.jobs.length < patternWays
    · rw [ofOrder, add_ofJobs hroom hmem]
      simp [hmem, hroom]
    · -- All places are taken, so none is found.
      have hfull : patternWays - t.jobs.length = 0 := Nat.sub_eq_zero_of_le (Nat.le_of_not_lt hroom)
      rw [add, contains_ofOrder, if_neg (by simpa using hmem), ofOrder, ways_ofJobs t.length_le,
        findIdx?_map_append, if_pos hfull]
      simp [hmem, hroom]

theorem remove_ofOrder (job : Nat) :
    (ofOrder t).remove job = ofOrder (t.after (.remove job)) := by
  have hmisses : t.missesAfter (.remove job) = if job ∈ t.jobs then 0 else t.misses := by
    simp [TrialOrder.missesAfter, TrialOrder.resets]
  rw [ofOrder, remove_ofJobs t.length_le, ← t.erase_eq_filter, ofOrder_after, hmisses]
  rfl

theorem removeAndRenumber_ofOrder (job : Nat) :
    (ofOrder t).removeAndRenumber job = ofOrder (t.after (.removeAndRenumber job)) := by
  have hmisses : t.missesAfter (.removeAndRenumber job) = if job ∈ t.jobs then 0 else t.misses := by
    simp [TrialOrder.missesAfter, TrialOrder.resets]
  rw [ofOrder, removeAndRenumber_ofJobs t.length_le, ← t.erase_eq_filter, ofOrder_after, hmisses]
  rfl

theorem promote_ofOrder {way : Nat} (hallowed : (ofOrder t).Allows (.promote way)) :
    (ofOrder t).promote way = ofOrder (t.after (.promote way)) := by
  have hmisses : t.missesAfter (.promote way) = 0 := rfl
  rw [ofOrder_after, hmisses, TrialOrder.jobsAfter]
  rcases hallowed with hjob | hlast
  · have hway : way < t.jobs.length := by simpa [jobAt?_ofOrder] using hjob
    rw [ofOrder, promote_ofJobs t.length_le hway, List.getElem?_eq_getElem hway]
    dsimp only
    rw [t.nodup.erase_getElem]
  · rw [promote, dif_neg (Nat.not_lt_of_le hlast), ofOrder, withMisses_ofJobs,
      List.getElem?_eq_none (Nat.le_trans t.length_le hlast)]

theorem miss_ofOrder : (ofOrder t).miss = ofOrder (t.after .miss) := miss_ofJobs

theorem call_ofOrder {call : Call} (hallowed : (ofOrder t).Allows call) :
    (ofOrder t).call call = (ofOrder (t.after call), t.answer call) := by
  cases call with
  | add job => rw [LinePattern.call, add_ofOrder, TrialOrder.answer]
  | remove job => exact Prod.ext (remove_ofOrder t job) rfl
  | removeAndRenumber job => exact Prod.ext (removeAndRenumber_ofOrder t job) rfl
  | promote way => exact Prod.ext (promote_ofOrder t hallowed) rfl
  | miss => exact Prod.ext (miss_ofOrder t) rfl

end Calls

theorem history_ofOrder (t : TrialOrder) {calls : List Call}
    (hallowed : (ofOrder t).AllowsAll calls) :
    (ofOrder t).history calls = (t.history calls).map fun step => (ofOrder step.1, step.2) := by
  induction calls generalizing t with
  | nil => rfl
  | cons call rest ih =>
      obtain ⟨hcall, hrest⟩ := hallowed
      have hstep := call_ofOrder t hcall
      rw [hstep] at hrest
      rw [history, hstep, ih _ hrest, TrialOrder.history, List.map_cons]

/-- As long as only places that hold a job are promoted, or none, a pattern without jobs becomes
after each call the pattern that stands for the order of trial after it. It shows that order, and
the caller is told what holds of it. -/
theorem history_refines {calls : List Call} (hallowed : empty.AllowsAll calls) :
    empty.Shows .start ∧
      List.Forall₂ (fun step order =>
          step.1 = ofOrder order.1 ∧ step.1.Shows order.1 ∧ step.2 = order.2)
        (empty.history calls) (TrialOrder.start.history calls) := by
  have hhistory := history_ofOrder .start hallowed
  refine ⟨shows_ofOrder .start, ?_⟩
  rw [show empty = ofOrder .start from rfl, hhistory, List.forall₂_map_left_iff]
  exact List.forall₂_same.mpr fun order _ => ⟨rfl, shows_ofOrder order.1, rfl⟩

/-- Jobs that come, are successful and go, the last one of them while the line is full. -/
def busyLine : List Call :=
  [.add 4, .add 1, .add 255, .add 1, .miss, .promote 2, .miss, .remove 9, .removeAndRenumber 1,
    .promote 7, .add 0, .add 1, .add 2, .add 5, .add 6, .add 7]

theorem history_refines_busyLine :
    empty.AllowsAll busyLine ∧
      List.Forall₂ (fun step order =>
          step.1 = ofOrder order.1 ∧ step.1.Shows order.1 ∧ step.2 = order.2)
        (empty.history busyLine) (TrialOrder.start.history busyLine) ∧
      (TrialOrder.start.history busyLine).getLast?.map (fun order => (order.1.jobs, order.2)) =
        some ([254, 3, 0, 1, 2, 5, 6], some false) := by
  have hallowed : empty.AllowsAll busyLine := by decide
  exact ⟨hallowed, (history_refines hallowed).2, by decide⟩

end LinePattern

end Blanking
