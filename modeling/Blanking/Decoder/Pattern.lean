/-! # Line patterns

Each sampled line has a pattern: which jobs to try on it, the most recently successful one
first, and how many times in a row all of them have failed. -/

namespace Blanking

/-- The jobs that can be tried on one line at most. -/
abbrev patternWays : Nat := 7

/-- Places of a pattern. The one behind those of the jobs is for the count of failures. -/
abbrev patternSlots : Nat := patternWays + 1

/-- Failures in a row after which a line counts as blank. -/
def blankLimit : Nat := 128

/-- What a place of a pattern holds. -/
inductive Slot where
  | empty
  | job (number : Nat)
  /-- Failures in a row. -/
  | misses (count : Nat)
deriving DecidableEq

namespace Slot

/-- A place for a job, which may be left free. -/
def ofJob? : Option Nat → Slot
  | none => .empty
  | some number => .job number

def job? : Slot → Option Nat
  | .job number => some number
  | _ => none

/-- Gives a job the number before its own if that is behind some other. -/
def renumber (removed : Nat) : Slot → Slot
  | .job number => .job (if removed < number then number - 1 else number)
  | slot => slot

end Slot

/-- What to try on one line. -/
structure LinePattern where
  /-- Numbers of the jobs in the order of trial, and the count of failures behind them. -/
  slots : Vector Slot patternSlots
deriving DecidableEq

namespace LinePattern

/-- The pattern with some jobs in the order of trial. Those without a place are dropped. -/
def ofJobs (jobs : List Nat) (misses : Nat) : LinePattern :=
  ⟨Vector.ofFn fun way =>
    if way.val < patternWays then .ofJob? jobs[way.val]? else .misses misses⟩

def empty : LinePattern := ofJobs [] 0

/-- The places for jobs. -/
def ways (p : LinePattern) : List Slot := p.slots.toList.take patternWays

/-- The jobs of some places up to the first one that holds none. -/
def leadingJobs : List Slot → List Nat
  | .job number :: rest => number :: leadingJobs rest
  | _ => []

/-- The jobs in the order of trial. -/
def jobs (p : LinePattern) : List Nat := leadingJobs p.ways

/-- The job that is tried after `way` others. -/
def jobAt? (p : LinePattern) (way : Nat) : Option Nat := p.ways[way]?.bind Slot.job?

def isEmpty (p : LinePattern) : Bool := p.slots[0] == .empty

def contains (p : LinePattern) (job : Nat) : Bool := p.jobs.contains job

def hasRoom (p : LinePattern) : Bool := p.slots[6] == .empty

/-- Failures of all jobs in a row, counted up to the limit. -/
def misses (p : LinePattern) : Nat :=
  match p.slots[7] with
  | .misses count => count
  | _ => 0

/-- Whether the line has failed so often that it is only tried from time to time. -/
def isBlank (p : LinePattern) : Bool := blankLimit ≤ p.misses

/-- Whether the line is tried, as a blank one is only when it is probed. -/
def isTried (p : LinePattern) (probe : Bool) : Bool := !p.isEmpty && (!p.isBlank || probe)

/-- Replaces the count of failures. -/
def withMisses (p : LinePattern) (count : Nat) : LinePattern := ⟨p.slots.set 7 (.misses count)⟩

/-- Appends a job to the order of trial, and tells whether the job is in it then. -/
def add (p : LinePattern) (job : Nat) : LinePattern × Bool :=
  if p.contains job then (p, true)
  else
    match p.ways.findIdx? (· == .empty) with
    | some way => (withMisses ⟨p.slots.setIfInBounds way (.job job)⟩ 0, true)
    | none => (p, false)

/-- Takes a job out of the order of trial. Nothing changes on a line without it. -/
def remove (p : LinePattern) (job : Nat) : LinePattern :=
  if p.contains job then ofJobs (p.jobs.filter (· != job)) 0 else p

/-- Takes a job out and gives all later jobs the number before theirs, as is right once the job
does not exist any more. -/
def removeAndRenumber (p : LinePattern) (job : Nat) : LinePattern :=
  let rest := p.remove job
  ⟨Vector.ofFn fun way =>
    if way.val < patternWays then rest.slots[way].renumber job else rest.slots[way]⟩

/-- Moves the job at a place in the order of trial to the front, after it was successful. -/
def promote (p : LinePattern) (way : Nat) : LinePattern :=
  if h : way < patternWays then
    have hslot : way < patternSlots := Nat.lt_succ_of_lt h
    withMisses ⟨Vector.ofFn fun i =>
      if i.val = 0 then p.slots[way]
      else if i.val ≤ way then p.slots[i.val - 1] else p.slots[i]⟩ 0
  else p.withMisses 0

/-- Counts a failure of all jobs. -/
def miss (p : LinePattern) : LinePattern := p.withMisses (min (p.misses + 1) blankLimit)

end LinePattern

end Blanking
