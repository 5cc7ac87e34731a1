import Blanking.Proofs.Slicer.InPlace
import Blanking.Proofs.Slicer.Points

/-! # Recording decisions in place

Nobody knows which bits of a line will be those of its run-in until that is complete. So the last
32 bits are kept in a ring. Once the run-in is complete as many as it has are taken out of the
ring, and everything that follows is appended to them. -/

namespace Blanking.InPlace

variable {count : Nat}

structure Recorder (count : Nat) where
  out : Vector Point count
  ring : Vector Point 32
  /-- Bits that have entered the ring. -/
  seen : Nat
  /-- Points that were recorded in front of `out`. -/
  length : Nat

namespace Recorder

/-- What the ring is filled with before any bit has entered it. -/
def blank : Point := ⟨.cri, 0, 0, 0⟩

def start (points : Vector Point count) : Recorder count :=
  ⟨points, Vector.replicate 32 blank, 0, 0⟩

/-- Puts a bit in the place of the oldest one. -/
def push (point : Point) (r : Recorder count) : Recorder count :=
  { r with
    ring := r.ring.set (r.seen % 32) point (Nat.mod_lt _ (by decide))
    seen := r.seen + 1 }

/-- The point at some number since the first bit. -/
def kept (r : Recorder count) (number : Nat) : Point :=
  have hplace : number % 32 < 32 := Nat.mod_lt _ (by decide)
  r.ring[number % 32]

/-- Copies the points from some number on. -/
def copy (r : Recorder count) :
    (left place number : Nat) → Vector Point count → Vector Point count
  | 0, _, _, out => out
  | left + 1, place, number, out =>
      r.copy left (place + 1) (number + 1) (out.setIfInBounds place (r.kept number))

/-- Records the last bits, as many as a run-in has. -/
def release (criBits : Nat) (r : Recorder count) : Recorder count :=
  let length := min criBits r.seen
  { r with out := r.copy length 0 (r.seen - length) r.out, length := length }

/-- Records a point if there is room for it. -/
def append (point : Point) (r : Recorder count) : Recorder count :=
  if h : r.length < count then
    { r with out := r.out.set r.length point h, length := r.length + 1 }
  else r

end Recorder

/-- Decisions are recorded. -/
def Sink.record (count : Nat) : Sink (Recorder count) :=
  ⟨Recorder.push, Recorder.release, Recorder.append⟩

namespace Recorder

/-! ## The ring -/

/-- What the ring holds once some bits have entered it, the latest one first. -/
structure Holds (latest : List Point) (r : Recorder count) : Prop where
  seen : r.seen = latest.length
  kept : ∀ back (h : back < latest.length), back < 32 → r.kept (r.seen - 1 - back) = latest[back]

theorem holds_start (points : Vector Point count) : (start points).Holds [] :=
  ⟨rfl, fun _ h => absurd h (Nat.not_lt_zero _)⟩

theorem kept_push_seen (point : Point) (r : Recorder count) :
    (r.push point).kept r.seen = point := by
  simp [push, kept]

/-- A bit replaces the one that entered the ring 32 bits before, and no later one. -/
theorem kept_push_of_lt (point : Point) (r : Recorder count) {number : Nat}
    (hlt : number < r.seen) (hlate : r.seen < number + 32) :
    (r.push point).kept number = r.kept number := by
  -- Two numbers less than 32 apart never share a place.
  have hne : r.seen % 32 ≠ number % 32 := by omega
  simp [push, kept, Vector.getElem_set_ne, hne]

theorem Holds.push {latest : List Point} {r : Recorder count} (h : r.Holds latest)
    (point : Point) : (r.push point).Holds (point :: latest) := by
  have hseen : (r.push point).seen = r.seen + 1 := rfl
  constructor
  · rw [hseen, h.seen, List.length_cons]
  · intro back hback hlate
    rw [hseen]
    cases back with
    | zero => exact kept_push_seen point r
    | succ back =>
        have hbefore : back < latest.length := by simpa using hback
        have hnumber : r.seen + 1 - 1 - (back + 1) = r.seen - 1 - back := by omega
        rw [hnumber, kept_push_of_lt point r (by have := h.seen; omega) (by omega),
          h.kept back hbefore (by omega), List.getElem_cons_succ]

theorem holds_foldr_push (latest : List Point) (points : Vector Point count) :
    (latest.foldr push (start points)).Holds latest := by
  induction latest with
  | nil => exact holds_start points
  | cons point before ih => exact ih.push point

/-! ## The record -/

/-- What was recorded so far in front of a buffer. -/
structure Shows (shown : List Point) (points : Vector Point count) (r : Recorder count) :
    Prop where
  out : r.out = overwrite shown points
  length : r.length = shown.length

theorem shows_start (points : Vector Point count) : (start points).Shows [] points :=
  ⟨(overwrite_nil points).symm, rfl⟩

/-- While a run-in is searched nothing is recorded. -/
theorem Shows.push {points : Vector Point count} (point : Point) (r : Recorder count)
    (h : r.Shows [] points) : (r.push point).Shows [] points := ⟨h.out, h.length⟩

theorem shows_foldr_push (latest : List Point) (points : Vector Point count) :
    (latest.foldr push (start points)).Shows [] points := by
  induction latest with
  | nil => exact shows_start points
  | cons point before ih => exact .push point _ ih

theorem copy_eq (r : Recorder count) (left place number : Nat) (out : Vector Point count) :
    r.copy left place number out = storeFrom place ((List.range' number left).map r.kept) out := by
  induction left generalizing place number out with
  | zero => rfl
  | succ left ih => rw [copy, ih, List.range'_succ, List.map_cons, storeFrom]

/-- The run-in is recorded in the order of its bits. -/
theorem Holds.release {latest : List Point} {points : Vector Point count} {r : Recorder count}
    (h : r.Holds latest) (hshows : r.Shows [] points) {criBits : Nat} (hbits : criBits ≤ 32) :
    (r.release criBits).Shows (latest.take criBits).reverse points := by
  have hlength : (latest.take criBits).reverse.length = min criBits r.seen := by
    rw [List.length_reverse, List.length_take, h.seen]
  have hlist : (List.range' (r.seen - min criBits r.seen) (min criBits r.seen)).map r.kept =
      (latest.take criBits).reverse := by
    apply List.ext_getElem
    · rw [List.length_map, List.length_range', hlength]
    · intro i hi hi'
      -- Copying goes forward from the oldest bit, and the list goes back from the latest one.
      have hless : i < min criBits r.seen := by simpa using hi
      have hseen := h.seen
      have hnumber : r.seen - min criBits r.seen + 1 * i =
          r.seen - 1 - (min criBits r.seen - 1 - i) := by omega
      have hback : (latest.take criBits).length - 1 - i = min criBits r.seen - 1 - i := by
        rw [List.length_take, hseen]
      simp only [List.getElem_map, List.getElem_range', List.getElem_reverse,
        List.getElem_take, hback]
      rw [hnumber, h.kept _ (by omega) (by omega)]
  constructor
  · rw [← overwrite_nil points, ← hshows.out, ← storeFrom_zero, ← hlist, ← copy_eq]
    rfl
  · exact hlength.symm

theorem Shows.append {shown : List Point} {points : Vector Point count} {r : Recorder count}
    (h : r.Shows shown points) (point : Point) (hroom : shown.length < count) :
    (r.append point).Shows (shown ++ [point]) points := by
  obtain ⟨hout, hlength⟩ := h
  rw [Recorder.append, dif_pos (hlength.trans_lt hroom)]
  constructor
  · simp only [hout, hlength]
    exact set_overwrite hroom
  · simp [hlength]

/-- As long as there is room everything behind the run-in is recorded. -/
theorem Shows.appendAll {shown : List Point} {points : Vector Point count} {r : Recorder count}
    (h : r.Shows shown points) (data : List Point) (hroom : shown.length + data.length ≤ count) :
    (data.foldl (fun r point => r.append point) r).Shows (shown ++ data) points := by
  induction data generalizing shown r with
  | nil => simpa using h
  | cons point rest ih =>
      rw [List.length_cons] at hroom
      have hnext := h.append point (by omega)
      have hall := ih hnext (by rw [List.length_append, List.length_singleton]; omega)
      rwa [List.append_assoc] at hall

end Recorder

/-! ## The record of a line -/

section Line

variable {size : Nat} {target : Target} {s : Slicer} {level : Nat → Nat}
  {work : Work (Recorder count) size} {points : Vector Point count}

/-- A line is recorded as it is traced, whether its transmission is received or not. -/
theorem sliceLine_shows (hconfig : SlicerConfig.ofTarget target = .ok s.config)
    (hroom : s.config.pointCount ≤ count) (hthreshold : work.threshold = s.threshold)
    (hsink : work.sink = .start points) :
    (sliceLine s.config (.record count) level work).1.sink.Shows (s.trace level).1 points := by
  have hcriBits : s.config.criBits ≤ 32 := by
    obtain ⟨hfeasible, hderive⟩ := SlicerConfig.ofTarget_eq_ok_iff.mp hconfig
    rw [hderive]
    exact hfeasible.criBits
  unfold Slicer.trace
  cases hsearch : s.config.search List.cons level s.threshold [] with
  | none =>
      rw [← hthreshold] at hsearch
      have hstart : work.sink.Shows [] points := hsink ▸ Recorder.shows_start points
      obtain ⟨after, hafter, _, hshows⟩ := sliceLine_of_none (.record count)
        (Recorder.Shows [] points) Recorder.Shows.push hstart hsearch
      rw [hafter]
      exact hshows
  | some found =>
      obtain ⟨lock, latest⟩ := found
      rw [← hthreshold] at hsearch
      have hrunIn := (Recorder.holds_foldr_push latest points).release
        (Recorder.shows_foldr_push latest points) hcriBits
      have hlength : (latest.take s.config.criBits).reverse.length ≤ s.config.criBits := by
        rw [List.length_reverse, List.length_take]
        exact Nat.min_le_left _ _
      rw [SlicerConfig.pointCount] at hroom
      rw [sliceLine_of_lock hconfig hsearch, hsink]
      dsimp only
      cases hreceive : s.config.receive level lock with
      | none =>
          refine hrunIn.appendAll (s.config.frcPoints level lock) ?_
          have hfrc := SlicerConfig.length_frcPoints_le s.config level lock
          omega
      | some reception =>
          refine hrunIn.appendAll reception.points ?_
          obtain ⟨hfits, _, rfl⟩ := SlicerConfig.receive_eq_some hreceive
          rw [List.length_append, SlicerConfig.length_frcPoints hfits,
            SlicerConfig.length_payloadPoints]
          omega

end Line

end Blanking.InPlace
