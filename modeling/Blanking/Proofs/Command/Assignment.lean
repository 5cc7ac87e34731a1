import Blanking.Command.Synth
import Blanking.Proofs.Sampling.Rows
import Blanking.Proofs.Service.Set

/-! # Lines for test data

Lines are given out one after the other, service by service, and a line that is taken stays taken.
So no line is given out twice, and a service that goes without a line finds each of those it could
have had in the hands of a service before it. -/

namespace Blanking

/-- Whether a service stands before another one in the table. -/
def Service.Before (a b : Service) : Prop := Service.all.idxOf a < Service.all.idxOf b

instance : DecidableRel Service.Before := fun _ _ => inferInstanceAs (Decidable (_ < _))

theorem Service.pairwise_all : Service.all.Pairwise Service.Before := by decide

namespace Synth

variable {s : Sampling} {service : Service} {field : Field} {lines : Lines}

/-! ## One line -/

theorem mem_lineRange (hstart : s.start.on field ≠ 0) (hcount : s.count.on field ≠ 0)
    (hfield : service.transmission.onField field = true) {line : Nat} :
    line ∈ lineRange s service.transmission field ↔
      s.HasLine field line ∧ service.transmission.covers field line = true := by
  simp only [lineRange, List.mem_map, List.mem_range, Sampling.HasLine, Transmission.covers, hfield,
    Bool.true_and, Bool.and_eq_true, decide_eq_true_eq, Sampling.lastLine]
  constructor
  · rintro ⟨index, hindex, rfl⟩
    omega
  · intro hline
    exact ⟨line - max (service.transmission.first.on field) (s.start.on field), by omega, by omega⟩

/-- The line that a service is given is one of its own, and free. -/
theorem assignOn_eq_line {line : Nat} (h : assignOn s lines service field = .line line) :
    s.HasLine field line ∧ service.transmission.covers field line = true ∧
      ∀ pair ∈ lines, pair.2 ≠ line := by
  dsimp only [assignOn] at h
  split at h
  next => cases h
  next hsampled =>
    split at h
    next => cases h
    next hstart =>
      split at h
      next found hfind =>
        obtain rfl := Assignment.line.inj h
        rw [Bool.or_eq_true, Bool.not_eq_true', beq_iff_eq, not_or, Bool.not_eq_false] at hsampled
        obtain ⟨hline, hcovers⟩ :=
          (mem_lineRange hstart hsampled.2 hsampled.1).mp (List.mem_of_find?_eq_some hfind)
        have hfree := List.find?_some hfind
        simp only [List.all_eq_true, bne_iff_ne] at hfree
        exact ⟨hline, hcovers, hfree⟩
      next => cases h

/-- A service with a free line on a field is given one. -/
theorem exists_assignOn_eq_line {line : Nat} (hline : s.HasLine field line)
    (hcovers : service.transmission.covers field line = true)
    (hfree : ∀ pair ∈ lines, pair.2 ≠ line) :
    ∃ found, assignOn s lines service field = .line found := by
  have hfield : service.transmission.onField field = true := by
    simp only [Transmission.covers, Bool.and_eq_true] at hcovers
    exact hcovers.1.1
  have hstart : s.start.on field ≠ 0 := Nat.ne_of_gt hline.1
  have hcount : s.count.on field ≠ 0 := by
    obtain ⟨_, hfirst, hlast⟩ := hline
    omega
  have hmem := (mem_lineRange hstart hcount hfield).mpr ⟨hline, hcovers⟩
  have hfound : ((lineRange s service.transmission field).find? fun line =>
      lines.all (·.2 != line)).isSome = true := by
    rw [List.find?_isSome]
    exact ⟨line, hmem, by simpa using hfree⟩
  obtain ⟨found, hfind⟩ := Option.isSome_iff_exists.mp hfound
  refine ⟨found, ?_⟩
  dsimp only [assignOn]
  rw [if_neg (by simp [hfield, hcount]), if_neg hstart, hfind]

/-- The lines that are taken after a place. -/
def assignNext (s : Sampling) (lines : Lines) (place : Service × Field) : Lines :=
  match assignOn s lines place.1 place.2 with
  | .line line => lines ++ [(place.1, line)]
  | _ => lines

theorem assignAll_fst (s : Sampling) (lines : Lines) (places : List (Service × Field)) :
    (assignAll s lines places).1 = places.foldl (assignNext s) lines := by
  induction places generalizing lines with
  | nil => rfl
  | cons place rest ih => exact ih _

/-- A service is given a free one of its lines, or there is none. -/
theorem assignNext_cases (s : Sampling) (lines : Lines) (service : Service) (field : Field) :
    (∃ line, assignNext s lines (service, field) = lines ++ [(service, line)] ∧
      s.HasLine field line ∧ service.transmission.covers field line = true ∧
      ∀ pair ∈ lines, pair.2 ≠ line) ∨
    assignNext s lines (service, field) = lines ∧
      ∀ line, s.HasLine field line → service.transmission.covers field line = true →
        ∃ holder, (holder, line) ∈ lines := by
  by_cases hassign : ∃ line, assignOn s lines service field = .line line
  · obtain ⟨line, hline⟩ := hassign
    refine Or.inl ⟨line, ?_, assignOn_eq_line hline⟩
    rw [assignNext, hline]
  · refine Or.inr ⟨?_, fun line hline hcovers => ?_⟩
    · rw [assignNext]
      split
      next line hline => exact absurd ⟨line, hline⟩ hassign
      next => rfl
    · by_contra hnone
      refine hassign (exists_assignOn_eq_line hline hcovers fun pair hpair heq => ?_)
      exact hnone ⟨pair.1, by rwa [← heq]⟩

/-! ## All lines -/

/-- What holds of the lines that are taken once some places were served. -/
structure Assigned (s : Sampling) (done : List (Service × Field)) (lines : Lines) : Prop where
  nodup : (lines.map (·.2)).Nodup
  /-- A line is one of its service, on a field that was served. -/
  sound : ∀ service line, (service, line) ∈ lines → ∃ field, (service, field) ∈ done ∧
    s.HasLine field line ∧ service.transmission.covers field line = true
  once : ∀ service field line line', (service, line) ∈ lines → (service, line') ∈ lines →
    s.HasLine field line → s.HasLine field line' → line = line'
  /-- A place without a line finds its lines taken by services before its own. -/
  complete : ∀ service field, (service, field) ∈ done →
    (∃ line, (service, line) ∈ lines ∧ s.HasLine field line) ∨
      ∀ line, s.HasLine field line → service.transmission.covers field line = true →
        ∃ earlier, earlier.Before service ∧ (earlier, line) ∈ lines

theorem assigned_nil (s : Sampling) : Assigned s [] [] where
  nodup := List.nodup_nil
  sound _ _ hmem := nomatch hmem
  once _ _ _ _ hmem := nomatch hmem
  complete _ _ hmem := nomatch hmem

/-- The order in which places are served: by the table, and the first field first. -/
def Precedes (a b : Service × Field) : Prop :=
  a.1.Before b.1 ∨ a.1 = b.1 ∧ a.2.index < b.2.index

theorem Precedes.ne {a b : Service × Field} (h : Precedes a b) : a ≠ b := by
  rintro rfl
  exact h.elim (Nat.lt_irrefl _) fun hfield => Nat.lt_irrefl _ hfield.2

theorem pairwise_places (services : ServiceSet) : (places services).Pairwise Precedes := by
  rw [places, List.pairwise_flatMap]
  constructor
  · intro service _
    exact List.pairwise_cons.mpr ⟨by simp [Precedes, Field.index], List.pairwise_singleton _ _⟩
  · refine (Service.pairwise_all.filter _).imp fun hbefore a ha b hb => Or.inl ?_
    obtain ⟨_, _, rfl⟩ := List.mem_map.mp ha
    obtain ⟨_, _, rfl⟩ := List.mem_map.mp hb
    exact hbefore

section Step

variable (hvalid : s.Valid) {done : List (Service × Field)}

include hvalid

/-- A line that a service was given before it is served on a field is on the other field. -/
theorem Assigned.not_mem (h : Assigned s done lines)
    (hbefore : ∀ earlier ∈ done, Precedes earlier (service, field)) {line : Nat}
    (hline : s.HasLine field line) : (service, line) ∉ lines := by
  intro hmem
  obtain ⟨field', hdone, hline', _⟩ := h.sound service line hmem
  obtain rfl := hvalid.eq_of_hasLine hline' hline
  exact (hbefore _ hdone).ne rfl

/-- A service is given a free one of its lines. -/
theorem Assigned.line (h : Assigned s done lines)
    (hbefore : ∀ earlier ∈ done, Precedes earlier (service, field)) {line : Nat}
    (hline : s.HasLine field line) (hcovers : service.transmission.covers field line = true)
    (hfree : ∀ pair ∈ lines, pair.2 ≠ line) :
    Assigned s (done ++ [(service, field)]) (lines ++ [(service, line)]) := by
  have hold : ∀ pair ∈ lines, pair ∈ lines ++ [(service, line)] :=
    fun _ => List.mem_append_left _
  constructor
  case nodup =>
    rw [List.map_append, List.map_singleton]
    refine List.nodup_append.mpr ⟨h.nodup, List.nodup_singleton _, ?_⟩
    intro taken htaken new hnew
    obtain ⟨pair, hpair, rfl⟩ := List.mem_map.mp htaken
    rw [List.mem_singleton.mp hnew]
    exact hfree pair hpair
  case sound =>
    intro holder found hmem
    rcases List.mem_append.mp hmem with hmem | hmem
    · obtain ⟨field', hdone, hfound⟩ := h.sound holder found hmem
      exact ⟨field', List.mem_append_left _ hdone, hfound⟩
    · cases List.mem_singleton.mp hmem
      exact ⟨field, List.mem_append_right _ List.mem_cons_self, hline, hcovers⟩
  case once =>
    intro holder field' found found' hmem hmem' hfound hfound'
    rcases List.mem_append.mp hmem with hmem | hmem <;>
      rcases List.mem_append.mp hmem' with hmem' | hmem'
    · exact h.once holder field' found found' hmem hmem' hfound hfound'
    · cases List.mem_singleton.mp hmem'
      obtain rfl := hvalid.eq_of_hasLine hfound' hline
      exact absurd hmem (h.not_mem hvalid hbefore hfound)
    · cases List.mem_singleton.mp hmem
      obtain rfl := hvalid.eq_of_hasLine hfound hline
      exact absurd hmem' (h.not_mem hvalid hbefore hfound')
    · cases List.mem_singleton.mp hmem
      cases List.mem_singleton.mp hmem'
      rfl
  case complete =>
    intro holder field' hmem
    rcases List.mem_append.mp hmem with hmem | hmem
    · refine (h.complete holder field' hmem).imp ?_ fun htaken found hfound hcovered => ?_
      · rintro ⟨found, hfound, hsampled⟩
        exact ⟨found, hold _ hfound, hsampled⟩
      · obtain ⟨earlier, hearlier, hfound⟩ := htaken found hfound hcovered
        exact ⟨earlier, hearlier, hold _ hfound⟩
    · cases List.mem_singleton.mp hmem
      exact Or.inl ⟨line, List.mem_append_right _ List.mem_cons_self, hline⟩

/-- A service goes without a line if all that it could have are taken. -/
theorem Assigned.noLine (h : Assigned s done lines)
    (hbefore : ∀ earlier ∈ done, Precedes earlier (service, field))
    (htaken : ∀ line, s.HasLine field line → service.transmission.covers field line = true →
      ∃ holder, (holder, line) ∈ lines) :
    Assigned s (done ++ [(service, field)]) lines := by
  constructor
  case nodup => exact h.nodup
  case sound =>
    intro holder line hmem
    obtain ⟨field', hdone, hline⟩ := h.sound holder line hmem
    exact ⟨field', List.mem_append_left _ hdone, hline⟩
  case once => exact h.once
  case complete =>
    intro holder field' hmem
    rcases List.mem_append.mp hmem with hmem | hmem
    · exact h.complete holder field' hmem
    · cases List.mem_singleton.mp hmem
      refine Or.inr fun line hline hcovers => ?_
      obtain ⟨earlier, hearlier⟩ := htaken line hline hcovers
      -- The holder was served on the same field, so it is another service.
      obtain ⟨field', hdone, hline', _⟩ := h.sound earlier line hearlier
      obtain rfl := hvalid.eq_of_hasLine hline' hline
      rcases hbefore _ hdone with hservice | ⟨_, hfield⟩
      · exact ⟨earlier, hservice, hearlier⟩
      · exact absurd hfield (Nat.lt_irrefl _)

theorem Assigned.next (h : Assigned s done lines) {place : Service × Field}
    (hbefore : ∀ earlier ∈ done, Precedes earlier place) :
    Assigned s (done ++ [place]) (assignNext s lines place) := by
  obtain ⟨service, field⟩ := place
  obtain ⟨line, hnext, hline, hcovers, hfree⟩ | ⟨hnext, htaken⟩ :=
    assignNext_cases s lines service field
  · rw [hnext]
    exact h.line hvalid hbefore hline hcovers hfree
  · rw [hnext]
    exact h.noLine hvalid hbefore htaken

theorem Assigned.foldl (h : Assigned s done lines) {rest : List (Service × Field)}
    (horder : (done ++ rest).Pairwise Precedes) :
    Assigned s (done ++ rest) (rest.foldl (assignNext s) lines) := by
  induction rest generalizing done lines with
  | nil => rwa [List.append_nil]
  | cons place rest ih =>
      have hbefore : ∀ earlier ∈ done, Precedes earlier place := fun earlier hearlier =>
        (List.pairwise_append.mp horder).2.2 earlier hearlier place List.mem_cons_self
      rw [List.append_cons] at horder ⊢
      exact ih (h.next hvalid hbefore) horder

theorem assigned_assignAll (services : ServiceSet) :
    Assigned s (places services) (assignAll s [] (places services)).1 := by
  rw [assignAll_fst]
  exact (assigned_nil s).foldl hvalid (pairwise_places services)

end Step

/-! ## In rising order -/

theorem assignLines_fst (s : Sampling) (services : ServiceSet) :
    (assignLines s services).1 =
      (assignAll s [] (places services)).1.mergeSort (fun a b => a.2 ≤ b.2) := rfl

theorem mem_assignLines {services : ServiceSet} {pair : Service × Nat} :
    pair ∈ (assignLines s services).1 ↔ pair ∈ (assignAll s [] (places services)).1 := by
  rw [assignLines_fst, List.mem_mergeSort]

theorem mem_places {services : ServiceSet} :
    (service, field) ∈ places services ↔ services.contains service = true := by
  have hfield : field ∈ Field.all := by cases field <;> decide
  simp [places, ServiceSet.mem_toList, hfield]

/-- No line is given out twice, and the lines rise. -/
theorem pairwise_assignLines (hvalid : s.Valid) (services : ServiceSet) :
    (assignLines s services).1.Pairwise (·.2 < ·.2) := by
  have hle : (assignLines s services).1.Pairwise (·.2 ≤ ·.2) :=
    (List.pairwise_mergeSort (by simp; omega) (by simp; omega) _).imp (by simp)
  have hne : (assignLines s services).1.Pairwise (·.2 ≠ ·.2) := by
    refine List.pairwise_map.mp (?_ : List.Nodup _)
    exact ((List.mergeSort_perm _ _).map _).nodup_iff.mpr
      (assigned_assignAll hvalid services).nodup
  exact hle.imp₂ (fun _ _ => Nat.lt_of_le_of_ne) hne

end Synth

end Blanking
