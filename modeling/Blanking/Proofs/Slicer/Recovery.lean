import Mathlib.Tactic.Ring
import Blanking.Proofs.Slicer.Signal
import Blanking.Slicer.Data

/-! # Recovery of the clock

A run-in holds each of its bits for `n` samples, and the search takes four steps for a sample. An
edge of the signal is seen up to three steps before the first sample behind it, and starts the
clock half a bit before its next tick. So every bit is ticked once, at its centre or up to three
steps before. -/

namespace Blanking.SlicerConfig

variable {c : SlicerConfig} {high : Nat → Bool} {n : Nat}

/-- A clock that ticks once for a bit of `n` samples. -/
structure Paced (c : SlicerConfig) (n : Nat) : Prop where
  two_le : 2 ≤ n
  criRate_pos : 0 < c.criRate
  stepRate : c.stepRate = 4 * n * c.criRate

/-! ## Single steps -/

namespace Paced

variable {step elapsed : Nat} {bit : Bool} {word : UInt32}

theorem advance_quiet (hpaced : c.Paced n)
    (hclock : c.clockAt high step = ⟨elapsed * c.criRate, bit, word⟩) (hhigh : high step = bit)
    (hquiet : elapsed + 1 < 4 * n) :
    c.clockAt high (step + 1) = ⟨(elapsed + 1) * c.criRate, bit, word⟩ ∧
      c.completesAt high step = false := by
  have hlt : elapsed * c.criRate + c.criRate < c.stepRate := by
    rw [hpaced.stepRate, ← Nat.succ_mul]
    exact Nat.mul_lt_mul_of_pos_right hquiet hpaced.criRate_pos
  constructor
  · rw [clockAt_succ, hclock, hhigh]
    simp only [advance, bne_self_eq_false, Bool.false_eq_true, if_false, if_pos hlt, Nat.succ_mul]
  · rw [completesAt, hclock, hhigh]
    simp only [ticks, Nat.not_le.mpr hlt, decide_false, Bool.and_false, Bool.false_and]

theorem advance_tick (hpaced : c.Paced n)
    (hclock : c.clockAt high step = ⟨elapsed * c.criRate, bit, word⟩) (hhigh : high step = bit)
    (htick : elapsed + 1 = 4 * n) :
    c.clockAt high (step + 1) = ⟨0, bit, shiftIn word bit⟩ ∧
      c.completesAt high step = (shiftIn word bit &&& c.criMask == c.cri) := by
  have heq : elapsed * c.criRate + c.criRate = c.stepRate := by
    rw [hpaced.stepRate, ← htick, Nat.succ_mul]
  constructor
  · rw [clockAt_succ, hclock, hhigh]
    simp [advance, heq]
  · rw [completesAt, hclock, hhigh]
    simp [ticks, heq]

theorem advance_edge (hpaced : c.Paced n) (hclock : (c.clockAt high step).high = !bit)
    (hhigh : high step = bit) :
    c.clockAt high (step + 1) = ⟨2 * n * c.criRate, bit, (c.clockAt high step).word⟩ ∧
      c.completesAt high step = false := by
  have htwice : c.stepRate = 2 * (2 * n * c.criRate) := by
    rw [hpaced.stepRate]
    ring
  have hhalf : c.stepRate / 2 = 2 * n * c.criRate := by
    rw [htwice, Nat.mul_div_cancel_left _ (by decide)]
  constructor
  · rw [clockAt_succ, advance, hclock, hhigh]
    simp [hhalf]
  · rw [completesAt, ticks, hclock, hhigh]
    simp

/-- As long as the signal does not change the clock counts on. -/
theorem clockAt_add (hpaced : c.Paced n)
    (hclock : c.clockAt high step = ⟨elapsed * c.criRate, bit, word⟩) (count : Nat)
    (hquiet : elapsed + count < 4 * n)
    (hhigh : ∀ s, step ≤ s → s < step + count → high s = bit) :
    c.clockAt high (step + count) = ⟨(elapsed + count) * c.criRate, bit, word⟩ ∧
      ∀ s, step ≤ s → s < step + count → c.completesAt high s = false := by
  induction count with
  | zero =>
      refine ⟨hclock, ?_⟩
      intro s hle hlt
      exact absurd hle (Nat.not_le.mpr hlt)
  | succ count ih =>
      obtain ⟨hbefore, hnone⟩ :=
        ih (by omega) fun s hfirst hlast => hhigh s hfirst (Nat.lt_succ_of_lt hlast)
      obtain ⟨hafter, hlast⟩ := hpaced.advance_quiet hbefore
        (hhigh (step + count) (Nat.le_add_right step count) (Nat.lt_succ_self _)) hquiet
      refine ⟨hafter, ?_⟩
      intro s hle hlt
      rcases Nat.lt_succ_iff_lt_or_eq.mp hlt with hless | rfl
      · exact hnone s hle hless
      · exact hlast

end Paced

/-! ## Clocks in step -/

/-- A clock that is in step at the first step of a bit: it was started by an edge up to three
steps ago, or would have been if there had been one. -/
structure InStep (c : SlicerConfig) (high : Nat → Bool) (n step late : Nat) (bit : Bool)
    (word : UInt32) : Prop where
  late_le : late ≤ 3
  clock : c.clockAt high (step + 1) = ⟨(2 * n + late) * c.criRate, bit, word⟩
  quiet : ∀ before ≤ step, c.completesAt high before = false

/-- An edge puts the clock in step. -/
theorem Paced.inStep_of_edge (hpaced : c.Paced n) {edge step late : Nat} {bit : Bool}
    (hlate : late ≤ 3) (hedge : edge + late = step)
    (hbefore : (c.clockAt high edge).high = !bit)
    (hquiet : ∀ before < edge, c.completesAt high before = false)
    (hhigh : ∀ s, edge ≤ s → s ≤ step → high s = bit) :
    c.InStep high n step late bit (c.clockAt high edge).word := by
  have htwo := hpaced.two_le
  obtain ⟨hstart, hfirst⟩ := hpaced.advance_edge hbefore
    (hhigh edge (Nat.le_refl edge) (by omega))
  obtain ⟨hafter, hrest⟩ := hpaced.clockAt_add hstart late (by omega) fun s hle hlt =>
    hhigh s (by omega) (by omega)
  rw [Nat.add_right_comm, hedge] at hafter
  refine ⟨hlate, hafter, ?_⟩
  intro s hle
  rcases Nat.lt_trichotomy s edge with hlt | rfl | hgt
  · exact hquiet s hlt
  · exact hfirst
  · exact hrest s hgt (by omega)

namespace InStep

variable {step late : Nat} {bit : Bool} {word : UInt32}

/-- Half a bit later the clock ticks. -/
theorem tick (h : c.InStep high n step late bit word) (hpaced : c.Paced n) {last : Nat}
    (hlast : last + late = step + 2 * n) (hhigh : ∀ s, step < s → s ≤ last → high s = bit) :
    c.clockAt high (last + 1) = ⟨0, bit, shiftIn word bit⟩ ∧
      c.completesAt high last = (shiftIn word bit &&& c.criMask == c.cri) ∧
        ∀ before < last, c.completesAt high before = false := by
  have htwo := hpaced.two_le
  have hlate := h.late_le
  obtain ⟨count, hcount⟩ : ∃ count, last = step + 1 + count :=
    Nat.exists_eq_add_of_le (by omega)
  obtain ⟨hbefore, hnone⟩ := hpaced.clockAt_add h.clock count (by omega) fun s hle hlt =>
    hhigh s hle (by omega)
  rw [← hcount] at hbefore hnone
  obtain ⟨hafter, hcompletes⟩ :=
    hpaced.advance_tick hbefore (hhigh last (by omega) (Nat.le_refl last)) (by omega)
  refine ⟨hafter, hcompletes, ?_⟩
  intro before hlt
  rcases Nat.lt_or_ge step before with hgt | hle
  · exact hnone before hgt hlt
  · exact h.quiet before hle

/-- Unless that completes the expected pattern, the clock goes on until the next edge, or the next
bit if there is none. -/
theorem held (h : c.InStep high n step late bit word) (hpaced : c.Paced n)
    (hnot : shiftIn word bit &&& c.criMask ≠ c.cri) {elapsed bound : Nat}
    (hfrom : bound + late = step + 2 * n + 1 + elapsed) (hto : bound ≤ step + 4 * n + 1)
    (hhigh : ∀ s, step < s → s < bound → high s = bit) :
    c.clockAt high bound = ⟨elapsed * c.criRate, bit, shiftIn word bit⟩ ∧
      ∀ before < bound, c.completesAt high before = false := by
  have htwo := hpaced.two_le
  have hlate := h.late_le
  obtain ⟨last, hlast⟩ : ∃ last, step + 2 * n = late + last :=
    Nat.exists_eq_add_of_le (by omega)
  have hcentre : last + late = step + 2 * n := by omega
  have hbound : last + 1 + elapsed = bound := by omega
  obtain ⟨htick, hcompletes, hnone⟩ := h.tick hpaced hcentre fun s hgt hle =>
    hhigh s hgt (by omega)
  rw [← Nat.zero_mul c.criRate] at htick
  obtain ⟨hafter, hrest⟩ := hpaced.clockAt_add htick elapsed (by omega) fun s hle hlt =>
    hhigh s (by omega) (by omega)
  rw [Nat.zero_add, hbound] at hafter
  refine ⟨hafter, ?_⟩
  intro before hlt
  rcases Nat.lt_trichotomy before last with hless | rfl | hgreater
  · exact hnone before hless
  · rw [hcompletes, beq_eq_false_iff_ne]
    exact hnot
  · exact hrest before hgreater (by omega)

/-- The same bit again leaves the clock as it is. -/
theorem next_same (h : c.InStep high n step late bit word) (hpaced : c.Paced n)
    (hnot : shiftIn word bit &&& c.criMask ≠ c.cri)
    (hhigh : ∀ s, step < s → s ≤ step + 4 * n → high s = bit) :
    c.InStep high n (step + 4 * n) late bit (shiftIn word bit) := by
  have hlate := h.late_le
  have hfrom : step + 4 * n + 1 + late = step + 2 * n + 1 + (2 * n + late) := by omega
  obtain ⟨hclock, hquiet⟩ := h.held hpaced hnot hfrom (Nat.le_refl _) fun s hgt hlt =>
    hhigh s hgt (Nat.le_of_lt_succ hlt)
  exact ⟨hlate, hclock, fun before hle => hquiet before (Nat.lt_succ_of_le hle)⟩

/-- The other bit starts it anew. -/
theorem next_edge (h : c.InStep high n step late bit word) (hpaced : c.Paced n)
    (hnot : shiftIn word bit &&& c.criMask ≠ c.cri) {edge later : Nat} (hlater : later ≤ 3)
    (hedge : edge + later = step + 4 * n)
    (hhigh : ∀ s, step < s → s < edge → high s = bit)
    (hflip : ∀ s, edge ≤ s → s ≤ step + 4 * n → high s = !bit) :
    c.InStep high n (step + 4 * n) later (!bit) (shiftIn word bit) := by
  have htwo := hpaced.two_le
  have hlate := h.late_le
  obtain ⟨elapsed, helapsed⟩ : ∃ elapsed, edge + late = step + 2 * n + 1 + elapsed :=
    Nat.exists_eq_add_of_le (by omega)
  obtain ⟨hclock, hquiet⟩ := h.held hpaced hnot helapsed (by omega) hhigh
  have hbefore : (c.clockAt high edge).high = !!bit := by rw [hclock, Bool.not_not]
  have hnext := hpaced.inStep_of_edge hlater hedge hbefore hquiet hflip
  rwa [hclock] at hnext

/-- From one bit to the next the clock stays in step. -/
theorem next_bit {sent : Nat → Bool} {samples base : Nat}
    (h : c.InStep high n (4 * base) late bit word) (hpaced : c.Paced n)
    (hfollows : Follows high sent samples) (hnot : shiftIn word bit &&& c.criMask ≠ c.cri)
    (hlast : base + n < samples) (hheld : ∀ i, base ≤ i → i < base + n → sent i = bit) :
    ∃ late, c.InStep high n (4 * (base + n)) late (sent (base + n)) (shiftIn word bit) := by
  have htwo := hpaced.two_le
  rw [Nat.mul_add]
  by_cases hsame : sent (base + n) = bit
  · refine ⟨late, ?_⟩
    rw [hsame]
    apply h.next_same hpaced hnot
    intro s hgt hle
    refine hfollows.steady hlast ?_ (Nat.le_of_lt hgt) (by omega)
    intro i hfirst hto
    rcases Nat.lt_or_eq_of_le hto with hless | rfl
    · exact hheld i hfirst hless
    · exact hsame
  · -- The turn lies behind the last sample of the bit before.
    have hflip : sent (base + n) = !bit := by rwa [Bool.eq_not]
    obtain ⟨back, hback⟩ : ∃ back, base + n = back + 1 := ⟨base + n - 1, by omega⟩
    obtain ⟨turn, hturn, hbefore, hafter⟩ := hfollows.between back (by omega)
    rw [← hback] at hafter
    have hedge : 4 * back + turn + 1 + (3 - turn) = 4 * base + 4 * n := by omega
    refine ⟨3 - turn, ?_⟩
    rw [hflip]
    apply h.next_edge hpaced hnot (Nat.sub_le 3 turn) hedge
    · intro s hgt hlt
      rcases Nat.lt_or_ge s (4 * back) with hless | hge
      · have hinside : back < samples := by omega
        refine hfollows.steady hinside ?_ (Nat.le_of_lt hgt) (Nat.le_of_lt hless)
        intro i hfirst hto
        exact hheld i hfirst (by omega)
      · obtain ⟨k, rfl⟩ := Nat.exists_eq_add_of_le hge
        rw [hbefore k (by omega)]
        exact hheld back (by omega) (by omega)
    · intro s hge hle
      obtain ⟨k, rfl⟩ : ∃ k, s = 4 * back + k := Nat.exists_eq_add_of_le (by omega)
      rw [hafter k (by omega) (by omega), hflip]

end InStep

/-- The first set bit puts the clock in step. -/
theorem Paced.inStep_of_idle (hpaced : c.Paced n) {sent : Nat → Bool} {samples : Nat}
    (hfollows : Follows high sent samples) (hcri : c.cri ≠ 0) {i : Nat} (hi : i + 1 < samples)
    (hidle : ∀ before ≤ i, sent before = false) (hset : sent (i + 1) = true) :
    ∃ late, c.InStep high n (4 * (i + 1)) late true 0 := by
  obtain ⟨turn, hturn, hbefore, hafter⟩ := hfollows.between i hi
  have hlow (s : Nat) (hs : s < 4 * i + turn + 1) : high s = false := by
    rcases Nat.lt_or_ge s (4 * i) with hless | hge
    · have hzero : 4 * 0 ≤ s := Nat.zero_le s
      exact hfollows.steady (Nat.lt_of_succ_lt hi) (fun j _ hj => hidle j hj) hzero
        (Nat.le_of_lt hless)
    · obtain ⟨k, rfl⟩ := Nat.exists_eq_add_of_le hge
      rw [hbefore k (by omega), hidle i (Nat.le_refl i)]
  obtain ⟨hclock, hword⟩ := c.clockAt_low hlow
  have hedge : 4 * i + turn + 1 + (3 - turn) = 4 * (i + 1) := by omega
  have hstep : c.InStep high n (4 * (i + 1)) (3 - turn) true
      (c.clockAt high (4 * i + turn + 1)).word := by
    apply hpaced.inStep_of_edge (Nat.sub_le 3 turn) hedge hclock
    · intro before hlt
      exact c.completesAt_low hcri fun s hs => hlow s (Nat.lt_of_le_of_lt hs hlt)
    · intro s hge hle
      obtain ⟨k, rfl⟩ : ∃ k, s = 4 * i + k := Nat.exists_eq_add_of_le (by omega)
      rw [hafter k (by omega) (by omega), hset]
  rw [hword] at hstep
  exact ⟨3 - turn, hstep⟩

/-! ## Run-ins -/

theorem wordOfBits_take_succ {bits : List Bool} {number : Nat} (hnumber : number < bits.length) :
    wordOfBits (bits.take (number + 1)) =
      shiftIn (wordOfBits (bits.take number)) (bits.getD number false) := by
  rw [List.take_add_one, List.getElem?_eq_getElem hnumber, wordOfBits, List.foldl_append,
    List.getD_eq_getElem?_getD, List.getElem?_eq_getElem hnumber]
  rfl

/-- What can be said at the first step of a bit: nothing was set so far, or the clock is in
step. -/
inductive Ready (c : SlicerConfig) (high : Nat → Bool) (bits : List Bool)
    (n start number : Nat) : Prop where
  | idle (hidle : ∀ i ≤ start + n * number, sentAt bits n start i = false)
      (hword : wordOfBits (bits.take number) = 0)
  | inStep (late : Nat) (hstep : c.InStep high n (4 * (start + n * number)) late
      (bits.getD number false) (wordOfBits (bits.take number)))

section RunIn

variable {bits : List Bool} {start samples : Nat}

theorem ready_zero (hpaced : c.Paced n) (hfollows : Follows high (sentAt bits n start) samples)
    (hcri : c.cri ≠ 0) (hstart : start < samples) : c.Ready high bits n start 0 := by
  have htwo := hpaced.two_le
  have hfirst : sentAt bits n start start = bits.getD 0 false :=
    sentAt_held 0 (show 0 < n by omega)
  cases hbit : bits.getD 0 false with
  | false =>
      refine .idle ?_ rfl
      intro i hi
      rcases Nat.lt_or_eq_of_le hi with hless | rfl
      · exact sentAt_of_lt hless
      · exact hfirst.trans hbit
  | true =>
      cases start with
      | zero =>
          -- There is no sample in front of the run-in, so its first step is the edge.
          have hhigh : high 0 = true := (hfollows.onSample 0 hstart).trans (hfirst.trans hbit)
          have hstep : c.InStep high n 0 0 true (c.clockAt high 0).word := by
            apply hpaced.inStep_of_edge (Nat.zero_le 3) rfl rfl
            · intro before hlt
              exact absurd hlt (Nat.not_lt_zero before)
            · intro s _ hle
              rwa [Nat.le_zero.mp hle]
          rw [← hbit] at hstep
          exact .inStep 0 hstep
      | succ i =>
          obtain ⟨late, hstep⟩ := hpaced.inStep_of_idle hfollows hcri hstart
            (fun before hle => sentAt_of_lt (Nat.lt_succ_of_le hle)) (hfirst.trans hbit)
          rw [← hbit] at hstep
          exact .inStep late hstep

theorem Ready.succ {number : Nat} (h : c.Ready high bits n start number) (hpaced : c.Paced n)
    (hfollows : Follows high (sentAt bits n start) samples) (hcri : c.cri ≠ 0)
    (hnumber : number < bits.length) (hlast : start + n * (number + 1) < samples)
    (hnot : wordOfBits (bits.take (number + 1)) &&& c.criMask ≠ c.cri) :
    c.Ready high bits n start (number + 1) := by
  have htwo := hpaced.two_le
  have hbase : start + n * (number + 1) = start + n * number + n := by
    rw [Nat.mul_succ, Nat.add_assoc]
  have hnext : sentAt bits n start (start + n * (number + 1)) = bits.getD (number + 1) false :=
    sentAt_held (number + 1) (show 0 < n by omega)
  have hheld (i : Nat) (hfirst : start + n * number ≤ i)
      (hto : i < start + n * number + n) : sentAt bits n start i = bits.getD number false := by
    obtain ⟨sample, rfl⟩ := Nat.exists_eq_add_of_le hfirst
    exact sentAt_held number (Nat.lt_of_add_lt_add_left hto)
  have hword := wordOfBits_take_succ hnumber
  cases h with
  | idle hidle hempty =>
      have hbit : bits.getD number false = false := by
        rw [← hheld (start + n * number) (Nat.le_refl _) (by omega), hidle _ (Nat.le_refl _)]
      have hzero : wordOfBits (bits.take (number + 1)) = 0 := by
        rw [hword, hempty, hbit]
        rfl
      obtain ⟨back, hback⟩ : ∃ back, start + n * (number + 1) = back + 1 :=
        ⟨start + n * (number + 1) - 1, by omega⟩
      have hquiet (i : Nat) (hi : i ≤ back) : sentAt bits n start i = false := by
        rcases Nat.lt_or_ge (start + n * number) i with hgt | hle
        · rw [hheld i (Nat.le_of_lt hgt) (by omega), hbit]
        · exact hidle i hle
      -- Behind cleared bits only a set one is an edge.
      cases hset : bits.getD (number + 1) false with
      | false =>
          refine .idle ?_ hzero
          intro i hi
          rcases Nat.lt_or_eq_of_le hi with hless | rfl
          · exact hquiet i (by omega)
          · exact hnext.trans hset
      | true =>
          rw [hback] at hnext hlast
          obtain ⟨late, hstep⟩ := hpaced.inStep_of_idle hfollows hcri hlast hquiet
            (hnext.trans hset)
          rw [← hback, ← hset, ← hzero] at hstep
          exact .inStep late hstep
  | inStep late hstep =>
      rw [hword] at hnot
      rw [hbase] at hlast
      obtain ⟨later, hlater⟩ := hstep.next_bit hpaced hfollows hnot hlast hheld
      rw [← hbase, hnext, ← hword] at hlater
      exact .inStep later hlater

/-- No bit of the run-in is lost or counted twice. -/
theorem ready (hpaced : c.Paced n) (hfollows : Follows high (sentAt bits n start) samples)
    (hcri : c.cri ≠ 0) (number : Nat) (hnumber : number ≤ bits.length)
    (hlast : start + n * number < samples)
    (hearly : ∀ count ≤ number, wordOfBits (bits.take count) &&& c.criMask ≠ c.cri) :
    c.Ready high bits n start number := by
  induction number with
  | zero => exact ready_zero hpaced hfollows hcri hlast
  | succ number ih =>
      have hless : start + n * number < samples :=
        Nat.lt_of_le_of_lt (Nat.add_le_add_left (Nat.mul_le_mul_left n (Nat.le_succ _)) _) hlast
      have hready := ih (Nat.le_of_succ_le hnumber) hless fun count hcount =>
        hearly count (Nat.le_succ_of_le hcount)
      exact hready.succ hpaced hfollows hcri hnumber hlast (hearly (number + 1) (Nat.le_refl _))

/-- The search ends with the last bit of the run-in, half a bit before its end or up to three steps
earlier. -/
theorem exists_completesAt (hpaced : c.Paced n) {count : Nat}
    (hfollows : Follows high (sentAt bits n start) (start + n * count))
    (hcount : 0 < count) (hbits : count ≤ bits.length)
    (hearly : ∀ number < count, wordOfBits (bits.take number) &&& c.criMask ≠ c.cri)
    (hcri : wordOfBits (bits.take count) &&& c.criMask = c.cri) :
    ∃ last late, late ≤ 3 ∧ last + late + 2 * n = 4 * (start + n * count) ∧
      c.completesAt high last = true ∧ ∀ before < last, c.completesAt high before = false := by
  have htwo := hpaced.two_le
  have hzero : c.cri ≠ 0 := by
    intro hzero
    apply hearly 0 hcount
    rw [hzero, List.take_zero]
    exact UInt32.zero_and
  obtain ⟨number, rfl⟩ : ∃ number, count = number + 1 :=
    Nat.exists_eq_succ_of_ne_zero (Nat.ne_of_gt hcount)
  have hword := wordOfBits_take_succ hbits
  have hlength : start + n * (number + 1) = start + n * number + n := by
    rw [Nat.mul_succ, Nat.add_assoc]
  rw [hlength] at hfollows
  have hready := ready hpaced hfollows hzero number (Nat.le_of_succ_le hbits) (by omega)
    fun before hle => hearly before (Nat.lt_succ_of_le hle)
  cases hready with
  | idle hidle hempty =>
      -- A run-in of zeros would have been complete before its first bit.
      have hbit : bits.getD number false = false := by
        rw [← @sentAt_held bits n start number 0 (by omega)]
        exact hidle _ (Nat.le_refl _)
      rw [hword, hempty, hbit] at hcri
      exact absurd hcri (hearly 0 (Nat.succ_pos number))
  | inStep late hstep =>
      have hlate := hstep.late_le
      obtain ⟨last, hlast⟩ : ∃ last, 4 * (start + n * number) + 2 * n = late + last :=
        Nat.exists_eq_add_of_le (by omega)
      have hcentre : last + late = 4 * (start + n * number) + 2 * n := by omega
      obtain ⟨back, hback⟩ : ∃ back, start + n * number + n = back + 1 :=
        ⟨start + n * number + n - 1, by omega⟩
      have hhigh (s : Nat) (hgt : 4 * (start + n * number) < s) (hle : s ≤ last) :
          high s = bits.getD number false := by
        have hinside : back < start + n * number + n := by omega
        refine hfollows.steady hinside ?_ (Nat.le_of_lt hgt) (by omega)
        intro i hfirst hto
        obtain ⟨sample, rfl⟩ := Nat.exists_eq_add_of_le hfirst
        exact sentAt_held number (by omega)
      obtain ⟨_, hcompletes, hnone⟩ := hstep.tick hpaced hcentre hhigh
      refine ⟨last, late, hlate, by omega, ?_, hnone⟩
      rw [hcompletes, ← hword, hcri, beq_self_eq_true]

end RunIn

end Blanking.SlicerConfig
