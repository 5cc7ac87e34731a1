import Blanking.Proofs.Slicer.Config
import Blanking.Proofs.Slicer.Packing
import Blanking.Slicer.Basic

/-! # Framing code and payload of a reception

What a slicer receives are the bytes of exactly as many bits as its target has. -/

namespace Blanking

theorem toList_overwrite {size : Nat} {α : Type} {front : List α} {buffer : Vector α size}
    (hfront : front.length ≤ size) :
    (overwrite front buffer).toList = front ++ buffer.toList.drop front.length := by
  apply List.ext_getElem
  · simp
    omega
  · intro i hi hi'
    rw [List.getElem_append]
    split
    next hless => simp [overwrite, hless]
    next hmore =>
      have hsum : front.length + (i - front.length) = i := by omega
      simp [overwrite, List.getElem?_eq_none (Nat.le_of_not_lt hmore), hsum]

theorem overwrite_nil {size : Nat} {α : Type} (buffer : Vector α size) :
    overwrite [] buffer = buffer := by
  ext i hi
  simp [overwrite]

/-- What is written behind the front becomes part of it. -/
theorem set_overwrite {size : Nat} {α : Type} {front : List α} {buffer : Vector α size} {x : α}
    (h : front.length < size) :
    (overwrite front buffer).set front.length x h = overwrite (front ++ [x]) buffer := by
  ext i hi
  rw [Vector.getElem_set]
  rcases Nat.lt_trichotomy front.length i with hlt | rfl | hgt
  · have hnone : (front ++ [x])[i]? = none := by simpa using Nat.succ_le_of_lt hlt
    simp [overwrite, hnone, hlt.le, Nat.ne_of_lt hlt]
  · simp [overwrite]
  · simp [overwrite, List.getElem?_append_left hgt, Nat.ne_of_gt hgt]

theorem take_overwrite {size : Nat} {α : Type} {front : List α} {buffer : Vector α size}
    (hfront : front.length ≤ size) :
    (overwrite front buffer).toList.take front.length = front := by
  rw [toList_overwrite hfront, List.take_left]

namespace SlicerConfig

section Points

variable {c : SlicerConfig} {level : Nat → Nat} {lock : Lock}

@[simp]
theorem length_points (slice : Int) (kind : PointKind) (count position : Nat) :
    (c.points level slice kind count position).length = count := by
  induction count generalizing position with
  | zero => rfl
  | succ count ih => rw [points, List.length_cons, ih]

theorem receive_eq_some {reception : Reception} (h : c.receive level lock = some reception) :
    c.fits lock = true ∧ wordOfBits ((c.frcPoints level lock).map Point.bit) = c.frc ∧
      reception = ⟨c.frcPoints level lock ++ c.payloadPoints level lock,
        c.packing.bytes ((c.payloadPoints level lock).map Point.bit)⟩ := by
  unfold receive at h
  dsimp only at h
  split at h
  next => exact absurd h (by simp)
  next hmatch =>
    simp only [Bool.or_eq_true, Bool.not_eq_true', bne_iff_ne, not_or, Bool.not_eq_false,
      not_not] at hmatch
    exact ⟨hmatch.1, hmatch.2, (Option.some.inj h).symm⟩

end Points

/-- A received payload is made of as many bits as the target says. -/
theorem payload_of_receive {target : Target} {config : SlicerConfig} {level : Nat → Nat}
    {lock : Lock} {reception : Reception} (hconfig : ofTarget target = .ok config)
    (h : config.receive level lock = some reception) :
    ∃ bits : List Bool, bits.length = target.payloadBits ∧
      reception.payload = Payload.ofBits bits target.modulation := by
  obtain ⟨_, rfl⟩ := ofTarget_eq_ok_iff.mp hconfig
  obtain ⟨_, _, rfl⟩ := receive_eq_some h
  set bits := ((derive target).payloadPoints level lock).map Point.bit with hbits
  have hlength : bits.length = target.payloadBits := by
    rw [hbits, List.length_map, payloadPoints, length_points, derive]
  refine ⟨bits, hlength, ?_⟩
  rw [← Packing.bytes_of, hlength, derive]

end SlicerConfig

namespace Slicer

theorem receive_eq_some {s next : Slicer} {level : Nat → Nat} {reception : Reception}
    (h : s.receive level = some (next, reception)) :
    ∃ lock, s.config.search (fun _ trace => trace) level s.threshold () = some (lock, ()) ∧
      s.config.receive level lock = some reception ∧
      next = { s with threshold := lock.threshold } := by
  unfold receive at h
  obtain ⟨⟨lock, _⟩, hsearch, h⟩ := Option.bind_eq_some_iff.mp h
  obtain ⟨_, hreceive, h⟩ := Option.bind_eq_some_iff.mp h
  obtain ⟨rfl, rfl⟩ := Prod.mk.inj (Option.some.inj h)
  exact ⟨lock, hsearch, hreceive, rfl⟩

theorem receive_isSome_iff {s : Slicer} {level : Nat → Nat} :
    (s.receive level).isSome = true ↔
      ∃ lock, s.config.search (fun _ trace => trace) level s.threshold () = some (lock, ()) ∧
        (s.config.receive level lock).isSome = true := by
  unfold receive
  cases s.config.search (fun _ trace => trace) level s.threshold () with
  | none => simp
  | some found =>
      obtain ⟨lock, _⟩ := found
      cases hreceive : s.config.receive level lock <;> simp [hreceive]

theorem config_receive {s next : Slicer} {level : Nat → Nat} {reception : Reception}
    (h : s.receive level = some (next, reception)) : next.config = s.config := by
  obtain ⟨_, _, _, rfl⟩ := receive_eq_some h
  rfl

theorem slice_eq_some {size : Nat} {s next : Slicer} {buffer filled : Vector UInt8 size}
    {row : ByteArray} (h : s.slice buffer row = .ok (some (next, filled))) :
    ∃ reception, s.receive (s.config.layout.level row) = some (next, reception) ∧
      filled = overwrite reception.payload buffer := by
  unfold slice at h
  split at h
  next => exact absurd h (by simp)
  next =>
    obtain ⟨⟨_, reception⟩, hreceive, h⟩ := Option.map_eq_some_iff.mp (Except.ok.inj h)
    obtain ⟨rfl, rfl⟩ := Prod.mk.inj h
    exact ⟨reception, hreceive, rfl⟩

end Slicer

end Blanking
