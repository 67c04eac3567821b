import RegionHeap.Region.Basic

/-!
Numbers in a region. A number is read from the bytes it covers and from nothing else, and what was
written is read back, so writes elsewhere do not disturb it.
-/
namespace RegionHeap

namespace Bytes

theorem number_congr {a b : ByteArray} {i j width : Nat}
    (h : ∀ k, k < width → byte a (i + k) = byte b (j + k)) : number a i width = number b j width := by
  induction width generalizing i j with
  | zero => rfl
  | succ width ih =>
    have h0 := h 0 (by omega)
    rw [Nat.add_zero, Nat.add_zero] at h0
    rw [number, number, h0, ih fun k hk => ?_]
    have := h (k + 1) (by omega)
    rwa [show i + (k + 1) = i + 1 + k by omega, show j + (k + 1) = j + 1 + k by omega] at this

theorem number_lt (b : ByteArray) (i width : Nat) : number b i width < 1 <<< (8 * width) := by
  induction width generalizing i with
  | zero => exact Nat.one_pos
  | succ width ih =>
    have h₁ : (byte b i).toNat < 256 := (byte b i).toNat_lt
    have h₂ := ih (i + 1)
    rw [Nat.one_shiftLeft] at h₂
    rw [number, Nat.one_shiftLeft, Nat.mul_succ, Nat.pow_add]
    omega

theorem byte_repeated (n : Nat) (x : UInt8) (i : Nat) :
    byte (repeated n x) i = if i < n then x else 0 := by
  rw [repeated, byte_pushRepeated, byte_of_size_le (Nat.zero_le i)]
  simp

theorem number_ofNumber (width value : Nat) :
    number (ofNumber width value) 0 width = value % (1 <<< (8 * width)) :=
  number_pushNumber ByteArray.empty width value

end Bytes

namespace Region

variable {r r' : Region}

theorem byte_eq_held {i : Nat} (h : i < r.size) : r.byte i = Bytes.byte r.backing.held i := if_pos h

theorem number?_eq_some {width start : Nat} (h : start + width ≤ r.size) :
    r.number? width start = some (Bytes.number r.backing.held start width) := if_pos h

theorem number?_lt {width start n : Nat} (h : r.number? width start = some n) :
    n < 1 <<< (8 * width) := by
  rw [number?] at h
  split at h
  · cases h; exact Bytes.number_lt _ _ _
  · cases h

theorem number?_congr {width start : Nat} (hs : start + width ≤ r.size)
    (hs' : start + width ≤ r'.size)
    (h : ∀ i, start ≤ i → i < start + width → r'.byte i = r.byte i) :
    r'.number? width start = r.number? width start := by
  rw [number?_eq_some hs, number?_eq_some hs', Option.some.injEq]
  refine Bytes.number_congr fun k hk => ?_
  rw [← byte_eq_held (by omega), ← byte_eq_held (by omega)]
  exact h _ (by omega) (by omega)

/-- Bytes in use are read as they are. -/
theorem read?_eq (start count : Nat) (h : start + count ≤ r.size) :
    ∃ data, r.read? start count = some data ∧ data.size = count ∧
      ∀ i, i < count → Bytes.byte data i = r.byte (start + i) := by
  have hheld := r.backing.size_le_held
  refine ⟨_, if_pos h, ?_, fun i hi => ?_⟩
  · rw [ByteArray.size_extract]
    simp only [size] at h
    omega
  · rw [Bytes.byte_extract, if_pos (by omega), byte_eq_held (by omega)]

theorem size_of_read? {start count : Nat} {data : ByteArray}
    (h : r.read? start count = some data) : data.size = count := by
  rw [read?, Option.ite_none_right_eq_some] at h
  obtain ⟨data', hd, hsize, -⟩ := read?_eq start count h.1
  rw [read?, if_pos h.1, h.2, Option.some.injEq] at hd
  rw [hd]
  exact hsize

/-- What was written as a number is read back, if the width holds it. -/
theorem number?_of_bytes {width start value : Nat} (hs : start + width ≤ r.size)
    (hv : value < 1 <<< (8 * width))
    (h : ∀ i, i < width → r.byte (start + i) = Bytes.byte (Bytes.ofNumber width value) i) :
    r.number? width start = some value := by
  rw [number?_eq_some hs, Option.some.injEq, ← Nat.mod_eq_of_lt hv, ← Bytes.number_ofNumber]
  refine Bytes.number_congr fun k hk => ?_
  rw [← byte_eq_held (by omega), h k hk, Nat.zero_add]

/-- Two regions that differ in bytes only. -/
structure Rewritten (r r' : Region) : Prop where
  size_eq : r'.size = r.size
  capacity_eq : r'.capacity = r.capacity
  refusals_eq : r'.refusals = r.refusals
  beyond_eq : r'.beyond = r.beyond

theorem Rewritten.refl (r : Region) : Rewritten r r := ⟨rfl, rfl, rfl, rfl⟩

theorem Rewritten.trans {r'' : Region} (h : Rewritten r r') (h' : Rewritten r' r'') :
    Rewritten r r'' :=
  ⟨h'.size_eq.trans h.size_eq, h'.capacity_eq.trans h.capacity_eq,
    h'.refusals_eq.trans h.refusals_eq, h'.beyond_eq.trans h.beyond_eq⟩

/-- Bytes in use are overwritten, and nothing else changes. -/
theorem write?_eq {start : Nat} {data : ByteArray} (h : start + data.size ≤ r.size) :
    ∃ r', r.write? start data = some r' ∧ Rewritten r r' ∧ ∀ i, r'.byte i =
      if start ≤ i ∧ i < start + data.size then Bytes.byte data (i - start) else r.byte i := by
  obtain ⟨r', hr⟩ := exists_write h
  refine ⟨r', hr, ⟨size_write hr, ?_, ?_, beyond_write hr⟩, byte_write hr⟩
  all_goals
    unfold write? at hr
    rw [if_pos h] at hr
    cases hr
  · exact Backing.capacity_overwrite _ _ _
  · rfl

/-- No region grows past its capacity. -/
theorem le_capacity_of_resize {n : Nat} (h : r.resize n = .ok r') : n ≤ r.capacity := by
  refine Nat.le_of_not_lt fun hlt => ?_
  have he := Backing.resize_eq_error_iff.2 ⟨hlt, rfl⟩
  rw [resize, he] at h
  split at h <;> cases h

theorem resize_eq {n : Nat} (h : r.resize n = .ok r') :
    r'.size = n ∧ r'.capacity = r.capacity ∧ r'.refusals = r.refusals ∧
      r'.beyond = ByteArray.empty ∧
      ∀ i, i < n → i < r.size → r'.byte i = r.byte i := by
  refine ⟨size_resize h, ?_, ?_, beyond_resize h, fun i hn hi => ?_⟩
  · unfold resize at h
    split at h
    · cases h
    · obtain ⟨b, hb, rfl⟩ := map_eq_ok_iff.1 h
      exact Backing.capacity_resize hb
  · unfold resize at h
    split at h
    · cases h
    · obtain ⟨b, hb, rfl⟩ := map_eq_ok_iff.1 h
      rfl
  · rw [byte_resize h, if_pos hn, if_pos hi]

end Region

end RegionHeap
