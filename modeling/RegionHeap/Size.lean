/-!
Sizes and offsets are natural numbers below `2 ^ 64`. Each operation here answers `none` where the
exact result leaves that range, so a caller has to say what becomes of it.
-/
namespace RegionHeap.Size

/-- Every size and every offset is below this bound. -/
def limit : Nat := 1 <<< 64

def add? (a b : Nat) : Option Nat :=
  if a + b < limit then some (a + b) else none

def sub? (a b : Nat) : Option Nat :=
  if b ≤ a then some (a - b) else none

def mul? (a b : Nat) : Option Nat :=
  if a * b < limit then some (a * b) else none

/-- The value moved up by `count` binary digits; those that leave the range are lost. There are 64 of
them, and no value is moved by more than 63. -/
def shiftLeft? (value count : Nat) : Option Nat :=
  if count < 64 then some ((value <<< count) % limit) else none

/-- The value moved down by `count` binary digits. -/
def shiftRight? (value count : Nat) : Option Nat :=
  if count < 64 then some (value >>> count) else none

/-- The sum, or the largest size when the sum is out of range. -/
def addCapped (a b : Nat) : Nat := min (a + b) (limit - 1)

/-- The least multiple of `step` that is at least `value`. -/
def roundUp? (value step : Nat) : Option Nat :=
  if value = 0 then some 0 else mul? step ((value - 1) / step + 1)

/-- The largest multiple of `step` that is at most `value`. -/
def roundDown (value step : Nat) : Nat := value - value % step

/-- The least `k` with `n ≤ 2 ^ k`. -/
def ceilLog2 (n : Nat) : Nat :=
  if n ≤ 1 then 0 else (n - 1).log2 + 1

def isPowerOfTwo (n : Nat) : Bool := 1 <<< n.log2 == n

/-- The sum of a list of sizes. -/
def total (sizes : List Nat) : Nat := sizes.foldr (fun n rest => n + rest) 0

@[simp] theorem total_nil : total [] = 0 := rfl

@[simp] theorem total_cons (n : Nat) (rest : List Nat) : total (n :: rest) = n + total rest := rfl

theorem add?_eq_some_iff {a b c : Nat} : add? a b = some c ↔ a + b < limit ∧ c = a + b := by
  simp [add?, eq_comm]

theorem sub?_eq_some_iff {a b c : Nat} : sub? a b = some c ↔ b ≤ a ∧ c = a - b := by
  simp [sub?, eq_comm]

theorem mul?_eq_some_iff {a b c : Nat} : mul? a b = some c ↔ a * b < limit ∧ c = a * b := by
  simp [mul?, eq_comm]

/-- A product that is a size loses no digits. -/
theorem shiftLeft?_eq {value count : Nat} (hc : count < 64) (h : value * 1 <<< count < limit) :
    shiftLeft? value count = some (value * 1 <<< count) := by
  rw [Nat.one_shiftLeft] at h ⊢
  rw [shiftLeft?, if_pos hc, Nat.shiftLeft_eq, Nat.mod_eq_of_lt h]

theorem shiftLeft?_one {count : Nat} (hc : count < 64) : shiftLeft? 1 count = some (1 <<< count) := by
  have hlt : 1 * 1 <<< count < limit := by
    rw [Nat.one_mul, limit, Nat.one_shiftLeft, Nat.one_shiftLeft]
    exact Nat.pow_lt_pow_right (by decide) hc
  rw [shiftLeft?_eq hc hlt, Nat.one_mul]

theorem shiftLeft?_one_eq_some {count r : Nat} (h : shiftLeft? 1 count = some r) :
    r = 1 <<< count := by
  by_cases hc : count < 64
  · rw [shiftLeft?_one hc] at h
    exact (Option.some.inj h).symm
  · rw [shiftLeft?, if_neg hc] at h
    cases h

theorem shiftRight?_eq {value count : Nat} (hc : count < 64) :
    shiftRight? value count = some (value >>> count) := if_pos hc

theorem shiftRight?_eq_some {value count r : Nat} (h : shiftRight? value count = some r) :
    r = value >>> count := by
  by_cases hc : count < 64
  · rw [shiftRight?_eq hc] at h
    exact (Option.some.inj h).symm
  · rw [shiftRight?, if_neg hc] at h
    cases h

/-- Rounding up reaches the first multiple at or above the value. -/
theorem roundUp?_bounds {value step r : Nat} (hs : 0 < step) (h : roundUp? value step = some r) :
    step ∣ r ∧ value ≤ r ∧ r < value + step := by
  unfold roundUp? at h
  split at h
  · cases h
    exact ⟨Nat.dvd_zero _, by omega, by omega⟩
  · obtain ⟨_, rfl⟩ := mul?_eq_some_iff.1 h
    have above : value - 1 < step * ((value - 1) / step + 1) := Nat.lt_mul_div_succ _ hs
    have below : step * ((value - 1) / step) ≤ value - 1 := Nat.mul_div_le _ _
    rw [Nat.mul_succ] at above ⊢
    exact ⟨Nat.dvd_add (Nat.dvd_mul_right _ _) (Nat.dvd_refl _), by omega, by omega⟩

theorem roundDown_le (value step : Nat) : roundDown value step ≤ value := Nat.sub_le _ _

theorem dvd_roundDown (value step : Nat) : step ∣ roundDown value step :=
  Nat.dvd_sub_mod value

theorem lt_roundDown_add (value : Nat) {step : Nat} (hs : 0 < step) :
    value < roundDown value step + step := by
  have := Nat.mod_lt value hs
  have := Nat.mod_le value step
  unfold roundDown
  omega

theorem le_one_shiftLeft_ceilLog2 (n : Nat) : n ≤ 1 <<< ceilLog2 n := by
  rw [Nat.one_shiftLeft, ceilLog2]
  split
  · exact ‹n ≤ 1›
  · have := Nat.lt_log2_self (n := n - 1)
    omega

/-- No smaller exponent will do. -/
theorem ceilLog2_le {n k : Nat} (h : n ≤ 1 <<< k) : ceilLog2 n ≤ k := by
  rw [Nat.one_shiftLeft] at h
  unfold ceilLog2
  split
  · exact Nat.zero_le k
  · exact (Nat.log2_lt (by omega)).2 (by omega)

theorem isPowerOfTwo_iff {n : Nat} : isPowerOfTwo n = true ↔ ∃ k, n = 1 <<< k := by
  constructor
  · intro h
    exact ⟨n.log2, (beq_iff_eq.1 h).symm⟩
  · rintro ⟨k, rfl⟩
    rw [isPowerOfTwo, Nat.one_shiftLeft k, Nat.log2_two_pow, Nat.one_shiftLeft, beq_iff_eq]

theorem pos_of_isPowerOfTwo {n : Nat} (h : isPowerOfTwo n = true) : 0 < n := by
  obtain ⟨k, rfl⟩ := isPowerOfTwo_iff.1 h
  rw [Nat.one_shiftLeft]
  exact Nat.two_pow_pos k

end RegionHeap.Size
