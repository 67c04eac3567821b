/-!
Strings of bytes: zero filling, overwriting a part, and little-endian numbers. `byte` is the view
through which the lemmas describe each operation; it reads zero past the end.
-/
namespace RegionHeap.Bytes

/-- The byte at an index, zero past the end. -/
def byte (b : ByteArray) (i : Nat) : UInt8 := if h : i < b.size then b[i] else 0

/-- The bytes of `b` followed by `n` times the byte `x`. -/
def pushRepeated (b : ByteArray) (x : UInt8) : Nat → ByteArray
  | 0 => b
  | n + 1 => pushRepeated (b.push x) x n

def repeated (n : Nat) (x : UInt8) : ByteArray := pushRepeated ByteArray.empty x n

/-- The bytes of `b` followed by `n` zeros. -/
def pushZeros (b : ByteArray) (n : Nat) : ByteArray := pushRepeated b 0 n

def zeros (n : Nat) : ByteArray := pushZeros ByteArray.empty n

/-- The first `n` bytes of `b`, with zeros where `b` is shorter. -/
def resized (b : ByteArray) (n : Nat) : ByteArray :=
  if n ≤ b.size then b.extract 0 n else pushZeros b (n - b.size)

/-- Writes `data` over `b` from index `start` on; changes nothing if `data` does not fit. -/
def overlay (b : ByteArray) (start : Nat) (data : ByteArray) : ByteArray :=
  if start + data.size ≤ b.size then data.copySlice 0 b start data.size else b

/-! ## Little-endian numbers -/

/-- The number whose `width` base-256 digits, least first, start at `start`. -/
def number (b : ByteArray) (start : Nat) : (width : Nat) → Nat
  | 0 => 0
  | width + 1 => (byte b start).toNat + 256 * number b (start + 1) width

/-- The `width` lowest base-256 digits of `value`, least first, after the bytes of `b`. -/
def pushNumber (b : ByteArray) : (width value : Nat) → ByteArray
  | 0, _ => b
  | width + 1, value => pushNumber (b.push (UInt8.ofNat value)) width (value / 256)

/-- A number as `width` bytes. -/
def ofNumber (width value : Nat) : ByteArray := pushNumber ByteArray.empty width value

/-! ## The view -/

theorem byte_eq_getElem {b : ByteArray} {i : Nat} (h : i < b.size) : byte b i = b[i] := by
  simp [byte, h]

theorem byte_of_size_le {b : ByteArray} {i : Nat} (h : b.size ≤ i) : byte b i = 0 := by
  simp [byte, Nat.not_lt.2 h]

/-- Two strings of one size with the same bytes are equal. -/
theorem ext_byte {a b : ByteArray} (hs : a.size = b.size) (h : ∀ i, byte a i = byte b i) :
    a = b := by
  refine ByteArray.ext (Array.ext hs fun i ha hb => ?_)
  have hi := h i
  rw [byte_eq_getElem ha, byte_eq_getElem hb] at hi
  exact hi

theorem byte_push (b : ByteArray) (x : UInt8) (i : Nat) :
    byte (b.push x) i = if i = b.size then x else byte b i := by
  unfold byte
  simp only [ByteArray.size_push, ByteArray.getElem_eq_getElem_data, ByteArray.data_push]
  rcases Nat.lt_trichotomy i b.size with h | h | h
  · rw [dif_pos (by omega), if_neg (by omega), dif_pos h, Array.getElem_push_lt]
  · subst h
    rw [dif_pos (by omega), if_pos rfl]
    simp [← ByteArray.size_data]
  · rw [dif_neg (by omega), if_neg (by omega), dif_neg (by omega)]

@[simp] theorem size_pushRepeated (b : ByteArray) (x : UInt8) (n : Nat) :
    (pushRepeated b x n).size = b.size + n := by
  induction n generalizing b with
  | zero => rfl
  | succ n ih => rw [pushRepeated, ih, ByteArray.size_push]; omega

theorem byte_pushRepeated (b : ByteArray) (x : UInt8) (n i : Nat) :
    byte (pushRepeated b x n) i =
      if b.size ≤ i ∧ i < b.size + n then x else byte b i := by
  induction n generalizing b with
  | zero => rw [pushRepeated, if_neg (by omega)]
  | succ n ih =>
    rw [pushRepeated, ih, byte_push, ByteArray.size_push]
    by_cases hi : i = b.size
    · rw [if_neg (by omega), if_pos hi, if_pos (by omega)]
    · rw [if_neg hi]
      by_cases h : b.size ≤ i ∧ i < b.size + (n + 1)
      · rw [if_pos h, if_pos (by omega)]
      · rw [if_neg h, if_neg (by omega)]

@[simp] theorem size_pushZeros (b : ByteArray) (n : Nat) : (pushZeros b n).size = b.size + n :=
  size_pushRepeated b 0 n

theorem byte_pushZeros (b : ByteArray) (n i : Nat) : byte (pushZeros b n) i = byte b i := by
  rw [pushZeros, byte_pushRepeated]
  split
  · rw [byte_of_size_le (by omega)]
  · rfl

@[simp] theorem size_repeated (n : Nat) (x : UInt8) : (repeated n x).size = n := by
  simp [repeated]

theorem byte_zeros (n i : Nat) : byte (zeros n) i = 0 := by
  rw [zeros, byte_pushZeros]; rfl

@[simp] theorem size_zeros (n : Nat) : (zeros n).size = n := by simp [zeros]

theorem byte_append (a b : ByteArray) (i : Nat) :
    byte (a ++ b) i = if i < a.size then byte a i else byte b (i - a.size) := by
  unfold byte
  simp only [ByteArray.size_append]
  by_cases h : i < a.size
  · rw [dif_pos (by omega), if_pos h, dif_pos h, ByteArray.getElem_append_left h]
  · rw [if_neg h]
    by_cases h' : i - a.size < b.size
    · rw [dif_pos (by omega), dif_pos h', ByteArray.getElem_append_right (by omega)]
    · rw [dif_neg (by omega), dif_neg h']

theorem byte_extract (b : ByteArray) (first last i : Nat) :
    byte (b.extract first last) i = if first + i < last then byte b (first + i) else 0 := by
  unfold byte
  simp only [ByteArray.size_extract]
  by_cases h : i < min last b.size - first
  · rw [dif_pos h, if_pos (by omega), dif_pos (by omega), ByteArray.getElem_extract]
  · rw [dif_neg h]
    split
    · rw [dif_neg (by omega)]
    · rfl

@[simp] theorem size_resized (b : ByteArray) (n : Nat) : (resized b n).size = n := by
  unfold resized
  split
  · simp only [ByteArray.size_extract]; omega
  · simp only [size_pushZeros]; omega

theorem byte_resized (b : ByteArray) (n i : Nat) :
    byte (resized b n) i = if i < n then byte b i else 0 := by
  unfold resized
  split
  · rw [byte_extract]; simp
  · rw [byte_pushZeros]
    split
    · rfl
    · rw [byte_of_size_le (by omega)]

theorem overlay_eq_append {b data : ByteArray} {start : Nat} (h : start + data.size ≤ b.size) :
    overlay b start data = b.extract 0 start ++ data ++ b.extract (start + data.size) b.size := by
  rw [overlay, if_pos h, ByteArray.copySlice_eq_append]
  have : data.extract 0 (0 + data.size) = data := by simp
  rw [this]
  congr 2
  simp [← ByteArray.size_data]

@[simp] theorem size_overlay (b : ByteArray) (start : Nat) (data : ByteArray) :
    (overlay b start data).size = b.size := by
  by_cases h : start + data.size ≤ b.size
  · rw [overlay_eq_append h]
    simp only [ByteArray.size_append, ByteArray.size_extract]
    omega
  · rw [overlay, if_neg h]

/-- Overwriting changes the bytes it covers and no others. -/
theorem byte_overlay {b data : ByteArray} {start : Nat} (h : start + data.size ≤ b.size) (i : Nat) :
    byte (overlay b start data) i =
      if start ≤ i ∧ i < start + data.size then byte data (i - start) else byte b i := by
  rw [overlay_eq_append h]
  simp only [byte_append, byte_extract, ByteArray.size_append, ByteArray.size_extract]
  by_cases h₁ : i < start
  · rw [if_pos (by omega), if_pos (by omega), if_pos (by omega), if_neg (by omega)]; simp
  · by_cases h₂ : i < start + data.size
    · rw [if_pos (by omega), if_neg (by omega), if_pos (by omega)]
      congr 1
      omega
    · rw [if_neg (by omega), if_neg (c := start ≤ i ∧ i < start + data.size) (by omega)]
      have hm : min start b.size - 0 + data.size = start + data.size := by omega
      rw [hm]
      by_cases h₃ : i < b.size
      · rw [if_pos (by omega)]
        congr 1
        omega
      · rw [if_neg (by omega), byte_of_size_le (by omega)]

/-! ## Numbers -/

theorem size_pushNumber (b : ByteArray) (width value : Nat) :
    (pushNumber b width value).size = b.size + width := by
  induction width generalizing b value with
  | zero => rfl
  | succ width ih => rw [pushNumber, ih, ByteArray.size_push]; omega

@[simp] theorem size_ofNumber (width value : Nat) : (ofNumber width value).size = width := by
  simp [ofNumber, size_pushNumber]

theorem byte_pushNumber_lt (b : ByteArray) (width value : Nat) {i : Nat} (h : i < b.size) :
    byte (pushNumber b width value) i = byte b i := by
  induction width generalizing b value with
  | zero => rfl
  | succ width ih =>
    rw [pushNumber, ih _ _ (by rw [ByteArray.size_push]; omega), byte_push, if_neg (by omega)]

/-- What is written as a number of some width reads back modulo that width. -/
theorem number_pushNumber (b : ByteArray) (width value : Nat) :
    number (pushNumber b width value) b.size width = value % (1 <<< (8 * width)) := by
  induction width generalizing b value with
  | zero => simp [number, Nat.mod_one]
  | succ width ih =>
    have hb : byte (pushNumber b (width + 1) value) b.size = UInt8.ofNat value := by
      rw [pushNumber, byte_pushNumber_lt _ _ _ (by rw [ByteArray.size_push]; omega), byte_push,
        if_pos rfl]
    have hs : (b.push (UInt8.ofNat value)).size = b.size + 1 := ByteArray.size_push
    have hw : 1 <<< (8 * (width + 1)) = 256 * 1 <<< (8 * width) := by
      rw [Nat.mul_succ, Nat.shiftLeft_add, Nat.shiftLeft_eq _ 8, Nat.mul_comm]
    rw [number, hb, pushNumber, ← hs, ih, hw, Nat.mod_mul]
    simp

end RegionHeap.Bytes
