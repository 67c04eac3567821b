import RegionHeap.Bytes
import RegionHeap.Failure
import RegionHeap.Host

/-!
Regions: growable strings of bytes that hold a heap. A region is a reservation of private memory or
a mapped file, and it may be set to refuse some requests. What can be seen of it is its `size` and
its `byte`s; the lemmas say what each operation does to those two, the same for both backings.
Growth uncovers zeros, save where another writer has lengthened the mapped file: there it uncovers
what lies `beyond` the bytes in use.
-/
namespace RegionHeap

/-- No piece of memory has this many bytes or more, so that the distance of two bytes in it fits a
machine word with a sign. -/
def memoryLimit : Nat := 1 <<< 63

/-! ## Private memory -/

/-- Private memory for up to `capacity` bytes, of which the first `visible` are in use. The bytes
held behind them are left over from before an earlier shrink. -/
structure Reservation where
  capacity : Nat
  visible : Nat
  held : ByteArray
  visible_le : visible ≤ held.size

namespace Reservation

/-- A reservation of whole pages, none of it visible yet. -/
def reserve (host : Host) (capacity : Nat) : Except Failure Reservation :=
  match Size.roundUp? (max capacity 1) host.page with
  | none => .error .trap
  | some bytes =>
    if bytes < memoryLimit ∧ host.givesMemory bytes then
      .ok ⟨bytes, 0, ByteArray.empty, Nat.zero_le _⟩
    else .error (.refused (.region (.exhausted bytes 0)))

def byte (r : Reservation) (i : Nat) : UInt8 :=
  if i < r.visible then Bytes.byte r.held i else 0

/-- Uncovered bytes are cleared, whatever an earlier shrink left in them. -/
def resize (r : Reservation) (n : Nat) : Except RegionError Reservation :=
  if r.capacity < n then .error (.exhausted n r.capacity)
  else if h : n ≤ r.visible then
    .ok { r with visible := n, visible_le := Nat.le_trans h r.visible_le }
  else
    let kept := Bytes.pushZeros (r.held.extract 0 r.visible) (n - r.visible)
    .ok { r with
      visible := n
      held := kept ++ r.held.extract n r.held.size
      visible_le := by
        have := r.visible_le
        simp only [kept, ByteArray.size_append, Bytes.size_pushZeros, ByteArray.size_extract]
        omega }

theorem resize_ok {r r' : Reservation} {n : Nat} (h : r.resize n = .ok r') :
    r'.visible = n ∧ ∀ i, r'.byte i = if i < n then r.byte i else 0 := by
  unfold resize at h
  split at h
  · cases h
  · split at h
    · rename_i hn
      cases h
      refine ⟨rfl, fun i => ?_⟩
      simp only [byte]
      by_cases hi : i < n
      · simp [hi, Nat.lt_of_lt_of_le hi hn]
      · simp [hi]
    · cases h
      refine ⟨rfl, fun i => ?_⟩
      have := r.visible_le
      simp only [byte]
      by_cases hi : i < n
      · rw [if_pos hi, if_pos hi, Bytes.byte_append, if_pos (by simp; omega), Bytes.byte_pushZeros,
          Bytes.byte_extract]
        simp
      · simp [hi]

def overwrite (r : Reservation) (start : Nat) (data : ByteArray) : Reservation :=
  { r with
    held := Bytes.overlay r.held start data
    visible_le := by rw [Bytes.size_overlay]; exact r.visible_le }

end Reservation

/-! ## Mapped files -/

/-- A file mapped with room for `capacity` bytes; every write is in the file at once. The file is as
long as what is in use of it, until another writer gives it a length of its own. -/
structure MappedFile where
  name : String
  capacity : Nat
  /-- The bytes in use. -/
  contents : ByteArray
  /-- What another writer has put behind the bytes in use. -/
  beyond : ByteArray := ByteArray.empty
  /-- How many of the last bytes in use another writer has cut off the file. -/
  cut : Nat := 0

namespace MappedFile

def byte (f : MappedFile) (i : Nat) : UInt8 :=
  if i < f.contents.size then Bytes.byte f.contents i else 0

/-- What the file itself holds. -/
def whole (f : MappedFile) : ByteArray :=
  f.contents.extract 0 (f.contents.size - f.cut) ++ f.beyond

/-- The mapping after another writer has replaced what the file holds: as many bytes are in use as
before, and those that the file no longer has are zero. -/
def rewritten (f : MappedFile) (whole : ByteArray) : MappedFile :=
  { f with
    contents := Bytes.resized whole f.contents.size
    beyond := whole.extract f.contents.size whole.size
    cut := f.contents.size - whole.size }

/-- Sets the length of the file and of what is in use of it. Bytes that are cut off are gone. Growth
uncovers what another writer has put behind the bytes in use, and zeros behind that. -/
def resize (f : MappedFile) (n : Nat) : Except RegionError MappedFile :=
  if f.capacity < n then .error (.exhausted n f.capacity)
  else .ok { f with
    contents := Bytes.resized (f.contents ++ f.beyond) n
    beyond := ByteArray.empty
    cut := 0 }

theorem resize_ok {f f' : MappedFile} {n : Nat} (h : f.resize n = .ok f') :
    f'.contents.size = n ∧
      ∀ i, f'.byte i = if i < n then Bytes.byte (f.contents ++ f.beyond) i else 0 := by
  unfold resize at h
  split at h
  · cases h
  · cases h
    refine ⟨Bytes.size_resized _ _, fun i => ?_⟩
    simp only [byte, Bytes.size_resized, Bytes.byte_resized]
    by_cases hi : i < n
    · rw [if_pos hi, if_pos hi]
    · simp [hi]

def overwrite (f : MappedFile) (start : Nat) (data : ByteArray) : MappedFile :=
  { f with contents := Bytes.overlay f.contents start data }

end MappedFile

/-! ## Backings -/

inductive Backing where
  | memory (reservation : Reservation)
  | file (file : MappedFile)

theorem map_eq_ok_iff {ε α β : Type} {f : α → β} {x : Except ε α} {b : β} :
    x.map f = .ok b ↔ ∃ a, x = .ok a ∧ f a = b := by
  cases x <;> simp [Except.map]

namespace Backing

def size : Backing → Nat
  | memory r => r.visible
  | file f => f.contents.size

def capacity : Backing → Nat
  | memory r => r.capacity
  | file f => f.capacity

/-- The bytes behind the backing; only the first `size` of them are in use. -/
def held : Backing → ByteArray
  | memory r => r.held
  | file f => f.contents

def byte (b : Backing) (i : Nat) : UInt8 :=
  if i < b.size then Bytes.byte b.held i else 0

/-- What growth uncovers before it uncovers zeros. -/
def beyond : Backing → ByteArray
  | memory _ => ByteArray.empty
  | file f => f.beyond

def resize (b : Backing) (n : Nat) : Except RegionError Backing :=
  match b with
  | memory r => (r.resize n).map memory
  | file f => (f.resize n).map file

def overwrite (b : Backing) (start : Nat) (data : ByteArray) : Backing :=
  match b with
  | memory r => memory (r.overwrite start data)
  | file f => file (f.overwrite start data)

theorem size_le_held (b : Backing) : b.size ≤ b.held.size := by
  cases b with
  | memory r => exact r.visible_le
  | file f => exact Nat.le_refl _

@[simp] theorem size_overwrite (b : Backing) (start : Nat) (data : ByteArray) :
    (b.overwrite start data).size = b.size := by
  cases b with
  | memory r => rfl
  | file f => exact Bytes.size_overlay _ _ _

@[simp] theorem capacity_overwrite (b : Backing) (start : Nat) (data : ByteArray) :
    (b.overwrite start data).capacity = b.capacity := by
  cases b <;> rfl

theorem byte_overwrite {b : Backing} {start : Nat} {data : ByteArray}
    (h : start + data.size ≤ b.size) (i : Nat) :
    (b.overwrite start data).byte i =
      if start ≤ i ∧ i < start + data.size then Bytes.byte data (i - start) else b.byte i := by
  have hh : (b.overwrite start data).held = Bytes.overlay b.held start data := by cases b <;> rfl
  have hs := b.size_le_held
  rw [byte, size_overwrite, hh, Bytes.byte_overlay (by omega), byte]
  by_cases hi : i < b.size
  · simp [hi]
  · rw [if_neg hi, if_neg (c := start ≤ i ∧ i < start + data.size) (by omega), if_neg hi]

theorem size_resize {b b' : Backing} {n : Nat} (h : b.resize n = .ok b') : b'.size = n := by
  cases b with
  | memory r =>
    obtain ⟨r', hr, rfl⟩ := map_eq_ok_iff.1 h
    exact (r.resize_ok hr).1
  | file f =>
    obtain ⟨f', hf, rfl⟩ := map_eq_ok_iff.1 h
    exact (f.resize_ok hf).1

/-- Both backings keep the bytes below the smaller of the two sizes. Above it they show what lies
beyond the bytes in use, and zeros behind that. -/
theorem byte_resize {b b' : Backing} {n : Nat} (h : b.resize n = .ok b') (i : Nat) :
    b'.byte i =
      if i < n then (if i < b.size then b.byte i else Bytes.byte b.beyond (i - b.size)) else 0 := by
  cases b with
  | memory r =>
    obtain ⟨r', hr, rfl⟩ := map_eq_ok_iff.1 h
    refine ((r.resize_ok hr).2 i).trans ?_
    by_cases hi : i < r.visible
    · simp only [size, hi, if_true]
      rfl
    · simp [size, beyond, Reservation.byte, hi, Bytes.byte_of_size_le]
  | file f =>
    obtain ⟨f', hf, rfl⟩ := map_eq_ok_iff.1 h
    refine ((f.resize_ok hf).2 i).trans ?_
    rw [Bytes.byte_append]
    by_cases hi : i < f.contents.size <;> simp [size, beyond, byte, held, hi]

/-- Nothing is left beyond the bytes in use once their number has been set. -/
theorem beyond_resize {b b' : Backing} {n : Nat} (h : b.resize n = .ok b') :
    b'.beyond = ByteArray.empty := by
  cases b with
  | memory r =>
    obtain ⟨r', hr, rfl⟩ := map_eq_ok_iff.1 h
    rfl
  | file f =>
    obtain ⟨f', hf, rfl⟩ := map_eq_ok_iff.1 h
    unfold MappedFile.resize at hf
    split at hf
    · cases hf
    · cases hf; rfl

@[simp] theorem beyond_overwrite (b : Backing) (start : Nat) (data : ByteArray) :
    (b.overwrite start data).beyond = b.beyond := by
  cases b <;> rfl

/-- Resizing does not change what the backing could hold. -/
theorem capacity_resize {b b' : Backing} {n : Nat} (h : b.resize n = .ok b') :
    b'.capacity = b.capacity := by
  cases b with
  | memory r =>
    obtain ⟨r', hr, rfl⟩ := map_eq_ok_iff.1 h
    unfold Reservation.resize at hr
    split at hr
    · cases hr
    · split at hr <;> cases hr <;> rfl
  | file f =>
    obtain ⟨f', hf, rfl⟩ := map_eq_ok_iff.1 h
    unfold MappedFile.resize at hf
    split at hf
    · cases hf
    · cases hf; rfl

/-- A backing refuses exactly the sizes above its capacity. -/
theorem resize_eq_error_iff {b : Backing} {n : Nat} {e : RegionError} :
    b.resize n = .error e ↔ b.capacity < n ∧ e = .exhausted n b.capacity := by
  cases b with
  | memory r =>
    simp only [resize, Reservation.resize, capacity]
    split
    · rename_i h; simp [Except.map, h, eq_comm]
    · rename_i h
      split <;> simp [Except.map, h]
  | file f =>
    simp only [resize, MappedFile.resize, capacity]
    split
    · rename_i h; simp [Except.map, h, eq_comm]
    · rename_i h; simp [Except.map, h]

end Backing

/-! ## Regions -/

/-- Requests that a region refuses although its backing could grant them. -/
structure Refusals where
  /-- Whether a change from the first size to the second is refused. -/
  resize : Nat → Nat → Bool
  flush : Bool

/-- No shrinking if `keepsSize`, and no growing past `growLimit`. -/
def Refusals.limits (keepsSize : Bool) (growLimit : Option Nat) (flush : Bool) : Refusals where
  resize size wanted :=
    (keepsSize && wanted < size) || growLimit.any fun bound => size < wanted && bound < wanted
  flush := flush

structure Region where
  backing : Backing
  /-- Missing for a region that grants all that its backing can. -/
  refusals : Option Refusals := none

namespace Region

def size (r : Region) : Nat := r.backing.size
def capacity (r : Region) : Nat := r.backing.capacity
def byte (r : Region) (i : Nat) : UInt8 := r.backing.byte i

/-- What growth uncovers before it uncovers zeros. -/
def beyond (r : Region) : ByteArray := r.backing.beyond

/-- All bytes in use. -/
def contents (r : Region) : ByteArray := r.backing.held.extract 0 r.size

/-- A part of the bytes in use, if all of it is in use. -/
def read? (r : Region) (start count : Nat) : Option ByteArray :=
  if start + count ≤ r.size then some (r.backing.held.extract start (start + count)) else none

/-- The little-endian number of `width` bytes at `start`. -/
def number? (r : Region) (width start : Nat) : Option Nat :=
  if start + width ≤ r.size then some (Bytes.number r.backing.held start width) else none

/-- Overwrites bytes in use, if all of them are. -/
def write? (r : Region) (start : Nat) (data : ByteArray) : Option Region :=
  if start + data.size ≤ r.size then some { r with backing := r.backing.overwrite start data }
  else none

def resize (r : Region) (n : Nat) : Except RegionError Region :=
  if r.refusals.any (·.resize r.size n) then .error (.exhausted n r.capacity)
  else (r.backing.resize n).map fun b => { r with backing := b }

def flush (r : Region) : Except RegionError Unit :=
  if r.refusals.any (·.flush) then .error (.io .flushRefused) else .ok ()

/-- What the file of that name holds, if the region maps it. -/
def fileNamed? (r : Region) (name : String) : Option ByteArray :=
  match r.backing with
  | .memory _ => none
  | .file f => if f.name == name then some f.whole else none

/-- The region after another writer has replaced what the file of that name holds. -/
def rewriteFile (r : Region) (name : String) (whole : ByteArray) : Region :=
  match r.backing with
  | .memory _ => r
  | .file f => if f.name == name then { r with backing := .file (f.rewritten whole) } else r

/-- New settings for a region that has any. -/
def setRefusals (r : Region) (refusals : Refusals) : Region :=
  { r with refusals := r.refusals.map fun _ => refusals }

/-- A region without bytes, which never grows. -/
def empty : Region := ⟨.memory ⟨0, 0, ByteArray.empty, Nat.zero_le _⟩, none⟩

instance : Inhabited Region := ⟨empty⟩

/-- Bytes in use can always be overwritten. -/
theorem exists_write {r : Region} {start : Nat} {data : ByteArray}
    (h : start + data.size ≤ r.size) : ∃ r', r.write? start data = some r' :=
  ⟨_, if_pos h⟩

theorem size_write {r r' : Region} {start : Nat} {data : ByteArray}
    (h : r.write? start data = some r') : r'.size = r.size := by
  unfold write? at h
  split at h
  · cases h; exact Backing.size_overwrite _ _ _
  · cases h

theorem byte_write {r r' : Region} {start : Nat} {data : ByteArray}
    (h : r.write? start data = some r') (i : Nat) :
    r'.byte i =
      if start ≤ i ∧ i < start + data.size then Bytes.byte data (i - start) else r.byte i := by
  unfold write? at h
  split at h
  · cases h; exact Backing.byte_overwrite ‹_› i
  · cases h

theorem size_resize {r r' : Region} {n : Nat} (h : r.resize n = .ok r') : r'.size = n := by
  unfold resize at h
  split at h
  · cases h
  · obtain ⟨b, hb, rfl⟩ := map_eq_ok_iff.1 h
    exact Backing.size_resize hb

theorem byte_resize {r r' : Region} {n : Nat} (h : r.resize n = .ok r') (i : Nat) :
    r'.byte i =
      if i < n then (if i < r.size then r.byte i else Bytes.byte r.beyond (i - r.size)) else 0 := by
  unfold resize at h
  split at h
  · cases h
  · obtain ⟨b, hb, rfl⟩ := map_eq_ok_iff.1 h
    exact Backing.byte_resize hb i

/-- Where no other writer has lengthened the file, growth uncovers zeros. -/
theorem byte_resize_of_beyond {r r' : Region} {n : Nat} (h : r.resize n = .ok r')
    (hb : r.beyond = ByteArray.empty) (i : Nat) :
    r'.byte i = if i < n then r.byte i else 0 := by
  rw [byte_resize h, hb, Bytes.byte_of_size_le (Nat.zero_le _)]
  by_cases hi : i < r.size
  · rw [if_pos hi]
  · rw [if_neg hi, byte, Backing.byte, if_neg (c := i < r.backing.size) hi]

theorem beyond_resize {r r' : Region} {n : Nat} (h : r.resize n = .ok r') :
    r'.beyond = ByteArray.empty := by
  unfold resize at h
  split at h
  · cases h
  · obtain ⟨b, hb, rfl⟩ := map_eq_ok_iff.1 h
    exact Backing.beyond_resize hb

theorem beyond_write {r r' : Region} {start : Nat} {data : ByteArray}
    (h : r.write? start data = some r') : r'.beyond = r.beyond := by
  unfold write? at h
  split at h
  · cases h; exact Backing.beyond_overwrite _ _ _
  · cases h

end Region

end RegionHeap
