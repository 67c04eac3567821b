import RegionHeap.Proofs.Region.Sizes
import RegionHeap.Proofs.Requests
import RegionHeap.Region.Directory

/-!
Private memory and a mapped file are one growable string of bytes. `Growable` is that string with
what a request does to it, and `shown` the string that a region shows. A region that grants what its
backing can, and whose file no other writer has lengthened, answers any requests as the string that
it shows (`Region.Plain.reports_eq`), whatever an earlier shrink has left behind its bytes in use.
So a reservation and an empty file that is mapped for the same capacity cannot be told apart
(`Region.same_growable`).
-/
namespace RegionHeap

/-- What is asked of a region: another size, or bytes to be put over some in use. -/
inductive RegionRequest where
  | resize (size : Nat)
  | write (start : Nat) (data : ByteArray)

namespace RegionRequest

/-- Done, or why it is not. -/
abbrev Answer : Type := Except Failure Unit

/-- What is there after a request: one that is not done changes nothing. -/
def settle {σ : Type} (before : σ) : Except Failure σ → Answer × σ
  | .ok after => (.ok (), after)
  | .error failure => (.error failure, before)

end RegionRequest

open RegionRequest (settle)
open Requests (serveAll passed)

/-- A string of bytes that can be made shorter, and longer up to its capacity. -/
@[ext]
structure Growable where
  capacity : Nat
  bytes : List UInt8
  deriving DecidableEq, Repr

namespace Growable

variable (g : Growable)

/-- Keeps the first `n` bytes, and adds zeros where there are fewer. -/
def resize (n : Nat) : Except Failure Growable :=
  if n ≤ g.capacity then
    .ok { g with bytes := g.bytes.take n ++ List.replicate (n - g.bytes.length) 0 }
  else .error (.refused (.region (.exhausted n g.capacity)))

/-- Puts bytes over some that are there. -/
def write (start : Nat) (data : List UInt8) : Except Failure Growable :=
  if start + data.length ≤ g.bytes.length then
    .ok { g with bytes := g.bytes.take start ++ (data ++ g.bytes.drop (start + data.length)) }
  else .error .trap

def serve : RegionRequest → RegionRequest.Answer × Growable
  | .resize n => settle g (g.resize n)
  | .write start data => settle g (g.write start data.data.toList)

/-- The answers to some requests one after another, each with the length and the string after it. -/
def reports (requests : List RegionRequest) : List (RegionRequest.Answer × Nat × Growable) :=
  (serveAll serve g requests).map fun p => (p.1, p.2.bytes.length, p.2)

end Growable

namespace Bytes

@[simp] theorem length_toList (b : ByteArray) : b.data.toList.length = b.size := rfl

theorem getElem?_toList (b : ByteArray) (i : Nat) :
    b.data.toList[i]? = if i < b.size then some (byte b i) else none := by
  rw [Array.getElem?_toList]
  split
  · rename_i hi
    rw [byte_eq_getElem hi]
    exact Array.getElem?_eq_getElem _
  · rename_i hi
    exact Array.getElem?_eq_none (Nat.le_of_not_lt hi)

end Bytes

namespace Region

variable {r r' : Region} {n start : Nat} {data : ByteArray}

def serve (r : Region) : RegionRequest → RegionRequest.Answer × Region
  | .resize n => settle r ((r.resize n).mapError fun e => .refused (.region e))
  | .write start data => settle r ((r.write? start data).elim (.error .trap) .ok)

/-- What can be seen of a region. -/
def shown (r : Region) : Growable := ⟨r.capacity, r.contents.data.toList⟩

/-- The answers to some requests one after another, each with the size and what is seen after it. -/
def reports (r : Region) (requests : List RegionRequest) :
    List (RegionRequest.Answer × Nat × Growable) :=
  (serveAll serve r requests).map fun p => (p.1, p.2.size, p.2.shown)

/-- Every size up to the capacity is granted: bytes below both sizes stay, and all others are zero.
A larger size is refused and changes nothing. -/
structure Resizes (r : Region) : Prop where
  granted : ∀ n, n ≤ r.capacity → ∃ r', r.serve (.resize n) = (.ok (), r') ∧ r'.size = n ∧
    r'.capacity = r.capacity ∧ (∀ i, i < min r.size n → r'.byte i = r.byte i) ∧
    ∀ i, min r.size n ≤ i → r'.byte i = 0
  refused : ∀ n, r.capacity < n →
    r.serve (.resize n) = (.error (.refused (.region (.exhausted n r.capacity))), r)

/-- Nothing is refused that the backing can grant, and no other writer has lengthened the file. -/
structure Plain (r : Region) : Prop where
  refusals_eq : r.refusals = none
  beyond_eq : r.beyond = ByteArray.empty

/-! ## What is seen -/

theorem size_contents (r : Region) : r.contents.size = r.size := by
  have held : r.size ≤ r.backing.held.size := r.backing.size_le_held
  rw [contents, ByteArray.size_extract]
  omega

@[simp] theorem capacity_shown (r : Region) : r.shown.capacity = r.capacity := rfl

@[simp] theorem length_shown (r : Region) : r.shown.bytes.length = r.size := r.size_contents

theorem getElem?_shown (r : Region) (i : Nat) :
    r.shown.bytes[i]? = if i < r.size then some (r.byte i) else none := by
  rw [shown, Bytes.getElem?_toList, size_contents]
  split
  · rename_i hi
    rw [contents, Bytes.byte_extract, Nat.zero_add, if_pos hi, byte_eq_held hi]
  · rfl

/-- The first bytes are seen again, and zeros where there were fewer. -/
theorem Plain.shown_resize (p : r.Plain) (h : r.resize n = .ok r') :
    r.shown.resize n = .ok r'.shown := by
  have within : n ≤ r.shown.capacity := le_capacity_of_resize h
  obtain ⟨size, capacity, -, -, -⟩ := resize_eq h
  rw [Growable.resize, if_pos within]
  apply congrArg Except.ok
  apply Growable.ext
  · exact capacity.symm
  · apply List.ext_getElem?
    intro i
    rw [getElem?_shown, size, byte_resize_of_beyond h p.beyond_eq, List.getElem?_append,
      List.length_take, length_shown]
    by_cases kept : i < min n r.size
    · have below : i < n := by omega
      have inUse : i < r.size := by omega
      simp only [kept, below, inUse, if_true, List.getElem?_take_of_lt, getElem?_shown]
    · rw [if_neg kept, List.getElem?_replicate]
      by_cases uncovered : i < n
      · have zero : r.byte i = 0 := if_neg (show ¬i < r.size by omega)
        have added : i - min n r.size < n - r.size := by omega
        simp only [uncovered, added, if_true, zero]
      · have past : ¬i - min n r.size < n - r.size := by omega
        simp only [uncovered, past, if_false]

/-- Bytes are overwritten only where all of them are in use. -/
theorem rewritten_of_write (h : r.write? start data = some r') :
    start + data.size ≤ r.size ∧ Rewritten r r' ∧ ∀ i, r'.byte i =
      if start ≤ i ∧ i < start + data.size then Bytes.byte data (i - start) else r.byte i := by
  have fits := (Option.ite_none_right_eq_some.1 h).1
  obtain ⟨r'', h', rewritten, written⟩ := write?_eq fits
  cases h.symm.trans h'
  exact ⟨fits, rewritten, written⟩

/-- What is put over bytes is seen in their place. -/
theorem shown_write (h : r.write? start data = some r') :
    r.shown.write start data.data.toList = .ok r'.shown := by
  obtain ⟨fits, rewritten, written⟩ := rewritten_of_write h
  rw [Growable.write, Bytes.length_toList, length_shown, if_pos fits]
  apply congrArg Except.ok
  apply Growable.ext
  · exact rewritten.capacity_eq.symm
  · apply List.ext_getElem?
    intro i
    have byte := written i
    rw [getElem?_shown, rewritten.size_eq, List.getElem?_append, List.length_take, length_shown,
      List.getElem?_append, Bytes.length_toList]
    rcases Nat.lt_or_ge i start with before | behind
    · rw [if_neg (by omega)] at byte
      have first : i < min start r.size := by omega
      rw [if_pos first, List.getElem?_take_of_lt before, getElem?_shown, byte]
    · have reached : min start r.size = start := by omega
      rw [reached, if_neg (Nat.not_lt_of_le behind)]
      by_cases inside : i < start + data.size
      · rw [if_pos ⟨behind, inside⟩] at byte
        have inUse : i < r.size := by omega
        have covered : i - start < data.size := by omega
        rw [if_pos inUse, if_pos covered, Bytes.getElem?_toList, if_pos covered, byte]
      · rw [if_neg (by omega)] at byte
        have rest : ¬i - start < data.size := by omega
        have same : start + data.size + (i - start - data.size) = i := by omega
        rw [if_neg rest, List.getElem?_drop, same, getElem?_shown, byte]

/-! ## Requests -/

theorem Plain.of_resize (p : r.Plain) (h : r.resize n = .ok r') : r'.Plain := by
  obtain ⟨-, -, refusals, beyond, -⟩ := resize_eq h
  exact ⟨refusals.trans p.refusals_eq, beyond⟩

theorem Plain.of_write (p : r.Plain) (h : r.write? start data = some r') : r'.Plain := by
  obtain ⟨-, rewritten, -⟩ := rewritten_of_write h
  exact ⟨rewritten.refusals_eq.trans p.refusals_eq, rewritten.beyond_eq.trans p.beyond_eq⟩

/-- Only a size above the capacity is refused. -/
theorem Plain.resize_eq_error (p : r.Plain) {e : RegionError} (h : r.resize n = .error e) :
    r.capacity < n ∧ e = .exhausted n r.capacity := by
  rw [resize, p.refusals_eq] at h
  cases hb : r.backing.resize n with
  | ok b => simp [hb, Except.map] at h
  | error e' =>
    rw [hb] at h
    cases h
    exact Backing.resize_eq_error_iff.1 hb

theorem Plain.serve (p : r.Plain) (request : RegionRequest) : (r.serve request).2.Plain := by
  cases request with
  | resize n =>
    rw [Region.serve]
    cases h : r.resize n with
    | ok r' => exact p.of_resize h
    | error e => exact p
  | write start data =>
    rw [Region.serve]
    cases h : r.write? start data with
    | some r' => exact p.of_write h
    | none => exact p

/-- A region answers a request as the string that it shows, and shows what that is then. -/
theorem Plain.serve_shown (p : r.Plain) (request : RegionRequest) :
    r.shown.serve request = Prod.map id shown (r.serve request) := by
  cases request with
  | resize n =>
    rw [Region.serve, Growable.serve]
    cases h : r.resize n with
    | ok r' =>
      rw [p.shown_resize h]
      rfl
    | error e =>
      obtain ⟨above, rfl⟩ := p.resize_eq_error h
      rw [Growable.resize, capacity_shown, if_neg (Nat.not_le_of_lt above)]
      rfl
  | write start data =>
    rw [Region.serve, Growable.serve]
    cases h : r.write? start data with
    | some r' =>
      rw [shown_write h]
      rfl
    | none =>
      have outside : ¬start + data.size ≤ r.size := fun fits => by
        obtain ⟨r', h'⟩ := exists_write fits
        rw [h] at h'
        cases h'
      rw [Growable.write, Bytes.length_toList, length_shown, if_neg outside]
      rfl

/-- A region answers any requests as the string that it shows. -/
theorem Plain.reports_eq (p : r.Plain) (requests : List RegionRequest) :
    r.reports requests = r.shown.reports requests := by
  have run := Requests.map_serveAll (P := Plain) id shown (fun _ request q => q.serve request)
    (fun _ request q => q.serve_shown request) p requests
  rw [reports, Growable.reports, ← run, List.map_map]
  apply List.map_congr_left
  intro answered _
  simp

theorem Plain.passed (p : r.Plain) (requests : List RegionRequest) :
    ∀ s ∈ passed Region.serve r requests, s.Plain :=
  Requests.passed_of_step (P := Plain) (fun _ request q => q.serve request) p requests

theorem Plain.resizes (p : r.Plain) : r.Resizes where
  granted n within := by
    have spared : r.refusals.any (·.resize r.size n) = false := by
      rw [p.refusals_eq]
      rfl
    obtain ⟨r', h⟩ := exists_resize_iff.2 ⟨spared, within⟩
    obtain ⟨size, capacity, -, -, kept⟩ := resize_eq h
    refine ⟨r', ?_, size, capacity, ?_, ?_⟩
    · rw [Region.serve, h]
      rfl
    · intro i hi
      exact kept i (by omega) (by omega)
    · intro i hi
      rw [byte_resize_of_beyond h p.beyond_eq]
      split
      · exact if_neg (show ¬i < r.size by omega)
      · rfl
  refused n above := by
    cases h : r.resize n with
    | ok r' => exact absurd (le_capacity_of_resize h) (Nat.not_le_of_lt above)
    | error e =>
      obtain ⟨-, rfl⟩ := p.resize_eq_error h
      rw [Region.serve, h]
      rfl

end Region

/-! ## Two that were just opened -/

/-- What is reserved can be mapped if the addresses are given: an empty file has room for as many
bytes. -/
theorem Directory.mapFile_of_reserve {d : Directory} {host : Host} {name : String} {capacity : Nat}
    {memory : Reservation} (named : nameFault? name = none)
    (vacant : (d.find? name).getD ByteArray.empty = ByteArray.empty)
    (reserved : Reservation.reserve host capacity = .ok memory)
    (given : host.givesRange memory.capacity = true) :
    ∃ room, (d.mapFile host name capacity).1 = .ok { name, capacity := room, contents := .empty } ∧
      memory = ⟨room, 0, .empty, Nat.zero_le _⟩ := by
  rw [Reservation.reserve] at reserved
  split at reserved
  · cases reserved
  · rename_i room rounded
    split at reserved
    · cases reserved
      have same : max (max capacity ByteArray.empty.size) 1 = max capacity 1 := by
        rw [ByteArray.size_empty, Nat.max_eq_left (Nat.zero_le capacity)]
      refine ⟨room, ?_, rfl⟩
      rw [mapFile, named]
      simp only [vacant, same, rounded]
      rw [if_pos given]
    · cases reserved

/-- A reservation and an empty file mapped for the same capacity show the same bytes and have the
same capacity, and they answer any requests alike, as one growable string of bytes. At any time a
change of size keeps the bytes below both sizes and uncovers zeros, and one that is refused changes
nothing. -/
theorem Region.same_growable {d : Directory} {host : Host} {name : String} {capacity : Nat}
    {memory : Reservation} (named : Directory.nameFault? name = none)
    (vacant : (d.find? name).getD ByteArray.empty = ByteArray.empty)
    (reserved : Reservation.reserve host capacity = .ok memory)
    (given : host.givesRange memory.capacity = true) :
    ∃ file, (d.mapFile host name capacity).1 = .ok file ∧
      shown ⟨.memory memory, none⟩ = ⟨memory.capacity, []⟩ ∧
      shown ⟨.file file, none⟩ = ⟨memory.capacity, []⟩ ∧
      ∀ requests,
        reports ⟨.memory memory, none⟩ requests = reports ⟨.file file, none⟩ requests ∧
        reports ⟨.file file, none⟩ requests = Growable.reports ⟨memory.capacity, []⟩ requests ∧
        ∀ r, r ∈ passed serve ⟨.memory memory, none⟩ requests ∨
          r ∈ passed serve ⟨.file file, none⟩ requests → r.Resizes := by
  obtain ⟨room, mapped, rfl⟩ := Directory.mapFile_of_reserve named vacant reserved given
  have memoryPlain : Plain ⟨.memory ⟨room, 0, .empty, Nat.zero_le _⟩, none⟩ := ⟨rfl, rfl⟩
  have filePlain : Plain ⟨.file { name, capacity := room, contents := .empty }, none⟩ := ⟨rfl, rfl⟩
  refine ⟨_, mapped, rfl, rfl, fun requests => ⟨?_, filePlain.reports_eq requests, ?_⟩⟩
  · rw [memoryPlain.reports_eq, filePlain.reports_eq]
    rfl
  · intro r hr
    have plain : r.Plain := by
      cases hr with
      | inl inMemory => exact memoryPlain.passed requests r inMemory
      | inr inFile => exact filePlain.passed requests r inFile
    exact plain.resizes

/-- A size, bytes put over all of it, all but one of them cut off and uncovered again, and then a
size and a write that go too far. -/
def smallRequests : List RegionRequest :=
  [.resize 3, .write 0 ⟨#[1, 2, 3]⟩, .resize 1, .resize 4, .resize 4097, .write 3 ⟨#[7, 7]⟩]

/-- The bytes that were cut off are uncovered as zeros, in memory and in the file. -/
theorem Region.same_growable_small : ∃ memory file,
    Directory.nameFault? "a" = none ∧
      (({} : Directory).find? "a").getD ByteArray.empty = ByteArray.empty ∧
      Reservation.reserve Host.ample 5 = .ok memory ∧
      Host.ample.givesRange memory.capacity = true ∧
      (({} : Directory).mapFile Host.ample "a" 5).1 = .ok file ∧
      reports ⟨.memory memory, none⟩ smallRequests = reports ⟨.file file, none⟩ smallRequests ∧
      reports ⟨.file file, none⟩ smallRequests =
        [(.ok (), 3, ⟨4096, [0, 0, 0]⟩), (.ok (), 3, ⟨4096, [1, 2, 3]⟩), (.ok (), 1, ⟨4096, [1]⟩),
          (.ok (), 4, ⟨4096, [1, 0, 0, 0]⟩),
          (.error (.refused (.region (.exhausted 4097 4096))), 4, ⟨4096, [1, 0, 0, 0]⟩),
          (.error .trap, 4, ⟨4096, [1, 0, 0, 0]⟩)] := by
  have named : Directory.nameFault? "a" = none := by decide
  have reserved : Reservation.reserve Host.ample 5 = .ok ⟨4096, 0, .empty, Nat.zero_le _⟩ := rfl
  obtain ⟨file, mapped, -, -, run⟩ := same_growable (d := {}) named rfl reserved rfl
  obtain ⟨same, answered, -⟩ := run smallRequests
  exact ⟨_, file, named, rfl, reserved, rfl, mapped, same, answered⟩

end RegionHeap
