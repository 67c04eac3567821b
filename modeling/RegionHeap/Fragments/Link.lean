/-!
Links between free fragments, as numbers of 8 bytes: an offset, or the largest number for no
fragment.
-/
namespace RegionHeap.Link

/-- The number that stands for no fragment. -/
def nil : Nat := (1 <<< 64) - 1

def encode (link : Option Nat) : Nat := link.getD nil

def decode (raw : Nat) : Option Nat := if raw = nil then none else some raw

theorem decode_encode {link : Option Nat} (h : ∀ offset ∈ link, offset < nil) :
    decode (encode link) = link := by
  cases link with
  | none => rfl
  | some offset =>
    show decode offset = some offset
    rw [decode, if_neg (Nat.ne_of_lt (h offset rfl))]

end RegionHeap.Link
