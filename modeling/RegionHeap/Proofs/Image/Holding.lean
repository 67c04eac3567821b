import RegionHeap.Image.Codec
import RegionHeap.Proofs.Region.Words

/-!
What a region holds where. A region holds a table if it holds each item of it, and an item if it
holds each of its numbers; what it holds is read back.
-/
namespace RegionHeap

namespace Bytes

theorem push_eq_append (b : ByteArray) (x : UInt8) : b.push x = b ++ ByteArray.empty.push x := by
  refine ext_byte (by simp [ByteArray.size_push, ByteArray.size_append]) fun i => ?_
  rw [byte_append, byte_push, byte_push]
  by_cases hi : i < b.size
  · rw [if_pos hi, if_neg (by omega)]
  · rw [if_neg hi]
    by_cases he : i = b.size
    · rw [if_pos he, if_pos (by rw [he, Nat.sub_self]; rfl)]
    · have h0 : ByteArray.empty.size = 0 := rfl
      rw [if_neg he, if_neg (by omega), byte_of_size_le (by omega), byte_of_size_le (by omega)]

theorem pushNumber_eq_append (b : ByteArray) (width value : Nat) :
    pushNumber b width value = b ++ ofNumber width value := by
  unfold ofNumber
  induction width generalizing b value with
  | zero => rw [pushNumber, pushNumber, ByteArray.append_empty]
  | succ width ih =>
    rw [pushNumber, pushNumber, ih, ih (ByteArray.empty.push _), push_eq_append,
      ByteArray.append_assoc]

theorem pushZeros_eq_append (b : ByteArray) (n : Nat) : pushZeros b n = b ++ zeros n := by
  refine ext_byte (by simp [ByteArray.size_append]) fun i => ?_
  rw [byte_append, byte_pushZeros, byte_zeros]
  split
  · rfl
  · exact byte_of_size_le (by omega)

end Bytes

namespace Image

variable {α : Type}

/-- An encoder that writes each item in `width` bytes behind what stands before. -/
def Appends (encode : ByteArray → α → ByteArray) (width : Nat) : Prop :=
  ∀ b x, encode b x = b ++ encode ByteArray.empty x ∧ (encode ByteArray.empty x).size = width

theorem foldl_eq_append {encode : ByteArray → α → ByteArray} {width : Nat}
    (ha : Appends encode width) (b : ByteArray) (items : List α) :
    items.foldl encode b = b ++ concat encode items := by
  unfold concat
  induction items generalizing b with
  | nil => rw [List.foldl_nil, List.foldl_nil, ByteArray.append_empty]
  | cons x rest ih =>
    rw [List.foldl_cons, List.foldl_cons, ih, ih (encode ByteArray.empty x), (ha b x).1,
      ByteArray.append_assoc]

theorem concat_cons {encode : ByteArray → α → ByteArray} {width : Nat} (ha : Appends encode width)
    (x : α) (rest : List α) :
    concat encode (x :: rest) = encode ByteArray.empty x ++ concat encode rest := by
  rw [concat, List.foldl_cons, foldl_eq_append ha]

theorem size_concat {encode : ByteArray → α → ByteArray} {width : Nat} (ha : Appends encode width)
    (items : List α) : (concat encode items).size = items.length * width := by
  induction items with
  | nil => rw [List.length_nil, Nat.zero_mul]; rfl
  | cons x rest ih =>
    rw [concat_cons ha, ByteArray.size_append, (ha ByteArray.empty x).2, ih, List.length_cons,
      Nat.add_mul, Nat.one_mul, Nat.add_comm]

/-! ## The encoders -/

theorem appends_pushNumber (width : Nat) :
    Appends (fun b value => Bytes.pushNumber b width value) width :=
  fun b value => ⟨Bytes.pushNumber_eq_append b width value, Bytes.size_ofNumber width value⟩

theorem length_entryNumbers (e : Entry) : (entryNumbers e).length = 4 := by cases e <;> rfl

theorem appends_pushEntry : Appends pushEntry Metadata.entryBytes := by
  intro b e
  have hn := appends_pushNumber 4
  have he : pushEntry ByteArray.empty e = concat (fun b n => Bytes.pushNumber b 4 n) (entryNumbers e) := by
    rw [pushEntry, concat]
  refine ⟨?_, ?_⟩
  · rw [he, pushEntry, foldl_eq_append hn]
  · rw [he, size_concat hn, length_entryNumbers]
    rfl

theorem appends_pushLink : Appends pushLink 8 :=
  fun b link => appends_pushNumber 8 b (Link.encode link)

theorem appends_pushSlot : Appends pushSlot Metadata.slotBytes := by
  rintro b (_ | object)
  · refine ⟨?_, by simp [pushSlot, Metadata.slotBytes]⟩
    rw [pushSlot, pushSlot, Bytes.pushZeros_eq_append, Bytes.pushZeros_eq_append ByteArray.empty,
      ByteArray.empty_append]
  · constructor
    · simp only [pushSlot]
      rw [Bytes.pushNumber_eq_append, Bytes.pushNumber_eq_append b, Bytes.pushNumber_eq_append _ 8,
        Bytes.pushNumber_eq_append ByteArray.empty, ByteArray.empty_append, ByteArray.append_assoc,
        ByteArray.append_assoc]
      rw [ByteArray.append_assoc]
    · simp only [pushSlot, Bytes.size_pushNumber, ByteArray.size_append, Bytes.size_resized]
      rfl

theorem appends_pushRecord : Appends pushRecord Metadata.recordBytes := by
  intro b record
  constructor
  · simp only [pushRecord]
    rw [Bytes.pushNumber_eq_append, Bytes.pushNumber_eq_append b,
      Bytes.pushNumber_eq_append (Bytes.pushNumber _ _ _), Bytes.pushNumber_eq_append ByteArray.empty,
      ByteArray.empty_append, ByteArray.append_assoc]
  · simp only [pushRecord, Bytes.size_pushNumber]
    rfl

theorem appends_pushMap (mapBytes : Nat) : Appends (pushMap mapBytes) mapBytes := by
  intro b map
  constructor
  · simp only [pushMap, ByteArray.empty_append]
  · simp only [pushMap, ByteArray.empty_append, Bytes.size_resized]

theorem size_header (h : Header) : h.encode.size = Metadata.headerBytes := Bytes.size_resized _ _

end Image

/-! ## Regions that hold bytes -/

/-- The region holds these bytes from `start` on. -/
def Region.Holds (r : Region) (start : Nat) (data : ByteArray) : Prop :=
  start + data.size ≤ r.size ∧ ∀ i, i < data.size → r.byte (start + i) = Bytes.byte data i

namespace Region

variable {r r' : Region} {start : Nat}

theorem Holds.congr {data : ByteArray} (h : r.Holds start data) (hs : start + data.size ≤ r'.size)
    (hb : ∀ i, start ≤ i → i < start + data.size → r'.byte i = r.byte i) : r'.Holds start data :=
  ⟨hs, fun i hi => by rw [hb _ (by omega) (by omega), h.2 i hi]⟩

theorem holds_append {a b : ByteArray} :
    r.Holds start (a ++ b) ↔ r.Holds start a ∧ r.Holds (start + a.size) b := by
  unfold Holds
  rw [ByteArray.size_append]
  constructor
  · rintro ⟨hs, hb⟩
    refine ⟨⟨by omega, fun i hi => ?_⟩, by omega, fun i hi => ?_⟩
    · rw [hb i (by omega), Bytes.byte_append, if_pos hi]
    · rw [Nat.add_assoc, hb (a.size + i) (by omega), Bytes.byte_append, if_neg (by omega),
        Nat.add_sub_cancel_left]
  · rintro ⟨⟨-, ha⟩, hs, hb⟩
    refine ⟨by omega, fun i hi => ?_⟩
    rw [Bytes.byte_append]
    by_cases hi' : i < a.size
    · rw [if_pos hi', ha i hi']
    · have := hb (i - a.size) (by omega)
      rw [if_neg hi', ← this]
      congr 1
      omega

theorem Holds.number {width value : Nat} (h : r.Holds start (Bytes.ofNumber width value))
    (hv : value < 1 <<< (8 * width)) : r.number? width start = some value := by
  obtain ⟨hs, hb⟩ := h
  rw [Bytes.size_ofNumber] at hs hb
  exact number?_of_bytes hs hv hb

theorem Holds.read? {data : ByteArray} (h : r.Holds start data) :
    r.read? start data.size = some data := by
  obtain ⟨data', hd, hsize, hb⟩ := read?_eq start data.size h.1
  rw [hd, Option.some.injEq]
  refine Bytes.ext_byte hsize fun i => ?_
  by_cases hi : i < data.size
  · rw [hb i hi, h.2 i hi]
  · rw [Bytes.byte_of_size_le (by omega), Bytes.byte_of_size_le (by omega)]

/-- A table is held item by item. -/
theorem Holds.item {α : Type} {encode : ByteArray → α → ByteArray} {width : Nat}
    (ha : Image.Appends encode width) {items : List α} (h : r.Holds start (Image.concat encode items))
    {i : Nat} {x : α} (hi : items[i]? = some x) :
    r.Holds (start + i * width) (encode ByteArray.empty x) := by
  induction items generalizing start i with
  | nil => cases hi
  | cons y rest ih =>
    rw [Image.concat_cons ha, holds_append, (ha ByteArray.empty y).2] at h
    cases i with
    | zero =>
      rw [List.getElem?_cons_zero, Option.some.injEq] at hi
      rw [Nat.zero_mul, Nat.add_zero, ← hi]
      exact h.1
    | succ i =>
      have := ih h.2 hi
      rwa [show start + width + i * width = start + (i + 1) * width by
        rw [Nat.add_mul, Nat.one_mul]; omega] at this

end Region

end RegionHeap
