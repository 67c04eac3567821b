import RegionHeap.Image.Load
import RegionHeap.Proofs.AlignmentTable
import RegionHeap.Proofs.Blocks.Rebuilding
import RegionHeap.Proofs.Fragments.Bits
import RegionHeap.Proofs.Image.Saving
import RegionHeap.Proofs.Renumbering

/-!
Reading an image. What a reader answers is described by what the region holds: a table is read item
by item, and an item is answered just if its numbers stand in the region and pass the checks. The
equivalences serve both ways, for images that were saved and for images of any origin.
-/
namespace RegionHeap

theorem bind_eq_ok_iff {ε α β : Type} {x : Except ε α} {f : α → Except ε β} {b : β} :
    x >>= f = .ok b ↔ ∃ a, x = .ok a ∧ f a = .ok b := by
  cases x <;> simp [bind, Except.bind]

/-- Items are read one after another. -/
theorem mapM_eq_ok_iff {ε α β : Type} {f : α → Except ε β} {l : List α} {ys : List β} :
    l.mapM f = .ok ys ↔
      ys.length = l.length ∧
        ∀ (i : Nat) (x : α), l[i]? = some x → ∃ y, ys[i]? = some y ∧ f x = .ok y := by
  induction l generalizing ys with
  | nil =>
    rw [List.mapM_nil]
    constructor
    · intro h
      cases h
      exact ⟨rfl, fun i x hx => by cases hx⟩
    · rintro ⟨hlen, -⟩
      rw [List.eq_nil_of_length_eq_zero hlen]
      rfl
  | cons a l ih =>
    simp only [List.mapM_cons, bind_eq_ok_iff, ih]
    constructor
    · rintro ⟨y, hy, rest, ⟨hlen, hrest⟩, h⟩
      cases h
      refine ⟨congrArg (· + 1) hlen, fun i x hx => ?_⟩
      cases i with
      | zero =>
        cases hx
        exact ⟨y, rfl, hy⟩
      | succ i => exact hrest i x hx
    · rintro ⟨hlen, hall⟩
      obtain ⟨y, hy, hfy⟩ := hall 0 a rfl
      cases ys with
      | nil => cases hy
      | cons y' rest =>
        cases hy
        exact ⟨_, hfy, rest, ⟨Nat.succ.inj hlen, fun i x hx => hall (i + 1) x hx⟩, rfl⟩

theorem mapM_range_eq_ok_iff {ε β : Type} {f : Nat → Except ε β} {n : Nat} {ys : List β} :
    (List.range n).mapM f = .ok ys ↔
      ys.length = n ∧ ∀ (i : Nat) (y : β), ys[i]? = some y → f i = .ok y := by
  rw [mapM_eq_ok_iff, List.length_range]
  refine and_congr_right fun hlen => ⟨fun h i y hy => ?_, fun h i x hx => ?_⟩
  · obtain ⟨hi, -⟩ := List.getElem?_eq_some_iff.1 hy
    obtain ⟨y', hy', hf⟩ := h i i (List.getElem?_range (by omega))
    rw [hy] at hy'
    cases hy'
    exact hf
  · obtain ⟨hi, hx⟩ := List.getElem?_eq_some_iff.1 hx
    rw [List.getElem_range] at hx
    subst hx
    rw [List.length_range] at hi
    exact ⟨_, List.getElem?_eq_getElem (by omega), h _ _ (List.getElem?_eq_getElem (by omega))⟩

theorem getElem?_map_range {β : Type} {f : Nat → β} {n i : Nat} {y : β} :
    ((List.range n).map f)[i]? = some y ↔ i < n ∧ f i = y := by
  rw [List.getElem?_map]
  by_cases hi : i < n
  · rw [List.getElem?_range hi]
    simp [hi]
  · rw [List.getElem?_eq_none (by simpa using hi)]
    simp [hi]

namespace Image

variable {α : Type} {r : Region} {h : Header} {t : TableOffsets} {bytes start : Nat}

theorem orTrap_eq_ok {o : Option α} {a : α} : orTrap o = .ok a ↔ o = some a := by
  cases o <;> simp [orTrap]

theorem orCorrupt_eq_ok {reason : Corruption} {o : Option α} {a : α} :
    orCorrupt reason o = .ok a ↔ o = some a := by
  cases o <;> simp [orCorrupt]

theorem ensure_eq_ok {reason : Corruption} {holds : Bool} {u : Unit} :
    ensure holds reason = .ok u ↔ holds = true := by
  cases holds <;> simp [ensure]

theorem number_eq_ok {width n : Nat} : number r width start = .ok n ↔ r.number? width start = some n :=
  orTrap_eq_ok

/-! ## Header -/

theorem readHeader_eq_ok_iff : readHeader r = .ok h ↔
    (Metadata.headerBytes ≤ r.size ∧ startsWithMagic r = true) ∧ r.number? 4 8 = some version ∧
      r.number? 4 12 = some h.blockLog2 ∧
      (Geometry.minBlockLog2 ≤ h.blockLog2 ∧ h.blockLog2 ≤ Geometry.maxBlockLog2) ∧
      ∀ i n, h.fields[i]? = some n → r.number? 8 (fieldsStart + 8 * i) = some n := by
  have fields : (∀ i n, h.fields[i]? = some n → r.number? 8 (fieldsStart + 8 * i) = some n) ↔
      r.number? 8 (fieldsStart + 8 * 0) = some h.limit ∧
      r.number? 8 (fieldsStart + 8 * 1) = some h.maxBlocks ∧
      r.number? 8 (fieldsStart + 8 * 2) = some h.arenaStart ∧
      r.number? 8 (fieldsStart + 8 * 3) = some h.slotCount ∧
      r.number? 8 (fieldsStart + 8 * 4) = some h.slotCapacity ∧
      r.number? 8 (fieldsStart + 8 * 5) = some h.recordCount ∧
      r.number? 8 (fieldsStart + 8 * 6) = some h.recordCapacity ∧
      r.number? 8 (fieldsStart + 8 * 7) = some h.floor := by
    constructor
    · intro hf
      exact ⟨hf 0 _ rfl, hf 1 _ rfl, hf 2 _ rfl, hf 3 _ rfl, hf 4 _ rfl, hf 5 _ rfl, hf 6 _ rfl,
        hf 7 _ rfl⟩
    · rintro ⟨h₀, h₁, h₂, h₃, h₄, h₅, h₆, h₇⟩ i n hn
      match i, hn with
      | 0, hn => cases hn; exact h₀
      | 1, hn => cases hn; exact h₁
      | 2, hn => cases hn; exact h₂
      | 3, hn => cases hn; exact h₃
      | 4, hn => cases hn; exact h₄
      | 5, hn => cases hn; exact h₅
      | 6, hn => cases hn; exact h₆
      | 7, hn => cases hn; exact h₇
  rw [fields, readHeader]
  simp only [bind_eq_ok_iff, ensure_eq_ok, number_eq_ok, Bool.and_eq_true, decide_eq_true_eq,
    beq_iff_eq]
  constructor
  · rintro ⟨-, hmagic, v, hv, -, rfl, log2, hlog, -, hbounds, l, h₀, m, h₁, a, h₂, s, h₃, s', h₄,
      c, h₅, c', h₆, f, h₇, heq⟩
    cases heq
    exact ⟨hmagic, hv, hlog, hbounds, h₀, h₁, h₂, h₃, h₄, h₅, h₆, h₇⟩
  · rintro ⟨hmagic, hv, hlog, hbounds, h₀, h₁, h₂, h₃, h₄, h₅, h₆, h₇⟩
    exact ⟨(), hmagic, _, hv, (), rfl, _, hlog, (), hbounds, _, h₀, _, h₁, _, h₂, _, h₃, _, h₄, _, h₅,
      _, h₆, _, h₇, rfl⟩

/-! ## Tables -/

theorem readEntry_eq_ok_iff {e : Entry} : readEntry r start = .ok e ↔ ∃ kind a b c,
    r.number? 4 start = some kind ∧ r.number? 4 (start + 4) = some a ∧
      r.number? 4 (start + 8) = some b ∧ r.number? 4 (start + 12) = some c ∧
      entryOfNumbers? kind a b c = some e := by
  rw [readEntry]
  simp only [bind_eq_ok_iff, number_eq_ok, orCorrupt_eq_ok]
  constructor
  · rintro ⟨kind, hk, a, ha, b, hb, c, hc, he⟩
    exact ⟨kind, a, b, c, hk, ha, hb, hc, he⟩
  · rintro ⟨kind, a, b, c, hk, ha, hb, hc, he⟩
    exact ⟨kind, hk, a, ha, b, hb, c, hc, he⟩

theorem readEntries_eq_ok_iff {entries : Array Entry} : readEntries r h t = .ok entries ↔
    entries.size = h.limit ∧ ∀ block e, entries[block]? = some e →
      readEntry r (t.entries + block * Metadata.entryBytes) = .ok e ∧
        entryInRange h block e = true := by
  rw [readEntries]
  simp only [bind_eq_ok_iff, ensure_eq_ok, mapM_range_eq_ok_iff, List.all_eq_true, Prod.forall,
    List.mem_zipIdx_iff_getElem?]
  constructor
  · rintro ⟨l, ⟨hlen, hread⟩, -, hall, heq⟩
    cases heq
    refine ⟨hlen, fun block e he => ?_⟩
    rw [List.getElem?_toArray] at he
    exact ⟨hread block e he, hall e block he⟩
  · rintro ⟨hsize, hall⟩
    refine ⟨entries.toList, ⟨hsize, fun block e he => ?_⟩, (), fun e block he => ?_, rfl⟩
    all_goals
      rw [Array.getElem?_toList] at he
    · exact (hall block e he).1
    · exact (hall block e he).2

/-- A block that is not cut into fragments has no map. -/
theorem readMap_of_whole {e : Entry} {block : Nat} (he : ∀ log2 nfree, e ≠ .fragmented log2 nfree) :
    readMap r h t block e = .ok none := by
  cases e <;> first | rfl | exact absurd rfl (he _ _)

theorem readMap_fragmented_eq_ok_iff {block log2 nfree : Nat} {o : Option (Nat × BusyMap)} :
    readMap r h t block (.fragmented log2 nfree) = .ok o ↔ ∃ m : BusyMap, o = some (block, m) ∧
      (fragmentsIn? h.blockLog2 log2).bind BusyMap.wordsNeeded? = some m.size ∧
      ∀ (i : Nat) (word : UInt64), m[i]? = some word →
        r.number? 8 (t.busy + block * t.mapBytes + 8 * i) = some word.toNat := by
  rw [readMap]
  simp only [bind_eq_ok_iff, orTrap_eq_ok, mapM_range_eq_ok_iff, number_eq_ok]
  constructor
  · rintro ⟨count, hc, words, ⟨hlen, hwords⟩, heq⟩
    cases heq
    refine ⟨_, rfl, by simpa [hlen] using hc, fun i word hw => ?_⟩
    rw [List.getElem?_toArray, List.getElem?_map, Option.map_eq_some_iff] at hw
    obtain ⟨n, hn, rfl⟩ := hw
    have hlt : n < 1 <<< 64 := Region.number?_lt (hwords i n hn)
    rw [Nat.one_shiftLeft] at hlt
    rw [hwords i n hn, UInt64.toNat_ofNat', Nat.mod_eq_of_lt hlt]
  · rintro ⟨m, rfl, hc, hwords⟩
    refine ⟨m.size, hc, m.toList.map UInt64.toNat, ⟨by simp, fun i n hn => ?_⟩, ?_⟩
    · rw [List.getElem?_map, Option.map_eq_some_iff] at hn
      obtain ⟨word, hw, rfl⟩ := hn
      exact hwords i word (by rwa [Array.getElem?_toList] at hw)
    · rw [List.map_map, show UInt64.ofNat ∘ UInt64.toNat = id from
        funext fun word => UInt64.ofNat_toNat, List.map_id]
      rfl

/-- A map is kept under the block that it was read for. -/
theorem fst_of_readMap {block : Nat} {e : Entry} {p : Nat × BusyMap}
    (hp : readMap r h t block e = .ok (some p)) : p.1 = block := by
  cases e with
  | fragmented log2 nfree =>
    obtain ⟨m, hm, -⟩ := readMap_fragmented_eq_ok_iff.1 hp
    cases hm
    rfl
  | _ => cases hp

/-- Items that stand under their own index are found there. -/
theorem find?_ofList_filterMap {items : List (Option (Nat × α))}
    (hown : ∀ (i : Nat) (p : Nat × α), items[i]? = some (some p) → p.1 = i) (k : Nat) :
    (OrderedMap.ofList (items.filterMap id)).find? k = (items[k]?.join).map Prod.snd := by
  have hkeys : KeysIncrease (items.filterMap id) := by
    refine List.pairwise_filterMap.2 (List.pairwise_iff_getElem.2 ?_)
    intro i j hi hj hij p hp q hq
    have h₁ := hown i p (by rw [List.getElem?_eq_getElem hi]; exact congrArg some hp)
    have h₂ := hown j q (by rw [List.getElem?_eq_getElem hj]; exact congrArg some hq)
    omega
  refine Option.ext fun a => ?_
  rw [OrderedMap.find?_ofList hkeys, BlockTable.lookupPair_eq_some_iff hkeys, List.mem_filterMap,
    Option.map_eq_some_iff]
  constructor
  · rintro ⟨o, hmem, ho⟩
    obtain ⟨i, hi⟩ := List.getElem?_of_mem hmem
    rw [show o = some (k, a) from ho] at hi
    have : k = i := hown i _ hi
    subst this
    exact ⟨(k, a), by rw [hi]; rfl, rfl⟩
  · rintro ⟨p, hp, rfl⟩
    have hp : items[k]? = some (some p) := Option.join_eq_some_iff.1 hp
    have hk := hown k p hp
    exact ⟨some p, List.mem_of_getElem? hp, by subst hk; rfl⟩

theorem readBusy_eq_ok_iff {entries : Array Entry} {busy : BusyMaps} :
    readBusy r h t entries = .ok busy ↔
      (∀ block e, entries[block]? = some e →
        readMap r h t block e = .ok ((busy.find? block).map (block, ·))) ∧
      ∀ block, entries.size ≤ block → busy.find? block = none := by
  have entryAt {block i : Nat} {e : Entry} :
      entries.toList.zipIdx[block]? = some (e, i) ↔ i = block ∧ entries[block]? = some e := by
    rw [List.getElem?_zipIdx, Option.map_eq_some_iff]
    simp only [Prod.mk.injEq, Nat.zero_add, Array.getElem?_toList]
    constructor
    · rintro ⟨e', he, rfl, rfl⟩
      exact ⟨rfl, he⟩
    · rintro ⟨rfl, he⟩
      exact ⟨e, he, rfl, rfl⟩
  rw [readBusy]
  simp only [bind_eq_ok_iff, mapM_eq_ok_iff, List.length_zipIdx]
  constructor
  · rintro ⟨maps, ⟨hlen, hmaps⟩, heq⟩
    cases heq
    have hlen : maps.length = entries.size := hlen
    have hread (block : Nat) (e : Entry) (he : entries[block]? = some e) :
        ∃ o, maps[block]? = some o ∧ readMap r h t block e = .ok o := hmaps _ _ (entryAt.2 ⟨rfl, he⟩)
    have hown (i : Nat) (p : Nat × BusyMap) (hp : maps[i]? = some (some p)) : p.1 = i := by
      obtain ⟨hi, -⟩ := List.getElem?_eq_some_iff.1 hp
      obtain ⟨o, ho, hr⟩ := hread i _ (Array.getElem?_eq_getElem (by omega))
      rw [hp] at ho
      cases ho
      exact fst_of_readMap hr
    refine ⟨fun block e he => ?_, fun block hb => ?_⟩
    · obtain ⟨o, ho, hr⟩ := hread block e he
      rw [find?_ofList_filterMap hown, ho, hr]
      cases o with
      | none => rfl
      | some p =>
        have := hown block p ho
        subst this
        rfl
    · rw [find?_ofList_filterMap hown, List.getElem?_eq_none (by omega)]
      rfl
  · rintro ⟨hread, hbehind⟩
    refine ⟨(List.range entries.size).map fun block => (busy.find? block).map (block, ·),
      ⟨by simp, ?_⟩, ?_⟩
    · rintro i ⟨e, block⟩ hp
      obtain ⟨rfl, he⟩ := entryAt.1 hp
      obtain ⟨hi, -⟩ := Array.getElem?_eq_some_iff.1 he
      exact ⟨_, getElem?_map_range.2 ⟨hi, rfl⟩, hread block e he⟩
    · have hown (i : Nat) (p : Nat × BusyMap) (hp : ((List.range entries.size).map fun block =>
          (busy.find? block).map (block, ·))[i]? = some (some p)) : p.1 = i := by
        obtain ⟨-, hp⟩ := getElem?_map_range.1 hp
        obtain ⟨m, -, rfl⟩ := Option.map_eq_some_iff.1 hp
        rfl
      refine congrArg Except.ok (OrderedMap.ext_find? fun k => ?_)
      rw [find?_ofList_filterMap hown]
      by_cases hk : k < entries.size
      · rw [getElem?_map_range.2 ⟨hk, rfl⟩]
        cases busy.find? k <;> rfl
      · rw [List.getElem?_eq_none (by simpa using hk), hbehind k (Nat.le_of_not_lt hk)]
        rfl

theorem readHeads_eq_ok_iff {heads : Array (Option Nat)} : readHeads r h t = .ok heads ↔
    heads.size = h.blockLog2 ∧ ∀ log2 head, heads[log2]? = some head →
      ∃ raw, r.number? 8 (t.lists + 8 * log2) = some raw ∧ Link.decode raw = head := by
  rw [readHeads]
  simp only [bind_eq_ok_iff, mapM_range_eq_ok_iff, number_eq_ok]
  constructor
  · rintro ⟨raws, ⟨hlen, hraws⟩, heq⟩
    cases heq
    refine ⟨by simpa using hlen, fun log2 head hh => ?_⟩
    rw [List.getElem?_toArray, List.getElem?_map, Option.map_eq_some_iff] at hh
    obtain ⟨raw, hraw, rfl⟩ := hh
    exact ⟨raw, hraws log2 raw hraw, rfl⟩
  · rintro ⟨hsize, hheads⟩
    -- the numbers are those that stand there
    refine ⟨(List.range h.blockLog2).map fun log2 => (r.number? 8 (t.lists + 8 * log2)).getD 0,
      ⟨by simp, fun log2 n hn => ?_⟩, ?_⟩
    · obtain ⟨hlt, rfl⟩ := getElem?_map_range.1 hn
      obtain ⟨raw, hraw, -⟩ := hheads log2 _ (Array.getElem?_eq_getElem (by omega))
      rw [hraw]
      rfl
    · refine congrArg Except.ok (Array.ext (by simp [hsize]) fun i hi hi' => ?_)
      obtain ⟨raw, hraw, hdecode⟩ := hheads i _ (Array.getElem?_eq_getElem hi')
      simpa [hraw] using hdecode

theorem readSlot_eq_ok_iff {slot : Option NamedObject} : readSlot r start = .ok slot ↔
    (slot = none ∧ r.number? 2 start = some 0) ∨ ∃ name offset, slot = some ⟨name, offset⟩ ∧
      NameTable.acceptName name = .ok () ∧ r.number? 2 start = some name.toUTF8.size ∧
      r.read? (start + 2) name.toUTF8.size = some name.toUTF8 ∧
      r.number? 8 (start + 2 + NameTable.longestName) = some offset := by
  rw [readSlot]
  simp only [bind_eq_ok_iff, number_eq_ok]
  constructor
  · rintro ⟨length, hlen, hs⟩
    split at hs
    · rename_i h0
      cases hs
      exact .inl ⟨rfl, h0 ▸ hlen⟩
    · rename_i h0
      simp only [bind_eq_ok_iff, ensure_eq_ok, orTrap_eq_ok, orCorrupt_eq_ok, number_eq_ok,
        decide_eq_true_eq] at hs
      obtain ⟨-, hle, data, hd, name, hn, offset, ho, heq⟩ := hs
      cases heq
      have hname := toUTF8_of_fromUTF8? hn
      have hsize := Region.size_of_read? hd
      rw [← hname] at hd hsize
      rw [← hsize] at hlen hd hle h0
      exact .inr ⟨name, offset, rfl, NameTable.acceptName_eq_ok_iff.2 ⟨by omega, hle⟩, hlen, hd, ho⟩
  · rintro (⟨rfl, h0⟩ | ⟨name, offset, rfl, ha, hlen, hd, ho⟩)
    · exact ⟨0, h0, rfl⟩
    · obtain ⟨hpos, hle⟩ := NameTable.acceptName_eq_ok_iff.1 ha
      refine ⟨_, hlen, ?_⟩
      rw [if_neg (by omega)]
      simp only [bind_eq_ok_iff, ensure_eq_ok, orTrap_eq_ok, orCorrupt_eq_ok, number_eq_ok,
        decide_eq_true_eq]
      exact ⟨(), hle, _, hd, name, fromUTF8?_toUTF8 name, offset, ho, rfl⟩

theorem readNames_eq_ok_iff {names : NameTable} : readNames r h t = .ok names ↔
    names.slots.size = h.slotCount ∧
      (∀ i slot, names.slots[i]? = some slot →
        readSlot r (t.slots + i * Metadata.slotBytes) = .ok slot) ∧
      NameTable.ofSlots? h.slotCapacity names.slots = some names := by
  rw [readNames]
  simp only [bind_eq_ok_iff, mapM_range_eq_ok_iff, orCorrupt_eq_ok]
  constructor
  · rintro ⟨slots, ⟨hlen, hslots⟩, hn⟩
    obtain ⟨rfl, -⟩ := NameTable.ofSlots?_eq_some_iff.1 hn
    rw [NameTable.slots_numbered]
    refine ⟨hlen, fun i slot hi => hslots i slot ?_, hn⟩
    rwa [List.getElem?_toArray] at hi
  · rintro ⟨hsize, hslots, hn⟩
    refine ⟨names.slots.toList, ⟨hsize, fun i slot hi => hslots i slot ?_⟩, hn⟩
    rwa [Array.getElem?_toList] at hi

theorem readRecords_eq_ok_iff {aligned : AlignmentRecords} : readRecords r h t = .ok aligned ↔
    ∃ records : List (Nat × Nat), records.length = h.recordCount ∧
      (∀ (i : Nat) (p : Nat × Nat), records[i]? = some p →
        r.number? 8 (t.records + i * Metadata.recordBytes) = some p.1 ∧
          r.number? 8 (t.records + i * Metadata.recordBytes + 8) = some p.2) ∧
      aligned = .ofList h.recordCapacity records := by
  have record {i : Nat} {p : Nat × Nat} : (do
      let start := t.records + i * Metadata.recordBytes
      pure (← number r 8 start, ← number r 8 (start + 8)) : Except Failure (Nat × Nat)) = .ok p ↔
      r.number? 8 (t.records + i * Metadata.recordBytes) = some p.1 ∧
        r.number? 8 (t.records + i * Metadata.recordBytes + 8) = some p.2 := by
    simp only [bind_eq_ok_iff, number_eq_ok]
    constructor
    · rintro ⟨a, ha, b, hb, heq⟩
      cases heq
      exact ⟨ha, hb⟩
    · rintro ⟨ha, hb⟩
      exact ⟨_, ha, _, hb, rfl⟩
  rw [readRecords]
  simp only [bind_eq_ok_iff (α := List (Nat × Nat)), mapM_range_eq_ok_iff, record]
  constructor
  · rintro ⟨records, ⟨hlen, hrecords⟩, heq⟩
    cases heq
    exact ⟨records, hlen, hrecords, rfl⟩
  · rintro ⟨records, hlen, hrecords, rfl⟩
    exact ⟨records, ⟨hlen, hrecords⟩, rfl⟩

/-! ## Images -/

/-- What the readers answer on a region that starts with an image. -/
structure Describes (r : Region) (c : Contents) (t : TableOffsets) : Prop where
  header : readHeader r = .ok c.header
  offsets : TableOffsets.forBlocks? c.header.blockLog2 c.header.maxBlocks c.header.slotCapacity
    c.header.recordCapacity = some (some t)
  consistent : c.header.isConsistent t = true
  entries : readEntries r c.header t = .ok c.entries
  busy : readBusy r c.header t c.entries = .ok c.busy
  freeLists : readHeads r c.header t = .ok c.freeLists
  names : readNames r c.header t = .ok c.names
  aligned : readRecords r c.header t = .ok c.aligned

/-- A region starts with one image at most. -/
theorem Describes.unique {c c' : Contents} {t' : TableOffsets} (d : Describes r c t)
    (d' : Describes r c' t') : c = c' := by
  obtain ⟨header, entries, busy, freeLists, names, aligned⟩ := c
  obtain ⟨header', entries', busy', freeLists', names', aligned'⟩ := c'
  obtain ⟨h₁, h₂, -, h₃, h₄, h₅, h₆, h₇⟩ := d
  obtain ⟨h₁', h₂', -, h₃', h₄', h₅', h₆', h₇'⟩ := d'
  simp only at *
  rw [h₁] at h₁'
  cases h₁'
  rw [h₂] at h₂'
  cases h₂'
  rw [h₃] at h₃'
  cases h₃'
  rw [h₄] at h₄'
  cases h₄'
  rw [h₅] at h₅'
  cases h₅'
  rw [h₆] at h₆'
  cases h₆'
  rw [h₇] at h₇'
  cases h₇'
  rfl

theorem read_eq_ok_iff {c : Contents} : read r = .ok (c, bytes) ↔
    (∃ t, Describes r c t) ∧ c.header.regionBytes? = some bytes ∧ bytes ≤ r.size := by
  rw [read]
  simp only [bind_eq_ok_iff, ensure_eq_ok, orTrap_eq_ok, orCorrupt_eq_ok, decide_eq_true_eq]
  constructor
  · rintro ⟨header, h₁, tables, h₂, t, rfl, -, h₃, b, h₄, -, h₅, entries, h₆, busy, h₇, heads, h₈,
      names, h₉, aligned, h₁₀, heq⟩
    cases heq
    exact ⟨⟨t, h₁, h₂, h₃, h₆, h₇, h₈, h₉, h₁₀⟩, h₄, h₅⟩
  · rintro ⟨⟨t, h₁, h₂, h₃, h₆, h₇, h₈, h₉, h₁₀⟩, h₄, h₅⟩
    exact ⟨_, h₁, _, h₂, t, rfl, (), h₃, _, h₄, (), h₅, _, h₆, _, h₇, _, h₈, _, h₉, _, h₁₀, rfl⟩

/-- A region that has lost bytes that its image describes is too short. -/
theorem read_eq_shortRegion {c : Contents} {t : TableOffsets} (d : Describes r c t)
    (hbytes : c.header.regionBytes? = some bytes) (hlt : r.size < bytes) :
    read r = .error (.refused (.corrupt .shortRegion)) := by
  have hshort : (bytes ≤ r.size : Bool) = false := decide_eq_false (Nat.not_le_of_lt hlt)
  rw [read, d.header]
  show (orTrap _ >>= _ : Except Failure _) = _
  rw [d.offsets]
  show (ensure (c.header.isConsistent t) _ >>= _ : Except Failure _) = _
  rw [d.consistent]
  show (orCorrupt _ c.header.regionBytes? >>= _ : Except Failure _) = _
  rw [hbytes]
  show (ensure (bytes ≤ r.size : Bool) _ >>= _ : Except Failure _) = _
  rw [hshort]
  rfl

end Image

end RegionHeap
