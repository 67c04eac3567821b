import RegionHeap.Proofs.Image.Reading

/-!
Reading what was saved. Every number of a well-formed heap fits the place that saving writes it to, so
the readers answer just what the heap had: its entries with their links, its fragment lists and busy
maps, its names and its records (`WellFormed.describes`). Only which empty slot is used next is not
saved; the lowest is.
-/
namespace RegionHeap

namespace Region

variable {r : Region} {start : Nat}

theorem Holds.of_resized {data : ByteArray} {n : Nat} (h : r.Holds start (Bytes.resized data n))
    (hle : data.size ≤ n) : r.Holds start data := by
  obtain ⟨hs, hb⟩ := h
  rw [Bytes.size_resized] at hs hb
  refine ⟨by omega, fun i hi => ?_⟩
  rw [hb i (by omega), Bytes.byte_resized, if_pos (by omega)]

/-- Numbers that stand one behind another are read one by one. -/
theorem Holds.numbers {width : Nat} {numbers : List Nat}
    (h : r.Holds start (Image.concat (fun b n => Bytes.pushNumber b width n) numbers)) {i n : Nat}
    (hi : numbers[i]? = some n) (hn : n < 1 <<< (8 * width)) :
    r.number? width (start + i * width) = some n :=
  (h.item (Image.appends_pushNumber width) hi).number hn

end Region

namespace BlockTable

variable {t : BlockTable} {runs : List Run}

/-- Inner blocks lie behind the first of their run. -/
theorem Tiled.inner_bounds (h : t.Tiled runs) {block : Nat} {e : Entry} (hg : t.get? block = some e) :
    (∀ head, e = .freeTail head → head < block) ∧
      ∀ back, e = .runBody back → 0 < back ∧ back ≤ block := by
  obtain ⟨l, r, rest, i, rfl, hi, rfl, hf⟩ := h.spells.locate (Nat.zero_le block)
    (by have := h.size_eq; have := lt_size_of_get? hg; omega)
  rw [bare?_of_get? hg, Option.some.injEq] at hf
  constructor
  · rintro head rfl
    cases r with
    | free size =>
      rw [Run.entry] at hf
      split at hf
      · cases hf
      · split at hf
        · cases hf
          omega
        · cases hf
    | busy length =>
      rw [Run.entry] at hf
      split at hf <;> cases hf
    | cut log2 nfree => cases hf
  · rintro back rfl
    cases r with
    | free size =>
      rw [Run.entry] at hf
      split at hf
      · cases hf
      · split at hf <;> cases hf
    | busy length =>
      rw [Run.entry] at hf
      split at hf
      · cases hf
      · cases hf
        omega
    | cut log2 nfree => cases hf

/-- The links of free runs lead to blocks of the table. -/
theorem LaidOut.link_bounds (h : t.LaidOut runs) {block size : Nat} {next prev : Option Nat}
    (hg : t.get? block = some (.free size next prev)) :
    (∀ n ∈ next, n < t.size) ∧ ∀ p ∈ prev, p < t.size := by
  have hs : (t.freeSize? block).map Nat.log2 = some size.log2 := by
    rw [freeSize?, hg]
    rfl
  have hnext : t.next block = next := by
    rw [BlockTable.next, hg]
    rfl
  have hprev : t.prev block = prev := by
    rw [BlockTable.prev, hg]
    rfl
  have inside {y key : Nat} (hy : (t.freeSize? y).map Nat.log2 = some key) : y < t.size := by
    obtain ⟨s, hs, -⟩ := Option.map_eq_some_iff.1 hy
    exact lt_size_of_bare? (freeSize?_eq_some.1 hs)
  refine ⟨fun n hn => inside (h.listed.threads.home_next hs ?_),
    fun p hp => inside (h.listed.threads.home_prev hs ?_)⟩
  · rw [hnext]
    exact hn
  · rw [hprev]
    exact hp

end BlockTable

namespace Image

theorem decodeBlockLink_encode {link : Option Nat} (h : ∀ block ∈ link, block < nilBlock) :
    decodeBlockLink (encodeBlockLink link) = link := by
  cases link with
  | none => rfl
  | some block => exact if_neg (Nat.ne_of_lt (h block rfl))

/-- The links of an entry lead to blocks whose numbers can be saved. -/
def LinksFit : Entry → Prop
  | .free _ next prev => (∀ n ∈ next, n < nilBlock) ∧ ∀ p ∈ prev, p < nilBlock
  | _ => True

theorem encodeBlockLink_lt {link : Option Nat} (h : ∀ block ∈ link, block < nilBlock) :
    encodeBlockLink link < 1 <<< 32 := by
  cases link with
  | none => decide
  | some block => exact Nat.lt_trans (h block rfl) (by decide)

theorem entryOfNumbers?_entryNumbers {e : Entry} (h : LinksFit e) : ∃ kind a b c,
    entryNumbers e = [kind, a, b, c] ∧ entryOfNumbers? kind a b c = some e := by
  cases e with
  | free size next prev =>
    refine ⟨_, _, _, _, rfl, ?_⟩
    rw [entryOfNumbers?, decodeBlockLink_encode h.1, decodeBlockLink_encode h.2]
  | _ => exact ⟨_, _, _, _, rfl, rfl⟩

variable {r : Region} {start : Nat}

/-- An entry is read back if its numbers fit four bytes each. -/
theorem readEntry_of_holds {e : Entry} (hr : r.Holds start (pushEntry ByteArray.empty e))
    (hl : LinksFit e) (hn : ∀ n ∈ entryNumbers e, n < 1 <<< 32) : readEntry r start = .ok e := by
  obtain ⟨kind, a, b, c, hnum, he⟩ := entryOfNumbers?_entryNumbers hl
  have hr : r.Holds start (concat (fun b n => Bytes.pushNumber b 4 n) [kind, a, b, c]) := by
    rw [← hnum]
    exact hr
  rw [hnum] at hn
  simp only [List.mem_cons, List.not_mem_nil, or_false, forall_eq_or_imp, forall_eq] at hn
  obtain ⟨h₀, h₁, h₂, h₃⟩ := hn
  exact readEntry_eq_ok_iff.2 ⟨kind, a, b, c, hr.numbers (i := 0) rfl h₀,
    hr.numbers (i := 1) rfl h₁, hr.numbers (i := 2) rfl h₂, hr.numbers (i := 3) rfl h₃, he⟩

theorem readSlot_of_holds {slot : Option NamedObject}
    (hr : r.Holds start (pushSlot ByteArray.empty slot))
    (hs : ∀ o ∈ slot, NameTable.acceptName o.name = .ok () ∧ o.offset < Size.limit) :
    readSlot r start = .ok slot := by
  rw [readSlot_eq_ok_iff]
  cases slot with
  | none =>
    refine .inl ⟨rfl, Region.number?_of_bytes ?_ (by decide) fun i hi => ?_⟩
    · have := hr.1
      simp only [pushSlot, Bytes.size_pushZeros, Metadata.slotBytes] at this
      omega
    · rw [hr.2 i (by simp only [pushSlot, Bytes.size_pushZeros, Metadata.slotBytes]; omega), pushSlot,
        Bytes.byte_pushZeros, Bytes.byte_of_size_le (Nat.zero_le _)]
      have hi : i = 0 ∨ i = 1 := by omega
      rcases hi with rfl | rfl
      · rfl
      · rfl
  | some o =>
    obtain ⟨ha, ho⟩ := hs o rfl
    obtain ⟨hpos, hle⟩ := NameTable.acceptName_eq_ok_iff.1 ha
    refine .inr ⟨o.name, o.offset, rfl, ha, ?_⟩
    simp only [pushSlot, Bytes.pushNumber_eq_append _ 8, Bytes.pushNumber_eq_append _ 2,
      ByteArray.empty_append] at hr
    obtain ⟨hfront, hoffset⟩ := Region.holds_append.1 hr
    obtain ⟨hlength, hname⟩ := Region.holds_append.1 hfront
    rw [ByteArray.size_append, Bytes.size_ofNumber, Bytes.size_resized, ← Nat.add_assoc] at hoffset
    rw [Bytes.size_ofNumber] at hname
    have hshort : NameTable.longestName < 1 <<< (8 * 2) := by decide
    exact ⟨hlength.number (by omega), (hname.of_resized hle).read?, hoffset.number ho⟩

end Image

namespace Heap

open BlockTable Image

/-- What the image of a heap says: the heap as it is, with the lowest empty name slot to be used
next. -/
def contents (h : Heap) : Contents where
  header := h.header
  entries := h.table.entries
  busy := h.busy
  freeLists := h.freeLists
  names := .numbered h.names.capacity h.names.slots
  aligned := h.aligned

variable {h : Heap} {r : Region} {t : TableOffsets}

/-- The numbers in a table of so few blocks can be saved, and stay within it. -/
theorem WellFormed.entry_fits (w : h.WellFormed) (hmax : h.maxBlocks < Geometry.blockLimit)
    {block : Nat} {e : Entry} (hg : h.table.get? block = some e) :
    LinksFit e ∧ (∀ n ∈ entryNumbers e, n < 1 <<< 32) ∧ entryInRange h.header block e = true := by
  obtain ⟨runs, hl⟩ := w.laidOut
  have hblock : block < h.blockCount := lt_size_of_get? hg
  have hcount := w.count_le
  have hlimit : Geometry.blockLimit = nilBlock := rfl
  have hword : nilBlock < 1 <<< 32 := by decide
  have hsmall : 6 < nilBlock := by decide
  have hheader : h.header.limit = h.blockCount := rfl
  have hsize : h.table.size = h.blockCount := rfl
  obtain ⟨htail, hbody⟩ := hl.toTiled.inner_bounds hg
  cases e with
  | free size next prev =>
    obtain ⟨hpos, hfit, -⟩ := hl.toTiled.freeBlocks hg
    obtain ⟨hn, hp⟩ := hl.link_bounds hg
    have fit {link : Option Nat} (hlink : ∀ y ∈ link, y < h.table.size) : ∀ y ∈ link, y < nilBlock :=
      fun y hy => by have := hlink y hy; omega
    refine ⟨⟨fit hn, fit hp⟩, ?_, ?_⟩
    · simp only [entryNumbers, List.mem_cons, List.not_mem_nil, or_false, forall_eq_or_imp, forall_eq]
      exact ⟨by omega, by omega, encodeBlockLink_lt (fit hn), encodeBlockLink_lt (fit hp)⟩
    · simp only [entryInRange, Bool.and_eq_true, decide_eq_true_eq, hheader]
      omega
  | freeTail head =>
    have hlt := htail head rfl
    refine ⟨trivial, ?_, by simpa [entryInRange] using hlt⟩
    simp only [entryNumbers, List.mem_cons, List.not_mem_nil, or_false, forall_eq_or_imp, forall_eq]
    omega
  | freeBody =>
    refine ⟨trivial, ?_, rfl⟩
    simp only [entryNumbers, List.mem_cons, List.not_mem_nil, or_false, forall_eq_or_imp, forall_eq]
    omega
  | run length =>
    obtain ⟨hpos, hfit, -⟩ := hl.toTiled.bodies hg
    refine ⟨trivial, ?_, ?_⟩
    · simp only [entryNumbers, List.mem_cons, List.not_mem_nil, or_false, forall_eq_or_imp, forall_eq]
      omega
    · simp only [entryInRange, Bool.and_eq_true, decide_eq_true_eq, hheader]
      omega
  | runBody back =>
    have hb := hbody back rfl
    refine ⟨trivial, ?_, by simpa [entryInRange] using hb⟩
    simp only [entryNumbers, List.mem_cons, List.not_mem_nil, or_false, forall_eq_or_imp, forall_eq]
    omega
  | fragmented log2 nfree =>
    obtain ⟨hmin, hlt, hfree, -⟩ := w.cuts _ _ _ hg
    have hlog := w.max_block
    simp only [Geometry.maxBlockLog2] at hlog
    have hpow : h.fragmentsPerBlock log2 ≤ 1 <<< 24 := one_shiftLeft_le (by omega)
    refine ⟨trivial, ?_, ?_⟩
    · simp only [entryNumbers, List.mem_cons, List.not_mem_nil, or_false, forall_eq_or_imp, forall_eq]
      omega
    · simp only [entryInRange, Bool.and_eq_true, decide_eq_true_eq]
      exact ⟨⟨hmin, hlt⟩, hfree⟩

/-! ## Saved tables -/

theorem readHeader_of_holds (w : h.WellFormed) (hmax : h.maxBlocks < Geometry.blockLimit)
    (ht : h.tables? = some (some t)) (hr : r.Holds 0 h.header.encode) :
    readHeader r = .ok h.header := by
  have hlog := w.max_block
  have hfields : ∀ n ∈ h.header.fields, n < 1 <<< (8 * 8) := by
    have h₁ := w.count_le
    have h₂ := w.floor_le
    have h₃ := w.names.slots_le
    have h₄ := w.records.size_le
    have h₅ := w.arenaStart_le
    have h₆ := w.small
    -- the capacities are those of tables that end within the range of sizes
    obtain ⟨-, placed⟩ := TableOffsets.forBlocks?_eq_some ht
    have e₁ := placed.records
    have e₂ := placed.busy
    have e₃ := placed.stop
    obtain ⟨t', ht', hstop⟩ := w.tables
    rw [ht, Option.some.injEq, Option.some.injEq] at ht'
    subst ht'
    simp only [Header.fields, header, List.mem_cons, List.not_mem_nil, or_false, forall_eq_or_imp,
      forall_eq]
    simp only [Metadata.slotBytes, Metadata.recordBytes, Geometry.blockLimit, Size.limit] at *
    omega
  rw [Header.encode, foldl_eq_append (appends_pushNumber 8), Bytes.pushNumber_eq_append _ 4 h.header.blockLog2,
    Bytes.pushNumber_eq_append magic] at hr
  have hsize := hr.1
  rw [Bytes.size_resized, Nat.zero_add] at hsize
  have hr := hr.of_resized (by
    simp only [ByteArray.size_append, Bytes.size_ofNumber, size_concat (appends_pushNumber 8)]
    show 8 + 4 + 4 + 8 * 8 ≤ Metadata.headerBytes
    decide)
  obtain ⟨hfront, hnumbers⟩ := Region.holds_append.1 hr
  obtain ⟨hfront, hlog2⟩ := Region.holds_append.1 hfront
  obtain ⟨hmagic, hversion⟩ := Region.holds_append.1 hfront
  have hmagicSize : magic.size = 8 := rfl
  simp only [ByteArray.size_append, Bytes.size_ofNumber, hmagicSize, Nat.zero_add] at hnumbers hlog2 hversion
  refine readHeader_eq_ok_iff.2 ⟨⟨hsize, ?_⟩, hversion.number (by decide),
    hlog2.number ?_, ⟨w.min_block, hlog⟩, fun i n hi => ?_⟩
  · rw [startsWithMagic, hmagic.read?, Option.any_some]
    decide
  · show h.blockLog2 < _
    simp only [Geometry.maxBlockLog2] at hlog
    omega
  · have := hnumbers.numbers hi (hfields n (List.mem_of_getElem? hi))
    rwa [Nat.mul_comm] at this

theorem readMap_of_holds (w : h.WellFormed) (ht : h.tables? = some (some t)) {block : Nat} {e : Entry}
    (hg : h.table.get? block = some e)
    (hr : r.Holds (t.busy + block * t.mapBytes) (pushMap t.mapBytes ByteArray.empty (h.busy.find? block))) :
    readMap r h.header t block e = .ok ((h.busy.find? block).map (block, ·)) := by
  by_cases hcut : ∃ log2 nfree, e = .fragmented log2 nfree
  · obtain ⟨log2, nfree, rfl⟩ := hcut
    have hok := w.cuts _ _ _ hg
    obtain ⟨m, hm, hsize, -⟩ := hok.map
    have hlog := w.max_block
    have hwords := w.words_fit ht hm
    rw [hm, readMap_fragmented_eq_ok_iff]
    refine ⟨m, rfl, ?_, fun i word hi => ?_⟩
    · rw [hsize, show fragmentsIn? h.header.blockLog2 log2 = some (h.fragmentsPerBlock log2) from
        w.fragmentsIn?_eq hok.lt_block]
      refine BusyMap.wordsNeeded?_one_shiftLeft ?_
      simp only [Geometry.maxBlockLog2] at hlog
      omega
    · have words : concat (fun b (word : UInt64) => Bytes.pushNumber b 8 word.toNat) m.toList =
          concat (fun b n => Bytes.pushNumber b 8 n) (m.toList.map UInt64.toNat) := by
        rw [concat, concat, List.foldl_map]
      rw [hm, pushMap, ByteArray.empty_append, Option.getD_some, words] at hr
      have hr := hr.of_resized (by
        rw [size_concat (appends_pushNumber 8), List.length_map]
        exact hwords)
      have := hr.numbers (i := i) (n := word.toNat)
        (by rw [List.getElem?_map, Array.getElem?_toList, hi]; rfl) word.toNat_lt
      rwa [Nat.mul_comm i 8] at this
  · rw [readMap_of_whole fun log2 nfree he => hcut ⟨log2, nfree, he⟩]
    cases hm : h.busy.find? block with
    | none => rfl
    | some m =>
      obtain ⟨log2, hc⟩ := w.maps block m hm
      obtain ⟨nfree, hg'⟩ := cutLog2?_eq_some.1 hc
      rw [hg, Option.some.injEq] at hg'
      exact absurd ⟨log2, nfree, hg'⟩ hcut

theorem readEntries_of_holds (w : h.WellFormed) (hmax : h.maxBlocks < Geometry.blockLimit)
    (hr : r.Holds t.entries (concat pushEntry h.table.entries.toList)) :
    readEntries r h.header t = .ok h.table.entries := by
  refine readEntries_eq_ok_iff.2 ⟨rfl, fun block e he => ?_⟩
  obtain ⟨hl, hn, hrange⟩ := w.entry_fits hmax (show h.table.get? block = some e from he)
  exact ⟨readEntry_of_holds (hr.item appends_pushEntry (by
    rw [Array.getElem?_toList]
    exact he)) hl hn, hrange⟩

theorem readBusy_of_holds (w : h.WellFormed) (ht : h.tables? = some (some t))
    (hr : r.Holds t.busy (concat (pushMap t.mapBytes)
      ((List.range h.blockCount).map h.busy.find?))) :
    readBusy r h.header t h.table.entries = .ok h.busy := by
  refine readBusy_eq_ok_iff.2 ⟨fun block e he => ?_, fun block hb => ?_⟩
  · have hg : h.table.get? block = some e := he
    exact readMap_of_holds w ht hg
      (hr.item (appends_pushMap t.mapBytes) (getElem?_map_range.2 ⟨lt_size_of_get? hg, rfl⟩))
  · refine Option.eq_none_iff_forall_not_mem.2 fun m hm => ?_
    obtain ⟨log2, hc⟩ := w.maps block m hm
    have := (w.cut_bounds hc).2.2
    exact absurd this (Nat.not_lt.2 hb)

/-- The head of a list is a number that can be saved. -/
theorem WellFormed.head_lt (w : h.WellFormed) {log2 x : Nat} (hx : h.freeLists[log2]? = some (some x)) :
    x < Link.nil := by
  have hhome : h.freeFragment x = some log2 := w.lists.threads.home_of_head (by
    rw [listHead, hx]
    rfl)
  have := (w.lists.place x log2 hhome).2.2
  have := w.small
  simp only [Link.nil, Size.limit] at *
  omega

theorem readHeads_of_holds (w : h.WellFormed)
    (hr : r.Holds t.lists (concat pushLink
      ((List.range Metadata.listHeads).map fun log2 => h.freeLists[log2]?.join))) :
    readHeads r h.header t = .ok h.freeLists := by
  refine readHeads_eq_ok_iff.2 ⟨w.heads, fun log2 head hh => ?_⟩
  have hlt : log2 < Metadata.listHeads := by
    obtain ⟨hlt, -⟩ := Array.getElem?_eq_some_iff.1 hh
    have h₁ := w.heads
    have h₂ := w.max_block
    simp only [Geometry.maxBlockLog2, Metadata.listHeads] at *
    omega
  have hhead : ∀ offset ∈ head, offset < Link.nil := fun x hx => w.head_lt (by
    rw [hh]
    exact congrArg some hx)
  have hitem := hr.item appends_pushLink (getElem?_map_range.2 ⟨hlt, rfl⟩)
  rw [hh, Option.join_some, Nat.mul_comm log2] at hitem
  refine ⟨Link.encode head, hitem.number ?_, Link.decode_encode hhead⟩
  cases head with
  | none => decide
  | some x => exact Nat.lt_trans (hhead x rfl) (by decide)

/-- Names are read back into the same slots. -/
theorem readNames_of_holds (w : h.WellFormed)
    (hr : r.Holds t.slots (concat pushSlot h.names.slots.toList)) :
    readNames r h.header t = .ok (.numbered h.names.capacity h.names.slots) := by
  have hnodup : (NameTable.numbered h.names.capacity h.names.slots).names.Nodup := by
    rw [NameTable.names, NameTable.slots_numbered]
    exact w.names.nodup
  have made := NameTable.ofSlots?_eq_some_iff.2 ⟨rfl, hnodup⟩
  refine readNames_eq_ok_iff.2 ?_
  rw [NameTable.slots_numbered]
  refine ⟨rfl, fun i slot hi => ?_, made⟩
  refine readSlot_of_holds (hr.item appends_pushSlot (by
    rw [Array.getElem?_toList]
    exact hi)) fun o ho => w.names.accepted i o ?_
  rw [show slot = some o from ho] at hi
  exact hi

theorem readRecords_of_holds (w : h.WellFormed)
    (hr : r.Holds t.records (concat pushRecord h.aligned.toList)) :
    readRecords r h.header t = .ok h.aligned := by
  refine readRecords_eq_ok_iff.2 ⟨h.aligned.toList, rfl, fun i p hi => ?_, ?_⟩
  · obtain ⟨h₁, h₂⟩ := w.records.offsets p (List.mem_of_getElem? hi)
    have hitem := hr.item appends_pushRecord hi
    rw [pushRecord, Bytes.pushNumber_eq_append _ 8 p.2, Region.holds_append,
      Bytes.pushNumber_eq_append, ByteArray.empty_append, Bytes.size_ofNumber] at hitem
    exact ⟨hitem.1.number h₁, hitem.2.number h₂⟩
  · show h.aligned = .ofList h.aligned.capacity h.aligned.toList
    have : h.aligned.starts = .ofList h.aligned.starts.pairs := OrderedMap.ext_find? fun k =>
      (OrderedMap.find?_ofList h.aligned.starts.increasing k).symm
    rw [AlignmentRecords.ofList, AlignmentRecords.toList, OrderedMap.toList, ← this]

/-- A region that holds the tables of a heap is read as the heap. -/
theorem WellFormed.describes (w : h.WellFormed) (hmax : h.maxBlocks < Geometry.blockLimit)
    (s : h.SavedIn r) : ∃ t, Describes r h.contents t := by
  obtain ⟨t, ht, hheld⟩ := s
  simp only [savedTables, List.mem_cons, List.not_mem_nil, or_false, forall_eq_or_imp, forall_eq] at hheld
  obtain ⟨hheader, hentries, hlists, hslots, hrecords, hbusy⟩ := hheld
  obtain ⟨t', ht', hstop⟩ := w.tables
  rw [ht, Option.some.injEq, Option.some.injEq] at ht'
  subst ht'
  have consistent : h.header.isConsistent t = true := by
    simp only [Header.isConsistent, Bool.and_eq_true, decide_eq_true_eq]
    exact ⟨⟨⟨hstop, w.count_le⟩, w.names.slots_le⟩, w.records.size_le⟩
  exact ⟨t, readHeader_of_holds w hmax ht hheader, ht, consistent,
    readEntries_of_holds w hmax hentries, readBusy_of_holds w ht hbusy, readHeads_of_holds w hlists,
    readNames_of_holds w hslots, readRecords_of_holds w hrecords⟩

end Heap

end RegionHeap
