import RegionHeap.Proofs.Heap.Loading

/-!
An image in two regions. The tables of an image lie in front of its arena, so two regions with the same
bytes there hold the same image (`Describes.congr`). Each table is read alike from both regions if they
have the same bytes up to its end (`SameStart`).
-/
namespace RegionHeap.Image

variable {r r' : Region} {h : Header} {t : TableOffsets} {start stop width : Nat}

/-! ## Numbers and bytes -/

/-- Two regions that have the same bytes in front of an offset. -/
structure SameStart (r r' : Region) (stop : Nat) : Prop where
  fits : stop ≤ r.size
  fits' : stop ≤ r'.size
  byte_eq : ∀ i, i < stop → r'.byte i = r.byte i

/-- Bytes that two regions share are read alike in both. -/
theorem SameStart.read?_eq {count : Nat} (s : SameStart r r' stop) (hin : start + count ≤ stop) :
    r'.read? start count = r.read? start count := by
  have hfits := s.fits
  have hfits' := s.fits'
  obtain ⟨data, hd, hsize, hbytes⟩ := Region.read?_eq (r := r) start count (by omega)
  obtain ⟨data', hd', hsize', hbytes'⟩ := Region.read?_eq (r := r') start count (by omega)
  rw [hd, hd', Option.some.injEq]
  apply Bytes.ext_byte (hsize'.trans hsize.symm)
  intro i
  by_cases hi : i < count
  · rw [hbytes i hi, hbytes' i hi, s.byte_eq _ (by omega)]
  · rw [Bytes.byte_of_size_le (by omega), Bytes.byte_of_size_le (by omega)]

theorem SameStart.number {n : Nat} (s : SameStart r r' stop) (hn : r.number? width start = some n)
    (hin : start + width ≤ stop) : r'.number? width start = some n := by
  have hfits := s.fits
  have hfits' := s.fits'
  rw [← hn]
  exact Region.number?_congr (by omega) (by omega) fun i _ hi => s.byte_eq i (by omega)

/-- The rows of a table end where the table ends. -/
theorem row_le {i n : Nat} (hi : i < n) (hin : start + n * width ≤ stop) :
    start + i * width + width ≤ stop := by
  have hrow : i * width + width ≤ n * width := by
    calc i * width + width = (i + 1) * width := (Nat.succ_mul i width).symm
      _ ≤ n * width := Nat.mul_le_mul_right width hi
  omega

/-- More bits need no fewer words. -/
theorem wordsNeeded?_le {a b x y : Nat} (hle : a ≤ b) (ha : BusyMap.wordsNeeded? a = some x)
    (hb : BusyMap.wordsNeeded? b = some y) : x ≤ y := by
  simp only [BusyMap.wordsNeeded?, Option.map_eq_some_iff, Size.add?_eq_some_iff] at ha hb
  obtain ⟨_, ⟨-, rfl⟩, rfl⟩ := ha
  obtain ⟨_, ⟨-, rfl⟩, rfl⟩ := hb
  exact Nat.div_le_div_right (by omega)

/-! ## One table after another -/

section

variable (s : SameStart r r' stop)
include s

theorem readHeader_congr (hin : Metadata.headerBytes ≤ stop) (hread : readHeader r = .ok h) :
    readHeader r' = .ok h := by
  obtain ⟨⟨-, hmagic⟩, hversion, hlog2, hbounds, hfields⟩ := readHeader_eq_ok_iff.1 hread
  have hsize : magic.size = 8 := rfl
  have hfits' := s.fits'
  simp only [Metadata.headerBytes] at hin
  refine readHeader_eq_ok_iff.2 ⟨⟨?_, ?_⟩, s.number hversion (by omega), s.number hlog2 (by omega),
    hbounds, ?_⟩
  · simp only [Metadata.headerBytes]
    omega
  · rw [startsWithMagic, s.read?_eq (by rw [hsize]; omega)]
    exact hmagic
  · intro i n hi
    have hlt : i < 8 := (List.getElem?_eq_some_iff.1 hi).1
    exact s.number (hfields i n hi) (by simp only [fieldsStart]; omega)

theorem readEntry_congr {e : Entry} (hin : start + Metadata.entryBytes ≤ stop)
    (hread : readEntry r start = .ok e) : readEntry r' start = .ok e := by
  obtain ⟨kind, x, y, z, hk, hx, hy, hz, heq⟩ := readEntry_eq_ok_iff.1 hread
  simp only [Metadata.entryBytes] at hin
  exact readEntry_eq_ok_iff.2 ⟨kind, x, y, z, s.number hk (by omega), s.number hx (by omega),
    s.number hy (by omega), s.number hz (by omega), heq⟩

theorem readEntries_congr {entries : Array Entry}
    (hin : t.entries + h.limit * Metadata.entryBytes ≤ stop)
    (hread : readEntries r h t = .ok entries) : readEntries r' h t = .ok entries := by
  obtain ⟨hsize, hentries⟩ := readEntries_eq_ok_iff.1 hread
  refine readEntries_eq_ok_iff.2 ⟨hsize, ?_⟩
  intro block e he
  obtain ⟨hlt, -⟩ := Array.getElem?_eq_some_iff.1 he
  obtain ⟨hread, hrange⟩ := hentries block e he
  exact ⟨readEntry_congr s (row_le (hsize ▸ hlt) hin) hread, hrange⟩

/-- No map is longer than one of the smallest fragments, for which there is room in its row. -/
theorem readMap_congr {block : Nat} {e : Entry} {o : Option (Nat × BusyMap)}
    (hmap : Metadata.mapBytes? h.blockLog2 = some t.mapBytes) (hrange : entryInRange h block e = true)
    (hin : t.busy + block * t.mapBytes + t.mapBytes ≤ stop) (hread : readMap r h t block e = .ok o) :
    readMap r' h t block e = .ok o := by
  cases e with
  | fragmented log2 nfree =>
    obtain ⟨m, hm, hwords, hnumbers⟩ := readMap_fragmented_eq_ok_iff.1 hread
    simp only [entryInRange, Bool.and_eq_true, decide_eq_true_eq] at hrange
    rw [Metadata.mapBytes?, Option.ite_none_left_eq_some, Option.map_eq_some_iff] at hmap
    obtain ⟨-, words, hneeded, heq⟩ := hmap
    have hpow : 1 <<< (h.blockLog2 - log2) ≤ 1 <<< (h.blockLog2 - minFragmentLog2) :=
      Heap.one_shiftLeft_le (by omega)
    obtain ⟨count, hcount, hcounted⟩ := Option.bind_eq_some_iff.1 hwords
    obtain rfl := fragmentsIn?_eq_some hcount
    have hfit := wordsNeeded?_le hpow hcounted hneeded
    refine readMap_fragmented_eq_ok_iff.2 ⟨m, hm, hwords, ?_⟩
    intro i word hi
    obtain ⟨hi', -⟩ := Array.getElem?_eq_some_iff.1 hi
    exact s.number (hnumbers i word hi) (by omega)
  | _ => exact hread

theorem readBusy_congr {entries : Array Entry} {busy : BusyMaps}
    (hmap : Metadata.mapBytes? h.blockLog2 = some t.mapBytes)
    (hrange : ∀ block e, entries[block]? = some e → entryInRange h block e = true)
    (hin : t.busy + entries.size * t.mapBytes ≤ stop) (hread : readBusy r h t entries = .ok busy) :
    readBusy r' h t entries = .ok busy := by
  obtain ⟨hmaps, hnomaps⟩ := readBusy_eq_ok_iff.1 hread
  refine readBusy_eq_ok_iff.2 ⟨?_, hnomaps⟩
  intro block e he
  obtain ⟨hlt, -⟩ := Array.getElem?_eq_some_iff.1 he
  exact readMap_congr s hmap (hrange block e he) (row_le hlt hin) (hmaps block e he)

theorem readHeads_congr {heads : Array (Option Nat)} (hin : t.lists + 8 * h.blockLog2 ≤ stop)
    (hread : readHeads r h t = .ok heads) : readHeads r' h t = .ok heads := by
  obtain ⟨hsize, hheads⟩ := readHeads_eq_ok_iff.1 hread
  refine readHeads_eq_ok_iff.2 ⟨hsize, ?_⟩
  intro log2 head hh
  obtain ⟨hlt, -⟩ := Array.getElem?_eq_some_iff.1 hh
  obtain ⟨raw, hraw, hdecode⟩ := hheads log2 head hh
  exact ⟨raw, s.number hraw (by omega), hdecode⟩

theorem readSlot_congr {slot : Option NamedObject} (hin : start + Metadata.slotBytes ≤ stop)
    (hread : readSlot r start = .ok slot) : readSlot r' start = .ok slot := by
  simp only [Metadata.slotBytes] at hin
  refine readSlot_eq_ok_iff.2 ?_
  cases readSlot_eq_ok_iff.1 hread with
  | inl hempty => exact .inl ⟨hempty.1, s.number hempty.2 (by omega)⟩
  | inr hnamed =>
    obtain ⟨name, offset, heq, ha, hlen, hd, ho⟩ := hnamed
    obtain ⟨-, hname⟩ := NameTable.acceptName_eq_ok_iff.1 ha
    simp only [NameTable.longestName] at *
    exact .inr ⟨name, offset, heq, ha, s.number hlen (by omega), (s.read?_eq (by omega)).trans hd,
      s.number ho (by omega)⟩

theorem readNames_congr {names : NameTable} (hin : t.slots + h.slotCount * Metadata.slotBytes ≤ stop)
    (hread : readNames r h t = .ok names) : readNames r' h t = .ok names := by
  obtain ⟨hcount, hnames, hnodup⟩ := readNames_eq_ok_iff.1 hread
  refine readNames_eq_ok_iff.2 ⟨hcount, ?_, hnodup⟩
  intro i slot hi
  obtain ⟨hlt, -⟩ := Array.getElem?_eq_some_iff.1 hi
  exact readSlot_congr s (row_le (hcount ▸ hlt) hin) (hnames i slot hi)

theorem readRecords_congr {aligned : AlignmentRecords}
    (hin : t.records + h.recordCount * Metadata.recordBytes ≤ stop)
    (hread : readRecords r h t = .ok aligned) : readRecords r' h t = .ok aligned := by
  obtain ⟨records, hlength, hpairs, haligned⟩ := readRecords_eq_ok_iff.1 hread
  refine readRecords_eq_ok_iff.2 ⟨records, hlength, ?_, haligned⟩
  intro i p hi
  obtain ⟨hlt, -⟩ := List.getElem?_eq_some_iff.1 hi
  have hrow := row_le (hlength ▸ hlt) hin
  obtain ⟨h₁, h₂⟩ := hpairs i p hi
  simp only [Metadata.recordBytes] at *
  exact ⟨s.number h₁ (by omega), s.number h₂ (by omega)⟩

end

/-! ## The image -/

/-- The tables of an image lie in front of its arena, so it can be read from any region with the same
bytes there. -/
theorem Describes.congr {c : Contents} (d : Describes r c t) (hr : c.header.arenaStart ≤ r.size)
    (hr' : c.header.arenaStart ≤ r'.size)
    (hb : ∀ i, i < c.header.arenaStart → r'.byte i = r.byte i) : Describes r' c t := by
  obtain ⟨hmap, placed⟩ := TableOffsets.forBlocks?_eq_some d.offsets
  obtain ⟨hstop, hlimit, hslots, hrecords⟩ := Heap.isConsistent_iff.1 d.consistent
  obtain ⟨-, -, -, ⟨-, hlog2⟩, -⟩ := readHeader_eq_ok_iff.1 d.header
  obtain ⟨hsize, hentries⟩ := readEntries_eq_ok_iff.1 d.entries
  have s : SameStart r r' t.stop :=
    ⟨Nat.le_trans hstop hr, Nat.le_trans hstop hr', fun i hi => hb i (Nat.lt_of_lt_of_le hi hstop)⟩
  -- no table has more rows than there is room for
  have rows (width : Nat) {n m : Nat} (hle : n ≤ m) : n * width ≤ m * width := Nat.mul_le_mul_right width hle
  have h₁ := rows Metadata.entryBytes hlimit
  have h₂ := rows Metadata.slotBytes hslots
  have h₃ := rows Metadata.recordBytes hrecords
  have h₄ := rows t.mapBytes hlimit
  have e₁ := placed.entries
  have e₂ := placed.lists
  have e₃ := placed.slots
  have e₄ := placed.records
  have e₅ := placed.busy
  have e₆ := placed.stop
  simp only [Metadata.listHeads, Geometry.maxBlockLog2] at e₃ hlog2
  exact {
    header := readHeader_congr s (by omega) d.header
    offsets := d.offsets
    consistent := d.consistent
    entries := readEntries_congr s (by omega) d.entries
    busy := readBusy_congr s hmap (fun block e he => (hentries block e he).2) (by rw [hsize]; omega)
      d.busy
    freeLists := readHeads_congr s (by omega) d.freeLists
    names := readNames_congr s (by omega) d.names
    aligned := readRecords_congr s (by omega) d.aligned }

end RegionHeap.Image
