import RegionHeap.Proofs.Heap.Creation

/-!
Sizes that follow from a geometry. They are compared with exact sums and products of natural numbers:
where the arena starts and how many bytes its region has to hold is right whenever it is answered,
and refused where it is no size. Rounding up to the boundary of the arena is the one step that traps
instead, for tables that end less than one boundary below the largest size.
-/
namespace RegionHeap

/-! ## Rounding -/

/-- Rounding fails in the last step below the bound, where no multiple of the step is left. -/
theorem Size.roundUp?_eq_none_iff {value step : Nat} (hs : 0 < step) (hd : step ∣ limit) :
    roundUp? value step = none ↔ limit < value + step := by
  obtain ⟨k, hk⟩ := hd
  have hlimit : 0 < limit := by decide
  rw [roundUp?]
  by_cases hzero : value = 0
  · rw [if_pos hzero, hzero, Nat.zero_add]
    have hle : step ≤ limit := Nat.le_of_dvd hlimit ⟨k, hk⟩
    constructor
    · intro h
      cases h
    · intro h
      omega
  · rw [if_neg hzero, mul?, ite_eq_right_iff]
    have hlow : step * ((value - 1) / step) ≤ value - 1 := Nat.mul_div_le _ _
    have hhigh : value - 1 < step * ((value - 1) / step + 1) := Nat.lt_mul_div_succ _ hs
    rw [Nat.mul_succ] at hhigh ⊢
    constructor
    · intro h
      have hle : limit ≤ step * ((value - 1) / step) + step := Nat.le_of_not_lt fun hlt => by
        cases h hlt
      omega
    · intro h hlt
      -- the rounded value is a multiple below the bound, so it is a whole step below
      have hquot : (value - 1) / step + 1 < k := by
        rw [hk, ← Nat.mul_succ] at hlt
        exact Nat.lt_of_mul_lt_mul_left hlt
      have hle : step * ((value - 1) / step + 2) ≤ step * k := Nat.mul_le_mul_left _ hquot
      rw [← hk, Nat.mul_add] at hle
      omega

/-- The rounded value is the one multiple within a step above the value. -/
theorem Size.roundUp?_eq_some_iff {value step r : Nat} (hs : 0 < step) (hd : step ∣ limit) :
    roundUp? value step = some r ↔ r < limit ∧ step ∣ r ∧ value ≤ r ∧ r < value + step := by
  constructor
  · intro h
    refine ⟨?_, roundUp?_bounds hs h⟩
    rw [roundUp?] at h
    split at h
    · cases h
      decide
    · obtain ⟨hlt, rfl⟩ := mul?_eq_some_iff.1 h
      exact hlt
  · intro h
    obtain ⟨hlt, hdvd, hle, hless⟩ := h
    cases hr : roundUp? value step with
    | none =>
      have hover := (roundUp?_eq_none_iff hs hd).1 hr
      -- a multiple below the bound is a whole step below it
      have hgap : step ∣ limit - r := Nat.dvd_sub hd hdvd
      have hstep := Nat.le_of_dvd (by omega) hgap
      omega
    | some r' =>
      obtain ⟨hdvd', hle', hless'⟩ := roundUp?_bounds hs hr
      rcases Nat.lt_trichotomy r r' with hrr | hrr | hrr
      · have hstep := Nat.le_of_dvd (by omega) (Nat.dvd_sub hdvd' hdvd)
        omega
      · rw [hrr]
      · have hstep := Nat.le_of_dvd (by omega) (Nat.dvd_sub hdvd hdvd')
        omega

/-! ## The tables of a geometry -/

namespace Geometry

open Heap

variable {host : Host} {g : Geometry}

/-- Bytes of the header and of all tables, as a natural number of any size. -/
def tableBytes (g : Geometry) : Nat :=
  Metadata.headerBytes + g.maxBlocks * Metadata.entryBytes + Metadata.listHeads * 8 +
    g.maxNames * Metadata.slotBytes + g.maxAligned * Metadata.recordBytes +
    g.maxBlocks * (8 * BusyMap.wordsFor (1 <<< (g.blockLog2 - minFragmentLog2)))

/-- The arena starts on a multiple of this, the larger of a page and a block. -/
def boundary (g : Geometry) (host : Host) : Nat := max host.page (1 <<< g.blockLog2)

theorem boundary_eq (g : Geometry) {k : Nat} (hk : host.page = 1 <<< k) :
    g.boundary host = 1 <<< max k g.blockLog2 := by
  rw [boundary, hk]
  rcases Nat.le_total k g.blockLog2 with h | h
  · rw [Nat.max_eq_right h, Nat.max_eq_right (one_shiftLeft_le h)]
  · rw [Nat.max_eq_left h, Nat.max_eq_left (one_shiftLeft_le h)]

theorem boundary_pos (g : Geometry) (host : Host) : 0 < g.boundary host :=
  Nat.lt_of_lt_of_le host.page_pos (Nat.le_max_left _ _)

theorem boundary_dvd_limit (hc : g.check = .ok ()) : g.boundary host ∣ Size.limit := by
  obtain ⟨-, hmax, -⟩ := geometry_check hc
  rw [maxBlockLog2] at hmax
  obtain ⟨k, hk, hlt⟩ := host.exists_log2
  rw [boundary_eq g hk]
  exact one_shiftLeft_dvd (by omega)

/-- The boundary is one of the page and of the block, one of which is a multiple of the other. -/
theorem boundary_dvd_iff (g : Geometry) (n : Nat) :
    g.boundary host ∣ n ↔ host.page ∣ n ∧ 1 <<< g.blockLog2 ∣ n := by
  obtain ⟨k, hk, -⟩ := host.exists_log2
  rw [boundary_eq g hk, hk]
  constructor
  · intro h
    exact ⟨Nat.dvd_trans (one_shiftLeft_dvd (Nat.le_max_left _ _)) h,
      Nat.dvd_trans (one_shiftLeft_dvd (Nat.le_max_right _ _)) h⟩
  · intro ⟨hpage, hblock⟩
    rcases Nat.le_total k g.blockLog2 with h | h
    · rwa [Nat.max_eq_right h]
    · rwa [Nat.max_eq_left h]

/-- Tables whose exact length is a size are placed. -/
theorem exists_place? {mapBytes blocks names aligned : Nat}
    (hlt : Metadata.headerBytes + blocks * Metadata.entryBytes + Metadata.listHeads * 8 +
      names * Metadata.slotBytes + aligned * Metadata.recordBytes + blocks * mapBytes < Size.limit) :
    ∃ t, TableOffsets.place? mapBytes blocks names aligned = some t := by
  have hmul {a b : Nat} (h : a * b < Size.limit) : Size.mul? a b = some (a * b) :=
    Size.mul?_eq_some_iff.2 ⟨h, rfl⟩
  have hadd {a b : Nat} (h : a + b < Size.limit) : Size.add? a b = some (a + b) :=
    Size.add?_eq_some_iff.2 ⟨h, rfl⟩
  rw [TableOffsets.place?, hmul (show blocks * Metadata.entryBytes < _ by omega),
    hmul (show names * Metadata.slotBytes < _ by omega),
    hmul (show aligned * Metadata.recordBytes < _ by omega),
    hmul (show blocks * mapBytes < _ by omega)]
  simp only [Option.bind_eq_bind, Option.bind_some]
  rw [hadd (by omega), Option.bind_some, hadd (by omega), Option.bind_some, hadd (by omega),
    Option.bind_some, hadd (by omega), Option.bind_some, hadd (by omega), Option.bind_some]
  exact ⟨_, rfl⟩

theorem stop_lt_of_place? {mapBytes blocks names aligned : Nat} {t : TableOffsets}
    (h : TableOffsets.place? mapBytes blocks names aligned = some t) : t.stop < Size.limit := by
  simp only [TableOffsets.place?, Option.bind_eq_bind, Option.bind_eq_some_iff,
    Size.add?_eq_some_iff, Option.some.injEq] at h
  obtain ⟨_, -, _, -, _, -, _, -, _, -, _, -, _, -, _, -, stop, ⟨hlt, rfl⟩, rfl⟩ := h
  exact hlt

/-- The tables of a geometry are placed just if their exact length is a size. -/
theorem forBlocks?_cases (hc : g.check = .ok ()) :
    (∃ t, TableOffsets.forBlocks? g.blockLog2 g.maxBlocks g.maxNames g.maxAligned = some (some t) ∧
        t.stop = g.tableBytes ∧ g.tableBytes < Size.limit) ∨
      (TableOffsets.forBlocks? g.blockLog2 g.maxBlocks g.maxNames g.maxAligned = some none ∧
        Size.limit ≤ g.tableBytes) := by
  obtain ⟨hmin, hmax, -⟩ := geometry_check hc
  rw [TableOffsets.forBlocks?, Metadata.mapBytes?_eq hmin hmax, Option.map_some]
  cases hp : TableOffsets.place? (8 * BusyMap.wordsFor (1 <<< (g.blockLog2 - minFragmentLog2)))
      g.maxBlocks g.maxNames g.maxAligned with
  | none =>
    refine .inr ⟨rfl, Nat.le_of_not_lt fun hlt => ?_⟩
    obtain ⟨t, ht⟩ := exists_place? hlt
    rw [hp] at ht
    cases ht
  | some t =>
    obtain ⟨hmap, placed⟩ := TableOffsets.place?_eq_some hp
    have hstop : t.stop = g.tableBytes := by
      rw [placed.stop, placed.busy, placed.records, placed.slots, placed.lists, placed.entries,
        hmap, tableBytes]
    exact .inl ⟨t, rfl, hstop, hstop ▸ stop_lt_of_place? hp⟩

/-! ## The start of the arena and the bytes of the region -/

theorem arenaStart_of_limit_le (hc : g.check = .ok ()) (h : Size.limit ≤ g.tableBytes) :
    g.arenaStart host = .error (.refused .outOfMemory) := by
  rcases forBlocks?_cases hc with ⟨-, -, -, hlt⟩ | ⟨ht, -⟩
  · omega
  · rw [arenaStart, hc, ht]

theorem arenaStart_of_lt (hc : g.check = .ok ()) (h : g.tableBytes < Size.limit) :
    g.arenaStart host = (Size.roundUp? g.tableBytes (g.boundary host)).elim (.error .trap) .ok := by
  rcases forBlocks?_cases hc with ⟨t, ht, hstop, -⟩ | ⟨-, hle⟩
  · rw [arenaStart, hc, ht]
    simp only [hstop]
    rw [← boundary]
    cases Size.roundUp? g.tableBytes (g.boundary host) <;> rfl
  · omega

/-- A geometry that passes its check is refused just if its tables are too long for a size, and
traps just if there is no boundary between their end and the bound. -/
theorem arenaStart_eq_error_iff (hc : g.check = .ok ()) {failure : Failure} :
    g.arenaStart host = .error failure ↔
      (Size.limit ≤ g.tableBytes ∧ failure = .refused .outOfMemory) ∨
        (g.tableBytes < Size.limit ∧ Size.limit < g.tableBytes + g.boundary host ∧ failure = .trap) := by
  by_cases hover : Size.limit ≤ g.tableBytes
  · have hnot : ¬ g.tableBytes < Size.limit := by omega
    rw [arenaStart_of_limit_le hc hover, Except.error.injEq, eq_comm]
    simp [hover, hnot]
  · have hlt : g.tableBytes < Size.limit := by omega
    have hband : Size.roundUp? g.tableBytes (g.boundary host) = none ↔ _ :=
      Size.roundUp?_eq_none_iff (g.boundary_pos host) (boundary_dvd_limit hc)
    rw [arenaStart_of_lt hc hlt, ← hband]
    cases Size.roundUp? g.tableBytes (g.boundary host) with
    | none =>
      rw [Option.elim_none, Except.error.injEq, eq_comm]
      simp [hover, hlt]
    | some m => simp [hover]

theorem arenaStart_eq_ok_iff (hc : g.check = .ok ()) {m : Nat} :
    g.arenaStart host = .ok m ↔
      m < Size.limit ∧ host.page ∣ m ∧ 1 <<< g.blockLog2 ∣ m ∧ g.tableBytes ≤ m ∧
        m < g.tableBytes + g.boundary host := by
  by_cases hover : Size.limit ≤ g.tableBytes
  · rw [arenaStart_of_limit_le hc hover]
    refine ⟨fun h => (nomatch h), fun ⟨hlt, _, _, hle, _⟩ => ?_⟩
    omega
  · have hround : Size.roundUp? g.tableBytes (g.boundary host) = some m ↔ _ :=
      Size.roundUp?_eq_some_iff (g.boundary_pos host) (boundary_dvd_limit hc)
    rw [boundary_dvd_iff, and_assoc] at hround
    rw [arenaStart_of_lt hc (by omega), ← hround]
    cases Size.roundUp? g.tableBytes (g.boundary host) <;> simp

theorem unsupported_of_check {e : HeapError} (h : g.check = .error e) :
    ∃ request, e = .unsupported request := by
  rw [check] at h
  split at h
  · cases h
    exact ⟨_, rfl⟩
  · split at h
    · cases h
      exact ⟨_, rfl⟩
    · split at h
      · cases h
        exact ⟨_, rfl⟩
      · cases h

theorem arenaStart_of_check {e : HeapError} (h : g.check = .error e) :
    g.arenaStart host = .error (.refused e) := by
  rw [arenaStart, h]

/-- What places no arena needs no region. -/
theorem regionBytes_of_error {failure : Failure} (h : g.arenaStart host = .error failure) :
    g.regionBytes host = .error failure := by
  rw [regionBytes, h]
  rfl

/-- The bytes of the region are counted exactly. -/
theorem regionBytes_of_ok {m : Nat} (h : g.arenaStart host = .ok m) :
    g.regionBytes host =
      if m + g.maxBlocks * (1 <<< g.blockLog2) < Size.limit then
        .ok (m + g.maxBlocks * (1 <<< g.blockLog2))
      else .error (.refused .outOfMemory) := by
  have hbytes : ((Size.mul? g.maxBlocks (1 <<< g.blockLog2)).bind fun arena => Size.add? arena m) =
      if m + g.maxBlocks * (1 <<< g.blockLog2) < Size.limit then
        some (m + g.maxBlocks * (1 <<< g.blockLog2)) else none := by
    rw [Nat.add_comm m]
    by_cases hmul : g.maxBlocks * (1 <<< g.blockLog2) < Size.limit
    · rw [Size.mul?_eq_some_iff.2 ⟨hmul, rfl⟩, Option.bind_some, Size.add?]
    · rw [Size.mul?, if_neg hmul, if_neg (by omega)]
      rfl
  simp only [regionBytes, h, bind, Except.bind]
  rw [hbytes]
  by_cases hlt : m + g.maxBlocks * (1 <<< g.blockLog2) < Size.limit
  · rw [if_pos hlt, if_pos hlt]
  · rw [if_neg hlt, if_neg hlt]

theorem regionBytes_eq_error_iff {failure : Failure} :
    g.regionBytes host = .error failure ↔
      g.arenaStart host = .error failure ∨
        ∃ m, g.arenaStart host = .ok m ∧ Size.limit ≤ m + g.maxBlocks * (1 <<< g.blockLog2) ∧
          failure = .refused .outOfMemory := by
  cases hm : g.arenaStart host with
  | error e => simp [regionBytes_of_error hm]
  | ok m =>
    rw [regionBytes_of_ok hm]
    by_cases hlt : m + g.maxBlocks * (1 <<< g.blockLog2) < Size.limit
    · rw [if_pos hlt]
      refine ⟨fun h => (nomatch h), fun h => ?_⟩
      rcases h with h | ⟨m', hm', hover, -⟩
      · cases h
      · cases hm'
        omega
    · rw [if_neg hlt, Except.error.injEq, eq_comm]
      refine ⟨fun h => .inr ⟨m, rfl, by omega, h⟩, fun h => ?_⟩
      rcases h with h | ⟨-, -, -, h⟩
      · cases h
      · exact h

theorem regionBytes_eq_ok_iff {bytes : Nat} :
    g.regionBytes host = .ok bytes ↔
      ∃ m, g.arenaStart host = .ok m ∧ bytes = m + g.maxBlocks * (1 <<< g.blockLog2) ∧
        bytes < Size.limit := by
  cases hm : g.arenaStart host with
  | error e => simp [regionBytes_of_error hm]
  | ok m =>
    rw [regionBytes_of_ok hm]
    by_cases hlt : m + g.maxBlocks * (1 <<< g.blockLog2) < Size.limit
    · rw [if_pos hlt, Except.ok.injEq, eq_comm]
      refine ⟨fun h => ⟨m, rfl, h, h ▸ hlt⟩, fun ⟨m', hm', h, _⟩ => ?_⟩
      cases hm'
      exact h
    · rw [if_neg hlt]
      refine ⟨fun h => (nomatch h), fun ⟨m', hm', h, hsmall⟩ => ?_⟩
      cases hm'
      omega

end Geometry

/-! ## Private memory -/

section

variable {host : Host}

theorem Host.page_dvd_limit (host : Host) : host.page ∣ Size.limit := by
  obtain ⟨k, hk, hlt⟩ := host.exists_log2
  rw [hk]
  exact Heap.one_shiftLeft_dvd (Nat.le_of_lt hlt)

/-- A reservation traps where no whole page is left below the bound. -/
theorem Reservation.reserve_eq_trap_iff (capacity : Nat) :
    reserve host capacity = .error .trap ↔ Size.limit < capacity + host.page := by
  have hpage := host.page_lt
  have hround : Size.roundUp? (max capacity 1) host.page = none ↔ _ :=
    Size.roundUp?_eq_none_iff host.page_pos host.page_dvd_limit
  rw [show Size.limit < capacity + host.page ↔ Size.limit < max capacity 1 + host.page by omega,
    ← hround, reserve]
  cases Size.roundUp? (max capacity 1) host.page with
  | none => simp
  | some bytes =>
    by_cases given : bytes < memoryLimit ∧ host.givesMemory bytes = true
    · simp [given]
    · simp [given]

/-- Whole pages are reserved if memory can hold them and the machine gives them, and refused
otherwise. -/
theorem Reservation.reserve_cases {capacity : Nat} (h : capacity + host.page ≤ Size.limit) :
    ∃ bytes, host.page ∣ bytes ∧ max capacity 1 ≤ bytes ∧ bytes < max capacity 1 + host.page ∧
      ((bytes < memoryLimit ∧ host.givesMemory bytes = true ∧
          ∃ r, reserve host capacity = .ok r ∧ r.capacity = bytes ∧ r.visible = 0) ∨
        (¬(bytes < memoryLimit ∧ host.givesMemory bytes = true) ∧
          reserve host capacity = .error (.refused (.region (.exhausted bytes 0))))) := by
  cases hr : Size.roundUp? (max capacity 1) host.page with
  | none =>
    have htrap : reserve host capacity = .error .trap := by rw [reserve, hr]
    have hover := (reserve_eq_trap_iff capacity).1 htrap
    omega
  | some bytes =>
    refine ⟨bytes, ?_⟩
    obtain ⟨hdvd, hle, hlt⟩ := Size.roundUp?_bounds host.page_pos hr
    refine ⟨hdvd, hle, hlt, ?_⟩
    rw [reserve, hr]
    by_cases given : bytes < memoryLimit ∧ host.givesMemory bytes = true
    · exact .inl ⟨given.1, given.2, _, if_pos given, rfl, rfl⟩
    · exact .inr ⟨given, if_neg given⟩

end

/-! ## All sizes of a geometry -/

/-- Every size is answered exactly or refused, however long the pages of the machine and whatever the
fields of the geometry are, save where the tables or a reservation end less than one boundary below
the bound of all sizes: there rounding up traps. -/
theorem Geometry.sizes_exact (host : Host) (g : Geometry) :
    (∀ e, g.check = .error e →
        (∃ request, e = .unsupported request) ∧ g.arenaStart host = .error (.refused e)) ∧
      (g.check = .ok () →
        (∀ failure, g.arenaStart host = .error failure ↔
          (Size.limit ≤ g.tableBytes ∧ failure = .refused .outOfMemory) ∨
            (g.tableBytes < Size.limit ∧ Size.limit < g.tableBytes + g.boundary host ∧
              failure = .trap)) ∧
        ∀ m, g.arenaStart host = .ok m ↔
          m < Size.limit ∧ host.page ∣ m ∧ 1 <<< g.blockLog2 ∣ m ∧ g.tableBytes ≤ m ∧
            m < g.tableBytes + g.boundary host) ∧
      (∀ failure, g.regionBytes host = .error failure ↔
        g.arenaStart host = .error failure ∨
          ∃ m, g.arenaStart host = .ok m ∧ Size.limit ≤ m + g.maxBlocks * (1 <<< g.blockLog2) ∧
            failure = .refused .outOfMemory) ∧
      (∀ bytes, g.regionBytes host = .ok bytes ↔
        ∃ m, g.arenaStart host = .ok m ∧ bytes = m + g.maxBlocks * (1 <<< g.blockLog2) ∧
          bytes < Size.limit) ∧
      ∀ capacity,
        (Reservation.reserve host capacity = .error .trap ↔ Size.limit < capacity + host.page) ∧
        (capacity + host.page ≤ Size.limit →
          ∃ bytes, host.page ∣ bytes ∧ max capacity 1 ≤ bytes ∧
            bytes < max capacity 1 + host.page ∧
            ((bytes < memoryLimit ∧ host.givesMemory bytes = true ∧
                ∃ r, Reservation.reserve host capacity = .ok r ∧ r.capacity = bytes ∧
                  r.visible = 0) ∨
              (¬(bytes < memoryLimit ∧ host.givesMemory bytes = true) ∧
                Reservation.reserve host capacity =
                  .error (.refused (.region (.exhausted bytes 0)))))) := by
  refine ⟨fun e he => ⟨unsupported_of_check he, arenaStart_of_check he⟩, fun hc => ⟨?_, ?_⟩, ?_, ?_, ?_⟩
  · exact fun failure => arenaStart_eq_error_iff hc
  · exact fun m => arenaStart_eq_ok_iff hc
  · exact fun failure => regionBytes_eq_error_iff
  · exact fun bytes => regionBytes_eq_ok_iff
  · exact fun capacity => ⟨Reservation.reserve_eq_trap_iff capacity, Reservation.reserve_cases⟩

/-- Tables of a valid geometry that end 16 bytes below the bound: on a machine with pages of 4096
bytes there is no boundary behind them, and neither the arena nor the region is sized. A reservation
of all but 4095 bytes of the range of sizes traps, too. -/
theorem Geometry.sizes_exact_band : ∃ g : Geometry, g.check = .ok () ∧
    g.tableBytes + 16 = Size.limit ∧ g.arenaStart .ample = .error .trap ∧
      g.regionBytes .ample = .error .trap ∧
      Reservation.reserve .ample (Size.limit - 4095) = .error .trap := by
  obtain ⟨-, valid, bytes, -, reservations⟩ :=
    sizes_exact .ample ⟨12, 1, 1, 288230376151711737, 0⟩
  have start := ((valid rfl).1 .trap).2 (.inr ⟨by decide, by decide, rfl⟩)
  exact ⟨_, rfl, by decide, start, (bytes .trap).2 (.inl start),
    (reservations _).1.2 (by decide)⟩

end RegionHeap
