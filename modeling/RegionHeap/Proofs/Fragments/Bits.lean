import RegionHeap.Fragments.BusyMap

/-!
Busy maps, bit by bit. A map is known by `isBusy`: marking a fragment changes that one answer, the
count is the number of busy fragments, and `reaches` asks whether any lies past a bound.
-/
namespace RegionHeap.BusyMap

/-! ## One word -/

theorem toNat_bitMask {i : Nat} (h : i < wordBits) : (bitMask i).toNat = 1 <<< i := by
  have hi : (UInt64.ofNat i).toNat % 64 = i := by
    simp only [wordBits] at h
    simp
    omega
  rw [bitMask, UInt64.toNat_shiftLeft, hi, UInt64.toNat_one, Nat.one_shiftLeft]
  exact Nat.mod_eq_of_lt (Nat.pow_lt_pow_right (by decide) h)

theorem bit_eq_testBit (word : UInt64) {i : Nat} (h : i < wordBits) :
    bit word i = word.toNat.testBit i := by
  rw [bit, Bool.eq_iff_iff, bne_iff_ne, ne_eq, ← UInt64.toNat_inj, UInt64.toNat_and, toNat_bitMask h,
    Nat.one_shiftLeft, UInt64.toNat_zero]
  constructor
  · intro hne
    refine Decidable.byContradiction fun hb => hne (Nat.eq_of_testBit_eq fun j => ?_)
    rw [Nat.testBit_and, Nat.testBit_two_pow, Nat.zero_testBit]
    by_cases hj : i = j
    · subst hj; simpa using hb
    · simp [hj]
  · intro hb hz
    have := congrArg (Nat.testBit · i) hz
    simp [Nat.testBit_and, Nat.testBit_two_pow_self, hb] at this

theorem bit_setBit (word : UInt64) (busy : Bool) {i j : Nat} (hi : i < wordBits)
    (hj : j < wordBits) : bit (setBit word i busy) j = if j = i then busy else bit word j := by
  rw [bit_eq_testBit _ hj, bit_eq_testBit _ hj, setBit]
  cases busy with
  | true =>
    rw [if_pos rfl, UInt64.toNat_or, Nat.testBit_or, toNat_bitMask hi, Nat.one_shiftLeft,
      Nat.testBit_two_pow]
    by_cases h : j = i
    · subst h; simp
    · simp [h, Ne.symm h]
  | false =>
    have hnot : (~~~bitMask i).toNat = 2 ^ 64 - (2 ^ i + 1) := by
      rw [UInt64.toNat_not, toNat_bitMask hi, Nat.one_shiftLeft, UInt64.size]
      omega
    have hlt : 2 ^ i < 2 ^ 64 := Nat.pow_lt_pow_right (by decide) hi
    rw [if_neg Bool.false_ne_true, UInt64.toNat_and, Nat.testBit_and, hnot,
      Nat.testBit_two_pow_sub_succ hlt, Nat.testBit_two_pow]
    have hj' : j < 64 := hj
    by_cases h : j = i
    · subst h; simp
    · simp [h, Ne.symm h, hj']

theorem bit_zero (i : Nat) : bit 0 i = false := by
  simp [bit]

theorem ones_eq_countP (word : UInt64) : ones word = (List.range wordBits).countP (bit word) := by
  have below (n : Nat) : onesBelow word n = (List.range n).countP (bit word) := by
    induction n with
    | zero => rfl
    | succ n ih => rw [onesBelow, ih, List.range_succ, List.countP_append, List.countP_singleton]
  exact below wordBits

/-- A word with bits is one with a set bit. -/
theorem ne_zero_iff (word : UInt64) : (word != 0) = true ↔ ∃ i, i < wordBits ∧ bit word i = true := by
  rw [bne_iff_ne]
  constructor
  · intro hne
    refine Classical.byContradiction fun hn => hne (UInt64.toNat_inj.1 (Nat.eq_of_testBit_eq ?_))
    intro i
    rw [UInt64.toNat_zero, Nat.zero_testBit]
    by_cases hi : i < wordBits
    · rw [← bit_eq_testBit _ hi]
      exact Bool.eq_false_iff.2 fun hb => hn ⟨i, hi, hb⟩
    · refine Nat.testBit_lt_two_pow (Nat.lt_of_lt_of_le word.toNat_lt ?_)
      exact Nat.pow_le_pow_right (by decide) (Nat.le_of_not_lt hi)
  · rintro ⟨i, -, hb⟩ rfl
    rw [bit_zero] at hb
    cases hb

theorem bit_shiftRight (word : UInt64) {k i : Nat} (hk : k < wordBits) (hi : i < wordBits) :
    bit (word >>> UInt64.ofNat k) i = if k + i < wordBits then bit word (k + i) else false := by
  have hk' : (UInt64.ofNat k).toNat % 64 = k := by
    simp only [wordBits] at hk
    simp
    omega
  rw [bit_eq_testBit _ hi, UInt64.toNat_shiftRight, hk', Nat.testBit_shiftRight]
  split
  · rw [bit_eq_testBit _ ‹_›]
  · refine Nat.testBit_lt_two_pow (Nat.lt_of_lt_of_le word.toNat_lt ?_)
    exact Nat.pow_le_pow_right (by decide) (Nat.le_of_not_lt ‹_›)

/-! ## Whole maps -/

variable {m m' : BusyMap}

/-- Marking a fragment answers what it was, and changes no other. -/
theorem set?_eq {i : Nat} (h : i < m.size * wordBits) (busy : Bool) :
    ∃ m', m.set? i busy = some (m.isBusy i, m') ∧ m'.size = m.size ∧
      ∀ j, m'.isBusy j = if j = i then busy else m.isBusy j := by
  have hword : i / wordBits < m.size := (Nat.div_lt_iff_lt_mul (by decide)).2 h
  have hbit (j : Nat) : j % wordBits < wordBits := Nat.mod_lt j (by decide)
  refine ⟨m.set (i / wordBits) (setBit m[i / wordBits] (i % wordBits) busy), ?_,
    Array.size_set hword, fun j => ?_⟩
  · rw [set?, dif_pos hword, isBusy, Array.getElem?_eq_getElem hword, Option.any_some]
  · rw [isBusy, isBusy, Array.getElem?_set]
    by_cases hw : i / wordBits = j / wordBits
    · rw [if_pos hw, Option.any_some, bit_setBit _ _ (hbit i) (hbit j), ← hw,
        Array.getElem?_eq_getElem hword, Option.any_some]
      have : j = i ↔ j % wordBits = i % wordBits := by
        simp only [wordBits] at hw ⊢
        omega
      simp only [this]
    · rw [if_neg hw, if_neg]
      rintro rfl
      exact hw rfl

theorem isBusy_replicate (words i : Nat) : isBusy (Array.replicate words 0) i = false := by
  rw [isBusy, Array.getElem?_replicate]
  split
  · exact bit_zero _
  · rfl

/-- The words that a map of `count` fragments needs. -/
def wordsFor (count : Nat) : Nat := (count + (wordBits - 1)) / wordBits

theorem le_wordsFor_mul (count : Nat) : count ≤ wordsFor count * wordBits := by
  simp only [wordsFor, wordBits]
  omega

theorem wordsNeeded?_eq {count : Nat} (h : count + wordBits < Size.limit) :
    wordsNeeded? count = some (wordsFor count) := by
  rw [wordsNeeded?, Size.add?_eq_some_iff.2 ⟨h, rfl⟩, Option.map_some, wordsFor]
  rfl

theorem wordsNeeded?_one_shiftLeft {n : Nat} (h : n < 64) :
    wordsNeeded? (1 <<< n) = some (wordsFor (1 <<< n)) := by
  refine wordsNeeded?_eq ?_
  have := Nat.pow_le_pow_right Nat.two_pos (Nat.le_of_lt_succ h)
  simp only [Nat.one_shiftLeft, wordBits, Size.limit]
  omega

theorem wordsFor_mono {a b : Nat} (h : a ≤ b) : wordsFor a ≤ wordsFor b :=
  Nat.div_le_div_right (Nat.add_le_add_right h _)

theorem allFree?_eq {count : Nat} (h : count + wordBits < Size.limit) :
    allFree? count = some (Array.replicate (wordsFor count) 0) := by
  rw [allFree?, wordsNeeded?_eq h]
  rfl

/-- The count of a map is the number of its busy fragments. -/
theorem count_eq_countP (m : BusyMap) :
    m.count = (List.range (m.size * wordBits)).countP m.isBusy := by
  have words (ws : List UInt64) : Size.total (ws.map ones) =
      (List.range (ws.length * wordBits)).countP fun i =>
        ws[i / wordBits]?.any fun word => bit word (i % wordBits) := by
    induction ws with
    | nil => rfl
    | cons w ws ih =>
      have hlow : (List.range wordBits).countP (fun i =>
          (w :: ws)[i / wordBits]?.any fun word => bit word (i % wordBits)) = ones w := by
        rw [ones_eq_countP]
        refine List.countP_congr fun i hi => ?_
        have hi := List.mem_range.1 hi
        rw [Nat.div_eq_of_lt hi, Nat.mod_eq_of_lt hi]
        rfl
      rw [List.map_cons, Size.total_cons, ih, List.length_cons, Nat.succ_mul, Nat.add_comm _ wordBits,
        List.range_add, List.countP_append, hlow, List.countP_map]
      congr 1
      refine List.countP_congr fun i _ => ?_
      rw [Function.comp_apply, Nat.add_div_left _ (by decide), Nat.add_mod_left]
      rfl
  rw [count, words, Array.length_toList]
  refine List.countP_congr fun i _ => ?_
  rw [isBusy, Array.getElem?_toList]

/-- A bound on the busy fragments is one that the map does not reach. -/
theorem reaches_eq_false_iff {n : Nat} :
    m.reaches n = false ↔ ∀ i, n ≤ i → m.isBusy i = false := by
  have word (w : UInt64) (k : Nat) : wordReaches n w k = true ↔
      ∃ i, i < wordBits ∧ n ≤ k * wordBits + i ∧ bit w i = true := by
    rw [wordReaches]
    split
    · rw [ne_zero_iff]
      exact ⟨fun ⟨i, hi, hb⟩ => ⟨i, hi, by omega, hb⟩, fun ⟨i, hi, _, hb⟩ => ⟨i, hi, hb⟩⟩
    · split
      · rename_i hlo hhi
        rw [ne_zero_iff]
        constructor
        · rintro ⟨i, hi, hb⟩
          rw [bit_shiftRight _ hhi hi] at hb
          split at hb
          · exact ⟨_, ‹_›, by omega, hb⟩
          · cases hb
        · rintro ⟨i, hi, hn, hb⟩
          refine ⟨i - (n - k * wordBits), by omega, ?_⟩
          rw [bit_shiftRight _ hhi (by omega), if_pos (by omega),
            show n - k * wordBits + (i - (n - k * wordBits)) = i by omega]
          exact hb
      · rename_i hlo hhi
        refine ⟨fun h => absurd h Bool.false_ne_true, fun ⟨i, hi, hn, _⟩ => ?_⟩
        omega
  rw [Bool.eq_false_iff, ne_eq, reaches, List.any_eq_true]
  constructor
  · intro h i hi
    refine Bool.eq_false_iff.2 fun hb => h ?_
    rw [isBusy] at hb
    cases hw : m[i / wordBits]? with
    | none => rw [hw] at hb; cases hb
    | some w =>
      rw [hw, Option.any_some] at hb
      refine ⟨(w, i / wordBits), ?_, (word _ _).2 ⟨i % wordBits, Nat.mod_lt _ (by decide), ?_, hb⟩⟩
      · rw [List.mk_mem_zipIdx_iff_getElem?, Array.getElem?_toList]
        exact hw
      · rw [Nat.div_add_mod']
        exact hi
  · rintro h ⟨⟨w, k⟩, hm, hr⟩
    obtain ⟨i, hi, hn, hb⟩ := (word w k).1 hr
    rw [List.mk_mem_zipIdx_iff_getElem?, Array.getElem?_toList] at hm
    have := h (k * wordBits + i) hn
    rw [isBusy, Nat.mul_comm, Nat.mul_add_div (by decide), Nat.div_eq_of_lt hi, Nat.add_zero, hm,
      Option.any_some, Nat.mul_add_mod, Nat.mod_eq_of_lt hi, hb] at this
    cases this

/-- Maps of one length are the same if the same fragments are busy. -/
theorem ext_isBusy (hs : m'.size = m.size) (h : ∀ i, m'.isBusy i = m.isBusy i) : m' = m := by
  refine Array.ext hs fun k hk' hk => UInt64.toNat_inj.1 (Nat.eq_of_testBit_eq fun j => ?_)
  by_cases hj : j < wordBits
  · have := h (k * wordBits + j)
    rw [isBusy, isBusy, Nat.mul_comm, Nat.mul_add_div (by decide), Nat.div_eq_of_lt hj, Nat.add_zero,
      Nat.mul_add_mod, Nat.mod_eq_of_lt hj, Array.getElem?_eq_getElem hk',
      Array.getElem?_eq_getElem hk, Option.any_some, Option.any_some] at this
    rw [← bit_eq_testBit _ hj, ← bit_eq_testBit _ hj, this]
  · -- no word has a bit there
    have high (word : UInt64) : word.toNat.testBit j = false :=
      Nat.testBit_lt_two_pow (Nat.lt_of_lt_of_le word.toNat_lt
        (Nat.pow_le_pow_right (by decide) (Nat.le_of_not_lt hj)))
    rw [high, high]

/-- Past its words nothing is busy. -/
theorem isBusy_eq_false {i : Nat} (h : m.size * wordBits ≤ i) : m.isBusy i = false := by
  rw [isBusy, Array.getElem?_eq_none ((Nat.le_div_iff_mul_le (by decide)).2 h), Option.any_none]

/-- Past the fragments of its block nothing is busy, so the count of a map is that of its block. -/
theorem count_eq_of_bound {n : Nat} (h : ∀ i, n ≤ i → m.isBusy i = false) :
    m.count = (List.range n).countP m.isBusy := by
  have grow {a b : Nat} (hab : a ≤ b) (ha : ∀ i, a ≤ i → m.isBusy i = false) :
      (List.range b).countP m.isBusy = (List.range a).countP m.isBusy := by
    rw [show b = a + (b - a) by omega, List.range_add, List.countP_append, List.countP_map]
    have hz : (List.range (b - a)).countP (m.isBusy ∘ fun i => a + i) = 0 :=
      List.countP_eq_zero.2 fun i _ => by
        rw [Function.comp_apply, ha _ (by omega)]
        exact Bool.false_ne_true
    omega
  rw [count_eq_countP]
  -- the words of the map and the fragments of the block may end in either order
  rcases Nat.le_total n (m.size * wordBits) with hle | hle
  · exact grow hle h
  · exact (grow hle fun i => isBusy_eq_false).symm

/-- Changing one answer changes the count by the difference. -/
theorem countP_update {f g : Nat → Bool} {n i : Nat} {b : Bool} (hi : i < n)
    (h : ∀ j, g j = if j = i then b else f j) :
    (List.range n).countP g + (if f i then 1 else 0) =
      (List.range n).countP f + if b then 1 else 0 := by
  induction n with
  | zero => omega
  | succ n ih =>
    rw [List.range_succ, List.countP_append, List.countP_append, List.countP_singleton,
      List.countP_singleton]
    by_cases hn : i = n
    · subst hn
      have below : (List.range i).countP g = (List.range i).countP f :=
        List.countP_congr fun j hj => by
          have := List.mem_range.1 hj
          rw [h, if_neg (by omega)]
      rw [below, h i, if_pos rfl]
      omega
    · have := ih (by omega)
      rw [h n, if_neg (Ne.symm hn)]
      omega

end RegionHeap.BusyMap
