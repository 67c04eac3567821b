import RegionHeap.Proofs.Heap.Alike
import RegionHeap.Proofs.Heap.Persistence

/-!
The same operation asked of two heaps that are alike. Both grant it with the same answer, or both refuse
it for the same reason, whatever the objects hold and whatever bytes the operation writes, and they stay
alike (`Operation.Alike.runsAlike`). Bytes that they had in common stay in common, but for those where
the operation put bytes of the client's (`Operation.Puts`).
-/
namespace RegionHeap

/-! ## Requests and answers -/

/-- The same operation, save for the bytes that it writes. -/
inductive Operation.Alike : Operation → Operation → Prop where
  | same (op : Operation) : Alike op op
  | write (offset : Nat) {data data' : ByteArray} (size_eq : data'.size = data.size) :
    Alike (.write offset data) (.write offset data')
  | fill (offset count : Nat) (byte byte' : UInt8) :
    Alike (.fill offset count byte) (.fill offset count byte')

/-- The same answer, save for the bytes that were read from an object. -/
inductive Answer.Alike : Answer → Answer → Prop where
  | same (answer : Answer) : Alike answer answer
  | bytes {data data' : ByteArray} (size_eq : data'.size = data.size) :
    Alike (.bytes data) (.bytes data')

/-- Where in the arena an operation may have put bytes of the client's, with its answer if it was
granted and the heap that it left. -/
inductive Operation.Puts (left : Heap) : Operation → Option Answer → Nat → Prop where
  | write {offset i : Nat} {data : ByteArray} (inside : offset ≤ i ∧ i < offset + data.size) :
    Puts left (.write offset data) (some .done) i
  | fill {offset count i : Nat} {byte : UInt8} (inside : offset ≤ i ∧ i < offset + count) :
    Puts left (.fill offset count byte) (some .done) i
  | moved {handle size moved i : Nat} (ne : moved ≠ handle) (inside : moved ≤ i ∧ i < moved + size) :
    Puts left (.reallocate handle size) (some (.handle moved)) i
  /-- Bytes that were moved stay in an object if the one that they come from is not freed. -/
  | leaked {handle size s l i : Nat} (object : left.objectAt s = some l)
    (inside : s ≤ i ∧ i < s + l) : Puts left (.reallocate handle size) none i

/-- Whether an operation can put bytes of the client's into the arena. -/
def Operation.puts : Operation → Bool
  | write .. | fill .. | reallocate .. => true
  | _ => false

/-- Whether an operation writes the metadata. -/
def Operation.saves : Operation → Bool
  | sync => true
  | _ => false

theorem Operation.saves_of_ne {op : Operation} (hop : op ≠ .sync) : op.saves = false := by
  cases op <;> first | rfl | exact absurd rfl hop

theorem Operation.Puts.puts_eq {left : Heap} {op : Operation} {answer : Option Answer} {i : Nat}
    (puts : op.Puts left answer i) : op.puts = true := by
  cases puts <;> rfl

namespace Heap

open HeapM

variable {α : Type} {h k h' k' : Heap} {common : Nat → Prop}

/-! ## Saving -/

theorem writeMeta_carries (b : Beside h k) (start : Nat) (data : ByteArray) :
    Carries (writeMeta start data) h k := by
  refine Preserves.get_bind b (fun _ => rfl) ?_
  exact Preserves.ite (fun _ => modifyRegion_carries b start data) fun _ => Lockstep.trap'

theorem writeTables_carries (b : Beside h k) (tables : List (Nat × ByteArray)) :
    Carries (tables.forM fun p => writeMeta p.1 p.2) h k := by
  induction tables generalizing h k with
  | nil => exact Preserves.pure (.refl b) ()
  | cons p rest ih =>
    apply Carries.bind (writeMeta_carries b p.1 p.2)
    intro _ h₁ k₁ c
    exact ih c.toBeside

/-- The same tables are written into both regions. -/
theorem sync_carries (b : Beside h k) : Carries sync h k := by
  apply Carries.bind
  · refine Preserves.get_bind b (fun _ => rfl) ?_
    split
    · exact Lockstep.trap'
    · exact Preserves.refuse (.refl b) _
    · exact Preserves.ite (fun _ => writeTables_carries b _) fun _ => Lockstep.trap'
  · intro _ h₁ k₁ c
    have stays := Carried.refl c.toBeside
    apply Lockstep.get_bind
    rw [c.twin.flush_eq]
    cases h₁.region.flush with
    | ok _ => exact Preserves.pure stays ()
    | error e => exact Preserves.refuse stays _

theorem sync_preserves (w : h.WellFormed) (a : AlikeOn common h k) :
    Preserves (AlikeOn common) sync h k := by
  have freesNone {h' : Heap} (s : Saved h h') : FreesNone h h' := by
    intro x log2 hx
    rw [s.eq] at hx
    exact hx
  exact (sync_carries a.toBeside).alike w a (sync_ends w) (fun _ _ => freesNone)
    fun _ _ s => freesNone s.1

/-! ## New heaps -/

theorem resizeRegion_carries (b : Beside h k) (bytes : Nat) : Carries (resizeRegion bytes) h k := by
  obtain ⟨r, rfl⟩ : ∃ r, k = h.on r := ⟨_, b.eq⟩
  apply Lockstep.get_bind
  rcases b.twin.resize bytes with ⟨e, he, he'⟩ | ⟨s, s', hs, hs', t, hb⟩
  · rw [he, he']
    exact Lockstep.refuse' (.refl b)
  · rw [hs, hs']
    exact Lockstep.set' ⟨rfl, ⟨⟨rfl, t⟩, rfl, hb⟩⟩

theorem layOut_carries (b : Beside h k) (initialBlocks : Nat) : Carries (layOut initialBlocks) h k := by
  refine Preserves.get_bind b (fun _ => rfl) ?_
  apply Carries.bind (resizeRegion_carries b _)
  intro _ h₁ k₁ c₁
  apply Carries.bind (grow_carries c₁.toBeside initialBlocks)
  intro _ h₂ k₂ c₂
  exact sync_carries c₂.toBeside

/-- It makes no difference to a new heap what it is made on: regions of the same extent, which show the
same bytes wherever they are grown, come out as heaps that are alike, or are refused alike. -/
theorem create_twin {host : Host} {g : Geometry} {region region' : Region}
    (t : Region.Twin region region') (same : ∀ i, region'.grownByte i = region.grownByte i) :
    (∃ h k, create host g region = .ok h ∧ create host g region' = .ok k ∧
      AlikeOn (fun _ => True) h k) ∨
    ∃ r r', create host g region = .error r ∧ create host g region' = .error r' ∧
      r'.failure = r.failure := by
  rw [create, create]
  cases g.arenaStart host with
  | error failure => exact .inr ⟨_, _, rfl, rfl, rfl⟩
  | ok arenaStart =>
    have b : Beside (blank g arenaStart region) (blank g arenaStart region') := ⟨rfl, t⟩
    rcases (layOut_carries b g.initialBlocks).ends with
      ⟨_, _, h, k, hl, hl', -, c⟩ | ⟨e, h, k, hl, hl', -⟩ | ⟨h, k, hl, hl'⟩
    · dsimp only
      rw [hl, hl']
      have agrees (i : Nat) : Agrees h k i := c.agrees i (same i)
      exact .inl ⟨h, k, rfl, rfl, c.toBeside.alike fun _ _ _ _ _ => agrees _, fun i _ => agrees i⟩
    · dsimp only
      rw [hl, hl']
      exact .inr ⟨_, _, rfl, rfl, rfl⟩
    · dsimp only
      rw [hl, hl']
      exact .inr ⟨_, _, rfl, rfl, rfl⟩

/-! ## Operations -/

/-- What stands at these offsets of the region, but for bytes of the client's. -/
def Untouched (op : Operation) (answer : Option Answer) (left : Heap) (common : Nat → Prop) (i : Nat) :
    Prop :=
  common i ∧ ∀ x, op.Puts left answer x → i ≠ left.arenaStart + x

/-- Operations that are granted or refused alike, and leave heaps that are alike. -/
def RunsAlike (op : Operation) (common : Nat → Prop) (x y : HeapM Answer) (h k : Heap) : Prop :=
  Lockstep x y h k
    (fun answer answer' h' k' => answer.Alike answer' ∧
      AlikeOn (Untouched op (some answer) h' common) h' k')
    fun _ h' k' => AlikeOn (Untouched op none h' common) h' k'

theorem AlikeOn.untouched (a : AlikeOn common h' k') {op : Operation} {answer : Option Answer} :
    AlikeOn (Untouched op answer h' common) h' k' :=
  a.mono fun _ hi => hi.1

theorem Preserves.runsAlike {x : HeapM Answer} (hx : Preserves (AlikeOn common) x h k)
    (op : Operation) : RunsAlike op common x x h k := by
  refine hx.mono ?_ fun _ _ _ a => a.untouched
  intro b b' h' k' ⟨he, a⟩
  rw [he]
  exact ⟨.same _, a.untouched⟩

/-- What is asked of a heap, but for its region, is answered alike. -/
theorem AlikeOn.asks (a : AlikeOn common h k) (f : Heap → Option α) (g : α → Answer)
    (hf : ∀ r, f (h.on r) = f h) :
    Preserves (AlikeOn common) (get >>= fun h => orTrap (f h) >>= fun b => pure (g b)) h k := by
  refine Preserves.get_bind a.toBeside (fun r => by rw [hf]) ?_
  apply Preserves.orTrap_bind
  intro b _
  exact Preserves.pure a (g b)

theorem write_runsAlike {op : Operation} {data data' : ByteArray} {offset : Nat} (w : h.WellFormed)
    (a : AlikeOn common h k) (hsize : data'.size = data.size)
    (puts : ∀ left i, offset ≤ i ∧ i < offset + data.size → op.Puts left (some .done) i) :
    RunsAlike op common ((fun _ => .done) <$> write offset data)
      ((fun _ => .done) <$> write offset data') h k := by
  refine Lockstep.map' ((write_lockstep w a offset hsize).mono ?_ fun _ _ _ a' => a'.untouched)
  intro _ _ h' k' a'
  refine ⟨.same _, a'.mono fun i hi => ⟨hi.1, fun hin => ?_⟩⟩
  refine hi.2 (i - h'.arenaStart) (puts h' _ (by omega)) ?_
  omega

theorem fill_runsAlike (w : h.WellFormed) (a : AlikeOn common h k) (offset count : Nat)
    (byte byte' : UInt8) :
    RunsAlike (.fill offset count byte) common ((fun _ => .done) <$> fill offset count byte)
      ((fun _ => .done) <$> fill offset count byte') h k := by
  rw [fill_eq, fill_eq]
  refine write_runsAlike w a (by rw [Bytes.size_repeated, Bytes.size_repeated]) fun left i hin => ?_
  rw [Bytes.size_repeated] at hin
  exact .fill hin

theorem reallocate_runsAlike (w : h.WellFormed) (a : AlikeOn common h k) (handle size : Nat) :
    RunsAlike (.reallocate handle size) common (.handle <$> reallocate handle size)
      (.handle <$> reallocate handle size) h k := by
  refine Lockstep.map' ((reallocate_resizes w a handle size).mono ?_ ?_)
  · rintro moved _ h' k' (⟨rfl, a'⟩ | ⟨rfl, hne, a'⟩)
    · exact ⟨.same _, a'.untouched⟩
    · refine ⟨.same _, a'.mono fun i hi => ⟨hi.1, fun hin => ?_⟩⟩
      refine hi.2 (i - h'.arenaStart) (.moved hne (by omega)) ?_
      omega
  · intro e h' k' a'
    refine a'.mono fun i hi => ⟨hi.1, fun s l hs hin => ?_⟩
    refine hi.2 (i - h'.arenaStart) (.leaked hs (by omega)) ?_
    omega

end Heap

open Heap HeapM

variable {h k : Heap} {common : Nat → Prop}

/-- Whether an operation gives out, writes or moves bytes of objects. -/
def Operation.handlesBytes : Operation → Bool
  | reallocate .. | read .. | write .. | fill .. => true
  | _ => false

/-- An operation that does not handle the bytes of objects is answered in the same way by heaps that
are alike, and carries over what they have in common. -/
theorem Operation.preserves {op : Operation} (hop : op.handlesBytes = false) (w : h.WellFormed)
    (a : AlikeOn common h k) : Preserves (AlikeOn common) op.run h k := by
  cases op with
  | allocate size => exact (allocate_preserves w a size).map _
  | allocateZeroed count size => exact (allocateZeroed_preserves w a count size).map _
  | allocateAligned alignment size => exact (allocateAligned_preserves w a alignment size).map _
  | allocatePageAligned host size => exact (allocateAligned_preserves w a _ size).map _
  | free handle => exact (free_preserves w a handle).map _
  | allocateNamed name size =>
    exact (allocateAs_preserves a name (allocate_preserves w a size)).map _
  | allocateZeroedNamed name count size =>
    exact (allocateAs_preserves a name (allocateZeroed_preserves w a count size)).map _
  | allocateAlignedNamed name alignment size =>
    exact (allocateAs_preserves a name (allocateAligned_preserves w a alignment size)).map _
  | freeNamed name => exact (freeNamed_preserves w a name).map _
  | register name offset => exact (register_preserves a name offset).map _
  | lookup name => exact (lookup_preserves a name).map _
  | unregister name => exact (unregister_preserves a name).map _
  | resolve offset => exact (resolve_preserves a offset).map _
  | usableFrom offset => exact (usableFrom_preserves a offset).map _
  | grow count => exact (grow_preserves w a count).map _
  | shrink count => exact (shrink_preserves w a count).map _
  | trim => exact (trim_preserves w a).map _
  | sync => exact (sync_preserves w a).map _
  | names => exact Preserves.get_bind a.toBeside (fun _ => rfl) (Preserves.pure a _)
  | usage => exact a.asks (fun h => h.usage?) _ fun _ => rfl
  | freeRuns => exact a.asks (fun h => h.table.freeRuns?) _ fun _ => rfl
  | defects =>
    -- the check does read the region, but what it finds follows from well-formedness
    refine Lockstep.bind' (Lockstep.get' ?_)
    rw [w.defects?_eq_none, (a.wellFormed w).defects?_eq_none]
    exact Preserves.pure a _
  | reallocate => cases hop
  | read => cases hop
  | write => cases hop
  | fill => cases hop

/-- Operations that differ in what they write are granted or refused alike. -/
theorem Operation.Alike.runsAlike {op op' : Operation} (o : op.Alike op') (w : h.WellFormed)
    (a : AlikeOn common h k) : RunsAlike op common op.run op'.run h k := by
  cases o with
  | write offset hsize => exact write_runsAlike w a hsize fun _ _ => .write
  | fill offset count byte byte' => exact fill_runsAlike w a offset count byte byte'
  | same op =>
    cases hop : op.handlesBytes with
    | false => exact (Operation.preserves hop w a).runsAlike op
    | true =>
      cases op with
      | reallocate handle size => exact reallocate_runsAlike w a handle size
      | write offset data => exact write_runsAlike w a rfl fun _ _ => .write
      | fill offset count byte => exact fill_runsAlike w a offset count byte byte
      | read offset count =>
        refine Lockstep.map' ((read_lockstep a offset count).mono ?_ fun _ _ _ a' => a'.untouched)
        intro data data' h' k' ⟨hsize, a'⟩
        exact ⟨.bytes hsize, a'.untouched⟩
      | _ => cases hop

end RegionHeap
