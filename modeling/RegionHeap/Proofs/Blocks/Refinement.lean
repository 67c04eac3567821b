import RegionHeap.Proofs.Blocks.Occupancy

/-!
A table does what is asked of the busy runs that it stands for. `TableStep` is what callers ask of a
table, `Changes` what that means for a length and a set of busy runs, and `Made` holds of the tables
that any number of steps leads to. Every step that fits a table has the effect on its occupancy that
`Changes` describes and no other (`LaidOut.carried`); with it goes that the free runs are always the
gaps and that no defect is ever found (`refines_occupancy`).
-/
namespace RegionHeap

/-- What a caller asks of a table. -/
inductive TableStep where
  | append (count : Nat)
  | claim (count : Nat)
  | giveBack (start count : Nat)
  | cutTail (count : Nat)
  | lengthen (head length want : Nat)
  | shorten (head length want : Nat)
  /-- One block is cut into fragments. -/
  | cut (block log2 nfree : Nat)
  /-- The table is made again from its entries. -/
  | rebuild
  deriving DecidableEq, Repr

/-- What a caller is told. -/
inductive TableAnswer where
  | freeRun (head size : Nat)
  | taken (block : Option Nat)
  | granted (done : Bool)
  | done
  deriving DecidableEq, Repr

namespace TableStep

def run? (t : BlockTable) : TableStep → Option (TableAnswer × BlockTable)
  | append count => (t.append? count).map fun ((head, size), t) => (.freeRun head size, t)
  | claim count => (t.claim? count).map fun (block, t) => (.taken block, t)
  | giveBack start count => (t.giveBack? start count).map fun ((head, size), t) =>
      (.freeRun head size, t)
  | cutTail count => (t.cutTail? count).map fun (done, t) => (.granted done, t)
  | lengthen head length want => (t.lengthen? head length want).map fun (done, t) =>
      (.granted done, t)
  | shorten head length want => (t.shorten? head length want).map fun t => (.done, t)
  | cut block log2 nfree => (t.setBusy? block (.fragmented log2 nfree)).map fun t => (.done, t)
  | rebuild => (BlockTable.ofEntries? t.entries).map fun t => (.done, t)

/-- Whether a step is one to ask for: of whole busy runs, and not for nothing. -/
def Fits (o : Occupancy) : TableStep → Prop
  | append count => 0 < count
  | claim count => 0 < count
  | giveBack start count => o.lengthAt? start = some count
  | cutTail _ => True
  | lengthen head length want => o.lengthAt? head = some length ∧ length < want
  | shorten head length want => o.lengthAt? head = some length ∧ 0 < want ∧ want < length
  | cut block _ _ => o.lengthAt? block = some 1
  | rebuild => True

instance (o : Occupancy) (step : TableStep) : Decidable (step.Fits o) :=
  match step with
  | append count => inferInstanceAs (Decidable (0 < count))
  | claim count => inferInstanceAs (Decidable (0 < count))
  | giveBack start count => inferInstanceAs (Decidable (o.lengthAt? start = some count))
  | cutTail _ => inferInstanceAs (Decidable True)
  | lengthen head length want =>
    inferInstanceAs (Decidable (o.lengthAt? head = some length ∧ length < want))
  | shorten head length want =>
    inferInstanceAs (Decidable (o.lengthAt? head = some length ∧ 0 < want ∧ want < length))
  | cut block _ _ => inferInstanceAs (Decidable (o.lengthAt? block = some 1))
  | rebuild => inferInstanceAs (Decidable True)

/-- Whether a step asks for more blocks than any table has. -/
def Overfills (size : Nat) : TableStep → Prop
  | append count => BlockTable.maxEntries < size + count
  | _ => False

/-- What a step does to the length and the busy runs of a table, and what it answers. -/
inductive Changes (o : Occupancy) : TableStep → TableAnswer → Occupancy → Prop
  | appended {count head size : Nat}
      (gap : (o.withSize (o.size + count)).IsGap head size)
      (around : head ≤ o.size ∧ o.size + count ≤ head + size) :
      Changes o (.append count) (.freeRun head size) (o.withSize (o.size + count))
  | claimed {count head size : Nat} (gap : o.IsGap head size) (enough : count ≤ size) :
      Changes o (.claim count) (.taken (some head)) (o.put head (some (.busy count)))
  | notClaimed {count : Nat} (short : ∀ head size, o.IsGap head size → size < count) :
      Changes o (.claim count) (.taken none) o
  | givenBack {start count head size : Nat} (gap : (o.put start none).IsGap head size)
      (around : head ≤ start ∧ start + count ≤ head + size) :
      Changes o (.giveBack start count) (.freeRun head size) (o.put start none)
  | tailCut {count : Nat} (enough : ∀ clear, o.EndsClear clear → count ≤ clear) :
      Changes o (.cutTail count) (.granted true) (o.withSize (o.size - count))
  | tailNotCut {count : Nat} (short : ∀ clear, o.EndsClear clear → clear < count) :
      Changes o (.cutTail count) (.granted false) o
  | lengthened {head length want size : Nat} (gap : o.IsGap (head + length) size)
      (enough : want - length ≤ size) :
      Changes o (.lengthen head length want) (.granted true) (o.put head (some (.busy want)))
  | notLengthened {head length want : Nat}
      (short : ∀ size, o.IsGap (head + length) size → size < want - length) :
      Changes o (.lengthen head length want) (.granted false) o
  | shortened {head length want : Nat} :
      Changes o (.shorten head length want) .done (o.put head (some (.busy want)))
  | cut {block log2 nfree : Nat} :
      Changes o (.cut block log2 nfree) .done (o.put block (some (.cut log2 nfree)))
  | rebuilt : Changes o .rebuild .done o

end TableStep

namespace BlockTable

/-- The tables that steps from the empty table lead to. -/
inductive Made : BlockTable → Prop
  | empty : Made empty
  | step {t t' : BlockTable} {step : TableStep} {answer : TableAnswer} (made : Made t)
      (fits : step.Fits t.occupancy) (run : step.run? t = some (answer, t')) : Made t'

/-- The table after some steps, if each of them fits and is carried out. -/
def after? (t : BlockTable) : List TableStep → Option BlockTable
  | [] => some t
  | step :: rest =>
    if step.Fits t.occupancy then (step.run? t).bind fun (_, t) => after? t rest else none

/-- A step is carried out as its caller expects, and the table stays in order. -/
def Carried (t : BlockTable) (step : TableStep) : Prop :=
  ∃ answer t', step.run? t = some (answer, t') ∧ (∃ runs, t'.LaidOut runs) ∧
    step.Changes t.occupancy answer t'.occupancy

variable {t t' : BlockTable} {l r runs : List Run} {run : Run}

/-! ## Reading the change off the table -/

theorem occupancy_eq {size : Nat} (hs : t'.size = size)
    (hb : ∀ b, t'.inUse? b = t.inUse? b) :
    t'.occupancy = t.occupancy.withSize size := by
  have hruns : t'.busyRun? = t.busyRun? := funext fun b => busyRun?_congr (hb b)
  rw [occupancy, hs, hruns]
  rfl

theorem occupancy_put {block : Nat} {run? : Option Run} (hs : t'.size = t.size)
    (hat : t'.busyRun? block = run?) (hne : ∀ b, b ≠ block → t'.busyRun? b = t.busyRun? b) :
    t'.occupancy = t.occupancy.put block run? := by
  have hruns : t'.busyRun? = replaced t.busyRun? block run? := by
    funext b
    by_cases hb : b = block
    · rw [hb, replaced_self, hat]
    · rw [replaced_of_ne _ _ hb, hne b hb]
  rw [occupancy, hs, hruns]
  rfl

/-- A busy run of another length replaces what stood at its first block, where else there was none. -/
theorem occupancy_put_busy {head length : Nat} (hs : t'.size = t.size) (hpos : 0 < length)
    (hu : ∀ b, t'.inUse? b = if head ≤ b ∧ b < head + length
      then some ((Run.busy length).entry head (b - head)) else t.inUse? b)
    (hnone : ∀ b, head < b → b < head + length → t.busyRun? b = none) :
    t'.occupancy = t.occupancy.put head (some (.busy length)) := by
  have hin (b : Nat) (hlo : head ≤ b) (hhi : b < head + length) :
      t'.busyRun? b = if b - head = 0 ∧ (Run.busy length).isFree = false then some (.busy length)
        else none := by
    rw [busyRun?_eq_inUse, hu, if_pos ⟨hlo, hhi⟩, Option.bind_some,
      busyRun?_entry _ _ (by rw [Run.length]; omega)]
  refine occupancy_put hs ?_ fun b hne => ?_
  · rw [hin head (Nat.le_refl _) (by omega), if_pos ⟨Nat.sub_self _, rfl⟩]
  · by_cases hb : head ≤ b ∧ b < head + length
    · rw [hin b hb.1 hb.2, if_neg (by omega), hnone b (by omega) hb.2]
    · exact busyRun?_congr (by rw [hu, if_neg hb])

theorem LaidOut.isGap_of_free {size : Nat} (h : t.LaidOut (l ++ .free size :: r)) :
    t.occupancy.IsGap (Run.total l) size := by
  have hfirst := h.spells.first_eq
  rw [Nat.zero_add] at hfirst
  exact h.isGap_of_freeSize? (freeSize?_eq_some.2 hfirst)

/-- The gap behind a run is the free run that the layout goes on with. -/
theorem LaidOut.gap_behind (h : t.LaidOut (l ++ run :: r)) :
    (∀ size, t.occupancy.IsGap (Run.total l + run.length) size → size = Run.freeStart r) ∧
      (0 < Run.freeStart r → t.occupancy.IsGap (Run.total l + run.length) (Run.freeStart r)) := by
  have hcons : l ++ run :: r = (l ++ [run]) ++ r := by simp
  have htotal : Run.total (l ++ [run]) = Run.total l + run.length := by simp
  have hgap {size : Nat} : t.occupancy.IsGap (Run.total l + run.length) size ↔
      t.freeSize? (Run.total l + run.length) = some size := h.isGap_iff
  rw [hcons] at h
  have hbehind := freeSize?_behind h
  rw [htotal] at hbehind
  constructor
  · intro size g
    rw [hgap.1 g] at hbehind
    exact hbehind
  · intro hpos
    refine hgap.2 ?_
    cases hs : t.freeSize? (Run.total l + run.length) with
    | none =>
      rw [hs, Option.getD_none] at hbehind
      omega
    | some size =>
      rw [hs, Option.getD_some] at hbehind
      rw [hbehind]

/-! ## The steps -/

theorem LaidOut.carried_append (h : t.LaidOut runs) {count : Nat} (hpos : 0 < count)
    (hfit : t.size + count ≤ maxEntries) : t.Carried (.append count) := by
  obtain ⟨t', he, hl, hu⟩ := append?_eq h hpos hfit
  have hsize : t'.size = t.size + count := by
    rw [← hl.size_eq, total_join, h.size_eq, Run.total_nil, Nat.add_zero]
  have ho := occupancy_eq hsize hu
  have hgap := hl.isGap_of_free
  have htrim := Run.total_trimEnd runs
  have hold := h.size_eq
  refine ⟨_, t', by rw [TableStep.run?, he]; rfl, ⟨_, hl⟩, ?_⟩
  rw [ho] at hgap ⊢
  exact .appended hgap ⟨by rw [size_occupancy]; omega, by rw [size_occupancy]; omega⟩

theorem LaidOut.carried_claim (h : t.LaidOut runs) {count : Nat} (hpos : 0 < count) :
    t.Carried (.claim count) := by
  rcases claim?_eq h hpos with ⟨he, hshort⟩ | ⟨l, size, r, t', rfl, hle, -, he, hl, hu⟩
  · refine ⟨_, t, by rw [TableStep.run?, he]; rfl, ⟨_, h⟩, .notClaimed fun head size g => ?_⟩
    exact hshort head size (h.isGap_iff.1 g)
  · have hrest := Run.total_rest hle r
    have h₁ := h.size_eq
    have h₂ := hl.size_eq
    simp only [Run.total_append, Run.total_cons, Run.length] at h₁ h₂
    have ho := occupancy_put_busy (by omega) hpos hu fun b hlo hhi => by
      have := h.busyRun?_eq (i := b - Run.total l) (by rw [Run.length]; omega)
      rw [show Run.total l + (b - Run.total l) = b by omega, if_neg (by omega)] at this
      exact this
    refine ⟨_, t', by rw [TableStep.run?, he]; rfl, ⟨_, hl⟩, ?_⟩
    rw [ho]
    exact .claimed h.isGap_of_free hle

theorem LaidOut.carried_giveBack (h : t.LaidOut runs) {start count : Nat}
    (hs : t.occupancy.lengthAt? start = some count) : t.Carried (.giveBack start count) := by
  obtain ⟨run, hb, rfl⟩ := lengthAt?_eq_some.1 hs
  obtain ⟨l, r, rfl, rfl, hf⟩ := h.locate_busyRun hb
  obtain ⟨t', he, hl, hsize, hu⟩ := h.giveBack?_eq hf
  have hpos := h.spells.length_pos (r := run) (by simp)
  have ho : t'.occupancy = t.occupancy.put (Run.total l) none := by
    refine occupancy_put hsize ?_ fun b hne => ?_
    · exact busyRun?_of_clear (by rw [hu, if_pos (by omega)])
    · by_cases hin : Run.total l ≤ b ∧ b < Run.total l + run.length
      · have hinner := h.busyRun?_eq (i := b - Run.total l) (by omega)
        rw [show Run.total l + (b - Run.total l) = b by omega, if_neg (by omega)] at hinner
        rw [hinner, busyRun?_of_clear (by rw [hu, if_pos hin])]
      · exact busyRun?_congr (by rw [hu, if_neg hin])
  have hgap := hl.isGap_of_free
  have htrim := Run.total_trimEnd l
  refine ⟨_, t', by rw [TableStep.run?, he]; rfl, ⟨_, hl⟩, ?_⟩
  rw [ho] at hgap ⊢
  exact .givenBack hgap ⟨by omega, by omega⟩

theorem LaidOut.carried_cutTail (h : t.LaidOut runs) (count : Nat) :
    t.Carried (.cutTail count) := by
  have hend (clear : Nat) (hc : t.occupancy.EndsClear clear) : clear = Run.freeEnd runs :=
    h.endsClear.unique hc
  by_cases hz : count = 0
  · subst hz
    exact ⟨_, t, rfl, ⟨_, h⟩, .tailCut fun clear _ => Nat.zero_le clear⟩
  by_cases hfit : count ≤ Run.freeEnd runs
  · obtain ⟨t', he, hl, hsize, hu⟩ := cutTail?_eq h (by omega) hfit
    refine ⟨_, t', by rw [TableStep.run?, he]; rfl, ⟨_, hl⟩, ?_⟩
    have hcut : t'.size = t.occupancy.size - count := by
      rw [size_occupancy]
      omega
    rw [occupancy_eq hcut hu]
    exact .tailCut fun clear hc => by rw [hend clear hc]; exact hfit
  · refine ⟨.granted false, t, ?_, ⟨_, h⟩, .tailNotCut fun clear hc => ?_⟩
    · rw [TableStep.run?, cutTail?, if_neg hz, freeAtEnd?_eq h, Option.bind_eq_bind,
        Option.bind_some, if_pos (by omega)]
      rfl
    · rw [hend clear hc]
      omega

theorem LaidOut.carried_lengthen (h : t.LaidOut runs) {head length want : Nat}
    (hs : t.occupancy.lengthAt? head = some length) (hlt : length < want) :
    t.Carried (.lengthen head length want) := by
  obtain ⟨run, hb, rfl⟩ := lengthAt?_eq_some.1 hs
  obtain ⟨l, r, rfl, rfl, hf⟩ := h.locate_busyRun hb
  obtain ⟨honly, hgap⟩ := h.gap_behind
  rcases lengthen?_eq h hf (Nat.le_of_lt hlt) (.inl hlt) with
    ⟨he, hshort⟩ | ⟨t', he, hle, hl, hu⟩
  · refine ⟨_, t, by rw [TableStep.run?, he]; rfl, ⟨_, h⟩, .notLengthened fun size g => ?_⟩
    rw [honly size g]
    exact hshort
  · have hrest := Run.total_rest hle (Run.trimStart r)
    have htrim := Run.total_trimStart r
    have h₁ := h.size_eq
    have h₂ := hl.size_eq
    simp only [Run.total_append, Run.total_cons] at h₁ h₂
    rw [Run.length] at h₂
    have hg := hgap (by omega)
    have ho := occupancy_put_busy (by omega) (by omega) hu fun b hlo hhi => by
      by_cases hin : b < Run.total l + run.length
      · have := h.busyRun?_eq (i := b - Run.total l) (by omega)
        rw [show Run.total l + (b - Run.total l) = b by omega, if_neg (by omega)] at this
        exact this
      · -- behind the run there were free blocks
        refine busyRun?_of_clear (Decidable.byContradiction fun hne => ?_)
        exact hg.clear b (by omega) (by omega) (h.toTiled.covers_iff.2 hne)
    refine ⟨_, t', by rw [TableStep.run?, he]; rfl, ⟨_, hl⟩, ?_⟩
    rw [ho]
    exact .lengthened hg hle

theorem LaidOut.carried_shorten (h : t.LaidOut runs) {head length want : Nat}
    (hs : t.occupancy.lengthAt? head = some length) (hpos : 0 < want) (hlt : want < length) :
    t.Carried (.shorten head length want) := by
  obtain ⟨run, hb, rfl⟩ := lengthAt?_eq_some.1 hs
  obtain ⟨l, r, rfl, rfl, hf⟩ := h.locate_busyRun hb
  cases run with
  | free size => cases hf
  | cut log2 nfree =>
    rw [Run.length] at hlt
    omega
  | busy length =>
    rw [Run.length] at hlt ⊢
    obtain ⟨t', he, hl, hu⟩ := shorten?_eq h hpos hlt
    have h₁ := h.size_eq
    have h₂ := hl.size_eq
    rw [total_join] at h₂
    simp only [Run.total_append, Run.total_cons, Run.total_nil, Run.length] at h₁ h₂
    have ho : t'.occupancy = t.occupancy.put (Run.total l) (some (.busy want)) := by
      refine occupancy_put (by omega) ?_ fun b hne => ?_
      · rw [busyRun?_eq_inUse, hu, if_pos rfl]
        rfl
      · by_cases hin : Run.total l + want ≤ b ∧ b < Run.total l + length
        · have hinner := h.busyRun?_eq (i := b - Run.total l) (by rw [Run.length]; omega)
          rw [show Run.total l + (b - Run.total l) = b by omega, if_neg (by omega)] at hinner
          rw [hinner, busyRun?_of_clear (by rw [hu, if_neg hne, if_pos hin])]
        · exact busyRun?_congr (by rw [hu, if_neg hne, if_neg hin])
    refine ⟨_, t', by rw [TableStep.run?, he]; rfl, ⟨_, hl⟩, ?_⟩
    rw [ho]
    exact .shortened

theorem LaidOut.carried_cut (h : t.LaidOut runs) {block : Nat} (log2 nfree : Nat)
    (hs : t.occupancy.lengthAt? block = some 1) : t.Carried (.cut block log2 nfree) := by
  obtain ⟨run, hb, hlen⟩ := lengthAt?_eq_some.1 hs
  obtain ⟨l, r, rfl, rfl, hf⟩ := h.locate_busyRun hb
  obtain ⟨t', he, hl, hu⟩ := setBusy?_eq log2 nfree h hlen hf
  have hsize : t'.size = t.size := by
    have h₁ := h.size_eq
    have h₂ := hl.size_eq
    simp only [Run.total_append, Run.total_cons] at h₁ h₂
    rw [Run.length] at h₂
    omega
  have ho : t'.occupancy = t.occupancy.put (Run.total l) (some (.cut log2 nfree)) := by
    refine occupancy_put hsize ?_ fun b hne => busyRun?_congr (by rw [hu, if_neg hne])
    rw [busyRun?_eq_inUse, hu, if_pos rfl]
    rfl
  refine ⟨_, t', by rw [TableStep.run?, he]; rfl, ⟨_, hl⟩, ?_⟩
  rw [ho]
  exact .cut

theorem LaidOut.carried_rebuild (h : t.LaidOut runs) : t.Carried .rebuild := by
  obtain ⟨t', he, hl, hbare⟩ := ofEntries?_of_tiled (tiled_entries h.toTiled) h.apart
  have hsize : t'.size = t.size := hl.size_eq.symm.trans h.size_eq
  refine ⟨_, t', by rw [TableStep.run?, he]; rfl, ⟨_, hl⟩, ?_⟩
  rw [occupancy_eq hsize fun b => inUse?_congr (hbare b)]
  exact .rebuilt

/-- Every step that fits is carried out, unless the table would become too long. -/
theorem LaidOut.carried (h : t.LaidOut runs) {step : TableStep} (hs : step.Fits t.occupancy) :
    t.Carried step ∨ step.Overfills t.size ∧ step.run? t = none := by
  cases step with
  | append count =>
    by_cases hmax : maxEntries < t.size + count
    · exact .inr ⟨hmax, by rw [TableStep.run?, append?, if_pos hmax]; rfl⟩
    · exact .inl (h.carried_append hs (by omega))
  | claim count => exact .inl (h.carried_claim hs)
  | giveBack start count => exact .inl (h.carried_giveBack hs)
  | cutTail count => exact .inl (h.carried_cutTail count)
  | lengthen head length want => exact .inl (h.carried_lengthen hs.1 hs.2)
  | shorten head length want => exact .inl (h.carried_shorten hs.1 hs.2.1 hs.2.2)
  | cut block log2 nfree => exact .inl (h.carried_cut log2 nfree hs)
  | rebuild => exact .inl h.carried_rebuild

/-! ## Tables that steps lead to -/

theorem Made.laidOut (m : Made t) : ∃ runs, t.LaidOut runs := by
  induction m with
  | empty => exact ⟨[], laidOut_empty⟩
  | step made fits run ih =>
    obtain ⟨runs, h⟩ := ih
    rcases h.carried fits with ⟨answer, t', he, hl, -⟩ | ⟨-, hnone⟩
    · rw [run] at he
      cases he
      exact hl
    · rw [run] at hnone
      cases hnone

theorem Made.after? (m : Made t) {steps : List TableStep} (h : t.after? steps = some t') :
    Made t' := by
  induction steps generalizing t with
  | nil =>
    cases h
    exact m
  | cons step rest ih =>
    rw [BlockTable.after?] at h
    split at h
    · rename_i fits
      obtain ⟨⟨answer, t₁⟩, hrun, hrest⟩ := Option.bind_eq_some_iff.1 h
      exact ih (.step m fits hrun) hrest
    · cases h

end BlockTable

end RegionHeap
