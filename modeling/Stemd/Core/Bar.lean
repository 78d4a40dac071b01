import Stemd.Core.Single

/-! The bar that a separation fills.

Each stage has its share of the bar, and within the share of separating a model, or one half of
two, has a span of its own. Whatever the chunks are, what is reported never takes the bar back. -/

set_option autoImplicit false

namespace Stemd.Core

open Stemd.Semantics Stemd.Mlx

def SinkEvent.report : SinkEvent → Option Progress
  | .update progress => some progress
  | _ => none

/-- All that is reported of a whole separation, by one model or by two that share the bar in one of
two ways, and whatever the chunks. -/
inductive Planned : List Progress → Prop where
  | single (total : Nat) : Planned ((MlxSeparator.plan total).filterMap SinkEvent.report)
  | halves {span : Nat} (share : span = units / 2 ∨ span = vocalsUnits) (first second : Nat) :
      Planned ((HybridSeparator.plan span first second).filterMap SinkEvent.report)

structure Rises (low high : ℚ) (reports : List Progress) : Prop where
  sorted : reports.Pairwise fun p q => p.fraction ≤ q.fraction
  inside : ∀ p ∈ reports, p.stage ≠ .queued ∧ low ≤ p.fraction ∧ p.fraction ≤ high

theorem Rises.append {low middle high : ℚ} {first second : List Progress} (least : low ≤ middle)
    (most : middle ≤ high) (before : Rises low middle first) (after : Rises middle high second) :
    Rises low high (first ++ second) := by
  refine ⟨List.pairwise_append.mpr ⟨before.sorted, after.sorted, fun p early q late => ?_⟩,
    fun p member => ?_⟩
  · exact (before.inside p early).2.2.trans (after.inside q late).2.1
  · rcases List.mem_append.mp member with early | late
    · have inside := before.inside p early
      exact ⟨inside.1, inside.2.1, inside.2.2.trans most⟩
    · have inside := after.inside p late
      exact ⟨inside.1, least.trans inside.2.1, inside.2.2⟩

theorem Rises.of_initial {low high : ℚ} {reports planned : List Progress}
    (rises : Rises low high planned) (part : reports <+: planned) : Rises low high reports :=
  ⟨rises.sorted.sublist part.sublist, fun p member => rises.inside p (part.subset member)⟩

theorem rises_singleton {low high : ℚ} {progress : Progress} (started : progress.stage ≠ .queued)
    (least : low ≤ progress.fraction) (most : progress.fraction ≤ high) :
    Rises low high [progress] :=
  ⟨List.pairwise_singleton .., fun _ member =>
    List.mem_singleton.mp member ▸ ⟨started, least, most⟩⟩

theorem rises_counts {low high : ℚ} {progress : Nat → Nat → Progress} (total : Nat)
    (started : ∀ done, (progress done total).stage ≠ .queued)
    (grows : ∀ done later, done ≤ later → later ≤ total →
      (progress done total).fraction ≤ (progress later total).fraction)
    (least : low ≤ (progress 0 total).fraction) (most : (progress total total).fraction ≤ high) :
    Rises low high ((List.range (total + 1)).map (progress · total)) := by
  refine ⟨?_, fun p member => ?_⟩
  · refine List.pairwise_map.mpr (List.pairwise_lt_range.imp_of_mem fun _ late before => ?_)
    exact grows _ _ before.le (Nat.le_of_lt_succ (List.mem_range.mp late))
  · obtain ⟨done, counted, rfl⟩ := List.mem_map.mp member
    have within := Nat.le_of_lt_succ (List.mem_range.mp counted)
    exact ⟨started done, least.trans (grows 0 done (Nat.zero_le _) within),
      (grows done total within (Nat.le_refl _)).trans most⟩

theorem halfPlan_reports (progress : Nat → Nat → Progress) (total : Nat) :
    (halfPlan progress total).filterMap SinkEvent.report =
      (List.range (total + 1)).map (progress · total) :=
  trackPlan_filterMap total rfl fun _ => rfl

def barAt (filled : Nat) : ℚ := 1 / 10 + filled / 1000 * (8 / 10)

theorem barAt_mono {filled more : Nat} (le : filled ≤ more) : barAt filled ≤ barAt more := by
  have : (filled : ℚ) ≤ more := by exact_mod_cast le
  unfold barAt
  linarith

theorem within_fraction {base span done total : Nat} (room : base + done * span / total ≤ units) :
    (within base span done total).fraction = barAt (base + done * span / total) := by
  have small : base + done * span / total < 2 ^ 32 := Nat.lt_of_le_of_lt room (by decide)
  have whole : (UInt32.ofNat units).toNat = 1000 := rfl
  rw [within, min_eq_left room, Progress.counted, if_neg (by decide), whole,
    UInt32.toNat_ofNat_of_lt' small, barAt]
  norm_num [stageFloor, stageCeiling]

theorem within_rises {base span : Nat} (room : base + span ≤ units) (total : Nat) :
    Rises (barAt base) (barAt (base + span))
      ((List.range (total + 1)).map (within base span · total)) := by
  -- A share of the span never leaves it, also when the total is zero.
  have share {done : Nat} (le : done ≤ total) : done * span / total ≤ span := by
    refine Nat.div_le_of_le_mul ?_
    exact Nat.mul_le_mul_right span le
  have fraction {done : Nat} (le : done ≤ total) :
      (within base span done total).fraction = barAt (base + done * span / total) :=
    within_fraction (Nat.le_trans (Nat.add_le_add_left (share le) base) room)
  refine rises_counts total (fun _ is => by cases is) (fun done later le inside => ?_) ?_ ?_
  · rw [fraction (le.trans inside), fraction inside]
    refine barAt_mono (Nat.add_le_add_left ?_ base)
    exact Nat.div_le_div_right (Nat.mul_le_mul_right span le)
  · rw [fraction (Nat.zero_le _)]
    exact barAt_mono (Nat.le_add_right _ _)
  · rw [fraction (Nat.le_refl _)]
    exact barAt_mono (Nat.add_le_add_left (share (Nat.le_refl _)) base)

theorem counted_mono (stage : Stage) {completed more : UInt32} (total : UInt32)
    (le : completed ≤ more) :
    (Progress.counted stage completed total).fraction ≤
      (Progress.counted stage more total).fraction := by
  have span := stageFloor_le_ceiling stage
  have fewer : (completed.toNat : ℚ) ≤ more.toNat := by
    exact_mod_cast UInt32.le_iff_toNat_le.mp le
  simp only [Progress.counted]
  split
  · exact le_refl _
  · gcongr

theorem report_rises (total : Nat) : Rises (1 / 10) (9 / 10)
    ((List.range (total + 1)).map (MlxSeparator.report · total)) := by
  -- Past what 32 bits hold the counts stand still, and so does the bar.
  have held (n : Nat) : (UInt32.ofNat (min n (2 ^ 32 - 1))).toNat = min n (2 ^ 32 - 1) :=
    UInt32.toNat_ofNat_of_lt' (Nat.lt_of_le_of_lt (Nat.min_le_right ..) (by decide))
  have saturate {done later : Nat} (le : done ≤ later) :
      UInt32.ofNat (min done (2 ^ 32 - 1)) ≤ UInt32.ofNat (min later (2 ^ 32 - 1)) := by
    rw [UInt32.le_iff_toNat_le, held, held]
    exact min_le_min_right _ le
  have inside {done : Nat} (le : done ≤ total) :=
    Progress.counted_fraction_mem .separating (saturate le)
  have floor : stageFloor .separating = 1 / 10 := by norm_num [stageFloor]
  have ceiling : stageCeiling .separating = 9 / 10 := by norm_num [stageCeiling]
  refine rises_counts total (fun _ is => by cases is) (fun done later le _ => ?_) ?_ ?_
  · exact counted_mono .separating _ (saturate le)
  · exact floor ▸ (inside (Nat.zero_le total)).1
  · exact ceiling ▸ (inside (Nat.le_refl total)).2

/-- Whatever is planned, the bar is never taken back, and stays short of what is to come. -/
theorem Planned.rises {reports : List Progress} (planned : Planned reports) :
    Rises (2 / 100) (90 / 100) reports := by
  have analysing : Rises (2 / 100) (1 / 10) [.new .analysing] :=
    rises_singleton (fun is => by cases is) (le_refl _) (by norm_num [Progress.new, stageFloor])
  have reconstructing : Rises (9 / 10) (90 / 100) [.new .reconstructing] :=
    rises_singleton (fun is => by cases is) (by norm_num [Progress.new, stageFloor]) (le_refl _)
  cases planned with
  | single total =>
      rw [MlxSeparator.plan, List.filterMap_append, List.filterMap_append, halfPlan_reports]
      exact analysing.append (by norm_num) (by norm_num)
        ((report_rises total).append (by norm_num) (by norm_num) reconstructing)
  | @halves span share first second =>
      have room : span ≤ units := by rcases share with rfl | rfl <;> decide
      have empty : barAt 0 = 1 / 10 := by norm_num [barAt]
      have full : barAt units = 9 / 10 := by norm_num [barAt, units]
      have alone : (within 0 0 0 1).fraction = barAt 0 := within_fraction (by decide)
      have last : (within units 0 0 1).fraction = barAt units := within_fraction (by decide)
      have start : Rises (1 / 10) (barAt 0) [within 0 0 0 1] :=
        rises_singleton (fun is => by cases is) (alone.symm ▸ empty.ge) alone.le
      have finish : Rises (barAt units) (9 / 10) [within units 0 0 1] :=
        rises_singleton (fun is => by cases is) last.ge (last.trans full).le
      have one : Rises (barAt 0) (barAt span) _ :=
        Nat.zero_add span ▸ within_rises (by omega) first
      have other : Rises (barAt span) (barAt units) _ :=
        Nat.add_sub_of_le room ▸ within_rises (by omega) second
      rw [HybridSeparator.plan, List.filterMap_append, List.filterMap_append,
        List.filterMap_append, halfPlan_reports, halfPlan_reports]
      have low : (2 / 100 : ℚ) ≤ barAt 0 := by norm_num [empty]
      have high {filled : Nat} (le : filled ≤ units) : barAt filled ≤ 90 / 100 :=
        (barAt_mono le).trans (by norm_num [full])
      exact (analysing.append (by norm_num) empty.ge start).append low (high (by decide))
        (one.append (barAt_mono (Nat.zero_le _)) (high room)
          (other.append (barAt_mono room) (high (le_refl _))
            (finish.append full.le (by norm_num) reconstructing)))

theorem MlxSeparator.reports_planned {K M : Type} [Field K] [LinearOrder K] [FloorRing K]
    {root : K → K} {separator : MlxSeparator K (AnyError M)} {raised : Nat → Bool} {mix : Audio K}
    {t : Nat} {stems : Stems K}
    (ended : (separator.tracedSeparate root raised mix t).1 = .ok stems) :
    Planned ((separator.tracedSeparate root raised mix t).2.filterMap SinkEvent.report) := by
  rw [(separator.tracedSeparate_follows root mix t).1 stems ended]
  exact .single _

theorem HybridSeparator.reports_planned {K M : Type} [Field K] [LinearOrder K] [FloorRing K]
    {root : K → K} {separator : HybridSeparator K (AnyError M)} {raised : Nat → Bool}
    {mix : Audio K} {t : Nat} {stems : Stems K}
    (ended : (separator.tracedSeparate root raised mix t).1 = .ok stems) :
    Planned ((separator.tracedSeparate root raised mix t).2.filterMap SinkEvent.report) := by
  obtain ⟨second, follows⟩ := separator.tracedSeparate_follows root mix t
  have share : separator.vocalsSpan = units / 2 ∨ separator.vocalsSpan = vocalsUnits := by
    unfold HybridSeparator.vocalsSpan
    split
    · exact .inl rfl
    · exact .inr rfl
  rw [follows.1 stems ended]
  exact .halves share _ second

end Stemd.Core
