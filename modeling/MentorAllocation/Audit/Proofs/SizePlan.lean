import MentorAllocation.Audit.Proofs.Months
import MentorAllocation.Data.Shedding

namespace Audit
open Data Sorting

def totalBytes (partitions : List PartitionInfo) : Int :=
  (partitions.map PartitionInfo.sizeBytes).sum

/-- The partitions that are left when those of some months are removed. -/
def without (partitions : List PartitionInfo) (months : List MonthKey) : List PartitionInfo :=
  partitions.filter fun partition => decide (partition.monthKey ∉ months)

/-- The months that a plan removes, and those it removes for one reason. -/
def months (plan : List RetentionPlanEntry) : List MonthKey := plan.map RetentionPlanEntry.monthKey

def monthsFor (reason : Reason) (plan : List RetentionPlanEntry) : List MonthKey :=
  months (plan.filter fun entry => entry.reason = reason)

namespace AuditArchiveConfig
variable (config : AuditArchiveConfig) (now : DateTime)

def old (partition : PartitionInfo) : Bool :=
  config.olderInDays now partition || config.olderInMonths now partition

def young (partition : PartitionInfo) : Bool := !config.old now partition

def byStart (partitions : List PartitionInfo) : List PartitionInfo :=
  sortedBy (fun partition => partition.start.instant) partitions

variable {config now} {partitions : List PartitionInfo} {findings : List RetentionPlanEntry}
  {p q : PartitionInfo} {limit total : Int}

theorem sameMonth_iff {a b : MonthKey} : sameMonth a b = true ↔ a = b ∧ a ≠ .nan := by
  rw [sameMonth, Bool.and_eq_true, beq_iff_eq, bne_iff_ne]

/-- Where a month equals itself, it is listed exactly if it is among the months. -/
theorem listed_iff (hself : p.monthKey ≠ .nan) :
    listed findings p = true ↔ p.monthKey ∈ months findings := by
  rw [listed, List.any_eq_true, months, List.mem_map]
  refine exists_congr fun item => and_congr_right fun _ => ?_
  rw [sameMonth_iff]
  exact ⟨And.left, fun h => ⟨h, h ▸ hself⟩⟩

/-- No two partitions have one month, and each month equals itself. -/
structure Distinct (partitions : List PartitionInfo) : Prop where
  nodup : (partitions.map PartitionInfo.monthKey).Nodup
  self : ∀ p ∈ partitions, p.monthKey ≠ .nan

theorem months_map_entry (reason : Reason) (l : List PartitionInfo) :
    months (l.map (PartitionInfo.entry reason)) = l.map PartitionInfo.monthKey := by
  rw [months, List.map_map]
  rfl

/-- An entry for one month does not list another. -/
theorem listed_append_entry (hne : q.monthKey ≠ p.monthKey) (reason : Reason) :
    listed (findings ++ [p.entry reason]) q = listed findings q := by
  have hother : sameMonth (p.entry reason).monthKey q.monthKey = false := by
    rw [Bool.eq_false_iff, ne_eq, sameMonth_iff]
    exact fun h => hne h.1.symm
  rw [listed, List.any_append, List.any_cons, List.any_nil, hother, Bool.or_false, Bool.or_false,
    listed]

theorem filter_listed_append_entry (hp : p.monthKey ∉ partitions.map PartitionInfo.monthKey)
    (reason : Reason) (g : PartitionInfo → Bool → Bool) :
    (partitions.filter fun q => g q (listed (findings ++ [p.entry reason]) q)) =
      partitions.filter fun q => g q (listed findings q) := by
  refine List.filter_congr fun q hq => ?_
  rw [listed_append_entry fun he => hp (he ▸ List.mem_map_of_mem hq)]

theorem monthPass_eq (hmonths : (partitions.map PartitionInfo.monthKey).Nodup) :
    config.monthPass now partitions findings = findings ++
      (partitions.filter fun p => config.olderInMonths now p && !listed findings p).map
        (PartitionInfo.entry .age) := by
  induction partitions generalizing findings with
  | nil => rw [monthPass, List.foldl_nil, List.filter_nil, List.map_nil, List.append_nil]
  | cons p rest ih =>
    obtain ⟨hp, hrest⟩ := List.nodup_cons.mp hmonths
    rw [monthPass, List.foldl_cons, ← monthPass, ih hrest, List.filter_cons]
    split
    · rw [filter_listed_append_entry hp .age fun q seen => config.olderInMonths now q && !seen,
        List.map_cons, List.append_assoc, List.singleton_append]
    · rfl

theorem sizePass_eq (hmonths : (partitions.map PartitionInfo.monthKey).Nodup)
    (hsizes : ∀ p ∈ partitions, 0 ≤ p.sizeBytes) :
    sizePass limit total partitions findings = findings ++
      ((shed (fun p => p.sizeBytes.toNat) limit total partitions).filter
        fun p => !listed findings p).map (PartitionInfo.entry .size) := by
  induction partitions generalizing total findings with
  | nil => rw [sizePass, shed, List.filter_nil, List.map_nil, List.append_nil]
  | cons p rest ih =>
    obtain ⟨hp, hrest⟩ := List.nodup_cons.mp hmonths
    obtain ⟨hsize, hsizes⟩ := List.forall_mem_cons.mp hsizes
    rw [sizePass, shed]
    split
    · rw [List.filter_nil, List.map_nil, List.append_nil]
    · rw [ih hrest hsizes, Int.toNat_of_nonneg hsize, List.filter_cons]
      cases hlisted : listed findings p with
      | true => simp
      | false =>
        have hshed : p.monthKey ∉ (shed (fun p => p.sizeBytes.toNat) limit
            (total - p.sizeBytes) rest).map PartitionInfo.monthKey := by
          obtain ⟨kept, hkept, -⟩ := shed_spec (fun p : PartitionInfo => p.sizeBytes.toNat) limit
            (total - p.sizeBytes) rest
          intro hmem
          rw [hkept, List.map_append] at hp
          exact hp (List.mem_append_left _ hmem)
        rw [if_neg Bool.false_ne_true, filter_listed_append_entry hshed .size fun _ seen => !seen,
          Bool.not_false, if_pos rfl, List.map_cons, List.append_assoc, List.singleton_append]

/-- Of distinct months a filtered one is that of a partition that passes. -/
theorem mem_months_filter (hmonths : (partitions.map PartitionInfo.monthKey).Nodup)
    (hp : p ∈ partitions) (test : PartitionInfo → Bool) :
    p.monthKey ∈ (partitions.filter test).map PartitionInfo.monthKey ↔ test p = true := by
  constructor
  · intro hmem
    obtain ⟨q, hq, hkey⟩ := List.mem_map.mp hmem
    obtain ⟨hq, htest⟩ := List.mem_filter.mp hq
    rwa [← List.inj_on_of_nodup_map hmonths hq hp hkey]
  · intro htest
    exact List.mem_map_of_mem (List.mem_filter.mpr ⟨hp, htest⟩)

theorem filter_or_perm {α : Type} (f g : α → Bool) (l : List α) :
    (l.filter f ++ l.filter fun a => g a && !f a).Perm (l.filter fun a => f a || g a) := by
  have h := List.filter_append_perm f (l.filter fun a => f a || g a)
  rw [List.filter_filter, List.filter_filter] at h
  have hfirst : (l.filter fun a => f a && (f a || g a)) = l.filter f :=
    List.filter_congr fun a _ => by cases f a <;> simp
  have hsecond : (l.filter fun a => !f a && (f a || g a)) = l.filter fun a => g a && !f a :=
    List.filter_congr fun a _ => by cases f a <;> simp
  rwa [hfirst, hsecond] at h

/-- What the two loops over the ages find: the partitions that are too old. -/
theorem agePasses_eq (config : AuditArchiveConfig) (now : DateTime)
    (hmonths : Distinct partitions) :
    ∃ aged : List PartitionInfo, aged.Perm (partitions.filter (config.old now)) ∧
      config.monthPass now partitions (config.dayPass now partitions) =
        aged.map (PartitionInfo.entry .age) := by
  refine ⟨_, filter_or_perm (config.olderInDays now) (config.olderInMonths now) partitions, ?_⟩
  have hlisted : (partitions.filter fun p => config.olderInMonths now p &&
      !listed (config.dayPass now partitions) p) =
      partitions.filter fun p => config.olderInMonths now p && !config.olderInDays now p := by
    refine List.filter_congr fun p hp => ?_
    congr 2
    rw [Bool.eq_iff_iff, listed_iff (hmonths.self p hp), dayPass, months_map_entry,
      mem_months_filter hmonths.nodup hp]
  rw [monthPass_eq hmonths.nodup, hlisted, List.map_append]
  rfl

def weight (partition : PartitionInfo) : Nat := partition.sizeBytes.toNat

theorem totalBytes_eq (hsizes : ∀ p ∈ partitions, 0 ≤ p.sizeBytes) :
    totalBytes partitions = totalSize weight partitions := by
  induction partitions with
  | nil => rfl
  | cons p rest ih =>
    obtain ⟨hsize, hsizes⟩ := List.forall_mem_cons.mp hsizes
    have := ih hsizes
    rw [totalSize_cons, totalBytes, List.map_cons, List.sum_cons, ← totalBytes, this, weight,
      Nat.cast_add, Int.toNat_of_nonneg hsize]

/-- The partitions that the loop over the sizes goes through. -/
def scanned (config : AuditArchiveConfig) (partitions : List PartitionInfo) : List PartitionInfo :=
  match config.retentionSizeBytes with
  | none => []
  | some limit => shed weight limit (totalBytes partitions) (byStart partitions)

theorem nodup_byStart (hmonths : (partitions.map PartitionInfo.monthKey).Nodup) :
    ((byStart partitions).map PartitionInfo.monthKey).Nodup :=
  ((sortedBy_perm _ _).map _).nodup_iff.mpr hmonths

theorem mem_byStart : p ∈ byStart partitions ↔ p ∈ partitions := (sortedBy_perm _ _).mem_iff

/-- The plan: what is too old, and what else the loop over the sizes goes through. -/
theorem plan_eq (config : AuditArchiveConfig) (now : DateTime)
    (hmonths : Distinct partitions)
    (hsizes : ∀ p ∈ partitions, 0 ≤ p.sizeBytes) :
    ∃ aged : List PartitionInfo, aged.Perm (partitions.filter (config.old now)) ∧
      config.plan now partitions = sortedBy (fun item => item.start.instant)
        (aged.map (PartitionInfo.entry .age) ++ ((config.scanned partitions).filter
          (config.young now)).map (PartitionInfo.entry .size)) := by
  obtain ⟨aged, haged, hpasses⟩ := agePasses_eq config now hmonths
  refine ⟨aged, haged, ?_⟩
  rw [plan, hpasses, scanned]
  cases config.retentionSizeBytes with
  | none => rw [List.filter_nil, List.map_nil, List.append_nil]
  | some limit =>
    dsimp only
    congr 1
    rw [← totalBytes, ← byStart, sizePass_eq (nodup_byStart hmonths.nodup)
      fun p hp => hsizes p (mem_byStart.mp hp)]
    congr 2
    refine List.filter_congr fun p hp => congrArg Bool.not ?_
    obtain ⟨kept, hkept, -⟩ := shed_spec weight limit (totalBytes partitions) (byStart partitions)
    have hmem : p ∈ partitions := by
      rw [← mem_byStart, hkept]
      exact List.mem_append_left _ hp
    rw [Bool.eq_iff_iff, listed_iff (hmonths.self p hmem), months_map_entry,
      (haged.map _).mem_iff, mem_months_filter hmonths.nodup hmem]

/-- The loop over the sizes leaves the newer partitions, and within the limit if it leaves any. -/
theorem scanned_spec (config : AuditArchiveConfig) (hsizes : ∀ p ∈ partitions, 0 ≤ p.sizeBytes) :
    ∃ kept, byStart partitions = config.scanned partitions ++ kept ∧
      ∀ limit ∈ config.retentionSizeBytes, kept ≠ [] → (totalSize weight kept : Int) ≤ limit := by
  rw [scanned]
  cases config.retentionSizeBytes with
  | none => exact ⟨byStart partitions, rfl, fun limit hlimit => by cases hlimit⟩
  | some limit =>
    obtain ⟨kept, hsplit, hkept⟩ :=
      shed_spec weight limit (totalBytes partitions) (byStart partitions)
    refine ⟨kept, hsplit, fun limit' hlimit hne => ?_⟩
    obtain rfl := Option.some.inj hlimit
    have hparts := @totalSize_append _ weight (shed weight limit (totalBytes partitions)
      (byStart partitions)) kept
    have hsorted : totalSize weight (byStart partitions) = totalSize weight partitions :=
      totalSize_perm (sortedBy_perm _ _)
    rw [← hsplit, hsorted] at hparts
    have htotal := totalBytes_eq hsizes
    have := hkept hne
    omega

theorem months_plan (config : AuditArchiveConfig) (now : DateTime)
    (hmonths : Distinct partitions)
    (hsizes : ∀ p ∈ partitions, 0 ≤ p.sizeBytes) :
    (months (config.plan now partitions)).Perm ((partitions.filter (config.old now) ++
      (config.scanned partitions).filter (config.young now)).map PartitionInfo.monthKey) := by
  obtain ⟨aged, haged, hplan⟩ := plan_eq config now hmonths hsizes
  rw [hplan, months, List.map_append]
  refine ((sortedBy_perm _ _).map _).trans ?_
  rw [List.map_append, ← months, ← months, months_map_entry, months_map_entry]
  exact (haged.map _).append_right _

/-- Sorting the plan leaves the entries of one reason in order. -/
theorem monthsFor_plan (config : AuditArchiveConfig) (now : DateTime)
    (hmonths : Distinct partitions)
    (hsizes : ∀ p ∈ partitions, 0 ≤ p.sizeBytes) :
    monthsFor .size (config.plan now partitions) =
        ((config.scanned partitions).filter (config.young now)).map PartitionInfo.monthKey ∧
      (monthsFor .age (config.plan now partitions)).Perm
        ((partitions.filter (config.old now)).map PartitionInfo.monthKey) := by
  obtain ⟨aged, haged, hplan⟩ := plan_eq config now hmonths hsizes
  obtain ⟨kept, hsplit, -⟩ := scanned_spec config hsizes
  have hsorted : (((config.scanned partitions).filter (config.young now)).map
      (PartitionInfo.entry .size)).Pairwise fun a b => a.start.instant ≤ b.start.instant := by
    have hall : (byStart partitions).Pairwise fun p q => p.start.instant ≤ q.start.instant :=
      sortedBy_pairwise _ _
    rw [hsplit] at hall
    exact List.pairwise_map.mpr ((List.pairwise_append.mp hall).1.sublist List.filter_sublist)
  have hreason : ∀ (reason other : Reason) (l : List PartitionInfo),
      (l.map (PartitionInfo.entry other)).filter (fun entry => decide (entry.reason = reason)) =
        if other = reason then l.map (PartitionInfo.entry other) else [] := by
    intro reason other l
    split
    · next hsame =>
      refine List.filter_eq_self.mpr fun entry hentry => ?_
      obtain ⟨p, -, rfl⟩ := List.mem_map.mp hentry
      exact decide_eq_true hsame
    · next hother =>
      refine List.filter_eq_nil_iff.mpr fun entry hentry => ?_
      obtain ⟨p, -, rfl⟩ := List.mem_map.mp hentry
      exact fun h => hother (of_decide_eq_true h)
  rw [hplan, monthsFor, monthsFor, sortedBy_filter, sortedBy_filter, List.filter_append,
    List.filter_append, hreason, hreason, hreason, hreason]
  constructor
  · rw [if_neg (by decide), if_pos rfl, List.nil_append, sortedBy_of_pairwise hsorted,
      months_map_entry]
  · rw [if_pos rfl, if_neg (by decide), List.append_nil]
    refine ((sortedBy_perm _ _).map _).trans ?_
    rw [← months, months_map_entry]
    exact haged.map _

/-- What the plan removes and what it leaves. -/
theorem partitions_perm (config : AuditArchiveConfig) (now : DateTime) {kept : List PartitionInfo}
    (hsplit : byStart partitions = config.scanned partitions ++ kept) :
    partitions.Perm ((partitions.filter (config.old now) ++
      (config.scanned partitions).filter (config.young now)) ++
        kept.filter (config.young now)) := by
  have hyoung : (partitions.filter (config.young now)).Perm
      ((config.scanned partitions).filter (config.young now) ++
        kept.filter (config.young now)) := by
    rw [← List.filter_append, ← hsplit]
    exact ((sortedBy_perm _ _).filter _).symm
  rw [List.append_assoc]
  exact (List.filter_append_perm (config.old now) partitions).symm.trans (hyoung.append_left _)

theorem nodup_plan (hmonths : Distinct partitions)
    (hsizes : ∀ p ∈ partitions, 0 ≤ p.sizeBytes) :
    (months (config.plan now partitions)).Nodup := by
  obtain ⟨kept, hsplit, -⟩ := scanned_spec config hsizes
  have hparts := ((partitions_perm config now hsplit).map PartitionInfo.monthKey).nodup
    hmonths.nodup
  rw [List.map_append] at hparts
  exact (months_plan config now hmonths hsizes).nodup_iff.mpr (List.nodup_append.mp hparts).1

/-- Partitions taken out by their months leave the others. -/
theorem without_perm (hmonths : (partitions.map PartitionInfo.monthKey).Nodup)
    {gone kept : List PartitionInfo} (hperm : partitions.Perm (gone ++ kept))
    {removed : List MonthKey}
    (hremoved : ∀ month, month ∈ removed ↔ month ∈ gone.map PartitionInfo.monthKey) :
    (without partitions removed).Perm kept := by
  refine (List.Perm.of_eq (List.filter_congr fun p _ => ?_)).trans (perm_of_removed hperm hmonths)
  exact decide_eq_decide.mpr (not_congr (hremoved p.monthKey))

theorem totalBytes_without (hsizes : ∀ p ∈ partitions, 0 ≤ p.sizeBytes)
    {kept : List PartitionInfo} {removed : List MonthKey}
    (hperm : (without partitions removed).Perm kept) :
    totalBytes (without partitions removed) = totalSize weight kept := by
  have hleft : ∀ p ∈ without partitions removed, 0 ≤ p.sizeBytes :=
    fun p hp => hsizes p (List.mem_of_mem_filter hp)
  rw [totalBytes_eq hleft, totalSize_perm hperm]

/-- After the plan the limit is kept, unless it is one that nothing keeps. -/
theorem sufficient_iff (hmonths : Distinct partitions)
    (hsizes : ∀ p ∈ partitions, 0 ≤ p.sizeBytes) (hlimit : config.retentionSizeBytes = some limit) :
    totalBytes (without partitions (months (config.plan now partitions))) ≤ limit ↔ 0 ≤ limit := by
  obtain ⟨kept, hsplit, hkept⟩ := scanned_spec config hsizes
  have hleft := without_perm hmonths.nodup (partitions_perm config now hsplit)
    (fun _ => (months_plan config now hmonths hsizes).mem_iff)
  have hfilter := @totalSize_filter _ weight (config.young now) kept
  rw [totalBytes_without hsizes hleft]
  by_cases hnil : kept = []
  · subst hnil
    rfl
  · have := hkept limit hlimit hnil
    omega

/-- What starts no later than a partition that is too old is too old itself. -/
theorem old_mono (horder : InCalendarOrder partitions) (hp : p ∈ partitions) (hq : q ∈ partitions)
    (hle : p.start.instant ≤ q.start.instant) (hold : config.old now q = true) :
    config.old now p = true := by
  have hmonth := horder p hp q hq hle
  have hdays : now.daysSince q.start ≤ now.daysSince p.start :=
    Int.ediv_le_ediv (by decide) (by omega)
  have hmonths : now.monthsSince q.start ≤ now.monthsSince p.start := by
    unfold DateTime.monthsSince
    omega
  rw [old, Bool.or_eq_true] at hold ⊢
  refine hold.imp (fun h => ?_) fun h => ?_
  · obtain ⟨days, hset, hlt⟩ := (Option.any_eq_true _ _).mp h
    exact (Option.any_eq_true _ _).mpr
      ⟨days, hset, decide_eq_true ((of_decide_eq_true hlt).trans_le hdays)⟩
  · obtain ⟨count, hset, hlt⟩ := (Option.any_eq_true _ _).mp h
    exact (Option.any_eq_true _ _).mpr
      ⟨count, hset, decide_eq_true ((of_decide_eq_true hlt).trans_le hmonths)⟩

theorem minimal (hmonths : Distinct partitions)
    (hsizes : ∀ p ∈ partitions, 0 ≤ p.sizeBytes) (horder : InCalendarOrder partitions)
    (hlimit : config.retentionSizeBytes = some limit) {front : List MonthKey} {month : MonthKey}
    (hlast : monthsFor .size (config.plan now partitions) = front ++ [month]) :
    limit < totalBytes (without partitions
      ((months (config.plan now partitions)).filter fun other => decide (other ≠ month))) := by
  obtain ⟨kept, hsplit, -⟩ := scanned_spec config hsizes
  have hstarts : (byStart partitions).Pairwise fun p q => p.start.instant ≤ q.start.instant :=
    sortedBy_pairwise _ _
  have hmem : ∀ p, p ∈ config.scanned partitions ∨ p ∈ kept → p ∈ partitions := by
    intro p hp
    rw [← mem_byStart, hsplit]
    exact List.mem_append.mpr hp
  rw [hsplit, List.pairwise_append] at hstarts
  obtain ⟨hscanned, -, hcross⟩ := hstarts
  -- the last partition that is planned for its size is the last one that was gone through
  rw [(monthsFor_plan config now hmonths hsizes).1] at hlast
  obtain ⟨planned, last, hyoung, hplanned, hlast⟩ := List.map_eq_append_iff.mp hlast
  obtain ⟨p, rfl, hpmonth⟩ := List.map_eq_singleton_iff.mp hlast
  obtain ⟨before, behind, hfront, hbefore, hbehind⟩ := List.filter_eq_append_iff.mp hyoung
  obtain ⟨aged, after, rfl, haged, hp, hafter⟩ := List.filter_eq_cons_iff.mp hbehind
  have hpmem : p ∈ config.scanned partitions := by simp [hfront]
  have hyounger : ∀ q ∈ partitions, p.start.instant ≤ q.start.instant →
      config.young now q = true := by
    intro q hq hle
    rw [young, Bool.not_eq_true'] at hp ⊢
    by_contra hold
    rw [old_mono horder (hmem p (.inl hpmem)) hq hle (by simpa using hold)] at hp
    cases hp
  have hnone : after = [] := by
    refine List.eq_nil_iff_forall_not_mem.mpr fun q hq => ?_
    rw [hfront, List.pairwise_append] at hscanned
    have hle := (List.pairwise_cons.mp (List.pairwise_append.mp hscanned.2.1).2.1).1 q hq
    have hqmem : q ∈ partitions := hmem q (.inl (by simp [hfront, hq]))
    exact List.filter_eq_nil_iff.mp hafter q hq (hyounger q hqmem hle)
  subst hnone
  have hkept : kept.filter (config.young now) = kept := List.filter_eq_self.mpr fun q hq =>
    hyounger q (hmem q (.inr hq)) (hcross p hpmem q hq)
  -- so it had to be gone through
  have hneeded : limit < totalBytes partitions - totalSize weight (before ++ aged) := by
    have hshed : shed weight limit (totalBytes partitions) (byStart partitions) =
        (before ++ aged) ++ p :: [] := by
      rw [List.append_assoc, ← hfront, scanned, hlimit]
    exact shed_needed hshed
  have htotal : totalBytes partitions = totalSize weight (before ++ aged) + (weight p +
      totalSize weight kept : Nat) := by
    have hsorted : totalSize weight (byStart partitions) = totalSize weight partitions :=
      totalSize_perm (sortedBy_perm _ _)
    rw [totalBytes_eq hsizes, ← hsorted, hsplit, hfront, totalSize_append, totalSize_append,
      totalSize_append, totalSize_append, totalSize_cons]
    push_cast
    simp only [totalSize, List.map_nil, List.sum_nil]
    omega
  have hperm : partitions.Perm ((partitions.filter (config.old now) ++ planned) ++ p :: kept) := by
    have h := partitions_perm config now hsplit
    rw [hyoung, hkept] at h
    simpa only [List.append_assoc, List.singleton_append] using h
  have hdistinct := (hperm.map PartitionInfo.monthKey).nodup hmonths.nodup
  have hremoved : ∀ other, other ∈ (months (config.plan now partitions)).filter
      (fun other => decide (other ≠ month)) ↔ other ∈
        (partitions.filter (config.old now) ++ planned).map PartitionInfo.monthKey := by
    intro other
    have hother := (months_plan config now hmonths hsizes).mem_iff (a := other)
    rw [hyoung] at hother
    rw [List.mem_filter, hother, decide_eq_true_eq]
    rw [List.map_append, List.map_cons, List.nodup_append] at hdistinct
    simp only [List.map_append, List.mem_append, List.map_cons, List.map_nil,
      List.mem_singleton, hpmonth] at hdistinct ⊢
    constructor
    · rintro ⟨h | h | h, hne⟩
      · exact .inl h
      · exact .inr h
      · exact absurd h hne
    · intro h
      refine ⟨h.imp_right .inl, ?_⟩
      rintro rfl
      exact hdistinct.2.2 other h other List.mem_cons_self rfl
  have hleft := without_perm hmonths.nodup hperm hremoved
  rw [totalBytes_without hsizes hleft, totalSize_cons]
  omega

/-- A plan removes no month twice and leaves at most the limit, if the limit is one that can be
kept; what it removes for its size are the oldest of the partitions that it does not remove for
their age, and it could spare none of them: leaving out the newest exceeds the limit. -/
theorem size_plan_exact (config : AuditArchiveConfig) (now : DateTime)
    (partitions : List PartitionInfo) (hmonths : Distinct partitions)
    (hsizes : ∀ p ∈ partitions, 0 ≤ p.sizeBytes) :
    let plan := config.plan now partitions
    (months plan).Nodup ∧
    (∃ k, monthsFor .size plan = (((byStart partitions).filter fun p =>
      decide (p.monthKey ∉ monthsFor .age plan)).take k).map PartitionInfo.monthKey) ∧
    ∀ limit, config.retentionSizeBytes = some limit →
      (totalBytes (without partitions (months plan)) ≤ limit ↔ 0 ≤ limit) ∧
      (InCalendarOrder partitions → ∀ front month, monthsFor .size plan = front ++ [month] →
        limit < totalBytes (without partitions
          ((months plan).filter fun other => decide (other ≠ month)))) := by
  refine ⟨nodup_plan hmonths hsizes, ?_, fun limit hlimit =>
    ⟨sufficient_iff hmonths hsizes hlimit, fun horder front month hlast =>
      minimal hmonths hsizes horder hlimit hlast⟩⟩
  obtain ⟨hsize, hage⟩ := monthsFor_plan config now hmonths hsizes
  obtain ⟨kept, hsplit, -⟩ := scanned_spec config hsizes
  have hyoung : ((byStart partitions).filter fun p =>
      decide (p.monthKey ∉ monthsFor .age (config.plan now partitions))) =
      (config.scanned partitions).filter (config.young now) ++ kept.filter (config.young now) := by
    rw [← List.filter_append, ← hsplit]
    refine List.filter_congr fun p hp => ?_
    rw [Bool.eq_iff_iff, decide_eq_true_eq, hage.mem_iff,
      mem_months_filter hmonths.nodup (mem_byStart.mp hp), young, Bool.not_eq_true',
      Bool.not_eq_true]
  exact ⟨((config.scanned partitions).filter (config.young now)).length, by
    rw [hsize, hyoung, List.take_left]⟩

def sampleConfig : AuditArchiveConfig where
  archiveRoot := ⟨false, ["archives"]⟩
  csvBom := true
  manifestSchemaVersion := 1
  toolVersion := "1.0.0"
  retentionAgeDays := some 400
  retentionAgeMonths := none
  retentionSizeBytes := some 35
  retryAttempts := 3

def samplePartitions : List PartitionInfo :=
  [⟨.text "2024_02", ⟨2024, 2, 1, 0, 12600000000⟩, ⟨2024, 3, 1, 0, 12600000000⟩, 20⟩,
   ⟨.text "2024_01", ⟨2024, 1, 1, 0, 12600000000⟩, ⟨2024, 2, 1, 0, 12600000000⟩, 10⟩,
   ⟨.text "2024_03", ⟨2024, 3, 1, 0, 12600000000⟩, ⟨2024, 4, 1, 0, 12600000000⟩, 30⟩]

def sampleNow : DateTime := ⟨2024, 3, 20, 30600000000, 12600000000⟩

theorem size_plan_exact_sample :
    months (sampleConfig.plan sampleNow samplePartitions) = [.text "2024_01", .text "2024_02"] ∧
      totalBytes (without samplePartitions
        (months (sampleConfig.plan sampleNow samplePartitions))) ≤ 35 ∧
      35 < totalBytes (without samplePartitions
        ((months (sampleConfig.plan sampleNow samplePartitions)).filter
          fun other => decide (other ≠ .text "2024_02"))) := by
  have h := (size_plan_exact sampleConfig sampleNow samplePartitions ⟨by decide, by decide⟩
    (by decide)).2.2 35 rfl
  have horder : InCalendarOrder samplePartitions := by
    unfold InCalendarOrder
    decide
  exact ⟨by decide +kernel, h.1.mpr (by decide),
    h.2 horder [.text "2024_01"] (.text "2024_02") (by decide +kernel)⟩

end AuditArchiveConfig

end Audit
