import MentorAllocation.Reliability.Retention

namespace Reliability
open Data Sorting

namespace RetentionEnforcer
variable {E : RetentionEnforcer} {now : ℚ} {disk : Disk}

def old (E : RetentionEnforcer) (item : Item) : Bool := E.config.ageDays < item.ageDays

def Disjoint (E : RetentionEnforcer) : Prop :=
  ∀ path, E.artifactsRoot.under path = true → E.backupsRoot.under path = false

def watches (E : RetentionEnforcer) (path : Path) : Bool :=
  E.artifactsRoot.under path || E.backupsRoot.under path

def bytes (E : RetentionEnforcer) (disk : Disk) : Nat :=
  totalSize (fun file => file.2.size) (E.iterFiles disk)

def without (disk : Disk) (deleted : List Path) : Disk := disk.filterKeys (· ∉ deleted)

theorem mem_iterFiles {file : Path × FileStat} :
    file ∈ E.iterFiles disk ↔ disk.get? file.1 = some file.2 ∧ E.watches file.1 = true := by
  simp only [iterFiles, List.mem_flatMap, List.mem_filter, watches, Bool.or_eq_true,
    ← Dict.mem_entries]
  simp only [List.mem_cons, List.not_mem_nil, or_false, exists_eq_or_imp, exists_eq_left]
  tauto

theorem nodup_iterFiles (h : E.Disjoint) (disk : Disk) :
    ((E.iterFiles disk).map Prod.fst).Nodup := by
  simp only [iterFiles, List.flatMap_cons, List.flatMap_nil, List.append_nil, List.map_append]
  refine List.nodup_append.mpr ⟨?_, ?_, ?_⟩
  · exact (List.filter_sublist.map Prod.fst).nodup disk.nodup
  · exact (List.filter_sublist.map Prod.fst).nodup disk.nodup
  · intro path hfirst other hsecond hsame
    obtain ⟨file, hfile, rfl⟩ := List.mem_map.mp hfirst
    obtain ⟨file', hfile', hpath⟩ := List.mem_map.mp hsecond
    have hunder := (List.mem_filter.mp hfile').2
    rw [hpath, ← hsame, h file.1 (List.mem_filter.mp hfile).2] at hunder
    cases hunder

theorem iterFiles_without (disk : Disk) (deleted : List Path) :
    E.iterFiles (without disk deleted) =
      (E.iterFiles disk).filter fun file => decide (file.1 ∉ deleted) := by
  simp only [iterFiles, without, Dict.filterKeys, List.flatMap_cons, List.flatMap_nil,
    List.append_nil, List.filter_append, List.filter_filter, Bool.and_comm]

/-- What the first loop makes of the items. -/
theorem agePass_eq (files : List Item) (totalBytes : Int) :
    E.agePass files totalBytes =
      ((files.filter E.old).map (finding .age), files.filter fun item => !E.old item,
        totalBytes - totalSize Item.size (files.filter E.old)) := by
  induction files generalizing totalBytes with
  | nil => simp [agePass, totalSize]
  | cons item files ih =>
    rw [agePass]
    split
    · next hold =>
      have hold : E.old item = true := decide_eq_true hold
      rw [ih]
      simp [hold, totalSize_cons, Int.sub_sub]
    · next hyoung =>
      have hyoung : E.old item = false := decide_eq_false hyoung
      rw [ih]
      simp [hyoung]

theorem sizePass_eq (files : List Item) (totalBytes : Int) :
    E.sizePass files totalBytes =
      (shed Item.size E.config.maxTotalBytes totalBytes files).map (finding .size) := by
  induction files generalizing totalBytes with
  | nil => rfl
  | cons item files ih =>
    rw [sizePass, shed]
    split
    · rfl
    · rw [List.map_cons, ih]

/-- The items that are not too old, the largest first. -/
def bySize (E : RetentionEnforcer) (now : ℚ) (disk : Disk) : List Item :=
  sortedBy (fun item => OrderDual.toDual item.size)
    ((sortedBy Item.mtime (E.items now disk)).filter fun item => !E.old item)

/-- The items that are given up for their age and for their size. -/
def aged (E : RetentionEnforcer) (now : ℚ) (disk : Disk) : List Item :=
  (sortedBy Item.mtime (E.items now disk)).filter E.old

def surplus (E : RetentionEnforcer) (now : ℚ) (disk : Disk) : List Item :=
  shed Item.size E.config.maxTotalBytes (totalSize Item.size (E.bySize now disk))
    (E.bySize now disk)

theorem evaluate_eq (now : ℚ) (disk : Disk) :
    E.evaluate now disk =
      (E.aged now disk).map (finding .age) ++ (E.surplus now disk).map (finding .size) := by
  have hleft : ((((sortedBy Item.mtime (E.items now disk)).map Item.size).sum : Nat) : Int) -
      totalSize Item.size (E.aged now disk) = totalSize Item.size (E.bySize now disk) := by
    have hparts := @totalSize_filter _ Item.size E.old (sortedBy Item.mtime (E.items now disk))
    have hsame : totalSize Item.size (E.bySize now disk) = totalSize Item.size _ :=
      totalSize_perm (sortedBy_perm _ _)
    rw [hsame]
    unfold totalSize aged at *
    omega
  unfold evaluate
  simp only [agePass_eq, sizePass_eq]
  change (if (E.config.maxTotalBytes : Int) < _ - (totalSize Item.size (E.aged now disk) : Int) then
    (E.aged now disk).map (finding .age) ++ (shed Item.size E.config.maxTotalBytes
      (_ - (totalSize Item.size (E.aged now disk) : Int)) (E.bySize now disk)).map (finding .size)
    else (E.aged now disk).map (finding .age)) = _
  rw [hleft]
  split
  · rfl
  · next hfits => rw [surplus, shed_of_le (not_lt.mp hfits), List.map_nil, List.append_nil]

/-- Deletions that all succeed leave the files that are not named. -/
theorem enforce_ok (hdelete : ∀ path, E.refuses path = none) (findings : List RetentionFinding)
    (disk : Disk) :
    E.enforce findings disk =
      (.ok findings, without disk (findings.map RetentionFinding.path)) := by
  induction findings generalizing disk with
  | nil =>
    rw [enforce, without]
    simp [Dict.filterKeys]
  | cons finding findings ih =>
    rw [enforce, hdelete]
    simp only [ih, without, Dict.filterKeys, List.filter_filter, List.map_cons, Except.map]
    refine Prod.ext rfl ?_
    rw [Dict.mk.injEq]
    refine List.filter_congr fun file _ => ?_
    by_cases hfile : file.1 = finding.path
    · simp [hfile]
    · simp [hfile, beq_eq_false_iff_ne.mpr hfile, bne]

theorem run_ok (hdelete : ∀ path, E.refuses path = none) (now : ℚ) (disk : Disk) :
    E.run true now disk =
      (.ok
        { dryRun := (E.evaluate now disk).map findingToDict
          enforced := (E.evaluate now disk).map findingToDict },
        without disk ((E.evaluate now disk).map RetentionFinding.path)) := by
  rw [run, if_pos rfl, enforce_ok hdelete]
  rfl

theorem items_perm (now : ℚ) (disk : Disk) :
    (E.items now disk).Perm (E.aged now disk ++ E.bySize now disk) := by
  refine (sortedBy_perm Item.mtime _).symm.trans ?_
  refine (List.filter_append_perm E.old _).symm.trans ?_
  exact List.Perm.append_left _ (sortedBy_perm _ _).symm

theorem bytes_eq (now : ℚ) (disk : Disk) :
    E.bytes disk = totalSize Item.size (E.items now disk) := by
  rw [bytes, totalSize, totalSize, items, List.map_map]
  rfl

/-- What is below the roots when the items `gone` are deleted. -/
theorem items_without (hroots : E.Disjoint) {gone kept : List Item}
    (h : (E.items now disk).Perm (gone ++ kept)) :
    (E.items now (without disk (gone.map Item.path))).Perm kept := by
  have hnodup : ((E.items now disk).map Item.path).Nodup := by
    rw [items, List.map_map]
    exact nodup_iterFiles hroots disk
  have hitems : E.items now (without disk (gone.map Item.path)) =
      (E.items now disk).filter fun item => decide (item.path ∉ gone.map Item.path) := by
    rw [items, iterFiles_without, items, List.filter_map]
    rfl
  rw [hitems]
  exact perm_of_removed h hnodup

/-- What a finding says of the file it names. -/
theorem mem_items {item : Item} : item ∈ E.items now disk ↔
    ∃ stat, disk.get? item.path = some stat ∧ E.watches item.path = true ∧
      RetentionEnforcer.item now (item.path, stat) = item := by
  simp only [items, List.mem_map, mem_iterFiles, Prod.exists]
  constructor
  · rintro ⟨path, stat, ⟨hget, hwatch⟩, rfl⟩
    exact ⟨stat, hget, hwatch, rfl⟩
  · rintro ⟨stat, hget, hwatch, hitem⟩
    exact ⟨item.path, stat, ⟨hget, hwatch⟩, hitem⟩

theorem map_path_finding (reason : Reason) (files : List Item) :
    (files.map (finding reason)).map RetentionFinding.path = files.map Item.path := by
  rw [List.map_map]
  rfl

theorem evaluate_paths (now : ℚ) (disk : Disk) :
    (E.evaluate now disk).map RetentionFinding.path =
      (E.aged now disk ++ E.surplus now disk).map Item.path := by
  rw [evaluate_eq, List.map_append, map_path_finding, map_path_finding, List.map_append]

/-- Where a finding stands: among those of age, or after all of them. -/
theorem evaluate_split {before rest : List RetentionFinding} {f : RetentionFinding}
    (h : E.evaluate now disk = before ++ f :: rest) :
    (∃ item ∈ E.aged now disk, finding .age item = f) ∨
      ∃ front item tail, E.surplus now disk = front ++ item :: tail ∧ finding .size item = f ∧
        before.map RetentionFinding.path = (E.aged now disk ++ front).map Item.path := by
  rw [evaluate_eq, List.append_eq_append_iff] at h
  have hsize : ∀ x, before = (E.aged now disk).map (finding .age) ++ x →
      (E.surplus now disk).map (finding .size) = x ++ f :: rest →
      ∃ front item tail, E.surplus now disk = front ++ item :: tail ∧ finding .size item = f ∧
        before.map RetentionFinding.path = (E.aged now disk ++ front).map Item.path := by
    intro x hbefore hshed
    obtain ⟨front, more, hsplit, rfl, hmore⟩ := List.map_eq_append_iff.mp hshed
    obtain ⟨item, tail, rfl, hitem, -⟩ := List.map_eq_cons_iff.mp hmore
    refine ⟨front, item, tail, hsplit, hitem, ?_⟩
    rw [hbefore, List.map_append, map_path_finding, map_path_finding, List.map_append]
  rcases h with ⟨x, hbefore, hshed⟩ | ⟨x, haged, hrest⟩
  · exact .inr (hsize x hbefore hshed)
  · cases x with
    | nil =>
      rw [List.append_nil] at haged
      exact .inr (hsize [] (by rw [haged, List.append_nil]) hrest.symm)
    | cons g x =>
      obtain ⟨rfl, -⟩ := List.cons.inj hrest
      have hmem : f ∈ (E.aged now disk).map (finding .age) := by
        rw [haged]
        exact List.mem_append_right _ List.mem_cons_self
      obtain ⟨item, hitem, rfl⟩ := List.mem_map.mp hmem
      exact .inl ⟨item, hitem, rfl⟩

/-- What may be said of one finding among those that come before it. -/
structure Justified (E : RetentionEnforcer) (now : ℚ) (disk after : Disk)
    (before : List RetentionFinding) (finding : RetentionFinding) : Prop where
  watched : E.watches finding.path = true
  found : ∃ stat, disk.get? finding.path = some stat ∧ finding.sizeBytes = stat.size ∧
    finding.ageDays = Reliability.ageDays now stat.mtime
  reason : (finding.reason = .age ∧ E.config.ageDays < finding.ageDays) ∨
    (finding.reason = .size ∧
      E.config.maxTotalBytes < E.bytes (without disk (before.map RetentionFinding.path)) ∧
      ∀ path stat, after.get? path = some stat → E.watches path = true →
        stat.size ≤ finding.sizeBytes)

theorem found_of_mem {item : Item} (h : item ∈ E.items now disk) :
    ∃ stat, disk.get? item.path = some stat ∧ item.size = stat.size ∧
      item.ageDays = Reliability.ageDays now stat.mtime := by
  obtain ⟨stat, hget, -, hitem⟩ := mem_items.mp h
  exact ⟨stat, hget, hitem ▸ rfl, hitem ▸ rfl⟩

/-- Retention of the files below two roots that have none in common, when every deletion
succeeds: what is too old goes, then the largest files, as long as there are too many bytes,
and nothing else. -/
theorem retention_exact (hroots : E.Disjoint) (hdelete : ∀ path, E.refuses path = none)
    (now : ℚ) (disk : Disk) : ∃ report after,
    E.run true now disk = (.ok report, after) ∧
    report.enforced = (E.evaluate now disk).map findingToDict ∧
    (∀ path, after.get? path =
      if path ∈ (E.evaluate now disk).map RetentionFinding.path then none else disk.get? path) ∧
    (∀ path stat, after.get? path = some stat → E.watches path = true →
      Reliability.ageDays now stat.mtime ≤ E.config.ageDays) ∧
    E.bytes after ≤ E.config.maxTotalBytes ∧
    ∀ before finding rest, E.evaluate now disk = before ++ finding :: rest →
      E.Justified now disk after before finding := by
  obtain ⟨kept, hkept, hfits⟩ := shed_spec Item.size E.config.maxTotalBytes
    (totalSize Item.size (E.bySize now disk)) (E.bySize now disk)
  change E.bySize now disk = E.surplus now disk ++ kept at hkept
  change kept ≠ [] → (_ : Int) - totalSize Item.size (E.surplus now disk) ≤ _ at hfits
  have hall := items_perm (E := E) now disk
  have hleft : (E.items now (without disk ((E.evaluate now disk).map
      RetentionFinding.path))).Perm kept := by
    rw [evaluate_paths]
    refine items_without hroots (hall.trans ?_)
    rw [hkept, List.append_assoc]
  have hremaining : ∀ path stat,
      (without disk ((E.evaluate now disk).map RetentionFinding.path)).get? path = some stat →
      E.watches path = true → item now (path, stat) ∈ kept := fun path stat hget hwatch =>
    hleft.mem_iff.mp (mem_items.mpr ⟨stat, hget, hwatch, rfl⟩)
  refine ⟨_, _, run_ok hdelete now disk, rfl, ?_, ?_, ?_, ?_⟩
  · intro path
    rw [without, Dict.get?_filterKeys]
    split
    · next hpath => rw [if_neg (by simpa using hpath)]
    · next hpath => rw [if_pos (by simpa using hpath)]
  · intro path stat hget hwatch
    have hyoung : item now (path, stat) ∈ E.bySize now disk := by
      rw [hkept]
      exact List.mem_append_right _ (hremaining path stat hget hwatch)
    have hold := (List.mem_filter.mp ((sortedBy_perm _ _).mem_iff.mp hyoung)).2
    rw [Bool.not_eq_true', old, decide_eq_false_iff_not, not_lt] at hold
    exact hold
  · rw [bytes_eq now, totalSize_perm hleft]
    have htotal := congrArg (totalSize Item.size) hkept
    rw [totalSize_append] at htotal
    cases kept with
    | nil => exact Nat.zero_le _
    | cons item rest =>
      have := hfits (List.cons_ne_nil _ _)
      omega
  · intro before f rest hevaluate
    rcases evaluate_split hevaluate with
      ⟨item, haged, rfl⟩ | ⟨front, item, tail, hshed, rfl, hbefore⟩
    · have hitem := hall.mem_iff.mpr (List.mem_append_left _ haged)
      obtain ⟨stat, hget, hwatch, -⟩ := mem_items.mp hitem
      exact ⟨hwatch, found_of_mem hitem,
        .inl ⟨rfl, of_decide_eq_true (List.mem_filter.mp haged).2⟩⟩
    · have hsizes : E.bySize now disk = front ++ item :: (tail ++ kept) := by
        rw [hkept, hshed, List.append_assoc, List.cons_append]
      have hitem := hall.mem_iff.mpr (List.mem_append_right _ (hsizes ▸ List.mem_append_right _
        List.mem_cons_self))
      obtain ⟨stat, hget, hwatch, -⟩ := mem_items.mp hitem
      refine ⟨hwatch, found_of_mem hitem, .inr ⟨rfl, ?_, ?_⟩⟩
      · have hover := shed_needed (show shed Item.size _ _ _ = _ from hshed)
        have htotal := congrArg (totalSize Item.size) hsizes
        rw [totalSize_append] at htotal
        have hstill : (E.items now disk).Perm
            ((E.aged now disk ++ front) ++ item :: (tail ++ kept)) := by
          rw [List.append_assoc, ← hsizes]
          exact hall
        rw [hbefore, bytes_eq now, totalSize_perm (items_without hroots hstill)]
        omega
      · intro path stat hget hwatch
        have hsorted := sortedBy_pairwise (fun item => OrderDual.toDual item.size)
          ((sortedBy Item.mtime (E.items now disk)).filter fun item => !E.old item)
        change (E.bySize now disk).Pairwise _ at hsorted
        rw [hsizes, List.pairwise_append, List.pairwise_cons] at hsorted
        exact hsorted.2.1.1 _ (List.mem_append_right _ (hremaining path stat hget hwatch))

/-- An enforcer for `/artifacts` and `/backups` that keeps ten bytes for a week. -/
def weekly : RetentionEnforcer where
  artifactsRoot := ["artifacts"]
  backupsRoot := ["backups"]
  config := { ageDays := 7, maxTotalBytes := 10 }
  refuses := fun _ => none

theorem weekly_disjoint : weekly.Disjoint := by
  intro path hartifacts
  cases path with
  | nil => rfl
  | cons part path =>
    obtain ⟨⟨rest, hrest⟩, -⟩ : ["artifacts"] <+: part :: path ∧ _ := by
      simpa [weekly, Path.under] using hartifacts
    obtain ⟨rfl, -⟩ := List.cons.inj hrest
    rfl

/-- A file of last year, a large one and a small one. -/
def yearOfFiles : Disk :=
  Dict.ofList [(["artifacts", "old.csv"], ⟨0, 3⟩), (["artifacts", "large.csv"], ⟨31000000, 9⟩),
    (["backups", "small.zip"], ⟨31100000, 4⟩)]

theorem retention_exact_weekly : ∃ report after,
    weekly.run true 31104000 yearOfFiles = (.ok report, after) ∧ weekly.bytes after ≤ 10 := by
  obtain ⟨report, after, hrun, -, -, -, hbytes, -⟩ :=
    retention_exact weekly_disjoint (fun _ => rfl) 31104000 yearOfFiles
  exact ⟨report, after, hrun, hbytes⟩

end RetentionEnforcer

end Reliability
