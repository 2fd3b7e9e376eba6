import MentorAllocation.Audit.Proofs.Catalogue
import MentorAllocation.Audit.Proofs.Verify

namespace Audit
open Concurrency Data Effects Files Text

section
variable {A : AuditArchiver} {window : AuditArchiveWindow} {monthKey : String} {v₀ v : View}
  {csv json : AuditArchiveArtifact} {rowCount : Nat} {now : DateTime}

theorem isPart_of_chars {text : String} (hne : text ≠ "") (hdot : '.' ∉ text.toList)
    (h : '/' ∉ text.toList) : PurePath.IsPart text :=
  ⟨hne, fun heq => hdot (by rw [heq]; exact List.mem_cons_self), h⟩

theorem isPart_zeroPad (width n : Nat) : PurePath.IsPart (zeroPad width n) := by
  have hdigit : ∀ c ∈ (zeroPad width n).toList, c.isDigit = true := by
    intro c hc
    rcases zeroPad_chars hc with rfl | hc'
    · exact absurd hc (zeroPad_no_sign width n)
    · exact hc'
  refine isPart_of_chars (fun heq => ?_) (fun h => ?_) (fun h => ?_)
  · have hchars := zeroPad_toList width n
    rw [heq] at hchars
    have hnil : Nat.toDigits 10 n = [] := (List.append_eq_nil_iff.mp hchars.symm).2
    exact Nat.toDigits_ne_nil hnil
  · exact absurd (hdigit _ h) (by decide)
  · exact absurd (hdigit _ h) (by decide)

theorem isMonthKey_of_windowOf (h : windowOf A.tz monthKey = .ok window) :
    isMonthKey monthKey = true := by
  unfold windowOf at h
  split at h
  · cases h
  · next hkey => simpa using hkey

theorem slash_not_mem_monthKey (h : isMonthKey monthKey = true) : '/' ∉ monthKey.toList := by
  unfold isMonthKey at h
  split at h
  · next y e a r m o rest htext =>
    rw [Bool.and_eq_true, List.all_eq_true, Bool.or_eq_true, beq_iff_eq, beq_iff_eq] at h
    obtain ⟨hdecimal, hrest⟩ := h
    have hslash : ∀ c ∈ [y, e, a, r, m, o], '/' ≠ c := by
      rintro c hc rfl
      exact absurd (hdecimal _ hc) (by decide)
    rw [htext]
    intro hmem
    have hcases : '/' ∈ [y, e, a, r, m, o] ∨ '/' = '_' ∨ '/' ∈ rest := by
      simp only [List.mem_cons, List.not_mem_nil, or_false] at hmem ⊢
      tauto
    rcases hcases with hmem | heq | hmem
    · exact hslash _ hmem rfl
    · cases heq
    · rcases hrest with rfl | rfl
      · cases hmem
      · exact absurd hmem (by decide)
  · cases h

theorem normal_baseOf (hroot : A.config.archiveRoot.Normal) (window : AuditArchiveWindow) :
    (A.baseOf window).Normal :=
  ((hroot.child (by decide)).child (isPart_zeroPad _ _)).child (isPart_zeroPad _ _)

theorem normal_pathOf (hroot : A.config.archiveRoot.Normal)
    (hkey : isMonthKey window.monthKey = true) (kind : FileKind) :
    (A.pathOf kind window).Normal := by
  rw [AuditArchiver.pathOf_eq]
  refine (normal_baseOf hroot window).child ?_
  have hfirst : ("audit_" ++ window.monthKey ++ kind.suffix).toList.head? = some 'a' := by
    rw [String.toList_append, String.toList_append]
    rfl
  refine ⟨fun heq => ?_, fun heq => ?_, fun h => ?_⟩
  · rw [heq] at hfirst
    cases hfirst
  · rw [heq] at hfirst
    exact absurd hfirst (by decide)
  · rw [String.toList_append, String.toList_append, List.mem_append, List.mem_append] at h
    rcases h with (h | h) | h
    · exact absurd h (by decide)
    · exact slash_not_mem_monthKey hkey h
    · cases kind <;> exact absurd h (by decide)

theorem ofText_pathOf (hroot : A.config.archiveRoot.Normal)
    (hkey : isMonthKey window.monthKey = true) (kind : FileKind) :
    PurePath.ofText (A.pathOf kind window).asPosix = A.pathOf kind window := by
  refine PurePath.ofText_asPosix (normal_pathOf hroot hkey kind) ?_
  rw [AuditArchiver.pathOf_eq]
  exact List.append_ne_nil_of_right_ne_nil _ (List.cons_ne_nil _ _)

theorem artifactsOf_manifest (csv json : AuditArchiveArtifact) (rowCount : Nat) :
    artifactsOf A.lib (A.buildManifestPayload window csv json rowCount now) =
      .ok [AuditArchiver.artifactJson "csv" csv, AuditArchiver.artifactJson "json" json] :=
  rfl

theorem loads_manifest
    (h : printable (A.buildManifestPayload window csv json rowCount now) = true) :
    loadsBytes A.lib (encode (Json.dumps .compact
      (A.buildManifestPayload window csv json rowCount now))) =
        .ok (A.buildManifestPayload window csv json rowCount now) := by
  have hvalid : Json.Valid A.lib.floatRepr
      (A.buildManifestPayload window csv json rowCount now) := by
    simp only [AuditArchiver.buildManifestPayload, AuditArchiver.artifactJson, printable,
      printableMembers, printableItems, Bool.and_eq_true] at h
    simp [AuditArchiver.buildManifestPayload, AuditArchiver.artifactJson, Json.Valid,
      Json.ValidMembers, Json.ValidItems, h]
  rw [loadsBytes, decode_encode, Option.bind_some,
    Json.loads_dumps rfl Json.separators_compact hvalid]

/-- What is read of an artifact of a manifest. -/
theorem intact_artifactJson {L : Library} {kind : String} (artifact : AuditArchiveArtifact)
    (hpath : PurePath.ofText artifact.path.asPosix = artifact.path) :
    Intact L v (AuditArchiver.artifactJson kind artifact) ↔
      ∃ contents, v.files artifact.path = some contents ∧ artifact.sha256 = L.sha256 contents := by
  have hname : (member? "name" (AuditArchiver.artifactJson kind artifact)).map
      (·.getD (.str "")) = .ok (.str artifact.path.asPosix) := rfl
  have hdigest : member? "sha256" (AuditArchiver.artifactJson kind artifact) =
      .ok (some (.str artifact.sha256)) := rfl
  simp only [Intact, hname, hdigest, Except.ok.injEq, Json.str.injEq, Option.some.injEq]
  constructor
  · rintro ⟨name, contents, rfl, hread, hsame⟩
    rw [hpath] at hread
    exact ⟨contents, hread, hsame⟩
  · rintro ⟨contents, hread, hsame⟩
    exact ⟨_, contents, rfl, by rw [hpath]; exact hread, hsame⟩

/-- A path that archiving a month does not write to. -/
def Elsewhere (A : AuditArchiver) (window : AuditArchiveWindow) (path : PurePath) : Prop :=
  path.parent ≠ A.baseOf window ∧ path ≠ A.partitionsPath

/-- Only files of the month and the list of partitions are changed. -/
def Around (A : AuditArchiver) (window : AuditArchiveWindow) (v₀ v : View) : Prop :=
  ∀ path, Elsewhere A window path → v.files path = v₀.files path

theorem Around.write {path : PurePath} {contents : List UInt8} (h : Around A window v₀ v)
    (hpath : path.parent = A.baseOf window ∨ path = A.partitionsPath) :
    Around A window v₀ (v.write path contents) := by
  intro other hother
  refine (if_neg ?_).trans (h other hother)
  rintro rfl
  rcases hpath with hparent | hpartitions
  · exact hother.1 hparent
  · exact hother.2 hpartitions

theorem Around.clean (h : Around A window v₀ v) :
    Around A window v₀ (v.clean (A.baseOf window)) := fun other hother =>
  (if_neg fun hpart => hother.1 hpart.1).trans (h other hother)

theorem parent_pathOf (kind : FileKind) : (A.pathOf kind window).parent = A.baseOf window := by
  rw [AuditArchiver.pathOf_eq, PurePath.parent_child]

theorem parent_manifestPath : (A.manifestPath window).parent = A.baseOf window :=
  PurePath.parent_child _ _

theorem meets_recordPartition_any {P Q : View → Prop} (result : AuditArchiveResult)
    (h : ∀ v contents, P v → Q (v.write A.partitionsPath contents)) :
    Meets (Seen P) (A.recordPartitionMetadata result) (fun _ => Seen Q) (Seen P) := by
  refine (meets_call _).bind fun _ => .get fun w hw => ?_
  have hsame : ∀ {α : Type} (x : Except Raised α), Meets (· = w) (Act.ofExcept x)
      (fun _ => (· = w)) (Seen P) := fun x =>
    (keeps_ofExcept x).weaken fun _ h => h ▸ hw
  refine (hsame _).bind fun _ => (hsame _).bind fun _ => (hsame _).bind fun _ => ?_
  exact ((meets_atomicWriteJson fun v _ hv => h v _ hv).fst.here hw).bind fun _ =>
    .pure fun _ hs => hs

theorem keeps_writeArtifacts : Keeps (Seen (Around A window v₀)) (A.writeArtifacts window) := by
  refine (meets_call _).bind fun _ => .get fun w hw => ?_
  have hwrite : ∀ kind contents, Keeps (Seen (Around A window v₀))
      (Act.onDisk fun disk => disk.atomicWrite (A.pathOf kind window) contents) :=
    fun kind contents => meets_atomicWrite fun v hv => hv.write (.inl (parent_pathOf kind))
  have hartifact : ∀ path, Keeps (Seen (Around A window v₀)) (A.artifactOf path) := fun path =>
    (meets_artifactOf path).fst
  refine ((hwrite .json _).here hw).bind fun _ => ?_
  exact (hwrite .csv _).bind fun _ => (hartifact _).bind fun _ => (hartifact _).bind fun _ =>
    .pure fun _ h => h

theorem keeps_archiveMonth (v₀ : View) (hwindow : windowOf A.tz window.monthKey = .ok window) :
    Keeps (Seen (Around A window v₀)) (A.archiveMonth now window.monthKey) := by
  unfold AuditArchiver.archiveMonth
  rw [hwindow]
  have hpath : ∀ path, Keeps (Seen (Around A window v₀)) (A.artifactPath window path) := fun path =>
    (meets_artifactPath path).fst
  have hartifact : ∀ path, Keeps (Seen (Around A window v₀)) (A.artifactOf path) := fun path =>
    (meets_artifactOf path).fst
  have hmanifest : ∀ payload, Keeps (Seen (Around A window v₀))
      (AuditArchiver.atomicWriteJson (A.manifestPath window) payload) := fun payload =>
    (meets_atomicWriteJson fun v _ hv => hv.write (.inl parent_manifestPath)).fst
  have hentry : ∀ artifact text, Keeps (Seen (Around A window v₀))
      (A.updateEntry now artifact text) := fun _ _ =>
    AuditArchiver.meets_updateEntry fun _ _ h => h
  have hrelease : ∀ result, Keeps (Seen (Around A window v₀)) (A.updateRelease now result) :=
    fun result => (hentry _ _).bind fun _ => hentry _ _
  have hrecord : ∀ result, Keeps (Seen (Around A window v₀)) (A.recordPartitionMetadata result) :=
    fun result => meets_recordPartition_any result fun _ _ hv => hv.write (.inr rfl)
  have harchive : Keeps (Seen (Around A window v₀)) (A.archiveWindow now window) :=
    (keeps_writeArtifacts.retrying _).bind fun _ => ((hmanifest _).retrying _).bind fun _ =>
      (hartifact _).bind fun _ => ((hrelease _).retrying _).bind fun _ =>
        ((hrecord _).retrying _).bind fun _ => .pure fun _ h => h
  refine (hpath _).bind fun _ => (hpath _).bind fun _ => (hpath _).bind fun _ => ?_
  refine (meets_cleanupParts (fun _ hv => hv) fun v hv => hv.clean).bind fun _ => ?_
  exact harchive.tryCatch fun _ => .throw fun _ h => h

theorem baseOf_inj {other : AuditArchiveWindow} (h : A.baseOf window = A.baseOf other) :
    window.start.year = other.start.year ∧ window.start.month = other.start.month := by
  obtain ⟨hyears, hmonth⟩ := PurePath.child_inj h
  obtain ⟨-, hyear⟩ := PurePath.child_inj hyears
  exact ⟨Int.ofNat.inj (zeroPad_injective 4 hyear), Int.ofNat.inj (zeroPad_injective 2 hmonth)⟩

theorem length_baseOf (window : AuditArchiveWindow) :
    (A.baseOf window).parts.length = A.config.archiveRoot.parts.length + 3 := by
  simp [AuditArchiver.baseOf, PurePath.child]

/-- The directories of a month are not written to. -/
theorem elsewhere_above (window other : AuditArchiveWindow) {parts : List String}
    (h : parts ∈ (A.baseOf window).parts.inits) :
    Elsewhere A other ⟨(A.baseOf window).absolute, parts⟩ := by
  have hprefix := (List.mem_inits _ _).mp h
  have hlength := hprefix.length_le
  refine ⟨fun hparent => ?_, fun heq => ?_⟩
  · have hsame := congrArg (fun path => path.parts.length) hparent
    dsimp only [PurePath.parent] at hsame
    rw [List.length_dropLast, length_baseOf] at hsame
    rw [length_baseOf] at hlength
    omega
  · have hparts : parts = A.config.archiveRoot.parts ++ ["audit", "partitions.json"] := by
      have := congrArg PurePath.parts heq
      simpa [AuditArchiver.partitionsPath, PurePath.child] using this
    have hbase : (A.baseOf window).parts = A.config.archiveRoot.parts ++
        ["audit", zeroPad 4 window.start.year, zeroPad 2 window.start.month] := by
      simp [AuditArchiver.baseOf, PurePath.child]
    rw [hparts, hbase, List.prefix_append_right_inj] at hprefix
    obtain ⟨rest, hrest⟩ := hprefix
    have hyear : "partitions.json" = zeroPad 4 window.start.year := by
      simp only [List.cons_append, List.nil_append, List.cons.injEq] at hrest
      exact hrest.2.1
    have hchar : 'p' ∈ (zeroPad 4 window.start.year).toList := by
      rw [← hyear]
      decide
    rcases zeroPad_chars hchar with hminus | hdigit
    · cases hminus
    · exact absurd hdigit (by decide)

theorem elsewhere_of_parent {other : AuditArchiveWindow} {path : PurePath}
    (hbase : A.baseOf window ≠ A.baseOf other) (h : path.parent = A.baseOf window) :
    Elsewhere A other path := by
  refine ⟨fun hother => hbase (h.symm.trans hother), ?_⟩
  rintro rfl
  rw [AuditArchiver.partitionsPath, PurePath.parent_child] at h
  have hsame := congrArg (fun path => path.parts.length) h
  rw [length_baseOf, PurePath.child, List.length_append, List.length_singleton] at hsame
  omega

theorem Around.reachable {other : AuditArchiveWindow} (h : Around A other v₀ v)
    (hreachable : Reachable (A.baseOf window) v₀) : Reachable (A.baseOf window) v :=
  fun parts hparts => (h _ (elsewhere_above window other hparts)).trans (hreachable parts hparts)

theorem reachable_of_archiveMonth (hwindow : windowOf A.tz window.monthKey = .ok window)
    {w after : World} {result : AuditArchiveResult}
    (h : exec (A.archiveMonth now window.monthKey) w = (.ok result, after)) :
    Reachable (A.baseOf window) w.view := by
  rcases hexec : exec (A.artifactPath window (A.csvPath window)) w with ⟨e | path, made⟩
  · rw [AuditArchiver.archiveMonth, hwindow] at h
    cases (exec_bind_error hexec).symm.trans h
  · exact ((meets_artifactPath_reachable _).ok rfl hexec).2

/-- The files of a month that was archived, and the manifest that goes with them. -/
structure Standing (A : AuditArchiver) (now : DateTime) (window : AuditArchiveWindow)
    (v₀ v : View) : Prop where
  reachable : Reachable (A.baseOf window) v
  wrote : ∀ kind, A.Wrote window v₀ kind v
  manifest : v.files (A.manifestPath window) =
    some (encode (Json.dumps .compact (A.manifest now window v₀)))
  printable : printable (A.manifest now window v₀) = true

theorem Standing.verified (h : Standing A now window v₀ v) (hroot : A.config.archiveRoot.Normal)
    (hwindow : windowOf A.tz window.monthKey = .ok window) :
    Verified A v (.text window.monthKey) := by
  have hkey := isMonthKey_of_windowOf hwindow
  have hintact : ∀ kind text, Intact A.lib v
      (AuditArchiver.artifactJson text (A.artifact window v₀ kind)) := by
    intro kind text
    have hpath : (A.artifact window v₀ kind).path = A.pathOf kind window := rfl
    refine (intact_artifactJson _ ?_).mpr ⟨_, hpath ▸ h.wrote kind, rfl⟩
    rw [hpath]
    exact ofText_pathOf hroot hkey kind
  exact ⟨_, window, _, _, _, rfl, hwindow, h.reachable, h.manifest, loads_manifest h.printable,
    artifactsOf_manifest _ _ _, List.forall_mem_cons.mpr ⟨hintact .csv "csv",
      List.forall_mem_cons.mpr ⟨hintact .json "json", fun _ h => absurd h List.not_mem_nil⟩⟩⟩

theorem Standing.congr {v' : View} (h : Standing A now window v₀ v)
    (hreachable : Reachable (A.baseOf window) v')
    (hfiles : ∀ path, path.parent = A.baseOf window → v'.files path = v.files path) :
    Standing A now window v₀ v' where
  reachable := hreachable
  wrote kind := (hfiles _ (parent_pathOf kind)).trans (h.wrote kind)
  manifest := (hfiles _ parent_manifestPath).trans h.manifest
  printable := h.printable

theorem standing_of_archiveMonth (hwindow : windowOf A.tz window.monthKey = .ok window)
    {w after : World} {result : AuditArchiveResult}
    (h : exec (A.archiveMonth now window.monthKey) w = (.ok result, after)) :
    Standing A now window w.view after.view := by
  have haround : Around A window w.view after.view :=
    (keeps_archiveMonth w.view hwindow).ok (fun _ _ => rfl) h
  have hwritten := (AuditArchiver.meets_archiveMonth_of now w.view (Q := Seen
    fun v => ∃ before contents, A.Verifiable now window w.view before ∧
      v = before.write A.partitionsPath contents) hwindow fun _ =>
        meets_recordPartition_any _ fun v contents hv => ⟨v, contents, hv, rfl⟩).ok rfl h
  obtain ⟨before, contents, hbefore, hview⟩ := hwritten
  refine ⟨haround.reachable (reachable_of_archiveMonth hwindow h), fun kind => ?_, ?_,
    hbefore.printable⟩
  · rw [hview]
    exact (hbefore.written.wrote kind).write AuditArchiver.pathOf_ne_partitions.symm
  · rw [hview]
    exact (if_neg AuditArchiver.manifest_ne_partitions).trans hbefore.manifest

/-- The manifest of a dry run has no digests, so that the month is not verified after it. -/
theorem not_verified_of_dryManifest (hroot : A.config.archiveRoot.Normal)
    (hwindow : windowOf A.tz window.monthKey = .ok window)
    (hmanifest : v.files (A.manifestPath window) =
      some (encode (Json.dumps .compact (A.dryManifest now window v₀))))
    (hprints : printable (A.dryManifest now window v₀) = true) :
    ¬Verified A v (.text window.monthKey) := by
  rintro ⟨key, other, bytes, payload, artifacts, hkey, hother, -, hbytes, hloads, hartifacts,
    hintact⟩
  obtain rfl := MonthKey.text.inj hkey
  obtain rfl := Except.ok.inj (hother.symm.trans hwindow)
  rw [Option.some.inj (hbytes.symm.trans hmanifest)] at hloads
  rw [Except.ok.inj (hloads.symm.trans (loads_manifest hprints))] at hartifacts
  have hlisted : artifactsOf A.lib (A.dryManifest now other v₀) =
      .ok [AuditArchiver.artifactJson "csv" ⟨A.csvPath other, "", 0⟩,
        AuditArchiver.artifactJson "json" ⟨A.jsonPath other, "", 0⟩] :=
    artifactsOf_manifest _ _ _
  rw [Except.ok.inj (hartifacts.symm.trans hlisted), List.forall_mem_cons] at hintact
  have hsame : A.pathOf .csv other = A.csvPath other := rfl
  have hpath := ofText_pathOf hroot (isMonthKey_of_windowOf hwindow) .csv
  rw [hsame] at hpath
  obtain ⟨contents, -, hdigest⟩ := (intact_artifactJson ⟨A.csvPath other, "", 0⟩ hpath).mp hintact.1
  exact A.lib.sha256_ne contents hdigest.symm

/-- A dry run leaves the table, the release manifest and every file but the manifest of its month
and unfinished parts as they are, and after it the month is not verified. -/
theorem dryRun_exact (hroot : A.config.archiveRoot.Normal) {w after : World}
    {result : AuditArchiveResult}
    (h : exec (A.archiveMonthDry now monthKey) w = (.ok result, after)) :
    ∃ window, windowOf A.tz monthKey = .ok window ∧ after.events = w.events ∧
      after.release = w.release ∧
      (∀ path, path ≠ A.manifestPath window →
        ¬(path.parent = A.baseOf window ∧ AuditArchiver.isPart path.name = true) →
        after.disk.read path = w.disk.read path) ∧
      ∀ (config : AuditArchiveConfig) (found : Bool) (checked : World),
        exec (AuditRetentionEnforcer.verifyArchive ⟨A, config⟩ (.text monthKey)) after =
          (.ok found, checked) → found = false := by
  cases hwindow : windowOf A.tz monthKey with
  | error e =>
    have hfail : exec (Act.ofExcept (windowOf A.tz monthKey)) w = (.error e, w) := by
      rw [hwindow]
      rfl
    have hraised := (exec_bind_error hfail).symm.trans h
    cases hraised
  | ok window =>
    obtain ⟨rfl, -⟩ := windowOf_eq_ok hwindow
    obtain ⟨before, hbefore, hview, hprints⟩ :=
      (AuditArchiver.meets_archiveMonthDry now w.view hwindow).ok rfl h
    have hnot : ¬Verified A after.view (.text window.monthKey) :=
      not_verified_of_dryManifest hroot hwindow (by rw [hview]; exact if_pos rfl) hprints
    have hsame : before.events = w.view.events ∧ before.release = w.view.release ∧
        ∀ path, ¬(path.parent = A.baseOf window ∧ AuditArchiver.isPart path.name = true) →
          before.files path = w.view.files path := by
      rcases hbefore with rfl | rfl
      · exact ⟨rfl, rfl, fun _ _ => rfl⟩
      · exact ⟨rfl, rfl, fun _ hpart => if_neg hpart⟩
    obtain ⟨hevents, hrelease, hfiles⟩ := hsame
    refine ⟨window, rfl, (congrArg View.events hview).trans hevents,
      (congrArg View.release hview).trans hrelease, ?_, ?_⟩
    · intro path hpath hpart
      have hread : after.view.files path = w.view.files path := by
        rw [hview]
        exact (if_neg hpath).trans (hfiles path hpart)
      exact hread
    · intro config found checked hcheck
      exact ((meets_verifyArchive_of_not (E := ⟨A, config⟩) hnot).ok rfl hcheck).2

theorem dryRun_january : (exec (AuditLog.utcArchiver.archiveMonthDry ⟨2026, 1, 1, 0, 0⟩ "2024_01")
    AuditLog.filledLog.world).1.isOk = true := by
  decide +kernel

theorem dryRun_exact_sample :
    let A := AuditLog.utcArchiver
    let w := AuditLog.filledLog.world
    let after := (exec (A.archiveMonthDry ⟨2026, 1, 1, 0, 0⟩ "2024_01") w).2
    ∃ window, windowOf A.tz "2024_01" = .ok window ∧ after.events = w.events ∧
      after.release = w.release ∧
      (∀ path, path ≠ A.manifestPath window →
        ¬(path.parent = A.baseOf window ∧ AuditArchiver.isPart path.name = true) →
        after.disk.read path = w.disk.read path) ∧
      ∀ (config : AuditArchiveConfig) (found : Bool) (checked : World),
        exec (AuditRetentionEnforcer.verifyArchive ⟨A, config⟩ (.text "2024_01")) after =
          (.ok found, checked) → found = false := by
  intro A w after
  have hok := dryRun_january
  rcases hexec : exec (AuditLog.utcArchiver.archiveMonthDry ⟨2026, 1, 1, 0, 0⟩ "2024_01")
    AuditLog.filledLog.world with ⟨e | result, last⟩
  · rw [hexec] at hok
    cases hok
  · have hlast : after = last := congrArg Prod.snd hexec
    rw [hlast]
    exact dryRun_exact (by decide) hexec

end

end Audit
