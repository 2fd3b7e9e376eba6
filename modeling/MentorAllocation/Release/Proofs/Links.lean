import MentorAllocation.Release.Deploy

namespace Release
open Concurrency Files

namespace ZeroDowntimeHandoff
variable {H : ZeroDowntimeHandoff}

/-- The names of the releases directory that a hand-off writes to. -/
def ownNames : List String :=
  ["current", "previous", "current.new", "previous.tmp", "handoff.json"]

variable (H) in
def isOwn (l : Location) : Bool := ownNames.any fun name => l == H.entry name

variable (H) in
def outside (t : FileTree HandoffState) : FileTree HandoffState :=
  t.restrict fun l => !H.isOwn l

variable (H) in
def answer (op : FileOp) (t : FileTree HandoffState) : Option (op.Resp × FileTree HandoffState) :=
  some (H.perform op t)

variable (H) in
def run {α : Type} (p : Script α) (t : FileTree HandoffState) :
    Option (Except Failure α × FileTree HandoffState) := Program.alone H.answer p t

section
variable {α β : Type} {t t' : FileTree HandoffState} {f : α → Script β}

theorem run_pure (a : α) : H.run (pure a) t = some (.ok a, t) := rfl

theorem run_bind {p : Script α} {a : α} (h : H.run p t = some (.ok a, t')) :
    H.run (p >>= f) t = H.run (f a) t' := Fallible.alone_bind_ok h f

theorem run_exists (name : String) :
    H.run (Script.exists? name) t = some (.ok (H.lead t name).isOk, t) := rfl

theorem run_isSymlink (name : String) :
    H.run (Script.isSymlink name) t = some (.ok (H.perform (.isSymlink name) t).1, t) := rfl

theorem run_resolve {name : String} {l : Location} (h : H.lead t name = .ok l) :
    H.run (Script.resolve name) t = some (.ok l, t) := by
  simp [run, Script.resolve, Program.alone, answer, perform, resolvePath, h]

theorem run_replace {source target : String}
    (h : t.rename (H.entry source) (H.entry target) = .ok t') :
    H.run (Script.replace source target) t = some (.ok (), t') := by
  simp [run, Script.replace, Program.alone, answer, perform, settle, h]

theorem run_symlink {target : PurePath} {name : String}
    (h : t.symlink target (H.entry name) = .ok t') :
    H.run (Script.symlink target name) t = some (.ok (), t') := by
  simp [run, Script.symlink, Program.alone, answer, perform, settle, h]

theorem run_atomicWrite {name : String} {state : HandoffState}
    (h : t.install (H.entry name) state = .ok t') :
    H.run (Script.atomicWrite name state) t = some (.ok (), t') := by
  simp [run, Script.atomicWrite, Program.alone, answer, perform, settle, h]

end

@[simp] theorem entry_inj {a b : String} : H.entry a = H.entry b ↔ a = b := by simp [entry]

@[simp] theorem entry_dropLast (name : String) : (H.entry name).dropLast = H.releasesDir := by
  simp [entry]

theorem get_outside (t : FileTree HandoffState) (l : Location) :
    (H.outside t).get l = if H.isOwn l then none else t.get l := by
  rw [outside, FileTree.get_restrict]
  cases H.isOwn l <;> rfl

theorem isOwn_eq_false {l : Location} :
    H.isOwn l = false ↔ l ≠ H.entry "current" ∧ l ≠ H.entry "previous" ∧
      l ≠ H.entry "current.new" ∧ l ≠ H.entry "previous.tmp" ∧ l ≠ H.entry "handoff.json" := by
  simp [isOwn, ownNames]

/-- A tree made of `base` and the two links of a hand-off between two calls. -/
structure Standing (H : ZeroDowntimeHandoff) (base : FileTree HandoffState)
    (current previous : Option PurePath) (t : FileTree HandoffState) : Prop where
  current_eq : t.get (H.entry "current") = current.map .link
  previous_eq : t.get (H.entry "previous") = previous.map .link
  newLink_eq : t.get (H.entry "current.new") = none
  temporary_eq : t.get (H.entry "previous.tmp") = none
  state_ne : t.get (H.entry "handoff.json") ≠ some .directory
  rest_eq : ∀ l, H.isOwn l = false → t.get l = base.get l
  base_own : ∀ l, H.isOwn l = true → base.get l = none
  real : base.Real H.releasesDir

/-- The path leads to a directory without the hand-off's own links. -/
def Direct (H : ZeroDowntimeHandoff) (base : FileTree HandoffState) (target : PurePath)
    (d : Location) : Prop :=
  base.resolve (linkLimit - 1) (target.base H.releasesDir) target.parts = .ok d ∧
    base.isDirectory d = true

section
variable {base t : FileTree HandoffState} {current previous : Option PurePath} {target : PurePath}
  {d : Location}

theorem Standing.within (h : Standing H base current previous t) : base.Within t := by
  intro l n hn
  cases ho : H.isOwn l with
  | true => simp [h.base_own l ho] at hn
  | false => rw [h.rest_eq l ho, hn]

theorem Standing.directory (h : Standing H base current previous t) :
    t.isDirectory H.releasesDir = true :=
  FileTree.isDirectory_within h.within (h.real.directories _ List.prefix_rfl)

@[simp] theorem isDirectory_put_entry (t : FileTree HandoffState) (name : String)
    (n : Node HandoffState) :
    (t.put (H.entry name) n).isDirectory H.releasesDir = t.isDirectory H.releasesDir := by
  simp [FileTree.isDirectory, FileTree.get_put, entry]

@[simp] theorem isDirectory_erase_entry (t : FileTree HandoffState) (name : String) :
    (t.erase (H.entry name)).isDirectory H.releasesDir = t.isDirectory H.releasesDir := by
  simp [FileTree.isDirectory, FileTree.get_erase, entry]

theorem lead_of_link {name : String} (hname : name ≠ "..")
    (h : t.get (H.entry name) = some (.link target)) :
    H.lead t name = t.resolve (linkLimit - 1) (target.base H.releasesDir) target.parts := by
  rw [entry] at h
  simp [lead, linkLimit, FileTree.resolve, FileTree.walk, hname, h]

theorem lead_of_none {name : String} (hname : name ≠ "..") (h : t.get (H.entry name) = none) :
    H.lead t name = .error .noent := by
  rw [entry] at h
  simp [lead, linkLimit, FileTree.resolve, FileTree.walk, hname, h]

theorem Standing.lead (h : Standing H base current previous t) {name : String}
    (hname : name ≠ "..") (hg : t.get (H.entry name) = some (.link target))
    (hd : H.Direct base target d) : H.lead t name = .ok d := by
  rw [lead_of_link hname hg]
  exact FileTree.resolve_within h.within hd.1

/-- The place a path led to, written down as a path again. -/
theorem Direct.place (h : H.Direct base target d) (hr : base.Real H.releasesDir) :
    H.Direct base ⟨true, d⟩ d := by
  refine ⟨?_, h.2⟩
  refine FileTree.resolve_of_real (FileTree.resolve_real ?_ h.1 h.2)
  unfold PurePath.base
  split
  · exact FileTree.real_nil
  · exact hr

/-- A swap with a release in place moves its link to `previous`. -/
theorem swap_taken {c : PurePath} (target : PurePath) (h : Standing H base (some c) previous t)
    (hc : H.Direct base c d) :
    ∃ t', H.run (atomicSymlinkSwap "current" "previous" target) t = some (.ok (), t') ∧
      Standing H base (some target) (some c) t' := by
  have hlead := h.lead (by decide) h.current_eq hc
  have hdir := h.directory
  set t1 := (t.erase (H.entry "current")).put (H.entry "previous.tmp") (.link c) with ht1
  set t2 := (t1.erase (H.entry "previous.tmp")).put (H.entry "previous") (.link c) with ht2
  set t3 := t2.put (H.entry "current.new") (.link target) with ht3
  set t4 := (t3.erase (H.entry "current.new")).put (H.entry "current") (.link target) with ht4
  have h1 : t.rename (H.entry "current") (H.entry "previous.tmp") = .ok t1 :=
    FileTree.rename_link (by simpa using hdir) h.current_eq (by simp [h.temporary_eq])
  have h2 : t1.rename (H.entry "previous.tmp") (H.entry "previous") = .ok t2 :=
    FileTree.rename_link (by simpa [ht1] using hdir) (by simp [ht1, FileTree.get_put])
      (by cases previous <;> simp [ht1, FileTree.get_put, FileTree.get_erase, h.previous_eq])
  have hnew : t2.get (H.entry "current.new") = none := by
    simp [ht1, ht2, FileTree.get_put, FileTree.get_erase, h.newLink_eq]
  have h3 : t2.symlink target (H.entry "current.new") = .ok t3 :=
    FileTree.symlink_ok (by simpa [ht1, ht2] using hdir) hnew
  have h4 : t3.rename (H.entry "current.new") (H.entry "current") = .ok t4 :=
    FileTree.rename_link (by simpa [ht1, ht2, ht3] using hdir) (by simp [ht3, FileTree.get_put])
      (by simp [ht1, ht2, ht3, FileTree.get_put, FileTree.get_erase])
  refine ⟨t4, ?_, ?_⟩
  · simp only [atomicSymlinkSwap, String.reduceAppend]
    rw [run_bind (run_exists "current")]
    simp only [hlead, Except.isOk, Except.toBool, if_true]
    rw [run_bind (run_pure true)]
    simp only [if_true]
    rw [run_bind (run_resolve hlead), run_bind (run_replace h1), run_bind (run_replace h2),
      run_bind (run_exists "current.new")]
    simp only [lead_of_none (by decide) hnew, Except.isOk, Except.toBool, Bool.false_eq_true,
      if_false]
    rw [run_bind (run_symlink h3), run_bind (run_replace h4)]
    rfl
  · constructor
    · simp [ht4, FileTree.get_put]
    · simp [ht1, ht2, ht3, ht4, FileTree.get_put, FileTree.get_erase]
    · simp [ht1, ht2, ht3, ht4, FileTree.get_put, FileTree.get_erase]
    · simp [ht1, ht2, ht3, ht4, FileTree.get_put, FileTree.get_erase]
    · simpa [ht1, ht2, ht3, ht4, FileTree.get_put, FileTree.get_erase] using h.state_ne
    · intro l hl
      rw [← h.rest_eq l hl]
      obtain ⟨hc, hp, hn, ht, -⟩ := isOwn_eq_false.mp hl
      simp [ht1, ht2, ht3, ht4, FileTree.get_put, FileTree.get_erase, hc, hp, hn, ht]
    · exact h.base_own
    · exact h.real

/-- The first swap leaves no `previous`. -/
theorem swap_vacant (target : PurePath) (h : Standing H base none none t) :
    ∃ t', H.run (atomicSymlinkSwap "current" "previous" target) t = some (.ok (), t') ∧
      Standing H base (some target) none t' := by
  have hdir := h.directory
  set t1 := t.put (H.entry "current.new") (.link target) with ht1
  set t2 := (t1.erase (H.entry "current.new")).put (H.entry "current") (.link target) with ht2
  have h1 : t.symlink target (H.entry "current.new") = .ok t1 :=
    FileTree.symlink_ok (by simpa using hdir) h.newLink_eq
  have h2 : t1.rename (H.entry "current.new") (H.entry "current") = .ok t2 :=
    FileTree.rename_link (by simpa [ht1] using hdir) (by simp [ht1, FileTree.get_put])
      (by simp [ht1, FileTree.get_put, h.current_eq])
  have hprev : t2.get (H.entry "previous") = none := by
    simp [ht1, ht2, FileTree.get_put, FileTree.get_erase, h.previous_eq]
  have hlink : H.perform (.isSymlink "current") t = (false, t) := by
    simp [perform, h.current_eq]
  refine ⟨t2, ?_, ?_⟩
  · simp only [atomicSymlinkSwap, String.reduceAppend]
    rw [run_bind (run_exists "current")]
    simp only [lead_of_none (by decide) h.current_eq, Except.isOk, Except.toBool,
      Bool.false_eq_true, if_false]
    rw [run_bind (run_isSymlink "current"), hlink]
    simp only [Bool.false_eq_true, if_false]
    rw [run_bind (run_exists "current.new")]
    simp only [lead_of_none (by decide) h.newLink_eq, Except.isOk, Except.toBool,
      Bool.false_eq_true, if_false]
    rw [run_bind (run_symlink h1), run_bind (run_replace h2)]
    simp only [Bool.not_false, if_true]
    rw [run_bind (run_exists "previous")]
    simp only [lead_of_none (by decide) hprev, Except.isOk, Except.toBool, Bool.false_eq_true,
      if_false]
    rfl
  · constructor
    · simp [ht2, FileTree.get_put]
    · simpa using hprev
    · simp [ht1, ht2, FileTree.get_put, FileTree.get_erase]
    · simp [ht1, ht2, FileTree.get_put, FileTree.get_erase, h.temporary_eq]
    · simpa [ht1, ht2, FileTree.get_put, FileTree.get_erase] using h.state_ne
    · intro l hl
      rw [← h.rest_eq l hl]
      obtain ⟨hc, -, hn, -⟩ := isOwn_eq_false.mp hl
      simp [ht1, ht2, FileTree.get_put, FileTree.get_erase, hc, hn]
    · exact h.base_own
    · exact h.real

/-- Writing `handoff.json` touches neither link. -/
theorem write_standing (state : HandoffState) (h : Standing H base current previous t) :
    ∃ t', H.run (Script.atomicWrite "handoff.json" state) t = some (.ok (), t') ∧
      Standing H base current previous t' := by
  refine ⟨_, run_atomicWrite (FileTree.install_ok (by simpa using h.directory) h.state_ne), ?_⟩
  constructor
  · simpa [FileTree.get_put] using h.current_eq
  · simpa [FileTree.get_put] using h.previous_eq
  · simpa [FileTree.get_put] using h.newLink_eq
  · simpa [FileTree.get_put] using h.temporary_eq
  · simp [FileTree.get_put]
  · intro l hl
    obtain ⟨-, -, -, -, hs⟩ := isOwn_eq_false.mp hl
    rw [← h.rest_eq l hl]
    simp [FileTree.get_put, hs]
  · exact h.base_own
  · exact h.real

end

end ZeroDowntimeHandoff

end Release
