import Mathlib.Data.List.Infix
import MentorAllocation.Files.Tree

namespace Files

/-- What a path leads to where there are no links. -/
inductive Entry where
  | directory
  | file (contents : List UInt8)
  deriving DecidableEq, Repr

/-- The entries of a system without links; the paths without parts are directories anyhow. -/
structure Disk where
  entries : PurePath → Option Entry

namespace PurePath

def parent (path : PurePath) : PurePath := { path with parts := path.parts.dropLast }

def child (path : PurePath) (name : String) : PurePath :=
  { path with parts := path.parts ++ [name] }

/-- The name of a path, which is empty where it has no parts. -/
def name (path : PurePath) : String := path.parts.getLast?.getD ""

/-- `Path(text)`: empty parts and `.` are left out. -/
def ofText (text : String) : PurePath where
  absolute := text.toList.head? = some '/'
  parts := ((text.toList.splitOn '/').map String.ofList).filter fun part => part ≠ "" ∧ part ≠ "."

def asPosix (path : PurePath) : String :=
  if path.parts = [] then (if path.absolute then "/" else ".")
  else (if path.absolute then "/" else "") ++ "/".intercalate path.parts

@[simp] theorem parent_child (path : PurePath) (name : String) :
    (path.child name).parent = path := by
  simp [parent, child]

@[simp] theorem name_child (path : PurePath) (text : String) : (path.child text).name = text := by
  simp [name, child]

theorem child_inj {p q : PurePath} {a b : String} (h : p.child a = q.child b) : p = q ∧ a = b := by
  have hparent : (p.child a).parent = (q.child b).parent := by rw [h]
  have hname : (p.child a).name = (q.child b).name := by rw [h]
  rw [parent_child, parent_child] at hparent
  rw [name_child, name_child] at hname
  exact ⟨hparent, hname⟩

def IsPart (part : String) : Prop := part ≠ "" ∧ part ≠ "." ∧ '/' ∉ part.toList

instance : DecidablePred IsPart := fun part =>
  inferInstanceAs (Decidable (part ≠ "" ∧ part ≠ "." ∧ '/' ∉ part.toList))

/-- A path as `Path` keeps it. -/
def Normal (path : PurePath) : Prop := ∀ part ∈ path.parts, IsPart part

instance (path : PurePath) : Decidable path.Normal :=
  inferInstanceAs (Decidable (∀ part ∈ path.parts, IsPart part))

theorem Normal.child {path : PurePath} {text : String} (h : path.Normal) (htext : IsPart text) :
    (path.child text).Normal := by
  intro part hpart
  rcases List.mem_append.mp hpart with hold | hnew
  · exact h part hold
  · rwa [List.mem_singleton.mp hnew]

theorem splitOn_intercalate_parts {parts : List String} (hne : parts ≠ [])
    (h : ∀ part ∈ parts, '/' ∉ part.toList) :
    (("/".intercalate parts).toList.splitOn '/').map String.ofList = parts := by
  have hslash : "/".toList = ['/'] := rfl
  have hplain : ∀ cs ∈ parts.map String.toList, '/' ∉ cs := by
    intro cs hcs
    obtain ⟨part, hpart, rfl⟩ := List.mem_map.mp hcs
    exact h part hpart
  rw [String.toList_intercalate, hslash,
    List.splitOn_intercalate '/' hplain (by simpa using hne), List.map_map]
  exact (List.map_congr_left fun _ _ => String.ofList_toList).trans (List.map_id _)

/-- A path is read back from its text. -/
theorem ofText_asPosix {path : PurePath} (h : path.Normal) (hne : path.parts ≠ []) :
    ofText path.asPosix = path := by
  have hkeep : path.parts.filter (fun part => part ≠ "" ∧ part ≠ ".") = path.parts :=
    List.filter_eq_self.mpr fun part hpart => decide_eq_true ⟨(h part hpart).1, (h part hpart).2.1⟩
  have hplain : ∀ part ∈ path.parts, '/' ∉ part.toList := fun part hpart => (h part hpart).2.2
  obtain ⟨absolute, parts⟩ := path
  rw [asPosix, if_neg hne, ofText, PurePath.mk.injEq]
  cases absolute with
  | true =>
    have htext : "/" ++ "/".intercalate parts = "/".intercalate ("" :: parts) := by
      rw [String.intercalate_cons_of_ne_nil hne, String.empty_append]
    have hsplit := splitOn_intercalate_parts (List.cons_ne_nil "" parts)
      (List.forall_mem_cons.mpr ⟨List.not_mem_nil, hplain⟩)
    rw [if_pos rfl, htext, hsplit, ← htext, String.toList_append]
    exact ⟨rfl, hkeep⟩
  | false =>
    rw [if_neg Bool.false_ne_true, String.empty_append, splitOn_intercalate_parts hne hplain]
    refine ⟨?_, hkeep⟩
    obtain ⟨part, rest, rfl⟩ := List.exists_cons_of_ne_nil hne
    have hpart := h part List.mem_cons_self
    obtain ⟨c, cs, hcs⟩ := List.exists_cons_of_ne_nil (fun hnil => hpart.1
      (String.toList_eq_nil_iff.mp hnil))
    have hc : c ≠ '/' := fun hc => hpart.2.2 (by rw [hcs, hc]; exact List.mem_cons_self)
    have hhead : ("/".intercalate (part :: rest)).toList.head? = some c := by
      rw [String.toList_intercalate, List.map_cons, hcs]
      cases rest with
      | nil => rfl
      | cons next rest => simp [List.intercalate_cons_cons]
    rw [hhead]
    simpa using hc

end PurePath

namespace Disk
variable {d : Disk} {p q : PurePath} {contents : List UInt8}

def get (d : Disk) (path : PurePath) : Option Entry :=
  if path.parts = [] then some .directory else d.entries path

/-- The contents of a file; `none` also where there is a directory. -/
def read (d : Disk) (path : PurePath) : Option (List UInt8) :=
  match d.get path with
  | some (.file contents) => some contents
  | _ => none

/-- `path` is `base` or one of the directories above it. -/
def leadsTo (path base : PurePath) : Bool :=
  path.absolute == base.absolute && path.parts.isPrefixOf base.parts

/-- `mkdir(parents=True, exist_ok=True)`; `none` where a file is in the way. -/
def mkdir (d : Disk) (base : PurePath) : Option Disk :=
  if base.parts.inits.any fun parts => (d.read ⟨base.absolute, parts⟩).isSome then none
  else some ⟨fun path => if leadsTo path base then some .directory else d.entries path⟩

/-- `os.replace` of a file that was written to the side. -/
def replace (d : Disk) (path : PurePath) (contents : List UInt8) : Option Disk :=
  if d.get path = some .directory then none
  else some ⟨fun q => if q = path then some (.file contents) else d.entries q⟩

/-- A file written to the side, in a directory that is made on the way, and renamed into place. -/
def atomicWrite (d : Disk) (path : PurePath) (contents : List UInt8) : Option Disk :=
  (d.mkdir path.parent).bind fun d => d.replace path contents

/-- The files of a directory whose names pass a test are removed. -/
def unlinkIn (d : Disk) (base : PurePath) (test : String → Bool) : Disk :=
  ⟨fun path => if path.parent = base ∧ test path.name = true ∧ (d.read path).isSome then none
    else d.entries path⟩

theorem read_eq_some : d.read p = some contents ↔ d.get p = some (.file contents) := by
  unfold read
  split
  · next c h => rw [h, Option.some_inj, Option.some_inj, Entry.file.injEq]
  · next h =>
    refine iff_of_false (by simp) fun hc => h contents hc

theorem read_empty (p : PurePath) : Disk.read ⟨fun _ => none⟩ p = none := by
  unfold read get
  split
  · next heq =>
    split at heq
    · cases heq
    · cases heq
  · rfl

theorem get_of_parts (h : p.parts ≠ []) : d.get p = d.entries p := if_neg h

theorem read_of_parts_eq_nil (h : p.parts = []) : d.read p = none := by
  rw [read, get, if_pos h]

/-- A directory is made where no file is in the way, and all files stay. -/
theorem mkdir_spec {e : Disk} (h : d.mkdir p = some e) :
    e.get p = some .directory ∧ ∀ q, e.read q = d.read q := by
  unfold mkdir at h
  split at h
  · cases h
  · next hfree =>
    obtain rfl := Option.some.inj h
    refine ⟨?_, fun q => ?_⟩
    · unfold get
      split
      · rfl
      · exact if_pos (by simp [leadsTo])
    · by_cases hlead : leadsTo q p = true
      · have hdir : d.read q = none := by
          simp only [List.any_eq_true, not_exists, not_and, List.mem_inits] at hfree
          rw [leadsTo, Bool.and_eq_true, beq_iff_eq, List.isPrefixOf_iff_prefix] at hlead
          have hq := hfree q.parts hlead.2
          rw [← hlead.1] at hq
          simpa using hq
        rw [hdir, read, get]
        split
        · next h =>
          split at h
          · cases h
          · dsimp only at h
            rw [if_pos hlead] at h
            cases h
        · rfl
      · rw [read, read, get, get]
        dsimp only
        rw [if_neg hlead]

theorem replace_spec {e : Disk} (h : d.replace p contents = some e) :
    e.read p = some contents ∧ ∀ q, q ≠ p → e.get q = d.get q := by
  unfold replace at h
  split at h
  · cases h
  · next hdir =>
    obtain rfl := Option.some.inj h
    have hparts : p.parts ≠ [] := fun hnil => hdir (if_pos hnil)
    refine ⟨?_, fun q hq => ?_⟩
    · rw [read_eq_some, get_of_parts hparts]
      exact if_pos rfl
    · unfold get
      dsimp only
      rw [if_neg hq]

theorem atomicWrite_spec {e : Disk} (h : d.atomicWrite p contents = some e) :
    e.read p = some contents ∧ ∀ q, q ≠ p → e.read q = d.read q := by
  obtain ⟨made, hmkdir, hreplace⟩ := Option.bind_eq_some_iff.mp h
  obtain ⟨hwritten, hothers⟩ := replace_spec hreplace
  refine ⟨hwritten, fun q hq => ?_⟩
  rw [← (mkdir_spec hmkdir).2 q, read, read, hothers q hq]

theorem read_unlinkIn (d : Disk) (base : PurePath) (test : String → Bool) (q : PurePath) :
    (d.unlinkIn base test).read q =
      if q.parent = base ∧ test q.name = true then none else d.read q := by
  by_cases hparts : q.parts = []
  · rw [read_of_parts_eq_nil hparts, read_of_parts_eq_nil hparts, ite_self]
  · by_cases hq : q.parent = base ∧ test q.name = true
    · rw [if_pos hq, read, get_of_parts hparts, unlinkIn]
      dsimp only
      split
      · next c h =>
        split at h
        · cases h
        · next hkeep =>
          refine absurd ⟨hq.1, hq.2, ?_⟩ hkeep
          rw [read, get_of_parts hparts, h]
          rfl
      · rfl
    · rw [if_neg hq, read, read, get_of_parts hparts, get_of_parts hparts, unlinkIn]
      dsimp only
      rw [if_neg fun h => hq ⟨h.1, h.2.1⟩]

/-- Files are at paths of `F` alone, and no directory is at one. -/
structure Apart (F : PurePath → Prop) (d : Disk) : Prop where
  files : ∀ path contents, d.read path = some contents → F path
  directories : ∀ path, d.get path = some .directory → ¬F path

variable {F : PurePath → Prop}

theorem apart_empty (h : ∀ path, F path → path.parts ≠ []) : Apart F ⟨fun _ => none⟩ where
  files path contents hread := by
    rw [read_empty] at hread
    cases hread
  directories path hdir hpath := by
    rw [get_of_parts (h path hpath)] at hdir
    cases hdir

/-- A directory can be made where none of the paths above it is for files. -/
theorem Apart.mkdir (h : d.Apart F) (hp : ∀ parts ∈ p.parts.inits, ¬F ⟨p.absolute, parts⟩) :
    ∃ e, d.mkdir p = some e ∧ e.Apart F := by
  have hfree : ¬(p.parts.inits.any fun parts => (d.read ⟨p.absolute, parts⟩).isSome) = true := by
    intro hany
    obtain ⟨parts, hparts, hsome⟩ := List.any_eq_true.mp hany
    obtain ⟨contents, hread⟩ := Option.isSome_iff_exists.mp hsome
    exact hp parts hparts (h.files _ contents hread)
  obtain ⟨e, hmade⟩ : ∃ e, d.mkdir p = some e := ⟨_, if_neg hfree⟩
  refine ⟨e, hmade, ⟨fun q contents hread => ?_, fun q hdir hq => ?_⟩⟩
  · rw [(mkdir_spec hmade).2] at hread
    exact h.files q contents hread
  · have hparts : q.parts ≠ [] := fun hnil => h.directories q (if_pos hnil) hq
    obtain rfl := Option.some.inj ((if_neg hfree).symm.trans hmade)
    rw [get_of_parts hparts] at hdir
    dsimp only at hdir
    split at hdir
    · next hlead =>
      rw [leadsTo, Bool.and_eq_true, beq_iff_eq, List.isPrefixOf_iff_prefix] at hlead
      refine hp q.parts ((List.mem_inits _ _).mpr hlead.2) ?_
      rw [← hlead.1]
      exact hq
    · exact h.directories q ((get_of_parts hparts).trans hdir) hq

theorem Apart.replace (h : d.Apart F) (hp : F p) (contents : List UInt8) :
    ∃ e, d.replace p contents = some e ∧ e.Apart F := by
  obtain ⟨e, hput⟩ : ∃ e, d.replace p contents = some e :=
    ⟨_, if_neg fun hdir => h.directories p hdir hp⟩
  obtain ⟨hwritten, hothers⟩ := replace_spec hput
  refine ⟨e, hput, ⟨fun q found hread => ?_, fun q hdir hq => ?_⟩⟩
  · by_cases heq : q = p
    · exact heq ▸ hp
    · rw [read, hothers q heq] at hread
      exact h.files q found hread
  · by_cases heq : q = p
    · rw [heq, read_eq_some.mp hwritten] at hdir
      cases hdir
    · exact h.directories q ((hothers q heq).symm.trans hdir) hq

theorem Apart.atomicWrite (h : d.Apart F) (hp : F p)
    (hparent : ∀ parts ∈ p.parent.parts.inits, ¬F ⟨p.parent.absolute, parts⟩)
    (contents : List UInt8) : ∃ e, d.atomicWrite p contents = some e ∧ e.Apart F := by
  obtain ⟨made, hmkdir, hmade⟩ := h.mkdir hparent
  obtain ⟨e, hreplace, he⟩ := hmade.replace hp contents
  exact ⟨e, Option.bind_eq_some_iff.mpr ⟨made, hmkdir, hreplace⟩, he⟩

theorem Apart.unlinkIn (h : d.Apart F) (base : PurePath) (test : String → Bool) :
    (d.unlinkIn base test).Apart F where
  files q contents hread := by
    rw [read_unlinkIn] at hread
    split at hread
    · cases hread
    · exact h.files q contents hread
  directories q hdir hq := by
    have hparts : q.parts ≠ [] := fun hnil => h.directories q (if_pos hnil) hq
    rw [get_of_parts hparts] at hdir
    dsimp only [Disk.unlinkIn] at hdir
    split at hdir
    · cases hdir
    · exact h.directories q ((get_of_parts hparts).trans hdir) hq

end Disk

end Files
