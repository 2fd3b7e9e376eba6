import Mathlib.Data.List.Basic

namespace Files

inductive Errno where
  | noent
  | notdir
  | loop
  | exist
  | isdir
  | notempty
  deriving DecidableEq, Repr

/-- A place in the tree, by the names that lead to it from the root. -/
abbrev Location := List String

/-- A path as it is written down. -/
structure PurePath where
  absolute : Bool
  parts : List String
  deriving DecidableEq, Repr

/-- Where following a path begins for someone who stands at `here`. -/
def PurePath.base (path : PurePath) (here : Location) : Location :=
  if path.absolute then [] else here

inductive Node (α : Type) where
  | directory
  | file (contents : α)
  | link (target : PurePath)
  deriving DecidableEq, Repr

/-- A file system by its entries; the root is a directory that needs none. -/
structure FileTree (α : Type) where
  entries : List (Location × Node α)
  deriving DecidableEq, Repr

namespace FileTree
variable {α : Type}

def get (t : FileTree α) (l : Location) : Option (Node α) := t.entries.lookup l

def restrict (t : FileTree α) (keep : Location → Bool) : FileTree α :=
  ⟨t.entries.filter fun e => keep e.1⟩

def erase (t : FileTree α) (l : Location) : FileTree α := t.restrict (· != l)

def put (t : FileTree α) (l : Location) (n : Node α) : FileTree α := ⟨(l, n) :: (t.erase l).entries⟩

def isDirectory (t : FileTree α) (l : Location) : Bool :=
  l.isEmpty || match t.get l with
    | some .directory => true
    | _ => false

theorem isDirectory_iff {t : FileTree α} {l : Location} :
    t.isDirectory l = true ↔ l = [] ∨ t.get l = some .directory := by
  simp only [isDirectory, Bool.or_eq_true, List.isEmpty_iff]
  refine or_congr_right ?_
  split <;> simp_all

theorem get_restrict (t : FileTree α) (keep : Location → Bool) (l : Location) :
    (t.restrict keep).get l = if keep l then t.get l else none := by
  obtain ⟨entries⟩ := t
  simp only [get, restrict]
  induction entries with
  | nil => simp
  | cons e es ih =>
    obtain ⟨k, n⟩ := e
    by_cases hk : keep k = true
    · rw [List.filter_cons_of_pos (by simpa using hk), List.lookup_cons, List.lookup_cons, ih]
      by_cases hl : l = k
      · simp [hl, hk]
      · simp [beq_eq_false_iff_ne.mpr hl]
    · rw [List.filter_cons_of_neg (by simpa using hk), ih]
      by_cases hl : l = k
      · simp [hl, hk]
      · simp [List.lookup_cons, beq_eq_false_iff_ne.mpr hl]

theorem get_erase (t : FileTree α) (l m : Location) :
    (t.erase l).get m = if m = l then none else t.get m := by
  rw [erase, get_restrict]
  by_cases hm : m = l <;> simp [hm]

theorem get_put (t : FileTree α) (l m : Location) (n : Node α) :
    (t.put l n).get m = if m = l then some n else t.get m := by
  by_cases hm : m = l
  · simp [get, put, hm]
  · have h := get_erase t l m
    simp only [get, put, List.lookup_cons, beq_eq_false_iff_ne.mpr hm] at h ⊢
    simpa [hm] using h

def move (t : FileTree α) (a b : Location) : FileTree α :=
  ⟨(t.erase b).entries.map fun e => if a.isPrefixOf e.1 then (b ++ e.1.drop a.length, e.2) else e⟩

def isEmptyAt (t : FileTree α) (l : Location) : Bool :=
  t.entries.all fun e => !(l.isPrefixOf e.1 && e.1 != l)

def rename (t : FileTree α) (a b : Location) : Except Errno (FileTree α) :=
  if !t.isDirectory b.dropLast then .error .noent
  else match t.get a, t.get b with
    | none, _ => .error .noent
    | some .directory, none => .ok (t.move a b)
    | some .directory, some .directory =>
      if t.isEmptyAt b then .ok (t.move a b) else .error .notempty
    | some .directory, some _ => .error .notdir
    | some _, some .directory => .error .isdir
    | some n, _ => .ok ((t.erase a).put b n)

def symlink (t : FileTree α) (target : PurePath) (l : Location) : Except Errno (FileTree α) :=
  if !t.isDirectory l.dropLast then .error .noent
  else match t.get l with
    | some _ => .error .exist
    | none => .ok (t.put l (.link target))

def unlink (t : FileTree α) (l : Location) : Except Errno (FileTree α) :=
  match t.get l with
  | none => .error .noent
  | some .directory => .error .isdir
  | some _ => .ok (t.erase l)

/-- A file written to the side and renamed into place. -/
def install (t : FileTree α) (l : Location) (contents : α) : Except Errno (FileTree α) :=
  if !t.isDirectory l.dropLast then .error .noent
  else match t.get l with
    | some .directory => .error .isdir
    | _ => .ok (t.put l (.file contents))

/-- Following a path by its parts; what a link leads to is left to `follow`. -/
def walk (t : FileTree α) (follow : Location → List String → Except Errno Location) :
    Location → List String → Except Errno Location
  | here, [] => .ok here
  | here, part :: rest =>
    if part = ".." then walk t follow here.dropLast rest
    else match t.get (here ++ [part]) with
      | none => .error .noent
      | some .directory => walk t follow (here ++ [part]) rest
      | some (.file _) => if rest.isEmpty then .ok (here ++ [part]) else .error .notdir
      | some (.link target) => follow (target.base here) (target.parts ++ rest)

/-- Where the parts of a path lead from a directory, over at most `links` links. -/
def resolve (t : FileTree α) : (links : Nat) → Location → List String → Except Errno Location
  | 0 => t.walk fun _ _ => .error .loop
  | links + 1 => t.walk (t.resolve links)

/-- Everything in the one tree is in the other. -/
def Within (s t : FileTree α) : Prop := ∀ l n, s.get l = some n → t.get l = some n

section
variable {s t : FileTree α} {here d : Location} {parts : List String} {links : Nat}

theorem rename_link {a b : Location} {target : PurePath} (hdir : t.isDirectory b.dropLast = true)
    (ha : t.get a = some (.link target)) (hb : t.get b ≠ some .directory) :
    t.rename a b = .ok ((t.erase a).put b (.link target)) := by
  simp only [rename, hdir, ha]
  cases hn : t.get b with
  | none => simp
  | some n => cases n <;> simp_all

theorem symlink_ok {l : Location} {target : PurePath} (hdir : t.isDirectory l.dropLast = true)
    (hl : t.get l = none) : t.symlink target l = .ok (t.put l (.link target)) := by
  simp [symlink, hdir, hl]

theorem install_ok {l : Location} {contents : α} (hdir : t.isDirectory l.dropLast = true)
    (hl : t.get l ≠ some .directory) :
    t.install l contents = .ok (t.put l (.file contents)) := by
  simp only [install, hdir]
  cases hn : t.get l with
  | none => simp
  | some n => cases n <;> simp_all

/-- A path that leads somewhere leads there still when entries are added. -/
theorem walk_within {f g : Location → List String → Except Errno Location} (h : s.Within t)
    (hfg : ∀ here parts d, f here parts = .ok d → g here parts = .ok d)
    (hw : s.walk f here parts = .ok d) : t.walk g here parts = .ok d := by
  induction parts generalizing here with
  | nil => simpa [walk] using hw
  | cons part rest ih =>
    simp only [walk] at hw ⊢
    split at hw
    · rename_i hup
      rw [if_pos hup]
      exact ih hw
    · rename_i hup
      rw [if_neg hup]
      cases hn : s.get (here ++ [part]) with
      | none => simp [hn] at hw
      | some n =>
        rw [h _ n hn]
        rw [hn] at hw
        cases n with
        | directory => exact ih hw
        | file c => exact hw
        | link target => exact hfg _ _ _ hw

theorem resolve_within (h : s.Within t) (hr : s.resolve links here parts = .ok d) :
    t.resolve links here parts = .ok d := by
  induction links generalizing here parts d with
  | zero => exact walk_within h (fun _ _ _ hf => hf) hr
  | succ links ih => exact walk_within h (fun _ _ _ hf => ih hf) hr

/-- A place that is a directory together with everything on the way to it. -/
structure Real (t : FileTree α) (l : Location) : Prop where
  noUp : ".." ∉ l
  directories : ∀ m, m <+: l → t.isDirectory m = true

theorem real_nil : t.Real [] :=
  ⟨List.not_mem_nil, fun _ hm => isDirectory_iff.mpr (.inl (List.prefix_nil.mp hm))⟩

theorem Real.dropLast (h : t.Real here) : t.Real here.dropLast :=
  ⟨fun hm => h.noUp ((List.dropLast_prefix here).subset hm),
    fun m hm => h.directories m (hm.trans (List.dropLast_prefix here))⟩

theorem Real.append {part : String} (h : t.Real here) (hup : part ≠ "..")
    (hd : t.get (here ++ [part]) = some .directory) : t.Real (here ++ [part]) := by
  constructor
  · simpa using ⟨h.noUp, hup.symm⟩
  · intro m hm
    rcases List.prefix_concat_iff.mp hm with rfl | hm
    · exact isDirectory_iff.mpr (.inr hd)
    · exact h.directories m hm

theorem isDirectory_within (hst : s.Within t) (h : s.isDirectory d = true) :
    t.isDirectory d = true :=
  isDirectory_iff.mpr ((isDirectory_iff.mp h).imp id (hst d .directory))

theorem Real.within (hst : s.Within t) (h : s.Real d) : t.Real d :=
  ⟨h.noUp, fun m hm => isDirectory_within hst (h.directories m hm)⟩

theorem walk_real {f : Location → List String → Except Errno Location} (h : t.Real here)
    (hf : ∀ here parts d, t.Real here → f here parts = .ok d → t.isDirectory d = true → t.Real d)
    (hw : t.walk f here parts = .ok d) (hd : t.isDirectory d = true) : t.Real d := by
  induction parts generalizing here with
  | nil =>
    simp only [walk, Except.ok.injEq] at hw
    exact hw ▸ h
  | cons part rest ih =>
    simp only [walk] at hw
    split at hw
    · exact ih h.dropLast hw
    · rename_i hup
      cases hn : t.get (here ++ [part]) with
      | none => simp [hn] at hw
      | some n =>
        rw [hn] at hw
        cases n with
        | directory => exact ih (h.append hup hn) hw
        | file c =>
          simp only [List.isEmpty_iff] at hw
          split at hw
          · cases hw
            simp [isDirectory_iff, hn] at hd
          · cases hw
        | link target =>
          refine hf _ _ _ ?_ hw hd
          unfold PurePath.base
          split
          · exact real_nil
          · exact h

/-- What a path resolves to is reached without links. -/
theorem resolve_real (h : t.Real here) (hr : t.resolve links here parts = .ok d)
    (hd : t.isDirectory d = true) : t.Real d := by
  induction links generalizing here parts d with
  | zero => exact walk_real h (fun _ _ _ _ hf => by cases hf) hr hd
  | succ links ih => exact walk_real h (fun _ _ _ h hf hd => ih h hf hd) hr hd

theorem walk_of_real {f : Location → List String → Except Errno Location}
    (h : t.Real (here ++ parts)) : t.walk f here parts = .ok (here ++ parts) := by
  induction parts generalizing here with
  | nil => simp [walk]
  | cons part rest ih =>
    have hup : part ≠ ".." := fun he => h.noUp (by simp [he])
    have hd : t.get (here ++ [part]) = some .directory := by
      simpa [isDirectory_iff] using h.directories (here ++ [part]) (by simp)
    simp only [walk, if_neg hup, hd]
    rw [ih (by simpa using h)]
    simp

theorem resolve_of_real (h : t.Real d) : t.resolve links [] d = .ok d := by
  cases links with
  | zero => exact walk_of_real h
  | succ links => exact walk_of_real h

end

end FileTree

end Files
