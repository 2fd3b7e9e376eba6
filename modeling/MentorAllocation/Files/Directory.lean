import Mathlib.Data.List.AList

namespace Files

/-- A directory, where names lead to files that are kept apart from it: who has opened a
file still has it when its name is gone or leads elsewhere. -/
structure Directory (κ α : Type) [DecidableEq κ] where
  names : AList fun _ : κ => Nat
  files : List α
  bounded : ∀ p h, names.lookup p = some h → h < files.length
  inj : ∀ p q h, names.lookup p = some h → names.lookup q = some h → p = q

namespace Directory
variable {κ α : Type} [DecidableEq κ]

def empty : Directory κ α where
  names := ∅
  files := []
  bounded := by simp
  inj := by simp

def find (d : Directory κ α) (p : κ) : Option Nat := d.names.lookup p

def get (d : Directory κ α) (h : Nat) : Option α := d.files[h]?

def read (d : Directory κ α) (p : κ) : Option α := (d.find p).bind d.get

def erase (d : Directory κ α) (p : κ) : Directory κ α where
  names := d.names.erase p
  files := d.files
  bounded := by
    intro q h hq
    by_cases hp : q = p
    · subst hp
      simp at hq
    · rw [AList.lookup_erase_ne hp] at hq
      exact d.bounded q h hq
  inj := by
    intro q r h hq hr
    by_cases hp : q = p
    · subst hp
      simp at hq
    · by_cases hp' : r = p
      · subst hp'
        simp at hr
      · rw [AList.lookup_erase_ne hp] at hq
        rw [AList.lookup_erase_ne hp'] at hr
        exact d.inj q r h hq hr

def eraseAll (d : Directory κ α) (ps : List κ) : Directory κ α := ps.foldl erase d

def create (d : Directory κ α) (p : κ) (a : α) : Directory κ α where
  names := d.names.insert p d.files.length
  files := d.files ++ [a]
  bounded := by
    intro q h hq
    by_cases hp : q = p
    · subst hp
      simp only [AList.lookup_insert, Option.some.injEq] at hq
      simp [← hq]
    · rw [AList.lookup_insert_ne hp] at hq
      have := d.bounded q h hq
      simp only [List.length_append, List.length_singleton]
      omega
  inj := by
    intro q r h hq hr
    by_cases hp : q = p
    · by_cases hp' : r = p
      · rw [hp, hp']
      · subst hp
        rw [AList.lookup_insert_ne hp'] at hr
        simp only [AList.lookup_insert, Option.some.injEq] at hq
        have := d.bounded r h hr
        omega
    · by_cases hp' : r = p
      · subst hp'
        rw [AList.lookup_insert_ne hp] at hq
        simp only [AList.lookup_insert, Option.some.injEq] at hr
        have := d.bounded q h hq
        omega
      · rw [AList.lookup_insert_ne hp] at hq
        rw [AList.lookup_insert_ne hp'] at hr
        exact d.inj q r h hq hr

def put (d : Directory κ α) (h : Nat) (a : α) : Directory κ α where
  names := d.names
  files := d.files.set h a
  bounded := by
    intro q k hq
    rw [List.length_set]
    exact d.bounded q k hq
  inj := d.inj

/-- Opening for writing: a file that is there is emptied, else there is a new one. -/
def openBlank (d : Directory κ α) (p : κ) (blank : α) : Nat × Directory κ α :=
  match d.find p with
  | some h => (h, d.put h blank)
  | none => (d.files.length, d.create p blank)

/-- The second name now leads to the file of the first, which goes. -/
def relink (d : Directory κ α) (p q : κ) (h : Nat) (hp : d.find p = some h) : Directory κ α where
  names := (d.names.erase p).insert q h
  files := d.files
  bounded := by
    intro r k hr
    by_cases hq : r = q
    · subst hq
      simp only [AList.lookup_insert, Option.some.injEq] at hr
      exact hr ▸ d.bounded p h hp
    · rw [AList.lookup_insert_ne hq] at hr
      exact (d.erase p).bounded r k hr
  inj := by
    have fresh : ∀ r k, (d.names.erase p).lookup r = some k → k ≠ h := by
      rintro r k hr rfl
      by_cases hrp : r = p
      · subst hrp
        simp at hr
      · rw [AList.lookup_erase_ne hrp] at hr
        exact hrp (d.inj r p k hr hp)
    intro r t k hr ht
    by_cases hq : r = q
    · by_cases hq' : t = q
      · rw [hq, hq']
      · subst hq
        rw [AList.lookup_insert_ne hq'] at ht
        simp only [AList.lookup_insert, Option.some.injEq] at hr
        exact absurd hr.symm (fresh t k ht)
    · by_cases hq' : t = q
      · subst hq'
        rw [AList.lookup_insert_ne hq] at hr
        simp only [AList.lookup_insert, Option.some.injEq] at ht
        exact absurd ht.symm (fresh r k hr)
      · rw [AList.lookup_insert_ne hq] at hr
        rw [AList.lookup_insert_ne hq'] at ht
        exact (d.erase p).inj r t k hr ht

/-- A name put in another's place, where it leads to a file. -/
def rename (d : Directory κ α) (p q : κ) : Option (Directory κ α) :=
  match hp : d.find p with
  | none => none
  | some h => some (d.relink p q h hp)

end Directory

end Files
