import Mathlib.Data.List.DropRight
import MentorAllocation.Text.Python

namespace Text

/-- What Unicode promises of its normalization forms: a text once normalised stays as it
is, and so does every part of it. -/
structure NormalForm (normalize : String → String) : Prop where
  idem : ∀ s, normalize (normalize s) = normalize s
  part : ∀ s t, normalize s = s → t.toList <:+: s.toList → normalize t = t

theorem normalForm_id : NormalForm id := ⟨fun _ => rfl, fun _ _ _ _ => rfl⟩

/-- What Unicode promises of ASCII texts: they are in every normalization form. -/
def KeepsAscii (normalize : String → String) : Prop :=
  ∀ s : String, (∀ c ∈ s.toList, c.toNat < 128) → normalize s = s

theorem keepsAscii_id : KeepsAscii id := fun _ _ => rfl

theorem remove_of_none {cs : List Char} {s : String}
    (h : ∀ c ∈ s.toList, cs.contains c = false) : remove cs s = s := by
  have hfilter : s.toList.filter (fun c => !cs.contains c) = s.toList :=
    List.filter_eq_self.mpr fun c hc => by rw [h c hc]; rfl
  rw [remove, hfilter, String.ofList_toList]

theorem translate_of_none {table : List (Char × Char)} {s : String}
    (h : ∀ c ∈ s.toList, table.lookup c = none) : Text.translate table s = s := by
  have hmap : s.toList.map (fun c => (table.lookup c).getD c) = s.toList := by
    refine (List.map_congr_left fun c hc => ?_).trans (List.map_id _)
    rw [h c hc]
    rfl
  rw [Text.translate, hmap, String.ofList_toList]

theorem strip_toList (s : String) :
    (strip s).toList = (s.toList.dropWhile isSpace).rdropWhile isSpace :=
  String.toList_ofList

theorem strip_part (s : String) : (strip s).toList <:+: s.toList := by
  rw [strip_toList]
  exact (List.rdropWhile_prefix isSpace _).isInfix.trans (List.dropWhile_suffix isSpace).isInfix

/-- What is left of a text on the left keeps its first character when the right is cut. -/
theorem dropWhile_rdropWhile (p : Char → Bool) (l : List Char) :
    ((l.dropWhile p).rdropWhile p).dropWhile p = (l.dropWhile p).rdropWhile p := by
  obtain ⟨cut, hcut⟩ := List.rdropWhile_prefix p (l.dropWhile p)
  cases hr : (l.dropWhile p).rdropWhile p with
  | nil => rfl
  | cons c rest =>
    rw [hr, List.cons_append] at hcut
    have hc : p c = false := by
      have := List.head?_dropWhile_not p l
      rw [← hcut] at this
      simpa using this
    simp [hc]

theorem strip_strip (s : String) : strip (strip s) = strip s := by
  rw [← String.toList_inj, strip_toList, strip_toList, dropWhile_rdropWhile,
    List.rdropWhile_idempotent]

/-- Normalising and then stripping is done in one go. -/
theorem NormalForm.strip_idem {normalize : String → String} (hn : NormalForm normalize)
    (s : String) : strip (normalize (strip (normalize s))) = strip (normalize s) := by
  rw [hn.part (normalize s) _ (hn.idem s) (strip_part _), strip_strip]

end Text
