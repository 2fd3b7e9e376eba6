import MentorAllocation.Data.Trim
import MentorAllocation.Phase3.Policy
import MentorAllocation.Text.Formula

namespace Phase3
open Data Text

/-- Whitespace, and the zero-width characters that the policy removes. -/
def decoration (c : Char) : Bool := isSpace c || zeroWidthChars.contains c

/-- The whitespace before the first visible character that `strip` leaves, for a zero-width
character before it. -/
def shieldedStart (s : String) : List Char :=
  ((strip s).toList.takeWhile decoration).filter isSpace

/-- The whitespace after the last visible character that `strip` leaves. -/
def shieldedEnd (s : String) : List Char :=
  ((strip s).toList.rtakeWhile decoration).filter isSpace

def foldChar (c : Char) : Char :=
  let c := ([('\u0643', 'ک'), ('\u064a', 'ی')].lookup c).getD c
  (easternDigits.lookup c).getD c

def visible (c : Char) : Bool := !zeroWidthChars.contains c

theorem normalizeStr_toList (s : String) :
    (normalizeStr s).toList = ((strip s).toList.filter visible).map foldChar := by
  simp only [normalizeStr, Text.translate, remove, String.toList_ofList, List.map_map]
  rfl

theorem strip_eq_trim (s : String) : (strip s).toList = trim isSpace s.toList := strip_toList s

theorem foldChar_class {p : Char → Bool}
    (hletters : ∀ e ∈ [('\u0643', 'ک'), ('\u064a', 'ی')], p e.2 = p e.1)
    (hdigits : ∀ e ∈ easternDigits, p e.2 = p e.1) (c : Char) : p (foldChar c) = p c := by
  rw [foldChar, class_translate hdigits, class_translate hletters]

theorem isSpace_foldChar (c : Char) : isSpace (foldChar c) = isSpace c :=
  foldChar_class (by decide) (by decide) c

theorem visible_foldChar (c : Char) : visible (foldChar c) = visible c :=
  foldChar_class (by decide) (by decide) c

theorem foldChar_space {c : Char} (h : isSpace c = true) : foldChar c = c := by
  have hnone : ∀ table : List (Char × Char), (∀ e ∈ table, isSpace e.1 = false) →
      table.lookup c = none := by
    intro table htable
    refine List.lookup_eq_none_iff.mpr fun e he => ?_
    by_contra hne
    have := htable e he
    rw [← (by simpa using hne : c = e.1), h] at this
    cases this
  simp only [foldChar, hnone _ (by decide : ∀ e ∈ [('\u0643', 'ک'), ('\u064a', 'ی')], _),
    hnone easternDigits (by decide), Option.getD_none]

theorem foldChar_foldChar (c : Char) : foldChar (foldChar c) = foldChar c := by
  have hletters : ∀ e ∈ [('\u0643', 'ک'), ('\u064a', 'ی')], easternDigits.lookup e.2 = none ∧
      foldChar e.2 = e.2 := by decide
  have hdigits : ∀ e ∈ easternDigits, foldChar e.2 = e.2 := by decide
  cases hd : easternDigits.lookup (([('\u0643', 'ک'), ('\u064a', 'ی')].lookup c).getD c) with
  | some d =>
    have hfold : foldChar c = d := by rw [foldChar, hd, Option.getD_some]
    rw [hfold]
    exact hdigits _ (lookup_mem hd)
  | none =>
    cases hl : [('\u0643', 'ک'), ('\u064a', 'ی')].lookup c with
    | some v =>
      rw [hl, Option.getD_some] at hd
      have hfold : foldChar c = v := by
        simp only [foldChar, hl, Option.getD_some, hd, Option.getD_none]
      rw [hfold]
      exact (hletters _ (lookup_mem hl)).2
    | none =>
      rw [hl, Option.getD_none] at hd
      have hfold : foldChar c = c := by simp only [foldChar, hl, Option.getD_none, hd]
      rw [hfold, hfold]

theorem decoration_of_space {c : Char} (h : isSpace c = true) : decoration c = true := by
  rw [decoration, h, Bool.true_or]

theorem visible_of_not_decoration {c : Char} (h : decoration c = false) : visible c = true := by
  rw [decoration, Bool.or_eq_false_iff] at h
  rw [visible, h.2, Bool.not_false]

theorem visible_decoration {c : Char} (h : decoration c = true) : visible c = isSpace c := by
  have hzero : ∀ c ∈ zeroWidthChars, isSpace c = false := by decide
  cases hc : zeroWidthChars.contains c with
  | true => rw [visible, hc, hzero c (List.contains_iff_mem.mp hc), Bool.not_true]
  | false =>
    rw [decoration, hc, Bool.or_false] at h
    rw [visible, hc, h, Bool.not_false]

/-- What is left of decoration is its whitespace. -/
theorem fold_decoration {l : List Char} (h : ∀ c ∈ l, decoration c = true) :
    (l.filter visible).map foldChar = l.filter isSpace := by
  have hfilter : l.filter visible = l.filter isSpace :=
    List.filter_congr fun c hc => visible_decoration (h c hc)
  rw [hfilter]
  conv_rhs => rw [← List.map_id (l.filter isSpace)]
  exact List.map_congr_left fun c hc => foldChar_space (List.mem_filter.mp hc).2

/-- What becomes of the part of a text between its decoration. -/
def seen (m : List Char) : List Char := (m.filter visible).map foldChar

theorem seen_bare {m : List Char} (h : Bare decoration m) : Bare isSpace (seen m) :=
  ((h.filter fun _ => visible_of_not_decoration).weaken fun _ => decoration_of_space).map
    isSpace_foldChar

theorem seen_seen (m : List Char) : seen (seen m) = seen m := by
  have hfilter : (seen m).filter visible = seen m := by
    refine List.filter_eq_self.mpr fun c hc => ?_
    obtain ⟨d, hd, rfl⟩ := List.mem_map.mp hc
    rw [visible_foldChar]
    exact (List.mem_filter.mp hd).2
  rw [seen, hfilter]
  conv_rhs => rw [seen]
  rw [seen, List.map_map]
  exact List.map_congr_left fun c _ => foldChar_foldChar c

section
variable {a b m : List Char} {s : String}

theorem normalizeStr_plain (h : ∀ c ∈ s.toList, decoration c = true) :
    (normalizeStr s).toList = shieldedStart s ∧ shieldedEnd s = shieldedStart s := by
  have hstrip : ∀ c ∈ (strip s).toList, decoration c = true := fun c hc =>
    h c ((strip_part s).subset hc)
  rw [shieldedStart, shieldedEnd, List.takeWhile_eq_self_iff.mpr hstrip,
    List.rtakeWhile_eq_self_iff.mpr hstrip, normalizeStr_toList]
  exact ⟨fold_decoration hstrip, rfl⟩

theorem normalizeStr_bare (hs : s.toList = a ++ m ++ b) (ha : ∀ c ∈ a, decoration c = true)
    (hb : ∀ c ∈ b, decoration c = true) (hm : Bare decoration m) :
    (normalizeStr s).toList = shieldedStart s ++ seen m ++ shieldedEnd s := by
  have ha' : ∀ c ∈ a.dropWhile isSpace, decoration c = true := fun c hc =>
    ha c ((List.dropWhile_suffix _).subset hc)
  have hb' : ∀ c ∈ b.rdropWhile isSpace, decoration c = true := fun c hc =>
    hb c ((List.rdropWhile_prefix _ _).subset hc)
  have hstrip : (strip s).toList = a.dropWhile isSpace ++ m ++ b.rdropWhile isSpace := by
    rw [strip_eq_trim, hs]
    exact (hm.weaken fun _ => decoration_of_space).trim a b
  rw [normalizeStr_toList, shieldedStart, shieldedEnd, hstrip, hm.takeWhile ha',
    hm.rtakeWhile _ hb', List.filter_append, List.filter_append, List.map_append, List.map_append,
    fold_decoration ha', fold_decoration hb', seen]

end

theorem shieldedStart_space (s : String) : ∀ c ∈ shieldedStart s, isSpace c = true :=
  fun _ hc => (List.mem_filter.mp hc).2

theorem shieldedEnd_space (s : String) : ∀ c ∈ shieldedEnd s, isSpace c = true :=
  fun _ hc => (List.mem_filter.mp hc).2

/-- The same whitespace is shielded at the ends of two texts. -/
structure SameEnds (s t : String) : Prop where
  start : shieldedStart s = shieldedStart t
  finish : shieldedEnd s = shieldedEnd t

/-- Decorated, a text normalises to what it did exactly when the decoration shields the same
whitespace. -/
theorem normalizeStr_decorated {before after : String}
    (hbefore : ∀ c ∈ before.toList, decoration c = true)
    (hafter : ∀ c ∈ after.toList, decoration c = true) (s : String) :
    normalizeStr (before ++ s ++ after) = normalizeStr s ↔
      SameEnds (before ++ s ++ after) s := by
  have hlist : (before ++ s ++ after).toList = before.toList ++ s.toList ++ after.toList := by
    rw [String.toList_append, String.toList_append]
  rw [← String.toList_inj]
  rcases exists_bare decoration s.toList with hplain | ⟨a, m, b, hs, ha, hb, hm⟩
  · have hplain' : ∀ c ∈ (before ++ s ++ after).toList, decoration c = true := by
      intro c hc
      rw [hlist, List.mem_append, List.mem_append] at hc
      rcases hc with (hc | hc) | hc
      · exact hbefore c hc
      · exact hplain c hc
      · exact hafter c hc
    rw [(normalizeStr_plain hplain).1, (normalizeStr_plain hplain').1]
    refine ⟨fun h => ⟨h, ?_⟩, fun h => h.start⟩
    rw [(normalizeStr_plain hplain).2, (normalizeStr_plain hplain').2, h]
  · have hs' : (before ++ s ++ after).toList =
      (before.toList ++ a) ++ m ++ (b ++ after.toList) := by
      rw [hlist, hs]
      simp only [List.append_assoc]
    rw [normalizeStr_bare hs ha hb hm, normalizeStr_bare hs'
      (List.forall_mem_append.mpr ⟨hbefore, ha⟩) (List.forall_mem_append.mpr ⟨hb, hafter⟩) hm]
    rw [(seen_bare hm).append_inj (shieldedStart_space _) (shieldedEnd_space _)
      (shieldedStart_space _) (shieldedEnd_space _)]
    exact ⟨fun h => ⟨h.1, h.2⟩, fun h => ⟨h.start, h.finish⟩⟩

theorem normalizeStr_idem (s : String) : normalizeStr (normalizeStr s) = normalizeStr s ↔
    shieldedStart s = [] ∧ shieldedEnd s = [] := by
  rw [← String.toList_inj, normalizeStr_toList (normalizeStr s), strip_eq_trim]
  rcases exists_bare decoration s.toList with hplain | ⟨a, m, b, hs, ha, hb, hm⟩
  · obtain ⟨hnorm, hend⟩ := normalizeStr_plain hplain
    have htrim : trim isSpace (shieldedStart s) = [] := by
      rw [trim, List.dropWhile_eq_nil_iff.mpr (shieldedStart_space s), List.rdropWhile_nil]
    rw [hnorm, htrim, hend, and_self]
    exact eq_comm
  · rw [normalizeStr_bare hs ha hb hm, (seen_bare hm).trim,
      List.dropWhile_eq_nil_iff.mpr (shieldedStart_space s),
      List.rdropWhile_eq_nil_iff.mpr (shieldedEnd_space s), List.nil_append, List.append_nil]
    change seen (seen m) = _ ↔ _
    rw [seen_seen]
    have := (seen_bare hm).append_inj (a := []) (b := []) (by simp) (by simp)
      (shieldedStart_space s) (shieldedEnd_space s)
    rw [List.nil_append, List.append_nil] at this
    rw [this, eq_comm, @eq_comm _ []]

end Phase3
