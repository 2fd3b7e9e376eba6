import MentorAllocation.Data.Dict
import MentorAllocation.Export.ExcelWriter
import MentorAllocation.Text.Formula

namespace Export
open Text ExportWriter

section
variable {W : ExportWriter} {nfkc : String → String} {column text : String}

theorem guardFormula_quotes (text : String) :
    guardFormula text = "'" ++ text ∨ guardFormula text = text ∧
      ∀ c ∈ riskyPrefixes, text.toList.head? = some c → c = '\x27' := by
  rw [guardFormula]
  split
  · next hnil =>
    rw [hnil]
    exact .inr ⟨rfl, fun c _ h => by cases h⟩
  · next first rest hcons =>
    rw [hcons, List.head?_cons]
    split
    · next hplain =>
      refine .inr ⟨rfl, fun c hc h => ?_⟩
      obtain rfl := Option.some.inj h
      rw [List.contains_iff_mem.mpr hc] at hplain
      cases hplain
    · split
      · next hquoted =>
        refine .inr ⟨rfl, fun c _ h => ?_⟩
        rw [← Option.some.inj h]
        exact eq_of_beq (Bool.and_eq_true_iff.mp hquoted).1
      · exact .inl rfl

theorem guardFormula_plain {c : Char} (hhead : text.toList.head? = some c)
    (hc : c ∉ riskyPrefixes) : guardFormula text = text := by
  obtain ⟨rest, hcons⟩ := List.head?_eq_some_iff.mp hhead
  have hplain : riskyPrefixes.contains c = false :=
    Bool.eq_false_iff.mpr fun hmem => hc (List.contains_iff_mem.mp hmem)
  rw [guardFormula, hcons]
  dsimp only
  rw [hplain]
  rfl

/-- Of the risky characters only the apostrophe stands in front of a guarded text. -/
theorem guardFormula_head {c : Char} (hc : c ∈ riskyPrefixes)
    (hhead : (guardFormula text).toList.head? = some c) : c = '\x27' := by
  rcases guardFormula_quotes text with hquoted | ⟨hplain, hrisky⟩
  · rw [hquoted, String.toList_append] at hhead
    exact (Option.some.inj hhead).symm
  · exact hrisky c hc (hplain ▸ hhead)

theorem guardFormula_safe (text : String) : ¬ BeginsFormula (guardFormula text) := by
  rintro ⟨c, hc, hhead⟩
  have hrisky : c ∈ riskyPrefixes := List.mem_append_left ['\t', '\x27', '"'] hc
  rw [guardFormula_head hrisky hhead] at hc
  exact absurd hc (by decide)

theorem zfill_safe {width : Nat} (h : ¬ BeginsFormula text) :
    ¬ BeginsFormula (zfill width text) := by
  rintro ⟨c, hc, hhead⟩
  rw [zfill] at hhead
  split at hhead
  · next hplus => exact h ⟨'+', by decide, by rw [hplus, List.head?_cons]⟩
  · next hminus => exact h ⟨'-', by decide, by rw [hminus, List.head?_cons]⟩
  · rw [String.toList_ofList] at hhead
    cases hzeros : width - text.length with
    | zero =>
      rw [hzeros, List.replicate_zero, List.nil_append] at hhead
      exact h ⟨c, hc, hhead⟩
    | succ k =>
      rw [hzeros, List.replicate_succ, List.cons_append] at hhead
      obtain rfl := Option.some.inj hhead
      exact absurd hc (by decide)

/-- A negative number behind white space that the guard does not look through. -/
def HiddenSign (text : String) : Prop :=
  (∃ c, text.toList.head? = some c ∧ isSpace c = true ∧ c ≠ '\t') ∧
    ∃ n, parseInt text = some n ∧ n < 0

/-- The guard leaves a hidden sign alone, and makes none. -/
theorem guarded_negative {text : String} : (∃ n, parseInt (guardFormula text) = some n ∧ n < 0) ↔
    HiddenSign text := by
  constructor
  · rintro ⟨n, hparse, hn⟩
    have hsign := parseInt_negative hparse hn
    rw [strip_head] at hsign
    obtain ⟨c, hhead⟩ : ∃ c, (guardFormula text).toList.head? = some c := by
      cases hlist : (guardFormula text).toList with
      | nil =>
        rw [hlist] at hsign
        cases hsign
      | cons c rest => exact ⟨c, rfl⟩
    have hspace : isSpace c = true := by
      by_contra hno
      rw [find?_of_head fun d hd => ?_] at hsign
      · exact guardFormula_safe text ⟨'-', by decide, hsign⟩
      · rw [← Option.some.inj (hhead.symm.trans hd), Bool.eq_false_iff.mpr hno]
        rfl
    have htab : c ≠ '\t' := by
      rintro rfl
      exact absurd (guardFormula_head (by decide) hhead) (by decide)
    rcases guardFormula_quotes text with hquoted | ⟨hplain, -⟩
    · rw [hquoted, String.toList_append] at hhead
      obtain rfl := Option.some.inj hhead
      exact absurd hspace (by decide)
    · rw [hplain] at hparse hhead
      exact ⟨⟨c, hhead, hspace, htab⟩, n, hparse, hn⟩
  · rintro ⟨⟨c, hhead, hspace, htab⟩, hparse⟩
    have hall : riskyPrefixes.all (fun d => !isSpace d || d == '\t') = true := by rfl
    have hrisky : c ∉ riskyPrefixes := by
      intro hmem
      have := List.all_eq_true.mp hall c hmem
      rw [hspace, beq_eq_false_iff_ne.mpr htab] at this
      cases this
    rwa [guardFormula_plain hhead hrisky]

theorem prepareText_begins (hguard : W.formulaGuard = true) :
    BeginsFormula (W.prepareText nfkc column text) ↔ column = "school_code" ∧ HiddenSign text := by
  by_cases hcolumn : column = "school_code"
  · subst hcolumn
    have hphone : phoneColumns.contains "school_code" = false := by decide
    have htext : textColumns.contains "school_code" = false := by decide
    rw [prepareText, hphone, htext, hguard, if_neg Bool.false_ne_true, if_neg Bool.false_ne_true,
      ite_self, if_pos rfl, beq_self_eq_true, Bool.true_and, and_iff_right rfl, ← guarded_negative]
    split
    · split
      · next n hparse =>
        rw [zeroPad_begins, hparse]
        exact ⟨fun hn => ⟨n, rfl, hn⟩, fun ⟨m, hm, hneg⟩ => Option.some.inj hm ▸ hneg⟩
      · next hparse =>
        rw [hparse]
        exact iff_of_false (zfill_safe (guardFormula_safe text)) fun ⟨n, hn, _⟩ => by cases hn
    · next hempty =>
      have htext : (guardFormula text).isEmpty = true := by simpa using hempty
      rw [String.isEmpty_iff.mp htext]
      exact iff_of_false (by decide) fun ⟨n, hn, _⟩ => by cases hn
  · refine iff_of_false ?_ fun h => hcolumn h.1
    rw [prepareText, beq_eq_false_iff_ne.mpr hcolumn, hguard]
    exact guardFormula_safe _

/-- The rows of the exporter are such rows. -/
theorem prepareRow_columns (raw : Row) : W.prepareRow nfkc raw =
    W.prepareColumns nfkc exportColumns (raw.map fun e => (e.1, Cell.str e.2)) := by
  refine List.map_congr_left fun column _ => congrArg _ ?_
  rw [Xlsx.rawText, Data.lookup_map]
  cases raw.lookup column with
  | none => rfl
  | some text => rfl

end

def guardedWriter : ExportWriter := ⟨[], "\r\n", false, 1, true⟩

end Export
