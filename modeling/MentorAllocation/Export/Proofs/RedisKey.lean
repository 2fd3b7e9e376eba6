import MentorAllocation.Export.Api

namespace Export
open Text

/-- Two texts cut at the first colon. -/
theorem split_colon {a b s t : List Char} (ha : ':' ∉ a) (hb : ':' ∉ b)
    (h : a ++ ':' :: s = b ++ ':' :: t) : a = b ∧ s = t := by
  induction a generalizing b with
  | nil =>
    cases b with
    | nil => exact ⟨rfl, (List.cons.inj h).2⟩
    | cons c b => exact absurd ((List.cons.inj h).1 ▸ List.mem_cons_self) hb
  | cons c a ih =>
    cases b with
    | nil => exact absurd ((List.cons.inj h).1.symm ▸ List.mem_cons_self) ha
    | cons d b =>
      obtain ⟨hcd, htail⟩ := List.cons.inj h
      obtain ⟨hab, hst⟩ := ih (fun hm => ha (List.mem_cons_of_mem _ hm))
        (fun hm => hb (List.mem_cons_of_mem _ hm)) htail
      exact ⟨by rw [hcd, hab], hst⟩

theorem intText_no_colon (n : Int) : ':' ∉ (intText n).toList := by
  intro h
  rcases zeroPad_chars h with h | h
  · exact absurd h (by decide)
  · exact absurd h (by decide)

theorem format_no_colon (fmt : OutputFormat) : ':' ∉ fmt.text.toList := by
  cases fmt <;> decide

theorem format_text_inj {f g : OutputFormat} (h : f.text.toList = g.text.toList) : f = g := by
  cases f <;> cases g <;> first | rfl | exact absurd h (by decide)

/-- No number is written like a format. -/
theorem intText_ne_format (n : Int) (fmt : OutputFormat) :
    (intText n).toList ≠ fmt.text.toList := by
  intro h
  have hx : fmt.text.toList.head?.any (fun c => c != '-' && !c.isDigit) = true := by
    cases fmt <;> decide
  rw [← h] at hx
  cases hl : (intText n).toList with
  | nil => simp [hl] at hx
  | cons c cs =>
    simp only [hl, List.head?_cons, Option.any_some, Bool.and_eq_true, bne_iff_ne, ne_eq,
      Bool.not_eq_true'] at hx
    have hc : c ∈ (intText n).toList := hl ▸ List.mem_cons_self
    rcases zeroPad_chars hc with h | h
    · exact hx.1 h
    · rw [h] at hx
      exact absurd hx.2 (by decide)

/-- What of a key follows the format: the window, if any, and the caller's key. -/
def tailText (delta : Option ExportDeltaWindow) (idempotencyKey : String) : String :=
  (delta.elim "" fun delta => deltaText delta ++ ":") ++ idempotencyKey

def partsText (center : Option Int) (year : Int) (fmt : OutputFormat) (tail : String) : List Char :=
  (center.elim [] fun center => (intText center).toList ++ [':']) ++
    ((intText year).toList ++ ':' :: (fmt.text.toList ++ ':' :: tail.toList))

theorem redisKey_toList (year : Int) (center : Option Int) (fmt : OutputFormat)
    (delta : Option ExportDeltaWindow) (key : String) :
    (ExportJobRunner.redisKey (buildNamespace year center fmt delta) key).toList =
      "phase6:exports:".toList ++ partsText center year fmt (tailText delta key) := by
  cases center <;> cases delta <;>
    simp [ExportJobRunner.redisKey, buildNamespace, partsText, tailText,
      String.intercalate_cons_cons]

theorem fields_inj {year year' : Int} {fmt fmt' : OutputFormat} {tail tail' : String}
    (h : (intText year).toList ++ ':' :: (fmt.text.toList ++ ':' :: tail.toList) =
      (intText year').toList ++ ':' :: (fmt'.text.toList ++ ':' :: tail'.toList)) :
    year = year' ∧ fmt = fmt' ∧ tail = tail' := by
  obtain ⟨hyear, hrest⟩ := split_colon (intText_no_colon year) (intText_no_colon year') h
  obtain ⟨hfmt, htail⟩ := split_colon (format_no_colon fmt) (format_no_colon fmt') hrest
  exact ⟨zeroPad_injective 0 (String.toList_inj.mp hyear), format_text_inj hfmt,
    String.toList_inj.mp htail⟩

/-- With a center the second part is a year, without one it is a format. -/
theorem center_ne_no_center {center year year' : Int} {fmt fmt' : OutputFormat}
    {tail tail' : String} :
    partsText (some center) year fmt tail ≠ partsText none year' fmt' tail' := by
  intro h
  simp only [partsText, Option.elim_some, Option.elim_none, List.append_assoc, List.nil_append,
    List.cons_append] at h
  obtain ⟨-, hrest⟩ := split_colon (intText_no_colon center) (intText_no_colon year') h
  obtain ⟨hyear, -⟩ := split_colon (intText_no_colon year) (format_no_colon fmt') hrest
  exact intText_ne_format year fmt' hyear

theorem partsText_inj {center center' : Option Int} {year year' : Int} {fmt fmt' : OutputFormat}
    {tail tail' : String} :
    partsText center year fmt tail = partsText center' year' fmt' tail' ↔
      center = center' ∧ year = year' ∧ fmt = fmt' ∧ tail = tail' := by
  refine ⟨fun h => ?_, fun ⟨hc, hy, hf, ht⟩ => by rw [hc, hy, hf, ht]⟩
  cases center with
  | none =>
    cases center' with
    | none => exact ⟨rfl, fields_inj h⟩
    | some c => exact absurd h.symm center_ne_no_center
  | some b =>
    cases center' with
    | none => exact absurd h center_ne_no_center
    | some c =>
      simp only [partsText, Option.elim_some, List.append_assoc, List.cons_append,
        List.nil_append] at h
      obtain ⟨hcenter, hrest⟩ := split_colon (intText_no_colon b) (intText_no_colon c) h
      exact ⟨congrArg some (zeroPad_injective 0 (String.toList_inj.mp hcenter)),
        fields_inj hrest⟩

/-- Two requests meet in one Redis key exactly when they agree on center, year and
format and their window and key run together to the same text. -/
theorem redisKey_inj {center center' : Option Int} {year year' : Int} {fmt fmt' : OutputFormat}
    {delta delta' : Option ExportDeltaWindow} {key key' : String} :
    ExportJobRunner.redisKey (buildNamespace year center fmt delta) key =
        ExportJobRunner.redisKey (buildNamespace year' center' fmt' delta') key' ↔
      center = center' ∧ year = year' ∧ fmt = fmt' ∧ tailText delta key = tailText delta' key' := by
  rw [← String.toList_inj, redisKey_toList, redisKey_toList, List.append_cancel_left_eq,
    partsText_inj]

end Export
