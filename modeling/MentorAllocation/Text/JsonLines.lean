import MentorAllocation.Text.JsonRoundTrip

namespace Text

def breaksLine (c : Char) : Bool := c == '\n' || c == '\r'

/-- The lines of a text in universal newlines mode, each with its end. -/
def splitLines : List Char → List (List Char)
  | [] => []
  | '\r' :: '\n' :: rest => ['\n'] :: splitLines rest
  | c :: rest =>
    if breaksLine c then ['\n'] :: splitLines rest
    else match splitLines rest with
      | [] => [[c]]
      | line :: lines => (c :: line) :: lines

def OneLine (cs : List Char) : Prop := ∀ c ∈ cs, breaksLine c = false

instance (cs : List Char) : Decidable (OneLine cs) :=
  inferInstanceAs (Decidable (∀ c ∈ cs, breaksLine c = false))

theorem oneLine_append {as bs : List Char} : OneLine (as ++ bs) ↔ OneLine as ∧ OneLine bs :=
  List.forall_mem_append

theorem oneLine_cons {c : Char} {cs : List Char} :
    OneLine (c :: cs) ↔ breaksLine c = false ∧ OneLine cs := List.forall_mem_cons

theorem splitLines_line {cs : List Char} (h : OneLine cs) (rest : List Char) :
    splitLines (cs ++ '\n' :: rest) = (cs ++ ['\n']) :: splitLines rest := by
  induction cs with
  | nil =>
    rw [List.nil_append, splitLines, if_pos (by decide)]
    · rfl
    · intro rest' hhead
      exact absurd hhead (by decide)
  | cons c cs ih =>
    obtain ⟨hc, hcs⟩ := oneLine_cons.mp h
    rw [List.cons_append, splitLines, if_neg (by simp [hc]), ih hcs]
    · rfl
    · rintro rest' rfl
      exact absurd hc (by decide)

namespace Json

section
variable (cs : List Char)

theorem scanSign_chars (signs : List Char) (hsigns : ∀ c ∈ signs, inNumber c = true) :
    (scanSign signs cs).1 ++ (scanSign signs cs).2 = cs ∧
      ∀ c ∈ (scanSign signs cs).1, inNumber c = true := by
  cases cs with
  | nil => exact ⟨rfl, by simp [scanSign]⟩
  | cons c rest =>
    rw [scanSign]
    split
    · next hc => exact ⟨rfl, by simpa using hsigns c (by simpa using hc)⟩
    · exact ⟨rfl, by simp⟩

theorem inNumber_takeWhile (cs : List Char) :
    ∀ c ∈ cs.takeWhile isAsciiDigit, inNumber c = true := by
  intro c hc
  rw [inNumber, List.mem_takeWhile_imp hc]
  rfl

theorem scanInteger_chars : (scanInteger cs).1 ++ (scanInteger cs).2 = cs ∧
    ∀ c ∈ (scanInteger cs).1, inNumber c = true := by
  rw [scanInteger.eq_def]
  split
  · exact ⟨rfl, List.forall_mem_singleton.mpr rfl⟩
  · exact ⟨List.takeWhile_append_dropWhile, inNumber_takeWhile cs⟩

theorem scanFraction_chars : (scanFraction cs).1 ++ (scanFraction cs).2 = cs ∧
    ∀ c ∈ (scanFraction cs).1, inNumber c = true := by
  rw [scanFraction.eq_def]
  split
  · next rest =>
    split
    · exact ⟨rfl, by simp⟩
    · refine ⟨?_, List.forall_mem_cons.mpr ⟨by decide, inNumber_takeWhile rest⟩⟩
      rw [List.cons_append, List.takeWhile_append_dropWhile]
  · exact ⟨rfl, by simp⟩

theorem scanExponent_chars : (scanExponent cs).1 ++ (scanExponent cs).2 = cs ∧
    ∀ c ∈ (scanExponent cs).1, inNumber c = true := by
  cases cs with
  | nil => exact ⟨rfl, by simp [scanExponent]⟩
  | cons e rest =>
    obtain ⟨hsplit, hsign⟩ := scanSign_chars rest ['-', '+'] (by decide)
    simp only [scanExponent]
    split
    · next he =>
      split
      · exact ⟨rfl, by simp⟩
      · constructor
        · rw [List.append_assoc, List.takeWhile_append_dropWhile, List.cons_append, hsplit]
        · have hfirst : inNumber e = true := by
            simp only [Bool.or_eq_true, beq_iff_eq] at he
            rcases he with rfl | rfl <;> decide
          simp only [List.mem_append, List.mem_cons]
          rintro c ((rfl | hc) | hc)
          · exact hfirst
          · exact hsign c hc
          · exact inNumber_takeWhile _ c hc
    · exact ⟨rfl, by simp⟩

end

section
variable {cs : List Char}

/-- What is read as one number is made of the characters of numbers. -/
theorem scanNumber_chars {floatRepr : String → String} {v : Json}
    (h : scanNumber floatRepr cs = some (v, [])) : ∀ c ∈ cs, inNumber c = true := by
  obtain ⟨hsign, hsignchars⟩ := scanSign_chars cs ['-'] (by decide)
  obtain ⟨hinteger, hintegerchars⟩ := scanInteger_chars (scanSign ['-'] cs).2
  obtain ⟨hfraction, hfractionchars⟩ := scanFraction_chars
    (scanInteger (scanSign ['-'] cs).2).2
  obtain ⟨hexponent, hexponentchars⟩ := scanExponent_chars
    (scanFraction (scanInteger (scanSign ['-'] cs).2).2).2
  have hrest : (scanExponent (scanFraction (scanInteger (scanSign ['-'] cs).2).2).2).2 = [] := by
    simp only [scanNumber] at h
    split at h
    · cases h
    · split at h
      · obtain ⟨n, -, hn⟩ := Option.map_eq_some_iff.mp h
        exact (Prod.mk.inj hn).2
      · exact (Prod.mk.inj (Option.some.inj h)).2
  intro c hc
  rw [← hsign, ← hinteger, ← hfraction, ← hexponent, hrest, List.append_nil] at hc
  simp only [List.mem_append] at hc
  rcases hc with hc | hc | hc | hc
  · exact hsignchars c hc
  · exact hintegerchars c hc
  · exact hfractionchars c hc
  · exact hexponentchars c hc

theorem oneLine_number (h : ∀ c ∈ cs, inNumber c = true) : OneLine cs := by
  intro c hc
  have hnumber := h c hc
  by_contra hbreaks
  simp only [breaksLine, Bool.not_eq_false, Bool.or_eq_true, beq_iff_eq] at hbreaks
  rcases hbreaks with rfl | rfl
  · exact absurd hnumber (by decide)
  · exact absurd hnumber (by decide)

theorem oneLine_hexDigit : ∀ n < 16, breaksLine (hexDigit n) = false := by decide

theorem oneLine_escape (c : Char) : OneLine (escape c) := by
  unfold escape
  split_ifs with hquote hback hnewline hreturn htab hbackspace hfeed hcontrol
  · decide
  · decide
  · decide
  · decide
  · decide
  · decide
  · decide
  · have hsmall : c.toNat < 0x20 := by simpa using hcontrol
    simp only [oneLine_cons]
    exact ⟨rfl, rfl, rfl, rfl, oneLine_hexDigit _ (by omega), oneLine_hexDigit _ (by omega),
      List.forall_mem_nil _⟩
  · refine List.forall_mem_singleton.mpr ?_
    rw [breaksLine, Bool.or_eq_false_iff]
    exact ⟨by simpa using hnewline, by simpa using hreturn⟩

theorem oneLine_quote (s : String) : OneLine (quote s).toList := by
  rw [quote_toList, oneLine_cons, oneLine_append]
  refine ⟨rfl, ?_, by decide⟩
  intro c hc
  obtain ⟨d, -, hd⟩ := List.mem_flatMap.mp hc
  exact oneLine_escape d c hd

end

section
variable {floatRepr : String → String} {style : Style}

/-- What is written is read back whatever blanks follow it. -/
theorem loads_dumps_blanks (hsort : style.sortKeys = false) (hsep : Separators style) {v : Json}
    (h : Valid floatRepr v) (blanks : List Char) (hblanks : ∀ c ∈ blanks, isBlank c = true) :
    loads floatRepr (String.ofList ((dumps style v).toList ++ blanks)) = some v := by
  have hsize := size_lt hsort v h
  have hdelimited : Delimited blanks := by
    intro c hc
    have hblank := hblanks c (List.mem_of_mem_head? hc)
    simp only [isBlank, Bool.or_eq_true, beq_iff_eq] at hblank
    rcases hblank with ((rfl | rfl) | rfl) | rfl <;> decide
  have hread := (reads hsort hsep
    (2 * ((dumps style v).toList ++ blanks).length + 1)).1 v blanks h
    (by rw [List.length_append]; omega) hdelimited
  have hempty : (skipBlanks blanks).isEmpty = true := by
    rw [skipBlanks, List.dropWhile_eq_nil_iff.mpr hblanks]
    rfl
  rw [loads, String.toList_ofList, skipBlanks_dumps style h, hread]
  exact if_pos hempty

-- Line ends in strings are escaped, and nothing else that is written has any.
mutual
theorem oneLine_dumps (hsort : style.sortKeys = false) (hitem : OneLine style.itemSeparator.toList)
    (hkey : OneLine style.keySeparator.toList) : ∀ v, Valid floatRepr v →
      OneLine (dumps style v).toList
  | .null, _ => by rw [dumps]; decide
  | .bool true, _ => by rw [dumps]; decide
  | .bool false, _ => by rw [dumps]; decide
  | .int n, h => by
    rw [Valid] at h
    rw [dumps]
    exact oneLine_number (scanNumber_chars (scanNumber_int floatRepr h))
  | .float repr, h => by
    rw [Valid] at h
    rw [dumps, floatText_number h]
    exact oneLine_number (scanNumber_chars h)
  | .str s, _ => by
    rw [dumps]
    exact oneLine_quote s
  | .arr items, h => by
    rw [Valid] at h
    rw [dumps_arr, oneLine_cons, oneLine_append]
    exact ⟨rfl, oneLine_items hsort hitem hkey items h, by decide⟩
  | .obj members, h => by
    rw [Valid] at h
    rw [dumps_obj hsort, oneLine_cons, oneLine_append]
    exact ⟨rfl, oneLine_members hsort hitem hkey members h.2, by decide⟩

theorem oneLine_items (hsort : style.sortKeys = false) (hitem : OneLine style.itemSeparator.toList)
    (hkey : OneLine style.keySeparator.toList) : ∀ items, ValidItems floatRepr items →
      OneLine (itemsText style items)
  | [], _ => List.forall_mem_nil _
  | [v], h => by
    rw [ValidItems] at h
    rw [itemsText, List.map_singleton, List.intercalate_singleton]
    exact oneLine_dumps hsort hitem hkey v h.1
  | v :: w :: vs, h => by
    rw [ValidItems] at h
    rw [itemsText_cons, oneLine_append, oneLine_append]
    exact ⟨oneLine_dumps hsort hitem hkey v h.1, hitem,
      oneLine_items hsort hitem hkey (w :: vs) h.2⟩

theorem oneLine_members (hsort : style.sortKeys = false)
    (hitem : OneLine style.itemSeparator.toList) (hkey : OneLine style.keySeparator.toList) :
    ∀ members, ValidMembers floatRepr members → OneLine (membersText style members)
  | [], _ => List.forall_mem_nil _
  | [(k, v)], h => by
    rw [ValidMembers] at h
    rw [membersText, List.map_singleton, List.intercalate_singleton, memberText, oneLine_append,
      oneLine_append]
    exact ⟨⟨oneLine_quote k, hkey⟩, oneLine_dumps hsort hitem hkey v h.1⟩
  | (k, v) :: m :: members, h => by
    rw [ValidMembers] at h
    rw [membersText_cons, memberText, oneLine_append, oneLine_append, oneLine_append,
      oneLine_append]
    exact ⟨⟨⟨oneLine_quote k, hkey⟩, oneLine_dumps hsort hitem hkey v h.1⟩, hitem,
      oneLine_members hsort hitem hkey (m :: members) h.2⟩
end

end

end Json

end Text
