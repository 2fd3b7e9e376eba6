import MentorAllocation.Text.JsonLoads
import MentorAllocation.Text.Numbers

namespace Text.Json
open Data

def inNumber (c : Char) : Bool :=
  isAsciiDigit c || c == '.' || c == 'e' || c == 'E' || c == '-' || c == '+'

def Delimited (rest : List Char) : Prop := ∀ c ∈ rest.head?, inNumber c = false

theorem Delimited.digit {rest : List Char} (h : Delimited rest) :
    ∀ c ∈ rest.head?, isAsciiDigit c = false := by
  intro c hc
  have := h c hc
  simp only [inNumber, Bool.or_eq_false_iff] at this
  exact this.1.1.1.1.1

section
variable {cs rest : List Char}

theorem takeWhile_append_head {p : Char → Bool} (h : ∀ c ∈ rest.head?, p c = false) :
    (cs ++ rest).takeWhile p = cs.takeWhile p := by
  induction cs with
  | nil =>
    cases rest with
    | nil => rfl
    | cons c rest => simp [h c rfl]
  | cons c cs ih => simp only [List.cons_append, List.takeWhile_cons, ih]

theorem dropWhile_append_head {p : Char → Bool} (h : ∀ c ∈ rest.head?, p c = false) :
    (cs ++ rest).dropWhile p = cs.dropWhile p ++ rest := by
  induction cs with
  | nil =>
    cases rest with
    | nil => rfl
    | cons c rest => simp [h c rfl]
  | cons c cs ih =>
    simp only [List.cons_append, List.dropWhile_cons, ih]
    split <;> rfl

theorem scanInteger_append (h : Delimited rest) :
    scanInteger (cs ++ rest) = ((scanInteger cs).1, (scanInteger cs).2 ++ rest) := by
  have hspan : ∀ cs : List Char, ((cs ++ rest).takeWhile isAsciiDigit,
      (cs ++ rest).dropWhile isAsciiDigit) =
      (cs.takeWhile isAsciiDigit, cs.dropWhile isAsciiDigit ++ rest) := fun cs => by
    rw [takeWhile_append_head h.digit, dropWhile_append_head h.digit]
  cases cs with
  | nil =>
    cases rest with
    | nil => rfl
    | cons c rest =>
      have hc : c ≠ '0' := by
        rintro rfl
        exact absurd (h.digit '0' rfl) (by decide)
      have := hspan []
      simp only [List.nil_append] at this ⊢
      rw [scanInteger, this]
      · rfl
      · intro rest' heq
        exact hc (List.cons.inj heq).1
  | cons c cs =>
    by_cases hc : c = '0'
    · subst hc
      rfl
    · rw [List.cons_append, scanInteger, scanInteger, ← List.cons_append, hspan]
      · intro rest' heq
        exact hc (List.cons.inj heq).1
      · intro rest' heq
        exact hc (List.cons.inj heq).1

theorem scanFraction_append (h : Delimited rest) :
    scanFraction (cs ++ rest) = ((scanFraction cs).1, (scanFraction cs).2 ++ rest) := by
  cases cs with
  | nil =>
    cases rest with
    | nil => rfl
    | cons c rest =>
      have hc : c ≠ '.' := by
        rintro rfl
        exact absurd (h '.' rfl) (by decide)
      rw [List.nil_append, scanFraction]
      · rfl
      · intro rest' heq
        exact hc (List.cons.inj heq).1
  | cons c cs =>
    by_cases hc : c = '.'
    · subst hc
      simp only [List.cons_append, scanFraction, takeWhile_append_head h.digit,
        dropWhile_append_head h.digit]
      split <;> rfl
    · rw [List.cons_append, scanFraction, scanFraction]
      · rfl
      · intro rest' heq
        exact hc (List.cons.inj heq).1
      · intro rest' heq
        exact hc (List.cons.inj heq).1

theorem scanSign_append (signs : List Char) (hsigns : ∀ c ∈ signs, inNumber c = true)
    (h : Delimited rest) :
    scanSign signs (cs ++ rest) = ((scanSign signs cs).1, (scanSign signs cs).2 ++ rest) := by
  cases cs with
  | nil =>
    cases rest with
    | nil => rfl
    | cons c rest =>
      have hc : c ∉ signs := fun hmem => by simpa [h c rfl] using hsigns c hmem
      simp [scanSign, hc]
  | cons c cs =>
    rw [List.cons_append, scanSign, scanSign]
    split <;> rfl

theorem scanExponent_append (h : Delimited rest) :
    scanExponent (cs ++ rest) = ((scanExponent cs).1, (scanExponent cs).2 ++ rest) := by
  cases cs with
  | nil =>
    cases rest with
    | nil => rfl
    | cons c rest =>
      have hc : (c == 'e' || c == 'E') = false := by
        have := h c rfl
        simp only [inNumber, Bool.or_eq_false_iff] at this
        rw [this.1.1.1.2, this.1.1.2, Bool.or_false]
      rw [List.nil_append, scanExponent, hc]
      rfl
  | cons c cs =>
    have hsign := @scanSign_append cs _ ['-', '+'] (by decide) h
    rw [List.cons_append, scanExponent, scanExponent, hsign]
    split
    · simp only [takeWhile_append_head h.digit, dropWhile_append_head h.digit]
      split <;> rfl
    · rfl

/-- What follows a number does not change how it is read. -/
theorem scanNumber_append (floatRepr : String → String) (h : Delimited rest) :
    scanNumber floatRepr (cs ++ rest) =
      (scanNumber floatRepr cs).map fun found => (found.1, found.2 ++ rest) := by
  simp only [scanNumber, scanSign_append ['-'] (by decide) h, scanInteger_append h,
    scanFraction_append h, scanExponent_append h]
  split
  · rfl
  · split
    · rw [Option.map_map]
      rfl
    · rfl

/-- A number begins with a digit, or with a sign and a digit. -/
theorem scanNumber_head {floatRepr : String → String} {found : Json × List Char}
    (h : scanNumber floatRepr cs = some found) :
    ∃ d tail, isAsciiDigit d = true ∧ (cs = d :: tail ∨ cs = '-' :: d :: tail) := by
  have hinteger : ∀ cs : List Char, (scanInteger cs).1 ≠ [] →
      ∃ d tail, isAsciiDigit d = true ∧ cs = d :: tail := by
    intro cs hne
    cases cs with
    | nil => exact absurd rfl hne
    | cons d tail =>
      refine ⟨d, tail, ?_, rfl⟩
      by_contra hd
      have hzero : d ≠ '0' := by
        rintro rfl
        exact hd (by decide)
      rw [scanInteger] at hne
      · simp [hd] at hne
      · intro rest heq
        exact hzero (List.cons.inj heq).1
  simp only [scanNumber] at h
  split at h
  · cases h
  · rename_i hne
    obtain ⟨d, tail, hd, htail⟩ := hinteger _ (by simpa using hne)
    refine ⟨d, tail, hd, ?_⟩
    cases cs with
    | nil => cases htail
    | cons c cs =>
      by_cases hc : c = '-'
      · subst hc
        exact Or.inr (congrArg ('-' :: ·) htail)
      · rw [scanSign, if_neg (by simpa using hc)] at htail
        exact Or.inl htail

end

theorem toDigits_head {n : Nat} (hn : 0 < n) :
    ∃ d tail, Nat.toDigits 10 n = d :: tail ∧ d ≠ '0' := by
  induction n using Nat.strongRecOn with
  | ind n ih =>
    rw [Nat.toDigits_eq_if (by omega)]
    split
    · next hlt =>
      refine ⟨n.digitChar, [], rfl, ?_⟩
      have hdigit : ∀ m < 10, 0 < m → m.digitChar ≠ '0' := by decide
      exact hdigit n hlt hn
    · next hle =>
      obtain ⟨d, tail, htail, hd⟩ := ih (n / 10) (by omega) (by omega)
      exact ⟨d, tail ++ [(n % 10).digitChar], by rw [htail, List.cons_append], hd⟩

theorem isAsciiDigit_toDigits {n : Nat} {c : Char} (h : c ∈ Nat.toDigits 10 n) :
    isAsciiDigit c = true := by
  have hdigit := toDigits_digit h
  simp only [Char.isDigit, Bool.and_eq_true, decide_eq_true_eq] at hdigit
  simp only [isAsciiDigit, Bool.and_eq_true, decide_eq_true_eq]
  exact hdigit

theorem scanInteger_toDigits (n : Nat) :
    scanInteger (Nat.toDigits 10 n) = (Nat.toDigits 10 n, []) := by
  rcases Nat.eq_zero_or_pos n with rfl | hn
  · rfl
  · obtain ⟨d, tail, htail, hd⟩ := toDigits_head hn
    have hall : ∀ c ∈ d :: tail, isAsciiDigit c = true := fun c hc =>
      isAsciiDigit_toDigits (htail ▸ hc)
    rw [htail, scanInteger]
    · rw [List.takeWhile_eq_self_iff.mpr hall, List.dropWhile_eq_nil_iff.mpr hall]
    · intro rest heq
      exact hd (List.cons.inj heq).1

theorem toString_eq_intText (n : Int) : toString n = intText n := by
  rw [← String.toList_inj, intText_toList, Int.toString_eq_repr, Int.repr_eq_if]
  split
  · next hn =>
    rw [Nat.toList_repr, if_neg (not_lt.mpr hn)]
    congr 1
    omega
  · next hn =>
    rw [String.toList_append, if_pos (not_le.mp hn)]
    have habs : (-n).toNat = n.natAbs := by omega
    rw [habs, Nat.toList_repr]
    rfl

/-- An integer is read back from its decimal digits, when there are not too many of them. -/
theorem scanNumber_int (floatRepr : String → String) {n : Int} (h : (intStr n).isSome) :
    scanNumber floatRepr (toString n).toList = some (.int n, []) := by
  have hparse : parseInt (toString n) = some n := by
    obtain ⟨text, htext⟩ := Option.isSome_iff_exists.mp h
    have : text = toString n := by
      rw [toString_eq_intText]
      simp only [intStr] at htext
      split at htext
      · exact (Option.some.inj htext).symm
      · cases htext
    exact this ▸ parseInt_intStr htext
  have hsign : scanSign ['-'] (toString n).toList =
      (if n < 0 then ['-'] else [], Nat.toDigits 10 n.natAbs) := by
    rw [toString_eq_intText, intText_toList]
    split
    · rfl
    · cases hdigits : Nat.toDigits 10 n.natAbs with
      | nil => exact absurd hdigits Nat.toDigits_ne_nil
      | cons c rest =>
        have hc : c ≠ '-' := by
          rintro rfl
          exact absurd (isAsciiDigit_toDigits (hdigits ▸ List.mem_cons_self)) (by decide)
        rw [scanSign, if_neg (by simpa using hc)]
  have htext : (if n < 0 then ['-'] else []) ++ Nat.toDigits 10 n.natAbs =
      (toString n).toList := by
    rw [toString_eq_intText, intText_toList]
    split <;> rfl
  have hne : (Nat.toDigits 10 n.natAbs).isEmpty = false := by
    rw [List.isEmpty_eq_false_iff]
    exact Nat.toDigits_ne_nil
  simp only [scanNumber, hsign, scanInteger_toDigits, htext, String.ofList_toList, hparse, hne,
    scanFraction, scanExponent, Bool.false_eq_true, if_false, List.isEmpty_nil, Bool.and_self,
    if_true, Option.map_some]

theorem hexFour_control : ∀ n < 0x20, hexFour '0' '0' (hexDigit (n / 16)) (hexDigit (n % 16)) =
    some n := by decide

theorem scanString_escape (c : Char) (rest : List Char) :
    scanString (escape c ++ rest) =
      (scanString rest).map fun found => (c :: found.1, found.2) := by
  unfold escape
  split_ifs with hquote hback hnewline hreturn htab hbackspace hfeed hcontrol
  · obtain rfl : c = '"' := by simpa using hquote
    simp [scanString, unescape?]
  · obtain rfl : c = '\\' := by simpa using hback
    simp [scanString, unescape?]
  · obtain rfl : c = '\n' := by simpa using hnewline
    simp [scanString, unescape?]
  · obtain rfl : c = '\r' := by simpa using hreturn
    simp [scanString, unescape?]
  · obtain rfl : c = '\t' := by simpa using htab
    simp [scanString, unescape?]
  · obtain rfl : c = Char.ofNat 0x08 := by
      rw [← Char.ofNat_toNat c, (by simpa using hbackspace : c.toNat = 0x08)]
    simp [scanString, unescape?]
  · obtain rfl : c = Char.ofNat 0x0c := by
      rw [← Char.ofNat_toNat c, (by simpa using hfeed : c.toNat = 0x0c)]
    simp [scanString, unescape?]
  · have hfour := hexFour_control c.toNat (by simpa using hcontrol)
    have hlow : ¬ (0xd800 ≤ c.toNat ∧ c.toNat < 0xdc00) := by
      have : c.toNat < 0x20 := by simpa using hcontrol
      omega
    have hhigh : ¬ (0xdc00 ≤ c.toNat ∧ c.toNat < 0xe000) := by
      have : c.toNat < 0x20 := by simpa using hcontrol
      omega
    simp only [List.cons_append, List.nil_append, scanString, hfour, Option.bind_eq_bind,
      Option.bind_some, if_neg hlow, if_neg hhigh, Char.ofNat_toNat]
  · have hplain : (c == '\\' || decide (c.toNat < 0x20)) = false := by
      simp only [Bool.or_eq_false_iff]
      exact ⟨by simpa using hback, by simpa using hcontrol⟩
    have hback' : c ≠ '\\' := by simpa using hback
    rw [List.singleton_append, scanString.eq_def]
    split
    · next heq => exact absurd (List.cons.inj heq).1 (by simpa using hquote)
    · next heq => exact absurd (List.cons.inj heq).1 hback'
    · next heq => exact absurd (List.cons.inj heq).1 hback'
    · next heq =>
      obtain ⟨rfl, rfl⟩ := List.cons.inj heq
      rw [if_neg (by simp [hplain])]
    · next heq => cases heq

theorem scanString_quoted (cs rest : List Char) :
    scanString (cs.flatMap escape ++ '"' :: rest) = some (cs, rest) := by
  induction cs with
  | nil => simp [scanString]
  | cons c cs ih => rw [List.flatMap_cons, List.append_assoc, scanString_escape, ih,
      Option.map_some]

section
variable (floatRepr : String → String)

mutual
/-- A value that the standard library can write and read back: its integers have at most 4300
digits, its floats are finite, and its objects have each key once. -/
def Valid : Json → Prop
  | .null => True
  | .bool _ => True
  | .int n => (intStr n).isSome
  | .float repr => scanNumber floatRepr repr.toList = some (.float repr, [])
  | .str _ => True
  | .arr items => ValidItems items
  | .obj members => (members.map Prod.fst).Nodup ∧ ValidMembers members

def ValidItems : List Json → Prop
  | [] => True
  | v :: vs => Valid v ∧ ValidItems vs

def ValidMembers : List (String × Json) → Prop
  | [] => True
  | (_, v) :: rest => Valid v ∧ ValidMembers rest
end

end

mutual
def size : Json → Nat
  | .null | .bool _ | .int _ | .float _ | .str _ => 1
  | .arr items => 1 + sizeItems items
  | .obj members => 1 + sizeMembers members

def sizeItems : List Json → Nat
  | [] => 0
  | v :: vs => 1 + size v + sizeItems vs

def sizeMembers : List (String × Json) → Nat
  | [] => 0
  | (_, v) :: rest => 1 + size v + sizeMembers rest
end

structure Separators (style : Style) : Prop where
  item : ∃ blanks, style.itemSeparator.toList = ',' :: blanks ∧ ∀ c ∈ blanks, isBlank c = true
  key : ∃ blanks, style.keySeparator.toList = ':' :: blanks ∧ ∀ c ∈ blanks, isBlank c = true

theorem separators_default : Separators {} :=
  ⟨⟨[' '], rfl, by decide⟩, ⟨[' '], rfl, by decide⟩⟩

theorem separators_compact : Separators Style.compact :=
  ⟨⟨[], rfl, by decide⟩, ⟨[], rfl, by decide⟩⟩

theorem dumpsItems_eq (style : Style) (items : List Json) :
    dumpsItems style items = items.map (dumps style) := by
  induction items with
  | nil => rfl
  | cons v vs ih => rw [dumpsItems, ih, List.map_cons]

theorem dumpsMembers_eq (style : Style) (members : List (String × Json)) :
    dumpsMembers style members = members.map fun m => (m.1, dumps style m.2) := by
  induction members with
  | nil => rfl
  | cons m rest ih => rw [dumpsMembers, ih, List.map_cons]

theorem quote_toList (s : String) :
    (quote s).toList = '"' :: (s.toList.flatMap escape ++ ['"']) := by
  rw [quote, String.toList_ofList, List.cons_append]

section
variable {floatRepr : String → String} {style : Style} {n : Nat}

theorem validItems_iff (items : List Json) :
    ValidItems floatRepr items ↔ ∀ v ∈ items, Valid floatRepr v := by
  induction items with
  | nil => exact iff_of_true trivial fun _ h => absurd h List.not_mem_nil
  | cons v vs ih => rw [ValidItems, ih, List.forall_mem_cons]

theorem validMembers_iff (members : List (String × Json)) :
    ValidMembers floatRepr members ↔ ∀ m ∈ members, Valid floatRepr m.2 := by
  induction members with
  | nil => exact iff_of_true trivial fun _ h => absurd h List.not_mem_nil
  | cons m rest ih => rw [ValidMembers, ih, List.forall_mem_cons]

def memberText (style : Style) (m : String × Json) : List Char :=
  (quote m.1).toList ++ style.keySeparator.toList ++ (dumps style m.2).toList

def itemsText (style : Style) (items : List Json) : List Char :=
  style.itemSeparator.toList.intercalate (items.map fun v => (dumps style v).toList)

def membersText (style : Style) (members : List (String × Json)) : List Char :=
  style.itemSeparator.toList.intercalate (members.map (memberText style))

theorem itemsText_cons (v w : Json) (vs : List Json) : itemsText style (v :: w :: vs) =
    (dumps style v).toList ++ (style.itemSeparator.toList ++ itemsText style (w :: vs)) := by
  rw [itemsText, List.map_cons, List.map_cons, List.intercalate_cons_cons, List.append_assoc]
  rfl

theorem membersText_cons (m o : String × Json) (members : List (String × Json)) :
    membersText style (m :: o :: members) =
      memberText style m ++ (style.itemSeparator.toList ++ membersText style (o :: members)) := by
  rw [membersText, List.map_cons, List.map_cons, List.intercalate_cons_cons, List.append_assoc]
  rfl

theorem dumps_arr (items : List Json) :
    (dumps style (.arr items)).toList = '[' :: (itemsText style items ++ [']']) := by
  rw [dumps, dumpsItems_eq, String.toList_append, String.toList_append, String.toList_intercalate,
    List.map_map]
  rfl

theorem dumps_obj (hsort : style.sortKeys = false) (members : List (String × Json)) :
    (dumps style (.obj members)).toList = '\x7b' :: (membersText style members ++ ['\x7d']) := by
  rw [dumps, dumpsMembers_eq, ordered, hsort, String.toList_append, String.toList_append,
    String.toList_intercalate, if_neg (by simp), List.map_map, List.map_map]
  have htext : members.map ((String.toList ∘ fun kv => quote kv.1 ++ style.keySeparator ++ kv.2) ∘
      fun m => (m.1, dumps style m.2)) = members.map (memberText style) := by
    refine List.map_congr_left fun m _ => ?_
    simp [memberText]
  rw [htext]
  rfl

mutual
/-- What is written without `sort_keys`, as a list of characters. -/
def chars (style : Style) : Json → List Char
  | .str s => '"' :: (s.toList.flatMap escape ++ ['"'])
  | .arr items => '[' :: (style.itemSeparator.toList.intercalate (charsItems style items) ++ [']'])
  | .obj members =>
    '\x7b' :: (style.itemSeparator.toList.intercalate (charsMembers style members) ++ ['\x7d'])
  | v => (dumps style v).toList

def charsItems (style : Style) : List Json → List (List Char)
  | [] => []
  | v :: vs => chars style v :: charsItems style vs

def charsMembers (style : Style) : List (String × Json) → List (List Char)
  | [] => []
  | (k, v) :: rest => ('"' :: (k.toList.flatMap escape ++ ['"']) ++ style.keySeparator.toList ++
      chars style v) :: charsMembers style rest
end

mutual
theorem toList_dumps (hsort : style.sortKeys = false) : ∀ v,
    (dumps style v).toList = chars style v
  | .null | .bool _ | .int _ | .float _ => by rw [chars]; all_goals simp
  | .str s => by rw [dumps, quote_toList, chars]
  | .arr items => by rw [dumps_arr, chars, itemsText, charsItems_eq hsort items]
  | .obj members => by
    rw [dumps_obj hsort, chars, membersText, charsMembers_eq hsort members]

theorem charsItems_eq (hsort : style.sortKeys = false) : ∀ items,
    items.map (fun v => (dumps style v).toList) = charsItems style items
  | [] => rfl
  | v :: vs => by
    rw [List.map_cons, charsItems, toList_dumps hsort v, charsItems_eq hsort vs]

theorem charsMembers_eq (hsort : style.sortKeys = false) : ∀ members,
    members.map (memberText style) = charsMembers style members
  | [] => rfl
  | (k, v) :: rest => by
    rw [List.map_cons, charsMembers, memberText, quote_toList, toList_dumps hsort v,
      charsMembers_eq hsort rest]
end

def ReadsValue (floatRepr : String → String) (style : Style) (n : Nat) : Prop :=
  ∀ v rest, Valid floatRepr v → size v ≤ n → Delimited rest →
    scanOnce floatRepr n ((dumps style v).toList ++ rest) = some (v, rest)

def ReadsItems (floatRepr : String → String) (style : Style) (n : Nat) : Prop :=
  ∀ items rest, items ≠ [] → ValidItems floatRepr items → sizeItems items ≤ n →
    scanItems floatRepr n (itemsText style items ++ ']' :: rest) = some (items, rest)

def ReadsMembers (floatRepr : String → String) (style : Style) (n : Nat) : Prop :=
  ∀ members rest, members ≠ [] → ValidMembers floatRepr members → sizeMembers members ≤ n →
    scanMembers floatRepr n (membersText style members ++ '\x7d' :: rest) = some (members, rest)

theorem scanOnce_number {cs : List Char} {found : Json × List Char}
    (h : scanNumber floatRepr cs = some found) : scanOnce floatRepr (n + 1) cs = some found := by
  have hinfinity : "Infinity".toList = ['I', 'n', 'f', 'i', 'n', 'i', 't', 'y'] := rfl
  have hminus : "-Infinity".toList = ['-', 'I', 'n', 'f', 'i', 'n', 'i', 't', 'y'] := rfl
  obtain ⟨d, tail, hd, hcs⟩ := scanNumber_head h
  have hne : ∀ x, isAsciiDigit x = false → (d == x) = false ∧ (x == d) = false := by
    intro x hx
    have : d ≠ x := by
      rintro rfl
      rw [hd] at hx
      cases hx
    exact ⟨by simpa using this, by simpa using this.symm⟩
  rcases hcs with rfl | rfl
  · simp only [scanOnce, hinfinity, hminus, List.isPrefixOf, hne '"' (by decide),
      hne '[' (by decide), hne '\x7b' (by decide), hne 'n' (by decide), hne 't' (by decide),
      hne 'f' (by decide), hne 'N' (by decide), hne 'I' (by decide), hne '-' (by decide),
      Bool.false_and, Bool.false_eq_true, if_false, h]
  · have hsign : ∀ x ∈ ['"', '[', '\x7b', 'n', 't', 'f', 'N', 'I'], ('-' == x) = false ∧
        (x == '-') = false := by decide
    simp only [scanOnce, hinfinity, hminus, List.isPrefixOf, hsign '"' (by decide),
      hsign '[' (by decide), hsign '\x7b' (by decide), hsign 'n' (by decide),
      hsign 't' (by decide), hsign 'f' (by decide), hsign 'N' (by decide), hsign 'I' (by decide),
      hne 'I' (by decide), Bool.false_and, Bool.and_false, Bool.false_eq_true, if_false, h]

/-- A float that is read as a number is written by its `repr`. -/
theorem floatText_number {repr : String} {found : Json × List Char}
    (h : scanNumber floatRepr repr.toList = some found) : floatText repr = repr := by
  obtain ⟨d, tail, hd, hcs⟩ := scanNumber_head h
  have hne : ∀ text : String, (∀ c ∈ text.toList.take 2, isAsciiDigit c = false) →
      repr ≠ text := by
    rintro text hplain rfl
    rcases hcs with hcs | hcs <;>
    · rw [hplain d (by simp [hcs])] at hd
      cases hd
  rw [floatText, if_neg (hne _ (by decide)), if_neg (hne _ (by decide)), if_neg (hne _ (by decide))]

theorem isBlank_digit {d : Char} (h : isAsciiDigit d = true) : isBlank d = false ∧ d ≠ ']' ∧
    d ≠ '\x7d' := by
  have hne : ∀ x, isAsciiDigit x = false → d ≠ x := by
    rintro x hx rfl
    rw [h] at hx
    cases hx
  refine ⟨?_, hne _ (by decide), hne _ (by decide)⟩
  simp only [isBlank, Bool.or_eq_false_iff, beq_eq_false_iff_ne]
  exact ⟨⟨⟨hne _ (by decide), hne _ (by decide)⟩, hne _ (by decide)⟩, hne _ (by decide)⟩

theorem number_begin {cs : List Char} {found : Json × List Char}
    (h : scanNumber floatRepr cs = some found) :
    ∃ c tail, cs = c :: tail ∧ isBlank c = false ∧ c ≠ ']' ∧ c ≠ '\x7d' := by
  obtain ⟨d, tail, hd, rfl | rfl⟩ := scanNumber_head h
  · exact ⟨d, tail, rfl, isBlank_digit hd⟩
  · exact ⟨'-', d :: tail, rfl, by decide⟩

/-- The text of a value begins with a character that is neither blank nor a closing bracket. -/
theorem dumps_begin (style : Style) {v : Json} (h : Valid floatRepr v) :
    ∃ c tail, (dumps style v).toList = c :: tail ∧ isBlank c = false ∧ c ≠ ']' ∧ c ≠ '\x7d' := by
  cases v with
  | null => exact ⟨'n', ['u', 'l', 'l'], by rw [dumps]; rfl, by decide⟩
  | bool b =>
    cases b with
    | false => exact ⟨'f', ['a', 'l', 's', 'e'], by rw [dumps]; rfl, by decide⟩
    | true => exact ⟨'t', ['r', 'u', 'e'], by rw [dumps]; rfl, by decide⟩
  | int n =>
    rw [Valid] at h
    rw [dumps]
    exact number_begin (scanNumber_int floatRepr h)
  | float repr =>
    rw [Valid] at h
    rw [dumps, floatText_number h]
    exact number_begin h
  | str s =>
    rw [dumps]
    exact ⟨'"', _, quote_toList s, by decide⟩
  | arr items => exact ⟨'[', _, dumps_arr items, by decide⟩
  | obj members =>
    refine ⟨'\x7b', ?_, ?_, by decide⟩
    · exact (dumps style (.obj members)).toList.tail
    · rw [dumps, String.toList_append, String.toList_append]
      rfl

theorem skipBlanks_cons {c : Char} {tail : List Char} (h : isBlank c = false) :
    skipBlanks (c :: tail) = c :: tail := by
  simp [skipBlanks, h]

theorem skipBlanks_append {blanks : List Char} (hblanks : ∀ c ∈ blanks, isBlank c = true)
    (cs : List Char) : skipBlanks (blanks ++ cs) = skipBlanks cs := by
  rw [skipBlanks, List.dropWhile_append_of_pos hblanks]
  rfl

theorem skipBlanks_dumps (style : Style) {v : Json} (h : Valid floatRepr v) (rest : List Char) :
    skipBlanks ((dumps style v).toList ++ rest) = (dumps style v).toList ++ rest := by
  obtain ⟨c, tail, htext, hblank, -⟩ := dumps_begin style h
  rw [htext, List.cons_append, skipBlanks_cons hblank]

theorem itemsText_begin (style : Style) {items : List Json} (hne : items ≠ [])
    (h : ValidItems floatRepr items) : ∃ c tail, itemsText style items = c :: tail ∧
      isBlank c = false ∧ c ≠ ']' ∧ c ≠ '\x7d' := by
  obtain ⟨v, vs, rfl⟩ := List.exists_cons_of_ne_nil hne
  rw [ValidItems] at h
  obtain ⟨c, tail, htext, hc⟩ := dumps_begin style h.1
  cases vs with
  | nil =>
    rw [itemsText, List.map_singleton, List.intercalate_singleton]
    exact ⟨c, tail, htext, hc⟩
  | cons w vs =>
    rw [itemsText_cons, htext]
    exact ⟨c, _, rfl, hc⟩

theorem skipBlanks_itemsText (style : Style) {items : List Json} (hne : items ≠ [])
    (h : ValidItems floatRepr items) (rest : List Char) :
    skipBlanks (itemsText style items ++ rest) = itemsText style items ++ rest := by
  obtain ⟨c, tail, htext, hblank, -⟩ := itemsText_begin style hne h
  rw [htext, List.cons_append, skipBlanks_cons hblank]

theorem membersText_begin (style : Style) (m : String × Json) (members : List (String × Json)) :
    ∃ tail, membersText style (m :: members) = '"' :: tail := by
  cases members with
  | nil =>
    rw [membersText, List.map_singleton, List.intercalate_singleton, memberText, quote_toList]
    exact ⟨_, rfl⟩
  | cons o members =>
    rw [membersText_cons, memberText, quote_toList]
    exact ⟨_, rfl⟩

theorem delimited_cons {c : Char} (hc : inNumber c = false) (rest : List Char) :
    Delimited (c :: rest) := by
  intro d hd
  obtain rfl := Option.some.inj hd
  exact hc

/-- One turn through the items. -/
theorem readsItems_succ (hsep : Separators style) (hvalue : ReadsValue floatRepr style n)
    (hitems : ReadsItems floatRepr style n) : ReadsItems floatRepr style (n + 1) := by
  intro items rest hne hvalid hsize
  obtain ⟨v, vs, rfl⟩ := List.exists_cons_of_ne_nil hne
  rw [ValidItems] at hvalid
  rw [sizeItems] at hsize
  cases vs with
  | nil =>
    have hread := hvalue v (']' :: rest) hvalid.1 (by omega) (delimited_cons (by decide) _)
    rw [itemsText, List.map_singleton, List.intercalate_singleton, scanItems, hread,
      Option.bind_some, skipBlanks_cons (by decide)]
    rfl
  | cons w vs =>
    obtain ⟨blanks, hitem, hblanks⟩ := hsep.item
    have hread := hvalue v (',' :: (blanks ++ (itemsText style (w :: vs) ++ ']' :: rest)))
      hvalid.1 (by omega) (delimited_cons (by decide) _)
    have hmore := hitems (w :: vs) rest (by simp) hvalid.2 (by omega)
    rw [itemsText_cons, hitem, List.append_assoc, List.cons_append, List.cons_append,
      List.append_assoc, scanItems, hread, Option.bind_some, skipBlanks_cons (by decide)]
    simp only [skipBlanks_append hblanks, skipBlanks_itemsText style (List.cons_ne_nil w vs)
      hvalid.2, hmore, Option.map_some]

/-- What a reader makes of a member's value and of what follows it. -/
def afterMember (floatRepr : String → String) (n : Nat) (key : String) (value : Json × List Char) :
    Option (List (String × Json) × List Char) :=
  match skipBlanks value.2 with
  | ',' :: rest => (scanMembers floatRepr n (skipBlanks rest)).map fun found =>
    ((key, value.1) :: found.1, found.2)
  | c :: rest => if c == '\x7d' then some ([(key, value.1)], rest) else none
  | [] => none

/-- One turn through the members. -/
theorem readsMembers_succ (hsep : Separators style) (hvalue : ReadsValue floatRepr style n)
    (hmembers : ReadsMembers floatRepr style n) : ReadsMembers floatRepr style (n + 1) := by
  intro members rest hne hvalid hsize
  obtain ⟨⟨k, v⟩, others, rfl⟩ := List.exists_cons_of_ne_nil hne
  rw [ValidMembers] at hvalid
  rw [sizeMembers] at hsize
  obtain ⟨keyBlanks, hkey, hkeyBlanks⟩ := hsep.key
  have hbegin : ∀ tail : List Char, scanMembers floatRepr (n + 1)
      (memberText style (k, v) ++ tail) =
      (scanOnce floatRepr n ((dumps style v).toList ++ tail)).bind (afterMember floatRepr n k) := by
    intro tail
    rw [memberText, quote_toList, hkey]
    simp only [List.cons_append, List.append_assoc, List.nil_append, scanMembers,
      scanString_quoted, Option.bind_some, skipBlanks_cons (by decide : isBlank ':' = false),
      skipBlanks_append hkeyBlanks, skipBlanks_dumps style hvalid.1, String.ofList_toList]
    rfl
  cases others with
  | nil =>
    have hread := hvalue v ('\x7d' :: rest) hvalid.1 (by omega) (delimited_cons (by decide) _)
    rw [membersText, List.map_singleton, List.intercalate_singleton, hbegin, hread,
      Option.bind_some, afterMember, skipBlanks_cons (by decide)]
    rfl
  | cons o others =>
    obtain ⟨blanks, hitem, hblanks⟩ := hsep.item
    have hread := hvalue v (',' :: (blanks ++ (membersText style (o :: others) ++ '\x7d' :: rest)))
      hvalid.1 (by omega) (delimited_cons (by decide) _)
    have hmore := hmembers (o :: others) rest (by simp) hvalid.2 (by omega)
    have hskip : skipBlanks (membersText style (o :: others) ++ '\x7d' :: rest) =
        membersText style (o :: others) ++ '\x7d' :: rest := by
      obtain ⟨tail, htail⟩ := membersText_begin style o others
      rw [htail, List.cons_append, skipBlanks_cons (by decide)]
    rw [membersText_cons, hitem, List.append_assoc, List.cons_append, List.cons_append,
      List.append_assoc, hbegin, hread, Option.bind_some, afterMember, skipBlanks_cons (by decide)]
    simp only [skipBlanks_append hblanks, hskip, hmore, Option.map_some]

/-- One level of a value. -/
theorem readsValue_succ (hsort : style.sortKeys = false) (hitems : ReadsItems floatRepr style n)
    (hmembers : ReadsMembers floatRepr style n) : ReadsValue floatRepr style (n + 1) := by
  intro v rest hvalid hsize hrest
  have hnumber : ∀ cs value, scanNumber floatRepr cs = some (value, []) →
      scanOnce floatRepr (n + 1) (cs ++ rest) = some (value, rest) := by
    intro cs value hcs
    refine scanOnce_number ?_
    rw [scanNumber_append floatRepr hrest, hcs]
    rfl
  cases v with
  | null => rw [dumps]; rfl
  | bool b => cases b <;> rw [dumps] <;> rfl
  | int m =>
    rw [Valid] at hvalid
    rw [dumps]
    exact hnumber _ _ (scanNumber_int floatRepr hvalid)
  | float repr =>
    rw [Valid] at hvalid
    rw [dumps, floatText_number hvalid]
    exact hnumber _ _ hvalid
  | str s =>
    rw [dumps, quote_toList, List.cons_append, List.append_assoc, scanOnce, if_pos (by decide),
      List.singleton_append, scanString_quoted, Option.map_some, String.ofList_toList]
  | arr items =>
    rw [Valid] at hvalid
    rw [size] at hsize
    rw [dumps_arr, List.cons_append, List.append_assoc, List.singleton_append, scanOnce,
      if_neg (by decide), if_pos (by decide)]
    by_cases hnil : items = []
    · subst hnil
      rfl
    · rw [skipBlanks_itemsText style hnil hvalid, if_neg]
      · rw [hitems items rest hnil hvalid (by omega), Option.map_some]
      · obtain ⟨c, tail, htext, -, hc, -⟩ := itemsText_begin style hnil hvalid
        rw [htext, List.cons_append, List.head?_cons]
        exact fun heq => hc (Option.some.inj heq)
  | obj members =>
    rw [Valid] at hvalid
    rw [size] at hsize
    rw [dumps_obj hsort, List.cons_append, List.append_assoc, List.singleton_append, scanOnce,
      if_neg (by decide), if_neg (by decide), if_pos (by decide)]
    cases members with
    | nil => rfl
    | cons m members =>
      obtain ⟨tail, htail⟩ := membersText_begin style m members
      have hskip : skipBlanks (membersText style (m :: members) ++ '\x7d' :: rest) =
          membersText style (m :: members) ++ '\x7d' :: rest := by
        rw [htail, List.cons_append, skipBlanks_cons (by decide)]
      rw [hskip, if_neg, hmembers (m :: members) rest (by simp) hvalid.2 (by omega),
        Option.map_some, Dict.entries_ofList hvalid.1]
      rw [htail, List.cons_append, List.head?_cons]
      decide

theorem reads (hsort : style.sortKeys = false) (hsep : Separators style) (n : Nat) :
    ReadsValue floatRepr style n ∧ ReadsItems floatRepr style n ∧
      ReadsMembers floatRepr style n := by
  induction n with
  | zero =>
    refine ⟨fun v rest _ hsize _ => ?_, fun items rest hne _ hsize => ?_,
      fun members rest hne _ hsize => ?_⟩
    · cases v <;> rw [size] at hsize <;> omega
    · obtain ⟨v, vs, rfl⟩ := List.exists_cons_of_ne_nil hne
      rw [sizeItems] at hsize
      omega
    · obtain ⟨m, others, rfl⟩ := List.exists_cons_of_ne_nil hne
      rw [sizeMembers] at hsize
      omega
  | succ n ih =>
    obtain ⟨hvalue, hitems, hmembers⟩ := ih
    exact ⟨readsValue_succ hsort hitems hmembers, readsItems_succ hsep hvalue hitems,
      readsMembers_succ hsep hvalue hmembers⟩

theorem number_pos {cs : List Char} {found : Json × List Char}
    (h : scanNumber floatRepr cs = some found) : 0 < cs.length := by
  obtain ⟨d, tail, -, rfl | rfl⟩ := scanNumber_head h
  · exact Nat.succ_pos _
  · exact Nat.succ_pos _

theorem length_memberText (style : Style) (m : String × Json) :
    (dumps style m.2).toList.length ≤ (memberText style m).length := by
  rw [memberText, List.length_append]
  exact Nat.le_add_left _ _

-- The reader takes at most two turns for each character that is written.
mutual
theorem size_lt (hsort : style.sortKeys = false) : ∀ v, Valid floatRepr v →
    size v < 2 * (dumps style v).toList.length
  | .null, _ => by rw [dumps]; decide
  | .bool true, _ => by rw [dumps]; decide
  | .bool false, _ => by rw [dumps]; decide
  | .int m, h => by
    rw [Valid] at h
    have hpos := number_pos (scanNumber_int floatRepr h)
    rw [dumps, size]
    omega
  | .float repr, h => by
    rw [Valid] at h
    have hpos := number_pos h
    rw [dumps, floatText_number h, size]
    omega
  | .str s, _ => by
    rw [dumps, quote_toList, size, List.length_cons]
    omega
  | .arr items, h => by
    rw [Valid] at h
    have hitems := sizeItems_le hsort items h
    rw [dumps_arr, size, List.length_cons, List.length_append]
    omega
  | .obj members, h => by
    rw [Valid] at h
    have hmembers := sizeMembers_le hsort members h.2
    rw [dumps_obj hsort, size, List.length_cons, List.length_append]
    omega

theorem sizeItems_le (hsort : style.sortKeys = false) : ∀ items, ValidItems floatRepr items →
    sizeItems items ≤ 2 * (itemsText style items).length
  | [], _ => by rw [sizeItems]; exact Nat.zero_le _
  | [v], h => by
    rw [ValidItems] at h
    have hv := size_lt hsort v h.1
    rw [sizeItems, sizeItems, itemsText, List.map_singleton, List.intercalate_singleton]
    omega
  | v :: w :: vs, h => by
    rw [ValidItems] at h
    have hv := size_lt hsort v h.1
    have hvs := sizeItems_le hsort (w :: vs) h.2
    rw [sizeItems, itemsText_cons, List.length_append, List.length_append]
    omega

theorem sizeMembers_le (hsort : style.sortKeys = false) : ∀ members,
    ValidMembers floatRepr members → sizeMembers members ≤ 2 * (membersText style members).length
  | [], _ => by rw [sizeMembers]; exact Nat.zero_le _
  | [(k, v)], h => by
    rw [ValidMembers] at h
    have hv := size_lt hsort v h.1
    have hm : (dumps style v).toList.length ≤ _ := length_memberText style (k, v)
    rw [sizeMembers, sizeMembers, membersText, List.map_singleton, List.intercalate_singleton]
    omega
  | (k, v) :: m :: members, h => by
    rw [ValidMembers] at h
    have hv := size_lt hsort v h.1
    have hm : (dumps style v).toList.length ≤ _ := length_memberText style (k, v)
    have hmembers := sizeMembers_le hsort (m :: members) h.2
    rw [sizeMembers, membersText_cons, List.length_append, List.length_append]
    omega
end

/-- What is written is read back. -/
theorem loads_dumps (hsort : style.sortKeys = false) (hsep : Separators style) {v : Json}
    (h : Valid floatRepr v) : loads floatRepr (dumps style v) = some v := by
  have hsize := size_lt hsort v h
  have hread := (reads hsort hsep (2 * (dumps style v).toList.length + 1)).1 v [] h (by omega)
    (fun c hc => by cases hc)
  have hskip := skipBlanks_dumps style h []
  rw [List.append_nil] at hread hskip
  rw [loads, hskip, hread]
  rfl

end

end Text.Json
