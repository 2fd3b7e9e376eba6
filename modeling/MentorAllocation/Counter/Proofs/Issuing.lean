import MentorAllocation.Counter.Proofs.Preview

namespace Counter
open Text Concurrency

/-- Where a counter that passes the pattern comes from. -/
def Store.Numbered (N : RedisNamespaces) (s : Store) (counter : String) : Prop :=
  ∃ yearCode gender prefixCode, ∃ n : Nat, yearCode.toList.length = 2 ∧
    genderPrefix gender = some prefixCode ∧ counter = yearCode ++ prefixCode ++ zeroPad 4 n ∧
    (n : Int) ≤ s.sequence N yearCode gender

/-- The store between commands: only placeholders expire, and the counters that pass the
pattern are numbered by their sequences and stored once, whatever the bounds of the calls. -/
structure Store.Issuing (N : RedisNamespaces) (s : Store) : Prop extends s.Shaped N where
  permanent : ∀ key e, s key = some e → e.volatile = true → e.value = .pending
  numbered : ∀ key a, s.value key = some (.assigned a) → counterRegex a.counter = true →
    s.Numbered N a.counter
  unique : ∀ key key' a a', s.value key = some (.assigned a) → s.value key' = some (.assigned a') →
    a.counter = a'.counter → counterRegex a.counter = true → key = key'

structure Store.Later (N : RedisNamespaces) (s t : Store) : Prop where
  keeps : s.Keeps t
  grown : ∀ yearCode gender, s.sequence N yearCode gender ≤ t.sequence N yearCode gender

namespace Store
variable {N : RedisNamespaces} {s t : Store} {yearCode studentId : String} {gender : Int}

theorem Later.refl (s : Store) : s.Later N s := ⟨.refl s, fun _ _ => le_refl _⟩

theorem Later.trans {u : Store} (h : s.Later N t) (h' : t.Later N u) : s.Later N u :=
  ⟨h.keeps.trans h'.keeps, fun yearCode gender => (h.grown yearCode gender).trans
    (h'.grown yearCode gender)⟩

theorem issuing_empty (N : RedisNamespaces) : Issuing N (fun _ => none) :=
  ⟨shaped_empty N, by simp, by simp [value], by simp [value]⟩

theorem sequence_congr (h : t.value (N.counterSequence yearCode gender) =
    s.value (N.counterSequence yearCode gender)) :
    t.sequence N yearCode gender = s.sequence N yearCode gender := by
  rw [Store.sequence, Store.sequence, h]

theorem Numbered.mono {counter : String} (h : s.Numbered N counter) (hst : s.Later N t) :
    t.Numbered N counter := by
  obtain ⟨yearCode, gender, prefixCode, n, hlen, hcode, hcounter, hle⟩ := h
  exact ⟨yearCode, gender, prefixCode, n, hlen, hcode, hcounter,
    hle.trans (hst.grown yearCode gender)⟩

/-- A later store without new assignments. -/
theorem Issuing.later (h : s.Issuing N) (hshaped : t.Shaped N)
    (hpermanent : ∀ key e, t key = some e → e.volatile = true → e.value = .pending)
    (hassigned : ∀ key a, t.value key = some (.assigned a) → s.value key = some (.assigned a))
    (hst : s.Later N t) : t.Issuing N where
  toShaped := hshaped
  permanent := hpermanent
  numbered key a ha hregex := (h.numbered key a (hassigned key a ha) hregex).mono hst
  unique key key' a a' ha ha' := h.unique key key' a a' (hassigned key a ha) (hassigned key' a' ha')

theorem Issuing.expire (h : s.Issuing N) (keys : List String) :
    (s.expire keys).Issuing N ∧ s.Later N (s.expire keys) := by
  have hval : ∀ key, (s.expire keys).value key = s.value key ∨
      s.value key = some .pending ∧ (s.expire keys).value key = none := by
    intro key
    cases hk : s key with
    | none => simp [value, Store.expire, hk]
    | some e =>
      cases hkept : !(e.volatile && keys.contains key) with
      | true => exact .inl (by rw [value, value, Store.expire, hk, Option.filter_some,
          if_pos hkept])
      | false =>
        have hvolatile : e.volatile = true := by
          rw [Bool.not_eq_false', Bool.and_eq_true] at hkept
          exact hkept.1
        refine .inr ⟨?_, ?_⟩
        · rw [value, hk, Option.map_some, h.permanent key e hk hvolatile]
        · rw [value, Store.expire, hk, Option.filter_some, hkept]
          rfl
  have hst : s.Later N (s.expire keys) := by
    refine ⟨fun key a ha => ?_, fun yearCode gender => (sequence_congr ?_).ge⟩
    · rcases hval key with he | ⟨hp, -⟩
      · rwa [he]
      · rw [ha] at hp
        cases hp
    · rcases hval (N.counterSequence yearCode gender) with he | ⟨hp, hn⟩
      · exact he
      · rcases h.sequences yearCode gender with hnone | ⟨n, -, hnum⟩
        · rw [hn, hnone]
        · rw [hnum] at hp
          cases hp
  refine ⟨h.later (h.toShaped.expire keys) (fun key e he => ?_) (fun key a ha => ?_) hst, hst⟩
  · exact h.permanent key e (Option.filter_eq_some_iff.mp he).1
  · rcases hval key with he | ⟨-, hn⟩
    · rwa [← he]
    · rw [hn] at ha
      cases ha

/-- A store in which only a student's key changed, which held no assignment. -/
theorem later_student
    (hfree : ∀ a, s.value (N.counterStudent yearCode studentId) ≠ some (.assigned a))
    (hsame : ∀ key, key ≠ N.counterStudent yearCode studentId → t key = s key) : s.Later N t := by
  refine ⟨fun key a ha => ?_, fun yearCode gender => (sequence_congr ?_).ge⟩
  · by_cases hkey : key = N.counterStudent yearCode studentId
    · exact absurd (hkey ▸ ha) (hfree a)
    · rwa [value, hsame key hkey]
  · rw [value, value, hsame _ RedisNamespaces.counterStudent_ne.symm]

/-- The placeholder is set, or taken away. -/
theorem Issuing.student (h : s.Issuing N) (hshaped : t.Shaped N)
    (hfree : ∀ a, s.value (N.counterStudent yearCode studentId) ≠ some (.assigned a))
    (hsame : ∀ key, key ≠ N.counterStudent yearCode studentId → t key = s key)
    (hnew : ∀ e, t (N.counterStudent yearCode studentId) = some e → e.value = .pending) :
    t.Issuing N ∧ s.Later N t := by
  have hst := later_student hfree hsame
  refine ⟨h.later hshaped (fun key e he hvolatile => ?_) (fun key a ha => ?_) hst, hst⟩
  · by_cases hkey : key = N.counterStudent yearCode studentId
    · exact hnew e (hkey ▸ he)
    · exact h.permanent key e (hsame key hkey ▸ he) hvolatile
  · by_cases hkey : key = N.counterStudent yearCode studentId
    · obtain ⟨e, he, hv⟩ := Option.map_eq_some_iff.mp (hkey ▸ ha)
      rw [hnew e he] at hv
      cases hv
    · rwa [value, ← hsame key hkey]

theorem Issuing.reserve (h : s.Issuing N) (yearCode studentId : String)
    (hfree : ∀ a, s.value (N.counterStudent yearCode studentId) ≠ some (.assigned a)) :
    (s.set (N.counterStudent yearCode studentId) .pending true).Issuing N ∧
      s.Later N (s.set (N.counterStudent yearCode studentId) .pending true) :=
  h.student (h.toShaped.set_student (by simp) true) hfree
    (fun _ hkey => Function.update_of_ne hkey _ _) (by simp [Store.set])

theorem Issuing.release (h : s.Issuing N) (yearCode studentId : String)
    (hfree : ∀ a, s.value (N.counterStudent yearCode studentId) ≠ some (.assigned a)) :
    (s.del (N.counterStudent yearCode studentId)).Issuing N ∧
      s.Later N (s.del (N.counterStudent yearCode studentId)) :=
  h.student h.toShaped.del_student hfree (fun _ hkey => Function.update_of_ne hkey _ _)
    (by simp [Store.del])

/-- A sequence set one higher. -/
theorem Issuing.advance (h : s.Issuing N) (yearCode : String) (gender : Int) :
    (s.set (N.counterSequence yearCode gender) (.number (s.sequence N yearCode gender + 1))
      false).Issuing N ∧
    s.Later N (s.set (N.counterSequence yearCode gender)
      (.number (s.sequence N yearCode gender + 1)) false) ∧
    (s.set (N.counterSequence yearCode gender) (.number (s.sequence N yearCode gender + 1))
      false).sequence N yearCode gender = s.sequence N yearCode gender + 1 := by
  have hnonneg := h.sequence_nonneg yearCode gender
  have hself : (s.set (N.counterSequence yearCode gender)
      (.number (s.sequence N yearCode gender + 1)) false).sequence N yearCode gender =
        s.sequence N yearCode gender + 1 := by
    rw [Store.sequence, value_set_self]
  have hst : s.Later N (s.set (N.counterSequence yearCode gender)
      (.number (s.sequence N yearCode gender + 1)) false) := by
    refine ⟨fun key a ha => ?_, fun yearCode' gender' => ?_⟩
    · by_cases hkey : key = N.counterSequence yearCode gender
      · subst hkey
        rcases h.sequences yearCode gender with hnone | ⟨n, -, hnum⟩
        · rw [hnone] at ha
          cases ha
        · rw [hnum] at ha
          cases ha
      · rwa [value_set_other hkey]
    · by_cases hkey : N.counterSequence yearCode' gender' = N.counterSequence yearCode gender
      · have hsame : ∀ t : Store, t.sequence N yearCode' gender' = t.sequence N yearCode gender :=
          fun t => by rw [Store.sequence, Store.sequence, hkey]
        rw [hsame, hsame, hself]
        omega
      · exact (sequence_congr (value_set_other hkey _ false)).ge
  refine ⟨h.later (h.toShaped.set_sequence (by omega) false) (fun key e he hvolatile => ?_)
    (fun key a ha => ?_) hst, hst, hself⟩
  · by_cases hkey : key = N.counterSequence yearCode gender
    · rw [hkey, Store.set, Function.update_self] at he
      obtain rfl := Option.some.inj he
      cases hvolatile
    · rw [Store.set, Function.update_of_ne hkey] at he
      exact h.permanent key e he hvolatile
  · by_cases hkey : key = N.counterSequence yearCode gender
    · rw [hkey, value_set_self] at ha
      cases ha
    · rwa [value_set_other hkey] at ha

/-- `INCR` leaves the sequence one higher, or an error. -/
theorem Issuing.incr (h : s.Issuing N) (yearCode : String) (gender : Int) :
    s.incr (N.counterSequence yearCode gender) = .ok (s.sequence N yearCode gender + 1,
      s.set (N.counterSequence yearCode gender) (.number (s.sequence N yearCode gender + 1))
        false) ∨
    ∃ message, s.incr (N.counterSequence yearCode gender) = .error message := by
  cases hk : s (N.counterSequence yearCode gender) with
  | none =>
    have hseq : s.sequence N yearCode gender = 0 := by simp [Store.sequence, value, hk]
    rw [hseq, Store.incr, hk]
    exact .inl rfl
  | some e =>
    obtain ⟨v, volatile⟩ := e
    have hval : s.value (N.counterSequence yearCode gender) = some v := by simp [value, hk]
    rcases h.sequences yearCode gender with hnone | ⟨n, hn, hnum⟩
    · rw [hval] at hnone
      cases hnone
    · obtain rfl : v = .number n := Option.some.inj (hval.symm.trans hnum)
      obtain rfl : volatile = false := by
        cases volatile with
        | false => rfl
        | true => cases h.permanent _ _ hk rfl
      have hseq : s.sequence N yearCode gender = n := by simp [Store.sequence, hval]
      rw [hseq, Store.incr, hk]
      by_cases hmax : n < 2 ^ 63 - 1
      · exact .inl (if_pos hmax)
      · exact .inr ⟨_, if_neg hmax⟩

/-- A counter that passes the pattern and was just drawn is not stored yet. -/
theorem Issuing.fresh (h : s.Issuing N) {prefixCode : String}
    (hlen : yearCode.toList.length = 2) (hcode : genderPrefix gender = some prefixCode)
    {key : String} {a : Assignment} (ha : s.value key = some (.assigned a))
    (hregex : counterRegex a.counter = true) : a.counter ≠
      yearCode ++ prefixCode ++ zeroPad 4 (luaNumber (s.sequence N yearCode gender + 1)) := by
  intro hcounter
  have hpos : 0 < s.sequence N yearCode gender + 1 :=
    Int.lt_add_one_of_le (h.sequence_nonneg yearCode gender)
  have hlua := luaNumber_pos hpos
  obtain ⟨yearCode', gender', prefixCode', n, hlen', hcode', hcounter', hle⟩ :=
    h.numbered key a ha hregex
  rw [hcounter, counterRegex_counter hlen hcode hlua.1] at hregex
  have hsmall := hlua.2.mp hregex.2
  rw [luaNumber_small (by omega)] at hcounter
  obtain ⟨m, hm⟩ := Int.eq_ofNat_of_zero_le hpos.le
  rw [hm, hcounter'] at hcounter
  obtain ⟨rfl, rfl, rfl⟩ := counter_inj (hlen'.trans hlen.symm)
    ((genderPrefix_length hcode').trans (genderPrefix_length hcode).symm) hcounter
  obtain rfl := genderPrefix_inj hcode' hcode
  omega

/-- The counter just drawn is stored for its student, `before` being the store it was drawn in. -/
theorem Issuing.assign {before : Store} (h : s.Issuing N) (studentId : String)
    (hbefore : before.Issuing N)
    (hnext : s.sequence N yearCode gender = before.sequence N yearCode gender + 1)
    (hassigned : ∀ key a, s.value key = some (.assigned a) → before.value key = some (.assigned a))
    {prefixCode : String} {a : Assignment} (hlen : yearCode.toList.length = 2)
    (hcode : genderPrefix gender = some prefixCode)
    (ha : a.counter =
      yearCode ++ prefixCode ++ zeroPad 4 (luaNumber (before.sequence N yearCode gender + 1)))
    (hfree : ∀ a, s.value (N.counterStudent yearCode studentId) ≠ some (.assigned a)) :
    (s.set (N.counterStudent yearCode studentId) (.assigned a) false).Issuing N ∧
      s.Later N (s.set (N.counterStudent yearCode studentId) (.assigned a) false) := by
  have hst : s.Later N (s.set (N.counterStudent yearCode studentId) (.assigned a) false) :=
    later_student hfree fun _ hkey => Function.update_of_ne hkey _ _
  have hnonneg := hbefore.sequence_nonneg yearCode gender
  have hnew : counterRegex a.counter = true → s.Numbered N a.counter := by
    intro hregex
    have hlua := luaNumber_pos (n := s.sequence N yearCode gender) (by omega)
    rw [← hnext] at ha
    rw [ha, counterRegex_counter hlen hcode hlua.1] at hregex
    obtain ⟨n, hn⟩ := Int.eq_ofNat_of_zero_le (a := s.sequence N yearCode gender) (by omega)
    have hsmall := hlua.2.mp hregex.2
    rw [luaNumber_small (by omega), hn] at ha
    exact ⟨yearCode, gender, prefixCode, n, hlen, hcode, ha, by omega⟩
  have hfresh : ∀ key a', s.value key = some (.assigned a') → counterRegex a'.counter = true →
      a'.counter ≠ a.counter := by
    intro key a' ha' hregex
    rw [ha]
    exact hbefore.fresh hlen hcode (hassigned key a' ha') hregex
  have hvalue : ∀ key a', (s.set (N.counterStudent yearCode studentId) (.assigned a) false).value
      key = some (.assigned a') → key = N.counterStudent yearCode studentId ∧ a' = a ∨
        s.value key = some (.assigned a') := by
    intro key a' ha'
    by_cases hkey : key = N.counterStudent yearCode studentId
    · rw [hkey, value_set_self] at ha'
      exact .inl ⟨hkey, (Value.assigned.inj (Option.some.inj ha')).symm⟩
    · exact .inr (by rwa [value_set_other hkey] at ha')
  refine ⟨⟨h.toShaped.set_student (by simp) false, fun key e he hvolatile => ?_,
    fun key a' ha' hregex => ?_, fun key key' a₁ a₂ h₁ h₂ hsame hregex => ?_⟩, hst⟩
  · by_cases hkey : key = N.counterStudent yearCode studentId
    · rw [hkey, Store.set, Function.update_self] at he
      obtain rfl := Option.some.inj he
      cases hvolatile
    · rw [Store.set, Function.update_of_ne hkey] at he
      exact h.permanent key e he hvolatile
  · rcases hvalue key a' ha' with ⟨-, rfl⟩ | hold
    · exact (hnew hregex).mono hst
    · exact (h.numbered key a' hold hregex).mono hst
  · rcases hvalue key a₁ h₁ with ⟨rfl, rfl⟩ | hold₁
    · rcases hvalue key' a₂ h₂ with ⟨rfl, rfl⟩ | hold₂
      · rfl
      · exact absurd hsame.symm (hfresh key' a₂ hold₂ (hsame ▸ hregex))
    · rcases hvalue key' a₂ h₂ with ⟨rfl, rfl⟩ | hold₂
      · exact absurd hsame (hfresh key a₁ hold₁ hregex)
      · exact h.unique key key' a₁ a₂ hold₁ hold₂ hsame hregex

end Store

/-- What one run of the script does to the store and what its reply says about it. -/
structure Issue (N : RedisNamespaces) (normalized : NormalizedPayload) (s : Store)
    (result : Except String Reply × Store) : Prop where
  issuing : result.2.Issuing N
  later : s.Later N result.2
  drawn : result.1 = .ok .exhausted →
    s.sequence N normalized.yearCode normalized.gender <
      result.2.sequence N normalized.yearCode normalized.gender
  answers : ∀ reply, result.1 = .ok reply →
    result.2.Answers (N.counterStudent normalized.yearCode normalized.studentId) reply

section
variable {N : RedisNamespaces} {s t : Store} {C : CounterRuntime} {normalized : NormalizedPayload}
  {prefixCode : String}

/-- The student's assignment is stored and answered. -/
theorem Issue.assigned {a : Assignment} {counter serial : String} (ha : a.counter = counter)
    (hissued : (t.set (N.counterStudent normalized.yearCode normalized.studentId) (.assigned a)
      false).Issuing N ∧ t.Later N (t.set (N.counterStudent normalized.yearCode
        normalized.studentId) (.assigned a) false)) (hst : s.Later N t) :
    Issue N normalized s (.ok (.new counter serial),
      t.set (N.counterStudent normalized.yearCode normalized.studentId) (.assigned a) false) := by
  refine ⟨hissued.1, hst.trans hissued.2, by simp, fun reply hreply counter serial hc => ?_⟩
  obtain rfl := Except.ok.inj hreply
  simp only [Reply.new.injEq, reduceCtorEq, or_false] at hc
  exact ⟨a, Store.value_set_self _ _, ha.trans hc.1⟩

theorem Issue.error {message : String} (h : t.Issuing N) (hst : s.Later N t) :
    Issue N normalized s (.error message, t) :=
  ⟨h, hst, by simp, by simp⟩

/-- The script draws a serial before it tests the bound, and never gives one back. -/
theorem allocateScript_issue (h : s.Issuing N) (hlen : normalized.yearCode.toList.length = 2)
    (hcode : genderPrefix normalized.gender = some prefixCode) :
    Issue N normalized s (allocateScript (C.scriptArgs N normalized prefixCode) s) := by
  rw [allocateScript, CounterRuntime.scriptArgs]
  cases hs : s (N.counterStudent normalized.yearCode normalized.studentId) with
  | some e =>
    obtain ⟨v, volatile⟩ := e
    cases v with
    | pending =>
      refine ⟨h, .refl s, by simp, fun reply hreply counter serial hc => ?_⟩
      obtain rfl := Except.ok.inj hreply
      simp at hc
    | number n => exact .error h (.refl s)
    | assigned a =>
      refine ⟨h, .refl s, by simp, fun reply hreply counter serial hc => ?_⟩
      obtain rfl := Except.ok.inj hreply
      refine ⟨a, by simp [Store.value, hs], ?_⟩
      simp only [reduceCtorEq, Reply.reused.injEq, false_or] at hc
      exact hc.1
  | none =>
    have hnone : s.value (N.counterStudent normalized.yearCode normalized.studentId) = none := by
      simp [Store.value, hs]
    have hpending := h.reserve normalized.yearCode normalized.studentId (by simp [hnone])
    generalize hset : s.set (N.counterStudent normalized.yearCode normalized.studentId) .pending
      true = u at hpending
    obtain ⟨hissuing, hlater⟩ := hpending
    have hseq : u.sequence N normalized.yearCode normalized.gender =
        s.sequence N normalized.yearCode normalized.gender := by
      rw [← hset]
      exact Store.sequence_congr (Store.value_set_other RedisNamespaces.counterStudent_ne.symm _ _)
    rcases hissuing.incr normalized.yearCode normalized.gender with hincr | ⟨message, hincr⟩
    · obtain ⟨hnext, hlater', hself⟩ := hissuing.advance normalized.yearCode normalized.gender
      simp only [hincr]
      generalize hdrawn : u.set (N.counterSequence normalized.yearCode normalized.gender)
        (.number (u.sequence N normalized.yearCode normalized.gender + 1)) false = w
        at hnext hlater' hself
      have hw : w.value (N.counterStudent normalized.yearCode normalized.studentId) =
          some .pending := by
        rw [← hdrawn, Store.value_set_other RedisNamespaces.counterStudent_ne, ← hset,
          Store.value_set_self]
      split
      · obtain ⟨hdel, hlater''⟩ :=
          hnext.release normalized.yearCode normalized.studentId (by simp [hw])
        refine ⟨hdel, (hlater.trans hlater').trans hlater'', fun _ => ?_, ?_⟩
        · have hafter := hlater''.grown normalized.yearCode normalized.gender
          rw [hself, hseq] at hafter
          exact Int.lt_of_add_one_le hafter
        · intro reply hreply counter serial hc
          obtain rfl := Except.ok.inj hreply
          simp at hc
      · have hassigned : ∀ key a, w.value key = some (.assigned a) →
            s.value key = some (.assigned a) := by
          intro key a ha
          by_cases hkey : key = N.counterStudent normalized.yearCode normalized.studentId
          · rw [hkey, hw] at ha
            cases ha
          · by_cases hkey' : key = N.counterSequence normalized.yearCode normalized.gender
            · rw [hkey', ← hdrawn, Store.value_set_self] at ha
              cases ha
            · rwa [← hdrawn, Store.value_set_other hkey', ← hset, Store.value_set_other hkey] at ha
        refine .assigned rfl (hnext.assign normalized.studentId h (hself.trans (by rw [hseq]))
          hassigned hlen hcode ?_ (by simp [hw])) (hlater.trans hlater')
        rw [hseq]
    · simp only [hincr]
      exact .error hissuing hlater

variable {ι : Type} {ch : Choice} {i : ι}

/-- Whatever becomes of the script and its answer. -/
theorem answer_issue (h : s.Issuing N) (hlen : normalized.yearCode.toList.length = 2)
    (hcode : genderPrefix normalized.gender = some prefixCode) {x : Except String Reply}
    (hanswer : Store.answer ch i (.eval (C.scriptArgs N normalized prefixCode)) s = some (x, t)) :
    Issue N normalized s (x, t) := by
  obtain ⟨hexpired, hlater⟩ := h.expire ch.expired
  have hissue := allocateScript_issue (C := C) hexpired hlen hcode
  rcases Store.answer_cases hanswer with ⟨⟨error, rfl⟩, rfl | rfl⟩ | he
  · exact .error hexpired hlater
  · exact .error hissue.issuing (hlater.trans hissue.later)
  · have he : allocateScript (C.scriptArgs N normalized prefixCode) (s.expire ch.expired) =
      (x, t) :=
      he
    rw [he] at hissue
    exact ⟨hissue.issuing, hlater.trans hissue.later, fun hx =>
      lt_of_le_of_lt (hlater.grown _ _) (hissue.drawn hx), hissue.answers⟩

theorem answer_get {key : String} (h : s.Issuing N) {x : Except String (Option Value)}
    (hanswer : Store.answer ch i (.get key) s = some (x, t)) : t.Issuing N ∧ s.Later N t := by
  have hexpired := h.expire ch.expired
  rcases Store.answer_cases hanswer with ⟨-, rfl | rfl⟩ | he
  · exact hexpired
  · exact hexpired
  · obtain rfl := (Prod.mk.inj he).2
    exact hexpired

end

/-- Programs that may count on assignments and sequences lasting, and see to it themselves. -/
def issueProtocol (ι : Type) (N : RedisNamespaces) :
    Protocol Choice ι Store Request Request.Response where
  answer := Store.answer
  inv := Store.Issuing N
  rely := fun _ => Store.Later N
  guar := fun _ => Store.Later N
  allowed := fun _ _ _ _ => True
  guar_rely := fun _ _ _ _ _ h => h
  rely_refl := fun _ => Store.Later.refl
  rely_trans := fun _ _ _ _ => Store.Later.trans

/-- The outcome is the rejection of a request whose sequence is used up. -/
def Rejected (x : Except Failure CounterResult) : Prop :=
  ∃ messageFa details, x = .error (.counter "COUNTER_EXHAUSTED" messageFa details)

theorem not_rejected_ok (r : CounterResult) : ¬ Rejected (.ok r) := by simp [Rejected]

theorem not_rejected_operation (message : String) : ¬ Rejected (.error (.operation message)) := by
  simp [Rejected]

theorem rejected_counter {code messageFa : String} {details : Option String} :
    Rejected (.error (.counter code messageFa details)) ↔ code = "COUNTER_EXHAUSTED" := by
  simp [Rejected]

/-- What an allocation's outcome says of the store, `base` being one from before the call. -/
structure Outcome (N : RedisNamespaces) (base : Store) (normalized : NormalizedPayload)
    (x : Except Failure CounterResult) (t : Store) : Prop where
  later : base.Later N t
  rejected : Rejected x → base.sequence N normalized.yearCode normalized.gender <
    t.sequence N normalized.yearCode normalized.gender
  bound : ∀ r, x = .ok r → BoundResult N normalized r t ∧ counterRegex r.counter = true

section
variable {ι : Type} {i : ι} {N : RedisNamespaces} {base s t : Store} {C : CounterRuntime}
  {nfkc : String → String} {normalized : NormalizedPayload} {prefixCode : String}

theorem Outcome.mono {x : Except Failure CounterResult} (h : Outcome N base normalized x s)
    (hst : s.Later N t) : Outcome N base normalized x t := by
  refine ⟨h.later.trans hst, fun hx => lt_of_lt_of_le (h.rejected hx) (hst.grown _ _),
    fun r hr => ?_⟩
  obtain ⟨⟨a, ha, hcounter⟩, hregex⟩ := h.bound r hr
  exact ⟨⟨a, hst.keeps _ a ha, hcounter⟩, hregex⟩

theorem Outcome.failed {e : Failure} (hbase : base.Later N s) (he : ¬ Rejected (.error e)) :
    Outcome N base normalized (.error e) s :=
  ⟨hbase, fun h => absurd h he, by simp⟩

/-- What every answer to a command says, a result that arrives says. -/
theorem safe_executorCall (r : Request) (post : r.Result → Store → Prop)
    (hanswer : ∀ ch s x t, base.Later N s → s.Issuing N → Store.answer ch i r s = some (x, t) →
      t.Issuing N ∧ s.Later N t ∧ ∀ y, x = .ok y → post y t)
    (hbase : base.Later N s) (lastExc : Option String) (attempts : Nat) :
    (issueProtocol ι N).Safe i (fun x t => base.Later N t ∧
        (∀ e, x = .error e → ∃ message, e = .operation message) ∧ ∀ y, x = .ok y → post y t)
      (RedisExecutor.call r lastExc attempts) s := by
  induction attempts generalizing lastExc s with
  | zero =>
    refine ⟨hbase, fun e he => ?_, by simp⟩
    obtain rfl := Except.error.inj he
    exact ⟨_, rfl⟩
  | succ attempts ih =>
    intro s₁ hrely hissuing ch x s₂ _ hx
    have hbefore := hbase.trans hrely
    obtain ⟨hissuing₂, hlater, hpost⟩ := hanswer ch s₁ x s₂ hbefore hissuing hx
    refine ⟨hissuing₂, hlater, ?_⟩
    cases x with
    | error error => exact ih (hbefore.trans hlater) (some error)
    | ok y =>
      refine ⟨hbefore.trans hlater, by simp, fun y' hy => ?_⟩
      obtain rfl := Except.ok.inj hy
      exact hpost y rfl

theorem safe_checked {counter code status : String} (hbase : base.Later N s)
    (h : ∃ a, s.value (N.counterStudent normalized.yearCode normalized.studentId) =
      some (.assigned a) ∧ a.counter = counter) :
    (issueProtocol ι N).Safe i (Outcome N base normalized)
      (CounterRuntime.checked counter code status) s := by
  rw [CounterRuntime.checked]
  split
  · next hregex =>
    refine ⟨hbase, fun hx => absurd hx (not_rejected_ok _), fun r hr => ?_⟩
    obtain rfl := Except.ok.inj hr
    exact ⟨h, hregex⟩
  · exact .failed hbase fun hx => absurd (rejected_counter.mp hx) (by simp)

/-- What the script's reply says, `base` being a store from before the call. -/
structure Replied (N : RedisNamespaces) (base : Store) (normalized : NormalizedPayload)
    (reply : Reply) (t : Store) : Prop where
  answers : t.Answers (N.counterStudent normalized.yearCode normalized.studentId) reply
  drawn : reply = .exhausted → base.sequence N normalized.yearCode normalized.gender <
    t.sequence N normalized.yearCode normalized.gender

theorem safe_evalCall (hbase : base.Later N s) (hlen : normalized.yearCode.toList.length = 2)
    (hcode : genderPrefix normalized.gender = some prefixCode) (attempts : Nat) :
    (issueProtocol ι N).Safe i (fun x t => base.Later N t ∧
        (∀ e, x = .error e → ∃ message, e = .operation message) ∧
        ∀ reply, x = .ok reply → Replied N base normalized reply t)
      (RedisExecutor.call (.eval (C.scriptArgs N normalized prefixCode)) none attempts) s := by
  apply safe_executorCall _ _ _ hbase
  intro ch s x t hs hissuing hx
  have hissue := answer_issue hissuing hlen hcode hx
  refine ⟨hissue.issuing, hissue.later, fun reply hreply => ?_⟩
  refine ⟨hissue.answers reply hreply, fun hexhausted => ?_⟩
  have hx : x = .ok .exhausted := hreply.trans (by rw [hexhausted])
  exact lt_of_le_of_lt (hs.grown _ _) (hissue.drawn hx)

theorem safe_allocateLoop (hbase : base.Later N s) (hlen : normalized.yearCode.toList.length = 2)
    (hcode : genderPrefix normalized.gender = some prefixCode) (attempts : Nat) :
    (issueProtocol ι N).Safe i (Outcome N base normalized)
      (C.allocateLoop (C.scriptArgs N normalized prefixCode) attempts) s := by
  induction attempts generalizing s with
  | zero => exact .failed hbase fun hx => absurd (rejected_counter.mp hx) (by simp)
  | succ attempts ih =>
    apply (Protocol.safe_bind _ _ s).mpr
    apply (safe_evalCall hbase hlen hcode C.executorAttempts).mono
    intro x t hx
    obtain ⟨hlater, hfailed, hreply⟩ := hx
    cases x with
    | error e =>
      obtain ⟨message, rfl⟩ := hfailed e rfl
      exact .failed hlater (not_rejected_operation message)
    | ok reply =>
      obtain ⟨hanswers, hdrawn⟩ := hreply reply rfl
      cases reply with
      | new counter serial => exact safe_checked hlater (hanswers counter serial (.inl rfl))
      | reused counter serial => exact safe_checked hlater (hanswers counter serial (.inr rfl))
      | pending => exact ih hlater
      | exhausted => exact ⟨hlater, fun _ => hdrawn rfl, by simp⟩

/-- An allocation of an accepted payload. -/
theorem safe_allocate {payload : RawPayload}
    (hnormalized : C.normalizePayload nfkc payload = .ok normalized)
    (hbase : base.Later N s) : (issueProtocol ι N).Safe i (Outcome N base normalized)
      (C.allocate N nfkc payload) s := by
  simp only [CounterRuntime.allocate, hnormalized, CounterRuntime.allocateWithRetry]
  split
  · exact .failed hbase (by simp [Rejected])
  · next prefixCode hcode =>
    exact safe_allocateLoop hbase (normalizePayload_length hnormalized) hcode C.attemptLimit

theorem safe_preview {payload : RawPayload} :
    (issueProtocol ι N).Safe i (fun _ _ => True) (C.preview N nfkc payload) s := by
  unfold CounterRuntime.preview
  cases C.previewInputs nfkc payload with
  | error details => trivial
  | ok inputs =>
    apply (Protocol.safe_bind _ _ s).mpr
    apply (safe_executorCall _ (fun _ _ => True) (fun ch s x t _ hissuing hx => ?_) (.refl s) none
      C.executorAttempts).mono
    · intro x t _
      cases x with
      | error e => trivial
      | ok raw =>
        dsimp only
        split
        · trivial
        · split <;> trivial
    · obtain ⟨hissuing', hlater⟩ := answer_get hissuing hx
      exact ⟨hissuing', hlater, fun _ _ => trivial⟩

def CounterCall.Told (N : RedisNamespaces) (nfkc : String → String) (call : CounterCall)
    (x : Except Failure CounterResult) (t : Store) : Prop :=
  ∀ C payload normalized, call = .allocate C payload →
    C.normalizePayload nfkc payload = .ok normalized → Outcome N (fun _ => none) normalized x t

theorem safe_program (call : CounterCall) :
    (issueProtocol ι N).Safe i (call.Told N nfkc) (call.program N nfkc) (fun _ => none) := by
  cases call with
  | preview C payload =>
    apply Protocol.Safe.mono safe_preview
    intro x t _ C' payload' normalized hcall
    cases hcall
  | allocate C payload =>
    cases hnormalized : C.normalizePayload nfkc payload with
    | error details =>
      simp only [CounterCall.program, CounterRuntime.allocate, hnormalized]
      intro C' payload' normalized hcall hok
      obtain ⟨rfl, rfl⟩ := CounterCall.allocate.inj hcall
      rw [hnormalized] at hok
      cases hok
    | ok normalized =>
      apply Protocol.Safe.mono (safe_allocate hnormalized (.refl _))
      intro x t hx C' payload' normalized' hcall hok
      obtain ⟨rfl, rfl⟩ := CounterCall.allocate.inj hcall
      obtain rfl := Except.ok.inj (hnormalized.symm.trans hok)
      exact hx

/-- In every state that calls reach, whatever the order of their commands. -/
theorem reachable_issuing [DecidableEq ι] {calls : ι → CounterCall}
    {trace : List (CounterSystem ι × (ι × Choice))} {c : CounterSystem ι}
    (h : Run CounterSystem.Step (CounterSystem.start N nfkc calls) trace c) :
    c.store.Issuing N ∧ ∀ i x, c.threads i = .ret x → (calls i).Told N nfkc x c.store := by
  have base : (issueProtocol ι N).Secure (fun i => (calls i).Told N nfkc)
      (CounterSystem.start N nfkc calls) :=
    ⟨Store.issuing_empty N, fun i => safe_program (calls i)⟩
  have stable : ∀ i x s t, (issueProtocol ι N).rely i s t → (calls i).Told N nfkc x s →
      (calls i).Told N nfkc x t :=
    fun _ _ _ _ hst htold C payload normalized hcall hok =>
      (htold C payload normalized hcall hok).mono hst
  have hsecure := (Protocol.run_secure h base stable fun _ _ _ _ _ => trivial).2
  exact ⟨hsecure.1, fun _ _ hret => hsecure.outcome hret⟩

end

end Counter
