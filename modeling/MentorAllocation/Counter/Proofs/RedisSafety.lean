import MentorAllocation.Concurrency.Protocol
import MentorAllocation.Counter.Runtime

namespace Counter
open Text Concurrency

theorem luaNumber_small {n : Int} (h : n.natAbs ≤ 2 ^ 53) : luaNumber n = n := if_pos h

/-- Rounding keeps large numbers large. -/
theorem luaNumber_large {n : Int} (hn : 0 ≤ n) (h : ¬ n.natAbs ≤ 2 ^ 53) :
    2 ^ 52 ≤ luaNumber n := by
  have hneg : ¬ n < 0 := not_lt.mpr hn
  have hlog : 52 ≤ n.natAbs.log2 := (Nat.le_log2 (by omega)).mpr (by omega)
  have hself : 2 ^ n.natAbs.log2 ≤ n.natAbs := Nat.log2_self_le (by omega)
  have hsplit : 2 ^ n.natAbs.log2 = 2 ^ 52 * 2 ^ (n.natAbs.log2 - 52) := by
    rw [← Nat.pow_add, Nat.add_sub_cancel' hlog]
  have hunit : 0 < 2 ^ (n.natAbs.log2 - 52) := Nat.pow_pos (by omega)
  have hwhole : 2 ^ 52 ≤ n.natAbs / 2 ^ (n.natAbs.log2 - 52) :=
    (Nat.le_div_iff_mul_le hunit).mpr (hsplit ▸ hself)
  simp only [luaNumber, if_neg h, if_neg hneg]
  generalize 2 ^ (n.natAbs.log2 - 52) = unit at hunit hwhole ⊢
  generalize n.natAbs / unit = whole at hwhole ⊢
  have hle : 2 ^ 52 * 1 ≤ whole * unit := Nat.mul_le_mul hwhole hunit
  have hle' : whole * unit ≤ (whole + 1) * unit := Nat.mul_le_mul_right unit (by omega)
  split <;> omega

theorem luaNumber_le {n : Int} (h : n ≤ 9999) : luaNumber n ≤ 9999 := by
  by_cases hsmall : n.natAbs ≤ 2 ^ 53
  · rwa [luaNumber_small hsmall]
  · have hneg : n < 0 := by omega
    simp only [luaNumber, if_neg hsmall, if_pos hneg]
    omega

namespace RedisNamespaces
variable {N : RedisNamespaces} {yearCode yearCode' studentId studentId' : String} {gender : Int}

/-- For one year code the student is read off the key. -/
theorem counterStudent_inj
    (h : N.counterStudent yearCode studentId = N.counterStudent yearCode studentId') :
    studentId = studentId' := by
  have hl := congrArg String.toList h
  simp only [counterStudent, String.toList_append] at hl
  exact String.toList_inj.mp (List.append_cancel_left hl)

/-- No student's key is the key of a sequence. -/
theorem counterStudent_ne : N.counterStudent yearCode studentId ≠
    N.counterSequence yearCode' gender := by
  intro h
  have hl := congrArg String.toList h
  simp only [counterStudent, counterSequence, String.toList_append, List.append_assoc,
    List.append_cancel_left_eq] at hl
  exact absurd (congrArg (List.take 11) hl) (by simp)

end RedisNamespaces

/-- What a key holds, whether or not it may expire. -/
def Store.value (s : Store) (key : String) : Option Value := (s key).map Entry.value

/-- A stored assignment: whose it is, and that its serial was drawn from its sequence. -/
structure Store.Drawn (N : RedisNamespaces) (s : Store) (key : String) (a : Assignment)
    (gender : Int) (code : String) (n : Nat) : Prop where
  owner : ∃ studentId, key = N.counterStudent a.yearCode studentId
  twoDigits : a.yearCode.toList.length = 2
  coded : genderPrefix gender = some code
  genderText : a.gender = toString gender
  serial : a.serial = zeroPad 4 n
  counter : a.counter = a.yearCode ++ code ++ zeroPad 4 n
  sequence : ∃ m, s.value (N.counterSequence a.yearCode gender) = some (.number m) ∧ (n : Int) ≤ m

/-- Only placeholders expire, assignments come from their sequences, and no counter is
stored twice. -/
structure Store.Coherent (N : RedisNamespaces) (s : Store) : Prop where
  permanent : ∀ key e, s key = some e → e.volatile = true → e.value = .pending
  numbers : ∀ key n, s.value key = some (.number n) → 0 ≤ n
  drawn : ∀ key a, s.value key = some (.assigned a) → ∃ gender code n, s.Drawn N key a gender code n
  unique : ∀ key key' a a', s.value key = some (.assigned a) → s.value key' = some (.assigned a') →
    a.counter = a'.counter → key = key'

def Store.Keeps (s t : Store) : Prop :=
  ∀ key a, s.value key = some (.assigned a) → t.value key = some (.assigned a)

namespace Store
variable {N : RedisNamespaces} {s t : Store} {key : String}

theorem coherent_empty (N : RedisNamespaces) : Coherent N (fun _ => none) :=
  ⟨by simp, by simp [value], by simp [value], by simp [value]⟩

@[simp] theorem value_set_self (v : Value) (volatile : Bool) :
    (s.set key v volatile).value key = some v := by
  simp [value, set]

theorem value_set_other {key' : String} (h : key' ≠ key) (v : Value) (volatile : Bool) :
    (s.set key v volatile).value key' = s.value key' := by
  simp [value, set, h]

theorem value_expire (h : s.Coherent N) (keys : List String) (key : String) :
    (s.expire keys).value key = s.value key ∨
      (s.value key = some .pending ∧ (s.expire keys).value key = none) := by
  cases hk : s key with
  | none => simp [value, expire, hk]
  | some e =>
    by_cases hgone : e.volatile && keys.contains key
    · have hv := h.permanent key e hk (Bool.and_eq_true_iff.mp hgone).1
      exact .inr (by simp_all [value, expire])
    · have hkept : (!(e.volatile && keys.contains key)) = true := by
        rw [Bool.eq_false_of_not_eq_true hgone]
        rfl
      refine .inl ?_
      rw [value, value, hk, Store.expire, hk, Option.filter_some, if_pos hkept]

/-- Assignments and sequences survive what expires. -/
theorem value_expire_iff (h : s.Coherent N) (keys : List String) (key : String) {v : Value}
    (hv : v ≠ .pending) : (s.expire keys).value key = some v ↔ s.value key = some v := by
  rcases value_expire h keys key with he | ⟨hp, hn⟩
  · rw [he]
  · simp [hp, hn, hv.symm]

/-- Stores with the same assignments whose sequences have not gone back. -/
theorem Drawn.mono {a : Assignment} {gender : Int} {code : String} {n : Nat}
    (h : s.Drawn N key a gender code n)
    (hseq : ∀ m, s.value (N.counterSequence a.yearCode gender) = some (.number m) →
      ∃ m', t.value (N.counterSequence a.yearCode gender) = some (.number m') ∧ m ≤ m') :
    t.Drawn N key a gender code n := by
  obtain ⟨m, hm, hle⟩ := h.sequence
  obtain ⟨m', hm', hle'⟩ := hseq m hm
  exact { h with sequence := ⟨m', hm', hle.trans hle'⟩ }

theorem Coherent.expire (h : s.Coherent N) (keys : List String) :
    (s.expire keys).Coherent N ∧ s.Keeps (s.expire keys) := by
  have hval := fun key v hv => value_expire_iff h keys key (v := v) hv
  refine ⟨⟨?_, ?_, ?_, ?_⟩, fun key a ha => (hval key _ (by simp)).mpr ha⟩
  · intro key e he hv
    exact h.permanent key e (Option.filter_eq_some_iff.mp he).1 hv
  · intro key n hn
    exact h.numbers key n ((hval key _ (by simp)).mp hn)
  · intro key a ha
    obtain ⟨gender, code, n, hd⟩ := h.drawn key a ((hval key _ (by simp)).mp ha)
    exact ⟨gender, code, n, hd.mono fun m hm => ⟨m, (hval _ _ (by simp)).mpr hm, le_refl m⟩⟩
  · intro key key' a a' ha ha'
    exact h.unique key key' a a' ((hval key _ (by simp)).mp ha) ((hval key' _ (by simp)).mp ha')

/-- What a run of the script may do to the keys of its student and sequence. -/
structure Update (N : RedisNamespaces) (s t : Store) (student sequence : String) : Prop where
  apart : student ≠ sequence
  free : s student = none
  others : ∀ key, key ≠ student → key ≠ sequence → t key = s key
  counted : t sequence = s sequence ∨ ∃ m, t sequence = some ⟨.number m, false⟩ ∧ 0 ≤ m ∧
    (s.value sequence = none ∨ ∃ n, s.value sequence = some (.number n) ∧ n ≤ m)
  bound : t student = none ∨ t student = some ⟨.pending, true⟩ ∨
    ∃ a gender code n, t student = some ⟨.assigned a, false⟩ ∧ t.Drawn N student a gender code n ∧
      ∀ key a', s.value key = some (.assigned a') → a'.counter ≠ a.counter

section
variable {student sequence : String}

theorem Update.free_value (u : Update N s t student sequence) : s.value student = none := by
  simp [value, u.free]

theorem Update.keeps (u : Update N s t student sequence) : s.Keeps t := by
  intro key a ha
  have hkey : key ≠ student := by
    rintro rfl
    simp [u.free_value] at ha
  by_cases hseq : key = sequence
  · subst hseq
    rcases u.counted with he | ⟨m, _, _, hn | ⟨n, hn, _⟩⟩
    · rwa [value, he]
    · simp [hn] at ha
    · simp [hn] at ha
  · rwa [value, u.others key hkey hseq]

theorem Update.sequences (u : Update N s t student sequence) {m : Int}
    (hm : s.value key = some (.number m)) : ∃ m', t.value key = some (.number m') ∧ m ≤ m' := by
  have hkey : key ≠ student := by
    rintro rfl
    simp [u.free_value] at hm
  by_cases hseq : key = sequence
  · subst hseq
    rcases u.counted with he | ⟨m', ht, _, hn | ⟨n, hn, hle⟩⟩
    · exact ⟨m, by rwa [value, he], le_refl m⟩
    · simp [hn] at hm
    · obtain rfl : n = m := by simpa [hn] using hm
      exact ⟨m', by simp [value, ht], hle⟩
  · exact ⟨m, by rwa [value, u.others key hkey hseq], le_refl m⟩

/-- An assignment found afterwards was there before or is the student's new one. -/
theorem Update.assigned (u : Update N s t student sequence) {a : Assignment}
    (ha : t.value key = some (.assigned a)) :
    s.value key = some (.assigned a) ∨ key = student := by
  by_cases hkey : key = student
  · exact .inr hkey
  · refine .inl ?_
    by_cases hseq : key = sequence
    · subst hseq
      rcases u.counted with he | ⟨m, ht, _⟩
      · rwa [value, ← he]
      · simp [value, ht] at ha
    · rwa [value, ← u.others key hkey hseq]

theorem Coherent.update (h : s.Coherent N) (u : Update N s t student sequence) :
    t.Coherent N := by
  refine ⟨?_, ?_, ?_, ?_⟩
  · intro key e he hv
    by_cases hkey : key = student
    · subst hkey
      rcases u.bound with hn | hp | ⟨a, _, _, _, ha, _⟩
      · simp [hn] at he
      · obtain rfl := Option.some.inj (hp.symm.trans he)
        rfl
      · obtain rfl := Option.some.inj (ha.symm.trans he)
        cases hv
    · by_cases hseq : key = sequence
      · subst hseq
        rcases u.counted with hs | ⟨m, ht, _⟩
        · exact h.permanent key e (hs ▸ he) hv
        · obtain rfl := Option.some.inj (ht.symm.trans he)
          cases hv
      · exact h.permanent key e (u.others key hkey hseq ▸ he) hv
  · intro key n hn
    by_cases hkey : key = student
    · subst hkey
      rcases u.bound with hb | hb | ⟨a, _, _, _, hb, _⟩ <;> simp [value, hb] at hn
    · by_cases hseq : key = sequence
      · subst hseq
        rcases u.counted with hs | ⟨m, ht, hm, _⟩
        · exact h.numbers key n (by rwa [value, ← hs])
        · obtain rfl : m = n := by simpa [value, ht] using hn
          exact hm
      · exact h.numbers key n (by rwa [value, ← u.others key hkey hseq])
  · intro key a ha
    rcases u.assigned ha with hs | rfl
    · obtain ⟨gender, code, n, hd⟩ := h.drawn key a hs
      exact ⟨gender, code, n, hd.mono fun m hm => u.sequences hm⟩
    · rcases u.bound with hb | hb | ⟨a', gender, code, n, hb, hd, _⟩
      · simp [value, hb] at ha
      · simp [value, hb] at ha
      · obtain rfl : a' = a := by simpa [value, hb] using ha
        exact ⟨gender, code, n, hd⟩
  · intro key key' a a' ha ha' hc
    have hnew : ∀ key₁ a₁ a₂, t.value student = some (.assigned a₁) →
        s.value key₁ = some (.assigned a₂) → a₂.counter ≠ a₁.counter := by
      intro key₁ a₁ a₂ h₁ h₂
      rcases u.bound with hb | hb | ⟨b, _, _, _, hb, _, hfresh⟩
      · simp [value, hb] at h₁
      · simp [value, hb] at h₁
      · obtain rfl : b = a₁ := by simpa [value, hb] using h₁
        exact hfresh key₁ a₂ h₂
    rcases u.assigned ha with hs | rfl <;> rcases u.assigned ha' with hs' | rfl
    · exact h.unique key key' a a' hs hs' hc
    · exact absurd hc (hnew key a' a ha' hs)
    · exact absurd hc.symm (hnew key' a a' ha hs')
    · rfl

end

/-- A sequence that can still grow grows by one, from nothing to one. -/
theorem incr_cases (h : s.Coherent N) {student sequence : String} (hne : student ≠ sequence) :
    (∃ message, (s.set student .pending true).incr sequence = .error message) ∨
      ∃ n, 0 ≤ n ∧ (s.value sequence = none ∧ n = 0 ∨ s.value sequence = some (.number n)) ∧
        (s.set student .pending true).incr sequence =
          .ok (n + 1, (s.set student .pending true).set sequence (.number (n + 1)) false) := by
  have hsame : (s.set student .pending true) sequence = s sequence := by
    simp [set, hne.symm]
  rw [incr, hsame]
  cases hs : s sequence with
  | none => exact .inr ⟨0, le_refl 0, .inl ⟨by simp [value, hs], rfl⟩, rfl⟩
  | some e =>
    obtain ⟨v, volatile⟩ := e
    cases v with
    | pending => exact .inl ⟨_, rfl⟩
    | assigned a => exact .inl ⟨_, rfl⟩
    | number n =>
      have hvol : volatile = false := by
        cases volatile with
        | false => rfl
        | true => exact absurd (h.permanent sequence _ hs rfl) (by simp)
      subst hvol
      by_cases hmax : n < 2 ^ 63 - 1
      · have hn : s.value sequence = some (.number n) := by simp [value, hs]
        exact .inr ⟨n, h.numbers sequence n hn, .inr hn, if_pos hmax⟩
      · exact .inl ⟨_, if_neg hmax⟩

theorem Keeps.refl (s : Store) : s.Keeps s := fun _ _ ha => ha

theorem Keeps.trans {u : Store} (h : s.Keeps t) (h' : t.Keeps u) : s.Keeps u :=
  fun key a ha => h' key a (h key a ha)

/-- A reply that names a counter names the one stored for the student. -/
def Answers (s : Store) (studentKey : String) (reply : Reply) : Prop :=
  ∀ counter serial, reply = .new counter serial ∨ reply = .reused counter serial →
    ∃ a, s.value studentKey = some (.assigned a) ∧ a.counter = counter

end Store

/-- What one run of the script leaves and answers, whatever happens inside it. -/
structure ScriptSpec (N : RedisNamespaces) (args : ScriptArgs) (s : Store)
    (result : Except String Reply × Store) : Prop where
  coherent : result.2.Coherent N
  keeps : s.Keeps result.2
  answers : ∀ reply, result.1 = .ok reply → result.2.Answers args.studentKey reply

section
variable {N : RedisNamespaces} {C : CounterRuntime} {normalized : NormalizedPayload}
  {prefixCode : String} {s : Store}

theorem ScriptSpec.unchanged {args : ScriptArgs} {x : Except String Reply} (h : s.Coherent N)
    (hx : ∀ reply, x = .ok reply → s.Answers args.studentKey reply) :
    ScriptSpec N args s (x, s) :=
  ⟨h, .refl s, hx⟩

theorem ScriptSpec.updated {args : ScriptArgs} {x : Except String Reply} {t : Store}
    (h : s.Coherent N) (u : s.Update N t args.studentKey args.sequenceKey)
    (hx : ∀ reply, x = .ok reply → t.Answers args.studentKey reply) :
    ScriptSpec N args s (x, t) :=
  ⟨h.update u, u.keeps, hx⟩

/-- The serial the script draws has not been used for this year code and gender. -/
theorem fresh_counter (h : s.Coherent N) {yearCode code : String} {gender n : Int} {serial : Nat}
    (hlen : yearCode.toList.length = 2) (hcode : genderPrefix gender = some code)
    (hn : s.value (N.counterSequence yearCode gender) = none ∧ n = 0 ∨
      s.value (N.counterSequence yearCode gender) = some (.number n))
    (hserial : (serial : Int) = n + 1) {key : String} {a : Assignment}
    (ha : s.value key = some (.assigned a)) : a.counter ≠ yearCode ++ code ++ zeroPad 4 serial := by
  intro hc
  obtain ⟨gender', code', n', hd⟩ := h.drawn key a ha
  rw [hd.counter] at hc
  obtain ⟨rfl, rfl, rfl⟩ := counter_inj (hd.twoDigits.trans hlen.symm)
    ((genderPrefix_length hd.coded).trans (genderPrefix_length hcode).symm) hc
  obtain rfl := genderPrefix_inj hd.coded hcode
  obtain ⟨m, hm, hle⟩ := hd.sequence
  rcases hn with ⟨hn, _⟩ | hn
  · simp [hn] at hm
  · obtain rfl : n = m := by simpa [hn] using hm
    omega

theorem allocateScript_spec (h : s.Coherent N) (hlen : normalized.yearCode.toList.length = 2)
    (hcode : genderPrefix normalized.gender = some prefixCode) (hmax : C.maxSerial ≤ 9999) :
    ScriptSpec N (C.scriptArgs N normalized prefixCode) s
      (allocateScript (C.scriptArgs N normalized prefixCode) s) := by
  generalize hargs : C.scriptArgs N normalized prefixCode = args
  have hne : args.studentKey ≠ args.sequenceKey := by
    rw [← hargs]
    exact RedisNamespaces.counterStudent_ne
  rw [allocateScript]
  cases hs : s args.studentKey with
  | some e =>
    obtain ⟨v, volatile⟩ := e
    cases v with
    | pending =>
      refine .unchanged h fun reply hr counter serial hc => ?_
      cases hr
      simp at hc
    | number n => exact .unchanged h fun reply hr => by cases hr
    | assigned a =>
      refine .unchanged h fun reply hr counter serial hc => ⟨a, by simp [Store.value, hs], ?_⟩
      cases hr
      exact (by simpa using hc : a.counter = counter ∧ a.serial = serial).1
  | none =>
    have hother : ∀ (t : Store) (v : Value) (b : Bool) key, key ≠ args.studentKey →
        t.set args.studentKey v b key = t key := fun t v b key hk => by simp [Store.set, hk]
    rcases Store.incr_cases h hne with ⟨message, hincr⟩ | ⟨n, hnn, hn, hincr⟩
    · simp only [hincr]
      refine .updated h ⟨hne, hs, ?_, .inl ?_, .inr (.inl ?_)⟩ (fun reply hr => by cases hr)
      · exact fun key hk _ => hother s _ _ key hk
      · exact hother s _ _ _ hne.symm
      · simp [Store.set]
    · simp only [hincr]
      have hcounted : s.value args.sequenceKey = none ∨
          ∃ k, s.value args.sequenceKey = some (.number k) ∧ k ≤ n + 1 := by
        rcases hn with ⟨hn, _⟩ | hn
        · exact .inl hn
        · exact .inr ⟨n, hn, by omega⟩
      split
      · refine .updated h ⟨hne, hs, ?_, .inr ⟨n + 1, ?_, by omega, hcounted⟩, .inl ?_⟩ ?_
        · intro key hk hq
          simp [Store.set, Store.del, hk, hq]
        · simp [Store.set, Store.del, hne.symm]
        · simp [Store.del]
        · intro reply hr counter serial hc
          cases hr
          simp at hc
      · rename_i hle
        have hsmall : (n + 1).natAbs ≤ 2 ^ 53 := by
          by_contra hlarge
          have := luaNumber_large (by omega) hlarge
          have hcap : luaNumber args.seqMax ≤ 9999 := by
            rw [← hargs]
            exact luaNumber_le hmax
          omega
        rw [luaNumber_small hsmall]
        obtain ⟨serial, hserial⟩ : ∃ serial : Nat, (serial : Int) = n + 1 :=
          ⟨(n + 1).toNat, by omega⟩
        rw [← hserial]
        subst hargs
        refine .updated h ⟨hne, hs, ?_, .inr ⟨serial, ?_, by omega, hserial ▸ hcounted⟩,
          .inr (.inr ⟨_, normalized.gender, prefixCode, serial,
            Function.update_self _ _ _, ?_, ?_⟩)⟩ ?_
        · intro key hk hq
          simp [Store.set, hk, hq]
        · simp [Store.set, hne.symm]
        · refine ⟨⟨normalized.studentId, rfl⟩, hlen, hcode, rfl, rfl, rfl, serial, ?_, le_refl _⟩
          exact (Store.value_set_other hne.symm _ _).trans (Store.value_set_self _ _)
        · exact fun key a ha => fresh_counter h hlen hcode hn hserial ha
        · intro reply hr counter serial' hc
          cases hr
          obtain ⟨hc, _⟩ : _ ∧ zeroPad 4 (serial : Int) = serial' := by simpa using hc
          exact ⟨_, Store.value_set_self _ _, hc⟩

end

/-- Any commands of any clients, at any time, leave assignments in place. -/
def counterProtocol (ι : Type) (N : RedisNamespaces) :
    Concurrency.Protocol Choice ι Store Request Request.Response where
  answer := Store.answer
  inv := Store.Coherent N
  rely _ s t := s.Keeps t
  guar _ s t := s.Keeps t
  guar_rely _ _ _ _ _ h := h
  allowed _ _ _ _ := True
  rely_refl _ s := .refl s
  rely_trans _ _ _ _ h h' := h.trans h'

section
variable {ι : Type} {N : RedisNamespaces} {i : ι} {s : Store}

/-- A command that keeps a coherent store coherent, and what its result then satisfies. -/
structure Request.Spec (N : RedisNamespaces) (r : Request) (post : r.Result → Store → Prop) :
    Prop where
  coherent : ∀ s : Store, s.Coherent N → (s.execute r).2.Coherent N
  keeps : ∀ s : Store, s.Coherent N → s.Keeps (s.execute r).2
  answers : ∀ s : Store, s.Coherent N → ∀ x, (s.execute r).1 = .ok x → post x (s.execute r).2

/-- Whatever is carried out, lost or refused on the way, a result that arrives is right. -/
theorem returns_call {r : Request} {post : r.Result → Store → Prop} (h : r.Spec N post)
    (lastExc : Option String) (attempts : Nat) :
    (counterProtocol ι N).Returns i post (RedisExecutor.call r lastExc attempts) s := by
  induction attempts generalizing lastExc s with
  | zero => exact .raise
  | succ attempts ih =>
    intro s₁ _ hcoh ch x s₂ _ hx
    obtain ⟨hexp, hkeep⟩ := Store.Coherent.expire hcoh ch.expired
    have hfail : ∀ error, (counterProtocol ι N).Safe i (fun x s => ∀ a, x = .ok a → post a s)
        (RedisExecutor.call r (some error) attempts) s₂ := fun error => ih (some error)
    simp only [counterProtocol, Store.answer] at hx
    cases hd : ch.delivery with
    | refused error =>
      rw [hd] at hx
      obtain ⟨rfl, rfl⟩ := Prod.mk.inj (Option.some.inj hx)
      exact ⟨hexp, hkeep, hfail error⟩
    | lost error =>
      rw [hd] at hx
      obtain ⟨rfl, rfl⟩ := Prod.mk.inj (Option.some.inj hx)
      exact ⟨h.coherent _ hexp, hkeep.trans (h.keeps _ hexp), hfail error⟩
    | delivered =>
      rw [hd] at hx
      have hx : Store.execute (s₁.expire ch.expired) r = (x, s₂) := Option.some.inj hx
      have hcoh' := h.coherent _ hexp
      have hkeep' := h.keeps _ hexp
      have hans := h.answers _ hexp
      rw [hx] at hcoh' hkeep' hans
      refine ⟨hcoh', hkeep.trans hkeep', ?_⟩
      cases x with
      | error error => exact hfail error
      | ok y =>
        intro a ha
        cases ha
        exact hans y rfl

theorem spec_get (key : String) : (Request.get key).Spec N fun _ _ => True :=
  ⟨fun _ h => h, fun s _ => .refl s, fun _ _ _ _ => trivial⟩

theorem spec_eval {C : CounterRuntime} {normalized : NormalizedPayload} {prefixCode : String}
    (hlen : normalized.yearCode.toList.length = 2)
    (hcode : genderPrefix normalized.gender = some prefixCode) (hmax : C.maxSerial ≤ 9999) :
    (Request.eval (C.scriptArgs N normalized prefixCode)).Spec N
      fun reply s => s.Answers (C.scriptArgs N normalized prefixCode).studentKey reply :=
  ⟨fun _ h => (allocateScript_spec h hlen hcode hmax).coherent,
    fun _ h => (allocateScript_spec h hlen hcode hmax).keeps,
    fun _ h => (allocateScript_spec h hlen hcode hmax).answers⟩

/-- The result of `allocate` names the counter stored for its student. -/
def BoundResult (N : RedisNamespaces) (normalized : NormalizedPayload) (r : CounterResult)
    (s : Store) : Prop :=
  ∃ a, s.value (N.counterStudent normalized.yearCode normalized.studentId) = some (.assigned a) ∧
    a.counter = r.counter

theorem returns_checked {post : CounterResult → Store → Prop} {counter yearCode status : String}
    (h : post ⟨counter, yearCode, status⟩ s) :
    (counterProtocol ι N).Returns i post (CounterRuntime.checked counter yearCode status) s := by
  rw [CounterRuntime.checked]
  split
  · exact .ok h
  · exact .raise

theorem returns_allocateLoop {C : CounterRuntime} {normalized : NormalizedPayload}
    {prefixCode : String} (hlen : normalized.yearCode.toList.length = 2)
    (hcode : genderPrefix normalized.gender = some prefixCode) (hmax : C.maxSerial ≤ 9999)
    (attempts : Nat) :
    (counterProtocol ι N).Returns i (BoundResult N normalized)
      (C.allocateLoop (C.scriptArgs N normalized prefixCode) attempts) s := by
  induction attempts generalizing s with
  | zero => exact .raise
  | succ attempts ih =>
    refine (returns_call (spec_eval hlen hcode hmax) none C.executorAttempts).bind ?_
    intro reply s hanswers
    cases reply with
    | new counter serial => exact returns_checked (hanswers counter serial (.inl rfl))
    | reused counter serial => exact returns_checked (hanswers counter serial (.inr rfl))
    | pending => exact ih
    | exhausted => exact .raise

theorem bind_ok {α β ε : Type} {x : Except ε α} {f : α → Except ε β} {b : β}
    (h : x >>= f = .ok b) : ∃ a, x = .ok a ∧ f a = .ok b := by
  cases x with
  | error e => cases h
  | ok a => exact ⟨a, rfl, h⟩

theorem codeFor_length {Y : AcademicYearProvider} {nfkc : String → String} {year : Option String}
    {code : String} (h : Y.codeFor nfkc year = .ok code) : code.toList.length = 2 := by
  simp only [AcademicYearProvider.codeFor] at h
  split at h
  · cases h
  split at h
  · cases h
  split at h
  · cases h
  · rename_i hc
    rw [Except.ok.inj h] at hc
    have hlen : code.length = 2 := by
      by_contra hne
      exact hc (by simp [hne])
    rwa [String.length_toList]

theorem normalizePayload_length {C : CounterRuntime} {nfkc : String → String}
    {payload : RawPayload} {normalized : NormalizedPayload}
    (h : C.normalizePayload nfkc payload = .ok normalized) :
    normalized.yearCode.toList.length = 2 := by
  unfold CounterRuntime.normalizePayload at h
  obtain ⟨gender, _, h⟩ := bind_ok h
  obtain ⟨center, _, h⟩ := bind_ok h
  obtain ⟨studentId, _, h⟩ := bind_ok h
  obtain ⟨yearCode, hyear, h⟩ := bind_ok h
  cases h
  exact codeFor_length hyear

/-- What a call's result says about the store once the call has returned. -/
def callPost (N : RedisNamespaces) (nfkc : String → String) (call : CounterCall)
    (x : Except Failure CounterResult) (s : Store) : Prop :=
  ∀ r, x = .ok r → match call with
    | .allocate runtime payload => ∀ normalized, runtime.normalizePayload nfkc payload =
        .ok normalized → BoundResult N normalized r s
    | .preview _ _ => True

theorem returns_preview (C : CounterRuntime) (nfkc : String → String) (payload : RawPayload) :
    (counterProtocol ι N).Returns i (fun _ _ => True) (C.preview N nfkc payload) s := by
  unfold CounterRuntime.preview
  generalize C.previewInputs nfkc payload = inputs
  cases inputs with
  | error details => exact .raise
  | ok inputs =>
    refine Protocol.Returns.bind (returns_call (spec_get _) none _) fun raw s _ => ?_
    dsimp only
    split
    · exact .raise
    · cases genderPrefix inputs.1 with
      | none => exact .raise
      | some prefixCode => exact .ok trivial

theorem returns_allocate (C : CounterRuntime) (nfkc : String → String) (payload : RawPayload)
    (hmax : C.maxSerial ≤ 9999) :
    (counterProtocol ι N).Returns i
      (fun r s => ∀ normalized, C.normalizePayload nfkc payload = .ok normalized →
        BoundResult N normalized r s) (C.allocate N nfkc payload) s := by
  unfold CounterRuntime.allocate
  have hlen : ∀ normalized, C.normalizePayload nfkc payload = .ok normalized →
      normalized.yearCode.toList.length = 2 := fun _ => normalizePayload_length
  generalize C.normalizePayload nfkc payload = x at hlen ⊢
  cases x with
  | error details => exact .raise
  | ok normalized =>
    have hbound : (counterProtocol ι N).Returns i (BoundResult N normalized)
        (C.allocateWithRetry N normalized) s := by
      unfold CounterRuntime.allocateWithRetry
      cases hcode : genderPrefix normalized.gender with
      | none => exact .raise
      | some prefixCode => exact returns_allocateLoop (hlen normalized rfl) hcode hmax _
    refine hbound.safe fun x s h r hr normalized' hn => ?_
    cases hn
    exact h r hr

theorem safe_call {nfkc : String → String} {call : CounterCall}
    (hmax : call.runtime.maxSerial ≤ 9999) :
    (counterProtocol ι N).Safe i (callPost N nfkc call) (call.program N nfkc) s := by
  cases call with
  | preview runtime payload =>
    simp only [CounterCall.program]
    exact (returns_preview runtime nfkc payload).safe fun _ _ _ _ _ => trivial
  | allocate runtime payload =>
    simp only [CounterCall.program]
    exact (returns_allocate runtime nfkc payload hmax).safe fun _ _ h r hr => h r hr

theorem callPost_stable {nfkc : String → String} {call : CounterCall} {t : Store}
    {x : Except Failure CounterResult} (hk : s.Keeps t) (h : callPost N nfkc call x s) :
    callPost N nfkc call x t := by
  intro r hr
  cases call with
  | preview runtime payload => trivial
  | allocate runtime payload =>
    intro normalized hn
    obtain ⟨a, ha, hc⟩ := h r hr normalized hn
    exact ⟨a, hk _ a ha, hc⟩

end

/-- The counter a student holds for a year code. -/
def Store.boundTo (s : Store) (N : RedisNamespaces) (yearCode studentId : String) :
    Option String :=
  match s.value (N.counterStudent yearCode studentId) with
  | some (.assigned a) => some a.counter
  | _ => none

def Store.sequence (s : Store) (N : RedisNamespaces) (yearCode : String) (gender : Int) : Int :=
  match s.value (N.counterSequence yearCode gender) with
  | some (.number n) => n
  | _ => 0

/-- The serial was issued to a student for the year code and gender. -/
def Store.Issued (s : Store) (N : RedisNamespaces) (yearCode : String) (gender : Int)
    (serial : Nat) : Prop :=
  ∃ studentId a, s.value (N.counterStudent yearCode studentId) = some (.assigned a) ∧
    a.yearCode = yearCode ∧ a.gender = toString gender ∧ a.serial = zeroPad 4 serial

theorem Store.boundTo_eq_some {s : Store} {N : RedisNamespaces}
    {yearCode studentId counter : String} : s.boundTo N yearCode studentId = some counter ↔
      ∃ a, s.value (N.counterStudent yearCode studentId) = some (.assigned a) ∧
        a.counter = counter := by
  rw [Store.boundTo]
  split
  · rename_i a ha
    simp [ha]
  · rename_i hnone
    simp only [reduceCtorEq, false_iff, not_exists, not_and]
    exact fun a ha => absurd ha (hnone a)

structure CountersSafe {ι : Type} (N : RedisNamespaces) (nfkc : String → String)
    (calls : ι → CounterCall) (c : CounterSystem ι) : Prop where
  distinct : ∀ yearCode studentId studentId' counter,
    c.store.boundTo N yearCode studentId = some counter →
    c.store.boundTo N yearCode studentId' = some counter → studentId = studentId'
  covered : ∀ yearCode gender serial, c.store.Issued N yearCode gender serial →
    (serial : Int) ≤ c.store.sequence N yearCode gender
  returned : ∀ i runtime payload normalized r, calls i = .allocate runtime payload →
    runtime.normalizePayload nfkc payload = .ok normalized → c.threads i = .ret (.ok r) →
    c.store.boundTo N normalized.yearCode normalized.studentId = some r.counter

theorem countersSafe_of_secure {ι : Type} {N : RedisNamespaces} {nfkc : String → String}
    {calls : ι → CounterCall} {c : CounterSystem ι}
    (h : (counterProtocol ι N).Secure (fun i => callPost N nfkc (calls i)) c) :
    CountersSafe N nfkc calls c where
  distinct := by
    intro yearCode studentId studentId' counter hs hs'
    obtain ⟨a, ha, hc⟩ := Store.boundTo_eq_some.mp hs
    obtain ⟨a', ha', hc'⟩ := Store.boundTo_eq_some.mp hs'
    exact RedisNamespaces.counterStudent_inj (h.1.unique _ _ a a' ha ha' (hc.trans hc'.symm))
  covered := by
    rintro yearCode gender serial ⟨studentId, a, ha, rfl, hg, hs⟩
    obtain ⟨gender', code, n, hd⟩ := h.1.drawn _ a ha
    obtain ⟨m, hm, hle⟩ := hd.sequence
    have hsame : serial = n :=
      Int.ofNat.inj (zeroPad_injective 4 (hs.symm.trans hd.serial))
    have hkey : N.counterSequence a.yearCode gender = N.counterSequence a.yearCode gender' := by
      simp only [RedisNamespaces.counterSequence, ← hg, hd.genderText]
    rw [Store.sequence, hkey, hm, hsame]
    exact hle
  returned := by
    intro i runtime payload normalized r hcall hn hr
    have hpost := h.outcome hr r rfl
    rw [hcall] at hpost
    exact Store.boundTo_eq_some.mpr (hpost normalized hn)

/-- Whatever the order of commands, lost answers and expiring placeholders, counters stay
safe in every state, and a student's counter is never changed or taken back. -/
theorem redis_counters_safe {ι : Type} [DecidableEq ι] (N : RedisNamespaces)
    (nfkc : String → String) (calls : ι → CounterCall)
    (hmax : ∀ i, (calls i).runtime.maxSerial ≤ 9999)
    (trace : List (CounterSystem ι × (ι × Choice))) (c : CounterSystem ι)
    (h : Run CounterSystem.Step (CounterSystem.start N nfkc calls) trace c) :
    Throughout (CountersSafe N nfkc calls) trace c ∧
    (trace.map Prod.fst ++ [c]).Pairwise (fun before after =>
      ∀ yearCode studentId counter, before.store.boundTo N yearCode studentId = some counter →
        after.store.boundTo N yearCode studentId = some counter) := by
  have base : (counterProtocol ι N).Secure (fun i => callPost N nfkc (calls i))
      (CounterSystem.start N nfkc calls) :=
    ⟨Store.coherent_empty N, fun i => safe_call (hmax i)⟩
  have stable : ∀ i a s t, (counterProtocol ι N).rely i s t → callPost N nfkc (calls i) a s →
      callPost N nfkc (calls i) a t := fun _ _ _ _ hk hp => callPost_stable hk hp
  have permits : EachStep (counterProtocol ι N).Permitted trace := fun _ _ _ _ _ => trivial
  constructor
  · exact (Protocol.run_secure h base stable permits).imp fun _ hc => countersSafe_of_secure hc
  · have hkeeps := Protocol.run_guarantees (R := Store.Keeps) h base stable permits
      (fun _ _ _ hk => hk) (fun _ _ _ => Store.Keeps.trans)
    refine hkeeps.imp fun hk yearCode studentId counter hb => ?_
    obtain ⟨a, ha, hc⟩ := Store.boundTo_eq_some.mp hb
    exact Store.boundTo_eq_some.mpr ⟨a, hk _ a ha, hc⟩

def sampleRuntime : CounterRuntime where
  yearProvider := ⟨[]⟩
  maxSerial := 9999
  waitAttempts := 5
  executorAttempts := 3

def samplePayload (studentId : String) : RawPayload where
  year := some "1402"
  gender := some "1"
  center := some "1"
  studentId := some studentId

def sampleCalls : Fin 3 → CounterCall
  | 0 => .allocate sampleRuntime (samplePayload "0012345678")
  | 1 => .allocate sampleRuntime (samplePayload "0012345679")
  | 2 => .preview sampleRuntime (samplePayload "0012345678")

/-- The first student's answer is lost, and the script runs a second time. -/
def sampleOrder : List (Fin 3 × Choice) :=
  [(0, { delivery := .lost "timeout" }), (1, {}), (2, {}), (0, {})]

theorem redis_counters_safe_rivals : ∃ trace c,
    Run CounterSystem.Step (CounterSystem.start ⟨"sma"⟩ id sampleCalls) trace c ∧
    c.store.boundTo ⟨"sma"⟩ "02" "0012345678" = some "023570001" ∧
    c.store.boundTo ⟨"sma"⟩ "02" "0012345679" = some "023570002" ∧
    Throughout (CountersSafe ⟨"sma"⟩ id sampleCalls) trace c := by
  have hrun : (replay (fun c l => c.next Store.answer l)
      (CounterSystem.start ⟨"sma"⟩ id sampleCalls) sampleOrder).map
      (fun c => (c.store.boundTo ⟨"sma"⟩ "02" "0012345678",
        c.store.boundTo ⟨"sma"⟩ "02" "0012345679")) =
      some (some "023570001", some "023570002") := by
    decide +kernel
  obtain ⟨c, hc, hbound⟩ := Option.map_eq_some_iff.mp hrun
  obtain ⟨h₁, h₂⟩ := Prod.mk.inj hbound
  have hmax : ∀ i, (sampleCalls i).runtime.maxSerial ≤ 9999 := by decide
  exact ⟨_, c, run_of_replay hc, h₁, h₂, (redis_counters_safe ⟨"sma"⟩ id sampleCalls hmax _ c
    (run_of_replay hc)).1⟩

end Counter
