import MentorAllocation.Concurrency.Run
import MentorAllocation.Security.Proofs.KeyRing
import MentorAllocation.Security.Signer

namespace Security
open Data Text Concurrency

/-- What the documentation promises of the functions the signer uses. -/
structure Library.Lawful (L : Library) : Prop where
  nfkc : NormalForm L.nfkc
  upper_get : L.upper "GET" = "GET"
  hmac_length : ∀ key message, (L.hmac key message).length = 32

variable {L : Library}

theorem hasDouble_replaceDouble_length {cs : List Char} (h : hasDouble cs = true) :
    (replaceDouble cs).length < cs.length := by
  have hle : ∀ cs : List Char, (replaceDouble cs).length ≤ cs.length := by
    intro cs
    fun_induction replaceDouble cs with
    | case1 => simp
    | case2 => simp
    | case3 c d rest _ ih => simp only [List.length_cons]; omega
    | case4 c d rest _ ih => simp only [List.length_cons] at ih ⊢; omega
  fun_induction replaceDouble cs with
  | case1 => cases h
  | case2 => cases h
  | case3 c d rest _ _ =>
    have := hle rest
    simp only [List.length_cons]
    omega
  | case4 c d rest hne ih =>
    have hrest : hasDouble (d :: rest) = true := by
      simp only [hasDouble, Bool.or_eq_true, Bool.and_eq_true, beq_iff_eq] at h
      exact h.resolve_left hne
    have := ih hrest
    simp only [List.length_cons] at this ⊢
    omega

/-- The loop ends with no double slash left. -/
theorem hasDouble_collapse {n : Nat} {cs : List Char} (h : cs.length ≤ n) :
    hasDouble (collapse n cs) = false := by
  induction n generalizing cs with
  | zero =>
    obtain rfl := List.eq_nil_of_length_eq_zero (Nat.le_zero.mp h)
    rfl
  | succ n ih =>
    rw [collapse]
    split
    · next hd =>
      have := hasDouble_replaceDouble_length hd
      exact ih (by omega)
    · next hd => simpa using hd

theorem collapse_self {cs : List Char} (h : hasDouble cs = false) (n : Nat) :
    collapse n cs = cs := by
  cases n with
  | zero => rfl
  | succ n => rw [collapse, h, if_neg Bool.false_ne_true]

theorem mem_replaceDouble {c : Char} {cs : List Char} (h : c ∈ replaceDouble cs) : c ∈ cs := by
  fun_induction replaceDouble cs with
  | case1 => exact h
  | case2 => exact h
  | case3 a b rest hab ih =>
    rcases List.mem_cons.mp h with rfl | h
    · exact hab.1 ▸ List.mem_cons_self
    · exact List.mem_cons_of_mem _ (List.mem_cons_of_mem _ (ih h))
  | case4 a b rest _ ih =>
    rcases List.mem_cons.mp h with rfl | h
    · exact List.mem_cons_self
    · exact List.mem_cons_of_mem _ (ih h)

theorem mem_collapse {c : Char} {n : Nat} {cs : List Char} (h : c ∈ collapse n cs) : c ∈ cs := by
  induction n generalizing cs with
  | zero => exact h
  | succ n ih =>
    rw [collapse] at h
    split at h
    · exact mem_replaceDouble (ih h)
    · exact h

theorem replaceDouble_ne_nil {cs : List Char} (h : cs ≠ []) : replaceDouble cs ≠ [] := by
  fun_cases replaceDouble cs with
  | case1 => exact absurd rfl h
  | case2 => simp
  | case3 => simp
  | case4 => simp

theorem collapse_ne_nil {n : Nat} {cs : List Char} (h : cs ≠ []) : collapse n cs ≠ [] := by
  induction n generalizing cs with
  | zero => exact h
  | succ n ih =>
    rw [collapse]
    split
    · exact ih (replaceDouble_ne_nil h)
    · exact h

/-- A normalised path is left as it is, and is empty only if the path was. -/
theorem normalizePath_ok {path normalized : String} (h : normalizePath path = .ok normalized) :
    normalizePath normalized = .ok normalized ∧ (path ≠ "" → normalized ≠ "") := by
  simp only [normalizePath] at h
  split at h
  · cases h
  · next hsafe =>
    obtain rfl := Except.ok.inj h
    generalize hslash : (path.toList.map fun c => if c = '\\' then '/' else c) = slashed at hsafe ⊢
    have hno : ∀ c ∈ collapse slashed.length slashed, (if c = '\\' then '/' else c) = c := by
      intro c hc
      have hmem := mem_collapse hc
      rw [← hslash] at hmem
      obtain ⟨d, -, rfl⟩ := List.mem_map.mp hmem
      by_cases hd : d = '\\' <;> simp [hd]
    have hsame : (String.ofList (collapse slashed.length slashed)).toList.map
        (fun c => if c = '\\' then '/' else c) = collapse slashed.length slashed := by
      rw [String.toList_ofList]
      exact (List.map_congr_left hno).trans (List.map_id _)
    refine ⟨?_, fun hne hnil => ?_⟩
    · simp only [normalizePath, hsame, collapse_self (hasDouble_collapse (Nat.le_refl _))]
      rw [if_neg hsafe]
    · have hs : slashed ≠ [] := by
        rw [← hslash]
        simpa using hne
      have := congrArg String.toList hnil
      rw [String.toList_ofList] at this
      exact collapse_ne_nil hs (by simpa using this)

theorem unpadded_injective : Function.Injective unpadded := by
  intro a b h
  have hlist : rstripPads (urlsafeB64encode a) = rstripPads (urlsafeB64encode b) := by
    simpa [unpadded] using congrArg String.toList h
  have := urlsafeB64decode_rstrip a
  rw [hlist, urlsafeB64decode_rstrip b] at this
  exact (Option.some.inj this).symm

theorem unpadded_ascii (bytes : List UInt8) :
    (unpadded bytes).toList.all (fun c => c.toNat < 128) = true := by
  rw [unpadded, String.toList_ofList]
  exact List.all_eq_true.mpr fun c hc => decide_eq_true ((rstripPads_encode bytes).1 c hc)

theorem unpadded_ne_empty {bytes : List UInt8} (h : bytes ≠ []) : unpadded bytes ≠ "" := by
  intro he
  have := congrArg String.toList he
  rw [unpadded, String.toList_ofList] at this
  exact h ((rstripPads_encode bytes).2.mp (by simpa using this))

theorem decodePath_encodePath (path : String) :
    decodePath (encodePath path) = normalizePath path := by
  rw [decodePath, encodePath, unpadded, String.toList_ofList, urlsafeB64decode_rstrip,
    Option.bind_some, decode_encode]

/-- A key is found under its id, wherever it stands among the others. -/
theorem find_verificationKeys (ring : KeyRing) (kid : String) :
    ring.verificationKeys.find? (·.kid == kid) = ring.keys.get? kid := by
  have hmem : ∀ key, key ∈ ring.verificationKeys ↔ ∃ q, ring.keys.get? q = some key := by
    intro key
    rw [KeyRing.verificationKeys, List.mem_mergeSort, Dict.mem_values]
  cases hfind : ring.verificationKeys.find? (·.kid == kid) with
  | none =>
    rw [List.find?_eq_none] at hfind
    cases hget : ring.keys.get? kid with
    | none => rfl
    | some key =>
      exact absurd (beq_iff_eq.mpr (ring.kids kid key hget))
        (hfind key ((hmem key).mpr ⟨kid, hget⟩))
  | some key =>
    have hkid : key.kid = kid := by simpa using List.find?_some hfind
    obtain ⟨q, hget⟩ := (hmem key).mp (List.mem_of_find?_eq_some hfind)
    rw [← hkid, ring.kids q key hget, hget]

end Security
