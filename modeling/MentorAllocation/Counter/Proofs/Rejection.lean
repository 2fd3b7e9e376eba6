import MentorAllocation.Counter.Proofs.Issuing

namespace Counter
open Text Concurrency

/-- All student and sequence keys hold the same in two stores. -/
structure Store.SameKeys (N : RedisNamespaces) (s t : Store) : Prop where
  students : ∀ yearCode studentId, t.value (N.counterStudent yearCode studentId) =
    s.value (N.counterStudent yearCode studentId)
  sequences : ∀ yearCode gender, t.value (N.counterSequence yearCode gender) =
    s.value (N.counterSequence yearCode gender)

/-- In every state that calls reach, an allocation that is rejected because its sequence is
used up leaves the keys changed, whatever becomes of its commands. -/
theorem rejection_changes_keys {ι : Type} [DecidableEq ι] (N : RedisNamespaces)
    (nfkc : String → String) (calls : ι → CounterCall)
    (trace : List (CounterSystem ι × (ι × Choice))) (c : CounterSystem ι)
    (h : Run CounterSystem.Step (CounterSystem.start N nfkc calls) trace c)
    (C : CounterRuntime) (payload : RawPayload) (choices : List Choice)
    (x : Except Failure CounterResult) (t : Store)
    (hplayed : Program.played (fun ch => Store.answer ch ()) (C.allocate N nfkc payload) choices
      c.store = some (x, t)) (hrejected : Rejected x) : ¬ Store.SameKeys N c.store t := by
  intro hsame
  cases hnormalized : C.normalizePayload nfkc payload with
  | error details =>
    -- A payload that is not accepted fails with another code.
    rw [CounterRuntime.allocate, hnormalized] at hplayed
    obtain ⟨rfl, -⟩ := Prod.mk.inj (Option.some.inj hplayed)
    exact absurd (rejected_counter.mp hrejected) (by simp)
  | ok normalized =>
    have hsafe : (issueProtocol Unit N).Safe () (Outcome N c.store normalized)
        (C.allocate N nfkc payload) c.store := safe_allocate hnormalized (.refl c.store)
    have hraised := (hsafe.played (reachable_issuing h).1 (fun _ _ _ => trivial)
      hplayed).2.rejected hrejected
    rw [Store.sequence_congr (hsame.sequences _ _)] at hraised
    exact lt_irrefl _ hraised

def singleRuntime : CounterRuntime := { sampleRuntime with maxSerial := 1 }

def singleCalls : Fin 1 → CounterCall :=
  fun _ => .allocate singleRuntime (samplePayload "0012345678")

/-- One student has the only serial. -/
theorem singleCalls_run : ∃ trace c,
    Run CounterSystem.Step (CounterSystem.start ⟨"sma"⟩ id singleCalls) trace c ∧
    c.store.sequence ⟨"sma"⟩ "02" 1 = 1 ∧ ∃ t,
      Program.played (fun ch => Store.answer ch ())
        (singleRuntime.allocate ⟨"sma"⟩ id (samplePayload "0012345679")) [{}] c.store =
          some (.error CounterRuntime.exhausted, t) ∧ t.sequence ⟨"sma"⟩ "02" 1 = 2 := by
  have hrun : (replay (fun c l => c.next Store.answer l)
      (CounterSystem.start ⟨"sma"⟩ id singleCalls) [(0, {})]).map
      (fun c => (c.store.sequence ⟨"sma"⟩ "02" 1, (Program.played (fun ch => Store.answer ch ())
        (singleRuntime.allocate ⟨"sma"⟩ id (samplePayload "0012345679")) [{}] c.store).map
          fun r => (r.1, r.2.sequence ⟨"sma"⟩ "02" 1))) =
      some (1, some (.error CounterRuntime.exhausted, 2)) := by
    decide +kernel
  obtain ⟨c, hc, hpair⟩ := Option.map_eq_some_iff.mp hrun
  obtain ⟨hsequence, hplayed⟩ := Prod.mk.inj hpair
  obtain ⟨⟨x, t⟩, hplayed, hresult⟩ := Option.map_eq_some_iff.mp hplayed
  obtain ⟨rfl, ht⟩ := Prod.mk.inj hresult
  exact ⟨_, c, run_of_replay hc, hsequence, t, hplayed, ht⟩

theorem rejection_changes_keys_single : ∃ s t,
    Program.played (fun ch => Store.answer ch ())
      (singleRuntime.allocate ⟨"sma"⟩ id (samplePayload "0012345679")) [{}] s =
        some (.error CounterRuntime.exhausted, t) ∧ ¬ Store.SameKeys ⟨"sma"⟩ s t := by
  obtain ⟨trace, c, hrun, -, t, hplayed, -⟩ := singleCalls_run
  exact ⟨c.store, t, hplayed, rejection_changes_keys ⟨"sma"⟩ id singleCalls trace c hrun
    singleRuntime (samplePayload "0012345679") [{}] _ t hplayed ⟨_, _, rfl⟩⟩

/-- The second student is refused, and the sequence has gone on to the next serial. -/
theorem refused_student_draws : ∃ trace c,
    Run CounterSystem.Step (CounterSystem.start ⟨"sma"⟩ id singleCalls) trace c ∧ ∃ t,
    Program.played (fun ch => Store.answer ch ())
      (singleRuntime.allocate ⟨"sma"⟩ id (samplePayload "0012345679")) [{}] c.store =
        some (.error CounterRuntime.exhausted, t) ∧ ¬ Store.SameKeys ⟨"sma"⟩ c.store t := by
  obtain ⟨trace, c, hrun, hbefore, t, hplayed, hafter⟩ := singleCalls_run
  refine ⟨trace, c, hrun, t, hplayed, fun hsame => ?_⟩
  have hequal : c.store.sequence ⟨"sma"⟩ "02" 1 = t.sequence ⟨"sma"⟩ "02" 1 :=
    (Store.sequence_congr (hsame.sequences "02" 1)).symm
  omega

end Counter
