import MentorAllocation.Data.Chunks
import MentorAllocation.Uploads.Service

namespace Uploads
open Concurrency

/-- A line feed that no carriage return stands directly before. -/
def BareLineFeed (data : List UInt8) : Prop :=
  ∃ before after, data = before ++ 10 :: after ∧ before.getLast? ≠ some 13

theorem slices_eq_chunks {size : Nat} (hsize : 1 ≤ size) {fuel : Nat} {data : List UInt8}
    (hfuel : data.length ≤ fuel) : slices size fuel data = Data.chunks size data := by
  induction fuel generalizing data with
  | zero =>
    obtain rfl := List.eq_nil_of_length_eq_zero (Nat.le_zero.mp hfuel)
    rw [Data.chunks_eq hsize]
    rfl
  | succ fuel ih =>
    rw [Data.chunks_eq hsize]
    cases data with
    | nil => rfl
    | cons byte data =>
      have hshorter : ((byte :: data).drop size).length ≤ fuel := by
        rw [List.length_drop]
        omega
      rw [slices, ih hshorter, if_neg (by simp)]
      simp

theorem flatten_iterChunks (data : List UInt8) : (iterChunks data).flatten = data := by
  rw [iterChunks, slices_eq_chunks (by decide) (Nat.le_refl _), Data.chunks_flatten (by decide)]

theorem flatten_zipChunks (data : List UInt8) : (zipChunks data).flatten = data := by
  rw [zipChunks, slices_eq_chunks (by decide) (Nat.le_refl _), Data.chunks_flatten (by decide)]

namespace UploadService

theorem validateCrlf_append (first second : List UInt8) (last : Option UInt8) :
    validateCrlf (first ++ second) last = validateCrlf first last >>= validateCrlf second := by
  induction first generalizing last with
  | nil => rfl
  | cons byte first ih =>
    rw [List.cons_append, validateCrlf, validateCrlf]
    split
    · rfl
    · exact ih (some byte)

/-- Where the chunks end makes no difference to the check. -/
theorem validateChunks_eq (chunks : List (List UInt8)) (last : Option UInt8) :
    validateChunks chunks last = validateCrlf chunks.flatten last := by
  induction chunks generalizing last with
  | nil => rfl
  | cons chunk chunks ih =>
    rw [List.flatten_cons, validateCrlf_append]
    exact bind_congr ih

/-- What the check raises, with any byte before the first one. -/
theorem validateCrlf_error {data : List UInt8} {last : Option UInt8} :
    validateCrlf data last =
        .error (uploadError .validationError [("reason", "CRLF_REQUIRED")]) ↔
      ∃ before after, data = before ++ 10 :: after ∧ before.getLast?.or last ≠ some 13 := by
  induction data generalizing last with
  | nil => simp [validateCrlf]
  | cons byte data ih =>
    rw [validateCrlf]
    split
    · next hbare =>
      obtain ⟨rfl, hlast⟩ : byte = 10 ∧ last ≠ some 13 := by simpa using hbare
      exact ⟨fun _ => ⟨[], data, rfl, hlast⟩, fun _ => rfl⟩
    · next hpaired =>
      rw [ih]
      constructor
      · rintro ⟨before, after, rfl, hbefore⟩
        refine ⟨byte :: before, after, rfl, ?_⟩
        rwa [List.getLast?_cons, Option.some_or, ← Option.or_some]
      · rintro ⟨before, after, heq, hbefore⟩
        cases before with
        | nil =>
          obtain ⟨rfl, rfl⟩ := List.cons_eq_cons.mp heq
          exact absurd (by simpa using hbefore) hpaired
        | cons head before =>
          obtain ⟨rfl, rfl⟩ := List.cons_eq_cons.mp heq
          refine ⟨before, after, rfl, ?_⟩
          rwa [List.getLast?_cons, Option.some_or, ← Option.or_some] at hbefore

theorem validateCrlf_raises {data : List UInt8} {last : Option UInt8} {e : Failure}
    (h : validateCrlf data last = .error e) :
    e = uploadError .validationError [("reason", "CRLF_REQUIRED")] := by
  induction data generalizing last with
  | nil => cases h
  | cons byte data ih =>
    rw [validateCrlf] at h
    split at h
    · exact (Except.error.inj h).symm
    · exact ih h

theorem validateChunks_raises {chunks : List (List UInt8)} :
    (∃ e, validateChunks chunks none = .error e) ↔ BareLineFeed chunks.flatten := by
  rw [validateChunks_eq]
  constructor
  · rintro ⟨e, h⟩
    obtain rfl := validateCrlf_raises h
    simpa [BareLineFeed] using validateCrlf_error.mp h
  · intro h
    exact ⟨_, validateCrlf_error.mpr (by simpa [BareLineFeed] using h)⟩

/-- The check raises exactly at a bare line feed, however the bytes are split, and so alike
for the chunks of a ZIP's member and those of a plain file. -/
theorem crlf_unchunked :
    (∀ chunks : List (List UInt8),
      (∃ e, validateChunks chunks none = .error e) ↔ BareLineFeed chunks.flatten) ∧
    ∀ data, (zipChunks data).flatten = data ∧ (iterChunks data).flatten = data ∧
      validateChunks (zipChunks data) none = validateChunks (iterChunks data) none := by
  refine ⟨fun chunks => validateChunks_raises, fun data => ?_⟩
  refine ⟨flatten_zipChunks data, flatten_iterChunks data, ?_⟩
  rw [validateChunks_eq, validateChunks_eq, flatten_zipChunks, flatten_iterChunks]

/-- The chunks before the one that the check fails at. -/
def accepted : List (List UInt8) → Option UInt8 → List (List UInt8)
  | [], _ => []
  | chunk :: chunks, last =>
    match validateCrlf chunk last with
    | .error _ => []
    | .ok last => chunk :: accepted chunks last

/-- `AtomicWriter.write` of one chunk after the other. -/
def appendAll (tempPath : String) : List (List UInt8) → Call Unit
  | [] => pure ()
  | chunk :: chunks => do
    perform (.append tempPath chunk)
    appendAll tempPath chunks

/-- Within the limit of the size `_write_csv` writes what the check accepts and ends as the
check does. -/
theorem writeChunks_eq (S : UploadService) (tempPath : String) {chunks : List (List UInt8)}
    {data : List UInt8} (last : Option UInt8)
    (hsize : (data ++ chunks.flatten).length ≤ S.config.maxUploadBytes) :
    S.writeChunks tempPath (chunks.map Except.ok) data last =
      (do
        appendAll tempPath (accepted chunks last)
        Fallible.ofExcept ((validateChunks chunks last).map fun _ => data ++ chunks.flatten)) := by
  induction chunks generalizing data last with
  | nil =>
    rw [List.flatten_nil, List.append_nil]
    rfl
  | cons chunk chunks ih =>
    have hfits : ¬ S.config.maxUploadBytes < (data ++ chunk).length := by
      simp only [List.flatten_cons, List.length_append] at hsize ⊢
      omega
    have hchecked : validateChunks (chunk :: chunks) last =
        validateCrlf chunk last >>= validateChunks chunks := rfl
    rw [List.map_cons, writeChunks, if_neg hfits, accepted, hchecked]
    cases validateCrlf chunk last with
    | error e => rfl
    | ok last =>
      rw [List.flatten_cons, ← List.append_assoc] at hsize ⊢
      exact congrArg (Program.ask (Request.append tempPath chunk)) (funext fun answer => by
        cases answer with
        | error e => rfl
        | ok answer => exact ih last hsize)

end UploadService

end Uploads
