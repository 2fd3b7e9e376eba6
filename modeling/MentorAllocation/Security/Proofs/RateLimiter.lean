import Mathlib.Data.List.Induction
import MentorAllocation.Data.Prefixes
import MentorAllocation.Security.RateLimiter

namespace Security
open Data

namespace RateLimiter

structure Answer where
  key : String
  time : ℚ
  allowed : Bool

/-- The times of the calls of a key that were granted. -/
def granted (key : String) (answers : List Answer) : List ℚ :=
  (answers.filter fun answer => answer.key == key && answer.allowed).map Answer.time

def respond (state : List Answer × RateLimiter) (call : String × ℚ) : List Answer × RateLimiter :=
  let (allowed, limiter) := state.2.checkLimit call.1 call.2
  (state.1 ++ [⟨call.1, call.2, allowed⟩], limiter)

/-- The calls of a new limiter with their answers, and the limiter in the end. -/
def session (maxCalls timeWindow : Int) (calls : List (String × ℚ)) : List Answer × RateLimiter :=
  calls.foldl respond ([], init maxCalls timeWindow)

/-- What a limiter keeps of a key: the granted calls, but for some that have expired. -/
structure Keeps (limiter : RateLimiter) (answers : List Answer) (key : String) : Prop where
  kept : ∃ dropped, granted key answers = dropped ++ (limiter.calls.get? key).getD [] ∧
    ∀ time ∈ dropped, ∃ answer ∈ answers, limiter.expired answer.time time = true

theorem granted_append (key : String) (answers more : List Answer) :
    granted key (answers ++ more) = granted key answers ++ granted key more := by
  rw [granted, List.filter_append, List.map_append, granted, granted]

theorem granted_sublist (key : String) (answers : List Answer) :
    (granted key answers).Sublist (answers.map Answer.time) := List.filter_sublist.map _

theorem expired_mono {limiter : RateLimiter} {now later time : ℚ} (hle : now ≤ later)
    (h : limiter.expired now time = true) : limiter.expired later time = true := by
  refine decide_eq_true ((of_decide_eq_true h).trans_le ?_)
  exact double_mono (sub_le_sub_right hle time)

theorem expired_anti {limiter : RateLimiter} {now time older : ℚ} (hle : older ≤ time)
    (h : limiter.expired now time = true) : limiter.expired now older = true := by
  refine decide_eq_true ((of_decide_eq_true h).trans_le ?_)
  exact double_mono (sub_le_sub_left hle now)

/-- What the loop leaves of the times: the granted calls that have not expired. -/
theorem Keeps.window {limiter : RateLimiter} {answers : List Answer} {key : String} {now : ℚ}
    (h : limiter.Keeps answers key) (hsorted : (answers.map Answer.time).Pairwise (· ≤ ·))
    (hnow : ∀ answer ∈ answers, answer.time ≤ now) :
    ((limiter.calls.get? key).getD []).dropWhile (limiter.expired now) =
      (granted key answers).filter fun time => !limiter.expired now time := by
  obtain ⟨dropped, hgranted, hdropped⟩ := h.kept
  have htimes := hsorted.sublist (granted_sublist key answers)
  rw [hgranted, List.pairwise_append] at htimes
  have hgone : dropped.filter (fun time => !limiter.expired now time) = [] := by
    refine List.filter_eq_nil_iff.mpr fun time htime => ?_
    obtain ⟨answer, hanswer, hexpired⟩ := hdropped time htime
    simp [expired_mono (hnow answer hanswer) hexpired]
  rw [hgranted, List.filter_append, hgone, List.nil_append]
  exact dropWhile_eq_filter (htimes.2.1.imp fun hle => expired_anti hle)

/-- What a call leaves of a limiter and its answers. -/
theorem respond_eq (answers : List Answer) (limiter : RateLimiter) (key : String) (now : ℚ) :
    respond (answers, limiter) (key, now) =
      (answers ++ [⟨key, now, (limiter.checkLimit key now).1⟩], (limiter.checkLimit key now).2) :=
  rfl

theorem checkLimit_other {limiter : RateLimiter} {key other : String} {now : ℚ}
    (h : other ≠ key) :
    (limiter.checkLimit key now).2.calls.get? other = limiter.calls.get? other := by
  unfold checkLimit
  dsimp only
  split <;> rw [Dict.get?_set, if_neg h]

theorem checkLimit_kept (limiter : RateLimiter) (key : String) (now : ℚ) :
    ((limiter.checkLimit key now).2.calls.get? key).getD [] =
      ((limiter.calls.get? key).getD []).dropWhile (limiter.expired now) ++
        if (limiter.checkLimit key now).1 then [now] else [] := by
  unfold checkLimit
  dsimp only
  split <;> simp [Dict.get?_set]

theorem checkLimit_config (limiter : RateLimiter) (key : String) (now : ℚ) :
    (limiter.checkLimit key now).2.maxCalls = limiter.maxCalls ∧
      (limiter.checkLimit key now).2.timeWindow = limiter.timeWindow := by
  unfold checkLimit
  dsimp only
  split <;> exact ⟨rfl, rfl⟩

theorem granted_singleton_self (key : String) (now : ℚ) (allowed : Bool) :
    granted key [⟨key, now, allowed⟩] = if allowed then [now] else [] := by
  cases allowed <;> simp [granted]

theorem granted_singleton_other {key other : String} (h : other ≠ key) (now : ℚ) (allowed : Bool) :
    granted other [⟨key, now, allowed⟩] = [] := by
  simp [granted, Ne.symm h]

theorem Keeps.respond {limiter : RateLimiter} {answers : List Answer} {other : String}
    (h : limiter.Keeps answers other) (key : String) (now : ℚ) :
    (limiter.checkLimit key now).2.Keeps
      (answers ++ [⟨key, now, (limiter.checkLimit key now).1⟩]) other := by
  obtain ⟨dropped, hgranted, hdropped⟩ := h.kept
  have hwindow := (checkLimit_config limiter key now).2
  have hexpired : (limiter.checkLimit key now).2.expired = limiter.expired := by
    funext later time
    rw [expired, expired, hwindow]
  by_cases hkey : other = key
  · subst hkey
    refine ⟨dropped ++ ((limiter.calls.get? other).getD []).takeWhile (limiter.expired now), ?_,
      fun time htime => ?_⟩
    · rw [granted_append, granted_singleton_self, hgranted, checkLimit_kept, List.append_assoc,
        List.append_assoc, ← List.append_assoc (List.takeWhile _ _),
        List.takeWhile_append_dropWhile]
    · rw [hexpired]
      rcases List.mem_append.mp htime with htime | htime
      · obtain ⟨answer, hanswer, hold⟩ := hdropped time htime
        exact ⟨answer, List.mem_append_left _ hanswer, hold⟩
      · exact ⟨_, List.mem_append_right _ List.mem_cons_self, List.mem_takeWhile_imp htime⟩
  · refine ⟨dropped, ?_, fun time htime => ?_⟩
    · rw [granted_append, granted_singleton_other hkey, List.append_nil, checkLimit_other hkey,
        hgranted]
    · obtain ⟨answer, hanswer, hold⟩ := hdropped time htime
      exact ⟨answer, List.mem_append_left _ hanswer, hexpired ▸ hold⟩

/-- What a limiter promises of the calls of a key. Distances in time are those of the
doubles. -/
structure Exact (maxCalls timeWindow : Int) (answers : List Answer) (key : String) : Prop where
  windows : ∀ first last : ℚ, double (last - first) ≤ timeWindow →
    (((granted key answers).filter fun time => first ≤ time ∧ time ≤ last).length : Int) ≤
      max maxCalls 0
  denied : ∀ before now allowed after, answers = before ++ ⟨key, now, allowed⟩ :: after →
    (allowed = false ↔ maxCalls ≤
      ((granted key before).filter fun time => double (now - time) ≤ timeWindow).length)

/-- A call is denied where the calls of its key that have not expired are too many. -/
theorem Keeps.denied {limiter : RateLimiter} {answers : List Answer} {key : String} {now : ℚ}
    (h : limiter.Keeps answers key) (hsorted : (answers.map Answer.time).Pairwise (· ≤ ·))
    (hnow : ∀ answer ∈ answers, answer.time ≤ now) :
    (limiter.checkLimit key now).1 = false ↔ limiter.maxCalls ≤
      ((granted key answers).filter fun time =>
        double (now - time) ≤ limiter.timeWindow).length := by
  have hwindow : (fun time => !limiter.expired now time) =
      fun time => decide (double (now - time) ≤ limiter.timeWindow) := by
    funext time
    rw [expired, ← decide_not, decide_eq_decide, not_lt]
  rw [← hwindow, ← h.window hsorted hnow]
  unfold checkLimit
  dsimp only
  split
  · next hfull => exact ⟨fun _ => hfull, fun _ => rfl⟩
  · next hfree =>
    constructor
    · intro htrue
      cases htrue
    · intro hfull
      exact absurd hfull hfree

/-- One more call keeps the promise. -/
theorem Exact.append {maxCalls timeWindow : Int} {answers : List Answer} {key other : String}
    {now : ℚ} {allowed : Bool} (h : Exact maxCalls timeWindow answers other)
    (hdenied : other = key → (allowed = false ↔ maxCalls ≤
      ((granted other answers).filter fun time => double (now - time) ≤ timeWindow).length)) :
    Exact maxCalls timeWindow (answers ++ [⟨key, now, allowed⟩]) other := by
  constructor
  case windows =>
    intro first last hwindow
    have hbefore := h.windows first last hwindow
    rw [granted_append, List.filter_append, List.length_append]
    by_cases hkey : other = key
    · rw [hkey, granted_singleton_self, ← hkey]
      split
      · next hallowed =>
        by_cases hinside : first ≤ now ∧ now ≤ last
        · -- Every earlier call of the window still counted at this one.
          have hcounted : ((granted other answers).filter fun time =>
              first ≤ time ∧ time ≤ last).length ≤
              ((granted other answers).filter fun time =>
                double (now - time) ≤ timeWindow).length := by
            refine (List.monotone_filter_right _ fun time htime => ?_).length_le
            have htime := of_decide_eq_true htime
            have hdistance : double (now - time) ≤ double (last - first) :=
              double_mono (by linarith [htime.1, hinside.2])
            exact decide_eq_true (hdistance.trans hwindow)
          have hfree := mt (hdenied hkey).mpr (by simp [hallowed])
          rw [List.filter_cons_of_pos (by simpa using hinside), List.filter_nil,
            List.length_singleton]
          push_cast
          omega
        · rw [List.filter_cons_of_neg (by simpa using hinside), List.filter_nil]
          exact hbefore
      · exact hbefore
    · rw [granted_singleton_other hkey]
      exact hbefore
  case denied =>
    intro before now' allowed' after hsplit
    rcases List.eq_nil_or_concat after with rfl | ⟨after, answer, rfl⟩
    · obtain ⟨rfl, hlast⟩ := List.append_inj' hsplit rfl
      obtain ⟨rfl, rfl, rfl⟩ : key = other ∧ now = now' ∧ allowed = allowed' := by
        simpa using hlast
      exact hdenied rfl
    · rw [List.concat_eq_append, ← List.cons_append, ← List.append_assoc] at hsplit
      exact h.denied before now' allowed' after (List.append_inj' hsplit rfl).1

theorem exact_nil (maxCalls timeWindow : Int) (key : String) :
    Exact maxCalls timeWindow [] key where
  windows := by
    intro first last _
    exact le_max_right maxCalls 0
  denied := by
    intro before now allowed after hsplit
    simp at hsplit

/-- A session of calls at times that do not fall: what a limiter keeps and what it promises,
of every key. -/
theorem session_exact (maxCalls timeWindow : Int) {calls : List (String × ℚ)}
    (hsorted : (calls.map Prod.snd).Pairwise (· ≤ ·)) :
    let state := session maxCalls timeWindow calls
    state.1.map Answer.time = calls.map Prod.snd ∧ state.2.maxCalls = maxCalls ∧
      state.2.timeWindow = timeWindow ∧
      ∀ key, state.2.Keeps state.1 key ∧ Exact maxCalls timeWindow state.1 key := by
  induction calls using List.reverseRecOn with
  | nil =>
    refine ⟨rfl, rfl, rfl, fun key => ⟨⟨[], rfl, ?_⟩, exact_nil maxCalls timeWindow key⟩⟩
    simp
  | append_singleton calls call ih =>
    obtain ⟨key, now⟩ := call
    rw [List.map_append, List.pairwise_append] at hsorted
    have hearlier := ih hsorted.1
    have hrespond : session maxCalls timeWindow (calls ++ [(key, now)]) =
        respond (session maxCalls timeWindow calls) (key, now) := by
      rw [session, List.foldl_append]
      rfl
    rw [hrespond]
    generalize session maxCalls timeWindow calls = state at hearlier ⊢
    obtain ⟨answers, limiter⟩ := state
    obtain ⟨htimes, hmax, hwindow, hkeys⟩ := hearlier
    dsimp only at htimes hmax hwindow hkeys
    obtain ⟨hmax', hwindow'⟩ := checkLimit_config limiter key now
    rw [respond_eq]
    refine ⟨?_, hmax'.trans hmax, hwindow'.trans hwindow, fun other => ⟨?_, ?_⟩⟩
    · rw [List.map_append, htimes, List.map_append]
      rfl
    · exact (hkeys other).1.respond key now
    · refine (hkeys other).2.append fun hkey => ?_
      rw [← hmax, ← hwindow, hkey]
      refine (hkeys key).1.denied (htimes ▸ hsorted.1) fun answer hanswer => ?_
      exact hsorted.2.2 answer.time (htimes ▸ List.mem_map_of_mem hanswer) now List.mem_cons_self

/-- Of the calls of a key, at times that do not fall and among those of other keys: no
closed window has more granted calls than the limit, and a call is denied just when the
window that ends with it has as many. -/
theorem sliding_window_exact (maxCalls timeWindow : Int) {calls : List (String × ℚ)}
    (hsorted : (calls.map Prod.snd).Pairwise (· ≤ ·)) (key : String) :
    Exact maxCalls timeWindow (session maxCalls timeWindow calls).1 key :=
  ((session_exact maxCalls timeWindow hsorted).2.2.2 key).2

theorem sliding_window_exact_sample :
    Exact 1 10 (session 1 10 [("a", 0), ("b", 4), ("a", 11)]).1 "a" :=
  sliding_window_exact 1 10 (by simp; norm_num) "a"

/-- The double nearest to 0.3. -/
def early : ℚ := 5404319552844595 / 18014398509481984

/-- The double nearest to 10.3. -/
def late : ℚ := 2899192260119757 / 281474976710656

theorem double_late_sub_early : double (late - early) = 10 := by
  rw [double, late, early, if_neg (by norm_num), nearestDouble_eq (s := 49) (n := 10 * 2 ^ 49)
    (by norm_num) (by norm_num) (by norm_num) (by norm_num) (by norm_num)]
  norm_num

/-- With one call in ten seconds a call at 10.3 is denied for one at 0.3, which is not
in the window of ten seconds before it: the difference of the times is rounded to 10. -/
theorem early_call_counted :
    (session 1 10 [("k", early), ("k", late)]).1 =
      [⟨"k", early, true⟩, ⟨"k", late, false⟩] ∧
    ((granted "k" [⟨"k", early, true⟩]).filter fun time =>
      late - 10 ≤ time ∧ time ≤ late).length = 0 := by
  constructor
  · have hfirst : (init 1 10).checkLimit "k" early =
        (true, { init 1 10 with calls := Dict.empty.set "k" [early] }) := rfl
    have hsecond : (checkLimit { init 1 10 with calls := Dict.empty.set "k" [early] } "k" late).1 =
        false := by
      have hkept : expired { init 1 10 with calls := Dict.empty.set "k" [early] } late early =
          false := by
        rw [expired, double_late_sub_early]
        rfl
      rw [checkLimit, Dict.get?_set, if_pos rfl, Option.getD_some, List.dropWhile_cons, hkept]
      rfl
    rw [session, List.foldl_cons, respond_eq, hfirst, List.foldl_cons, respond_eq, hsecond]
    rfl
  · have houtside : ¬ (late - 10 ≤ early ∧ early ≤ late) := by
      rw [late, early]
      norm_num
    have hgranted : granted "k" [⟨"k", early, true⟩] = [early] := rfl
    rw [hgranted, List.filter_cons_of_neg (by simpa using houtside)]
    rfl

end RateLimiter

end Security
