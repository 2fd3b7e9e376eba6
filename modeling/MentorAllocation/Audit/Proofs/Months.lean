import MentorAllocation.Audit.Enforcer
import MentorAllocation.Data.Except
import MentorAllocation.Text.Padding

namespace Audit
open Data Text

/-- A partition that starts no later than another is not of a later month. -/
def InCalendarOrder (partitions : List PartitionInfo) : Prop :=
  ∀ p ∈ partitions, ∀ q ∈ partitions, p.start.instant ≤ q.start.instant →
    p.start.year * 12 + p.start.month ≤ q.start.year * 12 + q.start.month

theorem daysInMonth_bounds (year : Int) (month : Nat) :
    28 ≤ daysInMonth year month ∧ daysInMonth year month ≤ 31 := by
  unfold daysInMonth
  split
  · split <;> omega
  · split <;> omega

def daysBefore (year : Int) (month : Nat) : Int :=
  ((List.range (month - 1)).map fun m => daysInMonth year (m + 1)).sum

theorem daysBefore_succ (year : Int) (month : Nat) :
    daysBefore year (month + 2) = daysBefore year (month + 1) + daysInMonth year (month + 1) := by
  simp [daysBefore, List.range_succ]

theorem daysBefore_lt (year : Int) {month later : Nat} (hmonth : 1 ≤ month) (h : month < later) :
    daysBefore year month + 28 ≤ daysBefore year later := by
  induction later, h using Nat.le_induction with
  | base =>
    obtain ⟨month, rfl⟩ := Nat.exists_eq_add_of_le' hmonth
    have := daysInMonth_bounds year (month + 1)
    rw [daysBefore_succ]
    omega
  | succ later hlater ih =>
    obtain ⟨later, rfl⟩ := Nat.exists_eq_add_of_le' (hmonth.trans (Nat.le_of_lt hlater))
    have := daysInMonth_bounds year (later + 1)
    rw [daysBefore_succ]
    omega

theorem daysBefore_december (year : Int) : daysBefore year 12 ≤ 335 := by
  cases hleap : isLeap year <;> simp [daysBefore, daysInMonth, hleap, List.range_succ]

theorem ordinal_eq (year : Int) (month : Nat) : ordinal year month 1 =
    365 * (year - 1) + (year - 1) / 4 - (year - 1) / 100 + (year - 1) / 400 +
      daysBefore year month := by
  rw [ordinal, daysBefore]
  omega

/-- A month begins at least four weeks before any later one. -/
theorem ordinal_lt {year year' month month' : Nat} (hmonth : 1 ≤ month) (hlast : month ≤ 12)
    (hmonth' : 1 ≤ month') (h : year * 12 + month < year' * 12 + month') (hlast' : month' ≤ 12) :
    ordinal year month 1 + 28 ≤ ordinal year' month' 1 := by
  rw [ordinal_eq, ordinal_eq]
  rcases Nat.lt_or_ge year year' with hyear | hyear
  · have hfirst : 0 ≤ daysBefore year' month' := by
      rcases Nat.eq_or_lt_of_le hmonth' with rfl | hlt
      · exact le_of_eq rfl
      · have := daysBefore_lt year' (Nat.le_refl 1) hlt
        have hzero : daysBefore year' 1 = 0 := rfl
        omega
    have hdecember : daysBefore year month ≤ 335 := by
      rcases Nat.eq_or_lt_of_le hlast with rfl | hlt
      · exact daysBefore_december year
      · have := daysBefore_lt year hmonth hlt
        have := daysBefore_december year
        omega
    omega
  · obtain rfl : year = year' := by omega
    have := daysBefore_lt year hmonth (by omega : month < month')
    omega

variable {tz : ZoneInfo} {year month year' month' : Nat} {start start' : DateTime}

theorem monthStart_eq_ok : tz.monthStart year month = .ok start ↔
    (1 ≤ year ∧ year ≤ 9999) ∧ (1 ≤ month ∧ month ≤ 12) ∧
      start = ⟨year, month, 1, 0, tz.midnightOffset year month 1⟩ := by
  unfold ZoneInfo.monthStart
  split
  · next hyear =>
    split
    · next hmonth =>
      rw [Except.ok.injEq, eq_comm]
      exact ⟨fun h => ⟨hyear, hmonth, h⟩, fun h => h.2.2⟩
    · next hmonth => exact iff_of_false (fun h => by cases h) fun h => hmonth h.2.1
  · next hyear => exact iff_of_false (fun h => by cases h) fun h => hyear h.1

/-- Months of one zone begin in their order. -/
theorem monthStart_lt (h : tz.monthStart year month = .ok start)
    (h' : tz.monthStart year' month' = .ok start') (hlt : year * 12 + month < year' * 12 + month') :
    start.instant < start'.instant := by
  obtain ⟨-, hmonth, rfl⟩ := monthStart_eq_ok.mp h
  obtain ⟨-, hmonth', rfl⟩ := monthStart_eq_ok.mp h'
  have hdays := ordinal_lt hmonth.1 hmonth.2 hmonth'.1 hlt hmonth'.2
  have hoffset := tz.offset_lt year month 1
  have hoffset' := tz.offset_lt year' month' 1
  simp only [DateTime.instant, dayLength, Nat.cast_one]
  omega

theorem monthStart_eq (h : tz.monthStart year month = .ok start)
    (h' : tz.monthStart year' month' = .ok start') (heq : year * 12 + month = year' * 12 + month') :
    start = start' := by
  obtain ⟨-, hmonth, rfl⟩ := monthStart_eq_ok.mp h
  obtain ⟨-, hmonth', rfl⟩ := monthStart_eq_ok.mp h'
  obtain ⟨rfl, rfl⟩ : year = year' ∧ month = month' := by omega
  rfl

theorem monthStart_le (h : tz.monthStart year month = .ok start)
    (h' : tz.monthStart year' month' = .ok start') (hle : year * 12 + month ≤ year' * 12 + month') :
    start.instant ≤ start'.instant := by
  rcases Nat.eq_or_lt_of_le hle with heq | hlt
  · rw [monthStart_eq h h' heq]
  · exact (monthStart_lt h h' hlt).le

/-- A window begins with its month and ends with the beginning of the next one. -/
theorem windowOf_eq_ok {monthKey : String} {window : AuditArchiveWindow}
    (h : windowOf tz monthKey = .ok window) : window.monthKey = monthKey ∧
      ∃ year month, tz.monthStart year month = .ok window.start ∧
        ∃ year' month', year' * 12 + month' = year * 12 + month + 1 ∧
          tz.monthStart year' month' = .ok window.stop := by
  unfold windowOf at h
  split at h
  · cases h
  · simp only [bind_eq_ok] at h
    obtain ⟨year, -, month, -, start, hstart, h⟩ := h
    split at h
    · next hdecember =>
      obtain ⟨stop, hstop, h⟩ := bind_eq_ok.mp h
      obtain rfl := pure_eq_ok.mp h
      exact ⟨rfl, year, month, hstart, year + 1, 1, by omega, hstop⟩
    · obtain ⟨stop, hstop, h⟩ := bind_eq_ok.mp h
      obtain rfl := pure_eq_ok.mp h
      exact ⟨rfl, year, month, hstart, year, month + 1, by omega, hstop⟩

/-- The windows of two keys are one or do not overlap. -/
theorem windowOf_order {key key' : String} {window window' : AuditArchiveWindow}
    (h : windowOf tz key = .ok window) (h' : windowOf tz key' = .ok window') :
    window.start.instant < window.stop.instant ∧
      (window = { window' with monthKey := key } ∨ window.stop.instant ≤ window'.start.instant ∨
        window'.stop.instant ≤ window.start.instant) := by
  obtain ⟨hkey, year, month, hstart, yearAfter, monthAfter, hafter, hstop⟩ := windowOf_eq_ok h
  obtain ⟨-, year', month', hstart', yearAfter', monthAfter', hafter', hstop'⟩ := windowOf_eq_ok h'
  refine ⟨monthStart_lt hstart hstop (by omega), ?_⟩
  rcases Nat.lt_trichotomy (year * 12 + month) (year' * 12 + month') with hlt | heq | hgt
  · exact .inr (.inl (monthStart_le hstop hstart' (by omega)))
  · refine .inl ?_
    rw [AuditArchiveWindow.mk.injEq, monthStart_eq hstart hstart' heq,
      monthStart_eq hstop hstop' (by omega)]
    exact ⟨hkey, rfl, rfl⟩
  · exact .inr (.inr (monthStart_le hstop' hstart (by omega)))

/-- Partitions of months of one zone start in the order of the calendar. -/
theorem inCalendarOrder_of_windows {partitions : List PartitionInfo}
    (h : ∀ p ∈ partitions, ∃ key window, windowOf tz key = .ok window ∧ p.start = window.start) :
    InCalendarOrder partitions := by
  intro p hp q hq hle
  obtain ⟨key, window, hwindow, hpstart⟩ := h p hp
  obtain ⟨key', window', hwindow', hqstart⟩ := h q hq
  obtain ⟨-, year, month, hstart, -⟩ := windowOf_eq_ok hwindow
  obtain ⟨-, year', month', hstart', -⟩ := windowOf_eq_ok hwindow'
  rw [hpstart, hqstart] at hle ⊢
  refine Nat.le_of_not_lt fun hlt => ?_
  have hyear := congrArg DateTime.year (monthStart_eq_ok.mp hstart).2.2
  have hmonth := congrArg DateTime.month (monthStart_eq_ok.mp hstart).2.2
  have hyear' := congrArg DateTime.year (monthStart_eq_ok.mp hstart').2.2
  have hmonth' := congrArg DateTime.month (monthStart_eq_ok.mp hstart').2.2
  dsimp only at hyear hmonth hyear' hmonth'
  rw [hyear, hmonth, hyear', hmonth'] at hlt
  exact absurd (monthStart_lt hstart' hstart hlt) (not_lt.mpr hle)

/-- A zone that is never shifted. -/
def utc : ZoneInfo := ⟨fun _ _ _ => 0, fun _ _ _ => by decide⟩

namespace DateTime

/-- The midnight in UTC that a text writes. -/
def ofMidnight (text : String) : Option DateTime :=
  let cs := text.toList
  if cs.drop 10 = "T00:00:00+00:00".toList then
    some ⟨digitsNumber (cs.take 4), digitsNumber ((cs.drop 5).take 2),
      digitsNumber ((cs.drop 8).take 2), 0, 0⟩
  else none

/-- The parts of a date by their places. -/
theorem cut_date {ys ms ds tail : List Char} (hys : ys.length = 4) (hms : ms.length = 2)
    (hds : ds.length = 2) :
    let cs := ys ++ '-' :: (ms ++ '-' :: (ds ++ tail))
    cs.take 4 = ys ∧ (cs.drop 5).take 2 = ms ∧ (cs.drop 8).take 2 = ds ∧ cs.drop 10 = tail := by
  obtain ⟨a, b, c, d, rfl⟩ := List.length_eq_four.mp hys
  obtain ⟨e, f, rfl⟩ := List.length_eq_two.mp hms
  obtain ⟨g, h, rfl⟩ := List.length_eq_two.mp hds
  exact ⟨rfl, rfl, rfl, rfl⟩

theorem ofMidnight_isoformat {year month day : Nat} (hyear : year < 10000) (hmonth : month < 100)
    (hday : day < 100) : ofMidnight (isoformat ⟨year, month, day, 0, 0⟩) =
      some ⟨year, month, day, 0, 0⟩ := by
  have htext : (isoformat ⟨year, month, day, 0, 0⟩).toList = (zeroPad 4 year).toList ++
      '-' :: ((zeroPad 2 month).toList ++ '-' :: ((zeroPad 2 day).toList ++
        "T00:00:00+00:00".toList)) := by
    have hclock : clock 0 = ("00", "00", "00") := by decide
    have hoffset : offsetText 0 = "+00:00" := by decide
    simp [isoformat, fraction, hclock, hoffset]
  obtain ⟨hyears, hmonths, hdays, htail⟩ := @cut_date _ _ _ "T00:00:00+00:00".toList
    (zeroPad_length (by omega) hyear) (zeroPad_length (by omega) hmonth)
    (zeroPad_length (by omega) hday)
  have hvalue : ∀ width n : Nat, digitsNumber (zeroPad width n).toList = n := zeroPad_value
  dsimp only [ofMidnight]
  rw [htext, hyears, hmonths, hdays, htail, if_pos rfl, hvalue, hvalue, hvalue]

end DateTime

/-- The windows of UTC are read back from their texts. -/
theorem ofMidnight_windowOf {key : String} {window : AuditArchiveWindow}
    (h : windowOf utc key = .ok window) :
    DateTime.ofMidnight window.start.isoformat = some window.start ∧
      DateTime.ofMidnight window.stop.isoformat = some window.stop := by
  obtain ⟨-, year, month, hstart, year', month', -, hstop⟩ := windowOf_eq_ok h
  have hread : ∀ {year month t}, utc.monthStart year month = .ok t →
      DateTime.ofMidnight t.isoformat = some t := by
    intro year month t ht
    obtain ⟨hyear, hmonth, rfl⟩ := monthStart_eq_ok.mp ht
    exact DateTime.ofMidnight_isoformat (by omega) (by omega) (by omega)
  exact ⟨hread hstart, hread hstop⟩

end Audit
