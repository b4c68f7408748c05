import Mathlib.Data.Nat.Bitwise
import Mathlib.Data.List.Range

/-!
# Times of directory entries

`unix2dostime` and `dos2unixtime` from `fs/dosfs/dosfs_conv.c`.  Either
direction remembers what it converted last, and counts days with tables of the
lengths of months; the time zone is a static variable that stays zero.
-/

namespace Uw7.Dosfs.Times

open List Nat

/-- `union dosdate`: its fields fill the sixteen bits. -/
structure DosDate where
  day : BitVec 5
  month : BitVec 4
  year : BitVec 7
deriving DecidableEq

/-- `union dostime`. -/
structure DosTime where
  twoSeconds : BitVec 5
  minutes : BitVec 6
  hours : BitVec 5
deriving DecidableEq

/-- Days in each month in a regular year. -/
def regyear : List Nat := [31, 28, 31, 30, 31, 30, 31, 31, 30, 31, 30, 31]

/-- Days in each month in a leap year. -/
def leapyear : List Nat := [31, 29, 31, 30, 31, 30, 31, 31, 30, 31, 30, 31]

def yearDays (year : Nat) : Nat :=
  if year &&& 3 ≠ 0 then 365 else 366

def monthsOf (year : Nat) : List Nat :=
  if year &&& 3 ≠ 0 then regyear else leapyear

def secondsTo1980 : Nat := (8 * 365 + 2 * 366) * (24 * 60 * 60)

/-- `tz.tz_minuteswest`. -/
def minutesWest : Nat := 0

structure Remembered where
  lasttime : BitVec 32
  lastday : Nat
  lastddate : DosDate
  lastdtime : DosTime
  lastdosdate : DosDate
  lastseconds : BitVec 32

/-- Before the first conversion everything is zero. -/
def Remembered.start : Remembered where
  lasttime := 0
  lastday := 0
  lastddate := ⟨0, 0, 0⟩
  lastdtime := ⟨0, 0, 0⟩
  lastdosdate := ⟨0, 0, 0⟩
  lastseconds := 0

/-- The loop over the years: the year of a day, and the days before it in that
year. -/
def findYear (year days : Nat) : Nat × Nat :=
  if days < yearDays year then (year, days)
  else findYear (year + 1) (days - yearDays year)
termination_by days
decreasing_by
  have : 0 < yearDays year := by
    unfold yearDays
    split <;> omega
  omega

/-- The loop over the months of a table. -/
def findMonth : List Nat → Nat → Nat → Nat × Nat
  | [], month, days => (month, days)
  | length :: rest, month, days =>
    if days < length then (month, days)
    else findMonth rest (month + 1) (days - length)

/-- The date of a day since 1970. -/
def dateOfDays (days : Nat) : DosDate :=
  let inYear := findYear 1970 days
  let inMonth := findMonth (monthsOf inYear.1) 0 inYear.2
  { day := BitVec.ofNat 5 (inMonth.2 + 1)
    month := BitVec.ofNat 4 (inMonth.1 + 1)
    year := BitVec.ofNat 7 (if inYear.1 < 1980 then 0 else inYear.1 - 1980) }

/-- The time of day. -/
def timeOfSeconds (seconds : Nat) : DosTime where
  twoSeconds := BitVec.ofNat 5 ((seconds % 60) >>> 1)
  minutes := BitVec.ofNat 6 (seconds / 60 % 60)
  hours := BitVec.ofNat 5 (seconds / (60 * 60) % 24)

/-- The computation of `unix2dostime`, when the time is not the last one. -/
def Remembered.convert (memory : Remembered) (tvSec : BitVec 32) : Remembered :=
  let lasttime := tvSec - BitVec.ofNat 32 (minutesWest * 60)
  let days := lasttime.toNat / (24 * 60 * 60)
  { memory with
    lasttime := lasttime
    lastdtime := timeOfSeconds lasttime.toNat
    lastday := days
    lastddate :=
      if days ≠ memory.lastday then dateOfDays days else memory.lastddate }

/-- `unix2dostime`: what it remembers; the date and the time are the last
ones. -/
def unix2dostime (memory : Remembered) (tvSec : BitVec 32) : Remembered :=
  if memory.lasttime ≠ tvSec then memory.convert tvSec else memory

def daysOfYears (first : Nat) : Nat → Nat
  | 0 => 0
  | years + 1 => daysOfYears first years + yearDays (first + years)

/-- The loop over the months before one: their days, and the entries of the
table that are read.  Behind the table lies something else. -/
def addMonths (months : List Nat) (beyond : Nat → Nat) : Nat → Nat × List Nat
  | 0 => (0, [])
  | month + 1 =>
    let before := addMonths months beyond month
    (before.1 + months.getD month (beyond month), before.2 ++ [month])

/-- What `dos2unixtime` leaves: what it remembers, the time, the date it was
given, which may get another month, and the entries of the tables it has
read. -/
structure Unixtime where
  memory : Remembered
  tvSec : BitVec 32
  date : DosDate
  reads : List Nat

def DosTime.seconds (time : DosTime) : Nat :=
  (time.twoSeconds.toNat <<< 1) + time.minutes.toNat * 60 + time.hours.toNat * 60 * 60

/-- The month that counts: month 0 is taken for the first. -/
def DosDate.countedMonth (date : DosDate) : BitVec 4 :=
  if date.month = 0 then 1 else date.month

def DosDate.monthsBefore (date : DosDate) (beyond : Nat → Nat) : Nat × List Nat :=
  addMonths (monthsOf date.year.toNat) beyond (date.countedMonth.toNat - 1)

/-- The seconds up to the beginning of a date; the day counts in an
`unsigned long`. -/
def DosDate.seconds (date : DosDate) (beyond : Nat → Nat) : BitVec 32 := (BitVec.ofNat 32
    (daysOfYears 0 date.year.toNat + (date.monthsBefore beyond).1) +
    BitVec.ofNat 32 date.day.toNat - 1) * BitVec.ofNat 32 (24 * 60 * 60) +
    BitVec.ofNat 32 secondsTo1980

def dos2unixtime (memory : Remembered) (date : DosDate) (time : DosTime)
    (beyond : Nat → Nat) : Unixtime :=
  let known := decide (memory.lastdosdate = date)
  let next :=
    if known then memory
    else
      { memory with
        lastdosdate := date
        lastseconds := date.seconds beyond }
  { memory := next
    tvSec := BitVec.ofNat 32 time.seconds + next.lastseconds + BitVec.ofNat 32 (minutesWest * 60)
    date := if known then date else { date with month := date.countedMonth }
    reads := if known then [] else (date.monthsBefore beyond).2 }

/-- A conversion, either way; the one from a directory is given what lies
behind the table. -/
inductive Conversion where
  | toDos (tvSec : BitVec 32)
  | toUnix (date : DosDate) (time : DosTime) (beyond : Nat → Nat)

def Conversion.perform (memory : Remembered) : Conversion → Remembered
  | .toDos tvSec => unix2dostime memory tvSec
  | .toUnix date time beyond => (dos2unixtime memory date time beyond).memory

def Remembered.after (memory : Remembered) (conversions : List Conversion) : Remembered :=
  conversions.foldl Conversion.perform memory

theorem and_three (number : Nat) : number &&& 3 = number % 4 := and_two_pow_sub_one_eq_mod number 2

theorem yearDays_add (year : Nat) : yearDays (1980 + year) = yearDays year ∧
    monthsOf (1980 + year) = monthsOf year := by
  unfold yearDays monthsOf
  rw [and_three, and_three, show (1980 + year) % 4 = year % 4 by omega]
  exact ⟨rfl, rfl⟩

theorem daysOfYears_1980 (count : Nat) : daysOfYears 1980 count = daysOfYears 0 count := by
  induction count with
  | zero => rfl
  | succ count ih => rw [daysOfYears, daysOfYears, ih, (yearDays_add count).1, Nat.zero_add]

theorem daysOfYears_head (first count : Nat) : daysOfYears first (count + 1) =
    yearDays first + daysOfYears (first + 1) count := by
  induction count with
  | zero => simp [daysOfYears]
  | succ count ih =>
    rw [daysOfYears, ih, daysOfYears, show first + 1 + count = first + (count + 1) by omega]
    omega

theorem daysOfYears_add (first early late : Nat) : daysOfYears first (early + late) =
    daysOfYears first early + daysOfYears (first + early) late := by
  induction late with
  | zero => rfl
  | succ late ih =>
    rw [← Nat.add_assoc, daysOfYears, ih, daysOfYears, Nat.add_assoc first early late]
    omega

theorem le_daysOfYears (first count : Nat) : 365 * count ≤ daysOfYears first count := by
  induction count with
  | zero => exact Nat.le_refl 0
  | succ count ih =>
    have least : 365 ≤ yearDays (first + count) := by
      unfold yearDays
      split <;> omega
    rw [daysOfYears]
    omega

/-- **The loop over the years** finds the year that the day is in. -/
theorem findYear_spec (year days : Nat) : ∃ count, (findYear year days).1 = year + count ∧
    days = daysOfYears year count + (findYear year days).2 ∧
    (findYear year days).2 < yearDays (year + count) := by
  induction year, days using findYear.induct with
  | case1 year days inside =>
    refine ⟨0, ?_⟩
    rw [findYear, if_pos inside]
    exact ⟨rfl, by simp [daysOfYears], inside⟩
  | case2 year days outside ih =>
    obtain ⟨count, found, split, inside⟩ := ih
    refine ⟨count + 1, ?_⟩
    rw [findYear, if_neg outside, daysOfYears_head]
    refine ⟨by omega, by omega, ?_⟩
    rw [show year + (count + 1) = year + 1 + count by omega]
    exact inside

variable {days : Nat} {memory : Remembered}

/-- **The loop over the months** finds the month that the day is in. -/
theorem findMonth_spec (months : List Nat) (month : Nat) (within : days < months.sum) :
    ∃ count, ∃ inTable : count < months.length, (findMonth months month days).1 = month + count ∧
      days = (months.take count).sum + (findMonth months month days).2 ∧
      (findMonth months month days).2 < months[count] := by
  induction months generalizing month days with
  | nil => exact absurd within (Nat.not_lt_zero days)
  | cons length rest ih =>
    rw [findMonth]
    by_cases inside : days < length
    · rw [if_pos inside]
      exact ⟨0, succ_pos _, rfl, by simp, inside⟩
    · rw [sum_cons] at within
      obtain ⟨count, inTable, found, split, bounded⟩ :=
        ih (month + 1) (by omega : days - length < rest.sum)
      refine ⟨count + 1, succ_lt_succ inTable, ?_, ?_, ?_⟩
      · rw [if_neg inside]
        omega
      · rw [if_neg inside, take_succ_cons, sum_cons]
        omega
      · rw [if_neg inside]
        exact bounded

theorem addMonths_spec (months : List Nat) (beyond : Nat → Nat) (count : Nat) :
    (addMonths months beyond count).2 = range count ∧ (count ≤ months.length →
      (addMonths months beyond count).1 = (months.take count).sum) := by
  induction count with
  | zero => exact ⟨rfl, fun _ => by simp [addMonths]⟩
  | succ count ih =>
    obtain ⟨reads, added⟩ := ih
    refine ⟨?_, fun within => ?_⟩
    · rw [addMonths, reads, range_succ]
    · rw [addMonths, added (by omega), take_succ_eq_append_getElem within, List.sum_append_nat,
        sum_singleton, getD_eq_getElem _ _ within]

theorem monthsOf_spec (year : Nat) :
    (monthsOf year).length = 12 ∧ (monthsOf year).sum = yearDays year ∧
      ∀ length ∈ monthsOf year, length ≤ 31 := by
  unfold monthsOf yearDays
  split <;> decide

theorem dateOfDays_spec (from1980 : 3652 ≤ days) (fits : days * 86400 < 2 ^ 32) :
    ∃ year month left, year < 128 ∧ month < 12 ∧ left < 31 ∧ days =
      3652 + daysOfYears 0 year + ((monthsOf year).take month).sum + left ∧
      dateOfDays days = ⟨BitVec.ofNat 5 (left + 1), BitVec.ofNat 4 (month + 1),
        BitVec.ofNat 7 year⟩ := by
  obtain ⟨count, foundYear, splitYear, inYear⟩ := findYear_spec 1970 days
  have table := monthsOf_spec (1970 + count)
  obtain ⟨month, inTable, foundMonth, splitMonth, inMonth⟩ :=
    findMonth_spec (monthsOf (1970 + count)) 0 (by rw [table.2.1]; exact inYear)
  have short := lt_of_lt_of_le inMonth (table.2.2 _ (getElem_mem inTable))
  clear inMonth
  rw [table.1] at inTable
  -- the year is one of those from 1980 to 2106
  have ten : daysOfYears 1970 10 = 3652 := rfl
  have later : 10 ≤ count := by
    by_contra before
    have split := daysOfYears_add 1970 (count + 1) (10 - (count + 1))
    rw [show count + 1 + (10 - (count + 1)) = 10 by omega, ten, daysOfYears] at split
    omega
  obtain ⟨year, rfl⟩ := Nat.exists_eq_add_of_le later
  have split := daysOfYears_add 1970 10 year
  rw [ten, daysOfYears_1980] at split
  have atLeast := le_daysOfYears 1970 (10 + year)
  have same : 1970 + (10 + year) = 1980 + year := by omega
  rw [same, (yearDays_add year).2] at foundMonth splitMonth short
  refine ⟨year, month, _, by omega, inTable, short, by omega, ?_⟩
  · have notEarly : ¬1980 + year < 1980 := by omega
    simp only [dateOfDays, foundYear, same, (yearDays_add year).2, foundMonth,
      Nat.zero_add, if_neg notEarly, Nat.add_sub_cancel_left]

/-- **A day and its date**: the seconds up to the beginning of the date of a day
from 1980 on are those of the day, and its month is in the table. -/
theorem seconds_dateOfDays {days : Nat} (from1980 : 3652 ≤ days) (fits : days * 86400 < 2 ^ 32)
    (beyond : Nat → Nat) : (dateOfDays days).seconds beyond = BitVec.ofNat 32 (days * 86400) ∧
      1 ≤ (dateOfDays days).month.toNat ∧ (dateOfDays days).month.toNat ≤ 12 := by
  obtain ⟨year, month, left, yearBound, monthBound, leftBound, split, date⟩ :=
    dateOfDays_spec from1980 fits
  have monthValue : (BitVec.ofNat 4 (month + 1)).toNat = month + 1 := by
    rw [BitVec.toNat_ofNat]
    omega
  have notZero : BitVec.ofNat 4 (month + 1) ≠ 0 := by
    intro zero
    rw [zero] at monthValue
    cases monthValue
  have yearValue : (BitVec.ofNat 7 year).toNat = year := by
    rw [BitVec.toNat_ofNat]
    omega
  have dayValue : (BitVec.ofNat 5 (left + 1)).toNat = left + 1 := by
    rw [BitVec.toNat_ofNat]
    omega
  rw [date]
  refine ⟨?_, ?_, ?_⟩
  · have added := (addMonths_spec (monthsOf year) beyond month).2
        (by rw [(monthsOf_spec year).1]; omega)
    unfold DosDate.seconds DosDate.monthsBefore DosDate.countedMonth
    simp only [if_neg notZero, monthValue, yearValue, dayValue, Nat.add_sub_cancel]
    rw [added]
    have begins : BitVec.ofNat 32 (daysOfYears 0 year + ((monthsOf year).take month).sum) +
        BitVec.ofNat 32 (left + 1) - 1 = BitVec.ofNat 32 (days - 3652) := by
      rw [← BitVec.ofNat_add, ← Nat.add_assoc, BitVec.ofNat_add _ 1]
      refine (BitVec.add_sub_cancel _ _).trans ?_
      exact congrArg (BitVec.ofNat 32) (by omega)
    rw [begins, ← BitVec.ofNat_mul, ← BitVec.ofNat_add]
    refine congrArg (BitVec.ofNat 32) ?_
    unfold secondsTo1980
    omega
  · rw [monthValue]
    omega
  · rw [monthValue]
    omega

theorem seconds_timeOfSeconds {seconds : Nat} (even : seconds % 2 = 0) :
    (timeOfSeconds seconds).seconds = seconds % 86400 := by
  have halves : (seconds % 60) >>> 1 = seconds % 60 / 2 := shiftRight_one _
  have twice : (seconds % 60 / 2) <<< 1 = seconds % 60 := by omega
  have twoSeconds : seconds % 60 / 2 % 2 ^ 5 = seconds % 60 / 2 := mod_eq_of_lt (by omega)
  have minutes : seconds / 60 % 60 % 2 ^ 6 = seconds / 60 % 60 := mod_eq_of_lt (by omega)
  have hours : seconds / (60 * 60) % 24 % 2 ^ 5 = seconds / (60 * 60) % 24 :=
    mod_eq_of_lt (by omega)
  unfold DosTime.seconds timeOfSeconds
  simp only [BitVec.toNat_ofNat]
  omega

/-- What is remembered is what the last conversions came to. -/
structure Remembered.Coherent (memory : Remembered) : Prop where
  day : memory.lastday = memory.lasttime.toNat / 86400
  date : memory.lastday = 0 ∨ memory.lastddate = dateOfDays memory.lastday
  time : memory.lastdtime = timeOfSeconds memory.lasttime.toNat
  seconds : 1 ≤ memory.lastdosdate.month.toNat → memory.lastdosdate.month.toNat ≤ 12 →
      ∀ beyond, memory.lastseconds = memory.lastdosdate.seconds beyond

theorem DosDate.seconds_congr {date : DosDate} (inTable : date.month.toNat ≤ 13)
    (beyond other : Nat → Nat) : date.seconds beyond = date.seconds other := by
  have counted : date.countedMonth.toNat - 1 ≤ 12 := by
    unfold DosDate.countedMonth
    split
    · decide
    · omega
  have length := (monthsOf_spec date.year.toNat).1
  have one := (addMonths_spec (monthsOf date.year.toNat) beyond
      (date.countedMonth.toNat - 1)).2 (by omega)
  have two := (addMonths_spec (monthsOf date.year.toNat) other
      (date.countedMonth.toNat - 1)).2 (by omega)
  unfold DosDate.seconds DosDate.monthsBefore
  rw [one, two]

theorem coherent_start : Remembered.start.Coherent where
  day := rfl
  date := .inl rfl
  time := rfl
  seconds := fun from1 => absurd from1 (by decide)

theorem Remembered.Coherent.unix2dostime (coherent : memory.Coherent) (tvSec : BitVec 32) :
    (unix2dostime memory tvSec).Coherent ∧ (Times.unix2dostime memory tvSec).lasttime = tvSec := by
  unfold Times.unix2dostime
  by_cases same : memory.lasttime = tvSec
  · rw [if_neg (not_not.2 same)]
    exact ⟨coherent, same⟩
  · rw [if_pos same]
    have zone : tvSec - BitVec.ofNat 32 (minutesWest * 60) = tvSec := BitVec.sub_zero tvSec
    refine ⟨?_, zone⟩
    refine { day := rfl, date := ?_, time := rfl, seconds := coherent.seconds }
    unfold Remembered.convert
    rw [zone]
    by_cases sameDay : tvSec.toNat / (24 * 60 * 60) = memory.lastday
    · simp only [sameDay, ne_eq, not_true_eq_false, ↓reduceIte]
      exact coherent.date
    · simp only [sameDay, ne_eq, not_false_eq_true, ↓reduceIte]
      simp

theorem Remembered.Coherent.dos2unixtime (coherent : memory.Coherent) (date : DosDate)
    (time : DosTime) (beyond : Nat → Nat) :
    (dos2unixtime memory date time beyond).memory.Coherent := by
  unfold Times.dos2unixtime
  by_cases known : memory.lastdosdate = date
  · simp only [known, decide_true, ↓reduceIte]
    exact coherent
  · simp only [known, decide_false, Bool.false_eq_true, ↓reduceIte]
    refine
      { day := coherent.day, date := coherent.date, time := coherent.time
        seconds := ?_ }
    intro _ inTable other
    exact DosDate.seconds_congr (le_succ_of_le inTable) beyond other

theorem Remembered.Coherent.after (coherent : memory.Coherent) (conversions : List Conversion) :
    (memory.after conversions).Coherent := by
  induction conversions generalizing memory with
  | nil => exact coherent
  | cons conversion rest ih =>
    refine ih ?_
    cases conversion with
    | toDos tvSec => exact (coherent.unix2dostime tvSec).1
    | toUnix date time beyond => exact coherent.dos2unixtime date time beyond

/-- A time from 1980 on with even seconds comes back from its date, whatever is
converted before and in between. -/
def RoundTrips (memory : Remembered) : Prop :=
  ∀ tvSec : BitVec 32, secondsTo1980 ≤ tvSec.toNat → tvSec.toNat % 2 = 0 → ∀ between beyond,
      let made := unix2dostime memory tvSec
      (dos2unixtime (made.after between) made.lastddate made.lastdtime beyond).tvSec = tvSec

/-- Every read for a date is inside the table of months. -/
def ReadsInside (memory : Remembered) (date : DosDate) (time : DosTime) : Prop :=
  ∀ beyond, ∀ index ∈ (dos2unixtime memory date time beyond).reads,
    index < (monthsOf date.year.toNat).length

/-- **Times come back.** -/
theorem Remembered.Coherent.roundTrips (coherent : memory.Coherent) : RoundTrips memory := by
  intro tvSec from1980 even between beyond
  obtain ⟨made, lasttime⟩ := coherent.unix2dostime tvSec
  generalize Times.unix2dostime memory tvSec = memory at made lasttime ⊢
  have later := made.after between
  unfold secondsTo1980 at from1980
  have days : memory.lastday = tvSec.toNat / 86400 := by rw [made.day, lasttime]
  have date : memory.lastddate = dateOfDays memory.lastday := made.date.resolve_left (by omega)
  obtain ⟨seconds, from1, inTable⟩ :=
    @seconds_dateOfDays memory.lastday (by omega) (by omega) beyond
  rw [← date] at seconds from1 inTable
  have time : memory.lastdtime.seconds = tvSec.toNat % 86400 := by
    rw [made.time, lasttime, seconds_timeOfSeconds even]
  -- the seconds of the date are remembered or computed
  have dateSeconds : (Times.dos2unixtime (memory.after between) memory.lastddate
      memory.lastdtime beyond).memory.lastseconds = BitVec.ofNat 32 (memory.lastday * 86400) := by
    unfold Times.dos2unixtime
    by_cases known : (memory.after between).lastdosdate = memory.lastddate
    · simp only [known, decide_true, ↓reduceIte]
      rw [← seconds, ← known]
      exact later.seconds (known ▸ from1) (known ▸ inTable) beyond
    · simp only [known, decide_false, Bool.false_eq_true, ↓reduceIte]
      exact seconds
  have sum : (Times.dos2unixtime (memory.after between) memory.lastddate memory.lastdtime
      beyond).tvSec = BitVec.ofNat 32 memory.lastdtime.seconds +
        (Times.dos2unixtime (memory.after between) memory.lastddate
          memory.lastdtime beyond).memory.lastseconds :=
    BitVec.add_zero _
  refine sum.trans ?_
  rw [dateSeconds, time, ← BitVec.ofNat_add, days, Nat.mul_comm, mod_add_div]
  exact (BitVec.ofNat_toNat 32 tvSec).trans (BitVec.setWidth_eq tvSec)

theorem readsInside_iff (memory : Remembered) (date : DosDate) (time : DosTime) :
    ReadsInside memory date time ↔ date.month.toNat ≤ 13 ∨ memory.lastdosdate = date := by
  unfold ReadsInside dos2unixtime
  rw [(monthsOf_spec date.year.toNat).1]
  by_cases known : memory.lastdosdate = date
  · simp [known]
  · have reads (beyond : Nat → Nat) : (date.monthsBefore beyond).2 =
        range (date.countedMonth.toNat - 1) :=
      (addMonths_spec _ beyond _).1
    have counted : date.countedMonth.toNat - 1 ≤ 12 ↔ date.month.toNat ≤ 13 := by
      unfold DosDate.countedMonth
      split
      case isTrue zero => simp [zero]
      case isFalse => omega
    simp only [known, decide_false, Bool.false_eq_true, ↓reduceIte, reads, mem_range, or_false]
    constructor
    · intro inside
      by_contra outside
      exact absurd (inside (fun _ => 0) 12 (by omega)) (Nat.lt_irrefl 12)
    · intro inTable _ index read
      omega

/-- **The conversions of times are right**, whatever was converted before,
exactly for a date whose month is at most 13 or that was the last one. -/
theorem conversions_right_iff (before : List Conversion) (date : DosDate) (time : DosTime) :
    RoundTrips (Remembered.start.after before) ∧
      ReadsInside (Remembered.start.after before) date time ↔
      date.month.toNat ≤ 13 ∨ (Remembered.start.after before).lastdosdate = date := by
  have trips := (coherent_start.after before).roundTrips
  rw [readsInside_iff]
  exact and_iff_right trips

theorem reads_month14 : ¬ReadsInside (Remembered.start.after []) ⟨1, 14, 0⟩ ⟨0, 0, 0⟩ := by
  intro inside
  have read := inside (fun _ => 0) 12 (by decide)
  exact absurd read (by decide)

end Uw7.Dosfs.Times
