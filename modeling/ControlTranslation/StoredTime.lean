import ControlTranslation.LifecycleStore
import Mathlib.Order.Compare
import Mathlib.Tactic.IntervalCases

/-!
# Stored instants

The lifecycle tables hold instants as the texts of `datetime.isoformat()` and compare
them as texts: byte by byte, the shorter first where one is a prefix of the other.  The
fields of a date have fixed widths, so the texts are compared field by field; only the
fraction may be missing, and then the sign of the offset stands where the point would,
which is less than a point.
-/

namespace StoredTime

open PyText

/-- The default collation: bytes first, then lengths. -/
def memcmp : List Nat → List Nat → Ordering
  | [], [] => .eq
  | [], _ :: _ => .lt
  | _ :: _, [] => .gt
  | a :: s, b :: t => (compare a b).then (memcmp s t)

/-- How the database compares two texts. -/
def sqlCompare (s t : Str) : Ordering := memcmp (s.flatMap utf8) (t.flatMap utf8)

theorem memcmp_self (s : List Nat) : memcmp s s = .eq := by
  induction s with
  | nil => rfl
  | cons a s ih => rw [memcmp, ih, compare_eq_iff_eq.mpr rfl, Ordering.eq_then]

/-- Texts of one length are compared before what follows them. -/
theorem memcmp_append {a b : List Nat} (h : a.length = b.length) (s t : List Nat) :
    memcmp (a ++ s) (b ++ t) = (memcmp a b).then (memcmp s t) := by
  induction a generalizing b with
  | nil =>
      obtain rfl := List.eq_nil_of_length_eq_zero h.symm
      rfl
  | cons x a ih =>
      cases b with
      | nil => cases h
      | cons y b =>
          rw [List.cons_append, List.cons_append, memcmp, memcmp, ih (Nat.succ.inj h),
            Ordering.then_assoc]

/-- A common beginning decides nothing. -/
theorem memcmp_append_left (a s t : List Nat) : memcmp (a ++ s) (a ++ t) = memcmp s t := by
  rw [memcmp_append rfl, memcmp_self, Ordering.eq_then]

theorem compare_add_left (a n m : Nat) : compare (a + n) (a + m) = compare n m := by
  rcases Nat.lt_trichotomy n m with h | rfl | h
  · rw [compare_lt_iff_lt.mpr h, compare_lt_iff_lt.mpr (Nat.add_lt_add_left h a)]
  · rw [compare_eq_iff_eq.mpr rfl, compare_eq_iff_eq.mpr rfl]
  · rw [compare_gt_iff_gt.mpr h, compare_gt_iff_gt.mpr (Nat.add_lt_add_left h a)]

/-- Numbers in a mixed base are compared digit by digit. -/
theorem compare_mul_add {k n m i j : Nat} (hi : i < k) (hj : j < k) :
    compare (n * k + i) (m * k + j) = (compare n m).then (compare i j) := by
  rcases Nat.lt_trichotomy n m with h | rfl | h
  · rw [compare_lt_iff_lt.mpr h, Ordering.lt_then]
    refine compare_lt_iff_lt.mpr ?_
    calc n * k + i < n * k + k := Nat.add_lt_add_left hi _
      _ = (n + 1) * k := (Nat.succ_mul n k).symm
      _ ≤ m * k := Nat.mul_le_mul_right k h
      _ ≤ m * k + j := Nat.le_add_right _ _
  · rw [compare_eq_iff_eq.mpr rfl, Ordering.eq_then, compare_add_left]
  · rw [compare_gt_iff_gt.mpr h, Ordering.gt_then]
    refine compare_gt_iff_gt.mpr ?_
    calc m * k + j < m * k + k := Nat.add_lt_add_left hj _
      _ = (m + 1) * k := (Nat.succ_mul m k).symm
      _ ≤ n * k := Nat.mul_le_mul_right k h
      _ ≤ n * k + i := Nat.le_add_right _ _

/-- `%0wd` of a number of at most `w` digits. -/
def padded : Nat → Nat → Str
  | 0, _ => []
  | w + 1, n => padded w (n / 10) ++ [Nat.digitChar (n % 10)]

theorem utf8_digitChar {d : Nat} (h : d < 10) : utf8 (Nat.digitChar d) = [48 + d] := by
  interval_cases d <;> rfl

/-- The bytes of a padded number. -/
def paddedBytes : Nat → Nat → List Nat
  | 0, _ => []
  | w + 1, n => paddedBytes w (n / 10) ++ [48 + n % 10]

theorem bytes_padded (w n : Nat) : (padded w n).flatMap utf8 = paddedBytes w n := by
  induction w generalizing n with
  | zero => rfl
  | succ w ih =>
      rw [padded, paddedBytes, List.flatMap_append, ih, List.flatMap_singleton,
        utf8_digitChar (Nat.mod_lt n (by decide))]

theorem length_paddedBytes (w n : Nat) : (paddedBytes w n).length = w := by
  induction w generalizing n with
  | zero => rfl
  | succ w ih => rw [paddedBytes, List.length_append, ih, List.length_singleton]

/-- Padded numbers are compared as the numbers are. -/
theorem memcmp_padded {w n m : Nat} (hn : n < 10 ^ w) (hm : m < 10 ^ w) :
    memcmp (paddedBytes w n) (paddedBytes w m) = compare n m := by
  induction w generalizing n m with
  | zero =>
      obtain rfl : n = 0 := by omega
      obtain rfl : m = 0 := by omega
      rfl
  | succ w ih =>
      have hlength : (paddedBytes w (n / 10)).length = (paddedBytes w (m / 10)).length := by
        rw [length_paddedBytes, length_paddedBytes]
      have hdigit : memcmp [48 + n % 10] [48 + m % 10] = compare (n % 10) (m % 10) := by
        rw [memcmp, memcmp, Ordering.then_eq, compare_add_left]
      rw [paddedBytes, paddedBytes, memcmp_append hlength, ih (by omega) (by omega), hdigit,
        ← compare_mul_add (Nat.mod_lt n (by decide)) (Nat.mod_lt m (by decide)),
        Nat.div_add_mod', Nat.div_add_mod']

/-- `_is_leap`. -/
def isLeap (year : Nat) : Bool := year % 4 == 0 && (year % 100 != 0 || year % 400 == 0)

/-- `_days_in_month`, by whether the year is a leap year. -/
def daysInMonth (leap : Bool) (month : Nat) : Nat :=
  if month = 2 && leap then 29
  else [0, 31, 28, 31, 30, 31, 30, 31, 31, 30, 31, 30, 31].getD month 0

/-- `_days_before_month`, by whether the year is a leap year. -/
def daysBeforeMonth (leap : Bool) (month : Nat) : Nat :=
  [0, 0, 31, 59, 90, 120, 151, 181, 212, 243, 273, 304, 334].getD month 0 +
    if 2 < month && leap then 1 else 0

/-- `_days_before_year`. -/
def daysBeforeYear (year : Nat) : Nat :=
  (year - 1) * 365 + (year - 1) / 4 - (year - 1) / 100 + (year - 1) / 400

/-- A `datetime` in UTC. -/
structure Datetime where
  year : Nat
  month : Nat
  day : Nat
  hour : Nat
  minute : Nat
  second : Nat
  microsecond : Nat
  year_ok : 1 ≤ year ∧ year ≤ 9999
  month_ok : 1 ≤ month ∧ month ≤ 12
  day_ok : 1 ≤ day ∧ day ≤ daysInMonth (isLeap year) month
  hour_ok : hour < 24
  minute_ok : minute < 60
  second_ok : second < 60
  microsecond_ok : microsecond < 1000000
  deriving DecidableEq, Repr

/-- `toordinal`: the days since the first of January of year 1, which is day 1. -/
def Datetime.toordinal (t : Datetime) : Nat :=
  daysBeforeYear t.year + daysBeforeMonth (isLeap t.year) t.month + t.day

/-- The microseconds since the beginning of day 0. -/
def Datetime.ticks (t : Datetime) : Nat :=
  (((t.toordinal * 24 + t.hour) * 60 + t.minute) * 60 + t.second) * 1000000 + t.microsecond

/-- The fraction and the offset. -/
def fractionText (microsecond : Nat) : Str :=
  (if microsecond = 0 then [] else '.' :: padded 6 microsecond) ++ "+00:00".toList

/-- `isoformat()`. -/
def Datetime.isoformat (t : Datetime) : Str :=
  padded 4 t.year ++ '-' :: (padded 2 t.month ++ '-' :: (padded 2 t.day ++ 'T' ::
    (padded 2 t.hour ++ ':' :: (padded 2 t.minute ++ ':' :: (padded 2 t.second ++
      fractionText t.microsecond)))))

theorem daysInMonth_le (leap : Bool) {month : Nat} (h : month ≤ 12) :
    daysInMonth leap month ≤ 31 := by
  have hall : ∀ leap : Bool, ∀ month < 13, daysInMonth leap month ≤ 31 := by decide
  exact hall leap month (by omega)

/-- A month ends before a later one begins. -/
theorem month_before (leap : Bool) {m m' : Nat} (h : m < m') (hm' : m' ≤ 12) :
    daysBeforeMonth leap m + daysInMonth leap m ≤ daysBeforeMonth leap m' := by
  have hall : ∀ leap : Bool, ∀ m' < 13, ∀ m < m',
      daysBeforeMonth leap m + daysInMonth leap m ≤ daysBeforeMonth leap m' := by decide
  exact hall leap m' (by omega) m h

/-- A month ends before its year does. -/
theorem month_in_year (leap : Bool) {m : Nat} (hm : m ≤ 12) :
    daysBeforeMonth leap m + daysInMonth leap m ≤ 365 + leap.toNat := by
  have hall : ∀ leap : Bool, ∀ m < 13,
      daysBeforeMonth leap m + daysInMonth leap m ≤ 365 + leap.toNat := by decide
  exact hall leap m (by omega)

theorem isLeap_toNat (year : Nat) : (isLeap year).toNat =
    if year % 4 = 0 then
      if year % 100 = 0 then if year % 400 = 0 then 1 else 0 else 1
    else 0 := by
  unfold isLeap
  split_ifs with hquarter hcentury hcycle
  · rw [hquarter, hcentury, hcycle]
    rfl
  · rw [hquarter, hcentury, beq_false_of_ne hcycle]
    rfl
  · rw [hquarter, bne_iff_ne.mpr hcentury]
    rfl
  · rw [beq_false_of_ne hquarter]
    rfl

/-- A year has 365 days, or one more. -/
theorem daysBeforeYear_succ {year : Nat} (h : 1 ≤ year) :
    daysBeforeYear (year + 1) = daysBeforeYear year + (365 + (isLeap year).toNat) := by
  obtain ⟨n, rfl⟩ := Nat.exists_eq_add_of_le' h
  have hquarter : (n + 1) / 4 = n / 4 + if (n + 1) % 4 = 0 then 1 else 0 := by
    split_ifs <;> omega
  have hcentury : (n + 1) / 100 = n / 100 + if (n + 1) % 100 = 0 then 1 else 0 := by
    split_ifs <;> omega
  have hcycle : (n + 1) / 400 = n / 400 + if (n + 1) % 400 = 0 then 1 else 0 := by
    split_ifs <;> omega
  have hfewer : n / 100 ≤ n / 4 := by omega
  unfold daysBeforeYear
  rw [Nat.add_sub_cancel, Nat.add_sub_cancel, hquarter, hcentury, hcycle]
  rw [isLeap_toNat]
  split_ifs <;> omega

theorem daysBeforeYear_mono {y y' : Nat} (hy : 1 ≤ y) (h : y ≤ y') :
    daysBeforeYear y ≤ daysBeforeYear y' := by
  induction h with
  | refl => exact le_rfl
  | step hstep ih =>
      rw [daysBeforeYear_succ (hy.trans hstep)]
      exact ih.trans (Nat.le_add_right _ _)

/-- A year ends before a later one begins. -/
theorem year_before {y y' : Nat} (hy : 1 ≤ y) (h : y < y') :
    daysBeforeYear y + (365 + (isLeap y).toNat) ≤ daysBeforeYear y' := by
  rw [← daysBeforeYear_succ hy]
  exact daysBeforeYear_mono (Nat.succ_pos y) h

/-- A date before another, field by field, is before it in days. -/
theorem toordinal_lt {t u : Datetime}
    (h : (compare t.year u.year).then ((compare t.month u.month).then (compare t.day u.day)) =
      .lt) : t.toordinal < u.toordinal := by
  have hmonth : daysBeforeMonth (isLeap t.year) t.month + daysInMonth (isLeap t.year) t.month ≤
      365 + (isLeap t.year).toNat := month_in_year _ t.month_ok.2
  have hday := t.day_ok.2
  have hday' := u.day_ok.1
  unfold Datetime.toordinal
  rcases Ordering.then_eq_lt.mp h with hyear | ⟨hyear, hrest⟩
  · have hbefore := year_before t.year_ok.1 (compare_lt_iff_lt.mp hyear)
    omega
  · rw [compare_eq_iff_eq.mp hyear] at hday hmonth ⊢
    rcases Ordering.then_eq_lt.mp hrest with hearlier | ⟨hsame, hless⟩
    · have hbefore := month_before (isLeap u.year) (compare_lt_iff_lt.mp hearlier) u.month_ok.2
      omega
    · rw [compare_eq_iff_eq.mp hsame]
      exact Nat.add_lt_add_left (compare_lt_iff_lt.mp hless) _

/-- **Dates.**  Dates are ordered field by field as their days are. -/
theorem compare_toordinal (t u : Datetime) :
    compare t.toordinal u.toordinal =
      (compare t.year u.year).then ((compare t.month u.month).then (compare t.day u.day)) := by
  cases hfields : (compare t.year u.year).then
      ((compare t.month u.month).then (compare t.day u.day)) with
  | lt => exact compare_lt_iff_lt.mpr (toordinal_lt hfields)
  | eq =>
      obtain ⟨hyear, hrest⟩ := Ordering.then_eq_eq.mp hfields
      obtain ⟨hmonth, hday⟩ := Ordering.then_eq_eq.mp hrest
      unfold Datetime.toordinal
      rw [compare_eq_iff_eq.mp hyear, compare_eq_iff_eq.mp hmonth, compare_eq_iff_eq.mp hday]
      exact compare_eq_iff_eq.mpr rfl
  | gt =>
      refine compare_gt_iff_gt.mpr (toordinal_lt ?_)
      have hswap := congrArg Ordering.swap hfields
      rw [Ordering.swap_then, Ordering.swap_then, Nat.compare_swap, Nat.compare_swap,
        Nat.compare_swap] at hswap
      exact hswap

/-- Instants are ordered field by field. -/
theorem compare_ticks (t u : Datetime) :
    compare t.ticks u.ticks =
      (compare t.toordinal u.toordinal).then ((compare t.hour u.hour).then
        ((compare t.minute u.minute).then ((compare t.second u.second).then
          (compare t.microsecond u.microsecond)))) := by
  unfold Datetime.ticks
  rw [compare_mul_add t.microsecond_ok u.microsecond_ok,
    compare_mul_add t.second_ok u.second_ok, compare_mul_add t.minute_ok u.minute_ok,
    compare_mul_add t.hour_ok u.hour_ok]
  simp only [Ordering.then_assoc]

/-- Two texts that begin with padded numbers and one separator. -/
theorem memcmp_field {w n m : Nat} (hn : n < 10 ^ w) (hm : m < 10 ^ w) (separator : Char)
    (s t : Str) :
    memcmp ((padded w n ++ separator :: s).flatMap utf8)
        ((padded w m ++ separator :: t).flatMap utf8) =
      (compare n m).then (memcmp (s.flatMap utf8) (t.flatMap utf8)) := by
  have hlength : (paddedBytes w n).length = (paddedBytes w m).length := by
    rw [length_paddedBytes, length_paddedBytes]
  rw [List.flatMap_append, List.flatMap_append, bytes_padded, bytes_padded,
    memcmp_append hlength, memcmp_padded hn hm, List.flatMap_cons, List.flatMap_cons,
    memcmp_append_left]

/-- The texts of a fraction, which may be missing. -/
theorem memcmp_fraction {n m : Nat} (hn : n < 1000000) (hm : m < 1000000) :
    memcmp ((fractionText n).flatMap utf8) ((fractionText m).flatMap utf8) = compare n m := by
  have hwidth : n < 10 ^ 6 ∧ m < 10 ^ 6 := by omega
  have hlength : (paddedBytes 6 n).length = (paddedBytes 6 m).length := by
    rw [length_paddedBytes, length_paddedBytes]
  have hpoint : ∀ k, (fractionText k).flatMap utf8 =
      if k = 0 then "+00:00".toList.flatMap utf8
      else 46 :: (paddedBytes 6 k ++ "+00:00".toList.flatMap utf8) := by
    intro k
    unfold fractionText
    split_ifs
    · rfl
    · rw [List.cons_append, List.flatMap_cons, List.flatMap_append, bytes_padded]
      rfl
  rw [hpoint, hpoint]
  split_ifs with hnone hnone' hnone'
  · rw [hnone, hnone', memcmp_self]
    rfl
  · -- The sign of the offset against the point.
    rw [hnone, compare_lt_iff_lt.mpr (Nat.pos_of_ne_zero hnone')]
    rfl
  · rw [hnone', compare_gt_iff_gt.mpr (Nat.pos_of_ne_zero hnone)]
    rfl
  · rw [memcmp, memcmp_append hlength, memcmp_padded hwidth.1 hwidth.2, memcmp_self,
      Ordering.then_eq, compare_eq_iff_eq.mpr rfl, Ordering.eq_then]

/-- **Stored instants.**  The database orders the texts of two instants as the instants
are. -/
theorem stored_instants_ordered (t u : Datetime) :
    sqlCompare t.isoformat u.isoformat = compare t.ticks u.ticks := by
  have hwidth : ∀ t : Datetime, t.year < 10 ^ 4 ∧ t.month < 10 ^ 2 ∧ t.day < 10 ^ 2 ∧
      t.hour < 10 ^ 2 ∧ t.minute < 10 ^ 2 ∧ t.second < 10 ^ 2 := by
    intro t
    have hyear := t.year_ok.2
    have hmonth := t.month_ok.2
    have hday := t.day_ok.2.trans (daysInMonth_le (isLeap t.year) hmonth)
    have hhour := t.hour_ok
    have hminute := t.minute_ok
    have hsecond := t.second_ok
    omega
  obtain ⟨hyear, hmonth, hday, hhour, hminute, hsecond⟩ := hwidth t
  obtain ⟨hyear', hmonth', hday', hhour', hminute', hsecond'⟩ := hwidth u
  have hlength : (paddedBytes 2 t.second).length = (paddedBytes 2 u.second).length := by
    rw [length_paddedBytes, length_paddedBytes]
  have hlast : memcmp ((padded 2 t.second ++ fractionText t.microsecond).flatMap utf8)
      ((padded 2 u.second ++ fractionText u.microsecond).flatMap utf8) =
        (compare t.second u.second).then (compare t.microsecond u.microsecond) := by
    rw [List.flatMap_append, List.flatMap_append, bytes_padded, bytes_padded,
      memcmp_append hlength, memcmp_padded hsecond hsecond',
      memcmp_fraction t.microsecond_ok u.microsecond_ok]
  rw [compare_ticks, compare_toordinal]
  unfold sqlCompare Datetime.isoformat
  rw [memcmp_field hyear hyear', memcmp_field hmonth hmonth', memcmp_field hday hday',
    memcmp_field hhour hhour', memcmp_field hminute hminute', hlast]
  simp only [Ordering.then_assoc]

/-- A lease has expired when it ends before now. -/
theorem expired_iff {r : Lifecycle.Row} {lease now : Nat}
    (h : r.leaseExpiresAt = some (lease : Int)) :
    r.expired now = true ↔ lease < now := by
  simp [Lifecycle.Row.expired, h]

theorem leased_iff {r : Lifecycle.Row} {lease now : Nat}
    (h : r.leaseExpiresAt = some (lease : Int)) :
    r.leased now = true ↔ now ≤ lease := by
  simp [Lifecycle.Row.leased, h]

/-- A lease that is held as a text is expired when the statement finds it so. -/
theorem expired_stored {r : Lifecycle.Row} {t u : Datetime}
    (h : r.leaseExpiresAt = some (t.ticks : Int)) :
    r.expired u.ticks = true ↔ sqlCompare t.isoformat u.isoformat = .lt := by
  rw [stored_instants_ordered, compare_lt_iff_lt]
  exact expired_iff h

/-- Comparing the stored texts tells whether a lease still runs. -/
theorem leased_stored {r : Lifecycle.Row} {t u : Datetime}
    (h : r.leaseExpiresAt = some (t.ticks : Int)) :
    r.leased u.ticks = true ↔ sqlCompare t.isoformat u.isoformat ≠ .lt := by
  rw [stored_instants_ordered, ne_eq, compare_lt_iff_lt, not_lt]
  exact leased_iff h

example : (⟨2024, 2, 29, 23, 59, 59, 0, by decide, by decide, by decide, by decide, by decide,
    by decide, by decide⟩ : Datetime).isoformat = "2024-02-29T23:59:59+00:00".toList := by decide

end StoredTime
