import Czy.Lib.Run
import Czy.Proofs.LocalTime
import Czy.Proofs.ZoneFile
import Czy.Sanity.Logging

/-! The time of a log line: when the text that a thread keeps for a second is the one that
would be made afresh. -/

namespace Czy

namespace TimeZone

/-- Tables that hold what they name, with offsets that are an `int`. -/
structure Data.Sound (data : Data) : Prop extends data.Indexed where
  texts : ∀ ty ∈ data.localtimes, ty.arrbIdx ≤ data.abbreviation.length
  offsets : ∀ ty ∈ data.localtimes, -2 ^ 31 ≤ ty.gmtOffset ∧ ty.gmtOffset < 2 ^ 31

end TimeZone

/-- A time zone for the log: none, or one with sound tables. -/
structure LogZone where
  zone : TimeZone
  sound : ∀ data, zone.data = some data → data.Sound

namespace LogZone

open TimeZone

def invalid : LogZone := ⟨⟨none⟩, fun _ h => by cases h⟩

def fixed (eastOfUtc : Int32) (name : List UInt8) : LogZone where
  zone := ofOffset eastOfUtc.toInt name
  sound := by
    rintro data ⟨⟩
    refine ⟨⟨List.cons_ne_nil _ _, fun tr htr => absurd htr List.not_mem_nil⟩, ?_, ?_⟩
    · intro ty hty
      rw [List.mem_singleton.1 hty]
      exact Nat.zero_le _
    · intro ty hty
      rw [List.mem_singleton.1 hty]
      exact ⟨eastOfUtc.le_toInt, eastOfUtc.toInt_lt⟩

theorem exists_of_file {zonefile : Option (List UInt8)} {data : Data}
    (h : ofZoneFile zonefile = .ok ⟨some data⟩) (hdata : data.Complete) :
    ∃ tz : LogZone, tz.zone = ⟨some data⟩ := by
  obtain ⟨⟨loaded, data'⟩, hread, hzone⟩ := bind_ok.1 h
  obtain ⟨rfl, hcases⟩ := readTimeZoneFile_cases hread
  cases hzone
  rcases hcases with hnone | ⟨bytes, t, -, hvalue, rfl⟩
  · obtain ⟨ty, hty⟩ := List.exists_mem_of_ne_nil _ hdata.localtimes
    have hlt := hdata.arrbIdx ty hty
    rw [hnone] at hlt
    exact absurd hlt (Nat.not_lt_zero _)
  · obtain ⟨tz, -, heq⟩ := readZone_value hvalue hdata.localtimes
    refine ⟨⟨_, ?_⟩, rfl⟩
    rintro _ ⟨⟩
    refine ⟨hdata.toIndexed, fun ty hty => (hdata.arrbIdx ty hty).le, fun ty hty => ?_⟩
    -- the offsets of the file have 32 bits
    rw [heq] at hty
    obtain ⟨ty', -, rfl⟩ := List.mem_map.1 hty
    exact ⟨ty'.gmtoff.le_toInt, ty'.gmtoff.toInt_lt⟩

/-- How far local time is ahead at an instant. -/
def offsetAt (tz : LogZone) (seconds : ℤ) : ℤ :=
  match tz.zone.data with
  | none => 0
  | some data => match findLocaltime data ⟨seconds, 0, 0⟩ ⟨true⟩ with
    | .ok ty => ty.gmtOffset
    | .error _ => 0

end LogZone

namespace Logging

open Logger TimeZone StepRun

/-- What gmtime_r is documented to do, over the instants that a log line can show. -/
def Gmtime (gmtimeR : ℤ → LocalTm) : Prop := ∀ t, -2 ^ 31 ≤ t → t < 2 ^ 44 →
  ∃ time : Gregorian.Time, time.seconds = t ∧ (gmtimeR t).toTm.Shows time

section

variable (gmtimeR : ℤ → LocalTm)

def freshText (zone : TimeZone) (seconds : ℤ) : Except Abort (List UInt8) :=
  (tmTime gmtimeR zone seconds).map fun tm => dateTimeText tm.toTm

end

variable {gmtimeR : ℤ → LocalTm} {tz : LogZone} {seconds : ℤ} {time : Gregorian.Time}

theorem year_lt_iff (time : Gregorian.Time) : time.date.year < 10000 ↔ time.seconds < 253402300800 := by
  have hdiv := time.seconds_div
  have hfirst : Gregorian.dayNumber 10000 1 1 = 5373485 := by decide
  rw [← Gregorian.Date.dayNumber_lt_first_iff, hfirst]
  omega

theorem le_year (h : -2 ^ 31 ≤ time.seconds) : 1000 ≤ time.date.year := by
  have hdiv := time.seconds_div
  have hfirst : Gregorian.dayNumber 1000 1 1 = 2086303 := by decide
  rw [← not_lt, ← Gregorian.Date.dayNumber_lt_first_iff, hfirst]
  omega

theorem offsetAt_of_found {data : Data} {ty : Localtime} (hdata : tz.zone.data = some data)
    (hfound : findLocaltime data ⟨seconds, 0, 0⟩ ⟨true⟩ = .ok ty) :
    tz.offsetAt seconds = ty.gmtOffset := by
  unfold LogZone.offsetAt
  simp only [hdata, hfound]

theorem tmTime_shows (hgmtime : Gmtime gmtimeR) (tz : LogZone) (hlo : 0 ≤ seconds)
    (hhi : seconds < 10 ^ 13) : ∃ tm time, tmTime gmtimeR tz.zone seconds = .ok tm ∧
      tm.toTm.Shows time ∧ time.seconds = seconds + tz.offsetAt seconds ∧
      -2 ^ 31 ≤ time.seconds ∧ time.seconds < 2 ^ 44 := by
  obtain ⟨⟨data⟩, hsound⟩ := tz
  cases data with
  | none =>
    obtain ⟨time, hseconds, hshows⟩ := hgmtime seconds (by omega) (by omega)
    exact ⟨_, time, if_neg Bool.false_ne_true, hshows, hseconds.trans (Int.add_zero _).symm,
      by omega, by omega⟩
  | some data =>
    have hdata := hsound data rfl
    obtain ⟨ty, hty, hfound⟩ := findLocaltime_ok hdata.toIndexed ⟨seconds, 0, 0⟩ ⟨true⟩
    have hoffset := hdata.offsets ty hty
    obtain ⟨name, hlocal⟩ := toLocalTime_of_found hfound (hdata.texts ty hty) gmtimeR
    obtain ⟨time, hseconds, hshows⟩ := hgmtime (seconds + ty.gmtOffset) (by omega) (by omega)
    refine ⟨_, time, (if_pos rfl).trans hlocal, ⟨hshows.year, hshows.mon, hshows.mday,
      hshows.hour, hshows.min, hshows.sec⟩, ?_, by omega, by omega⟩
    rw [offsetAt_of_found rfl hfound, hseconds]

theorem freshText_eq (hgmtime : Gmtime gmtimeR) (tz : LogZone) (hlo : 0 ≤ seconds)
    (hhi : seconds < 10 ^ 13) : ∃ time, freshText gmtimeR tz.zone seconds = .ok (timeText time) ∧
      time.seconds = seconds + tz.offsetAt seconds ∧ 1000 ≤ time.date.year := by
  obtain ⟨tm, time, htm, hshows, hseconds, hlow, hhigh⟩ := tmTime_shows hgmtime tz hlo hhi
  have hdiv := time.seconds_div
  refine ⟨time, ?_, hseconds, le_year hlow⟩
  rw [freshText, htm]
  exact congrArg Except.ok (dateTimeText_of_shows hshows (by omega) (by omega))

/-- A log call at so many microseconds, not before 1970, or another time zone. -/
inductive Op
  | log (microSecondsSince : Fin (2 ^ 63))
  | setTimeZone (tz : LogZone)

def secondOf (microSecondsSince : Fin (2 ^ 63)) : ℤ := (microSecondsSince.val / 1000000 : ℕ)

theorem secondOf_range (m : Fin (2 ^ 63)) : 0 ≤ secondOf m ∧ secondOf m < 10 ^ 13 := by
  have hm := m.isLt
  unfold secondOf
  omega

section

variable (gmtimeR)

def step (log : Logging) : Op → Except Abort Logging
  | .log m => formatTime gmtimeR log m.val
  | .setTimeZone tz => .ok (log.setTimeZone tz.zone)

/-- A log call puts the text of its second into its message, as the time zone in effect gives
it afresh, and the text of its microseconds behind it. -/
def Right (log : Logging) (op : Op) (log' : Logging) : Prop :=
  match op with
  | .log m => ∃ text, freshText gmtimeR log.logTimeZone (secondOf m) = .ok text ∧ text.length = 17 ∧
      log'.messages = log.messages ++ [text ++ microText log.logTimeZone.valid (m.val % 1000000 : ℕ)]
  | .setTimeZone _ => log'.messages = log.messages

end

/-- Where the text of a thread comes from: the second that it is made for, and the time zone
in effect then, with the one in effect now. -/
structure Made where
  origin : Option (ℤ × LogZone)
  zone : LogZone

namespace Made

def start : Made := ⟨none, .invalid⟩

def lastSecond (made : Made) : ℤ := (made.origin.map Prod.fst).getD 0

def next (made : Made) : Op → Made
  | .log m =>
    if secondOf m = made.lastSecond then made else { made with origin := some (secondOf m, made.zone) }
  | .setTimeZone tz => { made with zone := tz }

/-- A log call needs a time zone. In the second of the text it needs a text, of a zone that is
as far ahead as the one in effect, and in any other a local time before the year 10000. -/
def Fits (made : Made) : Op → Prop
  | .log m => made.zone.zone.valid = true ∧
    if secondOf m = made.lastSecond then
      ∃ origin ∈ made.origin, origin.2.offsetAt (secondOf m) = made.zone.offsetAt (secondOf m)
    else secondOf m + made.zone.offsetAt (secondOf m) < 253402300800
  | .setTimeZone _ => True

instance (made : Made) : DecidablePred made.Fits
  | .log _ => inferInstanceAs (Decidable (_ ∧ ite _ _ _))
  | .setTimeZone _ => .isTrue trivial

end Made

/-- What a thread keeps is what `made` tells. -/
structure Keeps (gmtimeR : ℤ → LocalTm) (log : Logging) (made : Made) : Prop where
  zone : log.logTimeZone = made.zone.zone
  lastSecond : log.lastSecond = made.lastSecond
  empty : made.origin = none → log.time = []
  text : ∀ origin, made.origin = some origin →
    freshText gmtimeR origin.2.zone log.lastSecond = .ok log.time ∧ log.time.length = 17

theorem formatTime_ok {log log' : Logging} (m : Fin (2 ^ 63)) :
    formatTime gmtimeR log m.val = .ok log' ↔ ∃ log₁, makeTime gmtimeR log (secondOf m) = .ok log₁ ∧
      log₁.logTimeZone.valid = true ∧ log₁.time.length = 17 ∧ log' = { log₁ with
        messages := log₁.messages ++ [log₁.time ++ microText true (m.val % 1000000 : ℕ)] } := by
  have hseconds : (m.val : ℤ).tdiv kMicroSecondsPerSecond = secondOf m :=
    Int.tdiv_eq_ediv_of_nonneg (Int.natCast_nonneg _)
  have hmicro : (m.val : ℤ).tmod kMicroSecondsPerSecond = (m.val % 1000000 : ℕ) :=
    Int.tmod_eq_emod_of_nonneg (Int.natCast_nonneg _)
  have hlt : ((m.val % 1000000 : ℕ) : ℤ) < 10 ^ 6 := by omega
  rw [formatTime, bind_ok, hseconds, hmicro]
  exact exists_congr fun log₁ => and_congr_right fun _ => putTime_ok (Int.natCast_nonneg _) hlt

section

variable {log log' : Logging} {m : Fin (2 ^ 63)}

/-- In the second of the text, the text is right that would be made again. -/
theorem right_same (h : secondOf m = log.lastSecond) :
    (∃ log', step gmtimeR log (.log m) = .ok log' ∧ Right gmtimeR log (.log m) log') ↔
      log.logTimeZone.valid = true ∧
        freshText gmtimeR log.logTimeZone (secondOf m) = .ok log.time ∧ log.time.length = 17 := by
  simp only [step, formatTime_ok, makeTime_same h, Except.ok.injEq]
  constructor
  · rintro ⟨_, ⟨_, rfl, hvalid, htime, rfl⟩, text, hfresh, -, hmessages⟩
    have htext := List.append_cancel_left hmessages
    rw [hvalid, List.cons.injEq, and_iff_left rfl] at htext
    rw [List.append_cancel_right htext]
    exact ⟨hvalid, hfresh, List.append_cancel_right htext ▸ htime⟩
  · rintro ⟨hvalid, hfresh, htime⟩
    exact ⟨_, ⟨_, rfl, hvalid, htime, rfl⟩, _, hfresh, htime, by rw [hvalid]⟩

theorem right_other (h : secondOf m ≠ log.lastSecond) :
    (∃ log', step gmtimeR log (.log m) = .ok log' ∧ Right gmtimeR log (.log m) log') ↔
      log.logTimeZone.valid = true ∧
        ∃ text, freshText gmtimeR log.logTimeZone (secondOf m) = .ok text ∧ text.length = 17 := by
  simp only [step, formatTime_ok, makeTime_ok h, freshText, map_ok]
  constructor
  · rintro ⟨_, ⟨_, ⟨tm, htm, hlength, rfl⟩, hvalid, -, -⟩, -⟩
    exact ⟨hvalid, _, ⟨tm, htm, rfl⟩, hlength⟩
  · rintro ⟨hvalid, _, ⟨tm, htm, rfl⟩, hlength⟩
    refine ⟨_, ⟨_, ⟨tm, htm, hlength, rfl⟩, hvalid, hlength, rfl⟩, ?_⟩
    refine ⟨_, map_ok.2 ⟨tm, htm, rfl⟩, hlength, ?_⟩
    rw [hvalid]

end

theorem freshText_same_iff (hgmtime : Gmtime gmtimeR) (tz : LogZone) {origin : LogZone}
    {text : List UInt8} (hlo : 0 ≤ seconds) (hhi : seconds < 10 ^ 13)
    (htext : freshText gmtimeR origin.zone seconds = .ok text) :
    freshText gmtimeR tz.zone seconds = .ok text ↔ origin.offsetAt seconds = tz.offsetAt seconds := by
  obtain ⟨time, hfresh, hseconds, hyear⟩ := freshText_eq hgmtime origin hlo hhi
  obtain ⟨time', hfresh', hseconds', hyear'⟩ := freshText_eq hgmtime tz hlo hhi
  rw [hfresh] at htext
  cases htext
  rw [hfresh', Except.ok.injEq]
  constructor
  · intro heq
    rw [timeText_inj hyear' hyear heq] at hseconds'
    omega
  · intro heq
    rw [Gregorian.Time.seconds_injective (hseconds.trans (heq ▸ hseconds'.symm))]

theorem exists_freshText_iff (hgmtime : Gmtime gmtimeR) (tz : LogZone) (hlo : 0 ≤ seconds)
    (hhi : seconds < 10 ^ 13) :
    (∃ text, freshText gmtimeR tz.zone seconds = .ok text ∧ text.length = 17) ↔
      seconds + tz.offsetAt seconds < 253402300800 := by
  obtain ⟨time, hfresh, hseconds, hyear⟩ := freshText_eq hgmtime tz hlo hhi
  rw [← hseconds, ← year_lt_iff, ← length_timeText_iff hyear]
  simp [hfresh]

theorem right_iff_fits (hgmtime : Gmtime gmtimeR) {log : Logging} {made : Made} (op : Op)
    (h : Keeps gmtimeR log made) :
    (∃ log', step gmtimeR log op = .ok log' ∧ Right gmtimeR log op log') ↔ made.Fits op := by
  cases op with
  | setTimeZone tz => exact iff_of_true ⟨_, rfl, rfl⟩ trivial
  | log m =>
    obtain ⟨hlo, hhi⟩ := secondOf_range m
    unfold Made.Fits
    dsimp only
    split_ifs with hsame
    · have hlast := hsame.trans h.lastSecond.symm
      rw [right_same hlast, h.zone]
      refine and_congr_right fun _ => ?_
      cases horigin : made.origin with
      | none =>
        rw [h.empty horigin]
        refine iff_of_false (fun h => absurd h.2 (by decide)) ?_
        rintro ⟨_, ⟨⟩, -⟩
      | some origin =>
        obtain ⟨htext, hlength⟩ := h.text origin horigin
        rw [← hlast] at htext
        rw [and_iff_left hlength, freshText_same_iff hgmtime made.zone hlo hhi htext]
        simp
    · have hlast : secondOf m ≠ log.lastSecond := fun heq => hsame (heq.trans h.lastSecond)
      rw [right_other hlast, h.zone, exists_freshText_iff hgmtime made.zone hlo hhi]

theorem keeps_step {log log' : Logging} {made : Made} {op : Op} (h : Keeps gmtimeR log made)
    (hstep : step gmtimeR log op = .ok log') : Keeps gmtimeR log' (made.next op) := by
  cases op with
  | setTimeZone tz =>
    cases hstep
    exact ⟨rfl, h.lastSecond, h.empty, h.text⟩
  | log m =>
    obtain ⟨log₁, hmake, -, hlength, rfl⟩ := (formatTime_ok m).1 hstep
    unfold Made.next
    dsimp only
    split_ifs with hsame
    · rw [makeTime_same (hsame.trans h.lastSecond.symm)] at hmake
      cases hmake
      exact ⟨h.zone, h.lastSecond, h.empty, h.text⟩
    · have hlast : secondOf m ≠ log.lastSecond := fun heq => hsame (heq.trans h.lastSecond)
      obtain ⟨tm, htm, -, rfl⟩ := (makeTime_ok hlast).1 hmake
      refine ⟨h.zone, rfl, fun hnone => (by cases hnone), ?_⟩
      rintro _ ⟨⟩
      exact ⟨map_ok.2 ⟨tm, h.zone ▸ htm, rfl⟩, hlength⟩

theorem keeps_start : Keeps gmtimeR .start .start where
  zone := rfl
  lastSecond := rfl
  empty := fun _ => rfl
  text := by rintro _ ⟨⟩

/-- Every log call puts the text of its second as the time zone in effect gives it, exactly
where its text is in `Made.Fits`. -/
theorem time_text_fresh_iff (hgmtime : Gmtime gmtimeR) (ops : List Op) :
    Holds (step gmtimeR) (Right gmtimeR) .start ops ↔
      Along (fun made op => (.ok (made.next op) : Except Abort Made)) Made.Fits .start ops := by
  refine holds_iff_along_abs (I := Keeps gmtimeR) ?_ ?_ keeps_start
  · exact fun _ _ op h => right_iff_fits hgmtime op h
  · exact fun _ _ _ _ h hstep _ => keeps_step h hstep

theorem gmtime_toUtcTime : Gmtime fun s => ⟨toUtcTime s true, 0⟩ := by
  intro t hlo hhi
  obtain ⟨time, hseconds, hshows, -⟩ := toUtcTime_is (t := t) (by omega) (by omega)
  exact ⟨time, hseconds, hshows true⟩

theorem time_text_fresh_utc : let gmtimeR := fun s : ℤ => (⟨toUtcTime s true, 0⟩ : LocalTm)
    Holds (step gmtimeR) (Right gmtimeR) .start
      [.setTimeZone (.fixed 0 [71, 77, 84]), .log ⟨1700000000000000, by decide⟩,
        .setTimeZone (.fixed 0 [85, 84, 67]), .log ⟨1700000000500000, by decide⟩,
        .setTimeZone (.fixed 28800 [67, 83, 84]), .log ⟨1700000001000000, by decide⟩] :=
  (time_text_fresh_iff gmtime_toUtcTime _).2 (by decide)

/-- From UTC to the time zone eight hours ahead, between two calls in one second. -/
def sameSecond : List Op :=
  [.setTimeZone (.fixed 0 [71, 77, 84]), .log ⟨1700000000000000, by decide⟩,
    .setTimeZone (.fixed 28800 [67, 83, 84]), .log ⟨1700000000500000, by decide⟩]

/-- The second call puts the text of the first one. -/
theorem time_text_kept : ¬ ∀ gmtimeR, Gmtime gmtimeR → ∀ ops,
    Holds (step gmtimeR) (Right gmtimeR) .start ops := by
  intro h
  have hgmtime := gmtime_toUtcTime
  obtain ⟨log₁, h₁, -, log₂, h₂, -, log₃, h₃, -, log₄, h₄, hright, -⟩ := h _ hgmtime sameSecond
  have hkeeps := keeps_step (keeps_step (keeps_step keeps_start h₁) h₂) h₃
  obtain ⟨-, hfits⟩ := (right_iff_fits hgmtime _ hkeeps).1 ⟨log₄, h₄, hright⟩
  rw [if_pos (by decide)] at hfits
  obtain ⟨_, ⟨⟩, hoffsets⟩ := hfits
  exact absurd hoffsets (by decide)

end Logging

end Czy
