import Draind.Shared.Battery
import Mathlib.Data.Rat.Floor

namespace Draind.Battery

-- What read_int gets out of a file, none where it fails.
def reading (file : Option Bytes) : Option Int64 :=
  if (readInt file 0).1 then some (readInt file 0).2 else none

-- The three readings of one family of files, with a rate that divides.
structure Sample where
  remaining : Int64
  total : Int64
  rate : Int64

-- The variables of read with these values.
def Sample.readings (x : Sample) : Readings :=
  ⟨x.remaining, x.total, x.rate, true⟩

def sample (now full rate : Option Bytes) : Option Sample :=
  (reading now).bind fun remaining => (reading full).bind fun total => (reading rate).bind fun rate =>
    if 0 < rate then some ⟨remaining, total, rate⟩ else none

def Supply.energy (s : Supply) : Option Sample :=
  sample s.energyNow s.energyFull s.powerNow

def Supply.charge (s : Supply) : Option Sample :=
  sample s.chargeNow s.chargeFull s.currentNow

-- The directory that read reports on.
def firstSupply (supplies : List (Option Supply)) : Option Supply :=
  (supplies.take 10).findSome? id

-- info.status, and the variables remaining, total, rate and have_time.
def readStatus (s : Supply) : Status :=
  match readStr s.status with
  | some st => parseStatus st
  | none => .absent

def readings (s : Supply) : Readings :=
  let energy := readChain s.energyNow s.energyFull s.powerNow ⟨0, 0, 0, false⟩
  if energy.ok then energy else readChain s.chargeNow s.chargeFull s.currentNow energy

-- The minutes that a quantity lasts, or takes, at the rate that was read.
structure ExactEstimate (s : Supply) (quantity : Int) (minutes : Int32) : Prop where
  family : ∃ x, (s.energy = some x ∨ s.charge = some x) ∧
    readings s = x.readings
  product : -2 ^ 63 ≤ quantity * 60 ∧ quantity * 60 < 2 ^ 63
  floor : minutes.toInt = ⌊((quantity * 60 : Int) : ℚ) / ((readings s).rate.toInt : ℚ)⌋
  nonneg : 0 ≤ minutes.toInt

structure ExactEstimates (supplies : List (Option Supply)) (s : Supply) : Prop where
  toEmpty : ∀ minutes, (read supplies).timeToEmptyMin = some minutes →
    ExactEstimate s (readings s).remaining.toInt minutes
  toFull : ∀ minutes, (read supplies).timeToFullMin = some minutes →
    ExactEstimate s ((readings s).total.toInt - (readings s).remaining.toInt) minutes

-- Sixty times the quantity is an int64_t, and divided by the rate an int.
structure Fits (quantity rate : Int) : Prop where
  product : quantity * 60 < 2 ^ 63
  minutes : quantity * 60 < 2 ^ 31 * rate

-- The energy files count where they are all readable, else the charge files.
structure FitsSample (s : Supply) (x : Sample) : Prop where
  discharging : readStatus s = .discharging → 0 < x.remaining.toInt → Fits x.remaining.toInt x.rate.toInt
  charging : readStatus s = .charging → x.remaining.toInt < x.total.toInt →
    Fits (x.total.toInt - x.remaining.toInt) x.rate.toInt

section Estimates

-- What was in out before stays only where the reading fails.
theorem readInt_out (file : Option Bytes) (out : Int64) :
    (readInt file out).1 = (readInt file 0).1 ∧
      ((readInt file 0).1 = true → readInt file out = readInt file 0) := by
  cases file with
  | none => exact ⟨rfl, Bool.noConfusion⟩
  | some text =>
      simp only [readInt]
      split
      · exact ⟨rfl, Bool.noConfusion⟩
      · exact ⟨rfl, fun _ => rfl⟩

theorem readInt_of_reading {file : Option Bytes} {v : Int64} (h : reading file = some v) (out : Int64) :
    readInt file out = (true, v) := by
  unfold reading at h
  split at h
  · rename_i hok
    cases h
    rw [(readInt_out file out).2 hok]
    exact Prod.ext hok rfl
  · cases h

theorem readInt_of_unread {file : Option Bytes} (h : reading file = none) (out : Int64) :
    (readInt file out).1 = false := by
  unfold reading at h
  split at h
  · cases h
  · rename_i hok
    rw [(readInt_out file out).1]
    exact Bool.eq_false_of_not_eq_true hok

-- A chain that succeeds has overwritten all three variables.
theorem readChain_spec (now full rate : Option Bytes) (r : Readings) :
    (∀ x, sample now full rate = some x → readChain now full rate r = x.readings) ∧
      (sample now full rate = none → (readChain now full rate r).ok = false) := by
  unfold sample readChain
  cases hnow : reading now with
  | none => simp [readInt_of_unread hnow]
  | some a =>
      cases hfull : reading full with
      | none => simp [readInt_of_reading hnow, readInt_of_unread hfull]
      | some b =>
          cases hrate : reading rate with
          | none => simp [readInt_of_reading hnow, readInt_of_reading hfull, readInt_of_unread hrate]
          | some c =>
              simp only [readInt_of_reading hnow, readInt_of_reading hfull, readInt_of_reading hrate,
                Option.bind_some]
              by_cases hc : 0 < c
              · simp [hc, Sample.readings]
              · simp [hc]

theorem readings_spec (s : Supply) :
    (∀ x, s.energy.or s.charge = some x →
      (s.energy = some x ∨ s.charge = some x) ∧ readings s = x.readings) ∧
      (s.energy.or s.charge = none → (readings s).ok = false) := by
  obtain ⟨hsome, hnone⟩ := readChain_spec s.energyNow s.energyFull s.powerNow ⟨0, 0, 0, false⟩
  unfold readings
  dsimp only
  cases he : s.energy with
  | some y =>
      rw [hsome y he]
      refine ⟨fun x hx => ?_, fun h => ?_⟩
      · cases hx
        exact ⟨.inl rfl, rfl⟩
      · cases h
  | none =>
      have hfail := hnone he
      rw [if_neg (by simp [hfail])]
      obtain ⟨hcharge, huncharged⟩ := readChain_spec s.chargeNow s.chargeFull s.currentNow
        (readChain s.energyNow s.energyFull s.powerNow ⟨0, 0, 0, false⟩)
      exact ⟨fun x hx => ⟨.inr hx, hcharge x hx⟩, huncharged⟩

theorem sample_rate {now full rate : Option Bytes} {x : Sample} (h : sample now full rate = some x) :
    0 < x.rate.toInt := by
  unfold sample at h
  simp only [Option.bind_eq_some_iff] at h
  obtain ⟨a, -, b, -, c, -, hc⟩ := h
  split at hc
  · rename_i hpos
    cases hc
    exact Int64.lt_iff_toInt_lt.mp hpos
  · cases hc

theorem floor_div (n d : Int) (hd : 0 < d) : ⌊((n : Int) : ℚ) / ((d : Int) : ℚ)⌋ = n / d := by
  obtain ⟨k, rfl⟩ := Int.eq_ofNat_of_zero_le hd.le
  rw [Int.cast_natCast, Rat.floor_intCast_div_natCast]

-- Where nothing overflows the code computes the floor.
theorem minutes_floor (quantity rate : Int64) (hq : 0 < quantity.toInt) (hr : 0 < rate.toInt)
    (hfits : Fits quantity.toInt rate.toInt) :
    (quantity * 60 / rate).toInt32.toInt = quantity.toInt * 60 / rate.toInt := by
  obtain ⟨hproduct, hminutes⟩ := hfits
  have hmul : (quantity * 60).toInt = quantity.toInt * 60 := by
    rw [Int64.toInt_mul, show (60 : Int64).toInt = 60 from rfl]
    exact Int.bmod_eq_of_le (by omega) (by omega)
  have hne : rate ≠ -1 := by
    rintro rfl
    exact absurd hr (by decide)
  have hlow : 0 ≤ quantity.toInt * 60 / rate.toInt := Int.ediv_nonneg (by omega) hr.le
  have hhigh : quantity.toInt * 60 / rate.toInt < 2 ^ 31 := Int.ediv_lt_of_lt_mul hr hminutes
  rw [Int64.toInt_toInt32, Int64.toInt_div_of_ne_right _ _ hne, hmul,
    Int.tdiv_eq_ediv_of_nonneg (by omega), Int.bmod_eq_of_le (by omega) (by omega)]

-- The floor is an int only where the quantity fits.
theorem ExactEstimate.fits {s : Supply} {quantity : Int} {minutes : Int32}
    (h : ExactEstimate s quantity minutes) (hr : 0 < (readings s).rate.toInt) :
    Fits quantity (readings s).rate.toInt := by
  refine ⟨h.product.2, ?_⟩
  have hfloor := h.floor
  rw [floor_div _ _ hr] at hfloor
  have hint := minutes.toInt_lt
  rw [hfloor] at hint
  exact Int.lt_mul_of_ediv_lt hr hint

theorem readFrom_first (i : Nat) (supplies : List (Option Supply)) (s : Supply)
    (h : supplies.findSome? id = some s) : ∃ name, readFrom i supplies = readSupply name s := by
  induction supplies generalizing i with
  | nil => cases h
  | cons first rest ih =>
      cases first with
      | none => exact ih (i + 1) h
      | some s' =>
          cases h
          exact ⟨_, rfl⟩

theorem read_times {supplies : List (Option Supply)} {s : Supply} (h : firstSupply supplies = some s) :
    ((read supplies).timeToEmptyMin = (s.energy.or s.charge).bind fun x =>
      if readStatus s = .discharging ∧ 0 < x.remaining then some (x.remaining * 60 / x.rate).toInt32
      else none) ∧
    ((read supplies).timeToFullMin = (s.energy.or s.charge).bind fun x =>
      if readStatus s = .charging ∧ x.remaining < x.total then
        some ((x.total - x.remaining) * 60 / x.rate).toInt32
      else none) := by
  obtain ⟨name, hname⟩ := readFrom_first 0 _ s h
  obtain ⟨hsome, hnone⟩ := readings_spec s
  have hempty : (readSupply name s).timeToEmptyMin =
      if (readings s).ok && readStatus s = .discharging && 0 < (readings s).remaining then
        some ((readings s).remaining * 60 / (readings s).rate).toInt32 else none := rfl
  have hfull : (readSupply name s).timeToFullMin =
      if (readings s).ok && readStatus s = .charging && (readings s).remaining < (readings s).total then
        some (((readings s).total - (readings s).remaining) * 60 / (readings s).rate).toInt32 else none := rfl
  rw [read, hname, hempty, hfull]
  cases hx : s.energy.or s.charge with
  | none => simp [hnone hx]
  | some x => simp [(hsome x hx).2, Sample.readings]

-- Both estimates are made in one way. The quantity is what the code has in 64 bits
-- where it fits.
theorem reported_iff {s : Supply} {reports : Sample → Prop} [DecidablePred reports]
    {amount : Sample → Int64} (quantity : Readings → Int) {minutes : Option Int32}
    (hm : minutes = (s.energy.or s.charge).bind fun x =>
      if reports x then some (amount x * 60 / x.rate).toInt32 else none)
    (hpos : ∀ x, reports x → 0 < quantity x.readings)
    (hamount : ∀ x, Fits (quantity x.readings) x.rate.toInt → reports x →
      (amount x).toInt = quantity x.readings) :
    (∀ m, minutes = some m → ExactEstimate s (quantity (readings s)) m) ↔
      ∀ x, s.energy.or s.charge = some x → reports x → Fits (quantity x.readings) x.rate.toInt := by
  constructor
  · intro hall x hx hreports
    obtain ⟨hfamily, hr⟩ := (readings_spec s).1 x hx
    have hfits := (hall _ (by rw [hm, hx, Option.bind_some, if_pos hreports])).fits
    rw [hr] at hfits
    exact hfits (hfamily.elim sample_rate sample_rate)
  · intro hall m hsome
    rw [hm, Option.bind_eq_some_iff] at hsome
    obtain ⟨x, hx, hif⟩ := hsome
    split at hif
    · rename_i hreports
      cases hif
      obtain ⟨hfamily, hr⟩ := (readings_spec s).1 x hx
      have hrate := hfamily.elim sample_rate sample_rate
      have hfits := hall x hx hreports
      have hq := hpos x hreports
      have hproduct := hfits.product
      have heq := hamount x hfits hreports
      have hminutes := minutes_floor (amount x) x.rate (by omega) hrate (by rwa [heq])
      rw [hr]
      refine ⟨⟨x, hfamily, hr⟩, ⟨by omega, hproduct⟩, ?_, ?_⟩
      · rw [hr, hminutes, heq]
        exact (floor_div _ _ hrate).symm
      · rw [hminutes]
        exact Int.ediv_nonneg (by omega) hrate.le
    · cases hif

theorem exactEstimates_iff {supplies : List (Option Supply)} {s : Supply}
    (h : firstSupply supplies = some s) :
    ExactEstimates supplies s ↔ ∀ x, s.energy.or s.charge = some x → FitsSample s x := by
  obtain ⟨hempty, hfull⟩ := read_times h
  have htoEmpty := reported_iff (fun r => r.remaining.toInt) hempty
    (fun x hx => Int64.lt_iff_toInt_lt.mp hx.2) (fun x _ _ => rfl)
  have htoFull := reported_iff (fun r => r.total.toInt - r.remaining.toInt) hfull
    (fun x hx => by
      have hlt := Int64.lt_iff_toInt_lt.mp hx.2
      exact Int.sub_pos_of_lt hlt)
    (fun x hfits hx => by
      -- A difference that overflows is more than a sixtieth of the range.
      have hlt := Int64.lt_iff_toInt_lt.mp hx.2
      have hproduct : (x.total.toInt - x.remaining.toInt) * 60 < 2 ^ 63 := hfits.product
      rw [Int64.toInt_sub]
      exact Int.bmod_eq_of_le (by omega) (by omega))
  constructor
  · rintro ⟨he, hf⟩ x hx
    exact ⟨fun hst hlt => htoEmpty.mp he x hx ⟨hst, Int64.lt_iff_toInt_lt.mpr hlt⟩,
      fun hst hlt => htoFull.mp hf x hx ⟨hst, Int64.lt_iff_toInt_lt.mpr hlt⟩⟩
  · intro hall
    exact ⟨htoEmpty.mpr fun x hx hr => (hall x hx).discharging hr.1 (Int64.lt_iff_toInt_lt.mp hr.2),
      htoFull.mpr fun x hx hr => (hall x hx).charging hr.1 (Int64.lt_iff_toInt_lt.mp hr.2)⟩

-- Whatever the files hold, what read reports is exact exactly when sixty times the
-- quantity fits 64 bits and the minutes an int. The family is never mixed.
theorem estimates_exact_iff (supplies : List (Option Supply)) :
    (∀ s, firstSupply supplies = some s → ExactEstimates supplies s) ↔
      ∀ s, firstSupply supplies = some s → ∀ x, s.energy.or s.charge = some x → FitsSample s x :=
  forall₂_congr fun _ h => exactEstimates_iff h

-- A battery of 50 Wh from which a microwatt is drawn.
def almostIdle : Supply where
  capacity := some (bytes "80\n")
  status := some (bytes "Discharging\n")
  energyNow := some (bytes "50000000\n")
  energyFull := some (bytes "60000000\n")
  powerNow := some (bytes "1\n")
  chargeNow := none
  chargeFull := none
  currentNow := none

theorem estimates_almostIdle :
    ¬∀ s, firstSupply [some almostIdle] = some s → ExactEstimates [some almostIdle] s := by
  intro h
  have hexact := (h almostIdle rfl).toEmpty (-1294967296) (by decide)
  exact absurd hexact.nonneg (by decide)

end Estimates

end Draind.Battery
