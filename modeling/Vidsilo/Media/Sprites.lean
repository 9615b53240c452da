import Vidsilo.Library.Decimal
import Vidsilo.Library.SlashPath
import Mathlib.Data.Int.CardIntervalMod
import Mathlib.Data.Rat.Floor
import Mathlib.Tactic.Linarith

/-!
# The sprite sheet and the frame of the poster

Source: internal/media/media.go:110-171 (`SpriteGrid`), 191-217 (`ExtractPoster`),
internal/jobs/jobs.go:395-432 (`Probe`). Times are milliseconds. The sheet covers the first
`min(duration, 60s)`, sampled at 10 fps and thinned to at most a hundred frames; `Probe` places the
poster in a window of its own, which is never shorter than two seconds. Its floats are exact
rationals here. The runs of ffmpeg and the files are left out.
-/
namespace Vidsilo.Media.Sprites
open Library.SlashPath Library.Decimal

def spriteFrameW : Int := 160
def spriteFrameH : Int := 90
def spriteCols : Int := 10
def maxFrames : Int := 100

/-- The end of the scan, which `SpriteGrid` and `Probe` both compute. -/
def scanEnd (durationMs : Int) : Int :=
  let scanEnd := if 60000 < durationMs then 60000 else durationMs
  if scanEnd < 2000 then 2000 else scanEnd

def fpsFrames (durationMs : Int) : Int := (min (scanEnd durationMs) durationMs + 99).tdiv 100

def step (durationMs : Int) : Int :=
  if maxFrames < fpsFrames durationMs then
    (fpsFrames durationMs + maxFrames - 1).tdiv maxFrames
  else 1

/-- What `SpriteGrid` returns. -/
def frames (durationMs : Int) : Int :=
  let frames := (fpsFrames durationMs + step durationMs - 1).tdiv (step durationMs)
  let frames := if frames < 1 then 1 else frames
  if maxFrames < frames then maxFrames else frames

def rows (durationMs : Int) : Int := (frames durationMs + spriteCols - 1).tdiv spriteCols

/-- The arguments of a `crop`. -/
structure Rect where
  width : Int
  height : Int
  x : Int
  y : Int
  deriving DecidableEq, Repr

def Rect.text (r : Rect) : Text :=
  "crop=".toList ++ formatInt r.width ++ ":".toList ++ formatInt r.height ++ ":".toList ++
    formatInt r.x ++ ":".toList ++ formatInt r.y

/-- What is left of the tiles. -/
def sheet (durationMs : Int) : Rect :=
  ⟨spriteFrameW * spriteCols, rows durationMs * spriteFrameH, 0, 0⟩

/-- The `-vf` of the sheet. -/
def sheetFilter (durationMs : Int) : Text :=
  "fps=10,select='not(mod(n,".toList ++ formatInt (step durationMs) ++ "))',scale=".toList ++
    formatInt spriteFrameW ++ ":".toList ++ formatInt spriteFrameH ++ ",tile=".toList ++
    formatInt spriteCols ++ "x".toList ++ formatInt spriteCols ++ ",".toList ++
    (sheet durationMs).text

def cell (frame : Int) : Rect :=
  ⟨spriteFrameW, spriteFrameH, frame.tmod spriteCols * spriteFrameW,
    frame.tdiv spriteCols * spriteFrameH⟩

/-- The `-vf` of a poster. -/
def posterFilter (frame : Int) : Text := (cell frame).text ++ ",scale=640:-2".toList

/-- The time of the poster. -/
def atMs (durationMs : Int) : Int :=
  let atMs := durationMs.tdiv 10
  if atMs < 0 then 0 else atMs

/-- `int` of a float. -/
def truncate (q : ℚ) : Int := q.num.tdiv q.den

def posterFrame (durationMs : Int) : Int :=
  let posterFrame :=
    truncate ((atMs durationMs : ℚ) / (scanEnd durationMs : ℚ) * (frames durationMs : ℚ))
  let posterFrame := if posterFrame < 0 then 0 else posterFrame
  if frames durationMs ≤ posterFrame then frames durationMs - 1 else posterFrame

/-- The samples at 10 fps, counted from zero. -/
def samples (durationMs : Int) : Nat := ⌈(min durationMs 60000 : ℚ) / 100⌉.toNat

def Rect.Inside (r sheet : Rect) : Prop :=
  0 ≤ r.x ∧ 0 ≤ r.y ∧ r.x + r.width ≤ sheet.width ∧ r.y + r.height ≤ sheet.height

/-- The time at which a frame of the sheet has been sampled. -/
def sampledAt (durationMs frame : Int) : Int := frame * step durationMs * 100

structure Fits (durationMs : Int) : Prop where
  counted : 1 ≤ frames durationMs ∧ frames durationMs ≤ 100
  sampled : 0 < durationMs →
    frames durationMs = (samples durationMs).count fun n => (n : Int) % step durationMs = 0
  cropped : sheet durationMs = ⟨10 * 160, ⌈(frames durationMs : ℚ) / 10⌉ * 90, 0, 0⟩
  inside : ∀ frame, 0 ≤ frame → frame < frames durationMs → (cell frame).Inside (sheet durationMs)
  placed : 0 ≤ posterFrame durationMs ∧ posterFrame durationMs < frames durationMs
  /-- At most one sampling step apart. -/
  near : |(sampledAt durationMs (posterFrame durationMs) : ℚ) -
    min ((durationMs : ℚ) / 10) (sampledAt durationMs (frames durationMs - 1))| ≤
      step durationMs * 100

theorem fpsFrames_eq {d : Int} (h : 0 ≤ d) : fpsFrames d = (min d 60000 + 99) / 100 := by
  have window : min (scanEnd d) d = min d 60000 := by
    unfold scanEnd
    grind
  rw [fpsFrames, window, Int.tdiv_eq_ediv_of_nonneg (by omega)]

theorem fpsFrames_le {d : Int} (h : 0 ≤ d) : 0 ≤ fpsFrames d ∧ fpsFrames d ≤ 600 := by
  rw [fpsFrames_eq h]
  omega

theorem step_eq {d : Int} (h : 0 ≤ d) :
    step d = if 100 < fpsFrames d then (fpsFrames d + 99) / 100 else 1 := by
  have := fpsFrames_le h
  unfold step maxFrames
  split
  · rw [Int.tdiv_eq_ediv_of_nonneg (by omega)]
    congr 1
    omega
  · rfl

theorem step_pos {d : Int} (h : 0 ≤ d) : 1 ≤ step d ∧ step d ≤ 6 := by
  have := fpsFrames_le h
  rw [step_eq h]
  split <;> omega

/-- The thinned samples, rounded up; without any sample there is still a cell. -/
theorem frames_eq {d : Int} (h : 0 ≤ d) :
    frames d = if fpsFrames d = 0 then 1 else (fpsFrames d + step d - 1) / step d := by
  have few := fpsFrames_le h
  have pos := step_pos h
  have isStep := step_eq h
  have quotient : (fpsFrames d + step d - 1).tdiv (step d) =
      (fpsFrames d + step d - 1) / step d := Int.tdiv_eq_ediv_of_nonneg (by omega)
  have upper : (fpsFrames d + step d - 1) / step d ≤ 100 := by
    refine Int.le_of_lt_add_one (Int.ediv_lt_of_lt_mul (by omega) ?_)
    split at isStep <;> omega
  have lower : 0 < fpsFrames d → 1 ≤ (fpsFrames d + step d - 1) / step d := fun some =>
    (Int.le_ediv_iff_mul_le (by omega)).mpr (by omega)
  have none : fpsFrames d = 0 → (fpsFrames d + step d - 1) / step d = 0 := fun none =>
    Int.ediv_eq_zero_of_lt (by omega) (by omega)
  unfold frames maxFrames
  rw [quotient]
  grind

theorem frames_bounds (d : Int) : 1 ≤ frames d ∧ frames d ≤ 100 := by
  unfold frames maxFrames
  grind

/-- The steps of the frames cover the samples, and no frame is after the last of them. -/
theorem frames_cover {d : Int} (h : 0 < d) :
    fpsFrames d ≤ frames d * step d ∧ frames d * step d ≤ fpsFrames d + step d - 1 := by
  have pos := step_pos (Int.le_of_lt h)
  have some : fpsFrames d ≠ 0 := by
    rw [fpsFrames_eq (Int.le_of_lt h)]
    omega
  have division := Int.emod_add_mul_ediv (fpsFrames d + step d - 1) (step d)
  have low := Int.emod_nonneg (fpsFrames d + step d - 1) (b := step d) (by omega)
  have high := Int.emod_lt_of_pos (fpsFrames d + step d - 1) (b := step d) (by omega)
  rw [frames_eq (Int.le_of_lt h), if_neg some, Int.mul_comm]
  omega

theorem samples_eq {d : Int} (h : 0 ≤ d) : (samples d : Int) = fpsFrames d := by
  have ceiling : ⌈(min d 60000 : ℚ) / 100⌉ = fpsFrames d := by
    rw [Int.ceil_eq_iff, fpsFrames_eq h]
    have cast : (min d 60000 : ℚ) = ((min d 60000 : Int) : ℚ) := by push_cast; rfl
    rw [cast, lt_div_iff₀ (by norm_num), div_le_iff₀ (by norm_num)]
    constructor
    · exact_mod_cast (by omega : ((min d 60000 + 99) / 100 - 1) * 100 < min d 60000)
    · exact_mod_cast (by omega : min d 60000 ≤ (min d 60000 + 99) / 100 * 100)
  have := fpsFrames_le h
  rw [samples, ceiling]
  omega

theorem eq_of_cover {n s m m' : Int} (h : n ≤ m * s ∧ m * s ≤ n + s - 1)
    (h' : n ≤ m' * s ∧ m' * s ≤ n + s - 1) (pos : 0 < s) : m = m' := by
  have le : m * s < (m' + 1) * s := by
    rw [Int.add_mul]
    omega
  have ge : m' * s < (m + 1) * s := by
    rw [Int.add_mul]
    omega
  have := lt_of_mul_lt_mul_right le (Int.le_of_lt pos)
  have := lt_of_mul_lt_mul_right ge (Int.le_of_lt pos)
  omega

theorem frames_sampled {d : Int} (h : 0 < d) :
    frames d = (samples d).count fun n => (n : Int) % step d = 0 := by
  have pos := step_pos (Int.le_of_lt h)
  obtain ⟨s, isStep⟩ := Int.eq_ofNat_of_zero_le (by omega : 0 ≤ step d)
  have residue : ∀ n : Nat, (n : Int) % step d = 0 ↔ n ≡ 0 [MOD s] := by
    intro n
    rw [isStep, Nat.ModEq, Nat.zero_mod]
    omega
  have multiples := Nat.count_modEq_card (samples d) (r := s) (by omega) 0
  have division := Nat.div_add_mod (samples d) s
  have rest := Nat.mod_lt (samples d) (y := s) (by omega)
  have number := samples_eq (Int.le_of_lt h)
  simp only [residue]
  rw [multiples, Nat.zero_mod]
  refine eq_of_cover (frames_cover h) ?_ (by omega)
  rw [isStep, ← number, ← Int.natCast_mul, Nat.add_mul, Nat.mul_comm]
  by_cases some : 0 < samples d % s
  · rw [if_pos some]
    omega
  · rw [if_neg some]
    omega

theorem rows_eq (d : Int) : rows d = (frames d + 9) / 10 := by
  have := frames_bounds d
  rw [rows, spriteCols, Int.tdiv_eq_ediv_of_nonneg (by omega)]
  congr 1
  omega

theorem sheet_eq (d : Int) : sheet d = ⟨10 * 160, ⌈(frames d : ℚ) / 10⌉ * 90, 0, 0⟩ := by
  have ceiling : ⌈(frames d : ℚ) / 10⌉ = rows d := by
    rw [Int.ceil_eq_iff, rows_eq, lt_div_iff₀ (by norm_num), div_le_iff₀ (by norm_num)]
    constructor
    · exact_mod_cast (by omega : ((frames d + 9) / 10 - 1) * 10 < frames d)
    · exact_mod_cast (by omega : frames d ≤ (frames d + 9) / 10 * 10)
  rw [ceiling]
  rfl

theorem cell_inside {d frame : Int} (first : 0 ≤ frame) (last : frame < frames d) :
    (cell frame).Inside (sheet d) := by
  have column : frame.tmod 10 = frame % 10 := Int.tmod_eq_emod_of_nonneg first
  have row : frame.tdiv 10 = frame / 10 := Int.tdiv_eq_ediv_of_nonneg first
  have count := rows_eq d
  simp only [Rect.Inside, cell, sheet, spriteCols, spriteFrameW, spriteFrameH, column, row, count]
  omega

theorem scanEnd_eq (d : Int) : scanEnd d = max (min d 60000) 2000 := by
  unfold scanEnd
  grind

theorem atMs_eq {d : Int} (h : 0 ≤ d) : atMs d = d / 10 := by
  rw [atMs, Int.tdiv_eq_ediv_of_nonneg h]
  exact if_neg (by omega)

theorem truncate_of_nonneg {q : ℚ} (h : 0 ≤ q) : truncate q = ⌊q⌋ := by
  rw [truncate, Int.tdiv_eq_ediv_of_nonneg (Rat.num_nonneg.mpr h), Rat.floor_def']

theorem posterFrame_eq {d : Int} (h : 0 ≤ d) :
    posterFrame d = min (d / 10 * frames d / scanEnd d) (frames d - 1) := by
  have := frames_bounds d
  have scan : 0 ≤ scanEnd d := by
    rw [scanEnd_eq]
    omega
  have quotient : (atMs d : ℚ) / (scanEnd d : ℚ) * (frames d : ℚ) =
      ((d / 10 * frames d : Int) : ℚ) / (scanEnd d : ℚ) := by
    rw [atMs_eq h, Int.cast_mul, div_mul_eq_mul_div]
  have product : 0 ≤ d / 10 * frames d := Int.mul_nonneg (by omega) (by omega)
  have nonneg : (0 : ℚ) ≤ ((d / 10 * frames d : Int) : ℚ) / (scanEnd d : ℚ) :=
    div_nonneg (by exact_mod_cast product) (by exact_mod_cast scan)
  have truncated : truncate ((atMs d : ℚ) / (scanEnd d : ℚ) * (frames d : ℚ)) =
      d / 10 * frames d / scanEnd d := by
    rw [quotient, truncate_of_nonneg nonneg, Int.floor_div_cast_of_nonneg scan, Int.floor_intCast]
  have := Int.ediv_nonneg product scan
  unfold posterFrame
  rw [truncated]
  grind

theorem posterFrame_placed {d : Int} (h : 0 ≤ d) :
    0 ≤ posterFrame d ∧ posterFrame d < frames d := by
  have := frames_bounds d
  have scan : 0 ≤ scanEnd d := by
    rw [scanEnd_eq]
    omega
  have := Int.ediv_nonneg (Int.mul_nonneg (by omega : 0 ≤ d / 10) (by omega : 0 ≤ frames d)) scan
  rw [posterFrame_eq h]
  omega

/-- In tenths of milliseconds. -/
def Near (d : Int) : Prop :=
  |sampledAt d (posterFrame d) * 10 - min d (sampledAt d (frames d - 1) * 10)| ≤ step d * 1000

theorem near_iff (d : Int) :
    |(sampledAt d (posterFrame d) : ℚ) - min ((d : ℚ) / 10) (sampledAt d (frames d - 1))| ≤
      step d * 100 ↔ Near d := by
  have target : min ((d : ℚ) / 10) (sampledAt d (frames d - 1)) =
      ((min d (sampledAt d (frames d - 1) * 10) : Int) : ℚ) / 10 := by
    push_cast
    rw [← min_div_div_right (by norm_num), mul_div_cancel_right₀ _ (by norm_num)]
  have scaled : (sampledAt d (posterFrame d) : ℚ) -
        ((min d (sampledAt d (frames d - 1) * 10) : Int) : ℚ) / 10 =
      ((sampledAt d (posterFrame d) * 10 - min d (sampledAt d (frames d - 1) * 10) : Int) : ℚ) /
        10 := by
    rw [Int.cast_sub, Int.cast_mul, sub_div, Int.cast_ofNat, mul_div_cancel_right₀ _ (by norm_num)]
  have bound : (step d : ℚ) * 100 * 10 = ((step d * 1000 : Int) : ℚ) := by
    push_cast
    ring
  rw [target, scaled, abs_div, abs_of_pos (by norm_num : (0 : ℚ) < 10), div_le_iff₀ (by norm_num),
    bound, ← Int.cast_abs, Int.cast_le, Near]

/-- The sheet of a video under two seconds is shorter than the window of `Probe`: up to 1.4 s the
poster is always put at its first frame. -/
theorem near_short {d : Int} (h : 0 ≤ d) (short : d < 2000) :
    Near d ↔ d ≤ 1000 ∨ 1400 < d := by
  have window : scanEnd d = 2000 := by
    rw [scanEnd_eq]
    omega
  have count : fpsFrames d = (d + 99) / 100 := by
    rw [fpsFrames_eq h]
    omega
  have whole : step d = 1 := by
    rw [step_eq h, if_neg (by omega)]
  have all : frames d = max ((d + 99) / 100) 1 := by
    rw [frames_eq h, whole, count]
    split <;> omega
  have place := posterFrame_eq h
  rw [window] at place
  by_cases first : d ≤ 1400
  · have product : d / 10 * frames d ≤ 140 * 14 :=
      Int.mul_le_mul (by omega) (by omega) (by omega) (by omega)
    have nonneg : 0 ≤ d / 10 * frames d := Int.mul_nonneg (by omega) (by omega)
    have zero : posterFrame d = 0 := by omega
    simp only [Near, sampledAt, zero, whole, abs_le]
    omega
  · have low : 140 * 15 ≤ d / 10 * frames d :=
      Int.mul_le_mul (by omega) (by omega) (by omega) (by omega)
    have high : d / 10 * frames d ≤ 199 * 20 :=
      Int.mul_le_mul (by omega) (by omega) (by omega) (by omega)
    have one : posterFrame d = 1 := by omega
    simp only [Near, sampledAt, one, whole, abs_le]
    omega

/-- Up to a minute the windows agree, and the steps of the frames reach at most one step past the
end. -/
theorem near_long {d : Int} (h : 2000 ≤ d) (long : d ≤ 60000) : Near d := by
  have window : scanEnd d = d := by
    rw [scanEnd_eq]
    omega
  have count : fpsFrames d = (d + 99) / 100 := by
    rw [fpsFrames_eq (by omega)]
    omega
  have pos := step_pos (by omega : 0 ≤ d)
  have some := frames_bounds d
  have cover := frames_cover (by omega : 0 < d)
  have tenth : d / 10 * frames d / d * 10 ≤ frames d := by
    have quotient := Int.ediv_mul_le (d / 10 * frames d) (b := d) (by omega)
    have share : d / 10 * 10 * frames d ≤ d * frames d :=
      Int.mul_le_mul_of_nonneg_right (by omega) (by omega)
    refine Int.le_of_mul_le_mul_right (a := d) ?_ (by omega)
    linarith
  have place : posterFrame d = d / 10 * frames d / d := by
    rw [posterFrame_eq (by omega), window]
    omega
  have upper : posterFrame d * step d * 10 ≤ frames d * step d := by
    have scaled := Int.mul_le_mul_of_nonneg_right tenth (by omega : 0 ≤ step d)
    rw [place]
    linarith
  have lower : d / 10 < (posterFrame d * step d + step d) * 100 := by
    have quotient := Int.lt_ediv_add_one_mul_self (d / 10 * frames d) (by omega : 0 < d)
    rw [← place] at quotient
    have scaled := Int.mul_lt_mul_of_pos_right quotient (by omega : 0 < step d)
    have covered := Int.mul_le_mul_of_nonneg_left cover.1 (by omega : 0 ≤ d / 10)
    have share : d / 10 * d ≤ d / 10 * (fpsFrames d * 100) :=
      Int.mul_le_mul_of_nonneg_left (by omega) (by omega)
    refine Int.lt_of_mul_lt_mul_right (a := d) ?_ (by omega)
    linarith
  have last : (frames d - 1) * step d = frames d * step d - step d := by
    rw [Int.sub_mul, Int.one_mul]
  simp only [Near, sampledAt, abs_le, last]
  omega

/-- After a minute, the frames are six tenths of a second apart. -/
theorem near_longest {d : Int} (h : 60000 < d) : Near d := by
  have window : scanEnd d = 60000 := by
    rw [scanEnd_eq]
    omega
  have count : fpsFrames d = 600 := by
    rw [fpsFrames_eq (by omega)]
    omega
  have six : step d = 6 := by
    rw [step_eq (by omega), count]
    decide
  have hundred : frames d = 100 := by
    rw [frames_eq (by omega), six, count]
    decide
  have place := posterFrame_eq (by omega : 0 ≤ d)
  rw [window, hundred] at place
  simp only [Near, sampledAt, six, hundred, abs_le]
  omega

theorem near_iff_duration {d : Int} (h : 0 ≤ d) : Near d ↔ d ≤ 1000 ∨ 1400 < d := by
  by_cases short : d < 2000
  · exact near_short h short
  · have near : Near d := by
      by_cases long : d ≤ 60000
      · exact near_long (by omega) long
      · exact near_longest (by omega)
    exact ⟨fun _ => .inr (by omega), fun _ => near⟩

/-- The rest holds of every duration. -/
theorem fits_iff (durationMs : Int) (h : 0 ≤ durationMs) :
    Fits durationMs ↔ durationMs ≤ 1000 ∨ 1400 < durationMs := by
  rw [← near_iff_duration h]
  constructor
  · intro fits
    exact (near_iff durationMs).mp fits.near
  · intro near
    constructor
    · exact frames_bounds durationMs
    · exact frames_sampled
    · exact sheet_eq durationMs
    · exact fun frame first last => cell_inside first last
    · exact posterFrame_placed h
    · exact (near_iff durationMs).mpr near

theorem fits_iff_ten_seconds : 0 ≤ (10000 : Int) ∧ Fits 10000 :=
  ⟨by decide, (fits_iff 10000 (by decide)).mpr (.inr (by decide))⟩

/-- The sheet has a frame at 100 ms and one at 200 ms; the poster is from 120 ms. -/
theorem poster_at_first_frame : ¬ Fits 1200 ∧ frames 1200 = 12 ∧ step 1200 = 1 ∧
    posterFrame 1200 = 0 := by
  refine ⟨fun fits => ?_, by decide, by decide, ?_⟩
  · have near := (near_iff_duration (by decide)).mp ((near_iff 1200).mp fits.near)
    exact absurd near (by decide)
  · rw [posterFrame_eq (by decide)]
    decide

end Vidsilo.Media.Sprites
