import Mathlib.Data.UInt
import Mathlib.Data.Fintype.Basic
import Mathlib.Data.List.FinRange
import PrismSdk.Library.SharedLens

/-! The control records of the four cameras of `camera_control.hpp`. Bounds, target and
the automatic modes are global: every record repeats them, and they are a part that the
records share. Manual values are of one camera alone. -/

namespace PrismSdk.CameraControl

open Library (Lens)

structure CameraRowGainConfig where
  minRows : UInt16 := 3
  maxRows : UInt16 := 4096
  manualRows : UInt16 := 100
  minGainSixteenths : UInt16 := 16
  maxGainSixteenths : UInt16 := 900
  manualGainSixteenths : UInt16 := 16
  targetRaw12 : UInt16 := 1433
  deadbandRaw12 : UInt16 := 100
  automaticExposure : Bool := false
  automaticGain : Bool := false
  deriving DecidableEq, Repr

def validCameraRowGainConfig (c : CameraRowGainConfig) : Bool :=
  c.minRows ≥ 3 ∧ c.maxRows ≤ 4096 ∧ c.minRows ≤ c.manualRows ∧ c.manualRows ≤ c.maxRows ∧
    c.minGainSixteenths ≥ 16 ∧ c.maxGainSixteenths ≤ 900 ∧
    c.minGainSixteenths ≤ c.manualGainSixteenths ∧
    c.manualGainSixteenths ≤ c.maxGainSixteenths ∧
    c.targetRaw12 ≥ 1 ∧ c.targetRaw12 ≤ 4095 ∧ c.deadbandRaw12 < c.targetRaw12 ∧
    c.targetRaw12.toUInt32 + c.deadbandRaw12.toUInt32 ≤ 4095

structure CameraControlGlobalSettings where
  minRows : UInt16 := 3
  maxRows : UInt16 := 4096
  minGainSixteenths : UInt16 := 16
  maxGainSixteenths : UInt16 := 900
  targetRaw12 : UInt16 := 1433
  deadbandRaw12 : UInt16 := 100
  automaticExposure : Bool := false
  automaticGain : Bool := false
  deriving DecidableEq, Repr

/-- `std::array<CameraRowGainConfig, 4>`. -/
abbrev Records := Fin 4 → CameraRowGainConfig

def sharedCameraControlGlobals (v : Records) : Bool :=
  let g := v 0
  (List.finRange 4).all fun i =>
    let c := v i
    !(c.minRows ≠ g.minRows ∨ c.maxRows ≠ g.maxRows ∨
      c.minGainSixteenths ≠ g.minGainSixteenths ∨ c.maxGainSixteenths ≠ g.maxGainSixteenths ∨
      c.targetRaw12 ≠ g.targetRaw12 ∨ c.deadbandRaw12 ≠ g.deadbandRaw12 ∨
      c.automaticExposure ≠ g.automaticExposure ∨ c.automaticGain ≠ g.automaticGain : Bool)

def cameraControlGlobals (v : Records) : Except String CameraControlGlobalSettings :=
  if !sharedCameraControlGlobals v then .error "camera bounds/target must be global"
  else
    let c := v 0
    .ok ⟨c.minRows, c.maxRows, c.minGainSixteenths, c.maxGainSixteenths, c.targetRaw12,
      c.deadbandRaw12, c.automaticExposure, c.automaticGain⟩

/-- The assignments in the loop of `withCameraControlGlobals`. -/
def assignGlobals (g : CameraControlGlobalSettings) (c : CameraRowGainConfig) :
    CameraRowGainConfig :=
  { c with
    minRows := g.minRows
    maxRows := g.maxRows
    minGainSixteenths := g.minGainSixteenths
    maxGainSixteenths := g.maxGainSixteenths
    targetRaw12 := g.targetRaw12
    deadbandRaw12 := g.deadbandRaw12
    automaticExposure := g.automaticExposure
    automaticGain := g.automaticGain }

def withCameraControlGlobals (v : Records) (g : CameraControlGlobalSettings) :
    Except String Records :=
  (List.finRange 4).foldlM (fun v i =>
    if !validCameraRowGainConfig (assignGlobals g (v i)) then
      .error "global bounds/target invalid for a camera's manual settings"
    else .ok (Function.update v i (assignGlobals g (v i)))) v

/-! ### The shared part -/

/-- The global settings that a record repeats. -/
def globals : Lens CameraRowGainConfig CameraControlGlobalSettings where
  get c := ⟨c.minRows, c.maxRows, c.minGainSixteenths, c.maxGainSixteenths, c.targetRaw12,
    c.deadbandRaw12, c.automaticExposure, c.automaticGain⟩
  put := assignGlobals
  get_put _ _ := rfl
  put_get _ := rfl
  put_put _ _ _ := rfl

theorem sharedCameraControlGlobals_iff (v : Records) :
    sharedCameraControlGlobals v = true ↔ globals.Shared v := by
  have hfirst : sharedCameraControlGlobals v = true ↔
      ∀ i, globals.get (v i) = globals.get (v 0) := by
    simp only [sharedCameraControlGlobals, globals, List.all_eq_true, List.mem_finRange,
      forall_const, Bool.not_eq_true', decide_eq_false_iff_not, not_or, not_not,
      CameraControlGlobalSettings.mk.injEq]
  rw [hfirst]
  exact ⟨fun h i j => (h i).trans (h j).symm, fun h i => h i 0⟩

theorem cameraControlGlobals_eq_ok {v : Records} {g : CameraControlGlobalSettings} :
    cameraControlGlobals v = .ok g ↔ globals.Shared v ∧ globals.get (v 0) = g := by
  unfold cameraControlGlobals
  rw [← sharedCameraControlGlobals_iff]
  cases sharedCameraControlGlobals v with
  | false => simp
  | true => simp [globals]

/-- The loop puts the settings into all records or into none. -/
theorem withCameraControlGlobals_eq (v : Records) (g : CameraControlGlobalSettings) :
    withCameraControlGlobals v g = globals.putAll validCameraRowGainConfig
      "global bounds/target invalid for a camera's manual settings" g v :=
  globals.foldlM_putAll (List.nodup_finRange 4) List.mem_finRange _ _ g v

/-- Every default is valid, and all cameras start from the same global settings. -/
theorem default_valid : validCameraRowGainConfig {} = true ∧
    cameraControlGlobals (fun _ => {}) = .ok {} := by
  constructor
  · decide
  · rfl

/-- The record with the global settings `g` and manual values of its own. -/
def CameraControlGlobalSettings.withManual (g : CameraControlGlobalSettings)
    (rows gainSixteenths : UInt16) : CameraRowGainConfig where
  minRows := g.minRows
  maxRows := g.maxRows
  manualRows := rows
  minGainSixteenths := g.minGainSixteenths
  maxGainSixteenths := g.maxGainSixteenths
  manualGainSixteenths := gainSixteenths
  targetRaw12 := g.targetRaw12
  deadbandRaw12 := g.deadbandRaw12
  automaticExposure := g.automaticExposure
  automaticGain := g.automaticGain

/-- The global settings are a lawful lens over the four records, and an update of them is
all or nothing. -/
theorem globals_lawful :
    (∀ v g, (∃ what, withCameraControlGlobals v g = .error what) ↔
      ∃ i, validCameraRowGainConfig
        (g.withManual (v i).manualRows (v i).manualGainSixteenths) = false) ∧
    (∀ v g w, withCameraControlGlobals v g = .ok w →
      (∀ i, (w i).manualRows = (v i).manualRows ∧
        (w i).manualGainSixteenths = (v i).manualGainSixteenths) ∧
      sharedCameraControlGlobals w = true ∧ (∀ i, validCameraRowGainConfig (w i) = true) ∧
      cameraControlGlobals w = .ok g) ∧
    (∀ v, sharedCameraControlGlobals v = true → (∀ i, validCameraRowGainConfig (v i) = true) →
      ∃ g, cameraControlGlobals v = .ok g ∧ withCameraControlGlobals v g = .ok v) ∧
    (∀ v g₁ g₂ w, withCameraControlGlobals v g₁ = .ok w →
      withCameraControlGlobals w g₂ = withCameraControlGlobals v g₂) ∧
    ∀ v, (∃ what, cameraControlGlobals v = .error what) ↔ sharedCameraControlGlobals v = false := by
  simp only [withCameraControlGlobals_eq, sharedCameraControlGlobals_iff]
  refine ⟨fun v g => ?_, fun v g w h => ?_, fun v hshared hvalid => ?_, fun v g₁ g₂ w h => ?_,
    fun v => ?_⟩
  · simp only [globals.putAll_eq_error, exists_eq_left']
    rfl
  · obtain ⟨hvalid, hw⟩ := globals.putAll_eq_ok.1 h
    refine ⟨fun i => ?_, globals.shared_of_putAll h, hvalid, ?_⟩
    · rw [hw]
      exact ⟨rfl, rfl⟩
    · exact cameraControlGlobals_eq_ok.2 ⟨globals.shared_of_putAll h, globals.get_of_putAll h 0⟩
  · exact ⟨_, cameraControlGlobals_eq_ok.2 ⟨hshared, rfl⟩, globals.putAll_get hshared hvalid 0⟩
  · exact globals.putAll_putAll h g₂
  · unfold cameraControlGlobals
    cases sharedCameraControlGlobals v with
    | false => simp
    | true => simp

end PrismSdk.CameraControl
