import TaktOS.Proof.TelemetryFlush

/-!
# The spacing of uploads

`tick` keeps 32 bits of the milliseconds since the start and compares their difference, which wraps
every 49.7 days. What the difference loses is whole wraps of time gone by, and the clock does not go
back: the time that has passed is at least the difference, so an upload is never early. It can be
late, by up to an interval in every wrap.
-/

namespace TaktOS.Proof

open Lib TelemetryService

variable {δ : Type}

/-! ## Milliseconds in 32 bits -/

/-- **What is left of a difference in 32 bits is at most the difference**, if it is not negative. -/
theorem wrapped_sub_le {a b : Nat} (h : a ≤ b) :
    (UInt32.ofNat b - UInt32.ofNat a).toNat ≤ b - a := by
  have hwrap : (UInt32.ofNat b - UInt32.ofNat a).toNat = (b - a) % 2 ^ 32 := by
    rw [UInt32.toNat_sub, UInt32.toNat_ofNat', UInt32.toNat_ofNat']
    omega
  rw [hwrap]
  exact Nat.mod_le _ _

/-- Whole milliseconds of uptime. -/
def wholeMs (uptimeUs : UInt64) : Nat := uptimeUs.toNat / 1000

theorem uptimeMs_eq (uptimeUs : UInt64) : uptimeMs uptimeUs = UInt32.ofNat (wholeMs uptimeUs) := by
  apply UInt32.toNat_inj.mp
  rw [uptimeMs, UInt64.toNat_toUInt32, UInt64.toNat_div, UInt32.toNat_ofNat']
  rfl

/-! ## What a call does to the time of the last upload -/

/-- The test of `tick`. -/
def uploadDue (t : TelemetryService) (uptimeUs : UInt64) : Bool :=
  t.flushPending && uptimeMs uptimeUs - t.lastUploadMs ≥ t.uploadIntervalMs

/-- `tick` calls `uploadBatch` exactly when the test is met. -/
theorem tick_uploads (t : TelemetryService) (sm : StorageManager δ) (uptimeUs : UInt64) :
    t.tick sm uptimeUs =
      if uploadDue t uptimeUs then
        (t.uploadBatch sm).map fun p => ({ p.1 with lastUploadMs := uptimeMs uptimeUs }, p.2)
      else some (t, sm) := by
  rw [tick, uploadDue]
  split
  · cases t.uploadBatch sm <;> rfl
  · rfl

/-- The call makes `tick` call `uploadBatch`; then it is what the clock reads. -/
def uploadAt (t : TelemetryService) : TelemetryOp → Option UInt64
  | .tick uptimeUs => if uploadDue t uptimeUs then some uptimeUs else none
  | _ => none

theorem flushToFlash_lastUploadMs {t t' : TelemetryService} {sm sm' : StorageManager δ}
    (h : t.flushToFlash sm = some (t', sm')) : t'.lastUploadMs = t.lastUploadMs := by
  rw [flushToFlash] at h
  split at h
  · exact (Prod.mk.inj (Option.some.inj h)).1 ▸ rfl
  · split at h
    · exact absurd h (by simp)
    · split at h
      · exact absurd h (by simp)
      · exact (Prod.mk.inj (Option.some.inj h)).1 ▸ rfl

/-- Only an upload changes it. -/
theorem call_lastUploadMs {op : TelemetryOp} {t t' : TelemetryService} {sm sm' : StorageManager δ}
    (h : op.call t sm = some (t', sm')) :
    t'.lastUploadMs = ((uploadAt t op).map uptimeMs).getD t.lastUploadMs := by
  cases op with
  | record rec =>
    obtain rfl := (Prod.mk.inj (Option.some.inj h)).1
    rw [record]
    split <;> rfl
  | setUploadIntervalMs ms =>
    obtain rfl := (Prod.mk.inj (Option.some.inj h)).1
    rfl
  | shutdown => exact flushToFlash_lastUploadMs h
  | tick uptimeUs =>
    rw [TelemetryOp.call, tick_uploads] at h
    rw [uploadAt]
    split at h
    · rename_i hdue
      obtain ⟨p, -, hp⟩ := Option.map_eq_some_iff.mp h
      rw [if_pos hdue, ← (Prod.mk.inj hp).1]
      rfl
    · rename_i hdue
      obtain rfl := (Prod.mk.inj (Option.some.inj h)).1
      rw [if_neg hdue]
      rfl

/-! ## Runs -/

/-- The service, with the last reading of the clock and when `tick` last called `uploadBatch`. -/
structure UploadHistory where
  service : TelemetryService
  readUs : UInt64 := 0
  uploadedMs : Option Nat := none

/-- The reading of the clock that a call makes. -/
def TelemetryOp.reading : TelemetryOp → Option UInt64
  | .tick uptimeUs => some uptimeUs
  | _ => none

/-- What a sequence of calls reads from the clock. -/
def clockReadings (calls : List (TelemetryOp × StorageManager δ)) : List UInt64 :=
  calls.filterMap fun call => call.1.reading

theorem clockReadings_cons (call : TelemetryOp × StorageManager δ)
    (calls : List (TelemetryOp × StorageManager δ)) :
    clockReadings (call :: calls) = call.1.reading.toList ++ clockReadings calls := by
  rw [clockReadings, List.filterMap_cons]
  cases call.1.reading <;> rfl

/-- A call, with the storage as the call finds it. -/
def uploadStep (s : UploadHistory) (call : TelemetryOp × StorageManager δ) :
    Option UploadHistory :=
  (call.1.call s.service call.2).map fun p =>
    { service := p.1
      readUs := call.1.reading.getD s.readUs
      uploadedMs := ((uploadAt s.service call.1).map wholeMs).or s.uploadedMs }

/-- **An upload is at least the interval after the one before it**, in milliseconds that do not
wrap. -/
def UploadSpaced (s : UploadHistory) (call : TelemetryOp × StorageManager δ) : Prop :=
  ∀ uptimeUs last, uploadAt s.service call.1 = some uptimeUs → s.uploadedMs = some last →
    last + s.service.uploadIntervalMs.toNat ≤ wholeMs uptimeUs

/-- The clock does not go back. -/
def ReadingRises (s : UploadHistory) (call : TelemetryOp × StorageManager δ) : Prop :=
  ∀ uptimeUs, call.1.reading = some uptimeUs → s.readUs ≤ uptimeUs

/-- What is kept of the last upload is its time in 32 bits, and that was not after now. -/
def UploadLaw (s : UploadHistory) : Prop :=
  ∀ last, s.uploadedMs = some last →
    s.service.lastUploadMs = UInt32.ofNat last ∧ last ≤ wholeMs s.readUs

theorem wholeMs_mono {a b : UInt64} (h : a ≤ b) : wholeMs a ≤ wholeMs b :=
  Nat.div_le_div_right (UInt64.le_iff_toNat_le.mp h)

theorem uploadAt_reading {t : TelemetryService} {op : TelemetryOp} {uptimeUs : UInt64}
    (h : uploadAt t op = some uptimeUs) :
    op.reading = some uptimeUs ∧ uploadDue t uptimeUs = true := by
  cases op with
  | tick us =>
    rw [uploadAt] at h
    split at h
    · rename_i hdue
      exact ⟨h, Option.some.inj h ▸ hdue⟩
    · exact absurd h (by simp)
  | record | setUploadIntervalMs | shutdown => exact absurd h (by simp [uploadAt])

theorem uploadLaw_step {s s' : UploadHistory} {call : TelemetryOp × StorageManager δ}
    (hl : UploadLaw s) (hrise : ReadingRises s call) (h : uploadStep s call = some s') :
    UploadLaw s' := by
  obtain ⟨op, sm⟩ := call
  obtain ⟨⟨t, sm'⟩, hcall, rfl⟩ := Option.map_eq_some_iff.mp h
  have hkept := call_lastUploadMs hcall
  intro last hlast
  dsimp only at hlast ⊢
  rw [hkept]
  cases hup : uploadAt s.service op with
  | some uptimeUs =>
    rw [hup] at hlast
    obtain rfl : wholeMs uptimeUs = last := Option.some.inj hlast
    rw [(uploadAt_reading hup).1]
    exact ⟨uptimeMs_eq uptimeUs, Nat.le_refl _⟩
  | none =>
    rw [hup] at hlast
    obtain ⟨hms, hle⟩ := hl last hlast
    refine ⟨hms, Nat.le_trans hle ?_⟩
    cases hread : op.reading with
    | none => exact Nat.le_refl _
    | some uptimeUs => exact wholeMs_mono (hrise uptimeUs hread)

/-- **An upload that is due is not early.** -/
theorem UploadLaw.spaced {s : UploadHistory} {call : TelemetryOp × StorageManager δ}
    (hl : UploadLaw s) (hrise : ReadingRises s call) : UploadSpaced s call := by
  intro uptimeUs last hup hlast
  obtain ⟨hread, hdue⟩ := uploadAt_reading hup
  obtain ⟨hms, hle⟩ := hl last hlast
  rw [uploadDue, Bool.and_eq_true, decide_eq_true_eq, hms, uptimeMs_eq] at hdue
  have hnow : last ≤ wholeMs uptimeUs := Nat.le_trans hle (wholeMs_mono (hrise uptimeUs hread))
  have hpassed : s.service.uploadIntervalMs.toNat ≤ wholeMs uptimeUs - last :=
    Nat.le_trans (UInt32.le_iff_toNat_le.mp hdue.2) (wrapped_sub_le hnow)
  omega

/-- Readings in order rise along the run. -/
theorem clockReadings_rise {calls : List (TelemetryOp × StorageManager δ)} :
    ∀ {s : UploadHistory}, (∀ u ∈ clockReadings calls, s.readUs ≤ u) →
      (clockReadings calls).Pairwise (· ≤ ·) → Along uploadStep ReadingRises s calls := by
  induction calls with
  | nil => intro s _ _; trivial
  | cons call calls ih =>
    intro s hfirst hsorted
    rw [clockReadings_cons] at hfirst hsorted
    refine ⟨fun u hu => hfirst u ?_, fun s' hs => ?_⟩
    · rw [hu]
      exact List.mem_cons_self
    · obtain ⟨p, -, rfl⟩ := Option.map_eq_some_iff.mp hs
      cases hread : call.1.reading with
      | none =>
        rw [hread] at hfirst hsorted
        exact ih hfirst hsorted
      | some u =>
        rw [hread] at hsorted
        have hsorted' := List.pairwise_cons.mp hsorted
        exact ih hsorted'.1 hsorted'.2

/--
**Uploads are spaced.** For every sequence of calls whose readings of the clock do not go down, over
any storage, two consecutive uploads of `tick` are at least the interval then set apart in whole
milliseconds, whether or not their 32 bits wrapped in between.
-/
theorem uploads_spaced (cachePool : Nat → UInt8) (poolSize : Nat)
    (calls : List (TelemetryOp × StorageManager δ))
    (h : (clockReadings calls).Pairwise (· ≤ ·)) :
    Along uploadStep UploadSpaced { service := .ofPool cachePool poolSize } calls :=
  along_of_invariant UploadLaw (fun _ _ _ hl hr hs => uploadLaw_step hl hr hs)
    (fun _ _ hl hr => hl.spaced hr) (fun last hlast => absurd hlast (by simp))
    (clockReadings_rise (fun _ _ => UInt64.zero_le) h)

/-- An upload after a minute, a tick a wrap and 10 seconds after it, and one a wrap and a minute
after it. -/
def callsAcrossWrap : List (TelemetryOp × StorageManager Unit) :=
  let rec₁ : TelemetryRecord := ⟨1, 20, 0, Vector.replicate 3 0⟩
  let rec₂ : TelemetryRecord := ⟨2, 21, 0, Vector.replicate 3 0⟩
  [.record rec₁, .tick 60000000, .record rec₂, .tick 4295037296000, .tick 4295087296000].map
    fun op => (op, { target := .esp32, device := () })

/-- The tick after the wrap that is a minute on in 32 bits is the one that uploads. -/
theorem uploads_spaced_across_wrap :
    (run uploadStep { service := .ofPool (fun _ => 0) 256 } callsAcrossWrap).map
        UploadHistory.uploadedMs = some (some 4295087296) ∧
      Along uploadStep UploadSpaced { service := .ofPool (fun _ => 0) 256 } callsAcrossWrap :=
  ⟨by decide, uploads_spaced _ _ _ (by decide)⟩

end TaktOS.Proof
