import TaktOS.Proof.DfuIsolation
import TaktOS.Proof.PartitionAccess

/-!
# What activating a slot means on the device

The lookup asks for the label of the slot and the subtype of `ota_0`, so for slot 1 it finds
nothing. A partition that is not found, or that the ESP-IDF will not set, is no error: the
call goes on to mark the header and returns true with the boot partition as it was.
-/

namespace TaktOS.Proof

open Lib

variable {δ : Type}

/-! ## The partition table -/

/-- A table with the two OTA partitions, each the one app partition of its label. -/
structure OtaTable (table : List EspTableEntry) (ota0 ota1 : EspTableEntry) : Prop where
  mem0 : ota0 ∈ table
  named0 : ota0.answers (some .app) (some espSubtypeAppOta0) (some "ota_0") = true
  mem1 : ota1 ∈ table
  named1 : ota1.answers (some .app) (some espSubtypeAppOta1) (some "ota_1") = true
  only0 : ∀ p ∈ table, p.type = .app → p.label = "ota_0" → p = ota0
  only1 : ∀ p ∈ table, p.type = .app → p.label = "ota_1" → p = ota1

theorem answers_iff {p : EspTableEntry} {type : EspPartitionType} {subtype : UInt8}
    {label : String} :
    p.answers (some type) (some subtype) (some label) = true
      ↔ p.type = type ∧ p.subtype = subtype ∧ p.label = label := by
  simp [EspTableEntry.answers, and_assoc]

section Lookup

variable {idf : EspIdf δ} {table : List EspTableEntry} {addressed : δ → List FlashAccess}
  {ota0 ota1 : EspTableEntry}

/-- Slot 0 is looked up as it is labelled. -/
theorem slotPartition_zero (hidf : idf.Documented table addressed)
    (ht : OtaTable table ota0 ota1) : FirmwareCache.slotPartition idf 0 = some ota0 := by
  have hlabel : FirmwareCache.slotLabel 0 = "ota_0" := rfl
  unfold FirmwareCache.slotPartition
  rw [hidf.findFirst, hlabel]
  cases hfind : table.find? fun p =>
      p.answers (some .app) (some espSubtypeAppOtaMin) (some "ota_0") with
  | none => exact absurd ht.named0 (List.find?_eq_none.mp hfind ota0 ht.mem0)
  | some p =>
    have hans := List.find?_some hfind
    obtain ⟨htype, _, hname⟩ := answers_iff.mp hans
    rw [ht.only0 p (List.mem_of_find?_eq_some hfind) htype hname]

/-- **Slot 1 is looked up with the subtype of slot 0**, so it is not found. -/
theorem slotPartition_one (hidf : idf.Documented table addressed)
    (ht : OtaTable table ota0 ota1) : FirmwareCache.slotPartition idf 1 = none := by
  have hlabel : FirmwareCache.slotLabel 1 = "ota_1" := by decide
  unfold FirmwareCache.slotPartition
  rw [hidf.findFirst, hlabel]
  refine List.find?_eq_none.mpr fun p hp hans => ?_
  obtain ⟨htype, hsub, hname⟩ := answers_iff.mp hans
  obtain ⟨_, hsub1, _⟩ := answers_iff.mp ht.named1
  rw [ht.only1 p hp htype hname, hsub1] at hsub
  exact absurd hsub (by decide)

end Lookup

/-! ## Activating and judging -/

/-- The image in the partition has a description the bootloader accepts. -/
def ImageValid (idf : EspIdf δ) (part : EspTableEntry) : Prop :=
  idf.description part.toEspPartition = some espAppDescMagicWord

/--
**Activating the slot is about its partition**: a call that returns true has made it the boot
partition, and validating the slot judges the image in it.
-/
structure ActivationMeans (idf : EspIdf δ) (setBoot : EspTableEntry → Bool)
    (fc : FirmwareCache) (sm : StorageManager δ) (boot : Option EspTableEntry) (slot : UInt8)
    (part : EspTableEntry) : Prop where
  booted : ∀ fc' sm' boot',
    fc.activateSlotEsp32 idf setBoot sm boot slot = some (true, fc', sm', boot') →
      boot' = some part
  judged : ∀ gpio0 settable started,
    (Bootloader.validateFirmware
      (.esp32 gpio0 (idf.espOta settable started) : BootEnv δ) slot).1 = true ↔ ImageValid idf part

/-- The header is written back where the slot verifies and no boot partition is set. -/
theorem markBootable_eq (fc : FirmwareCache) (sm : StorageManager δ) (slot : UInt8) :
    fc.markBootable (fc.verify sm slot).2 slot
      = (bootableWrite fc sm slot).map fun t => ({ fc with activeSlot := slot }, t.2) := by
  unfold FirmwareCache.markBootable bootableWrite bootable
  dsimp only
  split
  · rename_i hw
    rw [hw]
    rfl
  · rename_i hw
    rw [hw]
    rfl

/-- What a slot that verifies is activated to. -/
theorem activateSlotEsp32_verified {idf : EspIdf δ} {setBoot : EspTableEntry → Bool}
    {fc : FirmwareCache} {sm : StorageManager δ} {boot : Option EspTableEntry} {slot : UInt8}
    (hslot : slot ≤ 1) (hv : (fc.verify sm slot).1 = true) :
    fc.activateSlotEsp32 idf setBoot sm boot slot
      = match (FirmwareCache.slotPartition idf slot).filter setBoot with
        | some part => some (true, { fc with activeSlot := slot }, (fc.verify sm slot).2, some part)
        | none => (bootableWrite fc sm slot).map fun t =>
            (true, { fc with activeSlot := slot }, t.2, boot) := by
  unfold FirmwareCache.activateSlotEsp32
  rw [if_neg (UInt8.not_lt.mpr hslot)]
  dsimp only
  rw [hv, markBootable_eq]
  simp only [Bool.not_true, Bool.false_eq_true, if_false, Option.map_map]
  rfl

/-! ## The condition -/

/-- The slot does not verify, or setting the boot partition succeeds, or that was the slot's
partition already, or the call does not come back from writing the header. -/
def BootFollows (setBoot : EspTableEntry → Bool) (fc : FirmwareCache) (sm : StorageManager δ)
    (boot : Option EspTableEntry) (slot : UInt8) (part : EspTableEntry) : Prop :=
  (fc.verify sm slot).1 = false ∨ (slot = 0 ∧ setBoot part = true) ∨ boot = some part
    ∨ bootableWrite fc sm slot = none

/-- **Without a boot partition to set, activating leaves the one there was.** -/
theorem booted_iff_of_none {idf : EspIdf δ} {setBoot : EspTableEntry → Bool}
    {fc : FirmwareCache} {sm : StorageManager δ} {boot : Option EspTableEntry} {slot : UInt8}
    {part : EspTableEntry} (hslot : slot ≤ 1)
    (hnone : (FirmwareCache.slotPartition idf slot).filter setBoot = none) :
    (∀ fc' sm' boot',
        fc.activateSlotEsp32 idf setBoot sm boot slot = some (true, fc', sm', boot') →
          boot' = some part)
      ↔ (fc.verify sm slot).1 = false ∨ boot = some part ∨ bootableWrite fc sm slot = none := by
  cases hv : (fc.verify sm slot).1 with
  | false =>
    refine iff_of_true (fun fc' sm' boot' h => ?_) (Or.inl rfl)
    cases activateSlotEsp32_outcome h with
    | bootSet _ hv' => exact absurd (hv.symm.trans hv') (by simp)
    | marked _ hv' => exact absurd (hv.symm.trans hv') (by simp)
  | true =>
    rw [activateSlotEsp32_verified hslot hv, hnone]
    cases bootableWrite fc sm slot with
    | none => simp
    | some t => simp

theorem booted_iff {idf : EspIdf δ} {table : List EspTableEntry}
    {addressed : δ → List FlashAccess} {ota0 ota1 : EspTableEntry}
    (hidf : idf.Documented table addressed) (ht : OtaTable table ota0 ota1)
    (setBoot : EspTableEntry → Bool) (fc : FirmwareCache) (sm : StorageManager δ)
    (boot : Option EspTableEntry) {slot : UInt8} (hslot : slot ≤ 1) :
    (∀ fc' sm' boot',
        fc.activateSlotEsp32 idf setBoot sm boot slot = some (true, fc', sm', boot') →
          boot' = some (otaOf ota0 ota1 slot))
      ↔ BootFollows setBoot fc sm boot slot (otaOf ota0 ota1 slot) := by
  unfold BootFollows
  rcases le_one_cases hslot with rfl | rfl
  · have hota : otaOf ota0 ota1 0 = ota0 := rfl
    have hfound := slotPartition_zero hidf ht
    rw [hota]
    cases hset : setBoot ota0 with
    | true =>
      refine iff_of_true (fun fc' sm' boot' h => ?_) (Or.inr (Or.inl ⟨rfl, rfl⟩))
      cases activateSlotEsp32_outcome h with
      | bootSet _ _ hpart => exact hpart.symm.trans hfound
      | marked _ _ hnone => simp [hfound, hset] at hnone
    | false =>
      rw [booted_iff_of_none hslot (by simp [hfound, hset])]
      simp
  · have hota : otaOf ota0 ota1 1 = ota1 := rfl
    rw [hota, booted_iff_of_none hslot (by simp [slotPartition_one hidf ht])]
    simp

theorem judged_iff {idf : EspIdf δ} {table : List EspTableEntry}
    {addressed : δ → List FlashAccess} {ota0 ota1 : EspTableEntry}
    (hidf : idf.Documented table addressed) (ht : OtaTable table ota0 ota1) {slot : UInt8}
    (hslot : slot ≤ 1) :
    (∀ gpio0 settable started, (Bootloader.validateFirmware
        (.esp32 gpio0 (idf.espOta settable started) : BootEnv δ) slot).1 = true
          ↔ ImageValid idf (otaOf ota0 ota1 slot))
      ↔ slot = 0 ∨ ¬ ImageValid idf (otaOf ota0 ota1 slot) := by
  rcases le_one_cases hslot with rfl | rfl
  · refine iff_of_true (fun gpio0 settable started => ?_) (Or.inl rfl)
    have hota : (idf.espOta settable started).ota0 = some ota0.toEspPartition := by
      simp [EspIdf.espOta, slotPartition_zero hidf ht]
    have hdesc : (idf.espOta settable started).description = idf.description := rfl
    simp only [Bootloader.validateFirmware, if_true, hota, hdesc, ImageValid, otaOf]
    cases idf.description ota0.toEspPartition <;> simp
  · have hfalse : ∀ gpio0 settable started, (Bootloader.validateFirmware
        (.esp32 gpio0 (idf.espOta settable started) : BootEnv δ) 1).1 = false := by
      intro gpio0 settable started
      have hota : (idf.espOta settable started).ota1 = none := by
        simp [EspIdf.espOta, slotPartition_one hidf ht]
      simp [Bootloader.validateFirmware, hota]
    refine ⟨fun h => Or.inr fun hvalid => ?_, fun h gpio0 settable started => ?_⟩
    · have hjudged := (h true (fun _ => true) ota0.toEspPartition).mpr hvalid
      exact absurd ((hfalse true _ _).symm.trans hjudged) (by simp)
    · rw [hfalse]
      exact iff_of_false (by simp) (h.resolve_left (by decide))

/-! ## The theorem -/

/--
**When activating a slot is about its partition.** For every partition table with `ota_0` and
`ota_1`, over any chip behind the documented calls, for both slots, every state of the cache,
the storage and the boot partition, and every outcome of `esp_ota_set_boot_partition`:
activating and validating the slot are about its partition if and only if the boot partition
follows, and the slot is slot 0, or `ota_1` holds no valid image.
-/
theorem activation_means_iff {idf : EspIdf δ} {table : List EspTableEntry}
    {addressed : δ → List FlashAccess} {ota0 ota1 : EspTableEntry}
    (hidf : idf.Documented table addressed) (ht : OtaTable table ota0 ota1)
    (setBoot : EspTableEntry → Bool) (fc : FirmwareCache) (sm : StorageManager δ)
    (boot : Option EspTableEntry) {slot : UInt8} (hslot : slot ≤ 1) :
    ActivationMeans idf setBoot fc sm boot slot (otaOf ota0 ota1 slot)
      ↔ BootFollows setBoot fc sm boot slot (otaOf ota0 ota1 slot)
        ∧ (slot = 0 ∨ ¬ ImageValid idf (otaOf ota0 ota1 slot)) := by
  rw [← booted_iff hidf ht setBoot fc sm boot hslot, ← judged_iff hidf ht hslot]
  exact ⟨fun h => ⟨h.booted, h.judged⟩, fun h => ⟨h.1, h.2⟩⟩

/-! ## An update on the device -/

def roomyOta0 : EspTableEntry := ⟨⟨"ota_0", 0x10000⟩, .app, espSubtypeAppOta0, 0x10000⟩

def roomyOta1 : EspTableEntry := ⟨⟨"ota_1", 0x20000⟩, .app, espSubtypeAppOta1, 0x10000⟩

/-- A table whose `storage` is large enough for the slots to be looked for in it. -/
def roomyTable : List EspTableEntry :=
  [roomyOta0, roomyOta1, ⟨⟨"storage", 0x30000⟩, .data, 0x40, 0x40000⟩]

/-- A device with that table and valid images in both partitions. -/
def roomyChip (running : EspTableEntry) : EspIdf ((Nat → UInt8) × List FlashAccess) :=
  { chip roomyTable (some running) with description := fun _ => some espAppDescMagicWord }

theorem roomyChip_documented (running : EspTableEntry) :
    (roomyChip running).Documented roomyTable (fun d => d.2) := by
  have h := chip_documented roomyTable (some running)
  exact ⟨h.findFirst, h.read, h.write, h.eraseRange⟩

theorem roomy_otaTable : OtaTable roomyTable roomyOta0 roomyOta1 where
  mem0 := by decide
  named0 := by decide
  mem1 := by decide
  named1 := by decide
  only0 := by decide
  only1 := by decide

/-- The device after an update of two bytes into the slot that does not run. -/
def updated (running : EspTableEntry) : Option (DeviceState ((Nat → UInt8) × List FlashAccess)) :=
  run (deviceStep (roomyChip running))
    (deviceStarted (roomyChip running) {} .esp32 (fun _ => erased, []) (some running))
    [.session (.beginWrite 2 7), .session (.writeChunk [3, 4]), .session .finalizeWrite]

/-- Slot 0 is activated as it should be where its partition can be set. -/
theorem activation_means_slot_zero :
    ActivationMeans (roomyChip roomyOta1) (fun _ => true) testCache
      { target := .esp32, device := (fun _ => erased, []) } (some roomyOta1) 0
      (otaOf roomyOta0 roomyOta1 0) :=
  (activation_means_iff (roomyChip_documented roomyOta1) roomy_otaTable (fun _ => true) testCache _
    _ (by decide)).mpr ⟨Or.inr (Or.inl ⟨rfl, rfl⟩), Or.inl rfl⟩

/--
**An update reports success and boots the old image**: slot 1 is activated with `ota_0` still the
boot partition, though every partition found can be set; and slot 0 with `ota_1` still the boot
partition where setting it fails.
-/
theorem activated_without_booting :
    (∃ s, updated roomyOta0 = some s
        ∧ (s.cache.activateSlotEsp32 (roomyChip roomyOta0) (fun _ => true) s.storage s.boot 1).map
          (fun t => (t.1, t.2.2.2)) = some (true, some roomyOta0)
        ∧ ¬ ActivationMeans (roomyChip roomyOta0) (fun _ => true) s.cache s.storage s.boot 1
          roomyOta1)
      ∧ (updated roomyOta1).bind (fun s =>
        (s.cache.activateSlotEsp32 (roomyChip roomyOta1) (fun _ => false) s.storage s.boot 0).map
          fun t => (t.1, t.2.2.2)) = some (true, some roomyOta1) := by
  refine ⟨?_, by decide +kernel⟩
  have hcalls : (updated roomyOta0).bind (fun s =>
      (s.cache.activateSlotEsp32 (roomyChip roomyOta0) (fun _ => true) s.storage s.boot 1).map
        fun t => (t.1, t.2.2.2)) = some (true, some roomyOta0) := by decide +kernel
  obtain ⟨s, hs, hact⟩ := Option.bind_eq_some_iff.mp hcalls
  refine ⟨s, hs, hact, fun hmeans => ?_⟩
  obtain ⟨⟨ok, fc, sm, boot⟩, hcall, hres⟩ := Option.map_eq_some_iff.mp hact
  cases hres
  exact absurd (hmeans.booted _ _ _ hcall) (by decide)

end TaktOS.Proof
