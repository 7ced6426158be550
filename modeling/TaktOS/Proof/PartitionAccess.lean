import TaktOS.Proof.DeviceSteps

/-!
# Which flash the firmware cache reaches on the device

The slots are configured with places in the flash, and the storage they are reached through
counts from the start of the partition `storage`. Every access is rejected there, or lands in
`storage`: no byte of `ota_0` or `ota_1` is ever read, erased or written.
-/

namespace TaktOS.Proof

open Lib

variable {δ : Type}

/-! ## Landing in a slot -/

/-- The partitions `Platform::init` finds, which share no byte. -/
structure Partitions (idf : EspIdf δ) (storage ota0 ota1 : EspTableEntry) : Prop where
  foundStorage : idf.findFirst none none (some "storage") = some storage
  foundOta0 : idf.findFirst (some .app) (some espSubtypeAppOta0) none = some ota0
  foundOta1 : idf.findFirst (some .app) (some espSubtypeAppOta1) none = some ota1
  disjoint0 : storage.Disjoint ota0
  disjoint1 : storage.Disjoint ota1
  disjoint01 : ota0.Disjoint ota1

/-- The partition of a slot. -/
def otaOf (ota0 ota1 : EspTableEntry) (slot : UInt8) : EspTableEntry :=
  if slot = 0 then ota0 else ota1

/-- Between the two records of the chip, the byte at `a` is addressed. -/
def Lands (before after : List FlashAccess) (a : Nat) : Prop :=
  ∃ new, after = new ++ before ∧ ∃ acc ∈ new, acc.Touches a

/-- The read of a slot's bytes from `o` on addresses them in the slot's partition. -/
def ReadLands (addressed : δ → List FlashAccess) (part : EspTableEntry) (s : DeviceState δ)
    (slot : UInt8) (o : UInt32) (buf : List UInt8) : Prop :=
  Lands (addressed s.storage.device)
    (addressed (s.storage.read (s.cache.slotOffset slot + o) buf).2.2.device)
    (part.address.toNat + o.toNat)

/-- The write of a slot's bytes from `o` on, with the erases before it, addresses them in the
slot's partition. -/
def WriteLands (addressed : δ → List FlashAccess) (part : EspTableEntry) (s : DeviceState δ)
    (slot : UInt8) (o : UInt32) (buf : List UInt8) : Prop :=
  ∃ r sm, s.storage.write (s.cache.slotOffset slot + o) buf = some (r, sm)
    ∧ Lands (addressed s.storage.device) (addressed sm.device) (part.address.toNat + o.toNat)

/-! ## What the backend of a partition addresses -/

/-- Since `before`, only bytes of the partition were addressed. -/
def Within (p : EspTableEntry) (before after : List FlashAccess) : Prop :=
  ∃ new, after = new ++ before ∧ ∀ acc ∈ new, ∀ a, acc.Touches a → p.Holds a

theorem Within.refl (p : EspTableEntry) (log : List FlashAccess) : Within p log log :=
  ⟨[], rfl, fun _ h => by cases h⟩

/-- A byte outside the partition is not addressed. -/
theorem Within.not_lands {p : EspTableEntry} {before after : List FlashAccess}
    (h : Within p before after) {a : Nat} (ha : ¬ p.Holds a) : ¬ Lands before after a := by
  rintro ⟨new, hnew, acc, hacc, htouch⟩
  obtain ⟨new', hnew', hin⟩ := h
  rw [List.append_cancel_right (hnew.symm.trans hnew')] at hacc
  exact ha (hin acc hacc a htouch)

/-- One more call on the partition stays in it. -/
theorem Within.call {p : EspTableEntry} {before log log' : List FlashAccess} {off len : Nat}
    {access : Nat → Nat → FlashAccess} {ok : Bool}
    (h : Within p before log) (hcall : OnPartition p off len access log log' ok)
    (haccess : ∀ x n a, (access x n).Touches a → x ≤ a ∧ a < x + n) :
    Within p before log' := by
  obtain ⟨new, hnew, hin⟩ := h
  rcases hcall with ⟨_, rfl⟩ | ⟨hrange, rfl⟩
  · exact ⟨new, hnew, hin⟩
  · refine ⟨access (p.address.toNat + off) len :: new, by rw [hnew]; rfl, ?_⟩
    intro acc hacc a ha
    rcases List.mem_cons.mp hacc with rfl | hacc
    · have := haccess _ _ _ ha
      exact ⟨by omega, by omega⟩
    · exact hin acc hacc a ha

section Backend

variable {idf : EspIdf δ} {table : List EspTableEntry} {addressed : δ → List FlashAccess}
  {part : EspTableEntry}

/-- **Every call of a partition's backend addresses that partition only.** -/
theorem partitionBackend_within (hidf : idf.Documented table addressed)
    (part : EspTableEntry) (before : List FlashAccess) :
    AllKeep (partitionBackend idf part) (fun d => Within part before (addressed d)) where
  read := by
    intro d offset buf h
    simp only [partitionBackend, partitionRead]
    split
    · exact h
    · exact h.call (hidf.read d part offset.toNat buf) fun _ _ _ ha => ha
  write := by
    intro d offset buf h
    simp only [partitionBackend, partitionWrite]
    split
    · exact h
    · exact h.call (hidf.write d part offset.toNat buf) fun _ _ _ ha => ha
  erase := by
    intro d offset len h
    exact h.call (hidf.eraseRange d part offset.toNat len) fun _ _ _ ha => ha

end Backend

/-! ## Runs -/

section Runs

variable {idf : EspIdf δ} {table : List EspTableEntry} {addressed : δ → List FlashAccess}
  {storage ota0 ota1 : EspTableEntry}

/-- The storage counts from the partition `storage`, the slots are those of the OTA partitions,
and since `before` only `storage` was addressed. -/
structure OnStorage (idf : EspIdf δ) (addressed : δ → List FlashAccess)
    (storage ota0 ota1 : EspTableEntry) (before : List FlashAccess) (s : DeviceState δ) :
    Prop where
  backend : s.storage.backend = some (partitionBackend idf storage)
  slotA : s.cache.slotAOffset = ota0.address
  slotB : s.cache.slotBOffset = ota1.address
  within : Within storage before (addressed s.storage.device)

/-- Choosing a slot by its headers only reads. -/
theorem init_after {P : δ → Prop} {sm : StorageManager δ} (hk : ReadKeeps sm P)
    (hp : P sm.device) (fc : FirmwareCache) (slotA slotB size : UInt32) :
    After P sm (fc.init sm slotA slotB size).2 := by
  unfold FirmwareCache.init
  dsimp only
  obtain ⟨d, hd, hpd⟩ := getHeader_after sm hk hp
    { fc with slotAOffset := slotA, slotBOffset := slotB, slotSize := size } 0 {}
  rw [hd]
  obtain ⟨d', hd', hpd'⟩ := getHeader_after { sm with device := d } hk hpd
    { fc with slotAOffset := slotA, slotBOffset := slotB, slotSize := size } 1 {}
  rw [hd']
  exact ⟨d', rfl, hpd'⟩

theorem deviceStarted_onStorage (hidf : idf.Documented table addressed)
    (hp : Partitions idf storage ota0 ota1) (cache : FirmwareCache) (target : Target) (d : δ)
    (boot : Option EspTableEntry) :
    OnStorage idf addressed storage ota0 ota1 (addressed d)
      (deviceStarted idf cache target d boot) := by
  have hk : ReadKeeps { target, backend := some (partitionBackend idf storage), device := d }
      (fun d' => Within storage (addressed d) (addressed d')) :=
    (partitionBackend_within hidf storage (addressed d)).reads rfl
  unfold deviceStarted Platform.init initStorageFromPartition createPartitionBackend
  simp only [hp.foundStorage, hp.foundOta0, hp.foundOta1, Option.map_some]
  unfold FirmwareCache.initEsp32
  split
  · exact ⟨rfl, rfl, rfl, .refl _ _⟩
  · have hafter := init_after hk (.refl storage (addressed d)) cache ota0.address ota1.address
      ota0.size
    exact ⟨hafter.backend, rfl, rfl, hafter.device⟩

theorem OnStorage.step (hidf : idf.Documented table addressed) {before : List FlashAccess}
    {s s' : DeviceState δ} {op : DeviceOp}
    (hi : OnStorage idf addressed storage ota0 ota1 before s)
    (h : deviceStep idf s op = some s') :
    OnStorage idf addressed storage ota0 ota1 before s' := by
  obtain ⟨hslots, hafter⟩ :=
    deviceStep_keeps (partitionBackend_within hidf storage before) hi.backend h hi.within
  exact ⟨hafter.backend.trans hi.backend, hslots.slotA.trans hi.slotA,
    hslots.slotB.trans hi.slotB, hafter.device⟩

/-- **Whatever is called after `Platform::init`, only `storage` is addressed.** -/
theorem run_onStorage (hidf : idf.Documented table addressed)
    (hp : Partitions idf storage ota0 ota1) {cache : FirmwareCache} {target : Target} {d : δ}
    {boot : Option EspTableEntry} {ops : List DeviceOp} {s : DeviceState δ}
    (h : run (deviceStep idf) (deviceStarted idf cache target d boot) ops = some s) :
    OnStorage idf addressed storage ota0 ota1 (addressed d) s :=
  run_preserves (OnStorage idf addressed storage ota0 ota1 (addressed d))
    (fun _ _ _ hi hs => hi.step hidf hs) (deviceStarted_onStorage hidf hp cache target d boot) h

/-! ## The theorem -/

/-- No byte of a slot's partition is one of `storage`. -/
theorem Partitions.not_holds (hp : Partitions idf storage ota0 ota1) {slot : UInt8} {a : Nat}
    (h : (otaOf ota0 ota1 slot).Holds a) : ¬ storage.Holds a := by
  intro hs
  unfold otaOf at h
  split at h
  · exact hp.disjoint0 a hs h
  · exact hp.disjoint1 a hs h

/--
**No access to a slot lands in its partition.** For every partition table with disjoint
partitions `storage`, `ota_0` and `ota_1`, over any chip behind the documented calls, in every
state a run of the cache's calls reaches after `Platform::init`: neither a read nor a write at
any offset of a slot, with any length in its range, addresses the flash of the slot's partition
at that offset.
-/
theorem slots_never_reached (hidf : idf.Documented table addressed)
    (hp : Partitions idf storage ota0 ota1) {cache : FirmwareCache} {target : Target} {d : δ}
    {boot : Option EspTableEntry} {ops : List DeviceOp} {s : DeviceState δ}
    (h : run (deviceStep idf) (deviceStarted idf cache target d boot) ops = some s)
    {slot : UInt8} (o : UInt32) {buf : List UInt8} (hlen : 0 < buf.length)
    (hrange : o.toNat + buf.length ≤ (otaOf ota0 ota1 slot).size.toNat) :
    ¬ ReadLands addressed (otaOf ota0 ota1 slot) s slot o buf
      ∧ ¬ WriteLands addressed (otaOf ota0 ota1 slot) s slot o buf := by
  have hi := run_onStorage hidf hp h
  -- from here on, what this one access adds to the record
  have hk := partitionBackend_within hidf storage (addressed s.storage.device)
  have hin : (otaOf ota0 ota1 slot).Holds
      ((otaOf ota0 ota1 slot).address.toNat + o.toNat) := ⟨by omega, by omega⟩
  have hout := hp.not_holds hin
  constructor
  · have hafter : After (fun d => Within storage (addressed s.storage.device) (addressed d))
        s.storage (s.storage.read (s.cache.slotOffset slot + o) buf).2.2 :=
      read_after s.storage (hk.reads hi.backend) (.refl _ _) _ buf
    exact hafter.device.not_lands hout
  · rintro ⟨r, sm, hw, hlands⟩
    exact (hk.after_write hi.backend hw (.refl _ _)).device.not_lands hout hlands

end Runs

/-! ## The repository's partition table -/

/-- A chip that never fails: its content, and the record of what it was addressed with. -/
def chip (table : List EspTableEntry) (running : Option EspTableEntry) :
    EspIdf ((Nat → UInt8) × List FlashAccess) where
  findFirst type subtype label := table.find? fun p => p.answers type subtype label
  read d p off buf :=
    if off + buf.length ≤ p.size.toNat then
      (true, slice d.1 (p.address.toNat + off) buf.length, d.1,
        .read (p.address.toNat + off) buf.length :: d.2)
    else (false, buf, d)
  write d p off buf :=
    if off + buf.length ≤ p.size.toNat then
      (true, overlay d.1 (p.address.toNat + off) buf,
        .write (p.address.toNat + off) buf.length :: d.2)
    else (false, d)
  eraseRange d p off len :=
    if off + len ≤ p.size.toNat then
      (true, fill d.1 (p.address.toNat + off) (p.address.toNat + off + len) erased,
        .erase (p.address.toNat + off) len :: d.2)
    else (false, d)
  running := running
  nextUpdate := none
  description _ := none

theorem chip_documented (table : List EspTableEntry) (running : Option EspTableEntry) :
    (chip table running).Documented table (fun d => d.2) where
  findFirst _ _ _ := rfl
  read := by
    intro d p off buf
    simp only [chip]
    split
    · rename_i hin
      exact Or.inr ⟨hin, rfl⟩
    · exact Or.inl ⟨rfl, rfl⟩
  write := by
    intro d p off buf
    simp only [chip]
    split
    · rename_i hin
      exact Or.inr ⟨hin, rfl⟩
    · exact Or.inl ⟨rfl, rfl⟩
  eraseRange := by
    intro d p off len
    simp only [chip]
    split
    · rename_i hin
      exact Or.inr ⟨hin, rfl⟩
    · exact Or.inl ⟨rfl, rfl⟩

/-- `ota_0` of `partitions.csv`. -/
def csvOta0 : EspTableEntry where
  label := "ota_0"
  address := 0x150000
  type := .app
  subtype := espSubtypeAppOta0
  size := 0x140000

/-- `ota_1` of `partitions.csv`. -/
def csvOta1 : EspTableEntry where
  label := "ota_1"
  address := 0x290000
  type := .app
  subtype := espSubtypeAppOta1
  size := 0x140000

/-- `storage` of `partitions.csv`. -/
def csvStorage : EspTableEntry where
  label := "storage"
  address := 0x3D0000
  type := .data
  subtype := 0x40
  size := 0x30000

/-- `partitions.csv` -/
def csvTable : List EspTableEntry :=
  [⟨⟨"nvs", 0x9000⟩, .data, 0x02, 0x6000⟩,
    ⟨⟨"phy_init", 0xF000⟩, .data, 0x01, 0x1000⟩,
    ⟨⟨"factory", 0x10000⟩, .app, 0x00, 0x100000⟩,
    ⟨⟨"recovery", 0x110000⟩, .app, espSubtypeAppTest, 0x40000⟩,
    csvOta0, csvOta1, csvStorage]

/-- A device with that table that runs `ota_0`. -/
def csvChip : EspIdf ((Nat → UInt8) × List FlashAccess) := chip csvTable (some csvOta0)

theorem csv_partitions : Partitions csvChip csvStorage csvOta0 csvOta1 where
  foundStorage := by decide
  foundOta0 := by decide
  foundOta1 := by decide
  disjoint0 := by rintro a ⟨h, _⟩ ⟨_, h'⟩; simp [csvStorage, csvOta0] at h h'; omega
  disjoint1 := by rintro a ⟨h, _⟩ ⟨_, h'⟩; simp [csvStorage, csvOta1] at h h'; omega
  disjoint01 := by rintro a ⟨_, h⟩ ⟨h', _⟩; simp [csvOta0, csvOta1] at h h'; omega

/-- The device as it starts, from a blank flash. -/
def csvDevice : DeviceState ((Nat → UInt8) × List FlashAccess) :=
  deviceStarted csvChip {} .esp32 (fun _ => erased, []) (some csvOta0)

/-- The header of slot A is not reached, neither to read nor to write. -/
theorem csv_header_unreached :
    ¬ ReadLands (fun d => d.2) (otaOf csvOta0 csvOta1 0) csvDevice 0 0 (List.replicate 24 0)
      ∧ ¬ WriteLands (fun d => d.2) (otaOf csvOta0 csvOta1 0) csvDevice 0 0
        (List.replicate 24 0) := by
  have hrun : run (deviceStep csvChip) csvDevice [] = some csvDevice := rfl
  exact slots_never_reached (chip_documented csvTable (some csvOta0)) csv_partitions hrun 0
    (by decide) (by decide)

/--
**With the repository's own table every access is refused**: the slots begin behind the end of
the partition they are looked for in, so the first chunk of an update fails, and no flash is
addressed.
-/
theorem csv_update_refused :
    ∃ s, run (deviceStep csvChip) csvDevice [.session (.beginWrite 0x1000 7)] = some s
      ∧ s.cache.writing = true ∧ s.storage.device.2 = []
      ∧ s.storage.write (s.cache.slotOffset 1 + 0x1000) [1, 2, 3] = some (-1, s.storage)
      ∧ ¬ WriteLands (fun d => d.2) csvOta1 s 1 0x1000 [1, 2, 3] := by
  have hrefused : csvDevice.storage.write 0x291000 [1, 2, 3] = some (-1, csvDevice.storage) :=
    write_refused (b := partitionBackend csvChip csvStorage) rfl (by decide)
  refine ⟨{ csvDevice with cache := (csvDevice.cache.beginWrite 0x1000 7).2 }, rfl, rfl, rfl,
    hrefused, ?_⟩
  rintro ⟨r, sm, hw, new, hnew, acc, hacc, _⟩
  cases hrefused.symm.trans hw
  rw [List.self_eq_append_left.mp hnew] at hacc
  cases hacc

end TaktOS.Proof
