import TaktOS.Boot.Bootloader

/-!
# The ESP-IDF calls on partitions

`esp_partition.h` and `esp_ota_ops.h` are not part of the repository, so their calls are a
parameter, `EspIdf`, over a chip with states in `δ`. `Documented` is what their documentation
promises.
-/

namespace TaktOS

/-- `esp_partition_type_t` -/
inductive EspPartitionType where
  | app
  | data
  deriving DecidableEq, Repr

/-- `ESP_PARTITION_SUBTYPE_APP_OTA_0` -/
def espSubtypeAppOta0 : UInt8 := 0x10

/-- `ESP_PARTITION_SUBTYPE_APP_OTA_1` -/
def espSubtypeAppOta1 : UInt8 := 0x11

/-- `ESP_PARTITION_SUBTYPE_APP_OTA_MIN` -/
def espSubtypeAppOtaMin : UInt8 := espSubtypeAppOta0

/-- `ESP_PARTITION_SUBTYPE_APP_TEST` -/
def espSubtypeAppTest : UInt8 := 0x20

/-- A partition with what it is looked up by, and its size. -/
structure EspTableEntry extends EspPartition where
  type : EspPartitionType
  subtype : UInt8
  size : UInt32
  deriving DecidableEq, Repr

namespace EspTableEntry

/-- The bytes of the flash that belong to the partition. -/
def Holds (p : EspTableEntry) (a : Nat) : Prop :=
  p.address.toNat ≤ a ∧ a < p.address.toNat + p.size.toNat

def Disjoint (p q : EspTableEntry) : Prop := ∀ a, p.Holds a → ¬ q.Holds a

/-- All that is asked for is so; `none` stands for `ANY`, and for a null label. -/
def answers (p : EspTableEntry) (type : Option EspPartitionType) (subtype : Option UInt8)
    (label : Option String) : Bool :=
  type.all (fun t => p.type = t) && subtype.all (fun s => p.subtype = s)
    && label.all (fun l => p.label = l)

end EspTableEntry

/-- The calls. A chip call answers whether it returned `ESP_OK`. -/
structure EspIdf (δ : Type) where
  /-- `esp_partition_find_first` -/
  findFirst : Option EspPartitionType → Option UInt8 → Option String → Option EspTableEntry
  /-- `esp_partition_read` -/
  read : δ → EspTableEntry → Nat → List UInt8 → Bool × List UInt8 × δ
  /-- `esp_partition_write` -/
  write : δ → EspTableEntry → Nat → List UInt8 → Bool × δ
  /-- `esp_partition_erase_range` -/
  eraseRange : δ → EspTableEntry → Nat → Nat → Bool × δ
  /-- `esp_ota_get_running_partition` -/
  running : Option EspTableEntry
  /-- `esp_ota_get_next_update_partition` -/
  nextUpdate : Option EspTableEntry
  /-- The magic word `esp_ota_get_partition_description` reads, where it reads one. -/
  description : EspPartition → Option UInt32

/-! ## What is documented of them -/

/-- The bytes an access addresses. -/
def FlashAccess.Touches : FlashAccess → Nat → Prop
  | .read off len, a => off ≤ a ∧ a < off + len
  | .write off len, a => off ≤ a ∧ a < off + len
  | .erase off len, a => off ≤ a ∧ a < off + len

/--
A call on a range of a partition is rejected and addresses nothing, or the range lies in the
partition and is addressed at the partition's place in the flash.
-/
def OnPartition (p : EspTableEntry) (off len : Nat) (access : Nat → Nat → FlashAccess)
    (before after : List FlashAccess) (ok : Bool) : Prop :=
  (ok = false ∧ after = before)
    ∨ (off + len ≤ p.size.toNat ∧ after = access (p.address.toNat + off) len :: before)

/-- `addressed` is the record of what the flash chip was addressed with, latest first. -/
structure EspIdf.Documented {δ : Type} (idf : EspIdf δ) (table : List EspTableEntry)
    (addressed : δ → List FlashAccess) : Prop where
  findFirst : ∀ type subtype label,
    idf.findFirst type subtype label = table.find? fun p => p.answers type subtype label
  read : ∀ d p off buf, OnPartition p off buf.length .read (addressed d)
    (addressed (idf.read d p off buf).2.2) (idf.read d p off buf).1
  write : ∀ d p off buf, OnPartition p off buf.length .write (addressed d)
    (addressed (idf.write d p off buf).2) (idf.write d p off buf).1
  eraseRange : ∀ d p off len, OnPartition p off len .erase (addressed d)
    (addressed (idf.eraseRange d p off len).2) (idf.eraseRange d p off len).1

end TaktOS
