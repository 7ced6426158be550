import TaktOS.Proof.FallibleFlash
import TaktOS.Proof.SlotSelection

/-!
# What `activateSlot` is worth when flash operations fail

The header is marked bootable by a write whose result is dropped. Where the write fails the answer
is still `true`; the header is then gone, or it never got the bit, or, where not even its first
sector could be erased, it is the one that was there. A refusal only reads, so it is always true.
-/

namespace TaktOS.Proof

open Lib

variable {δ : Type}

/-! ## A truthful answer, and what becomes of the header -/

/-- `flags & 0x02`. -/
def bootableFlag (h : FirmwareHeader) : Bool := h.flags &&& 0x02 ≠ 0

/-- The image at a slot's offset is whole and marked bootable. -/
def MarkedWhole (total : Nat) (m : Nat → UInt8) (off : UInt32) : Prop :=
  Verifies total m off ∧ bootableFlag (storedHeader m off) = true

instance (total : Nat) (m : Nat → UInt8) (off : UInt32) : Decidable (MarkedWhole total m off) :=
  inferInstanceAs (Decidable (_ ∧ _))

/-- **`activateSlot` told the truth.** -/
structure TellsTruth (content : δ → Nat → UInt8) (fc : FirmwareCache) (sm : StorageManager δ)
    (slot : UInt8) (ok : Bool) (fc' : FirmwareCache) (sm' : StorageManager δ) : Prop where
  activated : ok = true → (fc'.verify sm' slot).1 = true
    ∧ bootableFlag (storedHeader (content sm'.device) (fc'.slotOffset slot)) = true
  refused : ok = false → fc'.activeSlot = fc.activeSlot
    ∧ ∀ s, (fc'.verify sm' s).1 = (fc.verify sm s).1

/-- The storage when `activateSlot` comes to write the header back. -/
def readBack (fc : FirmwareCache) (sm : StorageManager δ) (slot : UInt8) : StorageManager δ :=
  (fc.getHeader (fc.verify sm slot).2 slot {}).2.2

/-- The header write of `activateSlot`. -/
def markWrite (content : δ → Nat → UInt8) (fc : FirmwareCache) (sm : StorageManager δ)
    (slot : UInt8) : Option (Int × StorageManager δ) :=
  (readBack fc sm slot).write (fc.slotOffset slot)
    (bootable (storedHeader (content sm.device) (fc.slotOffset slot))).toBytes

/-- The header write succeeds. -/
def HeaderWritten (content : δ → Nat → UInt8) (fc : FirmwareCache) (sm : StorageManager δ)
    (slot : UInt8) : Prop :=
  ∃ r sm', markWrite content fc sm slot = some (r, sm') ∧ 0 ≤ r

/-- The header write fails, and leaves a whole image that is marked bootable. -/
def HeaderSpared (b : FlashBackend δ) (content : δ → Nat → UInt8) (fc : FirmwareCache)
    (sm : StorageManager δ) (slot : UInt8) : Prop :=
  ∃ r sm', markWrite content fc sm slot = some (r, sm') ∧ r < 0
    ∧ MarkedWhole b.totalSize.toNat (content sm'.device) (fc.slotOffset slot)

/-- Not even the header's first sector can be erased, and the header has the bit already. -/
def MarkedBefore (b : FlashBackend δ) (content : δ → Nat → UInt8) (fc : FirmwareCache)
    (sm : StorageManager δ) (slot : UInt8) : Prop :=
  (b.erase (readBack fc sm slot).device (fc.slotOffset slot) b.sectorSize.toNat).1 ≠ 0
    ∧ bootableFlag (storedHeader (content sm.device) (fc.slotOffset slot)) = true

/-- What the sectors of the header hold of the body, the image can do without. -/
def BodySpared (b : FlashBackend δ) (content : δ → Nat → UInt8) (fc : FirmwareCache)
    (sm : StorageManager δ) (slot : UInt8) : Prop :=
  Verifies b.totalSize.toNat (markedBootable b (content sm.device) (fc.slotOffset slot))
    (fc.slotOffset slot)

/-! ## The header write -/

theorem bootable_bootableFlag (h : FirmwareHeader) : bootableFlag (bootable h) = true := by
  have hbit : (h.flags ||| 0x02) &&& 0x02 = 0x02 := by
    apply UInt8.toBitVec_inj.mp
    ext i hi
    simp only [UInt8.toBitVec_and, UInt8.toBitVec_or, BitVec.getElem_and, BitVec.getElem_or]
    cases (UInt8.toBitVec 2)[i] <;> simp
  simp only [bootableFlag, bootable, hbit]
  decide

section Readable

variable {b : FlashBackend δ} {content : δ → Nat → UInt8} (fc : FirmwareCache)
  (sm : StorageManager δ)

/-- `activateSlot`'s reads leave the content. -/
theorem readBack_spec (hr : b.Readable content) (hb : sm.backend = some b) (slot : UInt8) :
    ∃ d, readBack fc sm slot = { sm with device := d } ∧ content d = content sm.device := by
  obtain ⟨d, hd, hcont⟩ := verify_after sm (readKeeps_content hb hr (content sm.device)) rfl fc slot
  obtain ⟨d', hd', hcont'⟩ := getHeader_after { sm with device := d }
    (readKeeps_content hb hr (content sm.device)) hcont fc slot {}
  exact ⟨d', by rw [readBack, hd, hd'], hcont'⟩

/-- Without an image that verifies nothing happens. -/
theorem activateSlot_refuses (hr : b.Readable content) (hb : sm.backend = some b) {slot : UInt8}
    (h : ¬ (slot ≤ 1 ∧ (fc.verify sm slot).1 = true)) :
    ∃ d, fc.activateSlot sm slot = some (false, fc, { sm with device := d })
      ∧ content d = content sm.device := by
  rw [FirmwareCache.activateSlot]
  split
  · exact ⟨sm.device, rfl, rfl⟩
  · rename_i hs
    have hv : (fc.verify sm slot).1 = false :=
      Bool.eq_false_iff.mpr fun hc => h ⟨UInt8.not_lt.mp hs, hc⟩
    obtain ⟨d, hd, hcont⟩ :=
      verify_after sm (readKeeps_content hb hr (content sm.device)) rfl fc slot
    refine ⟨d, ?_, hcont⟩
    dsimp only
    rw [hv, hd]
    rfl

/-- With one the answer is `true`, whatever becomes of the write. -/
theorem activateSlot_accepts (hr : b.Readable content) (hb : sm.backend = some b) {slot : UInt8}
    (hs : slot ≤ 1) (hv : (fc.verify sm slot).1 = true) {r : Int} {sm' : StorageManager δ}
    (hw : markWrite content fc sm slot = some (r, sm')) :
    fc.activateSlot sm slot = some (true, { fc with activeSlot := slot }, sm') := by
  have hin := ((verify_iff sm hb hr fc hs).mp hv).1.1
  obtain ⟨d, hd, hcont⟩ :=
    verify_after sm (readKeeps_content hb hr (content sm.device)) rfl fc slot
  have hhdr := getHeader_header { sm with device := d } hb hr fc hs {} hin
  rw [FirmwareCache.activateSlot, if_neg (UInt8.not_lt.mpr hs)]
  dsimp only
  rw [hv, hd, hhdr]
  simp only [Bool.not_true, Bool.false_eq_true, if_false]
  rw [hcont]
  unfold markWrite readBack bootable at hw
  rw [hd] at hw
  rw [hw]

/-- `verify` looks at the slot's offset and the content, and neither changed. -/
theorem tellsTruth_refused (hr : b.Readable content) (hb : sm.backend = some b) (slot : UInt8)
    {d : δ} (hcont : content d = content sm.device) :
    TellsTruth content fc sm slot false fc { sm with device := d } where
  activated := fun h => absurd h Bool.false_ne_true
  refused := fun _ => ⟨rfl, fun s =>
    verify_congr sm { sm with device := d } hb hb hr fun _ => by rw [hcont]⟩

/-- A switch tells the truth exactly when what is stored afterwards is whole and marked. -/
theorem tellsTruth_accepted (hr : b.Readable content) (hb : sm.backend = some b) {slot : UInt8}
    (hs : slot ≤ 1) (d : δ) :
    TellsTruth content fc sm slot true { fc with activeSlot := slot } { sm with device := d }
      ↔ MarkedWhole b.totalSize.toNat (content d) (fc.slotOffset slot) := by
  have hver := verify_iff { sm with device := d } hb hr { fc with activeSlot := slot } hs
  constructor
  · intro h
    obtain ⟨hv, hflag⟩ := h.activated rfl
    exact ⟨hver.mp hv, hflag⟩
  · rintro ⟨hv, hflag⟩
    exact ⟨fun _ => ⟨hver.mpr hv, hflag⟩, fun h => absurd h.symm Bool.false_ne_true⟩

end Readable

section Fallible

variable {b : FlashBackend δ} {content : δ → Nat → UInt8} (fc : FirmwareCache)
  (sm : StorageManager δ)

/-- **The header write returns**, and marks the header if it reports success. -/
theorem markWrite_returns (hr : b.Fallible content) (hb : sm.backend = some b)
    (hS : 0 < b.sectorSize.toNat) {slot : UInt8} (hs : slot ≤ 1)
    (hv : (fc.verify sm slot).1 = true) :
    ∃ r d, markWrite content fc sm slot = some (r, { sm with device := d })
      ∧ (0 ≤ r → content d = markedBootable b (content sm.device) (fc.slotOffset slot)) := by
  have hin := ((verify_iff sm hb hr.toReadable fc hs).mp hv).1.1
  obtain ⟨d, hread, hcont⟩ := readBack_spec fc sm hr.toReadable hb slot
  obtain ⟨r, d', hw, hok⟩ := write_fallible { sm with device := d } hr hb hS
    (fc.slotOffset slot) (bootable (storedHeader (content sm.device) (fc.slotOffset slot))).toBytes
    (by rw [FirmwareHeader.length_toBytes]; decide)
    (by rw [FirmwareHeader.length_toBytes]; exact hin)
  refine ⟨r, d', by rw [markWrite, hread]; exact hw, fun h => ?_⟩
  rw [hok h]
  dsimp only
  rw [hcont]
  rfl

/-- **`activateSlot` returns**, whatever fails. -/
theorem activateSlot_returns (hr : b.Fallible content) (hb : sm.backend = some b)
    (hS : 0 < b.sectorSize.toNat) (slot : UInt8) :
    ∃ ok fc' sm', fc.activateSlot sm slot = some (ok, fc', sm') := by
  by_cases hacc : slot ≤ 1 ∧ (fc.verify sm slot).1 = true
  · obtain ⟨r, d, hw, _⟩ := markWrite_returns fc sm hr hb hS hacc.1 hacc.2
    exact ⟨_, _, _, activateSlot_accepts fc sm hr.toReadable hb hacc.1 hacc.2 hw⟩
  · obtain ⟨d, hcall, _⟩ := activateSlot_refuses fc sm hr.toReadable hb hacc
    exact ⟨_, _, _, hcall⟩

/-- A switch leaves a whole, marked image if the write succeeds and spares the body, or if what
it leaves on failing is one. -/
theorem markedWhole_iff {slot : UInt8} {r : Int} {d : δ}
    (hw : markWrite content fc sm slot = some (r, { sm with device := d }))
    (hok : 0 ≤ r → content d = markedBootable b (content sm.device) (fc.slotOffset slot)) :
    MarkedWhole b.totalSize.toNat (content d) (fc.slotOffset slot)
      ↔ HeaderWritten content fc sm slot ∧ BodySpared b content fc sm slot
        ∨ HeaderSpared b content fc sm slot := by
  constructor
  · intro hm
    rcases Int.lt_or_le r 0 with hneg | hpos
    · exact Or.inr ⟨r, _, hw, hneg, hm⟩
    · refine Or.inl ⟨⟨r, _, hw, hpos⟩, ?_⟩
      rw [BodySpared, ← hok hpos]
      exact hm.1
  · rintro (⟨⟨r', sm', hw', hpos⟩, hbody⟩ | ⟨r', sm', hw', _, hm⟩)
    · rw [hw] at hw'
      injection hw' with hw'; injection hw' with hr' _
      rw [hok (hr' ▸ hpos)]
      refine ⟨hbody, ?_⟩
      rw [storedHeader_marked]
      exact bootable_bootableFlag _
    · rw [hw] at hw'
      injection hw' with hw'; injection hw' with _ hsm
      rw [← hsm] at hm
      exact hm

/-- Where the slots are sector-aligned and the header's sectors end before the body. -/
theorem bodySpared_of_layout (hr : b.Readable content) (hb : sm.backend = some b)
    (hl : Layout fc b) (hres : HeaderReserve fc b) {slot : UInt8} (hs : slot ≤ 1)
    (hv : (fc.verify sm slot).1 = true) : BodySpared b content fc sm slot := by
  have hin := hl.inside slot
  have htot := b.totalSize.toNat_lt
  have hroom := hres.room
  exact verifies_marked hl.sector_pos (hl.aligned slot) hres.sectors (by omega)
    ((verify_iff sm hb hr fc hs).mp hv)

/-- A first byte that was erased is not the magic's. -/
theorem not_flagged_erased {total : Nat} {m : Nat → UInt8} {off : UInt32}
    (h : m off.toNat = erased) : ¬ Flagged total m off := by
  rintro ⟨_, hmagic, _⟩
  have hlow := congrArg (fun x : UInt32 => x.toNat % 256) hmagic
  rw [show (storedHeader m off).magic
    = leWord (m off.toNat) (m (off.toNat + 1)) (m (off.toNat + 1 + 1)) (m (off.toNat + 1 + 1 + 1))
    from rfl, leWord_mod, h] at hlow
  exact absurd hlow (by decide)

/-- Where a failed operation changes nothing, the header is spared exactly if it was not touched
at all and had the bit. -/
theorem written_or_spared_iff (hr : b.Fallible content) (hc : b.Clean content)
    (hb : sm.backend = some b) (hS : 0 < b.sectorSize.toNat) {slot : UInt8}
    (ha : b.sectorSize.toNat ∣ (fc.slotOffset slot).toNat) (hs : slot ≤ 1)
    (hv : (fc.verify sm slot).1 = true) :
    HeaderWritten content fc sm slot ∨ HeaderSpared b content fc sm slot
      ↔ HeaderWritten content fc sm slot ∨ MarkedBefore b content fc sm slot := by
  have hver := (verify_iff sm hb hr.toReadable fc hs).mp hv
  obtain ⟨d, hread, hcont⟩ := readBack_spec fc sm hr.toReadable hb slot
  obtain ⟨r, d', hw, _⟩ := markWrite_returns fc sm hr hb hS hs hv
  rcases Int.lt_or_le r 0 with hneg | hpos
  · have hfail := hw
    rw [markWrite, hread] at hfail
    have hleft := write_failed_clean { sm with device := d } hr hc hb hS ha
      (by rw [FirmwareHeader.length_toBytes]; decide)
      (by rw [FirmwareHeader.length_toBytes]; decide)
      (by rw [FirmwareHeader.length_toBytes]; exact hver.1.1) hfail hneg
    refine or_congr_right ?_
    constructor
    · rintro ⟨r', sm', hw', _, hm⟩
      rw [hw] at hw'
      injection hw' with hw'; injection hw' with _ hsm
      rw [← hsm] at hm
      rcases hleft with ⟨hcode, hsame⟩ | ⟨_, hblank⟩
      · refine ⟨by rw [hread]; exact hcode, ?_⟩
        rw [← hcont, ← hsame]
        exact hm.2
      · exact absurd hm.1.1 (not_flagged_erased hblank)
    · rintro ⟨hcode, hflag⟩
      rw [hread] at hcode
      rcases hleft with ⟨_, hsame⟩ | ⟨hcode', _⟩
      · refine ⟨r, _, hw, hneg, ?_⟩
        rw [hsame]
        dsimp only
        rw [hcont]
        exact ⟨hver, hflag⟩
      · exact absurd hcode' hcode
  · have hwritten : HeaderWritten content fc sm slot := ⟨r, _, hw, hpos⟩
    exact ⟨fun _ => Or.inl hwritten, fun _ => Or.inl hwritten⟩

end Fallible

/-! ## The theorem -/

/--
**Exactly when `activateSlot` tells the truth.** Over a flash whose erases and writes may fail it
does so if the slot is refused, if the header write succeeds and its sectors spare the body, or
if it fails and leaves a whole image that is marked bootable all the same. With sector-aligned
slots the body is spared; where failed operations change nothing, the last case is that the
header's first sector could not be erased and the header had the bit before.
-/
theorem activation_truthful_iff (content : δ → Nat → UInt8) {b : FlashBackend δ}
    (hr : b.Fallible content) (hS : 0 < b.sectorSize.toNat) (fc : FirmwareCache)
    {sm : StorageManager δ} (hb : sm.backend = some b) (slot : UInt8) :
    ∃ ok fc' sm', fc.activateSlot sm slot = some (ok, fc', sm')
      ∧ (TellsTruth content fc sm slot ok fc' sm'
        ↔ (slot ≤ 1 → (fc.verify sm slot).1 = true →
          HeaderWritten content fc sm slot ∧ BodySpared b content fc sm slot
            ∨ HeaderSpared b content fc sm slot))
      ∧ (Layout fc b → HeaderReserve fc b → b.Clean content →
        (TellsTruth content fc sm slot ok fc' sm'
          ↔ (slot ≤ 1 → (fc.verify sm slot).1 = true →
            HeaderWritten content fc sm slot ∨ MarkedBefore b content fc sm slot))) := by
  by_cases hacc : slot ≤ 1 ∧ (fc.verify sm slot).1 = true
  · obtain ⟨hs, hv⟩ := hacc
    obtain ⟨r, d, hw, hok⟩ := markWrite_returns fc sm hr hb hS hs hv
    have htruth := (tellsTruth_accepted fc sm hr.toReadable hb hs d).trans
      (markedWhole_iff fc sm hw hok)
    refine ⟨true, _, _, activateSlot_accepts fc sm hr.toReadable hb hs hv hw, ?_, ?_⟩
    · exact htruth.trans ⟨fun h _ _ => h, fun h => h hs hv⟩
    · intro hl hres hc
      have hbody := bodySpared_of_layout fc sm hr.toReadable hb hl hres hs hv
      have hiff := written_or_spared_iff fc sm hr hc hb hS (hl.aligned slot) hs hv
      rw [htruth, and_iff_left hbody, hiff]
      exact ⟨fun h _ _ => h, fun h => h hs hv⟩
  · obtain ⟨d, hcall, hcont⟩ := activateSlot_refuses fc sm hr.toReadable hb hacc
    have htruth := tellsTruth_refused fc sm hr.toReadable hb slot hcont
    exact ⟨false, fc, _, hcall, ⟨fun _ hs hv => absurd ⟨hs, hv⟩ hacc, fun _ => htruth⟩,
      fun _ _ _ => ⟨fun _ hs hv => absurd ⟨hs, hv⟩ hacc, fun _ => htruth⟩⟩

/-- The test's flash with an image in one slot, and a pattern of failures to come. -/
def failingStorage (off : Nat) (slot : UInt8) (failures : List Bool) :
    StorageManager ((Nat → UInt8) × List Bool) where
  target := .host
  backend := some (failing (memBackend 0x10000 4096))
  device := (withImage testStorage.device off slot [1], failures)

/-- An activation without failures tells the truth. -/
theorem activation_truthful_without_failures :
    ∃ ok fc' sm', testCache.activateSlot (failingStorage 0x1000 0 []) 0 = some (ok, fc', sm')
      ∧ TellsTruth (fun d => d.1) testCache (failingStorage 0x1000 0 []) 0 ok fc' sm' := by
  obtain ⟨ok, fc', sm', hcall, _, hiff⟩ := activation_truthful_iff (fun d => d.1)
    (failing_fallible testFlash_reliable) (by decide) testCache
    (show (failingStorage 0x1000 0 []).backend = _ from rfl) 0
  refine ⟨ok, fc', sm', hcall, (hiff (testCache_layout rfl rfl) ⟨by decide, by decide⟩
    (failing_clean _ _)).mpr fun _ _ => Or.inl ?_⟩
  have hw : ((markWrite (fun d => d.1) testCache (failingStorage 0x1000 0 []) 0).map fun t => t.1)
      = some 24 := by decide
  obtain ⟨⟨r, sm⟩, hw, hr⟩ := Option.map_eq_some_iff.mp hw
  exact ⟨r, sm, hw, by rw [show r = 24 from hr]; decide⟩

/--
**An activation whose header write fails destroys the image and reports success.** The sector of
the header is erased, the write after it fails; slot A, which verified, no longer does.
-/
theorem activation_untruthful :
    (failing (memBackend 0x10000 4096)).Fallible (fun d => d.1)
      ∧ (failingStorage 0x1000 0 [false, true]).backend = some (failing (memBackend 0x10000 4096))
      ∧ ¬ (∀ ok fc' sm', testCache.activateSlot (failingStorage 0x1000 0 [false, true]) 0
          = some (ok, fc', sm') →
        TellsTruth (fun d => d.1) testCache (failingStorage 0x1000 0 [false, true]) 0 ok fc'
          sm') := by
  refine ⟨failing_fallible testFlash_reliable, rfl, fun h => ?_⟩
  have hend : (testCache.activateSlot (failingStorage 0x1000 0 [false, true]) 0).map
      (fun t => (t.1, (t.2.1.verify t.2.2 0).1)) = some (true, false) := by decide
  obtain ⟨⟨ok, fc', sm'⟩, hcall, hres⟩ := Option.map_eq_some_iff.mp hend
  obtain ⟨hok, hv⟩ := Prod.mk.inj hres
  have hv' := ((h ok fc' sm' hcall).activated hok).1
  dsimp only at hv
  rw [hv'] at hv
  exact absurd hv (by decide)

end TaktOS.Proof
