import TaktOS.Proof.CrcAgreement
import TaktOS.Proof.NvsTyped
import TaktOS.Proof.Verify

/-!
# Bursts do not go unnoticed

A change of up to four bytes in a row changes the CRC, whatever comes before and after it. So a
body that `verify` accepted is refused once it is damaged so, and an entry that `readEntry` gave is
not given any more.
-/

namespace TaktOS.Proof

open Lib
open NvsManager.Host (composedKey)

/-- Up to four bytes in a row are others. -/
def BurstDamage (data damaged : List UInt8) : Prop :=
  ∃ pre mid mid' post, data = pre ++ mid ++ post ∧ damaged = pre ++ mid' ++ post
    ∧ mid'.length = mid.length ∧ mid.length ≤ 4 ∧ mid' ≠ mid

/-- **A burst changes the CRC.** -/
theorem compute_burst {data damaged : List UInt8} (h : BurstDamage data damaged) :
    Crc32.compute damaged ≠ Crc32.compute data := by
  obtain ⟨pre, mid, mid', post, rfl, rfl, hlen, h4, hne⟩ := h
  intro hsame
  rw [compute_eq_crc32Config, compute_eq_crc32Config] at hsame
  exact hne (crc32Config_burst hlen h4 hsame.symm).symm

/-- A damaged body does not match the CRC that the body has. -/
theorem not_verifies_of_burst {total : Nat} {m m' : Nat → UInt8} {off : UInt32}
    (hheader : storedHeader m' off = storedHeader m off)
    (h : BurstDamage (slice m (off + kHeaderReserved).toNat (storedHeader m off).size.toNat)
      (slice m' (off + kHeaderReserved).toNat (storedHeader m off).size.toNat))
    (hv : Verifies total m off) : ¬ Verifies total m' off := by
  rintro ⟨_, _, hcrc'⟩
  rw [hheader, ← hv.2.2] at hcrc'
  exact compute_burst h hcrc'

/-- A damaged entry is not read. -/
theorem readStored_burst {e : HostNvsEntry} {damaged : List UInt8} (h : BurstDamage e.data damaged)
    (hintact : Intact e) (buf : List UInt8) :
    (readStored (some { e with data := damaged }) buf).1 = false := by
  have hbad : ¬ Intact { e with data := damaged } := fun hc =>
    compute_burst h (hc.trans hintact.symm)
  rw [readStored]
  split
  · rfl
  · exact decide_eq_false hbad

/-- The image of a slot is the same but for its body, which is damaged. -/
structure BodyDamaged (m m' : Nat → UInt8) (off : UInt32) (data damaged : List UInt8) : Prop where
  header : storedHeader m' off = storedHeader m off
  data : slice m (off + kHeaderReserved).toNat (storedHeader m off).size.toNat = data
  damaged : slice m' (off + kHeaderReserved).toNat (storedHeader m off).size.toNat = damaged

/--
**Bursts do not go unnoticed**: the CRC is another, a slot that verified does not with its body
damaged, and neither build reads an entry with its data damaged.
-/
theorem bursts_detected {data damaged : List UInt8} (h : BurstDamage data damaged) :
    Crc32.compute damaged ≠ Crc32.compute data
      ∧ (∀ {δ : Type} {b : FlashBackend δ} {content : δ → Nat → UInt8}, b.Readable content →
        ∀ (fc : FirmwareCache) (sm sm' : StorageManager δ) (slot : UInt8), sm.backend = some b →
          sm'.backend = some b → BodyDamaged (content sm.device) (content sm'.device)
            (fc.slotOffset slot) data damaged →
          (fc.verify sm slot).1 = true → (fc.verify sm' slot).1 = false)
      ∧ (∀ ns (s : HostNvs) key e, e.data = data → Intact e →
        s (composedKey ns key) = some { e with data := damaged } →
          ∀ buf version, (NvsManager.Host.readEntry ns s key buf version).1 = false)
      ∧ (∀ {σ : Type} {nvs : NvsFlash σ} {view : σ → NvsMap}, nvs.IsMap view → ∀ ns s key e,
        e.data = data → Intact e → storedAt (view s) ns key = some { e with data := damaged } →
          ∀ buf version, (NvsManager.Esp32.readEntry nvs ns s key buf version).1 = false) := by
  refine ⟨compute_burst h, ?_, ?_, ?_⟩
  · intro δ b content hr fc sm sm' slot hb hb' hbody hok
    by_cases hs : slot ≤ 1
    · have hv := (verify_iff sm hb hr fc hs).mp hok
      rw [Bool.eq_false_iff, ne_eq, verify_iff sm' hb' hr fc hs]
      exact not_verifies_of_burst hbody.header (by rw [hbody.data, hbody.damaged]; exact h) hv
    · rw [verify_high (UInt8.not_le.mp hs)]
  · intro ns s key e hdata hintact hs buf version
    subst hdata
    have hread := host_readEntry_eq ns s key buf version
    rw [hs] at hread
    exact (Prod.ext_iff.mp hread).1.trans (readStored_burst h hintact buf)
  · intro σ nvs view hmap ns s key e hdata hintact hs buf version
    subst hdata
    have hread := device_readEntry_eq hmap ns s key buf version
    rw [hs] at hread
    exact (Prod.ext_iff.mp hread).1.trans (readStored_burst h hintact buf)

/-- The middle one of three bytes is another. -/
theorem burst_of_one_detected :
    Crc32.compute [1, 9, 3] ≠ Crc32.compute [1, 2, 3]
      ∧ (NvsManager.Host.readEntry [] (fun _ => some
        { data := [1, 9, 3], crc32 := Crc32.compute [1, 2, 3] }) [] [0, 0, 0] 0).1 = false := by
  have h : BurstDamage [1, 2, 3] [1, 9, 3] :=
    ⟨[1], [2], [9], [3], rfl, rfl, rfl, by decide, by decide⟩
  obtain ⟨hcrc, _, hhost, _⟩ := bursts_detected h
  exact ⟨hcrc,
    hhost [] _ [] { data := [1, 2, 3], crc32 := Crc32.compute [1, 2, 3] } rfl rfl rfl _ _⟩

end TaktOS.Proof
