import TaktOS.Proof.Storage

/-!
# A flash whose operations fail

`Fallible` asks nothing of an operation that fails: it may leave anything anywhere. `Clean` is the
kinder case in which it changes nothing. `failing` is any reliable backend with a pattern of
failures laid over it, and satisfies both.

What a failed `StorageManager::write` leaves is decided by its first erase: the sectors from
there on are as they were if it failed, and otherwise the range begins blank.
-/

namespace TaktOS

open Lib

variable {δ : Type}

/-! ## Failures that change nothing, and patterns of failures -/

/-- An operation that reports a failure changed nothing. -/
structure FlashBackend.Clean (b : FlashBackend δ) (content : δ → Nat → UInt8) : Prop where
  write_failed : ∀ d off buf, buf.length < 2147483648 → (b.write d off buf).1 < 0 →
    content (b.write d off buf).2 = content d
  erase_failed : ∀ d off len, (b.erase d off len).1 ≠ 0 →
    content (b.erase d off len).2 = content d

/-- A backend with failures laid over it: whether the next writes and erases fail, in order. -/
def failing (b : FlashBackend δ) : FlashBackend (δ × List Bool) where
  read d off buf :=
    let (r, buf', d') := b.read d.1 off buf
    (r, buf', d', d.2)
  write d off buf :=
    if d.2.head? = some true then (-1, d.1, d.2.tail)
    else
      let (r, d') := b.write d.1 off buf
      (r, d', d.2.tail)
  erase d off len :=
    if d.2.head? = some true then (-1, d.1, d.2.tail)
    else
      let (r, d') := b.erase d.1 off len
      (r, d', d.2.tail)
  totalSize := b.totalSize
  sectorSize := b.sectorSize

/-- **Every pattern of failures over a reliable backend** makes a fallible one. -/
theorem failing_fallible {b : FlashBackend δ} {content : δ → Nat → UInt8}
    (hr : b.Reliable content) : (failing b).Fallible (fun d => content d.1) where
  keep := fun d off buf => hr.keep d.1 off buf
  code := fun d off buf => hr.code d.1 off buf
  data := fun d off buf => hr.data d.1 off buf
  fail := fun d off buf => hr.fail d.1 off buf
  write_ok := by
    intro d off buf hin hok
    simp only [failing] at hin hok ⊢
    split at hok
    · exact absurd hok (show ¬ (0 : Int) ≤ -1 by decide)
    · rename_i hf
      rw [if_neg hf]
      exact hr.write_data d.1 off buf hin
  erase_ok := by
    intro d off hd hin hok
    simp only [failing] at hd hin hok ⊢
    split at hok
    · exact absurd hok (show (-1 : Int) ≠ 0 by decide)
    · rename_i hf
      rw [if_neg hf]
      exact hr.erase_data d.1 off hd hin

/-- A failure leaves no byte changed, and a success only those of its range. -/
theorem failing_framed {b : FlashBackend δ} {content : δ → Nat → UInt8}
    (hf : b.Framed content) : (failing b).Framed (fun d => content d.1) where
  keep := fun d off buf => hf.keep d.1 off buf
  code := fun d off buf => hf.code d.1 off buf
  data := fun d off buf => hf.data d.1 off buf
  fail := fun d off buf => hf.fail d.1 off buf
  write_frame := by
    intro d off buf a h
    simp only [failing]
    split
    · rfl
    · exact hf.write_frame d.1 off buf a h
  erase_frame := by
    intro d off len a h
    simp only [failing]
    split
    · rfl
    · exact hf.erase_frame d.1 off len a h

theorem failing_bounded {b : FlashBackend δ} (hb : b.Bounded) : (failing b).Bounded where
  write_outside := by
    intro d off buf h
    simp only [failing] at h ⊢
    split
    · exact show (-1 : Int) < 0 by decide
    · exact hb.write_outside d.1 off buf h
  erase_outside := by
    intro d off len h
    simp only [failing] at h ⊢
    split
    · exact show (-1 : Int) ≠ 0 by decide
    · exact hb.erase_outside d.1 off len h

/-- The test's memory changes nothing when it fails, whether by itself or by the pattern. -/
theorem failing_clean (kSize sectorSize : UInt32) :
    (failing (memBackend kSize sectorSize)).Clean (fun d => d.1) where
  write_failed := by
    intro d off buf hlen h
    simp only [failing, memBackend] at h ⊢
    split at h
    · rename_i hf
      rw [if_pos hf]
    · rename_i hf
      rw [if_neg hf]
      split at h
      · rename_i hout
        rw [if_pos hout]
      · dsimp only at h
        rw [Proof.castInt_of_lt hlen] at h
        exact absurd h (Int.not_lt.mpr (Int.natCast_nonneg _))
  erase_failed := by
    intro d off len h
    simp only [failing, memBackend] at h ⊢
    split at h
    · rename_i hf
      rw [if_pos hf]
    · rename_i hf
      rw [if_neg hf]
      split at h
      · rename_i hout
        rw [if_pos hout]
      · exact absurd rfl h

end TaktOS

namespace TaktOS.Proof

open Lib

variable {δ : Type} {b : FlashBackend δ} {content : δ → Nat → UInt8}

/-! ## The sector loop -/

/-- What is blank stays blank while sectors are erased, or not. -/
theorem eraseLoop_blank (hr : b.Fallible content) (hc : b.Clean content) {e : UInt32}
    (he : e.toNat * b.sectorSize.toNat < b.totalSize.toNat) {a fuel : Nat} {s : UInt32} {d d' : δ}
    {ok : Bool} (h : StorageManager.eraseLoop b e fuel s d = some (ok, d'))
    (ha : content d a = erased) : content d' a = erased := by
  refine eraseLoop_after (P := fun d => content d a = erased) (fun d s hle ha => ?_) fuel h ha
  obtain ⟨_, hdvd, hin⟩ := sectorAddress he hle
  by_cases hcode : (b.erase d (s * b.sectorSize) b.sectorSize.toNat).1 = 0
  · rw [hr.erase_ok d _ hdvd hin hcode, fill]
    split
    · rfl
    · exact ha
  · rw [hc.erase_failed d _ _ hcode]
    exact ha

/-! ## Writing -/

/-- **A write returns**, and where it reports success it was an erase-before-write. -/
theorem write_fallible (sm : StorageManager δ) (hr : b.Fallible content)
    (hb : sm.backend = some b) (hS : 0 < b.sectorSize.toNat) (offset : UInt32) (buf : List UInt8)
    (h0 : 0 < buf.length) (h : offset.toNat + buf.length ≤ b.totalSize.toNat) :
    ∃ r d, sm.write offset buf = some (r, { sm with device := d })
      ∧ (0 ≤ r → content d
        = program b.sectorSize.toNat erased (content sm.device) offset.toNat buf) := by
  obtain ⟨e, he, hs, _, hceil, hwrite⟩ := write_sectors sm hb hS (by omega) h
  have hmul := Nat.mul_le_mul_left e.toNat hS
  have htot := b.totalSize.toNat_lt
  obtain ⟨ok, d, hloop, hfill, _⟩ := eraseLoop_fallible hr hS he (2 ^ 32)
    (s := offset / b.sectorSize) (d := sm.device) (by omega) (by omega)
  rw [hwrite, hloop]
  cases ok with
  | false => exact ⟨-1, d, rfl, fun hneg => absurd hneg (by decide)⟩
  | true =>
    refine ⟨_, _, rfl, fun hok => ?_⟩
    rw [hr.write_ok d offset buf h hok, hfill rfl, hceil, UInt32.toNat_div]
    rfl

/-- From a sector boundary on, a write first erases the sector it starts in. -/
theorem write_first_sector (sm : StorageManager δ) (hb : sm.backend = some b)
    (hS : 0 < b.sectorSize.toNat) {offset : UInt32} {buf : List UInt8}
    (ha : b.sectorSize.toNat ∣ offset.toNat) (h0 : 0 < buf.length)
    (h : offset.toNat + buf.length ≤ b.totalSize.toNat) :
    ∃ e : UInt32, e.toNat * b.sectorSize.toNat < b.totalSize.toNat
      ∧ sm.write offset buf
        = if (b.erase sm.device offset b.sectorSize.toNat).1 ≠ 0
          then some (-1, { sm with device := (b.erase sm.device offset b.sectorSize.toNat).2 })
          else afterErase b sm offset buf
            (StorageManager.eraseLoop b e (2 ^ 32 - 1) (offset / b.sectorSize + 1)
              (b.erase sm.device offset b.sectorSize.toNat).2) := by
  obtain ⟨e, he, _, hle, _, hwrite⟩ := write_sectors sm hb hS (by omega) h
  have hs := hle h0
  refine ⟨e, he, ?_⟩
  have hsector : offset / b.sectorSize * b.sectorSize = offset := by
    apply UInt32.toNat_inj.mp
    rw [(sectorAddress he hs).1, UInt32.toNat_div]
    exact Nat.div_mul_cancel ha
  have hfirst : StorageManager.eraseLoop b e (2 ^ 32 - 1 + 1) (offset / b.sectorSize) sm.device
      = _ := eraseLoop_succ hs
  rw [hsector, show (2 : Nat) ^ 32 - 1 + 1 = 2 ^ 32 by decide] at hfirst
  rw [hwrite, hfirst]
  by_cases hcode : (b.erase sm.device offset b.sectorSize.toNat).1 ≠ 0
  · rw [if_pos hcode, if_pos hcode, afterErase]
  · rw [if_neg hcode, if_neg hcode]

/-- If that erase fails the write does. -/
theorem write_erase_failed (sm : StorageManager δ) (hb : sm.backend = some b)
    (hS : 0 < b.sectorSize.toNat) {offset : UInt32} {buf : List UInt8}
    (ha : b.sectorSize.toNat ∣ offset.toNat) (h0 : 0 < buf.length)
    (h : offset.toNat + buf.length ≤ b.totalSize.toNat)
    (hcode : (b.erase sm.device offset b.sectorSize.toNat).1 ≠ 0) :
    sm.write offset buf
      = some (-1, { sm with device := (b.erase sm.device offset b.sectorSize.toNat).2 }) := by
  obtain ⟨e, _, hwrite⟩ := write_first_sector sm hb hS ha h0 h
  rw [hwrite, if_pos hcode]

/--
**What a failed write leaves**, from a sector boundary on: everything as it was, where its first
erase failed, and otherwise a blank first byte.
-/
theorem write_failed_clean (sm : StorageManager δ) {sm' : StorageManager δ}
    (hr : b.Fallible content) (hc : b.Clean content) (hb : sm.backend = some b)
    (hS : 0 < b.sectorSize.toNat) {offset : UInt32} {buf : List UInt8} {r : Int}
    (ha : b.sectorSize.toNat ∣ offset.toNat) (h0 : 0 < buf.length)
    (hlen : buf.length < 2147483648) (h : offset.toNat + buf.length ≤ b.totalSize.toNat)
    (hw : sm.write offset buf = some (r, sm')) (hneg : r < 0) :
    ((b.erase sm.device offset b.sectorSize.toNat).1 ≠ 0 ∧ content sm'.device = content sm.device)
      ∨ ((b.erase sm.device offset b.sectorSize.toNat).1 = 0
        ∧ content sm'.device offset.toNat = erased) := by
  obtain ⟨e, he, hwrite⟩ := write_first_sector sm hb hS ha h0 h
  rw [hwrite] at hw
  by_cases hcode : (b.erase sm.device offset b.sectorSize.toNat).1 = 0
  · right
    refine ⟨hcode, ?_⟩
    rw [if_neg (Decidable.not_not.mpr hcode)] at hw
    -- the sector of the first byte is blank, and whatever follows leaves it so
    have hblank : content (b.erase sm.device offset b.sectorSize.toNat).2 offset.toNat
        = erased := by
      rw [hr.erase_ok sm.device offset ha (by omega) hcode]
      exact fill_of_mem (Nat.le_refl _) (by omega)
    unfold afterErase at hw
    split at hw
    · exact absurd hw (by simp)
    · rename_i d hloop
      injection hw with hw; injection hw with _ hsm
      rw [← hsm]
      exact eraseLoop_blank hr hc he hloop hblank
    · rename_i d hloop
      injection hw with hw; injection hw with hr' hsm
      rw [← hsm]
      dsimp only
      rw [hc.write_failed d offset buf hlen (hr' ▸ hneg)]
      exact eraseLoop_blank hr hc he hloop hblank
  · left
    refine ⟨hcode, ?_⟩
    rw [if_pos hcode] at hw
    injection hw with hw; injection hw with _ hsm
    rw [← hsm]
    exact hc.erase_failed sm.device offset _ hcode

end TaktOS.Proof
