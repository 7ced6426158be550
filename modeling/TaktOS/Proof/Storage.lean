import TaktOS.Proof.FlashLaws

/-!
# What `StorageManager` makes of its backend

One specification for `read` and two for `write`. Over a reliable backend `write` is
`Lib.program`, the erase-before-write of whole sectors (`write_reliable`). Over any
backend it keeps every device predicate that survives accesses inside the sectors the
range touches (`write_keeps`), whether it succeeds, fails half way or is refused.
-/

namespace TaktOS.Proof

open Lib

variable {δ : Type}

/-! ## `size_t` and `int` -/

theorem size_le (t : Target) (n : Nat) : t.size n ≤ n := Nat.mod_le _ _

theorem size_of_lt (t : Target) {n : Nat} (h : n < 4294967296) : t.size n = n := by
  refine Nat.mod_eq_of_lt (Nat.lt_of_lt_of_le h ?_)
  cases t <;> decide

/-- Decrementing a positive `size_t` that came from a `uint32_t` range does not wrap. -/
theorem size_pred (t : Target) {n : Nat} (h0 : 0 < n) (h : n < 4294967296) :
    t.size (n + (2 ^ t.sizeBits - 1)) = n - 1 := by
  -- adding the largest `size_t` is subtracting one, with a single wrap
  have hb : 4294967296 ≤ 2 ^ t.sizeBits := by cases t <;> decide
  rw [show n + (2 ^ t.sizeBits - 1) = n - 1 + 2 ^ t.sizeBits by omega, Target.size,
    Nat.add_mod_right]
  exact Nat.mod_eq_of_lt (by omega)

theorem castInt_of_lt {n : Nat} (h : n < 2147483648) : castInt n = n := by
  unfold castInt
  rw [Int.bmod_def]
  omega

/-! ## Reading -/

section Readable

variable {b : FlashBackend δ} {content : δ → Nat → UInt8} (sm : StorageManager δ)

/-- A read inside the flash delivers the content. -/
theorem read_inside (hb : sm.backend = some b) (hr : b.Readable content) (offset : UInt32)
    (buf : List UInt8) (h : offset.toNat + buf.length ≤ b.totalSize.toNat) :
    (sm.read offset buf).1 = castInt buf.length
      ∧ (sm.read offset buf).2.1 = slice (content sm.device) offset.toNat buf.length := by
  unfold StorageManager.read
  rw [hb]
  dsimp only
  have := size_le sm.target (offset.toNat + buf.length)
  rw [if_neg (by omega)]
  exact ⟨hr.code _ _ _ h, hr.data _ _ _ h⟩

/-- A read past the end fails, whether the bounds check or the backend rejects it. -/
theorem read_outside (hb : sm.backend = some b) (hr : b.Readable content) (offset : UInt32)
    (buf : List UInt8) (h : b.totalSize.toNat < offset.toNat + buf.length) :
    (sm.read offset buf).1 < 0 := by
  unfold StorageManager.read
  rw [hb]
  dsimp only
  split
  · show (-1 : Int) < 0
    decide
  · exact hr.fail _ _ _ h

end Readable

/-! ## The sector loop -/

theorem endSector_toNat (t : Target) (sector : UInt32) {offset : UInt32} {len : Nat}
    (h0 : 0 < offset.toNat + len) (h : offset.toNat + len < 4294967296) :
    (StorageManager.endSector t offset len sector).toNat
      = (offset.toNat + len - 1) / sector.toNat := by
  have hdiv := Nat.div_le_self (offset.toNat + len - 1) sector.toNat
  rw [StorageManager.endSector, size_of_lt t h, size_pred t h0 h, UInt32.toNat_ofNat']
  exact Nat.mod_eq_of_lt (by omega)

/-- The sectors from the first to the last one touched are the blocks of the range. -/
theorem endSector_ceil {S o len : Nat} (hS : 0 < S) (h0 : 0 < o + len) :
    ((o + len - 1) / S + 1) * S = blockCeil S (o + len) := by
  unfold blockCeil
  rw [show o + len + (S - 1) = o + len - 1 + S by omega, Nat.add_div_right _ hS]

variable {b : FlashBackend δ}

/-- One pass of the sector loop. -/
theorem eraseLoop_succ {e s : UInt32} {fuel : Nat} {d : δ} (h : s.toNat ≤ e.toNat) :
    StorageManager.eraseLoop b e (fuel + 1) s d
      = if (b.erase d (s * b.sectorSize) b.sectorSize.toNat).1 ≠ 0
        then some (false, (b.erase d (s * b.sectorSize) b.sectorSize.toNat).2)
        else StorageManager.eraseLoop b e fuel (s + 1)
          (b.erase d (s * b.sectorSize) b.sectorSize.toNat).2 := by
  rw [StorageManager.eraseLoop, if_pos (UInt32.le_iff_toNat_le.mpr h)]

theorem eraseLoop_done {e s : UInt32} {fuel : Nat} {d : δ} (h : e.toNat < s.toNat) :
    StorageManager.eraseLoop b e (fuel + 1) s d = some (true, d) := by
  have hns : ¬ s ≤ e := fun hc => by have := UInt32.le_iff_toNat_le.mp hc; omega
  rw [StorageManager.eraseLoop, if_neg hns]

theorem toNat_succ {s : UInt32} (h : s.toNat + 1 < 4294967296) : (s + 1).toNat = s.toNat + 1 := by
  rw [UInt32.toNat_add]
  exact Nat.mod_eq_of_lt h

theorem toNat_mul {s k : UInt32} (h : s.toNat * k.toNat < 4294967296) :
    (s * k).toNat = s.toNat * k.toNat := by
  rw [UInt32.toNat_mul]
  exact Nat.mod_eq_of_lt h

/-- The address of a sector that lies in the flash. -/
theorem sectorAddress {s e : UInt32} (he : e.toNat * b.sectorSize.toNat < b.totalSize.toNat)
    (h : s.toNat ≤ e.toNat) :
    (s * b.sectorSize).toNat = s.toNat * b.sectorSize.toNat
      ∧ b.sectorSize.toNat ∣ (s * b.sectorSize).toNat
      ∧ (s * b.sectorSize).toNat < b.totalSize.toNat := by
  have htot := b.totalSize.toNat_lt
  have hin : s.toNat * b.sectorSize.toNat < b.totalSize.toNat :=
    Nat.lt_of_le_of_lt (Nat.mul_le_mul_right _ h) he
  have hoff := toNat_mul (s := s) (k := b.sectorSize) (by omega)
  exact ⟨hoff, hoff ▸ Nat.dvd_mul_left _ _, hoff ▸ hin⟩

/--
**The loop ends**, and where it says so it has blanked the sectors from `s` to `e`. It says so
if no erase of a sector fails.
-/
theorem eraseLoop_fallible {content : δ → Nat → UInt8} (hr : b.Fallible content) {e : UInt32}
    (hS : 0 < b.sectorSize.toNat)
    (he : e.toNat * b.sectorSize.toNat < b.totalSize.toNat) :
    ∀ (fuel : Nat) {s : UInt32} {d : δ}, s.toNat ≤ e.toNat + 1 → e.toNat + 1 - s.toNat < fuel →
      ∃ ok d', StorageManager.eraseLoop b e fuel s d = some (ok, d')
        ∧ (ok = true → content d' = fill (content d) (s.toNat * b.sectorSize.toNat)
            ((e.toNat + 1) * b.sectorSize.toNat) erased)
        ∧ ((∀ d (off : UInt32), b.sectorSize.toNat ∣ off.toNat → off.toNat < b.totalSize.toNat →
            (b.erase d off b.sectorSize.toNat).1 = 0) → ok = true) := by
  intro fuel
  have htot := b.totalSize.toNat_lt
  have hmul := Nat.mul_le_mul_left e.toNat hS
  -- the fuel covers the sectors from `s` on, and each pass leaves one fewer
  induction fuel with
  | zero => intro s d _ hf; omega
  | succ fuel ih =>
    intro s d hs hf
    rcases Nat.lt_or_ge e.toNat s.toNat with hlt | hle
    · -- past the last sector: the range to blank is empty
      refine ⟨true, d, eraseLoop_done hlt, fun _ => (fill_empty ?_).symm, fun _ => rfl⟩
      exact Nat.mul_le_mul_right _ hlt
    · obtain ⟨hoff, hdvd, hin⟩ := sectorAddress he hle
      have hsucc := toNat_succ (s := s) (by omega)
      rw [eraseLoop_succ hle]
      split
      · rename_i hcode
        exact ⟨false, _, rfl, fun h => absurd h Bool.false_ne_true,
          fun hall => absurd (hall d _ hdvd hin) hcode⟩
      · rename_i hcode
        have hdata := hr.erase_ok d _ hdvd hin (Decidable.not_not.mp hcode)
        obtain ⟨ok, d', hloop, hcont, hall⟩ :=
          ih (s := s + 1) (d := (b.erase d (s * b.sectorSize) b.sectorSize.toNat).2)
            (by omega) (by omega)
        refine ⟨ok, d', hloop, fun hok => ?_, hall⟩
        rw [hcont hok, hdata, hoff, hsucc, Nat.succ_mul]
        exact fill_fill (Nat.le_add_right _ _)
          (by rw [← Nat.succ_mul]; exact Nat.mul_le_mul_right _ (by omega))

/-- Over any backend the loop keeps what survives accesses to the sectors from `s` to `e`. -/
theorem eraseLoop_keeps {lo hi : Nat} {P : δ → Prop} (hk : b.Keeps lo hi P) {e : UInt32}
    (hS : 0 < b.sectorSize.toNat) (hhi : hi < 4294967296) :
    ∀ (fuel : Nat) {s : UInt32} {d d' : δ} {ok : Bool},
      (∀ a, s.toNat * b.sectorSize.toNat ≤ a → a < (e.toNat + 1) * b.sectorSize.toNat →
        lo ≤ a ∧ a < hi) →
      StorageManager.eraseLoop b e fuel s d = some (ok, d') → P d → P d' := by
  intro fuel
  induction fuel with
  | zero => intro s d d' ok _ h _; exact absurd h (by simp [StorageManager.eraseLoop])
  | succ fuel ih =>
    intro s d d' ok hin h hp
    rcases Nat.lt_or_ge e.toNat s.toNat with hlt | hle
    · rw [eraseLoop_done hlt] at h
      injection h with h; injection h with _ h
      exact h ▸ hp
    · -- the last byte of the last sector lies below `hi`, so nothing here wraps
      have hse : (s.toNat + 1) * b.sectorSize.toNat ≤ (e.toNat + 1) * b.sectorSize.toNat :=
        Nat.mul_le_mul_right _ (by omega)
      have hs1 : (s.toNat + 1) * b.sectorSize.toNat
          = s.toNat * b.sectorSize.toNat + b.sectorSize.toNat := Nat.succ_mul _ _
      have hlast := hin ((e.toNat + 1) * b.sectorSize.toNat - 1) (by omega) (by omega)
      have hmul := Nat.mul_le_mul_left (e.toNat + 1) hS
      have hoff := toNat_mul (s := s) (k := b.sectorSize) (by omega)
      have hsucc := toNat_succ (s := s) (by omega)
      have hp' : P (b.erase d (s * b.sectorSize) b.sectorSize.toNat).2 :=
        hk.erase _ _ _ (fun a h1 h2 => hin a (by omega) (by omega)) hp
      rw [eraseLoop_succ hle] at h
      split at h
      · injection h with h; injection h with _ h
        exact h ▸ hp'
      · refine ih ?_ h hp'
        intro a h1 h2
        rw [hsucc, hs1] at h1
        exact hin a (by omega) h2

/-- Over any backend the loop keeps what every erase of a sector up to `e` keeps. -/
theorem eraseLoop_after {P : δ → Prop} {e : UInt32}
    (hk : ∀ d (s : UInt32), s.toNat ≤ e.toNat → P d →
      P (b.erase d (s * b.sectorSize) b.sectorSize.toNat).2) :
    ∀ (fuel : Nat) {s : UInt32} {d d' : δ} {ok : Bool},
      StorageManager.eraseLoop b e fuel s d = some (ok, d') → P d → P d' := by
  intro fuel
  induction fuel with
  | zero => intro s d d' ok h _; exact absurd h (by simp [StorageManager.eraseLoop])
  | succ fuel ih =>
    intro s d d' ok h hp
    rcases Nat.lt_or_ge e.toNat s.toNat with hlt | hle
    · rw [eraseLoop_done hlt] at h
      injection h with h; injection h with _ h
      exact h ▸ hp
    · rw [eraseLoop_succ hle] at h
      split at h
      · injection h with h; injection h with _ h
        exact h ▸ hk d s hle hp
      · exact ih h (hk d s hle hp)

/-! ## Writing -/

variable {sm : StorageManager δ}

/-- A write keeps what erases and the write of these very bytes keep. -/
theorem write_after {P : δ → Prop} (hb : sm.backend = some b)
    (he : ∀ d off len, P d → P (b.erase d off len).2) {offset : UInt32} {buf : List UInt8}
    (hw : ∀ d, P d → P (b.write d offset buf).2) {r : Int} {sm' : StorageManager δ}
    (h : sm.write offset buf = some (r, sm')) (hp : P sm.device) : P sm'.device := by
  rw [StorageManager.write, hb] at h
  dsimp only at h
  split at h
  · injection h with h; injection h with _ h
    exact h ▸ hp
  · split at h
    · exact absurd h (by simp)
    · split at h
      · exact absurd h (by simp)
      · rename_i d hloop
        injection h with h; injection h with _ h
        exact h ▸ eraseLoop_after (fun d _ _ => he d _ _) _ hloop hp
      · rename_i d hloop
        injection h with h; injection h with _ h
        exact h ▸ hw d (eraseLoop_after (fun d _ _ => he d _ _) _ hloop hp)

/-- What is left of a write after its sector loop. -/
def afterErase (b : FlashBackend δ) (sm : StorageManager δ) (offset : UInt32) (buf : List UInt8) :
    Option (Bool × δ) → Option (Int × StorageManager δ)
  | none => none
  | some (false, d) => some (-1, { sm with device := d })
  | some (true, d) =>
    some ((b.write d offset buf).1, { sm with device := (b.write d offset buf).2 })

theorem afterErase_cases {offset : UInt32} {buf : List UInt8} {res : Option (Bool × δ)} {r : Int}
    {sm' : StorageManager δ} (h : afterErase b sm offset buf res = some (r, sm')) :
    ∃ ok d, res = some (ok, d)
      ∧ ((ok = false ∧ r = -1 ∧ sm' = { sm with device := d })
        ∨ (ok = true ∧ r = (b.write d offset buf).1
          ∧ sm' = { sm with device := (b.write d offset buf).2 })) := by
  rcases res with _ | ⟨_ | _, d⟩
  · exact absurd h (by simp [afterErase])
  · injection h with h; injection h with hr hsm
    exact ⟨false, d, rfl, Or.inl ⟨rfl, hr.symm, hsm.symm⟩⟩
  · injection h with h; injection h with hr hsm
    exact ⟨true, d, rfl, Or.inr ⟨rfl, hr.symm, hsm.symm⟩⟩

/-- A write that is let through is its sector loop and what is left after that. -/
theorem write_loop (sm : StorageManager δ) (hb : sm.backend = some b)
    (hS : 0 < b.sectorSize.toNat) {offset : UInt32} {buf : List UInt8}
    (hcheck : sm.target.size (offset.toNat + buf.length) ≤ b.totalSize.toNat) :
    sm.write offset buf = afterErase b sm offset buf
      (StorageManager.eraseLoop b
        (StorageManager.endSector sm.target offset buf.length b.sectorSize) (2 ^ 32)
        (offset / b.sectorSize) sm.device) := by
  have hsec : b.sectorSize ≠ 0 := fun hc => by rw [hc] at hS; exact absurd hS (by decide)
  rw [StorageManager.write, hb]
  dsimp only
  rw [if_neg (Nat.not_lt.mpr hcheck), if_neg hsec]
  rcases StorageManager.eraseLoop b
    (StorageManager.endSector sm.target offset buf.length b.sectorSize) (2 ^ 32)
    (offset / b.sectorSize) sm.device with _ | ⟨_ | _, d⟩
  · rfl
  · rw [afterErase, hb]
  · rw [afterErase, hb]

/-- A write that is let through and returns has a sector size to divide by. -/
theorem sector_pos_of_write (hb : sm.backend = some b) {offset : UInt32} {buf : List UInt8}
    {r : Int} {sm' : StorageManager δ}
    (hcheck : sm.target.size (offset.toNat + buf.length) ≤ b.totalSize.toNat)
    (h : sm.write offset buf = some (r, sm')) : 0 < b.sectorSize.toNat := by
  rw [StorageManager.write, hb] at h
  dsimp only at h
  rw [if_neg (Nat.not_lt.mpr hcheck)] at h
  split at h
  · exact absurd h (by simp)
  · rename_i hsec
    rcases Nat.eq_zero_or_pos b.sectorSize.toNat with hz | hpos
    · exact absurd (UInt32.toNat_inj.mp hz) hsec
    · exact hpos

/-- A write inside the flash goes from the sector it starts in to the one it ends in. -/
theorem write_sectors (sm : StorageManager δ) (hb : sm.backend = some b)
    (hS : 0 < b.sectorSize.toNat) {offset : UInt32} {buf : List UInt8}
    (h0 : 0 < offset.toNat + buf.length) (h : offset.toNat + buf.length ≤ b.totalSize.toNat) :
    ∃ e : UInt32, e.toNat * b.sectorSize.toNat < b.totalSize.toNat
      ∧ (offset / b.sectorSize).toNat ≤ e.toNat + 1
      ∧ (0 < buf.length → (offset / b.sectorSize).toNat ≤ e.toNat)
      ∧ (e.toNat + 1) * b.sectorSize.toNat
        = blockCeil b.sectorSize.toNat (offset.toNat + buf.length)
      ∧ sm.write offset buf = afterErase b sm offset buf
          (StorageManager.eraseLoop b e (2 ^ 32) (offset / b.sectorSize) sm.device) := by
  have htot := b.totalSize.toNat_lt
  have hend : (StorageManager.endSector sm.target offset buf.length b.sectorSize).toNat
      = (offset.toNat + buf.length - 1) / b.sectorSize.toNat :=
    endSector_toNat sm.target b.sectorSize h0 (by omega)
  refine ⟨StorageManager.endSector sm.target offset buf.length b.sectorSize, ?_, ?_, ?_, ?_, ?_⟩
  · rw [hend]
    have := Nat.div_mul_le_self (offset.toNat + buf.length - 1) b.sectorSize.toNat
    omega
  · rw [hend, UInt32.toNat_div, ← Nat.add_div_right _ hS]
    exact Nat.div_le_div_right (by omega)
  · intro hlen
    rw [hend, UInt32.toNat_div]
    exact Nat.div_le_div_right (by omega)
  · rw [hend]
    exact endSector_ceil hS h0
  · have hsize := size_le sm.target (offset.toNat + buf.length)
    exact write_loop sm hb hS (by omega)

/-- **Over a reliable backend a write inside the flash is an erase-before-write.** -/
theorem write_reliable {content : δ → Nat → UInt8} (sm : StorageManager δ)
    (hb : sm.backend = some b) (hr : b.Reliable content) (hS : 0 < b.sectorSize.toNat)
    (offset : UInt32) (buf : List UInt8) (h0 : 0 < offset.toNat + buf.length)
    (h : offset.toNat + buf.length ≤ b.totalSize.toNat) :
    ∃ d', sm.write offset buf = some (castInt buf.length, { sm with device := d' })
      ∧ content d'
        = program b.sectorSize.toNat erased (content sm.device) offset.toNat buf := by
  obtain ⟨e, he, hs, _, hceil, hwrite⟩ := write_sectors sm hb hS h0 h
  have htot := b.totalSize.toNat_lt
  have hmul := Nat.mul_le_mul_left e.toNat hS
  obtain ⟨ok, d, hloop, hfill, hall⟩ := eraseLoop_fallible hr.fallible hS he (2 ^ 32)
    (s := offset / b.sectorSize) (d := sm.device) hs (by omega)
  have hok := hall hr.erase_code
  rw [hok] at hloop
  refine ⟨(b.write d offset buf).2, ?_, ?_⟩
  · rw [hwrite, hloop, afterErase, hr.write_code d offset buf h]
  · rw [hr.write_data d offset buf h, hfill hok, hceil, UInt32.toNat_div]
    rfl

/-- Over a truthful backend a write that succeeds leaves its bytes where it was told to. -/
theorem write_stored {content : δ → Nat → UInt8} (hb : sm.backend = some b)
    (hr : b.Truthful content) {offset : UInt32} {buf : List UInt8} {r : Int}
    {sm' : StorageManager δ} (h : sm.write offset buf = some (r, sm')) (hok : 0 ≤ r) :
    slice (content sm'.device) offset.toNat buf.length = buf := by
  rw [StorageManager.write, hb] at h
  dsimp only at h
  split at h
  · injection h with h; injection h with hr' _
    exact absurd (hr' ▸ hok) (by decide)
  · split at h
    · exact absurd h (by simp)
    · split at h
      · exact absurd h (by simp)
      · injection h with h; injection h with hr' _
        exact absurd (hr' ▸ hok) (by decide)
      · rename_i d hloop
        injection h with h; injection h with hr' h
        rw [← h]
        exact hr.stored d offset buf (hr' ▸ hok)

/-- A write the bounds check rejects does nothing. -/
theorem write_refused (hb : sm.backend = some b) {offset : UInt32} {buf : List UInt8}
    (h : b.totalSize.toNat < sm.target.size (offset.toNat + buf.length)) :
    sm.write offset buf = some (-1, sm) := by
  rw [StorageManager.write, hb]
  dsimp only
  rw [if_pos h]

/-- A write only ever changes the device. -/
theorem write_frame {offset : UInt32} {buf : List UInt8} {r : Int} {sm' : StorageManager δ}
    (h : sm.write offset buf = some (r, sm')) : ∃ d, sm' = { sm with device := d } := by
  unfold StorageManager.write at h
  split at h
  · injection h with h; injection h with _ h
    exact ⟨sm.device, h.symm⟩
  · split at h
    · injection h with h; injection h with _ h
      exact ⟨sm.device, h.symm⟩
    · split at h
      · exact absurd h (by simp)
      · dsimp only at h
        split at h
        · exact absurd h (by simp)
        · injection h with h; injection h with _ h
          exact ⟨_, h.symm⟩
        · injection h with h; injection h with _ h
          exact ⟨_, h.symm⟩

/--
**Over any backend a write stays inside the sectors its range touches.** Refused by the
bounds check it does nothing; otherwise every access it makes lies in those sectors, so
it keeps what survives such accesses.
-/
theorem write_keeps {lo hi : Nat} {P : δ → Prop} (hb : sm.backend = some b)
    (hk : b.Keeps lo hi P) (hS : 0 < b.sectorSize.toNat) (hhi : hi < 4294967296)
    {offset : UInt32} {buf : List UInt8} {r : Int} {sm' : StorageManager δ}
    (hin : sm.target.size (offset.toNat + buf.length) ≤ b.totalSize.toNat →
      0 < offset.toNat + buf.length
        ∧ ∀ a, blockFloor b.sectorSize.toNat offset.toNat ≤ a →
          a < blockCeil b.sectorSize.toNat (offset.toNat + buf.length) → lo ≤ a ∧ a < hi)
    (h : sm.write offset buf = some (r, sm')) (hp : P sm.device) : P sm'.device := by
  rw [StorageManager.write, hb] at h
  dsimp only at h
  split at h
  · injection h with h; injection h with _ h
    exact h ▸ hp
  · rename_i hsize
    obtain ⟨h0, hin⟩ := hin (by omega)
    have hfl := blockFloor_le b.sectorSize.toNat offset.toNat
    have hce := le_blockCeil hS (offset.toNat + buf.length)
    -- the check's sum may have wrapped, but the last byte lies below `hi`
    have hnowrap : offset.toNat + buf.length < 4294967296 := by
      have ho := offset.toNat_lt
      rcases Nat.eq_zero_or_pos buf.length with hz | hz
      · omega
      · have := hin (offset.toNat + buf.length - 1) (by omega) (by omega)
        omega
    have hend := endSector_toNat sm.target b.sectorSize h0 hnowrap
    have hstart : (offset / b.sectorSize).toNat = offset.toNat / b.sectorSize.toNat :=
      UInt32.toNat_div _ _
    split at h
    · exact absurd h (by simp)
    · -- the sectors from the first to the last are the blocks of the range
      have hblocks : ∀ a, (offset / b.sectorSize).toNat * b.sectorSize.toNat ≤ a →
          a < ((StorageManager.endSector sm.target offset buf.length b.sectorSize).toNat + 1)
            * b.sectorSize.toNat → lo ≤ a ∧ a < hi := by
        intro a h1 h2
        rw [hstart] at h1
        rw [hend, endSector_ceil hS h0] at h2
        exact hin a h1 h2
      split at h
      · exact absurd h (by simp)
      · rename_i d hloop
        injection h with h; injection h with _ h
        exact h ▸ eraseLoop_keeps hk hS hhi _ hblocks hloop hp
      · rename_i d hloop
        injection h with h; injection h with _ h
        have hd := eraseLoop_keeps hk hS hhi _ hblocks hloop hp
        exact h ▸ hk.write d offset buf (fun a h1 h2 => hin a (by omega) (by omega)) hd

end TaktOS.Proof
