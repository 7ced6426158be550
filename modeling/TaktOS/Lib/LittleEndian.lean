import Mathlib.Algebra.Group.Nat.Defs

/-!
# Little-endian words

A 32-bit word as the four bytes a little-endian machine stores for it, and back, and a
16-bit one as its two. `wordAt` and `halfAt` read at an index of a longer record, which is
how a struct field is read out of a byte buffer.
-/

namespace TaktOS.Lib

/-- Byte `k` of a word, lowest first. -/
def leByte (x : UInt32) (k : Nat) : UInt8 := UInt8.ofNat (x.toNat / 256 ^ k)

/-- The four bytes of a word, lowest first. -/
def leBytes (x : UInt32) : List UInt8 := [leByte x 0, leByte x 1, leByte x 2, leByte x 3]

/-- The word spelled by four bytes, lowest first. -/
def leWord (a b c d : UInt8) : UInt32 :=
  UInt32.ofNat (a.toNat + 256 * b.toNat + 65536 * c.toNat + 16777216 * d.toNat)

/-- The word stored at index `i` of a record. -/
def wordAt (bs : List UInt8) (i : Nat) : UInt32 :=
  leWord (bs.getD i 0) (bs.getD (i + 1) 0) (bs.getD (i + 2) 0) (bs.getD (i + 3) 0)

/-- **Storing a word and reading it back gives the word.** -/
@[simp] theorem leWord_leByte (x : UInt32) :
    leWord (leByte x 0) (leByte x 1) (leByte x 2) (leByte x 3) = x := by
  apply UInt32.toNat_inj.mp
  have hx : x.toNat < 4294967296 := x.toNat_lt
  simp only [leWord, leByte, UInt8.toNat_ofNat', UInt32.toNat_ofNat']
  omega

/-- Four bytes are those of the word they spell. -/
theorem leBytes_leWord (a b c d : UInt8) : leBytes (leWord a b c d) = [a, b, c, d] := by
  have ha := a.toNat_lt
  have hb := b.toNat_lt
  have hc := c.toNat_lt
  have hd := d.toNat_lt
  have hword : (leWord a b c d).toNat
      = a.toNat + 256 * b.toNat + 65536 * c.toNat + 16777216 * d.toNat := by
    rw [leWord, UInt32.toNat_ofNat']
    exact Nat.mod_eq_of_lt (by omega)
  have hbyte : ∀ (k : Nat) (x : UInt8), (leWord a b c d).toNat / 256 ^ k % 256 = x.toNat →
      leByte (leWord a b c d) k = x := fun k x h =>
    UInt8.toNat_inj.mp ((UInt8.toNat_ofNat' (n := (leWord a b c d).toNat / 256 ^ k)).trans h)
  rw [leBytes, hbyte 0 a (by rw [hword]; omega), hbyte 1 b (by rw [hword]; omega),
    hbyte 2 c (by rw [hword]; omega), hbyte 3 d (by rw [hword]; omega)]

/-- Reading four bytes as a word and storing it gives the bytes. -/
theorem leBytes_wordAt {bs : List UInt8} (h : bs.length = 4) : leBytes (wordAt bs 0) = bs := by
  match bs, h with
  | [a, b, c, d], _ => exact leBytes_leWord a b c d

theorem leBytes_inj {x y : UInt32} (h : leBytes x = leBytes y) : x = y := by
  simp only [leBytes, List.cons.injEq] at h
  rw [← leWord_leByte x, ← leWord_leByte y, h.1, h.2.1, h.2.2.1, h.2.2.2.1]

/-- A word starts with its lowest byte. -/
theorem leWord_mod (a b c d : UInt8) : (leWord a b c d).toNat % 256 = a.toNat := by
  have ha := a.toNat_lt
  rw [leWord, UInt32.toNat_ofNat']
  omega

/-- The two bytes of a half word, lowest first. -/
def leHalfBytes (x : UInt16) : List UInt8 := [UInt8.ofNat x.toNat, UInt8.ofNat (x.toNat / 256)]

/-- The half word stored at index `i` of a record. -/
def halfAt (bs : List UInt8) (i : Nat) : UInt16 :=
  UInt16.ofNat ((bs.getD i 0).toNat + 256 * (bs.getD (i + 1) 0).toNat)

/-- Storing a half word and reading it back gives the half word. -/
@[simp] theorem halfAt_leHalfBytes (x : UInt16) : halfAt (leHalfBytes x) 0 = x := by
  apply UInt16.toNat_inj.mp
  have hx : x.toNat < 65536 := x.toNat_lt
  simp [halfAt, leHalfBytes, UInt8.toNat_ofNat', UInt16.toNat_ofNat']
  omega

/-- Reading two bytes as a half word and storing it gives the bytes. -/
theorem leHalfBytes_halfAt {bs : List UInt8} (h : bs.length = 2) :
    leHalfBytes (halfAt bs 0) = bs := by
  match bs, h with
  | [a, b], _ =>
    have ha := a.toNat_lt
    have hb := b.toNat_lt
    have hword : (halfAt [a, b] 0).toNat = a.toNat + 256 * b.toNat := by
      rw [halfAt, UInt16.toNat_ofNat']
      exact Nat.mod_eq_of_lt (by simp; omega)
    rw [leHalfBytes, hword]
    congr 1
    · exact UInt8.toNat_inj.mp (by rw [UInt8.toNat_ofNat']; omega)
    · congr 1
      exact UInt8.toNat_inj.mp (by rw [UInt8.toNat_ofNat']; omega)

end TaktOS.Lib
