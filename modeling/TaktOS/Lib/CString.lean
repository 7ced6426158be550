import Mathlib.Data.List.TakeWhile
import TaktOS.Lib.Fields

/-!
# C strings in fixed buffers

The C string at an address is what stands there before the first zero. A buffer has one byte more
than the text it is for, and that byte is zero, so every string read from it ends inside it. An
address is an index into the buffer.

`strtokR` cuts a buffer up in place; `strtokR_some` says what one call makes of the string it is
given, and that is all a client's loop needs.
-/

namespace TaktOS.Lib

/-- The characters before the terminator. -/
def cstr (bytes : List UInt8) : List UInt8 := bytes.takeWhile (· != 0)

theorem cstr_ne_zero {bytes : List UInt8} : ∀ c ∈ cstr bytes, c ≠ 0 := by
  intro c hc
  simpa using List.mem_takeWhile_imp hc

theorem cstr_of_ne_zero {bytes : List UInt8} (h : ∀ c ∈ bytes, c ≠ 0) : cstr bytes = bytes := by
  rw [cstr, List.takeWhile_eq_self_iff]
  simpa using h

theorem cstr_append_zero {bytes rest : List UInt8} (h : ∀ c ∈ bytes, c ≠ 0) :
    cstr (bytes ++ 0 :: rest) = bytes := by
  rw [cstr, List.takeWhile_append_of_pos (by simpa using h)]
  simp

theorem cstr_cons {c : UInt8} {bytes : List UInt8} :
    cstr (c :: bytes) = if c = 0 then [] else c :: cstr bytes := by
  rw [cstr, List.takeWhile_cons, cstr]
  by_cases h : c = 0 <;> simp [h]

/-- A string from a later character on. -/
theorem cstr_drop {bytes : List UInt8} {k : Nat} (h : k ≤ (cstr bytes).length) :
    cstr (bytes.drop k) = (cstr bytes).drop k := by
  induction bytes generalizing k with
  | nil => simp [cstr]
  | cons c bytes ih =>
    cases k with
    | zero => rfl
    | succ k =>
      rw [cstr_cons] at h ⊢
      split at h
      · exact absurd h (Nat.not_succ_le_zero k)
      · rename_i hc
        rw [if_neg hc]
        exact ih (by simpa using h)

/-- A string that is ended early. -/
theorem cstr_set_zero {bytes : List UInt8} {k : Nat} (h : k ≤ (cstr bytes).length) :
    cstr (bytes.set k 0) = (cstr bytes).take k := by
  induction bytes generalizing k with
  | nil => simp [cstr]
  | cons c bytes ih =>
    cases k with
    | zero => simp [cstr_cons]
    | succ k =>
      rw [List.set_cons_succ, cstr_cons]
      rw [cstr_cons] at h ⊢
      split at h
      · exact absurd h (Nat.not_succ_le_zero k)
      · rename_i hc
        rw [if_neg hc, if_neg hc, List.take_succ_cons]
        exact congrArg (c :: ·) (ih (by simpa using h))

/-- A buffer for a text of `n` characters. -/
structure CBuffer (n : Nat) where
  bytes : List UInt8
  length_bytes : bytes.length = n + 1
  last_zero : bytes[n]? = some 0

namespace CBuffer

variable {n : Nat}

/-- A buffer that was never written to. -/
def empty (n : Nat) : CBuffer n where
  bytes := List.replicate (n + 1) 0
  length_bytes := List.length_replicate
  last_zero := by simp

/-- The string at an address of the buffer. -/
def stringAt (b : CBuffer n) (p : Nat) : List UInt8 := cstr (b.bytes.drop p)

/-- Write a terminator. -/
def terminate (b : CBuffer n) (p : Nat) : CBuffer n where
  bytes := b.bytes.set p 0
  length_bytes := by rw [List.length_set, b.length_bytes]
  last_zero := by
    rw [List.getElem?_set]
    split
    · rename_i h
      rw [if_pos (by rw [h, b.length_bytes]; omega)]
    · exact b.last_zero

/-- `strncpy` of all characters but the last: the rest of them is filled with zeros. -/
def strncpy (b : CBuffer n) (text : List UInt8) : CBuffer n where
  bytes := (cstr text ++ List.replicate n 0).take n ++ b.bytes.drop n
  length_bytes := by simp [b.length_bytes]
  last_zero := by
    rw [List.getElem?_append_right (by simp)]
    simpa using b.last_zero

/-- `strchr`: where the character stands first. -/
def strchr (b : CBuffer n) (p : Nat) (c : UInt8) : Option Nat :=
  ((b.stringAt p).idxOf? c).map (p + ·)

/--
`strtok_r` with one delimiter, going on from `p`: the token, the buffer and where to go on. The
delimiter behind the token is overwritten.
-/
def strtokR (b : CBuffer n) (delim : UInt8) (p : Nat) : Option (Nat × CBuffer n × Nat) :=
  let token := p + ((b.stringAt p).takeWhile (· == delim)).length
  match b.stringAt token with
  | [] => none
  | c :: cs =>
    let stop := token + ((c :: cs).takeWhile (· != delim)).length
    match b.stringAt stop with
    | [] => some (token, b, stop)
    | _ :: _ => some (token, b.terminate stop, stop + 1)

theorem stringAt_add (b : CBuffer n) {p k : Nat} (h : k ≤ (b.stringAt p).length) :
    b.stringAt (p + k) = (b.stringAt p).drop k := by
  rw [stringAt, ← List.drop_drop]
  exact cstr_drop h

/-- Ending a string somewhere in it. -/
theorem stringAt_terminate (b : CBuffer n) {p k : Nat} (h : k ≤ (b.stringAt p).length) :
    (b.terminate (p + k)).stringAt p = (b.stringAt p).take k := by
  rw [stringAt, terminate, List.drop_set, if_neg (by omega), Nat.add_sub_cancel_left]
  exact cstr_set_zero h

/-- A terminator changes no string behind it. -/
@[simp] theorem stringAt_terminate_of_lt (b : CBuffer n) {p q : Nat} (h : q < p) :
    (b.terminate q).stringAt p = b.stringAt p := by
  rw [stringAt, terminate, List.drop_set, if_pos h, stringAt]

/-- **A copied text is cut to what fits.** -/
theorem stringAt_strncpy (b : CBuffer n) (text : List UInt8) :
    (b.strncpy text).stringAt 0 = (cstr text).take n := by
  have hbytes : b.bytes.drop n = [0] := by
    have hlt : n < b.bytes.length := by rw [b.length_bytes]; omega
    have hlast : b.bytes[n] = 0 := by
      have h := b.last_zero
      rwa [List.getElem?_eq_getElem hlt, Option.some.injEq] at h
    rw [List.drop_eq_getElem_cons hlt, hlast,
      List.drop_eq_nil_of_le (Nat.le_of_eq b.length_bytes)]
  have hne : ∀ c ∈ (cstr text).take n, c ≠ 0 := fun c hc =>
    cstr_ne_zero c (List.mem_of_mem_take hc)
  change cstr (((cstr text ++ List.replicate n 0).take n ++ b.bytes.drop n).drop 0) = _
  rw [List.drop_zero, hbytes, List.take_append, List.take_replicate]
  -- the padding ends the string, or the last byte does
  generalize min (n - (cstr text).length) n = pad
  cases pad with
  | zero => simpa using cstr_append_zero hne
  | succ k =>
    rw [List.replicate_succ, List.append_assoc]
    exact cstr_append_zero hne

/-- A string with the character in it, cut there. -/
theorem strchr_some (b : CBuffer n) {p : Nat} {c : UInt8} {k v : List UInt8} (hk : c ∉ k)
    (h : b.stringAt p = k ++ c :: v) :
    b.strchr p c = some (p + k.length)
      ∧ (b.terminate (p + k.length)).stringAt p = k
      ∧ (b.terminate (p + k.length)).stringAt (p + k.length + 1) = v := by
  have hlen : (b.stringAt p).length = k.length + (v.length + 1) := by rw [h]; simp
  refine ⟨?_, ?_, ?_⟩
  · have hidx : (k ++ c :: v).idxOf? c = some k.length := by
      rw [List.idxOf?, List.findIdx?_append, List.findIdx?_eq_none_iff.mpr]
      · simp [List.findIdx?_cons]
      · intro x hx
        rw [beq_eq_false_iff_ne]
        exact fun he => hk (he ▸ hx)
    rw [strchr, h, hidx]
    rfl
  · rw [stringAt_terminate b (by omega), h, List.take_left]
  · rw [stringAt_terminate_of_lt b (by omega), Nat.add_assoc, stringAt_add b (by omega), h]
    simp

theorem strchr_none (b : CBuffer n) {p : Nat} {c : UInt8} (h : c ∉ b.stringAt p) :
    b.strchr p c = none := by
  have hidx : (b.stringAt p).idxOf? c = none := by
    rw [List.idxOf?, List.findIdx?_eq_none_iff]
    intro x hx
    rw [beq_eq_false_iff_ne]
    exact fun he => h (he ▸ hx)
  rw [strchr, hidx]
  rfl

/-- A character is found inside the string. -/
theorem strchr_lt (b : CBuffer n) {p q : Nat} {c : UInt8} (h : b.strchr p c = some q) :
    p ≤ q ∧ q < p + (b.stringAt p).length := by
  obtain ⟨i, hi, rfl⟩ := Option.map_eq_some_iff.mp h
  have hlt : i < (b.stringAt p).length := (List.findIdx?_eq_some_iff_getElem.mp hi).1
  omega

/-! ## Tokens -/

/-- Behind the characters that come first in a string. -/
theorem stringAt_takeWhile (b : CBuffer n) (p : Nat) (f : UInt8 → Bool) :
    b.stringAt (p + ((b.stringAt p).takeWhile f).length) = (b.stringAt p).dropWhile f := by
  rw [stringAt_add b (List.takeWhile_sublist f).length_le]
  generalize b.stringAt p = s
  calc s.drop (s.takeWhile f).length
      = (s.takeWhile f ++ s.dropWhile f).drop (s.takeWhile f).length := by
        rw [List.takeWhile_append_dropWhile]
    _ = s.dropWhile f := List.drop_left

/-- **No token is left** exactly when the string has none. -/
theorem strtokR_none (b : CBuffer n) {delim : UInt8} {p : Nat} (h : b.strtokR delim p = none) :
    tokens delim (b.stringAt p) = [] := by
  rw [strtokR] at h
  dsimp only at h
  rw [stringAt_takeWhile] at h
  split at h
  · rename_i hnil
    rw [← tokens_dropWhile, hnil, tokens_nil]
  · split at h <;> exact absurd h (by simp)

/--
**A token and what is left of the string.** The token is the string's first, and the others are
those of the string at `next`, which lies behind the token.
-/
theorem strtokR_some (b b' : CBuffer n) {delim : UInt8} {p token next : Nat}
    (h : b.strtokR delim p = some (token, b', next)) :
    tokens delim (b.stringAt p) = b'.stringAt token :: tokens delim (b'.stringAt next)
      ∧ token + (b'.stringAt token).length ≤ next
      ∧ (b'.stringAt next).length < (b.stringAt p).length := by
  rw [strtokR] at h
  dsimp only at h
  split at h
  · exact absurd h (by simp)
  rename_i c cs hstr
  have hdrop : (b.stringAt p).dropWhile (· == delim) = c :: cs := by
    rw [← stringAt_takeWhile, hstr]
  have hle : (c :: cs).length ≤ (b.stringAt p).length :=
    hdrop ▸ (List.dropWhile_sublist _).length_le
  have hc : c ≠ delim := by
    have hhead := List.head?_dropWhile_not (· == delim) (b.stringAt p)
    rw [hdrop] at hhead
    simpa using hhead
  rw [← tokens_dropWhile, hdrop]
  -- the token, up to the next delimiter
  obtain ⟨t, rest, hsplit, htake, hdrop'⟩ : ∃ t rest, c :: cs = t ++ rest
      ∧ (c :: cs).takeWhile (· != delim) = t ∧ (c :: cs).dropWhile (· != delim) = rest :=
    ⟨_, _, List.takeWhile_append_dropWhile.symm, rfl, rfl⟩
  have hmem : delim ∉ t := fun hm => by
    rw [← htake] at hm
    simpa using List.mem_takeWhile_imp hm
  have hne : t ≠ [] := by
    rw [← htake, List.takeWhile_cons]
    simp [hc]
  have hstop := stringAt_takeWhile b (p + ((b.stringAt p).takeWhile (· == delim)).length)
    (· != delim)
  rw [hstr, hdrop', htake] at hstop
  rw [htake, hstop] at h
  have htlen : t.length ≤ (b.stringAt (p + ((b.stringAt p).takeWhile (· == delim)).length)).length
      := by rw [hstr, hsplit, List.length_append]; omega
  split at h
  · injection h with h; injection h with htoken h; injection h with hb hnext
    subst htoken; subst hb; subst hnext
    rw [List.append_nil] at hsplit
    rw [hstop, hstr, hsplit, tokens_of_not_mem hmem hne, tokens_nil]
    refine ⟨rfl, Nat.le_refl _, ?_⟩
    simp only [List.length_nil, List.length_cons] at hle ⊢
    omega
  · rename_i d rest
    have hd : d = delim := by
      have hhead := List.head?_dropWhile_not (· != delim) (c :: cs)
      rw [hdrop'] at hhead
      simpa using hhead
    injection h with h; injection h with htoken h; injection h with hb hnext
    subst htoken; subst hb; subst hnext
    have hrest : b.stringAt (p + ((b.stringAt p).takeWhile (· == delim)).length + t.length + 1)
        = rest := by
      rw [stringAt_add b (by rw [hstop]; simp), hstop]
      rfl
    rw [stringAt_terminate b htlen, stringAt_terminate_of_lt b (by omega), hrest, hstr, hsplit, hd,
      tokens_append_cons hmem hne, List.take_left]
    refine ⟨rfl, by omega, ?_⟩
    rw [hsplit, List.length_append, List.length_cons] at hle
    omega

end CBuffer

end TaktOS.Lib
