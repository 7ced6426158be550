import Mathlib.Algebra.Group.Nat.Defs

/-!
# Linear shift registers

A register of `w` bits that shifts right, and folds a polynomial in where a one drops out. Symbols
are laid over the low end of the register, which is then shifted out of their way. That is how a
CRC is computed bit by bit.

Shifting is linear over exclusive or, and one to one where the polynomial has its top bit. So two
strings of symbols that fit the register together lead from one state to different ones, and
whatever symbols follow keep the states apart: `feedAll_burst`.
-/

namespace TaktOS.Lib

variable {w : Nat}

/-- One shift of the register. -/
def lfsrStep (poly c : BitVec w) : BitVec w :=
  (c >>> 1) ^^^ (if c.getLsbD 0 then poly else 0#w)

/-- A symbol is laid over the register, and shifted through it by `k`. -/
def feed (poly : BitVec w) (k : Nat) (c s : BitVec w) : BitVec w :=
  Nat.repeat (lfsrStep poly) k (c ^^^ s)

def feedAll (poly : BitVec w) (k : Nat) (c : BitVec w) (ss : List (BitVec w)) : BitVec w :=
  ss.foldl (feed poly k) c

variable {poly : BitVec w} {k : Nat}

/-! ## Shifting -/

theorem xor_xor_xor_comm (a b c d : BitVec w) : a ^^^ b ^^^ (c ^^^ d) = a ^^^ c ^^^ (b ^^^ d) := by
  ac_rfl

/-- **Shifting is linear.** -/
theorem lfsrStep_xor (a b : BitVec w) :
    lfsrStep poly (a ^^^ b) = lfsrStep poly a ^^^ lfsrStep poly b := by
  have hfold : (if (a ^^^ b).getLsbD 0 then poly else 0#w)
      = (if a.getLsbD 0 then poly else 0#w) ^^^ (if b.getLsbD 0 then poly else 0#w) := by
    rw [BitVec.getLsbD_xor]
    cases a.getLsbD 0 <;> cases b.getLsbD 0 <;> simp
  rw [lfsrStep, hfold, BitVec.ushiftRight_xor_distrib]
  exact xor_xor_xor_comm _ _ _ _

/-- A state that shifts to zero is zero: nothing but the polynomial sets the top bit. -/
theorem eq_zero_of_lfsrStep (hpoly : poly.msb = true) {x : BitVec w}
    (h : lfsrStep poly x = 0#w) : x = 0#w := by
  unfold lfsrStep at h
  cases hlow : x.getLsbD 0 with
  | true =>
    rw [hlow, if_pos rfl, BitVec.xor_eq_zero_iff] at h
    rw [← h, BitVec.msb_ushiftRight] at hpoly
    simp at hpoly
  | false =>
    rw [hlow, if_neg Bool.false_ne_true, BitVec.xor_zero] at h
    apply BitVec.eq_of_getLsbD_eq
    intro i _
    cases i with
    | zero => rw [hlow, BitVec.getLsbD_zero]
    | succ i =>
      have hbit := congrArg (fun y => y.getLsbD i) h
      rw [Nat.add_comm] at *
      simpa using hbit

theorem lfsrStep_injective (hpoly : poly.msb = true) : Function.Injective (lfsrStep poly) := by
  intro a b hab
  have hzero : lfsrStep poly (a ^^^ b) = 0#w := by
    rw [lfsrStep_xor, hab, BitVec.xor_self]
  exact BitVec.xor_eq_zero_iff.mp (eq_zero_of_lfsrStep hpoly hzero)

theorem repeat_xor (n : Nat) (a b : BitVec w) :
    Nat.repeat (lfsrStep poly) n (a ^^^ b)
      = Nat.repeat (lfsrStep poly) n a ^^^ Nat.repeat (lfsrStep poly) n b := by
  induction n with
  | zero => rfl
  | succ n ih => rw [Nat.repeat, Nat.repeat, Nat.repeat, ih, lfsrStep_xor]

theorem repeat_injective (hpoly : poly.msb = true) (n : Nat) :
    Function.Injective (Nat.repeat (lfsrStep poly) n) := by
  induction n with
  | zero => exact Function.injective_id
  | succ n ih => exact (lfsrStep_injective hpoly).comp ih

/-- What lies above the low `n` bits is shifted down, and nothing else happens. -/
theorem repeat_shiftLeft : ∀ (n : Nat) {y : BitVec w}, y.toNat * 2 ^ n < 2 ^ w →
    Nat.repeat (lfsrStep poly) n (y <<< n) = y := by
  intro n
  induction n with
  | zero => intro y _; rw [BitVec.shiftLeft_zero]; rfl
  | succ n ih =>
    intro y hy
    rw [Nat.pow_succ, Nat.mul_comm (2 ^ n) 2, ← Nat.mul_assoc] at hy
    have hpos := Nat.mul_le_mul_left (y.toNat * 2) (Nat.two_pow_pos n)
    have hdouble : (y <<< 1).toNat = y.toNat * 2 := by
      rw [BitVec.toNat_shiftLeft, Nat.shiftLeft_eq, Nat.pow_one]
      exact Nat.mod_eq_of_lt (by omega)
    rw [Nat.add_comm n 1, BitVec.shiftLeft_add, Nat.add_comm 1 n, Nat.repeat,
      ih (by rw [hdouble]; exact hy)]
    -- a zero drops out, and the shift undoes the other one
    have hlow : (y <<< 1).getLsbD 0 = false := by
      rw [BitVec.getLsbD_shiftLeft]
      simp
    rw [lfsrStep, hlow, if_neg Bool.false_ne_true, BitVec.xor_zero]
    apply BitVec.eq_of_toNat_eq
    rw [BitVec.toNat_ushiftRight, hdouble, Nat.shiftRight_eq_div_pow]
    omega

/-- The low `n` bits of the register. -/
def lowBits (n : Nat) (x : BitVec w) : BitVec w := (x.setWidth n).setWidth w

theorem xor_lowBits (n : Nat) (x : BitVec w) : x ^^^ lowBits n x = (x >>> n) <<< n := by
  apply BitVec.eq_of_getLsbD_eq
  intro i hi
  by_cases hn : i < n
  · simp [lowBits, hi, hn]
  · simp [lowBits, hi, hn, Nat.add_sub_cancel' (Nat.le_of_not_lt hn)]

theorem shiftRight_mul_lt (n : Nat) (x : BitVec w) : (x >>> n).toNat * 2 ^ n < 2 ^ w := by
  rw [BitVec.toNat_ushiftRight, Nat.shiftRight_eq_div_pow]
  exact Nat.lt_of_le_of_lt (Nat.div_mul_le_self _ _) x.isLt

/-- **A table of the low bits**: shifts by `n` are those of the low `n` bits, over the rest moved
down. -/
theorem repeat_lowBits (n : Nat) (x : BitVec w) :
    Nat.repeat (lfsrStep poly) n x = Nat.repeat (lfsrStep poly) n (lowBits n x) ^^^ (x >>> n) := by
  have hsplit : x = lowBits n x ^^^ (x >>> n) <<< n := by
    rw [← xor_lowBits, BitVec.xor_comm x, ← BitVec.xor_assoc, BitVec.xor_self, BitVec.zero_xor]
  conv => lhs; rw [hsplit]
  rw [repeat_xor, repeat_shiftLeft n (shiftRight_mul_lt n x)]

/-! ## Symbols -/

/-- A register that is fed its own low bits moves the others down, and nothing else. -/
theorem feed_lowBits (c : BitVec w) : feed poly k c (lowBits k c) = c >>> k := by
  rw [feed, xor_lowBits, repeat_shiftLeft k (shiftRight_mul_lt k c)]

theorem feedAll_append (c : BitVec w) (ss ts : List (BitVec w)) :
    feedAll poly k c (ss ++ ts) = feedAll poly k (feedAll poly k c ss) ts := List.foldl_append

/-- The same symbols keep different states apart. -/
theorem feedAll_injective (hpoly : poly.msb = true) (ss : List (BitVec w)) :
    Function.Injective fun c => feedAll poly k c ss := by
  induction ss with
  | nil => exact Function.injective_id
  | cons s ss ih =>
    intro a b hab
    have hfeed : feed poly k a s = feed poly k b s := ih hab
    exact (BitVec.xor_left_inj s).mp (repeat_injective hpoly k hfeed)

/--
If strings of `n` symbols of `k` bits lead to one state, the states they came from differ in their
low `n * k` bits at most; and if those were one state too, the strings are the same.
-/
theorem feedAll_difference (hpoly : poly.msb = true) : ∀ {ss ts : List (BitVec w)}
    {c d : BitVec w}, ss.length = ts.length → k * ss.length ≤ w →
      (∀ s ∈ ss, s.toNat < 2 ^ k) → (∀ t ∈ ts, t.toNat < 2 ^ k) →
      feedAll poly k c ss = feedAll poly k d ts →
      (c ^^^ d).toNat < 2 ^ (k * ss.length) ∧ (c ^^^ d = 0#w → ss = ts) := by
  intro ss
  -- backwards from the last symbol: each one adds its `k` bits below those known to differ
  induction ss with
  | nil =>
    intro ts c d hlen _ _ _ h
    have hts : ts = [] := List.length_eq_zero_iff.mp hlen.symm
    subst hts
    have hcd : c = d := h
    rw [hcd, BitVec.xor_self]
    exact ⟨by rw [BitVec.toNat_ofNat, Nat.zero_mod]; exact Nat.two_pow_pos _, fun _ => rfl⟩
  | cons s ss ih =>
    intro ts c d hlen hw hss hts h
    cases ts with
    | nil => exact absurd hlen (by simp)
    | cons t ts =>
      rw [List.length_cons, Nat.mul_succ] at hw ⊢
      have hs := hss s List.mem_cons_self
      have ht := hts t List.mem_cons_self
      obtain ⟨hbound, hrest⟩ := ih (c := feed poly k c s) (d := feed poly k d t)
        (Nat.succ.inj hlen) (by omega) (fun x hx => hss x (List.mem_cons_of_mem _ hx))
        (fun x hx => hts x (List.mem_cons_of_mem _ hx)) h
      generalize hD : feed poly k c s ^^^ feed poly k d t = D at hbound hrest
      have hfits : D.toNat * 2 ^ k < 2 ^ (k * ss.length + k) := by
        rw [Nat.pow_add]
        exact Nat.mul_lt_mul_of_pos_right hbound (Nat.two_pow_pos k)
      have hpow : 2 ^ (k * ss.length + k) ≤ 2 ^ w := Nat.pow_le_pow_right (by decide) hw
      have hshift : (D <<< k).toNat = D.toNat * 2 ^ k := by
        rw [BitVec.toNat_shiftLeft, Nat.shiftLeft_eq]
        exact Nat.mod_eq_of_lt (by omega)
      -- what differs after the symbol is what differed before it, shifted
      have hbefore : c ^^^ d ^^^ (s ^^^ t) = D <<< k := by
        apply repeat_injective hpoly k
        rw [repeat_shiftLeft k (by omega), ← hD, feed, feed, ← repeat_xor]
        exact congrArg _ (xor_xor_xor_comm _ _ _ _)
      have hst : (s ^^^ t).toNat < 2 ^ k := by
        rw [BitVec.toNat_xor]
        exact Nat.xor_lt_two_pow hs ht
      constructor
      · have hcd : c ^^^ d = D <<< k ^^^ (s ^^^ t) := by
          rw [← hbefore, BitVec.xor_assoc, BitVec.xor_self, BitVec.xor_zero]
        have hk : 2 ^ k ≤ 2 ^ (k * ss.length + k) :=
          Nat.pow_le_pow_right (by decide) (Nat.le_add_left _ _)
        rw [hcd, BitVec.toNat_xor, hshift]
        exact Nat.xor_lt_two_pow hfits (by omega)
      · intro hzero
        rw [hzero, BitVec.zero_xor] at hbefore
        rw [hbefore, hshift] at hst
        have hD0 : D.toNat = 0 := by
          rcases Nat.eq_zero_or_pos D.toNat with h0 | hpos
          · exact h0
          · have := Nat.mul_le_mul_right (2 ^ k) hpos
            omega
        have hDzero : D = 0#w := BitVec.eq_of_toNat_eq (by rw [hD0]; simp)
        have heq : s = t := by
          rw [hDzero] at hbefore
          exact BitVec.xor_eq_zero_iff.mp (hbefore.trans (BitVec.zero_shiftLeft k))
        rw [heq, hrest hDzero]

/-- **A burst that fits the register does not go unnoticed**, whatever comes before and after. -/
theorem feedAll_burst (hpoly : poly.msb = true) {pre mid mid' post : List (BitVec w)}
    {c : BitVec w} (hlen : mid.length = mid'.length) (hw : k * mid.length ≤ w)
    (hmid : ∀ s ∈ mid, s.toNat < 2 ^ k) (hmid' : ∀ s ∈ mid', s.toNat < 2 ^ k)
    (h : feedAll poly k c (pre ++ mid ++ post) = feedAll poly k c (pre ++ mid' ++ post)) :
    mid = mid' := by
  rw [feedAll_append, feedAll_append, feedAll_append, feedAll_append] at h
  have hsame := feedAll_injective hpoly post h
  exact (feedAll_difference hpoly hlen hw hmid hmid' hsame).2 (BitVec.xor_self)

/-! ## Registers held in words, fed with what symbols stand for -/

section Words

variable {α β : Type} {bits : α → BitVec w} {sym : β → BitVec w}

theorem repeat_bits {shift : α → α} (h : ∀ c, bits (shift c) = lfsrStep poly (bits c)) (n : Nat)
    (c : α) : bits (Nat.repeat shift n c) = Nat.repeat (lfsrStep poly) n (bits c) := by
  induction n with
  | zero => rfl
  | succ n ih => rw [Nat.repeat, Nat.repeat, h, ih]

theorem foldl_bits {take : α → β → α}
    (h : ∀ c b, bits (take c b) = feed poly k (bits c) (sym b)) : ∀ (data : List β) (c : α),
    bits (data.foldl take c) = feedAll poly k (bits c) (data.map sym) := by
  intro data
  induction data with
  | nil => intro c; rfl
  | cons b bs ih =>
    intro c
    rw [List.foldl_cons, ih, h]
    rfl

/-- `feedAll_burst` where every symbol stands for one thing only. -/
theorem feedAll_burst_map (hpoly : poly.msb = true) (hsym : Function.Injective sym)
    (hlt : ∀ b, (sym b).toNat < 2 ^ k) {pre mid mid' post : List β} {c : BitVec w}
    (hlen : mid'.length = mid.length) (hw : k * mid.length ≤ w)
    (h : feedAll poly k c ((pre ++ mid ++ post).map sym)
      = feedAll poly k c ((pre ++ mid' ++ post).map sym)) : mid = mid' := by
  have hlow : ∀ bs : List β, ∀ s ∈ bs.map sym, s.toNat < 2 ^ k := by
    intro bs s hs
    obtain ⟨b, _, rfl⟩ := List.mem_map.mp hs
    exact hlt b
  simp only [List.map_append] at h
  have hmap := feedAll_burst hpoly (by rw [List.length_map, List.length_map, hlen])
    (by rw [List.length_map]; exact hw) (hlow mid) (hlow mid') h
  exact (List.map_inj_right fun _ _ hb => hsym hb).mp hmap

end Words

end TaktOS.Lib
