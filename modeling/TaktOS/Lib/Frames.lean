import Mathlib.Data.List.Forall2

/-!
# Frames of one length

A sender puts requests on a line as frames of one length; a receiver cuts what it hears into pieces
of that length and keeps those that it can decode. Where a damaged frame is of the same length and
is not decoded, the receiver has every request whose frame came through, in order, and no other.
-/

namespace TaktOS.Lib

variable {α ρ : Type}

/-- The first pieces of that length. -/
def pieces (n : Nat) : Nat → List α → List (List α)
  | 0, _ => []
  | k + 1, heard => heard.take n :: pieces n k (heard.drop n)

/-- What a receiver makes of what it hears. -/
def receive (n : Nat) (decode : List α → Option ρ) (heard : List α) : List ρ :=
  (pieces n (heard.length / n) heard).filterMap decode

/-- Frames of that length are cut where they were joined. -/
theorem pieces_flatten {n : Nat} {frames : List (List α)} (h : ∀ f ∈ frames, f.length = n) :
    pieces n frames.length frames.flatten = frames := by
  induction frames with
  | nil => rfl
  | cons f frames ih =>
    have hf : f.length = n := h f List.mem_cons_self
    rw [List.length_cons, pieces, List.flatten_cons, ← hf, List.take_left, List.drop_left, hf,
      ih fun g hg => h g (List.mem_cons_of_mem _ hg)]

theorem length_flatten_of_forall {n : Nat} {frames : List (List α)}
    (h : ∀ f ∈ frames, f.length = n) : frames.flatten.length = frames.length * n := by
  induction frames with
  | nil => simp
  | cons f frames ih =>
    rw [List.flatten_cons, List.length_append, h f List.mem_cons_self,
      ih fun g hg => h g (List.mem_cons_of_mem _ hg), List.length_cons, Nat.succ_mul, Nat.add_comm]

theorem receive_flatten {n : Nat} (hn : 0 < n) (decode : List α → Option ρ)
    {frames : List (List α)} (h : ∀ f ∈ frames, f.length = n) :
    receive n decode frames.flatten = frames.filterMap decode := by
  rw [receive, length_flatten_of_forall h, Nat.mul_div_cancel _ hn, pieces_flatten h]

/-- A request is heard as it was sent, or damaged. -/
def Heard (encode : ρ → List α) (damaged : List α → List α → Prop) (r : ρ) (f : List α) : Prop :=
  f = encode r ∨ damaged (encode r) f

/-- **A noisy line loses requests and makes up none.** -/
theorem receive_noisy [DecidableEq α] {n : Nat} (hn : 0 < n) {encode : ρ → List α}
    {decode : List α → Option ρ} {damaged : List α → List α → Prop}
    (hlen : ∀ r, (encode r).length = n) (hdecode : ∀ r, decode (encode r) = some r)
    (hdamage : ∀ r f, damaged (encode r) f → f.length = n ∧ f ≠ encode r ∧ decode f = none)
    {requests : List ρ} {heard : List (List α)}
    (h : List.Forall₂ (Heard encode damaged) requests heard) :
    receive n decode heard.flatten
      = (requests.zip heard).filterMap fun x => if x.2 = encode x.1 then some x.1 else none := by
  have hall : ∀ f ∈ heard, f.length = n := by
    induction h with
    | nil => simp
    | cons hf _ ih =>
      intro g hg
      rcases List.mem_cons.mp hg with rfl | hg
      · rcases hf with rfl | hf
        · exact hlen _
        · exact (hdamage _ _ hf).1
      · exact ih g hg
  rw [receive_flatten hn decode hall]
  clear hall
  induction h with
  | nil => rfl
  | @cons r f requests heard hf _ ih =>
    rw [List.zip_cons_cons, List.filterMap_cons, List.filterMap_cons, ih]
    rcases hf with rfl | hf
    · rw [hdecode, if_pos rfl]
    · obtain ⟨-, hne, hnone⟩ := hdamage _ _ hf
      rw [hnone, if_neg hne]

end TaktOS.Lib
