import TaktOS.Lib.Refinement
import TaktOS.Lib.Sector

/-!
# A store of two images

One bank is active, the other takes uploads. An upload arrives in pieces; while it is on, what is
in its bank can be anything, and nothing is promised of an upload whose pieces do not start on a
block, or that went to one bank first and then to the other. An upload that is whole becomes the
image of its bank. Selecting a bank, going back and restarting choose the active bank and change
no image.

Only the choice after a restart looks at what cannot be seen otherwise: whether a bank was ever
labelled. The first one that was is chosen, whether it holds an image or not.
-/

namespace TaktOS.Lib

inductive Bank where
  | a
  | b
  deriving DecidableEq, Repr

def Bank.other : Bank → Bank
  | .a => .b
  | .b => .a

theorem Bank.other_ne (x : Bank) : x.other ≠ x := by cases x <;> decide

theorem Bank.eq_or_other (x y : Bank) : y = x ∨ y = x.other := by cases x <;> cases y <;> decide

structure Image (ν β : Type) where
  version : ν
  bytes : List β
  deriving DecidableEq, Repr

/-- What a bank holds. -/
inductive BankContent (ν β : Type) where
  /-- No label was ever put on it. -/
  | blank
  /-- It has a label that its bytes do not match. -/
  | torn
  | image (i : Image ν β)
  deriving DecidableEq, Repr

def BankContent.isImage {ν β : Type} : BankContent ν β → Bool
  | .image _ => true
  | _ => false

structure Upload (ν β : Type) where
  bank : Bank
  announced : Nat
  version : ν
  taken : List β := []
  /-- Every piece went to the bank and started on a block. -/
  intact : Bool := true

section

variable {ν β γ : Type}

/-- An upload after a piece, in blocks of that size. -/
def Upload.take (u : Upload ν β) (block : Nat) (free : Bank) (bytes : List β) : Upload ν β :=
  { u with
    taken := u.taken ++ bytes
    intact := u.intact && u.bank == free && decide (block ∣ u.taken.length) }

/-- All of the upload is in the bank, and it is as long as was announced. -/
structure Upload.Whole (u : Upload ν β) (free : Bank) : Prop where
  intact : u.intact = true
  bank : u.bank = free
  length : u.taken.length = u.announced

/-- The image may be what comes of the upload. -/
structure Upload.Yields (sum : List β → γ) (u : Upload ν β) (free : Bank) (i : Image ν β) :
    Prop where
  version : i.version = u.version
  length : i.bytes.length = u.announced
  sum : sum i.bytes = sum u.taken
  bytes : u.Whole free → i.bytes = u.taken

end

structure TwoBanks (ν β : Type) where
  content : Bank → BankContent ν β
  active : Bank
  upload : Option (Upload ν β) := none

namespace TwoBanks

variable {ν β γ : Type}

inductive Op (ν β : Type) where
  | begin (size : Nat) (version : ν)
  | piece (bytes : List β)
  | finish
  /-- Is there an image? `none` is no bank at all. -/
  | check (bank : Option Bank)
  | select (bank : Option Bank)
  | back
  | restart

def setContent (t : TwoBanks ν β) (x : Bank) (c : BankContent ν β) : TwoBanks ν β :=
  { t with content := fun y => if y = x then c else t.content y }

@[simp] theorem setContent_self (t : TwoBanks ν β) (x : Bank) (c : BankContent ν β) :
    (t.setContent x c).content x = c := if_pos rfl

theorem setContent_ne (t : TwoBanks ν β) {x y : Bank} (c : BankContent ν β) (h : y ≠ x) :
    (t.setContent x c).content y = t.content y := if_neg h

/-- The bank that a restart makes active. -/
def preferred (content : Bank → BankContent ν β) : Bank :=
  match content .a, content .b with
  | .blank, .blank => .a
  | .blank, _ => .b
  | _, _ => .a

theorem preferred_a {content : Bank → BankContent ν β} (h : content .a ≠ .blank) :
    preferred content = .a := by
  cases hA : content .a with
  | blank => exact absurd hA h
  | torn => simp [preferred, hA]
  | image i => simp [preferred, hA]

theorem preferred_b {content : Bank → BankContent ν β} (hA : content .a = .blank)
    (h : content .b ≠ .blank) : preferred content = .b := by
  cases hB : content .b with
  | blank => exact absurd hB h
  | torn => simp [preferred, hA, hB]
  | image i => simp [preferred, hA, hB]

theorem preferred_blank {content : Bank → BankContent ν β} (hA : content .a = .blank)
    (hB : content .b = .blank) : preferred content = .a := by simp [preferred, hA, hB]

/--
A store with blocks of that size, room for that many bytes in a bank, and images known by a sum
of their bytes. The answer is whether the call succeeded.
-/
inductive Step (block room : Nat) (sum : List β → γ) (t : TwoBanks ν β) :
    Op ν β → Bool → TwoBanks ν β → Prop where
  | begin {size : Nat} {version : ν} (h : size ≤ room) :
      Step block room sum t (.begin size version) true
        { t with upload := some { bank := t.active.other, announced := size, version } }
  | tooLarge {size : Nat} {version : ν} (h : room < size) :
      Step block room sum t (.begin size version) false t
  | noPiece {bytes : List β} (h : t.upload = none) :
      Step block room sum t (.piece bytes) false t
  | piece {bytes : List β} {u : Upload ν β} {c : BankContent ν β} (h : t.upload = some u)
      (hc : c = .blank ↔ t.content t.active.other = .blank) :
      Step block room sum t (.piece bytes) true
        { t.setContent t.active.other c with
          upload := some (u.take block t.active.other bytes) }
  | noFinish (h : t.upload = none) : Step block room sum t .finish false t
  | installed {u : Upload ν β} {i : Image ν β} (h : t.upload = some u)
      (hi : u.Yields sum t.active.other i) :
      Step block room sum t .finish true
        { t.setContent t.active.other (.image i) with upload := none }
  | spoiled {u : Upload ν β} (h : t.upload = some u) (hw : ¬ u.Whole t.active.other) :
      Step block room sum t .finish false
        { t.setContent t.active.other .torn with upload := none }
  | check {x : Bank} : Step block room sum t (.check (some x)) (t.content x).isImage t
  | checkNone : Step block room sum t (.check none) false t
  | select {x : Bank} (h : (t.content x).isImage = true) :
      Step block room sum t (.select (some x)) true { t with active := x }
  | noSelect {x : Bank} (h : (t.content x).isImage = false) :
      Step block room sum t (.select (some x)) false t
  | selectNone : Step block room sum t (.select none) false t
  | back (h : (t.content t.active.other).isImage = true) :
      Step block room sum t .back true { t with active := t.active.other }
  | noBack (h : (t.content t.active.other).isImage = false) :
      Step block room sum t .back false t
  | restart :
      Step block room sum t .restart true { t with active := preferred t.content, upload := none }

/-- The store, where every answer also tells the active bank. -/
def spec (block room : Nat) (sum : List β → γ) : Spec (TwoBanks ν β) (Op ν β) (Bool × Bank) :=
  fun t op answer t' => Step block room sum t op answer.1 t' ∧ answer.2 = t'.active

variable {block room : Nat} {sum : List β → γ} {t t' : TwoBanks ν β} {op : Op ν β} {ok : Bool}

/-! ## Images -/

/-- **No call changes the bank that is active when it is made.** -/
theorem Step.content_active (h : Step block room sum t op ok t') :
    t'.content t.active = t.content t.active := by
  have hne : t.active ≠ t.active.other := (Bank.other_ne t.active).symm
  cases h with
  | piece _ _ => exact setContent_ne t _ hne
  | installed _ _ => exact setContent_ne t _ hne
  | spoiled _ _ => exact setContent_ne t _ hne
  | _ => rfl

/-- The calls that write to a bank. -/
def Op.uploads : Op ν β → Bool
  | .piece _ | .finish => true
  | _ => false

/-- The others change no bank. -/
theorem Step.content_eq (h : Step block room sum t op ok t') (hop : op.uploads = false) :
    t'.content = t.content := by
  cases h with
  | piece _ _ => exact absurd hop (by simp [Op.uploads])
  | installed _ _ => exact absurd hop (by simp [Op.uploads])
  | spoiled _ _ => exact absurd hop (by simp [Op.uploads])
  | _ => rfl

/-- The active bank holds an image. -/
def Sound (t : TwoBanks ν β) : Prop := (t.content t.active).isImage = true

/-- A restart would leave an image for a bank that holds none. -/
def Misled (t : TwoBanks ν β) : Prop := t.active = .b ∧ t.content .a = .torn

theorem preferred_isImage (hs : t.Sound) (hm : ¬ t.Misled) :
    (t.content (preferred t.content)).isImage = true := by
  unfold Sound at hs
  by_cases hA : t.content .a = .blank
  · by_cases hB : t.content .b = .blank
    · cases hact : t.active with
      | a => rw [hact, hA] at hs; exact absurd hs Bool.false_ne_true
      | b => rw [hact, hB] at hs; exact absurd hs Bool.false_ne_true
    · rw [preferred_b hA hB]
      cases hact : t.active with
      | a => rw [hact, hA] at hs; exact absurd hs Bool.false_ne_true
      | b => rw [hact] at hs; exact hs
  · rw [preferred_a hA]
    cases hact : t.active with
    | a => rw [hact] at hs; exact hs
    | b =>
      cases hA' : t.content .a with
      | image i => rfl
      | blank => exact absurd hA' hA
      | torn => exact absurd ⟨hact, hA'⟩ hm

/-- **The active bank goes on holding an image**, unless a restart is misled. -/
theorem Step.sound (h : Step block room sum t op ok t') (hs : t.Sound)
    (hm : op = .restart → ¬ t.Misled) : t'.Sound := by
  have hact : (t'.content t.active).isImage = true := by rw [h.content_active]; exact hs
  cases h with
  | select hx => exact hx
  | back hx => exact hx
  | restart => exact (preferred_isImage hs (hm rfl) : (t.content (preferred t.content)).isImage = _)
  | _ => exact hact

/-! ## A whole upload -/

/-- The pieces of an upload that start on blocks are accepted and leave it intact. -/
theorem pieces_intact {pieces : List (List β)} : ∀ {t t' : TwoBanks ν β} {u : Upload ν β}
    {h : List (Op ν β × (Bool × Bank))}, (spec block room sum).Allows t h t' →
      h.map Prod.fst = pieces.map Op.piece → t.upload = some u → u.intact = true →
      u.bank = t.active.other → (∀ p ∈ pieceStarts u.taken.length pieces, block ∣ p) →
      (∀ x ∈ h, x.2.1 = true) ∧ t'.active = t.active ∧ t'.content t.active = t.content t.active
        ∧ t'.upload = some { u with taken := u.taken ++ pieces.flatten } := by
  induction pieces with
  | nil =>
    intro t t' u h hh hops hu _ _ _
    cases hh with
    | nil => exact ⟨by simp, rfl, rfl, by rw [hu, List.flatten_nil, List.append_nil]⟩
    | cons _ _ => exact absurd hops (by simp)
  | cons bytes pieces ih =>
    intro t t' u h hh hops hu hi hbank hstart
    cases hh with
    | nil => exact absurd hops (by simp)
    | @cons _ t₁ _ op answer h' hs hrest =>
      rw [List.map_cons, List.map_cons] at hops
      obtain ⟨rfl, hops'⟩ := List.cons.inj hops
      have hkeep := hs.1.content_active
      have hdvd : block ∣ u.taken.length := hstart _ List.mem_cons_self
      obtain ⟨ok, act⟩ := answer
      obtain ⟨hstep, -⟩ := hs
      dsimp only at hstep
      cases hstep with
      | noPiece hnone => exact absurd (hnone.symm.trans hu) (by simp)
      | @piece _ u' c hu' hc =>
        obtain rfl : u = u' := Option.some.inj (hu.symm.trans hu')
        have hint : (u.take block t.active.other bytes).intact = true := by
          simp [Upload.take, hi, hbank, hdvd]
        obtain ⟨hok, hact, hcont, hup⟩ := ih hrest hops' rfl hint hbank fun p hp =>
          hstart p (List.mem_cons_of_mem _ (by
            rw [Upload.take, List.length_append] at hp
            exact hp))
        refine ⟨fun x hx => ?_, hact, hcont.trans hkeep, hup.trans ?_⟩
        · rcases List.mem_cons.mp hx with rfl | hx
          · rfl
          · exact hok x hx
        · simp [Upload.take, hi, hbank, hdvd, List.append_assoc]

/-- An upload that is whole is accepted and is then the image of its bank. -/
theorem Step.installs {u : Upload ν β} (h : Step block room sum t .finish ok t')
    (hu : t.upload = some u) (hw : u.Whole t.active.other) :
    ok = true ∧ t' = { t.setContent t.active.other (.image ⟨u.version, u.taken⟩) with
      upload := none } := by
  cases h with
  | noFinish hnone => exact absurd (hnone.symm.trans hu) (by simp)
  | @installed u' i hu' hi =>
    obtain rfl : u = u' := Option.some.inj (hu.symm.trans hu')
    obtain ⟨version, bytes⟩ := i
    obtain rfl : version = u.version := hi.version
    obtain rfl : bytes = u.taken := hi.bytes hw
    exact ⟨rfl, rfl⟩
  | @spoiled u' hu' hw' =>
    obtain rfl : u = u' := Option.some.inj (hu.symm.trans hu')
    exact absurd hw hw'

/-- The calls that install an image in pieces and make its bank active. -/
def installOps (size : Nat) (version : ν) (pieces : List (List β)) (x : Bank) : List (Op ν β) :=
  .begin size version :: (pieces.map .piece ++ [.finish, .select (some x)])

/--
**A whole upload is installed.** Where the pieces start on blocks and add up to the size announced,
every call succeeds; the image is then in the bank that was free, which is active, and the other
bank holds what it held.
-/
theorem installs {size : Nat} {version : ν} {pieces : List (List β)}
    {h : List (Op ν β × (Bool × Bank))} (hh : (spec block room sum).Allows t h t')
    (hops : h.map Prod.fst = installOps size version pieces t.active.other) (hroom : size ≤ room)
    (hlen : pieces.flatten.length = size) (hstart : ∀ p ∈ pieceStarts 0 pieces, block ∣ p) :
    (∀ x ∈ h, x.2.1 = true) ∧ t'.active = t.active.other ∧ t'.upload = none
      ∧ t'.content t.active = t.content t.active
      ∧ t'.content t.active.other = .image ⟨version, pieces.flatten⟩ := by
  cases hh with
  | nil => exact absurd hops (by simp [installOps])
  | @cons _ t₁ _ op answer h' hs hrest =>
    rw [List.map_cons, installOps] at hops
    obtain ⟨hop, hops'⟩ := List.cons.inj hops
    obtain rfl : op = .begin size version := hop
    obtain ⟨hp, hlast, rfl, hmap, hmap'⟩ := List.map_eq_append_iff.mp hops'
    obtain ⟨t₂, hpieces, hend⟩ := hrest.split
    obtain ⟨ok, act⟩ := answer
    obtain ⟨hbegin, -⟩ := hs
    dsimp only at hbegin
    cases hbegin with
    | tooLarge hlarge => exact absurd hroom (Nat.not_le.mpr hlarge)
    | begin _ =>
      obtain ⟨hoks, hact, hkeep, hup⟩ := pieces_intact hpieces hmap rfl rfl rfl hstart
      rw [List.nil_append] at hup
      dsimp only at hact hkeep hup
      -- the upload is whole when it ends
      cases hend with
      | nil => exact absurd hmap' (by simp)
      | @cons _ t₃ _ op₂ answer₂ h₂ hs₂ hrest₂ =>
        cases hrest₂ with
        | nil => exact absurd hmap' (by simp)
        | @cons _ t₄ _ op₃ answer₃ h₃ hs₃ hrest₃ =>
          simp only [List.map_cons, List.cons.injEq, List.map_eq_nil_iff] at hmap'
          obtain ⟨rfl, rfl, rfl⟩ := hmap'
          cases hrest₃
          have hbank : t.active.other = t₂.active.other := by rw [hact]
          obtain ⟨hok₂, rfl⟩ := hs₂.1.installs hup ⟨rfl, hbank, hlen⟩
          have himage : (((t₂.setContent t₂.active.other
              (.image ⟨version, pieces.flatten⟩)).content t.active.other)).isImage = true := by
            rw [hbank, setContent_self]
            rfl
          obtain ⟨ok₃, act₃⟩ := answer₃
          obtain ⟨hsel, -⟩ := hs₃
          dsimp only at hsel
          cases hsel with
          | noSelect hno => exact absurd (himage.symm.trans hno) (by decide)
          | select _ =>
            refine ⟨fun x hx => ?_, rfl, rfl, ?_, ?_⟩
            · simp only [List.mem_cons, List.mem_append, List.not_mem_nil, or_false] at hx
              rcases hx with rfl | hx | rfl | rfl
              · rfl
              · exact hoks x hx
              · exact hok₂
              · rfl
            · refine (setContent_ne t₂ _ ?_).trans hkeep
              rw [hact]
              exact (Bank.other_ne _).symm
            · rw [hbank]
              exact setContent_self _ _ _

/-! ## Two images -/

/-- Either bank holds an image. -/
def Both (t : TwoBanks ν β) : Prop := ∀ x, (t.content x).isImage = true

/-- The calls that succeed whenever either bank holds an image. -/
def Op.chooses : Op ν β → Bool
  | .check (some _) | .select (some _) | .back | .restart => true
  | _ => false

/-- **Where there are two images, they stay, and every choice succeeds.** -/
theorem both_stay {h : List (Op ν β × (Bool × Bank))} (hh : (spec block room sum).Allows t h t')
    (hops : ∀ x ∈ h, x.1.uploads = false) (hboth : t.Both) :
    t'.content = t.content ∧ ∀ x ∈ h, x.1.chooses = true → x.2.1 = true := by
  induction hh with
  | nil t => exact ⟨rfl, by simp⟩
  | @cons t₁ t₂ t₃ op answer h' hs _ ih =>
    have hsame := hs.1.content_eq (hops _ List.mem_cons_self)
    have hboth' : t₂.Both := fun x => by rw [hsame]; exact hboth x
    obtain ⟨hcont, hoks⟩ := ih (fun x hx => hops x (List.mem_cons_of_mem _ hx)) hboth'
    refine ⟨hcont.trans hsame, fun x hx hchoose => ?_⟩
    rcases List.mem_cons.mp hx with rfl | hx
    · obtain ⟨ok, act⟩ := answer
      obtain ⟨hstep, -⟩ := hs
      dsimp only at hstep hchoose ⊢
      cases hstep with
      | check => exact hboth _
      | noSelect hno => exact absurd ((hboth _).symm.trans hno) (by decide)
      | noBack hno => exact absurd ((hboth _).symm.trans hno) (by decide)
      | select _ => rfl
      | back _ => rfl
      | restart => rfl
      | _ => exact absurd hchoose Bool.false_ne_true
    · exact hoks x hx hchoose

end TwoBanks

end TaktOS.Lib
