import TaktOS.Proof.CacheRuns

/-!
# Which slot a session writes to

`writeChunk` and `finalizeWrite` ask for `inactiveSlot()` afresh on every call, and
`activateSlot` and `rollback` change the answer without closing the session. `Tracked`
carries the two facts the source forgets: the slot the session was opened for, and
whether the active slot has been switched an odd number of times since.
-/

namespace TaktOS.Proof

open Lib

variable {δ : Type}

/-! ## What a call adds to the record -/

/-- The record grew, and every write it grew by starts at an address in `W`. -/
def GrewBy (W : Nat → Prop) (log log' : List FlashAccess) : Prop :=
  ∃ new, log' = new ++ log ∧ ∀ off len, .write off len ∈ new → W off

variable {W : Nat → Prop} {log log' : List FlashAccess}

theorem GrewBy.refl (W : Nat → Prop) (log : List FlashAccess) : GrewBy W log log :=
  ⟨[], rfl, fun _ _ h => absurd h (by simp)⟩

theorem GrewBy.cons (h : GrewBy W log log') {acc : FlashAccess}
    (hacc : ∀ off len, acc = .write off len → W off) : GrewBy W log (acc :: log') := by
  obtain ⟨new, rfl, hnew⟩ := h
  refine ⟨acc :: new, rfl, fun off len hmem => ?_⟩
  rcases List.mem_cons.mp hmem with heq | hmem
  · exact hacc off len heq.symm
  · exact hnew off len hmem

section Record

variable {b : FlashBackend δ} {sm sm' : StorageManager (δ × List FlashAccess)}

/-- `StorageManager::write` writes where it was told to, if it writes at all. -/
theorem write_grew (hb : sm.backend = some b.recorded) {offset : UInt32} {buf : List UInt8}
    {r : Int} (h : sm.write offset buf = some (r, sm')) (hlog : GrewBy W log sm.device.2)
    (hW : W offset.toNat) : GrewBy W log sm'.device.2 := by
  refine write_after (P := fun d => GrewBy W log d.2) hb ?_ ?_ h hlog
  · intro d off len hd
    exact hd.cons (fun _ _ he => nomatch he)
  · intro d hd
    exact hd.cons (fun off len he => by injection he with he; exact he ▸ hW)

/-- `verify` writes nothing. -/
theorem verify_grew (sm : StorageManager (δ × List FlashAccess))
    (hb : sm.backend = some b.recorded) (fc : FirmwareCache) (slot : UInt8)
    (hlog : GrewBy W log sm.device.2) : GrewBy W log (fc.verify sm slot).2.device.2 := by
  have hreads : ReadKeeps sm (fun d => GrewBy W log d.2) := by
    intro b' hb' d off buf hd
    rw [← Option.some.inj (hb.symm.trans hb')]
    exact hd.cons (fun _ _ he => nomatch he)
  obtain ⟨d, hd, hgrew⟩ := verify_after sm hreads hlog fc slot
  rw [hd]
  exact hgrew

end Record

/-! ## Runs that remember the session -/

/-- A cache over a watched backend, with the session's slot and the switches since. -/
structure Tracked (δ : Type) where
  state : CacheState (δ × List FlashAccess)
  /-- The slot that was inactive when the last session was opened. -/
  session : UInt8 := 0
  /-- An odd number of calls have switched the active slot since. -/
  switched : Bool := false

def trackedStep (t : Tracked δ) (op : CacheOp) : Option (Tracked δ) :=
  (cacheStep t.state op).map fun s' =>
    match op with
    | .session (.beginWrite imageSize version) =>
      if (t.state.cache.beginWrite imageSize version).1 then
        { state := s', session := t.state.cache.inactiveSlot, switched := false }
      else { t with state := s' }
    | _ =>
      { t with
        state := s'
        switched := t.switched ^^ (s'.cache.inactiveSlot != t.state.cache.inactiveSlot) }

/-- A chunk, and the header that ends the session, are written to the session's slot. -/
def OneSlot (t : Tracked δ) (op : CacheOp) : Prop :=
  ∀ s', cacheStep t.state op = some s' →
    match op with
    | .session (.writeChunk _) =>
      GrewBy (· = (t.state.cache.slotOffset t.session + t.state.cache.writeOffset).toNat)
        t.state.storage.device.2 s'.storage.device.2
    | .session .finalizeWrite =>
      GrewBy (· = (t.state.cache.slotOffset t.session).toNat)
        t.state.storage.device.2 s'.storage.device.2
    | _ => True

/-- An open session is only fed, and only finished, with the switches since evened out. -/
def NotSwitched (t : Tracked δ) : CacheOp → Prop
  | .session (.writeChunk _) => t.state.cache.writing = true → t.switched = false
  | .session .finalizeWrite => t.state.cache.writing = true → t.switched = false
  | _ => True

instance (t : Tracked δ) : ∀ op, Decidable (NotSwitched t op)
  | .session (.writeChunk _) => inferInstanceAs (Decidable (_ → _))
  | .session .finalizeWrite => inferInstanceAs (Decidable (_ → _))
  | .session (.beginWrite _ _) => isTrue trivial
  | .verify _ => isTrue trivial
  | .activateSlot _ => isTrue trivial
  | .rollback => isTrue trivial

/-! ## The invariant -/

/-- While a session is open, its slot is the inactive one unless switches left it active. -/
structure SessionInv (b : FlashBackend δ) (t : Tracked δ) : Prop where
  backend : t.state.storage.backend = some b.recorded
  session_le : t.session ≤ 1
  slot : t.state.cache.writing = true →
    (t.switched = false ↔ t.session = t.state.cache.inactiveSlot)

/-- Among two slots, a switch turns being the inactive one around. -/
theorem switch_iff {session i i' : UInt8} (hs : session = 0 ∨ session = 1) (hi : i = 0 ∨ i = 1)
    (hi' : i' = 0 ∨ i' = 1) {switched : Bool} (h : switched = false ↔ session = i) :
    (switched ^^ (i' != i)) = false ↔ session = i' := by
  -- two slots each, and the bit
  rcases hs with rfl | rfl <;> rcases hi with rfl | rfl <;> rcases hi' with rfl | rfl <;>
    cases switched <;> simp_all

/-- No call but `beginWrite` opens a session. -/
theorem cacheStep_writing {s s' : CacheState δ} {op : CacheOp}
    (hop : ∀ imageSize version, op ≠ .session (.beginWrite imageSize version))
    (h : cacheStep s op = some s') (hw : s'.cache.writing = true) : s.cache.writing = true := by
  have hact : ∀ {fc fc' : FirmwareCache} {sm sm' : StorageManager δ} {slot : UInt8} {ok : Bool},
      fc.activateSlot sm slot = some (ok, fc', sm') → fc'.writing = fc.writing := by
    intro fc fc' sm sm' slot ok hc
    rcases activateSlot_cases hc with ⟨_, _, hfc, _⟩ | ⟨_, _, _, hfc, _⟩ | ⟨_, _, _, hfc, _⟩
      <;> rw [hfc]
  cases op with
  | session op =>
    cases op with
    | beginWrite imageSize version => exact absurd rfl (hop imageSize version)
    | writeChunk data =>
      obtain ⟨_, hc⟩ := writeChunk_step h
      rcases writeChunk_cases hc with ⟨_, _, hfc, _⟩ | ⟨hw', _⟩
      · rwa [hfc] at hw
      · exact hw'
    | finalizeWrite =>
      obtain ⟨_, hc⟩ := finalizeWrite_step h
      rcases finalizeWrite_cases hc with ⟨_, _, hfc, _⟩ | ⟨hw', _⟩
      · rwa [hfc] at hw
      · exact hw'
  | verify slot => rwa [← Option.some.inj h] at hw
  | activateSlot slot =>
    obtain ⟨_, hc⟩ := activateSlot_step h
    rwa [hact hc] at hw
  | rollback =>
    obtain ⟨_, hc⟩ := rollback_step h
    rcases rollback_cases hc with ⟨_, _, hfc, _⟩ | ⟨_, hc'⟩
    · rwa [hfc] at hw
    · rwa [hact hc'] at hw

/-- **Every call keeps the invariant**, the switching ones included. -/
theorem sessionInv_step {b : FlashBackend δ} {t t' : Tracked δ} {op : CacheOp}
    (hi : SessionInv b t) (h : trackedStep t op = some t') : SessionInv b t' := by
  obtain ⟨s', hs, ht'⟩ := Option.map_eq_some_iff.mp h
  have hback := (cacheStep_frame hs).backend.trans hi.backend
  -- every call but an accepted `beginWrite` counts the switch it made
  have hother : (∀ imageSize version, op ≠ .session (.beginWrite imageSize version)) →
      t' = { t with
        state := s'
        switched := t.switched ^^ (s'.cache.inactiveSlot != t.state.cache.inactiveSlot) } →
      SessionInv b t' := by
    intro hop heq
    rw [heq]
    refine ⟨hback, hi.session_le, fun hw => ?_⟩
    exact switch_iff (le_one_cases hi.session_le) (inactiveSlot_cases _) (inactiveSlot_cases _)
      (hi.slot (cacheStep_writing hop hs hw))
  cases op with
  | session op =>
    cases op with
    | beginWrite imageSize version =>
      have hs₀ := Option.some.inj hs
      dsimp only at ht'
      rcases beginWrite_cases t.state.cache imageSize version with ⟨_, hb⟩ | ⟨_, hb⟩
      · rw [hb] at ht' hs₀
        rw [← ht']
        refine ⟨hback, hi.session_le, fun hw => ?_⟩
        rw [← hs₀] at hw ⊢
        exact hi.slot hw
      · rw [hb] at ht' hs₀
        rw [← ht']
        refine ⟨hback, inactiveSlot_le _, fun _ => ⟨fun _ => ?_, fun _ => rfl⟩⟩
        rw [← hs₀]
        rfl
    | writeChunk data => exact hother (fun _ _ h => nomatch h) ht'.symm
    | finalizeWrite => exact hother (fun _ _ h => nomatch h) ht'.symm
  | verify slot => exact hother (fun _ _ h => nomatch h) ht'.symm
  | activateSlot slot => exact hother (fun _ _ h => nomatch h) ht'.symm
  | rollback => exact hother (fun _ _ h => nomatch h) ht'.symm

/-- What a session call writes in an unswitched session goes to the session's slot. -/
theorem oneSlot_of_inv {b : FlashBackend δ} {t : Tracked δ} {op : CacheOp}
    (hi : SessionInv b t) (hn : NotSwitched t op) : OneSlot t op := by
  intro s' hs
  cases op with
  | session op =>
    cases op with
    | beginWrite imageSize version => trivial
    | writeChunk data =>
      obtain ⟨r, hc⟩ := writeChunk_step hs
      rcases writeChunk_cases hc with ⟨_, _, _, hsm⟩ | ⟨hw, k, hwr, _⟩
      · rw [hsm]
        exact GrewBy.refl _ _
      · -- unswitched, the session's slot is the inactive one, which is where the chunk goes
        rw [(hi.slot hw).mp (hn hw)]
        exact write_grew hi.backend hwr (GrewBy.refl _ _) rfl
    | finalizeWrite =>
      obtain ⟨ok, hc⟩ := finalizeWrite_step hs
      rcases finalizeWrite_cases hc with ⟨_, _, _, hsm⟩ | ⟨hw, _, k, sm₁, hwr, _, hsm⟩
      · rw [hsm]
        exact GrewBy.refl _ _
      · -- the header is written before the `verify` that only reads
        have hgrew := write_grew hi.backend hwr
          (GrewBy.refl (· = (t.state.cache.slotOffset t.state.cache.inactiveSlot).toNat) _) rfl
        obtain ⟨d, rfl⟩ := write_frame hwr
        rw [hsm, (hi.slot hw).mp (hn hw)]
        exact verify_grew { t.state.storage with device := d } hi.backend _ _ hgrew
  | verify slot => trivial
  | activateSlot slot => trivial
  | rollback => trivial

/-! ## The theorem -/

/--
**One session, one slot, unless the slots were switched under it.** Over any backend and
for any interleaving of calls that starts without an open session: if no chunk and no
`finalizeWrite` comes while the switches since `beginWrite` are odd in number, then every
chunk and every header goes to the slot that was inactive when its session was opened.
-/
theorem session_one_slot {b : FlashBackend δ} {t : Tracked δ} {ops : List CacheOp}
    (hb : t.state.storage.backend = some b.recorded) (hs : t.session ≤ 1)
    (hw : t.state.cache.writing = false)
    (hn : Along trackedStep NotSwitched t ops) : Along trackedStep OneSlot t ops :=
  along_of_invariant (SessionInv b) (fun _ _ _ hi _ h => sessionInv_step hi h)
    (fun _ _ hi hn => oneSlot_of_inv hi hn)
    ⟨hb, hs, fun h => absurd (hw.symm.trans h) (by simp)⟩ hn

/-- Switching there and back between two chunks is harmless. -/
theorem session_one_slot_switched_back :
    Along trackedStep OneSlot
      { state := watched testCache (withImage (withImage (fun _ => erased) 0x1000 0 [1])
          0x5000 1 [2]) }
      [.session (.beginWrite 2 1), .rollback, .activateSlot 0,
        .session (.writeChunk [3, 4])] :=
  session_one_slot rfl (by decide) rfl (by decide)

/--
**A rollback in the middle of a session redirects it.** Both slots hold an image, slot A is
active; a session is opened for slot B, the cache is rolled back, and the chunk that
follows goes to slot A.
-/
theorem session_redirected_by_rollback :
    ¬ Along trackedStep OneSlot
      { state := watched testCache (withImage (withImage (fun _ => erased) 0x1000 0 [1])
          0x5000 1 [2]) }
      [.session (.beginWrite 2 1), .rollback, .session (.writeChunk [3, 4])] := by
  intro h
  have hend : ((run trackedStep
      { state := watched testCache (withImage (withImage (fun _ => erased) 0x1000 0 [1])
          0x5000 1 [2]) }
      [.session (.beginWrite 2 1), .rollback]).bind fun t =>
        (cacheStep t.state (.session (.writeChunk [3, 4]))).map fun s' =>
          (s'.storage.device.2.head?,
            decide (t.state.storage.device.2.length < s'.storage.device.2.length),
            (t.state.cache.slotOffset t.session + t.state.cache.writeOffset).toNat))
      = some (some (.write 0x2000 2), true, 0x6000) := by decide
  obtain ⟨t, hrun, hlast⟩ := Option.bind_eq_some_iff.mp hend
  obtain ⟨s', hs', hres⟩ := Option.map_eq_some_iff.mp hlast
  simp only [Prod.mk.injEq, decide_eq_true_eq] at hres
  obtain ⟨hhead, hlen, hoff⟩ := hres
  -- the newest entry is the chunk's, a sector into slot A
  have hone : OneSlot t (.session (.writeChunk [3, 4])) :=
    along_last [.session (.beginWrite 2 1), .rollback] h hrun
  obtain ⟨new, hnew, hwrites⟩ := hone s' hs'
  rw [hnew, List.length_append] at hlen
  cases new with
  | nil => exact absurd hlen (by simp)
  | cons acc rest =>
    rw [hnew] at hhead
    rw [Option.some.inj hhead] at hwrites
    have hat := hwrites 0x2000 2 List.mem_cons_self
    rw [hoff] at hat
    exact absurd hat (by decide)

end TaktOS.Proof
