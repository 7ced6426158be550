import TaktOS.Lib.Run
import TaktOS.Services.ConfigManager

/-!
# Which pairs of a remote configuration reach the store

Between two ticks one text is kept, the last one, and 511 characters of it. A tick hands the
pairs of these to the store, in order. So the store gets every pair of every text exactly when
no text with a pair is overwritten before its tick and no pair reaches past the 511th character.
-/

namespace TaktOS.Proof

open Lib

variable {σ : Type}

/-! ## Runs next to the texts submitted and the calls of the store -/

/-- A call of `NvsManager::setString` and its result. -/
structure SetStringCall where
  key : Name
  value : List UInt8
  ok : Bool
  deriving DecidableEq

def SetStringCall.pair (c : SetStringCall) : Name × List UInt8 := (c.key, c.value)

/-- A store with the calls made so far. -/
structure NvsTrace (σ : Type) where
  state : σ
  calls : List SetStringCall := []

/-- The pairs the store took. -/
def NvsTrace.stored (t : NvsTrace σ) : List (Name × List UInt8) :=
  (t.calls.filter (·.ok)).map SetStringCall.pair

/-- The same store, its calls put on record. -/
def traced (nvs : NvsStrings σ) : NvsStrings (NvsTrace σ) where
  setString t key value :=
    let (ok, s) := nvs.setString t.state key value
    (ok, { state := s, calls := t.calls ++ [{ key, value, ok }] })
  getString t := nvs.getString t.state
  backup t :=
    let (ok, s) := nvs.backup t.state
    (ok, { t with state := s })

inductive ConfigOp where
  | applyRemoteConfig (json : List UInt8)
  | tick

/-- The module with the texts that wait for a tick and those that had theirs. -/
structure ConfigHistory (σ : Type) where
  world : ConfigWorld (NvsTrace σ)
  waiting : List (List UInt8) := []
  applied : List (List UInt8) := []

/-- The text submitted is the C string the call is given. -/
def configStep (nvs : NvsStrings σ) (s : ConfigHistory σ) : ConfigOp → Option (ConfigHistory σ)
  | .applyRemoteConfig json =>
    some { s with
      world := { s.world with config := s.world.config.applyRemoteConfig json }
      waiting := s.waiting ++ [cstr json] }
  | .tick =>
    some { world := s.world.tick (traced nvs), waiting := [], applied := s.applied ++ s.waiting }

/-- The pairs of a text. -/
def pairs (text : List UInt8) : List (Name × List UInt8) :=
  fieldPairs kPairSeparator kValueMark text

/-- Hand the pairs to the store, one after the other. -/
def storeAll (nvs : NvsStrings σ) (s : σ) (kvs : List (Name × List UInt8)) : σ :=
  kvs.foldl (fun s kv => (nvs.setString s kv.1 kv.2).2) s

/--
**Every text that had its tick was applied completely**: what the store took are the pairs of
these texts with their full values, in order, and it is in the state they leave it in.
-/
structure AppliedCompletely (nvs : NvsStrings σ) (s₀ : σ) (t : ConfigHistory σ) : Prop where
  stored : t.world.nvs.stored = t.applied.flatMap pairs
  state : t.world.nvs.state = storeAll nvs s₀ (t.applied.flatMap pairs)

/-- Nothing that belongs to a pair stands behind the first 511 characters. -/
def FitsPending (text : List UInt8) : Prop :=
  kValueMark ∉ text.drop 511
    ∧ (text.drop 511 = [] ∨ (text.drop 511).head? = some kPairSeparator
      ∨ kValueMark ∉ lastField kPairSeparator (text.take 511))

/-- Of the texts that wait, all but the last have no pair, and the last one's pairs fit. -/
def KeepsPairs (s : ConfigHistory σ) : ConfigOp → Prop
  | .applyRemoteConfig _ => True
  | .tick =>
    (∀ text ∈ s.waiting.dropLast, kValueMark ∉ text)
      ∧ ∀ text, s.waiting.getLast? = some text → FitsPending text

/-! ## What a tick hands to the store -/

/-- One token of the text. -/
theorem applyToken_nvs (nvs : NvsStrings σ) (w : ConfigWorld σ) (token : Nat) :
    (w.applyToken nvs token).nvs
      = storeAll nvs w.nvs
          ([w.config.pendingJson.stringAt token].filterMap (cutAt kValueMark)) := by
  unfold ConfigWorld.applyToken
  by_cases hmark : kValueMark ∈ w.config.pendingJson.stringAt token
  · obtain ⟨k, v, hstr, hk⟩ := List.eq_append_cons_of_mem hmark
    obtain ⟨hchr, hkey, hvalue⟩ := w.config.pendingJson.strchr_some hk hstr
    rw [hchr, hstr, List.filterMap_cons_some (cutAt_append_cons hk)]
    dsimp only
    rw [hkey, hvalue]
    unfold ConfigWorld.setString
    split
    · rename_i hset
      simp only [storeAll, List.filterMap_nil, List.foldl_cons, List.foldl_nil]
      exact (congrArg Prod.snd hset).symm
    · rename_i hset
      simp only [storeAll, List.filterMap_nil, List.foldl_cons, List.foldl_nil]
      split <;> exact (congrArg Prod.snd hset).symm
  · rw [w.config.pendingJson.strchr_none hmark, List.filterMap_cons_none (cutAt_none.mpr hmark)]
    rfl

theorem storeAll_append (nvs : NvsStrings σ) (s : σ) (kvs kvs' : List (Name × List UInt8)) :
    storeAll nvs s (kvs ++ kvs') = storeAll nvs (storeAll nvs s kvs) kvs' :=
  List.foldl_append

/-- **The tokenizer hands over the pairs of the string in the buffer.** -/
theorem applyTokens_nvs (nvs : NvsStrings σ) (w : ConfigWorld σ) (p : Nat) :
    (w.applyTokens nvs p).nvs
      = storeAll nvs w.nvs (pairs (w.config.pendingJson.stringAt p)) := by
  induction w, p using ConfigWorld.applyTokens.induct nvs with
  | case1 w p hnone =>
    rw [ConfigWorld.applyTokens]
    split
    · rw [pairs, ← filterMap_tokens, w.config.pendingJson.strtokR_none hnone]
      rfl
    · rename_i h
      exact absurd (hnone.symm.trans h) (by simp)
  | case2 w p token buf next htok ih =>
    obtain ⟨htokens, hnext, _⟩ := w.config.pendingJson.strtokR_some buf htok
    rw [ConfigWorld.applyTokens]
    split
    · rename_i h
      exact absurd (h.symm.trans htok) (by simp)
    · rename_i h
      obtain ⟨rfl, rfl, rfl⟩ : _ ∧ _ ∧ _ := by simpa using htok.symm.trans h
      rw [ih, (w.setPending buf).applyToken_stringAt nvs hnext]
      calc storeAll nvs ((w.setPending buf).applyToken nvs token).nvs (pairs (buf.stringAt next))
          = storeAll nvs (storeAll nvs w.nvs
              ([buf.stringAt token].filterMap (cutAt kValueMark))) (pairs (buf.stringAt next)) :=
            congrArg (storeAll nvs · _) (applyToken_nvs nvs (w.setPending buf) token)
        _ = storeAll nvs w.nvs ((buf.stringAt token
              :: tokens kPairSeparator (buf.stringAt next)).filterMap (cutAt kValueMark)) := by
            rw [← storeAll_append, pairs, ← filterMap_tokens, ← List.filterMap_append]
            rfl
        _ = storeAll nvs w.nvs (pairs (w.config.pendingJson.stringAt p)) := by
            rw [← htokens, filterMap_tokens]
            rfl

/-- A store with its calls on record is the store, and the record grows by the pairs. -/
theorem storeAll_traced (nvs : NvsStrings σ) (kvs : List (Name × List UInt8)) :
    ∀ t : NvsTrace σ, (storeAll (traced nvs) t kvs).state = storeAll nvs t.state kvs
      ∧ (storeAll (traced nvs) t kvs).calls.map SetStringCall.pair
        = t.calls.map SetStringCall.pair ++ kvs := by
  induction kvs with
  | nil => exact fun t => ⟨rfl, (List.append_nil _).symm⟩
  | cons kv kvs ih =>
    intro t
    obtain ⟨hstate, hcalls⟩ := ih ((traced nvs).setString t kv.1 kv.2).2
    refine ⟨hstate, hcalls.trans ?_⟩
    rw [traced, List.map_append, List.append_assoc]
    rfl

/-! ## Steps -/

/-- The characters of a text that a tick sees. -/
def lastSeen (waiting : List (List UInt8)) : List UInt8 := (waiting.getLast?.getD []).take 511

/-- The pending flag and the buffer tell of the last text that waits. -/
structure ConfigInv (s : ConfigHistory σ) : Prop where
  pending : s.world.config.applyPending = !s.waiting.isEmpty
  buffer : s.waiting ≠ [] → s.world.config.pendingJson.stringAt 0 = lastSeen s.waiting
  /-- The store was never handed more pairs than were submitted. -/
  count : s.world.nvs.calls.length ≤ (s.applied.flatMap pairs).length

theorem applyToken_pending (nvs : NvsStrings σ) (w : ConfigWorld σ) (token : Nat) :
    (w.applyToken nvs token).config.applyPending = w.config.applyPending := by
  unfold ConfigWorld.applyToken
  split
  · rfl
  · rw [ConfigWorld.setString_config]
    rfl

theorem applyTokens_pending (nvs : NvsStrings σ) (w : ConfigWorld σ) (p : Nat) :
    (w.applyTokens nvs p).config.applyPending = w.config.applyPending := by
  induction w, p using ConfigWorld.applyTokens.induct nvs with
  | case1 w p hnone =>
    rw [ConfigWorld.applyTokens]
    split
    · rfl
    · rename_i h
      exact absurd (hnone.symm.trans h) (by simp)
  | case2 w p token buf next htok ih =>
    rw [ConfigWorld.applyTokens]
    split
    · rfl
    · rename_i h
      obtain ⟨rfl, rfl, rfl⟩ : _ ∧ _ ∧ _ := by simpa using htok.symm.trans h
      rw [ih, applyToken_pending]
      rfl

/-- **A tick hands over the pairs it sees of the last text.** -/
theorem tick_nvs (nvs : NvsStrings σ) {s : ConfigHistory σ} (hi : ConfigInv s) :
    (s.world.tick (traced nvs)).nvs
        = storeAll (traced nvs) s.world.nvs (pairs (lastSeen s.waiting))
      ∧ (s.world.tick (traced nvs)).config.applyPending = false := by
  rw [ConfigWorld.tick, hi.pending]
  cases hw : s.waiting with
  | nil =>
    refine ⟨?_, by rw [if_neg (by simp), hi.pending, hw]; rfl⟩
    have hnone : pairs (lastSeen []) = [] := by decide
    rw [if_neg (by simp), hnone]
    rfl
  | cons text texts =>
    rw [if_pos (by simp), ← hw, ← hi.buffer (by rw [hw]; exact List.cons_ne_nil _ _)]
    exact ⟨applyTokens_nvs (traced nvs) _ 0, applyTokens_pending (traced nvs) _ 0⟩

theorem lastSeen_concat {init : List (List UInt8)} {text : List UInt8} :
    lastSeen (init ++ [text]) = text.take 511 := by
  rw [lastSeen, List.getLast?_concat, Option.getD_some]

/-- A tick hands over no more pairs than were submitted. -/
theorem length_pairs_seen (waiting : List (List UInt8)) :
    (pairs (lastSeen waiting)).length ≤ (waiting.flatMap pairs).length := by
  rcases List.eq_nil_or_concat waiting with rfl | ⟨init, text, rfl⟩
  · exact Nat.le_of_eq rfl
  · rw [List.concat_eq_append, lastSeen_concat, List.flatMap_append, List.length_append,
      List.flatMap_singleton]
    refine Nat.le_add_left_of_le ?_
    have hlen : (pairs (text.take 511)).length ≤ (pairs (text.take 511 ++ text.drop 511)).length :=
      length_fieldPairs_append
    rwa [List.take_append_drop] at hlen

/-- **What a tick hands over is what was submitted** under one condition on the texts. -/
theorem pairs_seen_iff (waiting : List (List UInt8)) :
    pairs (lastSeen waiting) = waiting.flatMap pairs
      ↔ (∀ text ∈ waiting.dropLast, kValueMark ∉ text)
        ∧ ∀ text, waiting.getLast? = some text → FitsPending text := by
  have hne : kValueMark ≠ kPairSeparator := by decide
  rcases List.eq_nil_or_concat waiting with rfl | ⟨init, text, rfl⟩
  · exact ⟨fun _ => ⟨by simp, by simp⟩, fun _ => rfl⟩
  rw [List.concat_eq_append, lastSeen_concat, List.flatMap_append, List.flatMap_singleton,
    List.dropLast_concat, List.getLast?_concat]
  have hcut : pairs (text.take 511) = pairs text ↔ FitsPending text := by
    have h := fieldPairs_append_eq_iff hne (p := text.take 511) (q := text.drop 511)
    rw [List.take_append_drop] at h
    exact eq_comm.trans h
  have hinit : init.flatMap pairs = [] ↔ ∀ text ∈ init, kValueMark ∉ text := by
    rw [List.flatMap_eq_nil_iff]
    exact forall₂_congr fun text _ => fieldPairs_eq_nil hne
  rw [← hinit]
  constructor
  · intro h
    have hlen := congrArg List.length h
    have hle : (pairs (text.take 511)).length ≤ (pairs (text.take 511 ++ text.drop 511)).length :=
      length_fieldPairs_append
    rw [List.take_append_drop] at hle
    rw [List.length_append] at hlen
    have hnil : init.flatMap pairs = [] := List.eq_nil_of_length_eq_zero (by omega)
    rw [hnil, List.nil_append] at h
    exact ⟨hnil, fun _ ht => Option.some.inj ht ▸ hcut.mp h⟩
  · rintro ⟨hnil, hfits⟩
    rw [hnil, List.nil_append]
    exact hcut.mpr (hfits text rfl)

/-- A tick's calls. -/
theorem tick_calls (nvs : NvsStrings σ) {s : ConfigHistory σ} (hi : ConfigInv s) :
    (s.world.tick (traced nvs)).nvs.calls.map SetStringCall.pair
      = s.world.nvs.calls.map SetStringCall.pair ++ pairs (lastSeen s.waiting) := by
  rw [(tick_nvs nvs hi).1]
  exact (storeAll_traced nvs _ _).2

theorem configStep_inv (nvs : NvsStrings σ) {s s' : ConfigHistory σ} {op : ConfigOp}
    (hi : ConfigInv s) (h : configStep nvs s op = some s') : ConfigInv s' := by
  cases op with
  | applyRemoteConfig json =>
    obtain rfl := Option.some.inj h
    refine ⟨by simp [ConfigManager.applyRemoteConfig], fun _ => ?_, hi.count⟩
    rw [lastSeen_concat]
    exact s.world.config.pendingJson.stringAt_strncpy json
  | tick =>
    obtain rfl := Option.some.inj h
    refine ⟨(tick_nvs nvs hi).2, fun hne => absurd rfl hne, ?_⟩
    have hlen := congrArg List.length (tick_calls nvs hi)
    rw [List.length_map, List.length_append, List.length_map] at hlen
    have hle := length_pairs_seen s.waiting
    have hcount := hi.count
    rw [List.flatMap_append, List.length_append]
    dsimp only
    omega

/-- The calls made are the pairs submitted. -/
def Handed (s : ConfigHistory σ) : Prop :=
  s.world.nvs.calls.map SetStringCall.pair = s.applied.flatMap pairs

/-- A pair that was missed at a tick stays missed. -/
theorem handed_back (nvs : NvsStrings σ) {s s' : ConfigHistory σ} {op : ConfigOp}
    (hi : ConfigInv s) (h : configStep nvs s op = some s') (hh : Handed s') : Handed s := by
  cases op with
  | applyRemoteConfig json => obtain rfl := Option.some.inj h; exact hh
  | tick =>
    obtain rfl := Option.some.inj h
    have hh' := (tick_calls nvs hi).symm.trans hh
    rw [List.flatMap_append] at hh'
    refine List.append_inj_left hh' ?_
    have hlen := congrArg List.length hh'
    have hle := length_pairs_seen s.waiting
    have hcount := hi.count
    rw [List.length_append, List.length_append, List.length_map] at hlen
    rw [List.length_map]
    omega

theorem handed_step_iff (nvs : NvsStrings σ) {s s' : ConfigHistory σ} {op : ConfigOp}
    (hi : ConfigInv s) (hh : Handed s) (h : configStep nvs s op = some s') :
    KeepsPairs s op ↔ Handed s' := by
  cases op with
  | applyRemoteConfig json =>
    obtain rfl := Option.some.inj h
    exact ⟨fun _ => hh, fun _ => trivial⟩
  | tick =>
    obtain rfl := Option.some.inj h
    rw [KeepsPairs, ← pairs_seen_iff, Handed, tick_calls nvs hi, List.flatMap_append, hh,
      List.append_cancel_left_eq]

/-- The store is in the state its calls leave it in. -/
theorem configStep_state (nvs : NvsStrings σ) {s₀ : σ} {s s' : ConfigHistory σ} {op : ConfigOp}
    (hi : ConfigInv s)
    (hs : s.world.nvs.state = storeAll nvs s₀ (s.world.nvs.calls.map SetStringCall.pair))
    (h : configStep nvs s op = some s') :
    s'.world.nvs.state = storeAll nvs s₀ (s'.world.nvs.calls.map SetStringCall.pair) := by
  cases op with
  | applyRemoteConfig json => obtain rfl := Option.some.inj h; exact hs
  | tick =>
    obtain rfl := Option.some.inj h
    rw [tick_calls nvs hi, storeAll_append, ← hs, (tick_nvs nvs hi).1]
    exact (storeAll_traced nvs _ _).1

/-! ## The theorem -/

/-- A module that was started on a store. -/
def freshConfig (changeCb : Bool) (s₀ : σ) : ConfigHistory σ where
  world := { config := { changeCb }, nvs := { state := s₀ } }

theorem freshConfig_inv (changeCb : Bool) (s₀ : σ) : ConfigInv (freshConfig changeCb s₀) :=
  ⟨rfl, fun h => absurd rfl h, Nat.le_refl _⟩

theorem configStep_total (nvs : NvsStrings σ) (s : ConfigHistory σ) (op : ConfigOp) :
    ∃ s', configStep nvs s op = some s' := by
  cases op <;> exact ⟨_, rfl⟩

/-- Where every write succeeds, the store took what it was handed. -/
theorem stored_of_ok {t : NvsTrace σ} (hok : ∀ c ∈ t.calls, c.ok = true) :
    t.stored = t.calls.map SetStringCall.pair := by
  rw [NvsTrace.stored, List.filter_eq_self.mpr hok]

/--
**Remote configuration is applied completely** exactly in the runs where, at every tick, all
texts that wait but the last have no pair and the last one's pairs stand in its first 511
characters.
-/
theorem remote_config_applied_iff (nvs : NvsStrings σ) (changeCb : Bool) (s₀ : σ)
    (ops : List ConfigOp) :
    ∃ t, run (configStep nvs) (freshConfig changeCb s₀) ops = some t
      ∧ ((∀ c ∈ t.world.nvs.calls, c.ok = true) →
        (AppliedCompletely nvs s₀ t
          ↔ Along (configStep nvs) KeepsPairs (freshConfig changeCb s₀) ops)) := by
  have hi := freshConfig_inv changeCb s₀
  obtain ⟨t, ht, -⟩ := run_returns (fun _ => True)
    (fun s op _ => (configStep_total nvs s op).imp fun _ h => ⟨h, trivial⟩) ops
    (s := freshConfig changeCb s₀) trivial
  refine ⟨t, ht, fun hok => ?_⟩
  have hstate := (run_preserves
    (fun s => ConfigInv s
      ∧ s.world.nvs.state = storeAll nvs s₀ (s.world.nvs.calls.map SetStringCall.pair))
    (fun _ _ _ hs h => ⟨configStep_inv nvs hs.1 h, configStep_state nvs hs.1 hs.2 h⟩)
    ⟨hi, rfl⟩ ht).2
  have hhanded : Handed t ↔ Along (configStep nvs) KeepsPairs (freshConfig changeCb s₀) ops :=
    run_iff_along ConfigInv Handed (fun _ _ _ => configStep_inv nvs)
      (fun _ _ _ => handed_back nvs) (fun _ _ _ => handed_step_iff nvs) hi rfl ht
  rw [← hhanded]
  constructor
  · intro h
    exact (stored_of_ok hok).symm.trans h.stored
  · intro h
    exact ⟨(stored_of_ok hok).trans h, hstate.trans (by rw [h])⟩

/-- Two pairs in one text. -/
theorem remote_config_applied_two_pairs :
    ∃ t, run (configStep (.host NvsManager.defaultNamespace)) (freshConfig true fun _ => none)
        [.applyRemoteConfig (ascii ['a', '=', '1', ';', 'b', '=', '2']), .tick] = some t
      ∧ AppliedCompletely (.host NvsManager.defaultNamespace) (fun _ => none) t := by
  obtain ⟨t, ht, hiff⟩ := remote_config_applied_iff (.host NvsManager.defaultNamespace) true
    (fun _ => none) [.applyRemoteConfig (ascii ['a', '=', '1', ';', 'b', '=', '2']), .tick]
  have hcalls : (run (configStep (.host NvsManager.defaultNamespace))
      (freshConfig true fun _ => none)
      [.applyRemoteConfig (ascii ['a', '=', '1', ';', 'b', '=', '2']), .tick]).map
        (·.world.nvs.calls.all (·.ok)) = some true := by decide +kernel
  rw [ht, Option.map_some, Option.some.injEq, List.all_eq_true] at hcalls
  refine ⟨t, ht, (hiff hcalls).mpr (.cons rfl trivial (.cons rfl ?_ trivial))⟩
  refine ⟨by decide, fun text htext => ?_⟩
  obtain rfl := Option.some.inj htext
  exact ⟨by decide, .inl (by decide)⟩

/-- Whether the store took the pairs of all texts that had their tick. -/
def storedAll (t : ConfigHistory σ) : Bool := t.world.nvs.stored == t.applied.flatMap pairs

theorem not_appliedCompletely {nvs : NvsStrings σ} {s₀ : σ} {t : ConfigHistory σ}
    (h : storedAll t = false) : ¬ AppliedCompletely nvs s₀ t := fun ha => by
  rw [storedAll, ha.stored, beq_self_eq_true] at h
  exact Bool.noConfusion h

/--
**Of two texts before a tick the first is lost, and of a pair of 512 characters the value is cut
off**, with every write of the store succeeding.
-/
theorem remote_config_lost :
    (∃ t, run (configStep (.host NvsManager.defaultNamespace)) (freshConfig false fun _ => none)
        [.applyRemoteConfig (ascii ['a', '=', '1']), .applyRemoteConfig (ascii ['b', '=', '2']),
          .tick] = some t
      ∧ (∀ c ∈ t.world.nvs.calls, c.ok = true)
      ∧ ¬ AppliedCompletely (.host NvsManager.defaultNamespace) (fun _ => none) t)
      ∧ ∃ t, run (configStep (.host NvsManager.defaultNamespace)) (freshConfig false fun _ => none)
          [.applyRemoteConfig (ascii ['a', '='] ++ List.replicate 510 0x31), .tick] = some t
        ∧ (∀ c ∈ t.world.nvs.calls, c.ok = true)
        ∧ ¬ AppliedCompletely (.host NvsManager.defaultNamespace) (fun _ => none) t := by
  have htwo : (run (configStep (.host NvsManager.defaultNamespace))
      (freshConfig false fun _ => none)
      [.applyRemoteConfig (ascii ['a', '=', '1']), .applyRemoteConfig (ascii ['b', '=', '2']),
        .tick]).map (fun t => (t.world.nvs.calls.all (·.ok), storedAll t))
      = some (true, false) := by decide +kernel
  have hlong : (run (configStep (.host NvsManager.defaultNamespace))
      (freshConfig false fun _ => none)
      [.applyRemoteConfig (ascii ['a', '='] ++ List.replicate 510 0x31), .tick]).map
        (fun t => (t.world.nvs.calls.all (·.ok), storedAll t)) = some (true, false) := by
    decide +kernel
  obtain ⟨t, ht, hlost⟩ := Option.map_eq_some_iff.mp htwo
  obtain ⟨t', ht', hlost'⟩ := Option.map_eq_some_iff.mp hlong
  exact ⟨⟨t, ht, List.all_eq_true.mp (congrArg Prod.fst hlost),
      not_appliedCompletely (congrArg Prod.snd hlost)⟩,
    t', ht', List.all_eq_true.mp (congrArg Prod.fst hlost'),
    not_appliedCompletely (congrArg Prod.snd hlost')⟩

end TaktOS.Proof
