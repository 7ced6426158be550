import TaktOS.Middleware.WiFiConfig
import TaktOS.Proof.NvsRuns
import TaktOS.Proof.RemoteConfig

/-!
# From a remote configuration to the radio

A text that was submitted to the configuration manager is cut into pairs by the next tick; the
pairs are written to the NVS, the device is started again, and `WiFiModule::init` reads the name
and the password of the network back and hands them to esp-wifi. The three modules and the
partition are run together here, over the vault that the NVS manager is.
-/

namespace TaktOS.Proof

open Lib
open NvsManager.Esp32

variable {σ : Type}

/-! ## The device -/

/-- The parts of the device that its configuration goes through. -/
structure ConfiguredDevice (σ : Type) where
  config : ConfigManager := {}
  notices : List ConfigNotice := []
  nvs : NvsDevice σ

/-- The pairs that a tick sees of a text. -/
def seenPairs (json : List UInt8) : List (Name × List UInt8) := pairs ((cstr json).take 511)

inductive ConfigUse where
  | nvs (use : NvsUse)
  /-- The keys of the text are plain. -/
  | applyRemoteConfig (json : List UInt8) (plain : ∀ kv ∈ seenPairs json, IsPlain kv.1)
  | tick
  | shutdown

namespace ConfiguredDevice

def world (d : ConfiguredDevice σ) : ConfigWorld σ where
  config := d.config
  nvs := d.nvs.partition
  notices := d.notices

/-- The device after the configuration manager's call. -/
def after (d : ConfiguredDevice σ) (w : ConfigWorld σ) : ConfiguredDevice σ where
  config := w.config
  notices := w.notices
  nvs := { d.nvs with partition := w.nvs }

def step (nvs : NvsFlash σ) (d : ConfiguredDevice σ) : ConfigUse → Option (ConfiguredDevice σ)
  | .nvs use => (managerStep nvs d.nvs use).map fun (_, n) => { d with nvs := n }
  | .applyRemoteConfig json _ => some { d with config := d.config.applyRemoteConfig json }
  | .tick => some (d.after (d.world.tick (.esp32 nvs d.nvs.namespace_)))
  | .shutdown => some (d.after (d.world.shutdown (.esp32 nvs d.nvs.namespace_)))

/-- What `WiFiModule::init` hands to esp-wifi, its own configuration being the one given. -/
def station (nvs : NvsFlash σ) (d : ConfiguredDevice σ) (cfg : WiFiConfig) :
    List UInt8 × List UInt8 :=
  (cfg.load (.esp32 nvs d.nvs.namespace_) d.nvs.partition).station

end ConfiguredDevice

/-! ## What the pairs leave -/

/-- The last value that the pairs give to the key. -/
def lastValue (k : Name) : List (Name × List UInt8) → Option (List UInt8)
  | [] => none
  | kv :: kvs => (lastValue k kvs).or (if kv.1 = k then some kv.2 else none)

theorem lastValue_mem {k : Name} {text : List UInt8} : ∀ {kvs : List (Name × List UInt8)},
    lastValue k kvs = some text → (k, text) ∈ kvs := by
  intro kvs
  induction kvs with
  | nil => exact fun h => absurd h (by simp [lastValue])
  | cons kv kvs ih =>
    intro h
    rw [lastValue, Option.or_eq_some_iff] at h
    rcases h with h | ⟨-, h⟩
    · exact List.mem_cons_of_mem _ (ih h)
    · split at h
      · rename_i hk
        rw [← hk, ← Option.some.inj h]
        exact List.mem_cons_self
      · exact absurd h (by simp)

/-- The string has its entry in the space. -/
def HasString (t : Vault Space PlainKey StoredValue) (space : Space) (k : PlainKey)
    (text : List UInt8) : Prop :=
  ∃ v : StoredValue, v.data = text ++ [0] ∧ t.HasEntry space k v

section

variable {nvs : NvsFlash σ} {view : σ → NvsMap} {t : Vault Space PlainKey StoredValue}
  (hmap : nvs.IsMap view) (hspaces : TracksSpaces nvs)

include hmap hspaces

/-- One pair is a `put`. -/
theorem setString_manages {d : NvsDevice σ} (h : ManagesVault nvs view d t) {kv : Name × List UInt8}
    (hkey : IsPlain kv.1) (hlen : kv.2.length < 65535) :
    ∃ t', ManagesVault nvs view
        { d with partition := (setString nvs d.namespace_ d.partition kv.1 kv.2 1).2 } t'
      ∧ HasString t' t.space ⟨kv.1, hkey⟩ kv.2
      ∧ ∀ k text, k.1 ≠ kv.1 → HasString t t.space k text → HasString t' t.space k text := by
  obtain ⟨ns, partition⟩ := d
  obtain ⟨rfl, hkept⟩ := h
  have hstorable : IsStorable (kv.2 ++ [0]) :=
    ⟨by simp, by rw [List.length_append, List.length_singleton]; omega⟩
  let v : StoredValue := ⟨kv.2 ++ [0], 1, hstorable⟩
  obtain ⟨-, hput⟩ := hkept.put hmap hspaces ⟨kv.1, hkey⟩ v
  refine ⟨t.write (Vault.set (t.entries t.space) ⟨kv.1, hkey⟩ (some v)), ⟨rfl, hput⟩,
    ⟨v, rfl, Vault.put_hasEntry _ _ _⟩, fun k text hne => ?_⟩
  rintro ⟨v, hv, hentry⟩
  have hk : k ≠ ⟨kv.1, hkey⟩ := fun he => hne (congrArg Subtype.val he)
  exact ⟨v, hv, hentry.write (by rw [Vault.set_other _ _ hk]; exact hentry.entry)⟩

/-- **The pairs of a text leave every key at its last value**, and the other keys alone. -/
theorem storeAll_manages {kvs : List (Name × List UInt8)}
    (hkvs : ∀ kv ∈ kvs, IsPlain kv.1 ∧ kv.2.length < 65535) :
    ∀ {d : NvsDevice σ} {t : Vault Space PlainKey StoredValue}, ManagesVault nvs view d t →
      ∃ t', ManagesVault nvs view
          { d with partition := storeAll (.esp32 nvs d.namespace_) d.partition kvs } t'
        ∧ (∀ k text, lastValue k.1 kvs = some text → HasString t' t.space k text)
        ∧ ∀ k text, lastValue k.1 kvs = none → HasString t t.space k text →
          HasString t' t.space k text := by
  induction kvs with
  | nil =>
    exact fun {d t} h =>
      ⟨t, h, fun k text hk => absurd hk (by simp [lastValue]), fun _ _ _ hk => hk⟩
  | cons kv kvs ih =>
    intro d t h
    obtain ⟨hkey, hlen⟩ := hkvs kv List.mem_cons_self
    obtain ⟨t₁, hd₁, hput, hother⟩ := setString_manages hmap hspaces h hkey hlen
    have hspace : t₁.space = t.space := hput.elim fun _ hv => hv.2.space
    obtain ⟨t₂, hd₂, hlast, hrest⟩ := ih (fun kv hkv => hkvs kv (List.mem_cons_of_mem _ hkv)) hd₁
    rw [hspace] at hlast hrest
    refine ⟨t₂, hd₂, fun k text hk => ?_, fun k text hk hstring => ?_⟩
    · rw [lastValue, Option.or_eq_some_iff] at hk
      rcases hk with hk | ⟨hnone, hk⟩
      · exact hlast k text hk
      · split at hk
        · rename_i he
          obtain rfl := Option.some.inj hk
          obtain rfl : k = ⟨kv.1, hkey⟩ := Subtype.ext he.symm
          exact hrest _ _ hnone hput
        · exact absurd hk (by simp)
    · rw [lastValue, Option.or_eq_none_iff] at hk
      obtain ⟨hnone, hk⟩ := hk
      have hne : k.1 ≠ kv.1 := fun he => by
        rw [if_pos he.symm] at hk
        exact absurd hk (by simp)
      exact hrest k text hnone (hother k text hne hstring)

end

/-! ## Steps of the device -/

/-- The pairs that the text in the buffer still has to give. -/
def ConfiguredDevice.due (d : ConfiguredDevice σ) : List (Name × List UInt8) :=
  if d.config.applyPending then pairs (d.config.pendingJson.stringAt 0) else []

/-- The device holds what the vault does, and the text that waits has plain keys. -/
structure Configured (nvs : NvsFlash σ) (view : σ → NvsMap) (d : ConfiguredDevice σ)
    (t : Vault Space PlainKey StoredValue) : Prop where
  manages : ManagesVault nvs view d.nvs t
  due : ∀ kv ∈ d.due, IsPlain kv.1 ∧ kv.2.length < 65535

/-- What is done leaves the key alone, and the manager in the space. -/
def ConfigUse.spares (space : Space) (k : PlainKey) : ConfigUse → Prop
  | .nvs use => use.asked.disturbs space k = false
  | .applyRemoteConfig json _ => lastValue k.1 (seenPairs json) = none
  | .tick | .shutdown => True

/-- The string has its entry, and no text waits that would change it. -/
structure Configures (nvs : NvsFlash σ) (view : σ → NvsMap) (space : Space) (k : PlainKey)
    (text : List UInt8) (d : ConfiguredDevice σ) (t : Vault Space PlainKey StoredValue) : Prop where
  configured : Configured nvs view d t
  entry : HasString t space k text
  due : lastValue k.1 d.due = none

/-- No pair of a text is longer than the buffer. -/
theorem seenPairs_length (json : List UInt8) : ∀ kv ∈ seenPairs json, kv.2.length < 65535 := by
  intro kv hkv
  have hlen := (fieldPairs_within hkv).1
  rw [List.length_take] at hlen
  omega

/-- After a text was submitted its pairs are due. -/
theorem due_submitted (c : ConfigManager) (json : List UInt8) :
    (c.applyRemoteConfig json).pendingJson.stringAt 0 = (cstr json).take 511 :=
  c.pendingJson.stringAt_strncpy json

section

variable {nvs : NvsFlash σ} {view : σ → NvsMap} {d : ConfiguredDevice σ}
  {t : Vault Space PlainKey StoredValue} (hmap : nvs.IsMap view) (hspaces : TracksSpaces nvs)

/-- **A tick writes what is due.** -/
theorem tick_writes (nvs : NvsStrings σ) (w : ConfigWorld σ) :
    (w.tick nvs).nvs = storeAll nvs w.nvs
        (if w.config.applyPending then pairs (w.config.pendingJson.stringAt 0) else [])
      ∧ (w.tick nvs).config.applyPending = false := by
  unfold ConfigWorld.tick
  split
  · rename_i hp
    rw [ConfigWorld.applyPending]
    exact ⟨applyTokens_nvs nvs _ 0, applyTokens_pending nvs _ 0⟩
  · rename_i hp
    exact ⟨rfl, Bool.eq_false_iff.mpr hp⟩

include hmap hspaces

theorem tick_configured (h : Configured nvs view d t) :
    ∃ d' t', d.step nvs .tick = some d' ∧ Configured nvs view d' t' ∧ d'.due = []
      ∧ (∀ k text, lastValue k.1 d.due = some text → HasString t' t.space k text)
      ∧ ∀ k text, lastValue k.1 d.due = none → HasString t t.space k text →
        HasString t' t.space k text := by
  obtain ⟨hnvs, hpending⟩ := tick_writes (.esp32 nvs d.nvs.namespace_) d.world
  obtain ⟨t', hmanages, hlast, hrest⟩ := storeAll_manages hmap hspaces h.due h.manages
  have hdue : (d.after (d.world.tick (.esp32 nvs d.nvs.namespace_))).due = [] := by
    rw [ConfiguredDevice.due, ConfiguredDevice.after, hpending]
    rfl
  refine ⟨_, t', rfl, ⟨?_, fun kv hkv => ?_⟩, hdue, hlast, hrest⟩
  · rw [ConfiguredDevice.after, hnvs]
    exact hmanages
  · rw [hdue] at hkv
    exact absurd hkv (by simp)

/-- Whatever is done, the vault goes along. -/
theorem step_configured (h : Configured nvs view d t) (use : ConfigUse) :
    ∃ d', d.step nvs use = some d' ∧ ∃ t', Configured nvs view d' t' := by
  cases use with
  | tick =>
    obtain ⟨d', t', hstep, hd', -⟩ := tick_configured hmap hspaces h
    exact ⟨d', hstep, t', hd'⟩
  | nvs use =>
    obtain ⟨_, n, t', hstep, -, hmanages⟩ := managerStep_allowed hmap hspaces h.manages use
    refine ⟨{ d with nvs := n }, ?_, t', hmanages, h.due⟩
    rw [ConfiguredDevice.step, hstep, Option.map_some]
  | applyRemoteConfig json plain =>
    refine ⟨_, rfl, t, h.manages, fun kv hkv => ?_⟩
    rw [ConfiguredDevice.due, due_submitted] at hkv
    exact ⟨plain kv hkv, seenPairs_length json kv hkv⟩
  | shutdown =>
    obtain ⟨_, _, t', hstep, -, hmanages⟩ := managerStep_allowed hmap hspaces h.manages .backup
    cases hstep
    exact ⟨_, rfl, t', hmanages, h.due⟩

/-- **What spares the key leaves its string.** -/
theorem step_configures {space : Space} {k : PlainKey} {text : List UInt8} {use : ConfigUse}
    (h : Configures nvs view space k text d t) (huse : use.spares space k) :
    ∃ d', d.step nvs use = some d' ∧ ∃ t', Configures nvs view space k text d' t' := by
  obtain ⟨hconfigured, ⟨v, hv, hentry⟩, hdue⟩ := h
  cases use with
  | tick =>
    obtain ⟨d', t', hstep, hd', hdue', -, hrest⟩ := tick_configured hmap hspaces hconfigured
    rw [hentry.space] at hrest
    exact ⟨d', hstep, t', hd', hrest k text hdue ⟨v, hv, hentry⟩, by rw [hdue']; rfl⟩
  | nvs use =>
    obtain ⟨_, n, t', hdone, ⟨r, hstep, -⟩, hmanages⟩ :=
      managerStep_allowed hmap hspaces hconfigured.manages use
    refine ⟨{ d with nvs := n }, ?_, t', ⟨hmanages, hconfigured.due⟩,
      ⟨v, hv, hstep.hasEntry huse hentry⟩, hdue⟩
    rw [ConfiguredDevice.step, hdone, Option.map_some]
  | applyRemoteConfig json plain =>
    have hseen : (({ d with config := d.config.applyRemoteConfig json }) :
        ConfiguredDevice σ).due = seenPairs json := by
      rw [ConfiguredDevice.due, due_submitted]
      rfl
    refine ⟨_, rfl, t, ⟨hconfigured.manages, fun kv hkv => ?_⟩, ⟨v, hv, hentry⟩, ?_⟩
    · rw [hseen] at hkv
      exact ⟨plain kv hkv, seenPairs_length json kv hkv⟩
    · rw [hseen]
      exact huse
  | shutdown =>
    obtain ⟨_, _, t', hdone, ⟨r, hstep, -⟩, hmanages⟩ :=
      managerStep_allowed hmap hspaces hconfigured.manages .backup
    cases hdone
    exact ⟨_, rfl, t', ⟨hmanages, hconfigured.due⟩, ⟨v, hv, hstep.hasEntry rfl hentry⟩, hdue⟩

/-! ## Reading the strings back -/

omit hspaces in
/-- A string that fits comes back, the rest of the buffer as it was. -/
theorem getString_configures {space : Space} {k : PlainKey} {text : List UInt8}
    (h : Configures nvs view space k text d t) (n : Nat) :
    getString nvs d.nvs.namespace_ d.nvs.partition k.1 (List.replicate (n + 1) 0)
      = if text.length ≤ n then (true, text ++ 0 :: List.replicate (n - text.length) 0)
        else (false, List.replicate (n + 1) 0) := by
  obtain ⟨hconfigured, ⟨v, hv, hentry⟩, -⟩ := h
  have hread := hconfigured.manages.kept.read hmap k (List.replicate (n + 1) 0) 0
  rw [hentry.space, hentry.entry, StoredValue.into, hv, List.length_append, List.length_singleton,
    List.length_replicate] at hread
  rw [getString, hconfigured.manages.space, hentry.space, hread]
  by_cases hlen : text.length ≤ n
  · rw [if_pos (by omega), if_pos hlen]
    simp [List.drop_replicate, show n + 1 - (text.length + 1) = n - text.length by omega]
  · rw [if_neg (by omega), if_neg hlen]

end

/-! ## The theorem -/

/-- A value of a text has no terminator in it. -/
theorem seenPairs_ne_zero {json : List UInt8} {kv : Name × List UInt8} (h : kv ∈ seenPairs json) :
    ∀ c ∈ kv.2, c ≠ 0 := fun c hc =>
  cstr_ne_zero c (List.mem_of_mem_take ((fieldPairs_within h).2 c hc))

def ssidKey : PlainKey := ⟨kWiFiSsid, by decide⟩

def passKey : PlainKey := ⟨kWiFiPass, by decide⟩

/-- A start, a text that waits for a tick, the tick, and what comes after. -/
def configuring (space : Space) (before : List ConfigUse) (json : List UInt8)
    (plain : ∀ kv ∈ seenPairs json, IsPlain kv.1) (after : List ConfigUse) : List ConfigUse :=
  before ++ (.nvs (.init space) :: .applyRemoteConfig json plain :: .tick :: after)

/-- The string, or the one that was configured where it does not fit. -/
def chosen (n : Nat) (text configured : List UInt8) : List UInt8 :=
  if text.length ≤ n then text else configured

/-- One of the two strings of `load`. -/
theorem stringAt_chosen {n : Nat} (b : CBuffer n) {text : List UInt8} (htext : ∀ c ∈ text, c ≠ 0)
    {found : Bool × List UInt8}
    (h : found = if text.length ≤ n then (true, text ++ 0 :: List.replicate (n - text.length) 0)
      else (false, List.replicate (n + 1) 0)) :
    (if found.1 then b.strncpy found.2 else b).stringAt 0 = chosen n text (b.stringAt 0) := by
  by_cases hlen : text.length ≤ n
  · rw [h, if_pos hlen, if_pos rfl, chosen, if_pos hlen, b.stringAt_strncpy,
      cstr_append_zero htext, List.take_of_length_le hlen]
  · rw [h, if_neg hlen, if_neg Bool.false_ne_true, chosen, if_neg hlen]

/-- The two strings are looked up apart. -/
theorem station_eq (cfg : WiFiConfig) (nvs : NvsStrings σ) (s : σ) :
    (cfg.load nvs s).station
      = (padTo 32 ((if (nvs.getString s kWiFiSsid (List.replicate 32 0)).1
          then cfg.ssid.strncpy (nvs.getString s kWiFiSsid (List.replicate 32 0)).2
          else cfg.ssid).stringAt 0),
        padTo 64 ((if (nvs.getString s kWiFiPass (List.replicate 64 0)).1
          then cfg.password.strncpy (nvs.getString s kWiFiPass (List.replicate 64 0)).2
          else cfg.password).stringAt 0)) := by
  unfold WiFiConfig.load
  dsimp only
  cases (nvs.getString s kWiFiSsid (List.replicate 32 0)).1 <;>
    cases (nvs.getString s kWiFiPass (List.replicate 64 0)).1 <;> rfl

section

variable {nvs : NvsFlash σ} {view : σ → NvsMap} {d : ConfiguredDevice σ}
  {t : Vault Space PlainKey StoredValue} (hmap : nvs.IsMap view) (hspaces : TracksSpaces nvs)

include hmap hspaces

/-- **A text that had its tick goes on configuring the device.** -/
theorem run_configures {s : σ} (hempty : ∀ ns key, view s ns key = none)
    (hclosed : ∀ ns, nvs.openReadOnly s ns = false) (first space : Space)
    (before : List ConfigUse) {json : List UInt8}
    (plain : ∀ kv ∈ seenPairs json, IsPlain kv.1) {k : PlainKey} {text : List UInt8}
    (htext : lastValue k.1 (seenPairs json) = some text) {after : List ConfigUse}
    (hafter : ∀ use ∈ after, use.spares space k) :
    ∃ d t, run (ConfiguredDevice.step nvs) { nvs := { namespace_ := first.1, partition := s } }
        (configuring space before json plain after) = some d
      ∧ Configures nvs view space k text d t := by
  -- whatever came before leaves a vault
  have hbefore : ∀ d use, (∃ t, Configured nvs view d t) →
      ∃ d', ConfiguredDevice.step nvs d use = some d' ∧ ∃ t, Configured nvs view d' t := by
    rintro d use ⟨t, ht⟩
    exact step_configured hmap hspaces ht use
  have hfresh : Configured nvs view { nvs := { namespace_ := first.1, partition := s } }
      { space := first } :=
    ⟨⟨rfl, fresh_kept hempty hclosed first⟩,
      fun kv hkv => absurd hkv (by simp [ConfiguredDevice.due])⟩
  obtain ⟨d₁, hrun₁, t₁, hd₁⟩ := run_returns _ hbefore before ⟨_, hfresh⟩
  -- the start enters the space, and the text is due
  obtain ⟨t₂, s₂, -, hspace, hinit, hkept⟩ := hd₁.manages.kept.start hmap hspaces space
  let d₂ : ConfiguredDevice σ := { d₁ with nvs := { namespace_ := space.1, partition := s₂ } }
  have hstart : d₁.step nvs (.nvs (.init space)) = some d₂ := by
    rw [ConfiguredDevice.step, managerStep, hinit]
    rfl
  let d₃ : ConfiguredDevice σ := { d₂ with config := d₂.config.applyRemoteConfig json }
  have hdue : d₃.due = seenPairs json := by
    rw [ConfiguredDevice.due, due_submitted]
    rfl
  have hd₃ : Configured nvs view d₃ t₂ := by
    refine ⟨⟨congrArg Subtype.val hspace.symm, hkept⟩, fun kv hkv => ?_⟩
    rw [hdue] at hkv
    exact ⟨plain kv hkv, seenPairs_length json kv hkv⟩
  -- the tick writes it
  obtain ⟨d₄, t₄, htick, hd₄, hdue₄, hlast, -⟩ := tick_configured hmap hspaces hd₃
  have hstring : HasString t₄ space k text := hspace ▸ hlast k text (by rw [hdue]; exact htext)
  have hnext : ∀ d (use : ConfigUse), (∃ t, Configures nvs view space k text d t) →
      use.spares space k → ∃ d', ConfiguredDevice.step nvs d use = some d'
        ∧ ∃ t, Configures nvs view space k text d' t := by
    rintro d use ⟨t, ht⟩ huse
    exact step_configures hmap hspaces ht huse
  obtain ⟨d', hrun', t', hd'⟩ := run_returns_along _ hnext
    ⟨t₄, hd₄, hstring, by rw [hdue₄]; rfl⟩
    (along_of_forall fun use huse _ => hafter use huse)
  refine ⟨d', t', ?_, hd'⟩
  rw [configuring, run_append hrun₁, run, hstart]
  show run (ConfiguredDevice.step nvs) d₃ (.tick :: after) = some d'
  rw [run, htick]
  exact hrun'

/--
**What was configured from afar reaches the radio.** In every run of the device from an erased
partition: a text submitted after a start and ticked decides, by the last pairs it has for the two
keys, what `WiFiModule::init` hands to esp-wifi from then on, over writes of other keys, texts
without these, backups, shutdowns and starts in the same namespace. A name or a password that is
too long for its buffer leaves the one that was configured.
-/
theorem credentials_reach_radio {s : σ} (hempty : ∀ ns key, view s ns key = none)
    (hclosed : ∀ ns, nvs.openReadOnly s ns = false) (first space : Space)
    (before after : List ConfigUse) {json ssid pass : List UInt8}
    (plain : ∀ kv ∈ seenPairs json, IsPlain kv.1)
    (hssid : lastValue kWiFiSsid (seenPairs json) = some ssid)
    (hpass : lastValue kWiFiPass (seenPairs json) = some pass)
    (hafter : ∀ use ∈ after, use.spares space ssidKey ∧ use.spares space passKey)
    (cfg : WiFiConfig) :
    ∃ d, run (ConfiguredDevice.step nvs) { nvs := { namespace_ := first.1, partition := s } }
        (configuring space before json plain after) = some d
      ∧ d.station nvs cfg = (padTo 32 (chosen 31 ssid (cfg.ssid.stringAt 0)),
        padTo 64 (chosen 63 pass (cfg.password.stringAt 0))) := by
  obtain ⟨d, t, hrun, hd⟩ := run_configures (k := ssidKey) hmap hspaces hempty hclosed first space
    before plain hssid fun use huse => (hafter use huse).1
  obtain ⟨d', t', hrun', hd'⟩ := run_configures (k := passKey) hmap hspaces hempty hclosed first
    space before plain hpass fun use huse => (hafter use huse).2
  obtain rfl : d = d' := Option.some.inj (hrun.symm.trans hrun')
  have hfirst := stringAt_chosen cfg.ssid (seenPairs_ne_zero (lastValue_mem hssid))
    (getString_configures hmap hd 31)
  have hsecond := stringAt_chosen cfg.password (seenPairs_ne_zero (lastValue_mem hpass))
    (getString_configures hmap hd' 63)
  refine ⟨d, hrun, ?_⟩
  rw [ConfiguredDevice.station, station_eq]
  exact congrArg₂ Prod.mk (congrArg (padTo 32) hfirst) (congrArg (padTo 64) hsecond)

end

/-- `wifi_ssid=ap;wifi_pass=pw` -/
def apText : List UInt8 :=
  kWiFiSsid ++ ascii ['=', 'a', 'p', ';'] ++ kWiFiPass ++ ascii ['=', 'p', 'w']

theorem apText_plain : ∀ kv ∈ seenPairs apText, IsPlain kv.1 := by decide +kernel

/-- The device is shut down and started again, another key written before and after. -/
theorem credentials_reach_radio_restart :
    ∃ d, run (ConfiguredDevice.step spaceNvs)
        { nvs := { namespace_ := taktSpace.1, partition := {} } }
        (configuring taktSpace [.nvs (setA 1)] apText apText_plain
          [.nvs (setA 2), .shutdown, .nvs (.init taktSpace)]) = some d
      ∧ d.station spaceNvs {} = (padTo 32 (ascii ['a', 'p']), padTo 64 (ascii ['p', 'w'])) := by
  have hafter : ∀ use ∈ [ConfigUse.nvs (setA 2), .shutdown, .nvs (.init taktSpace)],
      use.spares taktSpace ssidKey ∧ use.spares taktSpace passKey := by
    intro use huse
    simp only [List.mem_cons, List.not_mem_nil, or_false] at huse
    rcases huse with rfl | rfl | rfl
    · exact ⟨rfl, rfl⟩
    · exact ⟨trivial, trivial⟩
    · exact ⟨rfl, rfl⟩
  have hssid : lastValue kWiFiSsid (seenPairs apText) = some (ascii ['a', 'p']) := by
    decide +kernel
  have hpass : lastValue kWiFiPass (seenPairs apText) = some (ascii ['p', 'w']) := by
    decide +kernel
  exact credentials_reach_radio spaceNvs_isMap spaceNvs_tracksSpaces (s := {})
    (fun ns key => by simp [ListNvs.view]) (fun _ => rfl) taktSpace taktSpace [.nvs (setA 1)] _
    apText_plain hssid hpass hafter {}

end TaktOS.Proof
