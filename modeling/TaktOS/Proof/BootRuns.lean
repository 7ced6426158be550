import TaktOS.Proof.BootRecord

/-!
# Many boots in a row

The boot record is all that one boot leaves to the next, and of it only the counter and the
stored mode move: a boot adds one to the counter, in eight bits, and leaves the mode alone.
-/

namespace TaktOS.Proof

open Bootloader

variable {δ : Type}

/-! ## Runs -/

/-- What happens to the boot record. -/
inductive BootEvent (δ : Type) where
  | boot (env : BootEnv δ)
  | requestOtaBoot (slot : UInt8)
  | markBootSuccessful

/-- The record an event leaves. -/
def afterEvent (stored : BootConfig) : BootEvent δ → BootConfig
  | .boot env => (entry stored env).stored
  | .requestOtaBoot slot => requestOtaBoot stored slot
  | .markBootSuccessful => markBootSuccessful stored

/-- The record a run leaves. -/
def afterEvents (stored : BootConfig) (events : List (BootEvent δ)) : BootConfig :=
  events.foldl afterEvent stored

def BootEvent.isBoot : BootEvent δ → Bool
  | .boot _ => true
  | _ => false

/-- How many boots a run contains. -/
def boots (events : List (BootEvent δ)) : Nat := events.countP BootEvent.isBoot

theorem boots_append (pre post : List (BootEvent δ)) :
    boots (pre ++ post) = boots pre + boots post := List.countP_append

theorem boots_boot (env : BootEnv δ) (post : List (BootEvent δ)) :
    boots (.boot env :: post) = boots post + 1 := List.countP_cons_of_pos rfl

/-- One more boot, in eight bits. -/
theorem counted_toNat (stored : BootConfig) :
    (counted stored).bootCount.toNat = ((loaded stored).bootCount.toNat + 1) % 256 :=
  UInt8.toNat_add _ _

/-- **The counter after a run without `markBootSuccessful`**: the boots, modulo 256. -/
theorem count_after (events : List (BootEvent δ)) : ∀ (stored : BootConfig),
    .markBootSuccessful ∉ events →
    (loaded (afterEvents stored events)).bootCount.toNat
      = ((loaded stored).bootCount.toNat + boots events) % 256 := by
  induction events with
  | nil =>
    intro stored _
    have := (loaded stored).bootCount.toNat_lt
    exact (Nat.mod_eq_of_lt this).symm
  | cons ev events ih =>
    intro stored hno
    have hno' : .markBootSuccessful ∉ events := fun h => hno (List.mem_cons_of_mem _ h)
    show (loaded (afterEvents (afterEvent stored ev) events)).bootCount.toNat = _
    rw [ih _ hno']
    cases ev with
    | boot env =>
      rw [afterEvent, loaded_entry, counted_toNat, boots_boot]
      omega
    | requestOtaBoot slot =>
      rw [afterEvent, loaded_request]
      rfl
    | markBootSuccessful => exact absurd List.mem_cons_self hno

/-- **The slot on record is the one last requested**, however many boots came since. -/
theorem otaSlot_after (events : List (BootEvent δ)) : ∀ (stored : BootConfig),
    (∀ slot, .requestOtaBoot slot ∉ events) →
      (loaded (afterEvents stored events)).otaSlot = (loaded stored).otaSlot := by
  induction events with
  | nil => intro stored _; rfl
  | cons ev events ih =>
    intro stored hno
    refine (ih (afterEvent stored ev) (fun slot h => hno slot (List.mem_cons_of_mem _ h))).trans ?_
    cases ev with
    | boot env => rw [afterEvent, loaded_entry]; rfl
    | requestOtaBoot slot => exact absurd List.mem_cons_self (hno slot)
    | markBootSuccessful => rw [afterEvent, loaded_mark]

/-- A boot that ends in recovery by the counter, or by the pin. -/
theorem boot_recovery_iff (stored : BootConfig) (env : BootEnv δ) :
    (entry stored env).mode = .recovery
      ↔ pinLow env = true ∨ 3 < ((loaded stored).bootCount.toNat + 1) % 256 := by
  rw [entry_mode, mode_recovery_iff, loaded_entry, ← counted_toNat]
  exact Iff.rfl

/-- The two modes that `determineBootMode` takes from the record. -/
theorem entry_mode_iff {m : BootMode} (hm : m = .otaPending ∨ m = .factoryReset)
    (stored : BootConfig) (env : BootEnv δ) :
    (entry stored env).mode = m
      ↔ pinLow env = false ∧ ¬ 3 < ((loaded stored).bootCount.toNat + 1) % 256
        ∧ (loaded stored).mode = m.toByte := by
  have hcount : (counted stored).bootCount > 3
      ↔ 3 < ((loaded stored).bootCount.toNat + 1) % 256 := by
    rw [← counted_toNat]
    exact Iff.rfl
  rw [entry_mode, ← hcount, ← and_assoc]
  rcases hm with rfl | rfl
  · rw [mode_otaPending_iff, FollowsRecord, loaded_entry]
    exact Iff.rfl
  · rw [mode_factoryReset_iff, FollowsRecord, loaded_entry]
    exact Iff.rfl

/-! ## Functions that return and should not -/

/-- The boot gets to `enterRecovery`, by way of either branch that calls it. -/
def ToRecovery (stored : BootConfig) (env : BootEnv δ) : Prop :=
  pinLow env = true ∨ 3 < ((loaded stored).bootCount.toNat + 1) % 256 ∨ (loaded stored).mode = 3

/-- The boot gets to `enterEmergency`. -/
def ToEmergency (stored : BootConfig) (env : BootEnv δ) : Prop :=
  ¬ ToRecovery stored env ∧ (loaded stored).mode ≠ 2 ∧ (validateFirmware env 0).1 = false
    ∧ (validateFirmware (validateFirmware env 0).2 1).1 = false

/-- There is a recovery partition to restart into. -/
def HasRecovery : BootEnv δ → Prop
  | .host _ _ => False
  | .esp32 _ ota => ota.recovery ≠ none

def OnDevice : BootEnv δ → Prop
  | .host _ _ => False
  | .esp32 _ _ => True

/-- What the boot gets to does not return. -/
structure NeverReturns (stored : BootConfig) (env : BootEnv δ) : Prop where
  recovery : ToRecovery stored env → HasRecovery env
  emergency : ToEmergency stored env → OnDevice env

theorem enterRecovery_defined_iff (env : BootEnv δ) :
    enterRecovery env ≠ .undefined ↔ HasRecovery env := by
  cases env with
  | host => simp [enterRecovery, HasRecovery]
  | esp32 gpio0 ota =>
    rw [enterRecovery, HasRecovery]
    cases ota.recovery <;> simp

theorem enterEmergency_defined_iff (env : BootEnv δ) :
    enterEmergency env ≠ .undefined ↔ OnDevice env := by
  cases env <;> simp [enterEmergency, OnDevice]

theorem jumpToFirmware_defined (env : BootEnv δ) (flashOffset : UInt32) :
    jumpToFirmware env flashOffset ≠ .undefined := by
  cases env with
  | host => simp [jumpToFirmware]
  | esp32 gpio0 ota =>
    rw [jumpToFirmware]
    cases ota.nextUpdate <;> cases ota.running <;> simp

/-- Validating a slot moves the device to another state at most. -/
theorem platform_entry (stored : BootConfig) (env : BootEnv δ) :
    (HasRecovery (entry stored env).env ↔ HasRecovery env)
      ∧ (OnDevice (entry stored env).env ↔ OnDevice env) := by
  have hvalidate : ∀ (env : BootEnv δ) slot,
      (HasRecovery (validateFirmware env slot).2 ↔ HasRecovery env)
        ∧ (OnDevice (validateFirmware env slot).2 ↔ OnDevice env) := by
    intro env slot
    cases env with
    | host => exact ⟨Iff.rfl, Iff.rfl⟩
    | esp32 gpio0 ota =>
      unfold validateFirmware
      dsimp only
      split
      · exact ⟨Iff.rfl, Iff.rfl⟩
      · split <;> exact ⟨Iff.rfl, Iff.rfl⟩
  have hA := hvalidate env 0
  have hB := hvalidate (validateFirmware env 0).2 1
  have hd := entry_decision stored env
  generalize (entry stored env).mode = mode, (entry stored env).env = env' at hd ⊢
  cases hd with
  | recovery => exact ⟨Iff.rfl, Iff.rfl⟩
  | factoryReset => exact ⟨Iff.rfl, Iff.rfl⟩
  | otaPending => exact ⟨Iff.rfl, Iff.rfl⟩
  | slotA => exact hA
  | slotB => exact ⟨hB.1.trans hA.1, hB.2.trans hA.2⟩
  | emergency => exact ⟨hB.1.trans hA.1, hB.2.trans hA.2⟩

theorem toRecovery_iff (stored : BootConfig) (env : BootEnv δ) :
    ToRecovery stored env
      ↔ (entry stored env).mode = .recovery ∨ (entry stored env).mode = .factoryReset := by
  rw [boot_recovery_iff, entry_mode_iff (Or.inr rfl), ToRecovery]
  by_cases hpin : pinLow env = true
  · simp [hpin]
  · by_cases hcount : 3 < ((loaded stored).bootCount.toNat + 1) % 256
    · simp [hcount]
    · simp [hpin, hcount, BootMode.toByte]

theorem toEmergency_iff (stored : BootConfig) (env : BootEnv δ) :
    ToEmergency stored env ↔ (entry stored env).mode = .emergency := by
  have hmode : (loaded (entry stored env).stored).mode = (loaded stored).mode := by
    rw [loaded_entry]
    rfl
  have hd := entry_decision stored env
  rw [ToEmergency, toRecovery_iff, ← hmode]
  generalize (entry stored env).mode = mode, (entry stored env).env = env' at hd ⊢
  cases hd with
  | recovery => simp
  | factoryReset => simp
  | otaPending _ hota => simp [hota]
  | slotA _ hA => simp [hA]
  | slotB _ _ hB => simp [hB]
  | emergency h hA hB => simp [h.2.2, hA, hB]

/-- **A boot has a defined end exactly when nothing it gets to returns.** -/
theorem exit_defined_iff (stored : BootConfig) (env : BootEnv δ) :
    (entry stored env).exit ≠ .undefined ↔ NeverReturns stored env := by
  have hrec := toRecovery_iff stored env
  have hemergency := toEmergency_iff stored env
  obtain ⟨hpart, hdevice⟩ := platform_entry stored env
  have hstays : NeverReturns stored env
      ↔ (ToRecovery stored env → HasRecovery env) ∧ (ToEmergency stored env → OnDevice env) :=
    ⟨fun h => ⟨h.recovery, h.emergency⟩, fun h => ⟨h.1, h.2⟩⟩
  rw [hstays, hrec, hemergency, entry_exit, ← hpart, ← hdevice]
  cases (entry stored env).mode with
  | normal => simp [jumpToFirmware_defined]
  | recovery => simp [enterRecovery_defined_iff]
  | otaPending => simp [jumpToFirmware_defined]
  | factoryReset => simp [enterRecovery_defined_iff]
  | emergency => simp [enterEmergency_defined_iff]

/-! ## Boot-loop protection -/

/--
**Recovery is sticky**: once a boot of the run found the counter above 3 and selected
recovery, every later boot of the run selects recovery.
-/
def Sticky (stored : BootConfig) (events : List (BootEvent δ)) : Prop :=
  ∀ pre env mid env' post, events = pre ++ .boot env :: (mid ++ .boot env' :: post) →
    (loaded (entry (afterEvents stored pre) env).stored).bootCount > 3 →
    (entry (afterEvents stored pre) env).mode = .recovery →
      (entry (afterEvents stored (pre ++ .boot env :: mid)) env').mode = .recovery

/--
The eight bits suffice: a boot after one with a counter above 3 has a counter above 3, or
finds the pin low.
-/
def CounterHolds (stored : BootConfig) (events : List (BootEvent δ)) : Prop :=
  ∀ pre env mid env' post, events = pre ++ .boot env :: (mid ++ .boot env' :: post) →
    3 < ((loaded stored).bootCount.toNat + boots pre + 1) % 256 →
      pinLow env' = true
        ∨ 3 < ((loaded stored).bootCount.toNat + boots pre + boots mid + 2) % 256

/--
**Boot-loop protection holds until the counter wraps.** In a run of boots and OTA requests
without `markBootSuccessful`, recovery is sticky if and only if the counter, which is the
number of boots modulo 256, stays above 3 once it is, but for boots with the pin held low.
-/
theorem sticky_iff {stored : BootConfig} {events : List (BootEvent δ)}
    (hmark : .markBootSuccessful ∉ events) :
    Sticky stored events ↔ CounterHolds stored events := by
  -- what either boot does, in terms of the counter the run starts with
  have hsplit : ∀ pre env mid env' post,
      events = pre ++ .boot env :: (mid ++ .boot env' :: post) →
      ((loaded (entry (afterEvents stored pre) env).stored).bootCount > 3
          ↔ 3 < ((loaded stored).bootCount.toNat + boots pre + 1) % 256)
        ∧ ((entry (afterEvents stored (pre ++ .boot env :: mid)) env').mode = .recovery
          ↔ pinLow env' = true
            ∨ 3 < ((loaded stored).bootCount.toNat + boots pre + boots mid + 2) % 256) := by
    intro pre env mid env' post he
    have hpre : .markBootSuccessful ∉ pre := fun h => hmark (by rw [he]; simp [h])
    have hmid : .markBootSuccessful ∉ pre ++ .boot env :: mid := fun h => hmark (by
      rw [he]
      rw [List.mem_append, List.mem_cons] at h ⊢
      rcases h with h | h | h
      · exact Or.inl h
      · exact Or.inr (Or.inl h)
      · exact Or.inr (Or.inr (List.mem_append_left _ h)))
    constructor
    · rw [loaded_entry]
      show 3 < (counted (afterEvents stored pre)).bootCount.toNat ↔ _
      rw [counted_toNat, count_after pre stored hpre, Nat.mod_add_mod]
    · rw [boot_recovery_iff, count_after _ stored hmid, boots_append, boots_boot, Nat.mod_add_mod]
      rw [show (loaded stored).bootCount.toNat + (boots pre + (boots mid + 1)) + 1
        = (loaded stored).bootCount.toNat + boots pre + boots mid + 2 by omega]
  constructor
  · intro hs pre env mid env' post he hcount
    obtain ⟨hfirst, hlater⟩ := hsplit pre env mid env' post he
    have hrec : (entry (afterEvents stored pre) env).mode = .recovery := by
      rw [entry_mode, mode_recovery_iff]
      exact Or.inr (hfirst.mpr hcount)
    exact hlater.mp (hs pre env mid env' post he (hfirst.mpr hcount) hrec)
  · intro hc pre env mid env' post he hcount _
    obtain ⟨hfirst, hlater⟩ := hsplit pre env mid env' post he
    exact hlater.mpr (hc pre env mid env' post he (hfirst.mp hcount))

/-- A run too short to wrap the counter is protected. -/
theorem counterHolds_of_no_wrap {stored : BootConfig} {events : List (BootEvent δ)}
    (h : (loaded stored).bootCount.toNat + boots events < 256) : CounterHolds stored events := by
  intro pre env mid env' post he hcount
  have hb : boots events = boots pre + (boots mid + (boots post + 1) + 1) := by
    rw [he, boots_append, boots_boot, boots_append, boots_boot]
  rw [Nat.mod_eq_of_lt (by omega)] at hcount
  exact Or.inr (by rw [Nat.mod_eq_of_lt (by omega)]; omega)

/-- A device with images in both slots, and with a recovery partition. -/
def testOta : EspOta where
  ota0 := some ⟨"ota_0", 0x150000⟩
  ota1 := some ⟨"ota_1", 0x290000⟩
  recovery := some ⟨"recovery", 0x110000⟩
  nextUpdate := some ⟨"ota_0", 0x150000⟩
  running := some ⟨"factory", 0x10000⟩
  description := fun _ => some espAppDescMagicWord
  setBoot := fun _ => true
  boot := ⟨"factory", 0x10000⟩

/-- That device, its pin released. -/
def testDevice : BootEnv (Nat → UInt8) := .esp32 true testOta

/-- A crash loop of a few boots, with an OTA request among them, stays in recovery. -/
theorem sticky_crash_loop :
    Sticky (saveBootConfig { magic := kBootConfigMagic, bootCount := 3 })
      [.boot testDevice, .requestOtaBoot 1, .boot testDevice] :=
  (sticky_iff (by simp)).mpr (counterHolds_of_no_wrap (by decide))

/-- **The 256th boot leaves recovery**: the counter is back at zero. -/
theorem sticky_fails_at_wrap :
    (loadBootConfig (saveBootConfig { magic := kBootConfigMagic, bootCount := 254 })).1 = true
      ∧ ¬ Sticky (saveBootConfig { magic := kBootConfigMagic, bootCount := 254 })
        [.boot testDevice, .boot testDevice] := by
  refine ⟨by decide +kernel, fun h => ?_⟩
  have := h [] testDevice [] testDevice [] rfl (by decide) (by decide)
  exact absurd this (by decide +kernel)

/-! ## Boot requests -/

/-- How often an event erases NVS. -/
def erasedBy (stored : BootConfig) : BootEvent δ → Nat
  | .boot env => (entry stored env).nvsErased.toNat
  | _ => 0

/-- How often a run erases NVS. -/
def nvsErases (stored : BootConfig) : List (BootEvent δ) → Nat
  | [] => 0
  | ev :: events => erasedBy stored ev + nvsErases (afterEvent stored ev) events

/--
**A request for mode `m` is honoured once**: by the boot that comes next, and by no boot after
that unless it finds the counter above 3; and a factory reset erases NVS once. What a boot does
that ends undefined is in no branch, so none of the boots may.
-/
structure HonouredOnce (m : BootMode) (stored : BootConfig) (env : BootEnv δ)
    (events : List (BootEvent δ)) : Prop where
  next : (entry stored env).mode = m
  once : ∀ pre env' post, events = pre ++ .boot env' :: post →
    (entry (afterEvents (entry stored env).stored pre) env').mode = m →
      (loaded (entry (afterEvents (entry stored env).stored pre) env').stored).bootCount > 3
  erased : m = .factoryReset → nvsErases stored (.boot env :: events) = 1
  defined : ∀ pre env' post, .boot env :: events = pre ++ .boot env' :: post →
    (entry (afterEvents stored pre) env').exit ≠ .undefined

/--
The request is not for recovery; every boot but the next comes after a `markBootSuccessful` or
with the counter above 3; and no boot gets to a function that returns.
-/
structure RequestSpent (m : BootMode) (stored : BootConfig) (env : BootEnv δ)
    (events : List (BootEvent δ)) : Prop where
  not_recovery : m ≠ .recovery
  gone : ∀ pre env' post, events = pre ++ .boot env' :: post →
    .markBootSuccessful ∈ pre ∨ 3 < ((loaded stored).bootCount.toNat + boots pre + 2) % 256
  noneReturns : ∀ pre env' post, .boot env :: events = pre ++ .boot env' :: post →
    NeverReturns (afterEvents stored pre) env'

/-- The stored mode stays until a boot is marked successful, and is `Normal` from then on. -/
theorem mode_after (events : List (BootEvent δ)) : ∀ (stored : BootConfig),
    (∀ slot, .requestOtaBoot slot ∉ events) →
      (.markBootSuccessful ∉ events
          ∧ (loaded (afterEvents stored events)).mode = (loaded stored).mode)
        ∨ (.markBootSuccessful ∈ events ∧ (loaded (afterEvents stored events)).mode = 0) := by
  induction events with
  | nil => intro stored _; exact Or.inl ⟨by simp, rfl⟩
  | cons ev events ih =>
    intro stored hno
    have hno' : ∀ slot, .requestOtaBoot slot ∉ events :=
      fun slot h => hno slot (List.mem_cons_of_mem _ h)
    have hrest := ih (afterEvent stored ev) hno'
    show (_ ∧ (loaded (afterEvents (afterEvent stored ev) events)).mode = _)
      ∨ (_ ∧ (loaded (afterEvents (afterEvent stored ev) events)).mode = 0)
    cases ev with
    | boot env =>
      have hsame : (loaded (afterEvent stored (.boot env))).mode = (loaded stored).mode := by
        rw [afterEvent, loaded_entry]
        rfl
      rw [hsame] at hrest
      simpa using hrest
    | requestOtaBoot slot => exact absurd List.mem_cons_self (hno slot)
    | markBootSuccessful =>
      have hzero : (loaded (afterEvent stored (.markBootSuccessful : BootEvent δ))).mode = 0 := by
        rw [afterEvent, loaded_mark]
      rw [hzero] at hrest
      refine Or.inr ⟨List.mem_cons_self, ?_⟩
      rcases hrest with ⟨_, h⟩ | ⟨_, h⟩ <;> exact h

/-- A run none of whose boots erases NVS erases it zero times. -/
theorem nvsErases_eq_zero (events : List (BootEvent δ)) : ∀ (stored : BootConfig),
    (∀ pre env post, events = pre ++ .boot env :: post →
      (entry (afterEvents stored pre) env).nvsErased = false) →
    nvsErases stored events = 0 := by
  induction events with
  | nil => intro stored _; rfl
  | cons ev events ih =>
    intro stored h
    have hrest : nvsErases (afterEvent stored ev) events = 0 := by
      refine ih _ (fun pre env post he => ?_)
      exact h (ev :: pre) env post (by rw [he]; rfl)
    rw [nvsErases, hrest]
    cases ev with
    | boot env =>
      have hfirst : (entry stored env).nvsErased = false := h [] env events rfl
      rw [erasedBy, hfirst]
      rfl
    | requestOtaBoot slot => rfl
    | markBootSuccessful => rfl

section Request

variable {stored : BootConfig} {m : BootMode} {env : BootEnv δ} {events : List (BootEvent δ)}

/--
What a boot after the next one does about a request for a mode the record decides: it takes
the branch again exactly while no boot was marked successful and the counter is low.
-/
theorem later_boot_iff (env : BootEnv δ) (hm : m = .otaPending ∨ m = .factoryReset)
    (hmode : (loaded stored).mode = m.toByte)
    (hpins : ∀ e, .boot e ∈ events → pinLow e = false)
    (hnoreq : ∀ slot, .requestOtaBoot slot ∉ events) {pre post : List (BootEvent δ)}
    {env' : BootEnv δ} (he : events = pre ++ .boot env' :: post) :
    (entry (afterEvents (entry stored env).stored pre) env').mode = m
      ↔ .markBootSuccessful ∉ pre
        ∧ ¬ 3 < ((loaded stored).bootCount.toNat + boots pre + 2) % 256 := by
  have hpin : pinLow env' = false := hpins env' (by rw [he]; simp)
  have hno : ∀ slot, .requestOtaBoot slot ∉ pre :=
    fun slot h => hnoreq slot (by rw [he]; exact List.mem_append_left _ h)
  rw [entry_mode_iff hm]
  rcases mode_after pre (entry stored env).stored hno with ⟨hmark, hkept⟩ | ⟨hmark, hzero⟩
  · -- still the mode of the request
    rw [hkept, loaded_entry, count_after pre _ hmark, loaded_entry, counted_toNat]
    rw [show (((loaded stored).bootCount.toNat + 1) % 256 + boots pre) % 256 + 1
      = ((loaded stored).bootCount.toNat + boots pre + 1) % 256 + 1 by omega]
    rw [Nat.mod_add_mod]
    simp [hpin, hmark, show (counted stored).mode = m.toByte from hmode]
  · -- marked successful: the mode is `Normal`
    have hne : ¬ (0 : UInt8) = m.toByte := by rcases hm with rfl | rfl <;> decide
    rw [hzero]
    simp [hmark, hne]

/--
**A boot request is honoured exactly once if it is not for recovery and does not linger.**
With the pin released, for a record with mode `Recovery`, `OtaPending` or `FactoryReset` and a
counter of at most 2, however it was saved, and any run of boots and `markBootSuccessful` calls
after it: the request is honoured once if and only if it is not for recovery, which no record
can ask for, every later boot comes after a `markBootSuccessful` or finds the counter above 3, and
all boots that get to recovery or to the emergency console stay there.
-/
theorem honoured_once_iff (hm : m = .recovery ∨ m = .otaPending ∨ m = .factoryReset)
    (hmode : (loaded stored).mode = m.toByte) (hcount : (loaded stored).bootCount ≤ 2)
    (hpin : pinLow env = false) (hpins : ∀ e, .boot e ∈ events → pinLow e = false)
    (hnoreq : ∀ slot, .requestOtaBoot slot ∉ events) :
    HonouredOnce m stored env events ↔ RequestSpent m stored env events := by
  have hlow : (loaded stored).bootCount.toNat ≤ 2 := UInt8.le_iff_toNat_le.mp hcount
  have hcount3 : ¬ 3 < ((loaded stored).bootCount.toNat + 1) % 256 := by omega
  rcases hm with hrec | hm
  · -- the next boot cannot select recovery
    constructor
    · intro h
      have hnext := h.next
      rw [hrec, boot_recovery_iff] at hnext
      rcases hnext with hp | hc
      · exact absurd (hpin.symm.trans hp) (by simp)
      · exact absurd hc hcount3
    · intro h
      exact absurd hrec h.not_recovery
  · -- the next boot takes the branch, so the question is what the later ones do
    have hnext : (entry stored env).mode = m :=
      (entry_mode_iff hm stored env).mpr ⟨hpin, hcount3, hmode⟩
    constructor
    · intro h
      refine ⟨by rcases hm with rfl | rfl <;> decide, fun pre env' post he => ?_,
        fun pre env' post he => (exit_defined_iff _ env').mp (h.defined pre env' post he)⟩
      by_cases hmark : .markBootSuccessful ∈ pre
      · exact Or.inl hmark
      · refine Or.inr (Classical.byContradiction fun hlt => ?_)
        have hagain := (later_boot_iff env hm hmode hpins hnoreq he).mpr ⟨hmark, hlt⟩
        have hhigh := h.once pre env' post he hagain
        rw [entry_mode_iff hm] at hagain
        rw [loaded_entry] at hhigh
        have hhigh' : 3 < (counted (afterEvents (entry stored env).stored pre)).bootCount.toNat :=
          hhigh
        rw [counted_toNat] at hhigh'
        exact hagain.2.1 hhigh'
    · rintro ⟨_, hspent, hstays⟩
      have hnot : ∀ pre env' post, events = pre ++ .boot env' :: post →
          (entry (afterEvents (entry stored env).stored pre) env').mode ≠ m := by
        intro pre env' post he hagain
        obtain ⟨hmark, hlt⟩ := (later_boot_iff env hm hmode hpins hnoreq he).mp hagain
        rcases hspent pre env' post he with h | h
        · exact hmark h
        · exact hlt h
      refine ⟨hnext, fun pre env' post he hagain => absurd hagain (hnot pre env' post he), ?_,
        fun pre env' post he => (exit_defined_iff _ env').mpr (hstays pre env' post he)⟩
      intro hfactory
      have hfirst : (entry stored env).nvsErased = true :=
        (entry_nvsErased stored env).mpr (hnext.trans hfactory)
      have hrest : nvsErases (entry stored env).stored events = 0 := by
        refine nvsErases_eq_zero events _ (fun pre env' post he => ?_)
        rw [← Bool.not_eq_true, entry_nvsErased, ← hfactory]
        exact hnot pre env' post he
      rw [nvsErases, erasedBy, afterEvent, hrest, hfirst]
      rfl

end Request

/-- A factory reset whose boot is marked successful erases NVS once. -/
theorem honoured_once_marked :
    HonouredOnce .factoryReset (saveBootConfig { magic := kBootConfigMagic, mode := 3 }) testDevice
      [.markBootSuccessful, .boot testDevice] := by
  refine (honoured_once_iff (Or.inr (Or.inr rfl)) (by decide) (by decide) rfl
    (by simp [pinLow, testDevice]) (by simp)).mpr ⟨by decide, ?_, ?_⟩
  · intro pre env post he
    cases pre with
    | nil => exact absurd he (by simp)
    | cons ev pre =>
      rw [List.cons_append, List.cons.injEq] at he
      exact Or.inl (he.1 ▸ List.mem_cons_self)
  · intro pre env post he
    have hmem : BootEvent.boot env
        ∈ [.boot testDevice, .markBootSuccessful, .boot testDevice] := by
      rw [he]
      simp
    obtain rfl : env = testDevice := by simpa using hmem
    exact ⟨fun _ => by simp [HasRecovery, testDevice, testOta], fun _ => trivial⟩

/--
**A factory reset erases NVS three times.** Nothing clears the request, so the boots that
follow take its branch again until the counter is above 3.
-/
theorem factory_reset_erases_again :
    (nvsErases (saveBootConfig { magic := kBootConfigMagic, mode := 3 })
        [.boot testDevice, .boot testDevice, .boot testDevice] = 3)
      ∧ ¬ HonouredOnce .factoryReset (saveBootConfig { magic := kBootConfigMagic, mode := 3 })
        testDevice [.boot testDevice, .boot testDevice] := by
  refine ⟨by decide, fun h => ?_⟩
  exact absurd (h.erased rfl) (by decide)

end TaktOS.Proof
