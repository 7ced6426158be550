import TaktOS.Proof.NvsVault

/-!
# Runs of the NVS manager

From an erased partition on, whatever is done with the manager is answered as the vault answers,
in any order of calls, namespaces, backups, restores, starts and factory resets. So what a backup
saw is what a restore brings back, into whatever namespace the manager is in by then.
-/

namespace TaktOS.Proof

open Lib
open NvsManager.Esp32

variable {σ : Type} {nvs : NvsFlash σ} {view : σ → NvsMap} {s : σ} {d d' : NvsDevice σ}
  {t : Vault Space PlainKey StoredValue}

/-- A getter looks, and leaves the partition alone. -/
theorem looked (h : ManagesVault nvs view d t) (k : PlainKey) {use : NvsUse}
    (hasked : use.asked = .look k)
    (hstep : managerStep nvs d use = some (use.told (.found (t.entries t.space k)), d)) :
    ∃ answer d' t', managerStep nvs d use = some (answer, d') ∧ vaultSpec t use answer t'
      ∧ ManagesVault nvs view d' t' :=
  ⟨_, _, t, hstep, ⟨_, by rw [hasked]; exact .look, rfl⟩, h⟩

section

variable (hmap : nvs.IsMap view) (hspaces : TracksSpaces nvs)

include hmap hspaces

theorem call_allowed (h : ManagesVault nvs view d t) (c : NvsCall) (plain : c.Plain) :
    ∃ answer d' t', managerStep nvs d (.call c plain) = some (answer, d')
      ∧ vaultSpec t (.call c plain) answer t' ∧ ManagesVault nvs view d' t' := by
  obtain ⟨ns, partition⟩ := d
  obtain ⟨rfl, hkept⟩ := h
  cases c with
  | set key value version =>
    have hput := hkept.put hmap hspaces ⟨key, plain.1⟩ ⟨value.data, version, plain.2⟩
    rw [managerStep, onDevice, value.call_eq]
    exact ⟨_, _, _, rfl, ⟨_, .put, congrArg NvsAnswer.done hput.1⟩, rfl, hput.2⟩
  | getBlob key buf version =>
    refine looked ⟨rfl, hkept⟩ ⟨key, plain⟩ rfl ?_
    have hread := hkept.getBlob hmap ⟨key, plain⟩ buf version
    rw [managerStep, onDevice]
    dsimp only at hread ⊢
    rw [hread]
    rfl
  | getU8 key value =>
    refine looked ⟨rfl, hkept⟩ ⟨key, plain⟩ rfl ?_
    have hread := hkept.read hmap ⟨key, plain⟩ [value] 0
    rw [managerStep, onDevice, getU8]
    dsimp only at hread ⊢
    rw [hread]
    rfl
  | getU16 key value =>
    refine looked ⟨rfl, hkept⟩ ⟨key, plain⟩ rfl ?_
    have hread := hkept.read hmap ⟨key, plain⟩ (leHalfBytes value) 0
    rw [managerStep, onDevice, getU16]
    dsimp only at hread ⊢
    rw [hread]
    rfl
  | getU32 key value =>
    refine looked ⟨rfl, hkept⟩ ⟨key, plain⟩ rfl ?_
    have hread := hkept.read hmap ⟨key, plain⟩ (leBytes value) 0
    rw [managerStep, onDevice, getU32]
    dsimp only at hread ⊢
    rw [hread]
    rfl
  | getString key buf =>
    refine looked ⟨rfl, hkept⟩ ⟨key, plain⟩ rfl ?_
    have hread := hkept.read hmap ⟨key, plain⟩ buf 0
    rw [managerStep, onDevice, getString]
    dsimp only at hread ⊢
    rw [hread]
    rfl
  | remove key =>
    have hdrop := hkept.drop hmap hspaces ⟨key, plain⟩
    exact ⟨_, _, _, rfl, ⟨_, .drop, congrArg NvsAnswer.done hdrop.1⟩, rfl, hdrop.2⟩
  | eraseAll => exact plain.elim

/-- **Whatever is done with the manager, it answers, and the vault allows the answer.** -/
theorem managerStep_allowed (h : ManagesVault nvs view d t) (use : NvsUse) :
    ∃ answer d' t', managerStep nvs d use = some (answer, d') ∧ vaultSpec t use answer t'
      ∧ ManagesVault nvs view d' t' := by
  cases use with
  | call c plain => exact call_allowed hmap hspaces h c plain
  | init space =>
    obtain ⟨t', s', hstep, hspace, hinit, hkept⟩ := h.kept.start hmap hspaces space
    rw [managerStep, hinit]
    exact ⟨_, _, t', rfl, ⟨_, hstep, rfl⟩, congrArg Subtype.val hspace.symm, hkept⟩
  | backup =>
    obtain ⟨ns, partition⟩ := d
    obtain ⟨rfl, hkept⟩ := h
    obtain ⟨ok, t', hstep, hspace, hok, hkept'⟩ := hkept.save hmap hspaces
    exact ⟨_, _, t', rfl, ⟨_, hstep, congrArg NvsAnswer.done hok⟩,
      congrArg Subtype.val hspace.symm, hkept'⟩
  | restoreFromBackup =>
    obtain ⟨ns, partition⟩ := d
    obtain ⟨rfl, hkept⟩ := h
    obtain ⟨ok, t', hstep, hspace, hok, hkept'⟩ := hkept.restore hmap hspaces
    exact ⟨_, _, t', rfl, ⟨_, hstep, congrArg NvsAnswer.done hok⟩,
      congrArg Subtype.val hspace.symm, hkept'⟩
  | factoryReset space =>
    -- the start after the erasure finds no namespace and no backup
    have herased : HoldsVault nvs view (eraseAll nvs d.partition).2 { space } :=
      fresh_kept (fun ns key => congrFun (congrFun (hmap.flashErase d.partition).2 ns) key)
        (fun ns => hspaces.flashErase d.partition ns) space
    obtain ⟨t', s', hstep, hspace, hinit, hkept⟩ := herased.start hmap hspaces space
    have ht' : t' = { space } := by
      cases hstep with
      | enter _ => rfl
      | enterNew _ hc => exact absurd hc Bool.false_ne_true
    subst ht'
    refine ⟨.done true, ⟨space.1, s'⟩, _, ?_, ⟨_, .wipe, rfl⟩, rfl, hkept⟩
    rw [managerStep]
    dsimp only
    rw [hinit]
    rfl

/-- A run from a partition that holds what a vault does. -/
theorem uses_allowed (h : ManagesVault nvs view d t) (uses : List NvsUse) :
    ∃ h d' t', history (managerStep nvs) d uses = some (h, d') ∧ h.map Prod.fst = uses
      ∧ vaultSpec.Allows t h t' ∧ ManagesVault nvs view d' t' := by
  obtain ⟨h, d', t', hrun, hops, hallows, hmanages⟩ := history_allowed (managerStep nvs) vaultSpec
    (ManagesVault nvs view) (fun _ _ => True) id (fun d t use hd _ => by
      exact managerStep_allowed hmap hspaces hd use) h
    (along_of_forall fun _ _ _ => trivial : Along (silent (managerStep nvs)) _ d uses)
  exact ⟨h, d', t', hrun, hops, by simpa using hallows, hmanages⟩

/--
**The NVS manager is a vault.** From an erased partition on, every run of starts, calls, backups,
restores and factory resets, in any order and in any namespaces, is answered as a vault answers:
one value a key and namespace, one store of backups. What the partition is kept in, two blobs an
entry under keys that the suffix tells apart, is never seen.
-/
theorem manager_refines_vault (hempty : ∀ ns key, view s ns key = none)
    (hclosed : ∀ ns, nvs.openReadOnly s ns = false) (space : Space) (uses : List NvsUse) :
    ∃ h d' t', history (managerStep nvs) { namespace_ := space.1, partition := s } uses
        = some (h, d')
      ∧ h.map Prod.fst = uses ∧ vaultSpec.Allows { space } h t'
      ∧ ManagesVault nvs view d' t' :=
  uses_allowed hmap hspaces (⟨rfl, fresh_kept hempty hclosed space⟩ :
    ManagesVault nvs view { namespace_ := space.1, partition := s } { space }) uses

end

/-- The namespace that `init` takes when it is given none. -/
def taktSpace : Space := ⟨NvsManager.defaultNamespace, by decide⟩

def otherSpace : Space := ⟨ascii ['o'], by decide⟩

def keyA : PlainKey := ⟨ascii ['a'], by decide⟩

def setA (value : UInt8) : NvsUse :=
  .call (.set keyA.1 (.setU8 value) 1)
    ⟨keyA.2, by simp [NvsSetter.data], by simp [NvsSetter.data]⟩

def readA : NvsUse := .call (.getU8 keyA.1 0) keyA.2

def removeA : NvsUse := .call (.remove keyA.1) keyA.2

/-- A value is set and backed up, another one set; a start in another namespace finds the first. -/
def startElsewhere : List NvsUse :=
  [.init taktSpace, setA 1, .backup, setA 2, .init otherSpace, readA, .init taktSpace, readA]

theorem manager_refines_vault_elsewhere :
    ∃ h d' t', history (managerStep spaceNvs) { namespace_ := taktSpace.1, partition := {} }
        startElsewhere = some (h, d')
      ∧ h.map Prod.snd = [.done true, .done true, .done true, .done true, .done true, .u8 true 1,
        .done true, .u8 true 2]
      ∧ vaultSpec.Allows { space := taktSpace } h t' := by
  obtain ⟨h, d', t', hrun, -, hallows, -⟩ := manager_refines_vault spaceNvs_isMap
    spaceNvs_tracksSpaces (s := {}) (fun ns key => by simp [ListNvs.view]) (fun _ => rfl)
    taktSpace startElsewhere
  have hanswers : (history (managerStep spaceNvs)
      { namespace_ := taktSpace.1, partition := {} } startElsewhere).map
        (fun h => h.1.map Prod.snd)
      = some [.done true, .done true, .done true, .done true, .done true, .u8 true 1,
        .done true, .u8 true 2] := by decide +kernel
  rw [hrun] at hanswers
  exact ⟨h, d', t', hrun, Option.some.inj hanswers, hallows⟩

/-! ## What a backup saw -/

theorem saved_between {t t' : Vault Space PlainKey StoredValue} {h : List (NvsUse × NvsAnswer)}
    (hallows : vaultSpec.Allows t h t') (hops : ∀ x ∈ h, x.1.asked.resaves = false) {k : PlainKey}
    {v : StoredValue} (hs : t.Saves k v) : t'.Saves k v := by
  refine Spec.Allows.preserves (fun t => t.Saves k v)
    (fun use : NvsUse => use.asked.resaves = false) (fun t use answer t' hs hop hspec => ?_)
    hallows hops hs
  obtain ⟨r, hstep, -⟩ := hspec
  exact hstep.saves hop hs

theorem stands_after {t t' : Vault Space PlainKey StoredValue} {h : List (NvsUse × NvsAnswer)}
    {k : PlainKey} (hallows : vaultSpec.Allows t h t')
    (hops : ∀ x ∈ h, x.1.asked.touches k = false) {v : StoredValue} (hs : t.Stands k v) :
    t'.Stands k v := by
  refine Spec.Allows.preserves (fun t => t.Stands k v)
    (fun use : NvsUse => use.asked.touches k = false) (fun t use answer t' hs hop hspec => ?_)
    hallows hops hs
  obtain ⟨r, hstep, -⟩ := hspec
  exact hstep.stands hop hs

section

variable (hmap : nvs.IsMap view) (hspaces : TracksSpaces nvs)

include hmap

/-- What can be read is what the vault has. -/
theorem ManagesVault.reads (h : ManagesVault nvs view d t) (k : PlainKey) {data : List UInt8}
    {version : UInt16} : ReadsBack nvs d.namespace_ d.partition k.1 data version
      ↔ ∃ v, t.entries t.space k = some v ∧ v.data = data ∧ v.version = version := by
  rw [readsBack_iff hmap, h.space]
  have hstores := h.kept.entries t.space
  constructor
  · rintro ⟨bytes, hmeta, _, hdata, _, hversion⟩
    rw [hstores.blob, Option.map_eq_some_iff] at hdata
    obtain ⟨v, hv, rfl⟩ := hdata
    rw [hstores.blob_meta, hv, Option.map_some, Option.some.injEq] at hmeta
    refine ⟨v, hv, rfl, ?_⟩
    rw [← hmeta, NvsEntry.ofBytes_make] at hversion
    exact hversion
  · rintro ⟨v, hv, rfl, rfl⟩
    exact (hstores.written k v hv).holds

include hspaces

/-- A run to a state is one that the vault allows. -/
theorem run_allowed (h : ManagesVault nvs view d t) {uses : List NvsUse}
    (hrun : run (silent (managerStep nvs)) d uses = some d') :
    ∃ h t', h.map Prod.fst = uses ∧ vaultSpec.Allows t h t' ∧ ManagesVault nvs view d' t' := by
  obtain ⟨h, d'', t', hhist, hops, hallows, hmanages⟩ := uses_allowed hmap hspaces h uses
  obtain rfl : d'' = d' := Option.some.inj ((history_run hhist).symm.trans hrun)
  exact ⟨h, t', hops, hallows, hmanages⟩

/--
**A restore brings back what the last backup saw.** In every run from an erased partition: what can
be read under a key when a backup is made can be read, with its version, after a restore, whatever
was set, removed or started in between and whatever namespace the manager is in by then, as long as
no other backup and no factory reset came between; and it can be read from then on while the key is
left alone and the namespace is not changed.
-/
theorem backup_brings_back (hempty : ∀ ns key, view s ns key = none)
    (hclosed : ∀ ns, nvs.openReadOnly s ns = false) (space : Space)
    {before : List NvsUse} (between after : List NvsUse)
    (hbefore : run (silent (managerStep nvs)) { namespace_ := space.1, partition := s } before
      = some d)
    (k : PlainKey) {data : List UInt8} {version : UInt16}
    (hread : ReadsBack nvs d.namespace_ d.partition k.1 data version)
    (hbetween : ∀ use ∈ between, use.asked.resaves = false)
    (hafter : ∀ use ∈ after, use.asked.touches k = false)
    (hrun : run (silent (managerStep nvs)) d
      (.backup :: between ++ .restoreFromBackup :: after) = some d') :
    ReadsBack nvs d'.namespace_ d'.partition k.1 data version := by
  have hfresh : ManagesVault nvs view { namespace_ := space.1, partition := s } { space } :=
    ⟨rfl, fresh_kept hempty hclosed space⟩
  obtain ⟨-, t, -, -, hd⟩ := run_allowed hmap hspaces hfresh hbefore
  obtain ⟨v, hv, rfl, rfl⟩ := (hd.reads hmap k).mp hread
  obtain ⟨h, t', hops, hallows, hd'⟩ := run_allowed hmap hspaces hd hrun
  refine (hd'.reads hmap k).mpr ⟨v, ?_, rfl, rfl⟩
  -- the backup saves the value
  cases hallows with
  | nil => exact absurd hops (by simp)
  | @cons _ t₁ _ use answer h₁ hs hrest =>
    rw [List.map_cons, List.cons_append] at hops
    obtain ⟨rfl, hops₁⟩ := List.cons.inj hops
    obtain ⟨r, hstep, -⟩ := hs
    have hsaved : t₁.Saves k v := hstep.save_saves hv
    -- nothing in between changes what is saved
    obtain ⟨h₂, h₃, rfl, hmap₂, hmap₃⟩ := List.map_eq_append_iff.mp hops₁
    obtain ⟨t₂, hmid, hend⟩ := hrest.split
    have hsaved₂ : t₂.Saves k v := saved_between hmid (fun x hx => hbetween x.1 (by
      rw [← hmap₂]
      exact List.mem_map_of_mem hx)) hsaved
    cases hend with
    | nil => exact absurd hmap₃ (by simp)
    | @cons _ t₃ _ use₂ answer₂ h₄ hs₂ hrest₂ =>
      rw [List.map_cons] at hmap₃
      obtain ⟨rfl, hmap₄⟩ := List.cons.inj hmap₃
      obtain ⟨r₂, hstep₂, -⟩ := hs₂
      -- the restore puts it back, and there it stays
      have hstands : t₃.Stands k v := ⟨hstep₂.restores hsaved₂, hstep₂.saves rfl hsaved₂⟩
      exact (stands_after hrest₂ (fun x hx => hafter x.1 (by
        rw [← hmap₄]
        exact List.mem_map_of_mem hx)) hstands).entry

end

/-- The value is backed up, set anew and removed; a restore elsewhere brings back the first. -/
theorem backup_brings_back_elsewhere :
    ∃ d' : NvsDevice ListNvs, ReadsBack spaceNvs otherSpace.1 d'.partition keyA.1 [1] 1 := by
  have hrun : (run (silent (managerStep spaceNvs))
      { namespace_ := taktSpace.1, partition := {} } [setA 1]).bind (fun d =>
        (run (silent (managerStep spaceNvs)) d (.backup :: [setA 2, removeA, .init otherSpace]
          ++ .restoreFromBackup :: [readA])).map fun d' =>
          (d.namespace_, d.partition.view.blob taktSpace.1 keyA.1,
            d.partition.view.blob taktSpace.1 (metaKey keyA.1), d'.namespace_))
      = some (taktSpace.1, some [1], some (NvsEntry.make keyA.1 [1] 1).toBytes, otherSpace.1) := by
    decide +kernel
  obtain ⟨d, hbefore, hrest⟩ := Option.bind_eq_some_iff.mp hrun
  obtain ⟨d', hafter, heq⟩ := Option.map_eq_some_iff.mp hrest
  simp only [Prod.mk.injEq] at heq
  obtain ⟨hns, hdata, hmeta, hns'⟩ := heq
  have hread : ReadsBack spaceNvs d.namespace_ d.partition keyA.1 [1] 1 := by
    rw [hns]
    exact (readsBack_iff spaceNvs_isMap).mpr
      (show d.partition.view.Written taktSpace.1 keyA.1 [1] 1 from ⟨hmeta, hdata⟩).holds
  have hback := backup_brings_back spaceNvs_isMap spaceNvs_tracksSpaces (s := {})
    (fun ns key => by simp [ListNvs.view]) (fun _ => rfl) taktSpace
    [setA 2, removeA, .init otherSpace] [readA] hbefore keyA hread (by decide) (by decide) hafter
  rw [hns'] at hback
  exact ⟨d', hback⟩

end TaktOS.Proof
