import Mathlib.Data.List.Dedup
import TaktOS.Kernel.NvsManager

/-!
# What NVS is assumed to do

The partition is opaque; every result about the device build assumes that it is a map: a
namespace maps keys of at most 15 characters to values, each write is one update of the map that
is there from then on, and longer keys are refused. `view` is the map a state of the partition
stands for.

`mapNvs` is such a partition, kept as a list.
-/

namespace TaktOS

/-- What NVS holds under a key. -/
inductive NvsValue where
  | blob (data : List UInt8)
  | u32 (value : UInt32)
  deriving DecidableEq, Repr

/-- The content of a partition, by namespace and key. -/
abbrev NvsMap := Name → Name → Option NvsValue

/-- The map with one key of one namespace set, or erased. -/
def NvsMap.set (m : NvsMap) (ns key : Name) (v : Option NvsValue) : NvsMap :=
  fun ns' key' => if ns' = ns ∧ key' = key then v else m ns' key'

/-- The blob under a key. -/
def NvsMap.blob (m : NvsMap) (ns key : Name) : Option (List UInt8) :=
  match m ns key with
  | some (.blob data) => some data
  | _ => none

/-- The map after a blob was set: a key too long is refused. -/
def NvsMap.put (m : NvsMap) (ns key : Name) (data : List UInt8) : NvsMap :=
  if key.length ≤ 15 then m.set ns key (some (.blob data)) else m

variable {σ : Type}

/-- NVS, its calls succeeding, is a map from keys of at most 15 characters. -/
structure NvsFlash.IsMap (nvs : NvsFlash σ) (view : σ → NvsMap) : Prop where
  flashInit : ∀ s, (nvs.flashInit s).1 = .ok ∧ view (nvs.flashInit s).2 = view s
  flashErase : ∀ s, (nvs.flashErase s).1 = true ∧ view (nvs.flashErase s).2 = fun _ _ => none
  short : ∀ s ns key, view s ns key ≠ none → key.length ≤ 15
  /-- A namespace with an entry can be opened. -/
  readable : ∀ s ns key, view s ns key ≠ none → nvs.openReadOnly s ns = true
  openReadWrite : ∀ s ns, ns.length ≤ 15 →
    (nvs.openReadWrite s ns).1 = true ∧ view (nvs.openReadWrite s ns).2 = view s
  getBlob : ∀ s ns key maxLen,
    nvs.getBlob s ns key maxLen = ((view s).blob ns key).filter (·.length ≤ maxLen)
  blobLength : ∀ s ns key, nvs.blobLength s ns key = ((view s).blob ns key).map List.length
  getU32 : ∀ s ns key, nvs.getU32 s ns key
    = match view s ns key with
      | some (.u32 value) => some value
      | _ => none
  setBlob : ∀ s ns key data, (nvs.setBlob s ns key data).1 = decide (key.length ≤ 15) ∧
    view (nvs.setBlob s ns key data).2 = (view s).put ns key data
  setU32 : ∀ s ns key value, key.length ≤ 15 →
    view (nvs.setU32 s ns key value).2 = (view s).set ns key (some (.u32 value))
  eraseKey : ∀ s ns key, view (nvs.eraseKey s ns key).2 = (view s).set ns key none
  commit : ∀ s ns, (nvs.commit s ns).1 = true ∧ view (nvs.commit s ns).2 = view s
  /-- The iterator goes through every entry, in any order. -/
  mem_entries : ∀ s ns key, key ∈ nvs.entries s ns ↔ view s ns key ≠ none
  nodup_entries : ∀ s ns, (nvs.entries s ns).Nodup

/-! ## Reading a set map -/

@[simp] theorem NvsMap.set_self (m : NvsMap) (ns key : Name) (v : Option NvsValue) :
    m.set ns key v ns key = v := if_pos ⟨rfl, rfl⟩

theorem NvsMap.set_other_key (m : NvsMap) {ns ns' key key' : Name} {v : Option NvsValue}
    (h : key' ≠ key) : m.set ns key v ns' key' = m ns' key' := if_neg fun hc => h hc.2

theorem NvsMap.set_other_ns (m : NvsMap) {ns ns' key key' : Name} {v : Option NvsValue}
    (h : ns' ≠ ns) : m.set ns key v ns' key' = m ns' key' := if_neg fun hc => h hc.1

theorem NvsMap.put_other_key (m : NvsMap) {ns ns' key key' : Name} {data : List UInt8}
    (h : key' ≠ key) : m.put ns key data ns' key' = m ns' key' := by
  unfold put
  split
  · exact set_other_key m h
  · rfl

theorem NvsMap.put_other_ns (m : NvsMap) {ns ns' key key' : Name} {data : List UInt8}
    (h : ns' ≠ ns) : m.put ns key data ns' key' = m ns' key' := by
  unfold put
  split
  · exact set_other_ns m h
  · rfl

theorem NvsMap.put_self (m : NvsMap) {ns key : Name} (data : List UInt8) (h : key.length ≤ 15) :
    m.put ns key data ns key = some (.blob data) := by
  rw [put, if_pos h, set_self]

/-- Setting a blob leaves no other value behind. -/
theorem NvsMap.put_cases (m : NvsMap) (ns key : Name) (data : List UInt8) (ns' key' : Name) :
    m.put ns key data ns' key' = m ns' key'
      ∨ m.put ns key data ns' key' = some (.blob data) := by
  by_cases hns : ns' = ns
  · by_cases hkey : key' = key
    · by_cases hlen : key.length ≤ 15
      · rw [hns, hkey]
        exact Or.inr (put_self m data hlen)
      · rw [put, if_neg hlen]
        exact Or.inl rfl
    · exact Or.inl (put_other_key m hkey)
  · exact Or.inl (put_other_ns m hns)

theorem NvsMap.blob_congr {m m' : NvsMap} {ns key : Name} (h : m' ns key = m ns key) :
    m'.blob ns key = m.blob ns key := by
  rw [blob, blob, h]

@[simp] theorem NvsMap.blob_set_self (m : NvsMap) (ns key : Name) (data : List UInt8) :
    (m.set ns key (some (.blob data))).blob ns key = some data := by
  rw [blob, set_self]

theorem NvsMap.blob_put_self (m : NvsMap) {ns key : Name} (data : List UInt8)
    (h : key.length ≤ 15) : (m.put ns key data).blob ns key = some data := by
  rw [blob, put_self m data h]

theorem NvsMap.blob_eq_some {m : NvsMap} {ns key : Name} {data : List UInt8} :
    m.blob ns key = some data ↔ m ns key = some (.blob data) := by
  unfold blob
  split
  · rename_i data' h
    rw [h, Option.some_inj, Option.some_inj, NvsValue.blob.injEq]
  · rename_i h
    exact ⟨fun hc => absurd hc (by simp), fun hc => absurd hc (h data)⟩

/-! ## A partition kept as a list -/

/-- The namespaces that were made, and the entries, latest first. -/
structure ListNvs where
  spaces : List Name := []
  items : List ((Name × Name) × NvsValue) := []
  deriving DecidableEq, Repr

namespace ListNvs

def view (s : ListNvs) : NvsMap := fun ns key =>
  if key.length ≤ 15 then s.items.lookup (ns, key) else none

def erase (s : ListNvs) (ns key : Name) : ListNvs :=
  { s with items := s.items.filter fun item => item.1 ≠ (ns, key) }

def put (s : ListNvs) (ns key : Name) (v : NvsValue) : Bool × ListNvs :=
  if key.length ≤ 15 then
    (true, { s with items := ((ns, key), v) :: (s.erase ns key).items })
  else (false, s)

/-- A namespace exists once it was opened for writing, and while it holds an entry. -/
def hasSpace (s : ListNvs) (ns : Name) : Bool :=
  s.spaces.contains ns || s.items.any fun item => item.1.1 == ns

end ListNvs

def mapNvs : NvsFlash ListNvs where
  flashInit s := (.ok, s)
  flashErase _ := (true, {})
  openReadOnly s ns := s.hasSpace ns
  openReadWrite s ns := (true, { s with spaces := ns :: s.spaces })
  getBlob s ns key maxLen := (s.view.blob ns key).filter (·.length ≤ maxLen)
  blobLength s ns key := (s.view.blob ns key).map List.length
  getU32 s ns key :=
    match s.view ns key with
    | some (.u32 value) => some value
    | _ => none
  setBlob s ns key data := s.put ns key (.blob data)
  setU32 s ns key value := s.put ns key (.u32 value)
  eraseKey s ns key := ((s.view ns key).isSome, s.erase ns key)
  commit s _ := (true, s)
  entries s ns :=
    (s.items.map fun item => item.1.2).dedup.filter fun key => (s.view ns key).isSome

namespace ListNvs

theorem lookup_filter (items : List ((Name × Name) × NvsValue)) (k k' : Name × Name) :
    (items.filter fun item => item.1 ≠ k).lookup k'
      = if k' = k then none else items.lookup k' := by
  induction items with
  | nil => simp
  | cons item items ih =>
    obtain ⟨k₀, v⟩ := item
    by_cases h₀ : k₀ = k
    · subst h₀
      rw [List.filter_cons_of_neg (by simp), ih]
      by_cases hk : k' = k₀
      · simp [hk]
      · simp [hk, List.lookup_cons, beq_eq_false_iff_ne.mpr hk]
    · rw [List.filter_cons_of_pos (by simpa using h₀), List.lookup_cons, List.lookup_cons, ih]
      by_cases hk : k' = k
      · subst hk
        simp [beq_eq_false_iff_ne.mpr (Ne.symm h₀)]
      · simp [hk]

theorem view_erase (s : ListNvs) (ns key : Name) :
    (s.erase ns key).view = s.view.set ns key none := by
  funext ns' key'
  unfold view erase NvsMap.set
  dsimp only
  rw [lookup_filter]
  by_cases h : ns' = ns ∧ key' = key
  · have hk : (ns', key') = (ns, key) := by rw [h.1, h.2]
    rw [if_pos h, if_pos hk]
    split <;> rfl
  · have hk : (ns', key') ≠ (ns, key) :=
      fun he => h ⟨congrArg (fun p => p.1) he, congrArg (fun p => p.2) he⟩
    rw [if_neg h, if_neg hk]

theorem view_put (s : ListNvs) (ns : Name) {key : Name} (v : NvsValue) (hk : key.length ≤ 15) :
    (s.put ns key v).2.view = s.view.set ns key (some v) := by
  have herase := view_erase s ns key
  rw [put, if_pos hk]
  funext ns' key'
  have hat := congrFun (congrFun herase ns') key'
  unfold view NvsMap.set at hat ⊢
  dsimp only at hat ⊢
  rw [List.lookup_cons]
  by_cases h : ns' = ns ∧ key' = key
  · rw [if_pos h, h.1, h.2, if_pos hk]
    simp
  · rw [if_neg h] at hat ⊢
    have hne : ((ns', key') == (ns, key)) = false := beq_eq_false_iff_ne.mpr
      fun he => h ⟨congrArg (fun p => p.1) he, congrArg (fun p => p.2) he⟩
    rw [hne]
    exact hat

/-- What is looked up is on the list. -/
theorem mem_of_view {s : ListNvs} {ns key : Name} (h : s.view ns key ≠ none) :
    ∃ v, ((ns, key), v) ∈ s.items := by
  unfold view at h
  split at h
  · obtain ⟨v, hv⟩ := Option.ne_none_iff_exists'.mp h
    obtain ⟨before, after, hsplit, _⟩ := List.lookup_eq_some_iff.mp hv
    exact ⟨v, by rw [hsplit]; simp⟩
  · exact absurd rfl h

end ListNvs

/-- **The list is a map.** -/
theorem mapNvs_isMap : mapNvs.IsMap ListNvs.view where
  flashInit := fun _ => ⟨rfl, rfl⟩
  flashErase := by
    intro s
    refine ⟨rfl, ?_⟩
    funext ns key
    show ListNvs.view {} ns key = none
    simp [ListNvs.view]
  short := by
    intro s ns key h
    unfold ListNvs.view at h
    split at h
    · assumption
    · exact absurd rfl h
  readable := by
    intro s ns key h
    obtain ⟨v, hmem⟩ := ListNvs.mem_of_view h
    show s.hasSpace ns = true
    rw [ListNvs.hasSpace, Bool.or_eq_true]
    exact Or.inr (List.any_eq_true.mpr ⟨_, hmem, beq_self_eq_true ns⟩)
  openReadWrite := fun _ _ _ => ⟨rfl, rfl⟩
  getBlob := fun _ _ _ _ => rfl
  blobLength := fun _ _ _ => rfl
  getU32 := fun _ _ _ => rfl
  setBlob := by
    intro s ns key data
    by_cases hk : key.length ≤ 15
    · rw [NvsMap.put, if_pos hk]
      have hput := ListNvs.view_put s ns (.blob data) hk
      refine ⟨?_, hput⟩
      show (s.put ns key (.blob data)).1 = _
      rw [ListNvs.put, if_pos hk, decide_eq_true hk]
    · have hput : mapNvs.setBlob s ns key data = (false, s) := if_neg hk
      rw [hput, NvsMap.put, if_neg hk, decide_eq_false hk]
      exact ⟨rfl, rfl⟩
  setU32 := fun s ns key value hk => ListNvs.view_put s ns (.u32 value) hk
  eraseKey := fun s ns key => ListNvs.view_erase s ns key
  commit := fun _ _ => ⟨rfl, rfl⟩
  mem_entries := by
    intro s ns key
    show key ∈ List.filter _ _ ↔ _
    rw [List.mem_filter, Option.isSome_iff_ne_none, List.mem_dedup, List.mem_map]
    constructor
    · exact fun h => h.2
    · intro h
      obtain ⟨v, hmem⟩ := ListNvs.mem_of_view h
      exact ⟨⟨_, hmem, rfl⟩, h⟩
  nodup_entries := fun s ns => (List.nodup_dedup _).filter _

end TaktOS
