/-!
# The shared CRC-32

`Crc32` of `crc32.hpp` and `crc32.cpp`: the table-driven CRC with the reflected
IEEE polynomial. The table is built once in the source, on the first call, as `LazyTable`
has it; everything else computes an entry where it is used.
-/

namespace TaktOS.Crc32

/-- One round of `initTable`'s inner loop. -/
def tableStep (crc : UInt32) : UInt32 :=
  if crc &&& 1 = 1 then (crc >>> 1) ^^^ 0xEDB88320 else crc >>> 1

/-- `table[i]`. -/
def table (i : UInt32) : UInt32 :=
  tableStep (tableStep (tableStep (tableStep (tableStep (tableStep (tableStep (tableStep i)))))))

def initial : UInt32 := 0xFFFFFFFF

def finalize (crc : UInt32) : UInt32 := crc ^^^ 0xFFFFFFFF

/-- One iteration of the byte loop of `update`. -/
def updateByte (crc : UInt32) (b : UInt8) : UInt32 :=
  table ((crc ^^^ b.toUInt32) &&& 0xFF) ^^^ (crc >>> 8)

def update (crc : UInt32) (data : List UInt8) : UInt32 := data.foldl updateByte crc

def compute (data : List UInt8) : UInt32 := finalize (update initial data)

/-! ## The table as it is built -/

/-- `table` and `tableInit`. -/
structure LazyTable where
  entries : Fin 256 → UInt32 := fun _ => 0
  tableInit : Bool := false

namespace LazyTable

def initTable (t : LazyTable) : LazyTable :=
  if t.tableInit then t
  else {
    entries := (List.finRange 256).foldl
      (fun entries i j => if j = i then table (UInt32.ofNat i.val) else entries j) t.entries
    tableInit := true }

/-- The index of an entry in `update`. -/
def index (crc : UInt32) (b : UInt8) : Fin 256 :=
  ⟨((crc ^^^ b.toUInt32) &&& 0xFF).toNat, by
    rw [UInt32.toNat_and]
    exact Nat.lt_of_le_of_lt Nat.and_le_right (by decide)⟩

/-- `Crc32::update`, and the table it leaves. -/
def update (t : LazyTable) (crc : UInt32) (data : List UInt8) : UInt32 × LazyTable :=
  let t := t.initTable
  (data.foldl (fun crc b => t.entries (index crc b) ^^^ (crc >>> 8)) crc, t)

/-- `Crc32::compute`, and the table it leaves. -/
def compute (t : LazyTable) (data : List UInt8) : UInt32 × LazyTable :=
  let (crc, t) := t.update initial data
  (finalize crc, t)

end LazyTable

@[simp] theorem update_nil (crc : UInt32) : update crc [] = crc := rfl

/-- **The CRC of a string cut in two is the CRC of the whole**, which is what lets the
firmware cache fold chunks as they arrive and read the image back in its own pieces. -/
theorem update_append (crc : UInt32) (xs ys : List UInt8) :
    update crc (xs ++ ys) = update (update crc xs) ys := List.foldl_append

/-- The known value the repository's own test checks: the ASCII digits `1` to `9`. -/
example : compute [49, 50, 51, 52, 53, 54, 55, 56, 57] = 0xCBF43926 := by decide +kernel

end TaktOS.Crc32
