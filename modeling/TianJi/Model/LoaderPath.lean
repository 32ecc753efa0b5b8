import Mathlib.Algebra.Order.BigOperators.Group.List
import Mathlib.Algebra.Order.Group.Nat
import TianJi.Lib.Joined
import TianJi.Model.DevicePathMemory

/-!
# TianJi — the loader's path as a string

`OcCopyDevicePathFullName` (OcDevicePathLib.c) makes one string of the file path nodes of a
device path: a first walk measures it, a second one copies the names. Both run over the bytes
of the path alone, so that a read outside its nodes has no result. What is measured at a node
is its name without the last character (`cutName`), whether that is a terminator or not.

* `FullNameSize_path`     — the measured size.
* `copyNames_path`        — where every node has room for a character, as much is copied.
* `copyNames_short`       — where one has not, the copy leaves the path.
* `loaderPath_copied_iff` — when the string is what the nodes say.
-/

namespace TianJi.Model

open Bytes Memory Memory.Region Joined

-- ---------------------------------------------------------------------------
-- The code
-- ---------------------------------------------------------------------------

namespace PathMemory

def SIZE_OF_FILEPATH_DEVICE_PATH : UINTN := 4

/-- `FilePath->PathName[Index]` -/
def PathName (m : PathMemory) (FilePath Index : UINTN) : Option CHAR16 :=
  m.ReadUnaligned16 (FilePath + SIZE_OF_FILEPATH_DEVICE_PATH + 2 * Index)

/-- "Account for more than one termination character": the loop over `Len`. -/
def stripTerminators (m : PathMemory) (FilePath : UINTN) : Nat → Option Nat
  | 0 => some 0
  | Len + 1 => do
    if (← m.PathName FilePath (UInt64.ofNat Len)) = 0 then m.stripTerminators FilePath Len
    else return Len + 1

/-- The length of the name in characters. `Size / 2 - 1` wraps around where there is no room for
one. -/
def OcFileDevicePathNameLen (m : PathMemory) (FilePath : UINTN) : Option UINTN := do
  let Size := (← m.DevicePathNodeLength FilePath) - SIZE_OF_FILEPATH_DEVICE_PATH
  let Len := Size / 2 - 1
  return UInt64.ofNat (← m.stripTerminators FilePath Len.toNat)

/-- The loop of `OcFileDevicePathFullNameLen`, for a number of turns. -/
def fullNameLen (m : PathMemory) : Nat → UINTN → UINTN → Option UINTN
  | 0, _, _ => none
  | turns + 1, DevicePath, PathLength => do
    if ← m.isFilePath DevicePath then
      let PathLength := PathLength + ((← m.OcFileDevicePathNameLen DevicePath) + 1)
      let DevicePath ← m.NextDevicePathNode DevicePath
      if ← m.IsDevicePathEnd DevicePath then return PathLength - 1
      else m.fullNameLen turns DevicePath PathLength
    else return 0

/-- No walk that ends takes more turns than there are bytes. -/
def OcFileDevicePathFullNameLen (m : PathMemory) (DevicePath : UINTN) : Option UINTN :=
  m.fullNameLen m.length DevicePath 0

/-- The size in bytes, with a terminator, or 0. -/
def OcFileDevicePathFullNameSize (m : PathMemory) (DevicePath : UINTN) : Option UINTN := do
  let Len ← m.OcFileDevicePathFullNameLen DevicePath
  if Len = 0 then return 0 else return (Len + 1) * 2

/-- The `Length` bytes from an address on. -/
def bytesFrom (m : PathMemory) (p : UINTN) : Nat → Option (List UINT8)
  | 0 => some []
  | Length + 1 => do return (← m.byte p) :: (← m.bytesFrom (p + 1) Length)

/-- `CopyMem` from the path into the block. -/
def CopyMem (m : PathMemory) (block : Region UINT8) (Destination Source Length : UINTN) :
    Option (Region UINT8) := do
  return block.storeAll (cursor Destination.toNat (← m.bytesFrom Source Length.toNat))

/-- `*p = Char;` -/
def putChar (block : Region UINT8) (p : UINTN) (Char : CHAR16) : Region UINT8 :=
  block.storeAll (cursor p.toNat (uint16Bytes Char))

/-- The loop of `OcFileDevicePathFullName`, for a number of turns. `PathName` counts from the
start of the block. -/
def copyNames (m : PathMemory) : Nat → UINTN → UINTN → Region UINT8 → Option (Region UINT8)
  | 0, _, _, _ => none
  | turns + 1, PathName, FilePath, block => do
    let PathLen ← m.OcFileDevicePathNameLen FilePath
    let block ← m.CopyMem block PathName (FilePath + SIZE_OF_FILEPATH_DEVICE_PATH) (PathLen * 2)
    let PathName := PathName + PathLen * 2
    let block := putChar block PathName 0x5C
    let PathName := PathName + 2
    let FilePath ← m.NextDevicePathNode FilePath
    if ← m.IsDevicePathEnd FilePath then return putChar block (PathName - 2) 0
    else m.copyNames turns PathName FilePath block

/-- Copies the names. The caller has measured the block. -/
def OcFileDevicePathFullName (m : PathMemory) (block : Region UINT8) (FilePath : UINTN) :
    Option (Region UINT8) :=
  m.copyNames m.length 0 FilePath block

end PathMemory

/-- What `OcCopyDevicePathFullName` gives back: the first node that names a file, and the block
with the name and the size that was allocated for it. -/
structure FullName where
  FileDevicePath : Option UINTN
  Path : Option (UINTN × Region UINT8)

namespace PathMemory

/-- The body of the loop at a node that names a file. -/
def fullNameAt (m : PathMemory) (pool : Option ByteBuffer) (CurrNode : UINTN) :
    Option FullName := do
  let PathSize ← m.OcFileDevicePathFullNameSize CurrNode
  if PathSize = 0 then return ⟨some CurrNode, none⟩
  else
    match pool with
    | none => return ⟨some CurrNode, none⟩
    | some memory =>
      return ⟨some CurrNode, some (PathSize, ← m.OcFileDevicePathFullName (fresh memory) CurrNode)⟩

/-- The loop of `OcCopyDevicePathFullName`, for a number of turns. -/
def findFullName (m : PathMemory) (pool : Option ByteBuffer) : Nat → UINTN → Option FullName
  | 0, _ => none
  | turns + 1, CurrNode => do
    if ← m.IsDevicePathEnd CurrNode then return ⟨none, none⟩
    else if ← m.isFilePath CurrNode then m.fullNameAt pool CurrNode
    else m.findFullName pool turns (← m.NextDevicePathNode CurrNode)

/-- With what the pool gives: a block with some contents, or nothing. -/
def OcCopyDevicePathFullName (m : PathMemory) (pool : Option ByteBuffer) : Option FullName :=
  m.findFullName pool m.length 0

end PathMemory

-- ---------------------------------------------------------------------------
-- What the string is meant to be
-- ---------------------------------------------------------------------------

/-- The whole characters in some bytes. -/
def wholeChars : List UINT8 → List CHAR16
  | [] => []
  | [_] => []
  | low :: high :: rest => PathMemory.ofBytes low high :: wholeChars rest

namespace DevicePathNode

/-- What the node holds, read as characters. -/
def PathName (n : DevicePathNode) : List CHAR16 := wholeChars n.data

/-- The name that the node is meant to have. -/
def name (n : DevicePathNode) : List CHAR16 := strip 0 n.PathName

/-- The name as `OcFileDevicePathNameLen` measures it: the last character counts as a
terminator, whatever it is. -/
def cutName (n : DevicePathNode) : List CHAR16 := strip 0 n.PathName.dropLast

/-- What the node adds to the measured length. Where it has no room for a character, the length
of its name wraps around to the largest number, and 1 is added to that. -/
def slots (n : DevicePathNode) : Nat := if n.data.length < 2 then 0 else n.cutName.length + 1

end DevicePathNode

/-- The names of the file path nodes, joined by single backslashes and terminated. -/
def fullName (path : DevicePath) : List CHAR16 :=
  joined 0x5C 0 ((path.filter DevicePathNode.isFilePath).map DevicePathNode.name)

/-- Only the path's nodes are read; as many bytes are written as were measured, and they are
the full name. -/
def CopiesFullName (path : DevicePath) (pool : Option ByteBuffer) : Prop :=
  ∃ r, PathMemory.OcCopyDevicePathFullName (PathMemory.pathBytes path) pool = some r ∧
    ∀ PathSize block, r.Path = some (PathSize, block) →
      (∀ i, i ∈ block.stores ↔ i < PathSize.toNat) ∧
      PathSize.toNat = 2 * (fullName path).length ∧
      Holds block.cells 0 ((fullName path).flatMap uint16Bytes)

-- ---------------------------------------------------------------------------
-- One node
-- ---------------------------------------------------------------------------

/-!
The length field of a node counts bytes, and its name is not checked for a terminator. A node has
room for some characters (`PathName`), of which the last one is taken for the terminator. The other
ones are looked at from behind until one is not a terminator. A validated node has one byte of data
at least, and with exactly one the subtraction wraps around.
-/

/-- A last odd byte is no character. -/
theorem length_wholeChars (data : List UINT8) : (wholeChars data).length = data.length / 2 := by
  induction data using wholeChars.induct with
  | case1 => rfl
  | case2 b => simp [wholeChars]
  | case3 low high rest ih =>
    rw [wholeChars, List.length_cons, ih, List.length_cons, List.length_cons]
    omega

/-- The bytes of the first `k` characters. -/
theorem flatMap_take_wholeChars {data : List UINT8} {k : Nat} (hk : k ≤ data.length / 2) :
    ((wholeChars data).take k).flatMap uint16Bytes = data.take (2 * k) := by
  induction data using wholeChars.induct generalizing k with
  | case1 =>
    obtain rfl : k = 0 := by simpa using hk
    rfl
  | case2 b =>
    obtain rfl : k = 0 := by simpa using hk
    rfl
  | case3 low high rest ih =>
    cases k with
    | zero => rfl
    | succ k =>
      simp only [List.length_cons] at hk
      rw [wholeChars, List.take_succ_cons, List.flatMap_cons, ih (by omega),
        PathMemory.uint16Bytes_ofBytes, Nat.mul_succ]
      rfl

/-- The two bytes that a character is made of. -/
theorem getElem?_wholeChars {data : List UINT8} {k : Nat} {c : CHAR16}
    (h : (wholeChars data)[k]? = some c) : ∃ low high,
      [low, high] <+: data.drop (2 * k) ∧ PathMemory.ofBytes low high = c := by
  induction data using wholeChars.induct generalizing k with
  | case1 => simp [wholeChars] at h
  | case2 b => simp [wholeChars] at h
  | case3 low high rest ih =>
    cases k with
    | zero =>
      have hFirst : PathMemory.ofBytes low high = c := by simpa [wholeChars] using h
      exact ⟨low, high, ⟨rest, rfl⟩, hFirst⟩
    | succ k => exact ih (by simpa [wholeChars] using h)

namespace PathMemory

variable {m : PathMemory} {p : UINTN} {n : DevicePathNode}

/-- The data lies behind the header. -/
theorem lies_data (h : Lies m p n.bytes) :
    Lies m (p + SIZE_OF_FILEPATH_DEVICE_PATH) n.data := by
  rw [DevicePathNode.bytes, lies_append] at h
  exact h.2

/-- A character is read where the node lies. -/
theorem PathName_node {k : Nat} {c : CHAR16} (h : Lies m p n.bytes)
    (hGet : n.PathName[k]? = some c) : m.PathName p (UInt64.ofNat k) = some c := by
  obtain ⟨low, high, hPrefix, rfl⟩ := getElem?_wholeChars hGet
  have hk : k < n.data.length / 2 := by
    rw [← length_wholeChars]
    exact (List.getElem?_eq_some_iff.mp hGet).1
  have hLies := ((lies_data h).drop (k := 2 * k) (by omega)).restrict hPrefix
  have hAddress : UInt64.ofNat (2 * k) = 2 * UInt64.ofNat k := UInt64.ofNat_mul 2 k
  rw [hAddress] at hLies
  exact ReadUnaligned16_of_lies hLies

/-- Terminators are stripped from the characters in front of `Len`. -/
theorem stripTerminators_node (h : Lies m p n.bytes) {Len : Nat} (hLen : Len ≤ n.PathName.length) :
    m.stripTerminators p Len = some (strip 0 (n.PathName.take Len)).length := by
  induction Len with
  | zero => rfl
  | succ Len ih =>
    have hGet := List.getElem?_eq_getElem (show Len < n.PathName.length by omega)
    rw [stripTerminators, PathName_node h hGet, List.take_succ_eq_append_getElem (by omega), strip]
    by_cases hZero : n.PathName[Len] = 0
    · rw [List.rdropWhile_concat_pos _ _ _ (by simpa using hZero)]
      simpa [hZero, strip] using ih (by omega)
    · rw [List.rdropWhile_concat_neg _ _ _ (by simpa using hZero)]
      simp [hZero]
      omega

/-- The data's size is the node's less the header. -/
theorem size_node (n : DevicePathNode) :
    UInt64.ofNat n.bytes.length - SIZE_OF_FILEPATH_DEVICE_PATH = UInt64.ofNat n.data.length := by
  rw [length_bytes, UInt64.ofNat_add, UInt64.add_comm]
  exact UInt64.add_sub_cancel _ _

/-- With room for a character, the measured length is that of the cut name. -/
theorem NameLen_node (h : Lies m p n.bytes) (hRoom : 2 ≤ n.data.length) :
    m.OcFileDevicePathNameLen p = some (UInt64.ofNat n.cutName.length) := by
  have hData := n.length_lt
  have hLength : n.PathName.length = n.data.length / 2 := length_wholeChars n.data
  have hHalf : (UInt64.ofNat n.data.length / 2).toNat = n.data.length / 2 := by
    rw [UInt64.toNat_div, UInt64.toNat_ofNat_of_lt' (show n.data.length < 2 ^ 64 by omega)]
    rfl
  have hLen : (UInt64.ofNat n.data.length / 2 - 1).toNat = n.PathName.length - 1 := by
    have hOne : (1 : UINTN).toNat = 1 := rfl
    rw [UInt64.toNat_sub_of_le _ _ (by rw [UInt64.le_iff_toNat_le]; omega), hHalf, hLength, hOne]
  rw [OcFileDevicePathNameLen, DevicePathNodeLength_node h]
  simp only [Option.bind_eq_bind, Option.bind_some, size_node, hLen,
    stripTerminators_node h (Nat.sub_le _ _), DevicePathNode.cutName, List.dropLast_eq_take]
  rfl

/-- A node with a single byte behind its header: the length wraps around, and the character in
front of it is the node's own header. -/
theorem NameLen_short (h : Lies m p n.bytes) (hFile : n.isFilePath = true)
    (hShort : n.data.length = 1) : m.OcFileDevicePathNameLen p = some MAX_UINTN := by
  -- twice this index is four less than 2 ^ 65, so that the address goes back over the header
  have hHeader : m.PathName p (UInt64.ofNat (2 ^ 64 - 2)) = some 0x0404 := by
    have hAddress : p + SIZE_OF_FILEPATH_DEVICE_PATH + 2 * UInt64.ofNat (2 ^ 64 - 2) = p := by
      rw [UInt64.add_assoc, show SIZE_OF_FILEPATH_DEVICE_PATH + 2 * UInt64.ofNat (2 ^ 64 - 2) = 0
        by decide, UInt64.add_zero]
    rw [PathName, hAddress]
    rw [DevicePathNode.bytes, List.append_assoc, lies_append] at h
    rw [ReadUnaligned16_of_lies h.1]
    simp only [DevicePathNode.isFilePath, Bool.and_eq_true, decide_eq_true_eq] at hFile
    rw [hFile.1, hFile.2]
    rfl
  have hLen : (UInt64.ofNat 1 / 2 - 1 : UINTN).toNat = 2 ^ 64 - 2 + 1 := by decide
  rw [OcFileDevicePathNameLen, DevicePathNodeLength_node h]
  simp only [Option.bind_eq_bind, Option.bind_some, size_node, hShort, hLen]
  rw [stripTerminators, hHeader]
  rfl

/-- The measured length and the separator. -/
theorem NameLen_slots (h : Lies m p n.bytes) (hFile : n.isFilePath = true) (hData : n.data ≠ []) :
    ∃ Len, m.OcFileDevicePathNameLen p = some Len ∧ Len + 1 = UInt64.ofNat n.slots := by
  by_cases hShort : n.data.length < 2
  · have hOne : n.data.length = 1 := by
      have hPos := List.length_pos_iff.mpr hData
      omega
    refine ⟨MAX_UINTN, NameLen_short h hFile hOne, ?_⟩
    rw [DevicePathNode.slots, if_pos hShort]
    rfl
  · refine ⟨_, NameLen_node h (Nat.not_lt.mp hShort), ?_⟩
    rw [DevicePathNode.slots, if_neg hShort, UInt64.ofNat_add]
    rfl

-- ---------------------------------------------------------------------------
-- The measuring walk
-- ---------------------------------------------------------------------------

/-!
The walk adds up the lengths of the names with a separator for each, and takes the last one off
again. It gives 0 as soon as a node does not name a file. Sums stay in range, since every part is
within its node.
-/

/-- The measured length of some nodes. -/
def total (files : DevicePath) : Nat := (files.map DevicePathNode.slots).sum

/-- A node more. -/
theorem total_cons (n : DevicePathNode) (files : DevicePath) :
    total (n :: files) = n.slots + total files := by
  rw [total, List.map_cons, List.sum_cons, total]

/-- What is measured at a node is within its data. -/
theorem two_mul_slots_le (n : DevicePathNode) : 2 * n.slots ≤ n.data.length := by
  have hCut := length_strip_le 0 n.PathName.dropLast
  rw [List.length_dropLast, DevicePathNode.PathName, length_wholeChars] at hCut
  rw [DevicePathNode.slots, DevicePathNode.cutName, DevicePathNode.PathName]
  split
  · omega
  · omega

/-- So what is measured along a path is within the path. -/
theorem two_mul_total_le (files : DevicePath) : 2 * total files ≤ (pathBytes files).length := by
  induction files with
  | nil => exact Nat.zero_le _
  | cons n files ih =>
    have hSlots := two_mul_slots_le n
    rw [total_cons, pathBytes_cons, List.length_append, length_bytes]
    omega

/-- Whether the walk goes on behind a node. -/
theorem IsDevicePathEnd_path {files : DevicePath} (h : Lies m p (pathBytes files)) :
    m.IsDevicePathEnd p = some files.isEmpty := by
  cases files with
  | nil => exact IsDevicePathEnd_endNode h
  | cons n files => exact IsDevicePathEnd_node (lies_pathBytes_cons h).1

variable {files : DevicePath} {turns : Nat}

/-- File path nodes have room for the two bytes that the validator looks at. -/
def HasData (path : DevicePath) : Prop := ∀ n ∈ path, n.isFilePath = true → n.data ≠ []

/-- `IsDevicePathValid` looks at the last two bytes of such a node, and an empty one shows its
length there. -/
theorem hasData_of_valid {path : DevicePath} (h : Model.IsDevicePathValid path = true) :
    HasData path := by
  intro n hn hFile hData
  have hLast := List.all_eq_true.mp h n hn
  have hBytes : n.bytes.drop (n.bytes.length - 2) = [4, 0] := by
    rw [length_bytes, DevicePathNode.bytes, hData]
    rfl
  rw [hFile, hBytes] at hLast
  cases hLast

/-- One turn at a node that names a file. -/
theorem fullNameLen_file (h : Lies m p (pathBytes (n :: files))) (hFile : n.isFilePath = true)
    (hData : n.data ≠ []) (turns : Nat) (PathLength : UINTN) :
    m.fullNameLen (turns + 1) p PathLength =
      if files.isEmpty then some (PathLength + UInt64.ofNat n.slots - 1)
      else m.fullNameLen turns (p + UInt64.ofNat n.bytes.length)
        (PathLength + UInt64.ofNat n.slots) := by
  obtain ⟨hNode, hRest⟩ := lies_pathBytes_cons h
  obtain ⟨Len, hLen, hSlots⟩ := NameLen_slots hNode hFile hData
  rw [fullNameLen, isFilePath_node hNode, hFile, hLen, NextDevicePathNode_node hNode, ← hSlots]
  simp only [Option.bind_eq_bind, Option.bind_some, if_true, IsDevicePathEnd_path hRest]
  rfl

/-- The walk adds up what the nodes need, as long as they all name files. -/
theorem fullNameLen_path (h : Lies m p (pathBytes (n :: files))) (hData : HasData (n :: files))
    (hTurns : files.length < turns) (PathLength : UINTN) :
    m.fullNameLen turns p PathLength =
      some (if (n :: files).all DevicePathNode.isFilePath then
        PathLength + UInt64.ofNat (total (n :: files)) - 1 else 0) := by
  induction files generalizing n p turns PathLength with
  | nil =>
    obtain ⟨turns, rfl⟩ := Nat.exists_eq_add_of_lt hTurns
    cases hFile : n.isFilePath with
    | false =>
      rw [fullNameLen, isFilePath_node (lies_pathBytes_cons h).1, hFile]
      simp [hFile]
    | true =>
      rw [fullNameLen_file h hFile (hData n List.mem_cons_self hFile)]
      simp [hFile, total]
  | cons n' files ih =>
    obtain ⟨turns, rfl⟩ := Nat.exists_eq_add_of_lt hTurns
    obtain ⟨hNode, hRest⟩ := lies_pathBytes_cons h
    cases hFile : n.isFilePath with
    | false =>
      rw [fullNameLen, isFilePath_node hNode, hFile]
      simp [hFile]
    | true =>
      have hAll : (n :: n' :: files).all DevicePathNode.isFilePath =
          (n' :: files).all DevicePathNode.isFilePath := by
        rw [List.all_cons, hFile, Bool.true_and]
      rw [fullNameLen_file h hFile (hData n List.mem_cons_self hFile), List.isEmpty_cons,
        if_neg Bool.false_ne_true, ih hRest (fun x hx => hData x (List.mem_cons_of_mem n hx))
          (by simp only [List.length_cons]; omega), hAll, total_cons n, UInt64.ofNat_add,
        ← UInt64.add_assoc]

/-- **The measured size.** No size is given to a string of less than a character and its
terminator, or where other nodes follow. -/
theorem FullNameSize_path (h : Lies m p (pathBytes (n :: files))) (hData : HasData (n :: files))
    (hTurns : files.length < m.length) :
    m.OcFileDevicePathFullNameSize p =
      some (if (n :: files).all DevicePathNode.isFilePath ∧ 2 ≤ total (n :: files) then
        UInt64.ofNat (2 * total (n :: files)) else 0) := by
  have hTotal := two_mul_total_le (n :: files)
  have hFits := h.2
  rw [OcFileDevicePathFullNameSize, OcFileDevicePathFullNameLen, fullNameLen_path h hData hTurns,
    UInt64.zero_add]
  cases hAll : (n :: files).all DevicePathNode.isFilePath with
  | false => rfl
  | true =>
    rcases hLength : total (n :: files) with _ | _ | k
    -- 0 can only wrap around to a length whose size is 0 again
    · rfl
    · rfl
    · have hOne : UInt64.ofNat (k + 1 + 1) - 1 = UInt64.ofNat (k + 1) := by
        rw [UInt64.ofNat_add (k + 1)]
        exact UInt64.add_sub_cancel _ _
      have hSome : UInt64.ofNat (k + 1) ≠ 0 := by
        rw [Ne, ← UInt64.toNat_inj, UInt64.toNat_ofNat_of_lt' (show k + 1 < 2 ^ 64 by omega)]
        exact Nat.succ_ne_zero k
      have hSize : (UInt64.ofNat (k + 1) + 1) * 2 = UInt64.ofNat (2 * (k + 1 + 1)) := by
        rw [Nat.mul_comm, UInt64.ofNat_mul, UInt64.ofNat_add (k + 1)]
        rfl
      simp only [if_true, Option.bind_eq_bind, Option.bind_some, hOne, hSome, if_false, hSize]
      rfl

-- ---------------------------------------------------------------------------
-- The copying walk
-- ---------------------------------------------------------------------------

/-!
The same nodes are walked over again. Behind every name a separator is put, and the terminator takes
the place of the last one. The invariant is that the block is filled with some text so far and with
nothing behind it (`Filled`), which is no longer than the part of the path that lies behind.
-/

/-- The bytes of the path are read. -/
theorem bytesFrom_lies {l : List UINT8} (h : Lies m p l) : m.bytesFrom p l.length = some l := by
  induction l generalizing p with
  | nil => rfl
  | cons b l ih =>
    obtain ⟨hFirst, hRest⟩ := (lies_append (l := [b])).mp h
    have hByte : m.byte p = some b := by simpa using byte_of_lies (i := 0) hFirst rfl
    rw [List.length_cons, bytesFrom, hByte, show p + 1 = p + UInt64.ofNat [b].length from rfl,
      ih hRest]
    rfl

/-- A copy that touches an address outside of the path has no result. -/
theorem bytesFrom_none {i k : Nat} (hi : i < k) (h : m.byte (p + UInt64.ofNat i) = none) :
    m.bytesFrom p k = none := by
  induction k generalizing p i with
  | zero => omega
  | succ k ih =>
    rw [bytesFrom]
    cases i with
    | zero =>
      have hByte : m.byte p = none := by simpa using h
      rw [hByte]
      rfl
    | succ i =>
      have hNext : p + UInt64.ofNat (i + 1) = p + 1 + UInt64.ofNat i := by
        rw [Nat.add_comm i, UInt64.ofNat_add, UInt64.add_assoc]
        rfl
      rw [ih (i := i) (by omega) (by rw [← hNext]; exact h)]
      cases m.byte p <;> rfl

/-- The cut name is the beginning of what the node holds. -/
theorem cutName_initial (n : DevicePathNode) : n.cutName <+: n.PathName :=
  (List.rdropWhile_prefix (· == 0) n.PathName.dropLast).trans (List.dropLast_prefix n.PathName)

/-- The cut name and a separator are within the data. -/
theorem two_mul_length_cutName {n : DevicePathNode} (hRoom : 2 ≤ n.data.length) :
    2 * (n.cutName.length + 1) ≤ n.data.length := by
  have hSlots := two_mul_slots_le n
  rwa [DevicePathNode.slots, if_neg (Nat.not_lt.mpr hRoom)] at hSlots

/-- The bytes of the name are the first ones behind the header. -/
theorem flatMap_cutName {n : DevicePathNode} (hRoom : 2 ≤ n.data.length) :
    n.cutName.flatMap uint16Bytes = n.data.take (2 * n.cutName.length) := by
  have hCut := two_mul_length_cutName hRoom
  have hTake : n.cutName = n.PathName.take n.cutName.length :=
    List.prefix_iff_eq_take.mp (cutName_initial n)
  rw [← flatMap_take_wholeChars (show n.cutName.length ≤ n.data.length / 2 by omega),
    ← DevicePathNode.PathName, ← hTake]

/-- The characters that are measured are the ones that are copied. -/
theorem CopyMem_node (h : Lies m p n.bytes) (hRoom : 2 ≤ n.data.length) (block : Region UINT8)
    (PathName : UINTN) :
    m.CopyMem block PathName (p + SIZE_OF_FILEPATH_DEVICE_PATH)
        (UInt64.ofNat n.cutName.length * 2) =
      some (block.storeAll (cursor PathName.toNat (n.cutName.flatMap uint16Bytes))) := by
  have hCut := two_mul_length_cutName hRoom
  have hData := n.length_lt
  have hBytes := bytesFrom_lies ((lies_data h).restrict (List.take_prefix (2 * n.cutName.length) _))
  rw [List.length_take, Nat.min_eq_left (by omega), ← flatMap_cutName hRoom] at hBytes
  have hLength : (UInt64.ofNat n.cutName.length * 2).toNat = 2 * n.cutName.length := by
    rw [show UInt64.ofNat n.cutName.length * 2 = UInt64.ofNat (n.cutName.length * 2) from
      (UInt64.ofNat_mul _ 2).symm, Nat.mul_comm, UInt64.toNat_ofNat_of_lt'
      (show 2 * n.cutName.length < 2 ^ 64 by omega)]
  rw [CopyMem, hLength, hBytes]
  rfl

/-- Some address that a copy of nearly all memory touches is not the path's. -/
theorem CopyMem_short {block : Region UINT8} {PathName : UINTN} (h : Lies m p n.bytes)
    (hMemory : m.length < 2 ^ 64) :
    m.CopyMem block PathName (p + SIZE_OF_FILEPATH_DEVICE_PATH) (MAX_UINTN * 2) = none := by
  have hFits := h.2
  rw [length_bytes] at hFits
  have hLength : (MAX_UINTN * 2).toNat = 2 ^ 64 - 2 := by decide
  have hStart : (p + SIZE_OF_FILEPATH_DEVICE_PATH).toNat = p.toNat + 4 :=
    toNat_add_ofNat (i := 4) (by omega)
  have hOutside : m.byte (p + SIZE_OF_FILEPATH_DEVICE_PATH +
      UInt64.ofNat (2 ^ 64 - 5 - p.toNat)) = none := by
    rw [byte, toNat_add_ofNat (by omega), hStart]
    exact List.getElem?_eq_none (by omega)
  rw [CopyMem, hLength, bytesFrom_none (show 2 ^ 64 - 5 - p.toNat < 2 ^ 64 - 2 by omega) hOutside]
  rfl

variable {block : Region UINT8} {w : List UINT8}

/-- The bytes of the name that is copied. -/
def nameBytes (n : DevicePathNode) : List UINT8 := n.cutName.flatMap uint16Bytes

/-- One turn at a node whose name is copied: the name and a separator, which the terminator
replaces behind the last node. -/
theorem copyNames_node (h : Lies m p (pathBytes (n :: files))) (hRoom : 2 ≤ n.data.length)
    (hFilled : Filled block w) (hw : w.length ≤ p.toNat) (turns : Nat) :
    ∃ block', Filled block' (w ++ nameBytes n ++ uint16Bytes 0x5C) ∧
      m.copyNames (turns + 1) (UInt64.ofNat w.length) p block =
        if files.isEmpty then
          some (block'.storeAll (cursor (w ++ nameBytes n).length (uint16Bytes 0)))
        else m.copyNames turns (UInt64.ofNat (w ++ nameBytes n ++ uint16Bytes 0x5C).length)
          (p + UInt64.ofNat n.bytes.length) block' := by
  obtain ⟨hNode, hRest⟩ := lies_pathBytes_cons h
  have hCut := two_mul_length_cutName hRoom
  have hName : (nameBytes n).length = 2 * n.cutName.length := length_flatMap_uint16Bytes n.cutName
  have hFits : w.length + 2 * n.cutName.length < 2 ^ 64 := by
    have hBytes := hNode.2
    rw [length_bytes] at hBytes
    omega
  have hStart : (UInt64.ofNat w.length).toNat = w.length :=
    UInt64.toNat_ofNat_of_lt' (show w.length < 2 ^ 64 by omega)
  have hBehind : UInt64.ofNat w.length + UInt64.ofNat n.cutName.length * 2 =
      UInt64.ofNat (w ++ nameBytes n).length := by
    rw [List.length_append, hName, Nat.mul_comm, UInt64.ofNat_add, UInt64.ofNat_mul]
    rfl
  have hSeparator : (UInt64.ofNat (w ++ nameBytes n).length).toNat = (w ++ nameBytes n).length := by
    rw [List.length_append, hName]
    exact UInt64.toNat_ofNat_of_lt' hFits
  have hNext : UInt64.ofNat (w ++ nameBytes n).length + 2 =
      UInt64.ofNat (w ++ nameBytes n ++ uint16Bytes 0x5C).length := by
    have hLength : (w ++ nameBytes n ++ uint16Bytes 0x5C).length = (w ++ nameBytes n).length + 2 := by
      rw [List.length_append, length_uint16Bytes]
    rw [hLength, UInt64.ofNat_add]
    rfl
  refine ⟨_, (hFilled.append (nameBytes n)).append (uint16Bytes 0x5C), ?_⟩
  rw [copyNames, NameLen_node hNode hRoom, Option.bind_eq_bind, Option.bind_some,
    CopyMem_node hNode hRoom, NextDevicePathNode_node hNode]
  simp only [Option.bind_eq_bind, Option.bind_some, IsDevicePathEnd_path hRest, hStart, hBehind,
    putChar, hSeparator, UInt64.add_sub_cancel]
  rw [← hNext]
  rfl

/-- **The copying walk.** The names end up joined behind what the block held before. -/
theorem copyNames_path (h : Lies m p (pathBytes (n :: files)))
    (hRoom : ∀ x ∈ n :: files, 2 ≤ x.data.length) (hFilled : Filled block w)
    (hw : w.length ≤ p.toNat) (hTurns : files.length < turns) :
    ∃ block', m.copyNames turns (UInt64.ofNat w.length) p block = some block' ∧
      Filled block' (w ++ (joined 0x5C 0 ((n :: files).map DevicePathNode.cutName)).flatMap
        uint16Bytes) := by
  induction files generalizing n p turns block w with
  | nil =>
    obtain ⟨turns, rfl⟩ := Nat.exists_eq_add_of_lt hTurns
    obtain ⟨block', hFilled', hTurn⟩ :=
      copyNames_node h (hRoom n List.mem_cons_self) hFilled hw (0 + turns)
    refine ⟨_, hTurn, ?_⟩
    -- the last separator is replaced
    have hText : (joined 0x5C 0 [n.cutName]).flatMap uint16Bytes = nameBytes n ++ uint16Bytes 0 := by
      rw [joined_singleton, List.flatMap_append, List.flatMap_singleton, nameBytes]
    rw [List.map_cons, List.map_nil, hText, ← List.append_assoc]
    exact hFilled'.write (by rw [length_uint16Bytes, length_uint16Bytes])
  | cons n' files ih =>
    obtain ⟨turns, rfl⟩ := Nat.exists_eq_add_of_lt hTurns
    have hHead := hRoom n List.mem_cons_self
    obtain ⟨hNode, hRest⟩ := lies_pathBytes_cons h
    obtain ⟨block₁, hFilled₁, hTurn⟩ :=
      copyNames_node h hHead hFilled hw ((n' :: files).length + turns)
    have hw₁ : (w ++ nameBytes n ++ uint16Bytes 0x5C).length ≤
        (p + UInt64.ofNat n.bytes.length).toNat := by
      have hCut := two_mul_length_cutName hHead
      have hName : (nameBytes n).length = 2 * n.cutName.length :=
        length_flatMap_uint16Bytes n.cutName
      rw [toNat_add_ofNat hNode.2, length_bytes, List.length_append, List.length_append,
        length_uint16Bytes, hName]
      omega
    have hLess : files.length < (n' :: files).length + turns := by
      rw [List.length_cons]
      omega
    obtain ⟨block', hRun, hFilled'⟩ :=
      ih hRest (fun x hx => hRoom x (List.mem_cons_of_mem n hx)) hFilled₁ hw₁ hLess
    refine ⟨block', ?_, ?_⟩
    · rw [hTurn, List.isEmpty_cons, if_neg Bool.false_ne_true, hRun]
    · have hText : (joined 0x5C 0 ((n :: n' :: files).map DevicePathNode.cutName)).flatMap uint16Bytes =
          nameBytes n ++ (uint16Bytes 0x5C ++
            (joined 0x5C 0 ((n' :: files).map DevicePathNode.cutName)).flatMap uint16Bytes) := by
        rw [List.map_cons, joined_cons (by simp), List.flatMap_append, List.flatMap_cons, nameBytes]
      rwa [hText, ← List.append_assoc, ← List.append_assoc]

/-- A node without room for a character makes the copy leave the path. -/
theorem copyNames_short (h : Lies m p (pathBytes (n :: files))) (hMemory : m.length < 2 ^ 64)
    (hFiles : ∀ x ∈ n :: files, x.isFilePath = true ∧ x.data ≠ [])
    (hShort : ∃ x ∈ n :: files, x.data.length < 2) (turns : Nat) (PathName : UINTN) :
    m.copyNames turns PathName p block = none := by
  induction turns generalizing n files p PathName block with
  | zero => rfl
  | succ turns ih =>
    obtain ⟨hNode, hRest⟩ := lies_pathBytes_cons h
    by_cases hHead : n.data.length < 2
    · -- nearly all memory is copied here
      obtain ⟨hFile, hData⟩ := hFiles n List.mem_cons_self
      have hOne : n.data.length = 1 := by
        have hPos := List.length_pos_iff.mpr hData
        omega
      rw [copyNames, NameLen_short hNode hFile hOne, Option.bind_eq_bind, Option.bind_some,
        CopyMem_short hNode hMemory]
      rfl
    · obtain ⟨x, hx, hxShort⟩ := hShort
      have hTail : x ∈ files := (List.mem_cons.mp hx).resolve_left fun hEq => hHead (hEq ▸ hxShort)
      cases files with
      | nil => cases hTail
      | cons n' files =>
        rw [copyNames, NameLen_node hNode (Nat.not_lt.mp hHead), Option.bind_eq_bind,
          Option.bind_some, CopyMem_node hNode (Nat.not_lt.mp hHead), NextDevicePathNode_node hNode]
        simp only [Option.bind_eq_bind, Option.bind_some, IsDevicePathEnd_path hRest,
          List.isEmpty_cons, Bool.false_eq_true, if_false]
        exact ih hRest (fun y hy => hFiles y (List.mem_cons_of_mem n hy)) ⟨x, hTail, hxShort⟩ _

-- ---------------------------------------------------------------------------
-- The whole function
-- ---------------------------------------------------------------------------

/-- The nodes from the first one on that names a file. -/
def fileNodes (path : DevicePath) : DevicePath := path.dropWhile fun n => !n.isFilePath

variable {path : DevicePath}

/-- The search ends here. -/
theorem fileNodes_of_file (h : n.isFilePath = true) : fileNodes (n :: path) = n :: path := by
  simp [fileNodes, h]

/-- The search goes on. -/
theorem fileNodes_of_other (h : n.isFilePath = false) :
    fileNodes (n :: path) = fileNodes path := by
  simp [fileNodes, h]

/-- The search stops at the first node that names a file. -/
theorem findFullName_path (pool : Option ByteBuffer) (h : Lies m p (pathBytes path))
    (hTurns : path.length < turns) :
    (fileNodes path = [] ∧ m.findFullName pool turns p = some ⟨none, none⟩) ∨
    ∃ q n files, fileNodes path = n :: files ∧ Lies m q (pathBytes (n :: files)) ∧
      m.findFullName pool turns p = m.fullNameAt pool q := by
  induction path generalizing p turns with
  | nil =>
    obtain ⟨turns, rfl⟩ := Nat.exists_eq_add_of_lt hTurns
    refine Or.inl ⟨rfl, ?_⟩
    rw [findFullName, IsDevicePathEnd_path h]
    rfl
  | cons n path ih =>
    obtain ⟨turns, rfl⟩ := Nat.exists_eq_add_of_lt hTurns
    obtain ⟨hNode, hRest⟩ := lies_pathBytes_cons h
    cases hFile : n.isFilePath with
    | true =>
      refine Or.inr ⟨p, n, path, fileNodes_of_file hFile, h, ?_⟩
      rw [findFullName, IsDevicePathEnd_path h, isFilePath_node hNode, hFile]
      rfl
    | false =>
      have hTurn : m.findFullName pool ((n :: path).length + turns + 1) p =
          m.findFullName pool ((n :: path).length + turns) (p + UInt64.ofNat n.bytes.length) := by
        rw [findFullName, IsDevicePathEnd_path h, isFilePath_node hNode, hFile,
          NextDevicePathNode_node hNode]
        rfl
      rw [fileNodes_of_other hFile, hTurn]
      exact ih hRest (by rw [List.length_cons]; omega)

/-- A string is made: every node names a file, the measured length is more than a terminator's,
and there is a block for it. -/
def MakesString (files : DevicePath) : Prop :=
  (∀ n ∈ files, n.isFilePath = true) ∧ 2 ≤ total files

/-- Nodes that are left out do not matter. -/
theorem hasData_fileNodes (h : HasData path) : HasData (fileNodes path) := fun n hn =>
  h n ((List.dropWhile_sublist _).subset hn)

section atFile

variable (h : Lies m p (pathBytes (n :: files))) (hData : HasData (n :: files))
  (hTurns : files.length < m.length)

include h hData hTurns

/-- A string that is made has its measured size, which is not 0. -/
theorem FullNameSize_makesString (hString : MakesString (n :: files)) :
    m.OcFileDevicePathFullNameSize p = some (UInt64.ofNat (2 * total (n :: files))) ∧
      (UInt64.ofNat (2 * total (n :: files))).toNat = 2 * total (n :: files) ∧
      UInt64.ofNat (2 * total (n :: files)) ≠ 0 := by
  have hTotal := two_mul_total_le (n :: files)
  have hFits := h.2
  have hSize : (UInt64.ofNat (2 * total (n :: files))).toNat = 2 * total (n :: files) :=
    UInt64.toNat_ofNat_of_lt' (show 2 * total (n :: files) < 2 ^ 64 by omega)
  have hSome := hString.2
  refine ⟨?_, hSize, fun hZero => ?_⟩
  · rw [FullNameSize_path h hData hTurns, if_pos ⟨List.all_eq_true.mpr hString.1, hSome⟩]
  · rw [hZero] at hSize
    have hNone : (0 : UINTN).toNat = 0 := rfl
    omega

/-- Without a string to make, or without a block for it, nothing is copied. -/
theorem fullNameAt_nothing {pool : Option ByteBuffer}
    (hNothing : ¬ (MakesString (n :: files) ∧ pool.isSome = true)) :
    m.fullNameAt pool p = some ⟨some p, none⟩ := by
  by_cases hString : MakesString (n :: files)
  · obtain ⟨hSize, -, hSome⟩ := FullNameSize_makesString h hData hTurns hString
    have hPool : pool = none := by
      cases pool with
      | none => rfl
      | some memory => exact absurd ⟨hString, rfl⟩ hNothing
    rw [fullNameAt, hSize, hPool, Option.bind_eq_bind, Option.bind_some, if_neg hSome]
    rfl
  · have hSize : m.OcFileDevicePathFullNameSize p = some 0 := by
      rw [FullNameSize_path h hData hTurns, if_neg]
      exact fun hAll => hString ⟨List.all_eq_true.mp hAll.1, hAll.2⟩
    rw [fullNameAt, hSize]
    rfl

/-- Where every node has room for a character, what was measured is copied. -/
theorem fullNameAt_filled (hString : MakesString (n :: files))
    (hRoom : ∀ x ∈ n :: files, 2 ≤ x.data.length) (memory : ByteBuffer) :
    ∃ PathSize block, m.fullNameAt (some memory) p = some ⟨some p, some (PathSize, block)⟩ ∧
      PathSize.toNat = 2 * total (n :: files) ∧
      Filled block ((joined 0x5C 0 ((n :: files).map DevicePathNode.cutName)).flatMap
        uint16Bytes) := by
  obtain ⟨hSize, hValue, hSome⟩ := FullNameSize_makesString h hData hTurns hString
  obtain ⟨block, hRun, hFilled⟩ := copyNames_path h hRoom (filled_fresh memory) (Nat.zero_le _) hTurns
  refine ⟨_, block, ?_, hValue, hFilled⟩
  have hCopy : m.OcFileDevicePathFullName (fresh memory) p = some block := hRun
  rw [fullNameAt, hSize, Option.bind_eq_bind, Option.bind_some, if_neg hSome]
  simp only [hCopy]
  rfl

/-- Where some node has no room for a character, the copy leaves the path. -/
theorem fullNameAt_short (hMemory : m.length < 2 ^ 64) (hString : MakesString (n :: files))
    (hShort : ∃ x ∈ n :: files, x.data.length < 2) (memory : ByteBuffer) :
    m.fullNameAt (some memory) p = none := by
  obtain ⟨hSize, -, hSome⟩ := FullNameSize_makesString h hData hTurns hString
  have hFiles : ∀ x ∈ n :: files, x.isFilePath = true ∧ x.data ≠ [] := fun x hx =>
    ⟨hString.1 x hx, hData x hx (hString.1 x hx)⟩
  have hCopy : m.OcFileDevicePathFullName (fresh memory) p = none :=
    copyNames_short h hMemory hFiles hShort m.length 0
  rw [fullNameAt, hSize, Option.bind_eq_bind, Option.bind_some, if_neg hSome]
  simp only [hCopy]
  rfl

end atFile

end PathMemory

-- ---------------------------------------------------------------------------
-- The string is the full name
-- ---------------------------------------------------------------------------

/-!
What is copied are the cut names. They are the names where every node ends in a terminator, and
where one does not, the copy is too short by a character, so that the lengths alone tell them apart.
-/

open PathMemory

variable {path files : DevicePath} {n : DevicePathNode} {pool : Option ByteBuffer}

/-- In whole characters, the node ends with a terminator. -/
def EndsInNul (n : DevicePathNode) : Prop := n.PathName.getLast? = some 0

instance (n : DevicePathNode) : Decidable (EndsInNul n) := inferInstanceAs (Decidable (_ = _))

/-- All nodes name files, and some name has a character before its last one that is not a
terminator, or two nodes have room for a character. -/
def HasName (files : DevicePath) : Prop :=
  (∀ n ∈ files, n.isFilePath = true) ∧
    ((∃ n ∈ files, ∃ c ∈ n.PathName.dropLast, c ≠ 0) ∨
      2 ≤ files.countP fun n => 2 ≤ n.data.length)

instance (files : DevicePath) : Decidable (HasName files) :=
  inferInstanceAs (Decidable ((∀ n ∈ files, _) ∧
    ((∃ n ∈ files, ∃ c ∈ n.PathName.dropLast, c ≠ 0) ∨ _)))

/-- A terminator takes the room of a character. -/
theorem endsInNul_room (h : EndsInNul n) : 2 ≤ n.data.length := by
  have hNe : n.PathName ≠ [] := by
    intro hNil
    rw [EndsInNul, hNil] at h
    cases h
  have hPos := List.length_pos_iff.mpr hNe
  rw [DevicePathNode.PathName, length_wholeChars] at hPos
  omega

/-- A node without room for a character has no name and no separator. -/
theorem slots_eq (n : DevicePathNode) :
    n.slots = n.cutName.length + if 2 ≤ n.data.length then 1 else 0 := by
  unfold DevicePathNode.slots
  by_cases hShort : n.data.length < 2
  · have hNil : n.cutName = [] := by
      have hLe := length_strip_le 0 n.PathName.dropLast
      rw [List.length_dropLast, DevicePathNode.PathName, length_wholeChars] at hLe
      refine List.eq_nil_of_length_eq_zero ?_
      rw [DevicePathNode.cutName, DevicePathNode.PathName]
      omega
    rw [if_pos hShort, if_neg (Nat.not_le.mpr hShort), hNil]
    rfl
  · rw [if_neg hShort, if_pos (Nat.not_lt.mp hShort)]

/-- The measured length is that of the names, and a character for each node with room for one. -/
theorem total_eq (files : DevicePath) :
    total files = (files.map fun n => n.cutName.length).sum +
      files.countP fun n => 2 ≤ n.data.length := by
  induction files with
  | nil => rfl
  | cons n files ih =>
    rw [total_cons, slots_eq, ih, List.map_cons, List.sum_cons, List.countP_cons]
    simp only [decide_eq_true_eq]
    omega

/-- Something is left of a name when it has a character that is not stripped. -/
theorem cutName_ne_nil_iff (n : DevicePathNode) :
    n.cutName ≠ [] ↔ ∃ c ∈ n.PathName.dropLast, c ≠ 0 := by
  rw [Ne, DevicePathNode.cutName, strip, List.rdropWhile_eq_nil_iff]
  simp

/-- Each node has its part in the measured length. -/
theorem slots_le_total (h : n ∈ files) : n.slots ≤ total files := by
  induction files with
  | nil => cases h
  | cons n' files ih =>
    rw [total_cons]
    rcases List.mem_cons.mp h with rfl | hTail
    · exact Nat.le_add_right _ _
    · have hLe := ih hTail
      omega

/-- When a string is made, told by the nodes. -/
theorem makesString_iff (files : DevicePath) : MakesString files ↔ HasName files := by
  refine and_congr_right fun _ => ?_
  constructor
  · intro hTotal
    by_cases hName : ∃ n ∈ files, ∃ c ∈ n.PathName.dropLast, c ≠ 0
    · exact Or.inl hName
    · have hNone : (files.map fun n => n.cutName.length).sum = 0 := by
        refine List.sum_eq_zero fun k hk => ?_
        obtain ⟨n, hn, rfl⟩ := List.mem_map.mp hk
        by_contra hLength
        exact hName ⟨n, hn, (cutName_ne_nil_iff n).mp (by simpa using hLength)⟩
      rw [total_eq, hNone, Nat.zero_add] at hTotal
      exact Or.inr hTotal
  · rintro (⟨n, hn, hName⟩ | hCount)
    · have hCut := List.length_pos_iff.mpr ((cutName_ne_nil_iff n).mpr hName)
      have hRoom : 2 ≤ n.data.length := by
        have hLe := length_strip_le 0 n.PathName.dropLast
        rw [List.length_dropLast, DevicePathNode.PathName, length_wholeChars] at hLe
        rw [DevicePathNode.cutName, DevicePathNode.PathName] at hCut
        omega
      have hSlots := slots_eq n
      rw [if_pos hRoom] at hSlots
      have hLe := slots_le_total hn
      omega
    · rw [total_eq]
      omega

/-- Where only file path nodes follow the first one, these are all there are. -/
theorem filter_eq_fileNodes (h : ∀ n ∈ fileNodes path, n.isFilePath = true) :
    path.filter DevicePathNode.isFilePath = fileNodes path := by
  induction path with
  | nil => rfl
  | cons n path ih =>
    cases hFile : n.isFilePath with
    | true =>
      rw [fileNodes_of_file hFile] at h ⊢
      exact List.filter_eq_self.mpr h
    | false =>
      rw [fileNodes_of_other hFile] at h ⊢
      rw [List.filter_cons_of_neg (by simp [hFile]), ih h]

/-- Cutting a terminator off and stripping is stripping. -/
theorem cutName_eq_name (h : EndsInNul n) : n.cutName = n.name := strip_dropLast h

/-- A node that does not end in a terminator loses a character. -/
theorem length_cutName_lt (hRoom : 2 ≤ n.data.length) (h : ¬ EndsInNul n) :
    n.cutName.length < n.name.length := by
  refine strip_dropLast_lt ?_ h
  rw [Ne, ← List.length_eq_zero_iff, DevicePathNode.PathName, length_wholeChars]
  omega

/-- Names of the same length together are the same names. -/
theorem endsInNul_of_length (hRoom : ∀ n ∈ files, 2 ≤ n.data.length) (hNe : files ≠ [])
    (hLength : (joined 0x5C 0 (files.map DevicePathNode.cutName)).length =
      (joined (0x5C : CHAR16) 0 (files.map DevicePathNode.name)).length) :
    ∀ n ∈ files, EndsInNul n := by
  rw [length_joined (by simpa using hNe), length_joined (by simpa using hNe), List.map_map,
    List.map_map] at hLength
  by_contra hSome
  simp only [not_forall] at hSome
  obtain ⟨n, hn, hEnd⟩ := hSome
  refine (List.sum_lt_sum _ _ (fun x _ => ?_) ⟨n, hn, ?_⟩).ne hLength
  · exact Nat.succ_le_succ (length_strip_dropLast_le 0 x.PathName)
  · exact Nat.succ_lt_succ (length_cutName_lt (hRoom n hn) hEnd)

/-- Nodes that end in a terminator are measured at what their names take. -/
theorem total_eq_length (h : ∀ n ∈ files, EndsInNul n) (hNe : files ≠ []) :
    total files = (joined (0x5C : CHAR16) 0 (files.map DevicePathNode.name)).length := by
  rw [length_joined (by simpa using hNe), List.map_map, total]
  refine congrArg List.sum (List.map_congr_left fun n hn => ?_)
  rw [DevicePathNode.slots, if_neg (Nat.not_lt.mpr (endsInNul_room (h n hn))),
    cutName_eq_name (h n hn)]
  rfl

/-- Where nothing is copied, nothing is wrong. -/
theorem copies_of_nothing {q : Option UINTN}
    (h : OcCopyDevicePathFullName (pathBytes path) pool = some ⟨q, none⟩) :
    CopiesFullName path pool := by
  refine ⟨_, h, fun PathSize block hPath => ?_⟩
  cases hPath

/-- What was copied is the full name, as long as every node ends in a terminator. -/
theorem copies_of_filled {q PathSize : UINTN} {block : Region UINT8} (hNe : fileNodes path ≠ [])
    (hFiles : ∀ n ∈ fileNodes path, n.isFilePath = true)
    (hRoom : ∀ n ∈ fileNodes path, 2 ≤ n.data.length)
    (hRun : OcCopyDevicePathFullName (pathBytes path) pool =
      some ⟨some q, some (PathSize, block)⟩)
    (hSize : PathSize.toNat = 2 * total (fileNodes path))
    (hFilled : Filled block
      ((joined 0x5C 0 ((fileNodes path).map DevicePathNode.cutName)).flatMap uint16Bytes)) :
    CopiesFullName path pool ↔ ∀ n ∈ fileNodes path, EndsInNul n := by
  have hName : fullName path = joined 0x5C 0 ((fileNodes path).map DevicePathNode.name) := by
    rw [fullName, filter_eq_fileNodes hFiles]
  constructor
  · -- the block has one length, so that the cut names and the names have the same one
    rintro ⟨r, hRun', hCopied⟩
    rw [hRun, Option.some.injEq] at hRun'
    obtain ⟨hStores, hLength, hHolds⟩ := hCopied PathSize block (by rw [← hRun'])
    have hWhole : Filled block ((fullName path).flatMap uint16Bytes) :=
      ⟨hHolds, fun i => by rw [hStores, hLength, length_flatMap_uint16Bytes]⟩
    have hSame := hFilled.length_eq hWhole
    rw [length_flatMap_uint16Bytes, length_flatMap_uint16Bytes, hName] at hSame
    exact endsInNul_of_length hRoom hNe (by omega)
  · intro hEnds
    have hNames : (fileNodes path).map DevicePathNode.cutName =
        (fileNodes path).map DevicePathNode.name :=
      List.map_congr_left fun n hn => cutName_eq_name (hEnds n hn)
    rw [hNames, ← hName] at hFilled
    rw [total_eq_length hEnds hNe, ← hName] at hSize
    refine ⟨_, hRun, fun PathSize' block' hPath => ?_⟩
    obtain ⟨rfl, rfl⟩ := Prod.mk.inj (Option.some.inj hPath)
    refine ⟨fun i => ?_, hSize, hFilled.holds⟩
    rw [hFilled.stores, length_flatMap_uint16Bytes, hSize]

/-- Where a string is made and there is a block for it. -/
theorem copies_of_string {q : UINTN} {memory : ByteBuffer}
    (hFits : (pathBytes path).length < 2 ^ 64) (hFiles : fileNodes path = n :: files)
    (hLies : Lies (pathBytes path) q (pathBytes (n :: files))) (hData : HasData (n :: files))
    (hTurns : files.length < (pathBytes path).length) (hString : MakesString (n :: files))
    (hRun : OcCopyDevicePathFullName (pathBytes path) (some memory) =
      fullNameAt (pathBytes path) (some memory) q) :
    CopiesFullName path (some memory) ↔ ∀ n ∈ fileNodes path, EndsInNul n := by
  by_cases hShort : ∃ x ∈ n :: files, x.data.length < 2
  · -- no result, and a node that cannot end in a terminator
    have hFault := hRun.trans (fullNameAt_short hLies hData hTurns hFits hString hShort memory)
    constructor
    · rintro ⟨r, hRun', -⟩
      rw [hFault] at hRun'
      cases hRun'
    · intro hEnds
      obtain ⟨x, hx, hxShort⟩ := hShort
      have hRoom := endsInNul_room (hEnds x (hFiles ▸ hx))
      omega
  · have hRoom : ∀ x ∈ n :: files, 2 ≤ x.data.length := fun x hx =>
      Nat.not_lt.mp fun hLt => hShort ⟨x, hx, hLt⟩
    obtain ⟨PathSize, block, hAt, hSize, hFilled⟩ :=
      fullNameAt_filled hLies hData hTurns hString hRoom memory
    have hNames := hString.1
    rw [← hFiles] at hNames hRoom hSize hFilled
    exact copies_of_filled (by simp [hFiles]) hNames hRoom (hRun.trans hAt) hSize hFilled

/-- **When the path's string is its full name.** Either no string is made, or every node in it
ends in a terminator. -/
theorem copies_iff (hFits : (pathBytes path).length < 2 ^ 64) (hData : HasData path) :
    CopiesFullName path pool ↔
      (pool.isSome = true → HasName (fileNodes path) → ∀ n ∈ fileNodes path, EndsInNul n) := by
  have hLies : Lies (pathBytes path) 0 (pathBytes path) :=
    lies_zero.mpr ⟨⟨[], (List.append_nil _).symm⟩, hFits⟩
  rcases findFullName_path pool hLies (length_lt_pathBytes path) with
    ⟨hFiles, hRun⟩ | ⟨q, n, files, hFiles, hLies, hRun⟩
  · simp only [hFiles, List.not_mem_nil, false_imp_iff, implies_true, iff_true]
    exact copies_of_nothing hRun
  · have hData : HasData (n :: files) := hFiles ▸ hasData_fileNodes hData
    have hTurns : files.length < (pathBytes path).length := by
      have hSpan := hLies.1.length_le
      have hLess := length_lt_pathBytes (n :: files)
      rw [List.length_drop] at hSpan
      rw [List.length_cons] at hLess
      omega
    by_cases hString : MakesString (n :: files) ∧ pool.isSome = true
    · obtain ⟨hString, hPool⟩ := hString
      obtain ⟨memory, rfl⟩ := Option.isSome_iff_exists.mp hPool
      have hName : HasName (fileNodes path) := by
        rw [hFiles]
        exact (makesString_iff _).mp hString
      rw [copies_of_string hFits hFiles hLies hData hTurns hString hRun]
      exact ⟨fun hEnds _ _ => hEnds, fun hEnds => hEnds hPool hName⟩
    · have hNothing : CopiesFullName path pool :=
        copies_of_nothing (hRun.trans (fullNameAt_nothing hLies hData hTurns hString))
      refine iff_of_true hNothing fun hPool hName => ?_
      rw [hFiles] at hName
      exact absurd ⟨(makesString_iff _).mpr hName, hPool⟩ hString

/-- **The loader's path.** Every device path that `IsDevicePathValid` accepts is the bytes of a
list of nodes, and its string is the full name exactly when no string is made or all the nodes
in it end in a terminator. -/
theorem loaderPath_copied_iff (m : PathMemory) (pool : Option ByteBuffer)
    (h : m.IsDevicePathValid 0 = some true) :
    ∃ path, (∃ rest, m = pathBytes path ++ rest) ∧
      (CopiesFullName path pool ↔
        (pool.isSome = true → HasName (fileNodes path) → ∀ n ∈ fileNodes path, EndsInNul n)) := by
  obtain ⟨path, hMemory, hFits, hValid⟩ := isDevicePathValid_iff.mp h
  exact ⟨path, hMemory, copies_iff hFits (hasData_of_valid hValid)⟩

/-- A file path node with the given bytes behind its header. -/
def fileNode (data : List UINT8) (h : 4 + data.length < 0x10000) : DevicePathNode :=
  ⟨MEDIA_DEVICE_PATH, MEDIA_FILEPATH_DP, data, h, fun hEnd => absurd hEnd.1 (by decide)⟩

/-- A device and the file `a` on it. -/
def loaderPath : DevicePath :=
  [⟨1, 1, [0, 0], by decide, by decide⟩, fileNode [0x61, 0, 0, 0] (by decide)]

/-- The file `a` on some device. -/
theorem loaderPath_copied_a :
    ∃ path, (∃ rest, pathBytes loaderPath = pathBytes path ++ rest) ∧
      (CopiesFullName path (some fun _ => 0) ↔
        ((some fun _ => 0 : Option ByteBuffer).isSome = true → HasName (fileNodes path) →
          ∀ n ∈ fileNodes path, EndsInNul n)) :=
  loaderPath_copied_iff (pathBytes loaderPath) (some fun _ => 0)
    (isDevicePathValid_iff.mpr ⟨loaderPath, ⟨[], (List.append_nil _).symm⟩, by decide, by decide⟩)

/-- A node with one byte behind its header in front of the file `a`. -/
def shortPath : DevicePath := [fileNode [0] (by decide), fileNode [0x61, 0, 0, 0] (by decide)]

/-- The first name is measured at nearly all memory, and the copy leaves the path. -/
theorem shortNode_leaves_path :
    PathMemory.IsDevicePathValid (pathBytes shortPath) 0 = some true ∧
      OcFileDevicePathNameLen (pathBytes shortPath) 0 = some MAX_UINTN ∧
      ¬ CopiesFullName shortPath (some fun _ => 0) := by
  have hFits : (pathBytes shortPath).length < 2 ^ 64 := by decide
  have hLies : Lies (pathBytes shortPath) 0 (pathBytes shortPath) :=
    lies_zero.mpr ⟨⟨[], (List.append_nil _).symm⟩, hFits⟩
  refine ⟨?_, ?_, ?_⟩
  · exact isDevicePathValid_iff.mpr
      ⟨shortPath, ⟨[], (List.append_nil _).symm⟩, hFits, by decide⟩
  · exact NameLen_short (lies_pathBytes_cons hLies).1 rfl rfl
  · intro hCopies
    have hData : HasData shortPath := hasData_of_valid (by decide)
    have hEnds := (copies_iff hFits hData).mp hCopies rfl (by decide)
    exact absurd (hEnds _ List.mem_cons_self) (by decide)

end TianJi.Model
