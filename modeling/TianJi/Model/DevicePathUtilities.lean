import Mathlib.Data.List.TakeWhile
import TianJi.Lib.Codes
import TianJi.Model.DevicePathMemory

/-!
# TianJi — operations on device paths in memory

The functions of DevicePathUtilities.c that measure, copy and join device paths, byte for byte,
and those of BmMisc.c over paths with several instances. A pointer is the memory from there on,
`none` for NULL; a function that would read outside of it has no result. The pool has room: allocations
succeed.

A path's nodes are told apart by their bytes (`selfDelimiting_pathBytes`), so that what the code
compares byte for byte are the paths.

* `represents_iff` — accepted memory holds one path.
* `AppendDevicePath_represents` — the code on bytes does what is said of lists of nodes.
-/

namespace TianJi.Model

open Codes

-- ---------------------------------------------------------------------------
-- The code
-- ---------------------------------------------------------------------------

namespace PathMemory

def END_INSTANCE_DEVICE_PATH_SUBTYPE : UINT8 := 0x01

/-- `IsDevicePathEndType` -/
def IsDevicePathEndType (m : PathMemory) (Node : UINTN) : Option Bool := do
  return decide ((← m.DevicePathType Node) = END_DEVICE_PATH_TYPE)

/-- The end of an instance. -/
def IsDevicePathEndInstance (m : PathMemory) (Node : UINTN) : Option Bool :=
  m.hasType Node END_DEVICE_PATH_TYPE END_INSTANCE_DEVICE_PATH_SUBTYPE

/-- The loops over the nodes of a path that has been validated: every node has at least four
bytes then, and the memory's length is turns enough. -/
def seek (m : PathMemory) (stop : UINTN → Option Bool) : Nat → UINTN → Option UINTN
  | 0, _ => none
  | turns + 1, DevicePath => do
    if ← stop DevicePath then return DevicePath
    else m.seek stop turns (← m.NextDevicePathNode DevicePath)

/-- `GetDevicePathSize`, for a path that is not null. -/
def GetDevicePathSize (m : PathMemory) : Option UINTN := do
  if ← m.IsDevicePathValid 0 then
    let DevicePath ← m.seek m.IsDevicePathEnd m.length 0
    return DevicePath + (← m.DevicePathNodeLength DevicePath)
  else return 0

/-- A copy of as many bytes as the path has. -/
def DuplicateDevicePath (m : PathMemory) : Option (Option PathMemory) := do
  let Size ← m.GetDevicePathSize
  return if Size = 0 then none else some (m.take Size.toNat)

/-- `AppendDevicePath` -/
def AppendDevicePath : Option PathMemory → Option PathMemory → Option (Option PathMemory)
  | none, none => DuplicateDevicePath endNode
  | none, some SecondDevicePath => SecondDevicePath.DuplicateDevicePath
  | some FirstDevicePath, none => FirstDevicePath.DuplicateDevicePath
  | some FirstDevicePath, some SecondDevicePath => do
    if !(← FirstDevicePath.IsDevicePathValid 0) then return none
    else if !(← SecondDevicePath.IsDevicePathValid 0) then return none
    else
      let Size1 ← FirstDevicePath.GetDevicePathSize
      let Size2 ← SecondDevicePath.GetDevicePathSize
      -- "Over write FirstDevicePath EndNode and do the copy"
      return some (FirstDevicePath.take (Size1 - END_DEVICE_PATH_LENGTH).toNat ++
        SecondDevicePath.take Size2.toNat)

/-- `AppendDevicePathInstance` -/
def AppendDevicePathInstance : Option PathMemory → Option PathMemory → Option (Option PathMemory)
  | none, none => some none
  | none, some DevicePathInstance => DevicePathInstance.DuplicateDevicePath
  | some _, none => some none
  | some DevicePath, some DevicePathInstance => do
    if !(← DevicePath.IsDevicePathValid 0) then return none
    else if !(← DevicePathInstance.IsDevicePathValid 0) then return none
    else
      let SrcSize ← DevicePath.GetDevicePathSize
      let InstanceSize ← DevicePathInstance.GetDevicePathSize
      let NewDevicePath := DevicePath.take SrcSize.toNat
      let TempDevicePath ← PathMemory.seek NewDevicePath
        (PathMemory.IsDevicePathEnd NewDevicePath) NewDevicePath.length 0
      let NewDevicePath := NewDevicePath.set (TempDevicePath + 1).toNat
        END_INSTANCE_DEVICE_PATH_SUBTYPE
      let TempDevicePath ← PathMemory.NextDevicePathNode NewDevicePath TempDevicePath
      return some (NewDevicePath.take TempDevicePath.toNat ++
        DevicePathInstance.take InstanceSize.toNat)

/-- What a call of `GetNextDevicePathInstance` returns and leaves in its arguments; `Size` is
left as it was where there is none. -/
structure NextInstance where
  ReturnValue : Option PathMemory
  DevicePath : Option PathMemory
  Size : Option UINTN

/-- `GetNextDevicePathInstance` -/
def GetNextDevicePathInstance : Option PathMemory → Option NextInstance
  | none => some ⟨none, none, some 0⟩
  | some DevicePath => do
    if !(← DevicePath.IsDevicePathValid 0) then return ⟨none, some DevicePath, none⟩
    else
      let DevPath ← DevicePath.seek DevicePath.IsDevicePathEndType DevicePath.length 0
      -- the subtype is replaced while the instance is copied
      let ReturnValue ← PathMemory.DuplicateDevicePath
        (DevicePath.set (DevPath + 1).toNat END_ENTIRE_DEVICE_PATH_SUBTYPE)
      if (← DevicePath.DevicePathSubType DevPath) = END_ENTIRE_DEVICE_PATH_SUBTYPE then
        return ⟨ReturnValue, none, some (DevPath + 4)⟩
      else
        let Next ← DevicePath.NextDevicePathNode DevPath
        return ⟨ReturnValue, some (DevicePath.drop Next.toNat), some (DevPath + 4)⟩

/-- The loop of `IsDevicePathMultiInstance`. -/
def hasBreak (m : PathMemory) : Nat → UINTN → Option Bool
  | 0, _ => none
  | turns + 1, Node => do
    if ← m.IsDevicePathEnd Node then return false
    else if ← m.IsDevicePathEndInstance Node then return true
    else m.hasBreak turns (← m.NextDevicePathNode Node)

/-- `IsDevicePathMultiInstance` -/
def IsDevicePathMultiInstance : Option PathMemory → Option Bool
  | none => some false
  | some DevicePath => do
    if !(← DevicePath.IsDevicePathValid 0) then return false
    else DevicePath.hasBreak DevicePath.length 0

end PathMemory

/-- `InternalMemCompareMem`: the first difference within `Length` bytes. -/
def CompareMem : List UINT8 → List UINT8 → Nat → Option Int
  | _, _, 0 => some 0
  | d :: Destination, s :: Source, Length + 1 =>
    if d = s then CompareMem Destination Source Length else some (d.toNat - s.toNat)
  | _, _, _ => none

-- ---------------------------------------------------------------------------
-- Paths are told apart
-- ---------------------------------------------------------------------------

open PathMemory

/-- A length is read from its bytes. -/
theorem uint16Bytes_injective : Function.Injective uint16Bytes := by
  intro v v' h
  obtain ⟨low, high, hBytes, hValue⟩ := exists_uint16Bytes v
  obtain ⟨low', high', hBytes', hValue'⟩ := exists_uint16Bytes v'
  rw [hBytes, hBytes'] at h
  obtain ⟨rfl, rfl⟩ : low = low' ∧ high = high' := by simpa using h
  exact hValue.symm.trans hValue'

/-- A node says where it ends. -/
theorem selfDelimiting_bytes : SelfDelimiting DevicePathNode.bytes := by
  rintro ⟨type, subType, data, hLt, hInner⟩ ⟨type', subType', data', hLt', hInner'⟩ r r' h
  simp only [DevicePathNode.bytes, List.cons_append, List.nil_append, List.append_assoc,
    List.cons.injEq] at h
  obtain ⟨rfl, rfl, h⟩ := h
  obtain ⟨hLength, h⟩ := List.append_inj h (by rw [length_uint16Bytes, length_uint16Bytes])
  have hSame : data.length = data'.length := by
    have hValue := congrArg UInt16.toNat (uint16Bytes_injective hLength)
    rw [UInt16.toNat_ofNat_of_lt' hLt, UInt16.toNat_ofNat_of_lt' hLt'] at hValue
    omega
  obtain ⟨rfl, rfl⟩ := List.append_inj h hSame
  exact ⟨rfl, rfl⟩

/-- No node is taken for the end. -/
theorem bytes_apart_endNode : Apart DevicePathNode.bytes endNode := by
  rintro ⟨type, subType, data, hLt, hInner⟩ r r' h
  simp only [DevicePathNode.bytes, endNode, List.cons_append, List.nil_append, List.append_assoc,
    List.cons.injEq] at h
  exact hInner ⟨h.1, h.2.1⟩

/-- So a path says where it ends. -/
theorem selfDelimiting_pathBytes : SelfDelimiting pathBytes :=
  selfDelimiting_bytes.terminated bytes_apart_endNode

/-- The path without its end node. -/
def nodesBytes (path : DevicePath) : List UINT8 := path.flatMap DevicePathNode.bytes

/-- A path is its nodes and the end. -/
theorem pathBytes_eq (path : DevicePath) : pathBytes path = nodesBytes path ++ endNode := rfl

/-- A node in front. -/
theorem nodesBytes_cons (n : DevicePathNode) (path : DevicePath) :
    nodesBytes (n :: path) = n.bytes ++ nodesBytes path := List.flatMap_cons

/-- Nodes behind. -/
theorem nodesBytes_append (path path' : DevicePath) :
    nodesBytes (path ++ path') = nodesBytes path ++ nodesBytes path' := List.flatMap_append

/-- Only the second path's end stays. -/
theorem pathBytes_append (path path' : DevicePath) :
    pathBytes (path ++ path') = nodesBytes path ++ pathBytes path' := by
  rw [pathBytes_eq, nodesBytes_append, List.append_assoc, ← pathBytes_eq]

-- ---------------------------------------------------------------------------
-- Memory that holds a path
-- ---------------------------------------------------------------------------

/-- The memory starts with a valid path. -/
structure Represents (m : PathMemory) (path : DevicePath) : Prop where
  memory : ∃ rest, m = pathBytes path ++ rest
  size : (pathBytes path).length < 2 ^ 64
  valid : IsDevicePathValid path = true

variable {m : PathMemory} {p : UINTN} {path : DevicePath}

/-- **Validated memory** holds a path. -/
theorem represents_iff : m.IsDevicePathValid 0 = some true ↔ ∃ path, Represents m path := by
  rw [isDevicePathValid_iff]
  constructor
  · rintro ⟨path, hMemory, hSize, hValid⟩
    exact ⟨path, hMemory, hSize, hValid⟩
  · rintro ⟨path, hMemory, hSize, hValid⟩
    exact ⟨path, hMemory, hSize, hValid⟩

/-- Memory holds one path at most. -/
theorem represents_unique {path' : DevicePath} (h : Represents m path) (h' : Represents m path') :
    path = path' := by
  obtain ⟨rest, rfl⟩ := h.memory
  obtain ⟨rest', hSame⟩ := h'.memory
  exact (selfDelimiting_pathBytes hSame).1

namespace PathMemory

/-- The walk stops at the first node that is looked for, or at the end node. -/
theorem seek_path {stop : UINTN → Option Bool} {s : DevicePathNode → Bool}
    (hNode : ∀ p n, Lies m p n.bytes → stop p = some (s n))
    (hEnd : ∀ p, Lies m p endNode → stop p = some true) {turns : Nat}
    (h : Lies m p (pathBytes path)) (hTurns : path.length < turns) : m.seek stop turns p =
      some (p + UInt64.ofNat (nodesBytes (path.takeWhile fun n => !s n)).length) := by
  induction turns generalizing p path with
  | zero => exact absurd hTurns (Nat.not_lt_zero _)
  | succ turns ih =>
    rw [seek]
    cases path with
    | nil =>
      rw [hEnd p h]
      exact congrArg some (UInt64.add_zero p).symm
    | cons n path =>
      obtain ⟨hFirst, hRest⟩ := lies_pathBytes_cons h
      rw [hNode p n hFirst]
      cases hStop : s n with
      | true =>
        rw [List.takeWhile_cons_of_neg (by simp [hStop])]
        exact congrArg some (UInt64.add_zero p).symm
      | false =>
        rw [List.takeWhile_cons_of_pos (by simp [hStop]), nodesBytes_cons, List.length_append,
          UInt64.ofNat_add, ← UInt64.add_assoc, ← ih hRest (Nat.succ_lt_succ_iff.mp hTurns)]
        simp [NextDevicePathNode_node hFirst]

/-- The walk to the end of the path. -/
theorem seek_end (h : Represents m path) : m.seek m.IsDevicePathEnd m.length 0 =
    some (UInt64.ofNat (nodesBytes path).length) := by
  have hLies : Lies m 0 (pathBytes path) := lies_zero.mpr ⟨h.memory, h.size⟩
  have hTurns : path.length < m.length := by
    obtain ⟨rest, rfl⟩ := h.memory
    rw [List.length_append]
    have hLt := length_lt_pathBytes path
    omega
  have hAll : (path.takeWhile fun _ => !false) = path :=
    List.takeWhile_eq_self_iff.mpr fun _ _ => rfl
  rw [seek_path (s := fun _ => false) (fun _ _ => IsDevicePathEnd_node)
    (fun _ => IsDevicePathEnd_endNode) hLies hTurns, UInt64.zero_add, hAll]

/-- The end node has four bytes. -/
theorem length_pathBytes (path : DevicePath) :
    (pathBytes path).length = (nodesBytes path).length + 4 :=
  List.length_append

/-- The end node lies behind the others. -/
theorem lies_end (h : Represents m path) :
    Lies m (UInt64.ofNat (nodesBytes path).length) endNode := by
  have hLies : Lies m 0 (pathBytes path) := lies_zero.mpr ⟨h.memory, h.size⟩
  rw [pathBytes, lies_append, UInt64.zero_add] at hLies
  exact hLies.2

/-- The size is that of the path's bytes. -/
theorem GetDevicePathSize_represents (h : Represents m path) :
    m.GetDevicePathSize = some (UInt64.ofNat (pathBytes path).length) := by
  have hValid : m.IsDevicePathValid 0 = some true := represents_iff.mpr ⟨path, h⟩
  rw [GetDevicePathSize, hValid, seek_end h, length_pathBytes, UInt64.ofNat_add]
  simp only [Option.bind_eq_bind, Option.bind_some, if_true,
    DevicePathNodeLength_endNode (lies_end h)]
  rfl

/-- It fits a word. -/
theorem toNat_size_represents (h : Represents m path) :
    (UInt64.ofNat (pathBytes path).length).toNat = (pathBytes path).length :=
  UInt64.toNat_ofNat_of_lt' h.size

/-- The bytes of the path are the first ones. -/
theorem take_pathBytes (h : Represents m path) :
    m.take (pathBytes path).length = pathBytes path := by
  obtain ⟨rest, rfl⟩ := h.memory
  exact List.take_left

/-- A duplicate is the path's own bytes. -/
theorem DuplicateDevicePath_represents (h : Represents m path) :
    m.DuplicateDevicePath = some (some (pathBytes path)) := by
  have hSize := toNat_size_represents h
  have hPos : ¬ UInt64.ofNat (pathBytes path).length = 0 := by
    intro hZero
    rw [hZero, UInt64.toNat_zero] at hSize
    have hFour := four_le_length_pathBytes path
    omega
  rw [DuplicateDevicePath, GetDevicePathSize_represents h]
  simp [hPos, hSize, take_pathBytes h]

/-- What is refused has no duplicate. -/
theorem DuplicateDevicePath_refused (h : m.IsDevicePathValid 0 = some false) :
    m.DuplicateDevicePath = some none := by
  simp [DuplicateDevicePath, GetDevicePathSize, h]

/-- Only a path has a duplicate. -/
theorem path_of_DuplicateDevicePath {copy : PathMemory} (h : m.DuplicateDevicePath = some (some copy)) :
    ∃ path, Represents m path ∧ copy = pathBytes path := by
  cases hValid : m.IsDevicePathValid 0 with
  | none => simp [DuplicateDevicePath, GetDevicePathSize, hValid] at h
  | some valid =>
    cases valid with
    | false =>
      rw [DuplicateDevicePath_refused hValid] at h
      cases h
    | true =>
      obtain ⟨path, hPath⟩ := represents_iff.mp hValid
      rw [DuplicateDevicePath_represents hPath, Option.some.injEq, Option.some.injEq] at h
      exact ⟨path, hPath, h.symm⟩

end PathMemory

/-- The memory of a copy. -/
theorem represents_pathBytes {m : PathMemory} {path : DevicePath} (h : Represents m path) :
    Represents (pathBytes path) path :=
  ⟨⟨[], (List.append_nil _).symm⟩, h.size, h.valid⟩

/-- A path of one node with a number in it. -/
def numberedPath (number : UINT8) : DevicePath :=
  [⟨0x02, 0x01, [number, 0], Nat.le_of_ble_eq_true rfl, by decide⟩]

/-- Its bytes hold it. -/
theorem represents_numberedPath (number : UINT8) :
    Represents (pathBytes (numberedPath number)) (numberedPath number) :=
  ⟨⟨[], (List.append_nil _).symm⟩, show 10 < 2 ^ 64 by decide, rfl⟩

namespace PathMemory

variable {m' : PathMemory} {path' : DevicePath}

/-- **Appending bytes is appending nodes.** -/
theorem AppendDevicePath_represents (h : Represents m path) (h' : Represents m' path') :
    AppendDevicePath (some m) (some m') = some (some (pathBytes (path ++ path'))) := by
  have hValid : m.IsDevicePathValid 0 = some true := represents_iff.mpr ⟨path, h⟩
  have hValid' : m'.IsDevicePathValid 0 = some true := represents_iff.mpr ⟨path', h'⟩
  have hCut : (UInt64.ofNat (pathBytes path).length - END_DEVICE_PATH_LENGTH).toNat =
      (nodesBytes path).length := by
    have hSize := h.size
    rw [length_pathBytes] at hSize
    rw [length_pathBytes, UInt64.ofNat_add]
    exact (congrArg UInt64.toNat (UInt64.add_sub_cancel _ _)).trans
      (UInt64.toNat_ofNat_of_lt' (show _ < 2 ^ 64 by omega))
  have hNodes : m.take (nodesBytes path).length = nodesBytes path := by
    obtain ⟨rest, rfl⟩ := h.memory
    rw [pathBytes_eq, List.append_assoc, List.take_left]
  rw [AppendDevicePath, hValid, hValid', GetDevicePathSize_represents h,
    GetDevicePathSize_represents h']
  simp only [Option.bind_eq_bind, Option.bind_some, Option.pure_def, Bool.not_true,
    Bool.false_eq_true, if_false, hCut, hNodes, toNat_size_represents h', take_pathBytes h',
    pathBytes_append]

/-- Two paths of one node each. -/
theorem AppendDevicePath_numbered :
    AppendDevicePath (some (pathBytes (numberedPath 1))) (some (pathBytes (numberedPath 2))) =
      some (some (pathBytes (numberedPath 1 ++ numberedPath 2))) :=
  AppendDevicePath_represents (represents_numberedPath 1) (represents_numberedPath 2)

end PathMemory

end TianJi.Model
