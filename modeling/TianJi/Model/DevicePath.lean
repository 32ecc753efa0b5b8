import TianJi.Lib.Ledger
import TianJi.Model.Uefi

/-!
# TianJi — device paths

A device path is a list of nodes before an end node. `FileDevicePath`
(UefiDevicePathLib) appends to a device's own path one node that names a file.

* `fileDevicePath_eq` — with a valid device path and a name that fits a node, the result is
  the device's path followed by the node with that name.
* `fileDevicePath_since` — when there is a result at all, and what is left to release.
-/

namespace TianJi.Model

open Ownership

def MEDIA_DEVICE_PATH : UINT8 := 0x04
def MEDIA_FILEPATH_DP : UINT8 := 0x04
def END_DEVICE_PATH_TYPE : UINT8 := 0x7F
def END_ENTIRE_DEVICE_PATH_SUBTYPE : UINT8 := 0xFF

/-- A node other than the one that ends the whole path. Its length goes into 16 bits. -/
structure DevicePathNode where
  «Type» : UINT8
  SubType : UINT8
  data : List UINT8
  length_lt : 4 + data.length < 0x10000
  inner : ¬ («Type» = END_DEVICE_PATH_TYPE ∧ SubType = END_ENTIRE_DEVICE_PATH_SUBTYPE)
  deriving DecidableEq

/-- The nodes before the end node. -/
abbrev DevicePath := List DevicePathNode

namespace DevicePathNode

/-- The node in memory: type, subtype, length and data. -/
def bytes (n : DevicePathNode) : List UINT8 :=
  [n.«Type», n.SubType] ++ uint16Bytes (UInt16.ofNat (4 + n.data.length)) ++ n.data

def isFilePath (n : DevicePathNode) : Bool :=
  n.«Type» = MEDIA_DEVICE_PATH && n.SubType = MEDIA_FILEPATH_DP

end DevicePathNode

/-- `IsDevicePathValid (DevicePath, 0)`: what a file path node has in its last two bytes is a
terminator. Node lengths below 4 are not representable here, and the node count is not
limited (`PcdMaximumDevicePathNodeCount` is 0). -/
def IsDevicePathValid (path : DevicePath) : Bool :=
  path.all fun n => !n.isFilePath || n.bytes.drop (n.bytes.length - 2) = [0, 0]

/-- The node that `FileDevicePath` builds; `none` where `SetDevicePathNodeLength` asserts that
its length is below 64 KB. -/
def filepathNode (FileName : List CHAR16) : Option DevicePathNode :=
  let data := (FileName ++ [0]).flatMap uint16Bytes
  if h : 4 + data.length < 0x10000 then
    some ⟨MEDIA_DEVICE_PATH, MEDIA_FILEPATH_DP, data, h, by decide⟩
  else none

/-- `AppendDevicePath`, for a second path that is not null. -/
def AppendDevicePath (First : Option DevicePath) (Second : DevicePath) (allocated : Bool)
    (L : Ledger) : Option (Ptr × DevicePath) × Ledger :=
  match First with
  | none =>
    -- `DuplicateDevicePath`
    if IsDevicePathValid Second && allocated then
      let (DevicePath, L) := L.acquire
      (some (DevicePath, Second), L)
    else (none, L)
  | some First =>
    if !IsDevicePathValid First || !IsDevicePathValid Second then (none, L)
    else if allocated then
      let (NewDevicePath, L) := L.acquire
      (some (NewDevicePath, First ++ Second), L)
    else (none, L)

/-- `FileDevicePath`, with what `DevicePathFromHandle` gives for the device and whether the
two allocations succeed. -/
def FileDevicePath (Device : Option DevicePath) (FileName : List CHAR16)
    (allocated : Bool × Bool) (L : Ledger) : Option (Option (Ptr × DevicePath) × Ledger) :=
  if !allocated.1 then some (none, L)
  else
    let (FileDevicePath, L) := L.acquire
    (filepathNode FileName).map fun node =>
      let (DevicePath, L) := AppendDevicePath Device [node] allocated.2 L
      (DevicePath, L.release FileDevicePath)

/-- The path of a file on a device. -/
def Names (path : DevicePath) (Device : Option DevicePath) (FileName : List CHAR16) : Prop :=
  ∃ node, filepathNode FileName = some node ∧ path = Device.getD [] ++ [node]

variable {FileName : List CHAR16} {node : DevicePathNode}

/-- A name of at most 32764 characters fits into a node. -/
theorem filepathNode_fits (h : FileName.length + 1 < 0x7FFE) :
    ∃ node, filepathNode FileName = some node := by
  have hFits : 4 + ((FileName ++ [0]).flatMap uint16Bytes).length < 0x10000 := by
    rw [length_flatMap_uint16Bytes, List.length_append, List.length_singleton]
    omega
  exact ⟨_, dif_pos hFits⟩

/-- The node ends with the name's terminator. -/
theorem filepathNode_valid (h : filepathNode FileName = some node) :
    IsDevicePathValid [node] = true := by
  have hData : node.data = FileName.flatMap uint16Bytes ++ [0, 0] := by
    unfold filepathNode at h
    dsimp only at h
    split_ifs at h
    rw [← Option.some.inj h]
    have hEnd : [(0 : CHAR16)].flatMap uint16Bytes = [0, 0] := by decide
    simp only [List.flatMap_append, hEnd]
  have hBytes : ∃ front, node.bytes = front ++ [0, 0] :=
    ⟨_, by rw [DevicePathNode.bytes, hData, ← List.append_assoc]⟩
  obtain ⟨front, hFront⟩ := hBytes
  simp [IsDevicePathValid, hFront]

theorem appendDevicePath_eq {Device : Option DevicePath} {Second : DevicePath}
    (hDevice : ∀ path, Device = some path → IsDevicePathValid path = true)
    (hSecond : IsDevicePathValid Second = true) (L : Ledger) :
    AppendDevicePath Device Second true L =
      (some (L.acquire.1, Device.getD [] ++ Second), L.acquire.2) := by
  cases Device with
  | none => simp [AppendDevicePath, hSecond]
  | some path => simp [AppendDevicePath, hSecond, hDevice path rfl]

/-- **The file's path is the device's own path and the node with its name.** -/
theorem fileDevicePath_eq {Device : Option DevicePath}
    (hDevice : ∀ path, Device = some path → IsDevicePathValid path = true)
    (hName : FileName.length + 1 < 0x7FFE) (L : Ledger) :
    ∃ p path L', FileDevicePath Device FileName (true, true) L = some (some (p, path), L') ∧
      Names path Device FileName := by
  obtain ⟨node, hNode⟩ := filepathNode_fits hName
  have hAppend := appendDevicePath_eq hDevice (filepathNode_valid hNode) L.acquire.2
  have hPath : FileDevicePath Device FileName (true, true) L =
      some (some (L.acquire.2.acquire.1, Device.getD [] ++ [node]),
        L.acquire.2.acquire.2.release L.acquire.1) := by
    simp [FileDevicePath, hNode, hAppend]
  exact ⟨_, _, _, hPath, node, hNode, rfl⟩

/-- With a name that fits a node the call comes to its end, whatever the allocations do. -/
theorem fileDevicePath_total (Device : Option DevicePath) (allocated : Bool × Bool) (L : Ledger)
    (hName : FileName.length + 1 < 0x7FFE) :
    ∃ made, FileDevicePath Device FileName allocated L = some made := by
  obtain ⟨node, hNode⟩ := filepathNode_fits hName
  unfold FileDevicePath
  split_ifs
  · exact ⟨_, rfl⟩
  · rw [hNode]
    exact ⟨_, rfl⟩

/-- What a file's path needs of the device and of the two allocations. -/
def PathMade (Device : Option DevicePath) (allocated : Bool × Bool) : Prop :=
  allocated = (true, true) ∧ ∀ path, Device = some path → IsDevicePathValid path = true

variable {L₀ L : Ledger} {fs : List Fault} {ps : List Ptr} {Device : Option DevicePath}

theorem appendDevicePath_since (Device : Option DevicePath) {Second : DevicePath}
    (hSecond : IsDevicePathValid Second = true) (h : Ledger.Since L₀ L fs ps) (allocated : Bool) :
    (AppendDevicePath Device Second allocated L = (none, L) ∧ ¬ PathMade Device (true, allocated)) ∨
    ∃ id path L', AppendDevicePath Device Second allocated L = (some (.ref id, path), L') ∧
      PathMade Device (true, allocated) ∧ Ledger.Since L₀ L' fs (.ref id :: ps) := by
  obtain ⟨id, L₁, hAcquire, hHeld⟩ := Ledger.since_acquire h
  cases Device with
  | none =>
    cases allocated with
    | true => exact Or.inr ⟨id, Second, L₁, by simp [AppendDevicePath, hSecond, hAcquire],
        ⟨rfl, by simp⟩, hHeld⟩
    | false => exact Or.inl ⟨by simp [AppendDevicePath], by simp [PathMade]⟩
  | some First =>
    cases hFirst : IsDevicePathValid First with
    | false => exact Or.inl ⟨by simp [AppendDevicePath, hFirst], by simp [PathMade, hFirst]⟩
    | true =>
      cases allocated with
      | true => exact Or.inr ⟨id, First ++ Second, L₁,
          by simp [AppendDevicePath, hFirst, hSecond, hAcquire], ⟨rfl, by simpa using hFirst⟩, hHeld⟩
      | false => exact Or.inl ⟨by simp [AppendDevicePath], by simp [PathMade]⟩

/-- **A file's path is one block, or nothing is left of it.** -/
theorem fileDevicePath_since {allocated : Bool × Bool} {made : Option (Ptr × DevicePath)}
    {L' : Ledger} (h : Ledger.Since L₀ L fs ps)
    (hRun : FileDevicePath Device FileName allocated L = some (made, L')) :
    (made = none ∧ ¬ PathMade Device allocated ∧ Ledger.Since L₀ L' fs ps) ∨
    ∃ id path, made = some (.ref id, path) ∧ PathMade Device allocated ∧
      Ledger.Since L₀ L' fs (.ref id :: ps) := by
  obtain ⟨nodeAllocated, allocated⟩ := allocated
  cases nodeAllocated with
  | false =>
    obtain ⟨rfl, rfl⟩ := Prod.mk.inj (Option.some.inj hRun)
    exact Or.inl ⟨rfl, by simp [PathMade], h⟩
  | true =>
    obtain ⟨n, L₁, hAcquire, hHeld⟩ := Ledger.since_acquire h
    simp only [FileDevicePath, hAcquire, Bool.not_true, Bool.false_eq_true, if_false,
      Option.map_eq_some_iff] at hRun
    obtain ⟨node, hNode, hRun⟩ := hRun
    rcases appendDevicePath_since Device (filepathNode_valid hNode) hHeld allocated with
      ⟨hAppend, hMade⟩ | ⟨id, path, L₂, hAppend, hMade, hBoth⟩
    · rw [hAppend] at hRun
      obtain ⟨rfl, rfl⟩ := Prod.mk.inj hRun
      exact Or.inl ⟨rfl, hMade, Ledger.since_release_ref hHeld⟩
    · rw [hAppend] at hRun
      obtain ⟨rfl, rfl⟩ := Prod.mk.inj hRun
      exact Or.inr ⟨id, path, rfl, hMade, Ledger.since_release_ref hBoth.swap⟩

end TianJi.Model
