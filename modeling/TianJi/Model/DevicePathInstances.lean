import TianJi.Model.DevicePathUtilities

/-!
# TianJi — device paths with several instances

A path can hold several paths one behind the other, with an end-of-instance node between two of
them. `AppendDevicePathInstance` adds one, `GetNextDevicePathInstance` takes one off, and the
boot manager looks for paths among the instances (BmMisc.c). The pool has room: allocations succeed.

* `instances_roundTrip` — the instances that were appended are taken off again.
* `BmMatchDevicePaths_iff` — found is what is one of the instances.
* `BmDelPartMatchInstance_filter` — removed are the instances that run along the given path as
  far as both go.
-/

namespace TianJi.Model

open Codes PathMemory

-- ---------------------------------------------------------------------------
-- The code
-- ---------------------------------------------------------------------------

/-- The search for `Single`; an instance takes at least four bytes, so that the length of `Multi`
is turns enough. -/
def matchInstances (Single : PathMemory) : Nat → Option PathMemory → Option Bool
  | 0, _ => none
  | turns + 1, DevicePath => do
    let next ← GetNextDevicePathInstance DevicePath
    match next.ReturnValue with
    | none => return false
    | some DevicePathInst =>
      if (← CompareMem Single DevicePathInst (← next.Size).toNat) = 0 then return true
      else matchInstances Single turns next.DevicePath

/-- Whether `Single` is one of the instances of `Multi`. NULL is not found and has nothing in it. -/
def BmMatchDevicePaths : Option PathMemory → Option PathMemory → Option Bool
  | some Multi, some Single => matchInstances Single (Multi.length + 1) (some Multi)
  | _, _ => some false

/-- The loop of `BmDelPartMatchInstance` and the call before it. -/
def keepInstances (Single : PathMemory) (SingleDpSize : UINTN) :
    Nat → Option PathMemory → Option PathMemory → Option (Option PathMemory)
  | 0, _, _ => none
  | turns + 1, Multi, NewDevicePath => do
    let next ← GetNextDevicePathInstance Multi
    match next.ReturnValue with
    | none => return NewDevicePath
    | some Instance =>
      let InstanceSize := (← next.Size) - END_DEVICE_PATH_LENGTH
      if (← CompareMem Instance Single (min SingleDpSize InstanceSize).toNat) ≠ 0 then
        keepInstances Single SingleDpSize turns next.DevicePath
          (← AppendDevicePathInstance NewDevicePath (some Instance))
      else keepInstances Single SingleDpSize turns next.DevicePath NewDevicePath

/-- "Delete the instance in Multi which matches partly with Single instance". -/
def BmDelPartMatchInstance : Option PathMemory → Option PathMemory → Option (Option PathMemory)
  | some Multi, some Single => do
    keepInstances Single ((← Single.GetDevicePathSize) - END_DEVICE_PATH_LENGTH)
      (Multi.length + 1) (some Multi) none
  | Multi, _ => some Multi

-- ---------------------------------------------------------------------------
-- Instances
-- ---------------------------------------------------------------------------

/-- The node between two instances. -/
def instanceBreak : DevicePathNode :=
  ⟨END_DEVICE_PATH_TYPE, END_INSTANCE_DEVICE_PATH_SUBTYPE, [], by decide, by decide⟩

/-- The instances one behind the other. -/
def joinInstances : List DevicePath → DevicePath
  | [] => []
  | [i] => i
  | i :: j :: rest => i ++ instanceBreak :: joinInstances (j :: rest)

/-- No node of the path ends anything. -/
def Plain (path : DevicePath) : Prop := ∀ n ∈ path, n.«Type» ≠ END_DEVICE_PATH_TYPE

instance (path : DevicePath) : Decidable (Plain path) := inferInstanceAs (Decidable (∀ n ∈ path, _))

variable {m m' : PathMemory} {path inst : DevicePath} {insts : List DevicePath}

/-- An instance in front. -/
theorem joinInstances_cons (i : DevicePath) (h : insts ≠ []) :
    joinInstances (i :: insts) = i ++ instanceBreak :: joinInstances insts := by
  obtain ⟨j, rest, rfl⟩ := List.exists_cons_of_ne_nil h
  rfl

/-- An instance behind. -/
theorem joinInstances_concat (h : insts ≠ []) (i : DevicePath) :
    joinInstances (insts ++ [i]) = joinInstances insts ++ instanceBreak :: i := by
  induction insts with
  | nil => exact absurd rfl h
  | cons j rest ih =>
    rw [List.cons_append, joinInstances_cons j (List.append_ne_nil_of_right_ne_nil _ (by simp))]
    by_cases hRest : rest = []
    · rw [hRest]
      rfl
    · rw [ih hRest, joinInstances_cons j hRest, List.append_assoc]
      rfl

/-- An end node with another subtype. -/
theorem instanceBreak_bytes : instanceBreak.bytes =
    [END_DEVICE_PATH_TYPE, END_INSTANCE_DEVICE_PATH_SUBTYPE] ++ uint16Bytes 4 := rfl

/-- Validity is a matter of the instances. -/
theorem valid_append : IsDevicePathValid (path ++ instanceBreak :: inst) =
    (IsDevicePathValid path && IsDevicePathValid inst) := by
  have hBreak : instanceBreak.isFilePath = false := by decide
  simp [IsDevicePathValid, List.all_append, hBreak]

/-- A subtype that is replaced in place. -/
theorem set_subType (l r : List UINT8) (type subType subType' : UINT8) :
    (l ++ (type :: subType :: r)).set (l.length + 1) subType' = l ++ (type :: subType' :: r) := by
  rw [List.set_append, if_neg (Nat.not_lt.mpr (Nat.le_succ _)), Nat.add_sub_cancel_left]
  rfl

/-- Addresses up to the end of a path in memory. -/
theorem toNat_within {k : Nat} (h : Represents m path) (hk : k ≤ (pathBytes path).length) :
    (UInt64.ofNat k).toNat = k :=
  UInt64.toNat_ofNat_of_lt' (Nat.lt_of_le_of_lt hk h.size)

/-- And behind them. -/
theorem toNat_behind {k i : Nat} (h : Represents m path) (hk : k + i ≤ (pathBytes path).length) :
    (UInt64.ofNat k + UInt64.ofNat i).toNat = k + i := by
  rw [← UInt64.ofNat_add]
  exact toNat_within h hk

/-- **An instance more.** -/
theorem AppendDevicePathInstance_represents (h : Represents m path) (h' : Represents m' inst) :
    AppendDevicePathInstance (some m) (some m') =
      some (some (pathBytes (path ++ instanceBreak :: inst))) := by
  have hValid : m.IsDevicePathValid 0 = some true := represents_iff.mpr ⟨path, h⟩
  have hValid' : m'.IsDevicePathValid 0 = some true := represents_iff.mpr ⟨inst, h'⟩
  have hEnd := length_pathBytes path
  have hStart := toNat_within (k := (nodesBytes path).length) h (by omega)
  have hOne := toNat_behind (k := (nodesBytes path).length) (i := 1) h (by omega)
  have hFour := toNat_behind (k := (nodesBytes path).length) (i := 4) h (by omega)
  have hSet : (pathBytes path).set (UInt64.ofNat (nodesBytes path).length + 1).toNat
      END_INSTANCE_DEVICE_PATH_SUBTYPE = nodesBytes path ++ instanceBreak.bytes :=
    (congrArg (fun k => (pathBytes path).set k _) hOne).trans
      (set_subType (nodesBytes path) (uint16Bytes 4) _ _ _)
  have hNext : PathMemory.NextDevicePathNode (nodesBytes path ++ instanceBreak.bytes)
      (UInt64.ofNat (nodesBytes path).length) =
        some (UInt64.ofNat (nodesBytes path).length + UInt64.ofNat 4) := by
    refine NextDevicePathNode_node (n := instanceBreak) ⟨?_, ?_⟩
    · rw [hStart, List.drop_left]
    · have hLt := UInt64.toNat_lt (UInt64.ofNat (nodesBytes path).length + UInt64.ofNat 4)
      rw [hFour] at hLt
      rwa [hStart]
  have hTake : (nodesBytes path ++ instanceBreak.bytes).take
      (UInt64.ofNat (nodesBytes path).length + UInt64.ofNat 4).toNat =
        nodesBytes path ++ instanceBreak.bytes := by
    rw [hFour]
    exact List.take_of_length_le (by rw [List.length_append]; exact le_refl _)
  rw [AppendDevicePathInstance, hValid, hValid', GetDevicePathSize_represents h,
    GetDevicePathSize_represents h']
  simp only [Option.bind_eq_bind, Option.bind_some, Option.pure_def, Bool.not_true,
    Bool.false_eq_true, if_false, toNat_size_represents h, take_pathBytes h,
    seek_end (represents_pathBytes h), hSet, hNext, hTake, toNat_size_represents h', take_pathBytes h',
    pathBytes_append, pathBytes_cons, List.append_assoc]

/-- The memory behind an instance. -/
theorem represents_drop {rest : DevicePath} (h : Represents m (inst ++ instanceBreak :: rest)) :
    Represents (m.drop ((nodesBytes inst).length + 4)) rest := by
  obtain ⟨⟨tail, rfl⟩, hSize, hValid⟩ := h
  rw [valid_append, Bool.and_eq_true] at hValid
  have hSplit : pathBytes (inst ++ instanceBreak :: rest) ++ tail =
      (nodesBytes inst ++ instanceBreak.bytes) ++ (pathBytes rest ++ tail) := by
    rw [pathBytes_append, pathBytes_cons]
    simp only [List.append_assoc]
  have hLength : (nodesBytes inst ++ instanceBreak.bytes).length = (nodesBytes inst).length + 4 :=
    List.length_append
  rw [hSplit, ← hLength, List.drop_left]
  rw [pathBytes_append, pathBytes_cons, List.length_append, List.length_append] at hSize
  exact ⟨⟨tail, rfl⟩, by omega, hValid.2⟩

/-- With the subtype replaced, the memory holds the instance alone. -/
theorem represents_cut {rest : DevicePath} (h : Represents m (inst ++ instanceBreak :: rest)) :
    Represents (m.set ((nodesBytes inst).length + 1) END_ENTIRE_DEVICE_PATH_SUBTYPE) inst := by
  obtain ⟨⟨tail, rfl⟩, hSize, hValid⟩ := h
  rw [valid_append, Bool.and_eq_true] at hValid
  have hSplit : pathBytes (inst ++ instanceBreak :: rest) ++ tail =
      nodesBytes inst ++ (END_DEVICE_PATH_TYPE :: END_INSTANCE_DEVICE_PATH_SUBTYPE ::
        (uint16Bytes 4 ++ (pathBytes rest ++ tail))) := by
    rw [pathBytes_append, pathBytes_cons, instanceBreak_bytes]
    simp only [List.append_assoc, List.cons_append, List.nil_append]
  rw [hSplit, set_subType]
  rw [pathBytes_append, pathBytes_cons, List.length_append, List.length_append] at hSize
  refine ⟨⟨pathBytes rest ++ tail, ?_⟩, ?_, hValid.1⟩
  · simp only [pathBytes_eq inst, endNode, List.append_assoc, List.cons_append, List.nil_append]
  · have hBreak : instanceBreak.bytes.length = 4 := rfl
    rw [length_pathBytes]
    omega

/-- Of an instance in front of others no node ends anything but the break. -/
theorem takeWhile_plain (hPlain : Plain inst) (rest : DevicePath) :
    ((inst ++ instanceBreak :: rest).takeWhile fun n => !decide (n.«Type» = END_DEVICE_PATH_TYPE)) =
      inst := by
  rw [List.takeWhile_append_of_pos fun n hn => by simpa using hPlain n hn]
  simp [instanceBreak]

/-- The type is the first byte. -/
theorem IsDevicePathEndType_of_byte {p : UINTN} {type : UINT8} {l : List UINT8}
    (h : Lies m p (type :: l)) :
    m.IsDevicePathEndType p = some (decide (type = END_DEVICE_PATH_TYPE)) := by
  have hByte : m.byte p = some type := by simpa using byte_of_lies (i := 0) h rfl
  rw [IsDevicePathEndType, DevicePathType, hByte]
  rfl

/-- The walk to the end of the first instance. -/
theorem seek_instance (h : Represents m path)
    (hFirst : (path.takeWhile fun n => !decide (n.«Type» = END_DEVICE_PATH_TYPE)) = inst) :
    m.seek m.IsDevicePathEndType m.length 0 = some (UInt64.ofNat (nodesBytes inst).length) := by
  have hLies : Lies m 0 (pathBytes path) := lies_zero.mpr ⟨h.memory, h.size⟩
  have hTurns : path.length < m.length := by
    obtain ⟨rest, rfl⟩ := h.memory
    rw [List.length_append]
    have hLt := length_lt_pathBytes path
    omega
  rw [seek_path (s := fun n => decide (n.«Type» = END_DEVICE_PATH_TYPE))
    (fun _ _ hNode => IsDevicePathEndType_of_byte hNode)
    (fun _ hEnd => IsDevicePathEndType_of_byte hEnd) hLies hTurns, UInt64.zero_add, hFirst]

/-- **An instance in front of others** is copied, and the others are left. -/
theorem GetNextDevicePathInstance_more {rest : DevicePath} (hPlain : Plain inst)
    (h : Represents m (inst ++ instanceBreak :: rest)) : GetNextDevicePathInstance (some m) =
      some ⟨some (pathBytes inst), some (m.drop ((nodesBytes inst).length + 4)),
        some (UInt64.ofNat (pathBytes inst).length)⟩ := by
  have hValid : m.IsDevicePathValid 0 = some true := represents_iff.mpr ⟨_, h⟩
  have hLies : Lies m 0 (pathBytes (inst ++ instanceBreak :: rest)) :=
    lies_zero.mpr ⟨h.memory, h.size⟩
  have hLength : (nodesBytes inst).length + 4 ≤ (pathBytes (inst ++ instanceBreak :: rest)).length := by
    rw [pathBytes_append, pathBytes_cons, List.length_append, List.length_append]
    exact Nat.add_le_add_left (Nat.le_add_right 4 _) _
  have hStart := toNat_within (k := (nodesBytes inst).length) h (by omega)
  have hOne := toNat_behind (k := (nodesBytes inst).length) (i := 1) h (by omega)
  have hFour := toNat_behind (k := (nodesBytes inst).length) (i := 4) h (by omega)
  rw [pathBytes_append, lies_append, UInt64.zero_add, pathBytes_cons, lies_append] at hLies
  have hSub : m.DevicePathSubType (UInt64.ofNat (nodesBytes inst).length) =
      some END_INSTANCE_DEVICE_PATH_SUBTYPE := byte_of_lies (i := 1) hLies.2.1 rfl
  have hNext : m.NextDevicePathNode (UInt64.ofNat (nodesBytes inst).length) =
      some (UInt64.ofNat (nodesBytes inst).length + UInt64.ofNat 4) :=
    NextDevicePathNode_node hLies.2.1
  have hDuplicate : PathMemory.DuplicateDevicePath
      (m.set (UInt64.ofNat (nodesBytes inst).length + 1).toNat END_ENTIRE_DEVICE_PATH_SUBTYPE) =
        some (some (pathBytes inst)) := by
    refine DuplicateDevicePath_represents ?_
    have hCut := represents_cut h
    rwa [← hOne] at hCut
  have hSize : UInt64.ofNat (nodesBytes inst).length + 4 =
      UInt64.ofNat (pathBytes inst).length := by
    rw [length_pathBytes, UInt64.ofNat_add]
    rfl
  have hNe : ¬ END_INSTANCE_DEVICE_PATH_SUBTYPE = END_ENTIRE_DEVICE_PATH_SUBTYPE := by decide
  rw [GetNextDevicePathInstance, hValid, seek_instance h (takeWhile_plain hPlain rest)]
  simp only [Option.bind_eq_bind, Option.bind_some, Option.pure_def, Bool.not_true,
    Bool.false_eq_true, if_false, hDuplicate, hSub, if_neg hNe, hNext, hFour, hSize]

/-- **The last instance** leaves nothing. -/
theorem GetNextDevicePathInstance_last (hPlain : Plain inst) (h : Represents m inst) :
    GetNextDevicePathInstance (some m) =
      some ⟨some (pathBytes inst), none, some (UInt64.ofNat (pathBytes inst).length)⟩ := by
  have hValid : m.IsDevicePathValid 0 = some true := represents_iff.mpr ⟨_, h⟩
  have hEnd := length_pathBytes inst
  have hOne := toNat_behind (k := (nodesBytes inst).length) (i := 1) h (by omega)
  have hAll : (inst.takeWhile fun n => !decide (n.«Type» = END_DEVICE_PATH_TYPE)) = inst :=
    List.takeWhile_eq_self_iff.mpr fun n hn => by simpa using hPlain n hn
  have hSub : m.DevicePathSubType (UInt64.ofNat (nodesBytes inst).length) =
      some END_ENTIRE_DEVICE_PATH_SUBTYPE := byte_of_lies (i := 1) (lies_end h) rfl
  have hDuplicate : PathMemory.DuplicateDevicePath
      (m.set (UInt64.ofNat (nodesBytes inst).length + 1).toNat END_ENTIRE_DEVICE_PATH_SUBTYPE) =
        some (some (pathBytes inst)) := by
    have hSame : m.set (UInt64.ofNat (nodesBytes inst).length + 1).toNat
        END_ENTIRE_DEVICE_PATH_SUBTYPE = m := by
      obtain ⟨rest, rfl⟩ := h.memory
      refine (congrArg (fun k => List.set _ k _) hOne).trans ?_
      rw [pathBytes_eq, List.append_assoc]
      exact set_subType (nodesBytes inst) (uint16Bytes 4 ++ rest) _ _ _
    rw [hSame]
    exact DuplicateDevicePath_represents h
  have hSize : UInt64.ofNat (nodesBytes inst).length + 4 =
      UInt64.ofNat (pathBytes inst).length := by
    rw [length_pathBytes, UInt64.ofNat_add]
    rfl
  rw [GetNextDevicePathInstance, hValid, seek_instance h hAll]
  simp only [Option.bind_eq_bind, Option.bind_some, Option.pure_def, Bool.not_true,
    Bool.false_eq_true, if_false, hDuplicate, hSub, if_true, hSize]

-- ---------------------------------------------------------------------------
-- Walks over the instances
-- ---------------------------------------------------------------------------

/-!
Every walk of the boot manager calls `GetNextDevicePathInstance` until it gives NULL. What is in
front of the walk is a list of instances, and `next_cons` is all that the walks need of the call.
-/

/-- The pointer of a walk that has some instances in front of it: NULL when there are none. -/
def Remains (pointer : Option PathMemory) : List DevicePath → Prop
  | [] => pointer = none
  | i :: rest => ∃ m, pointer = some m ∧ Represents m (joinInstances (i :: rest))

variable {pointer : Option PathMemory}

/-- A walk that is at its end stays there. -/
theorem next_nil (h : Remains pointer []) :
    GetNextDevicePathInstance pointer = some ⟨none, none, some 0⟩ := by
  rw [show pointer = none from h]
  rfl

/-- The bytes that some instances take, each with an end node. -/
def sizes (insts : List DevicePath) : Nat := (insts.map fun i => (pathBytes i).length).sum

/-- The first one takes its own bytes. -/
theorem sizes_cons (i : DevicePath) (insts : List DevicePath) :
    sizes (i :: insts) = (pathBytes i).length + sizes insts := List.sum_cons

/-- Each instance takes a byte at least. -/
theorem length_le_sizes (insts : List DevicePath) : insts.length ≤ sizes insts := by
  induction insts with
  | nil => exact Nat.zero_le _
  | cons i rest ih =>
    have hFour := four_le_length_pathBytes i
    rw [sizes_cons, List.length_cons]
    omega

/-- A break is as long as the end node that it stands for. -/
theorem length_joinInstances (h : insts ≠ []) :
    (pathBytes (joinInstances insts)).length = sizes insts := by
  induction insts with
  | nil => exact absurd rfl h
  | cons i rest ih =>
    rw [sizes_cons]
    by_cases hRest : rest = []
    · rw [hRest]
      rfl
    · have hBreak : instanceBreak.bytes.length = 4 := rfl
      rw [joinInstances_cons i hRest, pathBytes_append, pathBytes_cons, List.length_append,
        List.length_append, ih hRest, length_pathBytes]
      omega

/-- **A turn** takes the first instance off. -/
theorem next_cons (hPlain : Plain inst) (h : Remains pointer (inst :: insts)) :
    ∃ pointer' Size, GetNextDevicePathInstance pointer =
        some ⟨some (pathBytes inst), pointer', some Size⟩ ∧
      Size.toNat = (pathBytes inst).length ∧ Remains pointer' insts := by
  obtain ⟨m, rfl, hHeld⟩ := h
  have hSize : (UInt64.ofNat (pathBytes inst).length).toNat = (pathBytes inst).length := by
    have hAll := hHeld.size
    rw [length_joinInstances (List.cons_ne_nil _ _), sizes_cons] at hAll
    exact UInt64.toNat_ofNat_of_lt' (show _ < 2 ^ 64 by omega)
  cases insts with
  | nil => exact ⟨none, _, GetNextDevicePathInstance_last hPlain hHeld, hSize, rfl⟩
  | cons j rest =>
    exact ⟨_, _, GetNextDevicePathInstance_more hPlain hHeld, hSize, _, rfl, represents_drop hHeld⟩

/-- As many turns as the memory has bytes are enough. -/
theorem length_le_of_represents (h : Represents m (joinInstances insts)) :
    insts.length ≤ m.length := by
  by_cases hNe : insts = []
  · rw [hNe]
    exact Nat.zero_le _
  · have hLe := length_le_sizes insts
    obtain ⟨rest, rfl⟩ := h.memory
    rw [← length_joinInstances hNe] at hLe
    rw [List.length_append]
    omega

/-- A node that separates instances. -/
def isBreak (n : DevicePathNode) : Bool :=
  n.«Type» = END_DEVICE_PATH_TYPE && n.SubType = END_INSTANCE_DEVICE_PATH_SUBTYPE

/-- The search for a break is one over the nodes. -/
theorem hasBreak_path {p : UINTN} {turns : Nat} (h : Lies m p (pathBytes path))
    (hTurns : path.length < turns) : m.hasBreak turns p = some (path.any isBreak) := by
  induction turns generalizing p path with
  | zero => exact absurd hTurns (Nat.not_lt_zero _)
  | succ turns ih =>
    rw [hasBreak]
    cases path with
    | nil =>
      rw [IsDevicePathEnd_endNode h]
      rfl
    | cons n path =>
      obtain ⟨hFirst, hRest⟩ := lies_pathBytes_cons h
      have hType : m.IsDevicePathEndInstance p = some (isBreak n) := by
        rw [IsDevicePathEndInstance, hasType_node hFirst, isBreak, Bool.decide_and]
      rw [IsDevicePathEnd_node hFirst, hType, NextDevicePathNode_node hFirst, List.any_cons]
      simp only [Option.bind_eq_bind, Option.bind_some, Bool.false_eq_true, if_false,
        ih hRest (Nat.succ_lt_succ_iff.mp hTurns)]
      cases isBreak n with
      | true => rfl
      | false => rfl

/-- There is no break within an instance. -/
theorem any_isBreak_plain (h : Plain path) : path.any isBreak = false := by
  rw [List.any_eq_false]
  intro n hn
  simp [isBreak, h n hn]

/-- **A path with several instances** is one that has a break. -/
theorem IsDevicePathMultiInstance_iff (hPlain : ∀ i ∈ insts, Plain i)
    (h : Represents m (joinInstances insts)) :
    IsDevicePathMultiInstance (some m) = some (decide (2 ≤ insts.length)) := by
  have hValid : m.IsDevicePathValid 0 = some true := represents_iff.mpr ⟨_, h⟩
  have hLies : Lies m 0 (pathBytes (joinInstances insts)) := lies_zero.mpr ⟨h.memory, h.size⟩
  have hTurns : (joinInstances insts).length < m.length := by
    obtain ⟨rest, rfl⟩ := h.memory
    rw [List.length_append]
    have hLt := length_lt_pathBytes (joinInstances insts)
    omega
  have hAny : (joinInstances insts).any isBreak = decide (2 ≤ insts.length) := by
    cases insts with
    | nil => rfl
    | cons i rest =>
      obtain ⟨hFirst, -⟩ := List.forall_mem_cons.mp hPlain
      by_cases hRest : rest = []
      · rw [hRest]
        exact any_isBreak_plain hFirst
      · -- with a second instance the first break is found
        have hTwo : 2 ≤ (i :: rest).length := by
          have hPos := List.length_pos_of_ne_nil hRest
          rw [List.length_cons]
          omega
        have hBreak : isBreak instanceBreak = true := by decide
        rw [joinInstances_cons i hRest, List.any_append, List.any_cons, hBreak, Bool.true_or,
          Bool.or_true, decide_eq_true hTwo]
  rw [IsDevicePathMultiInstance, hValid]
  simp only [Option.bind_eq_bind, Option.bind_some, Bool.not_true, Bool.false_eq_true, if_false,
    hasBreak_path hLies hTurns, hAny]

-- ---------------------------------------------------------------------------
-- Comparisons
-- ---------------------------------------------------------------------------

/-!
The lengths that are compared are those of one side, so that the comparison could run out of the
other one. It does not: the end node of a path is in no other path at the same place, unless what
is in front of it differs.
-/

variable {u v : List UINT8}

/-- Bytes that both have are equal when their beginnings are. -/
theorem CompareMem_within {n : Nat} (hu : n ≤ u.length) (hv : n ≤ v.length) :
    ∃ k, CompareMem u v n = some k ∧ (k = 0 ↔ u.take n = v.take n) := by
  induction n generalizing u v with
  | zero => exact ⟨0, by cases u <;> cases v <;> rfl, by simp⟩
  | succ n ih =>
    obtain ⟨a, u, rfl⟩ := List.exists_cons_of_length_pos (Nat.lt_of_lt_of_le (Nat.succ_pos n) hu)
    obtain ⟨b, v, rfl⟩ := List.exists_cons_of_length_pos (Nat.lt_of_lt_of_le (Nat.succ_pos n) hv)
    rw [CompareMem]
    split_ifs with hSame
    · obtain ⟨k, hRun, hZero⟩ := ih (Nat.le_of_succ_le_succ hu) (Nat.le_of_succ_le_succ hv)
      exact ⟨k, hRun, by simp [hZero, hSame]⟩
    · refine ⟨_, rfl, ?_⟩
      have hNe : a.toNat ≠ b.toNat := fun h => hSame (UInt8.toNat_inj.mp h)
      simp only [List.take_succ_cons, List.cons.injEq, hSame, false_and, iff_false]
      omega

/-- Where neither begins with the other, a difference is found before either one ends. -/
theorem CompareMem_apart {n : Nat} (hu : ¬ u <+: v) (hv : ¬ v <+: u) (hn : u.length ≤ n ∨ v.length ≤ n)
    (r r' : List UINT8) : ∃ k, CompareMem (u ++ r) (v ++ r') n = some k ∧ k ≠ 0 := by
  induction u generalizing v n with
  | nil => exact absurd (List.nil_prefix) hu
  | cons a u ih =>
    cases v with
    | nil => exact absurd (List.nil_prefix) hv
    | cons b v =>
      obtain ⟨n, rfl⟩ : ∃ k, n = k + 1 := by
        refine ⟨n - 1, ?_⟩
        simp only [List.length_cons] at hn
        omega
      rw [List.cons_append, List.cons_append, CompareMem]
      split_ifs with hSame
      · subst hSame
        rw [List.cons_prefix_cons] at hu hv
        simp only [true_and] at hu hv
        simp only [List.length_cons] at hn
        exact ih hu hv (by omega)
      · refine ⟨_, rfl, ?_⟩
        have hNe : a.toNat ≠ b.toNat := fun h => hSame (UInt8.toNat_inj.mp h)
        omega

/-- **Comparing the bytes of paths** compares the paths, and stays inside both. -/
theorem CompareMem_path {single : DevicePath} (h : Represents m single) (inst : DevicePath) :
    ∃ k, CompareMem m (pathBytes inst) (pathBytes inst).length = some k ∧ (k = 0 ↔ single = inst) := by
  obtain ⟨rest, rfl⟩ := h.memory
  by_cases hSame : single = inst
  · -- all bytes are compared, and they are there
    subst hSame
    have hLe : (pathBytes single).length ≤ (pathBytes single ++ rest).length := by
      rw [List.length_append]
      exact Nat.le_add_right _ _
    obtain ⟨k, hRun, hZero⟩ := CompareMem_within hLe (le_refl (pathBytes single).length)
    exact ⟨k, hRun, by simp [hZero]⟩
  · -- no path's bytes begin with another's, so that a difference comes in time
    obtain ⟨k, hRun, hNonzero⟩ := CompareMem_apart (n := (pathBytes inst).length)
      (mt selfDelimiting_pathBytes.initial_iff.mp hSame)
      (mt selfDelimiting_pathBytes.initial_iff.mp (Ne.symm hSame)) (Or.inr (le_refl _)) rest []
    rw [List.append_nil] at hRun
    exact ⟨k, hRun, iff_of_false hNonzero hSame⟩

-- ---------------------------------------------------------------------------
-- Looking for a path
-- ---------------------------------------------------------------------------

variable {single : DevicePath} {s : PathMemory}

/-- The search among the instances that are in front of the walk. -/
theorem matchInstances_iff (hSingle : Represents s single) (hPlain : ∀ i ∈ insts, Plain i)
    (hRemains : Remains pointer insts) {turns : Nat} (hTurns : insts.length < turns) :
    matchInstances s turns pointer = some (decide (single ∈ insts)) := by
  induction turns generalizing pointer insts with
  | zero => exact absurd hTurns (Nat.not_lt_zero _)
  | succ turns ih =>
    rw [matchInstances]
    cases insts with
    | nil =>
      rw [next_nil hRemains]
      simp
    | cons i rest =>
      obtain ⟨hFirst, hRest⟩ := List.forall_mem_cons.mp hPlain
      obtain ⟨pointer', Size, hNext, hSize, hLeft⟩ := next_cons hFirst hRemains
      obtain ⟨k, hCompare, hZero⟩ := CompareMem_path hSingle i
      rw [hNext]
      simp only [Option.bind_eq_bind, Option.bind_some, hSize, hCompare, hZero]
      split_ifs with hSame
      · simp [hSame]
      · rw [ih hRest hLeft (Nat.succ_lt_succ_iff.mp hTurns)]
        simp [hSame]

/--
**Matching.** `Single` is found in `Multi` exactly when it is one of its instances, and nothing
outside the two is read.
-/
theorem BmMatchDevicePaths_iff (hNe : insts ≠ []) (hPlain : ∀ i ∈ insts, Plain i)
    (hMulti : Represents m (joinInstances insts)) (hSingle : Represents s single) :
    BmMatchDevicePaths (some m) (some s) = some (decide (single ∈ insts)) := by
  have hRemains : Remains (some m) insts := by
    obtain ⟨i, rest, rfl⟩ := List.exists_cons_of_ne_nil hNe
    exact ⟨m, rfl, hMulti⟩
  exact matchInstances_iff hSingle hPlain hRemains
    (Nat.lt_succ_of_le (length_le_of_represents hMulti))

/-- The second of two instances. -/
theorem BmMatchDevicePaths_numbered :
    BmMatchDevicePaths (some (pathBytes (joinInstances [numberedPath 1, numberedPath 2])))
      (some (pathBytes (numberedPath 2))) = some true := by
  have hPlain : ∀ i ∈ [numberedPath 1, numberedPath 2], Plain i := by decide
  have hMulti : Represents (pathBytes (joinInstances [numberedPath 1, numberedPath 2]))
      (joinInstances [numberedPath 1, numberedPath 2]) := ⟨⟨[], rfl⟩, by decide, by decide⟩
  have hSingle : Represents (pathBytes (numberedPath 2)) (numberedPath 2) :=
    ⟨⟨[], rfl⟩, by decide, by decide⟩
  exact BmMatchDevicePaths_iff (by decide) hPlain hMulti hSingle

-- ---------------------------------------------------------------------------
-- Removing instances
-- ---------------------------------------------------------------------------

/-!
The end nodes are left out of the comparison here, and the shorter side says how much is compared.
That removes an instance that goes on behind `Single`, and one that stops in front of its end.
-/

/-- A path made of some instances: NULL when there are none. -/
def packed (insts : List DevicePath) : Option PathMemory :=
  if insts = [] then none else some (pathBytes (joinInstances insts))

/-- The joined path is valid when the instances are. -/
theorem valid_joinInstances (insts : List DevicePath) :
    IsDevicePathValid (joinInstances insts) = insts.all IsDevicePathValid := by
  induction insts with
  | nil => rfl
  | cons i rest ih =>
    by_cases hRest : rest = []
    · rw [hRest]
      simp [joinInstances]
    · rw [joinInstances_cons i hRest, valid_append, ih, List.all_cons]

/-- The bytes of the joined path are the path in memory. -/
theorem represents_joined (hNe : insts ≠ []) (hValid : ∀ i ∈ insts, IsDevicePathValid i = true)
    (hSize : sizes insts < 2 ^ 64) :
    Represents (pathBytes (joinInstances insts)) (joinInstances insts) := by
  refine ⟨⟨[], (List.append_nil _).symm⟩, ?_, ?_⟩
  · rwa [length_joinInstances hNe]
  · rw [valid_joinInstances, List.all_eq_true]
    exact hValid

/-- The last one takes its own bytes. -/
theorem sizes_concat (insts : List DevicePath) (i : DevicePath) :
    sizes (insts ++ [i]) = sizes insts + (pathBytes i).length := by
  simp [sizes]

/-- Appending packs one instance more. -/
theorem AppendDevicePathInstance_concat (hValid : ∀ i ∈ insts, IsDevicePathValid i = true)
    (hSize : sizes insts < 2 ^ 64) (hInst : Represents m' inst) :
    AppendDevicePathInstance (packed insts) (some m') = some (packed (insts ++ [inst])) := by
  have hPacked : packed (insts ++ [inst]) = some (pathBytes (joinInstances (insts ++ [inst]))) :=
    if_neg (List.append_ne_nil_of_right_ne_nil _ (List.cons_ne_nil _ _))
  rw [hPacked]
  by_cases hNe : insts = []
  · rw [packed, if_pos hNe, hNe]
    exact DuplicateDevicePath_represents hInst
  · rw [packed, if_neg hNe, joinInstances_concat hNe]
    exact AppendDevicePathInstance_represents (represents_joined hNe hValid hSize) hInst

/-- The same for an instance that is given by its bytes. -/
theorem AppendDevicePathInstance_packed (hValid : ∀ i ∈ insts ++ [inst], IsDevicePathValid i = true)
    (hSize : sizes (insts ++ [inst]) < 2 ^ 64) :
    AppendDevicePathInstance (packed insts) (some (pathBytes inst)) =
      some (packed (insts ++ [inst])) := by
  obtain ⟨hKept, hNew⟩ := List.forall_mem_append.mp hValid
  rw [sizes_concat] at hSize
  have hInst : Represents (pathBytes inst) inst :=
    ⟨⟨[], (List.append_nil _).symm⟩, by omega, hNew inst (List.mem_singleton_self _)⟩
  exact AppendDevicePathInstance_concat hKept (by omega) hInst

/-- The paths agree as far as both go. -/
def Alongside (i single : DevicePath) : Prop := i <+: single ∨ single <+: i

instance (i single : DevicePath) : Decidable (Alongside i single) :=
  inferInstanceAs (Decidable (_ ∨ _))

/-- Compared as far as both go. -/
theorem take_min_iff {u v : List UINT8} {n : Nat} (hn : n = min v.length u.length) :
    u.take n = v.take n ↔ u <+: v ∨ v <+: u := by
  rcases Nat.le_total u.length v.length with hLe | hLe
  · rw [hn, Nat.min_eq_right hLe, List.take_length, ← List.prefix_iff_eq_take]
    refine (or_iff_left_of_imp fun hOther => ?_).symm
    rw [hOther.eq_of_length_le hLe]
  · rw [hn, Nat.min_eq_left hLe, List.take_length, eq_comm, ← List.prefix_iff_eq_take]
    refine (or_iff_right_of_imp fun hOther => ?_).symm
    rw [hOther.eq_of_length_le hLe]

/-- **Comparing as many bytes as both paths have.** -/
theorem CompareMem_alongside (h : Represents s single) (i : DevicePath) {n : Nat}
    (hn : n = min (nodesBytes single).length (nodesBytes i).length) :
    ∃ k, CompareMem (pathBytes i) s n = some k ∧ (k = 0 ↔ Alongside i single) := by
  obtain ⟨rest, rfl⟩ := h.memory
  have hBytes : ∀ a : DevicePathNode, a.bytes ≠ [] := fun a hNil => by
    have hLength := length_bytes a
    rw [hNil, List.length_nil] at hLength
    omega
  have hFirst : n ≤ (nodesBytes i).length := hn.le.trans (Nat.min_le_right _ _)
  have hSecond : n ≤ (nodesBytes single).length := hn.le.trans (Nat.min_le_left _ _)
  obtain ⟨k, hRun, hZero⟩ := CompareMem_within (u := pathBytes i) (v := pathBytes single ++ rest)
    (n := n) (by rw [length_pathBytes]; omega)
    (by rw [List.length_append, length_pathBytes]; omega)
  refine ⟨k, hRun, ?_⟩
  rw [hZero, pathBytes_eq, pathBytes_eq, List.append_assoc, List.take_append_of_le_length hFirst,
    List.take_append_of_le_length hSecond, take_min_iff hn, Alongside]
  exact or_congr (selfDelimiting_bytes.flatMap_initial_iff hBytes)
    (selfDelimiting_bytes.flatMap_initial_iff hBytes)

/-- `MIN`, on numbers. -/
theorem toNat_min (x y : UINTN) : (min x y).toNat = min x.toNat y.toNat := by
  have hMin : min x y = if x ≤ y then x else y := rfl
  rw [hMin]
  split_ifs with hLe
  · rw [Nat.min_eq_left (UInt64.le_iff_toNat_le.mp hLe)]
  · rw [UInt64.le_iff_toNat_le, Nat.not_le] at hLe
    rw [Nat.min_eq_right hLe.le]

/-- **The loop** keeps what does not run along `Single`. -/
theorem keepInstances_filter {kept : List DevicePath} (hSingle : Represents s single)
    (hPlain : ∀ i ∈ insts, Plain i) (hRemains : Remains pointer insts)
    (hValid : ∀ i ∈ kept ++ insts, IsDevicePathValid i = true)
    (hSize : sizes kept + sizes insts < 2 ^ 64) {turns : Nat} (hTurns : insts.length < turns) :
    keepInstances s (UInt64.ofNat (nodesBytes single).length) turns pointer (packed kept) =
      some (packed (kept ++ insts.filter fun i => !decide (Alongside i single))) := by
  induction turns generalizing pointer insts kept with
  | zero => exact absurd hTurns (Nat.not_lt_zero _)
  | succ turns ih =>
    rw [keepInstances]
    cases insts with
    | nil =>
      rw [next_nil hRemains]
      simp
    | cons i rest =>
      obtain ⟨hFirst, hRest⟩ := List.forall_mem_cons.mp hPlain
      obtain ⟨pointer', Size, hNext, hBytes, hLeft⟩ := next_cons hFirst hRemains
      rw [sizes_cons] at hSize
      -- both sizes are without the end nodes
      have hCut : (Size - END_DEVICE_PATH_LENGTH).toNat = (nodesBytes i).length := by
        have hFour : END_DEVICE_PATH_LENGTH.toNat = 4 := rfl
        rw [length_pathBytes] at hBytes
        rw [UInt64.toNat_sub_of_le _ _ (UInt64.le_iff_toNat_le.mpr (by omega)), hFour, hBytes,
          Nat.add_sub_cancel]
      have hMin : (min (UInt64.ofNat (nodesBytes single).length)
          (Size - END_DEVICE_PATH_LENGTH)).toNat =
            min (nodesBytes single).length (nodesBytes i).length := by
        rw [toNat_min, toNat_within hSingle (by rw [length_pathBytes]; omega), hCut]
      obtain ⟨k, hCompare, hZero⟩ := CompareMem_alongside hSingle i hMin
      rw [hNext]
      simp only [Option.bind_eq_bind, Option.bind_some, hCompare, ne_eq, hZero]
      by_cases hAlong : Alongside i single
      -- dropped, or appended to what is kept
      · rw [if_neg (not_not.mpr hAlong), ih hRest hLeft (fun j hj => hValid j ?_) (by omega)
          (Nat.succ_lt_succ_iff.mp hTurns)]
        · simp [hAlong]
        · simp only [List.mem_append, List.mem_cons] at hj ⊢
          tauto
      · have hAppend : AppendDevicePathInstance (packed kept) (some (pathBytes i)) =
            some (packed (kept ++ [i])) := AppendDevicePathInstance_packed
          (fun j hj => hValid j (by
            simp only [List.mem_append, List.mem_cons, List.not_mem_nil, or_false] at hj ⊢
            tauto))
          (by rw [sizes_concat]; omega)
        rw [if_pos hAlong, hAppend, Option.bind_some, ih hRest hLeft (fun j hj => hValid j ?_)
          (by rw [sizes_concat]; omega) (Nat.succ_lt_succ_iff.mp hTurns)]
        · simp [hAlong]
        · simpa using hj

/--
**Removing.** What is left of `Multi` are the instances that do not run along `Single`, in their
order, and NULL when there are none.
-/
theorem BmDelPartMatchInstance_filter (hNe : insts ≠ []) (hPlain : ∀ i ∈ insts, Plain i)
    (hMulti : Represents m (joinInstances insts)) (hSingle : Represents s single) :
    BmDelPartMatchInstance (some m) (some s) =
      some (packed (insts.filter fun i => !decide (Alongside i single))) := by
  have hRemains : Remains (some m) insts := by
    obtain ⟨i, rest, rfl⟩ := List.exists_cons_of_ne_nil hNe
    exact ⟨m, rfl, hMulti⟩
  have hValid : ∀ i ∈ [] ++ insts, IsDevicePathValid i = true := by
    have hAll := hMulti.valid
    rwa [valid_joinInstances, List.all_eq_true] at hAll
  have hSize : sizes [] + sizes insts < 2 ^ 64 := by
    rw [← length_joinInstances hNe]
    exact (Nat.zero_add _).trans_lt hMulti.size
  have hCut : UInt64.ofNat (pathBytes single).length - END_DEVICE_PATH_LENGTH =
      UInt64.ofNat (nodesBytes single).length := by
    rw [length_pathBytes, UInt64.ofNat_add]
    exact UInt64.add_sub_cancel _ _
  have hLoop := keepInstances_filter hSingle hPlain hRemains hValid hSize
    (Nat.lt_succ_of_le (length_le_of_represents hMulti))
  rw [BmDelPartMatchInstance, GetDevicePathSize_represents hSingle]
  simp only [Option.bind_eq_bind, Option.bind_some, hCut]
  exact hLoop

/-- Of two instances, the second one is removed. -/
theorem BmDelPartMatchInstance_numbered :
    BmDelPartMatchInstance (some (pathBytes (joinInstances [numberedPath 1, numberedPath 2])))
      (some (pathBytes (numberedPath 2))) = some (some (pathBytes (numberedPath 1))) := by
  have hPlain : ∀ i ∈ [numberedPath 1, numberedPath 2], Plain i := by decide
  have hMulti : Represents (pathBytes (joinInstances [numberedPath 1, numberedPath 2]))
      (joinInstances [numberedPath 1, numberedPath 2]) := ⟨⟨[], rfl⟩, by decide, by decide⟩
  have hSingle : Represents (pathBytes (numberedPath 2)) (numberedPath 2) :=
    ⟨⟨[], rfl⟩, by decide, by decide⟩
  exact BmDelPartMatchInstance_filter (by decide) hPlain hMulti hSingle

-- ---------------------------------------------------------------------------
-- Round trip
-- ---------------------------------------------------------------------------

/-- Appends paths to a path that is NULL at first, as the console variables are built. -/
def appendInstances (paths : List PathMemory) : Option (Option PathMemory) :=
  paths.foldlM (fun DevicePath inst => AppendDevicePathInstance DevicePath (some inst)) none

/-- The loops that take one instance after the other. -/
def takeInstances : Nat → Option PathMemory → Option (List PathMemory)
  | 0, _ => none
  | turns + 1, DevicePath => do
    let next ← GetNextDevicePathInstance DevicePath
    match next.ReturnValue with
    | none => return []
    | some Instance => return Instance :: (← takeInstances turns next.DevicePath)

variable {kept : List DevicePath}

/-- Appending to what is already kept. -/
theorem appendInstances_packed (hValid : ∀ i ∈ kept ++ insts, IsDevicePathValid i = true)
    (hSize : sizes kept + sizes insts < 2 ^ 64) :
    (insts.map pathBytes).foldlM
      (fun DevicePath inst => AppendDevicePathInstance DevicePath (some inst)) (packed kept) =
        some (packed (kept ++ insts)) := by
  induction insts generalizing kept with
  | nil =>
    rw [List.append_nil]
    rfl
  | cons i rest ih =>
    rw [List.append_cons] at hValid ⊢
    rw [sizes_cons] at hSize
    have hAppend : AppendDevicePathInstance (packed kept) (some (pathBytes i)) =
        some (packed (kept ++ [i])) := AppendDevicePathInstance_packed
      (fun j hj => hValid j (List.mem_append_left _ hj)) (by rw [sizes_concat]; omega)
    rw [List.map_cons, List.foldlM_cons, hAppend]
    exact ih hValid (by rw [sizes_concat]; omega)

/-- Taking off what is in front of the walk. -/
theorem takeInstances_remains (hPlain : ∀ i ∈ insts, Plain i) (hRemains : Remains pointer insts)
    {turns : Nat} (hTurns : insts.length < turns) :
    takeInstances turns pointer = some (insts.map pathBytes) := by
  induction turns generalizing pointer insts with
  | zero => exact absurd hTurns (Nat.not_lt_zero _)
  | succ turns ih =>
    rw [takeInstances]
    cases insts with
    | nil =>
      rw [next_nil hRemains]
      rfl
    | cons i rest =>
      obtain ⟨hFirst, hRest⟩ := List.forall_mem_cons.mp hPlain
      obtain ⟨pointer', Size, hNext, -, hLeft⟩ := next_cons hFirst hRemains
      rw [hNext]
      simp only [Option.bind_eq_bind, Option.bind_some,
        ih hRest hLeft (Nat.succ_lt_succ_iff.mp hTurns)]
      rfl

/--
**Round trip.** Paths of one instance each, appended one after the other, are taken off again one
after the other.
-/
theorem instances_roundTrip (hPlain : ∀ i ∈ insts, Plain i)
    (hValid : ∀ i ∈ insts, IsDevicePathValid i = true) (hSize : sizes insts < 2 ^ 64) :
    (appendInstances (insts.map pathBytes)).bind (takeInstances (insts.length + 1)) =
      some (insts.map pathBytes) := by
  have hAll : ∀ i ∈ [] ++ insts, IsDevicePathValid i = true := hValid
  have hTotal : sizes [] + sizes insts < 2 ^ 64 := (Nat.zero_add _).trans_lt hSize
  have hPacked := appendInstances_packed hAll hTotal
  have hRemains : Remains (packed insts) insts := by
    cases insts with
    | nil => rfl
    | cons i rest =>
      exact ⟨_, if_neg (List.cons_ne_nil _ _),
        represents_joined (List.cons_ne_nil _ _) hValid hSize⟩
  have hNone : packed [] = none := if_pos rfl
  rw [hNone] at hPacked
  rw [appendInstances, hPacked]
  exact takeInstances_remains hPlain hRemains (Nat.lt_succ_self _)

/-- Two paths of one instance each. -/
theorem instances_roundTrip_numbered :
    (appendInstances ([numberedPath 1, numberedPath 2].map pathBytes)).bind (takeInstances 3) =
      some ([numberedPath 1, numberedPath 2].map pathBytes) :=
  instances_roundTrip (by decide) (by decide) (by decide)

end TianJi.Model
