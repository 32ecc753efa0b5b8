import TianJi.Lib.Ledger
import TianJi.Lib.Service
import TianJi.Model.DevicePathInstances
import TianJi.Model.OptionStore

/-!
# TianJi — the variables of the consoles

`EfiBootManagerUpdateConsoleVariable` (BmConsole.c) takes the paths that run along one path out of
a console's variable and appends another one, in place of what runs along it. Pointers to paths are
compared where the paths should be.

The buffers that are counted are those that the call has a pointer to: the variable's, the copy without
the excluded path, the copy without what runs along the customized one and the copy with that. What
`BmDelPartMatchInstance` and `BmMatchDevicePaths` take from the pool for themselves is not counted.
Allocations succeed.

* `update_spec`  — one update, as one of a list of paths, and what it leaves in the pool.
* `consoles_run` — any updates of any consoles, whatever the firmware refuses.
-/

namespace TianJi.Model

open Ownership PathMemory

-- ---------------------------------------------------------------------------
-- The code
-- ---------------------------------------------------------------------------

/-- The consoles, those of this start and those that are there. -/
inductive CONSOLE_TYPE where
  | ConIn
  | ConOut
  | ErrOut
  | ConInDev
  | ConOutDev
  | ErrOutDev
  | ConsoleTypeMax
  deriving DecidableEq, Repr

/-- Their variables. -/
def mConVarName : CONSOLE_TYPE → Option (List CHAR16)
  | .ConIn => L "ConIn"
  | .ConOut => L "ConOut"
  | .ErrOut => L "ErrOut"
  | .ConInDev => L "ConInDev"
  | .ConOutDev => L "ConOutDev"
  | .ErrOutDev => L "ErrOutDev"
  | .ConsoleTypeMax => none

/-- What is smaller than `ConInDev` is kept for the next start. -/
def consoleAttributes : CONSOLE_TYPE → UINT32
  | .ConIn | .ConOut | .ErrOut => nonVolatile
  | _ => EFI_VARIABLE_BOOTSERVICE_ACCESS ||| EFI_VARIABLE_RUNTIME_ACCESS

/-- A path of the caller and its address. -/
structure Located where
  address : UINTN
  path : PathMemory

/-- A pointer to a path in the pool: what lies there, and what has to be released. -/
structure PoolPath where
  path : Option PathMemory
  owed : Ptr

/-- A path in a buffer of its own, or NULL. -/
def PoolPath.new (path : Option PathMemory) (L : Ledger) : PoolPath × Ledger :=
  (⟨path, (L.tryAcquire path.isSome).1⟩, (L.tryAcquire path.isSome).2)

/-- `BmDelPartMatchInstance` returns `Multi` itself when there is nothing to compare. -/
def deletePart (Multi : PoolPath) (Single : Option Located) (L : Ledger) :
    Option (PoolPath × Ledger) :=
  match Multi.path, Single with
  | some multi, some single => do
    return PoolPath.new (← BmDelPartMatchInstance (some multi) (some single.path)) L
  | _, _ => some (Multi, L)

/-- "Try to append customized device path to NewDevicePath." -/
def addCustomized (NewDevicePath : PoolPath) (CustomizedConDevicePath : Option Located)
    (L : Ledger) : Option (PoolPath × Ledger) :=
  match CustomizedConDevicePath with
  | none => some (NewDevicePath, L)
  | some customized => do
    if ← BmMatchDevicePaths NewDevicePath.path (some customized.path) then return (NewDevicePath, L)
    else
      let (TempNewDevicePath, L) ← deletePart NewDevicePath (some customized) L
      let (NewDevicePath, L) := PoolPath.new
        (← AppendDevicePathInstance TempNewDevicePath.path (some customized.path)) L
      return (NewDevicePath, L.releaseIf TempNewDevicePath.owed)

/-- As many bytes of a path as `GetDevicePathSize` says. -/
def pathData : Option PathMemory → Option (List UINT8)
  | none => some []
  | some m => do return m.take (← m.GetDevicePathSize).toNat

/-- The arguments of a call. -/
structure ConsoleUpdate where
  ConsoleType : CONSOLE_TYPE
  CustomizedConDevicePath : Option Located
  ExclusiveDevicePath : Option Located

/-- The status of a call, and what it leaves in the pool. -/
structure ConsoleAnswer where
  Status : EFI_STATUS
  pool : Ledger

section Code

variable (gRT : RuntimeServices)

/-- The pool is counted from the call on. What the call does not release is what it leaves. -/
def EfiBootManagerUpdateConsoleVariable (s : gRT.State) (q : ConsoleUpdate) :
    Option (ConsoleAnswer × gRT.State) :=
  match mConVarName q.ConsoleType with
  | none => some (⟨EFI_INVALID_PARAMETER, .empty⟩, s)
  | some Name =>
    -- "check the device path point, here should check with compare memory"
    if q.CustomizedConDevicePath.map Located.address = q.ExclusiveDevicePath.map Located.address then
      some (⟨EFI_UNSUPPORTED, .empty⟩, s)
    else do
      let (VarConsole, L) := PoolPath.new (gRT.GetVariable s Name) .empty
      let (NewDevicePath, L) ← deletePart VarConsole q.ExclusiveDevicePath L
      let (NewDevicePath, L) ← addCustomized NewDevicePath q.CustomizedConDevicePath L
      let (Status, s) := gRT.SetVariable s Name (consoleAttributes q.ConsoleType)
        (← pathData NewDevicePath.path)
      let L := L.releaseIf VarConsole.owed
      return (⟨Status, if VarConsole.owed = NewDevicePath.owed then L
        else L.releaseIf NewDevicePath.owed⟩, s)

end Code

-- ---------------------------------------------------------------------------
-- Lists of paths
-- ---------------------------------------------------------------------------

/-!
What an update is for, without bytes. A path stands for itself and for what runs along it, so that
the instances of a console are meant to be `Separate`. Nothing makes them so, but updates keep it.
-/

variable {insts kept : List DevicePath} {c e : DevicePath} {m : PathMemory}

/-- The paths that do not run along the given one. -/
def without (e : DevicePath) (insts : List DevicePath) : List DevicePath :=
  insts.filter fun i => !decide (Alongside i e)

/-- A path that is not there yet takes the place of those that run along it. -/
def including (c : DevicePath) (insts : List DevicePath) : List DevicePath :=
  if c ∈ insts then insts else without c insts ++ [c]

/-- Nothing is excluded where no path is given. -/
def excluding (exclusive : Option DevicePath) (insts : List DevicePath) : List DevicePath :=
  exclusive.elim insts (without · insts)

/-- What an update is for. -/
def updated (customized exclusive : Option DevicePath) (insts : List DevicePath) : List DevicePath :=
  customized.elim (excluding exclusive insts) (including · (excluding exclusive insts))

/-- A copy without the one path is made, and then another one without the other path. -/
def Copies (customized exclusive : Option DevicePath) (insts : List DevicePath) : Prop :=
  exclusive ≠ none ∧ excluding exclusive insts ≠ [] ∧
    ∃ c, customized = some c ∧ c ∉ excluding exclusive insts

/-- No path goes on where another one ends. -/
def Separate (insts : List DevicePath) : Prop := insts.Pairwise fun i j => ¬ Alongside i j

/-- Taking paths out keeps the others apart. -/
theorem separate_without (h : Separate insts) (e : DevicePath) : Separate (without e insts) :=
  h.filter _

/-- What stays does not run along the path. -/
theorem not_alongside_of_mem {i : DevicePath} (hi : i ∈ without e insts) : ¬ Alongside i e := by
  simpa using (List.mem_filter.mp hi).2

/-- So that path can be put in. -/
theorem separate_including (h : Separate insts) (c : DevicePath) : Separate (including c insts) := by
  rw [including]
  split_ifs with hMem
  · exact h
  · refine List.pairwise_append.mpr ⟨separate_without h c, List.pairwise_singleton _ _, ?_⟩
    intro i hi j hj
    rw [List.mem_singleton.mp hj]
    exact not_alongside_of_mem hi

/-- An update keeps paths apart. -/
theorem separate_updated (h : Separate insts) (customized exclusive : Option DevicePath) :
    Separate (updated customized exclusive insts) := by
  have hKept : Separate (excluding exclusive insts) := by
    cases exclusive with
    | none => exact h
    | some e => exact separate_without h e
  cases customized with
  | none => exact hKept
  | some c => exact separate_including hKept c

-- ---------------------------------------------------------------------------
-- Paths in the pool
-- ---------------------------------------------------------------------------

/-- What the code can keep in one path. -/
structure Instances (insts : List DevicePath) : Prop where
  plain : ∀ i ∈ insts, Plain i
  valid : ∀ i ∈ insts, IsDevicePathValid i = true
  size : sizes insts < 2 ^ 64

/-- A caller's pointer and the path that it points to. -/
def Points : Option Located → Option DevicePath → Prop
  | none, none => True
  | some p, some path => Represents p.path path ∧ Plain path
  | _, _ => False

/-- Taking paths out makes room. -/
theorem sizes_without_le (e : DevicePath) (insts : List DevicePath) :
    sizes (without e insts) ≤ sizes insts := by
  have hSub : (without e insts).Sublist insts := List.filter_sublist
  exact (hSub.map fun i => (pathBytes i).length).sum_le_sum fun _ _ => Nat.zero_le _

/-- What stays can be kept. -/
theorem Instances.without (h : Instances insts) (e : DevicePath) :
    Instances (without e insts) where
  plain i hi := h.plain i (List.mem_of_mem_filter hi)
  valid i hi := h.valid i (List.mem_of_mem_filter hi)
  size := (sizes_without_le e insts).trans_lt h.size

/-- Some instances are a path. -/
theorem packed_of_ne_nil (hNe : insts ≠ []) : packed insts = some (pathBytes (joinInstances insts)) :=
  if_neg hNe

/-- Unless there is nothing to compare, the result is in a buffer of its own. -/
theorem deletePart_spec {p : PoolPath} {single : Located} {L : Ledger} (h : Instances insts)
    (hPath : p.path = packed insts) (hSingle : Represents single.path e) :
    deletePart p (some single) L =
      some (if insts = [] then (p, L) else PoolPath.new (packed (without e insts)) L) := by
  obtain ⟨path, owed⟩ := p
  obtain rfl : path = packed insts := hPath
  by_cases hNe : insts = []
  · have hNull : packed insts = none := if_pos hNe
    rw [if_pos hNe, hNull]
    rfl
  · rw [packed_of_ne_nil hNe, if_neg hNe]
    simp only [deletePart, Option.bind_eq_bind, BmDelPartMatchInstance_filter hNe h.plain
      (represents_joined hNe h.valid h.size) hSingle, Option.bind_some, without]
    rfl

/-- Nothing is found in NULL. -/
theorem BmMatchDevicePaths_packed {s : PathMemory} (h : Instances insts) (hSingle : Represents s c) :
    BmMatchDevicePaths (packed insts) (some s) = some (decide (c ∈ insts)) := by
  by_cases hNe : insts = []
  · rw [packed, if_pos hNe, hNe]
    rfl
  · rw [packed_of_ne_nil hNe]
    exact BmMatchDevicePaths_iff hNe h.plain (represents_joined hNe h.valid h.size) hSingle

/-- What is written to the variable is the whole path, and nothing for NULL. -/
theorem pathData_packed (h : Instances insts) : pathData (packed insts) = some ((packed insts).getD []) := by
  by_cases hNe : insts = []
  · rw [packed, if_pos hNe]
    rfl
  · have hJoined := represents_joined hNe h.valid h.size
    rw [packed_of_ne_nil hNe, pathData, GetDevicePathSize_represents hJoined]
    simp only [Option.bind_eq_bind, Option.bind_some, toNat_size_represents hJoined,
      take_pathBytes hJoined]
    rfl

-- ---------------------------------------------------------------------------
-- One update
-- ---------------------------------------------------------------------------

/-!
The pool is followed through the two halves of a call. The first half leaves the variable's buffer
and perhaps a copy of it (`Excluded`), the second one nothing more or one new buffer (`Appended`).
Two releases stand at the end, so that a third buffer is lost.
-/

/-- What is left of a new path in the pool. -/
theorem new_packed (insts : List DevicePath) (L : Ledger) : PoolPath.new (packed insts) L =
    if insts = [] then (⟨none, .null⟩, L) else (⟨packed insts, L.acquire.1⟩, L.acquire.2) := by
  by_cases hNe : insts = []
  · rw [packed, if_pos hNe, if_pos hNe]
    rfl
  · rw [packed_of_ne_nil hNe, if_neg hNe]
    rfl

/-- The pool behind the first half: the variable's contents, and what is left of them. -/
inductive Excluded (insts : List DevicePath) (exclusive : Option DevicePath) :
    Ptr → Ptr → Ledger → Prop
  | nothing : insts = [] → Excluded insts exclusive .null .null .empty
  | whole : insts ≠ [] → exclusive = none → Excluded insts exclusive (.ref 0) (.ref 0) ⟨1, [0], []⟩
  | gone : insts ≠ [] → excluding exclusive insts = [] →
      Excluded insts exclusive (.ref 0) .null ⟨1, [0], []⟩
  | copied : exclusive ≠ none → excluding exclusive insts ≠ [] →
      Excluded insts exclusive (.ref 0) (.ref 1) ⟨2, [1, 0], []⟩

/-- **The first half** of an update. -/
theorem exclude_spec {single : Option Located} {exclusive : Option DevicePath} (h : Instances insts)
    (hPoints : Points single exclusive) : ∃ p L,
    deletePart (PoolPath.new (packed insts) .empty).1 single (PoolPath.new (packed insts) .empty).2 =
        some (p, L) ∧
      p.path = packed (excluding exclusive insts) ∧
      Excluded insts exclusive (PoolPath.new (packed insts) .empty).1.owed p.owed L := by
  cases single with
  | none =>
    cases exclusive with
    | some e => exact hPoints.elim
    | none =>
      refine ⟨(PoolPath.new (packed insts) .empty).1, (PoolPath.new (packed insts) .empty).2, ?_, rfl, ?_⟩
      · rw [deletePart]
        simp
      · rw [new_packed]
        split_ifs with hNil
        · exact .nothing hNil
        · exact .whole hNil rfl
  | some single =>
    cases exclusive with
    | none => exact hPoints.elim
    | some e =>
      rw [deletePart_spec h rfl hPoints.1, new_packed]
      by_cases hNil : insts = []
      · rw [if_pos hNil, if_pos hNil]
        refine ⟨_, _, rfl, ?_, .nothing hNil⟩
        rw [hNil]
        rfl
      · rw [if_neg hNil, if_neg hNil, new_packed]
        by_cases hGone : without e insts = []
        · rw [if_pos hGone]
          refine ⟨_, _, rfl, ?_, .gone hNil hGone⟩
          exact (if_pos hGone).symm
        · rw [if_neg hGone]
          exact ⟨_, _, rfl, rfl, .copied (Option.some_ne_none e) hGone⟩

/-- Where no path is left, nothing is owed for one. -/
theorem null_of_excluded {exclusive : Option DevicePath} {var p : Ptr} {L : Ledger}
    (h : Excluded insts exclusive var p L) (hGone : excluding exclusive insts = []) : p = .null := by
  cases h with
  | nothing hNil => rfl
  | whole hNe hNone =>
    subst hNone
    exact absurd hGone hNe
  | gone hNe hNone => rfl
  | copied hSome hLeft => exact absurd hGone hLeft

/-- The pool behind the second half, where a path was appended: it has a new buffer. -/
def Appended (L : Ledger) (owed : Ptr) (L' : Ledger) : Prop :=
  ∃ k, L.next ≤ k ∧ owed = .ref k ∧ L' = ⟨k + 1, k :: L.live, L.faults⟩

/-- What makes room for a path is in the pool until the path is appended. -/
theorem makeRoom_spec {p : PoolPath} {single : Located} (L : Ledger) (h : Instances insts)
    (hPath : p.path = packed insts) (hNull : insts = [] → p.owed = .null)
    (hSingle : Represents single.path c) : ∃ temp L₁,
    deletePart p (some single) L = some (temp, L₁) ∧ temp.path = packed (without c insts) ∧
      (temp.owed = .null ∧ L₁ = L ∨ temp.owed = L.acquire.1 ∧ L₁ = L.acquire.2) := by
  rw [deletePart_spec h hPath hSingle]
  by_cases hNil : insts = []
  · rw [if_pos hNil]
    refine ⟨p, L, rfl, ?_, Or.inl ⟨hNull hNil, rfl⟩⟩
    rw [hPath, hNil]
    rfl
  · rw [if_neg hNil, new_packed]
    split_ifs with hGone
    · exact ⟨_, _, rfl, (if_pos hGone).symm, Or.inl ⟨rfl, rfl⟩⟩
    · exact ⟨_, _, rfl, rfl, Or.inr ⟨rfl, rfl⟩⟩

/-- **The second half.** -/
theorem customize_spec {p : PoolPath} {L : Ledger} {single : Option Located}
    {customized : Option DevicePath} (h : Instances insts) (hPath : p.path = packed insts)
    (hNull : insts = [] → p.owed = .null) (hPoints : Points single customized) : ∃ p' L',
    addCustomized p single L = some (p', L') ∧
      p'.path = packed (customized.elim insts (including · insts)) ∧
      ((∀ c, customized = some c → c ∈ insts) ∧ p'.owed = p.owed ∧ L' = L ∨
        (∃ c, customized = some c ∧ c ∉ insts) ∧ Appended L p'.owed L') := by
  cases single with
  | none =>
    cases customized with
    | some c => exact hPoints.elim
    | none => exact ⟨p, L, rfl, hPath, Or.inl ⟨fun c hc => absurd hc (Option.some_ne_none c).symm, rfl, rfl⟩⟩
  | some single =>
    cases customized with
    | none => exact hPoints.elim
    | some c =>
      rw [addCustomized, hPath, BmMatchDevicePaths_packed h hPoints.1]
      by_cases hMem : c ∈ insts
      · refine ⟨p, L, by simp [hMem], ?_, Or.inl ⟨fun c' hc' => ?_, rfl, rfl⟩⟩
        · exact hPath.trans (congrArg packed (if_pos hMem).symm)
        · cases hc'
          exact hMem
      · have hLeft := h.without c
        have hAppend := AppendDevicePathInstance_concat hLeft.valid hLeft.size hPoints.1
        have hNew (L : Ledger) : PoolPath.new (packed (without c insts ++ [c])) L =
            (⟨packed (without c insts ++ [c]), L.acquire.1⟩, L.acquire.2) :=
          (new_packed _ L).trans (if_neg (List.append_ne_nil_of_right_ne_nil _ (List.cons_ne_nil _ _)))
        obtain ⟨temp, L₁, hDelete, hTemp, hOwed⟩ := makeRoom_spec L h hPath hNull hPoints.1
        refine ⟨⟨packed (without c insts ++ [c]), L₁.acquire.1⟩, L₁.acquire.2.releaseIf temp.owed,
          ?_, congrArg packed (if_neg hMem).symm, Or.inr ⟨⟨c, rfl, hMem⟩, ?_⟩⟩
        · simp [hMem, hDelete, hTemp, hAppend, hNew]
        · rcases hOwed with ⟨hTempNull, rfl⟩ | ⟨hTempNew, rfl⟩
          · exact ⟨L₁.next, le_refl _, rfl, by rw [hTempNull]; rfl⟩
          · refine ⟨L.next + 1, Nat.le_succ _, rfl, ?_⟩
            rw [hTempNew]
            simp [Ledger.releaseIf, Ledger.release, Ledger.acquire]

/-- What a call leaves in the pool. No release was a misuse, and where a copy is lost that copy is
left and nothing else: it is acquisition 1, behind the variable's own buffer. -/
structure Leaves (copies : Prop) (pool : Ledger) : Prop where
  faults : pool.faults = []
  released : ¬ copies → pool.live = []
  lost : copies → pool.live = [1]

/-- What is released at the end. -/
theorem leaves_of_excluded {exclusive customized : Option DevicePath} {var p p' : Ptr} {L L' : Ledger}
    (hExcluded : Excluded insts exclusive var p L)
    (hCustomized : (∀ c, customized = some c → c ∈ excluding exclusive insts) ∧ p' = p ∧ L' = L ∨
      (∃ c, customized = some c ∧ c ∉ excluding exclusive insts) ∧ Appended L p' L') :
    Leaves (Copies customized exclusive insts)
      (if var = p' then L'.releaseIf var else (L'.releaseIf var).releaseIf p') := by
  rcases hCustomized with ⟨hThere, rfl, rfl⟩ | ⟨hNew, k, hk, rfl, rfl⟩
  · -- nothing was appended: the variable's buffer or the copy without the excluded path goes
    have hNot : ¬ Copies customized exclusive insts := fun ⟨_, _, c, hc, hNone⟩ => hNone (hThere c hc)
    cases hExcluded <;> exact ⟨rfl, fun _ => rfl, fun hCopies => absurd hCopies hNot⟩
  · cases hExcluded with
    | nothing hNil =>
      -- the variable was not there, and the new path's buffer is all there is
      have hEmpty : excluding exclusive insts = [] := by
        rw [hNil]
        cases exclusive <;> rfl
      refine ⟨?_, fun _ => ?_, fun hCopies => absurd hEmpty hCopies.2.1⟩ <;>
        simp [Ledger.empty, Ledger.releaseIf, Ledger.release]
    | whole hNe hNone =>
      -- the variable's buffer and the new path's
      have hOther : k ≠ 0 := Nat.ne_of_gt hk
      refine ⟨?_, fun _ => ?_, fun hCopies => absurd hNone hCopies.1⟩ <;>
        simp [hOther, hOther.symm, Ledger.releaseIf, Ledger.release]
    | gone hNe hGone =>
      have hOther : k ≠ 0 := Nat.ne_of_gt hk
      refine ⟨?_, fun _ => ?_, fun hCopies => absurd hGone hCopies.2.1⟩ <;>
        simp [hOther, hOther.symm, Ledger.releaseIf, Ledger.release]
    | copied hSome hLeft =>
      -- the copy without the excluded path has no pointer any more
      have hOther : k ≠ 0 := fun hZero => by simp [hZero] at hk
      refine ⟨?_, fun hNot => absurd ⟨hSome, hLeft, hNew⟩ hNot, fun _ => ?_⟩ <;>
        simp [hOther, hOther.symm, Ledger.releaseIf, Ledger.release]

-- ---------------------------------------------------------------------------
-- The variables
-- ---------------------------------------------------------------------------

/-!
The firmware says how large a variable can be, and a path that is added has to fit into what memory
has beside that. It may refuse any write, and then the variable is what it was.
-/

/-- The paths of every console. -/
abbrev Consoles := CONSOLE_TYPE → List DevicePath

section Firmware

variable {gRT : RuntimeServices} {s s' : gRT.State} {C C' : Consoles} {q : ConsoleUpdate} {limit : Nat}

/-- The consoles' variables hold these paths. -/
structure Stores (gRT : RuntimeServices) (s : gRT.State) (C : Consoles) : Prop where
  stored : ∀ t name, mConVarName t = some name → gRT.GetVariable s name = packed (C t)
  instances : ∀ t, Instances (C t)

/-- "MaximumVariableSize", with what the firmware returns for it. -/
def Limited (gRT : RuntimeServices) (limit : Nat) : Prop :=
  ∀ s name data, gRT.GetVariable s name = some data → data.length ≤ limit

/-- Each console has a variable of its own. -/
theorem mConVarName_inj {t t' : CONSOLE_TYPE} {name : List CHAR16} (h : mConVarName t = some name)
    (h' : mConVarName t' = some name) : t = t' := by
  cases t <;> cases t' <;> first | rfl | (rw [← h'] at h; revert h; decide)

/-- No update deletes a variable by its attributes. -/
theorem consoleAttributes_ne_zero (t : CONSOLE_TYPE) : consoleAttributes t ≠ 0 := by
  cases t <;> decide

/-- What is stored is within the firmware's limit. -/
theorem sizes_of_stores (hLimited : Limited gRT limit) (h : Stores gRT s C) {t : CONSOLE_TYPE}
    {name : List CHAR16} (hName : mConVarName t = some name) : sizes (C t) ≤ limit := by
  by_cases hNil : C t = []
  · rw [hNil]
    exact Nat.zero_le _
  · have hStored := h.stored t name hName
    rw [packed_of_ne_nil hNil] at hStored
    rw [← length_joinInstances hNil]
    exact hLimited s name _ hStored

/-- A path that is stored is what the variable is then. -/
theorem stored_packed {name : List CHAR16} {attributes : UINT32} (hAttributes : attributes ≠ 0)
    (hStatus : EFI_ERROR (gRT.SetVariable s name attributes ((packed insts).getD [])).1 = false) :
    gRT.GetVariable (gRT.SetVariable s name attributes ((packed insts).getD [])).2 name =
      packed insts := by
  rw [gRT.get_stored _ _ _ _ hStatus, Function.update_self]
  by_cases hNil : insts = []
  · rw [packed, if_pos hNil]
    exact if_pos (Or.inr rfl)
  · have hBytes : pathBytes (joinInstances insts) ≠ [] := fun hEmpty => by
      have hFour := four_le_length_pathBytes (joinInstances insts)
      rw [hEmpty, List.length_nil] at hFour
      omega
    rw [packed_of_ne_nil hNil]
    exact if_neg (not_or.mpr ⟨hAttributes, hBytes⟩)

/-- The same for a path that may not be given. -/
theorem Instances.excluding (h : Instances insts) (exclusive : Option DevicePath) :
    Instances (excluding exclusive insts) := by
  cases exclusive with
  | none => exact h
  | some e => exact h.without e

/-- And its size. -/
theorem sizes_excluding_le (exclusive : Option DevicePath) (insts : List DevicePath) :
    sizes (excluding exclusive insts) ≤ sizes insts := by
  cases exclusive with
  | none => exact le_refl _
  | some e => exact sizes_without_le e insts

/-- A path that can be kept together with others is one more of them. -/
theorem Instances.including (h : Instances insts) (hPlain : Plain c) (hValid : IsDevicePathValid c = true)
    (hSize : sizes insts + (pathBytes c).length < 2 ^ 64) : Instances (including c insts) := by
  rw [TianJi.Model.including]
  split_ifs with hMem
  · exact h
  · have hLeft := h.without c
    refine ⟨fun i hi => ?_, fun i hi => ?_, ?_⟩
    · rcases List.mem_append.mp hi with hOld | hNew
      · exact hLeft.plain i hOld
      · rw [List.mem_singleton.mp hNew]
        exact hPlain
    · rcases List.mem_append.mp hi with hOld | hNew
      · exact hLeft.valid i hOld
      · rw [List.mem_singleton.mp hNew]
        exact hValid
    · have hLe := sizes_without_le c insts
      rw [sizes_concat]
      omega

/-- The caller's pointers are to paths, with room for what is added. -/
def FitsIn (limit : Nat) (q : ConsoleUpdate) : Prop :=
  ∃ c e, Points q.CustomizedConDevicePath c ∧ Points q.ExclusiveDevicePath e ∧
    ∀ path, c = some path → limit + (pathBytes path).length < 2 ^ 64

/-- The arguments are not turned down at once. -/
def ConsoleUpdate.Passes (q : ConsoleUpdate) : Prop :=
  q.ConsoleType ≠ .ConsoleTypeMax ∧
    q.CustomizedConDevicePath.map Located.address ≠ q.ExclusiveDevicePath.map Located.address

/-- What an update may answer. A call that makes two copies loses the first of them. -/
inductive Updates : Consoles → ConsoleUpdate → ConsoleAnswer → Consoles → Prop
  | invalid {C : Consoles} {q : ConsoleUpdate} : q.ConsoleType = .ConsoleTypeMax →
      Updates C q ⟨EFI_INVALID_PARAMETER, .empty⟩ C
  | same {C : Consoles} {q : ConsoleUpdate} : q.ConsoleType ≠ .ConsoleTypeMax →
      q.CustomizedConDevicePath.map Located.address = q.ExclusiveDevicePath.map Located.address →
      Updates C q ⟨EFI_UNSUPPORTED, .empty⟩ C
  | refused {C : Consoles} {q : ConsoleUpdate} {a : ConsoleAnswer} {c e : Option DevicePath} :
      q.Passes → Points q.CustomizedConDevicePath c → Points q.ExclusiveDevicePath e →
      EFI_ERROR a.Status = true → Leaves (Copies c e (C q.ConsoleType)) a.pool → Updates C q a C
  | stored {C : Consoles} {q : ConsoleUpdate} {a : ConsoleAnswer} {c e : Option DevicePath} :
      q.Passes → Points q.CustomizedConDevicePath c → Points q.ExclusiveDevicePath e →
      EFI_ERROR a.Status = false → Leaves (Copies c e (C q.ConsoleType)) a.pool →
      Updates C q a (Function.update C q.ConsoleType (updated c e (C q.ConsoleType)))

/-- The other consoles keep their paths. -/
theorem stores_update {name : List CHAR16} (h : Stores gRT s C) {t : CONSOLE_TYPE}
    (hName : mConVarName t = some name) (hInsts : Instances insts)
    (hStored : gRT.GetVariable s' name = packed insts)
    (hOthers : ∀ m ≠ name, gRT.GetVariable s' m = gRT.GetVariable s m) :
    Stores gRT s' (Function.update C t insts) where
  stored t' name' hName' := by
    by_cases hSame : t' = t
    · subst hSame
      rw [hName, Option.some.injEq] at hName'
      rw [← hName', Function.update_self, hStored]
    · have hNe : name' ≠ name := fun hEq => hSame (mConVarName_inj (hEq ▸ hName') hName)
      rw [Function.update_of_ne hSame, hOthers _ hNe]
      exact h.stored t' name' hName'
  instances t' := by
    by_cases hSame : t' = t
    · rw [hSame, Function.update_self]
      exact hInsts
    · rw [Function.update_of_ne hSame]
      exact h.instances t'

/-- What is taken out and put in can be kept where the firmware kept what was there. -/
theorem instances_updated {customized exclusive : Option DevicePath} {single : Option Located}
    (h : Instances insts) (hPoints : Points single customized)
    (hFits : ∀ c, customized = some c → sizes insts + (pathBytes c).length < 2 ^ 64) :
    Instances (updated customized exclusive insts) := by
  have hKept := h.excluding exclusive
  cases customized with
  | none => exact hKept
  | some c =>
    cases single with
    | none => exact hPoints.elim
    | some single =>
      have hLe := sizes_excluding_le exclusive insts
      have hRoom := hFits c rfl
      exact hKept.including hPoints.2 hPoints.1.valid (by omega)

/-- **One update.** -/
theorem update_spec (hLimited : Limited gRT limit) (h : Stores gRT s C)
    (hFits : FitsIn limit q) : ∃ a s' C',
    EfiBootManagerUpdateConsoleVariable gRT s q = some (a, s') ∧ Stores gRT s' C' ∧
      Updates C q a C' := by
  rw [EfiBootManagerUpdateConsoleVariable]
  cases hName : mConVarName q.ConsoleType with
  | none =>
    have hMax : q.ConsoleType = .ConsoleTypeMax := by
      revert hName
      cases q.ConsoleType <;> simp [mConVarName]
    exact ⟨_, s, C, rfl, h, .invalid hMax⟩
  | some Name =>
    have hType : q.ConsoleType ≠ .ConsoleTypeMax := fun hMax => by
      rw [hMax] at hName
      cases hName
    by_cases hSame : q.CustomizedConDevicePath.map Located.address =
        q.ExclusiveDevicePath.map Located.address
    · exact ⟨_, s, C, if_pos hSame, h, .same hType hSame⟩
    · obtain ⟨c, e, hCustomized, hExclusive, hRoom⟩ := hFits
      have hInsts := h.instances q.ConsoleType
      obtain ⟨p, L, hDelete, hKept, hExcluded⟩ := exclude_spec hInsts hExclusive
      obtain ⟨p', L', hAdd, hPath, hPool⟩ := customize_spec (hInsts.excluding e) hKept
        (null_of_excluded hExcluded) hCustomized
      have hLeaves := leaves_of_excluded hExcluded hPool
      have hNew : Instances (updated c e (C q.ConsoleType)) :=
        instances_updated hInsts hCustomized fun path hc =>
          (Nat.add_le_add_right (sizes_of_stores hLimited h hName) _).trans_lt (hRoom path hc)
      have hData : pathData p'.path = some ((packed (updated c e (C q.ConsoleType))).getD []) := by
        rw [hPath]
        exact pathData_packed hNew
      simp only [if_neg hSame, h.stored _ _ hName, Option.bind_eq_bind, hDelete, Option.bind_some, hAdd,
        hData]
      cases hStatus : EFI_ERROR (gRT.SetVariable s Name (consoleAttributes q.ConsoleType)
        ((packed (updated c e (C q.ConsoleType))).getD [])).1 with
      | true =>
        have hKeeps := gRT.get_refused _ _ _ _ hStatus
        refine ⟨_, _, C, rfl, ⟨fun t name hName' => ?_, h.instances⟩,
          .refused ⟨hType, hSame⟩ hCustomized hExclusive hStatus hLeaves⟩
        exact (congrFun hKeeps name).trans (h.stored t name hName')
      | false =>
        exact ⟨_, _, _, rfl, stores_update h hName hNew
            (stored_packed (consoleAttributes_ne_zero _) hStatus) fun m hm => get_of_ne hm,
          .stored ⟨hType, hSame⟩ hCustomized hExclusive hStatus hLeaves⟩

/-- Paths that are separate stay so. -/
theorem separate_of_explains {qs : List ConsoleUpdate} {answers : List ConsoleAnswer}
    (h : Service.Explains Updates C qs answers C') (hSeparate : ∀ t, Separate (C t)) :
    ∀ t, Separate (C' t) := by
  induction h with
  | nil => exact hSeparate
  | cons hStep hRest ih =>
    refine ih fun t => ?_
    cases hStep with
    | invalid => exact hSeparate t
    | same => exact hSeparate t
    | refused => exact hSeparate t
    | stored hPasses hCustomized hExclusive hStatus hLeaves =>
      rw [Function.update_apply]
      split_ifs with hSame
      · exact separate_updated (hSeparate _) _ _
      · exact hSeparate t

/--
**Updates of the consoles.** In every run of calls, whatever the firmware refuses, every variable holds
the list of paths that the updates make, and each call releases all of its buffers once but the first of
two copies, which it leaves where `Copies` tells of it. Paths that are separate at first are separate in
the end.
-/
theorem consoles_run (hLimited : Limited gRT limit) (h : Stores gRT s C) {qs : List ConsoleUpdate}
    (hFits : ∀ q ∈ qs, FitsIn limit q) :
    ∃ answers s' C', Service.run (EfiBootManagerUpdateConsoleVariable gRT) s qs = some (answers, s') ∧
      Stores gRT s' C' ∧ Service.Explains Updates C qs answers C' ∧
      ((∀ t, Separate (C t)) → ∀ t, Separate (C' t)) := by
  have hStep : ∀ s C q, Stores gRT s C → FitsIn limit q → ∃ a s' C',
      EfiBootManagerUpdateConsoleVariable gRT s q = some (a, s') ∧ Stores gRT s' C' ∧ Updates C q a C' :=
    fun _ _ _ hStores hFits => update_spec hLimited hStores hFits
  obtain ⟨answers, s', C', hRun, hStores, hExplains⟩ := Service.exists_run_related hStep h hFits
  exact ⟨answers, s', C', hRun, hStores, hExplains, separate_of_explains hExplains⟩

end Firmware

/-- Services that refuse what is longer than the limit. -/
def limitedServices (gRT : RuntimeServices) (limit : Nat) : RuntimeServices where
  State := { s : gRT.State // ∀ name data, gRT.GetVariable s name = some data → data.length ≤ limit }
  GetVariable s := gRT.GetVariable s.1
  SetVariable s name attributes data :=
    if hFits : data.length ≤ limit then
      ((gRT.SetVariable s.1 name attributes data).1, ⟨(gRT.SetVariable s.1 name attributes data).2, by
        intro m found hFound
        cases hStatus : EFI_ERROR (gRT.SetVariable s.1 name attributes data).1 with
        | true =>
          rw [gRT.get_refused _ _ _ _ hStatus] at hFound
          exact s.2 m found hFound
        | false =>
          rw [gRT.get_stored _ _ _ _ hStatus, Function.update_apply] at hFound
          split_ifs at hFound with hSame
          · cases hFound
            exact hFits
          · exact s.2 m found hFound⟩)
    else (EFI_OUT_OF_RESOURCES, s)
  no_empty s := gRT.no_empty s.1
  get_refused s name attributes data hStatus := by
    by_cases hFits : data.length ≤ limit
    · simp only [dif_pos hFits] at hStatus ⊢
      exact gRT.get_refused _ _ _ _ hStatus
    · rw [dif_neg hFits]
  get_stored s name attributes data hStatus := by
    by_cases hFits : data.length ≤ limit
    · simp only [dif_pos hFits] at hStatus ⊢
      exact gRT.get_stored _ _ _ _ hStatus
    · rw [dif_neg hFits] at hStatus
      exact absurd hStatus (by decide : ¬ EFI_ERROR EFI_OUT_OF_RESOURCES = false)

/-- Such services have the limit. -/
theorem limited_limitedServices (gRT : RuntimeServices) (limit : Nat) :
    Limited (limitedServices gRT limit) limit :=
  fun s name data hFound => s.2 name data hFound

/-- No variables yet. -/
def noVariables : (limitedServices tableServices 8192).State :=
  ⟨fun _ => none, fun _ _ hFound => by cases hFound⟩

/-- Two paths one after the other, the second one in place of the first. -/
def twoUpdates : List ConsoleUpdate :=
  [⟨.ConOut, some ⟨0x1000, pathBytes (numberedPath 1)⟩, none⟩,
    ⟨.ConOut, some ⟨0x2000, pathBytes (numberedPath 2)⟩, some ⟨0x1000, pathBytes (numberedPath 1)⟩⟩]

/-- No console has a path. -/
theorem stores_noVariables : Stores (limitedServices tableServices 8192) noVariables fun _ => [] where
  stored _ _ _ := rfl
  instances _ := ⟨fun _ hi => absurd hi List.not_mem_nil, fun _ hi => absurd hi List.not_mem_nil,
    by decide⟩

/-- A path of the caller. -/
theorem points_numberedPath (address : UINTN) (number : UINT8) :
    Points (some ⟨address, pathBytes (numberedPath number)⟩) (some (numberedPath number)) := by
  refine ⟨represents_numberedPath number, fun n hn => ?_⟩
  rw [List.mem_singleton.mp hn]
  exact (by decide : (0x02 : UINT8) ≠ END_DEVICE_PATH_TYPE)

/-- The second update takes the first one's path out. -/
theorem consoles_run_twoUpdates : ∃ answers s' C',
    Service.run (EfiBootManagerUpdateConsoleVariable (limitedServices tableServices 8192)) noVariables
        twoUpdates = some (answers, s') ∧
      Stores (limitedServices tableServices 8192) s' C' ∧
      Service.Explains Updates (fun _ => []) twoUpdates answers C' ∧
      ((∀ t : CONSOLE_TYPE, Separate ((fun _ => []) t)) → ∀ t, Separate (C' t)) := by
  refine consoles_run (limited_limitedServices tableServices 8192) stores_noVariables fun q hq => ?_
  rcases List.mem_pair.mp hq with rfl | rfl
  · refine ⟨some (numberedPath 1), none, points_numberedPath _ _, trivial, fun path hPath => ?_⟩
    cases hPath
    decide
  · refine ⟨some (numberedPath 2), some (numberedPath 1), points_numberedPath _ _,
      points_numberedPath _ _, fun path hPath => ?_⟩
    cases hPath
    decide

end TianJi.Model
