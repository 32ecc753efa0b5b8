import TianJi.Model.DevicePath
import TianJi.Model.OcFile
import TianJi.Model.OcUnicodeLib

/-!
# TianJi — starting OpenCore

`启动OpenCore` (天玑.c): two levels above the loader's own path look for `OpenCore.efi`, else
take the one under `EFI\OC`, read it and hand it over to be run.

* `relativePath_total` — no loader path takes the rewriting out of its buffer.
* `relativePath_cut`   — which path is tried for `d slash x slash f`.
* `openCore_handOver`  — what is run is always a file together with its own content.
-/

namespace TianJi.Model

open CString Ownership

def OPEN_CORE_ROOT_PATH : List CHAR16 := L "EFI\\OC"
def OPEN_CORE_APP_PATH : List CHAR16 := L "OpenCore.efi"

/-- `OPEN_CORE_ROOT_PATH L"\\" OPEN_CORE_APP_PATH` -/
def absolutePath : List CHAR16 := OPEN_CORE_ROOT_PATH ++ L "\\" ++ OPEN_CORE_APP_PATH

/-- `StrSize`, with the terminator and in bytes. -/
def StrSize (String : List CHAR16) : Option UINTN :=
  (strLen String).map fun Length => (UInt64.ofNat Length + 1) * 2

/-- `L_STR_SIZE` of a literal. -/
def L_STR_SIZE (literal : List CHAR16) : UINTN := (UInt64.ofNat literal.length + 1) * 2

/-- What the code makes of `LoaderPath`: the buffer after every step, and the path to try. -/
structure RelativePath where
  blocks : List (List CHAR16)
  path : Option (List CHAR16)

/-- Put `OPEN_CORE_APP_PATH` behind the prefix that is left, if it fits. -/
def joinAppPath (LoaderPathSize : UINTN) (LoaderPath : List CHAR16) : Option RelativePath := do
  let PrefixPathSize ← StrSize LoaderPath
  if LoaderPathSize - PrefixPathSize ≥ L_STR_SIZE OPEN_CORE_APP_PATH then
    let RootPathLength := PrefixPathSize / 2 - 1
    let joined ← write LoaderPath RootPathLength.toNat 0x5C
    let copied ← copyInto joined (RootPathLength + 1).toNat (OPEN_CORE_APP_PATH ++ [0])
    let path ← string copied
    some ⟨[joined, copied], some path⟩
  else some ⟨[], none⟩

/-- `EFI\XXX\Subdir\Launcher.efi -> EFI\XXX\OpenCore.efi` -/
def relativePath (LoaderPath : List CHAR16) : Option RelativePath := do
  let LoaderPathSize ← StrSize LoaderPath
  let (found, parent) ← UnicodeGetParentDirectory LoaderPath
  if found then
    let (found, grandparent) ← UnicodeGetParentDirectory parent
    if found then
      let r ← joinAppPath LoaderPathSize grandparent
      some ⟨parent :: grandparent :: r.blocks, r.path⟩
    else some ⟨[parent, grandparent], none⟩
  else some ⟨[parent], none⟩

/-- What the calls of one `启动OpenCore` give. -/
structure «启动环境» where
  /-- The buffer that `OcCopyDevicePathFullName` returns. -/
  LoaderPath : Option (List CHAR16)
  DevicePathFromHandle : Option DevicePath
  /-- Answers to `OcReadFile`, by the path asked for. -/
  relative : List CHAR16 → «读文件环境»
  absolute : List CHAR16 → «读文件环境»
  /-- The allocations of `FileDevicePath`. -/
  relativeAllocated : Bool × Bool
  absoluteAllocated : Bool × Bool
  /-- What the firmware makes of the image in `OcLoadAndRunImage`. -/
  LoadImage : EFI_STATUS
  StartImage : EFI_STATUS

/-- The locals `Buffer`, `BufferSize` and `ImagePath`. -/
structure «启动镜像» where
  Buffer : Option (Ptr × List UINT8) := none
  BufferSize : UINT32 := 0
  ImagePath : Option (Ptr × DevicePath) := none

/-- How a run of `启动OpenCore` ends: its status, the buffer of `LoaderPath` after every step,
the relative path tried and the device path, the bytes and the size that `LoadImage` gets. -/
structure «启动结果» where
  Status : EFI_STATUS
  blocks : List (List CHAR16)
  tried : Option (List CHAR16)
  started : Option (Option DevicePath × List UINT8 × UINTN) := none

/-- The pointer behind an optional block. -/
def pointer {α : Type} (block : Option (Ptr × α)) : Ptr := (block.map Prod.fst).getD .null

/-- Read the file at the relative path and make its device path. -/
def readRelative (e : «启动环境») (path : List CHAR16) (L : Ledger) :
    Option («启动镜像» × Ledger) :=
  match OcReadFile (e.relative path) BASE_16MB L with
  | (none, L) => some ({}, L)
  | (some (Buffer, data, BufferSize), L) => do
    match ← FileDevicePath e.DevicePathFromHandle path e.relativeAllocated L with
    -- `File DP allocation failure, aborting`
    | (none, L) => some ({ BufferSize := BufferSize }, L.release Buffer)
    | (some ImagePath, L) =>
      some ({ Buffer := some (Buffer, data), BufferSize := BufferSize,
              ImagePath := some ImagePath }, L)

/-- The part under `LoaderPath != NULL`. -/
def tryRelative (e : «启动环境») (L : Ledger) : Option (RelativePath × «启动镜像» × Ledger) :=
  match e.LoaderPath with
  | none => some (⟨[], none⟩, {}, L)
  | some block => do
    let (LoaderPath, L) := L.acquire
    let r ← relativePath block
    match r.path with
    | none => some (r, {}, L.release LoaderPath)
    | some path =>
      let (image, L) ← readRelative e path L
      some (r, image, L.release LoaderPath)

/-- The part under `Buffer == NULL`. -/
def tryAbsolute (e : «启动环境») (image : «启动镜像») (L : Ledger) :
    Option («启动镜像» × Ledger) :=
  if image.Buffer.isSome then some (image, L)
  else
    match OcReadFile (e.absolute absolutePath) BASE_16MB L with
    | (none, L) => some (image, L)
    | (some (Buffer, data, BufferSize), L) => do
      let (ImagePath, L) ← FileDevicePath e.DevicePathFromHandle absolutePath e.absoluteAllocated L
      some ({ Buffer := some (Buffer, data), BufferSize := BufferSize, ImagePath := ImagePath }, L)

/-- `OcLoadAndRunImage` without `ImageHandle` and `OptionalData`: its status, and what `LoadImage` gets.
What it stores in the loaded image's protocol in between has no part in either. -/
def OcLoadAndRunImage (e : «启动环境») (DevicePath : Option DevicePath) (Buffer : List UINT8)
    (BufferSize : UINTN) : EFI_STATUS × (Option TianJi.Model.DevicePath × List UINT8 × UINTN) :=
  (if EFI_ERROR e.LoadImage then e.LoadImage else e.StartImage, (DevicePath, Buffer, BufferSize))

/-- `启动OpenCore`; `none` when an access leaves its buffer or an assertion fails. -/
def «启动OpenCore» (e : «启动环境») (L : Ledger) : Option («启动结果» × Ledger) := do
  let (r, image, L) ← tryRelative e L
  let (image, L) ← tryAbsolute e image L
  match image.Buffer with
  | none =>
    -- `ASSERT (ImagePath == NULL)`
    if image.ImagePath.isSome then none
    else some ({ Status := EFI_NOT_FOUND, blocks := r.blocks, tried := r.path }, L)
  | some (Buffer, data) =>
    let (Status, loaded) := OcLoadAndRunImage e (image.ImagePath.map Prod.snd) data
      image.BufferSize.toUInt64
    some ({ Status := Status, blocks := r.blocks, tried := r.path, started := some loaded },
      (L.release Buffer).release (pointer image.ImagePath))

/-!
## The path

All rewriting is done in the loader path's own buffer. A cut puts a terminator where a slash was, and
the name of the file goes behind what is left. The string only gets shorter before that, so that the
guard, which compares with the size the buffer was made for, is enough.
-/

variable {b s d : List CHAR16}

/-- The size of a string in bytes, with its terminator. -/
theorem strSize_eq (h : IsString b s) : StrSize b = some ((UInt64.ofNat s.length + 1) * 2) := by
  rw [StrSize, strLen_eq h]
  rfl

/-- It does not wrap around for strings of this length. -/
theorem toNat_strSize {n : Nat} (h : n ≤ 32000) : ((UInt64.ofNat n + 1) * 2).toNat = 2 * n + 2 := by
  rw [UInt64.toNat_mul, UInt64.toNat_add, UInt64.toNat_ofNat_of_lt' (Nat.lt_of_le_of_lt h (by decide))]
  simp only [UInt64.reduceToNat]
  omega

/-- The guard compares characters: 13 are needed. -/
theorem guard_iff {n k : Nat} (hk : k ≤ n) (hn : n ≤ 32000) :
    (UInt64.ofNat n + 1) * 2 - (UInt64.ofNat k + 1) * 2 ≥ L_STR_SIZE OPEN_CORE_APP_PATH ↔
      k + 13 ≤ n := by
  have hSize : (L_STR_SIZE OPEN_CORE_APP_PATH).toNat = 26 := by decide
  have hN := toNat_strSize hn
  have hK := toNat_strSize (Nat.le_trans hk hn)
  rw [ge_iff_le, UInt64.le_iff_toNat_le, UInt64.toNat_sub_of_le, hSize, hN, hK]
  · omega
  · rw [UInt64.le_iff_toNat_le, hN, hK]
    omega

/-- `PrefixPathSize / sizeof (CHAR16) - 1` is the prefix's length. -/
theorem toNat_rootPathLength {k : Nat} (hk : k ≤ 32000) :
    ((UInt64.ofNat k + 1) * 2 / 2 - 1).toNat = k ∧
      ((UInt64.ofNat k + 1) * 2 / 2 - 1 + 1).toNat = k + 1 := by
  have hHalf : ((UInt64.ofNat k + 1) * 2 / 2).toNat = k + 1 := by
    rw [UInt64.toNat_div, toNat_strSize hk]
    simp only [UInt64.reduceToNat]
    omega
  have hLength : ((UInt64.ofNat k + 1) * 2 / 2 - 1).toNat = k := by
    rw [UInt64.toNat_sub_of_le _ _ ?_, hHalf]
    · simp
    · rw [UInt64.le_iff_toNat_le, hHalf]
      simp
  refine ⟨hLength, ?_⟩
  rw [UInt64.toNat_add, hLength]
  simp only [UInt64.reduceToNat]
  omega

/-- The relative path below a directory. -/
def below (d : List CHAR16) : List CHAR16 := d ++ 0x5C :: OPEN_CORE_APP_PATH

/-- Blocks that stay inside the loader path's buffer. -/
def Stays (b : List CHAR16) (blocks : List (List CHAR16)) : Prop :=
  ∀ block ∈ blocks, block.length = b.length ∧ Closed block

/-- A separator and twelve characters. -/
theorem length_below (d : List CHAR16) : (below d).length = d.length + 13 := by
  rw [below, List.length_append]
  rfl

/-- The file's name is put behind the directory where the guard lets it be. The buffer keeps its
size. -/
theorem joinAppPath_eq {n : Nat} (h : IsString b d) (hClosed : Closed b) (hLength : b.length = n + 1)
    (hn : n ≤ 32000) :
    ∃ r, joinAppPath ((UInt64.ofNat n + 1) * 2) b = some r ∧ Stays b r.blocks ∧
      r.path = if d.length + 13 ≤ n then some (below d) else none := by
  have hd : d.length ≤ n := by
    have := h.length_lt
    omega
  obtain ⟨hRoot, hNext⟩ := toNat_rootPathLength (Nat.le_trans hd hn)
  have hGuard := guard_iff hd hn
  by_cases hFits : d.length + 13 ≤ n
  · -- the separator replaces the terminator, the file name follows it
    have hZero : (0 : CHAR16) ∉ d ++ [0x5C] := by
      intro hMem
      rcases List.mem_append.mp hMem with hMem | hMem
      · exact h.2 hMem
      · exact absurd (List.mem_singleton.mp hMem) (by decide)
    have hTake := take_set_end (v := 0x5C) h
    have hJoined : (b.set d.length 0x5C).length = b.length := List.length_set
    have hJoinedClosed : Closed (b.set d.length 0x5C) := closed_write hClosed (Or.inl (by omega))
    obtain ⟨copied, hCopy, hCopiedLength, hString, hCopiedClosed⟩ :=
      isString_copy (b := b.set d.length 0x5C) (k := d.length + 1) (l := OPEN_CORE_APP_PATH)
        (by rw [hTake]; exact hZero) (by decide)
        (by rw [hJoined, hLength]; exact Nat.succ_le_succ hFits) hJoinedClosed
    rw [hTake, List.append_assoc] at hString
    refine ⟨⟨[b.set d.length 0x5C, copied], some (below d)⟩, ?_, ?_, by rw [if_pos hFits]⟩
    · have hWrite : write b d.length 0x5C = some (b.set d.length 0x5C) := if_pos h.length_lt
      have hName : string copied = some (below d) := string_eq hString
      simp only [joinAppPath, strSize_eq h, Option.bind_eq_bind, Option.bind_some, hRoot, hNext,
        hWrite, hCopy, hName, if_pos (hGuard.mpr hFits)]
    · intro block hMem
      rcases List.mem_cons.mp hMem with rfl | hMem
      · exact ⟨hJoined, hJoinedClosed⟩
      · rw [List.mem_singleton.mp hMem]
        exact ⟨hCopiedLength.trans hJoined, hCopiedClosed⟩
  · refine ⟨⟨[], none⟩, ?_, by simp [Stays], by rw [if_neg hFits]⟩
    simp only [joinAppPath, strSize_eq h, Option.bind_eq_bind, Option.bind_some,
      if_neg (mt hGuard.mp hFits)]

/-- **Every loader path.** The buffer keeps its size and its last terminator through every
step, and a path that is tried is no longer than the loader's. -/
theorem relativePath_total (hZero : 0 ∉ s) (hs : s.length ≤ 32000) :
    ∃ r, relativePath (s ++ [0]) = some r ∧ Stays (s ++ [0]) r.blocks ∧
      ∀ path, r.path = some path → path.length ≤ s.length := by
  obtain ⟨hString, hClosed⟩ := isString_exact hZero
  obtain ⟨found, parent, s₁, hParent, hLength₁, hString₁, hClosed₁, hShort₁⟩ :=
    parentDirectory_total hString hClosed
  unfold relativePath
  simp only [strSize_eq hString, Option.bind_eq_bind, Option.bind_some, hParent]
  cases found with
  | false =>
    refine ⟨_, rfl, ?_, by simp⟩
    simp [Stays, hLength₁, hClosed₁]
  | true =>
    -- the second cut works on what the first one left
    obtain ⟨found, grandparent, s₂, hGrand, hLength₂, hString₂, hClosed₂, hShort₂⟩ :=
      parentDirectory_total hString₁ hClosed₁
    simp only [if_true, hGrand, Option.bind_some]
    cases found with
    | false =>
      refine ⟨_, rfl, ?_, by simp⟩
      simp [Stays, hLength₁, hClosed₁, hLength₂, hClosed₂]
    | true =>
      obtain ⟨r, hJoin, hStays, hPath⟩ := joinAppPath_eq hString₂ hClosed₂
        (n := s.length) (by rw [hLength₂, hLength₁]; simp) hs
      simp only [if_true, hJoin, Option.bind_some]
      refine ⟨_, rfl, ?_, ?_⟩
      · intro block hMem
        have hSize : grandparent.length = (s ++ [0]).length := hLength₂.trans hLength₁
        rcases List.mem_cons.mp hMem with rfl | hMem
        · exact ⟨hLength₁, hClosed₁⟩
        rcases List.mem_cons.mp hMem with rfl | hMem
        · exact ⟨hSize, hClosed₂⟩
        · exact ⟨(hStays block hMem).1.trans hSize, (hStays block hMem).2⟩
      · intro path hSome
        rw [hPath] at hSome
        split_ifs at hSome with hFits
        rw [← Option.some.inj hSome, length_below]
        exact hFits

/-- `s` is `[slash] d slash x slash f` with names `x` and `f` and a directory `d`. -/
def TwoBelow (d s : List CHAR16) : Prop :=
  ∃ lead x f c c', s = lead ++ (d ++ c :: x) ++ c' :: f ∧
    (lead = [] ∨ ∃ a, lead = [a] ∧ isSlash a = true) ∧
    d ≠ [] ∧ (∀ a, d.head? = some a → isSlash a = false) ∧
    isSlash c = true ∧ isSlash c' = true ∧
    x ≠ [] ∧ (∀ a ∈ x, isSlash a = false) ∧ f ≠ [] ∧ (∀ a ∈ f, isSlash a = false)

/-- A path that begins with a name keeps it. -/
theorem stripSlash_of_head {t : List CHAR16} (h : ∀ a, t.head? = some a → isSlash a = false) :
    stripSlash t = t := by
  cases t with
  | nil => rfl
  | cons a t => rw [stripSlash, h a rfl, if_neg (by simp)]

/-- **Two levels above the loader.** -/
theorem relativePath_cut (hZero : 0 ∉ s) (hs : s.length ≤ 32000) (h : TwoBelow d s) :
    ∃ r, relativePath (s ++ [0]) = some r ∧
      r.path = if d.length + 13 ≤ s.length then some (below d) else none := by
  obtain ⟨lead, x, f, c, c', rfl, hLead, hd, hHead, hc, hc', hx, hxNone, hf, hfNone⟩ := h
  obtain ⟨hString, hClosed⟩ := isString_exact hZero
  have hHead' : ∀ t a, (d ++ t).head? = some a → isSlash a = false := by
    intro t a ha
    rw [List.head?_append_of_ne_nil _ hd] at ha
    exact hHead a ha
  -- the leading slash goes with the first cut, so the second finds none
  have hStrip : stripSlash (lead ++ (d ++ c :: x) ++ c' :: f) = (d ++ c :: x) ++ c' :: f := by
    rcases hLead with rfl | ⟨a, rfl, ha⟩
    · rw [List.nil_append, List.append_assoc]
      exact stripSlash_of_head (hHead' _)
    · rw [List.append_assoc, List.singleton_append, stripSlash, ha, if_pos rfl]
  obtain ⟨parent, hParent, hLength₁, hString₁, hClosed₁⟩ :=
    parentDirectory_cut hString hClosed hStrip hc' hf hfNone
  obtain ⟨grandparent, hGrand, hLength₂, hString₂, hClosed₂⟩ :=
    parentDirectory_cut hString₁ hClosed₁ (stripSlash_of_head (hHead' _)) hc hx hxNone
  obtain ⟨r, hJoin, -, hPath⟩ := joinAppPath_eq hString₂ hClosed₂
    (n := (lead ++ (d ++ c :: x) ++ c' :: f).length) (by rw [hLength₂, hLength₁, List.length_append, List.length_singleton]) hs
  refine ⟨⟨parent :: grandparent :: r.blocks, r.path⟩, ?_, hPath⟩
  simp only [relativePath, strSize_eq hString, Option.bind_eq_bind, Option.bind_some, hParent,
    hGrand, hJoin, if_true]

/-!
## The hand-over

The two attempts fill the same locals. What they hold is followed through both (`Holds`), so that the
path and the content that are handed over belong to the same file.
-/

/-- The device's own path is valid, allocations succeed, and file calls succeed on the files
that the volume has. -/
structure «启动环境».Serves (e : «启动环境») (volume : List CHAR16 → Option (List UINT8)) :
    Prop where
  device : ∀ path, e.DevicePathFromHandle = some path → IsDevicePathValid path = true
  relative : ∀ path, (e.relative path).Answers (volume path)
  absolute : ∀ path, (e.absolute path).Answers (volume path)
  relativeAllocated : e.relativeAllocated = (true, true)
  absoluteAllocated : e.absoluteAllocated = (true, true)

/-- A path with the content of the file there, unless it is missing or too large. -/
def candidate (volume : List CHAR16 → Option (List UINT8)) (path : List CHAR16) :
    Option (List CHAR16 × List UINT8) :=
  (readable (volume path)).map fun content => (path, content)

/-- The locals hold one file with its path, or nothing. -/
def «启动镜像».Holds (image : «启动镜像») (Device : Option DevicePath) :
    Option (List CHAR16 × List UINT8) → Prop
  | none => image.Buffer = none ∧ image.ImagePath = none
  | some (path, content) => ∃ Buffer p ImagePath, image.Buffer = some (Buffer, content ++ [0, 0]) ∧
      image.BufferSize.toNat = content.length ∧ image.ImagePath = some (p, ImagePath) ∧
      Names ImagePath Device path

/-- What a run hands over: the path of one file together with its content, or nothing. -/
def «启动结果».HandsOver (r : «启动结果») (Device : Option DevicePath) :
    Option (List CHAR16 × List UINT8) → Prop
  | none => r.started = none ∧ r.Status = EFI_NOT_FOUND
  | some (path, content) => ∃ ImagePath BufferSize,
      r.started = some (some ImagePath, content ++ [0, 0], BufferSize) ∧
      BufferSize.toNat = content.length ∧ Names ImagePath Device path

variable {e : «启动环境»} {volume : List CHAR16 → Option (List UINT8)}

/-- The locals hold the file at the path, if the volume has it. -/
theorem readRelative_eq (h : e.Serves volume) {path : List CHAR16} (hPath : path.length ≤ 32000)
    (L : Ledger) : ∃ image L', readRelative e path L = some (image, L') ∧
      image.Holds e.DevicePathFromHandle (candidate volume path) := by
  unfold readRelative candidate
  rcases readFile_answers (h.relative path) L with ⟨hNone, L₁, hRead⟩ |
    ⟨content, Buffer, BufferSize, L₁, hSome, hSize, hRead⟩
  · exact ⟨_, _, by rw [hRead], by rw [hNone]; exact ⟨rfl, rfl⟩⟩
  · obtain ⟨p, ImagePath, L₂, hFile, hNames⟩ := fileDevicePath_eq h.device
      (show path.length + 1 < 0x7FFE by omega) L₁
    rw [← h.relativeAllocated] at hFile
    refine ⟨⟨some (Buffer, content ++ [0, 0]), BufferSize, some (p, ImagePath)⟩, L₂, ?_, ?_⟩
    · simp only [hRead, hFile, Option.bind_eq_bind, Option.bind_some]
    · rw [hSome]
      exact ⟨Buffer, p, ImagePath, rfl, hSize, rfl, hNames⟩

/-- The relative path is tried only when nothing leaves the loader path's buffer. -/
theorem tryRelative_eq (h : e.Serves volume)
    (hLoader : ∀ b, e.LoaderPath = some b → ∃ s, b = s ++ [0] ∧ 0 ∉ s ∧ s.length ≤ 32000)
    (L : Ledger) : ∃ r image L', tryRelative e L = some (r, image, L') ∧
      (∀ b, e.LoaderPath = some b → relativePath b = some r ∧ Stays b r.blocks) ∧
      image.Holds e.DevicePathFromHandle (r.path.bind (candidate volume)) := by
  unfold tryRelative
  cases hPath : e.LoaderPath with
  | none => exact ⟨_, _, _, rfl, by simp, rfl, rfl⟩
  | some b =>
    obtain ⟨s, rfl, hZero, hs⟩ := hLoader b hPath
    obtain ⟨r, hRelative, hStays, hShort⟩ := relativePath_total hZero hs
    have hBlocks : ∀ b, some (s ++ [0]) = some b → relativePath b = some r ∧ Stays b r.blocks := by
      intro b hb
      rw [← Option.some.inj hb]
      exact ⟨hRelative, hStays⟩
    simp only [hRelative, Option.bind_eq_bind, Option.bind_some]
    cases hTried : r.path with
    | none => exact ⟨r, {}, _, rfl, hBlocks, by rw [hTried]; exact ⟨rfl, rfl⟩⟩
    | some path =>
      obtain ⟨image, L₁, hRead, hHolds⟩ :=
        readRelative_eq h (Nat.le_trans (hShort path hTried) hs) L.acquire.2
      simp only [hRead, Option.bind_some]
      exact ⟨r, image, _, rfl, hBlocks, by rw [hTried]; exact hHolds⟩

/-- The locals keep what they hold, or hold the file under `EFI\OC` where they held nothing. -/
theorem tryAbsolute_eq (h : e.Serves volume) {image : «启动镜像»}
    {found : Option (List CHAR16 × List UINT8)} (hHolds : image.Holds e.DevicePathFromHandle found)
    (L : Ledger) : ∃ image' L', tryAbsolute e image L = some (image', L') ∧
      image'.Holds e.DevicePathFromHandle (found.or (candidate volume absolutePath)) := by
  unfold tryAbsolute
  cases found with
  | some file =>
    have hSome : image.Buffer.isSome = true := by
      obtain ⟨Buffer, p, ImagePath, hBuffer, -⟩ := hHolds
      rw [hBuffer]
      rfl
    exact ⟨image, L, by rw [if_pos hSome], hHolds⟩
  | none =>
    have hNone : ¬ image.Buffer.isSome = true := by
      rw [hHolds.1]
      simp
    rw [if_neg hNone, Option.none_or, candidate]
    rcases readFile_answers (h.absolute absolutePath) L with ⟨hMissing, L₁, hRead⟩ |
      ⟨content, Buffer, BufferSize, L₁, hSome, hSize, hRead⟩
    · exact ⟨image, L₁, by rw [hRead], by rw [hMissing]; exact hHolds⟩
    · obtain ⟨p, ImagePath, L₂, hFile, hNames⟩ := fileDevicePath_eq h.device
        (show absolutePath.length + 1 < 0x7FFE by decide) L₁
      rw [← h.absoluteAllocated] at hFile
      refine ⟨⟨some (Buffer, content ++ [0, 0]), BufferSize, some (p, ImagePath)⟩, L₂, ?_, ?_⟩
      · simp only [hRead, hFile, Option.bind_eq_bind, Option.bind_some]
      · rw [hSome]
        exact ⟨Buffer, p, ImagePath, rfl, hSize, rfl, hNames⟩

/-- A run hands over what its locals hold when both places were tried. -/
theorem handsOver_of_holds {r : RelativePath} {image image' : «启动镜像»} {L L₁ L₂ : Ledger}
    {found : Option (List CHAR16 × List UINT8)} (hRelative : tryRelative e L = some (r, image, L₁))
    (hAbsolute : tryAbsolute e image L₁ = some (image', L₂))
    (hHolds : image'.Holds e.DevicePathFromHandle found) :
    ∃ r' L', «启动OpenCore» e L = some (r', L') ∧ r'.blocks = r.blocks ∧ r'.tried = r.path ∧
      r'.HandsOver e.DevicePathFromHandle found := by
  unfold «启动OpenCore»
  simp only [hRelative, hAbsolute, Option.bind_eq_bind, Option.bind_some]
  cases found with
  | none =>
    obtain ⟨hBuffer, hImagePath⟩ := hHolds
    rw [hBuffer, hImagePath]
    exact ⟨_, _, rfl, rfl, rfl, rfl, rfl⟩
  | some file =>
    obtain ⟨path, content⟩ := file
    obtain ⟨Buffer, p, ImagePath, hBuffer, hSize, hImagePath, hNames⟩ := hHolds
    rw [hBuffer, hImagePath]
    refine ⟨_, _, rfl, rfl, rfl, ImagePath, _, rfl, ?_, hNames⟩
    rw [UInt32.toNat_toUInt64, hSize]

/--
**One file, its path and its content.** For every loader path and every volume the rewriting
stays inside the path's buffer and keeps it terminated. Two levels above the loader
`OpenCore.efi` is tried exactly when the levels taken away make room for its name. What is
run is the file at the path tried if it can be read, else the one under `EFI\OC`, always
under its own device path and with its whole content; with neither nothing is run.
-/
theorem openCore_handOver (h : e.Serves volume)
    (hLoader : ∀ b, e.LoaderPath = some b → ∃ s, b = s ++ [0] ∧ 0 ∉ s ∧ s.length ≤ 32000)
    (L : Ledger) : ∃ r L', «启动OpenCore» e L = some (r, L') ∧
      (∀ b, e.LoaderPath = some b → ∀ block ∈ r.blocks, block.length = b.length ∧ Closed block) ∧
      (∀ s d, e.LoaderPath = some (s ++ [0]) → TwoBelow d s →
        r.tried = if d.length + 13 ≤ s.length then some (d ++ 0x5C :: OPEN_CORE_APP_PATH)
          else none) ∧
      r.HandsOver e.DevicePathFromHandle
        ((r.tried.bind (candidate volume)).or (candidate volume absolutePath)) := by
  obtain ⟨r, image, L₁, hRelative, hPath, hHolds⟩ := tryRelative_eq h hLoader L
  obtain ⟨image', L₂, hAbsolute, hHolds'⟩ := tryAbsolute_eq h hHolds L₁
  obtain ⟨r', L', hRun, hBlocks, hTried, hHands⟩ := handsOver_of_holds hRelative hAbsolute hHolds'
  rw [← hTried] at hHands
  refine ⟨r', L', hRun, ?_, ?_, hHands⟩
  · intro b hb
    rw [hBlocks]
    exact (hPath b hb).2
  · intro s d hb hTwo
    obtain ⟨s', hs', hZero, hs⟩ := hLoader _ hb
    obtain rfl : s = s' := List.append_cancel_right hs'
    obtain ⟨r₁, hCut, hr₁⟩ := relativePath_cut hZero hs hTwo
    obtain rfl : r₁ = r := Option.some.inj (hCut.symm.trans (hPath _ hb).1)
    rw [hTried]
    exact hr₁

/-- The calls on a volume with one `OpenCore.efi`, two levels above the loader. -/
def «启动环境».oneFile : «启动环境» where
  LoaderPath := some (L "\\EFI\\BOOT\\BOOTx64.efi" ++ [0])
  DevicePathFromHandle := none
  relative := fun path => if path = L "EFI\\OpenCore.efi" then .ofFile [0x4D, 0x5A] else .noFile
  absolute := fun path => if path = L "EFI\\OpenCore.efi" then .ofFile [0x4D, 0x5A] else .noFile
  relativeAllocated := (true, true)
  absoluteAllocated := (true, true)
  LoadImage := EFI_SUCCESS
  StartImage := EFI_SUCCESS

/-- The volume of the example. -/
theorem oneFile_serves : «启动环境».oneFile.Serves fun path =>
    if path = L "EFI\\OpenCore.efi" then some [0x4D, 0x5A] else none := by
  have hAnswers : ∀ path : List CHAR16, («读文件环境».Answers
      (if path = L "EFI\\OpenCore.efi" then .ofFile [0x4D, 0x5A] else .noFile)
      (if path = L "EFI\\OpenCore.efi" then some [0x4D, 0x5A] else none)) := by
    intro path
    by_cases hPath : path = L "EFI\\OpenCore.efi"
    · rw [if_pos hPath, if_pos hPath]
      exact reads_ofFile (by decide)
    · rw [if_neg hPath, if_neg hPath]
      exact misses_noFile
  exact ⟨by simp [«启动环境».oneFile], hAnswers, hAnswers, rfl, rfl⟩

/-- The file two levels above the loader is run. -/
theorem openCore_handOver_oneFile : ∃ r L', «启动OpenCore» .oneFile .empty = some (r, L') ∧
    r.tried = some (L "EFI\\OpenCore.efi") ∧
    r.HandsOver none (some (L "EFI\\OpenCore.efi", [0x4D, 0x5A])) := by
  have hLoader : ∀ b, «启动环境».oneFile.LoaderPath = some b →
      ∃ s, b = s ++ [0] ∧ 0 ∉ s ∧ s.length ≤ 32000 := by
    intro b hb
    exact ⟨L "\\EFI\\BOOT\\BOOTx64.efi", (Option.some.inj hb).symm, by decide, by decide⟩
  obtain ⟨r, L', hRun, -, hTried, hHands⟩ := openCore_handOver oneFile_serves hLoader .empty
  have hName : ∀ s : List CHAR16, s.all (fun a => !isSlash a) = true → ∀ a ∈ s, isSlash a = false := by
    intro s hs a ha
    simpa using List.all_eq_true.mp hs a ha
  have hHead : ∀ a, (L "EFI").head? = some a → isSlash a = false := by
    intro a ha
    exact hName (L "EFI") (by decide) a (List.mem_of_mem_head? ha)
  have hTwo : TwoBelow (L "EFI") (L "\\EFI\\BOOT\\BOOTx64.efi") :=
    ⟨L "\\", L "BOOT", L "BOOTx64.efi", 0x5C, 0x5C, by decide, Or.inr ⟨0x5C, by decide, by decide⟩,
      by decide, hHead, by decide, by decide, by decide, hName _ (by decide), by decide,
      hName _ (by decide)⟩
  have hPath : r.tried = some (L "EFI\\OpenCore.efi") := (hTried _ _ rfl hTwo).trans (by decide)
  rw [hPath] at hHands
  exact ⟨r, L', hRun, hPath, hHands⟩

end TianJi.Model
