import TianJi.Model.OpenCore

/-!
# TianJi — the image launchers and what they hold

`RunEfiApplication` and `UefiMain` of 启动EFI程序.c, and `启动OpenCore` (天玑.c) again, as far as
they acquire and release volume and file handles and pool buffers. Every status and every
allocation may go either way. What `OcLoadAndRunImage` stores in a loaded image belongs to
the image.

* `uefiMain_settled_iff`  — which runs of 启动EFI程序 release everything once.
* `openCore_total`        — every call of `启动OpenCore` comes to its end.
* `openCore_settled_iff`  — which calls of `启动OpenCore` do.
* `launchers_settled_iff` — both, with what they pass to `LoadImage`.
-/

namespace TianJi.Model.«启动EFI程序»

open Ownership Ledger

/-- What the calls of one run return. -/
structure «镜像环境» where
  /-- The two calls of `HandleProtocol`. -/
  LoadedImage : EFI_STATUS
  FsProtocol : EFI_STATUS
  OpenVolume : EFI_STATUS
  Open : List CHAR16 → EFI_STATUS
  /-- `AllocatePool` for the file's info, and for its content. -/
  FileInfo : Bool
  SourceBuffer : Bool
  GetInfo : EFI_STATUS
  /-- `FileInfo->FileSize` -/
  FileSize : UINTN
  Read : UINTN → EFI_STATUS × List UINT8
  read_le : ∀ n, (Read n).2.length ≤ n.toNat
  LoadImage : EFI_STATUS
  StartImage : EFI_STATUS

/-- The status of a run, and buffer, content and size as `LoadImage` got them. -/
structure «镜像结果» where
  Status : EFI_STATUS
  loaded : Option (Ptr × List UINT8 × UINTN) := none

/-- The root directory is the caller's. Where the file does not open, it is closed here as well. -/
def RunEfiApplication (e : «镜像环境») (RootDir : Ptr) (FileName : List CHAR16) (L : Ledger) :
    «镜像结果» × Ledger :=
  if EFI_ERROR (e.Open FileName) then ({ Status := e.Open FileName }, L.release RootDir)
  else
    let (FileHandle, L) := L.acquire
    let (FileInfo, L) := L.tryAcquire e.FileInfo
    -- `goto CLOSE_FILE`
    if EFI_ERROR e.GetInfo then ({ Status := e.GetInfo }, L.release FileHandle)
    else
      let L := L.release FileInfo
      let (SourceBuffer, L) := L.tryAcquire e.SourceBuffer
      let answer := e.Read e.FileSize
      -- `FREE_BUFFER:` and `CLOSE_FILE:`
      let L' := (L.release SourceBuffer).release FileHandle
      if EFI_ERROR answer.1 then ({ Status := answer.1 }, L')
      else
        let FileSize := UInt64.ofNat answer.2.length
        ({ Status := if EFI_ERROR e.LoadImage then e.LoadImage else e.StartImage
           loaded := some (SourceBuffer, answer.2, FileSize) }, L')

/-- `UefiMain`, with its local `FileName`. -/
def UefiMain (FileName : List CHAR16) (e : «镜像环境») (L : Ledger) : «镜像结果» × Ledger :=
  if EFI_ERROR e.LoadedImage then ({ Status := e.LoadedImage }, L)
  else if EFI_ERROR e.FsProtocol then ({ Status := e.FsProtocol }, L)
  else if EFI_ERROR e.OpenVolume then ({ Status := e.OpenVolume }, L)
  else
    let (RootDir, L) := L.acquire
    let (result, L) := RunEfiApplication e RootDir FileName L
    (result, L.release RootDir)

/-- `LoadImage` gets a buffer that a successful read filled, and the number of bytes read. -/
def «镜像结果».Filled (r : «镜像结果») (e : «镜像环境») : Prop :=
  ∀ Buffer Data Size, r.loaded = some (Buffer, Data, Size) →
    Buffer ≠ .null ∧ EFI_ERROR (e.Read e.FileSize).1 = false ∧ Data = (e.Read e.FileSize).2 ∧
      Size.toNat = Data.length

/-- The runs that stop before the volume is open. -/
def «镜像环境».StopsEarly (e : «镜像环境») : Prop :=
  EFI_ERROR e.LoadedImage = true ∨ EFI_ERROR e.FsProtocol = true ∨ EFI_ERROR e.OpenVolume = true

/-- The file opens, its info is allocated exactly when it is also returned, and then the
buffer for its content is allocated. -/
def «镜像环境».Smooth (e : «镜像环境») (FileName : List CHAR16) : Prop :=
  EFI_ERROR (e.Open FileName) = false ∧
    if EFI_ERROR e.GetInfo then e.FileInfo = false
    else e.FileInfo = true ∧ e.SourceBuffer = true

variable {e : «镜像环境»} {FileName : List CHAR16} {L₀ L : Ledger} {id : Nat}

/-- Without the file's info its block stays behind. -/
theorem runEfiApplication_noInfo (h : Since L₀ L [] [.ref id])
    (hOpen : EFI_ERROR (e.Open FileName) = false) (hGet : EFI_ERROR e.GetInfo = true) :
    ∃ r L' p, RunEfiApplication e (.ref id) FileName L = (r, L') ∧ r.loaded = none ∧
      Since L₀ L' [] [.ref id, p] ∧ (p.ids = [] ↔ e.FileInfo = false) := by
  obtain ⟨f, L₁, hFile, hFileHeld⟩ := since_acquire h
  obtain ⟨p, L₂, hInfo, hInfoHeld, hWild, hNull⟩ := since_tryAcquire hFileHeld e.FileInfo
  unfold RunEfiApplication
  simp only [hOpen, hFile, hInfo, hGet, Bool.false_eq_true, if_false, if_true]
  exact ⟨_, _, p, rfl, rfl, (since_release_ref hInfoHeld.swap).swap,
    (Ptr.ids_eq_nil_iff hWild).trans hNull⟩

/-- With it everything of the callee's is released, also what was not allocated. -/
theorem runEfiApplication_info (h : Since L₀ L [] [.ref id])
    (hOpen : EFI_ERROR (e.Open FileName) = false) (hGet : EFI_ERROR e.GetInfo = false) :
    ∃ r L' p q, RunEfiApplication e (.ref id) FileName L = (r, L') ∧
      Since L₀ L' (nullFault p ++ nullFault q) [.ref id] ∧
      (p = .null ↔ e.FileInfo = false) ∧ (q = .null ↔ e.SourceBuffer = false) ∧
      r.loaded = if EFI_ERROR (e.Read e.FileSize).1 then none
        else some (q, (e.Read e.FileSize).2, UInt64.ofNat (e.Read e.FileSize).2.length) := by
  obtain ⟨f, L₁, hFile, hFileHeld⟩ := since_acquire h
  obtain ⟨p, L₂, hInfo, hInfoHeld, hWild, hNull⟩ := since_tryAcquire hFileHeld e.FileInfo
  have hInfoFreed := since_release hInfoHeld hWild
  rw [List.nil_append] at hInfoFreed
  obtain ⟨q, L₃, hBuffer, hBufferHeld, hWild', hNull'⟩ := since_tryAcquire hInfoFreed e.SourceBuffer
  have hEnd := since_release_ref (since_release hBufferHeld hWild')
  unfold RunEfiApplication
  simp only [hOpen, hFile, hInfo, hGet, hBuffer, Bool.false_eq_true, if_false]
  by_cases hRead : EFI_ERROR (e.Read e.FileSize).1 = true
  · simp only [if_pos hRead]
    exact ⟨_, _, p, q, rfl, hEnd, hNull, hNull', rfl⟩
  · simp only [if_neg hRead]
    exact ⟨_, _, p, q, rfl, hEnd, hNull, hNull', rfl⟩

/-- What is loaded after a successful read is what was read, and its size that of it. -/
theorem filled_of_loaded {r : «镜像结果»} {q : Ptr} (hq : q ≠ .null)
    (h : r.loaded = if EFI_ERROR (e.Read e.FileSize).1 then none
      else some (q, (e.Read e.FileSize).2, UInt64.ofNat (e.Read e.FileSize).2.length)) :
    r.Filled e := by
  intro Buffer Data Size hLoaded
  rw [hLoaded] at h
  split_ifs at h with hRead
  cases h
  refine ⟨hq, by simpa using hRead, rfl, UInt64.toNat_ofNat_of_lt' ?_⟩
  exact Nat.lt_of_le_of_lt (e.read_le _) e.FileSize.toNat_lt

/-- Nothing loaded is nothing wrong. -/
theorem filled_of_none {r : «镜像结果»} (h : r.loaded = none) : r.Filled e := by
  intro Buffer Data Size hLoaded
  rw [h] at hLoaded
  cases hLoaded

/-- **A complete run releases everything once and loads only what was read exactly when** it
stops before the volume is open, or the file opens and no allocation fails that matters. -/
theorem uefiMain_settled_iff (FileName : List CHAR16) (e : «镜像环境») :
    (Settled .empty (UefiMain FileName e .empty).2 ∧ (UefiMain FileName e .empty).1.Filled e) ↔
      e.StopsEarly ∨ e.Smooth FileName := by
  unfold UefiMain
  by_cases hLoaded : EFI_ERROR e.LoadedImage = true
  · rw [if_pos hLoaded]
    exact iff_of_true ⟨⟨rfl, List.Perm.refl _⟩, filled_of_none rfl⟩ (Or.inl (Or.inl hLoaded))
  by_cases hFs : EFI_ERROR e.FsProtocol = true
  · rw [if_neg hLoaded, if_pos hFs]
    exact iff_of_true ⟨⟨rfl, List.Perm.refl _⟩, filled_of_none rfl⟩ (Or.inl (Or.inr (Or.inl hFs)))
  by_cases hVolume : EFI_ERROR e.OpenVolume = true
  · rw [if_neg hLoaded, if_neg hFs, if_pos hVolume]
    exact iff_of_true ⟨⟨rfl, List.Perm.refl _⟩, filled_of_none rfl⟩
      (Or.inl (Or.inr (Or.inr hVolume)))
  have hEarly : ¬ e.StopsEarly := by
    rintro (h | h | h)
    · exact hLoaded h
    · exact hFs h
    · exact hVolume h
  obtain ⟨id, L₁, hRoot, hHeld⟩ := since_acquire (since_refl .empty)
  rw [if_neg hLoaded, if_neg hFs, if_neg hVolume, hRoot, or_iff_right hEarly]
  unfold «镜像环境».Smooth
  cases hOpen : EFI_ERROR (e.Open FileName) with
  | true =>
    -- the callee has closed the root directory already
    have hClosed := since_release_ref hHeld
    have hStale : id ∉ (L₁.release (.ref id)).live := by simp [List.perm_nil.mp hClosed.live]
    have hTwice := since_release_stale hClosed hStale
    have hRun : RunEfiApplication e (.ref id) FileName L₁ =
        ({ Status := e.Open FileName }, L₁.release (.ref id)) := by
      unfold RunEfiApplication
      rw [if_pos hOpen]
    simp only [hRun]
    refine iff_of_false (fun h => ?_) (fun h => absurd h.1 (by simp))
    exact absurd ((settled_iff_of_since hTwice).mp h.1).1 (by simp)
  | false =>
    cases hGet : EFI_ERROR e.GetInfo with
    | true =>
      obtain ⟨r, L₂, p, hRun, hNone, hSince, hIds⟩ := runEfiApplication_noInfo hHeld hOpen hGet
      simp only [hRun, settled_iff_of_since (since_release_ref hSince)]
      simp [hIds, filled_of_none hNone]
    | false =>
      obtain ⟨r, L₂, p, q, hRun, hSince, hNull, hNull', hLoad⟩ :=
        runEfiApplication_info hHeld hOpen hGet
      have hInfo : nullFault p = [] ↔ e.FileInfo = true := by
        rw [nullFault_eq_nil_iff, Ne, hNull, Bool.not_eq_false]
      have hBuffer : nullFault q = [] ↔ e.SourceBuffer = true := by
        rw [nullFault_eq_nil_iff, Ne, hNull', Bool.not_eq_false]
      -- both blocks are released, null or not, and a null one is a fault
      simp only [hRun, settled_iff_of_since (since_release_ref hSince), List.append_eq_nil_iff,
        hInfo, hBuffer]
      constructor
      · intro h
        exact ⟨trivial, h.1.1⟩
      · intro h
        refine ⟨⟨h.2, by simp⟩, filled_of_loaded ?_ hLoad⟩
        exact nullFault_eq_nil_iff.mp (hBuffer.mpr h.2.2)

end TianJi.Model.«启动EFI程序»

namespace TianJi.Model

open Ownership Ledger

/-- Two levels above the loader there is a file that can be read and named. -/
def «启动环境».RelativeFound (e : «启动环境») : Prop :=
  ∃ block r path, e.LoaderPath = some block ∧ relativePath block = some r ∧ r.path = some path ∧
    (e.relative path).given BASE_16MB ≠ none ∧
    PathMade e.DevicePathFromHandle e.relativeAllocated

/-- Only the file under `EFI\OC` can be read, and its device path cannot be made. -/
def «启动环境».PathLost (e : «启动环境») : Prop :=
  ¬ e.RelativeFound ∧ (e.absolute absolutePath).given BASE_16MB ≠ none ∧
    ¬ PathMade e.DevicePathFromHandle e.absoluteAllocated

/-- The bytes read successfully, and two bytes behind them that the size does not count. -/
def «读文件环境».Filled (e : «读文件环境») (Data : List UINT8) (Size : Nat) : Prop :=
  ∃ bytes, Data = bytes ++ [0, 0] ∧ Size = bytes.length ∧ e.ReadsFrom 0 bytes

/-- Data and size are those of one of the two files. -/
def «启动环境».Filled (e : «启动环境») (Data : List UINT8) (Size : Nat) : Prop :=
  (∃ path, (e.relative path).Filled Data Size) ∨ (e.absolute absolutePath).Filled Data Size

/-- `LoadImage` gets what was read and how much it is. -/
def «启动结果».Filled (r : «启动结果») (e : «启动环境») : Prop :=
  ∀ ImagePath Data Size, r.started = some (ImagePath, Data, Size) → e.Filled Data Size.toNat

variable {e : «启动环境»} {L₀ L L' : Ledger} {fs : List Fault} {ps : List Ptr}
  {image image' : «启动镜像»} {r : RelativePath}

/-- A file that was read has its bytes, and two more behind them. -/
theorem filled_of_given {f : «读文件环境»} {MaxFileSize Size : UINT32} {data : List UINT8}
    (h : f.given MaxFileSize = some (data, Size)) : f.Filled data Size.toNat := by
  obtain ⟨bytes, hData, hLength, hReads⟩ := given_readsFrom h
  exact ⟨bytes, hData, hLength.symm, hReads⟩

/-- The locals hold nothing. -/
def «启动镜像».Empty (image : «启动镜像») : Prop := image.Buffer = none ∧ image.ImagePath = none

/-- They hold a buffer, which is to be released together with what `ImagePath` is. -/
def «启动镜像».Held (image : «启动镜像») (e : «启动环境») (id : Nat) : Prop :=
  ∃ data, image.Buffer = some (.ref id, data) ∧ e.Filled data image.BufferSize.toNat

/-- Either the locals are empty and the pool is as before, or they own a buffer and a path. -/
theorem readRelative_since {path : List CHAR16} (h : Since L₀ L fs ps)
    (hRun : readRelative e path L = some (image, L')) :
    (image.Empty ∧ Since L₀ L' fs ps ∧ ¬ ((e.relative path).given BASE_16MB ≠ none ∧
      PathMade e.DevicePathFromHandle e.relativeAllocated)) ∨
    ∃ b p d, image.Held e b ∧ image.ImagePath = some (.ref p, d) ∧
      Since L₀ L' fs (.ref p :: .ref b :: ps) ∧ (e.relative path).given BASE_16MB ≠ none ∧
      PathMade e.DevicePathFromHandle e.relativeAllocated := by
  unfold readRelative at hRun
  rcases readFile_since h BASE_16MB (e := e.relative path) with ⟨L₁, hRead, hGiven, hSince⟩ |
    ⟨b, data, Size, L₁, hRead, hGiven, hSince⟩
  · rw [hRead] at hRun
    obtain ⟨rfl, rfl⟩ := Prod.mk.inj (Option.some.inj hRun)
    exact Or.inl ⟨⟨rfl, rfl⟩, hSince, fun hBoth => hBoth.1 hGiven⟩
  rw [hRead] at hRun
  obtain ⟨⟨made, L₂⟩, hPath, hRun⟩ := Option.bind_eq_some_iff.mp hRun
  rcases fileDevicePath_since hSince hPath with ⟨rfl, hMade, hSince₂⟩ |
    ⟨p, d, rfl, hMade, hSince₂⟩
  · obtain ⟨rfl, rfl⟩ := Prod.mk.inj (Option.some.inj hRun)
    exact Or.inl ⟨⟨rfl, rfl⟩, since_release_ref hSince₂, fun hBoth => hMade hBoth.2⟩
  · obtain ⟨rfl, rfl⟩ := Prod.mk.inj (Option.some.inj hRun)
    exact Or.inr ⟨b, p, d, ⟨data, rfl, Or.inl ⟨path, filled_of_given hGiven⟩⟩, rfl, hSince₂,
      by rw [hGiven]; simp, hMade⟩

/-- The loader's path is released whatever comes of it. -/
theorem tryRelative_since (h : Since L₀ L fs ps) (hRun : tryRelative e L = some (r, image, L')) :
    (image.Empty ∧ Since L₀ L' fs ps ∧ ¬ e.RelativeFound) ∨
    ∃ b p d, image.Held e b ∧ image.ImagePath = some (.ref p, d) ∧
      Since L₀ L' fs (.ref p :: .ref b :: ps) ∧ e.RelativeFound := by
  unfold tryRelative at hRun
  cases hLoader : e.LoaderPath with
  | none =>
    rw [hLoader] at hRun
    obtain ⟨rfl, hRest⟩ := Prod.mk.inj (Option.some.inj hRun)
    obtain ⟨rfl, rfl⟩ := Prod.mk.inj hRest
    refine Or.inl ⟨⟨rfl, rfl⟩, h, ?_⟩
    rintro ⟨block, r, path, hBlock, -⟩
    rw [hLoader] at hBlock
    cases hBlock
  | some block =>
    obtain ⟨l, L₁, hAcquire, hHeld⟩ := since_acquire h
    -- the path that was copied is released on every way out
    simp only [hLoader, hAcquire] at hRun
    obtain ⟨r', hRelative, hRun⟩ := Option.bind_eq_some_iff.mp hRun
    have hFound : ∀ {path}, r'.path = some path → (e.RelativeFound ↔
        (e.relative path).given BASE_16MB ≠ none ∧
          PathMade e.DevicePathFromHandle e.relativeAllocated) := by
      intro path hPath
      constructor
      · rintro ⟨block', r'', path', hBlock', hRelative', hPath', hGiven⟩
        obtain rfl : block = block' := Option.some.inj (hLoader.symm.trans hBlock')
        obtain rfl : r' = r'' := Option.some.inj (hRelative.symm.trans hRelative')
        obtain rfl : path = path' := Option.some.inj (hPath.symm.trans hPath')
        exact hGiven
      · intro hGiven
        exact ⟨block, r', path, hLoader, hRelative, hPath, hGiven⟩
    cases hPath : r'.path with
    | none =>
      simp only [hPath] at hRun
      obtain ⟨rfl, hRest⟩ := Prod.mk.inj (Option.some.inj hRun)
      obtain ⟨rfl, rfl⟩ := Prod.mk.inj hRest
      refine Or.inl ⟨⟨rfl, rfl⟩, since_release_ref hHeld, ?_⟩
      rintro ⟨block', r'', path', hBlock', hRelative', hPath', -⟩
      obtain rfl : block = block' := Option.some.inj (hLoader.symm.trans hBlock')
      obtain rfl : r' = r'' := Option.some.inj (hRelative.symm.trans hRelative')
      rw [hPath] at hPath'
      cases hPath'
    | some path =>
      simp only [hPath] at hRun
      obtain ⟨⟨image₁, L₂⟩, hRead, hRun⟩ := Option.bind_eq_some_iff.mp hRun
      obtain ⟨rfl, hRest⟩ := Prod.mk.inj (Option.some.inj hRun)
      obtain ⟨rfl, rfl⟩ := Prod.mk.inj hRest
      rcases readRelative_since hHeld hRead with ⟨hEmpty, hSince, hNone⟩ |
        ⟨b, p, d, hImage, hPathHeld, hSince, hGiven⟩
      · exact Or.inl ⟨hEmpty, since_release_ref hSince, mt (hFound hPath).mp hNone⟩
      · exact Or.inr ⟨b, p, d, hImage, hPathHeld, since_release_ref (hSince.perm (by grind)),
          (hFound hPath).mpr hGiven⟩

/-- The second attempt, after a first one that found nothing. -/
theorem tryAbsolute_since (h : Since L₀ L fs ps) (hEmpty : image.Empty)
    (hRun : tryAbsolute e image L = some (image', L')) :
    (image'.Empty ∧ Since L₀ L' fs ps ∧ (e.absolute absolutePath).given BASE_16MB = none) ∨
    ∃ b, image'.Held e b ∧ (e.absolute absolutePath).given BASE_16MB ≠ none ∧
      ((image'.ImagePath = none ∧ ¬ PathMade e.DevicePathFromHandle e.absoluteAllocated ∧
          Since L₀ L' fs (.ref b :: ps)) ∨
        ∃ p d, image'.ImagePath = some (.ref p, d) ∧
          PathMade e.DevicePathFromHandle e.absoluteAllocated ∧
          Since L₀ L' fs (.ref p :: .ref b :: ps)) := by
  unfold tryAbsolute at hRun
  rw [hEmpty.1] at hRun
  rcases readFile_since h BASE_16MB (e := e.absolute absolutePath) with
    ⟨L₁, hRead, hGiven, hSince⟩ | ⟨b, data, Size, L₁, hRead, hGiven, hSince⟩
  · rw [hRead] at hRun
    obtain ⟨rfl, rfl⟩ := Prod.mk.inj (Option.some.inj hRun)
    exact Or.inl ⟨hEmpty, hSince, hGiven⟩
  rw [hRead] at hRun
  obtain ⟨⟨made, L₂⟩, hPath, hRun⟩ := Option.bind_eq_some_iff.mp hRun
  obtain ⟨rfl, rfl⟩ := Prod.mk.inj (Option.some.inj hRun)
  refine Or.inr ⟨b, ⟨data, rfl, Or.inr (filled_of_given hGiven)⟩, by rw [hGiven]; simp, ?_⟩
  rcases fileDevicePath_since hSince hPath with ⟨rfl, hMade, hSince₂⟩ |
    ⟨p, d, rfl, hMade, hSince₂⟩
  · exact Or.inl ⟨rfl, hMade, hSince₂⟩
  · exact Or.inr ⟨p, d, rfl, hMade, hSince₂⟩

/-- A buffer that is already held is kept. -/
theorem tryAbsolute_held {b : Nat} (hHeld : image.Held e b) (L : Ledger) :
    tryAbsolute e image L = some (image, L) := by
  obtain ⟨data, hBuffer, -⟩ := hHeld
  simp [tryAbsolute, hBuffer]

/-- The string that `OcCopyDevicePathFullName` returns, if any: terminated, and short enough
for a file node. -/
def «启动环境».LoaderNamed (e : «启动环境») : Prop :=
  ∀ b, e.LoaderPath = some b → ∃ s, b = s ++ [0] ∧ 0 ∉ s ∧ s.length ≤ 32000

/-- A path that fits a node can be made one of. -/
theorem readRelative_total {path : List CHAR16} (hPath : path.length ≤ 32000) (L : Ledger) :
    ∃ image, readRelative e path L = some image := by
  unfold readRelative
  rcases OcReadFile (e.relative path) BASE_16MB L with ⟨_ | ⟨Buffer, data, Size⟩, L₁⟩
  · exact ⟨_, rfl⟩
  · obtain ⟨⟨made, L₂⟩, hMade⟩ := fileDevicePath_total e.DevicePathFromHandle e.relativeAllocated L₁
      (show path.length + 1 < 0x7FFE by omega)
    simp only [hMade, Option.bind_eq_bind, Option.bind_some]
    cases made with
    | none => exact ⟨_, rfl⟩
    | some ImagePath => exact ⟨_, rfl⟩

/-- The first attempt comes to an end. -/
theorem tryRelative_total (hLoader : e.LoaderNamed) (L : Ledger) :
    ∃ r image L', tryRelative e L = some (r, image, L') := by
  unfold tryRelative
  cases hPath : e.LoaderPath with
  | none => exact ⟨_, _, _, rfl⟩
  | some b =>
    obtain ⟨s, rfl, hZero, hs⟩ := hLoader b hPath
    obtain ⟨r, hRelative, -, hShort⟩ := relativePath_total hZero hs
    simp only [hRelative, Option.bind_eq_bind, Option.bind_some]
    cases hTried : r.path with
    | none => exact ⟨_, _, _, rfl⟩
    | some path =>
      obtain ⟨⟨image, L₁⟩, hRead⟩ :=
        readRelative_total (e := e) (Nat.le_trans (hShort path hTried) hs) L.acquire.2
      simp only [hRead, Option.bind_some]
      exact ⟨_, _, _, rfl⟩

/-- So does the second one, whose path is fixed. -/
theorem tryAbsolute_total (e : «启动环境») (image : «启动镜像») (L : Ledger) :
    ∃ image' L', tryAbsolute e image L = some (image', L') := by
  unfold tryAbsolute
  split_ifs
  · exact ⟨_, _, rfl⟩
  · rcases OcReadFile (e.absolute absolutePath) BASE_16MB L with ⟨_ | ⟨Buffer, data, Size⟩, L₁⟩
    · exact ⟨_, _, rfl⟩
    · obtain ⟨⟨made, L₂⟩, hMade⟩ := fileDevicePath_total e.DevicePathFromHandle e.absoluteAllocated
        L₁ (show absolutePath.length + 1 < 0x7FFE by decide)
      simp only [hMade, Option.bind_eq_bind, Option.bind_some]
      exact ⟨_, _, rfl⟩

/-- **Every call comes to its end**, whatever the firmware answers. -/
theorem openCore_total (hLoader : e.LoaderNamed) (L : Ledger) :
    ∃ result L', «启动OpenCore» e L = some (result, L') := by
  obtain ⟨r, image, L₁, hRelative⟩ := tryRelative_total hLoader L
  obtain ⟨image', L₂, hAbsolute⟩ := tryAbsolute_total e image L₁
  unfold «启动OpenCore»
  simp only [hRelative, hAbsolute, Option.bind_eq_bind, Option.bind_some]
  -- a path without a buffer is what the assertion excludes
  have hPath : image'.Buffer = none → image'.ImagePath.isSome = false := by
    intro hBuffer
    rcases tryRelative_since (since_refl L) hRelative with ⟨hEmpty, hSince, -⟩ | ⟨b, p, d, hHeld, -⟩
    · rcases tryAbsolute_since hSince hEmpty hAbsolute with ⟨hEmpty', -⟩ | ⟨b, hHeld, -⟩
      · rw [hEmpty'.2]
        rfl
      · obtain ⟨data, hSome, -⟩ := hHeld
        rw [hBuffer] at hSome
        cases hSome
    · obtain ⟨rfl, rfl⟩ := Prod.mk.inj (Option.some.inj ((tryAbsolute_held hHeld L₁).symm.trans
        hAbsolute))
      obtain ⟨data, hSome, -⟩ := hHeld
      rw [hBuffer] at hSome
      cases hSome
  cases hBuffer : image'.Buffer with
  | none =>
    simp only [hPath hBuffer, Bool.false_eq_true, if_false]
    exact ⟨_, _, rfl⟩
  | some block => exact ⟨_, _, rfl⟩

/-- The end of a call that holds a buffer: it is released with its path, and what was run is
what the buffer holds. -/
theorem openCore_of_held {b : Nat} {L₁ L₂ : Ledger} {result : «启动结果»}
    (hRelative : tryRelative e L = some (r, image, L₁))
    (hAbsolute : tryAbsolute e image L₁ = some (image', L₂)) (hHeld : image'.Held e b)
    (hRun : «启动OpenCore» e L = some (result, L')) :
    result.Filled e ∧ L' = (L₂.release (.ref b)).release (pointer image'.ImagePath) := by
  obtain ⟨data, hBuffer, hFilled⟩ := hHeld
  simp only [«启动OpenCore», hRelative, hAbsolute, Option.bind_eq_bind, Option.bind_some,
    hBuffer] at hRun
  obtain ⟨rfl, rfl⟩ := Prod.mk.inj (Option.some.inj hRun)
  refine ⟨?_, rfl⟩
  intro ImagePath Data Size hStarted
  cases hStarted
  rw [UInt32.toNat_toUInt64]
  exact hFilled

/-- **A call of `启动OpenCore` releases everything once and runs only what was read, exactly
when** it does not lose the device path of the file under `EFI\OC`. -/
theorem openCore_settled_iff {result : «启动结果»}
    (hRun : «启动OpenCore» e L = some (result, L')) :
    (Settled L L' ∧ result.Filled e) ↔ ¬ e.PathLost := by
  obtain ⟨⟨r, image, L₁⟩, hRelative, hRest⟩ := Option.bind_eq_some_iff.mp hRun
  obtain ⟨⟨image', L₂⟩, hAbsolute, hEnd⟩ := Option.bind_eq_some_iff.mp hRest
  rcases tryRelative_since (since_refl L) hRelative with ⟨hEmpty, hSince, hNotFound⟩ |
    ⟨b, p, d, hHeld, hPath, hSince, hFound⟩
  · rcases tryAbsolute_since hSince hEmpty hAbsolute with ⟨hEmpty', hSince₂, hMissing⟩ |
      ⟨b, hHeld, hGiven, ⟨hPath, hMade, hSince₂⟩ | ⟨p, d, hPath, hMade, hSince₂⟩⟩
    · -- neither file: nothing is held and nothing is run
      simp only [hEmpty'.1, hEmpty'.2] at hEnd
      obtain ⟨rfl, rfl⟩ := Prod.mk.inj (Option.some.inj hEnd)
      refine iff_of_true ⟨(settled_iff_of_since hSince₂).mpr ⟨rfl, by simp⟩, ?_⟩
        (fun hLost => hLost.2.1 hMissing)
      intro ImagePath Data Size hStarted
      cases hStarted
    · -- the absolute path without a device path: a null pointer is released
      obtain ⟨hFilled, rfl⟩ := openCore_of_held hRelative hAbsolute hHeld hRun
      rw [hPath]
      have hNull := since_release (since_release_ref hSince₂).null_cons (by simp)
      refine iff_of_false (fun h => ?_) (fun h => h ⟨hNotFound, hGiven, hMade⟩)
      exact absurd ((settled_iff_of_since hNull).mp h.1).1 (by simp [nullFault])
    · -- the absolute path with its device path
      obtain ⟨hFilled, rfl⟩ := openCore_of_held hRelative hAbsolute hHeld hRun
      rw [hPath]
      have hBoth := since_release_ref (since_release_ref hSince₂.swap)
      exact iff_of_true ⟨(settled_iff_of_since hBoth).mpr ⟨rfl, by simp⟩, hFilled⟩
        (fun hLost => hLost.2.2 hMade)
  · -- the relative path, which has a device path whenever it has a buffer
    obtain ⟨rfl, rfl⟩ := Prod.mk.inj (Option.some.inj ((tryAbsolute_held hHeld L₁).symm.trans
      hAbsolute))
    obtain ⟨hFilled, rfl⟩ := openCore_of_held hRelative hAbsolute hHeld hRun
    rw [hPath]
    have hBoth := since_release_ref (since_release_ref hSince.swap)
    exact iff_of_true ⟨(settled_iff_of_since hBoth).mpr ⟨rfl, by simp⟩, hFilled⟩
      (fun hLost => hLost.1 hFound)

/--
**Both launchers.** A run of 启动EFI程序 keeps the discipline exactly when it ends before the
volume is open, or the file opens, its info is allocated if and only if it is returned, and
then the buffer for its content is allocated. A call of `启动OpenCore` comes to its end for every
loader path that fits a file node, and keeps it exactly when it does not run the file under
`EFI\OC` without having made its device path.
-/
theorem launchers_settled_iff (FileName : List CHAR16) (m : «启动EFI程序».«镜像环境»)
    (e : «启动环境») (L : Ledger) :
    ((Settled .empty («启动EFI程序».UefiMain FileName m .empty).2 ∧
        («启动EFI程序».UefiMain FileName m .empty).1.Filled m) ↔
      m.StopsEarly ∨ m.Smooth FileName) ∧
    (e.LoaderNamed → ∃ result L', «启动OpenCore» e L = some (result, L')) ∧
    ∀ result L', «启动OpenCore» e L = some (result, L') →
      ((Settled L L' ∧ result.Filled e) ↔ ¬ e.PathLost) :=
  ⟨«启动EFI程序».uefiMain_settled_iff FileName m, fun hLoader => openCore_total hLoader L,
    fun _ _ hRun => openCore_settled_iff hRun⟩

/-- What 启动EFI程序 starts. -/
def «启动EFI程序».«终端» : List CHAR16 := Model.L "\\EFI\\TianJI\\天玑终端.efi"

/-- The calls of a run of 启动EFI程序 on a volume that has the file. -/
def «启动EFI程序».«镜像环境».oneFile : «启动EFI程序».«镜像环境» where
  LoadedImage := EFI_SUCCESS
  FsProtocol := EFI_SUCCESS
  OpenVolume := EFI_SUCCESS
  Open := fun path => if path = «终端» then EFI_SUCCESS else EFI_NOT_FOUND
  FileInfo := true
  SourceBuffer := true
  GetInfo := EFI_SUCCESS
  FileSize := 2
  Read := fun n => (EFI_SUCCESS, [0x4D, 0x5A].take n.toNat)
  read_le _ := List.length_take_le _ _
  LoadImage := EFI_SUCCESS
  StartImage := EFI_SUCCESS

/-- Both launchers on volumes with their files: the files are loaded, and nothing is left. -/
theorem launchers_settled_oneFile :
    (Settled .empty («启动EFI程序».UefiMain «启动EFI程序».«终端» .oneFile .empty).2 ∧
      («启动EFI程序».UefiMain «启动EFI程序».«终端» .oneFile .empty).1.Filled .oneFile ∧
      («启动EFI程序».UefiMain «启动EFI程序».«终端» .oneFile .empty).1.loaded =
        some (.ref 3, [0x4D, 0x5A], 2)) ∧
    ∃ result L', «启动OpenCore» .oneFile .empty = some (result, L') ∧ Settled .empty L' ∧
      result.Filled .oneFile ∧ result.started.map Prod.snd = some ([0x4D, 0x5A, 0, 0], 2) := by
  obtain ⟨hTerminal, hTotal, hOpenCore⟩ := launchers_settled_iff «启动EFI程序».«终端»
    «启动EFI程序».«镜像环境».oneFile .oneFile .empty
  have hSmooth : «启动EFI程序».«镜像环境».oneFile.Smooth «启动EFI程序».«终端» := by
    refine ⟨by decide, ?_⟩
    rw [if_neg (by decide)]
    exact ⟨rfl, rfl⟩
  obtain ⟨hSettled, hFilled⟩ := hTerminal.mpr (Or.inr hSmooth)
  have hNamed : «启动环境».oneFile.LoaderNamed := fun b hb =>
    ⟨Model.L "\\EFI\\BOOT\\BOOTx64.efi", (Option.some.inj hb).symm, by decide, by decide⟩
  obtain ⟨result, L', hRun⟩ := hTotal hNamed
  have hMade : PathMade none (true, true) := ⟨rfl, fun path hPath => by cases hPath⟩
  obtain ⟨hNothing, hBytes⟩ := (hOpenCore result L' hRun).mpr fun hLost => hLost.2.2 hMade
  have hStarted : («启动OpenCore» .oneFile .empty).map (fun r => r.1.started.map Prod.snd) =
      some (some ([0x4D, 0x5A, 0, 0], 2)) := by decide +kernel
  rw [hRun] at hStarted
  exact ⟨⟨hSettled, hFilled, by decide +kernel⟩, result, L', hRun, hNothing, hBytes,
    Option.some.inj hStarted⟩

/-- The same on a volume without the file. -/
def «启动EFI程序».«镜像环境».noFile : «启动EFI程序».«镜像环境» :=
  { «启动EFI程序».«镜像环境».oneFile with Open := fun _ => EFI_NOT_FOUND }

/-- A file that cannot be opened has the root directory closed twice. -/
theorem missing_file_closes_twice :
    ¬ (Settled .empty («启动EFI程序».UefiMain «启动EFI程序».«终端» .noFile .empty).2 ∧
      («启动EFI程序».UefiMain «启动EFI程序».«终端» .noFile .empty).1.Filled .noFile) := by
  rintro ⟨hSettled, -⟩
  exact absurd hSettled.1 (by decide)

end TianJi.Model
