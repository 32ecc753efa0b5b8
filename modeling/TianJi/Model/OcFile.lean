import TianJi.Lib.Ledger
import TianJi.Model.Uefi

/-!
# TianJi — reading a file whole

`OcReadFile` (OcFileLib): open the volume and the file, ask for the file's size, read it in
portions of 1 MB and append two zero bytes. The firmware answers every call; what it
answers is the argument of the model.

* `getFileData_eq`  — the portions make up the rest of the file.
* `readFile_reads`  — a file of at most `MaxFileSize` bytes is returned whole.
* `readFile_large`, `readFile_misses` — a larger file or a missing one gives a null pointer.
* `readFile_since`  — whatever the firmware answers, only the buffer is left to release.
* `given_readsFrom` — what it holds was read successfully, and its size says how much.
-/

namespace TianJi.Model

open Ownership

def BASE_1MB : UINT32 := 0x00100000
def BASE_16MB : UINT32 := 0x01000000

/-- What the firmware answers to the calls of one `OcReadFile`. -/
structure «读文件环境» where
  OpenVolume : EFI_STATUS
  Open : EFI_STATUS
  /-- `*NewHandle != NULL` after an `Open` that reports an error. -/
  NewHandle : Bool
  /-- `SetPosition` to the end of the file. -/
  SetPositionEnd : EFI_STATUS
  GetPosition : EFI_STATUS
  Position : UINTN
  /-- The first `GetInfo`, which asks for the size of the answer. -/
  GetInfoSize : EFI_STATUS
  FileInfoSize : UINTN
  FileInfoBuffer : Bool
  GetInfo : EFI_STATUS
  /-- `FileInfo->FileSize` -/
  FileSize : UINTN
  FileBuffer : Bool
  SetPosition : UINT32 → EFI_STATUS
  /-- Status and bytes of a `Read` at a position, by the size asked for. -/
  Read : UINT32 → UINT32 → EFI_STATUS × List UINT8
  read_le : ∀ p n, (Read p n).2.length ≤ n.toNat

/-- `OcSafeFileOpen` for reading. A write protection error that comes with a handle is no
error. -/
def OcSafeFileOpen (e : «读文件环境») (L : Ledger) : EFI_STATUS × Ptr × Ledger :=
  if e.Open = EFI_WRITE_PROTECTED ∧ e.NewHandle then (EFI_SUCCESS, L.acquire)
  else if EFI_ERROR e.Open then (e.Open, .null, L)
  else (e.Open, L.acquire)

/-- `sizeof (EFI_FILE_INFO)` -/
def sizeofFileInfo : UINTN := 88

/-- `OcGetFileInfo`: the block and its `FileSize`. -/
def OcGetFileInfo (e : «读文件环境») (L : Ledger) : Option (Ptr × UINTN) × Ledger :=
  if e.GetInfoSize = EFI_BUFFER_TOO_SMALL ∧ sizeofFileInfo ≤ e.FileInfoSize then
    -- `BaseOverflowAddUN (FileInfoSize, sizeof (CHAR16), &FileInfoSize)`
    if 2 ^ 64 ≤ e.FileInfoSize.toNat + 2 then (none, L)
    else if e.FileInfoBuffer then
      let (FileInfoBuffer, L) := L.acquire
      if EFI_ERROR e.GetInfo then (none, L.release FileInfoBuffer)
      else (some (FileInfoBuffer, e.FileSize), L)
    else (none, L)
  else (none, L)

/-- `OcGetFileSize` -/
def OcGetFileSize (e : «读文件环境») (L : Ledger) : EFI_STATUS × UINT32 × Ledger :=
  if EFI_ERROR e.SetPositionEnd then
    match OcGetFileInfo e L with
    | (some (FileInfo, FileSize), L) =>
      let L := L.release FileInfo
      if FileSize.toUInt32.toUInt64 = FileSize then (EFI_SUCCESS, FileSize.toUInt32, L)
      else (e.SetPositionEnd, 0, L)
    | (none, L) => (e.SetPositionEnd, 0, L)
  else if EFI_ERROR e.GetPosition then (e.GetPosition, 0, L)
  else if e.Position.toUInt32.toUInt64 ≠ e.Position then (EFI_OUT_OF_RESOURCES, 0, L)
  else (EFI_SUCCESS, e.Position.toUInt32, L)

/-- A portion is not empty, fits into what is left, and shortens it. -/
theorem portion_spec {Size : UINT32} (h : Size ≠ 0) :
    (min Size BASE_1MB).toNat ≤ Size.toNat ∧
      (Size - min Size BASE_1MB).toNat < Size.toNat ∧
      (Size - min Size BASE_1MB).toNat = Size.toNat - (min Size BASE_1MB).toNat := by
  have hMin : (min Size BASE_1MB).toNat = min Size.toNat BASE_1MB.toNat := by
    rw [UInt32.min_def]
    split_ifs with hLe <;> rw [UInt32.le_iff_toNat_le] at hLe <;> omega
  have hMB : BASE_1MB.toNat = 0x00100000 := rfl
  have hPos : Size.toNat ≠ 0 := fun hZero => h (UInt32.toNat_inj.mp hZero)
  rw [UInt32.toNat_sub_of_le _ _ (UInt32.le_iff_toNat_le.mpr (by omega))]
  omega

/-- `OcGetFileData`, with what the buffer holds so far. -/
def OcGetFileData (e : «读文件环境») (Position Size : UINT32) (Buffer : List UINT8) :
    EFI_STATUS × List UINT8 :=
  if Size = 0 then (EFI_SUCCESS, Buffer)
  else if EFI_ERROR (e.SetPosition Position) then (e.SetPosition Position, Buffer)
  else
    let RequestedSize := min Size BASE_1MB
    let answer := e.Read Position RequestedSize
    let ReadSize := answer.2.length
    if EFI_ERROR answer.1 then (answer.1, Buffer ++ answer.2)
    else if ReadSize ≠ RequestedSize.toNat then (EFI_BAD_BUFFER_SIZE, Buffer ++ answer.2)
    else
      OcGetFileData e (Position + UInt32.ofNat ReadSize) (Size - UInt32.ofNat ReadSize)
        (Buffer ++ answer.2)
termination_by Size.toNat
decreasing_by
  rename_i hSize _ _ hRead
  have hRead' : (e.Read Position (min Size BASE_1MB)).2.length = (min Size BASE_1MB).toNat :=
    not_not.mp hRead
  rw [hRead', UInt32.ofNat_toNat]
  exact (portion_spec hSize).2.1

/-- `OcReadFile`: the buffer, what it holds, and `*FileSize`. -/
def OcReadFile (e : «读文件环境») (MaxFileSize : UINT32) (L : Ledger) :
    Option (Ptr × List UINT8 × UINT32) × Ledger :=
  if EFI_ERROR e.OpenVolume then (none, L)
  else
    let (Volume, L) := L.acquire
    let (Status, FileHandle, L) := OcSafeFileOpen e L
    let L := L.release Volume
    if EFI_ERROR Status then (none, L)
    else
      let (Status, FileReadSize, L) := OcGetFileSize e L
      -- the second test is `BaseOverflowAddU32 (FileReadSize, sizeof (CHAR16), &FileBufferSize)`
      if EFI_ERROR Status ∨ 2 ^ 32 ≤ FileReadSize.toNat + 2 ∨
          (0 < MaxFileSize ∧ MaxFileSize < FileReadSize) then
        (none, L.release FileHandle)
      else if e.FileBuffer then
        let (FileBuffer, L) := L.acquire
        let (Status, Data) := OcGetFileData e 0 FileReadSize []
        if EFI_ERROR Status then (none, (L.release FileBuffer).release FileHandle)
        else (some (FileBuffer, Data ++ [0, 0], FileReadSize), L.release FileHandle)
      else (none, L.release FileHandle)

-- ---------------------------------------------------------------------------
-- Files that are there
-- ---------------------------------------------------------------------------

/-- Allocations and file calls succeed, on a file with this content. -/
structure «读文件环境».Reads (e : «读文件环境») (content : List UINT8) : Prop where
  OpenVolume : EFI_ERROR e.OpenVolume = false
  Open : EFI_ERROR e.Open = false
  SetPositionEnd : EFI_ERROR e.SetPositionEnd = false
  GetPosition : EFI_ERROR e.GetPosition = false
  Position : e.Position.toNat = content.length
  FileBuffer : e.FileBuffer = true
  SetPosition : ∀ p, EFI_ERROR (e.SetPosition p) = false
  Read : ∀ p n, EFI_ERROR (e.Read p n).1 = false ∧
    (e.Read p n).2 = (content.drop p.toNat).take n.toNat

/-- There is no such file: opening it fails and leaves no handle. -/
structure «读文件环境».Misses (e : «读文件环境») : Prop where
  Open : EFI_ERROR e.Open = true
  NewHandle : e.NewHandle = false

variable {e : «读文件环境»} {content : List UINT8}

/-- **The portions make up the rest of the file.** -/
theorem getFileData_eq (h : e.Reads content) (Position Size : UINT32) (Buffer : List UINT8)
    (hSize : Position.toNat + Size.toNat = content.length) (hSmall : content.length < 2 ^ 32) :
    OcGetFileData e Position Size Buffer = (EFI_SUCCESS, Buffer ++ content.drop Position.toNat) := by
  -- on what is left to read
  induction hn : Size.toNat using Nat.strongRecOn generalizing Position Size Buffer with
  | ind n ih =>
  rw [OcGetFileData]
  by_cases hZero : Size = 0
  · have hSizeZero : Size.toNat = 0 := by rw [hZero]; rfl
    rw [if_pos hZero, List.drop_of_length_le (by omega), List.append_nil]
  obtain ⟨hFits, hLess, hLeft⟩ := portion_spec hZero
  have hRead := (h.Read Position (min Size BASE_1MB)).2
  have hWhole : (e.Read Position (min Size BASE_1MB)).2.length = (min Size BASE_1MB).toNat := by
    rw [hRead, List.length_take, List.length_drop]
    omega
  have hAdd : (Position + min Size BASE_1MB).toNat =
      Position.toNat + (min Size BASE_1MB).toNat := by
    rw [UInt32.toNat_add, Nat.mod_eq_of_lt (by omega)]
  simp only [if_neg hZero, h.SetPosition, (h.Read _ _).1, hWhole, Bool.false_eq_true, if_false,
    ne_eq, not_true_eq_false, UInt32.ofNat_toNat]
  rw [ih _ (hn ▸ hLess) _ _ _ (by omega) rfl, hAdd, hRead, List.append_assoc, ← List.drop_drop,
    List.take_append_drop]

/-- Opening the file and asking for its size. -/
theorem safeFileOpen_reads (h : e.Reads content) (L : Ledger) :
    OcSafeFileOpen e L = (e.Open, L.acquire) := by
  have hNot : e.Open ≠ EFI_WRITE_PROTECTED := by
    intro hWp
    have hError := h.Open
    rw [hWp] at hError
    exact absurd hError (by decide)
  rw [OcSafeFileOpen, if_neg (fun hAnd => hNot hAnd.1), if_neg (by rw [h.Open]; simp)]

theorem toNat_fileSize (h : e.Reads content) (hSmall : content.length < 2 ^ 32) :
    e.Position.toUInt32.toNat = content.length := by
  rw [UInt64.toNat_toUInt32, h.Position, Nat.mod_eq_of_lt hSmall]

theorem getFileSize_reads (h : e.Reads content) (hSmall : content.length < 2 ^ 32) (L : Ledger) :
    OcGetFileSize e L = (EFI_SUCCESS, e.Position.toUInt32, L) := by
  have hExact : e.Position.toUInt32.toUInt64 = e.Position := by
    rw [← UInt64.toNat_inj, UInt32.toNat_toUInt64, toNat_fileSize h hSmall, h.Position]
  simp [OcGetFileSize, h.SetPositionEnd, h.GetPosition, hExact]

/-- From 4 GB on the size does not come out exact and the file is refused. -/
theorem getFileSize_huge (h : e.Reads content) (hHuge : 2 ^ 32 ≤ content.length) (L : Ledger) :
    EFI_ERROR (OcGetFileSize e L).1 = true := by
  have hInexact : e.Position.toUInt32.toUInt64 ≠ e.Position := by
    intro hExact
    have hLt := e.Position.toUInt32.toNat_lt
    have hSame : e.Position.toUInt32.toNat = content.length := by
      rw [← UInt32.toNat_toUInt64, hExact, h.Position]
    omega
  simp only [OcGetFileSize, h.SetPositionEnd, h.GetPosition, if_pos hInexact, Bool.false_eq_true,
    if_false]
  decide

/-- **A file that is there and not too large is returned whole.** -/
theorem readFile_reads (h : e.Reads content) (hLength : content.length ≤ BASE_16MB.toNat)
    (L : Ledger) : ∃ FileBuffer FileSize L', FileSize.toNat = content.length ∧
      OcReadFile e BASE_16MB L = (some (FileBuffer, content ++ [0, 0], FileSize), L') := by
  have hMax : BASE_16MB.toNat = 0x01000000 := rfl
  have hSmall : content.length < 2 ^ 32 := by omega
  have hSize := toNat_fileSize h hSmall
  have hData := getFileData_eq h 0 e.Position.toUInt32 [] (by rw [hSize]; simp) hSmall
  have hFits : ¬ (2 ^ 32 ≤ e.Position.toUInt32.toNat + 2 ∨
      (0 < BASE_16MB ∧ BASE_16MB < e.Position.toUInt32)) := by
    rw [UInt32.lt_iff_toNat_lt (b := e.Position.toUInt32), hSize]
    omega
  unfold OcReadFile
  simp only [h.OpenVolume, safeFileOpen_reads h, h.Open, getFileSize_reads h hSmall,
    EFI_ERROR_success, Bool.false_eq_true, false_or, if_neg hFits, h.FileBuffer, hData, if_false,
    if_true]
  exact ⟨_, _, _, hSize, rfl⟩

/-- **A file too large gives a null pointer.** -/
theorem readFile_large (h : e.Reads content) (hLength : BASE_16MB.toNat < content.length)
    (L : Ledger) : (OcReadFile e BASE_16MB L).1 = none := by
  unfold OcReadFile
  simp only [h.OpenVolume, safeFileOpen_reads h, h.Open, Bool.false_eq_true, if_false]
  rcases Nat.lt_or_ge content.length (2 ^ 32) with hSmall | hHuge
  · have hLarge : BASE_16MB < e.Position.toUInt32 := by
      rw [UInt32.lt_iff_toNat_lt, toNat_fileSize h hSmall]
      exact hLength
    rw [getFileSize_reads h hSmall, if_pos (Or.inr (Or.inr ⟨by decide, hLarge⟩))]
  · rw [if_pos (Or.inl (getFileSize_huge h hHuge _))]

/-- **A file that is not there gives a null pointer.** -/
theorem readFile_misses (h : e.Misses) (MaxFileSize : UINT32) (L : Ledger) :
    (OcReadFile e MaxFileSize L).1 = none := by
  have hFail : OcSafeFileOpen e L.acquire.2 = (e.Open, .null, L.acquire.2) := by
    simp [OcSafeFileOpen, h.NewHandle, h.Open]
  unfold OcReadFile
  by_cases hVolume : EFI_ERROR e.OpenVolume = true
  · rw [if_pos hVolume]
  · simp only [if_neg hVolume, hFail, h.Open, if_true]

/-- The calls succeed on the file if there is one. -/
def «读文件环境».Answers (e : «读文件环境») : Option (List UINT8) → Prop
  | some content => e.Reads content
  | none => e.Misses

/-- The file as far as `OcReadFile` returns it. -/
def readable (file : Option (List UINT8)) : Option (List UINT8) :=
  file.filter fun content => content.length ≤ BASE_16MB.toNat

/-- **What is returned is the file**, up to the largest size. -/
theorem readFile_answers {file : Option (List UINT8)} (h : e.Answers file) (L : Ledger) :
    (readable file = none ∧ ∃ L', OcReadFile e BASE_16MB L = (none, L')) ∨
      ∃ content FileBuffer FileSize L', readable file = some content ∧
        FileSize.toNat = content.length ∧
        OcReadFile e BASE_16MB L = (some (FileBuffer, content ++ [0, 0], FileSize), L') := by
  cases file with
  | none => exact Or.inl ⟨rfl, _, Prod.ext (readFile_misses h BASE_16MB L) rfl⟩
  | some content =>
    by_cases hLength : content.length ≤ BASE_16MB.toNat
    · obtain ⟨FileBuffer, FileSize, L', hSize, hRead⟩ := readFile_reads h hLength L
      exact Or.inr ⟨content, FileBuffer, FileSize, L', by simp [readable, hLength], hSize, hRead⟩
    · refine Or.inl ⟨by simpa [readable] using hLength, _, Prod.ext (readFile_large h ?_ L) rfl⟩
      exact Nat.lt_of_not_le hLength

/-- The calls on a file with this content, when nothing fails. -/
def «读文件环境».ofFile (content : List UINT8) : «读文件环境» where
  OpenVolume := EFI_SUCCESS
  Open := EFI_SUCCESS
  NewHandle := true
  SetPositionEnd := EFI_SUCCESS
  GetPosition := EFI_SUCCESS
  Position := UInt64.ofNat content.length
  GetInfoSize := EFI_UNSUPPORTED
  FileInfoSize := 0
  FileInfoBuffer := false
  GetInfo := EFI_UNSUPPORTED
  FileSize := 0
  FileBuffer := true
  SetPosition := fun _ => EFI_SUCCESS
  Read := fun p n => (EFI_SUCCESS, (content.drop p.toNat).take n.toNat)
  read_le := fun _ _ => List.length_take_le _ _

/-- The calls when there is no such file. -/
def «读文件环境».noFile : «读文件环境» :=
  { «读文件环境».ofFile [] with Open := EFI_NOT_FOUND, NewHandle := false }

theorem reads_ofFile (hLength : content.length < 2 ^ 64) :
    («读文件环境».ofFile content).Reads content where
  OpenVolume := EFI_ERROR_success
  Open := EFI_ERROR_success
  SetPositionEnd := EFI_ERROR_success
  GetPosition := EFI_ERROR_success
  Position := UInt64.toNat_ofNat_of_lt' hLength
  FileBuffer := rfl
  SetPosition := fun _ => EFI_ERROR_success
  Read := fun _ _ => ⟨EFI_ERROR_success, rfl⟩

theorem misses_noFile : «读文件环境».noFile.Misses := ⟨by decide, rfl⟩

-- ---------------------------------------------------------------------------
-- Every answer of the firmware
-- ---------------------------------------------------------------------------

/-- What the buffer holds and `*FileSize`, when a buffer is returned. -/
def «读文件环境».given (e : «读文件环境») (MaxFileSize : UINT32) : Option (List UINT8 × UINT32) :=
  (OcReadFile e MaxFileSize .empty).1.map Prod.snd

/-- The bytes that successful reads gave from a position on, one after the other. -/
inductive «读文件环境».ReadsFrom (e : «读文件环境») : UINT32 → List UINT8 → Prop
  | done (p : UINT32) : e.ReadsFrom p []
  | portion (p n : UINT32) (rest : List UINT8)
      (position : EFI_ERROR (e.SetPosition p) = false) (read : EFI_ERROR (e.Read p n).1 = false)
      (following : e.ReadsFrom (p + UInt32.ofNat (e.Read p n).2.length) rest) :
      e.ReadsFrom p ((e.Read p n).2 ++ rest)

variable {L₀ L : Ledger} {fs : List Fault} {ps : List Ptr} {Status : EFI_STATUS}

theorem getFileInfo_since (h : Ledger.Since L₀ L fs ps) (M : Ledger) :
    (∃ L', OcGetFileInfo e L = (none, L') ∧ (OcGetFileInfo e M).1 = none ∧
      Ledger.Since L₀ L' fs ps) ∨
    ∃ id p L', OcGetFileInfo e L = (some (.ref id, e.FileSize), L') ∧
      (OcGetFileInfo e M).1 = some (p, e.FileSize) ∧ Ledger.Since L₀ L' fs (.ref id :: ps) := by
  obtain ⟨id, L₁, hAcquire, hHeld⟩ := Ledger.since_acquire h
  unfold OcGetFileInfo
  simp only [hAcquire]
  split_ifs with hSize hOverflow hBuffer hInfo
  · exact Or.inl ⟨_, rfl, rfl, h⟩
  · exact Or.inl ⟨_, rfl, rfl, Ledger.since_release_ref hHeld⟩
  · exact Or.inr ⟨id, _, _, rfl, rfl, hHeld⟩
  · exact Or.inl ⟨_, rfl, rfl, h⟩
  · exact Or.inl ⟨_, rfl, rfl, h⟩

/-- The size does not depend on what is held, and asking for it leaves nothing behind. -/
theorem getFileSize_since (h : Ledger.Since L₀ L fs ps) (M : Ledger) :
    ∃ Status Size L' L'', OcGetFileSize e L = (Status, Size, L') ∧
      OcGetFileSize e M = (Status, Size, L'') ∧ Ledger.Since L₀ L' fs ps := by
  unfold OcGetFileSize
  split_ifs with hEnd hGet hLarge
  · rcases getFileInfo_since (e := e) h M with ⟨L₁, hInfo, hEmpty, hSince⟩ |
      ⟨id, p, L₁, hInfo, hEmpty, hSince⟩
    · rw [hInfo, ← Prod.eta (OcGetFileInfo e M), hEmpty]
      exact ⟨_, _, _, _, rfl, rfl, hSince⟩
    · rw [hInfo, ← Prod.eta (OcGetFileInfo e M), hEmpty]
      dsimp only
      split_ifs
      · exact ⟨_, _, _, _, rfl, rfl, Ledger.since_release_ref hSince⟩
      · exact ⟨_, _, _, _, rfl, rfl, Ledger.since_release_ref hSince⟩
  · exact ⟨_, _, _, _, rfl, rfl, h⟩
  · exact ⟨_, _, _, _, rfl, rfl, h⟩
  · exact ⟨_, _, _, _, rfl, rfl, h⟩

/-- A file that is opened leaves its handle. -/
theorem safeFileOpen_since (h : Ledger.Since L₀ L fs ps) (M : Ledger) :
    (∃ Status L'', OcSafeFileOpen e L = (Status, .null, L) ∧ EFI_ERROR Status = true ∧
      OcSafeFileOpen e M = (Status, .null, L'')) ∨
    ∃ Status id p L' L'', OcSafeFileOpen e L = (Status, .ref id, L') ∧ EFI_ERROR Status = false ∧
      OcSafeFileOpen e M = (Status, p, L'') ∧ Ledger.Since L₀ L' fs (.ref id :: ps) := by
  obtain ⟨id, L₁, hAcquire, hHeld⟩ := Ledger.since_acquire h
  unfold OcSafeFileOpen
  rw [hAcquire]
  split_ifs with hProtected hError
  · exact Or.inr ⟨_, id, _, L₁, _, rfl, EFI_ERROR_success, rfl, hHeld⟩
  · exact Or.inl ⟨_, _, rfl, hError, rfl⟩
  · exact Or.inr ⟨_, id, _, L₁, _, rfl, by simpa using hError, rfl, hHeld⟩

/-- **Reading a file leaves its buffer to release, or nothing.** -/
theorem readFile_since (h : Ledger.Since L₀ L fs ps) (MaxFileSize : UINT32) :
    (∃ L', OcReadFile e MaxFileSize L = (none, L') ∧ e.given MaxFileSize = none ∧
      Ledger.Since L₀ L' fs ps) ∨
    ∃ id data Size L', OcReadFile e MaxFileSize L = (some (.ref id, data, Size), L') ∧
      e.given MaxFileSize = some (data, Size) ∧ Ledger.Since L₀ L' fs (.ref id :: ps) := by
  unfold «读文件环境».given OcReadFile
  by_cases hVolume : EFI_ERROR e.OpenVolume = true
  · simp only [if_pos hVolume]
    exact Or.inl ⟨L, rfl, rfl, h⟩
  -- the volume is released again before the result of `Open` is looked at
  obtain ⟨v, L₁, hAcquire, hHeld⟩ := Ledger.since_acquire h
  simp only [if_neg hVolume, hAcquire]
  rcases safeFileOpen_since (e := e) hHeld Ledger.empty.acquire.2 with ⟨Status, M, hOpen, hError, hEmpty⟩ |
    ⟨Status, f, p, L₂, M, hOpen, hOk, hEmpty, hFile⟩
  · simp only [hOpen, hEmpty, if_pos hError]
    exact Or.inl ⟨_, rfl, rfl, Ledger.since_release_ref hHeld⟩
  simp only [hOpen, hEmpty, hOk, Bool.false_eq_true, if_false]
  obtain ⟨Status', Size, L₃, M', hGet, hGet', hSized⟩ :=
    getFileSize_since (e := e) (Ledger.since_release_ref hFile.swap) (M.release Ledger.empty.acquire.1)
  obtain ⟨b, L₄, hBuffer, hBoth⟩ := Ledger.since_acquire hSized
  simp only [hGet, hGet', hBuffer]
  split_ifs with hSize hAllocated hData
  · exact Or.inl ⟨_, rfl, rfl, Ledger.since_release_ref hSized⟩
  · exact Or.inl ⟨_, rfl, rfl, Ledger.since_release_ref (Ledger.since_release_ref hBoth)⟩
  · exact Or.inr ⟨b, _, Size, _, rfl, rfl, Ledger.since_release_ref hBoth.swap⟩
  · exact Or.inl ⟨_, rfl, rfl, Ledger.since_release_ref hSized⟩

/-- The portions that make up a buffer were each read successfully. -/
theorem getFileData_readsFrom (Position Size : UINT32) (Buffer : List UINT8)
    (hOk : EFI_ERROR (OcGetFileData e Position Size Buffer).1 = false) :
    ∃ rest, (OcGetFileData e Position Size Buffer).2 = Buffer ++ rest ∧
      rest.length = Size.toNat ∧ e.ReadsFrom Position rest := by
  -- on what is left to read
  induction hn : Size.toNat using Nat.strongRecOn generalizing Position Size Buffer with
  | ind n ih =>
  rw [OcGetFileData] at hOk ⊢
  by_cases hZero : Size = 0
  · rw [if_pos hZero]
    refine ⟨[], (List.append_nil _).symm, ?_, .done _⟩
    rw [← hn, hZero]
    rfl
  rw [if_neg hZero] at hOk ⊢
  by_cases hPosition : EFI_ERROR (e.SetPosition Position) = true
  · rw [if_pos hPosition, hPosition] at hOk
    cases hOk
  rw [if_neg hPosition] at hOk ⊢
  dsimp only at hOk ⊢
  by_cases hRead : EFI_ERROR (e.Read Position (min Size BASE_1MB)).1 = true
  · rw [if_pos hRead, hRead] at hOk
    cases hOk
  rw [if_neg hRead] at hOk ⊢
  by_cases hWhole : (e.Read Position (min Size BASE_1MB)).2.length = (min Size BASE_1MB).toNat
  · obtain ⟨hFits, hLess, hLeft⟩ := portion_spec hZero
    rw [if_neg (not_not.mpr hWhole)] at hOk ⊢
    have hPortion : UInt32.ofNat (e.Read Position (min Size BASE_1MB)).2.length =
        min Size BASE_1MB := by rw [hWhole, UInt32.ofNat_toNat]
    obtain ⟨rest, hData, hLength, hRest⟩ :=
      ih _ (by rw [hPortion, ← hn]; exact hLess) _ _ _ hOk rfl
    refine ⟨(e.Read Position (min Size BASE_1MB)).2 ++ rest, ?_, ?_, ?_⟩
    · rw [hData, List.append_assoc]
    · rw [List.length_append, hLength, hPortion, hLeft]
      omega
    · exact .portion _ _ _ (by simpa using hPosition) (by simpa using hRead) hRest
  · rw [if_pos hWhole] at hOk
    exact absurd (show EFI_ERROR EFI_BAD_BUFFER_SIZE = false from hOk) (by decide)

/-- **What is returned was read successfully, and its size is the number of bytes read.** -/
theorem given_readsFrom {MaxFileSize Size : UINT32} {data : List UINT8}
    (h : e.given MaxFileSize = some (data, Size)) :
    ∃ bytes, data = bytes ++ [0, 0] ∧ bytes.length = Size.toNat ∧ e.ReadsFrom 0 bytes := by
  unfold «读文件环境».given OcReadFile at h
  dsimp only at h
  split_ifs at h with hVolume hOpen hSize hBuffer hData
  · cases h
  · cases h
  · cases h
  · cases h
  · cases h
    obtain ⟨rest, hRest, hLength, hReads⟩ :=
      getFileData_readsFrom 0 _ [] (Bool.eq_false_iff.mpr hData)
    exact ⟨rest, by rw [hRest, List.nil_append], hLength, hReads⟩
  · cases h

end TianJi.Model
