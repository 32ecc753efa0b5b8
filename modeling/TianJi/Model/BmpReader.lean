import TianJi.Lib.Ledger
import TianJi.Lib.Raster
import TianJi.Model.Bmp

/-!
# TianJi — the picture reader

`读取并转换Bmp` (天玑.c): open a file, read it whole, take its header's word for where the
pixels are and how many there are, and copy them top row first into a pool buffer.

The model records what the code does to memory: the offsets of the file block it loads,
the indices of the pixel buffer it stores, and the resources it acquires and releases.
The file block is total, so a load past the bytes that were read from the file gives
whatever lies there.

* `convert_eq`       — the two loops as one list of stores and one of loads.
* `reader_safe_iff`  — exactly which files are read without leaving the bytes read and
  the buffer allocated.
* `owes_reader`      — what a call leaves to be released.
-/

namespace TianJi.Model

open Canvas Memory Ownership

/-- What the firmware answers to the calls of one `读取并转换Bmp`: statuses, whether each
allocation succeeds, and what the blocks hold. -/
structure «读图环境» where
  Open : EFI_STATUS
  FileInfo : Bool
  GetInfo : EFI_STATUS
  /-- `FileInfo->FileSize` -/
  FileSize : UINTN
  BmpData : Bool
  Read : EFI_STATUS
  /-- What `Read` leaves in `FileSize`: the bytes it read. -/
  BytesRead : UINTN
  read_le : BytesRead ≤ FileSize
  /-- The block behind `BmpData` after `Read`. -/
  mem : ByteBuffer
  GopBlt : Bool
  /-- The pixel buffer as it comes from the pool. -/
  pool : Nat → EFI_GRAPHICS_OUTPUT_BLT_PIXEL

/-- Offsets loaded from the file block, and the pixel buffer. -/
structure «转换状态» where
  loads : List Nat
  GopBlt : Region EFI_GRAPHICS_OUTPUT_BLT_PIXEL

/-- `srcIndex` at row `y` and column `x`. -/
def srcIndex (h : BMP_IMAGE_HEADER) (y x : UINTN) : UINTN :=
  ((h.PixelHeight - 1).toUInt64 - y) * h.PixelWidth.toUInt64 + x

/-- `dstIndex` at row `y` and column `x`. -/
def dstIndex (h : BMP_IMAGE_HEADER) (y x : UINTN) : UINTN := y * h.PixelWidth.toUInt64 + x

/-- Where `PixelData[i]` lies in the file block. -/
def pixelData (h : BMP_IMAGE_HEADER) (i : UINTN) : Nat := h.ImageOffset.toNat + i.toNat

/-- The pixel that `PixelData[srcIndex*4 + 0 .. 3]` makes. -/
def loadPixel (h : BMP_IMAGE_HEADER) (m : ByteBuffer) (i : UINTN) :
    EFI_GRAPHICS_OUTPUT_BLT_PIXEL where
  Blue := m (pixelData h (i * 4 + 0))
  Green := m (pixelData h (i * 4 + 1))
  Red := m (pixelData h (i * 4 + 2))
  Reserved := m (pixelData h (i * 4 + 3))

/-- The body of the inner loop. -/
def «转换像素» (h : BMP_IMAGE_HEADER) (m : ByteBuffer) (s : «转换状态») (y x : Nat) : «转换状态» :=
  let i := srcIndex h (UInt64.ofNat y) (UInt64.ofNat x)
  { loads := s.loads ++ [pixelData h (i * 4 + 0), pixelData h (i * 4 + 1),
      pixelData h (i * 4 + 2), pixelData h (i * 4 + 3)]
    GopBlt := s.GopBlt.store (dstIndex h (UInt64.ofNat y) (UInt64.ofNat x)).toNat
      (loadPixel h m i) }

/-- The two loops. -/
def «转换» (h : BMP_IMAGE_HEADER) (m : ByteBuffer) (s : «转换状态») : «转换状态» :=
  (List.range h.PixelHeight.toNat).foldl (fun s y =>
    (List.range h.PixelWidth.toNat).foldl (fun s x => «转换像素» h m s y x) s) s

/-- `UINT32 PixelCount` -/
def PixelCount (h : BMP_IMAGE_HEADER) : UINT32 := h.PixelWidth * h.PixelHeight

/-- Offsets of the header fields the code reads: both characters of the signature,
`ImageOffset`, `PixelWidth` and `PixelHeight`. -/
def headerLoads : List Nat :=
  [0, 1] ++ List.range' 10 4 ++ List.range' 18 4 ++ List.range' 22 4

/-- The result of a call: status, out-parameters (zero as every caller leaves them unless
they are set), and for a converted picture the loads, the pixels and the bytes allocated. -/
structure «读图结果» where
  Status : EFI_STATUS
  GopBlt : Ptr := .null
  GopBltSize : UINTN := 0
  PixelHeight : UINTN := 0
  PixelWidth : UINTN := 0
  converted : Option («转换状态» × UINTN) := none

/-- `FREE_BUFFER:` and `CLOSE_FILE:` -/
def «读图收尾» (FileHandle FileInfo BmpData : Ptr) (L : Ledger) : Ledger :=
  ((L.releaseIf BmpData).releaseIf FileInfo).releaseIf FileHandle

/-- `读取并转换Bmp` -/
def «读取并转换Bmp» (e : «读图环境») (L : Ledger) : «读图结果» × Ledger :=
  if EFI_ERROR e.Open then ({ Status := e.Open }, L)
  else
    let (FileHandle, L) := L.acquire
    let (FileInfo, L) := L.tryAcquire e.FileInfo
    -- `goto CLOSE_FILE`, past the release of `FileInfo`
    if EFI_ERROR e.GetInfo then ({ Status := e.GetInfo }, L.releaseIf FileHandle)
    else
      let (BmpData, L) := L.tryAcquire e.BmpData
      if EFI_ERROR e.Read then
        ({ Status := e.Read }, «读图收尾» FileHandle FileInfo BmpData L)
      else if e.mem 0 ≠ 0x42 ∨ e.mem 1 ≠ 0x4D then
        ({ Status := EFI_INVALID_PARAMETER }, «读图收尾» FileHandle FileInfo BmpData L)
      else
        let h := BMP_IMAGE_HEADER.read e.mem
        let (GopBlt, L) := L.tryAcquire e.GopBlt
        if GopBlt = .null then
          ({ Status := EFI_OUT_OF_RESOURCES }, «读图收尾» FileHandle FileInfo BmpData L)
        else
          let size := (PixelCount h).toUInt64 * 4
          ({ Status := e.Read
             GopBlt := GopBlt
             GopBltSize := size
             PixelHeight := h.PixelHeight.toUInt64
             PixelWidth := h.PixelWidth.toUInt64
             converted := some («转换» h e.mem ⟨headerLoads, Region.fresh e.pool⟩, size) },
            «读图收尾» FileHandle FileInfo BmpData L)

-- ---------------------------------------------------------------------------
-- Resources
-- ---------------------------------------------------------------------------

/-- The one way a call leaks: the file's size was asked for in vain after the block for
the answer had been allocated. -/
def «读图环境».leaks (e : «读图环境») : Bool :=
  !EFI_ERROR e.Open && e.FileInfo && EFI_ERROR e.GetInfo

theorem owes_cleanup {L : Ledger} {file info data : Ptr} {ps : List Ptr}
    (h : L.Owes (data :: info :: file :: ps)) (hData : data ≠ .wild) (hInfo : info ≠ .wild)
    (hFile : file ≠ .wild) : («读图收尾» file info data L).Owes ps :=
  Ledger.owes_releaseIf (Ledger.owes_releaseIf (Ledger.owes_releaseIf h hData) hInfo) hFile

/-- **What a call leaves behind**: the pixel buffer, null unless the call succeeds, and in
the leaking case the block for the file's size. -/
theorem owes_reader {L : Ledger} {ps : List Ptr} (h : L.Owes ps) (e : «读图环境») :
    ∃ q : Ptr, (q.ids = [] ↔ e.leaks = false) ∧
      («读取并转换Bmp» e L).2.Owes ((«读取并转换Bmp» e L).1.GopBlt :: q :: ps) ∧
      («读取并转换Bmp» e L).1.GopBlt ≠ .wild ∧
      (EFI_ERROR («读取并转换Bmp» e L).1.Status = true ↔
        («读取并转换Bmp» e L).1.GopBlt = .null) := by
  unfold «读取并转换Bmp»
  by_cases hOpen : EFI_ERROR e.Open = true
  · rw [if_pos hOpen]
    refine ⟨.null, by simp [«读图环境».leaks, hOpen], ?_, by simp, by simp [hOpen]⟩
    exact Ledger.owes_null_cons.mpr (Ledger.owes_null_cons.mpr h)
  rw [if_neg hOpen]
  obtain ⟨FileHandle, L₁, hAcquire, hFile, hFileNe⟩ := Ledger.acquire_spec h
  obtain ⟨FileInfo, L₂, hTryInfo, hInfo, hInfoNe, hInfoNull⟩ :=
    Ledger.tryAcquire_spec hFile e.FileInfo
  simp only [hAcquire, hTryInfo]
  by_cases hGet : EFI_ERROR e.GetInfo = true
  · -- the file is closed, the block for its size is not released
    rw [if_pos hGet]
    refine ⟨FileInfo, ?_, ?_, by simp, by simp [hGet]⟩
    · cases FileInfo <;> simp_all [«读图环境».leaks]
    · have hClosed := Ledger.owes_releaseIf (hInfo.perm (List.Perm.swap _ _ _)) hFileNe
      exact Ledger.owes_null_cons.mpr hClosed
  rw [if_neg hGet]
  have hQuiet : (Ptr.null.ids = [] ↔ e.leaks = false) := by simp [«读图环境».leaks, hGet]
  obtain ⟨BmpData, L₃, hTryData, hData, hDataNe, -⟩ := Ledger.tryAcquire_spec hInfo e.BmpData
  simp only [hTryData]
  have hDone := Ledger.owes_null_cons.mpr (Ledger.owes_null_cons.mpr
    (owes_cleanup hData hDataNe hInfoNe hFileNe))
  by_cases hRead : EFI_ERROR e.Read = true
  · rw [if_pos hRead]
    exact ⟨.null, hQuiet, hDone, by simp, by simp [hRead]⟩
  rw [if_neg hRead]
  obtain ⟨GopBlt, L₄, hTryBlt, hPixels, hPixelsNe, hBltNull⟩ :=
    Ledger.tryAcquire_spec hData e.GopBlt
  simp only [hTryBlt]
  split_ifs with hSig hBlt
  · exact ⟨.null, hQuiet, hDone, by simp, by simp; decide⟩
  · rw [hBlt] at hPixels
    exact ⟨.null, hQuiet, Ledger.owes_null_cons.mpr (Ledger.owes_null_cons.mpr
      (owes_cleanup (Ledger.owes_null_cons.mp hPixels) hDataNe hInfoNe hFileNe)), by simp,
      by simp; decide⟩
  · refine ⟨.null, hQuiet, ?_, hPixelsNe, by simp [hRead, hBlt]⟩
    have hOrder : (GopBlt :: BmpData :: FileInfo :: FileHandle :: ps).Perm
        (BmpData :: FileInfo :: FileHandle :: GopBlt :: ps) :=
      (List.perm_middle : ([BmpData, FileInfo, FileHandle] ++ GopBlt :: ps).Perm _).symm
    have hKept := owes_cleanup (hPixels.perm hOrder) hDataNe hInfoNe hFileNe
    exact (Ledger.owes_null_cons.mpr hKept).perm (List.Perm.swap _ _ _)

-- ---------------------------------------------------------------------------
-- The loops as lists
-- ---------------------------------------------------------------------------

variable {h : BMP_IMAGE_HEADER} {m : ByteBuffer}

/-- The offsets loaded for one point. -/
def loadsAt (h : BMP_IMAGE_HEADER) (p : Nat × Nat) : List Nat :=
  let i := srcIndex h (UInt64.ofNat p.1) (UInt64.ofNat p.2)
  [pixelData h (i * 4 + 0), pixelData h (i * 4 + 1), pixelData h (i * 4 + 2),
    pixelData h (i * 4 + 3)]

/-- The store made for one point. -/
def storeAt (h : BMP_IMAGE_HEADER) (m : ByteBuffer) (p : Nat × Nat) :
    Nat × EFI_GRAPHICS_OUTPUT_BLT_PIXEL :=
  ((dstIndex h (UInt64.ofNat p.1) (UInt64.ofNat p.2)).toNat,
    loadPixel h m (srcIndex h (UInt64.ofNat p.1) (UInt64.ofNat p.2)))

/-- **The loops as lists.** -/
theorem convert_eq (h : BMP_IMAGE_HEADER) (m : ByteBuffer) (s : «转换状态») :
    «转换» h m s = ⟨s.loads ++ (points h.W h.H).flatMap (loadsAt h),
      s.GopBlt.storeAll ((points h.W h.H).map (storeAt h m))⟩ := by
  rw [«转换», foldl_points]
  show (points h.W h.H).foldl _ s = _
  induction points h.W h.H generalizing s with
  | nil => simp
  | cons p ps ih =>
    rw [List.foldl_cons, ih]
    simp [«转换像素», loadsAt, storeAt]

theorem toNat_ofNat_of_lt_32 {n : Nat} {b : UINT32} (h : n < b.toNat) :
    (UInt64.ofNat n).toNat = n :=
  UInt64.toNat_ofNat_of_lt' (lt_trans h (lt_trans b.toNat_lt (by decide)))

/-- Row times width plus column does not wrap below `2 ^ 32` rows and columns. -/
theorem toNat_mul_add {y x : UINTN} {w b : UINT32} (hy : y.toNat < b.toNat)
    (hx : x.toNat < w.toNat) : (y * w.toUInt64 + x).toNat = y.toNat * w.toNat + x.toNat := by
  have hb := b.toNat_lt
  have hw := w.toNat_lt
  have hIn := rowMajor_lt hx hy
  have hArea : w.toNat * b.toNat ≤ 2 ^ 32 * 2 ^ 32 :=
    Nat.mul_le_mul (Nat.le_of_lt hw) (Nat.le_of_lt hb)
  rw [UInt64.toNat_add, UInt64.toNat_mul, UInt32.toNat_toUInt64, Nat.mod_eq_of_lt (a := _ * _)
    (by omega), Nat.mod_eq_of_lt (by omega)]

theorem toNat_dstIndex {p : Nat × Nat} (hp : p ∈ points h.W h.H) :
    (dstIndex h (UInt64.ofNat p.1) (UInt64.ofNat p.2)).toNat = index h.W p := by
  obtain ⟨hy, hx⟩ := mem_points.mp hp
  have hy' := toNat_ofNat_of_lt_32 hy
  have hx' := toNat_ofNat_of_lt_32 hx
  rw [dstIndex, toNat_mul_add (b := h.PixelHeight) (by rw [hy']; exact hy) (by rw [hx']; exact hx),
    hy', hx']
  rfl

theorem toNat_srcIndex {p : Nat × Nat} (hp : p ∈ points h.W h.H) :
    (srcIndex h (UInt64.ofNat p.1) (UInt64.ofNat p.2)).toNat = index h.W (flipRow h.H p) := by
  obtain ⟨hy, hx⟩ := mem_points.mp hp
  have hy' := toNat_ofNat_of_lt_32 hy
  have hx' := toNat_ofNat_of_lt_32 hx
  have hH : h.H = h.PixelHeight.toNat := rfl
  have hOne : (1 : UINT32) ≤ h.PixelHeight := by
    rw [UInt32.le_iff_toNat_le]
    show 1 ≤ _
    omega
  have hLast : (h.PixelHeight - 1).toNat = h.H - 1 := UInt32.toNat_sub_of_le _ _ hOne
  have hRow : ((h.PixelHeight - 1).toUInt64 - UInt64.ofNat p.1).toNat = h.H - 1 - p.1 := by
    rw [UInt64.toNat_sub_of_le _ _ ?_, UInt32.toNat_toUInt64, hLast, hy']
    rw [UInt64.le_iff_toNat_le, UInt32.toNat_toUInt64, hLast, hy']
    omega
  rw [srcIndex, toNat_mul_add (b := h.PixelHeight) (by rw [hRow]; omega) (by rw [hx']; exact hx),
    hRow, hx']
  rfl

/-- Below `2 ^ 32` pixels the byte index of a pixel does not wrap either. -/
theorem pixelData_exact {i k : UINTN} (hi : i.toNat < 2 ^ 32) (hk : k.toNat < 4) :
    pixelData h (i * 4 + k) = h.ImageOffset.toNat + (4 * i.toNat + k.toNat) := by
  have hMul : (i * 4).toNat = 4 * i.toNat := by
    rw [UInt64.toNat_mul, Nat.mul_comm]
    exact Nat.mod_eq_of_lt (by simp only [UInt64.reduceToNat]; omega)
  rw [pixelData, UInt64.toNat_add, hMul, Nat.mod_eq_of_lt (by omega)]

/-- The file offset of the pixel that ends up at a point. -/
def pixelOffset (h : BMP_IMAGE_HEADER) (p : Nat × Nat) : Nat :=
  h.ImageOffset.toNat + 4 * index h.W (flipRow h.H p)

/-- The byte `k` of the pixel that ends up at a point. -/
theorem pixelData_at (hArea : h.W * h.H < 2 ^ 32) {p : Nat × Nat} (hp : p ∈ points h.W h.H)
    {k : UINTN} (hk : k.toNat < 4) :
    pixelData h (srcIndex h (UInt64.ofNat p.1) (UInt64.ofNat p.2) * 4 + k) =
      pixelOffset h p + k.toNat := by
  have hSrc := toNat_srcIndex hp
  have hSmall : (srcIndex h (UInt64.ofNat p.1) (UInt64.ofNat p.2)).toNat < 2 ^ 32 := by
    rw [hSrc]
    exact lt_trans (index_lt (flipRow_mem hp)) hArea
  rw [pixelData_exact hSmall hk, hSrc, pixelOffset, Nat.add_assoc]

theorem loadsAt_eq (hArea : h.W * h.H < 2 ^ 32) {p : Nat × Nat} (hp : p ∈ points h.W h.H) :
    loadsAt h p = List.range' (pixelOffset h p) 4 := by
  simp only [loadsAt, pixelData_at hArea hp (show UInt64.toNat 0 < 4 by decide),
    pixelData_at hArea hp (show UInt64.toNat 1 < 4 by decide),
    pixelData_at hArea hp (show UInt64.toNat 2 < 4 by decide),
    pixelData_at hArea hp (show UInt64.toNat 3 < 4 by decide)]
  simp [List.range'_succ, Nat.add_assoc]

theorem loadPixel_eq (hArea : h.W * h.H < 2 ^ 32) {p : Nat × Nat} (hp : p ∈ points h.W h.H) :
    loadPixel h m (srcIndex h (UInt64.ofNat p.1) (UInt64.ofNat p.2)) =
      ⟨m (pixelOffset h p), m (pixelOffset h p + 1), m (pixelOffset h p + 2),
        m (pixelOffset h p + 3)⟩ := by
  simp only [loadPixel, pixelData_at hArea hp (show UInt64.toNat 0 < 4 by decide),
    pixelData_at hArea hp (show UInt64.toNat 1 < 4 by decide),
    pixelData_at hArea hp (show UInt64.toNat 2 < 4 by decide),
    pixelData_at hArea hp (show UInt64.toNat 3 < 4 by decide)]
  rfl

/-- Every offset loaded for pixels lies below `n` exactly when the last row in the file
ends there. -/
theorem loads_lt_iff (hArea : h.W * h.H < 2 ^ 32) {n : Nat} :
    (∀ o ∈ (points h.W h.H).flatMap (loadsAt h), o < n) ↔
      h.W * h.H = 0 ∨ h.ImageOffset.toNat + 4 * (h.W * h.H) ≤ n := by
  constructor
  · intro hAll
    by_cases hZero : h.W * h.H = 0
    · exact Or.inl hZero
    -- the top row comes last in the file, and its last pixel last of all
    have hW : 0 < h.W := Nat.pos_of_ne_zero fun hW => hZero (by rw [hW, Nat.zero_mul])
    have hH : 0 < h.H := Nat.pos_of_ne_zero fun hH => hZero (by rw [hH, Nat.mul_zero])
    have hp : (0, h.W - 1) ∈ points h.W h.H := mem_points.mpr ⟨hH, by simp only; omega⟩
    have hLast : index h.W (flipRow h.H (0, h.W - 1)) = h.W * h.H - 1 := by
      obtain ⟨k, hk⟩ : ∃ k, h.H = k + 1 := ⟨h.H - 1, by omega⟩
      simp only [index, flipRow, hk, Nat.add_sub_cancel, Nat.sub_zero, Nat.mul_succ]
      rw [Nat.mul_comm k]
      omega
    have hLoad := hAll (pixelOffset h (0, h.W - 1) + 3) (List.mem_flatMap.mpr
      ⟨_, hp, by rw [loadsAt_eq hArea hp]; exact List.mem_range'_1.mpr (by omega)⟩)
    rw [pixelOffset, hLast] at hLoad
    omega
  · intro hCond o ho
    obtain ⟨p, hp, ho⟩ := List.mem_flatMap.mp ho
    rw [loadsAt_eq hArea hp, List.mem_range'_1, pixelOffset] at ho
    have hIn := index_lt (flipRow_mem hp)
    rcases hCond with hZero | hRoom
    · omega
    · omega

-- ---------------------------------------------------------------------------
-- Memory safety
-- ---------------------------------------------------------------------------

/-- All file calls and allocations of a call succeed. -/
structure «读图环境».Succeeds (e : «读图环境») : Prop where
  opened : EFI_ERROR e.Open = false
  info : e.FileInfo = true
  got : EFI_ERROR e.GetInfo = false
  data : e.BmpData = true
  read : EFI_ERROR e.Read = false
  pixels : e.GopBlt = true

instance (e : «读图环境») : Decidable e.Succeeds :=
  decidable_of_iff (EFI_ERROR e.Open = false ∧ e.FileInfo = true ∧ EFI_ERROR e.GetInfo = false ∧
    e.BmpData = true ∧ EFI_ERROR e.Read = false ∧ e.GopBlt = true)
    ⟨fun ⟨a, b, c, d, f, g⟩ => ⟨a, b, c, d, f, g⟩, fun ⟨a, b, c, d, f, g⟩ => ⟨a, b, c, d, f, g⟩⟩

/-- What was read starts with the two characters the code looks for. -/
def «读图环境».Signed (e : «读图环境») : Prop := e.mem 0 = 0x42 ∧ e.mem 1 = 0x4D

instance (e : «读图环境») : Decidable e.Signed := inferInstanceAs (Decidable (_ ∧ _))

/-- The header as the code reads it. -/
def «读图环境».header (e : «读图环境») : BMP_IMAGE_HEADER := BMP_IMAGE_HEADER.read e.mem

/-- The state of the loops when they end. -/
def «读图环境».final (e : «读图环境») : «转换状态» :=
  «转换» e.header e.mem ⟨headerLoads, Region.fresh e.pool⟩

variable {e : «读图环境»}

theorem reader_unsigned (hOk : e.Succeeds) (hSig : ¬ e.Signed) (L : Ledger) :
    («读取并转换Bmp» e L).1 = { Status := EFI_INVALID_PARAMETER } := by
  have hSig' : e.mem 0 ≠ 0x42 ∨ e.mem 1 ≠ 0x4D := not_and_or.mp hSig
  simp [«读取并转换Bmp», hOk.opened, hOk.got, hOk.read, if_pos hSig']

/-- With the signature there and no call failing, nothing else is checked. -/
theorem reader_signed (hOk : e.Succeeds) (hSig : e.Signed) (L : Ledger) :
    let r := («读取并转换Bmp» e L).1
    r.Status = e.Read ∧ r.GopBltSize = (PixelCount e.header).toUInt64 * 4 ∧
      r.PixelHeight = e.header.PixelHeight.toUInt64 ∧
      r.PixelWidth = e.header.PixelWidth.toUInt64 ∧
      r.converted = some (e.final, (PixelCount e.header).toUInt64 * 4) := by
  have hSig' : ¬ (e.mem 0 ≠ 0x42 ∨ e.mem 1 ≠ 0x4D) := not_or.mpr ⟨not_not.mpr hSig.1, not_not.mpr hSig.2⟩
  have hBlt : ∀ L : Ledger, (L.tryAcquire e.GopBlt).1 ≠ .null := fun L => by
    rw [ne_eq, Ledger.tryAcquire_eq_null_iff, hOk.pixels]
    simp
  simp [«读取并转换Bmp», hOk.opened, hOk.got, hOk.read, if_neg hSig', hBlt, «读图环境».final,
    «读图环境».header]

/-- A call that reports no error has seen the signature and converted the picture. -/
theorem reader_of_no_error {L : Ledger}
    (hOk : EFI_ERROR («读取并转换Bmp» e L).1.Status = false) :
    let r := («读取并转换Bmp» e L).1
    e.Signed ∧ r.PixelHeight = e.header.PixelHeight.toUInt64 ∧
      r.PixelWidth = e.header.PixelWidth.toUInt64 ∧
      ∃ allocated, r.converted = some (e.final, allocated) := by
  unfold «读取并转换Bmp» at hOk ⊢
  have hInvalid : EFI_ERROR EFI_INVALID_PARAMETER = true := by decide
  have hResources : EFI_ERROR EFI_OUT_OF_RESOURCES = true := by decide
  by_cases hOpen : EFI_ERROR e.Open = true
  · simp [hOpen] at hOk
  by_cases hGet : EFI_ERROR e.GetInfo = true
  · simp [hOpen, hGet] at hOk
  by_cases hRead : EFI_ERROR e.Read = true
  · simp [hOpen, hGet, hRead] at hOk
  by_cases hSig : e.mem 0 ≠ 0x42 ∨ e.mem 1 ≠ 0x4D
  · simp [hOpen, hGet, hRead, if_pos hSig, hInvalid] at hOk
  simp only [if_neg hOpen, if_neg hGet, if_neg hRead, if_neg hSig] at hOk ⊢
  split_ifs at hOk ⊢ with hBlt
  · simp [hResources] at hOk
  · obtain ⟨hB, hM⟩ := not_or.mp hSig
    exact ⟨⟨not_not.mp hB, not_not.mp hM⟩, rfl, rfl, _, rfl⟩

/-- Whether a call ends with an error. -/
def «读图环境».fails (e : «读图环境») : Bool :=
  EFI_ERROR e.Open || EFI_ERROR e.GetInfo || EFI_ERROR e.Read || !decide e.Signed || !e.GopBlt

theorem reader_error_iff (e : «读图环境») (L : Ledger) :
    EFI_ERROR («读取并转换Bmp» e L).1.Status = e.fails := by
  have hInvalid : EFI_ERROR EFI_INVALID_PARAMETER = true := by decide
  have hResources : EFI_ERROR EFI_OUT_OF_RESOURCES = true := by decide
  unfold «读取并转换Bmp» «读图环境».fails
  by_cases hOpen : EFI_ERROR e.Open = true
  · simp [hOpen]
  by_cases hGet : EFI_ERROR e.GetInfo = true
  · simp [hOpen, hGet]
  by_cases hRead : EFI_ERROR e.Read = true
  · simp [hOpen, hGet, hRead]
  by_cases hSig : e.Signed
  · have hSig' : ¬ (e.mem 0 ≠ 0x42 ∨ e.mem 1 ≠ 0x4D) :=
      not_or.mpr ⟨not_not.mpr hSig.1, not_not.mpr hSig.2⟩
    cases hBlt : e.GopBlt with
    | false => simp [hOpen, hGet, hRead, if_neg hSig', hSig, Ledger.tryAcquire, hResources]
    | true => simp [hOpen, hGet, hRead, if_neg hSig', hSig, Ledger.tryAcquire, Ledger.acquire]
  · have hSig' : e.mem 0 ≠ 0x42 ∨ e.mem 1 ≠ 0x4D := not_and_or.mp hSig
    simp [hOpen, hGet, hRead, if_pos hSig', hSig, hInvalid]

theorem toNat_pixelBytes (h : BMP_IMAGE_HEADER) :
    ((PixelCount h).toUInt64 * 4).toNat = (h.W * h.H) % 2 ^ 32 * 4 := by
  have hCount : (PixelCount h).toNat = (h.W * h.H) % 2 ^ 32 := UInt32.toNat_mul _ _
  have hLt : (h.W * h.H) % 2 ^ 32 < 2 ^ 32 := Nat.mod_lt _ (by decide)
  rw [UInt64.toNat_mul, UInt32.toNat_toUInt64, hCount]
  exact Nat.mod_eq_of_lt (by simp only [UInt64.reduceToNat]; omega)

/-- The pixel buffer when the loops end. -/
theorem final_eq (e : «读图环境») :
    e.final.GopBlt = (Region.fresh e.pool).storeAll ((points e.header.W e.header.H).map
      fun p => (index e.header.W p, loadPixel e.header e.mem
        (srcIndex e.header (UInt64.ofNat p.1) (UInt64.ofNat p.2)))) := by
  rw [«读图环境».final, convert_eq]
  refine congrArg (Region.storeAll _) (List.map_congr_left fun p hp => ?_)
  rw [storeAt, toNat_dstIndex hp]

/-- What memory safety asks of a call: it reports an error and converts nothing, or it
loads only bytes that were read from the file, stores only pixels of the block it
allocated, and returns the exact size. -/
def SafeRead (e : «读图环境») (L : Ledger) : Prop :=
  let r := («读取并转换Bmp» e L).1
  (EFI_ERROR r.Status = true ∧ r.converted = none) ∨
    ∃ s allocated, r.converted = some (s, allocated) ∧
      (∀ o ∈ s.loads, o < e.BytesRead.toNat) ∧
      (∀ k ∈ s.GopBlt.stores, 4 * k + 4 ≤ allocated.toNat) ∧
      r.GopBltSize.toNat = r.PixelWidth.toNat * r.PixelHeight.toNat * 4

theorem header_loads_lt_iff {n : Nat} : (∀ o ∈ headerLoads, o < n) ↔ 26 ≤ n := by
  constructor
  · intro h
    exact h 25 (by decide)
  · intro h o ho
    have : ∀ o ∈ headerLoads, o < 26 := by decide
    exact lt_of_lt_of_le (this o ho) h

theorem loads_final (e : «读图环境») : e.final.loads = headerLoads ++
    (points e.header.W e.header.H).flatMap (loadsAt e.header) := by
  rw [«读图环境».final, convert_eq]

/-- A file that holds what its header promises is read safely. -/
theorem safeRead_of_room (hOk : e.Succeeds) (hSig : e.Signed) (hHeader : 26 ≤ e.BytesRead.toNat)
    (hArea : e.header.W * e.header.H < 2 ^ 32)
    (hRoom : e.header.W * e.header.H = 0 ∨
      e.header.ImageOffset.toNat + 4 * (e.header.W * e.header.H) ≤ e.BytesRead.toNat)
    (L : Ledger) : SafeRead e L := by
  obtain ⟨-, hSize, hHeight, hWidth, hConverted⟩ := reader_signed hOk hSig L
  refine Or.inr ⟨_, _, hConverted, ?_, ?_, ?_⟩
  · intro o ho
    rw [loads_final] at ho
    rcases List.mem_append.mp ho with ho | ho
    · exact header_loads_lt_iff.mpr hHeader o ho
    · exact (loads_lt_iff hArea).mpr hRoom o ho
  · intro k hk
    have hIn : e.final.GopBlt.InBounds (e.header.W * e.header.H) := by
      rw [final_eq]
      exact inBounds_storePoints (g := id) _ (fun p hp => hp) (by simp [Region.InBounds])
    have := hIn k hk
    rw [toNat_pixelBytes, Nat.mod_eq_of_lt hArea]
    omega
  · rw [hSize, hHeight, hWidth, toNat_pixelBytes, Nat.mod_eq_of_lt hArea, UInt32.toNat_toUInt64,
      UInt32.toNat_toUInt64]
    rfl

/--
**Which files are read safely.** The reader stays inside the bytes it read and the buffer
it allocated exactly when it sees no signature, or when the file reaches past the height
field, the pixel count fits 32 bits, and four bytes a pixel follow the offset that the
header names. It checks none of the three.
-/
theorem reader_safe_iff (hOk : e.Succeeds) (L : Ledger) :
    SafeRead e L ↔ ¬ e.Signed ∨
      26 ≤ e.BytesRead.toNat ∧
      e.header.PixelWidth.toNat * e.header.PixelHeight.toNat < 2 ^ 32 ∧
      (e.header.PixelWidth.toNat * e.header.PixelHeight.toNat = 0 ∨
        e.header.ImageOffset.toNat +
          4 * (e.header.PixelWidth.toNat * e.header.PixelHeight.toNat) ≤ e.BytesRead.toNat) := by
  show _ ↔ _ ∨ _ ∧ e.header.W * e.header.H < _ ∧ (e.header.W * e.header.H = 0 ∨
    _ + 4 * (e.header.W * e.header.H) ≤ _)
  by_cases hSig : e.Signed
  swap
  · refine iff_of_true (Or.inl ?_) (Or.inl hSig)
    rw [reader_unsigned hOk hSig L]
    exact ⟨by decide, rfl⟩
  obtain ⟨hStatus, hSize, hHeight, hWidth, hConverted⟩ := reader_signed hOk hSig L
  constructor
  · rintro (⟨hErr, -⟩ | ⟨s, allocated, hs, hRead, -, hBytes⟩)
    · rw [hStatus, hOk.read] at hErr
      exact absurd hErr (by simp)
    · rw [hConverted] at hs
      obtain ⟨rfl, rfl⟩ := Prod.mk.inj (Option.some.inj hs)
      rw [hSize, hHeight, hWidth, toNat_pixelBytes, UInt32.toNat_toUInt64,
        UInt32.toNat_toUInt64] at hBytes
      change _ = e.header.W * e.header.H * 4 at hBytes
      have hMod := Nat.mod_lt (e.header.W * e.header.H) (show 0 < 2 ^ 32 by decide)
      have hArea : e.header.W * e.header.H < 2 ^ 32 := by omega
      rw [loads_final] at hRead
      refine Or.inr ⟨header_loads_lt_iff.mp fun o ho => hRead o (List.mem_append_left _ ho),
        hArea, (loads_lt_iff hArea).mp fun o ho => hRead o (List.mem_append_right _ ho)⟩
  · rintro (hNot | ⟨hHeader, hArea, hRoom⟩)
    · exact absurd hSig hNot
    · exact safeRead_of_room hOk hSig hHeader hArea hRoom L

/-- A call on a file with these bytes in which nothing fails. The blocks from the pool are
as long as asked for, and what lies behind the file's bytes is arbitrary. -/
def «读图环境».ofFile (file : List UINT8) (beyond : ByteBuffer) : «读图环境» where
  Open := EFI_SUCCESS
  FileInfo := true
  GetInfo := EFI_SUCCESS
  FileSize := UInt64.ofNat file.length
  BmpData := true
  Read := EFI_SUCCESS
  BytesRead := UInt64.ofNat file.length
  read_le := UInt64.le_refl _
  mem := fun i => file.getD i (beyond i)
  GopBlt := true
  pool := fun _ => default

theorem ofFile_succeeds (file : List UINT8) (beyond : ByteBuffer) :
    («读图环境».ofFile file beyond).Succeeds :=
  ⟨EFI_ERROR_success, rfl, EFI_ERROR_success, rfl, EFI_ERROR_success, rfl⟩

theorem mem_ofFile (file : List UINT8) (beyond : ByteBuffer) (i : Nat) :
    («读图环境».ofFile file beyond).mem i = file.getD i (beyond i) := rfl

/-- The header of a 32-bit picture of two by two pixels. -/
def squareHeader : BMP_IMAGE_HEADER :=
  ⟨0x42, 0x4D, 70, 0, 0, 54, 40, 2, 2, 1, 32, 0, 16, 0, 0, 0, 0⟩

/-- The header followed by four different pixels. -/
def squareFile : List UINT8 :=
  squareHeader.bytes ++ [1, 2, 3, 4, 5, 6, 7, 8, 9, 10, 11, 12, 13, 14, 15, 16]

theorem squareFile_safe : SafeRead (.ofFile squareFile fun _ => 0) .empty :=
  (reader_safe_iff (by decide) _).mpr (Or.inr (by decide +kernel))

/-- The header alone: the pixels are loaded from behind the end of the file. -/
theorem truncated_unsafe : ¬ SafeRead (.ofFile squareHeader.bytes fun _ => 0) .empty := by
  intro h
  obtain ⟨-, -, -, -, hConverted⟩ :=
    reader_signed (e := .ofFile squareHeader.bytes fun _ => 0) (by decide) (by decide) .empty
  rcases h with ⟨hErr, -⟩ | ⟨s, allocated, hs, hLoads, -⟩
  · exact absurd hErr (by decide +kernel)
  · rw [hConverted] at hs
    obtain ⟨rfl, -⟩ := Prod.mk.inj (Option.some.inj hs)
    exact absurd (hLoads 54 (by decide +kernel)) (by decide +kernel)

end TianJi.Model
