import TianJi.Model.DevicePath

/-!
# TianJi — device paths in memory

`IsDevicePathValid` (DevicePathUtilities.c) walks over the bytes of a device path before
anybody trusts them. Reads are partial: an address where nothing lies has no byte. Addresses
count from the path's first byte and wrap as pointers do.

* `isDevicePathValid_iff` — accepted is what begins with the bytes of a valid list of nodes
  and an end node, as long as these fit into the address space.
-/

namespace TianJi.Model

-- ---------------------------------------------------------------------------
-- The code
-- ---------------------------------------------------------------------------

/-- What lies in memory from a device path on. -/
abbrev PathMemory := List UINT8

namespace PathMemory

def MAX_UINTN : UINTN := 0xFFFFFFFFFFFFFFFF
def END_DEVICE_PATH_LENGTH : UINTN := 4

/-- The byte at an address, if there is one. -/
def byte (m : PathMemory) (p : UINTN) : Option UINT8 := m[p.toNat]?

/-- A little-endian halfword. -/
def ofBytes (low high : UINT8) : UINT16 := UInt16.ofNat (low.toNat + 256 * high.toNat)

def ReadUnaligned16 (m : PathMemory) (Buffer : UINTN) : Option UINT16 := do
  return ofBytes (← m.byte Buffer) (← m.byte (Buffer + 1))

/-- The first byte of a node's header. -/
def DevicePathType (m : PathMemory) (Node : UINTN) : Option UINT8 := m.byte Node

def DevicePathSubType (m : PathMemory) (Node : UINTN) : Option UINT8 := m.byte (Node + 1)

/-- The length behind the two types. -/
def DevicePathNodeLength (m : PathMemory) (Node : UINTN) : Option UINTN := do
  return (← m.ReadUnaligned16 (Node + 2)).toUInt64

def NextDevicePathNode (m : PathMemory) (Node : UINTN) : Option UINTN := do
  return Node + (← m.DevicePathNodeLength Node)

/-- A test of both header bytes. The second one is read when the first one fits. -/
def hasType (m : PathMemory) (Node : UINTN) («Type» SubType : UINT8) : Option Bool := do
  if (← m.DevicePathType Node) = «Type» then
    return decide ((← m.DevicePathSubType Node) = SubType)
  else return false

def IsDevicePathEnd (m : PathMemory) (Node : UINTN) : Option Bool :=
  m.hasType Node END_DEVICE_PATH_TYPE END_ENTIRE_DEVICE_PATH_SUBTYPE

def isFilePath (m : PathMemory) (Node : UINTN) : Option Bool :=
  m.hasType Node MEDIA_DEVICE_PATH MEDIA_FILEPATH_DP

/-- "FilePath must be a NULL-terminated string": the node's last two bytes. -/
def isTerminated (m : PathMemory) (DevicePath NodeLength : UINTN) : Option Bool := do
  if ← m.isFilePath DevicePath then
    return decide ((← m.ReadUnaligned16 (DevicePath + NodeLength - 2)) = 0)
  else return true

/-- The second test of the loop is what keeps the sum from wrapping. -/
theorem toNat_size {Size NodeLength : UINTN} (h : ¬ MAX_UINTN - Size < NodeLength) :
    (Size + NodeLength).toNat = Size.toNat + NodeLength.toNat := by
  have hMax : MAX_UINTN.toNat = 2 ^ 64 - 1 := by decide
  have hLt := Size.toNat_lt
  have hLe : Size ≤ MAX_UINTN := by
    rw [UInt64.le_iff_toNat_le]
    omega
  rw [UInt64.lt_iff_toNat_lt, UInt64.toNat_sub_of_le _ _ hLe] at h
  rw [UInt64.toNat_add, Nat.mod_eq_of_lt (by omega)]

/-- Every turn brings the walk nearer to the end of the address space, which is why it ends. -/
theorem room_lt {Size NodeLength : UINTN} (hShort : ¬ NodeLength < 4)
    (hLong : ¬ MAX_UINTN - Size < NodeLength) :
    2 ^ 64 - (Size + NodeLength).toNat < 2 ^ 64 - Size.toNat := by
  have hSum := toNat_size hLong
  have hFour : (4 : UINTN).toNat = 4 := by decide
  have hLt := (Size + NodeLength).toNat_lt
  rw [UInt64.lt_iff_toNat_lt] at hShort
  omega

/-- The loop of `IsDevicePathValid` and the test behind it. Nodes are not counted, since
`PcdMaximumDevicePathNodeCount` is 0. -/
def validNodes (m : PathMemory) (MaxSize DevicePath Size : UINTN) : Option Bool := do
  if ← m.IsDevicePathEnd DevicePath then
    return decide ((← m.DevicePathNodeLength DevicePath) = END_DEVICE_PATH_LENGTH)
  else
    let NodeLength ← m.DevicePathNodeLength DevicePath
    if _ : NodeLength < 4 then return false
    else if _ : MAX_UINTN - Size < NodeLength then return false
    else if MaxSize - END_DEVICE_PATH_LENGTH < Size + NodeLength then return false
    else if ← m.isTerminated DevicePath NodeLength then
      m.validNodes MaxSize (← m.NextDevicePathNode DevicePath) (Size + NodeLength)
    else return false
termination_by 2 ^ 64 - Size.toNat
decreasing_by
  rename_i hShort hLong _ _
  exact room_lt hShort hLong

/-- For a path that is not null. -/
def IsDevicePathValid (m : PathMemory) (MaxSize : UINTN) : Option Bool :=
  if 0 < MaxSize ∧ MaxSize < END_DEVICE_PATH_LENGTH then some false
  else m.validNodes (if MaxSize = 0 then MAX_UINTN else MaxSize) 0 0

-- ---------------------------------------------------------------------------
-- Reads
-- ---------------------------------------------------------------------------

variable {m : PathMemory} {p : UINTN} {l l' : List UINT8} {b : UINT8} {i : Nat}

/-- From the address on the memory holds `l`, below the end of the address space. -/
def Lies (m : PathMemory) (p : UINTN) (l : List UINT8) : Prop :=
  l <+: m.drop p.toNat ∧ p.toNat + l.length < 2 ^ 64

/-- An address inside of what lies in memory does not wrap. -/
theorem toNat_add_ofNat {i : Nat} (h : p.toNat + i < 2 ^ 64) :
    (p + UInt64.ofNat i).toNat = p.toNat + i := by
  rw [UInt64.toNat_add, UInt64.toNat_ofNat_of_lt' (show i < 2 ^ 64 by omega), Nat.mod_eq_of_lt h]

/-- Where bytes lie, they are read. -/
theorem byte_of_lies (h : Lies m p l) (hGet : l[i]? = some b) :
    m.byte (p + UInt64.ofNat i) = some b := by
  obtain ⟨⟨rest, hRest⟩, hFits⟩ := h
  have hi : i < l.length := (List.getElem?_eq_some_iff.mp hGet).1
  rw [byte, toNat_add_ofNat (by omega), ← List.getElem?_drop, ← hRest,
    List.getElem?_append_left hi, hGet]

/-- Bytes that are all read lie there. -/
theorem lies_of_bytes (h : ∀ i b, l[i]? = some b → m.byte (p + UInt64.ofNat i) = some b)
    (hFits : p.toNat + l.length < 2 ^ 64) : Lies m p l := by
  refine ⟨List.prefix_iff_getElem?.mpr fun i hi => ?_, hFits⟩
  have hByte := h i l[i] (List.getElem?_eq_getElem hi)
  rwa [byte, toNat_add_ofNat (by omega), ← List.getElem?_drop] at hByte

/-- Two pieces lie one behind the other exactly when the second one lies where the first one
ends. -/
theorem lies_append : Lies m p (l ++ l') ↔
    Lies m p l ∧ Lies m (p + UInt64.ofNat l.length) l' := by
  unfold Lies
  constructor
  · rintro ⟨⟨rest, hRest⟩, hFits⟩
    rw [List.length_append] at hFits
    rw [toNat_add_ofNat (by omega), ← List.drop_drop, ← hRest, List.append_assoc,
      List.drop_left]
    exact ⟨⟨List.prefix_append _ _, by omega⟩, List.prefix_append _ _, by omega⟩
  · rintro ⟨⟨⟨rest, hRest⟩, hFits⟩, hTail, hFits'⟩
    rw [toNat_add_ofNat hFits] at hTail hFits'
    rw [← List.drop_drop, ← hRest, List.drop_left] at hTail
    rw [← hRest, List.length_append]
    exact ⟨(List.prefix_append_right_inj l).mpr hTail, by omega⟩

/-- What is left of a piece lies so much further on. -/
theorem Lies.drop {k : Nat} (h : Lies m p l) (hk : k ≤ l.length) :
    Lies m (p + UInt64.ofNat k) (l.drop k) := by
  rw [← List.take_append_drop k l, lies_append, List.length_take, Nat.min_eq_left hk] at h
  exact h.2

/-- The beginning of what lies somewhere lies there. -/
theorem Lies.restrict (h : Lies m p l) (hPrefix : l' <+: l) :
    Lies m p l' := by
  obtain ⟨rest, rfl⟩ := hPrefix
  exact (lies_append.mp h).1

/-- A halfword is read from its two bytes. -/
theorem ReadUnaligned16_of_lies {low high : UINT8} (h : Lies m p [low, high]) :
    m.ReadUnaligned16 p = some (ofBytes low high) := by
  have hLow : m.byte p = some low := by simpa using byte_of_lies (i := 0) h rfl
  have hHigh : m.byte (p + 1) = some high := byte_of_lies (i := 1) h rfl
  simp [ReadUnaligned16, hLow, hHigh]

/-- Where both bytes of a header are there, the test has a result. -/
theorem hasType_of_lies {first second : UINT8} (h : Lies m p [first, second])
    («Type» SubType : UINT8) :
    m.hasType p «Type» SubType = some (decide (first = «Type» ∧ second = SubType)) := by
  have hFirst : m.byte p = some first := by simpa using byte_of_lies (i := 0) h rfl
  have hSecond : m.byte (p + 1) = some second := byte_of_lies (i := 1) h rfl
  simp only [hasType, DevicePathType, DevicePathSubType, hFirst, hSecond]
  by_cases hType : first = «Type» <;> simp [hType]

/-- A test that succeeds has seen both bytes. -/
theorem hasType_eq_true {«Type» SubType : UINT8} (h : m.hasType p «Type» SubType = some true) :
    m.byte p = some «Type» ∧ m.byte (p + 1) = some SubType := by
  unfold hasType DevicePathType DevicePathSubType at h
  cases hFirst : m.byte p with
  | none => simp [hFirst] at h
  | some first =>
    by_cases hType : first = «Type»
    · cases hSecond : m.byte (p + 1) with
      | none => simp [hFirst, hType, hSecond] at h
      | some second => simpa [hFirst, hType, hSecond] using h
    · simp [hFirst, hType] at h

/-- A length that is read comes from the third and the fourth byte of the header. -/
theorem DevicePathNodeLength_eq_some {NodeLength : UINTN}
    (h : m.DevicePathNodeLength p = some NodeLength) :
    ∃ low high, m.byte (p + 2) = some low ∧ m.byte (p + 3) = some high ∧
      NodeLength = (ofBytes low high).toUInt64 := by
  have hNext : p + 2 + 1 = p + 3 := by rw [UInt64.add_assoc]; rfl
  simp only [DevicePathNodeLength, ReadUnaligned16, Option.bind_eq_bind, Option.bind_eq_some_iff,
    Option.pure_def, Option.some.injEq, hNext] at h
  obtain ⟨_, ⟨low, hLow, high, hHigh, rfl⟩, hValue⟩ := h
  exact ⟨low, high, hLow, hHigh, hValue.symm⟩

-- ---------------------------------------------------------------------------
-- The bytes of a node
-- ---------------------------------------------------------------------------

/-- A halfword read from two bytes is written as these bytes. -/
theorem uint16Bytes_ofBytes (low high : UINT8) : uint16Bytes (ofBytes low high) = [low, high] := by
  have hLow := low.toNat_lt
  have hHigh := high.toNat_lt
  have hLt : low.toNat + 256 * high.toNat < 2 ^ 16 := by omega
  have hDiv : (low.toNat + 256 * high.toNat) / 256 = high.toNat := by omega
  rw [uint16Bytes, ofBytes, UInt16.toNat_ofNat_of_lt' hLt, Bytes.leBytes, Bytes.leBytes,
    Bytes.leBytes, hDiv, UInt8.ofNat_toNat]
  simp

/-- A halfword written as two bytes is read from them. -/
theorem exists_uint16Bytes (v : UINT16) :
    ∃ low high, uint16Bytes v = [low, high] ∧ ofBytes low high = v := by
  refine ⟨UInt8.ofNat v.toNat, UInt8.ofNat (v.toNat / 256), rfl, ?_⟩
  have hLt := v.toNat_lt
  rw [ofBytes, UInt8.toNat_ofNat', UInt8.toNat_ofNat',
    show v.toNat % 2 ^ 8 + 256 * (v.toNat / 256 % 2 ^ 8) = v.toNat by omega, UInt16.ofNat_toNat]

/-- The test for a terminator looks at both bytes. -/
theorem ofBytes_eq_zero_iff (low high : UINT8) :
    ofBytes low high = 0 ↔ [low, high] = [0, 0] := by
  constructor
  · intro h
    rw [← uint16Bytes_ofBytes, h]
    rfl
  · intro h
    simp only [List.cons.injEq, and_true] at h
    rw [h.1, h.2]
    rfl

variable {n : DevicePathNode}

/-- A node takes its header and its data. -/
theorem length_bytes (n : DevicePathNode) : n.bytes.length = 4 + n.data.length := by
  simp only [DevicePathNode.bytes, List.length_append, length_uint16Bytes, List.length_cons,
    List.length_nil]

/-- On a node the test compares the node's own types. -/
theorem hasType_node (h : Lies m p n.bytes) («Type» SubType : UINT8) :
    m.hasType p «Type» SubType =
      some (decide (n.«Type» = «Type» ∧ n.SubType = SubType)) := by
  rw [DevicePathNode.bytes, List.append_assoc, lies_append] at h
  exact hasType_of_lies h.1 «Type» SubType

/-- A node inside of a path is not taken for its end. -/
theorem IsDevicePathEnd_node (h : Lies m p n.bytes) : m.IsDevicePathEnd p = some false := by
  rw [IsDevicePathEnd, hasType_node h, decide_eq_false n.inner]

/-- The test for file nodes is the one on lists. -/
theorem isFilePath_node (h : Lies m p n.bytes) : m.isFilePath p = some n.isFilePath := by
  rw [isFilePath, hasType_node h, DevicePathNode.isFilePath, Bool.decide_and]

/-- The length field of a node gives the length of its bytes, since that fits 16 bits. -/
theorem DevicePathNodeLength_node (h : Lies m p n.bytes) :
    m.DevicePathNodeLength p = some (UInt64.ofNat n.bytes.length) := by
  obtain ⟨low, high, hBytes, hValue⟩ := exists_uint16Bytes (UInt16.ofNat (4 + n.data.length))
  rw [DevicePathNode.bytes, lies_append, lies_append, hBytes] at h
  have hRead : m.ReadUnaligned16 (p + 2) = some (ofBytes low high) :=
    ReadUnaligned16_of_lies h.1.2
  have hSize : (UInt16.ofNat (4 + n.data.length)).toNat = 4 + n.data.length :=
    UInt16.toNat_ofNat_of_lt' n.length_lt
  rw [DevicePathNodeLength, hRead, hValue, length_bytes, ← hSize, UInt16.ofNat_toNat,
    UInt64.ofNat_uInt16ToNat]
  rfl

/-- So the next node is looked for where the bytes of this one end. -/
theorem NextDevicePathNode_node (h : Lies m p n.bytes) :
    m.NextDevicePathNode p = some (p + UInt64.ofNat n.bytes.length) := by
  simp [NextDevicePathNode, DevicePathNodeLength_node h]

/-- What the validator looks at is the last two bytes of the node. -/
theorem isTerminated_node (h : Lies m p n.bytes) :
    m.isTerminated p (UInt64.ofNat n.bytes.length) =
      some (!n.isFilePath || n.bytes.drop (n.bytes.length - 2) = [0, 0]) := by
  obtain ⟨low, high, hLast⟩ : ∃ low high, n.bytes.drop (n.bytes.length - 2) = [low, high] := by
    have hLength : (n.bytes.drop (n.bytes.length - 2)).length = 2 := by
      rw [List.length_drop, length_bytes]
      omega
    exact List.length_eq_two.mp hLength
  have hAddress : p + UInt64.ofNat n.bytes.length - 2 = p + UInt64.ofNat (n.bytes.length - 2) := by
    have hTwo : n.bytes.length = n.bytes.length - 2 + 2 := by
      rw [length_bytes]
      omega
    conv_lhs => rw [hTwo, UInt64.ofNat_add, ← UInt64.add_assoc]
    exact UInt64.add_sub_cancel _ _
  have hRead : m.ReadUnaligned16 (p + UInt64.ofNat n.bytes.length - 2) =
      some (ofBytes low high) := by
    have hLies := h.drop (Nat.sub_le n.bytes.length 2)
    rw [hLast] at hLies
    rw [hAddress]
    exact ReadUnaligned16_of_lies hLies
  cases hFile : n.isFilePath with
  | false => simp [isTerminated, isFilePath_node h, hFile]
  | true => simp [isTerminated, isFilePath_node h, hFile, hRead, hLast, ofBytes_eq_zero_iff]

-- ---------------------------------------------------------------------------
-- The walk over the nodes
-- ---------------------------------------------------------------------------

/-- The node that ends the whole path: no data. -/
def endNode : List UINT8 :=
  [END_DEVICE_PATH_TYPE, END_ENTIRE_DEVICE_PATH_SUBTYPE] ++ uint16Bytes 4

/-- A path in memory: its nodes and the end node. -/
def pathBytes (path : DevicePath) : List UINT8 := path.flatMap DevicePathNode.bytes ++ endNode

variable {path : DevicePath}

/-- A path begins with its first node. -/
theorem pathBytes_cons (n : DevicePathNode) (path : DevicePath) :
    pathBytes (n :: path) = n.bytes ++ pathBytes path := by
  rw [pathBytes, pathBytes, List.flatMap_cons, List.append_assoc]

/-- No path is shorter than its end node. -/
theorem four_le_length_pathBytes (path : DevicePath) : 4 ≤ (pathBytes path).length := by
  rw [pathBytes, List.length_append, show endNode.length = 4 from rfl]
  omega

/-- There are fewer nodes than bytes, so that a path's length in bytes is turns enough for a
walk. -/
theorem length_lt_pathBytes (path : DevicePath) : path.length < (pathBytes path).length := by
  induction path with
  | nil => exact Nat.zero_lt_succ _
  | cons n path ih =>
    rw [pathBytes_cons, List.length_append, length_bytes, List.length_cons]
    omega

/-- The rest of a path lies behind its first node. -/
theorem lies_pathBytes_cons (h : Lies m p (pathBytes (n :: path))) :
    Lies m p n.bytes ∧ Lies m (p + UInt64.ofNat n.bytes.length) (pathBytes path) := by
  rwa [pathBytes_cons, lies_append] at h

/-- The end node is taken for one. -/
theorem IsDevicePathEnd_endNode (h : Lies m p endNode) : m.IsDevicePathEnd p = some true := by
  rw [IsDevicePathEnd, hasType_of_lies (lies_append.mp h).1]
  rfl

/-- Its length is that of a header. -/
theorem DevicePathNodeLength_endNode (h : Lies m p endNode) :
    m.DevicePathNodeLength p = some END_DEVICE_PATH_LENGTH := by
  have hRead : m.ReadUnaligned16 (p + 2) = some (ofBytes 4 0) :=
    ReadUnaligned16_of_lies (lies_append.mp h).2
  rw [DevicePathNodeLength, hRead]
  rfl

/-- One turn of the loop. -/
theorem validNodes_node {MaxSize Size NodeLength : UINTN} (hEnd : m.IsDevicePathEnd p = some false)
    (hLength : m.DevicePathNodeLength p = some NodeLength) :
    m.validNodes MaxSize p Size =
      if NodeLength < 4 ∨ MAX_UINTN - Size < NodeLength ∨
        MaxSize - END_DEVICE_PATH_LENGTH < Size + NodeLength then some false
      else (m.isTerminated p NodeLength).bind fun terminated =>
        if terminated then m.validNodes MaxSize (p + NodeLength) (Size + NodeLength)
        else some false := by
  have hNext : m.NextDevicePathNode p = some (p + NodeLength) := by
    rw [NextDevicePathNode, hLength]
    rfl
  rw [validNodes, hEnd, hLength, hNext]
  by_cases hShort : NodeLength < 4
  · simp [hShort]
  · by_cases hLong : MAX_UINTN - Size < NodeLength
    · simp [hLong]
    · simp [hShort, hLong]

/-- Where the next node's header still fits, no test of the size fails. -/
theorem size_accepted {k : Nat} (hFour : 4 ≤ k) (hFits : p.toNat + k + 4 < 2 ^ 64) :
    ¬ (UInt64.ofNat k < 4 ∨ MAX_UINTN - p < UInt64.ofNat k ∨
      MAX_UINTN - END_DEVICE_PATH_LENGTH < p + UInt64.ofNat k) := by
  have hMax : MAX_UINTN.toNat = 2 ^ 64 - 1 := by decide
  have hLast : (MAX_UINTN - END_DEVICE_PATH_LENGTH).toNat = 2 ^ 64 - 5 := by decide
  have hHeader : (4 : UINTN).toNat = 4 := by decide
  have hLe : p ≤ MAX_UINTN := UInt64.le_iff_toNat_le.mpr (by omega)
  rw [UInt64.lt_iff_toNat_lt, UInt64.lt_iff_toNat_lt, UInt64.lt_iff_toNat_lt,
    UInt64.toNat_sub_of_le _ _ hLe, toNat_add_ofNat (by omega),
    UInt64.toNat_ofNat_of_lt' (show k < 2 ^ 64 by omega)]
  omega

/-- On the bytes of a path the walk gives what is said about its nodes. -/
theorem validNodes_of_lies (h : Lies m p (pathBytes path)) :
    m.validNodes MAX_UINTN p p = some (Model.IsDevicePathValid path) := by
  induction path generalizing p with
  | nil =>
    rw [validNodes, IsDevicePathEnd_endNode h, DevicePathNodeLength_endNode h]
    rfl
  | cons n path ih =>
    obtain ⟨hNode, hRest⟩ := lies_pathBytes_cons h
    have hSize := size_accepted (p := p) (k := n.bytes.length) (by rw [length_bytes]; omega) (by
      have hFour := four_le_length_pathBytes path
      have hFits := hRest.2
      rw [toNat_add_ofNat hNode.2] at hFits
      omega)
    rw [validNodes_node (IsDevicePathEnd_node hNode) (DevicePathNodeLength_node hNode),
      if_neg hSize, isTerminated_node hNode, Option.bind_some, ih hRest, Model.IsDevicePathValid,
      Model.IsDevicePathValid, List.all_cons]
    split
    · rename_i hTerminated
      rw [hTerminated, Bool.true_and]
    · rename_i hNot
      rw [Bool.not_eq_true] at hNot
      rw [hNot, Bool.false_and]

/-- A header that is not the end's, with another byte behind the length it gives, is the header
of a node. -/
theorem exists_node {NodeLength : UINTN} (hEnd : m.IsDevicePathEnd p = some false)
    (hLength : m.DevicePathNodeLength p = some NodeLength) (hShort : ¬ NodeLength < 4)
    (hFits : p.toNat + NodeLength.toNat < 2 ^ 64)
    (hMore : p.toNat + NodeLength.toNat < m.length) :
    ∃ n : DevicePathNode, Lies m p n.bytes ∧ UInt64.ofNat n.bytes.length = NodeLength := by
  have hFour : 4 ≤ NodeLength.toNat := Nat.not_lt.mp fun h =>
    hShort (UInt64.lt_iff_toNat_lt.mpr h)
  obtain ⟨first, second, low, high, rest, hRest⟩ :
      ∃ first second low high rest, m.drop p.toNat = first :: second :: low :: high :: rest := by
    have hDrop : 4 ≤ (m.drop p.toNat).length := by
      rw [List.length_drop]
      omega
    match m.drop p.toNat, hDrop with
    | a :: b :: c :: d :: rest, _ => exact ⟨a, b, c, d, rest, rfl⟩
  have hHeader : Lies m p ([first, second] ++ [low, high]) :=
    ⟨⟨rest, by rw [hRest]; rfl⟩, by simp; omega⟩
  obtain ⟨hTypes, hSize⟩ := lies_append.mp hHeader
  -- the length in the header is the one that was read
  have hValue : NodeLength.toNat = (ofBytes low high).toNat := by
    have hRead : m.ReadUnaligned16 (p + 2) = some (ofBytes low high) := ReadUnaligned16_of_lies hSize
    rw [DevicePathNodeLength, hRead] at hLength
    rw [← Option.some.inj hLength, UInt16.toNat_toUInt64]
  have hLt := (ofBytes low high).toNat_lt
  -- the node takes from what follows its header as much as that length says
  have hData : 4 + (rest.take (NodeLength.toNat - 4)).length = NodeLength.toNat := by
    have hDrop := congrArg List.length hRest
    simp only [List.length_drop, List.length_cons] at hDrop
    rw [List.length_take]
    omega
  -- and its types are not the end's
  have hInner : ¬ (first = END_DEVICE_PATH_TYPE ∧ second = END_ENTIRE_DEVICE_PATH_SUBTYPE) := by
    rw [IsDevicePathEnd, hasType_of_lies hTypes, Option.some.injEq, decide_eq_false_iff_not] at hEnd
    exact hEnd
  let n : DevicePathNode :=
    ⟨first, second, rest.take (NodeLength.toNat - 4), by rw [hData]; omega, hInner⟩
  have hBytes : n.bytes = first :: second :: low :: high :: rest.take (NodeLength.toNat - 4) := by
    have hSizeBytes : uint16Bytes (UInt16.ofNat NodeLength.toNat) = [low, high] := by
      rw [hValue, UInt16.ofNat_toNat, uint16Bytes_ofBytes]
    rw [DevicePathNode.bytes, hData, hSizeBytes]
    rfl
  have hPrefix : n.bytes <+: m.drop p.toNat := by
    rw [hBytes, hRest]
    exact (List.prefix_append_right_inj [first, second, low, high]).mpr (List.take_prefix _ _)
  have hTotal : n.bytes.length = NodeLength.toNat := by rw [length_bytes, hData]
  exact ⟨n, ⟨hPrefix, by omega⟩, by rw [hTotal, UInt64.ofNat_toNat]⟩

/-- An end type in front of the length 4 is the end node. -/
theorem lies_endNode (hEnd : m.IsDevicePathEnd p = some true)
    (hLength : m.DevicePathNodeLength p = some END_DEVICE_PATH_LENGTH)
    (hFits : p.toNat + 4 < 2 ^ 64) : Lies m p endNode := by
  obtain ⟨hFirst, hSecond⟩ := hasType_eq_true hEnd
  obtain ⟨low, high, hLow, hHigh, hValue⟩ := DevicePathNodeLength_eq_some hLength
  have hFour : ofBytes low high = 4 := by
    rw [← UInt16.toNat_inj, ← UInt16.toNat_toUInt64, ← hValue]
    rfl
  have hBytes : endNode = [END_DEVICE_PATH_TYPE, END_ENTIRE_DEVICE_PATH_SUBTYPE, low, high] := by
    rw [endNode, ← hFour, uint16Bytes_ofBytes]
    rfl
  rw [hBytes]
  refine lies_of_bytes (fun i b hGet => ?_) hFits
  -- one by one, as they were read
  match i with
  | 0 => simpa [hFirst] using hGet
  | 1 => exact hSecond.trans hGet
  | 2 => exact hLow.trans hGet
  | 3 => exact hHigh.trans hGet

/-- What a walk that accepts has seen: the end node, or a node that leaves room for the next
header and a walk from there on. -/
theorem validNodes_inv {MaxSize Size : UINTN} (h : m.validNodes MaxSize p Size = some true) :
    (m.IsDevicePathEnd p = some true ∧ m.DevicePathNodeLength p = some END_DEVICE_PATH_LENGTH) ∨
    ∃ NodeLength, m.IsDevicePathEnd p = some false ∧ m.DevicePathNodeLength p = some NodeLength ∧
      ¬ NodeLength < 4 ∧ ¬ MAX_UINTN - Size < NodeLength ∧
      ¬ MaxSize - END_DEVICE_PATH_LENGTH < Size + NodeLength ∧
      m.validNodes MaxSize (p + NodeLength) (Size + NodeLength) = some true := by
  cases hEnd : m.IsDevicePathEnd p with
  | none =>
    rw [validNodes, hEnd] at h
    cases h
  | some atEnd =>
    cases hLength : m.DevicePathNodeLength p with
    | none =>
      rw [validNodes, hEnd, hLength] at h
      cases atEnd <;> cases h
    | some NodeLength =>
      cases atEnd with
      | true =>
        rw [validNodes, hEnd, hLength] at h
        exact Or.inl ⟨rfl, by simpa using h⟩
      | false =>
        rw [validNodes_node hEnd hLength] at h
        -- the three tests of the size, and then the one for a terminator
        by_cases hSize : NodeLength < 4 ∨ MAX_UINTN - Size < NodeLength ∨
            MaxSize - END_DEVICE_PATH_LENGTH < Size + NodeLength
        · rw [if_pos hSize] at h
          cases h
        · rw [if_neg hSize] at h
          obtain ⟨terminated, -, h⟩ := Option.bind_eq_some_iff.mp h
          cases terminated with
          | false => cases h
          | true =>
            simp only [not_or] at hSize
            exact Or.inr ⟨NodeLength, rfl, rfl, hSize.1, hSize.2.1, hSize.2.2, h⟩

/-- What the walk accepts are the bytes of a path. -/
theorem lies_of_validNodes (h : m.validNodes MAX_UINTN p p = some true)
    (hFits : p.toNat + 4 < 2 ^ 64) : ∃ path, Lies m p (pathBytes path) := by
  induction hRoom : 2 ^ 64 - p.toNat using Nat.strong_induction_on generalizing p with
  | _ room ih =>
    rcases validNodes_inv h with ⟨hEnd, hLength⟩ |
      ⟨NodeLength, hEnd, hLength, hShort, hLong, hLast, hRest⟩
    · exact ⟨[], lies_endNode hEnd hLength hFits⟩
    · -- by induction on the room that is left behind the address: the rest is a path
      have hSum := toNat_size hLong
      have hLess := room_lt hShort hLong
      have hNext : (p + NodeLength).toNat + 4 < 2 ^ 64 := by
        have hBound : (MAX_UINTN - END_DEVICE_PATH_LENGTH).toNat = 2 ^ 64 - 5 := by decide
        rw [UInt64.lt_iff_toNat_lt] at hLast
        omega
      obtain ⟨path, hPath⟩ := ih _ (by omega) hRest hNext rfl
      -- the rest has its end node, so that there is memory behind this node
      have hMore : p.toNat + NodeLength.toNat < m.length := by
        have hSpan := hPath.1.length_le
        have hEndSpan := four_le_length_pathBytes path
        rw [List.length_drop] at hSpan
        omega
      obtain ⟨n, hNode, hSize⟩ := exists_node hEnd hLength hShort (by omega) hMore
      rw [← hSize] at hPath
      refine ⟨n :: path, ?_⟩
      rw [pathBytes_cons]
      exact lies_append.mpr ⟨hNode, hPath⟩

/-- What lies at the beginning of the memory is how the memory begins. -/
theorem lies_zero : Lies m 0 l ↔ (∃ rest, m = l ++ rest) ∧ l.length < 2 ^ 64 := by
  have hZero : (0 : UINTN).toNat = 0 := rfl
  rw [Lies, hZero, List.drop_zero, Nat.zero_add]
  exact and_congr_left fun _ => ⟨fun ⟨rest, h⟩ => ⟨rest, h.symm⟩, fun ⟨rest, h⟩ => ⟨rest, h.symm⟩⟩

/-- **Validation.** Accepted is what begins with the nodes of a valid path and an end node. -/
theorem isDevicePathValid_iff : m.IsDevicePathValid 0 = some true ↔
    ∃ path, (∃ rest, m = pathBytes path ++ rest) ∧ (pathBytes path).length < 2 ^ 64 ∧
      Model.IsDevicePathValid path = true := by
  rw [IsDevicePathValid, if_neg (by decide), if_pos rfl]
  constructor
  · intro h
    obtain ⟨path, hPath⟩ := lies_of_validNodes h (by decide)
    rw [validNodes_of_lies hPath, Option.some.injEq] at h
    obtain ⟨hMemory, hFits⟩ := lies_zero.mp hPath
    exact ⟨path, hMemory, hFits, h⟩
  · rintro ⟨path, hMemory, hFits, hValid⟩
    rw [validNodes_of_lies (lies_zero.mpr ⟨hMemory, hFits⟩), hValid]

end PathMemory

end TianJi.Model
