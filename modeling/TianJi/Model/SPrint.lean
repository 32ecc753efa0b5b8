import TianJi.Model.PrintLib

/-!
# TianJi — formatted printing

`BasePrintLibSPrintMarker` (PrintLibInternal.c): a format string is read item by item, every
item takes its arguments and is put into a bounded buffer, or only counted. A string is the
list of its characters up to the terminator; a position in the format is the rest of it from
there. An argument that is missing or of another kind than its conversion reads has no result.

The items of a format are a list (`pieces`), and every item has a text (`Piece.text`).

* `printPiece_shows`, `printPiece_length` — an item is printed as its text and counted as its
  size.
* `sprint_prints` — a call puts down the beginning of the text and a terminator, whatever the
  buffer's size.
* `sprint_fits`   — what that leaves in memory, and that a size beyond the limits is turned down.
-/

namespace TianJi.Model

open Bytes Memory Memory.Region

-- ---------------------------------------------------------------------------
-- Arguments
-- ---------------------------------------------------------------------------

/-- A string in memory, short enough to lie there. -/
structure NulString (α : Type) [Zero α] where
  chars : List α
  no_nul : 0 ∉ chars
  length_lt : chars.length < 2 ^ 63

structure GUID where
  Data1 : UINT32
  Data2 : UINT16
  Data3 : UINT16
  Data4 : Vector UINT8 8

/-- `EFI_TIME`, as far as it is read. -/
structure TIME where
  Year : UINT16
  Month : UINT8
  Day : UINT8
  Hour : UINT8
  Minute : UINT8
  Second : UINT8

/-- An element of a `VA_LIST`: a number of any width takes one word, the others are pointers. -/
inductive PrintArgument where
  | word (value : UINTN)
  | string (s : Option (NulString CHAR16))
  | ascii (s : Option (NulString CHAR8))
  | guid (g : Option GUID)
  | time (t : Option TIME)

namespace PrintArgument

/-- As an `int`: the low half, with its sign. -/
def int : PrintArgument → Option Int64
  | word value => some value.toUInt32.toInt32.toInt64
  | _ => none

def int64 : PrintArgument → Option Int64
  | word value => some value.toInt64
  | _ => none

def uintn : PrintArgument → Option UINTN
  | word value => some value
  | _ => none

def string? : PrintArgument → Option (Option (NulString CHAR16))
  | string s => some s
  | _ => none

def ascii? : PrintArgument → Option (Option (NulString CHAR8))
  | ascii s => some s
  | _ => none

def guid? : PrintArgument → Option (Option GUID)
  | guid g => some g
  | _ => none

def time? : PrintArgument → Option (Option TIME)
  | time t => some t
  | _ => none

end PrintArgument

/-- The next argument, as a type. -/
def VA_ARG {β : Type} (read : PrintArgument → Option β) :
    List PrintArgument → Option (β × List PrintArgument)
  | [] => none
  | a :: Marker => (read a).map fun value => (value, Marker)

-- ---------------------------------------------------------------------------
-- Flags, width and precision
-- ---------------------------------------------------------------------------

/-- The flag bits of one conversion. -/
structure PrintFlags where
  LEFT_JUSTIFY : Bool := false
  PREFIX_SIGN : Bool := false
  PREFIX_BLANK : Bool := false
  COMMA_TYPE : Bool := false
  LONG_TYPE : Bool := false
  PREFIX_ZERO : Bool := false
  RADIX_HEX : Bool := false
  PAD_TO_WIDTH : Bool := false
  PRECISION : Bool := false
  ARGUMENT_REVERSED : Bool := false
  UNSIGNED_TYPE : Bool := false

structure FormatSpec where
  Flags : PrintFlags := {}
  Width : UINTN := 0
  Precision : UINTN := 1

def Radix.decimal : Radix :=
  ⟨10, Nat.le_of_ble_eq_true rfl, Nat.le_of_ble_eq_true rfl⟩

def Radix.hex : Radix := ⟨16, Nat.le_of_ble_eq_true rfl, Nat.le_of_ble_eq_true rfl⟩

/-- A character constant of the source. -/
def chr (c : Char) : CHAR16 := UInt16.ofNat c.toNat

def isDigit (c : CHAR16) : Bool := chr '0' ≤ c && c ≤ chr '9'

/-- The loop over the digits of a number, up to the character behind them. -/
def readNumber : List CHAR16 → UINTN → UINTN × List CHAR16
  | [], Count => (Count, [])
  | c :: Format, Count =>
    if isDigit c then readNumber Format (Count * 10 + c.toUInt64 - 0x30) else (Count, c :: Format)

theorem length_readNumber_le (Format : List CHAR16) (Count : UINTN) :
    (readNumber Format Count).2.length ≤ Format.length := by
  induction Format generalizing Count with
  | nil => exact le_refl _
  | cons c Format ih =>
    rw [readNumber]
    split_ifs
    · exact Nat.le_succ_of_le (ih _)
    · exact le_refl _

theorem length_readNumber_lt {c : CHAR16} (hDigit : isDigit c = true) (Format : List CHAR16)
    (Count : UINTN) : (readNumber (c :: Format) Count).2.length < (c :: Format).length := by
  rw [readNumber, if_pos hDigit]
  exact Nat.lt_succ_of_le (length_readNumber_le _ _)

/-- "Parse Flags and Width": up to the character that names the conversion, with the rest of
the format behind it. -/
def parseFlags (Format : List CHAR16) (s : FormatSpec) (Marker : List PrintArgument) :
    Option (FormatSpec × CHAR16 × List CHAR16 × List PrintArgument) :=
  match Format with
  -- the terminator ends the format
  | [] => some ({ s with Precision := 0 }, 0, [], Marker)
  | c :: Format =>
    if c = chr '.' then parseFlags Format { s with Flags.PRECISION := true } Marker
    else if c = chr '-' then parseFlags Format { s with Flags.LEFT_JUSTIFY := true } Marker
    else if c = chr '+' then parseFlags Format { s with Flags.PREFIX_SIGN := true } Marker
    else if c = chr ' ' then parseFlags Format { s with Flags.PREFIX_BLANK := true } Marker
    else if c = chr ',' then parseFlags Format { s with Flags.COMMA_TYPE := true } Marker
    else if c = chr 'L' ∨ c = chr 'l' then
      parseFlags Format { s with Flags.LONG_TYPE := true } Marker
    else if c = chr '*' then
      match VA_ARG PrintArgument.uintn Marker with
      | none => none
      | some (value, Marker) =>
        if s.Flags.PRECISION then parseFlags Format { s with Precision := value } Marker
        else parseFlags Format { s with Flags.PAD_TO_WIDTH := true, Width := value } Marker
    else if _hDigit : isDigit c = true then
      let Count := (readNumber (c :: Format) 0).1
      if s.Flags.PRECISION then
        parseFlags (readNumber (c :: Format) 0).2 { s with Precision := Count } Marker
      else
        parseFlags (readNumber (c :: Format) 0).2
          { s with
            Flags.PREFIX_ZERO := s.Flags.PREFIX_ZERO || decide (c = chr '0')
            Flags.PAD_TO_WIDTH := true
            Width := Count } Marker
    else some (s, c, Format, Marker)
termination_by Format.length
decreasing_by
  all_goals first
    | exact length_readNumber_lt _hDigit _ _
    | exact Nat.lt_succ_self _

-- ---------------------------------------------------------------------------
-- Conversions
-- ---------------------------------------------------------------------------

/-- The locals when the type of a conversion is handled. `ArgumentString` is the list of the
characters in the order they are read, up to the terminator; 0 stands for no `Prefix`. -/
structure Piece where
  Flags : PrintFlags := {}
  Width : UINTN := 0
  Precision : UINTN := 1
  Prefix : CHAR8 := 0
  Comma : Bool := false
  ZeroPad : Bool := false
  Count : UINTN := 0
  Digits : UINTN := 0
  ArgumentString : List UINTN

/-- "Flag space, +, 0, L & l are invalid for type p." -/
def pointerFlags (F : PrintFlags) : PrintFlags :=
  { F with PREFIX_BLANK := false, PREFIX_SIGN := false, PREFIX_ZERO := false, LONG_TYPE := true }

/-- The cases `p`, `X`, `x` and `u` down to `d`, each running into the next. -/
def numberFlags (FormatCharacter : CHAR16) (F : PrintFlags) : PrintFlags :=
  let F := if FormatCharacter = chr 'p' then pointerFlags F else F
  let F := if FormatCharacter = chr 'p' ∨ FormatCharacter = chr 'X' then
    { F with PREFIX_ZERO := true } else F
  let F := if FormatCharacter = chr 'p' ∨ FormatCharacter = chr 'X' ∨ FormatCharacter = chr 'x' then
    { F with RADIX_HEX := true } else F
  if FormatCharacter ≠ chr 'd' ∧ F.RADIX_HEX = false then
    { F with PREFIX_SIGN := false, UNSIGNED_TYPE := true } else F

/-- `(unsigned int)Value` -/
def unsignedInt (Value : Int64) : Int64 := Value.toUInt64.toUInt32.toUInt64.toInt64

/-- "Convert Value to a reversed string": everything of a number but the padding. -/
def convertNumber (s : FormatSpec) (Prefix : CHAR8) (Comma : Bool) (Value : Int64) (radix : Radix) :
    Piece :=
  let ValueBuffer := BasePrintLibValueToString Value.toUInt64.toNat radix
  let Length := if Value = 0 ∧ s.Precision = 0 then 0 else ValueBuffer.length
  let Count := if Comma ∧ Length ≠ 0 then Length + (Length - 1) / 3 else Length
  let Precision := if Prefix ≠ 0 then s.Precision + 1 else s.Precision
  let F := s.Flags
  { Flags := { F with ARGUMENT_REVERSED := true }
    Width := s.Width
    Precision :=
      if F.PREFIX_ZERO ∧ !F.LEFT_JUSTIFY ∧ F.PAD_TO_WIDTH ∧ !F.PRECISION then s.Width else Precision
    Prefix := Prefix
    Comma := Comma
    ZeroPad := true
    Count := UInt64.ofNat (if Prefix ≠ 0 then Count + 1 else Count)
    Digits := UInt64.ofNat (firstDigits Length)
    ArgumentString := (ValueBuffer.take Length).reverse.map UInt8.toUInt64 }

/-- The types `p`, `X`, `x`, `u` and `d`, from the value on. -/
def numberPiece (s : FormatSpec) (Value : Int64) : Piece :=
  let F := s.Flags
  let Prefix := if F.PREFIX_SIGN then 0x2B else if F.PREFIX_BLANK then 0x20 else 0
  if F.RADIX_HEX = false then
    let s := if F.COMMA_TYPE then
      { s with Flags.PREFIX_ZERO := false, Precision := 1 } else s
    if Value < 0 ∧ F.UNSIGNED_TYPE = false then
      convertNumber { s with Flags.PREFIX_SIGN := true } 0x2D F.COMMA_TYPE (-Value) Radix.decimal
    else if F.UNSIGNED_TYPE ∧ F.LONG_TYPE = false then
      convertNumber s Prefix F.COMMA_TYPE (unsignedInt Value) Radix.decimal
    else convertNumber s Prefix F.COMMA_TYPE Value Radix.decimal
  else if F.LONG_TYPE = false ∧ Value < 0 then
    convertNumber s Prefix false (unsignedInt Value) Radix.hex
  else convertNumber s Prefix false Value Radix.hex

/-- A conversion that copies characters. -/
def stringPiece (s : FormatSpec) (ArgumentString : List UINTN) : Piece :=
  { Flags := s.Flags, Width := s.Width, Precision := s.Precision, ArgumentString := ArgumentString }

/-- A character of its own, as the string that starts at its address. -/
def characterString (Character : UINTN) : List UINTN := if Character = 0 then [] else [Character]

/-- The characters of a literal of the source. -/
def literal (s : String) : List UINTN := (L s).map UInt16.toUInt64

/-- A carriage return or a line feed, with the one of the pair behind it: what is printed for
it and the rest of the format. -/
def newline (FormatCharacter : CHAR16) (Format : List CHAR16) : List UINTN × List CHAR16 :=
  if FormatCharacter = chr '\r' then
    match Format with
    | c :: rest => if c = chr '\n' then (literal "\r\n", rest) else (literal "\r", Format)
    | [] => (literal "\r", Format)
  else
    match Format with
    | c :: rest => if c = chr '\r' then (literal "\r\n", rest) else (literal "\r\n", Format)
    | [] => (literal "\r\n", Format)

def mWarningString : List String :=
  ["Success", "Warning Unknown Glyph", "Warning Delete Failure", "Warning Write Failure",
    "Warning Buffer Too Small", "Warning Stale Data", "Warning File System",
    "Warning Reset Required"]

def mErrorString : List String :=
  ["Load Error", "Invalid Parameter", "Unsupported", "Bad Buffer Size", "Buffer Too Small",
    "Not Ready", "Device Error", "Write Protected", "Out of Resources", "Volume Corrupt",
    "Volume Full", "No Media", "Media changed", "Not Found", "Access Denied", "No Response",
    "No mapping", "Time out", "Not started", "Already started", "Aborted", "ICMP Error",
    "TFTP Error", "Protocol Error", "Incompatible Version", "Security Violation", "CRC Error",
    "End of Media", "Reserved (29)", "Reserved (30)", "End of File", "Invalid Language",
    "Compromised Data", "IP Address Conflict", "HTTP Error"]

/-- The text of a status, `none` for one that has none. -/
def statusString (Status : RETURN_STATUS) : Option String :=
  if EFI_ERROR Status then
    if Status &&& ~~~ MAX_BIT = 0 then none
    else mErrorString[(Status &&& ~~~ MAX_BIT).toNat - 1]?
  else mWarningString[Status.toNat]?

def word8 (v : UINT8) : PrintArgument := .word v.toUInt64
def word16 (v : UINT16) : PrintArgument := .word v.toUInt64

/-- The format and the arguments of the call that prints a `GUID`. -/
def guidCall (g : GUID) : List CHAR16 × List PrintArgument :=
  (L "%08x-%04x-%04x-%02x%02x-%02x%02x%02x%02x%02x%02x",
    [.word g.Data1.toUInt64, word16 g.Data2, word16 g.Data3] ++ g.Data4.toList.map word8)

/-- The format and the arguments of the call that prints a `TIME`. -/
def timeCall (t : TIME) : List CHAR16 × List PrintArgument :=
  (L "%02d/%02d/%04d  %02d:%02d",
    [word8 t.Month, word8 t.Day, word16 t.Year, word8 t.Hour, word8 t.Minute])

def statusCall (Status : RETURN_STATUS) : List CHAR16 × List PrintArgument :=
  (L "%08X", [.word Status])

/-- "Set the default precision for string to be zero if not specified." -/
def stringSpec (s : FormatSpec) : FormatSpec :=
  { s with Precision := if s.Flags.PRECISION then s.Precision else 0 }

/-- The rest of the format behind a character: a carriage return and a line feed are taken
together. -/
def behind (FormatCharacter : CHAR16) (Format : List CHAR16) : List CHAR16 :=
  if FormatCharacter = chr '\r' ∨ FormatCharacter = chr '\n' then (newline FormatCharacter Format).2
  else Format

/-- A character that is printed as it is, or a line break. -/
def plainString (FormatCharacter : CHAR16) (Format : List CHAR16) : List UINTN :=
  if FormatCharacter = chr '\r' ∨ FormatCharacter = chr '\n' then (newline FormatCharacter Format).1
  else characterString FormatCharacter.toUInt64

/-- "Handle each argument type". `nested` is what a call of `BasePrintLibSPrint` leaves in
`ValueBuffer`. -/
def convert (nested : List CHAR16 × List PrintArgument → Option (List CHAR8)) (s : FormatSpec)
    (FormatCharacter : CHAR16) (Format : List CHAR16) (Marker : List PrintArgument) :
    Option (Piece × List PrintArgument) := do
  if FormatCharacter = chr 'p' ∨ FormatCharacter = chr 'X' ∨ FormatCharacter = chr 'x' ∨
      FormatCharacter = chr 'u' ∨ FormatCharacter = chr 'd' then
    let F := numberFlags FormatCharacter s.Flags
    let (Value, Marker) ← VA_ARG (if F.LONG_TYPE then PrintArgument.int64 else PrintArgument.int)
      Marker
    return (numberPiece { s with Flags := F } Value, Marker)
  else if FormatCharacter = chr 's' ∨ FormatCharacter = chr 'S' then
    let (ArgumentString, Marker) ← VA_ARG PrintArgument.string? Marker
    let chars := ArgumentString.elim (literal "<null string>") fun t => t.chars.map UInt16.toUInt64
    return (stringPiece (stringSpec s) chars, Marker)
  else if FormatCharacter = chr 'a' then
    let (ArgumentString, Marker) ← VA_ARG PrintArgument.ascii? Marker
    let chars := ArgumentString.elim (literal "<null string>") fun t => t.chars.map UInt8.toUInt64
    return (stringPiece (stringSpec s) chars, Marker)
  else if FormatCharacter = chr 'c' then
    let (Character, Marker) ← VA_ARG PrintArgument.uintn Marker
    return (stringPiece s (characterString (Character &&& 0xffff)), Marker)
  else if FormatCharacter = chr 'g' then
    let (TmpGuid, Marker) ← VA_ARG PrintArgument.guid? Marker
    match TmpGuid with
    | none => return (stringPiece s (literal "<null guid>"), Marker)
    | some g => return (stringPiece s ((← nested (guidCall g)).map UInt8.toUInt64), Marker)
  else if FormatCharacter = chr 't' then
    let (TmpTime, Marker) ← VA_ARG PrintArgument.time? Marker
    match TmpTime with
    | none => return (stringPiece s (literal "<null time>"), Marker)
    | some t => return (stringPiece s ((← nested (timeCall t)).map UInt8.toUInt64), Marker)
  else if FormatCharacter = chr 'r' then
    let (Status, Marker) ← VA_ARG PrintArgument.uintn Marker
    match statusString Status with
    | some text => return (stringPiece s (literal text), Marker)
    | none => return (stringPiece s ((← nested (statusCall Status)).map UInt8.toUInt64), Marker)
  else
    -- "if the type is '%' or unknown, then print it to the screen"
    return (stringPiece s (plainString FormatCharacter Format), Marker)

/-- One item of the format that starts with `FormatCharacter`. -/
def nextPiece (nested : List CHAR16 × List PrintArgument → Option (List CHAR8))
    (FormatCharacter : CHAR16) (Format : List CHAR16) (Marker : List PrintArgument) :
    Option (Piece × List CHAR16 × List PrintArgument) := do
  if FormatCharacter = chr '%' then
    let (s, FormatCharacter, Format, Marker) ← parseFlags Format {} Marker
    let (p, Marker) ← convert nested s FormatCharacter Format Marker
    return (p, behind FormatCharacter Format, Marker)
  else return (stringPiece {} (plainString FormatCharacter Format), behind FormatCharacter Format, Marker)

-- ---------------------------------------------------------------------------
-- Output
-- ---------------------------------------------------------------------------

/-- Where a call prints to: the end of the buffer and the bytes of a character. -/
structure PrintTarget where
  EndBuffer : Nat
  BytesPerOutputCharacter : Nat
  COUNT_ONLY_NO_PRINT : Bool

/-- The buffer with the pointer into it, `none` for NULL, and `LengthToReturn`. -/
structure PrintOutput where
  Buffer : Option PrintState
  LengthToReturn : UINTN

/-- `LengthToReturn += Length * BytesPerOutputCharacter` and the call of
`BasePrintLibFillBuffer` behind it. -/
def put (t : PrintTarget) (Length Character : UINTN) (o : PrintOutput) : PrintOutput where
  LengthToReturn := o.LengthToReturn + Length * UInt64.ofNat t.BytesPerOutputCharacter
  Buffer :=
    if t.COUNT_ONLY_NO_PRINT then o.Buffer
    else o.Buffer.map fun s =>
      BasePrintLibFillBuffer s t.EndBuffer Length.toInt64.toInt Character t.BytesPerOutputCharacter

/-- "Compute the number of characters in ArgumentString": up to the terminator, or `Precision`
characters. -/
def countArgument (s : FormatSpec) : List UINTN → UINTN → UINTN
  | [], Count => Count
  | _ :: ArgumentString, Count =>
    if Count < s.Precision ∨ s.Flags.PRECISION = false then
      countArgument s ArgumentString (Count + 1)
    else Count

/-- The piece with its `Count`, and a `Precision` of at least that. -/
def Piece.counted (p : Piece) : Piece :=
  let Count := if p.Flags.ARGUMENT_REVERSED then p.Count
    else countArgument ⟨p.Flags, p.Width, p.Precision⟩ p.ArgumentString 0
  { p with Count := Count, Precision := if p.Precision < Count then Count else p.Precision }

/-- "Copy the string into the output buffer". -/
def copyArgument (t : PrintTarget) (Comma : Bool) (Count : UINTN) :
    List UINTN → UINTN → UINTN → PrintOutput → PrintOutput
  | [], _, _, o => o
  | c :: ArgumentString, Index, Digits, o =>
    if Index < Count then
      let o := put t 1 c o
      if Comma then
        if Digits + 1 = 3 then
          let o := if Index + 2 < Count then put t 1 0x2C o else o
          copyArgument t Comma Count ArgumentString (Index + 2) 0 o
        else copyArgument t Comma Count ArgumentString (Index + 1) (Digits + 1) o
      else copyArgument t Comma Count ArgumentString (Index + 1) Digits o
    else o

def putPrefix (t : PrintTarget) (p : Piece) (o : PrintOutput) : PrintOutput :=
  if p.Prefix ≠ 0 then put t 1 p.Prefix.toUInt64 o else o

/-- What is done with a piece behind the switch. -/
def printPiece (t : PrintTarget) (p : Piece) (o : PrintOutput) : PrintOutput :=
  let p := p.counted
  let o := if p.Flags.PAD_TO_WIDTH ∧ !p.Flags.LEFT_JUSTIFY then
    put t (p.Width - p.Precision) 0x20 o else o
  let o := if p.ZeroPad then put t (p.Precision - p.Count) 0x30 (putPrefix t p o)
    else putPrefix t p (put t (p.Precision - p.Count) 0x20 o)
  let o := copyArgument t p.Comma p.Count p.ArgumentString (if p.Prefix ≠ 0 then 1 else 0) p.Digits o
  if p.Flags.PAD_TO_WIDTH ∧ p.Flags.LEFT_JUSTIFY then put t (p.Width - p.Precision) 0x20 o else o

/-- `(Buffer != NULL) && (Buffer >= EndBuffer)` -/
def isFull (t : PrintTarget) (o : PrintOutput) : Bool :=
  o.Buffer.any fun s => t.EndBuffer ≤ s.Buffer

section

variable (nested : List CHAR16 × List PrintArgument → Option (List CHAR8))

theorem length_behind_le (FormatCharacter : CHAR16) (Format : List CHAR16) :
    (behind FormatCharacter Format).length ≤ Format.length := by
  unfold behind newline
  cases Format with
  | nil => split_ifs <;> exact le_refl _
  | cons c rest =>
    dsimp only
    split_ifs <;> simp

theorem length_parseFlags_le {Format Format' : List CHAR16} {s s' : FormatSpec} {c : CHAR16}
    {Marker Marker' : List PrintArgument}
    (h : parseFlags Format s Marker = some (s', c, Format', Marker')) :
    Format'.length ≤ Format.length := by
  fun_induction parseFlags Format s Marker with
  | case1 =>
    cases h
    exact le_refl _
  | case8 => cases h
  | case11 | case12 =>
    rename_i ih
    exact (ih h).trans (length_readNumber_lt (by assumption) _ _).le
  | case13 =>
    cases h
    exact Nat.le_succ _
  | _ =>
    rename_i ih
    exact Nat.le_succ_of_le (ih h)

theorem length_nextPiece_le {c : CHAR16} {Format Format' : List CHAR16}
    {Marker Marker' : List PrintArgument} {p : Piece}
    (h : nextPiece nested c Format Marker = some (p, Format', Marker')) :
    Format'.length ≤ Format.length := by
  unfold nextPiece at h
  split_ifs at h
  · simp only [Option.bind_eq_bind, Option.bind_eq_some_iff] at h
    obtain ⟨⟨s, c', Format₁, Marker₁⟩, hParse, ⟨p', Marker₂⟩, -, hBehind⟩ := h
    cases hBehind
    exact (length_behind_le c' Format₁).trans (length_parseFlags_le hParse)
  · cases h
    exact length_behind_le c Format

/-- The loop over the format. -/
def printLoop (t : PrintTarget) (Format : List CHAR16) (Marker : List PrintArgument)
    (o : PrintOutput) : Option PrintOutput :=
  match Format with
  | [] => some o
  | c :: Format =>
    if isFull t o then some o
    else match _h : nextPiece nested c Format Marker with
      | none => none
      | some (p, Format', Marker') => printLoop t Format' Marker' (printPiece t p o)
termination_by Format.length
decreasing_by exact Nat.lt_succ_of_le (length_nextPiece_le nested _h)

/-- The items of a format with its arguments. -/
def pieces (Format : List CHAR16) (Marker : List PrintArgument) : Option (List Piece) :=
  match Format with
  | [] => some []
  | c :: Format =>
    match _h : nextPiece nested c Format Marker with
    | none => none
    | some (p, Format', Marker') => (pieces Format' Marker').map (p :: ·)
termination_by Format.length
decreasing_by exact Nat.lt_succ_of_le (length_nextPiece_le nested _h)

end

/-- Width of the output's and the format's characters, and whether to count only. -/
structure PrintMode where
  OUTPUT_UNICODE : Bool
  FORMAT_UNICODE : Bool
  COUNT_ONLY_NO_PRINT : Bool

/-- `BytesPerOutputCharacter` -/
def PrintMode.increment (mode : PrintMode) : Nat := if mode.OUTPUT_UNICODE then 2 else 1

/-- `BasePrintLibSPrintMarker`, for a format that is not null: the value returned and what it
leaves of the buffer. -/
def BasePrintLibSPrintMarker (nested : List CHAR16 × List PrintArgument → Option (List CHAR8))
    (Buffer : Option (Region UINT8)) (BufferSize : UINTN) (mode : PrintMode)
    (Format : List CHAR16) (Marker : List PrintArgument) :
    Option (UINTN × Option (Region UINT8)) :=
  if 0 < BufferSize ∧ mode.COUNT_ONLY_NO_PRINT = false ∧ Buffer.isNone then some (0, Buffer)
  else if BufferSize > (if mode.OUTPUT_UNICODE then RSIZE_MAX else ASCII_RSIZE_MAX) then
    some (0, Buffer)
  else if Format.length > (if mode.FORMAT_UNICODE then RSIZE_MAX else ASCII_RSIZE_MAX).toNat then
    some (0, Buffer)
  else if mode.COUNT_ONLY_NO_PRINT = false ∧ BufferSize = 0 then some (0, Buffer)
  else
    let Increment := mode.increment
    -- "We can run without a Buffer for counting only."
    let block := if BufferSize = 0 then none else Buffer
    let t : PrintTarget := ⟨(BufferSize.toNat - 1) * Increment, Increment, mode.COUNT_ONLY_NO_PRINT⟩
    (printLoop nested t Format Marker ⟨block.map fun memory => ⟨memory, 0⟩, 0⟩).map fun o =>
      if mode.COUNT_ONLY_NO_PRINT then (o.LengthToReturn / UInt64.ofNat Increment, Buffer)
      else match o.Buffer with
        | none => (0, Buffer)
        | some s => (UInt64.ofNat (s.Buffer / Increment),
          some (BasePrintLibFillBuffer s (t.EndBuffer + Increment) 1 0 Increment).memory)

/-- The string in `ValueBuffer` when a call inside a call has printed into it. What the array
held before does not matter. -/
def nestedWith (nested : List CHAR16 × List PrintArgument → Option (List CHAR8))
    (call : List CHAR16 × List PrintArgument) : Option (List CHAR8) :=
  (BasePrintLibSPrintMarker nested (some (Region.fresh fun _ => 0)) MAXIMUM_VALUE_CHARACTERS
    ⟨false, false, false⟩ call.1 call.2).bind fun r => r.2.map fun Buffer =>
      ((List.range MAXIMUM_VALUE_CHARACTERS.toNat).map Buffer.cells).takeWhile (· ≠ 0)

/-- `BasePrintLibSPrint`, called for a GUID, a time or a status. These calls print numbers only,
so there is no third level. -/
def BasePrintLibSPrint : List CHAR16 × List PrintArgument → Option (List CHAR8) :=
  nestedWith fun _ => none

/-- `UnicodeSPrint` -/
def UnicodeSPrint (StartOfBuffer : Option (Region UINT8)) (BufferSize : UINTN)
    (FormatString : List CHAR16) (Marker : List PrintArgument) :
    Option (UINTN × Option (Region UINT8)) :=
  BasePrintLibSPrintMarker BasePrintLibSPrint StartOfBuffer (BufferSize >>> 1) ⟨true, true, false⟩
    FormatString Marker

def SPrintLength (FormatString : List CHAR16) (Marker : List PrintArgument) : Option UINTN :=
  (BasePrintLibSPrintMarker BasePrintLibSPrint none 0 ⟨true, true, true⟩ FormatString Marker).map
    Prod.fst

-- ---------------------------------------------------------------------------
-- The text of an item
-- ---------------------------------------------------------------------------

/-- How many characters a `Length` stands for: none when it is negative as an `INTN`. -/
def fillCount (Length : UINTN) : Nat := Length.toInt64.toInt.toNat

/-- The characters of an argument that are printed, with the commas between them. -/
def copiedText (Comma : Bool) (Count : UINTN) : List UINTN → UINTN → UINTN → List UINTN
  | [], _, _ => []
  | c :: ArgumentString, Index, Digits =>
    if Index < Count then
      c ::
        if Comma then
          if Digits + 1 = 3 then
            (if Index + 2 < Count then [0x2C] else []) ++
              copiedText Comma Count ArgumentString (Index + 2) 0
          else copiedText Comma Count ArgumentString (Index + 1) (Digits + 1)
        else copiedText Comma Count ArgumentString (Index + 1) Digits
    else []

namespace Piece

def sign (p : Piece) : List UINTN := if p.Prefix ≠ 0 then [p.Prefix.toUInt64] else []

/-- The argument's own characters. -/
def copied (p : Piece) : List UINTN :=
  copiedText p.Comma p.Count p.ArgumentString (if p.Prefix ≠ 0 then 1 else 0) p.Digits

/-- What fills up to the precision. -/
def filling (p : Piece) : List UINTN :=
  List.replicate (fillCount (p.Precision - p.Count)) (if p.ZeroPad then 0x30 else 0x20)

def body (p : Piece) : List UINTN :=
  (if p.ZeroPad then p.sign ++ p.filling else p.filling ++ p.sign) ++ p.copied

/-- What fills up to the width. -/
def padding (p : Piece) : List UINTN := List.replicate (fillCount (p.Width - p.Precision)) 0x20

/-- The body in its field. -/
def field (p : Piece) : List UINTN :=
  if p.Flags.PAD_TO_WIDTH then
    if p.Flags.LEFT_JUSTIFY then p.body ++ p.padding else p.padding ++ p.body
  else p.body

/-- What a piece is printed as. -/
def text (p : Piece) : List UINTN := p.counted.field

/-- What a counting call adds up for a piece whose characters are counted. -/
def size (p : Piece) : UINTN :=
  (if p.Flags.PAD_TO_WIDTH then p.Width - p.Precision else 0) + UInt64.ofNat p.sign.length +
    (p.Precision - p.Count) + UInt64.ofNat p.copied.length

def measured (p : Piece) : UINTN := p.counted.size

end Piece

section

variable {t : PrintTarget} {o : PrintOutput}

/-- The buffer behind some characters more. -/
def PrintOutput.shows (o : PrintOutput) (t : PrintTarget) (cs : List UINTN) : Option PrintState :=
  o.Buffer.map (emit t.EndBuffer t.BytesPerOutputCharacter cs)

theorem put_shows (hPrint : t.COUNT_ONLY_NO_PRINT = false) (Length c : UINTN) (o : PrintOutput) :
    (put t Length c o).Buffer = o.shows t (List.replicate (fillCount Length) c) := by
  rw [put, hPrint, PrintOutput.shows]
  dsimp only
  rw [if_neg Bool.false_ne_true]
  congr 1
  funext s
  rw [BasePrintLibFillBuffer, fillBuffer_eq_emit]
  rfl

theorem shows_shows {o' : PrintOutput} {cs cs' : List UINTN} (h : o'.Buffer = o.shows t cs) :
    o'.shows t cs' = o.shows t (cs ++ cs') := by
  rw [PrintOutput.shows, h, PrintOutput.shows, PrintOutput.shows, Option.map_map]
  congr 1
  funext s
  exact (emit_append cs cs' s).symm

theorem shows_nil (o : PrintOutput) : o.shows t [] = o.Buffer := by
  exact Option.map_id'

/-- One character. -/
theorem putOne_shows (hPrint : t.COUNT_ONLY_NO_PRINT = false) (c : UINTN) (o : PrintOutput) :
    (put t 1 c o).Buffer = o.shows t [c] := put_shows hPrint 1 c o

theorem copyArgument_shows (hPrint : t.COUNT_ONLY_NO_PRINT = false) (Comma : Bool) (Count : UINTN)
    (cs : List UINTN) (Index Digits : UINTN) (o : PrintOutput) :
    (copyArgument t Comma Count cs Index Digits o).Buffer =
      o.shows t (copiedText Comma Count cs Index Digits) := by
  induction cs generalizing Index Digits o with
  | nil => rw [copyArgument, copiedText, shows_nil]
  | cons c cs ih =>
    rw [copyArgument, copiedText]
    split_ifs with hMore hComma hThree hRest
    · rw [ih, shows_shows (putOne_shows hPrint _ _), shows_shows (putOne_shows hPrint _ _)]
      simp
    · rw [ih, shows_shows (putOne_shows hPrint _ _)]
      simp
    · rw [ih, shows_shows (putOne_shows hPrint _ _)]
      simp
    · rw [ih, shows_shows (putOne_shows hPrint _ _)]
      simp
    · rw [shows_nil]

theorem putPrefix_shows (hPrint : t.COUNT_ONLY_NO_PRINT = false) (p : Piece) (o : PrintOutput) :
    (putPrefix t p o).Buffer = o.shows t p.sign := by
  unfold putPrefix Piece.sign
  split_ifs
  · exact putOne_shows hPrint _ _
  · rw [shows_nil]

theorem putWhen_shows (hPrint : t.COUNT_ONLY_NO_PRINT = false) (b : Bool) (Length c : UINTN)
    (o : PrintOutput) : (if b then put t Length c o else o).Buffer =
      o.shows t (if b then List.replicate (fillCount Length) c else []) := by
  cases b with
  | true => exact put_shows hPrint Length c o
  | false => exact (shows_nil o).symm

/-- Sign and filling, in either order. -/
theorem putFilling_shows (hPrint : t.COUNT_ONLY_NO_PRINT = false) (p : Piece) (o : PrintOutput) :
    (if p.ZeroPad then put t (p.Precision - p.Count) 0x30 (putPrefix t p o)
      else putPrefix t p (put t (p.Precision - p.Count) 0x20 o)).Buffer =
      o.shows t (if p.ZeroPad then p.sign ++ p.filling else p.filling ++ p.sign) := by
  unfold Piece.filling
  cases p.ZeroPad with
  | true =>
    simp only [if_true]
    rw [put_shows hPrint, shows_shows (putPrefix_shows hPrint p o)]
  | false =>
    simp only [Bool.false_eq_true, if_false]
    rw [putPrefix_shows hPrint, shows_shows (put_shows hPrint _ _ o)]

/-- **A piece is printed as its text.** -/
theorem printPiece_shows (hPrint : t.COUNT_ONLY_NO_PRINT = false) (p : Piece) (o : PrintOutput) :
    (printPiece t p o).Buffer = o.shows t p.text := by
  unfold printPiece Piece.text
  generalize p.counted = p
  dsimp only
  have hText : p.field = (if p.Flags.PAD_TO_WIDTH && !p.Flags.LEFT_JUSTIFY then p.padding else []) ++
      (if p.ZeroPad then p.sign ++ p.filling else p.filling ++ p.sign) ++ p.copied ++
      (if p.Flags.PAD_TO_WIDTH && p.Flags.LEFT_JUSTIFY then p.padding else []) := by
    unfold Piece.field Piece.body
    cases p.Flags.PAD_TO_WIDTH <;> cases p.Flags.LEFT_JUSTIFY <;> simp
  simp only [List.append_assoc] at hText
  simp only [← Bool.and_eq_true]
  rw [putWhen_shows hPrint, shows_shows (copyArgument_shows hPrint _ _ _ _ _ _),
    shows_shows (putFilling_shows hPrint p _), shows_shows (putWhen_shows hPrint _ _ _ o), hText]
  rfl

theorem put_length (Length c : UINTN) (o : PrintOutput) : (put t Length c o).LengthToReturn =
    o.LengthToReturn + Length * UInt64.ofNat t.BytesPerOutputCharacter := rfl

theorem copyArgument_length (Comma : Bool) (Count : UINTN) (cs : List UINTN) (Index Digits : UINTN)
    (o : PrintOutput) : (copyArgument t Comma Count cs Index Digits o).LengthToReturn =
      o.LengthToReturn + UInt64.ofNat (copiedText Comma Count cs Index Digits).length *
        UInt64.ofNat t.BytesPerOutputCharacter := by
  induction cs generalizing Index Digits o with
  | nil => simp [copyArgument, copiedText]
  | cons c cs ih =>
    rw [copyArgument, copiedText]
    split_ifs with hMore hComma hThree hRest
    · rw [ih, put_length, put_length]
      simp only [List.length_cons, List.length_append, List.length_nil, UInt64.ofNat_add]
      grind
    · rw [ih, put_length]
      simp only [List.length_cons, List.nil_append, UInt64.ofNat_add]
      grind
    · rw [ih, put_length]
      simp only [List.length_cons, UInt64.ofNat_add]
      grind
    · rw [ih, put_length]
      simp only [List.length_cons, UInt64.ofNat_add]
      grind
    · simp

theorem putPrefix_length (p : Piece) (o : PrintOutput) : (putPrefix t p o).LengthToReturn =
    o.LengthToReturn + UInt64.ofNat p.sign.length * UInt64.ofNat t.BytesPerOutputCharacter := by
  unfold putPrefix Piece.sign
  split_ifs
  · rw [put_length]
    rfl
  · simp

/-- **A piece is counted as its size.** -/
theorem printPiece_length (p : Piece) (o : PrintOutput) : (printPiece t p o).LengthToReturn =
    o.LengthToReturn + p.measured * UInt64.ofNat t.BytesPerOutputCharacter := by
  unfold printPiece Piece.measured
  generalize p.counted = p
  unfold Piece.size Piece.copied
  dsimp only
  cases p.Flags.PAD_TO_WIDTH <;> cases p.Flags.LEFT_JUSTIFY <;> cases p.ZeroPad
  all_goals simp only [Bool.not_true, Bool.not_false, Bool.false_eq_true, and_self, and_false,
    false_and, if_true, if_false, put_length, copyArgument_length, putPrefix_length]
  all_goals grind

theorem put_keeps (hCount : t.COUNT_ONLY_NO_PRINT = true) (Length c : UINTN) (o : PrintOutput) :
    (put t Length c o).Buffer = o.Buffer := by
  rw [put, hCount, if_pos rfl]

theorem copyArgument_keeps (hCount : t.COUNT_ONLY_NO_PRINT = true) (Comma : Bool) (Count : UINTN)
    (cs : List UINTN) (Index Digits : UINTN) (o : PrintOutput) :
    (copyArgument t Comma Count cs Index Digits o).Buffer = o.Buffer := by
  induction cs generalizing Index Digits o with
  | nil => rfl
  | cons c cs ih =>
    rw [copyArgument]
    split_ifs
    all_goals simp only [ih, put_keeps hCount]

/-- "Buffer will not be modified at all." -/
theorem printPiece_keeps (hCount : t.COUNT_ONLY_NO_PRINT = true) (p : Piece) (o : PrintOutput) :
    (printPiece t p o).Buffer = o.Buffer := by
  unfold printPiece putPrefix
  dsimp only
  split_ifs
  all_goals simp only [copyArgument_keeps hCount, put_keeps hCount]

end

-- ---------------------------------------------------------------------------
-- The whole format
-- ---------------------------------------------------------------------------

variable {nested : List CHAR16 × List PrintArgument → Option (List CHAR8)}

/-- A full buffer takes nothing more. -/
theorem shows_full {t : PrintTarget} {o : PrintOutput} (hFull : isFull t o = true)
    (cs : List UINTN) : o.shows t cs = o.Buffer := by
  obtain ⟨Buffer, LengthToReturn⟩ := o
  cases Buffer with
  | none => rfl
  | some s =>
    have hEnd : t.EndBuffer ≤ s.Buffer := by simpa [isFull] using hFull
    exact congrArg some (emit_full hEnd cs)

/-- One turn of the loop. -/
theorem printLoop_next {t : PrintTarget} {c : CHAR16} {Format Format' : List CHAR16}
    {Marker Marker' : List PrintArgument} {p : Piece} {o : PrintOutput}
    (hNext : nextPiece nested c Format Marker = some (p, Format', Marker'))
    (hFull : isFull t o = false) : printLoop nested t (c :: Format) Marker o =
      printLoop nested t Format' Marker' (printPiece t p o) := by
  rw [printLoop, hFull, if_neg Bool.false_ne_true]
  split
  · rename_i hNone
    rw [hNext] at hNone
    cases hNone
  · rename_i hSome
    rw [hNext] at hSome
    cases hSome
    rfl

/-- One item of a format. -/
theorem pieces_next {c : CHAR16} {Format Format' : List CHAR16}
    {Marker Marker' : List PrintArgument} {p : Piece}
    (hNext : nextPiece nested c Format Marker = some (p, Format', Marker')) :
    pieces nested (c :: Format) Marker = (pieces nested Format' Marker').map (p :: ·) := by
  rw [pieces]
  split
  · rename_i hNone
    rw [hNext] at hNone
    cases hNone
  · rename_i hSome
    rw [hNext] at hSome
    cases hSome
    rfl

/-- **The loop prints the items one after the other.** Where it stops early the rest would not
have fitted. -/
theorem printLoop_shows {t : PrintTarget} (hPrint : t.COUNT_ONLY_NO_PRINT = false)
    {Format : List CHAR16} {Marker : List PrintArgument} {ps : List Piece}
    (hPieces : pieces nested Format Marker = some ps) (o : PrintOutput) :
    ∃ o', printLoop nested t Format Marker o = some o' ∧
      o'.Buffer = o.shows t (ps.flatMap Piece.text) := by
  fun_induction pieces nested Format Marker generalizing o ps with
  | case1 Marker =>
    cases hPieces
    exact ⟨o, by rw [printLoop], (shows_nil o).symm⟩
  | case2 => cases hPieces
  | case3 Marker c Format p Format' Marker' hNext ih =>
    obtain ⟨rest, hRest, rfl⟩ := Option.map_eq_some_iff.mp hPieces
    cases hFull : isFull t o with
    | true => exact ⟨o, by rw [printLoop, hFull, if_pos rfl], (shows_full hFull _).symm⟩
    | false =>
      obtain ⟨o', hRun, hShows⟩ := ih hRest (printPiece t p o)
      refine ⟨o', ?_, ?_⟩
      · rw [printLoop_next hNext hFull, hRun]
      · rw [hShows, shows_shows (printPiece_shows hPrint p o), List.flatMap_cons]

/-- Without a buffer the loop adds up the sizes. -/
theorem printLoop_counts {t : PrintTarget} (hCount : t.COUNT_ONLY_NO_PRINT = true)
    {Format : List CHAR16} {Marker : List PrintArgument} {ps : List Piece}
    (hPieces : pieces nested Format Marker = some ps) {o : PrintOutput} (hNull : o.Buffer = none) :
    ∃ o', printLoop nested t Format Marker o = some o' ∧ o'.LengthToReturn =
      o.LengthToReturn + (ps.map Piece.measured).sum * UInt64.ofNat t.BytesPerOutputCharacter := by
  fun_induction pieces nested Format Marker generalizing o ps with
  | case1 Marker =>
    cases hPieces
    exact ⟨o, by rw [printLoop], by simp⟩
  | case2 => cases hPieces
  | case3 Marker c Format p Format' Marker' hNext ih =>
    obtain ⟨rest, hRest, rfl⟩ := Option.map_eq_some_iff.mp hPieces
    have hFull : isFull t o = false := by rw [isFull, hNull]; rfl
    obtain ⟨o', hRun, hLength⟩ := ih hRest ((printPiece_keeps hCount p o).trans hNull)
    refine ⟨o', by rw [printLoop_next hNext hFull, hRun], ?_⟩
    rw [hLength, printPiece_length, List.map_cons, List.sum_cons]
    grind

-- ---------------------------------------------------------------------------
-- Calls
-- ---------------------------------------------------------------------------

/-- What a buffer of `BufferSize` characters holds of a text. -/
def printedText (BufferSize : UINTN) (text : List UINTN) : List UINTN :=
  text.take (BufferSize.toNat - 1) ++ [0]

/--
**A printing call.** Whatever the size of the buffer, what is put down is the beginning of the
format's text, as far as it fits before the last character, and a terminator behind it. The
number of characters before the terminator is returned.
-/
theorem sprint_prints {mode : PrintMode} {BufferSize : UINTN} {Format : List CHAR16}
    {Marker : List PrintArgument} {ps : List Piece} (memory : Region UINT8)
    (hPieces : pieces nested Format Marker = some ps) (hPrint : mode.COUNT_ONLY_NO_PRINT = false)
    (hPos : 0 < BufferSize) (hSize : BufferSize.toNat ≤ 1000000)
    (hFormat : Format.length ≤ 1000000) :
    BasePrintLibSPrintMarker nested (some memory) BufferSize mode Format Marker =
      some (UInt64.ofNat (min (BufferSize.toNat - 1) (ps.flatMap Piece.text).length),
        some (memory.storeAll (cursor 0 ((printedText BufferSize (ps.flatMap Piece.text)).flatMap
          (characterBytes mode.increment))))) := by
  have hI : mode.increment = 1 ∨ mode.increment = 2 := by
    unfold PrintMode.increment
    split_ifs <;> simp
  have hIPos : 0 < mode.increment := by omega
  have hMax : ∀ b : Bool, (if b then RSIZE_MAX else ASCII_RSIZE_MAX).toNat = 1000000 := by decide
  have hNe : BufferSize ≠ 0 := fun hZero => by simp [hZero] at hPos
  let text := ps.flatMap Piece.text
  let n := BufferSize.toNat - 1
  have hTake : (text.take n).length ≤ n := List.length_take_le _ _
  have hFits := Nat.mul_le_mul_right mode.increment hTake
  obtain ⟨o, hRun, hShows⟩ := printLoop_shows
    (t := ⟨n * mode.increment, mode.increment, mode.COUNT_ONLY_NO_PRINT⟩) hPrint hPieces
    ⟨some ⟨memory, 0⟩, 0⟩
  have hState : o.Buffer = some ⟨memory.storeAll (cursor 0
      ((text.take n).flatMap (characterBytes mode.increment))),
      (text.take n).length * mode.increment⟩ := by
    rw [hShows, PrintOutput.shows, Option.map_some, emit_take hI _ n (Nat.zero_add _),
      emit_room hI _ _ ((Nat.zero_add _).le.trans hFits), Nat.zero_add]
  have hEnd : BasePrintLibFillBuffer ⟨memory.storeAll (cursor 0
      ((text.take n).flatMap (characterBytes mode.increment))),
      (text.take n).length * mode.increment⟩ (n * mode.increment + mode.increment) 1 0
        mode.increment = ⟨memory.storeAll (cursor 0 ((text.take n ++ [0]).flatMap
          (characterBytes mode.increment))), (text.take n).length * mode.increment +
          mode.increment⟩ := by
    have hRoom : (text.take n).length * mode.increment + [(0 : UINTN)].length * mode.increment ≤
        n * mode.increment + mode.increment := by
      rw [List.length_singleton, Nat.one_mul]
      omega
    rw [fillOne_eq_emit, emit_room hI _ _ hRoom, List.flatMap_append,
      cursor_append, storeAll_append, length_flatMap_characterBytes hI, Nat.zero_add]
    simp
  unfold BasePrintLibSPrintMarker
  rw [if_neg (by simp), if_neg, if_neg, if_neg (by simp [hNe])]
  · simp only [if_neg hNe, Option.map_some, hPrint, Bool.false_eq_true, if_false]
    rw [hPrint] at hRun
    rw [hRun, Option.map_some, hState]
    dsimp only
    rw [hEnd, Nat.mul_div_cancel _ hIPos, List.length_take]
    rfl
  · rw [hMax]
    omega
  · rw [gt_iff_lt, UInt64.lt_iff_toNat_lt, hMax]
    omega

/-- A buffer or a format that is longer than a string may be is turned down: nothing is stored. -/
theorem sprint_refused {mode : PrintMode} {BufferSize : UINTN} {Format : List CHAR16}
    (memory : Region UINT8) (Marker : List PrintArgument)
    (hLong : 1000000 < BufferSize.toNat ∨ 1000000 < Format.length) :
    BasePrintLibSPrintMarker nested (some memory) BufferSize mode Format Marker =
      some (0, some memory) := by
  have hMax : ∀ b : Bool, (if b then RSIZE_MAX else ASCII_RSIZE_MAX).toNat = 1000000 := by decide
  unfold BasePrintLibSPrintMarker
  rw [if_neg (by simp)]
  by_cases hBuffer : 1000000 < BufferSize.toNat
  · rw [if_pos (by rwa [gt_iff_lt, UInt64.lt_iff_toNat_lt, hMax])]
  · have hText : 1000000 < Format.length := hLong.resolve_left hBuffer
    rw [if_neg (by rwa [gt_iff_lt, UInt64.lt_iff_toNat_lt, hMax]), if_pos (by rwa [hMax])]

/--
**Printing into memory.** The buffer holds the beginning of the text that fits, with a terminator;
every byte of that is stored once, from the first to the last, and the memory behind it is as it
was. Beyond a million characters of buffer or format nothing is stored.
-/
theorem sprint_fits {mode : PrintMode} {BufferSize : UINTN} {Format : List CHAR16}
    {Marker : List PrintArgument} {ps : List Piece} (memory : Region UINT8)
    (hPieces : pieces nested Format Marker = some ps) (hPrint : mode.COUNT_ONLY_NO_PRINT = false)
    (hPos : 0 < BufferSize) :
    (1000000 < BufferSize.toNat ∨ 1000000 < Format.length →
      BasePrintLibSPrintMarker nested (some memory) BufferSize mode Format Marker =
        some (0, some memory)) ∧
    (BufferSize.toNat ≤ 1000000 → Format.length ≤ 1000000 →
      ∃ n memory', BasePrintLibSPrintMarker nested (some memory) BufferSize mode Format Marker =
          some (UInt64.ofNat n, some memory') ∧
        n = min (BufferSize.toNat - 1) (ps.flatMap Piece.text).length ∧
        Holds memory'.cells 0 (((ps.flatMap Piece.text).take n ++ [0]).flatMap
          (characterBytes mode.increment)) ∧
        memory'.stores = memory.stores ++ List.range ((n + 1) * mode.increment) ∧
        ∀ k, (n + 1) * mode.increment ≤ k → memory'.cells k = memory.cells k) := by
  have hI : mode.increment = 1 ∨ mode.increment = 2 := by
    unfold PrintMode.increment
    split_ifs <;> simp
  have hTake : (ps.flatMap Piece.text).take (min (BufferSize.toNat - 1)
      (ps.flatMap Piece.text).length) = (ps.flatMap Piece.text).take (BufferSize.toNat - 1) := by
    rw [← List.take_take, List.take_length]
  have hLength : ((printedText BufferSize (ps.flatMap Piece.text)).flatMap
      (characterBytes mode.increment)).length =
        (min (BufferSize.toNat - 1) (ps.flatMap Piece.text).length + 1) * mode.increment := by
    rw [length_flatMap_characterBytes hI, printedText, List.length_append, List.length_take,
      List.length_singleton]
  refine ⟨sprint_refused memory Marker, fun hSize hFormat => ?_⟩
  refine ⟨_, _, sprint_prints memory hPieces hPrint hPos hSize hFormat, rfl, ?_, ?_, ?_⟩
  · rw [hTake]
    exact holds_write memory 0 _
  · -- the bytes of a text lie one behind the other
    rw [stores_storeAll, map_fst_cursor, hLength, List.range_eq_range']
  · intro k hk
    refine cells_storeAll_of_not_mem ?_
    rw [map_fst_cursor, hLength, List.mem_range'_1]
    omega

def threeLetters : NulString CHAR8 := ⟨[0x61, 0x62, 0x63], by decide, by decide⟩

/-- Three letters in a field of two. -/
def narrowField : Piece :=
  stringPiece ⟨{ PAD_TO_WIDTH := true }, 2, 0⟩ [0x61, 0x62, 0x63]

theorem pieces_narrowField {nested : List CHAR16 × List PrintArgument → Option (List CHAR8)} :
    pieces nested (L "%2a") [.ascii (some threeLetters)] = some [narrowField] := by
  have hFormat : L "%2a" = [0x25, 0x32, 0x61] := by decide
  have hParse : parseFlags [0x32, 0x61] {} [.ascii (some threeLetters)] =
      some (⟨{ PAD_TO_WIDTH := true }, 2, 1⟩, 0x61, [], [.ascii (some threeLetters)]) := by
    rw [parseFlags]
    simp [chr, isDigit, readNumber, parseFlags]
  have hNext : nextPiece nested 0x25 [0x32, 0x61] [.ascii (some threeLetters)] =
      some (narrowField, [], []) := by
    rw [nextPiece, if_pos (by decide), hParse]
    rfl
  rw [hFormat, pieces_next hNext, pieces]
  rfl

/-- The buffer holds two of the three letters. -/
theorem sprint_fits_narrowField : ∃ n memory',
    BasePrintLibSPrintMarker BasePrintLibSPrint (some (fresh fun _ => 0xFF)) 3 ⟨true, true, false⟩
      (L "%2a") [.ascii (some threeLetters)] = some (UInt64.ofNat n, some memory') ∧ n = 2 ∧
      Holds memory'.cells 0 [0x61, 0, 0x62, 0, 0, 0] := by
  have hFormat : (L "%2a").length ≤ 1000000 := by decide
  obtain ⟨n, memory', hRun, hn, hHolds, -, -⟩ := (@sprint_fits BasePrintLibSPrint ⟨true, true, false⟩ 3
    _ _ _ (fresh fun _ => 0xFF) pieces_narrowField rfl (by decide)).2 (by decide) hFormat
  have hTwo : n = 2 := hn.trans (by decide)
  subst hTwo
  exact ⟨2, memory', hRun, rfl, hHolds⟩

end TianJi.Model
