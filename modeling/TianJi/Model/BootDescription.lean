import TianJi.Lib.Numbering
import TianJi.Lib.Squeeze
import TianJi.Model.OpenCore
import TianJi.Model.OptionRefresh

/-!
# TianJi — descriptions of boot options

`BmMakeBootOptionDescriptionUnique` (BmBootDescription.c) numbers the descriptions of the boot
options that were found when there are several alike: the second one gets a 2, and so on. What is
numbered is not compared with the descriptions that are there already. Allocations succeed.

A description that was read from a disk first loses its extra spaces (`BmEliminateExtraSpaces`).

* `makeUnique_numbered`  — what the loops make of the descriptions.
* `makeUnique_nodup_iff` — when the descriptions are unique in the end.
* `eliminateExtraSpaces_words` — the words of a description stay, with single spaces between them.
-/

namespace TianJi.Model

open Bytes Memory Numbering Numeral Squeeze

-- ---------------------------------------------------------------------------
-- The code
-- ---------------------------------------------------------------------------

/-- "Calculate the maximum buffer size for the number suffix." A count has at most 20 digits. -/
def addSuffixSize : Nat → UINTN → UINTN → UINTN
  | 0, _, MaxSuffixSize => MaxSuffixSize
  | turns + 1, Index, MaxSuffixSize =>
    if Index = 0 then MaxSuffixSize else addSuffixSize turns (Index / 10) (MaxSuffixSize + 2)

/-- The string as an argument; memory has room for no longer ones. -/
def WideString.argument (s : WideString) : Option PrintArgument :=
  if h : s.chars.length < 2 ^ 63 then some (.string (some ⟨s.chars, s.no_nul, h⟩)) else none

/-- The string that a block of `n` characters starts with. -/
def stringOf (m : ByteBuffer) (n : Nat) : WideString where
  chars := wideString m n
  no_nul hMem := by simpa using List.mem_takeWhile_imp hMem

section Code

-- what lies in a new block
variable (pool : ByteBuffer)

/-- A new block for a description, with the text of `UnicodeSPrint` in it. -/
def printNumbered (MaxSuffixSize : UINTN) (Description : WideString) (MatchCount : UINTN) :
    Option WideString := do
  let DescriptionSize ← StrSize (Description.chars ++ [0])
  let (_, block) ← UnicodeSPrint (some (Region.fresh pool)) (DescriptionSize + MaxSuffixSize)
    (L "%s %d") [← Description.argument, .word MatchCount]
  return stringOf (← block).cells ((DescriptionSize + MaxSuffixSize) / 2).toNat

/-- The inner loop, over what is behind `Base`: whether an option was visited, and its description. -/
def visitBehind (MaxSuffixSize : UINTN) (Base : WideString) :
    UINTN → List (Bool × WideString) → Option (List (Bool × WideString))
  | _, [] => some []
  | MatchCount, (Visited, Description) :: BootOptions => do
    if Visited = false ∧ StrCmp Base.chars Description.chars = 0 then
      let Description ← printNumbered pool MaxSuffixSize Base (MatchCount + 1)
      return (true, Description) :: (← visitBehind MaxSuffixSize Base (MatchCount + 1) BootOptions)
    else return (Visited, Description) :: (← visitBehind MaxSuffixSize Base MatchCount BootOptions)

/-- The outer loop, for a number of turns. -/
def visit (MaxSuffixSize : UINTN) :
    Nat → List (Bool × WideString) → Option (List (Bool × WideString))
  | _, [] => some []
  | 0, _ :: _ => none
  | turns + 1, (Visited, Description) :: BootOptions => do
    if Visited then return (Visited, Description) :: (← visit MaxSuffixSize turns BootOptions)
    else
      let BootOptions ← visitBehind pool MaxSuffixSize Description 1 BootOptions
      return (true, Description) :: (← visit MaxSuffixSize turns BootOptions)

/-- `BmMakeBootOptionDescriptionUnique`, by the descriptions of the options. -/
def BmMakeBootOptionDescriptionUnique (Descriptions : List WideString) : Option (List WideString) :=
  let BootOptionCount := Descriptions.length
  if BootOptionCount = 0 then some Descriptions
  else do
    let BootOptions ← visit pool (addSuffixSize 20 (UInt64.ofNat BootOptionCount) 2) BootOptionCount
      (Descriptions.map fun Description => (false, Description))
    return BootOptions.map Prod.snd

end Code

-- ---------------------------------------------------------------------------
-- What is printed
-- ---------------------------------------------------------------------------

/-- A decimal number is made of digits. -/
theorem digit_of_mem {c : CHAR16} {n : Nat} (h : c ∈ paddedText Radix.decimal 1 n) :
    c ≠ 0 ∧ c ≠ 0x20 := by
  have hAll : ∀ d < 10, digitChar d ≠ 0 ∧ digitChar d ≠ 0x20 := by decide
  obtain ⟨d, hd, rfl⟩ := List.mem_map.mp h
  exact hAll d (lt_of_mem_padded Radix.decimal.two_le hd)

/-- A description with a number behind it. -/
def withNumber (d : WideString) (k : Nat) : WideString where
  chars := d.chars ++ 0x20 :: paddedText Radix.decimal 1 k
  no_nul hMem := by
    rcases List.mem_append.mp hMem with hOld | hNew
    · exact d.no_nul hOld
    · rcases List.mem_cons.mp hNew with hSpace | hDigit
      · exact absurd hSpace (by decide)
      · exact (digit_of_mem hDigit).1 rfl

/-- The items of the format: a string, a blank and a number. -/
theorem pieces_numbered (s : NulString CHAR16) (v : UINTN) :
    pieces BasePrintLibSPrint (L "%s %d") [.string (some s), .word v] =
      some [stringPiece (stringSpec {}) (s.chars.map UInt16.toUInt64), stringPiece {} [0x20],
        numberPiece ⟨{}, 0, 1⟩ v.toUInt32.toInt32.toInt64] := by
  have hFormat : L "%s %d" = [0x25, 0x73, 0x20, 0x25, 0x64] := by decide
  have hString : parseFlags [0x73, 0x20, 0x25, 0x64] {} [.string (some s), .word v] =
      some ({}, 0x73, [0x20, 0x25, 0x64], [.string (some s), .word v]) := by
    rw [parseFlags]
    simp [chr, isDigit]
  have hNumber : parseFlags [0x64] {} [.word v] = some ({}, 0x64, [], [.word v]) := by
    rw [parseFlags]
    simp [chr, isDigit]
  have hFirst : nextPiece BasePrintLibSPrint 0x25 [0x73, 0x20, 0x25, 0x64]
      [.string (some s), .word v] = some (stringPiece (stringSpec {})
        (s.chars.map UInt16.toUInt64), [0x20, 0x25, 0x64], [.word v]) := by
    rw [nextPiece, if_pos (by decide), hString]
    rfl
  have hSecond : nextPiece BasePrintLibSPrint 0x20 [0x25, 0x64] [.word v] =
      some (stringPiece {} [0x20], [0x25, 0x64], [.word v]) := by
    rw [nextPiece, if_neg (by decide)]
    rfl
  have hThird : nextPiece BasePrintLibSPrint 0x25 [0x64] [.word v] =
      some (numberPiece ⟨{}, 0, 1⟩ v.toUInt32.toInt32.toInt64, [], []) := by
    rw [nextPiece, if_pos (by decide), hNumber]
    rfl
  rw [hFormat, pieces_next hFirst, pieces_next hSecond, pieces_next hThird, pieces]
  rfl

/-- A nonnegative number, as `%d` asks for it. -/
theorem text_signed {v : UINTN} (hv : v.toNat < 2 ^ 31) :
    (numberPiece ⟨{}, 0, 1⟩ v.toUInt32.toInt32.toInt64).text =
      (paddedText Radix.decimal 1 v.toNat).map UInt16.toUInt64 := by
  have hHalf : v.toUInt32.toNat = v.toNat := by
    rw [UInt64.toNat_toUInt32]
    omega
  have hInt : v.toUInt32.toInt32.toInt64.toInt = v.toUInt32.toNat := by
    have hBits : v.toUInt32.toInt32.toInt = v.toUInt32.toBitVec.toInt := rfl
    rw [Int32.toInt_toInt64, hBits, BitVec.toInt_eq_toNat_cond, UInt32.toNat_toBitVec, hHalf,
      if_pos (by omega)]
  have hNotNegative : ¬ v.toUInt32.toInt32.toInt64 < 0 := by
    rw [Int64.lt_iff_toInt_lt, hInt]
    exact Int.not_lt.mpr (Int.natCast_nonneg _)
  have hPiece : numberPiece ⟨{}, 0, 1⟩ v.toUInt32.toInt32.toInt64 =
      convertNumber ⟨{}, 0, 1⟩ 0 false v.toUInt32.toInt32.toInt64 Radix.decimal := by
    simp [numberPiece, hNotNegative]
  rw [hPiece, text_unpadded (by decide) _ rfl rfl, toUInt64_int v hNotNegative, hHalf]

/-- And what they print. -/
theorem text_numbered (s : NulString CHAR16) {v : UINTN} (hv : v.toNat < 2 ^ 31) :
    [stringPiece (stringSpec {}) (s.chars.map UInt16.toUInt64), stringPiece {} [0x20],
        numberPiece ⟨{}, 0, 1⟩ v.toUInt32.toInt32.toInt64].flatMap Piece.text =
      (s.chars ++ 0x20 :: paddedText Radix.decimal 1 v.toNat).map UInt16.toUInt64 := by
  have hFirst := text_string ((List.length_map UInt16.toUInt64).trans_lt s.length_lt)
  have hSpace : (stringPiece {} [0x20]).text = [0x20] := by decide
  rw [List.flatMap_cons, List.flatMap_cons, List.flatMap_cons, List.flatMap_nil, List.append_nil,
    hFirst, hSpace, text_signed hv, List.map_append, List.map_cons]
  rfl

/-- The loop adds two bytes for each digit. -/
theorem addSuffixSize_eq {turns : Nat} {Index : UINTN} (hTurns : Index.toNat < 10 ^ turns)
    (MaxSuffixSize : UINTN) : addSuffixSize turns Index MaxSuffixSize =
      MaxSuffixSize + UInt64.ofNat (2 * (Nat.digits 10 Index.toNat).length) := by
  induction turns generalizing Index MaxSuffixSize with
  | zero =>
    have hZero : Index.toNat = 0 := by omega
    rw [addSuffixSize, hZero]
    simp
  | succ turns ih =>
    rw [addSuffixSize]
    split_ifs with hZero
    · rw [hZero]
      simp
    · have hPos : 0 < Index.toNat := Nat.pos_of_ne_zero fun h => hZero (UInt64.toNat_inj.mp h)
      have hDiv : (Index / 10).toNat = Index.toNat / 10 := UInt64.toNat_div _ _
      have hLess : (Index / 10).toNat < 10 ^ turns := by
        rw [hDiv]
        exact Nat.div_lt_of_lt_mul (by rwa [pow_succ'] at hTurns)
      rw [ih hLess, hDiv, Nat.digits_def' (by decide) hPos, List.length_cons, Nat.mul_succ, Nat.add_comm,
        UInt64.ofNat_add, ← UInt64.add_assoc]
      rfl

/-- No later number is longer than the count. -/
theorem length_number_le {k n : Nat} (hk : 1 ≤ k) (hn : k ≤ n) :
    (paddedText Radix.decimal 1 k).length ≤ (Nat.digits 10 n).length := by
  have hNumeral : numeral 10 k = (Nat.digits 10 k).reverse := if_neg (Nat.one_le_iff_ne_zero.mp hk)
  have hPos : 0 < (Nat.digits 10 n).length := List.length_pos_of_ne_nil
    (Nat.digits_ne_nil_iff_ne_zero.mpr (by omega))
  have hLe := Nat.le_length_digits_le 10 k n hn
  have hBase : Radix.decimal.base = 10 := rfl
  rw [paddedText, List.length_map, length_padded, hBase, hNumeral, List.length_reverse]
  omega

variable {pool : ByteBuffer} {MaxSuffixSize : UINTN}

/-- **One description** is printed whole where the size leaves room for its number. -/
theorem printNumbered_eq {d : WideString} {v : UINTN} {digits : Nat} (hLength : d.chars.length + 12 ≤ 1000000)
    (hSuffix : MaxSuffixSize.toNat = 2 * (digits + 1)) (hDigits : digits ≤ 10)
    (hFits : (paddedText Radix.decimal 1 v.toNat).length ≤ digits) (hv : v.toNat < 2 ^ 31) :
    printNumbered pool MaxSuffixSize d v = some (withNumber d v.toNat) := by
  have hSize : StrSize (d.chars ++ [0]) = some ((UInt64.ofNat d.chars.length + 1) * 2) := by
    rw [StrSize, CString.strLen_eq (CString.isString_exact d.no_nul).1]
    rfl
  have hShort : d.chars.length < 2 ^ 63 := by omega
  have hArgument : d.argument = some (.string (some ⟨d.chars, d.no_nul, hShort⟩)) := dif_pos hShort
  have hWhole : ((UInt64.ofNat d.chars.length + 1) * 2 + MaxSuffixSize).toNat =
      2 * (d.chars.length + digits + 2) := by
    have hTwo : (2 : UINTN).toNat = 2 := rfl
    have hOne : (1 : UINTN).toNat = 1 := rfl
    rw [UInt64.toNat_add, UInt64.toNat_mul, UInt64.toNat_add, hSuffix, hTwo, hOne,
      UInt64.toNat_ofNat_of_lt' (show _ < 2 ^ 64 by omega)]
    omega
  have hRoom : 2 ≤ ((UInt64.ofNat d.chars.length + 1) * 2 + MaxSuffixSize).toNat ∧
      ((UInt64.ofNat d.chars.length + 1) * 2 + MaxSuffixSize).toNat ≤ 2000000 := by
    rw [hWhole]
    omega
  obtain ⟨memory, hRun, hHeld, -⟩ := unicodeSPrint_string (Region.fresh pool)
    (pieces_numbered ⟨d.chars, d.no_nul, hShort⟩ v) (text_numbered ⟨d.chars, d.no_nul, hShort⟩ hv)
    hRoom.1 hRoom.2 (by decide)
  have hHalf : (((UInt64.ofNat d.chars.length + 1) * 2 + MaxSuffixSize) / 2).toNat =
      d.chars.length + digits + 2 := by
    have hTwo : (2 : UINTN).toNat = 2 := rfl
    rw [UInt64.toNat_div, hWhole, hTwo]
    exact Nat.mul_div_cancel_left _ (by decide)
  have hText : (withNumber d v.toNat).chars.length ≤ d.chars.length + digits + 1 := by
    rw [withNumber, List.length_append, List.length_cons]
    omega
  rw [hWhole, Nat.mul_div_cancel_left _ (by decide)] at hHeld
  have hHolds : HoldsString memory.cells (withNumber d v.toNat).chars :=
    (congrArg (HoldsString memory.cells) (List.take_of_length_le hText)).mp hHeld
  have hString : wideString memory.cells (d.chars.length + digits + 2) = (withNumber d v.toNat).chars :=
    wideString_of_holds hHolds (withNumber d v.toNat).no_nul (Nat.lt_succ_of_le hText)
  rw [printNumbered, hSize]
  simp only [Option.bind_eq_bind, Option.bind_some, hArgument, hRun]
  exact congrArg some (WideString.ext (by rw [stringOf, hHalf]; exact hString))

-- ---------------------------------------------------------------------------
-- The loops
-- ---------------------------------------------------------------------------

variable {handled seen rest ds : List WideString} {d Base : WideString}

/-- A description as the loops leave it, with those in front of it. -/
def described (seen : List WideString) (d : WideString) : WideString :=
  if seen.count d = 0 then d else withNumber d (seen.count d + 1)

/-- The options when some descriptions were handled, and all options with these are visited. -/
def visited (handled : List WideString) : List WideString → List WideString → List (Bool × WideString)
  | _, [] => []
  | seen, d :: rest =>
    (if d ∈ handled then (true, described seen d) else (false, d)) :: visited handled (d :: seen) rest

/-- It does not matter in which order options were handled. -/
theorem visited_congr {handled' : List WideString} (hSame : ∀ d, d ∈ handled ↔ d ∈ handled')
    (seen rest : List WideString) : visited handled seen rest = visited handled' seen rest := by
  induction rest generalizing seen with
  | nil => rfl
  | cons d rest ih => rw [visited, visited, ih, if_congr (hSame d) rfl rfl]

/-- At first none is. -/
theorem visited_nil (seen rest : List WideString) :
    visited [] seen rest = rest.map fun d => (false, d) := by
  induction rest generalizing seen with
  | nil => rfl
  | cons d rest ih =>
    rw [visited, ih, if_neg List.not_mem_nil]
    rfl

/-- **The inner loop** numbers what is like `Base`. -/
theorem visitBehind_spec {total : Nat} (hNew : Base ∉ handled)
    (hPrint : ∀ v : UINTN, 1 ≤ v.toNat → v.toNat ≤ total →
      printNumbered pool MaxSuffixSize Base v = some (withNumber Base v.toNat))
    (hTotal : total < 2 ^ 31) {MatchCount : UINTN} (hCount : MatchCount.toNat = seen.count Base)
    (hSeen : 1 ≤ seen.count Base) (hRest : seen.count Base + rest.count Base ≤ total) :
    visitBehind pool MaxSuffixSize Base MatchCount (visited handled seen rest) =
      some (visited (Base :: handled) seen rest) := by
  induction rest generalizing seen MatchCount with
  | nil => rfl
  | cons d rest ih =>
    rw [visited, visited]
    by_cases hSame : d = Base
    · subst hSame
      rw [List.count_cons_self] at hRest
      have hNext : (MatchCount + 1).toNat = seen.count d + 1 := by
        have hOne : (1 : UINTN).toNat = 1 := rfl
        rw [UInt64.toNat_add, hOne, hCount]
        omega
      have hZero : StrCmp d.chars d.chars = 0 := (StrCmp_eq_zero_iff d.no_nul d.no_nul).mpr rfl
      have hDescribed : described seen d = withNumber d (seen.count d + 1) := if_neg (by omega)
      have hHere := hPrint (MatchCount + 1) (by omega) (by omega)
      have hLater : visitBehind pool MaxSuffixSize d (MatchCount + 1) (visited handled (d :: seen) rest) =
          some (visited (d :: handled) (d :: seen) rest) :=
        ih (by rw [List.count_cons_self, hNext]) (by rw [List.count_cons_self]; omega)
          (by rw [List.count_cons_self]; omega)
      rw [if_neg hNew, if_pos List.mem_cons_self, visitBehind, hDescribed, ← hNext]
      simp [hZero, hHere, hLater]
    · have hNe : Base ≠ d := fun hEq => hSame hEq.symm
      have hDiffer : StrCmp Base.chars d.chars ≠ 0 := fun hZero =>
        hNe (WideString.ext ((StrCmp_eq_zero_iff Base.no_nul d.no_nul).mp hZero))
      rw [List.count_cons_of_ne hSame] at hRest
      have hKeeps : (d :: seen).count Base = seen.count Base := List.count_cons_of_ne hSame
      have hLater : visitBehind pool MaxSuffixSize Base MatchCount (visited handled (d :: seen) rest) =
          some (visited (Base :: handled) (d :: seen) rest) :=
        ih (hCount.trans hKeeps.symm) (hKeeps ▸ hSeen) (hKeeps ▸ hRest)
      by_cases hHandled : d ∈ handled
      · rw [if_pos hHandled, if_pos (List.mem_cons_of_mem _ hHandled), visitBehind]
        simp [hLater]
      · rw [if_neg hHandled, if_neg (by simp [hSame, hHandled]), visitBehind]
        simp [hDiffer, hLater]

/-- What every description and every number up to a total is printed as. -/
def Prints (pool : ByteBuffer) (MaxSuffixSize : UINTN) (total : Nat) (d : WideString) : Prop :=
  ∀ v : UINTN, 1 ≤ v.toNat → v.toNat ≤ total →
    printNumbered pool MaxSuffixSize d v = some (withNumber d v.toNat)

/-- **The outer loop.** What is in front was handled. -/
theorem visit_spec {total turns : Nat} (hTurns : rest.length ≤ turns) (hTotal : total < 2 ^ 31)
    (hPrints : ∀ d ∈ rest, Prints pool MaxSuffixSize total d) (hRest : seen.length + rest.length ≤ total) :
    visit pool MaxSuffixSize turns (visited seen seen rest) =
      some ((numbered withNumber seen rest).map fun d => (true, d)) := by
  induction rest generalizing seen turns with
  | nil => cases turns <;> rfl
  | cons d rest ih =>
    rw [List.length_cons] at hTurns hRest
    obtain ⟨turns, rfl⟩ : ∃ turns', turns = turns' + 1 := ⟨turns - 1, by omega⟩
    obtain ⟨hPrint, hLaterPrints⟩ := List.forall_mem_cons.mp hPrints
    have hLater : visit pool MaxSuffixSize turns (visited (d :: seen) (d :: seen) rest) =
        some ((numbered withNumber (d :: seen) rest).map fun d => (true, d)) :=
      ih (by omega) hLaterPrints (by rw [List.length_cons]; omega)
    rw [visited, numbered, List.map_cons]
    by_cases hSeen : d ∈ seen
    · have hSame : visited seen (d :: seen) rest = visited (d :: seen) (d :: seen) rest :=
        visited_congr (fun x => by grind) _ _
      rw [if_pos hSeen, hSame, visit, hLater]
      rfl
    · have hZero : seen.count d = 0 := List.count_eq_zero.mpr hSeen
      have hOne : (d :: seen).count d = 1 := by rw [List.count_cons_self, hZero]
      have hLe := List.count_le_length (a := d) (l := rest)
      have hBehind : visitBehind pool MaxSuffixSize d 1 (visited seen (d :: seen) rest) =
          some (visited (d :: seen) (d :: seen) rest) :=
        visitBehind_spec hSeen hPrint hTotal hOne.symm hOne.ge (by omega)
      rw [if_neg hSeen, if_pos hZero, visit]
      simp [hBehind, hLater]

/-- The sizes that `BmMakeBootOptionDescriptionUnique` is made for. -/
structure Describable (ds : List WideString) : Prop where
  count : ds.length < 2 ^ 31
  length : ∀ d ∈ ds, d.chars.length + 12 ≤ 1000000

/-- With the suffix size of the code every description is printed. -/
theorem prints_of_describable (h : Describable ds) (pool : ByteBuffer) : ∀ d ∈ ds,
    Prints pool (addSuffixSize 20 (UInt64.ofNat ds.length) 2) ds.length d := by
  intro d hd v hPos hLe
  have hCount := h.count
  have hNat : (UInt64.ofNat ds.length).toNat = ds.length :=
    UInt64.toNat_ofNat_of_lt' (show _ < 2 ^ 64 by omega)
  have hTen : (Nat.digits 10 ds.length).length ≤ 10 :=
    (Nat.digits_length_le_iff (by decide) _).mpr (by omega)
  have hTwo : (2 : UINTN).toNat = 2 := rfl
  have hSuffix : (addSuffixSize 20 (UInt64.ofNat ds.length) 2).toNat =
      2 * ((Nat.digits 10 ds.length).length + 1) := by
    rw [addSuffixSize_eq (by rw [hNat]; omega), hNat, UInt64.toNat_add, hTwo,
      UInt64.toNat_ofNat_of_lt' (show _ < 2 ^ 64 by omega)]
    omega
  exact printNumbered_eq (h.length d hd) hSuffix hTen (length_number_le hPos hLe) (by omega)

/-- **What becomes of the descriptions.** The first of its kind stays, later ones are numbered. -/
theorem makeUnique_numbered (h : Describable ds) (pool : ByteBuffer) :
    BmMakeBootOptionDescriptionUnique pool ds = some (numbered withNumber [] ds) := by
  rw [BmMakeBootOptionDescriptionUnique]
  split_ifs with hNone
  · rw [List.length_eq_zero_iff.mp hNone]
    rfl
  · have hEmpty : ([] : List WideString).length + ds.length ≤ ds.length := (Nat.zero_add _).le
    have hVisit := visit_spec (le_refl _) h.count (prints_of_describable h pool) hEmpty
    rw [visited_nil] at hVisit
    simp [hVisit, Function.comp_def]

-- ---------------------------------------------------------------------------
-- Unique descriptions
-- ---------------------------------------------------------------------------

/-- Different numbers are printed differently. -/
theorem paddedText_inj {k k' : Nat}
    (h : paddedText Radix.decimal 1 k = paddedText Radix.decimal 1 k') : k = k' := by
  have hDigit : ∀ d < 10, (digitChar d).toNat - 0x30 = d := by decide
  have hRead (n : Nat) : (paddedText Radix.decimal 1 n).map (fun c => c.toNat - 0x30) =
      padded 10 1 n := by
    rw [paddedText, List.map_map]
    refine (List.map_congr_left fun d hd => ?_).trans (List.map_id _)
    exact hDigit d (lt_of_mem_padded Radix.decimal.two_le hd)
  have hValue := congrArg (fun text => value 10 (text.map fun c : CHAR16 => c.toNat - 0x30)) h
  simpa only [hRead, value_padded] using hValue

/-- The last space is in front of the number. -/
theorem withNumber_inj (d : WideString) (k : Nat) (d' : WideString) (k' : Nat)
    (h : withNumber d k = withNumber d' k') : d = d' ∧ k = k' := by
  have hChars : d.chars ++ 0x20 :: paddedText Radix.decimal 1 k =
      d'.chars ++ 0x20 :: paddedText Radix.decimal 1 k' := congrArg WideString.chars h
  have hBehind (d : WideString) (k : Nat) :
      (d.chars ++ 0x20 :: paddedText Radix.decimal 1 k).reverse.takeWhile (· ≠ 0x20) =
        (paddedText Radix.decimal 1 k).reverse := by
    rw [List.reverse_append, List.reverse_cons, List.append_assoc, List.takeWhile_append_of_pos
      fun c hc => by simpa using (digit_of_mem (List.mem_reverse.mp hc)).2]
    simp
  have hNumber : paddedText Radix.decimal 1 k = paddedText Radix.decimal 1 k' := by
    have hReverse := congrArg (fun text => text.reverse.takeWhile (· ≠ 0x20)) hChars
    rw [hBehind, hBehind] at hReverse
    exact List.reverse_injective hReverse
  rw [hNumber] at hChars
  exact ⟨WideString.ext (List.append_cancel_right hChars), paddedText_inj hNumber⟩

/--
**Making descriptions unique.** The first option with a description keeps it, and each later one gets
the number of options with it so far. The descriptions are unique in the end exactly when none of the
numbered ones was there in the beginning.
-/
theorem makeUnique_nodup_iff (h : Describable ds) (pool : ByteBuffer) :
    ∃ ds', BmMakeBootOptionDescriptionUnique pool ds = some ds' ∧ ds' = numbered withNumber [] ds ∧
      (ds'.Nodup ↔ ∀ d k, 2 ≤ k → k ≤ ds.count d → withNumber d k ∉ ds) := by
  refine ⟨_, makeUnique_numbered h pool, rfl, ?_⟩
  rw [nodup_numbered_iff withNumber_inj]
  refine forall₂_congr fun d k => ⟨fun hTaken hTwo hLe hMem => ?_, fun hFree hGets hMem => ?_⟩
  · exact List.not_mem_nil (hTaken ⟨hTwo, by rw [List.count_nil]; omega, by simpa using hLe⟩ hMem)
  · exact absurd hMem (hFree hGets.1 (by simpa using hGets.2.2))

/-- A description of one letter. -/
def letterA : WideString :=
  ⟨[0x41], fun hMem => absurd (List.mem_singleton.mp hMem) (by decide : (0 : CHAR16) ≠ 0x41)⟩

/-- Two options alike beside one that has the second one's new description. -/
theorem makeUnique_nodup_taken : ∃ ds',
    BmMakeBootOptionDescriptionUnique (fun _ => 0) [letterA, letterA, withNumber letterA 2] = some ds' ∧
      ¬ ds'.Nodup := by
  have hDescribable : Describable [letterA, letterA, withNumber letterA 2] :=
    ⟨by decide, by decide⟩
  obtain ⟨ds', hRun, -, hNodup⟩ := makeUnique_nodup_iff hDescribable fun _ => 0
  refine ⟨ds', hRun, fun hUnique => ?_⟩
  exact hNodup.mp hUnique letterA 2 (le_refl 2) (by decide) (by decide)

-- ---------------------------------------------------------------------------
-- Spaces
-- ---------------------------------------------------------------------------

/-- The condition of the loop in `BmEliminateExtraSpaces`. -/
def keepsCharacter (Str : List CHAR16) (ActualIndex : Nat) (c : CHAR16) : Option Bool :=
  if c ≠ 0x20 then some true
  else if ActualIndex > 0 then (Str[ActualIndex - 1]?).map fun before => decide (before ≠ 0x20)
  else some false

/-- The loop, for a number of turns. -/
def eliminateSpaces : Nat → List CHAR16 → Nat → Nat → Option (List CHAR16 × Nat)
  | 0, _, _, _ => none
  | turns + 1, Str, Index, ActualIndex => do
    let c ← Str[Index]?
    if c = 0 then return (Str, ActualIndex)
    else if ← keepsCharacter Str ActualIndex c then
      eliminateSpaces turns (← CString.write Str ActualIndex c) (Index + 1) (ActualIndex + 1)
    else eliminateSpaces turns Str (Index + 1) ActualIndex

/-- "Eliminate the extra spaces in the Str to one space." -/
def BmEliminateExtraSpaces (Str : List CHAR16) : Option (List CHAR16) := do
  let (Str, ActualIndex) ← eliminateSpaces Str.length Str 0 0
  CString.write Str ActualIndex 0

section Spaces

variable {Str kept s : List CHAR16} {Index ActualIndex : Nat}

/-- A space that comes next would be an extra one. -/
def endsInSpace (kept : List CHAR16) : Bool := kept = [] ∨ kept.getLast? = some 0x20

/-- The characters kept are in front, and those that were not looked at are behind. -/
structure Compacted (Str kept rest : List CHAR16) (Index ActualIndex : Nat) : Prop where
  front : Str.take ActualIndex = kept
  length : kept.length = ActualIndex
  behind : ∃ tail, Str.drop Index = rest ++ 0 :: tail
  le : ActualIndex ≤ Index

/-- Nothing is read yet, and nothing written. -/
theorem compacted_start (h : CString.IsString Str s) : Compacted Str [] s 0 0 where
  front := rfl
  length := rfl
  behind := h.1
  le := le_refl 0

/-- A character is kept. -/
theorem compacted_keep {c : CHAR16} {rest : List CHAR16}
    (h : Compacted Str kept (c :: rest) Index ActualIndex) :
    CString.write Str ActualIndex c = some (Str.set ActualIndex c) ∧
      Compacted (Str.set ActualIndex c) (kept ++ [c]) rest (Index + 1) (ActualIndex + 1) := by
  obtain ⟨tail, hBehind⟩ := h.behind
  have hLess : Index < Str.length := by
    have hLength := congrArg List.length hBehind
    rw [List.length_drop, List.length_append, List.length_cons] at hLength
    omega
  have hLe := h.le
  refine ⟨if_pos (by omega), ?_, ?_, ⟨tail, ?_⟩, Nat.succ_le_succ hLe⟩
  · rw [List.set_eq_take_append_cons_drop, if_pos (by omega), h.front, List.take_append, h.length,
      List.take_of_length_le (by rw [h.length]; omega), Nat.add_sub_cancel_left]
    rfl
  · rw [List.length_append, h.length, List.length_singleton]
  · rw [List.drop_set_of_lt (by omega), ← List.drop_drop, hBehind]
    rfl

/-- A character is passed over. -/
theorem compacted_skip {c : CHAR16} {rest : List CHAR16}
    (h : Compacted Str kept (c :: rest) Index ActualIndex) :
    Compacted Str kept rest (Index + 1) ActualIndex := by
  obtain ⟨tail, hBehind⟩ := h.behind
  refine ⟨h.front, h.length, ⟨tail, ?_⟩, h.le.trans (Nat.le_succ _)⟩
  rw [← List.drop_drop, hBehind]
  rfl

/-- The next character is the first of what is left. -/
theorem getElem?_of_drop {c : CHAR16} {l : List CHAR16} (h : Str.drop Index = c :: l) :
    Str[Index]? = some c := by
  have hHead := congrArg List.head? h
  rwa [List.head?_drop] at hHead

/-- The condition is about the last character kept. -/
theorem keepsCharacter_eq {rest : List CHAR16} (h : Compacted Str kept rest Index ActualIndex)
    (c : CHAR16) :
    keepsCharacter Str ActualIndex c = some (decide (c ≠ 0x20) || !endsInSpace kept) := by
  rw [keepsCharacter, ← h.length]
  split_ifs with hOther hPos
  · simp [hOther]
  · have hLast : Str[kept.length - 1]? = kept.getLast? := by
      have hLess : ActualIndex - 1 < ActualIndex := Nat.sub_lt (h.length ▸ hPos) Nat.one_pos
      rw [List.getLast?_eq_getElem?, h.length, ← h.front, List.getElem?_take_of_lt hLess]
    have hNe : kept ≠ [] := List.length_pos_iff.mp hPos
    obtain ⟨last, hSome⟩ := Option.ne_none_iff_exists'.mp (mt List.getLast?_eq_none_iff.mp hNe)
    rw [hLast, hSome]
    simp [endsInSpace, hNe, hSome, hOther]
  · have hNil : kept = [] := List.length_eq_zero_iff.mp (Nat.eq_zero_of_not_pos hPos)
    simp [endsInSpace, hNil, hOther]

/-- **The loop** squeezes the rest of the string behind what was kept. -/
theorem eliminateSpaces_spec {rest : List CHAR16} {turns : Nat} (hTurns : rest.length < turns)
    (hNul : 0 ∉ rest) (h : Compacted Str kept rest Index ActualIndex) : ∃ Str' ActualIndex',
    eliminateSpaces turns Str Index ActualIndex = some (Str', ActualIndex') ∧
      Str'.length = Str.length ∧ ActualIndex' < Str.length ∧
      Str'.take ActualIndex' = kept ++ squeeze 0x20 (endsInSpace kept) rest := by
  obtain ⟨tail, hBehind⟩ := h.behind
  obtain ⟨turns, rfl⟩ : ∃ turns', turns = turns' + 1 := ⟨turns - 1, by omega⟩
  induction rest generalizing Str kept Index ActualIndex turns tail with
  | nil =>
    have hLength := congrArg List.length hBehind
    have hLe := h.le
    rw [List.length_drop, List.nil_append, List.length_cons] at hLength
    refine ⟨Str, ActualIndex, ?_, rfl, by omega, by rw [h.front, squeeze, List.append_nil]⟩
    rw [eliminateSpaces, getElem?_of_drop hBehind]
    rfl
  | cons c rest ih =>
    obtain ⟨hZero, hRest⟩ := not_or.mp (mt List.mem_cons.mpr hNul)
    rw [List.length_cons] at hTurns
    obtain ⟨turns, rfl⟩ : ∃ turns', turns = turns' + 1 := ⟨turns - 1, by omega⟩
    obtain ⟨hWrite, hKept⟩ := compacted_keep h
    have hSkipped := compacted_skip h
    obtain ⟨tail₁, hBehind₁⟩ := hKept.behind
    obtain ⟨tail₂, hBehind₂⟩ := hSkipped.behind
    rw [eliminateSpaces, getElem?_of_drop hBehind]
    simp only [Option.bind_eq_bind, Option.bind_some, if_neg (Ne.symm hZero), keepsCharacter_eq h c]
    by_cases hSpace : c = 0x20
    · subst hSpace
      cases hEnds : endsInSpace kept with
      | true =>
        -- an extra space
        obtain ⟨Str', ActualIndex', hRun, hLength, hLess, hTake⟩ :=
          ih hRest hSkipped tail₂ hBehind₂ turns (by omega)
        refine ⟨Str', ActualIndex', ?_, hLength, hLess, ?_⟩
        · simpa using hRun
        · rw [hTake, hEnds]
          simp [squeeze]
      | false =>
        obtain ⟨Str', ActualIndex', hRun, hLength, hLess, hTake⟩ :=
          ih hRest hKept tail₁ hBehind₁ turns (by omega)
        rw [List.length_set] at hLength hLess
        refine ⟨Str', ActualIndex', ?_, hLength, hLess, ?_⟩
        · simpa [hWrite] using hRun
        · rw [hTake]
          simp [squeeze, endsInSpace]
    · obtain ⟨Str', ActualIndex', hRun, hLength, hLess, hTake⟩ :=
        ih hRest hKept tail₁ hBehind₁ turns (by omega)
      rw [List.length_set] at hLength hLess
      refine ⟨Str', ActualIndex', ?_, hLength, hLess, ?_⟩
      · simpa [hSpace, hWrite] using hRun
      · rw [hTake]
        simp [squeeze, endsInSpace, hSpace]

/-- The block in the end. -/
theorem BmEliminateExtraSpaces_eq (h : CString.IsString Str s) : ∃ Str',
    BmEliminateExtraSpaces Str = some Str' ∧ Str'.length = Str.length ∧
      CString.IsString Str' (squeeze 0x20 true s) := by
  obtain ⟨Str', ActualIndex, hRun, hLength, hLess, hTake⟩ :=
    eliminateSpaces_spec h.length_lt h.2 (compacted_start h)
  have hWrite : CString.write Str' ActualIndex 0 = some (Str'.set ActualIndex 0) :=
    if_pos (hLength ▸ hLess)
  refine ⟨Str'.set ActualIndex 0, ?_, by rw [List.length_set, hLength],
    ⟨Str'.drop (ActualIndex + 1), ?_⟩, fun hMem => ?_⟩
  · rw [BmEliminateExtraSpaces, hRun]
    exact hWrite
  · rw [List.set_eq_take_append_cons_drop, if_pos (hLength ▸ hLess), hTake]
    rfl
  · exact h.2 ((squeeze_sublist _ _ _).subset hMem)

/--
**Eliminating extra spaces.** In place and inside its block the string becomes one with the same words,
no space in front and no two spaces in a row; a string that is so already stays as it is.
-/
theorem eliminateExtraSpaces_words (h : CString.IsString Str s) : ∃ Str' s',
    BmEliminateExtraSpaces Str = some Str' ∧ Str'.length = Str.length ∧ CString.IsString Str' s' ∧
      words 0x20 s' = words 0x20 s ∧ Tidy 0x20 true s' ∧ (Tidy 0x20 true s → s' = s) := by
  obtain ⟨Str', hRun, hLength, hString⟩ := BmEliminateExtraSpaces_eq h
  exact ⟨Str', _, hRun, hLength, hString, words_squeeze _ s, tidy_squeeze _ _ s, squeeze_of_tidy⟩

/-- Blanks in front, behind and within. -/
theorem eliminateExtraSpaces_words_model : ∃ Str' s',
    BmEliminateExtraSpaces (L "  A   B " ++ [0]) = some Str' ∧ Str'.length = (L "  A   B " ++ [0]).length ∧
      CString.IsString Str' s' ∧ words 0x20 s' = words 0x20 (L "  A   B ") ∧ Tidy 0x20 true s' ∧
      (Tidy 0x20 true (L "  A   B ") → s' = L "  A   B ") :=
  eliminateExtraSpaces_words (CString.isString_exact (by decide)).1

end Spaces

end TianJi.Model
