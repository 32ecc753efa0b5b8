import TianJi.Model.SPrintText

/-!
# TianJi — the name of the background picture

`获取随机背景文件名` (天玑.c): one of 44 names, chosen by the time, printed into a block of
memory that was allocated for as many characters as the name is meant to have.

* `background_fills` — whatever the time is, the name and its terminator fill the block.
-/

namespace TianJi.Model

open Memory Numeral

-- ---------------------------------------------------------------------------
-- The code
-- ---------------------------------------------------------------------------

/-- The directory of the pictures and what their names begin with. -/
def «前缀» : List CHAR16 := L "\\EFI\\TianJI\\Image\\Background\\背景"

def «后缀» : List CHAR16 := L ".图片"

theorem «前缀_no_nul» : 0 ∉ «前缀» := by decide

/-- The characters that the source counts as 33. -/
theorem «length_前缀» : «前缀».length = 31 := by decide

theorem «后缀_no_nul» : 0 ∉ «后缀» := by decide

/-- And those that it counts as 4. -/
theorem «length_后缀» : «后缀».length = 3 := by decide

theorem «length_前缀_lt» : «前缀».length < 2 ^ 63 := by
  rw [«length_前缀»]
  decide

theorem «length_后缀_lt» : «后缀».length < 2 ^ 63 := by
  rw [«length_后缀»]
  decide

/-- Without a time the seed is 0. -/
def «随机种子» (GetTime : Except EFI_STATUS TIME) : UINTN :=
  match GetTime with
  | .error _ => 0
  | .ok t => t.Year.toUInt64 + t.Month.toUInt64 + t.Day.toUInt64 + t.Hour.toUInt64 +
      t.Minute.toUInt64 + t.Second.toUInt64

/-- There are 44 pictures, counted from 1. -/
def «随机数» (GetTime : Except EFI_STATUS TIME) : UINTN := «随机种子» GetTime % 44 + 1

/-- The size of the block and the block with the name; NULL where the pool has no block. -/
def «获取随机背景文件名» (GetTime : Except EFI_STATUS TIME) (pool : Option ByteBuffer) :
    Option (Option (UINTN × Region UINT8)) :=
  let «数字位数» : UINTN := if «随机数» GetTime < 10 then 1 else 2
  let «总字符数» := UInt64.ofNat «前缀».length + «数字位数» + UInt64.ofNat «后缀».length + 1
  match pool with
  | none => some none
  | some memory => do
    let (_, «文件名») ← UnicodeSPrint (some (Region.fresh memory)) («总字符数» * 2) (L "%s%u%s")
      [.string (some ⟨«前缀», «前缀_no_nul», «length_前缀_lt»⟩), .word («随机数» GetTime),
        .string (some ⟨«后缀», «后缀_no_nul», «length_后缀_lt»⟩)]
    return «文件名».map fun block => («总字符数» * 2, block)

-- ---------------------------------------------------------------------------
-- The name
-- ---------------------------------------------------------------------------

/-- The name with a number. -/
def backgroundName (k : Nat) : List CHAR16 := «前缀» ++ decimalText k ++ «后缀»

variable {GetTime : Except EFI_STATUS TIME}

/-- The number of a picture, without wrapping. -/
theorem «随机数_range» (GetTime : Except EFI_STATUS TIME) :
    («随机数» GetTime).toNat = («随机种子» GetTime).toNat % 44 + 1 ∧ («随机数» GetTime).toNat ≤ 44 := by
  have hMod : («随机种子» GetTime % 44).toNat = («随机种子» GetTime).toNat % 44 := UInt64.toNat_mod _ _
  have hLt : («随机种子» GetTime).toNat % 44 < 44 := Nat.mod_lt _ (by decide)
  have hOne : (1 : UINTN).toNat = 1 := rfl
  rw [«随机数», UInt64.toNat_add, hMod, hOne]
  omega

/-- The format has three items: a string, an unsigned number and a string. -/
theorem pieces_background (s s' : NulString CHAR16) (v : UINTN) :
    pieces BasePrintLibSPrint (L "%s%u%s") [.string (some s), .word v, .string (some s')] =
      some [stringPiece (stringSpec {}) (s.chars.map UInt16.toUInt64),
        numberPiece ⟨{ UNSIGNED_TYPE := true }, 0, 1⟩ v.toUInt32.toInt32.toInt64,
        stringPiece (stringSpec {}) (s'.chars.map UInt16.toUInt64)] := by
  have hFormat : L "%s%u%s" = [0x25, 0x73, 0x25, 0x75, 0x25, 0x73] := by decide
  -- no item has flags: behind the percent sign the conversion follows at once
  have hString : parseFlags [0x73, 0x25, 0x75, 0x25, 0x73] {}
      [.string (some s), .word v, .string (some s')] =
        some ({}, 0x73, [0x25, 0x75, 0x25, 0x73], [.string (some s), .word v, .string (some s')]) := by
    rw [parseFlags]
    simp [chr, isDigit]
  have hNumber : parseFlags [0x75, 0x25, 0x73] {} [.word v, .string (some s')] =
      some ({}, 0x75, [0x25, 0x73], [.word v, .string (some s')]) := by
    rw [parseFlags]
    simp [chr, isDigit]
  have hLast : parseFlags [0x73] {} [.string (some s')] =
      some ({}, 0x73, [], [.string (some s')]) := by
    rw [parseFlags]
    simp [chr, isDigit]
  -- so the items are taken off one by one, with an argument for each
  have hFirst : nextPiece BasePrintLibSPrint 0x25 [0x73, 0x25, 0x75, 0x25, 0x73]
      [.string (some s), .word v, .string (some s')] = some (stringPiece (stringSpec {})
        (s.chars.map UInt16.toUInt64), [0x25, 0x75, 0x25, 0x73], [.word v, .string (some s')]) := by
    rw [nextPiece, if_pos (by decide), hString]
    rfl
  have hSecond : nextPiece BasePrintLibSPrint 0x25 [0x75, 0x25, 0x73] [.word v, .string (some s')] =
      some (numberPiece ⟨{ UNSIGNED_TYPE := true }, 0, 1⟩ v.toUInt32.toInt32.toInt64,
        [0x25, 0x73], [.string (some s')]) := by
    rw [nextPiece, if_pos (by decide), hNumber]
    rfl
  have hThird : nextPiece BasePrintLibSPrint 0x25 [0x73] [.string (some s')] =
      some (stringPiece (stringSpec {}) (s'.chars.map UInt16.toUInt64), [], []) := by
    rw [nextPiece, if_pos (by decide), hLast]
    rfl
  rw [hFormat, pieces_next hFirst, pieces_next hSecond, pieces_next hThird, pieces]
  rfl

/-- The numbers that are chosen have as many digits as are allowed for. -/
theorem decimalText_small {k : Nat} (hk : k < 45) : paddedText Radix.decimal 1 k = decimalText k ∧
    (decimalText k).length = if k < 10 then 1 else 2 := by
  have hAll : ∀ k < 45, paddedText Radix.decimal 1 k = decimalText k ∧
      (decimalText k).length = if k < 10 then 1 else 2 := by decide
  exact hAll k hk

/-- Printed one behind the other they are the name, as the number is too small for the sign of an
`int` to matter. -/
theorem text_background (s s' : NulString CHAR16) {v : UINTN} (hv : v.toNat < 45) :
    [stringPiece (stringSpec {}) (s.chars.map UInt16.toUInt64),
        numberPiece ⟨{ UNSIGNED_TYPE := true }, 0, 1⟩ v.toUInt32.toInt32.toInt64,
        stringPiece (stringSpec {}) (s'.chars.map UInt16.toUInt64)].flatMap Piece.text =
      (s.chars ++ decimalText v.toNat ++ s'.chars).map UInt16.toUInt64 := by
  have hHalf : v.toUInt32.toNat = v.toNat := by
    rw [UInt64.toNat_toUInt32]
    omega
  have hFirst := text_string ((List.length_map UInt16.toUInt64).trans_lt s.length_lt)
  have hLast := text_string ((List.length_map UInt16.toUInt64).trans_lt s'.length_lt)
  rw [List.flatMap_cons, List.flatMap_cons, List.flatMap_cons, List.flatMap_nil, List.append_nil,
    hFirst, hLast, text_unsigned, hHalf, (decimalText_small hv).1, List.map_append, List.map_append,
    List.append_assoc]

/--
**The name fills its block.** For every time, and without one, the block holds the name with the
number that is chosen, and every byte of the block was stored once.
-/
theorem background_fills (GetTime : Except EFI_STATUS TIME) (memory : ByteBuffer) :
    ∃ k size block, k = («随机种子» GetTime).toNat % 44 + 1 ∧
      «获取随机背景文件名» GetTime (some memory) = some (some (size, block)) ∧
      HoldsString block.cells (backgroundName k) ∧ block.stores = List.range size.toNat := by
  obtain ⟨hChosen, hLe⟩ := «随机数_range» GetTime
  have hDigits := (decimalText_small (Nat.lt_succ_of_le hLe)).2
  -- what the source allows for the digits is what they take
  let digits : UINTN := if «随机数» GetTime < 10 then 1 else 2
  have hCount : digits.toNat = (decimalText («随机数» GetTime).toNat).length := by
    have hTen : («随机数» GetTime < 10) = ((«随机数» GetTime).toNat < 10) := by
      rw [UInt64.lt_iff_toNat_lt]
      rfl
    rw [hDigits]
    simp only [digits, hTen]
    split_ifs
    · rfl
    · rfl
  have hTwo : digits.toNat ≤ 2 := by
    rw [hCount, hDigits]
    split_ifs <;> decide
  -- so the block has room for the name and its terminator, and for nothing else
  have hName : (backgroundName («随机数» GetTime).toNat).length = 34 + digits.toNat := by
    rw [backgroundName, List.length_append, List.length_append, «length_前缀», «length_后缀», hCount]
    omega
  let size := (UInt64.ofNat «前缀».length + digits + UInt64.ofNat «后缀».length + 1) * 2
  have hSize : size.toNat = 2 * (35 + digits.toNat) := by
    have hSum : size = UInt64.ofNat (2 * (35 + digits.toNat)) := by
      have hBack : UInt64.ofNat digits.toNat = digits := UInt64.ofNat_toNat
      rw [UInt64.ofNat_mul, UInt64.ofNat_add, hBack]
      simp only [size, «length_前缀», «length_后缀»]
      have hFirst : UInt64.ofNat 31 = 31 := rfl
      have hLast : UInt64.ofNat 3 = 3 := rfl
      have hAll : UInt64.ofNat 35 = 35 := rfl
      have hPair : UInt64.ofNat 2 = 2 := rfl
      rw [hFirst, hLast, hAll, hPair]
      grind
    rw [hSum]
    exact UInt64.toNat_ofNat_of_lt' (show _ < 2 ^ 64 by omega)
  have hRoom : 2 ≤ size.toNat ∧ size.toNat ≤ 2000000 := by
    omega
  obtain ⟨block, hRun, hHolds, hStores⟩ := unicodeSPrint_string (Region.fresh memory)
    (pieces_background ⟨«前缀», «前缀_no_nul», «length_前缀_lt»⟩
      ⟨«后缀», «后缀_no_nul», «length_后缀_lt»⟩ («随机数» GetTime))
    (text_background _ _ (Nat.lt_succ_of_le hLe)) hRoom.1 hRoom.2 (by decide)
  change HoldsString block.cells ((backgroundName («随机数» GetTime).toNat).take _) at hHolds
  change block.stores = [] ++
    List.range (2 * (min _ (backgroundName («随机数» GetTime).toNat).length + 1)) at hStores
  -- nothing of the name is cut off
  have hWhole : size.toNat / 2 - 1 = (backgroundName («随机数» GetTime).toNat).length := by
    omega
  refine ⟨_, size, block, rfl, ?_, ?_, ?_⟩
  · rw [«获取随机背景文件名»]
    change (UnicodeSPrint (some (Region.fresh memory)) size (L "%s%u%s") _).bind _ = _
    rw [hRun]
    rfl
  · rw [hWhole, List.take_length, hChosen] at hHolds
    exact hHolds
  · rw [hWhole, Nat.min_self, List.nil_append] at hStores
    rw [hStores, hName, hSize]
    congr 2
    omega

end TianJi.Model
