import TianJi.Model.OptionStore
import TianJi.Model.SortLib

/-!
# TianJi — sorting the order of load options

`EfiBootManagerSortLoadOptionVariable` (BmLoadOption.c) reads the options of a type, sorts them as
an array with the comparison of its caller, and writes their numbers as the new order.

* `sortOptions_spec` — the array is permuted, and in order when the comparison makes one.
* `sort_cases`       — what is left of the variables, whether the firmware takes the order or not.
-/

namespace TianJi.Model

open Memory

-- ---------------------------------------------------------------------------
-- The code
-- ---------------------------------------------------------------------------

/-- What lies behind the array is never looked at. -/
instance : Inhabited LoadOption := ⟨⟨0, .Boot, 0, none, none, [], Nat.two_pow_pos 32⟩⟩

/-- The array of options after `PerformQuickSort`. -/
def sortOptions (CompareFunction : LoadOption → LoadOption → Int) (l : List LoadOption) :
    List LoadOption :=
  (List.range' 0 l.length).map
    (PerformQuickSort (.fresh fun i => l.getD i default) 0 l.length CompareFunction).cells

/-- `EfiBootManagerSortLoadOptionVariable`, for a type that has an order. The status of the firmware
is not looked at. -/
def EfiBootManagerSortLoadOptionVariable (gRT : RuntimeServices) (s : gRT.State)
    (OptionType : LoadOptionType) (CompareFunction : LoadOption → LoadOption → Int) :
    Option gRT.State := do
  let OptionOrderName ← mBmLoadOptionOrderName OptionType
  let (LoadOption, s) ← EfiBootManagerGetLoadOptions gRT s OptionType
  let OptionOrder := (sortOptions CompareFunction LoadOption).map fun o => o.OptionNumber.toUInt16
  return (gRT.SetVariable s OptionOrderName nonVolatile (OptionOrder.flatMap uint16Bytes)).2

-- ---------------------------------------------------------------------------
-- The array
-- ---------------------------------------------------------------------------

theorem map_getD_range' (l : List LoadOption) :
    ((List.range' 0 l.length).map fun i => l.getD i default) = l := by
  refine List.ext_getElem (by simp) fun i hi hi' => ?_
  simp [List.getD_eq_getElem?_getD, hi']

theorem sortOptions_spec (c : LoadOption → LoadOption → Int) (l : List LoadOption) :
    (sortOptions c l).Perm l ∧ (Compares c → (sortOptions c l).Pairwise fun x y => c x y ≤ 0) := by
  have hSorts := sorts_quickSort c l.length (.fresh fun i => l.getD i default) 0
  refine ⟨?_, fun hCompares => (hSorts.ordered hCompares).pairwise⟩
  have hPerm := hSorts.rearranges.perm
  rw [Region.cells_fresh, map_getD_range'] at hPerm
  exact hPerm

-- ---------------------------------------------------------------------------
-- The order
-- ---------------------------------------------------------------------------

/-- The key of an option. -/
def keyOf (o : LoadOption) : UINT16 := o.OptionNumber.toUInt16

section

variable {gRT : RuntimeServices} {s s' : gRT.State} {t : LoadOptionType} {name : List CHAR16}
  {c : LoadOption → LoadOption → Int}

theorem keyed (k : UINT16) (a : LoadOption) (h : (listing gRT s t).lookup k = some a) :
    keyOf a = k := by
  rw [keyOf, number_of_loaded h, UInt16.toUInt16_toUInt64]

/-- The options that the loop takes have their numbers from the order. -/
theorem collectOptions_keys {ns : List UINT16} {l : List LoadOption}
    (h : collectOptions gRT t ns s = some (l, s')) : (l.map keyOf).Sublist ns := by
  induction ns generalizing s l with
  | nil =>
    cases h
    exact List.Sublist.refl _
  | cons n ns ih =>
    rw [collectOptions, optionName_small, Option.bind_eq_bind, Option.bind_some] at h
    obtain ⟨r, hRead, h⟩ := Option.bind_eq_some_iff.mp h
    cases r with
    | error Status =>
      obtain ⟨Status', between, hDelete, -⟩ := exists_deletes gRT s t n
      simp only [hDelete, Option.bind_eq_bind, Option.bind_some] at h
      exact (ih h).cons n
    | ok o =>
      obtain ⟨⟨Options, s''⟩, hRest, hPair⟩ := Option.bind_eq_some_iff.mp h
      cases hPair
      have hKey : keyOf o = n := by
        refine @keyed gRT s t n o ?_
        show loaded gRT s t n = some o
        rw [loaded, hRead]
        rfl
      rw [List.map_cons, hKey]
      exact (ih hRest).cons_cons n

/-- **The new order** holds the numbers of the options as they are sorted, or the firmware did not
take it. -/
theorem sort_cases (hName : mBmLoadOptionOrderName t = some name)
    (h : EfiBootManagerSortLoadOptionVariable gRT s t c = some s') :
    ∃ l between, EfiBootManagerGetLoadOptions gRT s t = some (l, between) ∧
      (∀ m ≠ name, gRT.GetVariable s' m = gRT.GetVariable between m) ∧
      (numbers gRT s' t = (sortOptions c l).map keyOf ∨
        EFI_ERROR (gRT.SetVariable between name nonVolatile
          (((sortOptions c l).map keyOf).flatMap uint16Bytes)).1 = true ∧
          gRT.GetVariable s' = gRT.GetVariable between) := by
  rw [EfiBootManagerSortLoadOptionVariable, hName, Option.bind_eq_bind, Option.bind_some] at h
  obtain ⟨⟨l, between⟩, hRead, h⟩ := Option.bind_eq_some_iff.mp h
  have hState : (gRT.SetVariable between name nonVolatile
      (((sortOptions c l).map keyOf).flatMap uint16Bytes)).2 = s' := Option.some.inj h
  refine ⟨l, between, hRead, fun m hm => ?_, ?_⟩
  · rw [← hState]
    exact get_of_ne hm
  · cases hStatus : EFI_ERROR (gRT.SetVariable between name nonVolatile
        (((sortOptions c l).map keyOf).flatMap uint16Bytes)).1 with
    | true =>
      right
      rw [← hState]
      exact ⟨rfl, gRT.get_refused _ _ _ _ hStatus⟩
    | false =>
      left
      have hWords := wholeChars_flatMap ((sortOptions c l).map keyOf) []
      rw [List.append_nil, wholeChars, List.append_nil] at hWords
      rw [numbers_eq hName, ← hState, bytes_stored hStatus nonVolatile_ne_zero, hWords]

end

end TianJi.Model
