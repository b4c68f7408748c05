import Uw7.Libelf.XlateRoundTrip

namespace Uw7.Libelf

/-!
# Pointers into string sections

`elf_strptr` from `libelf/common/strptr.c` and the offsets that `upd_lib` of `update.c` gives
the buffers of a section.  A pointer is the place of a buffer in the list, and a byte of it.
-/

open Option Nat List

/-- `Elf_Data`; `dBuf` tells whether `d_buf` is not null. -/
structure StrData where
  dBuf : Bool
  dType : ElfType
  dSize : Nat
  dOff : Nat
  dAlign : Nat

/-- A section with a header. -/
structure StrScn where
  shType : Nat
  buffers : List StrData

inductive StrErr where
  | EREQ_STRSCN
  | EREQ_STROFF
  deriving DecidableEq

/-- What both loops add to a size before a buffer. -/
def alignGap (sz align : Nat) : Nat :=
  if 1 < align ∧ sz % align ≠ 0 then align - sz % align else 0

/-- The loop of `elf_strptr` over the offsets of the buffers. -/
def strptrUsr (off : Nat) : List StrData → Option (Nat × Nat)
  | [] => none
  | d :: rest =>
    if d.dBuf = true ∧ d.dOff ≤ off ∧ off < (d.dOff + d.dSize) % 2 ^ 32 then
      some (0, off - d.dOff)
    else (strptrUsr off rest).map fun place => (place.1 + 1, place.2)

/-- The loop of `elf_strptr` over the buffers in order. -/
def strptrLib : List StrData → Nat → Nat → Option (Nat × Nat)
  | [], _, _ => none
  | d :: rest, sz, off =>
    let j := alignGap sz d.dAlign
    if off < j then none
    else if off - j < d.dSize then
      if d.dBuf then some (0, off - j) else none
    else
      (strptrLib rest ((sz + j + d.dSize) % 2 ^ 32) (off - j - d.dSize)).map
        fun place => (place.1 + 1, place.2)

def elfStrptr (layout : Bool) (scn : Option StrScn) (off : Nat) : Except StrErr (Nat × Nat) :=
  match scn with
  | none => .error .EREQ_STRSCN
  | some scn =>
    if scn.shType ≠ 3 then .error .EREQ_STRSCN
    else
      match if layout then strptrUsr off scn.buffers else strptrLib scn.buffers 0 off with
      | some place => .ok place
      | none => .error .EREQ_STROFF

/-- `db_osz`, as `upd_lib` computes it. -/
def StrData.osz (d : StrData) : Nat := filesz d.dType * (d.dSize / memsz d.dType)

/-- The `d_off` that `upd_lib` gives the buffers, if their sizes are these. -/
def updOffsets (size : StrData → Nat) : List StrData → Nat → List Nat
  | [], _ => []
  | d :: rest, sz =>
    let off := (sz + alignGap sz d.dAlign) % 2 ^ 32
    off :: updOffsets size rest ((off + size d) % 2 ^ 32)

def Lies (size : StrData → Nat) (buffers : List StrData) (offsets : List Nat) (off : Nat)
    (place : Nat × Nat) : Prop :=
  ∃ d start, buffers[place.1]? = some d ∧ offsets[place.1]? = some start ∧ d.dBuf = true ∧
    place.2 < size d ∧ off = start + place.2

/-- The end of the section stays below the limit of a `size_t`. -/
def SizesFit : List StrData → Nat → Prop
  | [], sz => sz < 2 ^ 32
  | d :: rest, sz => SizesFit rest (sz + alignGap sz d.dAlign + d.dSize)

/-- Buffers that have bytes count in full, and lie where they would lie if all buffers did. -/
def CountsBytes (buffers : List StrData) : Prop :=
  ∀ (place : Nat) (d : StrData), buffers[place]? = some d → d.dBuf = true → 0 < d.dSize →
    d.osz = d.dSize ∧ (updOffsets StrData.dSize buffers 0)[place]? =
      (updOffsets StrData.osz buffers 0)[place]?

variable {buffers : List StrData} {sz off : Nat}

theorem SizesFit.bound (fits : SizesFit buffers sz) : sz < 2 ^ 32 := by
  induction buffers generalizing sz with
  | nil => exact fits
  | cons d rest ih =>
    have := ih fits
    omega

theorem lies_zero {size : StrData → Nat} {d : StrData} {start k : Nat} {offsets : List Nat} :
    Lies size (d :: buffers) (start :: offsets) off (0, k) ↔
      d.dBuf = true ∧ k < size d ∧ off = start + k := by
  simp [Lies]

theorem lies_succ {size : StrData → Nat} {d : StrData} {start i k : Nat} {offsets : List Nat} :
    Lies size (d :: buffers) (start :: offsets) off (i + 1, k) ↔
      Lies size buffers offsets off (i, k) := by
  simp [Lies]

theorem updOffsets_cons (d : StrData) (fits : SizesFit (d :: buffers) sz) :
    updOffsets StrData.dSize (d :: buffers) sz = (sz + alignGap sz d.dAlign) ::
      updOffsets StrData.dSize buffers (sz + alignGap sz d.dAlign + d.dSize) := by
  have bound := @SizesFit.bound buffers _ fits
  rw [updOffsets, mod_eq_of_lt (by omega), mod_eq_of_lt bound]

theorem Lies.ge (fits : SizesFit buffers sz) {place : Nat × Nat}
    (lies : Lies StrData.dSize buffers (updOffsets StrData.dSize buffers sz) off place) :
    sz ≤ off := by
  induction buffers generalizing sz place with
  | nil => simp [Lies] at lies
  | cons d rest ih =>
    rw [updOffsets_cons d fits] at lies
    obtain ⟨_ | i, k⟩ := place
    · have := (lies_zero.1 lies).2.2
      omega
    · have := ih fits (lies_succ.1 lies)
      omega

theorem strptrLib_iff (fits : SizesFit buffers sz) (place : Nat × Nat) :
    strptrLib buffers sz off = some place ↔
      Lies StrData.dSize buffers (updOffsets StrData.dSize buffers sz) (sz + off) place := by
  induction buffers generalizing sz off place with
  | nil => simp [strptrLib, Lies]
  | cons d rest ih =>
    have bound := @SizesFit.bound rest _ fits
    have later := fun place => @Lies.ge rest _ (sz + off) fits place
    obtain ⟨i, k⟩ := place
    rw [updOffsets_cons d fits, strptrLib]
    rw [SizesFit] at fits
    generalize alignGap sz d.dAlign = gap at fits bound later ⊢
    simp only [mod_eq_of_lt bound]
    cases i with
    | zero =>
      rw [lies_zero]
      split_ifs with before inside isBuf
      · simp only [false_iff]
        omega
      · simp only [some.injEq, Prod.mk.injEq, true_and, isBuf]
        omega
      · simp [isBuf]
      · simp only [map_eq_some_iff, Prod.mk.injEq, add_one_ne_zero, false_and,
          and_false, exists_false, false_iff]
        omega
    | succ i =>
      rw [lies_succ]
      have beyond := later (i, k)
      have early (within : off < gap + d.dSize) : ¬Lies StrData.dSize rest
          (updOffsets StrData.dSize rest (sz + gap + d.dSize)) (sz + off) (i, k) := by
        intro lies
        have := beyond lies
        omega
      split_ifs with before inside isBuf
      · simp [early (by omega)]
      · simp [early (by omega)]
      · simp [early (by omega)]
      · have rest := @ih _ (off - gap - d.dSize) fits (i, k)
        rw [show sz + gap + d.dSize + (off - gap - d.dSize) = sz + off by omega] at rest
        rw [← rest]
        simp

theorem osz_le (d : StrData) : d.osz ≤ d.dSize := by
  rw [StrData.osz, memsz_eq_filesz]
  exact mul_div_le _ _

theorem length_updOffsets (size : StrData → Nat) (buffers : List StrData) (sz : Nat) :
    (updOffsets size buffers sz).length = buffers.length := by
  induction buffers generalizing sz with
  | nil => rfl
  | cons d rest ih => rw [updOffsets, length_cons, ih, length_cons]

theorem strptrLib_right_iff (fits : SizesFit buffers 0) :
    (∀ off place, strptrLib buffers 0 off = some place ↔
      Lies StrData.osz buffers (updOffsets StrData.osz buffers 0) off place) ↔
      CountsBytes buffers := by
  simp only [strptrLib_iff fits, Nat.zero_add]
  constructor
  · intro same i d isData isBuf bytes
    obtain ⟨start, isStart⟩ : ∃ start, (updOffsets StrData.dSize buffers 0)[i]? = some start := by
      obtain ⟨within, -⟩ := List.getElem?_eq_some_iff.1 isData
      exact ⟨_, List.getElem?_eq_getElem (by rwa [length_updOffsets])⟩
    have lies (k : Nat) (inside : k < d.dSize) := (same (start + k) (i, k)).1
      ⟨d, start, isData, isStart, isBuf, inside, rfl⟩
    obtain ⟨d', start', isData', isStart', -, -, equal⟩ := lies 0 bytes
    obtain rfl : start = start' := by simpa using equal
    refine ⟨Nat.le_antisymm (osz_le d) (Nat.le_of_not_lt fun short => ?_),
      isStart.trans isStart'.symm⟩
    obtain ⟨d', -, isData', -, -, inside, -⟩ := lies d.osz short
    cases isData.symm.trans isData'
    exact absurd inside (Nat.lt_irrefl _)
  · intro counts off place
    constructor
    · rintro ⟨d, start, isData, isStart, isBuf, inside, equal⟩
      obtain ⟨whole, sameStart⟩ := counts _ d isData isBuf (by omega)
      exact ⟨d, start, isData, sameStart ▸ isStart, isBuf, whole ▸ inside, equal⟩
    · rintro ⟨d, start, isData, isStart, isBuf, inside, equal⟩
      have within := Nat.lt_of_lt_of_le inside (osz_le d)
      obtain ⟨-, sameStart⟩ := counts _ d isData isBuf (by omega)
      exact ⟨d, start, isData, sameStart ▸ isStart, isBuf, within, equal⟩

theorem strptrUsr_right (bounded : ∀ d ∈ buffers, d.dOff + d.dSize < 2 ^ 32) :
    (∀ place, strptrUsr off buffers = some place →
      Lies StrData.dSize buffers (buffers.map StrData.dOff) off place) ∧
    (strptrUsr off buffers = none → ∀ place,
      ¬Lies StrData.dSize buffers (buffers.map StrData.dOff) off place) := by
  induction buffers with
  | nil => simp [strptrUsr, Lies]
  | cons d rest ih =>
    obtain ⟨found, missed⟩ := ih fun other member => bounded other (mem_cons_of_mem d member)
    rw [strptrUsr, mod_eq_of_lt (bounded d mem_cons_self), map_cons]
    split_ifs with here
    · obtain ⟨isBuf, after, before⟩ := here
      refine ⟨fun place isPlace => ?_, by simp⟩
      obtain rfl := some.inj isPlace
      exact lies_zero.2 ⟨isBuf, by omega, by omega⟩
    · constructor
      · intro place isPlace
        obtain ⟨⟨i, k⟩, isFound, rfl⟩ := Option.map_eq_some_iff.1 isPlace
        exact lies_succ.2 (found _ isFound)
      · rintro isNone ⟨_ | i, k⟩ lies
        · obtain ⟨isBuf, inside, equal⟩ := lies_zero.1 lies
          exact here ⟨isBuf, by omega, by omega⟩
        · exact missed (Option.map_eq_none_iff.1 isNone) _ (lies_succ.1 lies)

/-- **`elf_strptr`** under library layout finds the byte that `upd_lib` puts at the offset exactly
when the buffers count in full; under application layout it finds one with that offset. -/
theorem elfStrptr_right (scn : StrScn) (isStrtab : scn.shType = 3) :
    (SizesFit scn.buffers 0 → ((∀ off place, elfStrptr false (some scn) off = .ok place ↔
      Lies StrData.osz scn.buffers (updOffsets StrData.osz scn.buffers 0) off place) ↔
      CountsBytes scn.buffers)) ∧
    ((∀ d ∈ scn.buffers, d.dOff + d.dSize < 2 ^ 32) → ∀ off,
      (∀ place, elfStrptr true (some scn) off = .ok place →
        Lies StrData.dSize scn.buffers (scn.buffers.map StrData.dOff) off place) ∧
      (elfStrptr true (some scn) off = .error .EREQ_STROFF ↔ ∀ place,
        ¬Lies StrData.dSize scn.buffers (scn.buffers.map StrData.dOff) off place)) := by
  have okay (layout : Bool) (off : Nat) (place : Nat × Nat) :
      elfStrptr layout (some scn) off = .ok place ↔
        (if layout then strptrUsr off scn.buffers else strptrLib scn.buffers 0 off) =
          some place := by
    unfold elfStrptr
    cases found : if layout then strptrUsr off scn.buffers else strptrLib scn.buffers 0 off <;>
      simp [isStrtab, found]
  refine ⟨fun fits => ?_, fun bounded off => ?_⟩
  · rw [← strptrLib_right_iff fits]
    simp only [okay, Bool.false_eq_true, if_false]
  · obtain ⟨found, missed⟩ := @strptrUsr_right scn.buffers off bounded
    refine ⟨fun place isPlace => found place ((okay true off place).1 isPlace), ?_⟩
    unfold elfStrptr
    cases result : strptrUsr off scn.buffers with
    | none => simp [isStrtab, result, missed result]
    | some place =>
      simp only [isStrtab, result, ne_eq, not_true_eq_false, if_false, if_true, reduceCtorEq,
        false_iff, not_forall, not_not]
      exact ⟨place, found place result⟩

/-- Five bytes whose type is that of words, and three more. -/
def halfWord : StrScn := ⟨3, [⟨true, .word, 5, 0, 1⟩, ⟨true, .byte, 3, 0, 1⟩]⟩

theorem elfStrptr_halfWord : ¬ ∀ off place, elfStrptr false (some halfWord) off = .ok place ↔
    Lies StrData.osz halfWord.buffers (updOffsets StrData.osz halfWord.buffers 0) off place := by
  rw [(elfStrptr_right halfWord rfl).1 (by simp [SizesFit, halfWord, alignGap])]
  intro counts
  exact absurd (counts 0 _ rfl rfl (by decide)).1 (by decide)

theorem elfStrptr_shifted : elfStrptr false (some halfWord) 4 = .ok (0, 4) ∧
    Lies StrData.osz halfWord.buffers (updOffsets StrData.osz halfWord.buffers 0) 4 (1, 0) :=
  ⟨by decide, _, 4, rfl, by decide, rfl, by decide, rfl⟩

end Uw7.Libelf
