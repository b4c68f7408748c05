import Mathlib.Algebra.Order.Ring.Int
import Mathlib.Data.List.Perm.Basic
import Uw7.Lib.Run

namespace Uw7.Rtld.SpaceList

/-!
# The heap of the run-time linker

`_rtmkspace` and `_rtmalloc` from `rtld/i386/rtfcns.c`, whose heap is a list of `Space` headers.
What `_rt_map_zero` returns is given.
-/

open Lib List

/-- An address, and the bytes from it on. -/
abbrev Bytes := Nat × Nat

/-- A `Space`, with the address at which it is. -/
structure Space where
  addr : Nat
  sSize : Nat
  sPtr : Nat

/-- `sizeof(Space)`. -/
def sizeofSpace : Nat := 12

structure Heap where
  /-- The list that starts at `space`. -/
  space : List Space
  /-- The memory that was donated or mapped. -/
  ranges : List Bytes
  /-- What `_rtmalloc` has returned, with the size that was asked for. -/
  blocks : List Bytes

/-- A value of `size_t`. -/
def toSize (value : Int) : Nat := (value % 2 ^ 32).toNat

/-- `DROUND`. -/
def dround (nb : Nat) : Nat := toSize (nb + 7) / 8 * 8

/-- `PROUND`. -/
def pround (nb : Nat) : Nat := toSize (nb + 4095) / 4096 * 4096

/-- `_rtmkspace`. -/
def rtmkspace (heap : Heap) (p sz : Nat) : Heap :=
  { heap with
    ranges := (p, sz) :: heap.ranges
    space :=
      if sz < 2 * sizeofSpace + 64 then heap.space
      else
        -- aligned on a double boundary
        let j := 8 - p % 8
        heap.space ++ [⟨p + j, toSize (sz - (j + sizeofSpace)), p + j + sizeofSpace⟩] }

/-- The walk of `_rtmalloc` along the list. -/
def takeFrom (nb : Nat) : List Space → Option (Nat × List Space)
  | [] => none
  | sp :: next =>
    if sp.sSize ≥ nb then
      let sSize := sp.sSize - nb
      some (sp.sPtr, if sSize ≥ 8 then { sp with sSize, sPtr := sp.sPtr + nb } :: next else next)
    else (takeFrom nb next).map fun (tp, rest) => (tp, sp :: rest)

/-- `_rtmalloc`, where `_rt_map_zero` returns `mapped`. -/
def rtmalloc (heap : Heap) (nb : Nat) (mapped : Option Nat) : Heap × Option Nat :=
  match takeFrom (dround nb) heap.space, mapped with
  | some (tp, space), _ => ({ heap with space, blocks := (tp, nb) :: heap.blocks }, some tp)
  | none, none => (heap, none)
  | none, some sp =>
    let tp := sp + sizeofSpace
    ({ space := heap.space ++
        [⟨sp, toSize (pround (dround nb) - dround nb - sizeofSpace), tp + dround nb⟩]
       ranges := (sp, pround (dround nb)) :: heap.ranges
       blocks := (tp, nb) :: heap.blocks }, some tp)

def Apart (first second : Bytes) : Prop :=
  first.1 + first.2 ≤ second.1 ∨ second.1 + second.2 ≤ first.1

instance (first second : Bytes) : Decidable (Apart first second) :=
  inferInstanceAs (Decidable (_ ∨ _))

def Inside (part whole : Bytes) : Prop :=
  whole.1 ≤ part.1 ∧ part.1 + part.2 ≤ whole.1 + whole.2

inductive HeapAction where
  | mkspace (p sz : Nat)
  | malloc (nb : Nat) (mapped : Option Nat)

/-- Memory that is donated or mapped is apart from all that was before. -/
inductive HeapStep (heap : Heap) : HeapAction → Heap → Prop where
  | mkspace {p sz : Nat} (size : sz < 2 ^ 32) (fresh : ∀ range ∈ heap.ranges, Apart (p, sz) range) :
      HeapStep heap (.mkspace p sz) (rtmkspace heap p sz)
  | malloc {nb : Nat} {mapped : Option Nat} (size : nb < 2 ^ 32)
      (fresh : ∀ sp ∈ mapped, sp % 4096 = 0 ∧
        ∀ range ∈ heap.ranges, Apart (sp, pround (dround nb)) range) :
      HeapStep heap (.malloc nb mapped) (rtmalloc heap nb mapped).1

/-- Rounding does not wrap, and the pages that are mapped have room for the header too. -/
def HeapGuard (heap : Heap) : HeapAction → Prop
  | .mkspace _ _ => True
  | .malloc nb mapped => nb + 7 < 2 ^ 32 ∧ (takeFrom (dround nb) heap.space = none → mapped ≠ none →
        dround nb + sizeofSpace ≤ pround (dround nb))

/-- What is expected of the heap. -/
structure HeapWell (heap : Heap) : Prop where
  apart : heap.blocks.Pairwise Apart
  inside : ∀ block ∈ heap.blocks, ∃ range ∈ heap.ranges, Inside block range
  /-- The compiler aligns a `double` to four bytes. -/
  aligned : ∀ block ∈ heap.blocks, block.1 % 4 = 0
  headers : ∀ block ∈ heap.blocks, ∀ sp ∈ heap.space, Apart block (sp.addr, sizeofSpace)
  /-- What is said to be left in a space is there, and not in use. -/
  sizes : ∀ sp ∈ heap.space, (∃ range ∈ heap.ranges, Inside (sp.sPtr, sp.sSize) range) ∧
    ∀ block ∈ heap.blocks, Apart block (sp.sPtr, sp.sSize)

theorem Apart.symm {first second : Bytes} (apart : Apart first second) : Apart second first :=
  Or.symm apart

theorem Apart.part {first second part part' : Bytes} (apart : Apart first second)
    (inside : Inside part first) (inside' : Inside part' second) : Apart part part' := by
  unfold Apart Inside at *
  omega

theorem Inside.trans {first second third : Bytes} (inner : Inside first second)
    (outer : Inside second third) : Inside first third := by
  unfold Inside at *
  omega

/-- From the header to the end of what is left. -/
def Space.whole (sp : Space) : Bytes := (sp.addr, sp.sPtr + sp.sSize - sp.addr)

def Space.Ordered (sp : Space) : Prop := sp.addr + sizeofSpace ≤ sp.sPtr ∧ sp.sPtr % 4 = 0

theorem Space.Ordered.header_inside {sp : Space} (ordered : sp.Ordered) :
    Inside (sp.addr, sizeofSpace) sp.whole := by
  unfold Ordered at ordered
  unfold Inside whole
  omega

theorem Space.Ordered.rest_inside {sp : Space} (ordered : sp.Ordered) :
    Inside (sp.sPtr, sp.sSize) sp.whole := by
  unfold Ordered at ordered
  unfold Inside whole
  omega

structure HeapInv (heap : Heap) : Prop extends HeapWell heap where
  ordered : ∀ sp ∈ heap.space, sp.Ordered
  spaces : (heap.space.map Space.whole).Pairwise Apart
  placed : ∀ sp ∈ heap.space, ∃ range ∈ heap.ranges, Inside sp.whole range

namespace HeapInv

variable {space space' : List Space} {ranges blocks : List Bytes}

theorem perm (same : space ~ space') (inv : HeapInv ⟨space, ranges, blocks⟩) :
    HeapInv ⟨space', ranges, blocks⟩ where
  __ := inv
  headers := fun block isBlock sp isSpace => inv.headers block isBlock sp (same.mem_iff.mpr isSpace)
  sizes := fun sp isSpace => inv.sizes sp (same.mem_iff.mpr isSpace)
  ordered := fun sp isSpace => inv.ordered sp (same.mem_iff.mpr isSpace)
  spaces := ((same.map _).pairwise_iff Apart.symm).mp inv.spaces
  placed := fun sp isSpace => inv.placed sp (same.mem_iff.mpr isSpace)

theorem unlink {sp : Space} (inv : HeapInv ⟨sp :: space, ranges, blocks⟩) :
    HeapInv ⟨space, ranges, blocks⟩ where
  __ := inv
  headers := fun block isBlock => (forall_mem_cons.mp (inv.headers block isBlock)).2
  sizes := (forall_mem_cons.mp inv.sizes).2
  ordered := (forall_mem_cons.mp inv.ordered).2
  spaces := inv.spaces.tail
  placed := (forall_mem_cons.mp inv.placed).2

/-- A block is taken from the front of what is left in a space. -/
theorem take {sp : Space} {nb size : Nat} (inv : HeapInv ⟨sp :: space, ranges, blocks⟩)
    (size_le : size ≤ nb) (room : nb ≤ sp.sSize) (multiple : nb % 4 = 0) :
    HeapInv ⟨⟨sp.addr, sp.sSize - nb, sp.sPtr + nb⟩ :: space, ranges,
      (sp.sPtr, size) :: blocks⟩ := by
  obtain ⟨⟨apart, inside, aligned, headers, sizes⟩, ordered, spaces, placed⟩ := inv
  simp only [forall_mem_cons, map_cons, pairwise_cons] at *
  obtain ⟨spOrdered, othersOrdered⟩ := ordered
  obtain ⟨behind, ptrAligned⟩ := spOrdered
  obtain ⟨⟨⟨range, isRange, inRange⟩, free⟩, othersSized⟩ := sizes
  have isPart : Inside (sp.sPtr, size) (sp.sPtr, sp.sSize) := by
    unfold Inside
    omega
  have isRest : Inside (sp.sPtr + nb, sp.sSize - nb) (sp.sPtr, sp.sSize) := by
    unfold Inside
    omega
  have sameWhole : Space.whole ⟨sp.addr, sp.sSize - nb, sp.sPtr + nb⟩ = sp.whole := by
    refine Prod.ext rfl ?_
    dsimp only [Space.whole]
    omega
  have inWhole : Inside (sp.sPtr, size) sp.whole := by
    unfold Inside Space.whole
    omega
  have others (other : Space) (isOther : other ∈ space) : Apart sp.whole other.whole :=
    spaces.1 _ (mem_map_of_mem isOther)
  constructor
  case toHeapWell =>
    constructor
    case apart =>
      refine pairwise_cons.mpr ⟨fun block isBlock => ?_, apart⟩
      exact (free block isBlock).symm.part isPart ⟨Nat.le_refl _, Nat.le_refl _⟩
    case inside =>
      refine forall_mem_cons.mpr ⟨⟨range, isRange, ?_⟩, inside⟩
      unfold Inside at *
      omega
    case aligned => exact forall_mem_cons.mpr ⟨ptrAligned, aligned⟩
    case headers =>
      refine forall_mem_cons.mpr ⟨forall_mem_cons.mpr ⟨.inr behind, fun other isOther => ?_⟩, ?_⟩
      · exact (others other isOther).part inWhole (othersOrdered other isOther).header_inside
      · exact fun block isBlock => forall_mem_cons.mpr (headers block isBlock)
    case sizes =>
      refine forall_mem_cons.mpr ⟨⟨⟨range, isRange, ?_⟩, ?_⟩, fun other isOther => ?_⟩
      · unfold Inside at *
        dsimp only at *
        omega
      · refine forall_mem_cons.mpr ⟨?_, fun block isBlock => ?_⟩
        · unfold Apart
          dsimp only
          omega
        · exact (free block isBlock).part ⟨Nat.le_refl _, Nat.le_refl _⟩ isRest
      · obtain ⟨otherRange, otherFree⟩ := othersSized other isOther
        refine ⟨otherRange, forall_mem_cons.mpr ⟨?_, otherFree⟩⟩
        exact (others other isOther).part inWhole (othersOrdered other isOther).rest_inside
  case ordered =>
    refine forall_mem_cons.mpr ⟨?_, othersOrdered⟩
    dsimp only [Space.Ordered] at *
    omega
  case spaces =>
    rw [map_cons, sameWhole]
    exact pairwise_cons.mpr spaces
  case placed =>
    refine forall_mem_cons.mpr ⟨?_, placed.2⟩
    rw [sameWhole]
    exact placed.1

/-- Memory is donated. -/
theorem donate (inv : HeapInv ⟨space, ranges, blocks⟩) (range : Bytes) :
    HeapInv ⟨space, range :: ranges, blocks⟩ where
  __ := inv
  inside := fun block isBlock =>
    (inv.inside block isBlock).imp fun _ found => ⟨mem_cons_of_mem _ found.1, found.2⟩
  sizes := fun sp isSpace => ⟨(inv.sizes sp isSpace).1.imp
    fun _ found => ⟨mem_cons_of_mem _ found.1, found.2⟩, (inv.sizes sp isSpace).2⟩
  placed := fun sp isSpace =>
    (inv.placed sp isSpace).imp fun _ found => ⟨mem_cons_of_mem _ found.1, found.2⟩

/-- A space is made in memory that is apart from all that was there. -/
theorem link {range : Bytes} {sp : Space} (inv : HeapInv ⟨space, ranges, blocks⟩)
    (fresh : ∀ other ∈ ranges, Apart range other) (spOrdered : sp.Ordered)
    (inRange : Inside sp.whole range) : HeapInv ⟨sp :: space, range :: ranges, blocks⟩ := by
  obtain ⟨⟨apart, inside, aligned, headers, sizes⟩, ordered, spaces, placed⟩ := inv.donate range
  have isApart {part : Bytes} (found : ∃ other ∈ ranges, Inside part other) :
      Apart part sp.whole := by
    obtain ⟨other, isOther, inOther⟩ := found
    exact (fresh other isOther).symm.part inOther inRange
  have free (block : Bytes) (isBlock : block ∈ blocks) : Apart block sp.whole :=
    isApart (inv.inside block isBlock)
  constructor
  case toHeapWell =>
    refine ⟨apart, inside, aligned, fun block isBlock => ?_, forall_mem_cons.mpr ⟨?_, sizes⟩⟩
    · refine forall_mem_cons.mpr ⟨?_, headers block isBlock⟩
      exact (free block isBlock).part ⟨Nat.le_refl _, Nat.le_refl _⟩ spOrdered.header_inside
    · refine ⟨⟨range, mem_cons_self, spOrdered.rest_inside.trans inRange⟩, fun block isBlock => ?_⟩
      exact (free block isBlock).part ⟨Nat.le_refl _, Nat.le_refl _⟩ spOrdered.rest_inside
  case ordered => exact forall_mem_cons.mpr ⟨spOrdered, ordered⟩
  case spaces =>
    refine pairwise_cons.mpr ⟨fun other isOther => ?_, spaces⟩
    obtain ⟨otherSpace, isSpace, rfl⟩ := mem_map.mp isOther
    exact (isApart (inv.placed otherSpace isSpace)).symm
  case placed => exact forall_mem_cons.mpr ⟨⟨range, mem_cons_self, inRange⟩, placed⟩

end HeapInv

theorem takeFrom_spec {nb tp : Nat} {space space' : List Space}
    (taken : takeFrom nb space = some (tp, space')) :
    ∃ sp others, space ~ sp :: others ∧ tp = sp.sPtr ∧ nb ≤ sp.sSize ∧
      (space' ~ ⟨sp.addr, sp.sSize - nb, sp.sPtr + nb⟩ :: others ∨ space' ~ others) := by
  induction space generalizing space' with
  | nil => cases taken
  | cons sp next ih =>
    rw [takeFrom] at taken
    split at taken
    next room =>
      cases taken
      refine ⟨sp, next, Perm.refl _, rfl, room, ?_⟩
      split
      · exact .inl (Perm.refl _)
      · exact .inr (Perm.refl _)
    next =>
      obtain ⟨⟨_, rest⟩, isRest, same⟩ := Option.map_eq_some_iff.mp taken
      cases same
      obtain ⟨found, others, split, isPtr, room, left⟩ := ih isRest
      refine ⟨found, sp :: others, (split.cons sp).trans (Perm.swap _ _ _), isPtr, room, ?_⟩
      exact left.imp (fun same => (same.cons sp).trans (Perm.swap _ _ _)) fun same => same.cons sp

theorem HeapInv.rtmkspace {heap : Heap} {p sz : Nat} (inv : HeapInv heap) (size : sz < 2 ^ 32)
    (fresh : ∀ range ∈ heap.ranges, Apart (p, sz) range) : HeapInv (rtmkspace heap p sz) := by
  unfold SpaceList.rtmkspace
  split
  · exact inv.donate _
  · refine (inv.link fresh ?_ ?_).perm (perm_append_singleton _ _).symm
    · unfold Space.Ordered
      dsimp only [sizeofSpace]
      omega
    · unfold Inside Space.whole toSize
      dsimp only [sizeofSpace]
      omega

theorem HeapInv.rtmalloc {heap : Heap} {nb : Nat} {mapped : Option Nat} (inv : HeapInv heap)
    (fresh : ∀ sp ∈ mapped, sp % 4096 = 0 ∧
      ∀ range ∈ heap.ranges, Apart (sp, pround (dround nb)) range)
    (guard : HeapGuard heap (.malloc nb mapped)) : HeapInv (rtmalloc heap nb mapped).1 := by
  obtain ⟨small, room⟩ := guard
  have rounded : nb ≤ dround nb ∧ dround nb % 4 = 0 := by
    unfold dround toSize
    omega
  unfold SpaceList.rtmalloc
  cases taken : takeFrom (dround nb) heap.space with
  | some found =>
    obtain ⟨tp, space⟩ := found
    obtain ⟨sp, others, split, rfl, enough, left⟩ := takeFrom_spec taken
    have inv' := (inv.perm split).take rounded.1 enough rounded.2
    rcases left with same | same
    · exact inv'.perm same.symm
    · exact inv'.unlink.perm same.symm
  | none =>
    cases mapped with
    | none => exact inv
    | some sp =>
      obtain ⟨aligned, apart⟩ := fresh sp rfl
      have fits := room taken (Option.some_ne_none sp)
      have pages : pround (dround nb) < 2 ^ 32 := by
        unfold pround toSize
        omega
      have linked := @link _ _ _ _ ⟨sp, pround (dround nb) - sizeofSpace, sp + sizeofSpace⟩ inv
        apart ⟨Nat.le_refl _, by dsimp only [sizeofSpace]; omega⟩
        (by unfold Inside Space.whole; dsimp only [sizeofSpace] at *; omega)
      have inv' := linked.take rounded.1 (by dsimp only; omega) rounded.2
      have left : toSize (pround (dround nb) - dround nb - sizeofSpace) =
          pround (dround nb) - sizeofSpace - dround nb := by
        unfold toSize
        omega
      dsimp only
      rw [left]
      exact inv'.perm (perm_append_singleton _ _).symm

theorem heapWell_of_run {actions : List HeapAction} {final : Heap}
    (run : Run (Guarded HeapStep HeapGuard) ⟨[], [], []⟩ actions final) : HeapWell final := by
  have inv : HeapInv final := by
    refine run.invariant (fun before action after inv step => ?_) ?_
    · obtain ⟨step, guard⟩ := step
      cases step with
      | mkspace size fresh => exact inv.rtmkspace size fresh
      | malloc size fresh => exact inv.rtmalloc fresh guard
    · exact ⟨⟨.nil, by simp, by simp, by simp, by simp⟩, by simp, .nil, by simp⟩
  exact inv.toHeapWell

theorem heapWell_of_run_two : ∃ final, Run HeapStep ⟨[], [], []⟩
    [.mkspace 1000 200, .malloc 20 none, .malloc 4000 (some 8192)] final ∧
      final.blocks = [(8204, 4000), (1020, 20)] ∧ HeapWell final := by
  have apart : ∀ range ∈ [((1000, 200) : Bytes)], Apart (8192, pround (dround 4000)) range := by
    decide
  have fresh : ∀ sp ∈ some 8192, sp % 4096 = 0 ∧
      ∀ range ∈ [((1000, 200) : Bytes)], Apart (sp, pround (dround 4000)) range := by
    rintro sp ⟨⟩
    exact ⟨rfl, apart⟩
  have donated : Guarded HeapStep HeapGuard ⟨[], [], []⟩ (.mkspace 1000 200) _ :=
    ⟨.mkspace (by decide) (by simp), trivial⟩
  have taken : Guarded HeapStep HeapGuard (rtmkspace ⟨[], [], []⟩ 1000 200) (.malloc 20 none) _ :=
    ⟨.malloc (by decide) (by simp), by decide, by simp⟩
  have run := ((Run.single donated).snoc taken).snoc
    ⟨.malloc (by decide) fresh, by decide, by decide⟩
  exact ⟨_, run.unguarded, rfl, heapWell_of_run run⟩

/-- A request of a page is given 12 bytes behind the page that is mapped for it. -/
theorem heapWell_fails_on_page : ∃ final, HeapStep ⟨[], [], []⟩ (.malloc 4096 (some 8192)) final ∧
    ¬ HeapWell final := by
  refine ⟨_, .malloc (by decide) ?_, fun well => ?_⟩
  · simp
  · obtain ⟨range, isRange, inside⟩ := well.inside (8204, 4096) mem_cons_self
    obtain rfl : range = (8192, 4096) := mem_singleton.mp isRange
    exact absurd inside.2 (by decide)

end Uw7.Rtld.SpaceList
