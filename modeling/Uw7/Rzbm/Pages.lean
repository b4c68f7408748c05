import Uw7.Lib.Bitmap
import Uw7.Rzbm.Cells

namespace Uw7.Rzbm

/-!
# Allocation of pages from zoned bitmaps

`rzbm_init_chunk`, `rzbm_psealloc`, `rzbm_alloc` and `rzbm_free` from
`mem/vm_rzbm.c`, without `DEBUG`.  A chunk is addressed by the order in which
the chunks were allocated, and page numbers and counts stay below 2 ^ 31, as
`mem/rzbm.h` assumes for the fields of type `int`.

Reservations, statistics, the lock and the contents of pages are left out.
-/

open Lib Function

def nbitpw : Nat := 32

def pagesize : Nat := 4096

def pseNpages : Nat := 1024

def pseNpgoffset : Nat := pseNpages - 1

def psePagesize : Nat := pseNpages * pagesize

def rzbmMincells : Nat := 16

def rzbmCellsize : Nat := 32 * nbitpw

/-- `rzbm_t`, apart from the fields that only the audit reads. -/
structure RzbmT where
  zbmFlink : Nat
  zbmBlink : Nat
  zbmBitmap : Nat → Nat
  zbmCell : RzbmCells
  zbmPool : Option Nat
  zbmPsepool : Option Nat
  zbmHome : Int
  zbmCellwidth : Nat
  zbmNcell : Nat
  zbmCwshft : Nat
  zbmCellmask : Nat
  zbmCellsize : Nat
  zbmBase : Nat
  zbmSize : Nat

/-- `rzbm_list_t`, with the chunks that its pointers lead to. -/
structure RzbmList where
  zbmChunk : Option Nat
  zbmNchunk : Nat
  chunks : Nat → RzbmT

def setChunk (list : RzbmList) (zbmp : Nat) (chunk : RzbmT) : RzbmList :=
  { list with chunks := update list.chunks zbmp chunk }

def addToPool (zbmp : RzbmT) (cellp : Nat) : RzbmT :=
  { zbmp with
    zbmPool := (rzbmAddCell zbmp.zbmPool zbmp.zbmCell cellp).1
    zbmCell := (rzbmAddCell zbmp.zbmPool zbmp.zbmCell cellp).2 }

def addToPsepool (zbmp : RzbmT) (cellp : Nat) : RzbmT :=
  { zbmp with
    zbmPsepool := (rzbmAddCell zbmp.zbmPsepool zbmp.zbmCell cellp).1
    zbmCell := (rzbmAddCell zbmp.zbmPsepool zbmp.zbmCell cellp).2 }

def delFromPool (zbmp : RzbmT) (cellp : Nat) : RzbmT :=
  { zbmp with
    zbmPool := (rzbmDelCell zbmp.zbmPool zbmp.zbmCell cellp).1
    zbmCell := (rzbmDelCell zbmp.zbmPool zbmp.zbmCell cellp).2 }

def delFromPsepool (zbmp : RzbmT) (cellp : Nat) : RzbmT :=
  { zbmp with
    zbmPsepool := (rzbmDelCell zbmp.zbmPsepool zbmp.zbmCell cellp).1
    zbmCell := (rzbmDelCell zbmp.zbmPsepool zbmp.zbmCell cellp).2 }

/-- The loop of `rzbm_cell_size`, with `fuel` rounds at most. -/
def growCell (cellsize : Nat) : Nat → Nat → Nat
  | 0, i => i
  | fuel + 1, i => if i < cellsize then growCell cellsize fuel (i * 2) else i

def rzbmCellSize (segsize : Nat) : Nat :=
  if segsize ≥ pseNpages then
    rzbmCellsize
  else
    let cellsize :=
      if segsize / rzbmCellsize < rzbmMincells then
        segsize / rzbmMincells
      else
        rzbmCellsize
    let i := growCell cellsize cellsize nbitpw
    if i > cellsize ∧ i > nbitpw then i / 2 else i

/-- The loop that computes `zbm_cwshft`, with `fuel` rounds at most. -/
def log2Loop (cellwidth : Nat) : Nat → Nat → Nat → Nat
  | 0, _, cwshft => cwshft
  | fuel + 1, i, cwshft =>
    if i < cellwidth then
      log2Loop cellwidth fuel (i <<< 1) (cwshft + 1)
    else
      cwshft

/-- All cells are placed on the pool, `count` cells to go. -/
def placeCells : Nat → Nat → RzbmT → RzbmT
  | _, 0, zbmp => zbmp
  | i, count + 1, zbmp =>
    let cells := setNfree zbmp.zbmCell i zbmp.zbmCellsize
    let cells := setBlink (setFlink cells i i) i i
    placeCells (i + 1) count (addToPool { zbmp with zbmCell := cells } i)

/-- The bits behind a partially allocated last cell are set. -/
def trimLastCell (zbmp : RzbmT) (rem : Nat) : RzbmT :=
  match zbmp.zbmPool with
  | none => zbmp
  | some head =>
    let lastcellp := (zbmp.zbmCell head).zbcBlink
    let mp := lastcellp <<< zbmp.zbmCwshft
    { zbmp with
      zbmCell := setNfree zbmp.zbmCell lastcellp rem
      zbmBitmap := Bitmap.setRange nbitpw zbmp.zbmBitmap (mp * nbitpw + rem) (nbitpw - rem) }

/-- The cells of 4M are moved to their own pool, `count` cells to go. -/
def movePseCells : Nat → Nat → RzbmT → RzbmT
  | _, 0, zbmp => zbmp
  | i, count + 1, zbmp =>
    movePseCells (i + 1) count (if (zbmp.zbmCell i).zbcNfree = pseNpages then
        addToPsepool (delFromPool zbmp i) i
      else
        zbmp)

/-- `rzbm_add_chunk`, for a chunk that has just been allocated. -/
def rzbmAddChunk (list : RzbmList) (chunk : RzbmT) : RzbmList :=
  let zbmp := list.zbmNchunk
  match list.zbmChunk with
  | none =>
    { zbmChunk := some zbmp
      zbmNchunk := list.zbmNchunk + 1
      chunks := update list.chunks zbmp { chunk with zbmFlink := zbmp, zbmBlink := zbmp } }
  | some rzbmp =>
    let last := (list.chunks rzbmp).zbmBlink
    let next := (list.chunks last).zbmFlink
    let chunks := update list.chunks zbmp { chunk with zbmBlink := last, zbmFlink := next }
    let chunks := update chunks next { chunks next with zbmBlink := zbmp }
    { zbmChunk := some rzbmp
      zbmNchunk := list.zbmNchunk + 1
      chunks := update chunks last { chunks last with zbmFlink := zbmp } }

/-- What `kmem_zalloc` and `calloc` return for a chunk. -/
def zeroedChunk : RzbmT where
  zbmFlink := 0
  zbmBlink := 0
  zbmBitmap := fun _ => 0
  zbmCell := fun _ => ⟨0, 0, 0, 0⟩
  zbmPool := none
  zbmPsepool := none
  zbmHome := 0
  zbmCellwidth := 0
  zbmNcell := 0
  zbmCwshft := 0
  zbmCellmask := 0
  zbmCellsize := 0
  zbmBase := 0
  zbmSize := 0

/--
The part of `rzbm_init_chunk_actual` that fills in a chunk.  Its memory is zeroed,
so that `BITMASKN_CLRALL` changes nothing.
-/
def fillChunk (base npages : Nat) (cgnum : Int) (zbmp : RzbmT) : RzbmT :=
  let cellsize := rzbmCellSize npages
  let rem := npages % cellsize
  let ncells := if rem ≠ 0 then npages / cellsize + 1 else npages / cellsize
  let zbmp :=
    { zbmp with
      zbmBase := base
      zbmSize := npages
      zbmCellsize := cellsize
      zbmCellwidth := cellsize / nbitpw
      zbmNcell := ncells
      zbmCellmask := cellsize / nbitpw - 1
      zbmHome := cgnum
      zbmCwshft := log2Loop (cellsize / nbitpw) (cellsize / nbitpw) 1 zbmp.zbmCwshft }
  let zbmp := placeCells 0 ncells zbmp
  let zbmp := if rem ≠ 0 then trimLastCell zbmp rem else zbmp
  movePseCells 0 ncells zbmp

def rzbmInitChunkActual (list : RzbmList) (base npages : Nat) (cgnum : Int) : RzbmList :=
  if npages = 0 then
    list
  else
    let list := rzbmAddChunk list zeroedChunk
    let zbmp := list.zbmNchunk - 1
    setChunk list zbmp (fillChunk base npages cgnum (list.chunks zbmp))

/-- The parts of a range in front of, behind and between its 4M boundaries. -/
structure Carved where
  prebase : Nat
  presz : Nat
  postbase : Nat
  postsz : Nat
  base : Nat
  npages : Nat

/-- The computation of the parts in `rzbm_init_chunk`. -/
def carve (base npages : Nat) : Carved :=
  let presz :=
    if base &&& pseNpgoffset ≠ 0 then
      min ((base + pseNpgoffset) / pseNpages * pseNpages - base) npages
    else
      0
  let middle := base + presz
  let left := npages - presz
  let postsz :=
    if left > pseNpages then (middle + left) &&& pseNpgoffset else 0
  { prebase := base
    presz := presz
    postbase := middle + (left - postsz)
    postsz := postsz
    base := middle
    npages := left - postsz }

def rzbmInitChunk (list : RzbmList) (base npages : Nat) (cgnum : Int) : RzbmList :=
  if npages = 0 then
    list
  else if npages < pseNpages then
    rzbmInitChunkActual list base npages cgnum
  else
    let parts := carve base npages
    let list := rzbmInitChunkActual list parts.prebase parts.presz cgnum
    let list := rzbmInitChunkActual list parts.postbase parts.postsz cgnum
    rzbmInitChunkActual list parts.base parts.npages cgnum

/-- A loop over the chunks, which stops at a chunk that is accepted. -/
def seekChunk (list : RzbmList) (accept : RzbmT → Bool) : Option Nat :=
  match list.zbmChunk with
  | none => none
  | some head =>
    Ring.seek (fun zbmp => (list.chunks zbmp).zbmFlink)
      (fun zbmp => accept (list.chunks zbmp)) list.zbmNchunk head

/--
The search of the allocations: first for a chunk of the group, then, at `retry`,
for any chunk.  `cgNone` is `CG_NONE`, which `proc/cguser.h` defines.
-/
def seekHome (cgNone : Int) (list : RzbmList) (cgnum : Int) (accept : RzbmT → Bool) : Option Nat :=
  match seekChunk list fun zbmp =>
      (zbmp.zbmHome == cgnum || cgnum == cgNone) && accept zbmp
  with
  | some zbmp => some zbmp
  | none => if cgnum ≠ cgNone then seekChunk list accept else none

/-- `BITMASKN_FFC`; -1 stands for no clear bit. -/
def bitmasknFfc (bits : Nat → Nat) (mp n : Nat) : Int :=
  match Bitmap.search nbitpw bits mp n with
  | none => -1
  | some found => found - mp * nbitpw

def bitmasknFfcset (bits : Nat → Nat) (mp n : Nat) : Int × (Nat → Nat) :=
  match Bitmap.search nbitpw bits mp n with
  | none => (-1, bits)
  | some found => (found - mp * nbitpw, Bitmap.setBit nbitpw bits found)

/-- `RZBM_CELLTOPA`, a number of 32 bits. -/
def rzbmCelltopa (zbmp : RzbmT) (i cr : Nat) (bn : Int) : Nat :=
  ((zbmp.zbmBase + ((cr + i <<< zbmp.zbmCwshft) * nbitpw + bn)) % 2 ^ 32).toNat

/-- `rzbm_psealloc`, once it has found a chunk and its cell. -/
def pseallocFrom (zbmp : RzbmT) (cellp : Nat) : Nat × RzbmT :=
  let cursor := (zbmp.zbmCell cellp).zbcCursor
  let mp := cellp <<< zbmp.zbmCwshft + cursor
  let n := bitmasknFfc zbmp.zbmBitmap mp (zbmp.zbmCellwidth - cursor)
  let bitmap := Bitmap.setRange nbitpw zbmp.zbmBitmap (mp * nbitpw) (zbmp.zbmCellwidth * nbitpw)
  let cells := setNfree zbmp.zbmCell cellp 0
  let cells := setCursor cells cellp (cursor + (n + pseNpages).toNat / nbitpw)
  (rzbmCelltopa zbmp cellp cursor n,
    delFromPsepool { zbmp with zbmBitmap := bitmap, zbmCell := cells } cellp)

/-- `rzbm_psealloc`; there is no result where it returns 0 for a failure. -/
def rzbmPsealloc (cgNone : Int) (list : RzbmList) (cgnum : Int) : Option (Nat × RzbmList) :=
  match seekHome cgNone list cgnum fun zbmp => zbmp.zbmPsepool.isSome with
  | none => none
  | some zbmp =>
    match (list.chunks zbmp).zbmPsepool with
    | none => none
    | some cellp =>
      let allocated := pseallocFrom (list.chunks zbmp) cellp
      some (allocated.1, setChunk list zbmp allocated.2)

/-- A cell of 4M is moved to the pool of a chunk that has no other cell. -/
def borrowPseCell (zbmp : RzbmT) : RzbmT :=
  match zbmp.zbmPool, zbmp.zbmPsepool with
  | none, some cellp => addToPool (delFromPsepool zbmp cellp) cellp
  | _, _ => zbmp

/-- `rzbm_alloc` for a page of 4K, once it has found a chunk and its cell. -/
def allocFrom (zbmp : RzbmT) (cellp : Nat) : Nat × RzbmT :=
  let cursor :=
    if (zbmp.zbmCell cellp).zbcCursor = zbmp.zbmCellwidth then 0
    else (zbmp.zbmCell cellp).zbcCursor
  let mp := cellp <<< zbmp.zbmCwshft + cursor
  let found := bitmasknFfcset zbmp.zbmBitmap mp (zbmp.zbmCellwidth - cursor)
  let nfree := (zbmp.zbmCell cellp).zbcNfree - 1
  let cells := setNfree zbmp.zbmCell cellp nfree
  let cells := setCursor cells cellp (cursor + (found.1 + 1).toNat / nbitpw)
  let zbmp' := { zbmp with zbmBitmap := found.2, zbmCell := cells }
  (rzbmCelltopa zbmp cellp cursor found.1,
    if nfree = 0 then delFromPool zbmp' cellp else zbmp')

/--
`rzbm_alloc`; there is no result where it panics, or where `rzbm_psealloc`
returns 0.
-/
def rzbmAlloc (cgNone : Int) (list : RzbmList) (cgnum : Int) (pagesz : Nat) :
    Option (Nat × RzbmList) :=
  if pagesz = psePagesize then
    rzbmPsealloc cgNone list cgnum
  else
    match seekHome cgNone list cgnum fun zbmp =>
        zbmp.zbmPool.isSome || zbmp.zbmPsepool.isSome
    with
    | none => none
    | some zbmp =>
      let chunk := borrowPseCell (list.chunks zbmp)
      match chunk.zbmPool with
      | none => none
      | some cellp =>
        let allocated := allocFrom chunk cellp
        some (allocated.1, setChunk list zbmp allocated.2)

/-- The case `PAGESIZE` of `rzbm_free`, in the chunk of the page. -/
def freePage (zbmp : RzbmT) (mbn : Nat) : RzbmT :=
  let mi := mbn / nbitpw
  let wbn := mbn % nbitpw
  let cellp := mi >>> zbmp.zbmCwshft
  let cursor := mi &&& zbmp.zbmCellmask
  let nfree := (zbmp.zbmCell cellp).zbcNfree + 1
  let cells := setNfree zbmp.zbmCell cellp nfree
  let cells :=
    if cursor < (cells cellp).zbcCursor then setCursor cells cellp cursor
    else cells
  let zbmp :=
    { zbmp with
      zbmBitmap := Bitmap.clearBit nbitpw zbmp.zbmBitmap (mi * nbitpw + wbn)
      zbmCell := cells }
  let zbmp := if nfree = 1 then addToPool zbmp cellp else zbmp
  if nfree = pseNpages then
    addToPsepool (delFromPool zbmp cellp) cellp
  else
    zbmp

/-- The case `PSE_PAGESIZE` of `rzbm_free`, in the chunk of the page. -/
def freePsePage (zbmp : RzbmT) (mbn : Nat) : RzbmT :=
  let mi := mbn / nbitpw
  let cellp := mi >>> zbmp.zbmCwshft
  let cells := setCursor zbmp.zbmCell cellp 0
  let cells := setNfree cells cellp zbmp.zbmCellsize
  addToPsepool
    { zbmp with
      zbmBitmap := Bitmap.clearRange nbitpw zbmp.zbmBitmap (mi * nbitpw)
          (zbmp.zbmCellwidth * nbitpw)
      zbmCell := cells }
    cellp

/-- The chunk that `rzbm_free` stops at; the loop ends where it started. -/
def chunkOf (list : RzbmList) (pf : Nat) : Option Nat := (seekChunk list fun zbmp =>
    decide (zbmp.zbmBase ≤ pf ∧ pf < zbmp.zbmBase + zbmp.zbmSize)).or
    list.zbmChunk

/-- `rzbm_free`; other page sizes panic. -/
def rzbmFree (list : RzbmList) (pf pagesz : Nat) : RzbmList :=
  match chunkOf list pf with
  | none => list
  | some zbmp =>
    let chunk := list.chunks zbmp
    let mbn := pf - chunk.zbmBase
    if pagesz = pagesize then
      setChunk list zbmp (freePage chunk mbn)
    else if pagesz = psePagesize then
      setChunk list zbmp (freePsePage chunk mbn)
    else
      list

end Uw7.Rzbm
