import Mathlib.Algebra.Order.Ring.Nat
import Uw7.Errno
import Uw7.Lib.Intervals

namespace Uw7.Fga

/-!
# Affinity list of a fine-grained-affinity segment

The affinity elements of a segment, the request that changes them
(`fgashm_reaffine` up to its page loop) and the lookup that places a page
(`fgashm_find_cg`), from `mem/fgashm.c`.  Sizes are 32-bit, so the arithmetic
on the request's fields wraps; the segment itself is a multiple of
`FGASHM_SIZE_QUANTA` and therefore ends well below the wrap.

The placement constants and the CPU-group routines are declared outside the
modelled sources and are parameters.
-/

/-- Bytes in a page. -/
def pageSize : Nat := 4096

/-- Size quantum of a fine-grained-affinity segment. -/
def fgashmSizeQuanta : Nat := 0x400000

/-- Addition of two `size_t` values. -/
def sizeAdd (left right : Nat) : Nat := (left + right) % 2 ^ 32

def roundToPage (size : Nat) : Nat := sizeAdd size (pageSize - 1) / pageSize * pageSize

/-- The bits of `shm_placepolicy`. -/
structure PlacePolicy where
  affinityMask : Nat
  migrate : Nat
  balanced : Nat
  cpuGroup : Nat
  firstUsage : Nat
  plcDefault : Nat

/-- The CPU-group routines and the running LWP's group. -/
structure CpuGroups where
  mycg : Int
  cgNone : Int
  cgCurrent : Int
  ncg : Nat
  cgid2cgnum : Int → Int
  isCGOnforU : Int → Bool
  isCGOnline : Int → Bool

/-- One element of the affinity list; both offsets are inclusive. -/
structure FgashmAffinity where
  soffset : Nat
  eoffset : Nat
  affinity : Nat
  cgnum : Int
  granularity : Nat
  deriving DecidableEq

/-- The affinity list with the default used where no element applies. -/
structure FgashmAffHead where
  anchor : List FgashmAffinity
  defAff : Nat
  defCgnum : Int
  defGranularity : Nat
  deriving DecidableEq

/-- The fields of `struct shmid_ds` that a placement request carries. -/
structure ShmidDs where
  placepolicy : Nat
  cg : Int
  granularity : Nat
  off : Nat
  nbytes : Nat
  deriving DecidableEq

/-- Policy, CPU group and granularity: what a lookup selects. -/
structure Selection where
  affinity : Nat
  cgnum : Int
  granularity : Nat
  deriving DecidableEq

/-- The part of an element that a lookup copies out. -/
def FgashmAffinity.selection (element : FgashmAffinity) : Selection where
  affinity := element.affinity
  cgnum := element.cgnum
  granularity := element.granularity

def FgashmAffHead.defaultSelection (head : FgashmAffHead) : Selection where
  affinity := head.defAff
  cgnum := head.defCgnum
  granularity := head.defGranularity

/-- The offset lies in the element's range. -/
abbrev Covers (offset : Nat) (element : FgashmAffinity) : Prop := Lib.Intervals.Contains
    FgashmAffinity.soffset FgashmAffinity.eoffset offset element

/-- The list is sorted by `fa_soffset` with nonempty, disjoint ranges. -/
abbrev Ordered (elements : List FgashmAffinity) : Prop := Lib.Intervals.Ordered
    FgashmAffinity.soffset FgashmAffinity.eoffset elements

/--
The insertion loop of `fgashm_reaffine`, from the element under the cursor on.
Reaching the anchor inserts at the end of the list.
-/
def insertElement (inserted : FgashmAffinity) : List FgashmAffinity → List FgashmAffinity
  | [] => [inserted]
  | element :: rest =>
    if element.soffset > inserted.eoffset then
      inserted :: element :: rest
    else if element.eoffset < inserted.soffset then
      element :: insertElement inserted rest
    else if element.soffset ≥ inserted.soffset ∧ element.soffset ≤ inserted.eoffset then
      if element.eoffset ≤ inserted.eoffset then
        insertElement inserted rest
      else
        -- The source trims and goes on to the next element, so that the
        -- insertion point moves past the trimmed element.
        { element with soffset := inserted.eoffset + 1 } :: insertElement inserted rest
    else if element.eoffset ≤ inserted.eoffset ∧ element.eoffset ≥ inserted.soffset then
      { element with eoffset := inserted.soffset - 1 } :: insertElement inserted rest
    else if inserted.soffset ≥ element.soffset ∧ inserted.eoffset ≤ element.eoffset then
      -- The next element is the split-off piece, which starts past the
      -- inserted range: the loop leaves there and inserts before it.
      { element with eoffset := inserted.soffset - 1 } ::
        inserted ::
        { element with soffset := inserted.eoffset + 1 } :: rest
    else
      element :: insertElement inserted rest

/-- A request whose fields have been validated and rounded. -/
structure Accepted where
  off : Nat
  nbytes : Nat
  selection : Selection
  deriving DecidableEq

def Accepted.WholeSegment (mapsize : Nat) (request : Accepted) : Prop := request.off = 0 ∧
    (request.nbytes = 0 ∨ request.nbytes = mapsize)

instance (mapsize : Nat) (request : Accepted) : Decidable (request.WholeSegment mapsize) :=
  inferInstanceAs (Decidable (_ ∧ _))

def requestCg (policy : PlacePolicy) (groups : CpuGroups) (affinity : Nat) (cg : Int) :
    Except Errno Int :=
  if affinity = policy.cpuGroup then
    let cgnum := groups.cgid2cgnum cg
    if cgnum = groups.cgNone ∨ cgnum = groups.cgCurrent then
      .ok groups.mycg
    else if cgnum < 0 ∨ groups.isCGOnforU cgnum = false then
      .error .EINVAL
    else
      .ok cgnum
  else
    .ok groups.cgNone

/-- The granularity a request asks for, before rounding. -/
def requestGranularity (policy : PlacePolicy) (defGranularity affinity granularity : Nat) : Nat :=
  let granularity :=
    if affinity = policy.balanced ∧ granularity = 0 then
      defGranularity
    else
      granularity
  if affinity = policy.plcDefault then
    defGranularity
  else
    granularity

/-- The validation of `fgashm_reaffine`. -/
def acceptRequest (policy : PlacePolicy) (groups : CpuGroups) (fgashmDefGranularity mapsize : Nat)
    (shmp : ShmidDs) : Except Errno Accepted := do
  let affinity := shmp.placepolicy &&& policy.affinityMask
  if affinity ≠ policy.balanced ∧ affinity ≠ policy.cpuGroup ∧
      affinity ≠ policy.firstUsage ∧ affinity ≠ policy.plcDefault then
    throw .EINVAL
  if shmp.placepolicy &&& ((2 ^ 32 - 1) ^^^ (policy.affinityMask ||| policy.migrate)) ≠ 0 then
    throw .EINVAL
  let cgnum ← requestCg policy groups affinity shmp.cg
  let nbytes := roundToPage shmp.nbytes
  let granularity := roundToPage (requestGranularity policy fgashmDefGranularity affinity
      shmp.granularity)
  if shmp.off % pageSize ≠ 0 ∨ sizeAdd shmp.off nbytes < shmp.off ∨ shmp.off ≥ mapsize ∨
      sizeAdd shmp.off nbytes > mapsize then
    throw .EINVAL
  if nbytes = 0 ∧ shmp.off ≠ 0 then
    throw .EINVAL
  return { off := shmp.off, nbytes, selection := { affinity, cgnum, granularity } }

/-- The element that an accepted partial request installs. -/
def Accepted.element (request : Accepted) : FgashmAffinity where
  soffset := request.off
  eoffset := sizeAdd request.off request.nbytes - 1
  affinity := request.selection.affinity
  cgnum := request.selection.cgnum
  granularity := request.selection.granularity

/-- The effect of an accepted request on the affinity information. -/
def installAffinity (mapsize : Nat) (head : FgashmAffHead) (request : Accepted) :
    FgashmAffHead :=
  if request.WholeSegment mapsize then
    { anchor := []
      defAff := request.selection.affinity
      defCgnum := request.selection.cgnum
      defGranularity := request.selection.granularity }
  else
    { head with anchor := insertElement request.element head.anchor }

/-- `fgashm_reaffine`, as far as it concerns the affinity information. -/
def fgashmReaffine (policy : PlacePolicy) (groups : CpuGroups) (fgashmDefGranularity mapsize : Nat)
    (head : FgashmAffHead) (shmp : ShmidDs) : Except Errno FgashmAffHead := do
  let request ← acceptRequest policy groups fgashmDefGranularity mapsize shmp
  return installAffinity mapsize head request

/-- The affinity information that `shm_makefga` establishes. -/
def shmMakefga (policy : PlacePolicy) (groups : CpuGroups) (fgashmDefGranularity flag : Nat) :
    FgashmAffHead where
  anchor := []
  defAff :=
    if flag &&& policy.affinityMask ≠ 0 then
      flag &&& policy.affinityMask
    else
      policy.plcDefault
  defCgnum := groups.mycg
  defGranularity :=
    if fgashmDefGranularity = 0 then pageSize else fgashmDefGranularity

/-- The search of `fgashm_find_cg`: what is in effect at an offset. -/
def findAffinity (head : FgashmAffHead) (offset : Nat) :
    Selection :=
  match Lib.Intervals.search FgashmAffinity.soffset FgashmAffinity.eoffset offset head.anchor with
  | some element => element.selection
  | none => head.defaultSelection

/-- Walk the CPU groups from `place` until one is online, at most `fuel` of them. -/
def nextOnline (groups : CpuGroups) : Nat → Nat → Option Int
  | 0, _ => none
  | fuel + 1, place =>
    if groups.isCGOnline place then
      some place
    else
      nextOnline groups fuel ((place + 1) % groups.ncg)

/--
The policy switch of `fgashm_find_cg`.  `none` stands for the divide error, the
endless walk when no group is online, and the panic on an unknown policy.
-/
def placeBySelection (policy : PlacePolicy) (groups : CpuGroups) (offset : Nat)
    (selection : Selection) : Option Int :=
  if selection.affinity = policy.balanced ∨ selection.affinity = policy.plcDefault then
    if selection.granularity = 0 ∨ groups.ncg = 0 then
      none
    else
      nextOnline groups groups.ncg (offset / selection.granularity % groups.ncg)
  else if selection.affinity = policy.cpuGroup then
    some selection.cgnum
  else if selection.affinity = policy.firstUsage then
    some groups.mycg
  else
    none

def fgashmFindCg (policy : PlacePolicy) (groups : CpuGroups) (head : FgashmAffHead) (offset : Nat) :
    Option Int :=
  placeBySelection policy groups offset (findAffinity head offset)

end Uw7.Fga
