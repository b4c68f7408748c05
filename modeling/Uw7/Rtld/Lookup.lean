import Mathlib.Data.List.Nodup

namespace Uw7.Rtld

/-!
# Symbol lookup

`_rt_lookup` from `rtld/i386/rtld.c` and the group predicates from
`rtld/i386/rtfcns.c`, over the hash table, the symbol table and the string table
of every object.  Reading outside of a table or a division by zero is a fault.
-/

/-- A string of C, without its terminator. -/
structure CString where
  bytes : List (BitVec 8)
  terminated : 0#8 ∉ bytes
  deriving DecidableEq

/-- One character of the hash function in `_rt_lookup`. -/
def rtHashStep (hval c : BitVec 32) : BitVec 32 :=
  let hval := (hval <<< 4) + c
  let g := hval &&& 0xf0000000#32
  let hval := if g = 0#32 then hval else hval ^^^ (g >>> 24)
  hval &&& ~~~g

/-- The hash function in `_rt_lookup`; `char` is signed on i386. -/
def rtHash (name : CString) : BitVec 32 :=
  name.bytes.foldl (fun hval p => rtHashStep hval (p.signExtend 32)) 0#32

def elfHashStep (h nm : BitVec 32) : BitVec 32 :=
  let h := (h <<< 4) + nm
  let g := h &&& 0xf0000000#32
  let h := if g = 0#32 then h else h ^^^ (g >>> 24)
  h &&& ~~~0xf0000000#32

/-- `elf_hash` from `libelf/common/hash.c`, whose characters are unsigned. -/
def elfHash (name : CString) : BitVec 32 :=
  name.bytes.foldl (fun h nm => elfHashStep h (nm.setWidth 32)) 0#32

/-- What the lookup reads of an `Elf32_Sym`. -/
structure Elf32Sym where
  stName : Nat
  stValue : Nat
  stInfo : Nat
  stShndx : Nat
  deriving DecidableEq

def shnUndef : Nat := 0

def sttFunc : Nat := 2

def stbLocal : Nat := 0

def Elf32Sym.type (sym : Elf32Sym) : Nat := sym.stInfo % 16

def Elf32Sym.bind (sym : Elf32Sym) : Nat := sym.stInfo / 16

/-- What the lookup reads of an `rt_map`. -/
structure RtMap where
  /-- `NAME` is not null; it is for the a.out. -/
  name : Bool
  /-- `HASH`: the number of buckets and of chains, the buckets, the chains. -/
  hash : List Nat
  strtab : List (BitVec 8)
  symtab : List Elf32Sym
  /-- The words of `GRPSET`. -/
  grpset : List (BitVec 32)

inductive LookupFlag where
  | norm
  | spec
  deriving DecidableEq

def RtMap.stringAt (lm : RtMap) (offset : Nat) : List (BitVec 8) :=
  (lm.strtab.drop offset).takeWhile (· != 0#8)

/-- The tests of `_rt_lookup` on an entry whose name matches. -/
def RtMap.accepts (lm : RtMap) (flag : LookupFlag) (sym : Elf32Sym) : Bool :=
  sym.stShndx != shnUndef || (flag == .spec && !lm.name && sym.stValue != 0 && sym.type == sttFunc)

def rtHasgroup (grp : Nat) (grpset : List (BitVec 32)) : Bool :=
  let chunk := grp / 32
  let bit := grp - chunk * 32
  match grpset[chunk]? with
  | none => false
  | some members => members &&& (1#32 <<< bit) != 0#32

def rtIsmember : List (BitVec 32) → List (BitVec 32) → Bool
  | members1 :: set1, members2 :: set2 => members1 &&& members2 != 0#32 || rtIsmember set1 set2
  | _, _ => false

def rtIsglobal (grpset : List (BitVec 32)) : Option Bool :=
  match grpset with
  | [] => none
  | members :: _ => some (members &&& 1#32 != 0#32)

/-- The loop over a hash chain. -/
def RtMap.searchChain (lm : RtMap) (name : CString) (flag : LookupFlag) (buckets : Nat) :
    Nat → Nat → Option (Option Nat)
  | _, 0 => some none
  | 0, _ + 1 => none
  | fuel + 1, ndx + 1 =>
    lm.symtab[ndx + 1]?.bind fun sym =>
      if lm.stringAt sym.stName ≠ name.bytes then
        lm.hash[2 + buckets + (ndx + 1)]?.bind fun next =>
          lm.searchChain name flag buckets fuel next
      else if lm.accepts flag sym then
        some (some (ndx + 1))
      else
        -- undefined; try next object
        some none

/-- The search in one object. -/
def RtMap.search (lm : RtMap) (name : CString) (flag : LookupFlag) : Option (Option Nat) :=
  lm.hash[0]?.bind fun buckets =>
    if buckets = 0 then
      none
    else
      let hash := (rtHash name).toNat % buckets
      lm.hash[hash + 2]?.bind fun ndx =>
        lm.searchChain name flag buckets (lm.symtab.length + 1) ndx

/-- The condition of `_rt_lookup` on an object of the list. -/
def isSearched (objects : Nat → RtMap) (firstLm refLm : Option Nat) (nlm : Nat) : Option Bool :=
  if some nlm = firstLm then
    some false
  else
    (rtIsglobal (objects nlm).grpset).bind fun isGlobal =>
      if isGlobal then some true
      else
        refLm.map fun ref =>
          rtIsmember (objects nlm).grpset (objects ref).grpset

/-- The loop over the list. -/
def lookupList (objects : Nat → RtMap) (name : CString) (firstLm refLm : Option Nat)
    (flag : LookupFlag) :
    List Nat → Option (Option (Nat × Nat))
  | [] => some none
  | nlm :: next =>
    (isSearched objects firstLm refLm nlm).bind fun searched =>
      if searched then
        ((objects nlm).search name flag).bind fun found =>
          match found with
          | some sym => some (some (nlm, sym))
          | none => lookupList objects name firstLm refLm flag next
      else
        lookupList objects name firstLm refLm flag next

/-- `_rt_lookup`: the object and the index of the symbol. -/
def rtLookup (objects : Nat → RtMap) (name : CString) (firstLm : Option Nat) (lmList : List Nat)
    (refLm : Option Nat)
    (flag : LookupFlag) : Option (Option (Nat × Nat)) :=
  match firstLm with
  | none => lookupList objects name none refLm flag lmList
  | some nlm =>
    ((objects nlm).search name flag).bind fun found =>
      match found with
      | some sym => some (some (nlm, sym))
      | none => lookupList objects name firstLm refLm flag lmList

end Uw7.Rtld
