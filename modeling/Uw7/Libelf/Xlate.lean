import Uw7.Lib.ByteOrder

namespace Uw7.Libelf

/-!
# Translation between file form and memory form

`xlate` and the translation routines of `libelf/common/xlate.m4`, with the structures of
`sys/elf.h` and `link.h`.  The integers of the host have the sizes that every
`sys/etype_*.h` gives them; its byte order is a parameter.  Buffers are ranges of one
memory.
-/

open Lib

inductive ElfType where
  | byte
  | addr
  | dyn
  | ehdr
  | half
  | off
  | phdr
  | rela
  | rel
  | shdr
  | sword
  | sym
  | word
  deriving DecidableEq

/-- The value of an enumerator. -/
def ElfType.number : ElfType → Nat
  | .byte => 0
  | .addr => 1
  | .dyn => 2
  | .ehdr => 3
  | .half => 4
  | .off => 5
  | .phdr => 6
  | .rela => 7
  | .rel => 8
  | .shdr => 9
  | .sword => 10
  | .sym => 11
  | .word => 12

/-- The enumerators in their order, up to `ELF_T_NUM`. -/
def elfTypes : List ElfType := [.byte, .addr, .dyn, .ehdr, .half, .off, .phdr, .rela, .rel, .shdr,
    .sword, .sym, .word]

/-- The kinds of data: the integer types, a byte, and the array `e_ident`. -/
inductive Datum where
  | addr
  | byte
  | half
  | off
  | sword
  | word
  | ident
  deriving DecidableEq

/-- The number of bytes, in a file and in memory. -/
def Datum.size : Datum → Nat
  | .addr | .off | .sword | .word => 4
  | .half => 2
  | .byte => 1
  | .ident => 16

/-- The alignment in memory. -/
def Datum.align : Datum → Nat
  | .addr | .off | .sword | .word => 4
  | .half => 2
  | .byte | .ident => 1

/-- Single bytes are not swapped. -/
def Datum.order (order : ByteOrder) : Datum → ByteOrder
  | .byte | .ident => .lsb
  | .addr | .half | .off | .sword | .word => order

/-- The members of all structures; `object` is a datum that is no structure. -/
inductive Member where
  | object
  | dTag | dVal
  | eIdent | eType | eMachine | eVersion | eEntry | ePhoff | eShoff | eFlags
  | eEhsize | ePhentsize | ePhnum | eShentsize | eShnum | eShstrndx
  | pType | pOffset | pVaddr | pPaddr | pFilesz | pMemsz | pFlags | pAlign
  | rOffset | rInfo | rAddend
  | shName | shType | shFlags | shAddr | shOffset | shSize | shLink | shInfo
  | shAddralign | shEntsize
  | stName | stValue | stSize | stInfo | stOther | stShndx
  deriving DecidableEq

/-- The enumerations of the byte offsets in a file. -/
def fileMembers : ElfType → List (Member × Datum)
  | .byte => [(.object, .byte)]
  | .addr => [(.object, .addr)]
  | .dyn => [(.dTag, .word), (.dVal, .word)]
  | .ehdr =>
    [(.eIdent, .ident), (.eType, .half), (.eMachine, .half),
      (.eVersion, .word), (.eEntry, .addr), (.ePhoff, .off),
      (.eShoff, .off), (.eFlags, .word), (.eEhsize, .half),
      (.ePhentsize, .half), (.ePhnum, .half), (.eShentsize, .half),
      (.eShnum, .half), (.eShstrndx, .half)]
  | .half => [(.object, .half)]
  | .off => [(.object, .off)]
  | .phdr =>
    [(.pType, .word), (.pOffset, .off), (.pVaddr, .addr),
      (.pPaddr, .addr), (.pFilesz, .word), (.pMemsz, .word), (.pFlags, .word), (.pAlign, .word)]
  | .rela => [(.rOffset, .addr), (.rInfo, .word), (.rAddend, .word)]
  | .rel => [(.rOffset, .addr), (.rInfo, .word)]
  | .shdr =>
    [(.shName, .word), (.shType, .word), (.shFlags, .word),
      (.shAddr, .addr), (.shOffset, .off), (.shSize, .word),
      (.shLink, .word), (.shInfo, .word), (.shAddralign, .word), (.shEntsize, .word)]
  | .sword => [(.object, .word)]
  | .sym =>
    [(.stName, .word), (.stValue, .addr), (.stSize, .word),
      (.stInfo, .byte), (.stOther, .byte), (.stShndx, .half)]
  | .word => [(.object, .word)]

/-- The structures in memory. -/
def memMembers : ElfType → List (Member × Datum)
  | .byte => [(.object, .byte)]
  | .addr => [(.object, .addr)]
  | .dyn => [(.dTag, .sword), (.dVal, .word)]
  | .ehdr =>
    [(.eIdent, .ident), (.eType, .half), (.eMachine, .half),
      (.eVersion, .word), (.eEntry, .addr), (.ePhoff, .off),
      (.eShoff, .off), (.eFlags, .word), (.eEhsize, .half),
      (.ePhentsize, .half), (.ePhnum, .half), (.eShentsize, .half),
      (.eShnum, .half), (.eShstrndx, .half)]
  | .half => [(.object, .half)]
  | .off => [(.object, .off)]
  | .phdr =>
    [(.pType, .word), (.pOffset, .off), (.pVaddr, .addr),
      (.pPaddr, .addr), (.pFilesz, .word), (.pMemsz, .word), (.pFlags, .word), (.pAlign, .word)]
  | .rela => [(.rOffset, .addr), (.rInfo, .word), (.rAddend, .sword)]
  | .rel => [(.rOffset, .addr), (.rInfo, .word)]
  | .shdr =>
    [(.shName, .word), (.shType, .word), (.shFlags, .word),
      (.shAddr, .addr), (.shOffset, .off), (.shSize, .word),
      (.shLink, .word), (.shInfo, .word), (.shAddralign, .word), (.shEntsize, .word)]
  | .sword => [(.object, .sword)]
  | .sym =>
    [(.stName, .word), (.stValue, .addr), (.stSize, .word),
      (.stInfo, .byte), (.stOther, .byte), (.stShndx, .half)]
  | .word => [(.object, .word)]

/-- Members one behind the other. -/
def packed : Nat → List (Member × Datum) → List (Member × Nat)
  | _, [] => []
  | start, (member, datum) :: rest => (member, start) :: packed (start + datum.size) rest

def aligned : Nat → List (Member × Datum) → List (Member × Nat)
  | _, [] => []
  | start, (member, datum) :: rest =>
    let offset := (start + datum.align - 1) / datum.align * datum.align
    (member, offset) :: aligned (offset + datum.size) rest

def fileOffset (type : ElfType) (member : Member) : Nat :=
  ((packed 0 (fileMembers type)).lookup member).getD 0

def memOffset (type : ElfType) (member : Member) : Nat :=
  ((aligned 0 (memMembers type)).lookup member).getD 0

/-- The number of bytes of a member in memory. -/
def memWidth (type : ElfType) (member : Member) : Nat :=
  (((memMembers type).lookup member).map Datum.size).getD 0

/-- `fmsize[..].s_filesz`. -/
def filesz (type : ElfType) : Nat := ((fileMembers type).map fun entry => entry.2.size).sum

/-- `fmsize[..].s_memsz`: the end of the last member, as a multiple of the largest
alignment. -/
def memsz (type : ElfType) : Nat :=
  let align := ((memMembers type).map fun entry => entry.2.align).foldr max 1
  let end_ := ((aligned 0 (memMembers type)).getLast?.map fun last =>
      last.2 + memWidth type last.1).getD 0
  (end_ + align - 1) / align * align

def memcpy (memory : ByteMemory) (dst src n : Nat) : ByteMemory :=
  memory.store dst n (memory.view src)

/-- The members in the order in which the `tof` routines translate them, each with its
macro; `e_ident` is copied. -/
def tofMembers : ElfType → List (Datum × Member)
  | .byte => [(.byte, .object)]
  | .addr => [(.addr, .object)]
  | .dyn => [(.word, .dTag), (.off, .dVal)]
  | .ehdr =>
    [(.ident, .eIdent), (.half, .eType), (.half, .eMachine),
      (.word, .eVersion), (.addr, .eEntry), (.off, .ePhoff),
      (.off, .eShoff), (.word, .eFlags), (.half, .eEhsize),
      (.half, .ePhentsize), (.half, .ePhnum), (.half, .eShentsize),
      (.half, .eShnum), (.half, .eShstrndx)]
  | .half => [(.half, .object)]
  | .off => [(.off, .object)]
  | .phdr =>
    [(.word, .pType), (.off, .pOffset), (.addr, .pVaddr),
      (.addr, .pPaddr), (.word, .pFilesz), (.word, .pMemsz), (.word, .pFlags), (.word, .pAlign)]
  | .rela => [(.addr, .rOffset), (.word, .rInfo), (.word, .rAddend)]
  | .rel => [(.addr, .rOffset), (.word, .rInfo)]
  | .shdr =>
    [(.word, .shName), (.word, .shType), (.word, .shFlags),
      (.addr, .shAddr), (.off, .shOffset), (.word, .shSize),
      (.word, .shLink), (.word, .shInfo), (.word, .shAddralign), (.word, .shEntsize)]
  | .sword => [(.word, .object)]
  | .sym =>
    [(.word, .stName), (.addr, .stValue), (.word, .stSize),
      (.byte, .stInfo), (.byte, .stOther), (.half, .stShndx)]
  | .word => [(.word, .object)]

/-- The members in the order in which the `tom` routines translate them. -/
def tomMembers : ElfType → List (Datum × Member)
  | .byte => [(.byte, .object)]
  | .addr => [(.addr, .object)]
  | .dyn => [(.word, .dTag), (.word, .dVal)]
  | .ehdr =>
    [(.half, .eShstrndx), (.half, .eShnum), (.half, .eShentsize),
      (.half, .ePhnum), (.half, .ePhentsize), (.half, .eEhsize),
      (.word, .eFlags), (.off, .eShoff), (.off, .ePhoff),
      (.addr, .eEntry), (.word, .eVersion), (.half, .eMachine), (.half, .eType), (.ident, .eIdent)]
  | .half => [(.half, .object)]
  | .off => [(.off, .object)]
  | .phdr =>
    [(.word, .pAlign), (.word, .pFlags), (.word, .pMemsz),
      (.word, .pFilesz), (.addr, .pPaddr), (.addr, .pVaddr), (.off, .pOffset), (.word, .pType)]
  | .rela => [(.word, .rAddend), (.word, .rInfo), (.addr, .rOffset)]
  | .rel => [(.word, .rInfo), (.addr, .rOffset)]
  | .shdr =>
    [(.word, .shEntsize), (.word, .shAddralign), (.word, .shInfo),
      (.word, .shLink), (.word, .shSize), (.off, .shOffset),
      (.addr, .shAddr), (.word, .shFlags), (.word, .shType), (.word, .shName)]
  | .sword => [(.word, .object)]
  | .sym =>
    [(.half, .stShndx), (.byte, .stOther), (.byte, .stInfo),
      (.word, .stSize), (.addr, .stValue), (.word, .stName)]
  | .word => [(.word, .object)]

variable (host encode : ByteOrder)

/-- One `tof` macro: the member is read into a temporary, whose bytes are stored. -/
def tof (type : ElfType) (dst src : Nat) (memory : ByteMemory)
    (entry : Datum × Member) : ByteMemory :=
  let target := dst + fileOffset type entry.2
  let source := src + memOffset type entry.2
  if entry.1 = .ident then
    if target ≠ source then memcpy memory target source 16 else memory
  else
    (entry.1.order encode).writeInt memory target
      ((entry.1.order host).readInt memory source (memWidth type entry.2)) entry.1.size

/-- One `tom` macro and the assignment of its value. -/
def tom (type : ElfType) (dst src : Nat) (memory : ByteMemory)
    (entry : Datum × Member) : ByteMemory :=
  let target := dst + memOffset type entry.2
  let source := src + fileOffset type entry.2
  if entry.1 = .ident then
    if target ≠ source then memcpy memory target source 16 else memory
  else
    (entry.1.order host).writeInt memory target
      ((entry.1.order encode).readInt memory source entry.1.size) (memWidth type entry.2)

/-- The loop of a routine that copies forward. -/
def forward (record : Nat → Nat → ByteMemory → ByteMemory) (dstSize srcSize : Nat) :
    Nat → Nat → Nat → ByteMemory → ByteMemory
  | 0, _, _, memory => memory
  | cnt + 1, dst, src, memory =>
    forward record dstSize srcSize cnt (dst + dstSize) (src + srcSize) (record dst src memory)

/-- The loop of a routine that copies backward. -/
def backward (record : Nat → Nat → ByteMemory → ByteMemory) (dstSize srcSize dst src : Nat) :
    Nat → ByteMemory → ByteMemory
  | 0, memory => memory
  | cnt + 1, memory =>
    backward record dstSize srcSize dst src cnt
      (record (dst + cnt * dstSize) (src + cnt * srcSize) memory)

def byteTo (dst src cnt : Nat) (memory : ByteMemory) : ByteMemory :=
  if dst ≠ src then memcpy memory dst src cnt else memory

/-- `x32[..].x_tof`, with something to translate. -/
def xTof (type : ElfType) (dst src cnt : Nat) (memory : ByteMemory) : ByteMemory :=
  match type with
  | .byte => byteTo dst src cnt memory
  | type =>
    forward (fun dst src memory =>
        (tofMembers type).foldl (tof host encode type dst src) memory)
      (filesz type) (memsz type) cnt dst src memory

/-- `x32[..].x_tom`, with something to translate: `dyn_11_tom` copies forward, the other
routines backward. -/
def xTom (type : ElfType) (dst src cnt : Nat) (memory : ByteMemory) : ByteMemory :=
  match type with
  | .byte => byteTo dst src cnt memory
  | .dyn =>
    forward (fun dst src memory =>
        (tomMembers .dyn).foldl (tom host encode .dyn dst src) memory)
      (memsz .dyn) (filesz .dyn) cnt dst src memory
  | type =>
    backward (fun dst src memory =>
        (tomMembers type).foldl (tom host encode type dst src) memory)
      (memsz type) (filesz type) dst src cnt memory

/-- `Elf_Data`, as far as it is used. -/
structure ElfData where
  dBuf : Nat
  dType : Nat
  dSize : Nat
  dVersion : Nat
  deriving DecidableEq

/-- The values of `_elf_err` that are set. -/
inductive ElfErr where
  | EREQ_ENCODE
  | EREQ_VER
  | EREQ_TYPE
  | EREQ_DSZ
  deriving DecidableEq

def elfdata : ByteOrder → Nat
  | .lsb => 1
  | .msb => 2

/-- The byte order that a table index selects. -/
def encodings : List ByteOrder := [.lsb, .msb]

def less1 (number : Nat) : Nat :=
  if number = 0 then 2 ^ 32 - 1 else number - 1

/-- `xlate`; null arguments are refused without an error number. -/
def xlate (elfEncode : Nat) (memory : ByteMemory) (dst src : Option ElfData) (encode : Nat)
    (toFile : Bool) : Except (Option ElfErr) (ByteMemory × ElfData) :=
  match dst, src with
  | some dst, some src =>
    match encodings[less1 encode]? with
    | none => .error (some .EREQ_ENCODE)
    | some order =>
      if 1 ≤ less1 dst.dVersion ∨ 1 ≤ less1 src.dVersion then
        .error (some .EREQ_VER)
      else
        match elfTypes[src.dType]? with
        | none => .error (some .EREQ_TYPE)
        | some type =>
          let dsz := if toFile then filesz type else memsz type
          let ssz := if toFile then memsz type else filesz type
          let cnt := src.dSize / ssz
          if dst.dSize < dsz * cnt % 2 ^ 32 then
            .error (some .EREQ_DSZ)
          else if elfEncode = encode ∧ dsz = ssz then
            .ok (if src.dBuf ≠ dst.dBuf then
                memcpy memory dst.dBuf src.dBuf src.dSize
                else memory,
                { dst with dType := src.dType, dSize := src.dSize })
          else
            .ok (if cnt ≠ 0 then
                if toFile then
                  xTof host order type dst.dBuf src.dBuf cnt memory
                else
                  xTom host order type dst.dBuf src.dBuf cnt memory
                else memory,
                { dst with
                  dSize := dsz * cnt % 2 ^ 32
                  dType := src.dType })
  | _, _ => .error none

def elf32Xlatetof (elfEncode : Nat) (memory : ByteMemory) (dst src : Option ElfData)
    (encode : Nat) : Except (Option ElfErr) (ByteMemory × ElfData) :=
  xlate host elfEncode memory dst src encode true

def elf32Xlatetom (elfEncode : Nat) (memory : ByteMemory) (dst src : Option ElfData)
    (encode : Nat) : Except (Option ElfErr) (ByteMemory × ElfData) :=
  xlate host elfEncode memory dst src encode false

structure ElfWork where
  elfWork : Nat
  elfEncode : Nat
  deriving DecidableEq

/-- The initial values. -/
def ElfWork.initial : ElfWork := ⟨0, 0⟩

def elfVersion (work : ElfWork) (ver : Nat) : Nat × ElfWork :=
  if ver = 0 then (1, work)
  else if 1 < ver then (0, work)
  else if work.elfWork ≠ 0 then
    (work.elfWork, { work with elfWork := ver })
  else if elfTypes.any fun type => filesz type != memsz type then
    (ver, { work with elfWork := ver })
  else
    let c := host.writeInt (fun _ => 0) 0 0x10203 4
    if ByteOrder.lsb.readInt c 0 4 = 0x10203 then
      (ver, ⟨ver, elfdata .lsb⟩)
    else if ByteOrder.msb.readInt c 0 4 = 0x10203 then
      (ver, ⟨ver, elfdata .msb⟩)
    else (ver, { work with elfWork := ver })

end Uw7.Libelf
