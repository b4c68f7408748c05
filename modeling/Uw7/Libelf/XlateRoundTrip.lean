import Mathlib.Data.List.Nodup
import Uw7.Libelf.Xlate

namespace Uw7.Libelf

/-!
# Translating forth and back

The members of a structure have the same offsets in a file and in memory, and the routines
translate each of them once.  A translation is therefore a list of independent moves, in
place as between buffers, and the records in the destination are those in the source, in
the other byte order.
-/

open Lib List Nat

/-- The records in a buffer, each with the values of its members. -/
def recordsAt (order : ByteOrder) (type : ElfType) (memory : ByteMemory)
    (address count : Nat) : List (List Nat) :=
  (range count).map fun index =>
    (memMembers type).map fun entry =>
      (entry.2.order order).readInt memory (address + index * memsz type + memOffset type entry.1)
        entry.2.size

/-- Buffers are the same one, or have no byte in common. -/
def SameOrApart (length one two : Nat) : Prop := one = two ∨ RangesApart one length two length

theorem memsz_eq_filesz (type : ElfType) : memsz type = filesz type := by cases type <;> decide

/-- What the macros of a routine have to do with the layouts. -/
structure FitsLayout (type : ElfType) (entry : Datum × Member) : Prop where
  offset : memOffset type entry.2 = fileOffset type entry.2
  width : memWidth type entry.2 = entry.1.size
  inside : fileOffset type entry.2 + entry.1.size ≤ filesz type

instance (type : ElfType) (entry : Datum × Member) : Decidable (FitsLayout type entry) :=
  decidable_of_iff (memOffset type entry.2 = fileOffset type entry.2 ∧
      memWidth type entry.2 = entry.1.size ∧
      fileOffset type entry.2 + entry.1.size ≤ filesz type)
    ⟨fun ⟨offset, width, inside⟩ => ⟨offset, width, inside⟩,
      fun fits => ⟨fits.offset, fits.width, fits.inside⟩⟩

/-- The members of two macros are different ones. -/
def MembersApart (type : ElfType) (first second : Datum × Member) : Prop :=
  RangesApart (fileOffset type first.2) first.1.size (fileOffset type second.2) second.1.size

instance (type : ElfType) : DecidableRel (MembersApart type) :=
  fun _ _ => inferInstanceAs (Decidable (RangesApart _ _ _ _))

/-- What is required of the macros of a routine: they fit the layouts, no two translate
the same byte, and none of the members is left out. -/
structure Translates (type : ElfType) (entries : List (Datum × Member)) : Prop where
  fits : ∀ entry ∈ entries, FitsLayout type entry
  apart : entries.Pairwise (MembersApart type)
  complete : ∀ member ∈ memMembers type, ∃ entry ∈ entries,
      entry.2 = member.1 ∧ entry.1.size = member.2.size ∧ entry.1.order .lsb = member.2.order .lsb ∧
        entry.1.order .msb = member.2.order .msb

theorem tofMembers_translates (type : ElfType) : Translates type (tofMembers type) := by
  constructor <;> cases type <;> decide

theorem tomMembers_translates (type : ElfType) : Translates type (tomMembers type) := by
  constructor <;> cases type <;> decide

theorem member_of_byte (type : ElfType) : ∀ byte < filesz type, ∃ member ∈ memMembers type,
    memOffset type member.1 ≤ byte ∧ byte < memOffset type member.1 + member.2.size := by
  cases type <;> decide

variable {host encode : ByteOrder} {type : ElfType} {memory : ByteMemory}
variable {dst src : Nat} {entries : List (Datum × Member)}

/-- The move that a macro makes. -/
def moveOf (readOrder writeOrder : ByteOrder) (type : ElfType) (dst src : Nat)
    (entry : Datum × Member) : Move where
  source := src + fileOffset type entry.2
  target := dst + fileOffset type entry.2
  width := entry.1.size
  readOrder := entry.1.order readOrder
  writeOrder := entry.1.order writeOrder

theorem memcpy_self (memory : ByteMemory) (address length : Nat) :
    memcpy memory address address length = memory := by
  funext target
  by_cases inside : address ≤ target ∧ target < address + length
  · obtain ⟨offset, within, rfl⟩ : ∃ offset, offset < length ∧ target = address + offset :=
      ⟨target - address, by omega, by omega⟩
    exact ByteMemory.store_inside _ within
  · exact ByteMemory.store_outside _ (by omega)

theorem copyIdent_eq (target source : Nat) :
    (if target ≠ source then memcpy memory target source 16 else memory) =
      ByteOrder.lsb.writeInt memory target (ByteOrder.lsb.readInt memory source 16) 16 := by
  rw [ByteOrder.writeInt_readInt]
  split_ifs with different
  · rfl
  · obtain rfl : target = source := not_not.mp different
    exact (memcpy_self memory target 16).symm

variable {entry : Datum × Member} {cnt : Nat} {order : ByteOrder}

theorem tof_eq (fits : FitsLayout type entry) (memory : ByteMemory) :
    tof host encode type dst src memory entry =
      (moveOf host encode type dst src entry).perform memory := by
  unfold tof Move.perform moveOf
  rw [fits.offset, fits.width]
  by_cases isIdent : entry.1 = .ident
  · rw [if_pos isIdent, isIdent]
    exact copyIdent_eq _ _
  · rw [if_neg isIdent]

theorem tom_eq (fits : FitsLayout type entry) (memory : ByteMemory) :
    tom host encode type dst src memory entry =
      (moveOf encode host type dst src entry).perform memory := by
  unfold tom Move.perform moveOf
  rw [fits.offset, fits.width]
  by_cases isIdent : entry.1 = .ident
  · rw [if_pos isIdent, isIdent]
    exact copyIdent_eq _ _
  · rw [if_neg isIdent]

def recordMoves (readOrder writeOrder : ByteOrder) (type : ElfType)
    (entries : List (Datum × Member))
    (dst src : Nat) : List Move :=
  entries.map (moveOf readOrder writeOrder type dst src)

/-- The moves of the records with some indices. -/
def allMoves (readOrder writeOrder : ByteOrder) (type : ElfType) (entries : List (Datum × Member))
    (dst src : Nat)
    (indices : List Nat) : List Move :=
  indices.flatMap fun index =>
    recordMoves readOrder writeOrder type entries
      (dst + index * filesz type) (src + index * filesz type)

theorem foldl_eq_recordMoves {readOrder writeOrder : ByteOrder}
    {translate : ByteMemory → Datum × Member → ByteMemory}
    (makes : ∀ entry ∈ entries, ∀ memory, translate memory entry =
      (moveOf readOrder writeOrder type dst src entry).perform memory)
    (memory : ByteMemory) :
    entries.foldl translate memory = (recordMoves readOrder writeOrder type entries dst src).foldl
      Move.perform memory := by
  rw [recordMoves, foldl_map]
  exact foldl_ext _ _ memory fun memory entry member => makes entry member memory

variable {readOrder writeOrder : ByteOrder}
variable {record : Nat → Nat → ByteMemory → ByteMemory}

theorem forward_eq (makes : ∀ dst src memory, record dst src memory =
    (recordMoves readOrder writeOrder type entries dst src).foldl Move.perform memory)
    (cnt : Nat) :
    forward record (filesz type) (filesz type) cnt dst src memory =
      (allMoves readOrder writeOrder type entries dst src
        (range cnt)).foldl Move.perform memory := by
  induction cnt generalizing dst src memory with
  | zero => rfl
  | succ cnt ih =>
    have shifted (start index : Nat) : start + filesz type + index * filesz type =
        start + (index + 1) * filesz type := by
      rw [Nat.add_mul, Nat.one_mul]
      omega
    rw [forward, ih, makes]
    simp only [allMoves, range_succ_eq_map, flatMap_cons,
      flatMap_map, foldl_append, Nat.zero_mul, Nat.add_zero,
      shifted]

theorem backward_eq (makes : ∀ dst src memory, record dst src memory =
    (recordMoves readOrder writeOrder type entries dst src).foldl Move.perform memory)
    (cnt : Nat) :
    backward record (filesz type) (filesz type) dst src cnt memory =
      (allMoves readOrder writeOrder type entries dst src
        (range cnt).reverse).foldl Move.perform memory := by
  induction cnt generalizing memory with
  | zero => rfl
  | succ cnt ih =>
    rw [backward, ih, makes]
    simp only [allMoves, range_succ, reverse_append,
      reverse_singleton, singleton_append, flatMap_cons,
      foldl_append]

theorem inside_buffer {index cnt : Nat} (below : index < cnt) :
    index * filesz type + filesz type ≤ filesz type * cnt := by
  have upTo := Nat.mul_le_mul_right (filesz type) below
  rw [succ_mul, Nat.mul_comm cnt] at upTo
  exact upTo

theorem records_apart {index other : Nat} (different : index ≠ other) :
    RangesApart (index * filesz type) (filesz type) (other * filesz type) (filesz type) := by
  rcases Nat.lt_or_gt_of_ne different with below | above
  · exact .inl (by
      have upTo := Nat.mul_le_mul_right (filesz type) below
      rwa [succ_mul] at upTo)
  · exact .inr (by
      have upTo := Nat.mul_le_mul_right (filesz type) above
      rwa [succ_mul] at upTo)

theorem independent_of_apart {total index other : Nat} {first second : Datum × Member}
    (buffers : SameOrApart total dst src)
    (firstInside : index * filesz type + fileOffset type first.2 + first.1.size ≤ total)
    (secondInside : other * filesz type + fileOffset type second.2 + second.1.size ≤ total)
    (apart : RangesApart (index * filesz type + fileOffset type first.2)
      first.1.size (other * filesz type + fileOffset type second.2)
      second.1.size) :
    Move.Independent (moveOf readOrder writeOrder type (dst + index * filesz type)
      (src + index * filesz type) first)
      (moveOf readOrder writeOrder type (dst + other * filesz type)
        (src + other * filesz type) second) := by
  unfold SameOrApart RangesApart at buffers
  unfold RangesApart at apart
  constructor <;> simp only [moveOf, RangesApart] <;> omega

theorem allMoves_independent {cnt : Nat} {indices : List Nat} (translates : Translates type entries)
    (buffers : SameOrApart (filesz type * cnt) dst src) (nodup : indices.Nodup)
    (below : ∀ index ∈ indices, index < cnt) :
    (allMoves readOrder writeOrder type entries dst src indices).Pairwise Move.Independent := by
  refine pairwise_flatMap.mpr ⟨?_, ?_⟩
  · intro index member
    have inBuffer := @inside_buffer type index cnt (below index member)
    refine pairwise_map.mpr ?_
    refine translates.apart.imp_of_mem ?_
    intro first second isFirst isSecond apart
    have firstInside := (translates.fits first isFirst).inside
    have secondInside := (translates.fits second isSecond).inside
    refine independent_of_apart buffers (by omega) (by omega) ?_
    unfold MembersApart RangesApart at apart
    unfold RangesApart
    omega
  · refine nodup.imp_of_mem ?_
    intro index other member otherMember different move isMove otherMove isOther
    obtain ⟨first, isFirst, rfl⟩ := mem_map.mp isMove
    obtain ⟨second, isSecond, rfl⟩ := mem_map.mp isOther
    have firstInside := (translates.fits first isFirst).inside
    have secondInside := (translates.fits second isSecond).inside
    have inBuffer := @inside_buffer type index cnt (below index member)
    have otherInBuffer := @inside_buffer type other cnt (below other otherMember)
    have apart := @records_apart type index other different
    refine independent_of_apart buffers (by omega) (by omega) ?_
    unfold RangesApart at apart ⊢
    omega

/-- Records have been translated from one buffer to another, and nothing else has changed. -/
structure Translated (readOrder writeOrder : ByteOrder) (type : ElfType) (dst src cnt : Nat)
    (memory after : ByteMemory) : Prop where
  records : recordsAt writeOrder type after dst cnt = recordsAt readOrder type memory src cnt
  outside : ∀ address, address < dst ∨ dst + filesz type * cnt ≤ address →
    after address = memory address

theorem Translates.translated {indices : List Nat} (translates : Translates type entries)
    (buffers : SameOrApart (filesz type * cnt) dst src) (nodup : indices.Nodup)
    (same : ∀ index, index ∈ indices ↔ index < cnt) :
    Translated readOrder writeOrder type dst src cnt memory
      ((allMoves readOrder writeOrder type entries dst src indices).foldl Move.perform memory) := by
  constructor
  · have independent := @allMoves_independent type dst src entries readOrder writeOrder cnt
        indices translates buffers nodup fun index => (same index).mp
    refine map_congr_left fun index inRange => ?_
    refine map_congr_left fun member isMember => ?_
    obtain ⟨entry, isEntry, named, sized, lsb, msb⟩ := translates.complete member isMember
    have ordered (order : ByteOrder) : member.2.order order = entry.1.order order := by
      cases order with
      | lsb => exact lsb.symm
      | msb => exact msb.symm
    have isMove : moveOf readOrder writeOrder type (dst + index * filesz type)
        (src + index * filesz type) entry ∈
        allMoves readOrder writeOrder type entries dst src indices :=
      mem_flatMap.mpr ⟨index, (same index).mpr (mem_range.mp inRange), mem_map_of_mem isEntry⟩
    have moved := @Move.readInt_performAll _ memory independent _ isMove
    rw [ordered, ordered, ← named, ← sized, memsz_eq_filesz, (translates.fits entry isEntry).offset]
    exact moved
  · intro address outside
    refine Move.performAll_outside fun move isMove => ?_
    obtain ⟨index, member, inRecord⟩ := mem_flatMap.mp isMove
    obtain ⟨entry, isEntry, rfl⟩ := mem_map.mp inRecord
    have inside := (translates.fits entry isEntry).inside
    have inBuffer := @inside_buffer type index cnt ((same index).mp member)
    simp only [moveOf]
    omega

theorem translated_memcpy (order : ByteOrder) (type : ElfType) (memory : ByteMemory)
    (dst src cnt : Nat) :
    Translated order order type dst src cnt memory
      (if dst ≠ src then memcpy memory dst src (filesz type * cnt) else memory) := by
  split_ifs with different
  · refine ⟨map_congr_left fun index inRange => ?_, fun address outside => ?_⟩
    · refine map_congr_left fun member isMember => ?_
      obtain ⟨entry, isEntry, named, sized, -⟩ :=
        (tofMembers_translates type).complete member isMember
      have fits := (tofMembers_translates type).fits entry isEntry
      have inside := fits.inside
      have inBuffer := @inside_buffer type index cnt (mem_range.mp inRange)
      rw [memsz_eq_filesz, ← named, ← sized, fits.offset]
      refine ByteOrder.readInt_congr ?_
      intro offset within
      have copied := @ByteMemory.store_inside memory dst (filesz type * cnt)
          (index * filesz type + fileOffset type entry.2 + offset)
          (memory.view src) (by omega)
      rw [memcpy, Nat.add_assoc dst, Nat.add_assoc dst, copied,
        ByteMemory.view, Nat.add_assoc src, Nat.add_assoc src]
    · exact ByteMemory.store_outside _ (by omega)
  · obtain rfl : dst = src := not_not.mp different
    exact ⟨rfl, fun _ _ => rfl⟩

theorem translated_byteTo (order other : ByteOrder) (memory : ByteMemory) (dst src cnt : Nat) :
    Translated order other .byte dst src cnt memory (byteTo dst src cnt memory) := by
  have copied := translated_memcpy order .byte memory dst src cnt
  rw [(by decide : filesz .byte = 1), Nat.one_mul] at copied
  exact ⟨copied.records, copied.outside⟩

/-- **A `tof` routine** translates the records. -/
theorem xTof_translated (buffers : SameOrApart (filesz type * cnt) dst src) :
    Translated host encode type dst src cnt memory (xTof host encode type dst src cnt memory) := by
  have translates := tofMembers_translates type
  have makes (dst src : Nat) (memory : ByteMemory) :
      (tofMembers type).foldl (tof host encode type dst src) memory =
        (recordMoves host encode type (tofMembers type) dst src).foldl Move.perform memory :=
    foldl_eq_recordMoves (fun entry member memory => tof_eq (translates.fits entry member) memory)
      memory
  have looped : Translated host encode type dst src cnt memory (forward (fun dst src memory =>
      (tofMembers type).foldl (tof host encode type dst src) memory)
      (filesz type) (memsz type) cnt dst src memory) := by
    rw [memsz_eq_filesz, forward_eq makes]
    exact translates.translated buffers nodup_range fun index => mem_range
  cases type with
  | byte => exact translated_byteTo host encode memory dst src cnt
  | addr | dyn | ehdr | half | off | phdr | rela | rel | shdr | sword | sym
    | word => exact looped

/-- **A `tom` routine** translates them back. -/
theorem xTom_translated (buffers : SameOrApart (filesz type * cnt) dst src) :
    Translated encode host type dst src cnt memory (xTom host encode type dst src cnt memory) := by
  have translates := tomMembers_translates type
  have makes (dst src : Nat) (memory : ByteMemory) :
      (tomMembers type).foldl (tom host encode type dst src) memory =
        (recordMoves encode host type (tomMembers type) dst src).foldl Move.perform memory :=
    foldl_eq_recordMoves (fun entry member memory => tom_eq (translates.fits entry member) memory)
      memory
  have loopedForward : Translated encode host type dst src cnt memory
      (forward (fun dst src memory =>
        (tomMembers type).foldl (tom host encode type dst src) memory)
        (memsz type) (filesz type) cnt dst src memory) := by
    rw [memsz_eq_filesz, forward_eq makes]
    exact translates.translated buffers nodup_range fun index => mem_range
  have loopedBackward : Translated encode host type dst src cnt memory
      (backward (fun dst src memory =>
        (tomMembers type).foldl (tom host encode type dst src) memory)
        (memsz type) (filesz type) dst src cnt memory) := by
    rw [memsz_eq_filesz, backward_eq makes]
    refine translates.translated buffers (nodup_reverse.mpr nodup_range) fun index => ?_
    rw [mem_reverse, mem_range]
  cases type with
  | byte => exact translated_byteTo encode host memory dst src cnt
  | dyn => exact loopedForward
  | addr | ehdr | half | off | phdr | rela | rel | shdr | sword | sym
    | word => exact loopedBackward

/-- What `elf_version` has made of the encoding of the host. -/
def HostEncode (host : ByteOrder) (elfEncode : Nat) : Prop :=
  elfEncode = 0 ∨ elfEncode = elfdata host

theorem elfVersion_hostEncode {work : ElfWork} (found : HostEncode host work.elfEncode)
    (ver : Nat) :
    HostEncode host (elfVersion host work ver).2.elfEncode := by
  have lsbFound : ByteOrder.lsb.readInt (ByteOrder.lsb.writeInt (fun _ => 0) 0 0x10203 4) 0 4 =
        0x10203 := by
    decide
  have msbMissed : ByteOrder.lsb.readInt (ByteOrder.msb.writeInt (fun _ => 0) 0 0x10203 4) 0 4 ≠
        0x10203 := by
    decide
  unfold elfVersion
  dsimp only
  split_ifs with none_ unknown working padded lsb msb
  · exact found
  · exact found
  · exact found
  · exact found
  · cases host with
    | lsb => exact .inr rfl
    | msb => exact absurd lsb msbMissed
  · cases host with
    | lsb => exact absurd lsbFound lsb
    | msb => exact .inr rfl
  · exact found

theorem hostEncode_of_calls (host : ByteOrder) (calls : List Nat) : HostEncode host
    (calls.foldl (fun work ver => (elfVersion host work ver).2) .initial).elfEncode := by
  have kept (work : ElfWork) (found : HostEncode host work.elfEncode) : HostEncode host
      (calls.foldl (fun work ver => (elfVersion host work ver).2) work).elfEncode := by
    induction calls generalizing work with
    | nil => exact found
    | cons ver rest ih => exact ih _ (elfVersion_hostEncode found ver)
  exact kept .initial (.inl rfl)

theorem elfdata_injective {other : ByteOrder} (same : elfdata order = elfdata other) :
    order = other := by
  cases order <;> cases other <;> first | rfl | cases same

/-- A descriptor of whole records. -/
structure ElfData.Describes (data : ElfData) (type : ElfType) (cnt : Nat) : Prop where
  isType : data.dType = type.number
  size : data.dSize = filesz type * cnt
  version : data.dVersion = 1

/-- A descriptor with room for records. -/
structure ElfData.RoomFor (data : ElfData) (type : ElfType) (cnt : Nat) : Prop where
  room : filesz type * cnt ≤ data.dSize
  size : data.dSize < 2 ^ 32
  version : data.dVersion = 1

/-- What a call leaves in the descriptor of the destination. -/
def ElfData.translated (data : ElfData) (type : ElfType) (cnt : Nat) : ElfData :=
  { data with dType := type.number, dSize := filesz type * cnt }

theorem ElfData.RoomFor.describes {data : ElfData} (roomFor : data.RoomFor type cnt) :
    (data.translated type cnt).Describes type cnt :=
  ⟨rfl, rfl, roomFor.version⟩

theorem filesz_pos (type : ElfType) : 0 < filesz type := by cases type <;> decide

/-- **An accepted call** copies the source where the host has its encoding, and translates its
whole records otherwise. -/
theorem xlate_eq (elfEncode : Nat) (order : ByteOrder) (toFile : Bool) {dst src : ElfData}
    (isType : src.dType = type.number) (version : src.dVersion = 1)
    (roomFor : dst.RoomFor type (src.dSize / filesz type)) :
    xlate host elfEncode memory (some dst) (some src) (elfdata order) toFile = .ok
      (if elfEncode = elfdata order then
        (if src.dBuf ≠ dst.dBuf then memcpy memory dst.dBuf src.dBuf src.dSize else memory,
          { dst with dType := src.dType, dSize := src.dSize })
      else
        (if src.dSize / filesz type ≠ 0 then
          if toFile then
            xTof host order type dst.dBuf src.dBuf (src.dSize / filesz type) memory
          else xTom host order type dst.dBuf src.dBuf (src.dSize / filesz type) memory
          else memory,
          dst.translated type (src.dSize / filesz type))) := by
  have index : encodings[less1 (elfdata order)]? = some order := by cases order <;> decide
  have numbered : elfTypes[src.dType]? = some type := by
    rw [isType]
    cases type <;> rfl
  have versions : ¬(1 ≤ less1 dst.dVersion ∨ 1 ≤ less1 src.dVersion) := by
    rw [version, roomFor.version]
    decide
  have room := roomFor.room
  have size := roomFor.size
  have small : filesz type * (src.dSize / filesz type) % 2 ^ 32 =
      filesz type * (src.dSize / filesz type) := mod_eq_of_lt (by omega)
  unfold xlate
  rw [index]
  dsimp only
  rw [if_neg versions, numbered]
  dsimp only
  rw [memsz_eq_filesz, ite_self, small, if_neg (not_lt.mpr room)]
  simp only [and_true]
  split_ifs <;> rw [isType] <;> rfl

/-- **One call** translates the records, and reports their size. -/
theorem xlate_records {elfEncode cnt : Nat} (found : HostEncode host elfEncode) (order : ByteOrder)
    (toFile : Bool) {dst src : ElfData} (describes : src.Describes type cnt)
    (roomFor : dst.RoomFor type cnt) (buffers : SameOrApart (filesz type * cnt) dst.dBuf src.dBuf) :
    ∃ after, xlate host elfEncode memory (some dst) (some src) (elfdata order) toFile =
      .ok (after, dst.translated type cnt) ∧
      Translated (if toFile then host else order) (if toFile then order else host) type
        dst.dBuf src.dBuf cnt memory after := by
  have counted : src.dSize / filesz type = cnt := by
    rw [describes.size, Nat.mul_div_cancel_left cnt (filesz_pos type)]
  rw [xlate_eq elfEncode order toFile describes.isType describes.version (counted ▸ roomFor),
    counted]
  by_cases fast : elfEncode = elfdata order
  · -- the host has the encoding, so nothing is swapped
    have sameOrder : order = host := by
      rcases found with notFound | isHost
      · rw [fast] at notFound
        cases order <;> cases notFound
      · exact elfdata_injective (fast.symm.trans isHost)
    subst sameOrder
    rw [if_pos fast]
    refine ⟨_, by rw [describes.isType, describes.size]; rfl, ?_⟩
    simp only [ite_self, ne_comm (a := src.dBuf)]
    exact translated_memcpy _ _ _ _ _ _
  · rw [if_neg fast]
    refine ⟨_, rfl, ?_⟩
    by_cases empty : cnt = 0
    · rw [empty]
      exact ⟨rfl, fun _ _ => rfl⟩
    · rw [if_pos empty]
      cases toFile with
      | true => exact xTof_translated buffers
      | false => exact xTom_translated buffers

theorem bytes_of_recordsAt {left right : ByteMemory} {leftAddress rightAddress : Nat}
    (same : recordsAt order type left leftAddress cnt = recordsAt order type right rightAddress cnt)
    (offset : Nat) (within : offset < filesz type * cnt) :
    left (leftAddress + offset) = right (rightAddress + offset) := by
  have positive := filesz_pos type
  have split := div_add_mod offset (filesz type)
  have inRecord := mod_lt offset positive
  have below : offset / filesz type < cnt := Nat.div_lt_of_lt_mul within
  obtain ⟨member, isMember, notBefore, notBehind⟩ := member_of_byte type _ inRecord
  have sameRecord := map_inj_left.mp same _ (mem_range.mpr below)
  have sameMember := map_inj_left.mp sameRecord member isMember
  have sameByte := ByteOrder.bytes_of_readInt sameMember
      (offset % filesz type - memOffset type member.1) (by omega)
  have isOffset (start : Nat) : start + offset / filesz type * memsz type +
      memOffset type member.1 +
      (offset % filesz type - memOffset type member.1) =
      start + offset := by
    rw [memsz_eq_filesz, Nat.mul_comm]
    omega
  rwa [isOffset, isOffset] at sameByte

/--
After any calls of `elf_version`, for every type, encoding, number of records and
buffers, `elf32_xlatetom` gives back the records that `elf32_xlatetof` has translated, and
`elf32_xlatetof` gives back the bytes that `elf32_xlatetom` has translated.  Source and
destination of a call may be the same buffer.
-/
theorem xlate_roundTrip (host order : ByteOrder) (calls : List Nat) (type : ElfType)
    (memory : ByteMemory) (cnt : Nat) (src dst back : ElfData) (describes : src.Describes type cnt)
    (dstRoom : dst.RoomFor type cnt) (backRoom : back.RoomFor type cnt)
    (forth : SameOrApart (filesz type * cnt) dst.dBuf src.dBuf)
    (andBack : SameOrApart (filesz type * cnt) back.dBuf dst.dBuf) :
    let elfEncode := (calls.foldl (fun work ver => (elfVersion host work ver).2) .initial).elfEncode
    (∃ inFile inMemory dst' back', elf32Xlatetof host elfEncode memory (some dst) (some src)
      (elfdata order) =
      .ok (inFile, dst') ∧
      elf32Xlatetom host elfEncode inFile (some back) (some dst') (elfdata order) =
        .ok (inMemory, back') ∧
      dst'.dSize = filesz type * cnt ∧
      back'.dSize = memsz type * cnt ∧
      recordsAt host type inMemory back'.dBuf cnt = recordsAt host type memory src.dBuf cnt) ∧
    ∃ inMemory inFile dst' back', elf32Xlatetom host elfEncode memory (some dst) (some src)
      (elfdata order) =
      .ok (inMemory, dst') ∧
      elf32Xlatetof host elfEncode inMemory (some back) (some dst') (elfdata order) =
        .ok (inFile, back') ∧
      dst'.dSize = memsz type * cnt ∧
      back'.dSize = filesz type * cnt ∧
      ∀ offset, offset < filesz type * cnt →
        inFile (back'.dBuf + offset) = memory (src.dBuf + offset) := by
  intro elfEncode
  have found : HostEncode host elfEncode := hostEncode_of_calls host calls
  have translated := dstRoom.describes
  refine ⟨?_, ?_⟩
  · obtain ⟨inFile, toFile, fileRecords⟩ :=
      @xlate_records host type memory _ _ found order true _ _ describes dstRoom forth
    obtain ⟨inMemory, toMemory, memoryRecords⟩ :=
      @xlate_records host type inFile _ _ found order false _ _ translated backRoom andBack
    refine ⟨inFile, inMemory, _, _, toFile, toMemory, rfl, ?_,
      memoryRecords.records.trans fileRecords.records⟩
    rw [memsz_eq_filesz]
    rfl
  · obtain ⟨inMemory, toMemory, memoryRecords⟩ :=
      @xlate_records host type memory _ _ found order false _ _ describes dstRoom forth
    obtain ⟨inFile, toFile, fileRecords⟩ :=
      @xlate_records host type inMemory _ _ found order true _ _ translated backRoom andBack
    refine ⟨inMemory, inFile, _, _, toMemory, toFile, ?_, rfl,
      bytes_of_recordsAt (fileRecords.records.trans memoryRecords.records)⟩
    rw [memsz_eq_filesz]
    rfl

theorem xlate_roundTrip_symbols : ∃ inFile inMemory dst' back',
    elf32Xlatetof .lsb 1 (fun address => Fin.ofNat 256 address)
      (some ⟨64, 11, 32, 1⟩) (some ⟨64, 11, 32, 1⟩) 2 =
      .ok (inFile, dst') ∧
    elf32Xlatetom .lsb 1 inFile (some ⟨128, 0, 40, 1⟩) (some dst') 2 = .ok (inMemory, back') ∧
    back'.dSize = 32 ∧
    recordsAt .lsb .sym inMemory back'.dBuf 2 =
      recordsAt .lsb .sym (fun address => Fin.ofNat 256 address) 64 2 := by
  have encoded : ([1].foldl (fun work ver => (elfVersion .lsb work ver).2)
      ElfWork.initial).elfEncode = 1 := by
    decide
  have trip := xlate_roundTrip .lsb .msb [1] .sym (fun address => Fin.ofNat 256 address)
      2 ⟨64, 11, 32, 1⟩ ⟨64, 11, 32, 1⟩ ⟨128, 0, 40, 1⟩
      ⟨rfl, by decide, rfl⟩ ⟨by decide, by decide, rfl⟩
      ⟨by decide, by decide, rfl⟩ (.inl rfl)
      (.inr (by unfold RangesApart; decide))
  obtain ⟨inFile, inMemory, dst', back', toFile, toMemory, -, sized, same⟩ := trip.1
  exact ⟨inFile, inMemory, dst', back', toFile, toMemory, sized, same⟩

end Uw7.Libelf
