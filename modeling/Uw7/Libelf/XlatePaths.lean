import Uw7.Libelf.XlateRoundTrip

namespace Uw7.Libelf

/-!
# The two paths of a translation

Where the host has the encoding of the file, `xlate` copies the source as it is; otherwise
it translates whole records.  The check for room counts whole records on either path.
-/

open Lib

variable {host : ByteOrder} {type : ElfType} {memory : ByteMemory}

/-- The calls for both encodings leave the same descriptor, with room for it; its bytes are
the records of the source, and no other byte changes. -/
def PathsAgree (host : ByteOrder) (elfEncode : Nat) (type : ElfType) (toFile : Bool)
    (memory : ByteMemory) (dst src : ElfData) : Prop :=
  ∃ (cnt : Nat) (result : ElfData), result.dSize = filesz type * cnt ∧ result.dType = src.dType ∧
    result.dSize ≤ dst.dSize ∧ ∀ order, ∃ after,
      xlate host elfEncode memory (some dst) (some src) (elfdata order) toFile =
        .ok (after, result) ∧
      Translated (if toFile then host else order) (if toFile then order else host) type
        dst.dBuf src.dBuf cnt memory after

/-- `xlate` accepts the descriptors, and the whole records are in one buffer or in two. -/
structure Accepts (type : ElfType) (dst src : ElfData) : Prop where
  isType : src.dType = type.number
  version : src.dVersion = 1
  roomFor : dst.RoomFor type (src.dSize / filesz type)
  buffers : SameOrApart (filesz type * (src.dSize / filesz type)) dst.dBuf src.dBuf

theorem xlate_slow {elfEncode : Nat} {order : ByteOrder} {dst src : ElfData}
    (accepts : Accepts type dst src) (slow : elfEncode ≠ elfdata order) (toFile : Bool) :
    ∃ after, xlate host elfEncode memory (some dst) (some src) (elfdata order) toFile =
      .ok (after, dst.translated type (src.dSize / filesz type)) ∧
      Translated (if toFile then host else order) (if toFile then order else host) type
        dst.dBuf src.dBuf (src.dSize / filesz type) memory after := by
  rw [xlate_eq elfEncode order toFile accepts.isType accepts.version accepts.roomFor, if_neg slow]
  refine ⟨_, rfl, ?_⟩
  by_cases empty : src.dSize / filesz type = 0
  · rw [if_neg (not_not_intro empty), empty]
    exact ⟨rfl, fun _ _ => rfl⟩
  · rw [if_pos empty]
    cases toFile with
    | true => exact xTof_translated accepts.buffers
    | false => exact xTom_translated accepts.buffers

theorem pathsAgree_iff {elfEncode : Nat} {dst src : ElfData} (found : HostEncode host elfEncode)
    (accepts : Accepts type dst src) (toFile : Bool) :
    PathsAgree host elfEncode type toFile memory dst src ↔
      elfEncode = 0 ∨ filesz type ∣ src.dSize := by
  constructor
  · rintro ⟨cnt, result, size, -, -, calls⟩
    refine found.imp_right fun isHost => ?_
    obtain ⟨after, called, -⟩ := calls host
    rw [xlate_eq elfEncode host toFile accepts.isType accepts.version accepts.roomFor,
      if_pos isHost, Except.ok.injEq, Prod.mk.injEq] at called
    obtain ⟨-, rfl⟩ := called
    exact ⟨cnt, size⟩
  · intro whole
    refine ⟨src.dSize / filesz type, dst.translated type (src.dSize / filesz type), rfl,
      accepts.isType.symm, accepts.roomFor.room, fun order => ?_⟩
    obtain rfl | divides := whole
    · exact xlate_slow accepts (by cases order <;> decide) toFile
    · exact xlate_records found order toFile
        ⟨accepts.isType, (Nat.mul_div_cancel' divides).symm, accepts.version⟩ accepts.roomFor
        accepts.buffers

theorem xlate_pathsAgree (host : ByteOrder) (calls : List Nat) (type : ElfType) (toFile : Bool)
    (memory : ByteMemory) (dst src : ElfData) (accepts : Accepts type dst src) :
    let elfEncode := (calls.foldl (fun work ver => (elfVersion host work ver).2) .initial).elfEncode
    PathsAgree host elfEncode type toFile memory dst src ↔
      elfEncode = 0 ∨ filesz type ∣ src.dSize :=
  pathsAgree_iff (hostEncode_of_calls host calls) accepts toFile

/-- Two words are translated to their place. -/
theorem xlate_pathsAgree_words : PathsAgree .lsb 1 .word false (fun _ => 7) ⟨0, 0, 8, 1⟩
    ⟨0, 12, 8, 1⟩ := by
  have accepts : Accepts .word ⟨0, 0, 8, 1⟩ ⟨0, 12, 8, 1⟩ :=
    ⟨rfl, rfl, ⟨by decide, by decide, rfl⟩, .inl rfl⟩
  exact (xlate_pathsAgree .lsb [1] .word false (fun _ => 7) _ _ accepts).2 (.inr ⟨2, by decide⟩)

/-- Six bytes are copied where there is room for a word. -/
theorem xlate_overrun : ∃ after result, Accepts .word ⟨0, 0, 4, 1⟩ ⟨64, 12, 6, 1⟩ ∧
    xlate .lsb 1 (fun address => if address < 64 then 0 else 1) (some ⟨0, 0, 4, 1⟩)
      (some ⟨64, 12, 6, 1⟩) 1 true = .ok (after, result) ∧
    after 5 = 1 ∧ ¬ PathsAgree .lsb 1 .word true (fun address => if address < 64 then 0 else 1)
      ⟨0, 0, 4, 1⟩ ⟨64, 12, 6, 1⟩ := by
  have accepts : Accepts .word ⟨0, 0, 4, 1⟩ ⟨64, 12, 6, 1⟩ :=
    ⟨rfl, rfl, ⟨by decide, by decide, rfl⟩, .inr (.inl (by decide))⟩
  have found : HostEncode .lsb 1 := .inr rfl
  refine ⟨_, _, accepts, rfl, rfl, ?_⟩
  rw [pathsAgree_iff found accepts]
  decide

end Uw7.Libelf
