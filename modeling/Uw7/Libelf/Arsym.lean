import Mathlib.Data.List.Basic
import Uw7.Lib.ByteMemory

namespace Uw7.Libelf

/-!
# The archive symbol table

`elf_getarsym` from `libelf/common/getarsym.c` and `elf_hash`.  Pointers into the member
are the bytes from there to its end, and a read behind the end has no result; nor has a
write behind the end of the table.
-/

open Lib List Option

/-- The values of `_elf_err` that are set; `vm` stands for those of `_elf_vm`. -/
inductive ArsymErr where
  | EFMT_ARSYMSZ
  | EFMT_ARSYM
  | EMEM_ARSYM
  | EFMT_ARSYMSTR
  | EREQ_AR
  | vm
  deriving DecidableEq

/-- `Elf_Arsym`, with the name as its place in the member. -/
structure ElfArsym where
  asName : Option Nat
  asOff : Nat
  asHash : Nat
  deriving DecidableEq

def elfHash (name : List Byte) : Nat := name.foldl (fun h byte =>
    let h := (h * 16 + byte.val) % 2 ^ 32
    (h ^^^ ((h &&& 0xF0000000) >>> 24)) &&& 0x0FFFFFFF) 0

def get4 : List Byte → Option Nat
  | first :: second :: third :: fourth :: _ =>
    some (((first.val * 256 + second.val) * 256 + third.val) * 256 + fourth.val)
  | _ => none

def readString : List Byte → Option (List Byte × List Byte)
  | [] => none
  | byte :: rest =>
    if byte = 0 then some ([], rest)
    else (readString rest).map fun (name, str) => (byte :: name, str)

/-- The entry behind the others. -/
def lastArsym : ElfArsym := ⟨none, 0, 2 ^ 32 - 1⟩

def arsymLoop (sz : Nat) : Nat → List Byte → List Byte → Option (Except ArsymErr (List ElfArsym))
  | 0, _, _ => some (.ok [lastArsym])
  | n + 1, off, str =>
    if str = [] then some (.error .EFMT_ARSYMSTR)
    else
      match get4 off, readString str with
      | some word, some (name, rest) =>
        (arsymLoop sz n (off.drop 4) rest).map fun result => result.map fun entries =>
          ⟨some (sz - str.length), word, elfHash name⟩ :: entries
      | _, _ => none

/-- `arsym`, with the number of entries; `memory` says whether `malloc` finds any.  The size
that it is asked for is a `size_t`. -/
def arsym (member : List Byte) (memory : Bool) : Option (Except ArsymErr (Nat × List ElfArsym)) :=
  if member.length < 4 then some (.error .EFMT_ARSYMSZ)
  else
    match get4 member with
    | none => none
    | some n =>
      if (member.length - 4) / 4 < n then some (.error .EFMT_ARSYMSZ)
      else
        let str := member.drop (4 + n * 4)
        if str = [] ∨ member.getLast? ≠ some 0 then some (.error .EFMT_ARSYM)
        else if memory = false then some (.error .EMEM_ARSYM)
        else
          match arsymLoop member.length n (member.drop 4) str with
          | some (.ok entries) =>
            if 12 * (n + 1) < 2 ^ 32 then some (.ok (n + 1, entries)) else none
          | result => result.map fun result => result.map fun entries => (n + 1, entries)

/-- `ed_arsym`, as the member holds it or translated. -/
inductive EdArsym where
  | absent
  | member (bytes : List Byte)
  | table (entries : Nat × List ElfArsym)

/-- `elf_getarsym` with what it leaves in `ed_arsym`; `vm` says whether `_elf_vm` succeeds. -/
def elfGetarsym (isAr : Bool) (edArsym : EdArsym) (vm memory : Bool) :
    Option (Except (Option ArsymErr) (Nat × List ElfArsym) × EdArsym) :=
  if isAr = false then some (.error (some .EREQ_AR), edArsym)
  else
    match edArsym with
    | .absent => some (.error none, .absent)
    | .table entries => some (.ok entries, .table entries)
    | .member bytes =>
      if vm = false then some (.error (some .vm), edArsym)
      else
        (arsym bytes memory).map fun
          | .ok entries => (.ok entries, .table entries)
          | .error error => (.error (some error), .absent)

/-- Strings without nulls, each with a null behind it. -/
def terminated (names : List (List Byte)) : List Byte := names.flatMap fun name => name ++ [0]

/-- Some strings stand at the start of a string area. -/
def StringsAt (names : List (List Byte)) (area : List Byte) : Prop :=
  (∀ name ∈ names, 0 ∉ name) ∧ terminated names <+: area

/-- The entries for some words and strings, one behind the other from a place on. -/
def entriesOf : List Byte → Nat → List (List Byte) → List ElfArsym
  | _, _, [] => [lastArsym]
  | off, start, name :: names =>
    ⟨some start, (get4 off).getD 0, elfHash name⟩ ::
      entriesOf (off.drop 4) (start + name.length + 1) names

/-- The count, the offsets and a null-terminated area with that many strings fit. -/
structure ArsymFits (member : List Byte) (count : Nat) (names : List (List Byte)) : Prop where
  isCount : get4 member = some count
  offsets : 4 + 4 * count < member.length
  last : member.getLast? = some 0
  strings : StringsAt names (member.drop (4 + 4 * count))
  enough : names.length = count

def EndsNull (str : List Byte) : Prop := str ≠ [] → str.getLast? = some 0

theorem readString_spec {str : List Byte} (ends : EndsNull str) (some : str ≠ []) :
    ∃ name rest, readString str = Option.some (name, rest) ∧ 0 ∉ name ∧ str = name ++ 0 :: rest ∧
      EndsNull rest := by
  induction str with
  | nil => exact absurd rfl some
  | cons byte str ih =>
    have last := ends some
    by_cases isNull : byte = 0
    · subst isNull
      refine ⟨[], str, rfl, not_mem_nil, rfl, fun more => ?_⟩
      rwa [List.getLast?_cons, List.getLast?_eq_some_getLast more, getD_some,
        ← List.getLast?_eq_some_getLast more] at last
    · have more : str ≠ [] := by
        rintro rfl
        exact isNull (Option.some.inj last)
      have restEnds : EndsNull str := fun more => by
        rwa [List.getLast?_cons, List.getLast?_eq_some_getLast more, getD_some,
          ← List.getLast?_eq_some_getLast more] at last
      obtain ⟨name, rest, read, noNull, rfl, endsRest⟩ := ih restEnds more
      refine ⟨byte :: name, rest, ?_, ?_, rfl, endsRest⟩
      · rw [readString, if_neg isNull, read, map_some]
      · exact not_mem_cons_of_ne_of_not_mem (Ne.symm isNull) noNull

theorem readString_append {name rest : List Byte} (noNull : 0 ∉ name) :
    readString (name ++ 0 :: rest) = some (name, rest) := by
  induction name with
  | nil => rfl
  | cons byte name ih =>
    obtain ⟨isByte, noNull⟩ := not_or.1 (mt mem_cons.2 noNull)
    rw [cons_append, readString, if_neg (Ne.symm isByte), ih noNull]
    rfl

theorem stringsAt_cons {name rest : List Byte} (noNull : 0 ∉ name) (first : List Byte)
    (names : List (List Byte)) :
    StringsAt (first :: names) (name ++ 0 :: rest) ↔ first = name ∧ StringsAt names rest := by
  constructor
  · rintro ⟨nulls, behind, isArea⟩
    have firstNull := nulls first mem_cons_self
    simp only [terminated, flatMap_cons, append_assoc, cons_append, nil_append] at isArea
    have sameString := @readString_append first (terminated names ++ behind) firstNull
    rw [terminated, isArea, readString_append noNull, some_inj, Prod.mk.injEq] at sameString
    exact ⟨sameString.1.symm, fun other member => nulls other (mem_cons_of_mem _ member),
      behind, sameString.2.symm⟩
  · rintro ⟨rfl, nulls, behind, rfl⟩
    refine ⟨fun other member => ?_, behind, ?_⟩
    · obtain rfl | member := mem_cons.1 member
      · exact noNull
      · exact nulls other member
    · simp [terminated]

theorem get4_isSome {off : List Byte} (enough : 4 ≤ off.length) : ∃ word, get4 off = some word := by
  match off, enough with
  | _ :: _ :: _ :: _ :: _, _ => exact ⟨_, rfl⟩

/-- The loop returns the entries of the strings that are there, or there are too few. -/
theorem arsymLoop_spec {sz n : Nat} {off str : List Byte} (words : 4 * n ≤ off.length)
    (ends : EndsNull str) (inside : str.length ≤ sz) :
    (∃ names, names.length = n ∧ StringsAt names str ∧
      arsymLoop sz n off str = some (.ok (entriesOf off (sz - str.length) names))) ∨
    (arsymLoop sz n off str = some (.error .EFMT_ARSYMSTR) ∧
      ∀ names : List (List Byte), names.length = n → ¬ StringsAt names str) := by
  induction n generalizing off str with
  | zero => exact .inl ⟨[], rfl, ⟨fun name member => absurd member not_mem_nil, str, rfl⟩, rfl⟩
  | succ n ih =>
    by_cases isEmpty : str = []
    · subst isEmpty
      refine .inr ⟨rfl, fun names length strings => ?_⟩
      cases names with
      | nil => cases length
      | cons name names =>
        obtain ⟨-, behind, isArea⟩ := strings
        simp [terminated] at isArea
    · obtain ⟨name, rest, read, noNull, rfl, endsRest⟩ := readString_spec ends isEmpty
      obtain ⟨word, isWord⟩ := @get4_isSome off (by omega)
      simp only [length_append, length_cons] at inside
      have drops : 4 * n ≤ (off.drop 4).length := by
        rw [length_drop]
        omega
      rw [arsymLoop, if_neg isEmpty, isWord, read]
      dsimp only
      obtain ⟨names, length, strings, loops⟩ | ⟨fails, tooFew⟩ := ih drops endsRest (by omega)
      · refine .inl ⟨name :: names, congrArg (· + 1) length,
          (stringsAt_cons noNull name names).2 ⟨rfl, strings⟩, ?_⟩
        have place : sz - (name ++ 0 :: rest).length + name.length + 1 = sz - rest.length := by
          rw [length_append, length_cons]
          omega
        rw [loops, entriesOf, isWord, place]
        rfl
      · refine .inr ⟨by rw [fails]; rfl, fun names length strings => ?_⟩
        cases names with
        | nil => cases length
        | cons first names =>
          exact tooFew names (Nat.succ.inj length) ((stringsAt_cons noNull first names).1 strings).2

theorem getLast?_drop {member : List Byte} {count : Nat} (inside : count < member.length) :
    (member.drop count).getLast? = member.getLast? := by
  rw [List.getLast?_drop, if_neg (by omega)]

theorem arsym_spec (member : List Byte)
    (small : ∀ count, get4 member = some count → 12 * (count + 1) < 2 ^ 32) :
    (∃ count names, ArsymFits member count names ∧ arsym member true = some (.ok (count + 1,
      entriesOf (member.drop 4) (4 + 4 * count) names))) ∨
    (∃ error, arsym member true = some (.error error)) ∧
      ∀ count names, ¬ ArsymFits member count names := by
  by_cases short : member.length < 4
  · refine .inr ⟨⟨_, if_pos short⟩, fun count names fits => ?_⟩
    have offsets := fits.offsets
    omega
  · obtain ⟨count, isCount⟩ := @get4_isSome member (by omega)
    unfold arsym
    rw [if_neg short, isCount]
    dsimp only
    have onlyCount {other : Nat} {names : List (List Byte)} (fits : ArsymFits member other names) :
        other = count := Option.some.inj (fits.isCount.symm.trans isCount)
    by_cases many : (member.length - 4) / 4 < count
    · refine .inr ⟨⟨_, if_pos many⟩, fun other names fits => ?_⟩
      have offsets := fits.offsets
      have isOther := onlyCount fits
      omega
    · rw [if_neg many, Nat.mul_comm count]
      by_cases noArea : member.drop (4 + 4 * count) = [] ∨ member.getLast? ≠ some 0
      · refine .inr ⟨⟨_, if_pos noArea⟩, fun other names fits => ?_⟩
        obtain rfl := onlyCount fits
        obtain isEmpty | notNull := noArea
        · have offsets := fits.offsets
          rw [drop_eq_nil_iff] at isEmpty
          omega
        · exact notNull fits.last
      · rw [if_neg noArea, if_neg Bool.noConfusion]
        obtain ⟨area, last⟩ := not_or.1 noArea
        have inside : 4 + 4 * count < member.length := by rwa [drop_eq_nil_iff, not_le] at area
        have size : (member.drop (4 + 4 * count)).length = member.length - (4 + 4 * count) :=
          length_drop
        obtain ⟨names, length, strings, loops⟩ | ⟨fails, tooFew⟩ :=
          @arsymLoop_spec member.length count (member.drop 4) (member.drop (4 + 4 * count))
            (by rw [length_drop]; omega)
            (fun _ => (getLast?_drop inside).trans (not_not.1 last)) (by omega)
        · refine .inl ⟨count, names, ⟨isCount, inside, not_not.1 last, strings, length⟩, ?_⟩
          have start : member.length - (member.length - (4 + 4 * count)) = 4 + 4 * count := by omega
          rw [loops, size, start]
          exact if_pos (small count isCount)
        · refine .inr ⟨⟨_, by rw [fails]; rfl⟩, fun other names fits => ?_⟩
          obtain rfl := onlyCount fits
          exact tooFew names fits.enough fits.strings

theorem arsym_noMemory (member : List Byte) :
    ∃ error, arsym member false = some (.error error) := by
  unfold arsym
  by_cases short : member.length < 4
  · exact ⟨_, if_pos short⟩
  · obtain ⟨count, isCount⟩ := @get4_isSome member (by omega)
    rw [if_neg short, isCount]
    dsimp only
    split
    · exact ⟨_, rfl⟩
    · split <;> exact ⟨_, rfl⟩

end Uw7.Libelf
