import Mathlib.Algebra.Order.Ring.Nat
import Mathlib.Data.List.Perm.Subperm
import Mathlib.Data.List.TakeWhile
import Uw7.Rtld.Lookup

namespace Uw7.Rtld

/-!
# What a lookup finds

An object defines a name by the first entry of that name in its hash table, if the
entry is defined.  A lookup finds the definition of the first object searched that
has one, through the hash chains, if the characters of the name are not negative.
-/

open List Nat Option

/-- A chain of indices in the words behind the buckets. -/
def Linked (hash : List Nat) (base : Nat) : Nat → List Nat → Prop
  | ndx, [] => ndx = 0
  | ndx, i :: rest =>
    ndx = i ∧ i ≠ 0 ∧ ∃ next, hash[base + i]? = some next ∧ Linked hash base next rest

/-- The name of a symbol. -/
def RtMap.symName (lm : RtMap) (sym : Elf32Sym) : CString where
  bytes := lm.stringAt sym.stName
  terminated := by
    intro isMember
    have notZero := mem_takeWhile_imp isMember
    simp at notZero

/-- An object whose hash table is made of chains, one for each bucket. -/
structure LoadedMap extends RtMap where
  chains : List (List Nat)
  buckets : hash[0]? = some chains.length
  positive : 0 < chains.length
  linked : ∀ bucket chain, chains[bucket]? = some chain → ∃ head, hash[bucket + 2]? = some head ∧
      Linked hash (2 + chains.length) head chain
  indices : ∀ chain ∈ chains, chain.Nodup ∧ ∀ i ∈ chain, i < symtab.length
  placed : ∀ bucket chain, chains[bucket]? = some chain →
      ∀ i ∈ chain, ∀ sym, symtab[i]? = some sym →
        (elfHash (toRtMap.symName sym)).toNat % chains.length = bucket
  grouped : grpset ≠ []

namespace LoadedMap

/-- An index of the symbol table whose symbol has the name. -/
def names (lm : LoadedMap) (name : CString) (i : Nat) : Bool :=
  (lm.symtab[i]?).any fun sym => lm.symName sym == name

/-- An index of the symbol table whose symbol is taken. -/
def defines (lm : LoadedMap) (flag : LookupFlag) (i : Nat) : Bool :=
  (lm.symtab[i]?).any fun sym => lm.accepts flag sym

/-- The first entry of the name in the whole hash table, if it is defined. -/
def definition (lm : LoadedMap) (name : CString) (flag : LookupFlag) : Option Nat :=
  (lm.chains.flatten.find? (lm.names name)).filter (lm.defines flag)

end LoadedMap

theorem mask_getLsbD : ∀ i < 32, (0xf0000000#32).getLsbD i = decide (28 ≤ i) := by decide

theorem rtHashStep_eq (hval c : BitVec 32) : rtHashStep hval c = elfHashStep hval c := by
  unfold rtHashStep elfHashStep
  generalize (hval <<< 4) + c = h
  refine BitVec.eq_of_getLsbD_eq fun i bound => ?_
  by_cases high : 28 ≤ i
  · -- a high bit is that of `h`, and is cleared either way
    have beyond : ((h &&& 0xf0000000#32) >>> 24).getLsbD i = false := by
      rw [BitVec.getLsbD_ushiftRight]
      exact BitVec.getLsbD_of_ge _ _ (by omega)
    have kept : ∀ g : BitVec 32, (if g = 0#32 then h
            else h ^^^ ((h &&& 0xf0000000#32) >>> 24)).getLsbD i = h.getLsbD i := by
      intro g
      split
      · rfl
      · rw [BitVec.getLsbD_xor, beyond, Bool.xor_false]
    simp only [BitVec.getLsbD_and, BitVec.getLsbD_not, kept, bound,
      mask_getLsbD i bound, high, decide_true, Bool.and_true, Bool.true_and,
      Bool.not_true, Bool.and_false, Bool.and_not_self]
  · simp only [BitVec.getLsbD_and, BitVec.getLsbD_not, bound,
      mask_getLsbD i bound, high, decide_false, decide_true, Bool.and_false,
      Bool.not_false, Bool.and_true]

theorem rtHash_eq {name : CString} (plain : ∀ c ∈ name.bytes, c.msb = false) :
    rtHash name = elfHash name := by
  refine foldl_ext _ _ _ fun hval c isMember => ?_
  rw [rtHashStep_eq, BitVec.signExtend_eq_setWidth_of_msb_false (plain c isMember)]

theorem and_shift_ne_zero (members : BitVec 32) {bit : Nat} (bound : bit < 32) :
    (members &&& (1#32 <<< bit) != 0#32) = members.getLsbD bit := by
  rw [← BitVec.twoPow_eq, BitVec.and_twoPow]
  cases isSet : members.getLsbD bit with
  | true =>
    have notZero : BitVec.twoPow 32 bit ≠ 0#32 := by
      intro isZero
      have isBit := congrArg (fun word => word.getLsbD bit) isZero
      simp [bound] at isBit
    simpa using notZero
  | false => simp

theorem rtHasgroup_iff {grp : Nat} {grpset : List (BitVec 32)} : rtHasgroup grp grpset = true ↔
    ∃ members, grpset[grp / 32]? = some members ∧ members.getLsbD (grp % 32) = true := by
  have bit : grp - grp / 32 * 32 = grp % 32 := by omega
  unfold rtHasgroup
  simp only [bit]
  split
  case h_1 noWord => simp [noWord]
  case h_2 members isWord =>
    simp only [isWord, some.injEq, exists_eq_left']
    rw [and_shift_ne_zero members (mod_lt _ (by decide))]

theorem rtIsmember_iff {set1 set2 : List (BitVec 32)} : rtIsmember set1 set2 = true ↔
    ∃ grp, rtHasgroup grp set1 = true ∧ rtHasgroup grp set2 = true := by
  simp only [rtHasgroup_iff]
  induction set1 generalizing set2 with
  | nil => simp [rtIsmember]
  | cons members1 rest1 ih =>
    cases set2 with
    | nil => simp [rtIsmember]
    | cons members2 rest2 =>
      rw [rtIsmember, Bool.or_eq_true, ih]
      constructor
      · rintro (common | ⟨grp, isFirst, isSecond⟩)
        · have someBit : ∃ bit < 32, (members1 &&& members2).getLsbD bit = true := by
            by_contra noBit
            rw [bne_iff_ne] at common
            refine common (BitVec.eq_of_getLsbD_eq fun bit bound => ?_)
            have clear : ¬ (members1 &&& members2).getLsbD bit = true :=
              fun isSet => noBit ⟨bit, bound, isSet⟩
            rw [Bool.not_eq_true] at clear
            rw [clear, BitVec.getLsbD_zero]
          obtain ⟨bit, bound, isSet⟩ := someBit
          rw [BitVec.getLsbD_and, Bool.and_eq_true] at isSet
          refine ⟨bit, ⟨members1, ?_, ?_⟩, ⟨members2, ?_, ?_⟩⟩
          · simp [div_eq_of_lt bound]
          · rw [mod_eq_of_lt bound]
            exact isSet.1
          · simp [div_eq_of_lt bound]
          · rw [mod_eq_of_lt bound]
            exact isSet.2
        · refine ⟨grp + 32, ?_⟩
          simpa [add_div_right] using ⟨isFirst, isSecond⟩
      · rintro ⟨grp, ⟨word1, isWord1, isSet1⟩, word2, isWord2, isSet2⟩
        by_cases isHead : grp < 32
        · rw [div_eq_of_lt isHead] at isWord1 isWord2
          simp only [List.getElem?_cons_zero, some.injEq] at isWord1 isWord2
          subst word1 word2
          left
          rw [bne_iff_ne]
          intro isZero
          have isBit := congrArg (fun word => word.getLsbD (grp % 32)) isZero
          simp [isSet1, isSet2] at isBit
        · obtain ⟨below, rfl⟩ := Nat.exists_eq_add_of_le (Nat.not_lt.mp isHead)
          have chunk : (32 + below) / 32 = below / 32 + 1 := by omega
          have bit : (32 + below) % 32 = below % 32 := by omega
          rw [chunk, List.getElem?_cons_succ] at isWord1 isWord2
          rw [bit] at isSet1 isSet2
          exact .inr ⟨below, ⟨word1, isWord1, isSet1⟩, word2, isWord2, isSet2⟩

theorem rtIsglobal_eq {grpset : List (BitVec 32)} (grouped : grpset ≠ []) :
    rtIsglobal grpset = some (rtHasgroup 0 grpset) := by
  cases grpset with
  | nil => exact absurd rfl grouped
  | cons members rest => rfl

namespace LoadedMap

theorem names_eq {lm : LoadedMap} {name : CString} {i : Nat} {sym : Elf32Sym}
    (isSym : lm.symtab[i]? = some sym) :
    lm.names name i = decide (lm.stringAt sym.stName = name.bytes) := by
  rw [names, isSym, any_some, Bool.eq_iff_iff, beq_iff_eq, decide_eq_true_iff]
  exact ⟨fun same => congrArg CString.bytes same, fun same => by
    cases name
    simpa [RtMap.symName] using same⟩

theorem searchChain_eq (lm : LoadedMap) (name : CString) (flag : LookupFlag) {fuel ndx : Nat}
    {chain : List Nat} (linked : Linked lm.hash (2 + lm.chains.length) ndx chain)
    (bounded : ∀ i ∈ chain, i < lm.symtab.length) (enough : chain.length ≤ fuel) :
    lm.toRtMap.searchChain name flag lm.chains.length fuel ndx =
      some ((chain.find? (lm.names name)).filter (lm.defines flag)) := by
  induction chain generalizing fuel ndx with
  | nil =>
    obtain rfl : ndx = 0 := linked
    simp [RtMap.searchChain]
  | cons i rest ih =>
    obtain ⟨rfl, notZero, next, isNext, linkedRest⟩ := linked
    obtain ⟨index, rfl⟩ := exists_eq_succ_of_ne_zero notZero
    have positive : 0 < fuel := Nat.lt_of_lt_of_le (succ_pos _) enough
    obtain ⟨fuel, rfl⟩ := exists_eq_succ_of_ne_zero (Nat.ne_of_gt positive)
    obtain ⟨sym, isSym⟩ : ∃ sym, lm.symtab[index + 1]? = some sym :=
      ⟨_, List.getElem?_eq_getElem (bounded _ mem_cons_self)⟩
    have restFound := @ih fuel next linkedRest
        (fun i isMember => bounded i (mem_cons_of_mem _ isMember)) (le_of_succ_le_succ enough)
    simp only [RtMap.searchChain, isSym, bind_some]
    by_cases same : lm.stringAt sym.stName = name.bytes
    · have named : lm.names name (index + 1) = true := by
        rw [names_eq isSym]
        exact decide_eq_true same
      rw [if_neg (not_not.mpr same), List.find?_cons_of_pos named]
      have value : lm.defines flag (index + 1) = lm.accepts flag sym := by
        rw [defines, isSym, any_some]
      rw [filter_some, value]
      cases lm.accepts flag sym with
      | true => rfl
      | false => rfl
    · have notNamed : ¬ lm.names name (index + 1) = true := by
        rw [names_eq isSym]
        simpa using same
      rw [if_pos same, List.find?_cons_of_neg notNamed]
      have isNext' : lm.hash[2 + lm.chains.length + (index + 1)]? = some next := isNext
      rw [isNext', bind_some, restFound]

theorem findSome?_of_only {α β : Type} {f : α → Option β} {items : List α} {index : Nat} {item : α}
    (isItem : items[index]? = some item)
    (only : ∀ other x, items[other]? = some x → other ≠ index → f x = none) :
    items.findSome? f = f item := by
  induction items generalizing index with
  | nil => simp at isItem
  | cons head rest ih =>
    cases index with
    | zero =>
      obtain rfl : head = item := by simpa using isItem
      have restNone : rest.findSome? f = none := by
        rw [List.findSome?_eq_none_iff]
        intro x isMember
        obtain ⟨other, isOther⟩ := mem_iff_getElem?.mp isMember
        exact only (other + 1) x isOther (succ_ne_zero other)
      rw [List.findSome?_cons, restNone]
      cases f head <;> rfl
    | succ index =>
      have headNone := only 0 head rfl (succ_ne_zero index).symm
      rw [List.findSome?_cons, headNone]
      refine ih isItem fun other x isOther notIndex => ?_
      exact only (other + 1) x isOther fun same => notIndex (Nat.succ.inj same)

theorem find_flatten (lm : LoadedMap) (name : CString) {chain : List Nat} (isChain :
    lm.chains[(elfHash name).toNat % lm.chains.length]? = some chain) :
    lm.chains.flatten.find? (lm.names name) = chain.find? (lm.names name) := by
  have elsewhere : ∀ bucket other, lm.chains[bucket]? = some other →
      bucket ≠ (elfHash name).toNat % lm.chains.length → other.find? (lm.names name) = none := by
    intro bucket other isOther notBucket
    rw [List.find?_eq_none]
    intro i isMember named
    obtain ⟨sym, isSym, same⟩ := (Option.any_eq_true _ _).mp named
    have bucketOf := lm.placed bucket other isOther i isMember sym isSym
    have isName : lm.toRtMap.symName sym = name := by simpa using same
    rw [isName] at bucketOf
    exact notBucket bucketOf.symm
  rw [List.find?_flatten]
  exact findSome?_of_only isChain elsewhere

theorem search_eq (lm : LoadedMap) {name : CString} (plain : ∀ c ∈ name.bytes, c.msb = false)
    (flag : LookupFlag) : lm.toRtMap.search name flag = some (lm.definition name flag) := by
  have notZero : lm.chains.length ≠ 0 := Nat.ne_of_gt lm.positive
  have bound : (elfHash name).toNat % lm.chains.length < lm.chains.length := mod_lt _ lm.positive
  have isChain := List.getElem?_eq_getElem bound
  obtain ⟨head, isHead, linked⟩ := lm.linked _ _ isChain
  obtain ⟨distinct, bounded⟩ := lm.indices _ (mem_of_getElem? isChain)
  have enough : (lm.chains[(elfHash name).toNat % lm.chains.length]).length ≤
      lm.symtab.length + 1 := by
    have inRange : lm.chains[(elfHash name).toNat % lm.chains.length] ⊆ range lm.symtab.length :=
      fun i isMember => mem_range.mpr (bounded i isMember)
    have shorter := (subperm_of_subset distinct inRange).length_le
    rw [length_range] at shorter
    omega
  have found := lm.searchChain_eq name flag linked bounded enough
  rw [RtMap.search, lm.buckets, bind_some, if_neg notZero]
  simp only [rtHash_eq plain, isHead, bind_some, found, definition, lm.find_flatten name isChain]

end LoadedMap

/-- The object may be referenced from the other: it is global, or both are members
of a common group. -/
def Visible (objects : Nat → LoadedMap) (refLm : Option Nat) (lm : Nat) : Prop :=
  rtHasgroup 0 (objects lm).grpset = true ∨ ∃ ref ∈ refLm, ∃ grp,
      rtHasgroup grp (objects lm).grpset = true ∧ rtHasgroup grp (objects ref).grpset = true

open Classical in
noncomputable def searched (objects : Nat → LoadedMap) (firstLm : Option Nat) (lmList : List Nat)
    (refLm : Option Nat) : List Nat :=
  firstLm.toList ++ lmList.filter fun lm => decide (Visible objects refLm lm)

noncomputable def firstDefinition (objects : Nat → LoadedMap) (name : CString)
    (firstLm : Option Nat) (lmList : List Nat) (refLm : Option Nat)
    (flag : LookupFlag) : Option (Nat × Nat) :=
  (searched objects firstLm lmList refLm).findSome? fun lm =>
    ((objects lm).definition name flag).map fun sym => (lm, sym)

section

variable {objects : Nat → LoadedMap} (name : CString) {refLm : Option Nat} (flag : LookupFlag)
  {nlm : Nat} (next : List Nat)
include name flag next

theorem firstDefinition_visible (visible : Visible objects refLm nlm) :
    firstDefinition objects name none (nlm :: next) refLm flag =
      match (objects nlm).definition name flag with
      | some sym => some (nlm, sym)
      | none => firstDefinition objects name none next refLm flag := by
  cases found : (objects nlm).definition name flag with
  | some sym => simp [firstDefinition, searched, visible, found]
  | none => simp [firstDefinition, searched, visible, found]

theorem firstDefinition_hidden (hidden : ¬ Visible objects refLm nlm) :
    firstDefinition objects name none (nlm :: next) refLm flag =
      firstDefinition objects name none next refLm flag := by
  simp [firstDefinition, searched, hidden]

end

section

variable (objects : Nat → LoadedMap)
include objects

theorem isSearched_eq (firstLm refLm : Option Nat) (nlm : Nat)
    (referenced : refLm.isSome = true ∨ rtHasgroup 0 (objects nlm).grpset = true) :
    ∃ searched, isSearched (fun lm => (objects lm).toRtMap) firstLm refLm nlm = some searched ∧
      (searched = true ↔ some nlm ≠ firstLm ∧ Visible objects refLm nlm) := by
  unfold isSearched
  split
  case isTrue isFirst => exact ⟨false, rfl, by simp [isFirst]⟩
  case isFalse notFirst =>
    rw [rtIsglobal_eq (objects nlm).grouped, bind_some]
    cases isGlobal : rtHasgroup 0 (objects nlm).grpset with
    | true => exact ⟨true, rfl, by simp [notFirst, Visible, isGlobal]⟩
    | false =>
      obtain ⟨ref, rfl⟩ := Option.isSome_iff_exists.mp
        (referenced.resolve_right (by simp [isGlobal]))
      refine ⟨_, rfl, ?_⟩
      rw [rtIsmember_iff]
      simp [notFirst, Visible, isGlobal]

theorem lookupList_eq {name : CString}
    (plain : ∀ c ∈ name.bytes, c.msb = false) {firstLm refLm : Option Nat} (flag : LookupFlag)
    {lmList : List Nat} (firstNone : ∀ lm ∈ firstLm, (objects lm).definition name flag = none)
    (referenced : refLm.isSome = true ∨ ∀ lm ∈ lmList, rtHasgroup 0 (objects lm).grpset = true) :
    lookupList (fun lm => (objects lm).toRtMap) name firstLm refLm flag lmList =
      some (firstDefinition objects name none lmList refLm flag) := by
  induction lmList with
  | nil => simp [lookupList, firstDefinition, searched]
  | cons nlm next ih =>
    have rest := ih (referenced.imp_right fun all lm isMember =>
        all lm (mem_cons_of_mem _ isMember))
    obtain ⟨isIt, computed, iff⟩ := isSearched_eq objects firstLm refLm nlm
      (referenced.imp_right fun all => all nlm mem_cons_self)
    rw [lookupList, computed, bind_some]
    cases isIt with
    | true =>
      obtain ⟨-, visible⟩ := iff.mp rfl
      rw [if_pos rfl, firstDefinition_visible name flag next visible,
        (objects nlm).search_eq plain flag, bind_some]
      cases (objects nlm).definition name flag with
      | some sym => rfl
      | none => exact rest
    | false =>
      rw [if_neg Bool.false_ne_true, rest]
      by_cases visible : Visible objects refLm nlm
      · -- the first object, which has no definition
        have isFirst : some nlm = firstLm := by
          by_contra notFirst
          exact absurd (iff.mpr ⟨notFirst, visible⟩) Bool.false_ne_true
        have notDefined := firstNone nlm isFirst.symm
        rw [firstDefinition_visible name flag next visible, notDefined]
      · rw [firstDefinition_hidden name flag next visible]

theorem rtLookup_eq {name : CString}
    (plain : ∀ c ∈ name.bytes, c.msb = false) (firstLm : Option Nat) (lmList : List Nat)
    (refLm : Option Nat) (flag : LookupFlag)
    (referenced : refLm.isSome = true ∨ ∀ lm ∈ lmList, rtHasgroup 0 (objects lm).grpset = true) :
    rtLookup (fun lm => (objects lm).toRtMap) name firstLm lmList refLm flag =
      some (firstDefinition objects name firstLm lmList refLm flag) := by
  unfold rtLookup
  cases firstLm with
  | none => exact lookupList_eq objects plain flag (by simp) referenced
  | some nlm =>
    simp only [(objects nlm).search_eq plain flag, bind_some]
    cases found : (objects nlm).definition name flag with
    | some sym => simp [firstDefinition, searched, found]
    | none =>
      have rest := @lookupList_eq objects name plain (some nlm) refLm flag lmList
          (by simpa using found) referenced
      simp only [rest]
      simp [firstDefinition, searched, found]

theorem rtLookup_finds {name : CString}
    (plain : ∀ c ∈ name.bytes, c.msb = false) (firstLm : Option Nat) (lmList : List Nat)
    (refLm : Option Nat) (flag : LookupFlag)
    (referenced : refLm.isSome = true ∨ ∀ lm ∈ lmList, rtHasgroup 0 (objects lm).grpset = true) :
    rtLookup (fun lm => (objects lm).toRtMap) name firstLm lmList refLm flag =
      some (firstDefinition objects name firstLm lmList refLm flag) ∧
      (firstDefinition objects name firstLm lmList refLm flag = none ↔
        ∀ lm ∈ searched objects firstLm lmList refLm,
          (objects lm).definition name flag = none) := by
  refine ⟨rtLookup_eq objects plain firstLm lmList refLm flag referenced, ?_⟩
  simp [firstDefinition]

end

/-- An object of the global group with one symbol, whose name is at offset 1. -/
def oneSymbol (name : Bool) (text : List (BitVec 8)) (sym : Elf32Sym) : LoadedMap where
  name := name
  hash := [1, 2, 1, 0, 0]
  strtab := 0#8 :: text ++ [0#8]
  symtab := [⟨0, 0, 0, 0⟩, sym]
  grpset := [1#32]
  chains := [[1]]
  buckets := rfl
  positive := by decide
  linked := by
    intro bucket chain isChain
    cases bucket with
    | zero =>
      obtain rfl : [1] = chain := by simpa using isChain
      exact ⟨1, rfl, rfl, by decide, 0, rfl, rfl⟩
    | succ bucket => simp at isChain
  indices := by simp
  placed := by
    intro bucket chain isChain i _ symbol _
    cases bucket with
    | zero => exact mod_one _
    | succ bucket => simp at isChain
  grouped := by simp

def nameF : CString := ⟨[102#8], by decide⟩

/-- A defined global function. -/
def definedF : Elf32Sym := ⟨1, 64, 18, 5⟩

/-- An undefined global function with the value of a procedure linkage entry. -/
def undefinedF : Elf32Sym := ⟨1, 64, 18, 0⟩

/-- A defined local function. -/
def localF : Elf32Sym := ⟨1, 64, 2, 5⟩

/-- The a.out with one symbol, and a shared object that defines `f`. -/
def twoObjects (sym : Elf32Sym) : Nat → LoadedMap
  | 0 => oneSymbol false [102#8] sym
  | _ => oneSymbol true [102#8] definedF

/-- A global or weak symbol of that name that is defined. -/
def LoadedMap.DefinesGlobally (lm : LoadedMap) (name : CString) (i : Nat) : Prop :=
  i ∈ lm.chains.flatten ∧ lm.names name i = true ∧
    ∃ sym, lm.symtab[i]? = some sym ∧ sym.stShndx ≠ shnUndef ∧ sym.bind ≠ stbLocal

theorem rtLookup_finds_twoObjects :
    rtLookup (fun lm => (twoObjects undefinedF lm).toRtMap) nameF none [0, 1]
      none .norm = some (some (1, 1)) ∧
      firstDefinition (twoObjects undefinedF) nameF none [0, 1] none .norm = some (1, 1) := by
  have found : rtLookup (fun lm => (twoObjects undefinedF lm).toRtMap) nameF none
      [0, 1] none .norm = some (some (1, 1)) := by
    decide
  refine ⟨found, ?_⟩
  have finds := rtLookup_finds (twoObjects undefinedF) (by decide : ∀ c ∈ nameF.bytes, _)
      none [0, 1] none .norm (.inr (by decide))
  exact (some.inj finds.1).symm

theorem rtLookup_undefined_or_local :
    (rtLookup (fun lm => (twoObjects undefinedF lm).toRtMap) nameF none [0, 1]
      none .spec = some (some (0, 1)) ∧ ¬ (twoObjects undefinedF 0).DefinesGlobally nameF 1 ∧
      (twoObjects undefinedF 1).DefinesGlobally nameF 1) ∧
      rtLookup (fun lm => (twoObjects localF lm).toRtMap) nameF none [0, 1]
        none .norm = some (some (0, 1)) ∧
        ¬ (twoObjects localF 0).DefinesGlobally nameF 1 ∧
        (twoObjects localF 1).DefinesGlobally nameF 1 := by
  have isGlobal : ∀ sym, (twoObjects sym 1).DefinesGlobally nameF 1 :=
    fun _ => ⟨mem_cons_self, rfl, definedF, rfl, by decide, by decide⟩
  refine ⟨⟨by decide, ?_, isGlobal _⟩, by decide, ?_, isGlobal _⟩
  · rintro ⟨-, -, sym, isSym, isDefined, -⟩
    obtain rfl : undefinedF = sym := some.inj isSym
    exact isDefined rfl
  · rintro ⟨-, -, sym, isSym, -, isGlobal⟩
    obtain rfl : localF = sym := some.inj isSym
    exact isGlobal rfl

/-- The first characters of a name. -/
def CString.take (name : CString) (n : Nat) : CString where
  bytes := name.bytes.take n
  terminated := fun isMember => name.terminated (mem_of_mem_take isMember)

/-- The run-time linker looks for a name in the bucket where the link editor has put it. -/
structure HashAgrees (name : CString) : Prop where
  same : rtHash name = elfHash name
  found : ∀ (lm : LoadedMap) (flag : LookupFlag),
    lm.toRtMap.search name flag = some (lm.definition name flag)

theorem elfHashStep_high (h nm : BitVec 32) :
    (elfHashStep h nm).toNat / 256 = ((h <<< 4) + nm).toNat % 2 ^ 28 / 256 := by
  unfold elfHashStep
  generalize (h <<< 4) + nm = sum
  refine Nat.eq_of_testBit_eq fun i => ?_
  have beyond : ((sum &&& 0xf0000000#32) >>> 24).getLsbD (i + 8) = false := by
    rw [BitVec.getLsbD_ushiftRight]
    exact BitVec.getLsbD_of_ge _ _ (by omega)
  have kept : (if sum &&& 0xf0000000#32 = 0#32 then sum
      else sum ^^^ ((sum &&& 0xf0000000#32) >>> 24)).getLsbD (i + 8) = sum.getLsbD (i + 8) := by
    split
    · rfl
    · rw [BitVec.getLsbD_xor, beyond, Bool.xor_false]
  rw [show 256 = 2 ^ 8 from rfl, Nat.testBit_div_two_pow, Nat.testBit_div_two_pow,
    Nat.testBit_mod_two_pow, BitVec.testBit_toNat, BitVec.testBit_toNat, BitVec.getLsbD_and,
    BitVec.getLsbD_not, kept]
  by_cases bound : i + 8 < 32
  · rw [mask_getLsbD _ bound]
    by_cases low : i + 8 < 28
    · have notHigh : ¬ 28 ≤ i + 8 := by omega
      simp only [bound, low, notHigh, decide_true, decide_false, Bool.not_false, Bool.and_true,
        Bool.true_and]
    · have high : 28 ≤ i + 8 := by omega
      simp only [low, high, decide_true, decide_false, Bool.not_true, Bool.and_false,
        Bool.false_and]
  · simp [BitVec.getLsbD_of_ge _ _ (Nat.not_lt.mp bound)]

theorem elfHashStep_signExtend (h : BitVec 32) {c : BitVec 8} (negative : c.msb = true) :
    elfHashStep h (c.signExtend 32) ≠ elfHashStep h (c.setWidth 32) := by
  intro same
  have high := congrArg (fun hash => hash.toNat / 256) same
  simp only [elfHashStep_high, BitVec.toNat_add, BitVec.toNat_signExtend, negative, if_true,
    BitVec.toNat_setWidth] at high
  omega

theorem hashAgrees_iff (name : CString) :
    (∀ n, HashAgrees (name.take n)) ↔ ∀ c ∈ name.bytes, c.msb = false := by
  constructor
  · intro agrees c isMember
    obtain ⟨n, isC⟩ := mem_iff_getElem?.mp isMember
    by_contra negative
    rw [Bool.not_eq_false] at negative
    have next : name.bytes.take (n + 1) = name.bytes.take n ++ [c] := by
      rw [take_add_one, isC]
      rfl
    have before := (agrees n).same
    have after := (agrees (n + 1)).same
    simp only [rtHash, elfHash, CString.take, next, foldl_append, foldl_cons, foldl_nil,
      rtHashStep_eq] at before after
    rw [before] at after
    exact elfHashStep_signExtend _ negative after
  · intro plain n
    have plain' : ∀ c ∈ (name.take n).bytes, c.msb = false :=
      fun c isMember => plain c (mem_of_mem_take isMember)
    exact ⟨rtHash_eq plain', fun lm flag => lm.search_eq plain' flag⟩

theorem rtHash_ne_negative : ¬ HashAgrees ⟨[128#8], by decide⟩ := by
  intro agrees
  exact absurd agrees.same (by decide)

end Uw7.Rtld
