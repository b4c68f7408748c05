import Mathlib.Algebra.Order.Ring.Nat
import Mathlib.Data.Fintype.Card
import Uw7.Lib.Ring

namespace Uw7.Dosfs.DenodeCache

/-!
# The free list and the hash chains of the denodes

The lists of `fs/dosfs/dosfs_denode.c`.  The null pointer closes the free list
to a ring: it stands in front of `dfreeh` and behind `dfreet`.  A `union dehead`
has the links of a denode, as in the source, which casts it to one.
-/

open Lib Function List

variable {ndenode : Nat}

/-- `dfreeh`, `dfreet` and the links `de_freef` and `de_freeb` of all denodes. -/
structure FreeList (ndenode : Nat) where
  dfreeh : Option (Fin ndenode)
  dfreet : Option (Fin ndenode)
  deFreef : Fin ndenode → Option (Fin ndenode)
  deFreeb : Fin ndenode → Option (Fin ndenode)

namespace FreeList

/-- `de_freef` of a denode, and `dfreeh` for the null pointer. -/
def next (list : FreeList ndenode) : Option (Fin ndenode) → Option (Fin ndenode)
  | some dp => list.deFreef dp
  | none => list.dfreeh

/-- `de_freeb` of a denode, and `dfreet` for the null pointer. -/
def previous (list : FreeList ndenode) : Option (Fin ndenode) → Option (Fin ndenode)
  | some dp => list.deFreeb dp
  | none => list.dfreet

/-- `de_freef` of a denode is assigned, or `dfreeh`. -/
def setNext (list : FreeList ndenode) :
    Option (Fin ndenode) → Option (Fin ndenode) → FreeList ndenode
  | some dp, target => { list with deFreef := update list.deFreef dp target }
  | none, target => { list with dfreeh := target }

/-- `de_freeb` of a denode is assigned, or `dfreet`. -/
def setPrevious (list : FreeList ndenode) :
    Option (Fin ndenode) → Option (Fin ndenode) → FreeList ndenode
  | some dp, target => { list with deFreeb := update list.deFreeb dp target }
  | none, target => { list with dfreet := target }

/-- `deget` removes a denode from the free list. -/
def remove (list : FreeList ndenode) (ldep : Fin ndenode) : FreeList ndenode :=
  let list := list.setNext (list.deFreeb ldep) (list.deFreef ldep)
  let list := list.setPrevious (list.deFreef ldep) (list.deFreeb ldep)
  let list := list.setNext (some ldep) none
  list.setPrevious (some ldep) none

def takeFirst (list : FreeList ndenode) (ldep : Fin ndenode) : FreeList ndenode :=
  let list := list.setNext none (list.deFreef ldep)
  let list := list.setPrevious list.dfreeh none
  let list := list.setNext (some ldep) none
  list.setPrevious (some ldep) none

/-- `dosfs_inactive` inserts a denode to be used again first. -/
def pushFront (list : FreeList ndenode) (dep : Fin ndenode) : FreeList ndenode :=
  let list := list.setNext (some dep) list.dfreeh
  let list := list.setPrevious (some dep) none
  match list.dfreeh with
  | none => (list.setNext none (some dep)).setPrevious none (some dep)
  | some first => (list.setPrevious (some first) (some dep)).setNext none (some dep)

/--
`dosfs_inactive` inserts a denode to be used again last; the list is not empty
there.
-/
def pushBack (list : FreeList ndenode) (dep : Fin ndenode) : FreeList ndenode :=
  let list := list.setNext (some dep) none
  let list := list.setPrevious (some dep) list.dfreet
  let list := list.setNext list.dfreet (some dep)
  list.setPrevious none (some dep)

section Fields

variable (list : FreeList ndenode) (node target : Option (Fin ndenode))

@[simp] theorem next_setNext : (list.setNext node target).next = update list.next node target := by
  funext other
  cases node with
  | none => cases other <;> simp [setNext, next]
  | some dp =>
    cases other with
    | none => simp [setNext, next]
    | some entry =>
      by_cases same : entry = dp <;> simp [setNext, next, same]

@[simp] theorem previous_setNext : (list.setNext node target).previous = list.previous := by
  funext other
  cases node <;> cases other <;> rfl

@[simp] theorem next_setPrevious : (list.setPrevious node target).next = list.next := by
  funext other
  cases node <;> cases other <;> rfl

@[simp] theorem previous_setPrevious : (list.setPrevious node target).previous =
    update list.previous node target := by
  funext other
  cases node with
  | none => cases other <;> simp [setPrevious, previous]
  | some dp =>
    cases other with
    | none => simp [setPrevious, previous]
    | some entry =>
      by_cases same : entry = dp <;> simp [setPrevious, previous, same]

@[simp] theorem next_none : list.next none = list.dfreeh := rfl

@[simp] theorem previous_none : list.previous none = list.dfreet := rfl

@[simp] theorem next_some (dp : Fin ndenode) : list.next (some dp) = list.deFreef dp := rfl

@[simp] theorem previous_some (dp : Fin ndenode) : list.previous (some dp) = list.deFreeb dp := rfl

end Fields

end FreeList

/-- The denodes on the free list, in order. -/
def IsFreeList (list : FreeList ndenode) (free : List (Fin ndenode)) : Prop :=
  Ring.IsRing list.next list.previous (none :: free.map some)

section FreeLists

variable {list : FreeList ndenode} {free : List (Fin ndenode)} {dp : Fin ndenode}

theorem IsFreeList.nodup (isFree : IsFreeList list free) : free.Nodup :=
  ((nodup_cons.mp (Ring.IsRing.nodup isFree)).2).of_map some

theorem IsFreeList.dfreeh_eq (isFree : IsFreeList list free) : list.dfreeh = free.head? := by
  cases free with
  | nil => exact isFree.2.1
  | cons first rest => exact isFree.2.1

theorem mem_freeNodes : some dp ∈ none :: free.map some ↔ dp ∈ free := by simp

theorem IsFreeList.remove (isFree : IsFreeList list free) (member : dp ∈ free) :
    IsFreeList (list.remove dp) (free.erase dp) := by
  obtain ⟨before, after, rfl⟩ := append_of_mem member
  have notBefore : dp ∉ before := by
    intro inBefore
    exact disjoint_of_nodup_append isFree.nodup inBefore (mem_cons_self ..)
  have unlinked : Ring.IsRing (Ring.unlinkFlink list.next list.previous (some dp))
      (Ring.unlinkBlink list.next list.previous (some dp))
      (none :: (before ++ after).map some) := by
    rw [map_append, ← cons_append]
    refine Ring.IsRing.unlinkBetween ?_
    rw [cons_append, ← map_cons, ← map_append]
    exact isFree
  rw [erase_append_right _ notBefore, erase_cons_head]
  have notIn : ∀ node ∈ none :: (before ++ after).map some, node ≠ some dp := by
    rintro node inRest rfl
    have distinct := nodup_middle.mp isFree.nodup
    exact (nodup_cons.mp distinct).1 (mem_freeNodes.mp inRest)
  refine unlinked.congr (fun node inRest => ?_) fun node inRest => ?_
  · have notDp := notIn node inRest
    simp only [FreeList.remove, FreeList.next_setPrevious, FreeList.next_setNext, Ring.unlinkFlink,
      update_of_ne notDp]
    rfl
  · have notDp := notIn node inRest
    have sameNext : (list.setNext (list.deFreeb dp) (list.deFreef dp)).next (some dp) =
        list.next (some dp) := by
      rw [FreeList.next_setNext, update_apply]
      split_ifs <;> rfl
    have samePrevious : (list.setNext (list.deFreeb dp) (list.deFreef dp)).previous (some dp) =
        list.previous (some dp) := by
      rw [FreeList.previous_setNext]
    simp only [FreeList.next_some] at sameNext
    simp only [FreeList.previous_some] at samePrevious
    simp only [FreeList.remove, FreeList.previous_setPrevious,
      FreeList.previous_setNext, Ring.unlinkBlink,
      update_of_ne notDp, sameNext, samePrevious]
    rfl

theorem IsFreeList.takeFirst (isFree : IsFreeList list (dp :: free)) :
    IsFreeList (list.takeFirst dp) free := by
  have isFirst : list.deFreeb dp = none := isFree.2.2.1
  have stillFirst : (list.setNext none (list.deFreef dp)).deFreeb dp = none := isFirst
  have sameRemoval : list.takeFirst dp = list.remove dp := by
    simp only [FreeList.takeFirst, FreeList.remove, isFirst, stillFirst]
    rfl
  rw [sameRemoval]
  have removed := isFree.remove (mem_cons_self ..)
  rw [erase_cons_head] at removed
  exact removed

theorem IsFreeList.pushFront (isFree : IsFreeList list free) (fresh : dp ∉ free) :
    IsFreeList (list.pushFront dp) (dp :: free) := by
  have inserted := Ring.IsRing.insert isFree fun member => fresh (mem_freeNodes.mp member)
  have dfreeh : ((list.setNext (some dp) list.dfreeh).setPrevious (some dp) none).dfreeh =
        list.dfreeh := rfl
  refine inserted.congr (fun node _ => ?_) fun node _ => ?_
  · have links : (list.pushFront dp).next = Ring.insertFlink list.next none (some dp) := by
      rw [Ring.insertFlink, update_comm (by simp)]
      simp only [FreeList.pushFront, dfreeh]
      cases isFirst : list.dfreeh <;> simp [isFirst]
    rw [links]
  · have links : (list.pushFront dp).previous =
        Ring.insertBlink list.next list.previous none (some dp) := by
      rw [Ring.insertBlink]
      simp only [FreeList.pushFront, dfreeh, FreeList.next_none]
      cases isFirst : list.dfreeh with
      | none =>
        rw [update_comm (by simp)]
        simp
      | some first =>
        have notDp : some first ≠ some dp := by
          rintro ⟨⟩
          have isHead := isFree.dfreeh_eq
          rw [isFirst] at isHead
          exact fresh (List.mem_of_mem_head? isHead.symm)
        rw [update_comm notDp]
        simp
    rw [links]

theorem IsFreeList.pushBack (isFree : IsFreeList list free) (fresh : dp ∉ free) :
    IsFreeList (list.pushBack dp) (free ++ [dp]) := by
  have added := Ring.IsRing.add isFree fun member => fresh (mem_freeNodes.mp member)
  have nodes : none :: (free ++ [dp]).map some = none :: free.map some ++ [some dp] := by simp
  unfold IsFreeList
  rw [nodes]
  have dfreet : ((list.setNext (some dp) none).setPrevious (some dp)
      (list.setNext (some dp) none).dfreet).dfreet =
      list.dfreet := rfl
  have notDp : list.dfreet ≠ some dp := by
    intro isDp
    have member := Ring.IsRing.blink_mem isFree (mem_cons_self ..)
    rw [FreeList.previous_none, isDp] at member
    exact fresh (mem_freeNodes.mp member)
  refine added.congr (fun node _ => ?_) fun node _ => ?_
  · have links : (list.pushBack dp).next =
        Ring.addFlink list.next list.previous none (some dp) := by
      rw [Ring.addFlink, FreeList.previous_none, update_comm notDp]
      simp only [FreeList.pushBack, dfreet, FreeList.next_setPrevious, FreeList.next_setNext]
    rw [links]
  · have links : (list.pushBack dp).previous = Ring.addBlink list.previous none (some dp) := by
      rw [Ring.addBlink, FreeList.previous_none, update_comm (by simp)]
      simp only [FreeList.pushBack, FreeList.previous_setPrevious, FreeList.previous_setNext]
      rfl
    rw [links]

end FreeLists

def dehsz : Nat := 512

/-- `DEHASH`, of unsigned numbers of 32 bits. -/
def deHash (dev deno : Nat) : Nat := (dev + deno + deno / 2 ^ 16) % 2 ^ 32 &&& (dehsz - 1)

/-- What a link of a hash chain leads to: an entry of `dehead`, or a denode. -/
inductive HashLink (ndenode : Nat) where
  | head (deh : Nat)
  | denode (dp : Fin ndenode)
  deriving DecidableEq

/-- The links `deh_chain` of all heads and `de_chain` of all denodes. -/
structure HashChains (ndenode : Nat) where
  deForw : HashLink ndenode → HashLink ndenode
  deBack : HashLink ndenode → HashLink ndenode

namespace HashChains

def setForw (hash : HashChains ndenode) (link target : HashLink ndenode) : HashChains ndenode :=
  { hash with deForw := update hash.deForw link target }

def setBack (hash : HashChains ndenode) (link target : HashLink ndenode) : HashChains ndenode :=
  { hash with deBack := update hash.deBack link target }

def dehash (hash : HashChains ndenode) (dp : Fin ndenode) (deh : Nat) : HashChains ndenode :=
  let hash := hash.setBack (hash.deForw (.head deh)) (.denode dp)
  let hash := hash.setForw (.denode dp) (hash.deForw (.head deh))
  let hash := hash.setForw (.head deh) (.denode dp)
  hash.setBack (.denode dp) (.head deh)

def deunhash (hash : HashChains ndenode) (dp : Fin ndenode) : HashChains ndenode :=
  let link := HashLink.denode dp
  let hash := hash.setForw (hash.deBack link) (hash.deForw link)
  let hash := hash.setBack (hash.deForw link) (hash.deBack link)
  let hash := hash.setForw link link
  hash.setBack link link

theorem dehash_links (hash : HashChains ndenode) (dp : Fin ndenode) (deh : Nat) :
    (hash.dehash dp deh).deForw = Ring.insertFlink hash.deForw (.head deh) (.denode dp) ∧
      (hash.dehash dp deh).deBack = Ring.insertBlink hash.deForw hash.deBack (.head deh)
        (.denode dp) := by
  refine ⟨?_, rfl⟩
  rw [Ring.insertFlink, update_comm (by simp)]
  rfl

theorem deunhash_links (hash : HashChains ndenode) (dp : Fin ndenode) : (hash.deunhash dp).deForw =
    Ring.unlinkFlink hash.deForw hash.deBack (.denode dp) ∧
    (hash.deunhash dp).deBack = Ring.unlinkBlink hash.deForw hash.deBack (.denode dp) := by
  have sameForw : (hash.setForw (hash.deBack (.denode dp))
      (hash.deForw (.denode dp))).deForw (.denode dp) =
      hash.deForw (.denode dp) := by
    simp only [setForw, update_apply]
    split_ifs <;> rfl
  refine ⟨rfl, ?_⟩
  simp only [deunhash, sameForw]
  rfl

end HashChains

structure IsHashed (hash : HashChains ndenode) (chain : Nat → List (Fin ndenode)) : Prop where
  ring : ∀ deh, Ring.IsRing hash.deForw hash.deBack (.head deh :: (chain deh).map .denode)
  apart : ∀ dp deh other, dp ∈ chain deh → dp ∈ chain other → deh = other
  alone : ∀ dp, (∀ deh, dp ∉ chain deh) → hash.deForw (.denode dp) = .denode dp ∧
      hash.deBack (.denode dp) = .denode dp

section Chains

variable {hash : HashChains ndenode} {chain : Nat → List (Fin ndenode)}
  {dp : Fin ndenode} {deh other : Nat}

theorem mem_chainNodes {nodes : List (Fin ndenode)} :
    HashLink.denode dp ∈ HashLink.head deh :: nodes.map .denode ↔ dp ∈ nodes := by
  simp

section

variable (hashed : IsHashed hash chain)
include hashed

theorem IsHashed.disjoint (different : other ≠ deh) :
    ∀ link ∈ HashLink.head other :: (chain other).map .denode,
      link ∉ HashLink.head deh :: (chain deh).map .denode := by
  intro link inOther inThis
  cases link with
  | head bucket =>
    simp only [mem_cons, HashLink.head.injEq, mem_map,
      reduceCtorEq, and_false, exists_false, or_false] at inOther inThis
    exact different (inOther.symm.trans inThis)
  | denode dp =>
    exact different (hashed.apart dp other deh (mem_chainNodes.mp inOther)
      (mem_chainNodes.mp inThis))

theorem IsHashed.nodup (deh : Nat) : (chain deh).Nodup :=
  ((nodup_cons.mp (hashed.ring deh).nodup).2).of_map HashLink.denode

theorem IsHashed.dehash (fresh : ∀ other, dp ∉ chain other) :
    IsHashed (hash.dehash dp deh) (update chain deh (dp :: chain deh)) := by
  obtain ⟨forward, backward⟩ := hash.dehash_links dp deh
  constructor
  case ring =>
    intro other
    rw [forward, backward]
    by_cases same : other = deh
    · subst other
      rw [update_self]
      exact (hashed.ring deh).insert fun member => fresh deh (mem_chainNodes.mp member)
    · rw [update_of_ne same]
      exact (hashed.ring deh).insert_apart (hashed.ring other)
        (fun member => fresh other (mem_chainNodes.mp member))
        (hashed.disjoint same)
  case apart =>
    have onChain : ∀ entry bucket, entry ∈ update chain deh (dp :: chain deh) bucket →
        entry = dp ∧ bucket = deh ∨ entry ∈ chain bucket := by
      intro entry bucket member
      by_cases same : bucket = deh
      · subst bucket
        rw [update_self] at member
        rcases mem_cons.mp member with isDp | inChain
        · exact .inl ⟨isDp, rfl⟩
        · exact .inr inChain
      · rw [update_of_ne same] at member
        exact .inr member
    intro entry first second inFirst inSecond
    rcases onChain entry first inFirst with ⟨rfl, rfl⟩ | wasFirst
    · rcases onChain entry second inSecond with ⟨-, rfl⟩ | wasSecond
      · rfl
      · exact absurd wasSecond (fresh second)
    · rcases onChain entry second inSecond with ⟨rfl, rfl⟩ | wasSecond
      · exact absurd wasFirst (fresh first)
      · exact hashed.apart entry first second wasFirst wasSecond
  case alone =>
    intro entry nowhere
    have notDp : entry ≠ dp := by
      rintro rfl
      apply nowhere deh
      rw [update_self]
      exact mem_cons_self ..
    have wasNowhere : ∀ other, entry ∉ chain other := by
      intro other member
      apply nowhere other
      by_cases same : other = deh
      · subst other
        rw [update_self]
        exact mem_cons_of_mem _ member
      · rw [update_of_ne same]
        exact member
    have notFirst : HashLink.denode entry ≠ hash.deForw (.head deh) := by
      intro isFirst
      have member := (hashed.ring deh).flink_mem (mem_cons_self ..)
      rw [← isFirst] at member
      exact wasNowhere deh (mem_chainNodes.mp member)
    rw [forward, backward, Ring.insertFlink, Ring.insertBlink, update_of_ne (by simpa using notDp),
      update_of_ne (by simp),
      update_of_ne (by simpa using notDp),
      update_of_ne notFirst]
    exact hashed.alone entry wasNowhere

/-- A denode is unhashed, whether or not it is on a chain. -/
theorem IsHashed.deunhash (dp : Fin ndenode) :
    IsHashed (hash.deunhash dp) fun deh => (chain deh).erase dp := by
  obtain ⟨forward, backward⟩ := hash.deunhash_links dp
  constructor
  case ring =>
    intro deh
    rw [forward, backward]
    by_cases onThis : dp ∈ chain deh
    · have ring := hashed.ring deh
      obtain ⟨before, after, isChain⟩ := append_of_mem onThis
      have notBefore : dp ∉ before := by
        have distinct := hashed.nodup deh
        rw [isChain] at distinct
        intro inBefore
        exact disjoint_of_nodup_append distinct inBefore (mem_cons_self ..)
      rw [isChain] at ring ⊢
      rw [erase_append_right _ notBefore, erase_cons_head, map_append, ← cons_append]
      refine Ring.IsRing.unlinkBetween ?_
      rw [cons_append, ← map_cons, ← map_append]
      exact ring
    · rw [erase_of_not_mem onThis]
      by_cases nowhere : ∀ other, dp ∉ chain other
      · obtain ⟨forwSelf, backSelf⟩ := hashed.alone dp nowhere
        rw [Ring.unlinkFlink, Ring.unlinkBlink, forwSelf, backSelf]
        refine (hashed.ring deh).congr (fun link member => ?_) fun link member => ?_
        all_goals
          have notDp : link ≠ .denode dp := by
            rintro rfl
            exact onThis (mem_chainNodes.mp member)
          rw [update_of_ne notDp, update_of_ne notDp]
      · simp only [not_forall, not_not] at nowhere
        obtain ⟨other, onOther⟩ := nowhere
        have different : deh ≠ other := by
          rintro rfl
          exact onThis onOther
        exact (hashed.ring other).unlink_apart (mem_chainNodes.mpr onOther)
          (hashed.ring deh) (hashed.disjoint different)
  case apart =>
    intro entry first second inFirst inSecond
    exact hashed.apart entry first second (mem_of_mem_erase inFirst) (mem_of_mem_erase inSecond)
  case alone =>
    intro entry nowhere
    by_cases same : entry = dp
    · subst entry
      rw [forward, backward, Ring.unlinkFlink, Ring.unlinkBlink, update_self, update_self]
      exact ⟨rfl, rfl⟩
    · have wasNowhere : ∀ other, entry ∉ chain other := by
        intro other member
        exact nowhere other ((mem_erase_of_ne same).mpr member)
      obtain ⟨forwSelf, backSelf⟩ := hashed.alone entry wasNowhere
      have notDp : HashLink.denode entry ≠ .denode dp := by simpa using same
      have notNeighbour : HashLink.denode entry ≠ hash.deBack (.denode dp) ∧
          HashLink.denode entry ≠ hash.deForw (.denode dp) := by
        by_cases dpNowhere : ∀ other, dp ∉ chain other
        · obtain ⟨dpForw, dpBack⟩ := hashed.alone dp dpNowhere
          rw [dpForw, dpBack]
          exact ⟨notDp, notDp⟩
        · simp only [not_forall, not_not] at dpNowhere
          obtain ⟨other, onOther⟩ := dpNowhere
          have ring := hashed.ring other
          have isNode := (@mem_chainNodes ndenode dp other (chain other)).mpr onOther
          refine ⟨fun isBefore => ?_, fun isBehind => ?_⟩
          · have member := ring.blink_mem isNode
            rw [← isBefore] at member
            exact wasNowhere other (mem_chainNodes.mp member)
          · have member := ring.flink_mem isNode
            rw [← isBehind] at member
            exact wasNowhere other (mem_chainNodes.mp member)
      rw [forward, backward, Ring.unlinkFlink, Ring.unlinkBlink,
        update_of_ne notDp, update_of_ne notNeighbour.1,
        update_of_ne notDp, update_of_ne notNeighbour.2]
      exact ⟨forwSelf, backSelf⟩

theorem IsHashed.seek_eq {accept : HashLink ndenode → Bool}
    (stops : accept (.head deh) = true) :
    Ring.seek hash.deForw accept (ndenode + 1) (hash.deForw (.head deh)) =
      ((chain deh).map HashLink.denode ++ [HashLink.head deh]).find? accept := by
  have ring := hashed.ring deh
  have short : (chain deh).length ≤ ndenode := by
    have bound := (hashed.nodup deh).length_le_card
    rwa [Fintype.card_fin] at bound
  have found : Ring.seek hash.deForw accept ((chain deh).length + 1) (hash.deForw (.head deh)) =
      ((chain deh).map HashLink.denode ++ [HashLink.head deh]).find? accept := by
    cases isChain : chain deh with
    | nil =>
      rw [isChain] at ring
      have forward : hash.deForw (.head deh) = .head deh := ring.2.1
      rw [forward]
      exact ring.seek_eq accept
    | cons first rest =>
      rw [isChain] at ring
      have forward : hash.deForw (.head deh) = .denode first := ring.2.1
      have rotated : Ring.IsRing hash.deForw hash.deBack
          (.denode first :: (rest.map .denode ++ [.head deh])) :=
        @Ring.IsRing.rotate (HashLink ndenode) hash.deForw hash.deBack
          (.head deh) (.denode first) [] (rest.map .denode) ring
      have followed := rotated.seek_eq accept
      simp only [length_cons, length_append, length_map, length_nil] at followed
      rw [forward, length_cons]
      exact followed
  obtain ⟨link, isFound⟩ : ∃ link,
    ((chain deh).map HashLink.denode ++ [HashLink.head deh]).find? accept = some link := by
    rw [← Option.isSome_iff_exists, List.find?_isSome]
    exact ⟨HashLink.head deh, by simp, stops⟩
  rw [isFound] at found ⊢
  exact Ring.seek_more found (by omega)

end

end Chains

end Uw7.Dosfs.DenodeCache
