import Mathlib.Data.Fintype.Pi
import Mathlib.Order.Interval.Finset.Nat
import Uw7.Lib.ByteMemory
import Uw7.Lib.Chain
import Uw7.Lib.Run

namespace Uw7.Sr

/-!
# The route table of the source routing module

`io/sr/sr_hash.c`.  Elements are numbered from 1 in the order of their pages, and 0 is
`NULL`.  The bytes of an element from `sr_route` on are kept together, as a copy that
is too long runs from the route into the fields behind it.
-/

open Lib Function List Nat

abbrev maxTabSize : Nat := 13

/-- `MAX_LIST_SIZE`: elements of 40 bytes in the 1016 bytes behind the header of a page. -/
abbrev maxListSize : Nat := 25

def maxRouteSize : Nat := 18

/-- The six bytes of an address. -/
abbrev Macaddr := Fin 6 → Byte

def srHash (macaddr : Macaddr) : Fin maxTabSize := Fin.ofNat maxTabSize (macaddr 5).val

/-- `sr_elem_t`; `sr_route` is followed by `sr_netno` and `sr_avail`. -/
structure SrElem where
  srMacaddr : Macaddr
  srRouteSize : Nat
  srRoute : ByteMemory
  srNext : Nat
  srTime : Nat

def SrElem.srAvail (elem : SrElem) : Byte := elem.srRoute 19

def SrElem.setAvail (elem : SrElem) (avail : Byte) : SrElem :=
  { elem with srRoute := update elem.srRoute 19 avail }

/-- The route of an element, as it is appended to messages. -/
def SrElem.route (elem : SrElem) : List Byte := (range elem.srRouteSize).map elem.srRoute

/-- `sr_tab`, and the pages behind `sr_mem` in their order. -/
structure SrTable where
  srTab : Fin maxTabSize → Nat
  elems : Nat → SrElem
  pages : Nat
  srNumAvail : Nat → Nat

def elemOf (page index : Nat) : Nat := maxListSize * page + index + 1

/-- `sr_memp`: the page of an element. -/
def pageOf (elem : Nat) : Nat := (elem - 1) / maxListSize

namespace SrTable

/-- `init_sr_mem`, for the page behind the others. -/
def initSrMem (table : SrTable) : SrTable :=
  { table with
    elems := fun elem =>
      if pageOf elem = table.pages then { (table.elems elem).setAvail 0 with srNext := 0 }
      else table.elems elem
    pages := table.pages + 1
    srNumAvail := update table.srNumAvail table.pages maxListSize }

/-- `sr_tab_init`, when there is memory; the page holds whatever it held before. -/
def srTabInit (garbage : Nat → SrElem) : SrTable := initSrMem ⟨fun _ => 0, garbage, 0, fun _ => 0⟩

/-- The loop of `sr_tab_lookup`, when it makes no more than a number of rounds. -/
def lookupFrom (table : SrTable) (macaddr : Macaddr) : Nat → Nat → Option Nat
  | 0, _ => none
  | rounds + 1, elem =>
    if elem = 0 then some 0
    else if (table.elems elem).srMacaddr = macaddr then some elem
    else lookupFrom table macaddr rounds (table.elems elem).srNext

/-- As many rounds as there are elements, and one for `NULL`. -/
def rounds (table : SrTable) : Nat := maxListSize * table.pages + 1

def srTabLookup (table : SrTable) (macaddr : Macaddr) : Option Nat :=
  table.lookupFrom macaddr table.rounds (table.srTab (srHash macaddr))

/-- An element of a page is marked as in use. -/
def take (table : SrTable) (page elem : Nat) : SrTable :=
  { table with
    elems := update table.elems elem ((table.elems elem).setAvail 1)
    srNumAvail := update table.srNumAvail page (table.srNumAvail page - 1) }

/-- The first unused element of a page is taken. -/
def takeFrom (table : SrTable) (page : Nat) : Nat × SrTable :=
  match (range maxListSize).find? fun i => (table.elems (elemOf page i)).srAvail == 0 with
  | none => (0, table)
  | some i => (elemOf page i, table.take page (elemOf page i))

/-- `sr_find_slot`; `memory` says whether `kmem_alloc` finds a page. -/
def srFindSlot (table : SrTable) (memory : Bool) : Nat × SrTable :=
  match (range table.pages).find? fun page => table.srNumAvail page != 0 with
  | some page => table.takeFrom page
  | none => if memory then table.initSrMem.takeFrom table.pages else (0, table)

/-- The walk of `sr_insert_latest` and `sr_insert_age` to the last element of a chain. -/
def lastFrom (table : SrTable) : Nat → Nat → Option Nat
  | 0, _ => none
  | rounds + 1, elem =>
    if (table.elems elem).srNext = 0 then some elem
    else lastFrom table rounds (table.elems elem).srNext

def setNext (table : SrTable) (elem next : Nat) : SrTable :=
  { table with
    elems := update table.elems elem { table.elems elem with srNext := next } }

/-- A new element becomes the last of its chain. -/
def link (table : SrTable) (slot : Fin maxTabSize) (elem : Nat) : Option SrTable :=
  let table := table.setNext elem 0
  if table.srTab slot = 0 then
    some { table with srTab := update table.srTab slot elem }
  else (table.lastFrom table.rounds (table.srTab slot)).map fun last => table.setNext last elem

/-- The route is stored: a copy that runs behind `sr_avail` destroys the table. -/
def store (table : SrTable) (elem : Nat) (srTime : Nat) (macaddr : Macaddr)
    (srRoute : ByteMemory) (srSize : Int) : Option SrTable :=
  if 0 ≤ srSize ∧ srSize ≤ 20 then
    some { table with
      elems := update table.elems elem
        { table.elems elem with
          srTime
          srMacaddr := macaddr
          srRouteSize := srSize.toNat
          srRoute := (table.elems elem).srRoute.store 0 srSize.toNat srRoute } }
  else none

/-- `sr_insert_latest`, and with a clock `sr_insert_age`: `isYoung` compares the ticks since
an update with `sr_age`.  The flag says whether the route is accepted. -/
def srInsert (isYoung : Nat → Nat → Bool) (table : SrTable) (clock : Option Nat)
    (macaddr : Macaddr) (srRoute : ByteMemory) (srSize : Int) (memory : Bool) :
    Option (SrTable × Bool) :=
  match table.srTabLookup macaddr with
  | none => none
  | some 0 =>
    match table.srFindSlot memory with
    | (0, table) => some (table, false)
    | (elem, table) =>
      ((table.link (srHash macaddr) elem).bind fun table =>
        table.store elem (clock.getD (table.elems elem).srTime) macaddr srRoute srSize).map
          fun table => (table, true)
  | some elem =>
    if clock.any (isYoung (table.elems elem).srTime) then some (table, false)
    else
      (table.store elem (clock.getD (table.elems elem).srTime) (table.elems elem).srMacaddr
        srRoute srSize).map fun table => (table, true)

/-- The loop of `sr_delete`: the element before the one that is found, and that. -/
def deleteFrom (table : SrTable) (macaddr : Macaddr) : Nat → Nat → Nat → Option (Nat × Nat)
  | 0, _, _ => none
  | rounds + 1, tmp, elem =>
    if elem = 0 then some (tmp, 0)
    else if (table.elems elem).srMacaddr = macaddr then some (tmp, elem)
    else deleteFrom table macaddr rounds elem (table.elems elem).srNext

/-- An element is taken from its chain, behind `tmp` or at the head, and is free again. -/
def unlink (table : SrTable) (slot : Fin maxTabSize) (tmp elem : Nat) : SrTable :=
  let next := (table.elems elem).srNext
  let table :=
    if tmp = 0 then { table with srTab := update table.srTab slot next }
    else table.setNext tmp next
  { table with
    elems := update table.elems elem { (table.elems elem).setAvail 0 with srNext := 0 }
    srNumAvail := update table.srNumAvail (pageOf elem) (table.srNumAvail (pageOf elem) + 1) }

def srDelete (table : SrTable) (macaddr : Macaddr) : Option SrTable :=
  match table.deleteFrom macaddr table.rounds 0 (table.srTab (srHash macaddr)) with
  | none => none
  | some (tmp, elem) => some (if elem = 0 then table else table.unlink (srHash macaddr) tmp elem)

end SrTable

namespace SrTable

def next (table : SrTable) (elem : Nat) : Nat := (table.elems elem).srNext

@[simp] theorem next_setNext_self (table : SrTable) (elem next : Nat) :
    (table.setNext elem next).next elem = next := by
  simp [SrTable.next, setNext]

theorem next_setNext_of_ne {elem other : Nat} (table : SrTable) (next : Nat)
    (different : other ≠ elem) : (table.setNext elem next).next other = table.next other := by
  simp [SrTable.next, setNext, update_of_ne different]

theorem setNext_elems (table : SrTable) (elem next other : Nat) :
    ∃ link, (table.setNext elem next).elems other = { table.elems other with srNext := link } := by
  by_cases isElem : other = elem
  · subst isElem
    exact ⟨next, update_self ..⟩
  · exact ⟨_, update_of_ne isElem ..⟩

/-- The elements of a chain. -/
def ChainOf (table : SrTable) (slot : Fin maxTabSize) (nodes : List Nat) : Prop :=
  Chain table.next (· ≠ 0) (table.srTab slot) nodes

def unusedIn (table : SrTable) (page : Nat) : Finset Nat :=
  (Finset.range maxListSize).filter fun i => (table.elems (elemOf page i)).srAvail = 0

variable {table : SrTable} {start : Nat} {nodes : List Nat} {macaddr : Macaddr}

section

variable (chain : Chain table.next (· ≠ 0) start nodes)
include chain

theorem lookupFrom_of_chain {rounds : Nat} (enough : nodes.length < rounds) :
    (∃ elem ∈ nodes, (table.elems elem).srMacaddr = macaddr ∧
      table.lookupFrom macaddr rounds start = some elem) ∨
    ((∀ elem ∈ nodes, (table.elems elem).srMacaddr ≠ macaddr) ∧
      table.lookupFrom macaddr rounds start = some 0) := by
  induction chain generalizing rounds with
  | stop invalid =>
    obtain ⟨rounds, rfl⟩ := Nat.exists_eq_add_of_lt enough
    exact .inr ⟨fun _ member => absurd member not_mem_nil, if_pos (not_not.1 invalid)⟩
  | @link start nodes isValid rest ih =>
    cases rounds with
    | zero => exact absurd enough (Nat.not_lt_zero _)
    | succ rounds =>
      rw [lookupFrom, if_neg isValid]
      by_cases same : (table.elems start).srMacaddr = macaddr
      · exact .inl ⟨start, .head _, same, if_pos same⟩
      · rw [if_neg same]
        obtain ⟨elem, member, found⟩ | ⟨missing, ends⟩ := ih (lt_of_succ_lt_succ enough)
        · exact .inl ⟨elem, .tail _ member, found⟩
        · exact .inr ⟨forall_mem_cons.2 ⟨same, missing⟩, ends⟩

theorem lastFrom_of_chain {rounds : Nat} (some : start ≠ 0) (enough : nodes.length < rounds) :
    table.lastFrom rounds start = nodes.getLast? := by
  induction chain generalizing rounds with
  | stop invalid => exact absurd some invalid
  | @link start nodes _ rest ih =>
    cases rounds with
    | zero => exact absurd enough (Nat.not_lt_zero _)
    | succ rounds =>
      rw [lastFrom]
      by_cases last : (table.elems start).srNext = 0
      · cases rest with
        | stop _ => exact if_pos last
        | link isValid _ => exact absurd last isValid
      · rw [if_neg last]
        refine (ih last (lt_of_succ_lt_succ enough)).trans ?_
        cases rest with
        | stop invalid => exact absurd last invalid
        | link _ _ => rw [getLast?_cons_cons]

theorem deleteFrom_of_chain {rounds tmp : Nat} (enough : nodes.length < rounds) :
    (∃ index elem prev, nodes[index]? = some elem ∧ (table.elems elem).srMacaddr = macaddr ∧
      table.deleteFrom macaddr rounds tmp start = some (prev, elem) ∧
      ((index = 0 ∧ prev = tmp) ∨ ∃ before, index = before + 1 ∧ nodes[before]? = some prev)) ∨
    ((∀ elem ∈ nodes, (table.elems elem).srMacaddr ≠ macaddr) ∧
      ∃ prev, table.deleteFrom macaddr rounds tmp start = some (prev, 0)) := by
  induction chain generalizing rounds tmp with
  | stop invalid =>
    obtain ⟨rounds, rfl⟩ := Nat.exists_eq_add_of_lt enough
    exact .inr ⟨fun _ member => absurd member not_mem_nil, tmp, if_pos (not_not.1 invalid)⟩
  | @link start nodes isValid rest ih =>
    cases rounds with
    | zero => exact absurd enough (Nat.not_lt_zero _)
    | succ rounds =>
      simp only [deleteFrom, if_neg isValid]
      by_cases same : (table.elems start).srMacaddr = macaddr
      · exact .inl ⟨0, start, tmp, rfl, same, if_pos same, .inl ⟨rfl, rfl⟩⟩
      · rw [if_neg same]
        obtain ⟨index, elem, prev, place, isMac, found, first | ⟨before, rfl, isPrev⟩⟩ |
          ⟨missing, ends⟩ := ih (lt_of_succ_lt_succ enough)
        · obtain ⟨rfl, rfl⟩ := first
          exact .inl ⟨1, elem, start, place, isMac, found, .inr ⟨0, rfl, rfl⟩⟩
        · exact .inl ⟨_, elem, prev, place, isMac, found, .inr ⟨before + 1, rfl, isPrev⟩⟩
        · exact .inr ⟨forall_mem_cons.2 ⟨same, missing⟩, ends⟩

end

theorem pageOf_elemOf {page index : Nat} (below : index < maxListSize) :
    pageOf (elemOf page index) = page := by
  simp only [pageOf, elemOf, maxListSize] at *
  omega

theorem elemOf_pageOf {elem : Nat} (some : elem ≠ 0) : (elem - 1) % maxListSize < maxListSize ∧
    elemOf (pageOf elem) ((elem - 1) % maxListSize) = elem := by
  simp only [pageOf, elemOf, maxListSize]
  omega

variable {table' : SrTable} {elem : Nat}

def indexOf (elem : Nat) : Nat := (elem - 1) % maxListSize

theorem elemOf_inj {elem page index : Nat} (below : index < maxListSize)
    (same : elemOf page index = elem) : page = pageOf elem ∧ index = indexOf elem := by
  simp only [pageOf, indexOf, elemOf, maxListSize] at *
  omega

theorem mem_unusedIn (some : elem ≠ 0) :
    indexOf elem ∈ table.unusedIn (pageOf elem) ↔ (table.elems elem).srAvail = 0 := by
  obtain ⟨below, same⟩ := elemOf_pageOf some
  rw [unusedIn, Finset.mem_filter, indexOf, same, Finset.mem_range, and_iff_right below]

section Counts

variable (some : elem ≠ 0)
  (same : ∀ other, other ≠ elem → (table'.elems other).srAvail = (table.elems other).srAvail)

include some same

theorem unusedIn_of_ne {page : Nat} (otherPage : page ≠ pageOf elem) :
    table'.unusedIn page = table.unusedIn page := by
  refine Finset.filter_congr fun i member => ?_
  rw [same]
  exact fun isElem => otherPage (elemOf_inj (Finset.mem_range.1 member) isElem).1

theorem erase_unusedIn : (table'.unusedIn (pageOf elem)).erase (indexOf elem) =
    (table.unusedIn (pageOf elem)).erase (indexOf elem) := by
  ext i
  simp only [unusedIn, Finset.mem_erase, Finset.mem_filter, Finset.mem_range]
  refine and_congr_right fun otherIndex => and_congr_right fun below => ?_
  rw [same]
  exact fun isElem => otherIndex (elemOf_inj below isElem).2

theorem card_mark (wasFree : (table.elems elem).srAvail = 0)
    (used : (table'.elems elem).srAvail ≠ 0) :
    (table'.unusedIn (pageOf elem)).card = (table.unusedIn (pageOf elem)).card - 1 := by
  rw [← Finset.card_erase_of_mem ((mem_unusedIn some).2 wasFree), ← erase_unusedIn some same,
    Finset.erase_eq_of_notMem fun member => used ((mem_unusedIn some).1 member)]

end Counts

/-- An element of a chain: it is in use, hangs where its address says, and has the route that
was accepted last for its address. -/
structure Listed (table : SrTable) (recorded : Macaddr → Option (List Byte))
    (slot : Fin maxTabSize) (elem : Nat) : Prop where
  within : pageOf elem < table.pages
  marked : (table.elems elem).srAvail ≠ 0
  hash : srHash (table.elems elem).srMacaddr = slot
  route : recorded (table.elems elem).srMacaddr = some (table.elems elem).route

/-- What the routines keep, with the chains and the routes that were accepted last; `held` is
an element that is marked in use and is on no chain yet. -/
structure Kept (table : SrTable) (chains : Fin maxTabSize → List Nat)
    (recorded : Macaddr → Option (List Byte)) (held : Nat) : Prop where
  chain : ∀ slot, table.ChainOf slot (chains slot)
  listed : ∀ slot, ∀ elem ∈ chains slot, table.Listed recorded slot elem
  unique : ∀ slot, ∀ elem ∈ chains slot, ∀ other ∈ chains slot,
    (table.elems elem).srMacaddr = (table.elems other).srMacaddr → elem = other
  missing : ∀ macaddr, (∀ elem ∈ chains (srHash macaddr),
    (table.elems elem).srMacaddr ≠ macaddr) → recorded macaddr = none
  inUse : ∀ elem, elem ≠ 0 → elem ≠ held → pageOf elem < table.pages →
    (table.elems elem).srAvail ≠ 0 → ∃ slot, elem ∈ chains slot
  notHeld : ∀ slot, held ∉ chains slot
  counts : ∀ page, page < table.pages → table.srNumAvail page = (table.unusedIn page).card

variable {chains chains' : Fin maxTabSize → List Nat}
  {recorded recorded' : Macaddr → Option (List Byte)} {held held' : Nat} {slot : Fin maxTabSize}

namespace Kept

section

variable (kept : Kept table chains recorded held)
include kept

theorem ne_zero (member : elem ∈ chains slot) : elem ≠ 0 := (kept.chain slot).valid_of_mem member

theorem enough (slot : Fin maxTabSize) :
    (chains slot).length < table.rounds := by
  have inside : (chains slot).toFinset ⊆ Finset.Icc 1 (maxListSize * table.pages) := by
    intro elem listed
    have member := mem_toFinset.1 listed
    have some := kept.ne_zero member
    have below := (kept.listed slot elem member).within
    simp only [pageOf, maxListSize, Finset.mem_Icc] at *
    omega
  have bounded := Finset.card_le_card inside
  rw [toFinset_card_of_nodup (kept.chain slot).nodup, card_Icc] at bounded
  simp only [rounds, maxListSize] at *
  omega

theorem srTabLookup (macaddr : Macaddr) :
    (∃ elem ∈ chains (srHash macaddr), (table.elems elem).srMacaddr = macaddr ∧
      table.srTabLookup macaddr = some elem) ∨
    ((∀ elem ∈ chains (srHash macaddr), (table.elems elem).srMacaddr ≠ macaddr) ∧
      table.srTabLookup macaddr = some 0) :=
  lookupFrom_of_chain (kept.chain _) (kept.enough _)

theorem congr (sameTab : table'.srTab = table.srTab)
    (pages : table.pages ≤ table'.pages)
    (same : ∀ slot, ∀ elem ∈ chains slot, table'.elems elem = table.elems elem)
    (inUse : ∀ elem, elem ≠ 0 → elem ≠ held' → pageOf elem < table'.pages →
      (table'.elems elem).srAvail ≠ 0 → ∃ slot, elem ∈ chains slot)
    (notHeld : ∀ slot, held' ∉ chains slot)
    (counts : ∀ page, page < table'.pages → table'.srNumAvail page = (table'.unusedIn page).card) :
    Kept table' chains recorded held' where
  chain slot := by
    rw [ChainOf, sameTab]
    exact (kept.chain slot).congr fun elem member => by rw [next, same slot elem member]; rfl
  listed slot elem member := by
    obtain ⟨within, marked, hash, route⟩ := kept.listed slot elem member
    rw [← same slot elem member] at marked hash route
    exact ⟨within.trans_le pages, marked, hash, route⟩
  unique slot elem member other otherMember := by
    rw [same slot elem member, same slot other otherMember]
    exact kept.unique slot elem member other otherMember
  missing macaddr absent := kept.missing macaddr fun elem member => by
    rw [← same _ elem member]
    exact absent elem member
  inUse := inUse
  notHeld := notHeld
  counts := counts

theorem initSrMem :
    Kept table.initSrMem chains recorded held := by
  have old : ∀ elem, pageOf elem < table.pages →
      table.initSrMem.elems elem = table.elems elem := fun elem below =>
    if_neg (Nat.ne_of_lt below)
  have new : ∀ elem, pageOf elem = table.pages → (table.initSrMem.elems elem).srAvail = 0 := by
    intro elem isNew
    simp [SrTable.initSrMem, isNew, SrElem.srAvail, SrElem.setAvail]
  refine kept.congr rfl (le_succ _)
    (fun slot elem member => old elem (kept.listed slot elem member).within) ?_ kept.notHeld ?_
  · intro elem some notHeld below used
    obtain isOld | isNew := Nat.lt_or_eq_of_le (le_of_lt_succ below)
    · rw [old elem isOld] at used
      exact kept.inUse elem some notHeld isOld used
    · exact absurd (new elem isNew) used
  · intro page below
    obtain isOld | rfl := Nat.lt_or_eq_of_le (le_of_lt_succ below)
    · refine (update_of_ne (Nat.ne_of_lt isOld) ..).trans ((kept.counts page isOld).trans ?_)
      refine congrArg Finset.card (Finset.filter_congr fun i member => ?_)
      rw [old _ (by rwa [pageOf_elemOf (Finset.mem_range.1 member)])]
    · have all : table.initSrMem.unusedIn table.pages = Finset.range maxListSize :=
        Finset.filter_true_of_mem fun i member => new _ (pageOf_elemOf (Finset.mem_range.1 member))
      rw [all, Finset.card_range]
      exact update_self ..

end

theorem take (kept : Kept table chains recorded 0) (some : elem ≠ 0)
    (below : pageOf elem < table.pages) (free : (table.elems elem).srAvail = 0) :
    Kept (table.take (pageOf elem) elem) chains recorded elem := by
  have other : ∀ other, other ≠ elem →
      (table.take (pageOf elem) elem).elems other = table.elems other :=
    fun other different => update_of_ne different ..
  have unlisted : ∀ slot, elem ∉ chains slot :=
    fun slot member => (kept.listed slot _ member).marked free
  refine kept.congr rfl (Nat.le_refl _) (fun slot listed member => other listed ?_) ?_ unlisted ?_
  · rintro rfl
    exact unlisted slot member
  · intro used usedSome different inPages isUsed
    rw [other used different] at isUsed
    exact kept.inUse used usedSome usedSome inPages isUsed
  · intro page inPages
    have same : ∀ other, other ≠ elem → ((table.take (pageOf elem) elem).elems other).srAvail =
        (table.elems other).srAvail := fun used different => by rw [other used different]
    by_cases isPage : page = pageOf elem
    · subst isPage
      have marked : ((table.take (pageOf elem) elem).elems elem).srAvail ≠ 0 := by
        simp [SrTable.take, SrElem.setAvail, SrElem.srAvail]
      rw [card_mark some same free marked, ← kept.counts _ below]
      exact update_self ..
    · rw [unusedIn_of_ne some same isPage, ← kept.counts _ inPages]
      exact update_of_ne isPage ..

theorem takeFrom {page : Nat} (kept : Kept table chains recorded 0) (below : page < table.pages)
    (some : table.srNumAvail page ≠ 0) :
    ∃ elem, elem ≠ 0 ∧ pageOf elem = page ∧ (table.elems elem).srAvail = 0 ∧
      table.takeFrom page = (elem, table.take page elem) := by
  rw [kept.counts page below] at some
  obtain ⟨index, unused⟩ := Finset.card_pos.1 (Nat.pos_of_ne_zero some)
  obtain ⟨inPage, isFree⟩ := Finset.mem_filter.1 unused
  unfold SrTable.takeFrom
  cases found : (range maxListSize).find? fun i => (table.elems (elemOf page i)).srAvail == 0 with
  | none =>
    have used := List.find?_eq_none.1 found index (mem_range.2 (Finset.mem_range.1 inPage))
    exact absurd (beq_iff_eq.2 isFree) used
  | some i =>
    have bound := mem_range.1 (List.mem_of_find?_eq_some found)
    have free := List.find?_some found
    exact ⟨elemOf page i, succ_ne_zero _, pageOf_elemOf bound, beq_iff_eq.1 free, rfl⟩

theorem srFindSlot (kept : Kept table chains recorded 0) (memory : Bool) :
    (table.srFindSlot memory = (0, table) ∧ memory = false) ∨
    ∃ elem grown, table.srFindSlot memory = (elem, grown) ∧ elem ≠ 0 ∧
      (table.pages ≤ pageOf elem ∨ (table.elems elem).srAvail = 0) ∧
      pageOf elem < grown.pages ∧ (grown.elems elem).srAvail ≠ 0 ∧
      Kept grown chains recorded elem := by
  have marked : ∀ (table : SrTable) (page elem : Nat),
      ((table.take page elem).elems elem).srAvail ≠ 0 := by
    intro table page elem
    simp [SrTable.take, SrElem.setAvail, SrElem.srAvail]
  unfold SrTable.srFindSlot
  cases found : (range table.pages).find? fun page => table.srNumAvail page != 0 with
  | some page =>
    have below := mem_range.1 (List.mem_of_find?_eq_some found)
    have count : table.srNumAvail page ≠ 0 := by simpa using List.find?_some found
    obtain ⟨elem, some, rfl, free, taken⟩ := kept.takeFrom below count
    exact .inr ⟨elem, table.take (pageOf elem) elem, taken, some, .inr free, below, marked _ _ _,
      kept.take some below free⟩
  | none =>
    cases memory with
    | false => exact .inl ⟨rfl, rfl⟩
    | true =>
      have grown := kept.initSrMem
      have count : table.initSrMem.srNumAvail table.pages ≠ 0 := by simp [SrTable.initSrMem]
      obtain ⟨elem, some, isNew, free, taken⟩ := grown.takeFrom (lt_succ_self _) count
      have inside : pageOf elem < table.initSrMem.pages := isNew ▸ lt_succ_self _
      exact .inr ⟨elem, table.initSrMem.take (pageOf elem) elem, isNew ▸ taken, some,
        .inl isNew.ge, inside, marked _ _ _, grown.take some inside free⟩

/-- One element changes, and what is on the chains and recorded for its address. -/
theorem replace (kept : Kept table chains recorded held) (macaddr : Macaddr) (elem : Nat)
    (heldElem : held ≠ 0 → held = elem)
    (chain : ∀ slot, table'.ChainOf slot (chains' slot)) (pages : table'.pages = table.pages)
    (same : ∀ other, other ≠ elem →
      ∃ next, table'.elems other = { table.elems other with srNext := next })
    (members : ∀ slot other, other ≠ elem → (other ∈ chains' slot ↔ other ∈ chains slot))
    (others : ∀ slot, ∀ other ∈ chains slot, other ≠ elem → (table.elems other).srMacaddr ≠ macaddr)
    (ownBefore : ∀ slot, elem ∈ chains slot → (table.elems elem).srMacaddr = macaddr)
    (own : ∀ slot, elem ∈ chains' slot →
      table'.Listed recorded' slot elem ∧ (table'.elems elem).srMacaddr = macaddr)
    (recordedSame : ∀ other, other ≠ macaddr → recorded' other = recorded other)
    (missing : elem ∉ chains' (srHash macaddr) → recorded' macaddr = none)
    (used : (table'.elems elem).srAvail ≠ 0 → ∃ slot, elem ∈ chains' slot)
    (counts : ∀ page, page < table'.pages → table'.srNumAvail page = (table'.unusedIn page).card) :
    Kept table' chains' recorded' 0 where
  chain := chain
  listed slot other member := by
    by_cases isElem : other = elem
    · subst isElem
      exact (own slot member).1
    · have before := (members slot other isElem).1 member
      obtain ⟨within, marked, hash, route⟩ := kept.listed slot other before
      obtain ⟨next, unchanged⟩ := same other isElem
      refine ⟨pages ▸ within, ?_, ?_, ?_⟩ <;> rw [unchanged]
      · exact marked
      · exact hash
      · exact (recordedSame _ (others slot other before isElem)).trans route
  unique slot first member second otherMember equal := by
    have macOf : ∀ other ∈ chains' slot, other ≠ elem → (table'.elems other).srMacaddr =
        (table.elems other).srMacaddr ∧ (table.elems other).srMacaddr ≠ macaddr := by
      intro other listed isOther
      obtain ⟨next, unchanged⟩ := same other isOther
      exact ⟨by rw [unchanged], others slot other ((members slot other isOther).1 listed) isOther⟩
    by_cases isFirst : first = elem <;> by_cases isSecond : second = elem
    · rw [isFirst, isSecond]
    · obtain ⟨unchanged, different⟩ := macOf second otherMember isSecond
      rw [← unchanged, ← equal, isFirst, (own slot (isFirst ▸ member)).2] at different
      exact absurd rfl different
    · obtain ⟨unchanged, different⟩ := macOf first member isFirst
      rw [← unchanged, equal, isSecond, (own slot (isSecond ▸ otherMember)).2] at different
      exact absurd rfl different
    · rw [(macOf first member isFirst).1, (macOf second otherMember isSecond).1] at equal
      exact kept.unique slot first ((members slot first isFirst).1 member) second
        ((members slot second isSecond).1 otherMember) equal
  missing other absent := by
    by_cases isMac : other = macaddr
    · subst isMac
      exact missing fun member => absent elem member (own _ member).2
    · rw [recordedSame other isMac]
      refine kept.missing other fun listed member => ?_
      by_cases isElem : listed = elem
      · rw [isElem, ownBefore _ (isElem ▸ member)]
        exact Ne.symm isMac
      · obtain ⟨next, unchanged⟩ := same listed isElem
        have after := absent listed ((members _ listed isElem).2 member)
        rwa [unchanged] at after
  inUse other some _ below isUsed := by
    by_cases isElem : other = elem
    · subst isElem
      exact used isUsed
    · obtain ⟨next, unchanged⟩ := same other isElem
      rw [unchanged] at isUsed
      have notHeld : other ≠ held := fun isHeld => isElem (isHeld.trans (heldElem (isHeld ▸ some)))
      obtain ⟨slot, member⟩ := kept.inUse other some notHeld (pages ▸ below) isUsed
      exact ⟨slot, (members slot other isElem).2 member⟩
  notHeld slot member := (chain slot).valid_of_mem member rfl
  counts := counts

end Kept

end SrTable

end Uw7.Sr
