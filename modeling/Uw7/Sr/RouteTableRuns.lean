import Uw7.Sr.RouteTable

namespace Uw7.Sr

/-!
# Runs of the route table

Insertions and deletions in any order, by either policy, keep the chains, the marks and
the counts in step, when no route is longer than `MAX_ROUTE_SIZE`; and a look-up finds the
route that was accepted last.
-/

open Lib Function List Option

def routeBytes (srRoute : ByteMemory) (srSize : Int) : List Byte := (range srSize.toNat).map srRoute

namespace SrTable

variable {table linked : SrTable} {chains chains' : Fin maxTabSize → List Nat}
  {recorded : Macaddr → Option (List Byte)} {held elem : Nat} {slot : Fin maxTabSize}
  {macaddr : Macaddr} {srSize : Int}

namespace Kept

theorem stored (kept : Kept table chains recorded held) (fits : 0 ≤ srSize ∧ srSize ≤ maxRouteSize)
    (heldElem : held ≠ 0 → held = elem) (chain : ∀ slot, linked.ChainOf slot (chains' slot))
    (pages : linked.pages = table.pages) (numAvail : linked.srNumAvail = table.srNumAvail)
    (same : ∀ other, ∃ next, linked.elems other = { table.elems other with srNext := next })
    (members : ∀ slot other, other ≠ elem → (other ∈ chains' slot ↔ other ∈ chains slot))
    (others : ∀ slot, ∀ other ∈ chains slot, other ≠ elem → (table.elems other).srMacaddr ≠ macaddr)
    (ownBefore : ∀ slot, elem ∈ chains slot → (table.elems elem).srMacaddr = macaddr)
    (onChain : ∀ slot, elem ∈ chains' slot ↔ slot = srHash macaddr)
    (marked : (table.elems elem).srAvail ≠ 0) (within : pageOf elem < table.pages) (srTime : Nat)
    (srRoute : ByteMemory) : ∃ after, linked.store elem srTime macaddr srRoute srSize = some after ∧
      Kept after chains' (update recorded macaddr (some (routeBytes srRoute srSize))) 0 := by
  simp only [maxRouteSize] at fits
  refine ⟨_, if_pos ⟨fits.1, by omega⟩, ?_⟩
  have avail : ∀ other, (update linked.elems elem
      { linked.elems elem with
        srTime
        srMacaddr := macaddr
        srRouteSize := srSize.toNat
        srRoute := (linked.elems elem).srRoute.store 0 srSize.toNat srRoute } other).srAvail =
      (table.elems other).srAvail := by
    intro other
    obtain ⟨next, unchanged⟩ := same other
    by_cases isElem : other = elem
    · subst isElem
      rw [update_self, unchanged]
      exact if_neg fun inside => by omega
    · rw [update_of_ne isElem, unchanged]
      rfl
  refine kept.replace macaddr elem heldElem (fun slot => ?_) pages (fun other isOther => ?_) members
    others ownBefore (fun slot member => ?_) (fun other isOther => update_of_ne isOther ..)
    (fun missing => absurd ((onChain _).2 rfl) missing) (fun _ => ⟨_, (onChain _).2 rfl⟩) ?_
  · refine (chain slot).congr fun other _ => ?_
    by_cases isElem : other = elem
    · subst isElem
      simp only [next, update_self]
    · simp only [next, update_of_ne isElem]
  · dsimp only
    rw [update_of_ne isOther]
    exact same other
  · refine ⟨⟨pages ▸ within, by rw [avail]; exact marked, ?_, ?_⟩, ?_⟩ <;> simp only [update_self]
    · exact ((onChain slot).1 member).symm
    · refine congrArg some (map_congr_left fun i listed => ?_)
      have below := mem_range.1 listed
      have inside : 0 ≤ i ∧ i < 0 + srSize.toNat := by omega
      exact (if_pos inside).symm
  · intro page below
    rw [numAvail, kept.counts page (pages ▸ below)]
    exact congrArg Finset.card (Finset.filter_congr fun i _ => by rw [avail])

theorem insertOld (kept : Kept table chains recorded 0)
    (fits : 0 ≤ srSize ∧ srSize ≤ maxRouteSize) (member : elem ∈ chains slot) (srTime : Nat)
    (srRoute : ByteMemory) :
    ∃ after, table.store elem srTime (table.elems elem).srMacaddr srRoute srSize = some after ∧
      Kept after chains (update recorded (table.elems elem).srMacaddr
        (some (routeBytes srRoute srSize))) 0 := by
  have listed := kept.listed slot elem member
  refine kept.stored fits (fun some => absurd rfl some) kept.chain rfl rfl
    (fun other => ⟨_, rfl⟩) (fun _ _ _ => Iff.rfl) ?_ (fun _ _ => rfl) ?_ listed.marked
    listed.within srTime srRoute
  · intro otherSlot other otherMember different sameMac
    have sameSlot : otherSlot = slot := by
      rw [← (kept.listed _ other otherMember).hash, ← listed.hash, sameMac]
    subst sameSlot
    exact different (kept.unique _ other otherMember elem member sameMac)
  · intro otherSlot
    constructor
    · exact fun otherMember => (kept.listed _ elem otherMember).hash.symm
    · rintro rfl
      exact listed.hash ▸ member

theorem link (kept : Kept table chains recorded elem) (isSome : elem ≠ 0)
    (slot : Fin maxTabSize) : ∃ linked, table.link slot elem = some linked ∧
      (∀ other, linked.ChainOf other (update chains slot (chains slot ++ [elem]) other)) ∧
      linked.pages = table.pages ∧ linked.srNumAvail = table.srNumAvail ∧
      ∀ other, ∃ next, linked.elems other = { table.elems other with srNext := next } := by
  have chain : ∀ slot, (table.setNext elem 0).ChainOf slot (chains slot) := fun slot =>
    (kept.chain slot).congr fun other member =>
      next_setNext_of_ne table 0 fun same => kept.notHeld slot (same ▸ member)
  unfold SrTable.link
  by_cases isEmpty : (table.setNext elem 0).srTab slot = 0
  · have noNodes : chains slot = [] := (chain slot).unique (.stop (not_not_intro isEmpty))
    refine ⟨_, if_pos isEmpty, fun other => ?_, rfl, rfl, setNext_elems table elem 0⟩
    change Chain (table.setNext elem 0).next _
      (update (table.setNext elem 0).srTab slot elem other) _
    by_cases isSlot : other = slot
    · subst isSlot
      rw [update_self, update_self, noNodes]
      exact .link isSome (.stop (not_not_intro (next_setNext_self ..)))
    · rw [update_of_ne isSlot, update_of_ne isSlot]
      exact chain other
  · have last : (table.setNext elem 0).lastFrom (table.setNext elem 0).rounds
        ((table.setNext elem 0).srTab slot) = (chains slot).getLast? :=
      lastFrom_of_chain (chain slot) isEmpty (kept.enough slot)
    cases isLast : (chains slot).getLast? with
    | none =>
      have first := chain slot
      rw [getLast?_eq_none_iff.1 isLast, ChainOf] at first
      cases first with
      | stop invalid => exact absurd isEmpty invalid
    | some tail =>
      have onChain := List.mem_of_getLast? isLast
      have different : elem ≠ tail := fun same => kept.notHeld slot (same ▸ onChain)
      refine ⟨(table.setNext elem 0).setNext tail elem, ?_, fun other => ?_, rfl, rfl, ?_⟩
      · rw [if_neg isEmpty, last, isLast]
        rfl
      · by_cases isSlot : other = slot
        · subst isSlot
          rw [update_self]
          refine (chain other).append_last isLast isSome ?_ (next_setNext_self ..)
            fun node _ notTail => next_setNext_of_ne _ elem notTail
          rw [next_setNext_of_ne _ elem different, next_setNext_self]
          exact not_not_intro rfl
        · rw [update_of_ne isSlot]
          refine (chain other).congr fun node member => next_setNext_of_ne _ elem ?_
          rintro rfl
          exact isSlot ((kept.listed _ node member).hash.symm.trans
            (kept.listed _ node onChain).hash)
      · intro other
        obtain ⟨first, cleared⟩ := setNext_elems table elem 0 other
        obtain ⟨second, linked⟩ := setNext_elems (table.setNext elem 0) tail elem other
        exact ⟨second, by rw [linked, cleared]⟩

theorem insertNew (kept : Kept table chains recorded elem)
    (fits : 0 ≤ srSize ∧ srSize ≤ maxRouteSize) (isSome : elem ≠ 0)
    (within : pageOf elem < table.pages) (marked : (table.elems elem).srAvail ≠ 0)
    (unrecorded : recorded macaddr = none) (clock : Option Nat) (srRoute : ByteMemory) :
    ∃ linked after, table.link (srHash macaddr) elem = some linked ∧
      linked.store elem (clock.getD (linked.elems elem).srTime) macaddr srRoute srSize =
        some after ∧
      Kept after (update chains (srHash macaddr) (chains (srHash macaddr) ++ [elem]))
        (update recorded macaddr (some (routeBytes srRoute srSize))) 0 := by
  obtain ⟨linked, links, chain, pages, numAvail, same⟩ := kept.link isSome (srHash macaddr)
  have membersOf : ∀ slot, update chains (srHash macaddr) (chains (srHash macaddr) ++ [elem]) slot =
      if slot = srHash macaddr then chains slot ++ [elem] else chains slot := by
    intro slot
    by_cases isSlot : slot = srHash macaddr
    · subst isSlot
      rw [update_self, if_pos rfl]
    · rw [update_of_ne isSlot, if_neg isSlot]
  obtain ⟨after, stores, keptAfter⟩ := kept.stored fits (fun _ => rfl) chain pages numAvail same
    (fun slot other different => by rw [membersOf]; split <;> simp [different])
    (fun slot other member _ isMac => by
      have route := (kept.listed slot other member).route
      rw [isMac, unrecorded] at route
      cases route)
    (fun slot member => absurd member (kept.notHeld slot))
    (fun slot => by rw [membersOf]; split <;> simp [*, kept.notHeld]) marked within
    (clock.getD (linked.elems elem).srTime) srRoute
  exact ⟨linked, after, links, stores, keptAfter⟩

/-- An element is taken from its chain, and is free again. -/
theorem unlink {index tmp : Nat} (kept : Kept table chains recorded 0)
    (place : (chains slot)[index]? = some elem) (isSlot : srHash macaddr = slot)
    (isMac : (table.elems elem).srMacaddr = macaddr) (isTmp : (index = 0 ∧ tmp = 0) ∨
      ∃ before, index = before + 1 ∧ (chains slot)[before]? = some tmp) :
    Kept (table.unlink slot tmp elem) (update chains slot ((chains slot).eraseIdx index))
      (update recorded macaddr none) 0 := by
  have member := mem_of_getElem? place
  have listed := kept.listed slot elem member
  have nodup := (kept.chain slot).nodup
  have erased : (chains slot).eraseIdx index = (chains slot).erase elem := by
    obtain ⟨below, rfl⟩ := List.getElem?_eq_some_iff.1 place
    exact (erase_eq_eraseIdx_of_idxOf (nodup.idxOf_getElem index below)).symm
  have elsewhere : ∀ other, elem ∈ chains other → other = slot := fun other onOther =>
    (kept.listed other elem onOther).hash.symm.trans listed.hash
  have membersOf : ∀ other node, node ∈ update chains slot
      ((chains slot).eraseIdx index) other ↔ node ≠ elem ∧ node ∈ chains other := by
    intro other node
    by_cases same : other = slot
    · subst same
      rw [update_self, erased, nodup.mem_erase_iff]
    · rw [update_of_ne same, iff_and_self]
      rintro onOther rfl
      exact same (elsewhere other onOther)
  -- The table behind the assignment to the head or to the link before the element.
  obtain ⟨passed, isPassed, chain, elems⟩ : ∃ passed : SrTable, passed = (if tmp = 0 then
        { table with srTab := update table.srTab slot (table.next elem) }
      else table.setNext tmp (table.next elem)) ∧
      (∀ other, passed.ChainOf other (update chains slot ((chains slot).eraseIdx index) other)) ∧
      ∀ other, ∃ link, passed.elems other = { table.elems other with srNext := link } := by
    refine ⟨_, rfl, ?_⟩
    obtain ⟨rfl, rfl⟩ | ⟨before, rfl, isBefore⟩ := isTmp
    · refine ⟨fun other => ?_, fun other => ⟨_, rfl⟩⟩
      change Chain table.next _ (update table.srTab slot (table.next elem) other) _
      by_cases same : other = slot
      · subst same
        rw [update_self, update_self, eraseIdx_eq_take_drop_succ]
        exact (kept.chain other).rest_of_getElem? place
      · rw [update_of_ne same, update_of_ne same]
        exact kept.chain other
    · have onChain := mem_of_getElem? isBefore
      rw [if_neg (kept.ne_zero onChain)]
      refine ⟨fun other => ?_, setNext_elems table tmp _⟩
      by_cases same : other = slot
      · subst same
        rw [update_self]
        exact (kept.chain other).eraseIdx isBefore place (next_setNext_self ..)
          fun node _ different => next_setNext_of_ne table _ different
      · rw [update_of_ne same]
        refine (kept.chain other).congr fun node onOther => next_setNext_of_ne table _ ?_
        rintro rfl
        exact same ((kept.listed other node onOther).hash.symm.trans
          (kept.listed slot node onChain).hash)
  have unlinked : table.unlink slot tmp elem = { passed with
      elems := update passed.elems elem { (passed.elems elem).setAvail 0 with srNext := 0 }
      srNumAvail := update passed.srNumAvail (pageOf elem)
        (passed.srNumAvail (pageOf elem) + 1) } := by
    rw [isPassed]
    rfl
  have numAvail : passed.srNumAvail = table.srNumAvail ∧ passed.pages = table.pages := by
    rw [isPassed]
    split <;> exact ⟨rfl, rfl⟩
  have others : ∀ other, other ≠ elem → ∃ link, (table.unlink slot tmp elem).elems other =
      { table.elems other with srNext := link } := by
    intro other different
    obtain ⟨link, same⟩ := elems other
    exact ⟨link, by rw [unlinked, ← same]; exact update_of_ne different ..⟩
  have free : ((table.unlink slot tmp elem).elems elem).srAvail = 0 := by
    simp [unlinked, SrElem.srAvail, SrElem.setAvail]
  refine kept.replace macaddr elem (fun some => absurd rfl some) (fun other => ?_)
    (by rw [unlinked]; exact numAvail.2) others
    (fun other node different => by rw [membersOf, and_iff_right different])
    (fun other node onOther different sameMac => ?_) (fun _ _ => isMac)
    (fun other onOther => absurd rfl ((membersOf _ _).1 onOther).1)
    (fun other different => update_of_ne different ..)
    (fun _ => update_self ..) (fun used => absurd free used) fun page below => ?_
  · rw [ChainOf, unlinked]
    refine (chain other).congr fun node onOther => ?_
    simp only [next, update_of_ne ((membersOf other node).1 onOther).1]
  · have sameSlot : other = slot := by
      rw [← (kept.listed other node onOther).hash, sameMac, isSlot]
    subst sameSlot
    exact different (kept.unique _ node onOther elem member (sameMac.trans isMac.symm))
  · have some := kept.ne_zero member
    have sameAvail : ∀ other, other ≠ elem → (table.elems other).srAvail =
        ((table.unlink slot tmp elem).elems other).srAvail := by
      intro other different
      obtain ⟨link, same⟩ := others other different
      rw [same]
      rfl
    have counted : (table.unlink slot tmp elem).srNumAvail = update table.srNumAvail
        (pageOf elem) (table.srNumAvail (pageOf elem) + 1) := by rw [unlinked, numAvail.1]
    have inPages : page < table.pages := by
      rw [unlinked] at below
      exact numAvail.2 ▸ below
    by_cases isPage : page = pageOf elem
    · subst isPage
      have lessOne := card_mark some sameAvail free listed.marked
      have positive := Finset.card_pos.2 ⟨_, (mem_unusedIn some).2 free⟩
      have count := kept.counts (pageOf elem) listed.within
      rw [counted, update_self]
      omega
    · rw [counted, update_of_ne isPage, kept.counts page inPages,
        unusedIn_of_ne some sameAvail isPage]

theorem srInsert (kept : Kept table chains recorded 0) (isYoung : Nat → Nat → Bool)
    (clock : Option Nat) (macaddr : Macaddr) (srRoute : ByteMemory)
    (fits : 0 ≤ srSize ∧ srSize ≤ maxRouteSize) (memory : Bool) : ∃ after accepted chains',
      table.srInsert isYoung clock macaddr srRoute srSize memory = some (after, accepted) ∧
      Kept after chains' (if accepted then
        update recorded macaddr (some (routeBytes srRoute srSize)) else recorded) 0 := by
  unfold SrTable.srInsert
  obtain ⟨elem, member, isMac, found⟩ | ⟨absent, found⟩ := kept.srTabLookup macaddr
  · obtain ⟨number, rfl⟩ := Nat.exists_eq_succ_of_ne_zero (kept.ne_zero member)
    simp only [found]
    split
    · exact ⟨table, false, chains, rfl, kept⟩
    · obtain ⟨after, stores, keptAfter⟩ := kept.insertOld fits member
        (clock.getD (table.elems (number + 1)).srTime) srRoute
      rw [isMac] at keptAfter
      exact ⟨after, true, chains, by rw [stores]; rfl, keptAfter⟩
  · simp only [found]
    obtain ⟨slotless, -⟩ | ⟨elem, grown, taken, isSome, -, within, marked, keptGrown⟩ :=
      kept.srFindSlot memory
    · rw [slotless]
      exact ⟨table, false, chains, rfl, kept⟩
    · obtain ⟨linked, after, links, stores, keptAfter⟩ := keptGrown.insertNew fits isSome within
        marked (kept.missing macaddr absent) clock srRoute
      rw [taken]
      exact ⟨after, true, _, by simp only [links, bind_some, stores, map_some], keptAfter⟩

theorem srDelete (kept : Kept table chains recorded 0) (macaddr : Macaddr) :
    ∃ after chains', table.srDelete macaddr = some after ∧
      Kept after chains' (update recorded macaddr none) 0 := by
  unfold SrTable.srDelete
  obtain ⟨index, elem, prev, place, isMac, found, isPrev⟩ | ⟨absent, prev, found⟩ :=
    @deleteFrom_of_chain table _ _ macaddr (kept.chain (srHash macaddr)) _ 0 (kept.enough _)
  · have isSome := kept.ne_zero (mem_of_getElem? place)
    exact ⟨_, _, by rw [found]; simp only [if_neg isSome], kept.unlink place rfl isMac isPrev⟩
  · refine ⟨table, chains, by rw [found]; rfl, ?_⟩
    rwa [← kept.missing macaddr absent, update_eq_self]

end Kept

end SrTable

/-- A call; a clock asks for the age policy, and the flag says whether a page is found. -/
inductive SrTableAction where
  | insert (clock : Option Nat) (macaddr : Macaddr) (srRoute : ByteMemory) (srSize : Int)
      (memory : Bool)
  | delete (macaddr : Macaddr)

/-- What a call does, and whether it is accepted. -/
def SrTable.step (isYoung : Nat → Nat → Bool) (table : SrTable) :
    SrTableAction → Option (SrTable × Bool)
  | .insert clock macaddr srRoute srSize memory =>
    table.srInsert isYoung clock macaddr srRoute srSize memory
  | .delete macaddr => (table.srDelete macaddr).map fun after => (after, true)

/-- A step of the table; its label says whether the call was accepted. -/
def SrTableStep (isYoung : Nat → Nat → Bool) (before : SrTable) (label : SrTableAction × Bool)
    (after : SrTable) : Prop :=
  before.step isYoung label.1 = some (after, label.2)

/-- A route has from 0 to `MAX_ROUTE_SIZE` bytes. -/
def SizeFits : SrTableAction → Prop
  | .insert _ _ _ srSize _ => 0 ≤ srSize ∧ srSize ≤ maxRouteSize
  | .delete _ => True

/-- The routes by address behind a call. -/
def record (recorded : Macaddr → Option (List Byte)) :
    SrTableAction × Bool → Macaddr → Option (List Byte)
  | (.insert _ macaddr srRoute srSize _, true) =>
    update recorded macaddr (some (routeBytes srRoute srSize))
  | (.insert .., false) => recorded
  | (.delete macaddr, _) => update recorded macaddr none

/-- The route that was accepted last for an address since it was last deleted. -/
def lastAccepted (calls : List (SrTableAction × Bool)) : Macaddr → Option (List Byte) :=
  calls.foldl record fun _ => none

/-- The table is as it should be behind some calls. -/
structure TableWell (isYoung : Nat → Nat → Bool) (calls : List (SrTableAction × Bool))
    (table : SrTable) : Prop where
  /-- The chains end, and an address is on the chain of its hash only, and once. -/
  chains : ∃ chains : Fin maxTabSize → List Nat, (∀ slot, table.ChainOf slot (chains slot)) ∧
    (∀ slot, ∀ elem ∈ chains slot, srHash (table.elems elem).srMacaddr = slot ∧
      ∀ other ∈ chains slot, (table.elems other).srMacaddr = (table.elems elem).srMacaddr →
        other = elem) ∧
    ∀ elem, elem ≠ 0 → pageOf elem < table.pages →
      ((table.elems elem).srAvail ≠ 0 ↔ ∃ slot, elem ∈ chains slot)
  counts : ∀ page, page < table.pages → table.srNumAvail page = (table.unusedIn page).card
  srFindSlot : ∀ memory, ((table.srFindSlot memory).1 = 0 → memory = false) ∧
    ((table.srFindSlot memory).1 ≠ 0 → table.pages ≤ pageOf (table.srFindSlot memory).1 ∨
      (table.elems (table.srFindSlot memory).1).srAvail = 0)
  srTabLookup : ∀ macaddr, ∃ elem, table.srTabLookup macaddr = some elem ∧
    lastAccepted calls macaddr = if elem = 0 then none else some (table.elems elem).route
  /-- Every call returns. -/
  returns : ∀ action, SizeFits action → (table.step isYoung action).isSome

namespace SrTable

variable {table : SrTable} {chains : Fin maxTabSize → List Nat}
  {recorded : Macaddr → Option (List Byte)} {isYoung : Nat → Nat → Bool}

theorem Kept.step (kept : Kept table chains recorded 0) (action : SrTableAction)
    (fits : SizeFits action) : ∃ after accepted chains',
      table.step isYoung action = some (after, accepted) ∧
      Kept after chains' (record recorded (action, accepted)) 0 := by
  cases action with
  | insert clock macaddr srRoute srSize memory =>
    obtain ⟨after, accepted, chains', inserts, keptAfter⟩ :=
      kept.srInsert isYoung clock macaddr srRoute fits memory
    refine ⟨after, accepted, chains', inserts, ?_⟩
    cases accepted with
    | true | false => exact keptAfter
  | delete macaddr =>
    obtain ⟨after, chains', deletes, keptAfter⟩ := kept.srDelete macaddr
    exact ⟨after, true, chains', by rw [SrTable.step, deletes]; rfl, keptAfter⟩

theorem kept_srTabInit (garbage : Nat → SrElem) :
    Kept (srTabInit garbage) (fun _ => []) (fun _ => none) 0 := by
  have empty : Kept ⟨fun _ => 0, garbage, 0, fun _ => 0⟩ (fun _ => []) (fun _ => none) 0 := by
    refine ⟨fun slot => .stop (not_not_intro rfl), ?_, ?_, fun _ _ => rfl, ?_, ?_, ?_⟩ <;> simp
  exact empty.initSrMem

theorem Kept.well {calls : List (SrTableAction × Bool)}
    (kept : Kept table chains (lastAccepted calls) 0) : TableWell isYoung calls table where
  chains := by
    refine ⟨chains, kept.chain, fun slot elem member => ⟨(kept.listed slot elem member).hash,
      fun other onChain same => kept.unique slot other onChain elem member same⟩,
      fun elem some below => ⟨kept.inUse elem some some below, ?_⟩⟩
    rintro ⟨slot, member⟩
    exact (kept.listed slot elem member).marked
  counts := kept.counts
  srFindSlot memory := by
    obtain ⟨none, noMemory⟩ | ⟨elem, grown, taken, some, unused, -⟩ := kept.srFindSlot memory
    · rw [none]
      exact ⟨fun _ => noMemory, fun some => absurd rfl some⟩
    · rw [taken]
      exact ⟨fun none => absurd none some, fun _ => unused⟩
  srTabLookup macaddr := by
    obtain ⟨elem, member, isMac, found⟩ | ⟨absent, found⟩ := kept.srTabLookup macaddr
    · refine ⟨elem, found, ?_⟩
      rw [if_neg (kept.ne_zero member), ← isMac]
      exact (kept.listed _ elem member).route
    · exact ⟨0, found, kept.missing macaddr absent⟩
  returns action fits := by
    obtain ⟨after, accepted, chains', steps, -⟩ := kept.step action fits
    rw [steps]
    rfl

theorem kept_of_run {garbage : Nat → SrElem} {calls : List (SrTableAction × Bool)}
    {final : SrTable} (run : Run (Guarded (SrTableStep isYoung) fun _ label => SizeFits label.1)
      (srTabInit garbage) calls final) : ∃ chains, Kept final chains (lastAccepted calls) 0 := by
  induction run with
  | nil => exact ⟨_, kept_srTabInit garbage⟩
  | @snoc _ _ _ label _ last ih =>
    obtain ⟨chains, kept⟩ := ih
    obtain ⟨after, accepted, chains', steps, keptAfter⟩ := kept.step _ last.2
    have same := last.1
    rw [SrTableStep, steps, some_inj, Prod.mk.injEq] at same
    obtain ⟨rfl, isAccepted⟩ := same
    refine ⟨chains', ?_⟩
    have isLabel : (label.1, accepted) = label := Prod.ext rfl isAccepted
    rw [isLabel] at keptAfter
    rw [lastAccepted, foldl_append]
    exact keptAfter

end SrTable

/-- In every run whose routes have from 0 to 18 bytes the table stays as it should be. -/
theorem tableWell_of_run (isYoung : Nat → Nat → Bool) (garbage : Nat → SrElem)
    (calls : List (SrTableAction × Bool)) (final : SrTable)
    (run : Run (Guarded (SrTableStep isYoung) fun _ label => SizeFits label.1)
      (.srTabInit garbage) calls final) : TableWell isYoung calls final := by
  obtain ⟨chains, kept⟩ := SrTable.kept_of_run run
  exact kept.well

/-- A table whose first page held zeros. -/
def zeroTable : SrTable := .srTabInit fun _ => ⟨fun _ => 0, 0, fun _ => 0, 0, 0⟩

/-- An insertion by `sr_insert_latest`; the route may be followed by a zero. -/
def insertOne (srSize : Int) : SrTableAction :=
  .insert none (fun _ => 1) (fun i => if i < 19 then 2 else 0) srSize false

theorem insertOne_accepted (isYoung : Nat → Nat → Bool) (srSize : Int)
    (accepted : (zeroTable.step isYoung (insertOne srSize)).map Prod.snd = some true) :
    ∃ final, zeroTable.step isYoung (insertOne srSize) = some (final, true) := by
  obtain ⟨⟨final, flag⟩, steps, rfl⟩ := Option.map_eq_some_iff.1 accepted
  exact ⟨final, steps⟩

theorem tableWell_of_run_insertOne : ∃ final,
    zeroTable.step (fun _ _ => false) (insertOne 18) = some (final, true) ∧
      TableWell (fun _ _ => false) [(insertOne 18, true)] final := by
  obtain ⟨final, steps⟩ := insertOne_accepted (fun _ _ => false) 18 (by decide)
  exact ⟨final, steps, tableWell_of_run _ _ _ final (.single ⟨steps, by decide, by decide⟩)⟩

/-- A route of 20 bytes runs over `sr_avail`: an element in use counts as unused. -/
theorem tableWell_fails_overlong : ∃ final,
    zeroTable.step (fun _ _ => false) (insertOne 20) = some (final, true) ∧
      ¬ TableWell (fun _ _ => false) [(insertOne 20, true)] final := by
  obtain ⟨final, steps⟩ := insertOne_accepted (fun _ _ => false) 20 (by decide)
  refine ⟨final, steps, fun well => ?_⟩
  have counts : (zeroTable.step (fun _ _ => false) (insertOne 20)).map (fun after =>
      (after.1.srNumAvail 0, (after.1.unusedIn 0).card)) = some (24, 25) := by decide
  have pages : (zeroTable.step (fun _ _ => false) (insertOne 20)).map (fun after =>
      after.1.pages) = some 1 := by decide
  rw [steps, map_some, some_inj] at counts pages
  have right := well.counts 0 (pages ▸ Nat.one_pos)
  rw [(Prod.mk.inj counts).1, (Prod.mk.inj counts).2] at right
  cases right

end Uw7.Sr
