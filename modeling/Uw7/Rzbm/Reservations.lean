import Mathlib.Algebra.BigOperators.Group.Finset.Piecewise
import Mathlib.Algebra.Order.BigOperators.Group.Finset
import Uw7.Rzbm.Construction

namespace Uw7.Rzbm

/-!
# Reservations

`rzbm_resv` and `rzbm_unresv` from `mem/vm_rzbm.c`, used by any number of clients, each of
which allocates a page of 4K only while it holds more pages reserved than it has in use.
A reservation that would have to wait is not a step.
-/

open Lib Function List

/-- An unsigned value of 32 bits. -/
def uint (value : Int) : Int := value % 2 ^ 32

/-- `rzbm_resv` without `SLEEP`; there is no result where it returns 0. -/
def rzbmResv (zbmMaxfree zbmResv : Int) (npages : Nat) : Option Int :=
  if uint (zbmResv + npages) > uint zbmMaxfree then none
  else some (int (zbmResv + npages))

def rzbmUnresv (zbmResv : Int) (npages : Nat) : Int := int (zbmResv - npages)

section Clients

variable {Client : Type} [Fintype Client] [DecidableEq Client]

/--
The allocator with the pages that each client has reserved and the pages in use, each
with the client that allocated it.
-/
structure Reservations (Client : Type) where
  list : RzbmListMax
  zbmResv : Int
  given : List Extent
  reserved : Client → Nat
  held : List (Client × Nat)

/-- The number of pages that a client has in use. -/
def Reservations.outstanding (state : Reservations Client) (client : Client) : Nat :=
  state.held.countP fun page => page.1 = client

def pageExtent (page : Client × Nat) : Extent := ⟨page.2, 1⟩

/-- The allocator and its pages in use. -/
def Reservations.usage (state : Reservations Client) : Usage where
  list := state.list.toRzbmList
  held := state.held.map pageExtent
  given := state.given

inductive ResvAction (Client : Type) where
  | initialised (extent : Extent)
  | reserved (client : Client) (npages : Nat)
  | refused (client : Client) (npages : Nat)
  | unreserved (client : Client) (npages : Nat)
  | allocated (client : Client) (pf : Nat)
  | freed (client : Client) (pf : Nat)

/--
One operation.  The number of pages of the machine fits into the `int` that counts them.
-/
inductive ResvStep (cgNone : Int) (before : Reservations Client) :
    ResvAction Client → Reservations Client → Prop where
  | initialised {base npages : Nat} (cgnum : Int)
      (counted : before.list.zbmMaxfree + npages < 2 ^ 31) (fits : base + npages ≤ 2 ^ 32)
      (unused : ∀ extent ∈ before.given, extent.Apart ⟨base, npages⟩) :
      ResvStep cgNone before (.initialised ⟨base, npages⟩)
        { before with
          list := initChunkMax before.list base npages cgnum
          given := ⟨base, npages⟩ :: before.given }
  | reserved {client : Client} {npages : Nat} {zbmResv : Int} (isUint : npages < 2 ^ 32) (result :
      rzbmResv before.list.zbmMaxfree before.zbmResv npages = some zbmResv) :
      ResvStep cgNone before (.reserved client npages)
        { before with
          zbmResv
          reserved := update before.reserved client (before.reserved client + npages) }
  | refused {client : Client} {npages : Nat} (isUint : npages < 2 ^ 32) (result :
      rzbmResv before.list.zbmMaxfree before.zbmResv npages = none) :
      ResvStep cgNone before (.refused client npages) before
  | unreserved {client : Client} {npages : Nat} (owned : npages ≤ before.reserved client) :
      ResvStep cgNone before (.unreserved client npages)
        { before with
          zbmResv := rzbmUnresv before.zbmResv npages
          reserved := update before.reserved client (before.reserved client - npages) }
  | allocated {client : Client} {pf : Nat} {list : RzbmList} (cgnum : Int)
      (within : before.outstanding client < before.reserved client)
      (result : rzbmAlloc cgNone before.list.toRzbmList cgnum pagesize = some (pf, list)) :
      ResvStep cgNone before (.allocated client pf)
        { before with
          list := { before.list with toRzbmList := list }
          held := (client, pf) :: before.held }
  | freed {client : Client} {pf : Nat} (held : (client, pf) ∈ before.held) :
      ResvStep cgNone before (.freed client pf)
        { before with
          list :=
            { before.list with
              toRzbmList := rzbmFree before.list.toRzbmList pf pagesize }
          held := before.held.erase (client, pf) }

/-- Nothing is initialised, reserved or in use. -/
def noReservations : Reservations Client where
  list :=
    { toRzbmList := emptyUsage.list
      zbmMaxfree := 0 }
  zbmResv := 0
  given := []
  reserved := fun _ => 0
  held := []

/--
The reservations are covered by pages, and no client with a page left of its reservation
makes `rzbm_alloc` panic.
-/
structure ReservationsHold (cgNone : Int) (state : Reservations Client) : Prop where
  covered : ((∑ client, state.reserved client : Nat) : Int) ≤ state.list.zbmMaxfree
  noPanic : ∀ client cgnum, state.outstanding client < state.reserved client →
      rzbmAlloc cgNone state.list.toRzbmList cgnum pagesize ≠ none

/--
The sum of `rzbm_resv` does not wrap, and a client does not give up the reservation of a
page that it has in use.
-/
def ResvSound (before : Reservations Client) : ResvAction Client → Prop
  | .reserved _ npages => before.zbmResv + npages < 2 ^ 32
  | .unreserved client npages => before.outstanding client + npages ≤ before.reserved client
  | _ => True

/-- What the operations keep. -/
structure ResvWell (state : Reservations Client) : Prop where
  formed : WellFormed state.usage
  /-- Every page is free or in use. -/
  pages : ∃ free : Finset Nat, (∀ pf, pf ∈ free ↔ FreePage state.list.toRzbmList pf) ∧
      ((free.card + state.held.length : Nat) : Int) = state.list.zbmMaxfree
  counted : state.list.zbmMaxfree < 2 ^ 31
  sum : state.zbmResv = ((∑ client, state.reserved client : Nat) : Int)
  covered : state.zbmResv ≤ state.list.zbmMaxfree
  within : ∀ client, state.outstanding client ≤ state.reserved client

theorem sum_outstanding (held : List (Client × Nat)) :
    (∑ client, held.countP fun page => page.1 = client) = held.length := by
  induction held with
  | nil => simp
  | cons page rest ih =>
    simp only [countP_cons, Finset.sum_add_distrib, ih, length_cons, decide_eq_true_eq,
      Finset.sum_ite_eq, Finset.mem_univ, if_true]

theorem sum_update (reserved : Client → Nat) (client : Client) (npages : Nat) :
    (∑ other, update reserved client npages other) + reserved client =
      (∑ other, reserved other) + npages := by
  rw [← Finset.add_sum_erase Finset.univ (update reserved client npages) (Finset.mem_univ client),
    ← Finset.add_sum_erase Finset.univ reserved (Finset.mem_univ client), update_self]
  have rest : (∑ other ∈ Finset.univ.erase client, update reserved client npages other) =
      ∑ other ∈ Finset.univ.erase client, reserved other := by
    refine Finset.sum_congr rfl fun other member => ?_
    exact update_of_ne (Finset.ne_of_mem_erase member) npages reserved
  omega

theorem WellFormed.perm {usage : Usage} (formed : WellFormed usage) {held : List Extent}
    (same : usage.held.Perm held) : WellFormed { usage with held } where
  __ := formed
  held := fun extent member => formed.held extent (same.mem_iff.2 member)
  apart := same.pairwise formed.apart Extent.Apart.symm

omit [Fintype Client] in
theorem pageExtent_erase {held : List (Client × Nat)} {page : Client × Nat} (member : page ∈ held) :
    ((held.map pageExtent).erase (pageExtent page)).Perm ((held.erase page).map pageExtent) := by
  have parted := ((perm_cons_erase member).map pageExtent).erase (pageExtent page)
  rw [map_cons, erase_cons_head] at parted
  exact parted

variable {state : Reservations Client} {client : Client} {npages : Nat}

theorem ResvWell.noPanic {cgNone : Int} (well : ResvWell state)
    (within : state.outstanding client < state.reserved client) (cgnum : Int) :
    rzbmAlloc cgNone state.list.toRzbmList cgnum pagesize ≠ none := by
  intro refused
  obtain ⟨free, areFree, count⟩ := well.pages
  have noneFree : free = ∅ := by
    refine Finset.eq_empty_of_forall_notMem fun pf member => ?_
    exact well.formed.chunks.alloc_none refused pf ((areFree pf).1 member)
  have more : (∑ other, state.outstanding other) < ∑ other, state.reserved other :=
    Finset.sum_lt_sum (fun other _ => well.within other) ⟨client, Finset.mem_univ client, within⟩
  have all : (∑ other, state.outstanding other) = state.held.length := sum_outstanding state.held
  have sum := well.sum
  have covered := well.covered
  rw [noneFree, Finset.card_empty, Nat.zero_add] at count
  omega

theorem ResvWell.hold {cgNone : Int} (well : ResvWell state) : ReservationsHold cgNone state where
  covered := well.sum ▸ well.covered
  noPanic := fun _ cgnum within => well.noPanic within cgnum

variable {cgNone : Int} {before after : Reservations Client}

theorem ResvWell.initialised {base : Nat} (well : ResvWell before)
    (counted : before.list.zbmMaxfree + npages < 2 ^ 31) (fits : base + npages ≤ 2 ^ 32)
    (unused : ∀ extent ∈ before.given, extent.Apart ⟨base, npages⟩) (cgnum : Int) : ResvWell
      { before with
        list := initChunkMax before.list base npages cgnum
        given := ⟨base, npages⟩ :: before.given } := by
  obtain ⟨free, areFree, count⟩ := well.pages
  have natural : 0 ≤ before.list.zbmMaxfree := by omega
  have maxfree := @initChunkMax_maxfree before.list base npages cgnum natural counted
  have isList := initChunkMax_list before.list base npages cgnum
  obtain ⟨fresh, nowFree⟩ := WellFormed.initChunk_freePage well.formed fits unused cgnum
  have formed := well.formed.initChunk fits unused cgnum
  refine
    { well with
      formed := ?_
      pages := ⟨free ∪ Finset.Ico base (base + npages), ?_, ?_⟩
      counted := by rw [maxfree]; exact counted
      covered := by
        have covered := well.covered
        simp only [maxfree]
        omega }
  · simp only [Reservations.usage, isList]
    exact formed
  · intro pf
    simp only [isList]
    rw [Finset.mem_union, areFree, Finset.mem_Ico]
    exact (nowFree pf).symm
  · have apart : Disjoint free (Finset.Ico base (base + npages)) := by
      refine Finset.disjoint_left.2 fun pf isFree isPage => ?_
      exact fresh pf (Finset.mem_Ico.1 isPage) ((areFree pf).1 isFree)
    rw [Finset.card_union_of_disjoint apart, Nat.card_Ico]
    simp only [maxfree]
    omega

theorem ResvWell.reserved {zbmResv : Int} (well : ResvWell before)
    (result : rzbmResv before.list.zbmMaxfree before.zbmResv npages = some zbmResv)
    (noWrap : before.zbmResv + npages < 2 ^ 32) : ResvWell
      { before with
        zbmResv
        reserved := update before.reserved client (before.reserved client + npages) } := by
  have sum := well.sum
  have covered := well.covered
  have counted := well.counted
  have sums := sum_update before.reserved client (before.reserved client + npages)
  have accepted : before.zbmResv + npages ≤ before.list.zbmMaxfree ∧
      zbmResv = before.zbmResv + npages := by
    unfold rzbmResv at result
    split at result
    · cases result
    · rename_i fits
      obtain rfl := Option.some.inj result
      simp only [uint, int] at fits ⊢
      omega
  refine
    { well with
      counted := counted
      sum := ?_
      covered := ?_
      within := fun other => ?_ }
  · simp only
    omega
  · simp only
    omega
  · have within := well.within other
    change before.outstanding other ≤ update before.reserved client _ other
    by_cases isClient : other = client
    · subst other
      rw [update_self]
      omega
    · rw [update_of_ne isClient]
      exact within

theorem ResvWell.unreserved (well : ResvWell before)
    (keeps : before.outstanding client + npages ≤ before.reserved client) : ResvWell
      { before with
        zbmResv := rzbmUnresv before.zbmResv npages
        reserved := update before.reserved client (before.reserved client - npages) } := by
  have sum := well.sum
  have covered := well.covered
  have counted := well.counted
  have sums := sum_update before.reserved client (before.reserved client - npages)
  have less : rzbmUnresv before.zbmResv npages = before.zbmResv - npages := by
    simp only [rzbmUnresv, int]
    omega
  refine
    { well with
      counted := counted
      sum := ?_
      covered := ?_
      within := fun other => ?_ }
  · simp only [less]
    omega
  · simp only [less]
    omega
  · have within := well.within other
    change before.outstanding other ≤ update before.reserved client _ other
    by_cases isClient : other = client
    · subst other
      rw [update_self]
      omega
    · rw [update_of_ne isClient]
      exact within

theorem ResvWell.allocated {client : Client} {pf : Nat} {list : RzbmList} {cgnum : Int}
    (well : ResvWell before) (within : before.outstanding client < before.reserved client)
    (result : rzbmAlloc cgNone before.list.toRzbmList cgnum pagesize = some (pf, list)) : ResvWell
      { before with
        list := { before.list with toRzbmList := list }
        held := (client, pf) :: before.held } := by
  obtain ⟨free, areFree, count⟩ := well.pages
  obtain ⟨z, found, zbmp, taken⟩ := well.formed.chunks.allocPage result
  obtain ⟨_, isFree, nowFree⟩ := taken.spec well.formed.chunks
  have member := (areFree pf).2 isFree
  refine
    { well with
      formed := well.formed.alloc (.inl rfl) result
      pages := ⟨free.erase pf, ?_, ?_⟩
      within := fun other => ?_ }
  · intro other
    rw [Finset.mem_erase, areFree, nowFree]
    exact and_comm
  · have some' := Finset.card_pos.2 ⟨pf, member⟩
    rw [Finset.card_erase_of_mem member]
    simp only [length_cons]
    omega
  · have others := well.within other
    simp only [Reservations.outstanding, countP_cons, decide_eq_true_eq] at others within ⊢
    split
    · subst client
      omega
    · exact others

theorem ResvWell.freed {client : Client} {pf : Nat} (well : ResvWell before)
    (held : (client, pf) ∈ before.held) : ResvWell
      { before with
        list :=
          { before.list with
            toRzbmList := rzbmFree before.list.toRzbmList pf pagesize }
        held := before.held.erase (client, pf) } := by
  obtain ⟨free, areFree, count⟩ := well.pages
  have member : (⟨pf, 1⟩ : Extent) ∈ before.usage.held := mem_map.2 ⟨(client, pf), held, rfl⟩
  obtain ⟨z, found, zbmp, freed⟩ := well.formed.freePage member
  obtain ⟨notFree, nowFree⟩ := freed.spec well.formed.chunks
  have formed := (well.formed.free member).perm (pageExtent_erase held)
  rw [Nat.one_mul] at formed
  refine
    { well with
      formed := formed
      pages := ⟨insert pf free, ?_, ?_⟩
      within := fun other => ?_ }
  · intro other
    rw [Finset.mem_insert, areFree, or_comm]
    exact (nowFree other).symm
  · have isNew : pf ∉ free := fun isFree => notFree ((areFree pf).1 isFree)
    have length := length_erase_of_mem held
    have some' := length_pos_of_mem held
    rw [Finset.card_insert_of_notMem isNew]
    simp only [length]
    omega
  · exact (erase_sublist.countP_le).trans (well.within other)

theorem ResvStep.well {action : ResvAction Client} (well : ResvWell before)
    (taken : ResvStep cgNone before action after) (sound : ResvSound before action) :
    ResvWell after := by
  cases taken with
  | initialised cgnum counted fits unused => exact well.initialised counted fits unused cgnum
  | reserved _ result => exact well.reserved result sound
  | refused _ _ => exact well
  | unreserved _ => exact well.unreserved sound
  | allocated _ within result => exact well.allocated within result
  | freed held => exact well.freed held

theorem noReservations_well : ResvWell (noReservations : Reservations Client) where
  formed := emptyUsage_wellFormed
  pages := by
    refine ⟨∅, fun pf => ⟨fun member => ?_, ?_⟩, rfl⟩
    · exact absurd member (Finset.notMem_empty pf)
    · rintro ⟨z, isChunk, _⟩
      exact absurd isChunk (Nat.not_lt_zero z)
  counted := show (0 : Int) < 2 ^ 31 by decide
  sum := by simp [noReservations]
  covered := le_rfl
  within := fun _ => le_rfl

/--
**Reservations guarantee allocations**: in every run in which no reservation wraps and no
client gives up the reservation of a page in use, the reservations are covered by pages
and no reserved page is refused.
-/
theorem reservations_of_run (final : Reservations Client) (actions : List (ResvAction Client))
    (run : Run (Guarded (ResvStep cgNone) ResvSound) noReservations actions final) :
    ReservationsHold cgNone final := by
  have well : ResvWell final := run.invariant (fun _ _ _ well taken => taken.1.well well taken.2)
      noReservations_well
  exact well.hold

end Clients

/-- The allocator with a chunk of 40 pages and one client. -/
def fortyPages : Reservations Unit where
  list := initChunkMax (noReservations : Reservations Unit).list 256 40 0
  zbmResv := 0
  given := [⟨256, 40⟩]
  reserved := fun _ => 0
  held := []

theorem fortyPages_step : ResvStep (-1) noReservations
    (.initialised ⟨256, 40⟩ : ResvAction Unit) fortyPages :=
  .initialised 0 (by decide) (by decide) (by simp [noReservations])

def Reservations.grant (state : Reservations Unit) (zbmResv : Int)
    (npages : Nat) : Reservations Unit :=
  { state with
    zbmResv
    reserved := update state.reserved () (state.reserved () + npages) }

theorem resv_wraps : ∃ (final : Reservations Unit) (actions : List (ResvAction Unit)),
    Run (ResvStep (-1)) noReservations actions final ∧ ¬ ReservationsHold (-1) final := by
  have all : ResvStep (-1) fortyPages (.reserved () 40) (fortyPages.grant 40 40) :=
    .reserved (by decide) (by decide +kernel)
  have more : ResvStep (-1) (fortyPages.grant 40 40) (.reserved () (2 ^ 32 - 1))
      ((fortyPages.grant 40 40).grant 39 (2 ^ 32 - 1)) :=
    .reserved (by decide) (by decide +kernel)
  refine ⟨_, _, .snoc (.snoc (.single fortyPages_step) all) more, fun hold => ?_⟩
  have covered := hold.covered
  revert covered
  decide +kernel

theorem reservations_of_run_one : ∃ final : Reservations Unit,
    final.held = [((), 256)] ∧ ReservationsHold (-1) final := by
  have granted : ResvStep (-1) fortyPages (.reserved () 1) (fortyPages.grant 1 1) :=
    .reserved (by decide) (by decide +kernel)
  have allocated : (rzbmAlloc (-1) fortyPages.list.toRzbmList 0 pagesize).map Prod.fst =
      some 256 := by
    decide +kernel
  obtain ⟨⟨pf, list⟩, result, rfl⟩ := Option.map_eq_some_iff.mp allocated
  have noWrap : ResvSound fortyPages (.reserved () 1) := by
    change fortyPages.zbmResv + 1 < 2 ^ 32
    decide
  refine ⟨_, rfl, reservations_of_run _ _ (.snoc
    (.snoc (.single ⟨fortyPages_step, trivial⟩) ⟨granted, noWrap⟩)
    ⟨@ResvStep.allocated Unit _ (-1) (fortyPages.grant 1 1) () _ _ 0 (by decide) result, trivial⟩)⟩

end Uw7.Rzbm
