import Uw7.Rzbm.AuditRuns

namespace Uw7.Rzbm

/-!
# The free pages of the allocator

A page is free when its bit is clear in the chunk it belongs to.  `rzbm_alloc`
takes a free page as long as there is one.
-/

open Lib List Option Finset

variable {list list' : RzbmList} {zbmp : RzbmT} {cgNone : Int}

/-- A page of a chunk whose bit is clear. -/
def FreePage (list : RzbmList) (pf : Nat) : Prop := ∃ z, z < list.zbmNchunk ∧
    ∃ i, i < (list.chunks z).zbmSize ∧
      bitAt (list.chunks z) i = false ∧ pf = (list.chunks z).zbmBase + i

theorem ChunksWell.seekHome_none (well : ChunksWell list) {cgnum : Int} {accept : RzbmT → Bool}
    (failed : seekHome cgNone list cgnum accept = none) {z : Nat} (isChunk : z < list.zbmNchunk) :
    accept (list.chunks z) = false := by
  rw [seekHome] at failed
  cases first : seekChunk list fun zbmp =>
    (zbmp.zbmHome == cgnum || cgnum == cgNone) && accept zbmp with
  | some other =>
    rw [first] at failed
    cases failed
  | none =>
    rw [first] at failed
    by_cases anyGroup : cgnum = cgNone
    · have missed := well.seekChunk_none first isChunk
      rw [anyGroup, beq_self_eq_true, Bool.or_true, Bool.true_and] at missed
      exact missed
    · rw [if_pos anyGroup] at failed
      exact well.seekChunk_none failed isChunk

theorem Audit.full {pool psepool : List Nat} (audit : Audit zbmp pool psepool)
    (noCell : (zbmp.zbmPool.isSome || zbmp.zbmPsepool.isSome) = false) {i : Nat}
    (inside : i < zbmp.zbmSize) : bitAt zbmp i = true := by
  obtain ⟨noPool, noPsepool⟩ := Bool.or_eq_false_iff.1 noCell
  rw [audit.onPool.head, isSome_eq_false_iff, isNone_iff_eq_none, List.head?_eq_none_iff] at noPool
  rw [audit.onPsepool.head, isSome_eq_false_iff,
    isNone_iff_eq_none, List.head?_eq_none_iff] at noPsepool
  have isCell := audit.cells.shape.div_lt inside
  have listed := audit.listed (i / zbmp.zbmCellsize)
  have notWhole : nfrees zbmp.zbmCell (i / zbmp.zbmCellsize) ≠ pseNpages := by
    intro whole
    have member := listed.psepool.2 ⟨isCell, whole⟩
    rw [noPsepool] at member
    cases member
  have none' : nfrees zbmp.zbmCell (i / zbmp.zbmCellsize) = 0 := by
    by_contra some'
    have member := listed.pool.2 ⟨isCell, Nat.pos_of_ne_zero some', notWhole⟩
    rw [noPool] at member
    cases member
  exact (audit.cells.cells _ isCell).nfree_eq_zero_iff.1 none' i
    ((mem_cellBits_iff audit.cells.shape).2 rfl)

theorem ChunksWell.alloc_none (well : ChunksWell list) {cgnum : Int}
    (refused : rzbmAlloc cgNone list cgnum pagesize = none) (pf : Nat) : ¬FreePage list pf := by
  rintro ⟨z, isChunk, i, inside, clear, rfl⟩
  have failed : seekHome cgNone list cgnum
      (fun zbmp => zbmp.zbmPool.isSome || zbmp.zbmPsepool.isSome) =
      none := by
    rw [rzbmAlloc, if_neg (by decide)] at refused
    cases sought : seekHome cgNone list cgnum fun zbmp =>
      zbmp.zbmPool.isSome || zbmp.zbmPsepool.isSome with
    | none => rfl
    | some z' =>
      obtain ⟨isChunk', accepted⟩ := well.seekHome_some sought
      obtain ⟨pool, psepool, audit⟩ := well.audited z' isChunk'
      obtain ⟨c, head, _⟩ := audit.allocPage accepted
      rw [sought] at refused
      simp only [head] at refused
      cases refused
  obtain ⟨pool, psepool, audit⟩ := well.audited z isChunk
  rw [audit.full (well.seekHome_none failed isChunk) inside] at clear
  cases clear

theorem ChunksWell.chunk_unique (well : ChunksWell list) {z z' i i' : Nat}
    (isChunk : z < list.zbmNchunk) (isChunk' : z' < list.zbmNchunk)
    (inside : i < (list.chunks z).zbmSize) (inside' : i' < (list.chunks z').zbmSize)
    (same : (list.chunks z).zbmBase + i = (list.chunks z').zbmBase + i') : z = z' ∧ i = i' := by
  have sameChunk : z = z' := by
    by_contra different
    have apart := well.apart z isChunk z' isChunk' different
    simp only [Extent.Apart, extentOf] at apart
    omega
  subst sameChunk
  exact ⟨rfl, by omega⟩

/-- **An allocation** takes a free page, and no other. -/
theorem PageTaken.spec {pf z found : Nat} (well : ChunksWell list)
    (taken : PageTaken list list' pf z found zbmp) : ChunksWell list' ∧ FreePage list pf ∧
      ∀ other, FreePage list' other ↔ FreePage list other ∧ other ≠ pf := by
  obtain ⟨isChunk, inside, clear, rfl, rfl, same, bits, audited⟩ := taken
  refine ⟨well.setChunk same audited, ⟨z, isChunk, found, inside, clear, rfl⟩,
    fun other => ⟨?_, ?_⟩⟩
  · rintro ⟨z', isChunk', i, inside', clear', rfl⟩
    rw [setChunk_chunks] at inside' clear' ⊢
    by_cases changed : z' = z
    · subst changed
      rw [if_pos rfl] at inside' clear' ⊢
      rw [bits, Bool.or_eq_false_iff, decide_eq_false_iff_not] at clear'
      rw [same.size] at inside'
      rw [same.base]
      refine ⟨⟨z', isChunk', i, inside', clear'.1, rfl⟩, ?_⟩
      omega
    · rw [if_neg changed] at inside' clear' ⊢
      refine ⟨⟨z', isChunk', i, inside', clear', rfl⟩, fun samePage => ?_⟩
      exact changed (well.chunk_unique isChunk' isChunk inside' inside samePage).1
  · rintro ⟨⟨z', isChunk', i, inside', clear', rfl⟩, different⟩
    refine ⟨z', isChunk', i, ?_⟩
    rw [setChunk_chunks]
    by_cases changed : z' = z
    · subst changed
      have notFound : i ≠ found := by
        rintro rfl
        exact different rfl
      rw [if_pos rfl, bits, clear', Bool.false_or, decide_eq_false notFound, same.base, same.size]
      exact ⟨inside', rfl, rfl⟩
    · rw [if_neg changed]
      exact ⟨inside', clear', rfl⟩

/-- **A release** makes the page free again, and no other. -/
theorem PageFreed.spec {pf z found : Nat} (well : ChunksWell list)
    (freed : PageFreed list list' pf z found zbmp) :
    ¬FreePage list pf ∧ ∀ other, FreePage list' other ↔ FreePage list other ∨ other = pf := by
  obtain ⟨isChunk, inside, taken, rfl, rfl, same, bits, _⟩ := freed
  refine ⟨?_, fun other => ⟨?_, ?_⟩⟩
  · rintro ⟨z', isChunk', i, inside', clear', samePage⟩
    obtain ⟨rfl, rfl⟩ := well.chunk_unique isChunk isChunk' inside inside' samePage
    exact Bool.false_ne_true (clear'.symm.trans taken)
  · rintro ⟨z', isChunk', i, inside', clear', rfl⟩
    rw [setChunk_chunks] at inside' clear' ⊢
    by_cases changed : z' = z
    · subst changed
      rw [if_pos rfl] at inside' clear' ⊢
      rw [bits, Bool.and_eq_false_iff, decide_eq_false_iff_not, not_not] at clear'
      rw [same.size] at inside'
      rw [same.base]
      rcases clear' with clear | rfl
      · exact .inl ⟨z', isChunk', i, inside', clear, rfl⟩
      · exact .inr rfl
    · rw [if_neg changed] at inside' clear' ⊢
      exact .inl ⟨z', isChunk', i, inside', clear', rfl⟩
  · rintro (⟨z', isChunk', i, inside', clear', rfl⟩ | rfl)
    · refine ⟨z', isChunk', i, ?_⟩
      rw [setChunk_chunks]
      by_cases changed : z' = z
      · subst changed
        rw [if_pos rfl, bits, clear', Bool.false_and, same.base, same.size]
        exact ⟨inside', rfl, rfl⟩
      · rw [if_neg changed]
        exact ⟨inside', clear', rfl⟩
    · refine ⟨z, isChunk, found, ?_⟩
      rw [setChunk_chunks, if_pos rfl, bits, same.base, same.size]
      refine ⟨inside, ?_, rfl⟩
      rw [decide_eq_false (not_not_intro rfl), Bool.and_false]

def allocPages (cgNone : Int) : List Int → RzbmList → Option (List Nat × RzbmList)
  | [], list => some ([], list)
  | cgnum :: cgnums, list =>
    (rzbmAlloc cgNone list cgnum pagesize).bind fun first =>
      (allocPages cgNone cgnums first.2).map fun rest =>
        (first.1 :: rest.1, rest.2)

/-- **Repeated allocations** hand out free pages, none of them twice, and are
refused only when there are not enough. -/
theorem allocPages_spec (well : ChunksWell list) {pages : Finset Nat}
    (arePages : ∀ pf, pf ∈ pages ↔ FreePage list pf) (cgnums : List Int) :
    (cgnums.length ≤ pages.card → ∃ pfs list', allocPages cgNone cgnums list = some (pfs, list') ∧
      pfs.length = cgnums.length ∧ pfs.Nodup ∧ ∀ pf ∈ pfs, pf ∈ pages) ∧
    (pages.card < cgnums.length → allocPages cgNone cgnums list = none) := by
  induction cgnums generalizing list pages with
  | nil =>
    refine ⟨fun _ => ⟨[], list, rfl, rfl, nodup_nil, ?_⟩, ?_⟩
    · intro pf member
      cases member
    · intro impossible
      exact absurd impossible (Nat.not_lt_zero _)
  | cons cgnum cgnums ih =>
    unfold allocPages
    cases result : rzbmAlloc cgNone list cgnum pagesize with
    | none =>
      have noPage : pages = ∅ := by
        refine eq_empty_of_forall_notMem fun pf member => ?_
        exact well.alloc_none result pf ((arePages pf).1 member)
      refine ⟨fun enough => ?_, fun _ => rfl⟩
      rw [noPage, card_empty, length_cons] at enough
      omega
    | some first =>
      obtain ⟨pf, next⟩ := first
      obtain ⟨z, found, zbmp, taken⟩ := well.allocPage result
      obtain ⟨nextWell, isFree, nextFree⟩ := taken.spec well
      have member := (arePages pf).2 isFree
      have areNext : ∀ other, other ∈ pages.erase pf ↔ FreePage next other := by
        intro other
        rw [mem_erase, nextFree, arePages]
        exact and_comm
      obtain ⟨enough, few⟩ := ih nextWell areNext
      rw [card_erase_of_mem member] at enough few
      have some' := card_pos.2 ⟨pf, member⟩
      rw [length_cons]
      constructor
      · intro within
        obtain ⟨pfs, list', eq, length, nodup, inPages⟩ := enough (by omega)
        refine ⟨pf :: pfs, list', ?_, congrArg Nat.succ length,
          nodup_cons.2 ⟨fun again => ?_, nodup⟩, ?_⟩
        · rw [bind_some, eq]
          rfl
        · exact notMem_erase pf pages (inPages pf again)
        · intro other isOne
          rcases mem_cons.1 isOne with rfl | isOne
          · exact member
          · exact mem_of_mem_erase (inPages other isOne)
      · intro beyond
        rw [bind_some, few (by omega)]
        rfl

theorem ChunksWell.freePages (well : ChunksWell list) :
    ∃ pages : Finset Nat, ∀ pf, pf ∈ pages ↔ FreePage list pf := by
  classical
  refine ⟨(Finset.range (2 ^ 32)).filter (FreePage list), fun pf => ?_⟩
  rw [Finset.mem_filter, Finset.mem_range]
  refine and_iff_right_of_imp ?_
  rintro ⟨z, isChunk, i, inside, _, rfl⟩
  obtain ⟨pool, psepool, audit⟩ := well.audited z isChunk
  have fits := audit.cells.shape.fits
  omega

/-- In every run a page is refused only when none is free, and a page that is freed as soon as it
was allocated leaves the same pages free. -/
theorem allocFree_of_run {usage : Usage} {actions : List Action}
    (run : Run (Step cgNone) emptyUsage actions usage) (cgnum : Int) :
    (rzbmAlloc cgNone usage.list cgnum pagesize = none ↔ ∀ pf, ¬FreePage usage.list pf) ∧
      ∀ pf list, rzbmAlloc cgNone usage.list cgnum pagesize = some (pf, list) →
        ∀ page, FreePage (rzbmFree list pf pagesize) page ↔ FreePage usage.list page := by
  have formed : WellFormed usage :=
    run.invariant (fun _ _ _ formed taken => taken.wellFormed formed) emptyUsage_wellFormed
  refine ⟨⟨formed.chunks.alloc_none, fun noPage => ?_⟩, fun pf list result page => ?_⟩
  · by_contra notNone
    obtain ⟨⟨pf, list⟩, result⟩ := ne_none_iff_exists'.1 notNone
    obtain ⟨z, found, zbmp, taken⟩ := formed.chunks.allocPage result
    exact noPage pf (taken.spec formed.chunks).2.1
  · obtain ⟨z, found, zbmp, taken⟩ := formed.chunks.allocPage result
    obtain ⟨well, wasFree, nowFree⟩ := taken.spec formed.chunks
    obtain ⟨_, _, _, freed⟩ := (formed.alloc (.inl rfl) result).freePage mem_cons_self
    rw [(freed.spec well).2, nowFree]
    by_cases isPage : page = pf
    · simp [isPage, wasFree]
    · simp [isPage]

theorem allocFree_of_run_first :
    rzbmAlloc (-1) (rzbmInitChunk emptyUsage.list 256 40 0) 0 pagesize = none ↔
      ∀ pf, ¬FreePage (rzbmInitChunk emptyUsage.list 256 40 0) pf :=
  have run : Run (Step (-1)) emptyUsage [.initialised ⟨256, 40⟩] _ :=
    .single (.initialised 0 (by decide) (by decide) (by simp [emptyUsage]))
  (allocFree_of_run run 0).1

end Uw7.Rzbm
