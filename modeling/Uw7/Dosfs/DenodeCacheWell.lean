import Uw7.Dosfs.DenodeCacheRuns

namespace Uw7.Dosfs.DenodeCache

/-!
# The lists and the keys of the cache of denodes

What is promised of the cache in every state, and where it fails.
-/

open Lib List

variable {ndenode : Nat} {vfsDev : Nat → Nat} {s : CacheState ndenode}

theorem linked_newFreeList (positive : 0 < ndenode) (left index : Nat) (below : index < ndenode)
    (all : index + left + 1 = ndenode) :
    Ring.Linked (newFreeList positive).next (newFreeList positive).previous (some ⟨index, below⟩)
      (((finRange ndenode).drop (index + 1)).map some) none := by
  induction left generalizing index with
  | zero =>
    have isLast : index = ndenode - 1 := by omega
    have noneLeft : (finRange ndenode).drop (index + 1) = [] := by
      rw [drop_eq_nil_iff, length_finRange]
      omega
    rw [noneLeft]
    refine ⟨?_, ?_⟩
    · have noNext : ¬ index + 1 < ndenode := by omega
      simp [newFreeList, noNext]
    · simp [newFreeList, isLast]
  | succ left ih =>
    have nextBelow : index + 1 < ndenode := by omega
    have isNext : (finRange ndenode).drop (index + 1) = ⟨index + 1, nextBelow⟩ ::
        (finRange ndenode).drop (index + 1 + 1) := by
      rw [drop_eq_getElem_cons (by simpa using nextBelow), getElem_finRange]
      rfl
    rw [isNext]
    refine ⟨?_, ?_, ih (index + 1) nextBelow (by omega)⟩
    · simp [newFreeList, nextBelow]
    · simp [newFreeList]

theorem isFreeList_newFreeList (positive : 0 < ndenode) :
    IsFreeList (newFreeList positive) (finRange ndenode) := by
  have isFirst : finRange ndenode = ⟨0, positive⟩ :: (finRange ndenode).drop 1 := by
    have unfolded := drop_eq_getElem_cons (by simpa using positive : 0 < (finRange ndenode).length)
    rw [getElem_finRange] at unfolded
    exact unfolded
  refine ⟨?_, ?_⟩
  · refine nodup_cons.mpr ⟨by simp, ?_⟩
    exact (nodup_finRange ndenode).map fun _ _ same => by
      cases same
      rfl
  · rw [isFirst]
    exact ⟨rfl, rfl, linked_newFreeList positive (ndenode - 1) 0 positive (by omega)⟩

theorem cacheFine_dosfsDoinit (vfsDev : Nat → Nat) (positive : 0 < ndenode) :
    CacheFine vfsDev (dosfsDoinit positive) (finRange ndenode) fun _ => [] := by
  refine ⟨rfl, isFreeList_newFreeList positive, ⟨?_, ?_, ?_⟩, fun dp => ?_, fun _ => trivial⟩
  · exact fun deh => ⟨nodup_singleton _, rfl, rfl⟩
  · exact fun _ _ _ member => by cases member
  · exact fun _ _ => ⟨rfl, rfl⟩
  · have isFree : dp ∈ finRange ndenode := mem_finRange dp
    constructor
    case hashed => exact fun notFree => absurd isFree notFree
    case fitsFiller => exact fun _ _ _ member => by cases member
    case fits => exact fun _ member => by cases member
    case counted => exact ⟨0, Tally.none fun _ => id, rfl⟩
    case freeCount => exact fun _ => rfl
    case freeWaiters => exact fun _ => rfl
    case freeLock => exact fun _ _ isOwner => by cases isOwner
    case unflagged => exact fun _ => isFree
    case flagged => exact fun _ isFlagged => by cases isFlagged
    case waits => exact fun _ waits => by cases waits
    case owns => exact fun _ owns => by cases owns
    case writes => exact fun _ isWriting => by cases isWriting
    case drains => exact fun _ isDraining => by cases isDraining
    case fills => exact fun _ _ isFilling => by cases isFilling
    case device => exact fun _ member => by cases member
    case asked => exact fun _ _ isAsked => by cases isAsked
    case askedFiller => exact fun _ _ _ _ isAsked => by cases isAsked

/-- An LWP is about to lock the table. -/
def CacheLwp.Locks : CacheLwp ndenode → Prop
  | .loop _ | .reinserting _ | .inactive _ .draining _ => True
  | _ => False

/-- Nobody is between the assignment of a key and of a chain to a denode. -/
def Settled (s : CacheState ndenode) (dp : Fin ndenode) : Prop :=
  ∀ l, (∀ frame, s.lwp l ≠ .filling frame dp) ∧ s.lwp l ≠ .reinserting dp

/-- The lists, the keys and the table mutex are as documented. -/
structure DenodeWell (vfsDev : Nat → Nat) (s : CacheState ndenode) : Prop where
  /-- A denode is on the free list once at most, and not while it is in use. -/
  free : ∃ free, IsFreeList s.free free ∧ free.Nodup ∧ ∀ dp, 0 < (s.denode dp).vCount → dp ∉ free
  /--
  A denode in use is on one hash chain, once; a denode is on the chain for its
  key, and for the key it is filled in with while `deget` does that.
  -/
  hashed : ∃ chain, IsHashed s.hash chain ∧ (∀ deh, (chain deh).Nodup) ∧
      (∀ dp, 0 < (s.denode dp).vCount → ∃ deh, ∀ other, dp ∈ chain other ↔ other = deh) ∧
      (∀ dp deh, dp ∈ chain deh → Settled s dp → deh = (s.denode dp).deh) ∧
      ∀ dp deh l frame, dp ∈ chain deh → s.lwp l = .filling frame dp →
        deh = frame.request.deh vfsDev
  /-- `deget` returns a denode with the key that was asked for. -/
  requested : ∀ l request dp, s.lwp l = .done request (.found dp) →
      (s.denode dp).hasKey vfsDev request = true
  /-- No LWP locks the table while it has it locked. -/
  unlocked : ∀ l, (s.lwp l).Locks → s.tableMutex ≠ some l

theorem CacheFine.well {free : List (Fin ndenode)} {chain : Nat → List (Fin ndenode)}
    (fine : CacheFine vfsDev s free chain) : DenodeWell vfsDev s := by
  have notFree : ∀ dp, 0 < (s.denode dp).vCount → dp ∉ free := by
    intro dp inUse isFree
    have noCount := (fine.fine dp).freeCount isFree
    omega
  constructor
  case free => exact ⟨free, fine.isFree, fine.isFree.nodup, notFree⟩
  case hashed =>
    refine ⟨chain, fine.isHashed, fine.isHashed.nodup, ?_, ?_, ?_⟩
    · intro dp inUse
      obtain ⟨deh, onChain⟩ := (fine.fine dp).hashed (notFree dp inUse)
      refine ⟨deh, fun other => ⟨fun onOther => ?_, ?_⟩⟩
      · exact fine.isHashed.apart dp other deh onOther onChain
      · rintro rfl
        exact onChain
    · intro dp deh onChain settled
      refine (fine.fine dp).fits deh onChain ?_ (.inr ?_)
      · exact fun l frame isFilling => (settled l).1 frame (lwp_of_filling isFilling)
      · exact fun l isReinserting => (settled l).2 (lwp_of_reinserting isReinserting)
    · intro dp deh l frame onChain isAt
      refine (fine.fine dp).fitsFiller deh l frame onChain ?_
      simp [isAt, CacheLwp.role]
  case requested =>
    intro l request dp isAt
    have dpFine := fine.fine dp
    have isGot : (s.lwp l).role dp = .got request := by simp [isAt, CacheLwp.role]
    have owner := dpFine.owns l (by simp [isGot, Role.owns])
    refine dpFine.asked l request (by simp [isGot, Role.asks]) ?_
    exact dpFine.unfilled_of_owner owner (by simp [isGot])
  case unlocked =>
    intro l _ isOwner
    rw [fine.unlocked] at isOwner
    cases isOwner

def CacheStep (vfsDev : Nat → Nat) (before : CacheState ndenode) (action : CacheAction ndenode)
    (after : CacheState ndenode) : Prop :=
  cacheStep vfsDev before action = some after

theorem denodeWell_of_run (positive : 0 < ndenode) {actions : List (CacheAction ndenode)}
    {final : CacheState ndenode} (run : Run (Guarded (CacheStep vfsDev) (CacheGuard vfsDev))
      (dosfsDoinit positive) actions final) :
    DenodeWell vfsDev final := by
  have start : ∃ free chain, CacheFine vfsDev (dosfsDoinit positive) free chain :=
    ⟨_, _, cacheFine_dosfsDoinit vfsDev positive⟩
  have preserved : ∀ (before : CacheState ndenode) action after,
      (∃ free chain, CacheFine vfsDev before free chain) →
      Guarded (CacheStep vfsDev) (CacheGuard vfsDev) before action after →
      ∃ free chain, CacheFine vfsDev after free chain := by
    rintro before action after ⟨free, chain, fine⟩ ⟨isStep, guard⟩
    exact fine.step guard isStep
  obtain ⟨free, chain, fine⟩ := run.invariant preserved start
  exact fine.well

def sampleFile : DegetRequest where
  vfsp := 0
  isadir := false
  dirclust := 5
  diroffset := 3
  startclust := 0
  direntp := some ⟨65, 0x20, 0⟩
  agrees := by
    rintro entry ⟨⟩
    exact ⟨rfl, fun isDirectory => by cases isDirectory⟩

/-- The same file, as `dosfs_vget` asks for it. -/
def sampleHandle : DegetRequest where
  vfsp := 0
  isadir := false
  dirclust := 5
  diroffset := 3
  startclust := 0
  direntp := none
  agrees := by
    rintro entry ⟨⟩

/-- An LWP goes on, with what it reads. -/
def goOn (l : Nat) : CacheAction ndenode := .run l ⟨some ⟨65, 0x20, 0⟩, false, false⟩

def twoDenodes : CacheState 2 := dosfsDoinit (by decide)

theorem goesOn (l : Nat) {initial middle next : CacheState ndenode}
    {actions : List (CacheAction ndenode)}
    (earlier : Run (Guarded (CacheStep vfsDev) (CacheGuard vfsDev)) initial actions middle)
    (isNext : cacheStep vfsDev middle (goOn l) = some next)
    (guard : CacheGuard vfsDev middle (goOn l)) :
    Run (Guarded (CacheStep vfsDev) (CacheGuard vfsDev)) initial (actions ++ [goOn l]) next :=
  .snoc earlier ⟨isNext, guard⟩

theorem denodeWell_of_run_deget : ∃ final, Run (CacheStep id) twoDenodes
    [.deget 0 sampleFile, goOn 0, goOn 0] final ∧
    final.lwp 0 = .done sampleFile (.found 0) ∧ DenodeWell id final := by
  have called : Run (Guarded (CacheStep id) (CacheGuard id)) twoDenodes [.deget 0 sampleFile] _ :=
    .single ⟨rfl, trivial⟩
  have taken := goesOn 0 called rfl (by
    rintro frame ⟨⟩
    refine ⟨fun ldep found => ?_, fun _ noEntry => ?_⟩
    · have notFound : none = some ldep := found
      cases notFound
    · cases noEntry)
  have filled := goesOn 0 taken rfl (by rintro frame ⟨⟩)
  exact ⟨_, filled.unguarded, rfl, @denodeWell_of_run 2 id (by decide) _ _ filled⟩

def reached (actions : List (CacheAction 2))
    (accepted : (run? (cacheStep id) twoDenodes actions).isSome = true) : CacheState 2 :=
  (run? (cacheStep id) twoDenodes actions).get accepted

theorem run_reached {actions : List (CacheAction 2)}
    (accepted : (run? (cacheStep id) twoDenodes actions).isSome = true) :
    Run (CacheStep id) twoDenodes actions (reached actions accepted) :=
  Run.of_run? (Option.some_get accepted).symm

/-- The samples have two denodes and two LWPs. -/
local instance neZeroTwo : NeZero 2 := ⟨by decide⟩

/-- The file is found while `dosfs_inactive` is behind the insertion. -/
def foundLate : List (CacheAction 2) :=
  [.deget 0 sampleFile, goOn 0, goOn 0, goOn 0, .unlock 0 0, .rele 0 0,
    goOn 0, goOn 0, goOn 0, .deget 1 sampleFile, goOn 1, goOn 0, goOn 0, goOn 1, goOn 1]

/-- The directory entry is read with the table locked. -/
def relocked : List (CacheAction 2) := [.deget 0 sampleHandle, goOn 0]

/-- The file is moved while another LWP waits for it. -/
def movedMeanwhile : List (CacheAction 2) :=
  [.deget 0 sampleFile, goOn 0, goOn 0, goOn 0, .deget 1 sampleFile, goOn 1,
    .move 0 0 9 1, goOn 0, .unlock 0 0, goOn 1, goOn 1]

/--
A denode is in use and free, an LWP locks the table that it has locked, and
`deget` returns a denode with another key.
-/
theorem denodeWell_fails : (∃ final, Run (CacheStep id) twoDenodes foundLate final ∧
    (final.denode 0).vCount = 1 ∧ ¬ DenodeWell id final) ∧
    (∃ final, Run (CacheStep id) twoDenodes relocked final ∧
      (final.lwp 0).Locks ∧ final.tableMutex = some 0 ∧ ¬ DenodeWell id final) ∧
    ∃ final, Run (CacheStep id) twoDenodes movedMeanwhile final ∧
      final.lwp 1 = .done sampleFile (.found 0) ∧
      (final.denode 0).deDirclust = 9 ∧ ¬ DenodeWell id final := by
  refine ⟨?_, ?_, ?_⟩
  · refine ⟨reached foundLate (by decide), run_reached (by decide), by decide, ?_⟩
    intro well
    obtain ⟨free, isFree, -, notFree⟩ := well.free
    apply notFree 0 (by decide)
    -- the links lead from the head over denode 1 to denode 0
    have first := Ring.IsRing.flink_mem isFree (mem_cons_self ..)
    have second := Ring.IsRing.flink_mem isFree first
    have isSecond : (reached foundLate (by decide)).free.next
        ((reached foundLate (by decide)).free.next none) = some 0 := by
      decide
    exact mem_freeNodes.mp second
  · refine ⟨reached relocked (by decide), run_reached (by decide), trivial, rfl, ?_⟩
    exact fun well => well.unlocked 0 trivial rfl
  · refine ⟨reached movedMeanwhile (by decide), run_reached (by decide), rfl, by decide, ?_⟩
    intro well
    have isRequested := well.requested 1 sampleFile 0 rfl
    exact absurd isRequested (by decide)

end Uw7.Dosfs.DenodeCache
