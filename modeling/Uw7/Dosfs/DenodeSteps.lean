import Uw7.Dosfs.DenodeKeys

namespace Uw7.Dosfs.DenodeCache

/-!
# What a step of the cache preserves

The invariant says of every denode what holds of it and of the lists.  A step
changes one denode and one LWP; all others are as before.
-/

open Lib Function List

variable {ndenode : Nat} {vfsDev : Nat → Nat} {s s' : CacheState ndenode}
  {free free' : List (Fin ndenode)} {chain chain' : Nat → List (Fin ndenode)}
  {l : Nat} {dp : Fin ndenode}

/-- The calls of `deget` an LWP is in are as they were called. -/
def CacheLwp.Sound : CacheLwp ndenode → Prop
  | .loop frame | .purging frame | .inactive _ _ (some frame) => frame.Sound
  | .filling frame _ => frame.Sound ∧ frame.Ready
  | _ => True

/-- What holds between two steps of the cache. -/
structure CacheFine (vfsDev : Nat → Nat) (s : CacheState ndenode) (free : List (Fin ndenode))
    (chain : Nat → List (Fin ndenode)) : Prop where
  unlocked : s.tableMutex = none
  isFree : IsFreeList s.free free
  isHashed : IsHashed s.hash chain
  fine : ∀ dp, DenodeFine vfsDev (s.denode dp) (s.holds dp) (dp ∈ free)
      (fun deh => dp ∈ chain deh) fun l => (s.lwp l).role dp
  sound : ∀ l, (s.lwp l).Sound

namespace CacheFine

section

variable (fine : CacheFine vfsDev s free chain)
include fine

theorem update (unlocked : s'.tableMutex = none)
    (isFree : IsFreeList s'.free free') (isHashed : IsHashed s'.hash chain')
    (sameDenode : ∀ other, other ≠ dp → s'.denode other = s.denode other)
    (sameHolds : ∀ other, other ≠ dp → s'.holds other = s.holds other)
    (sameFree : ∀ other, other ≠ dp → (other ∈ free' ↔ other ∈ free))
    (sameChain : ∀ other, other ≠ dp → ∀ deh, other ∈ chain' deh ↔ other ∈ chain deh)
    (sameLwp : ∀ other, other ≠ l → s'.lwp other = s.lwp other)
    (was : ∀ other, other ≠ dp → (s.lwp l).role other = .none)
    (isNow : ∀ other, other ≠ dp → (s'.lwp l).role other = .none)
    (now : DenodeFine vfsDev (s'.denode dp) (s'.holds dp) (dp ∈ free')
      (fun deh => dp ∈ chain' deh) fun l => (s'.lwp l).role dp)
    (sound : (s'.lwp l).Sound) : CacheFine vfsDev s' free' chain' := by
  refine ⟨unlocked, isFree, isHashed, fun other => ?_, fun other => ?_⟩
  · by_cases same : other = dp
    · subst other
      exact now
    · have before := fine.fine other
      have sameRoles : (fun l => (s'.lwp l).role other) = fun l => (s.lwp l).role other := by
        funext any
        by_cases isL : any = l
        · rw [isL, was other same, isNow other same]
        · rw [sameLwp any isL]
      have sameChains : (fun deh => other ∈ chain' deh) = fun deh => other ∈ chain deh :=
        funext fun deh => propext (sameChain other same deh)
      rw [sameDenode other same, sameHolds other same,
        propext (sameFree other same), sameRoles, sameChains]
      exact before
  · by_cases isL : other = l
    · rw [isL]
      exact sound
    · rw [sameLwp other isL]
      exact fine.sound other

theorem work (sameMutex : s'.tableMutex = s.tableMutex)
    (sameFree : s'.free = s.free) (sameHash : s'.hash = s.hash)
    (sameDenode : ∀ other, other ≠ dp → s'.denode other = s.denode other)
    (sameHolds : ∀ other, other ≠ dp → s'.holds other = s.holds other)
    (sameLwp : ∀ other, other ≠ l → s'.lwp other = s.lwp other)
    (was : ∀ other, other ≠ dp → (s.lwp l).role other = .none)
    (isNow : ∀ other, other ≠ dp → (s'.lwp l).role other = .none)
    (now : DenodeFine vfsDev (s'.denode dp) (s'.holds dp) (dp ∈ free)
      (fun deh => dp ∈ chain deh) fun l => (s'.lwp l).role dp)
    (sound : (s'.lwp l).Sound) : CacheFine vfsDev s' free chain :=
  fine.update (sameMutex.trans fine.unlocked) (sameFree ▸ fine.isFree)
    (sameHash ▸ fine.isHashed) sameDenode sameHolds (fun _ _ => Iff.rfl)
    (fun _ _ _ => Iff.rfl) sameLwp was isNow now sound

theorem elsewhere {next : CacheLwp ndenode}
    (was : ∀ dp, (s.lwp l).role dp = .none) (isNow : ∀ dp, next.role dp = .none)
    (sound : next.Sound) : CacheFine vfsDev (s.setLwp l next) free chain := by
  refine ⟨fine.unlocked, fine.isFree, fine.isHashed, fun dp => ?_, fun other => ?_⟩
  · have sameRoles : (fun any => ((s.setLwp l next).lwp any).role dp) =
        fun any => (s.lwp any).role dp := by
      funext any
      by_cases isL : any = l
      · simp only [CacheState.setLwp, isL, update_self, isNow, was]
      · simp only [CacheState.setLwp, update_of_ne isL]
    rw [sameRoles]
    exact fine.fine dp
  · by_cases isL : other = l
    · simp only [CacheState.setLwp, isL, update_self]
      exact sound
    · simp only [CacheState.setLwp, update_of_ne isL]
      exact fine.sound other

theorem assign {next : CacheLwp ndenode}
    {change : CacheDenode → CacheDenode}
    (wasElsewhere : ∀ other, other ≠ dp → (s.lwp l).role other = .none)
    (isElsewhere : ∀ other, other ≠ dp → next.role other = .none) {count : Nat}
    (now : ∀ role', (∀ other, other ≠ l → role' other = (s.lwp other).role dp) →
      role' l = next.role dp → DenodeFine vfsDev (change (s.denode dp)) count (dp ∈ free)
        (fun deh => dp ∈ chain deh) role')
    (sound : next.Sound) :
    CacheFine vfsDev (((s.setDenode dp change).setHolds dp count).setLwp l next) free
      chain := by
  refine @work ndenode vfsDev s _ free chain l dp fine rfl rfl rfl
    (fun other notDp => update_of_ne notDp _ _) (fun other notDp => update_of_ne notDp _ _)
    (fun other notL => update_of_ne notL _ _) wasElsewhere ?_ ?_ ?_
  · intro other notDp
    simp only [CacheState.setLwp, update_self]
    exact isElsewhere other notDp
  · simp only [CacheState.setLwp, CacheState.setDenode, CacheState.setHolds, update_self]
    refine now _ (fun other notL => ?_) ?_
    · simp only [update_of_ne notL]
    · simp only [update_self]
  · simp only [CacheState.setLwp, update_self]
    exact sound

end

theorem setHolds_self (s : CacheState ndenode) : s.setHolds dp (s.holds dp) = s := by
  unfold CacheState.setHolds
  rw [update_eq_self]

theorem setLwp_self (s : CacheState ndenode) : s.setLwp l (s.lwp l) = s := by
  unfold CacheState.setLwp
  rw [update_eq_self]

section

variable (fine : CacheFine vfsDev s free chain)
include fine

theorem assignFields {next : CacheLwp ndenode}
    {change : CacheDenode → CacheDenode}
    (wasElsewhere : ∀ other, other ≠ dp → (s.lwp l).role other = .none)
    (isElsewhere : ∀ other, other ≠ dp → next.role other = .none)
    (now : ∀ role', (∀ other, other ≠ l → role' other = (s.lwp other).role dp) →
      role' l = next.role dp → DenodeFine vfsDev (change (s.denode dp)) (s.holds dp) (dp ∈ free)
        (fun deh => dp ∈ chain deh) role')
    (sound : next.Sound) : CacheFine vfsDev ((s.setDenode dp change).setLwp l next) free chain := by
  have assigned := fine.assign wasElsewhere isElsewhere now sound
  have sameHolds : (s.setDenode dp change).setHolds dp (s.holds dp) = s.setDenode dp change :=
    setHolds_self (s.setDenode dp change)
  rw [sameHolds] at assigned
  exact assigned

theorem lockOrWait (notFree : dp ∉ free)
    {got blocked : CacheLwp ndenode}
    (wasElsewhere : ∀ other, other ≠ dp → (s.lwp l).role other = .none)
    (wasOut : (s.lwp l).role dp = .none ∨ (s.lwp l).role dp = .inactive .entering)
    (gotElsewhere : ∀ other, other ≠ dp → got.role other = .none)
    (blockedElsewhere : ∀ other, other ≠ dp → blocked.role other = .none)
    (isGot : got.role dp = .none ∨ got.role dp = .inactive .counting ∨
      ∃ request, got.role dp = .locked request)
    (isBlocked : (blocked.role dp).waits)
    (gotReleases : (got.role dp).releases ↔ ((s.lwp l).role dp).releases)
    (blockedReleases : (blocked.role dp).releases ↔ ((s.lwp l).role dp).releases)
    (asking : ∀ request, (got.role dp).asks request ∨ (blocked.role dp).asks request →
      (Unfilled (fun l => (s.lwp l).role dp) → (s.denode dp).hasKey vfsDev request = true) ∧
        ∀ filler frame, (s.lwp filler).role dp = .filling frame →
          SameKey vfsDev frame.request request)
    (gotSound : got.Sound) (blockedSound : blocked.Sound) :
    CacheFine vfsDev (s.lockOrWait l dp got blocked) free chain := by
  unfold CacheState.lockOrWait
  split
  case isTrue available =>
    refine fine.assignFields wasElsewhere gotElsewhere (fun role' others now => ?_) gotSound
    exact @DenodeFine.take vfsDev _ _ _ _ _ role' l (fine.fine dp) notFree others
      (Option.isNone_iff_eq_none.mp available) (s.denode dp).waiters (fun _ _ member => member)
      (now ▸ isGot) (now ▸ gotReleases)
      fun request isAsked => .inr (asking request (.inl (now ▸ isAsked)))
  case isFalse taken =>
    refine fine.assignFields wasElsewhere blockedElsewhere (fun role' others now => ?_) blockedSound
    exact DenodeFine.enqueue (fine.fine dp) notFree others wasOut (now ▸ isBlocked)
      (now ▸ blockedReleases) fun request isAsked => asking request (.inr (now ▸ isAsked))

theorem acquire {got : CacheLwp ndenode}
    (waited : ((s.lwp l).role dp).waits)
    (wasElsewhere : ∀ other, other ≠ dp → (s.lwp l).role other = .none)
    (gotElsewhere : ∀ other, other ≠ dp → got.role other = .none)
    (isGot : got.role dp = .none ∨ got.role dp = .inactive .counting ∨
      ∃ request, got.role dp = .locked request)
    (gotReleases : (got.role dp).releases ↔ ((s.lwp l).role dp).releases)
    (asking : ∀ request, (got.role dp).asks request → ((s.lwp l).role dp).asks request)
    (gotSound : got.Sound) (acquired : s.acquire l dp got = some s') :
    CacheFine vfsDev s' free chain := by
  obtain ⟨available, ⟨⟩⟩ := Option.ite_none_right_eq_some.1 acquired
  have dpFine := fine.fine dp
  have notFree : dp ∉ free := by
    intro isFree
    have member := dpFine.waits l waited
    rw [dpFine.freeWaiters isFree] at member
    cases member
  refine fine.assignFields wasElsewhere gotElsewhere (fun role' others now => ?_) gotSound
  exact @DenodeFine.take vfsDev _ _ _ _ _ role' l dpFine notFree others
    (Option.isNone_iff_eq_none.mp available) _
    (fun other notL member => (mem_erase_of_ne notL).mpr member) (now ▸ isGot)
    (now ▸ gotReleases) fun request isAsked => .inl (asking request (now ▸ isAsked))

theorem assignLwp {next : CacheLwp ndenode}
    (wasElsewhere : ∀ other, other ≠ dp → (s.lwp l).role other = .none)
    (isElsewhere : ∀ other, other ≠ dp → next.role other = .none)
    (now : ∀ role', (∀ other, other ≠ l → role' other = (s.lwp other).role dp) →
      role' l = next.role dp →
      DenodeFine vfsDev (s.denode dp) (s.holds dp) (dp ∈ free) (fun deh => dp ∈ chain deh) role')
    (sound : next.Sound) : CacheFine vfsDev (s.setLwp l next) free chain := by
  have assigned := @assignFields ndenode vfsDev s free chain l dp fine next id wasElsewhere
      isElsewhere now sound
  have sameDenode : s.setDenode dp id = s := by
    unfold CacheState.setDenode
    rw [id, update_eq_self]
  rw [sameDenode] at assigned
  exact assigned

theorem grant {request : DegetRequest}
    (isAt : s.lwp l = .locked request dp) :
    CacheFine vfsDev ((vnHold s dp).setLwp l (.done request (.found dp))) free chain := by
  refine fine.assign ?_ ?_ (fun role' others now => ?_) trivial
  · intro other notDp
    simp [isAt, CacheLwp.role, notDp.symm]
  · intro other notDp
    simp [CacheLwp.role, notDp.symm]
  · refine @DenodeFine.granted vfsDev _ _ _ _ _ role' l request (fine.fine dp) others ?_ ?_
    · simp [isAt, CacheLwp.role]
    · simp [now, CacheLwp.role]

theorem holdAgain (isIdle : s.lwp l = .idle)
    (isHeld : s.holds dp ≠ 0) : CacheFine vfsDev (vnHold s dp) free chain := by
  have noRole : ∀ other, (s.lwp l).role other = .none := by simp [isIdle, CacheLwp.role]
  have assigned := @assign ndenode vfsDev s free chain l dp fine (s.lwp l)
      (fun d => { d with vCount := d.vCount + 1 })
      (fun other _ => noRole other) (fun other _ => noRole other) (s.holds dp + 1)
      (fun role' others now => ?_) (fine.sound l)
  · have sameLwp := @setLwp_self ndenode l (vnHold s dp)
    exact sameLwp ▸ assigned
  · have sameRole : role' = fun other => (s.lwp other).role dp := by
      funext other
      by_cases same : other = l
      · rw [same, now]
      · rw [others other same]
    rw [sameRole]
    exact DenodeFine.heldAgain (fine.fine dp) isHeld (noRole dp)

end

theorem role_resume (back : Option DegetFrame) :
    (resume back : CacheLwp ndenode).role dp = .none := by
  cases back <;> rfl

theorem rele (fine : CacheFine vfsDev s free chain) {back : Option DegetFrame}
    (isAt : s.lwp l = resume back) (isHeld : s.holds dp ≠ 0) :
    CacheFine vfsDev (vnRele s l dp back) free chain := by
  have noRole : ∀ other, (s.lwp l).role other = .none := by
    intro other
    rw [isAt]
    exact role_resume back
  have sound : (resume back : CacheLwp ndenode).Sound := by
    rw [← isAt]
    exact fine.sound l
  unfold vnRele
  dsimp only
  split
  case isTrue notLast =>
    refine @assign ndenode vfsDev s free chain l dp fine (resume back)
      (fun d => { d with vCount := d.vCount - 1 })
      (fun other _ => noRole other) (fun other _ => role_resume back)
      (s.holds dp - 1) (fun role' others now => ?_) sound
    have sameRole : role' = fun other => (s.lwp other).role dp := by
      funext other
      by_cases same : other = l
      · rw [same, now, noRole dp]
        exact role_resume back
      · rw [others other same]
    rw [sameRole]
    exact DenodeFine.releasedOne (fine.fine dp) isHeld (noRole dp) notLast
  case isFalse =>
    have assigned := @assign ndenode vfsDev s free chain l dp fine
        (.inactive dp .entering back) id (fun other _ => noRole other)
        (fun other notDp => by simp [CacheLwp.role, notDp.symm]) (s.holds dp - 1)
        (fun role' others now =>
          DenodeFine.releasedLast (fine.fine dp) isHeld others (noRole dp)
            (by simp [now, CacheLwp.role]))
        (by cases back <;> exact sound)
    have sameDenode : s.setDenode dp id = s := by
      unfold CacheState.setDenode
      rw [id, update_eq_self]
    rw [sameDenode] at assigned
    exact assigned

section Inactive

variable {phase : InactivePhase} {back : Option DegetFrame}

theorem role_inactive_of_ne {other : Fin ndenode} (notDp : other ≠ dp) :
    (CacheLwp.inactive dp phase back).role other = .none := by
  simp [CacheLwp.role, notDp.symm]

theorem role_inactive : (CacheLwp.inactive dp phase back).role dp = .inactive phase := by
  simp [CacheLwp.role]

theorem sound_inactive {other : InactivePhase} (sound : (CacheLwp.inactive dp phase back).Sound) :
    (CacheLwp.inactive dp other back).Sound := by
  cases back <;> exact sound

theorem of_inactive (fine : CacheFine vfsDev s free chain)
    (isAt : s.lwp l = .inactive dp phase back) :
    (∀ other, other ≠ dp → (s.lwp l).role other = .none) ∧
      (s.lwp l).role dp = .inactive phase ∧
      (CacheLwp.inactive dp phase back : CacheLwp ndenode).Sound := by
  have sound := fine.sound l
  rw [isAt] at sound ⊢
  exact ⟨fun other notDp => role_inactive_of_ne notDp, role_inactive, sound⟩

theorem count (fine : CacheFine vfsDev s free chain)
    (isAt : s.lwp l = .inactive dp .counting back) :
    CacheFine vfsDev (inactiveCount s l dp back) free chain := by
  obtain ⟨wasElsewhere, wasCounting, sound⟩ := fine.of_inactive isAt
  unfold inactiveCount
  split
  case isTrue isLast =>
    refine fine.assignFields wasElsewhere (fun other notDp => role_inactive_of_ne notDp)
      (fun role' others now => ?_) (sound_inactive sound)
    have down := DenodeFine.countedDown (fine.fine dp) others wasCounting
      (.inr ⟨now.trans role_inactive, eq_of_beq isLast⟩)
    rwa [eq_of_beq isLast] at down
  case isFalse =>
    refine fine.assignFields wasElsewhere (fun other notDp => role_inactive_of_ne notDp)
      (fun role' others now => ?_) (sound_inactive sound)
    exact DenodeFine.countedDown (fine.fine dp) others wasCounting (.inl (now.trans role_inactive))

theorem insert_cases (s : CacheState ndenode) (dp : Fin ndenode) : (inactiveInsert s dp =
    { s with
      hash := s.hash.deunhash dp
      free := s.free.pushFront dp }) ∨
    (0 < (s.denode dp).deRefcnt ∧ inactiveInsert s dp = { s with free := s.free.pushBack dp }) := by
  unfold inactiveInsert
  split
  case isTrue => exact .inl rfl
  case isFalse notFirst =>
    simp only [Bool.or_eq_true, decide_eq_true_eq, not_or, not_le] at notFirst
    exact .inr ⟨notFirst.1, rfl⟩

/-- The section of `dosfs_inactive` under the table mutex. -/
theorem drain (fine : CacheFine vfsDev s free chain) (isAt : s.lwp l = .inactive dp .draining back)
    {spinning : Bool} (drained : inactiveDrain s l dp back spinning = some s') :
    ∃ free' chain', CacheFine vfsDev s' free' chain' := by
  obtain ⟨wasElsewhere, wasDraining, sound⟩ := fine.of_inactive isAt
  have dpFine := fine.fine dp
  have notFree : dp ∉ free := by
    refine dpFine.notFree_of_owner (dpFine.owns l ?_) ?_ ?_
    all_goals simp [wasDraining, Role.owns]
  simp only [inactiveDrain, fine.unlocked] at drained
  split at drained
  case isTrue =>
    cases drained
    exact ⟨free, chain, fine.assignLwp wasElsewhere (fun other notDp => role_inactive_of_ne notDp)
      (fun role' others now => dpFine.skipped others wasDraining (now.trans role_inactive))
      (sound_inactive sound)⟩
  case isFalse unwaited =>
    cases drained
    simp only [Bool.or_eq_true, Bool.not_eq_true', not_or,
      Bool.not_eq_false, List.isEmpty_iff] at unwaited
    have insertedAs : ∀ free' chain', (∀ other, other ≠ dp → (other ∈ free' ↔ other ∈ free)) →
        (∀ other, other ≠ dp → ∀ deh, other ∈ chain' deh ↔ other ∈ chain deh) →
        IsFreeList (inactiveInsert s dp).free free' → IsHashed (inactiveInsert s dp).hash chain' →
        (dp ∈ free') → (∀ deh, dp ∈ chain' deh → dp ∈ chain deh) →
        ((s.denode dp).deRefcnt ≤ 0 → ∀ deh, dp ∉ chain' deh) →
        (inactiveInsert s dp).denode = s.denode → (inactiveInsert s dp).holds = s.holds →
        (inactiveInsert s dp).lwp = s.lwp → (inactiveInsert s dp).tableMutex = none →
        CacheFine vfsDev ((inactiveInsert s dp).setLwp l (.inactive dp .writing back))
          free' chain' := by
      intro free' chain' sameFree sameChain isFree isHashed isIn fewer removed
        sameDenode sameHolds sameLwp unlocked
      refine fine.update unlocked isFree isHashed (fun other _ => congrFun sameDenode other)
        (fun other _ => congrFun sameHolds other) sameFree sameChain
        (fun other notL => ?_) wasElsewhere ?_ ?_ ?_
      · simp only [CacheState.setLwp, update_of_ne notL, sameLwp]
      · intro other notDp
        simp only [CacheState.setLwp, update_self]
        exact role_inactive_of_ne notDp
      · have isNow : (dp ∈ free') = True := propext ⟨fun _ => trivial, fun _ => isIn⟩
        simp only [CacheState.setLwp, sameDenode, sameHolds, isNow, sameLwp]
        refine dpFine.inserted (fun other notL => ?_) wasDraining ?_ unwaited.1 fewer removed
        · simp only [update_of_ne notL]
        · simp only [update_self]
          exact role_inactive
      · simp only [CacheState.setLwp, update_self]
        exact sound_inactive sound
    rcases insert_cases s dp with isFront | ⟨referred, isBack⟩
    · refine ⟨dp :: free, fun deh => (chain deh).erase dp, ?_⟩
      refine insertedAs _ _ ?_ ?_ ?_ ?_ ?_ ?_ ?_ ?_ ?_ ?_ ?_
      · intro other notDp
        simp [notDp]
      · exact fun other notDp deh => mem_erase_of_ne notDp
      · rw [isFront]
        exact fine.isFree.pushFront notFree
      · rw [isFront]
        exact fine.isHashed.deunhash dp
      · exact mem_cons_self ..
      · exact fun deh member => mem_of_mem_erase member
      · exact fun _ deh => (fine.isHashed.nodup deh).not_mem_erase
      all_goals rw [isFront]
      exact fine.unlocked
    · refine ⟨free ++ [dp], chain, ?_⟩
      refine insertedAs _ _ ?_ (fun _ _ _ => Iff.rfl) ?_ ?_ ?_
        (fun _ member => member) (fun noReference => ?_) ?_ ?_ ?_ ?_
      · intro other notDp
        simp [notDp]
      · rw [isBack]
        exact fine.isFree.pushBack notFree
      · rw [isBack]
        exact fine.isHashed
      · simp
      · omega
      all_goals rw [isBack]
      exact fine.unlocked

theorem write (fine : CacheFine vfsDev s free chain) (isAt : s.lwp l = .inactive dp .writing back)
    (truncated : Bool) : CacheFine vfsDev (inactiveWrite s l dp back truncated) free chain := by
  obtain ⟨wasElsewhere, wasWriting, sound⟩ := fine.of_inactive isAt
  have writtenAs : ∀ name cluster, (0 < (s.denode dp).deRefcnt →
      cluster = (s.denode dp).deStartCluster) → CacheFine vfsDev ((s.setDenode dp fun d =>
        { d with
          deName0 := name
          deStartCluster := cluster
          deref := false }).setLwp l (.inactive dp .leaving back))
        free chain := by
    intro name cluster kept
    refine fine.assignFields wasElsewhere (fun other notDp => role_inactive_of_ne notDp)
      (fun role' others now => ?_) (sound_inactive sound)
    exact DenodeFine.written (fine.fine dp) others wasWriting (now.trans role_inactive) kept
  unfold inactiveWrite
  split
  case isTrue noReference =>
    have isWritten := writtenAs slotDeleted (if truncated then 0 else (s.denode dp).deStartCluster)
        fun referred => absurd (of_decide_eq_true noReference) (by omega)
    simp only [CacheState.setDenode, update_idem, update_self] at isWritten ⊢
    exact isWritten
  case isFalse => exact writtenAs (s.denode dp).deName0 (s.denode dp).deStartCluster fun _ => rfl

theorem leave (fine : CacheFine vfsDev s free chain) (isAt : s.lwp l = .inactive dp .leaving back) :
    CacheFine vfsDev ((s.unlock dp).setLwp l (resume back)) free chain := by
  obtain ⟨wasElsewhere, wasLeaving, sound⟩ := fine.of_inactive isAt
  refine fine.assignFields wasElsewhere (fun other _ => role_resume back)
    (fun role' others now => ?_) (by cases back <;> exact sound)
  have dpFine := fine.fine dp
  exact dpFine.letGo others (dpFine.owns l (by simp [wasLeaving, Role.owns])) (.inr wasLeaving)
    (now.trans (role_resume back))

end Inactive

end CacheFine

end Uw7.Dosfs.DenodeCache
