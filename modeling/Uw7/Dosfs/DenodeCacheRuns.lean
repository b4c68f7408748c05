import Uw7.Dosfs.DenodeSteps
import Uw7.Lib.Run

namespace Uw7.Dosfs.DenodeCache

/-!
# Runs of the cache of denodes

As long as `deget` finds no denode behind its insertion into the free list, no
denode that is filled in for another file, and does not have to read a
directory entry, and no file is moved that `deget` waits for, the lists, the
keys and the reference counts agree in every state.
-/

open Lib List Bool Function Option

variable {ndenode : Nat} {vfsDev : Nat → Nat} {s s' : CacheState ndenode}
  {free : List (Fin ndenode)} {chain : Nat → List (Fin ndenode)}
  {l : Nat} {dp : Fin ndenode}

theorem search_eq (hashed : IsHashed s.hash chain) (request : DegetRequest) :
    s.search vfsDev request = (chain (request.deh vfsDev)).find? fun ldep =>
      (s.denode ldep).matched vfsDev request := by
  have stops : s.stops vfsDev request (.head (request.deh vfsDev)) = true := by
    simp [CacheState.stops]
  rw [CacheState.search, hashed.seek_eq stops, List.find?_append, List.find?_map]
  have sameTest : s.stops vfsDev request ∘ HashLink.denode =
      fun ldep => (s.denode ldep).matched vfsDev request :=
    rfl
  rw [sameTest]
  cases found : (chain (request.deh vfsDev)).find? fun ldep =>
    (s.denode ldep).matched vfsDev request with
  | some ldep => rfl
  | none =>
    rw [List.find?_cons_of_pos stops]
    rfl

/--
What goes well: `deget` finds no denode that `dosfs_inactive` has inserted into
the free list and whose flags it has not cleared, finds none that is filled in
for another file, and reads no directory entry that is in use; and
`dosfs_rename` moves no file that `deget` waits for.
-/
def CacheGuard (vfsDev : Nat → Nat) (s : CacheState ndenode)
    (action : CacheAction ndenode) : Prop :=
  match action with
  | .run l outcome =>
    ∀ frame, s.lwp l = .loop frame → (∀ ldep, s.search vfsDev frame.request = some ldep →
        (∀ other back, s.lwp other ≠ .inactive ldep .writing back) ∧
          ∀ other filler, s.lwp other = .filling filler ldep →
            SameKey vfsDev filler.request frame.request) ∧
        (s.search vfsDev frame.request = none → frame.direntp = none →
          frame.request.isRoot = false → ∀ entry, outcome.entry = some entry →
              entry.deName0 = slotDeleted ∨ entry.deName0 = slotEmpty)
  | .move _ dep _ _ =>
    (s.denode dep).isadir = true ∨ ∀ other request, s.lwp other ≠ .waiting request dep
  | _ => True

namespace CacheFine

/-- The places of an LWP that has such a role. -/
theorem lwp_of_role (lwp : CacheLwp ndenode) (dp : Fin ndenode) :
    match lwp.role dp with
    | .inactive phase => ∃ back, lwp = .inactive dp phase back
    | .filling frame => lwp = .filling frame dp
    | .waiting request => lwp = .waiting request dp
    | .reinserting => lwp = .reinserting dp
    | _ => True := by
  cases lwp with
  | waiting _ dep | locked _ dep | filling _ dep | deLock dep | reinserting dep
  | inactive dep _ _ => by_cases same : dep = dp <;> simp [CacheLwp.role, same]
  | done _ result =>
    cases result with
    | found dep => by_cases same : dep = dp <;> simp [CacheLwp.role, same]
    | _ => trivial
  | _ => trivial

theorem lwp_of_writing (isWriting : (s.lwp l).role dp = .inactive .writing) :
    ∃ back, s.lwp l = .inactive dp .writing back := by
  have known := lwp_of_role (s.lwp l) dp
  rwa [isWriting] at known

theorem lwp_of_filling {frame : DegetFrame} (isFilling : (s.lwp l).role dp = .filling frame) :
    s.lwp l = .filling frame dp := by
  have known := lwp_of_role (s.lwp l) dp
  rwa [isFilling] at known

theorem lwp_of_waiting {request : DegetRequest} (isWaiting : (s.lwp l).role dp = .waiting request) :
    s.lwp l = .waiting request dp := by
  have known := lwp_of_role (s.lwp l) dp
  rwa [isWaiting] at known

theorem lwp_of_reinserting (isReinserting : (s.lwp l).role dp = .reinserting) :
    s.lwp l = .reinserting dp := by
  have known := lwp_of_role (s.lwp l) dp
  rwa [isReinserting] at known

section Deget

variable {frame : DegetFrame} {request : DegetRequest}

section

variable (fine : CacheFine vfsDev s free chain)
include fine

theorem unfree (noRole : ∀ dp, (s.lwp l).role dp = .none) {deh : Nat} (onChain : dp ∈ chain deh)
    (noWriter : ∀ other, (s.lwp other).role dp ≠ .inactive .writing) :
    CacheFine vfsDev ((if (s.denode dp).deref = true then s
      else { s with free := s.free.remove dp }).setDenode dp fun d => { d with deref := true })
      (free.erase dp) chain := by
  have dpFine := fine.fine dp
  have notIn : (dp ∈ free.erase dp) = False :=
    propext ⟨fun member => fine.isFree.nodup.not_mem_erase member, False.elim⟩
  have now := dpFine.found onChain noWriter
  rw [← notIn] at now
  split
  case isTrue flagged =>
    have notFree : dp ∉ free := by
      intro isFree
      obtain ⟨writer, isWriting⟩ := dpFine.flagged isFree flagged
      exact noWriter writer isWriting
    refine @update ndenode vfsDev s _ free _ chain _ l dp fine fine.unlocked
      ?_ fine.isHashed (fun other notDp => update_of_ne notDp _ _)
      (fun _ _ => rfl) (fun other notDp => mem_erase_of_ne notDp)
      (fun _ _ _ => Iff.rfl) (fun _ _ => rfl) (fun other _ => noRole other)
      (fun other _ => noRole other) ?_ (fine.sound l)
    · rw [erase_of_not_mem notFree]
      exact fine.isFree
    · simp only [CacheState.setDenode, update_self]
      exact now
  case isFalse unflagged =>
    have isFree : dp ∈ free := dpFine.unflagged (not_eq_true _ ▸ unflagged)
    refine @update ndenode vfsDev s _ free _ chain _ l dp fine fine.unlocked
      (fine.isFree.remove isFree) fine.isHashed (fun other notDp => update_of_ne notDp _ _)
      (fun _ _ => rfl) (fun other notDp => mem_erase_of_ne notDp)
      (fun _ _ _ => Iff.rfl) (fun _ _ => rfl) (fun other _ => noRole other)
      (fun other _ => noRole other) ?_ (fine.sound l)
    simp only [CacheState.setDenode, update_self]
    exact now

theorem find (isAt : s.lwp l = .loop frame) (found : s.search vfsDev frame.request = some dp)
    (noWriter : ∀ other back, s.lwp other ≠ .inactive dp .writing back)
    (sameFile : ∀ other filler, s.lwp other = .filling filler dp →
      SameKey vfsDev filler.request frame.request) :
    CacheFine vfsDev (degetFound s l frame.request dp) (free.erase dp)
      chain := by
  have noRole : ∀ dp, (s.lwp l).role dp = .none := by simp [isAt, CacheLwp.role]
  rw [search_eq fine.isHashed] at found
  have onChain := List.mem_of_find?_eq_some found
  have isMatch := List.find?_some found
  simp only [CacheDenode.matched, and_eq_true] at isMatch
  have noWritingRole : ∀ other, (s.lwp other).role dp ≠ .inactive .writing := by
    intro other isWriting
    obtain ⟨back, isLwp⟩ := lwp_of_writing isWriting
    exact noWriter other back isLwp
  have unfreed := fine.unfree noRole onChain noWritingRole
  have notFree : dp ∉ free.erase dp := fine.isFree.nodup.not_mem_erase
  have sameLwp : ((if (s.denode dp).deref = true then s
        else { s with free := s.free.remove dp }).setDenode dp
          fun d => { d with deref := true }).lwp = s.lwp := by
    split <;> rfl
  have sameKeys : ∀ request, (((if (s.denode dp).deref = true then s
          else { s with free := s.free.remove dp }).setDenode dp
            fun d => { d with deref := true }).denode dp).hasKey vfsDev request =
          (s.denode dp).hasKey vfsDev request := by
    intro request
    split <;> simp only [CacheState.setDenode, update_self] <;> rfl
  refine unfreed.lockOrWait notFree ?_ ?_ ?_ ?_ ?_ ?_ ?_ ?_ ?_ trivial trivial
  · exact fun other _ => by rw [sameLwp, noRole other]
  · exact .inl (by rw [sameLwp, noRole dp])
  · exact fun other notDp => by simp [CacheLwp.role, notDp.symm]
  · exact fun other notDp => by simp [CacheLwp.role, notDp.symm]
  · exact .inr (.inr ⟨frame.request, by simp [CacheLwp.role]⟩)
  · simp [CacheLwp.role, Role.waits]
  · simp [CacheLwp.role, sameLwp, isAt, Role.releases]
  · simp [CacheLwp.role, sameLwp, isAt, Role.releases]
  · intro request isAsked
    have isRequest : frame.request = request := by simpa [CacheLwp.role, Role.asks] using isAsked
    subst isRequest
    refine ⟨fun _ => (sameKeys _).trans isMatch.2, ?_⟩
    intro filler own isFilling
    rw [sameLwp] at isFilling
    exact sameFile filler own (lwp_of_filling isFilling)

theorem takeFirst (noRole : ∀ dp, (s.lwp l).role dp = .none) (isFirst : s.free.dfreeh = some dp)
    (available : (s.denode dp).deLock = none) (sound : frame.Sound) (ready : frame.Ready) :
    ∃ free' chain', CacheFine vfsDev (degetTake s vfsDev l frame dp) free' chain' := by
  obtain ⟨rest, rfl⟩ : ∃ rest, free = dp :: rest := by
    have isHead := fine.isFree.dfreeh_eq
    rw [isFirst] at isHead
    cases free with
    | nil => cases isHead
    | cons first rest =>
      cases isHead
      exact ⟨rest, rfl⟩
  have notInRest := (nodup_cons.mp fine.isFree.nodup).1
  have unhashed : ∀ deh, dp ∉ (chain deh).erase dp :=
    fun deh => (fine.isHashed.nodup deh).not_mem_erase
  have chained : ∀ deh, dp ∈ Function.update (fun deh => (chain deh).erase dp)
      (frame.request.deh vfsDev) (dp :: (chain (frame.request.deh vfsDev)).erase dp) deh ↔
      deh = frame.request.deh vfsDev := by
    intro deh
    by_cases same : deh = frame.request.deh vfsDev
    · simp [same]
    · simp [same, unhashed deh]
  have hashed := @IsHashed.dehash ndenode _ _ dp (frame.request.deh vfsDev)
      (fine.isHashed.deunhash dp) unhashed
  refine ⟨rest, Function.update (fun deh => (chain deh).erase dp) (frame.request.deh vfsDev)
    (dp :: (chain (frame.request.deh vfsDev)).erase dp), ?_⟩
  refine @update ndenode vfsDev s _ (dp :: rest) rest chain _ l dp fine
    fine.unlocked fine.isFree.takeFirst hashed
    (fun other notDp => update_of_ne notDp _ _) (fun _ _ => rfl)
    (fun other notDp => ?_) (fun other notDp deh => ?_)
    (fun other notL => update_of_ne notL _ _)
    (fun other _ => noRole other) (fun other notDp => ?_) ?_ ?_
  · simp [notDp]
  · by_cases same : deh = frame.request.deh vfsDev
    · subst same
      simp [notDp, mem_erase_of_ne notDp]
    · rw [Function.update_of_ne same]
      exact mem_erase_of_ne notDp
  · simp [degetTake, CacheState.setLwp, CacheLwp.role, notDp.symm]
  · have notIn : (dp ∈ rest) = False := propext ⟨fun member => notInRest member, False.elim⟩
    rw [notIn]
    simp only [degetTake, CacheState.setLwp, CacheState.setDenode, update_self]
    refine (fine.fine dp).taken (mem_cons_self ..) available
      (fun other notL => ?_) (noRole dp) ?_ chained
    · simp only [update_of_ne notL]
    · simp [CacheLwp.role]
  · simp only [degetTake, CacheState.setLwp, update_self]
    exact ⟨sound, ready⟩

theorem miss (isAt : s.lwp l = .loop frame) {entry : Option DirEntry}
    (unused : frame.direntp = none → frame.request.isRoot = false → ∀ dirent, entry = some dirent →
      dirent.deName0 = slotDeleted ∨ dirent.deName0 = slotEmpty) :
    ∃ free' chain', CacheFine vfsDev (degetMissed s vfsDev l frame entry) free' chain' := by
  have noRole : ∀ dp, (s.lwp l).role dp = .none := by simp [isAt, CacheLwp.role]
  have sound : frame.Sound := by
    have lwpSound := fine.sound l
    rw [isAt] at lwpSound
    exact lwpSound
  unfold degetMissed
  split
  case isTrue noEntry =>
    simp only [and_eq_true, Option.isNone_iff_eq_none, not_eq_true'] at noEntry
    have failed : CacheFine vfsDev (s.setLwp l (.done frame.request .enoent)) free
          chain :=
      fine.elsewhere noRole (fun _ => rfl) trivial
    cases entry with
    | none => exact ⟨free, chain, failed⟩
    | some dirent =>
      dsimp only
      split
      case isTrue => exact ⟨free, chain, failed⟩
      case isFalse inUse =>
        exfalso
        apply inUse
        rcases unused noEntry.1 noEntry.2 dirent rfl with deleted | empty
        · simp [deleted]
        · simp [empty]
  case isFalse hasEntry =>
    have ready : ({ frame with count := frame.count + 1 } : DegetFrame).Ready := by
      by_cases isRoot : frame.request.isRoot = true
      · exact .inl isRoot
      · cases isEntry : frame.direntp with
        | some entry => exact .inr ⟨entry, rfl⟩
        | none => simp [isEntry, isRoot] at hasEntry
    have counted : ({ frame with count := frame.count + 1 } : DegetFrame).Sound := ⟨sound.own⟩
    have purged : CacheFine vfsDev (s.setLwp l (.purging { frame with count := frame.count + 1 }))
        free chain :=
      fine.elsewhere noRole (fun _ => rfl) counted
    split
    case h_1 => exact ⟨free, chain, purged⟩
    case h_2 ldep isFirst =>
      split
      case isTrue available =>
        exact fine.takeFirst noRole isFirst (Option.isNone_iff_eq_none.mp available) counted ready
      case isFalse => exact ⟨free, chain, purged⟩

theorem fillIn (isAt : s.lwp l = .filling frame dp) :
    CacheFine vfsDev (degetFill s l frame dp) free chain := by
  have sound : frame.Sound ∧ frame.Ready := by
    have lwpSound := fine.sound l
    rw [isAt] at lwpSound
    exact lwpSound
  refine @assign ndenode vfsDev s free chain l dp fine
    (.done frame.request (.found dp)) frame.fill ?_ ?_ (s.holds dp + 1)
    (fun role' others now => ?_) trivial
  · intro other notDp
    simp [isAt, CacheLwp.role, notDp.symm]
  · intro other notDp
    simp [CacheLwp.role, notDp.symm]
  · refine (fine.fine dp).filled others ?_ ?_ sound.1 sound.2
    · simp [isAt, CacheLwp.role]
    · simp [now, CacheLwp.role]

end

end Deget

section

variable (fine : CacheFine vfsDev s free chain)
include fine

theorem rehash (isAt : s.lwp l = .reinserting dp) (done : reinsert s vfsDev l dp = some s') :
    ∃ free' chain', CacheFine vfsDev s' free' chain' := by
  have wasElsewhere : ∀ other, other ≠ dp → (s.lwp l).role other = .none := by
    intro other notDp
    simp [isAt, CacheLwp.role, notDp.symm]
  have wasReinserting : (s.lwp l).role dp = .reinserting := by simp [isAt, CacheLwp.role]
  unfold reinsert at done
  split at done
  case isTrue isadir =>
    cases done
    exact ⟨free, chain, fine.assignLwp wasElsewhere (fun _ _ => rfl) (fun role' others now =>
      (fine.fine dp).reinserted others wasReinserting now (.inl ⟨isadir, fun _ => Iff.rfl⟩))
      trivial⟩
  case isFalse notDirectory =>
    simp only [fine.unlocked] at done
    cases done
    have unhashed : ∀ deh, dp ∉ (chain deh).erase dp :=
      fun deh => (fine.isHashed.nodup deh).not_mem_erase
    let newDeh := deHash (vfsDev (s.denode dp).deVfs)
      (fileNumber (s.denode dp).deDirclust (s.denode dp).deDiroffset)
    have hashed := @IsHashed.dehash ndenode _ _ dp newDeh (fine.isHashed.deunhash dp) unhashed
    refine ⟨free, Function.update (fun deh => (chain deh).erase dp) newDeh
      (dp :: (chain newDeh).erase dp), ?_⟩
    refine @update ndenode vfsDev s _ free free chain _ l dp fine rfl
      fine.isFree hashed (fun _ _ => rfl) (fun _ _ => rfl)
      (fun _ _ => Iff.rfl) (fun other notDp deh => ?_)
      (fun other notL => update_of_ne notL _ _) wasElsewhere (fun other notDp => ?_) ?_ ?_
    · by_cases same : deh = newDeh
      · subst same
        simp [notDp, mem_erase_of_ne notDp]
      · rw [Function.update_of_ne same]
        exact mem_erase_of_ne notDp
    · simp only [CacheState.setLwp, Function.update_self]
      rfl
    · simp only [CacheState.setLwp]
      refine (fine.fine dp).reinserted (fun other notL => ?_) wasReinserting ?_
        (.inr ⟨not_eq_true _ ▸ notDirectory, fun deh => ?_⟩)
      · simp only [update_of_ne notL]
      · simp only [update_self]
        rfl
      · by_cases same : deh = newDeh
        · simp [same, newDeh]
        · have different : ¬ deh = deHash (vfsDev (s.denode dp).deVfs)
              (fileNumber (s.denode dp).deDirclust (s.denode dp).deDiroffset) := same
          simp [Function.update_of_ne same, different, unhashed deh]
    · simp only [CacheState.setLwp, Function.update_self]
      trivial

theorem assignIdle {change : CacheDenode → CacheDenode} (isIdle : s.lwp l = .idle)
    (now : DenodeFine vfsDev (change (s.denode dp)) (s.holds dp) (dp ∈ free)
      (fun deh => dp ∈ chain deh) fun other => (s.lwp other).role dp) :
    CacheFine vfsDev (s.setDenode dp change) free chain := by
  have noRole : ∀ other, (s.lwp l).role other = .none := by simp [isIdle, CacheLwp.role]
  refine @work ndenode vfsDev s _ free chain l dp fine rfl rfl rfl
    (fun other notDp => update_of_ne notDp _ _) (fun _ _ => rfl)
    (fun _ _ => rfl) (fun other _ => noRole other) (fun other _ => noRole other) ?_ (fine.sound l)
  simp only [CacheState.setDenode, update_self]
  exact now

theorem idle {action : CacheAction ndenode} (isIdle : s.lwp action.actor = .idle)
    (guard : CacheGuard vfsDev s action) (step : idleStep s action.actor action = some s') :
    ∃ free' chain', CacheFine vfsDev s' free' chain' := by
  have noRole : ∀ dp, (s.lwp action.actor).role dp = .none := by simp [isIdle, CacheLwp.role]
  cases action with
  | deget l request =>
    cases step
    exact ⟨free, chain, fine.elsewhere noRole (fun _ => rfl) ⟨rfl⟩⟩
  | run l outcome => cases step
  | lock l dep =>
    obtain ⟨isHeld, ⟨⟩⟩ := ite_none_left_eq_some.1 step
    refine ⟨free, chain, ?_⟩
    refine fine.lockOrWait ((fine.fine dep).notFree_of_holds isHeld)
      (fun other _ => noRole other) (.inl (noRole dep)) (fun _ _ => rfl)
      (fun other notDep => ?_) (.inl rfl) ?_ ?_ ?_ ?_ trivial trivial
    · simp [CacheLwp.role, notDep.symm]
    · simp [CacheLwp.role, Role.waits]
    · rw [noRole dep]
      exact Iff.rfl
    · rw [noRole dep]
      simp [CacheLwp.role, Role.releases]
    · intro request isAsked
      simp [CacheLwp.role, Role.asks] at isAsked
  | unlock l dep =>
    obtain ⟨isOwner, ⟨⟩⟩ := ite_none_right_eq_some.1 step
    refine ⟨free, chain, fine.assignIdle isIdle ?_⟩
    exact DenodeFine.letGo (fine.fine dep) (fun _ _ => rfl) isOwner
      (.inl (noRole dep)) (noRole dep)
  | hold l dep =>
    obtain ⟨isHeld, ⟨⟩⟩ := ite_none_left_eq_some.1 step
    exact ⟨free, chain, fine.holdAgain isIdle isHeld⟩
  | rele l dep =>
    obtain ⟨isHeld, ⟨⟩⟩ := ite_none_left_eq_some.1 step
    exact ⟨free, chain, fine.rele isIdle isHeld⟩
  | remove l dep =>
    obtain ⟨isOwner, ⟨⟩⟩ := ite_none_right_eq_some.1 step
    refine ⟨free, chain, fine.assignIdle isIdle ?_⟩
    exact DenodeFine.removed (fine.fine dep) isOwner (noRole dep)
  | move l dep dirclust diroffset =>
    simp only [idleStep] at step
    obtain ⟨isOwner, ⟨⟩⟩ := ite_none_right_eq_some.1 step
    refine ⟨free, chain, ?_⟩
    refine fine.assignFields (fun other _ => noRole other)
      (fun other notDep => ?_) (fun role' others now => ?_) trivial
    · simp [CacheLwp.role, notDep.symm]
    · refine (fine.fine dep).moved others isOwner (noRole dep) ?_
        (guard.imp_right fun unasked => ?_) dirclust diroffset
      · simp [now, CacheLwp.role]
      · exact fun other request isWaiting => unasked other request (lwp_of_waiting isWaiting)

theorem run {outcome : CacheOutcome} (guard : CacheGuard vfsDev s (.run l outcome))
    (step : lwpRun s vfsDev l outcome = some s') :
    ∃ free' chain', CacheFine vfsDev s' free' chain' := by
  have sound := fine.sound l
  unfold lwpRun at step
  split at step
  case h_1 => cases step
  case h_2 frame isAt =>
    obtain ⟨hits, misses⟩ := guard frame isAt
    simp only [degetLoop, fine.unlocked] at step
    split at step
    case h_1 ldep found =>
      cases step
      obtain ⟨noWriter, sameFile⟩ := hits ldep found
      exact ⟨_, _, fine.find isAt found noWriter sameFile⟩
    case h_2 missed =>
      cases step
      exact fine.miss isAt (misses missed)
  case h_3 frame isAt =>
    cases step
    have noRole : ∀ dp, (s.lwp l).role dp = .none := by simp [isAt, CacheLwp.role]
    rw [isAt] at sound
    refine ⟨free, chain, ?_⟩
    unfold degetPurged
    split
    case isTrue => exact fine.elsewhere noRole (fun _ => rfl) trivial
    case isFalse => exact fine.elsewhere noRole (fun _ => rfl) sound
  case h_4 request ldep isAt =>
    refine ⟨free, chain, ?_⟩
    refine @acquire ndenode vfsDev s s' free chain l ldep fine
      (.locked request ldep) ?_ ?_ ?_ ?_ ?_ ?_ trivial step
    · simp [isAt, CacheLwp.role, Role.waits]
    · exact fun other notDp => by simp [isAt, CacheLwp.role, notDp.symm]
    · exact fun other notDp => by simp [CacheLwp.role, notDp.symm]
    · exact .inr (.inr ⟨request, by simp [CacheLwp.role]⟩)
    · simp [isAt, CacheLwp.role, Role.releases]
    · simp [isAt, CacheLwp.role, Role.asks]
  case h_5 request ldep isAt =>
    cases step
    exact ⟨free, chain, fine.grant isAt⟩
  case h_6 frame ldep isAt =>
    cases step
    exact ⟨free, chain, fine.fillIn isAt⟩
  case h_7 request result isAt =>
    cases step
    refine ⟨free, chain, ?_⟩
    cases result with
    | found ldep =>
      refine @assignLwp ndenode vfsDev s free chain l ldep fine .idle
        (fun other notDp => ?_) (fun _ _ => rfl) (fun role' others now => ?_) trivial
      · simp [isAt, CacheLwp.role, notDp.symm]
      · refine @DenodeFine.handedOver vfsDev _ _ _ _ _ role' l request
          (fine.fine ldep) others ?_ now
        simp [isAt, CacheLwp.role]
    | enoent | enfile => exact fine.elsewhere (by simp [isAt, CacheLwp.role]) (fun _ => rfl) trivial
  case h_8 dep isAt =>
    refine ⟨free, chain, ?_⟩
    refine @acquire ndenode vfsDev s s' free chain l dep fine .idle ?_ ?_
      (fun _ _ => rfl) (.inl rfl) ?_ ?_ trivial step
    · simp [isAt, CacheLwp.role, Role.waits]
    · exact fun other notDp => by simp [isAt, CacheLwp.role, notDp.symm]
    · simp [isAt, CacheLwp.role, Role.releases]
    · simp [isAt, CacheLwp.role, Role.asks]
  case h_9 dep isAt => exact fine.rehash isAt step
  case h_10 dep back isAt =>
    cases step
    rw [isAt] at sound
    refine ⟨free, chain, ?_⟩
    have dpFine := fine.fine dep
    have notFree : dep ∉ free := by
      intro isFree
      obtain ⟨pending, tally, counted⟩ := dpFine.counted
      have noCount := dpFine.freeCount isFree
      obtain ⟨rest, isRest, -⟩ := @Tally.leave Nat _ (fun other => other ≠ l ∧
        ((s.lwp other).role dep).releases) pending l tally
        (by simp [isAt, CacheLwp.role, Role.releases]) (fun isL => isL.1 rfl)
        fun other notL => ⟨fun is => is.2, fun is => ⟨notL, is⟩⟩
      omega
    refine fine.lockOrWait notFree ?_ ?_ ?_ ?_ ?_ ?_ ?_ ?_ ?_
      (sound_inactive sound) (sound_inactive sound)
    · exact fun other notDp => by simp [isAt, CacheLwp.role, notDp.symm]
    · exact .inr (by simp [isAt, CacheLwp.role])
    · exact fun other notDp => role_inactive_of_ne notDp
    · exact fun other notDp => role_inactive_of_ne notDp
    · exact .inr (.inl role_inactive)
    · simp [CacheLwp.role, Role.waits]
    · simp [isAt, CacheLwp.role, Role.releases]
    · simp [isAt, CacheLwp.role, Role.releases]
    · intro request isAsked
      simp [CacheLwp.role, Role.asks] at isAsked
  case h_11 dep back isAt =>
    rw [isAt] at sound
    refine ⟨free, chain, ?_⟩
    refine @acquire ndenode vfsDev s s' free chain l dep fine (.inactive dep .counting back) ?_ ?_
      (fun other notDp => role_inactive_of_ne notDp) (.inr (.inl role_inactive))
      ?_ ?_ (sound_inactive sound) step
    · simp [isAt, CacheLwp.role, Role.waits]
    · exact fun other notDp => by simp [isAt, CacheLwp.role, notDp.symm]
    · simp [isAt, CacheLwp.role, Role.releases]
    · simp [CacheLwp.role, Role.asks]
  case h_12 dep back isAt =>
    cases step
    exact ⟨free, chain, fine.count isAt⟩
  case h_13 dep back isAt => exact fine.drain isAt step
  case h_14 dep back isAt =>
    cases step
    exact ⟨free, chain, fine.write isAt outcome.truncated⟩
  case h_15 dep back isAt =>
    cases step
    exact ⟨free, chain, fine.leave isAt⟩

end

theorem step (fine : CacheFine vfsDev s free chain) {action : CacheAction ndenode}
    (guard : CacheGuard vfsDev s action) (isStep : cacheStep vfsDev s action = some s') :
    ∃ free' chain', CacheFine vfsDev s' free' chain' := by
  unfold cacheStep at isStep
  split at isStep
  case h_1 l outcome => exact fine.run guard isStep
  case h_2 l dep frame isAt =>
    obtain ⟨isHeld, ⟨⟩⟩ := ite_none_left_eq_some.1 isStep
    exact ⟨free, chain, fine.rele isAt isHeld⟩
  case h_3 isIdle => exact fine.idle isIdle guard isStep
  case h_4 => cases isStep

end CacheFine

end Uw7.Dosfs.DenodeCache
