import Uw7.Dosfs.Clusters
import Uw7.Lib.Run

namespace Uw7.Dosfs

/-!
# Concurrent allocation and release of clusters

`clusteralloc` searches the map under `vfs_mutex`, drops the lock for the FAT
write and takes it again to mark the cluster; `clusterfree` writes the FAT and
then takes the lock.  Each such section is one step, and the steps of different
LWPs interleave.
-/

open Lib List

variable {Lwp : Type}

/-- Where an LWP stands in `clusteralloc` or `clusterfree`. -/
inductive Progress where
  | idle
  | found (cn fillwith : Nat)
  | written (cn : Nat)
  | freeing (cluster : Nat)
  deriving DecidableEq

/-- The file system and the progress of every LWP. -/
structure System (Lwp : Type) where
  pvp : DosfsVfs
  progress : Lwp → Progress

/-- The steps of the LWPs, with what they return. -/
inductive Event (Lwp : Type) where
  | search (lwp : Lwp) (fillwith : Nat)
  | writeFat (lwp : Lwp)
  | failFat (lwp : Lwp)
  | returnCluster (lwp : Lwp) (cn : Nat)
  | beginFree (lwp : Lwp) (cluster : Nat)
  | endFree (lwp : Lwp) (cluster : Nat)
  deriving DecidableEq

/-- An LWP has found the cluster and has not marked it yet. -/
def Pending (system : System Lwp) (lwp : Lwp) (cn : Nat) : Prop :=
  (∃ fillwith, system.progress lwp = .found cn fillwith) ∨ system.progress lwp = .written cn

section Steps

variable [DecidableEq Lwp]

def System.advance (system : System Lwp) (lwp : Lwp) (pvp : DosfsVfs)
    (progress : Progress) : System Lwp where
  pvp := pvp
  progress := Function.update system.progress lwp progress

/-- One section of `clusteralloc` or `clusterfree`. -/
inductive EventStep (before : System Lwp) : Event Lwp → System Lwp → Prop where
  | noSpace {lwp : Lwp} {fillwith : Nat} (ready : before.progress lwp = .idle)
      (full : findFree before.pvp = none) : EventStep before (.search lwp fillwith) before
  | search {lwp : Lwp} {cn fillwith : Nat} (ready : before.progress lwp = .idle)
      (finds : findFree before.pvp = some cn) :
      EventStep before (.search lwp fillwith) (before.advance lwp before.pvp (.found cn fillwith))
  | writeFat {lwp : Lwp} {cn fillwith : Nat} {lgeterror : Nat → Option Errno} {old : Option Nat}
      {pvp : DosfsVfs} (ready : before.progress lwp = .found cn fillwith)
      (writes : fatentry lgeterror before.pvp fatSet cn false fillwith = .ok (old, pvp)) :
      EventStep before (.writeFat lwp) (before.advance lwp pvp (.written cn))
  | failFat {lwp : Lwp} {cn fillwith : Nat} {lgeterror : Nat → Option Errno} {error : Errno}
      (ready : before.progress lwp = .found cn fillwith)
      (fails : fatentry lgeterror before.pvp fatSet cn false fillwith = .error error) :
      EventStep before (.failFat lwp) (before.advance lwp before.pvp .idle)
  | returnCluster {lwp : Lwp} {cn : Nat} (ready : before.progress lwp = .written cn) :
      EventStep before (.returnCluster lwp cn) (before.advance lwp (markInUse before.pvp cn) .idle)
  | beginFree {lwp : Lwp} {cluster : Nat} {lgeterror : Nat → Option Errno} {old : Option Nat}
      {pvp : DosfsVfs} (ready : before.progress lwp = .idle)
      (writes : fatentry lgeterror before.pvp fatSet cluster false clustFree = .ok (old, pvp)) :
      EventStep before (.beginFree lwp cluster) (before.advance lwp pvp (.freeing cluster))
  | failFree {lwp : Lwp} {cluster : Nat} {lgeterror : Nat → Option Errno} {error : Errno}
      (ready : before.progress lwp = .idle)
      (fails : fatentry lgeterror before.pvp fatSet cluster false clustFree = .error error) :
      EventStep before (.beginFree lwp cluster) before
  | endFree {lwp : Lwp} {cluster : Nat} (ready : before.progress lwp = .freeing cluster) :
      EventStep before (.endFree lwp cluster)
        (before.advance lwp (markFree before.pvp cluster) .idle)

end Steps

/--
A search is made only while some cluster below every pending one is clear, so
that it finds none of these.
-/
def SearchesElsewhere (before : System Lwp) : Event Lwp → Prop
  | .search _ _ =>
    ∀ other cn, Pending before other cn → ∃ lower, lower < cn ∧
        inUse before.pvp.vfsInusemap lower = false
  | _ => True

/-- The event gives the cluster back. -/
def Frees (cluster : Nat) : Event Lwp → Prop
  | .endFree _ freed => freed = cluster
  | _ => False

def Returns (cluster : Nat) : Event Lwp → Prop
  | .returnCluster _ cn => cn = cluster
  | _ => False

def Outstanding (events : List (Event Lwp)) (cluster : Nat) : Prop := ∃ earlier returned since,
    events = earlier ++ returned :: since ∧ Returns cluster returned ∧
      ∀ event ∈ since, ¬ Frees cluster event

/-- No cluster is returned twice without being freed in between. -/
def NoDoubleReturn (events : List (Event Lwp)) : Prop := ∀ earlier returned since cluster,
    events = earlier ++ returned :: since → Returns cluster returned → ¬ Outstanding earlier cluster

theorem outstanding_append {events : List (Event Lwp)} {event : Event Lwp} {cluster : Nat}
    (outstanding : Outstanding (events ++ [event]) cluster) :
    Returns cluster event ∨ (Outstanding events cluster ∧ ¬ Frees cluster event) := by
  obtain ⟨earlier, returned, since, split, returns, kept⟩ := outstanding
  rcases eq_nil_or_concat since with isEmpty | ⟨front, last, isLast⟩
  · subst since
    obtain ⟨-, rfl⟩ : events = earlier ∧ event = returned := by simpa using append_inj' split rfl
    exact .inl returns
  · subst since
    rw [concat_eq_append, ← cons_append, ← append_assoc] at split
    obtain ⟨same, lastSame⟩ := append_inj' split rfl
    obtain rfl : event = last := by simpa using lastSame
    exact .inr ⟨⟨earlier, returned, front, same, returns, fun other member =>
        kept other (by simp [member])⟩, kept event (by simp)⟩

theorem NoDoubleReturn.append {events : List (Event Lwp)} {event : Event Lwp}
    (holds : NoDoubleReturn events)
    (fresh : ∀ cluster, Returns cluster event → ¬ Outstanding events cluster) :
    NoDoubleReturn (events ++ [event]) := by
  intro earlier returned since cluster split returns
  rcases eq_nil_or_concat since with isEmpty | ⟨front, last, isLast⟩
  · subst since
    obtain ⟨rfl, rfl⟩ : events = earlier ∧ event = returned := by simpa using append_inj' split rfl
    exact fresh cluster returns
  · subst since
    rw [concat_eq_append, ← cons_append, ← append_assoc] at split
    obtain ⟨same, -⟩ := append_inj' split rfl
    exact holds earlier returned front cluster same returns

/-- What holds of the pending and the outstanding clusters. -/
structure Exclusive (system : System Lwp) (events : List (Event Lwp)) : Prop where
  pendingClear : ∀ lwp cn, Pending system lwp cn → inUse system.pvp.vfsInusemap cn = false
  pendingOnce : ∀ lwp other cn, Pending system lwp cn → Pending system other cn → lwp = other
  outstandingSet : ∀ cn, Outstanding events cn → inUse system.pvp.vfsInusemap cn = true
  noDoubleReturn : NoDoubleReturn events

section Invariant

variable [DecidableEq Lwp]
variable {before after : System Lwp} {events : List (Event Lwp)}
variable {event : Event Lwp}

variable {lwp other : Lwp} {pvp : DosfsVfs} {progress : Progress} {cn : Nat}

theorem pending_advance (pending : Pending (before.advance lwp pvp progress) other cn) :
    (other = lwp ∧ ((∃ fillwith, progress = .found cn fillwith) ∨ progress = .written cn)) ∨
      (other ≠ lwp ∧ Pending before other cn) := by
  by_cases same : other = lwp
  · subst other
    simpa [Pending, System.advance] using pending
  · refine .inr ⟨same, ?_⟩
    simpa [Pending, System.advance, same] using pending

theorem not_pending_advance
    (neither : (∀ fillwith, progress ≠ .found cn fillwith) ∧ progress ≠ .written cn)
    (pending : Pending (before.advance lwp pvp progress) other cn) :
    other ≠ lwp ∧ Pending before other cn := by
  rcases pending_advance pending with ⟨-, isNew⟩ | old
  · rcases isNew with ⟨fillwith, isFound⟩ | isWritten
    · exact absurd isFound (neither.1 fillwith)
    · exact absurd isWritten neither.2
  · exact old

theorem fatentry_inusemap {lgeterror : Nat → Option Errno} {written : DosfsVfs}
    {function cluster newcontents : Nat} {oldcontents : Bool} {old : Option Nat}
    (writes : fatentry lgeterror pvp function cluster oldcontents newcontents = .ok (old, written))
    : written.vfsInusemap = pvp.vfsInusemap ∧
      written.vfsFreeclustercount = pvp.vfsFreeclustercount := by
  obtain ⟨-, -, result⟩ := fatentry_ok writes
  rw [(Prod.mk.inj result).2]
  split_ifs <;> exact ⟨rfl, rfl⟩

omit [DecidableEq Lwp] in
theorem Exclusive.quiet (exclusive : Exclusive before events)
    (noReturn : ∀ cluster, ¬ Returns cluster event)
    (sameMap : after.pvp.vfsInusemap = before.pvp.vfsInusemap)
    (pendingBefore : ∀ lwp cn, Pending after lwp cn → inUse before.pvp.vfsInusemap cn = false)
    (pendingOnce : ∀ lwp other cn, Pending after lwp cn → Pending after other cn → lwp = other) :
    Exclusive after (events ++ [event]) where
  pendingClear := by
    rw [sameMap]
    exact pendingBefore
  pendingOnce := pendingOnce
  outstandingSet := by
    intro cn outstanding
    rcases outstanding_append outstanding with returns | ⟨earlier, -⟩
    · exact absurd returns (noReturn cn)
    · rw [sameMap]
      exact exclusive.outstandingSet cn earlier
  noDoubleReturn := exclusive.noDoubleReturn.append fun cluster returns =>
      absurd returns (noReturn cluster)

theorem Exclusive.quiet_advance (exclusive : Exclusive before events)
    (noReturn : ∀ cluster, ¬ Returns cluster event)
    (sameMap : pvp.vfsInusemap = before.pvp.vfsInusemap)
    (kept : ∀ cn, ((∃ fillwith, progress = .found cn fillwith) ∨ progress = .written cn) →
        Pending before lwp cn) :
    Exclusive (before.advance lwp pvp progress) (events ++ [event]) := by
  have earlier : ∀ other cn, Pending (before.advance lwp pvp progress) other cn →
      Pending before other cn := by
    intro other cn pending
    rcases pending_advance pending with ⟨rfl, isNew⟩ | ⟨-, old⟩
    · exact kept cn isNew
    · exact old
  exact exclusive.quiet noReturn sameMap (fun other cn pending =>
      exclusive.pendingClear other cn (earlier other cn pending))
    fun first second cn firstPending secondPending =>
      exclusive.pendingOnce first second cn
        (earlier first cn firstPending) (earlier second cn secondPending)

/-- Every step whose searches find no pending cluster keeps the invariant. -/
theorem EventStep.exclusive (exclusive : Exclusive before events)
    (elsewhere : SearchesElsewhere before event) (taken : EventStep before event after) :
    Exclusive after (events ++ [event]) := by
  cases taken with
  | noSpace ready full =>
    exact exclusive.quiet (fun _ => id) rfl exclusive.pendingClear exclusive.pendingOnce
  | @search lwp cn fillwith ready finds =>
    obtain ⟨clear, firstClear⟩ := findFree_some finds
    -- No LWP has found this cluster before.
    have unclaimed : ∀ other, ¬ Pending before other cn := by
      intro other pending
      obtain ⟨lower, under, lowerClear⟩ := elsewhere other cn pending
      simp [firstClear lower under] at lowerClear
    have cases_ : ∀ other number, Pending (before.advance lwp before.pvp (.found cn fillwith))
        other number →
        (other = lwp ∧ number = cn) ∨ (other ≠ lwp ∧ Pending before other number) := by
      intro other number pending
      rcases pending_advance pending with ⟨isLwp, isNew⟩ | old
      · simp only [Progress.found.injEq, reduceCtorEq, or_false] at isNew
        obtain ⟨_, sameNumber, _⟩ := isNew
        exact .inl ⟨isLwp, sameNumber.symm⟩
      · exact .inr old
    refine exclusive.quiet (fun _ => id) rfl ?_ ?_
    · intro other number pending
      rcases cases_ other number pending with ⟨-, rfl⟩ | ⟨-, old⟩
      · exact clear
      · exact exclusive.pendingClear other number old
    · intro first second number firstPending secondPending
      rcases cases_ first number firstPending with
        ⟨firstLwp, isFound⟩ | ⟨-, firstOld⟩ <;>
      rcases cases_ second number secondPending with
        ⟨secondLwp, alsoFound⟩ | ⟨-, secondOld⟩
      · exact firstLwp.trans secondLwp.symm
      · exact absurd (isFound ▸ secondOld) (unclaimed second)
      · exact absurd (alsoFound ▸ firstOld) (unclaimed first)
      · exact exclusive.pendingOnce first second number firstOld secondOld
  | writeFat ready writes =>
    refine exclusive.quiet_advance (fun _ => id) (fatentry_inusemap writes).1 fun number isNew => ?_
    simp only [reduceCtorEq, exists_const, Progress.written.injEq, false_or] at isNew
    exact .inl ⟨_, isNew ▸ ready⟩
  | failFat ready fails =>
    exact exclusive.quiet_advance (fun _ => id) rfl fun number isNew => by simp at isNew
  | beginFree ready writes =>
    exact exclusive.quiet_advance (fun _ => id) (fatentry_inusemap writes).1
      fun number isNew => by simp at isNew
  | failFree ready fails =>
    exact exclusive.quiet (fun _ => id) rfl exclusive.pendingClear exclusive.pendingOnce
  | @returnCluster lwp cn ready =>
    have mine : Pending before lwp cn := .inr ready
    have others : ∀ other number, Pending (before.advance lwp (markInUse before.pvp cn) .idle)
        other number → other ≠ lwp ∧ Pending before other number :=
      fun other number pending => not_pending_advance ⟨by simp, by simp⟩ pending
    exact
      { pendingClear := by
          intro other number pending
          obtain ⟨different, old⟩ := others other number pending
          have notReturned : number ≠ cn := by
            rintro rfl
            exact different (exclusive.pendingOnce other lwp number old mine)
          simpa [System.advance, markInUse, notReturned]
            using exclusive.pendingClear other number old
        pendingOnce := fun first second number firstOld secondOld =>
          exclusive.pendingOnce first second number (others first number firstOld).2
            (others second number secondOld).2
        outstandingSet := by
          intro number outstanding
          rcases outstanding_append outstanding with
            returns | ⟨earlier, -⟩
          · have sameNumber : cn = number := returns
            simp [System.advance, markInUse, sameNumber]
          · simp [System.advance, markInUse, exclusive.outstandingSet number earlier]
        noDoubleReturn := exclusive.noDoubleReturn.append fun number returns outstanding => by
            have sameNumber : cn = number := returns
            have isSet := exclusive.outstandingSet number outstanding
            rw [← sameNumber, exclusive.pendingClear lwp cn mine] at isSet
            exact absurd isSet (by decide) }
  | @endFree lwp cluster ready =>
    have others : ∀ other number, Pending (before.advance lwp (markFree before.pvp cluster) .idle)
        other number → other ≠ lwp ∧ Pending before other number :=
      fun other number pending => not_pending_advance ⟨by simp, by simp⟩ pending
    exact
      { pendingClear := by
          intro other number pending
          have clear := exclusive.pendingClear other number (others other number pending).2
          simp [System.advance, markFree, clear]
        pendingOnce := fun first second number firstOld secondOld =>
          exclusive.pendingOnce first second number (others first number firstOld).2
            (others second number secondOld).2
        outstandingSet := by
          intro number outstanding
          rcases outstanding_append outstanding with
            returns | ⟨earlier, notFreed⟩
          · exact absurd returns id
          · have different : number ≠ cluster := fun same =>
              notFreed same.symm
            simp [System.advance, markFree, different, exclusive.outstandingSet number earlier]
        noDoubleReturn := exclusive.noDoubleReturn.append fun _ returns => absurd returns id }

theorem concurrent_alloc_exclusive (initial final : System Lwp) (events : List (Event Lwp))
    (start : ∀ lwp, initial.progress lwp = .idle)
    (run : Run (Guarded EventStep SearchesElsewhere) initial events final) :
    NoDoubleReturn events ∧ ∀ lwp cn fillwith after, final.progress lwp = .found cn fillwith →
        EventStep final (.failFat lwp) after →
        inUse after.pvp.vfsInusemap cn = false ∧ after.pvp = final.pvp := by
  have exclusive : Exclusive final events := by
    induction run with
    | nil =>
      exact
        { pendingClear := by simp [Pending, start]
          pendingOnce := by simp [Pending, start]
          outstandingSet := by simp [Outstanding]
          noDoubleReturn := by simp [NoDoubleReturn] }
    | snoc earlier last ih => exact EventStep.exclusive ih last.2 last.1
  refine ⟨exclusive.noDoubleReturn, ?_⟩
  intro lwp cn fillwith after found taken
  cases taken with
  | failFat ready fails => exact ⟨exclusive.pendingClear lwp cn (.inl ⟨fillwith, found⟩), rfl⟩

end Invariant

/-- A volume with 99 clusters, all free, and two idle LWPs. -/
def sampleSystem : System (Fin 2) where
  pvp :=
    { sampleVfs 100 1 with
      vfsFreeclustercount := 99
      vfsInusemap := fun byte => if byte = 0 then 3 else 0 }
  progress := fun _ => .idle

theorem sample_write (pvp : DosfsVfs) (sameRange : pvp.vfsMaxcluster = 100) :
    fatentry (fun _ => none) pvp fatSet 2 false clustEofe = .ok (none, setEntry pvp 2 clustEofe) :=
  fatentry_of_readable (fun _ => rfl) (by decide)
    (fun gets => absurd rfl gets) (by decide) (by omega)

theorem sample_search : findFree sampleSystem.pvp = some 2 := by decide +kernel

theorem concurrent_alloc_exclusive_single : NoDoubleReturn [.search 0 clustEofe, .writeFat 0,
    Event.returnCluster (0 : Fin 2) 2] :=
  (concurrent_alloc_exclusive sampleSystem _ _ (fun _ => rfl) (((Run.nil.snoc
      ⟨.search (by rfl) sample_search, fun _ _ pending =>
        absurd pending (by simp [Pending, sampleSystem])⟩).snoc
      ⟨.writeFat (by rfl) (sample_write _ rfl), trivial⟩).snoc
      ⟨.returnCluster (by rfl), trivial⟩)).1

theorem racing_searches_return_twice : ∃ final, Run EventStep sampleSystem
    [.search 0 clustEofe, .search 1 clustEofe, .writeFat 0,
      .writeFat 1, .returnCluster 0 2, .returnCluster 1 2] final ∧
    ¬ NoDoubleReturn [.search 0 clustEofe, .search 1 clustEofe, .writeFat 0,
        .writeFat 1, .returnCluster 0 2, Event.returnCluster (1 : Fin 2) 2] := by
  refine ⟨_, Run.snoc (Run.snoc (Run.snoc (Run.snoc (Run.snoc (Run.snoc Run.nil
      (.search (by rfl) sample_search)) (.search (by rfl) sample_search))
      (.writeFat (by rfl) (sample_write _ rfl))) (.writeFat (by rfl) (sample_write _ rfl)))
      (.returnCluster (by rfl))) (.returnCluster (by rfl)), ?_⟩
  intro noDouble
  refine noDouble [.search 0 clustEofe, .search 1 clustEofe, .writeFat 0, .writeFat 1,
      .returnCluster 0 2]
    (.returnCluster 1 2) [] 2 rfl rfl ?_
  exact ⟨[.search 0 clustEofe, .search 1 clustEofe, .writeFat 0, .writeFat 1],
      .returnCluster 0 2, [], rfl, rfl, by simp⟩

end Uw7.Dosfs
