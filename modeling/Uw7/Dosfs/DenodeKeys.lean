import Uw7.Dosfs.DenodeRoles

namespace Uw7.Dosfs.DenodeCache

/-!
# The key of a denode

A denode gets its key when `deget` fills it in, and `dosfs_rename` changes the
key of a file.  Both are seen on one denode here.
-/

open Lib

variable {vfsDev : Nat → Nat} {d : CacheDenode} {request : DegetRequest} {frame : DegetFrame}

/-- A call of `deget` that may fill in a denode. -/
structure DegetFrame.Sound (frame : DegetFrame) : Prop where
  /-- The directory entry is the caller's. -/
  own : frame.direntp = frame.request.direntp

/-- A call of `deget` that has a directory entry, or needs none. -/
def DegetFrame.Ready (frame : DegetFrame) : Prop :=
  frame.request.isRoot = true ∨ ∃ entry, frame.direntp = some entry

def DegetFrame.fill (frame : DegetFrame) (d : CacheDenode) : CacheDenode :=
  { frame.copyEntry d with
    vCount := 1
    vVfsp := some frame.request.vfsp
    deVfs := frame.request.vfsp
    deRefcnt := 1
    deDirclust := frame.request.dirclust
    deDiroffset := frame.request.diroffset }

theorem copyEntry_frame : (frame.copyEntry d).deLock = d.deLock ∧
    (frame.copyEntry d).waiters = d.waiters ∧ (frame.copyEntry d).deref = d.deref ∧
    (frame.copyEntry d).deDev = d.deDev := by
  unfold DegetFrame.copyEntry
  split
  · exact ⟨rfl, rfl, rfl, rfl⟩
  · split <;> exact ⟨rfl, rfl, rfl, rfl⟩

theorem copyEntry_key (sound : frame.Sound) (ready : frame.Ready) :
    (frame.copyEntry d).isadir = frame.request.isadir ∧ (frame.request.isadir = true →
      (frame.copyEntry d).deStartCluster = frame.request.startclust) := by
  by_cases isRoot : frame.request.isRoot = true
  · have rootKey := isRoot
    simp only [DegetRequest.isRoot, Bool.and_eq_true, beq_iff_eq] at rootKey
    obtain ⟨start, isadir⟩ := rootKey
    simp only [DegetFrame.copyEntry, isRoot, if_true, CacheDenode.isadir, start, isadir]
    exact ⟨rfl, fun _ => trivial⟩
  · obtain ⟨entry, isEntry⟩ := ready.resolve_left isRoot
    simp only [DegetFrame.copyEntry, isRoot, isEntry, CacheDenode.isadir]
    exact frame.request.agrees entry (sound.own ▸ isEntry)

theorem hasKey_fill (sound : frame.Sound) (ready : frame.Ready)
    (device : d.deDev = vfsDev frame.request.vfsp) :
    (frame.fill d).hasKey vfsDev frame.request = true := by
  obtain ⟨kind, start⟩ := @copyEntry_key d frame sound ready
  have isadir : (frame.fill d).isadir = frame.request.isadir := kind
  have sameDevice : (frame.fill d).deDev = vfsDev frame.request.vfsp :=
    copyEntry_frame.2.2.2.trans device
  simp only [CacheDenode.hasKey, isadir, sameDevice]
  cases isDirectory : frame.request.isadir with
  | true => simp [DegetFrame.fill, start isDirectory]
  | false => simp [DegetFrame.fill]

theorem deh_fill (sound : frame.Sound) (ready : frame.Ready)
    (device : d.deDev = vfsDev frame.request.vfsp) :
    (frame.fill d).deh = frame.request.deh vfsDev := by
  obtain ⟨kind, start⟩ := @copyEntry_key d frame sound ready
  have isadir : (frame.fill d).isadir = frame.request.isadir := kind
  have sameDevice : (frame.fill d).deDev = vfsDev frame.request.vfsp :=
    copyEntry_frame.2.2.2.trans device
  simp only [CacheDenode.deh, DegetRequest.deh, isadir, sameDevice]
  cases isDirectory : frame.request.isadir with
  | true =>
    have sameStart : (frame.fill d).deStartCluster = frame.request.startclust := start isDirectory
    simp [sameStart]
  | false => simp [DegetFrame.fill]

theorem SameKey.hasKey {other : DegetRequest} (same : SameKey vfsDev request other)
    (isRequested : d.hasKey vfsDev request = true) : d.hasKey vfsDev other = true := by
  obtain ⟨-, vfsp, isadir, place⟩ := same
  simp only [CacheDenode.hasKey, Bool.and_eq_true, beq_iff_eq, ← vfsp, ← isadir] at isRequested ⊢
  refine ⟨isRequested.1, ?_⟩
  have found := isRequested.2
  cases isDirectory : request.isadir with
  | true =>
    rw [isDirectory, if_pos rfl] at place
    rw [isDirectory] at found
    rw [← place]
    exact found
  | false =>
    rw [isDirectory, if_neg (by simp)] at place
    rw [isDirectory] at found
    rw [← place.1, ← place.2]
    cases isKind : d.isadir with
    | true => simp [isKind] at found
    | false => simpa [isKind] using found

namespace DenodeFine

variable {holds l : Nat} {free : Prop} {on on' : Nat → Prop} {role role' : Nat → Role}

section

variable (fine : DenodeFine vfsDev d holds free on role)
include fine

/-- `deget` takes a denode from the free list. -/
theorem taken (isFree : free)
    (available : d.deLock = none) (others : ∀ other, other ≠ l → role' other = role other)
    (wasOut : role l = .none) (isNow : role' l = .filling frame)
    (chained : ∀ deh, on' deh ↔ deh = frame.request.deh vfsDev) : DenodeFine vfsDev
      { d with
        deref := true
        deDev := vfsDev frame.request.vfsp
        deLock := some l }
      holds False on' role' := by
  have nobodyOwns : ∀ other, ¬ (role other).owns := by
    intro other owns
    have isOwner := fine.owns other owns
    rw [available] at isOwner
    cases isOwner
  have nobodyWaits : ∀ other, ¬ (role other).waits := by
    intro other waits
    have member := fine.waits other waits
    rw [fine.freeWaiters isFree] at member
    cases member
  have onlyFiller : ∀ other, (role' other).owns → other = l := by
    intro other owns
    by_contra notL
    rw [others other notL] at owns
    exact nobodyOwns other owns
  have nobodyAsks : ∀ other request, ¬ (role' other).asks request := by
    intro other request isAsked
    by_cases same : other = l
    · grind
    · rw [others other same] at isAsked
      rcases Role.waits_or_owns_of_asks isAsked with waits | owns
      · exact nobodyWaits other waits
      · exact nobodyOwns other owns
  constructor
  case hashed => exact fun _ => ⟨frame.request.deh vfsDev, (chained _).mpr rfl⟩
  case fitsFiller =>
    intro deh other frame' onChain isFilling
    have isL := onlyFiller other (by simp [isFilling, Role.owns])
    subst other
    rw [isNow] at isFilling
    cases isFilling
    exact (chained deh).mp onChain
  case fits => exact fun deh _ noFiller _ => absurd isNow (noFiller l frame)
  case counted => exact fine.stillCounted others (by simp [wasOut, isNow, Role.releases])
  case freeCount => exact False.elim
  case freeWaiters => exact False.elim
  case freeLock => exact False.elim
  case unflagged => exact fun isFalse => by cases isFalse
  case flagged => exact False.elim
  case waits =>
    exact fun other waits => absurd (of_others others (by grind) waits).2 (nobodyWaits other)
  case owns =>
    intro other owns
    rw [onlyFiller other owns]
  case writes =>
    intro other isWriting
    have isL := onlyFiller other (by simp [isWriting, Role.owns])
    grind
  case drains =>
    intro other isDraining
    have isL := onlyFiller other (by simp [isDraining, Role.owns])
    grind
  case fills =>
    intro other frame' isFilling
    have isL := onlyFiller other (by simp [isFilling, Role.owns])
    subst other
    rw [isNow] at isFilling
    cases isFilling
    exact ⟨fine.freeCount isFree, rfl⟩
  case device => exact fun deh _ noFiller => absurd isNow (noFiller l frame)
  case asked =>
    exact fun other request isAsked _ => absurd isAsked (nobodyAsks other request)
  case askedFiller =>
    exact fun other request filler frame isAsked _ => absurd isAsked (nobodyAsks other request)

theorem filled
    (others : ∀ other, other ≠ l → role' other = role other) (wasFilling : role l = .filling frame)
    (isNow : role' l = .got frame.request) (sound : frame.Sound) (ready : frame.Ready) :
    DenodeFine vfsDev (frame.fill d) (holds + 1) free on role' := by
  have owned : (role l).owns := by simp [wasFilling, Role.owns]
  have owner := fine.owns l owned
  have notFree : ¬ free := fine.notFree_of_owner owner (by simp [wasFilling]) (by simp [wasFilling])
  obtain ⟨noCount, device⟩ := fine.fills l frame wasFilling
  obtain ⟨sameLock, sameWaiters, sameFlag, sameDevice⟩ := @copyEntry_frame d frame
  refine ofOwner notFree (sameLock.trans owner) (fine.onlyOwner others owner)
    (by simp [isNow]) (fine.hashed notFree) ?_ ?_
    (fun isFalse => fine.unflagged (sameFlag.symm.trans isFalse)) ?_
    (fun _ _ => (sameDevice.trans device).symm) ?_
  · intro deh onChain _
    rw [deh_fill sound ready device]
    exact fine.fitsFiller deh l frame onChain wasFilling
  · obtain ⟨pending, tally, counted⟩ :=
      fine.stillCounted others (by simp [wasFilling, isNow, Role.releases])
    refine ⟨pending, tally, ?_⟩
    change 1 = holds + 1 + pending
    omega
  · rw [show (frame.fill d).waiters = d.waiters from sameWaiters]
    exact fun other waits => fine.waits other (of_others others (by grind) waits).2
  · intro other request isAsked
    have isOwn := hasKey_fill sound ready device
    by_cases same : other = l
    · subst other
      rw [isNow] at isAsked
      have isRequest : frame.request = request := isAsked
      rw [← isRequest]
      exact isOwn
    · rw [others other same] at isAsked
      exact (fine.askedFiller other request l frame isAsked wasFilling).hasKey isOwn

theorem removed (owner : d.deLock = some l)
    (outside : role l = .none) :
    DenodeFine vfsDev { d with deRefcnt := d.deRefcnt - 1 } holds free on role where
  __ := fine
  writes := by
    intro other isWriting
    have isL := fine.owner_unique owner (by simp [isWriting, Role.owns] : (role other).owns)
    subst other
    rw [outside] at isWriting
    cases isWriting

end

section

variable (fine : DenodeFine vfsDev d holds free on role)
  (others : ∀ other, other ≠ l → role' other = role other)
include fine others

/-- `dosfs_rename` gives a file that no `deget` waits for another place. -/
theorem moved (owner : d.deLock = some l) (outside : role l = .none)
    (isNow : role' l = .reinserting)
    (unasked : d.isadir = true ∨ ∀ other request, role other ≠ .waiting request)
    (dirclust diroffset : Nat) :
    DenodeFine vfsDev { d with deDirclust := dirclust, deDiroffset := diroffset } holds free
      on role' := by
  have notFree : ¬ free := fine.notFree_of_owner owner (by simp [outside]) (by simp [outside])
  have wasUnfilled : Unfilled role := fine.unfilled_of_owner owner (by simp [outside])
  refine ofOwner notFree owner (fine.onlyOwner others owner) (by simp [isNow])
    (fine.hashed notFree) ?_ (fine.stillCounted others (by simp [outside, isNow, Role.releases]))
    fine.unflagged (fun other waits => fine.waits other (of_others others (by grind) waits).2)
    (fun deh onChain => fine.device deh onChain wasUnfilled) ?_
  · intro deh onChain settled
    have isadir : d.isadir = true := settled.resolve_right fun none => none l isNow
    have stays := fine.fits deh onChain wasUnfilled (.inl isadir)
    have stillDirectory : CacheDenode.isadir
        { d with deDirclust := dirclust, deDiroffset := diroffset } =
          true := isadir
    rw [stays]
    simp only [CacheDenode.deh, isadir, stillDirectory, if_true]
  · intro other request isAsked
    obtain ⟨notL, wasAsked⟩ :=
      @of_others _ _ _ others (Role.asks request) (by grind) _ isAsked
    have waits : (role other).waits := by
      rcases Role.waits_or_owns_of_asks wasAsked with waits | owns
      · exact waits
      · exact absurd (fine.owner_unique owner owns) notL
    have isadir : d.isadir = true := by
      refine unasked.resolve_right fun unasked => ?_
      exact unasked other request (Role.eq_waiting wasAsked waits)
    have wasKey := fine.asked other request wasAsked wasUnfilled
    have stillDirectory : CacheDenode.isadir
        { d with deDirclust := dirclust, deDiroffset := diroffset } =
          true := isadir
    simp only [CacheDenode.hasKey, isadir, stillDirectory, if_true] at wasKey ⊢
    exact wasKey

/-- `reinsert` puts a file on the chain of its new place. -/
theorem reinserted (wasReinserting : role l = .reinserting) (isNow : role' l = .none)
    (chained : d.isadir = true ∧ (∀ deh, on' deh ↔ on deh) ∨ d.isadir = false ∧ ∀ deh, on' deh ↔
      deh = deHash (vfsDev d.deVfs) (fileNumber d.deDirclust d.deDiroffset)) :
    DenodeFine vfsDev d holds free on' role' := by
  have owned : (role l).owns := by simp [wasReinserting, Role.owns]
  have owner := fine.owns l owned
  have notFree : ¬ free := fine.notFree_of_owner owner (by simp [wasReinserting])
      (by simp [wasReinserting])
  have wasUnfilled : Unfilled role := fine.unfilled_of_owner owner (by simp [wasReinserting])
  obtain ⟨deh, onChain⟩ := fine.hashed notFree
  have device := fine.device deh onChain wasUnfilled
  refine ofOwner notFree owner (fine.onlyOwner others owner) (by simp [isNow]) ?_ ?_
    (fine.stillCounted others (by simp [wasReinserting, isNow, Role.releases])) fine.unflagged
    (fun other waits => fine.waits other (of_others others (by grind) waits).2)
    (fun _ _ => device) fun other request isAsked => ?_
  · rcases chained with ⟨-, chained⟩ | ⟨-, chained⟩
    · exact ⟨deh, (chained deh).mpr onChain⟩
    · exact ⟨_, (chained _).mpr rfl⟩
  · intro deh onChain _
    rcases chained with ⟨isadir, chained⟩ | ⟨notDirectory, chained⟩
    · exact fine.fits deh ((chained deh).mp onChain) wasUnfilled (.inl isadir)
    · rw [(chained deh).mp onChain, device]
      simp [CacheDenode.deh, notDirectory]
  · obtain ⟨-, wasAsked⟩ :=
      @of_others _ _ _ others (Role.asks request) (by grind) _ isAsked
    exact fine.asked other request wasAsked wasUnfilled

end

end DenodeFine

end Uw7.Dosfs.DenodeCache
