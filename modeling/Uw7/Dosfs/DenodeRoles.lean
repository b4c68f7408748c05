import Uw7.Dosfs.DenodeCache
import Uw7.Lib.Tally

namespace Uw7.Dosfs.DenodeCache

/-!
# What LWPs do to one denode

A step of the cache changes one denode.  The invariant of a denode is about its
fields, the lists it is on and the role every LWP plays for it; what a step does
to it is a lemma about these alone.
-/

open Lib

/-- What an LWP does to a denode. -/
inductive Role where
  /-- Nothing; it may own the lock. -/
  | none
  /-- It is to get the denode from `deget`, and waits for the lock. -/
  | waiting (request : DegetRequest)
  /-- It is to get the denode from `deget`, and owns the lock. -/
  | locked (request : DegetRequest)
  /-- It fills in the denode. -/
  | filling (frame : DegetFrame)
  /-- `deget` returns the denode to it. -/
  | got (request : DegetRequest)
  /-- It waits for the lock outside the cache. -/
  | deLock
  /-- It is about to put the denode on another hash chain. -/
  | reinserting
  /-- It is in `dosfs_inactive`. -/
  | inactive (phase : InactivePhase)

namespace Role

@[grind] def waits : Role → Prop
  | waiting _ | deLock | inactive .blocked => True
  | _ => False

@[grind] def owns : Role → Prop
  | locked _ | filling _ | got _ | reinserting => True
  | inactive phase => phase ≠ .entering ∧ phase ≠ .blocked
  | _ => False

/-- It has a reference that it is giving up. -/
@[grind] def releases : Role → Prop
  | inactive phase => phase = .entering ∨ phase = .blocked ∨ phase = .counting
  | _ => False

@[grind] def asks (request : DegetRequest) : Role → Prop
  | waiting own | locked own | got own => own = request
  | _ => False

theorem not_owns_of_waits {role : Role} (isWaiting : role.waits) : ¬ role.owns := by
  cases role with
  | inactive phase => cases phase <;> simp_all [waits, owns]
  | _ => simp_all [waits, owns]

theorem eq_waiting {role : Role} {request : DegetRequest} (isAsking : role.asks request)
    (isWaiting : role.waits) : role = .waiting request := by
  cases role with
  | waiting own =>
    obtain rfl : own = request := isAsking
    rfl
  | locked own | got own => exact isWaiting.elim
  | _ => exact isAsking.elim

theorem waits_or_owns_of_asks {role : Role} {request : DegetRequest} (isAsked : role.asks request) :
    role.waits ∨ role.owns := by
  cases role <;> simp_all [asks, waits, owns]

end Role

/-- The role of an LWP for a denode. -/
def CacheLwp.role {ndenode : Nat} (lwp : CacheLwp ndenode) (dp : Fin ndenode) : Role :=
  match lwp with
  | .waiting request ldep => if ldep = dp then .waiting request else .none
  | .locked request ldep => if ldep = dp then .locked request else .none
  | .filling frame ldep => if ldep = dp then .filling frame else .none
  | .done request (.found ldep) => if ldep = dp then .got request else .none
  | .deLock dep => if dep = dp then .deLock else .none
  | .reinserting dep => if dep = dp then .reinserting else .none
  | .inactive dep phase _ => if dep = dp then .inactive phase else .none
  | _ => .none

/-- Two requests of `deget` name the same file. -/
def SameKey (vfsDev : Nat → Nat) (first second : DegetRequest) : Prop :=
  vfsDev first.vfsp = vfsDev second.vfsp ∧ first.vfsp = second.vfsp ∧ first.isadir = second.isadir ∧
    if first.isadir then first.startclust = second.startclust
    else
      first.dirclust = second.dirclust ∧ first.diroffset = second.diroffset

/-- Nobody fills in the denode. -/
@[grind] def Unfilled (role : Nat → Role) : Prop := ∀ l frame, role l ≠ .filling frame

/--
What holds of a denode, of the references to it that are held elsewhere, of
whether it is free, of the hash chains it is on and of the LWPs' roles.
-/
structure DenodeFine (vfsDev : Nat → Nat) (d : CacheDenode) (holds : Nat) (free : Prop)
    (on : Nat → Prop) (role : Nat → Role) : Prop where
  /-- A denode that is not free is on a chain. -/
  hashed : ¬ free → ∃ deh, on deh
  /-- It is hashed for what it is filled in with. -/
  fitsFiller : ∀ deh l frame, on deh → role l = .filling frame → deh = frame.request.deh vfsDev
  /-- It is hashed for its fields. -/
  fits : ∀ deh, on deh → Unfilled role →
      (d.isadir = true ∨ ∀ l, role l ≠ .reinserting) → deh = d.deh
  /-- The reference count counts the references. -/
  counted : ∃ pending, Tally (fun l => (role l).releases) pending ∧ d.vCount = holds + pending
  freeCount : free → d.vCount = 0
  freeWaiters : free → d.waiters = []
  freeLock : free → ∀ l, d.deLock = some l →
      role l = .inactive .writing ∨ role l = .inactive .leaving
  unflagged : d.deref = false → free
  flagged : free → d.deref = true → ∃ l, role l = .inactive .writing
  waits : ∀ l, (role l).waits → l ∈ d.waiters
  owns : ∀ l, (role l).owns → d.deLock = some l
  writes : ∀ l, role l = .inactive .writing →
      free ∧ d.deref = true ∧ (d.deRefcnt ≤ 0 → ∀ deh, ¬ on deh)
  drains : ∀ l, role l = .inactive .draining → d.vCount = 0
  fills : ∀ l frame, role l = .filling frame → d.vCount = 0 ∧ d.deDev = vfsDev frame.request.vfsp
  /-- Outside `deget` a hashed denode has the device of its file system. -/
  device : ∀ deh, on deh → Unfilled role → vfsDev d.deVfs = d.deDev
  /-- A denode is what is asked for. -/
  asked : ∀ l request, (role l).asks request → Unfilled role → d.hasKey vfsDev request = true
  /-- A denode will be what is asked for. -/
  askedFiller : ∀ l request filler frame, (role l).asks request →
      role filler = .filling frame → SameKey vfsDev frame.request request

/-- The denode is, or will be, what a request asks for. -/
abbrev Answers (vfsDev : Nat → Nat) (d : CacheDenode) (role : Nat → Role)
    (request : DegetRequest) : Prop :=
  (Unfilled role → d.hasKey vfsDev request = true) ∧
    ∀ filler frame, role filler = .filling frame → SameKey vfsDev frame.request request

namespace DenodeFine

variable {vfsDev : Nat → Nat} {d : CacheDenode} {holds : Nat} {free : Prop}
  {on : Nat → Prop} {role role' : Nat → Role} {l : Nat}
  {request : DegetRequest} {frame : DegetFrame}

theorem of_others (others : ∀ other, other ≠ l → role' other = role other)
    {property : Role → Prop} (notNow : ¬ property (role' l)) {other : Nat}
    (now : property (role' other)) : other ≠ l ∧ property (role other) := by
  have notL : other ≠ l := by
    rintro rfl
    exact notNow now
  rw [others other notL] at now
  exact ⟨notL, now⟩

/-- A denode that is not free, where the LWP that owns the lock neither fills it in nor drains it. -/
theorem ofOwner (notFree : ¬ free) (lock : d.deLock = some l)
    (onlyOwner : ∀ other, (role other).owns → other = l)
    (plain : role l ≠ .inactive .writing ∧ role l ≠ .inactive .draining ∧
      ∀ frame, role l ≠ .filling frame)
    (hashed : ∃ deh, on deh)
    (fits : ∀ deh, on deh → (d.isadir = true ∨ ∀ l, role l ≠ .reinserting) → deh = d.deh)
    (counted : ∃ pending, Tally (fun l => (role l).releases) pending ∧ d.vCount = holds + pending)
    (unflagged : d.deref = false → free) (waits : ∀ other, (role other).waits → other ∈ d.waiters)
    (device : ∀ deh, on deh → vfsDev d.deVfs = d.deDev)
    (asked : ∀ other request, (role other).asks request → d.hasKey vfsDev request = true) :
    DenodeFine vfsDev d holds free on role := by
  have noRole : ∀ wanted : Role, wanted.owns → role l ≠ wanted → ∀ other, role other ≠ wanted := by
    rintro wanted owns isOther other rfl
    obtain rfl := onlyOwner other owns
    exact isOther rfl
  have noFiller := fun other frame => noRole (.filling frame) trivial (plain.2.2 frame) other
  exact
    { hashed := fun _ => hashed
      fitsFiller := fun _ _ _ _ isFilling => absurd isFilling (noFiller _ _)
      fits := fun deh onChain _ => fits deh onChain
      counted := counted
      freeCount := fun isFree => absurd isFree notFree
      freeWaiters := fun isFree => absurd isFree notFree
      freeLock := fun isFree => absurd isFree notFree
      unflagged := unflagged
      flagged := fun isFree => absurd isFree notFree
      waits := waits
      owns := fun other owns => by
        obtain rfl := onlyOwner other owns
        exact lock
      writes := fun _ isWriting => absurd isWriting (noRole _ (by simp [Role.owns]) plain.1 _)
      drains := fun _ isDraining => absurd isDraining (noRole _ (by simp [Role.owns]) plain.2.1 _)
      fills := fun _ _ isFilling => absurd isFilling (noFiller _ _)
      device := fun deh onChain _ => device deh onChain
      asked := fun other request isAsked _ => asked other request isAsked
      askedFiller := fun _ _ _ _ _ isFilling => absurd isFilling (noFiller _ _) }

section

variable (fine : DenodeFine vfsDev d holds free on role)
include fine

theorem owner_unique (owner : d.deLock = some l) {other : Nat} (owns : (role other).owns) :
    other = l := by
  have isOwner := fine.owns other owns
  rw [owner] at isOwner
  cases isOwner
  rfl

theorem onlyOwner (others : ∀ other, other ≠ l → role' other = role other)
    (owner : d.deLock = some l) (other : Nat) (owns : (role' other).owns) : other = l := by
  by_contra notL
  rw [others other notL] at owns
  exact notL (fine.owner_unique owner owns)

theorem stillCounted (others : ∀ other, other ≠ l → role' other = role other)
    (releasing : (role' l).releases ↔ (role l).releases) :
    ∃ pending, Tally (fun l => (role' l).releases) pending ∧ d.vCount = holds + pending := by
  obtain ⟨pending, tally, counted⟩ := fine.counted
  refine ⟨pending, tally.congr fun other => ?_, counted⟩
  by_cases same : other = l
  · subst other
    exact releasing
  · rw [others other same]

theorem notFree_of_owner (owner : d.deLock = some l) (notWriting : role l ≠ .inactive .writing)
    (notLeaving : role l ≠ .inactive .leaving) : ¬ free := by
  intro isFree
  rcases fine.freeLock isFree l owner with isWriting | isLeaving
  · exact notWriting isWriting
  · exact notLeaving isLeaving

theorem unfilled_of_owner (owner : d.deLock = some l)
    (notFilling : ∀ frame, role l ≠ .filling frame) : Unfilled role := by
  intro other frame isFilling
  have ownsIt : d.deLock = some other := by
    apply fine.owns
    rw [isFilling]
    trivial
  rw [owner] at ownsIt
  cases ownsIt
  exact notFilling frame isFilling

theorem notFree_of_holds (isHeld : holds ≠ 0) : ¬ free := by
  intro isFree
  obtain ⟨pending, -, counted⟩ := fine.counted
  have noCount := fine.freeCount isFree
  omega

end

section

variable (fine : DenodeFine vfsDev d holds free on role)
include fine

theorem found {deh : Nat} (onChain : on deh)
    (noWriter : ∀ l, role l ≠ .inactive .writing) :
    DenodeFine vfsDev { d with deref := true } holds False on role where
  __ := fine
  hashed := fun _ => ⟨deh, onChain⟩
  freeCount := False.elim
  freeWaiters := False.elim
  freeLock := False.elim
  unflagged := fun isFalse => absurd isFalse (by simp)
  flagged := False.elim
  writes := fun l isWriting => absurd isWriting (noWriter l)

/--
An LWP takes or leaves the lock of a denode that is not free, or references to
it come and go.
-/
theorem turn (notFree : ¬ free)
    {deLock : Option Nat} {waiters : List Nat} {vCount holds' : Nat}
    (others : ∀ other, other ≠ l → role' other = role other)
    (waiting : ∀ other, (role' other).waits → other ∈ waiters)
    (owning : ∀ other, (role' other).owns → deLock = some other)
    (wasPlain : role l ≠ .reinserting ∧ ∀ frame, role l ≠ .filling frame)
    (isPlain : role' l ≠ .reinserting ∧ role' l ≠ .inactive .writing ∧
      ∀ frame, role' l ≠ .filling frame)
    (counted : ∃ pending, Tally (fun l => (role' l).releases) pending ∧ vCount = holds' + pending)
    (drained : ∀ other, role' other = .inactive .draining → vCount = 0)
    (filled : ∀ other frame, role other = .filling frame → vCount = 0)
    (asking : ∀ request, (role' l).asks request →
      (role l).asks request ∨ Answers vfsDev d role request) :
    DenodeFine vfsDev { d with deLock := deLock, waiters := waiters, vCount := vCount } holds'
      free on role' := by
  have fillers : ∀ other frame, role' other = .filling frame ↔ role other = .filling frame := by
    intro other frame
    by_cases same : other = l
    · subst other
      exact ⟨fun is => absurd is (isPlain.2.2 frame), fun was => absurd was (wasPlain.2 frame)⟩
    · rw [others other same]
  have unfilled : Unfilled role' ↔ Unfilled role :=
    ⟨fun none other frame is => none other frame ((fillers other frame).mpr is),
      fun none other frame is => none other frame ((fillers other frame).mp is)⟩
  have reinserters : (∀ other, role' other ≠ .reinserting) →
      ∀ other, role other ≠ .reinserting := by
    intro none other
    by_cases same : other = l
    · subst other
      exact wasPlain.1
    · rw [← others other same]
      exact none other
  have asks : ∀ other request, (role' other).asks request → Answers vfsDev d role request := by
    intro other request isAsked
    have fromBefore : (role other).asks request → Answers vfsDev d role request := fun was =>
      ⟨fine.asked other request was,
        fun filler frame => fine.askedFiller other request filler frame was⟩
    by_cases same : other = l
    · subst other
      exact (asking request isAsked).elim fromBefore id
    · rw [others other same] at isAsked
      exact fromBefore isAsked
  constructor
  case hashed => exact fine.hashed
  case fitsFiller =>
    intro deh other frame onChain isFilling
    exact fine.fitsFiller deh other frame onChain ((fillers other frame).mp isFilling)
  case fits =>
    intro deh onChain noFiller settled
    exact fine.fits deh onChain (unfilled.mp noFiller) (settled.imp_right reinserters)
  case counted => exact counted
  case freeCount => exact fun isFree => absurd isFree notFree
  case freeWaiters => exact fun isFree => absurd isFree notFree
  case freeLock => exact fun isFree => absurd isFree notFree
  case unflagged => exact fine.unflagged
  case flagged => exact fun isFree => absurd isFree notFree
  case waits => exact waiting
  case owns => exact owning
  case writes =>
    exact fun other isWriting => fine.writes other
      (@of_others _ _ _ others (· = .inactive .writing) isPlain.2.1 _ isWriting).2
  case drains => exact drained
  case fills =>
    intro other frame isFilling
    have wasFilling := (fillers other frame).mp isFilling
    exact ⟨filled other frame wasFilling, (fine.fills other frame wasFilling).2⟩
  case device =>
    intro deh onChain noFiller
    exact fine.device deh onChain (unfilled.mp noFiller)
  case asked =>
    intro other request isAsked noFiller
    exact (asks other request isAsked).1 (unfilled.mp noFiller)
  case askedFiller =>
    intro other request filler frame isAsked isFilling
    exact (asks other request isAsked).2 filler frame ((fillers filler frame).mp isFilling)

theorem relock (notFree : ¬ free)
    {deLock : Option Nat} {waiters : List Nat}
    (others : ∀ other, other ≠ l → role' other = role other)
    (waiting : ∀ other, (role' other).waits → other ∈ waiters)
    (owning : ∀ other, (role' other).owns → deLock = some other)
    (wasPlain : role l ≠ .reinserting ∧ ∀ frame, role l ≠ .filling frame)
    (isPlain : role' l ≠ .reinserting ∧ role' l ≠ .inactive .writing ∧
      ∀ frame, role' l ≠ .filling frame)
    (notDraining : role' l ≠ .inactive .draining)
    (releasing : (role' l).releases ↔ (role l).releases)
    (asking : ∀ request, (role' l).asks request →
      (role l).asks request ∨ Answers vfsDev d role request) :
    DenodeFine vfsDev { d with deLock := deLock, waiters := waiters } holds free on role' := by
  refine fine.turn notFree others waiting owning wasPlain isPlain
    (fine.stillCounted others releasing) (fun other isDraining => fine.drains other ?_)
    (fun other frame isFilling => (fine.fills other frame isFilling).1) asking
  exact (@of_others _ _ _ others (· = .inactive .draining) notDraining _ isDraining).2

theorem enqueue (notFree : ¬ free)
    (others : ∀ other, other ≠ l → role' other = role other)
    (wasOut : role l = .none ∨ role l = .inactive .entering) (isWaiting : (role' l).waits)
    (releasing : (role' l).releases ↔ (role l).releases)
    (asking : ∀ request, (role' l).asks request → Answers vfsDev d role request) :
    DenodeFine vfsDev { d with waiters := d.waiters ++ [l] } holds free on role' := by
  refine fine.relock notFree others (fun other waits => ?_)
    (fun other owns => ?_) ?_ ?_ ?_ releasing fun request isAsked => .inr (asking request isAsked)
  · by_cases same : other = l
    · simp [same]
    · rw [others other same] at waits
      simp [fine.waits other waits]
  · exact fine.owns other (of_others others (Role.not_owns_of_waits isWaiting) owns).2
  all_goals grind

theorem take (notFree : ¬ free)
    (others : ∀ other, other ≠ l → role' other = role other) (available : d.deLock = none)
    {waiters : List Nat} (stillWaiting : ∀ other, other ≠ l → other ∈ d.waiters → other ∈ waiters)
    (isNow : role' l = .none ∨ role' l = .inactive .counting ∨ ∃ request, role' l = .locked request)
    (releasing : (role' l).releases ↔ (role l).releases)
    (asking : ∀ request, (role' l).asks request →
      (role l).asks request ∨ Answers vfsDev d role request) :
    DenodeFine vfsDev { d with deLock := some l, waiters := waiters } holds free on role' := by
  have noOwner : ∀ other, ¬ (role other).owns := by
    intro other owns
    have isOwner := fine.owns other owns
    rw [available] at isOwner
    cases isOwner
  refine fine.relock notFree others (fun other waits => ?_)
    (fun other owns => ?_) ?_ ?_ ?_ releasing asking
  · obtain ⟨notL, waited⟩ := of_others others (by grind) waits
    exact stillWaiting other notL (fine.waits other waited)
  · have isL : other = l := by
      by_contra notL
      rw [others other notL] at owns
      exact noOwner other owns
    rw [isL]
  · grind
  all_goals grind

theorem handedOver
    (others : ∀ other, other ≠ l → role' other = role other) (wasGot : role l = .got request)
    (isNow : role' l = .none) : DenodeFine vfsDev d holds free on role' := by
  have owner := fine.owns l (by simp [wasGot, Role.owns])
  refine @relock vfsDev d holds free on role role' l fine
    (fine.notFree_of_owner owner (by simp [wasGot]) (by simp [wasGot]))
    d.deLock d.waiters others ?_ ?_ ?_ ?_ ?_ ?_ ?_
  · exact fun other waits => fine.waits other (of_others others (by grind) waits).2
  · exact fun other owns => fine.owns other (of_others others (by grind) owns).2
  all_goals grind

end

section

variable (fine : DenodeFine vfsDev d holds free on role)
include fine

theorem fewer (others : ∀ other, other ≠ l → role' other = role other)
    (released : (role l).releases) (notNow : ¬ (role' l).releases) :
    ∃ pending, Tally (fun l => (role' l).releases) pending ∧ d.vCount = holds + pending + 1 := by
  obtain ⟨pending, tally, counted⟩ := fine.counted
  obtain ⟨rest, isRest, tally⟩ :=
    @Tally.leave Nat _ (fun l => (role' l).releases) pending l tally released
      notNow fun other notL => by rw [others other notL]
  exact ⟨rest, tally, by omega⟩

theorem recount (isHeld : holds ≠ 0) (outside : role l = .none) {vCount holds' : Nat}
    (moved : vCount + holds = d.vCount + holds') :
    DenodeFine vfsDev { d with vCount := vCount } holds' free on role := by
  obtain ⟨pending, tally, counted⟩ := fine.counted
  have positive : d.vCount ≠ 0 := by omega
  refine @turn vfsDev d holds free on role role l fine (fine.notFree_of_holds isHeld) d.deLock
    d.waiters vCount holds' (fun _ _ => rfl) fine.waits fine.owns ?_ ?_ ?_ ?_ ?_
    fun request isAsked => .inl isAsked
  · grind
  · grind
  · exact ⟨pending, tally, by omega⟩
  · exact fun other isDraining => absurd (fine.drains other isDraining) positive
  · exact fun other frame isFilling => absurd (fine.fills other frame isFilling).1 positive

theorem heldAgain (isHeld : holds ≠ 0) (outside : role l = .none) :
    DenodeFine vfsDev { d with vCount := d.vCount + 1 } (holds + 1) free on role :=
  fine.recount isHeld outside (by omega)

theorem releasedOne (isHeld : holds ≠ 0) (outside : role l = .none) (notLast : 1 < d.vCount) :
    DenodeFine vfsDev { d with vCount := d.vCount - 1 } (holds - 1) free on role :=
  fine.recount isHeld outside (by omega)

theorem releasedLast (isHeld : holds ≠ 0) (others : ∀ other, other ≠ l → role' other = role other)
    (outside : role l = .none) (isNow : role' l = .inactive .entering) :
    DenodeFine vfsDev d (holds - 1) free on role' := by
  obtain ⟨pending, tally, counted⟩ := fine.counted
  have positive : d.vCount ≠ 0 := by omega
  have entered := @Tally.enter Nat _ (fun l => (role' l).releases) pending l tally
      (by simp [outside, Role.releases]) (by simp [isNow, Role.releases])
      fun other notL => by rw [others other notL]
  refine @turn vfsDev d holds free on role role' l fine
    (fine.notFree_of_holds isHeld) d.deLock d.waiters d.vCount (holds - 1)
    others ?_ ?_ ?_ ?_ ⟨pending + 1, entered, by omega⟩ ?_ ?_ ?_
  · exact fun other waits => fine.waits other (of_others others (by grind) waits).2
  · exact fun other owns => fine.owns other (of_others others (by grind) owns).2
  · grind
  · grind
  · intro other isDraining
    obtain ⟨-, drained⟩ := @of_others _ _ _ others (· = .inactive .draining) (by grind) _ isDraining
    exact absurd (fine.drains other drained) positive
  · exact fun other frame isFilling => absurd (fine.fills other frame isFilling).1 positive
  · grind

end

theorem goOn (fine : DenodeFine vfsDev d holds free on role) (notFree : ¬ free)
    (others : ∀ other, other ≠ l → role' other = role other) (owned : (role l).owns)
    (stillOwned : (role' l).owns) {vCount holds' : Nat}
    (wasPlain : role l ≠ .reinserting ∧ ∀ frame, role l ≠ .filling frame)
    (isPlain : role' l ≠ .reinserting ∧ role' l ≠ .inactive .writing ∧
      ∀ frame, role' l ≠ .filling frame)
    (counted : ∃ pending, Tally (fun l => (role' l).releases) pending ∧ vCount = holds' + pending)
    (drained : role' l = .inactive .draining → vCount = 0)
    (asking : ∀ request, (role' l).asks request → (role l).asks request) :
    DenodeFine vfsDev { d with vCount := vCount } holds' free on role' := by
  have owner : d.deLock = some l := fine.owns l owned
  refine @turn vfsDev d holds free on role role' l fine notFree d.deLock
    d.waiters vCount holds' others ?_ ?_ wasPlain isPlain counted ?_ ?_
    fun request isAsked => .inl (asking request isAsked)
  · have notWaiting : ¬ (role' l).waits := fun waits => Role.not_owns_of_waits waits stillOwned
    exact fun other waits => fine.waits other (of_others others notWaiting waits).2
  · intro other owns
    by_cases same : other = l
    · rw [same]
      exact owner
    · rw [others other same] at owns
      exact fine.owns other owns
  · intro other isDraining
    by_cases same : other = l
    · subst other
      exact drained isDraining
    · rw [others other same] at isDraining
      exact absurd (fine.owner_unique owner (by simp [isDraining, Role.owns])) same
  · intro other frame isFilling
    have isL := fine.owner_unique owner (by simp [isFilling, Role.owns] : (role other).owns)
    subst other
    exact absurd isFilling (wasPlain.2 frame)

theorem granted (fine : DenodeFine vfsDev d holds free on role)
    (others : ∀ other, other ≠ l → role' other = role other) (wasLocked : role l = .locked request)
    (isNow : role' l = .got request) :
    DenodeFine vfsDev { d with vCount := d.vCount + 1 } (holds + 1) free on role' := by
  obtain ⟨pending, tally, counted⟩ :=
    fine.stillCounted others (by simp [wasLocked, isNow, Role.releases])
  have owned : (role l).owns := by simp [wasLocked, Role.owns]
  refine @goOn vfsDev d holds free on role role' l fine
    (fine.notFree_of_owner (fine.owns l owned) (by simp [wasLocked]) (by simp [wasLocked]))
    others owned (by simp [isNow, Role.owns]) (d.vCount + 1) (holds + 1) ?_ ?_
    ⟨pending, tally, by omega⟩ ?_ ?_
  all_goals grind

section

variable (fine : DenodeFine vfsDev d holds free on role)
  (others : ∀ other, other ≠ l → role' other = role other)
include fine others

theorem countedDown (wasCounting : role l = .inactive .counting)
    (isNow : role' l = .inactive .leaving ∨ role' l = .inactive .draining ∧ d.vCount = 1) :
    DenodeFine vfsDev { d with vCount := d.vCount - 1 } holds free on role' := by
  have owned : (role l).owns := by simp [wasCounting, Role.owns]
  obtain ⟨pending, tally, counted⟩ := fine.fewer others (by simp [wasCounting, Role.releases])
    (by grind)
  refine @goOn vfsDev d holds free on role role' l fine
    (fine.notFree_of_owner (fine.owns l owned) (by simp [wasCounting]) (by simp [wasCounting]))
    others owned (by grind) (d.vCount - 1) holds ?_ ?_ ⟨pending, tally, by omega⟩ ?_ ?_
  all_goals grind

theorem skipped (wasDraining : role l = .inactive .draining) (isNow : role' l = .inactive .leaving)
    : DenodeFine vfsDev d holds free on role' := by
  have counted := fine.stillCounted others (by simp [wasDraining, isNow, Role.releases])
  have owned : (role l).owns := by simp [wasDraining, Role.owns]
  refine @goOn vfsDev d holds free on role role' l fine
    (fine.notFree_of_owner (fine.owns l owned) (by simp [wasDraining]) (by simp [wasDraining]))
    others owned (by simp [isNow, Role.owns]) d.vCount holds ?_ ?_ counted ?_ ?_
  all_goals grind

end

section

variable (fine : DenodeFine vfsDev d holds free on role)
  (others : ∀ other, other ≠ l → role' other = role other)
include fine others

theorem alone (owner : d.deLock = some l) (noWaiters : d.waiters = [])
    (wasPlain : role l ≠ .reinserting ∧ ∀ frame, role l ≠ .filling frame)
    (isPlain : (∀ frame, role' l ≠ .filling frame) ∧ ¬ (role' l).waits ∧
      ∀ request, ¬ (role' l).asks request) :
    (∀ other, (role' other).owns → other = l) ∧ (∀ other, ¬ (role' other).waits) ∧
      (∀ other request, ¬ (role' other).asks request) ∧
      (∀ other frame, role' other ≠ .filling frame) ∧
      Unfilled role ∧ ∀ other, role other ≠ .reinserting := by
  have onlyOwner := fine.onlyOwner others owner
  have nobodyWaits : ∀ other, ¬ (role' other).waits := by
    intro other waits
    have member := fine.waits other (of_others others isPlain.2.1 waits).2
    rw [noWaiters] at member
    cases member
  refine ⟨onlyOwner, nobodyWaits, ?_, ?_, fine.unfilled_of_owner owner wasPlain.2, ?_⟩
  · intro other request isAsked
    rcases Role.waits_or_owns_of_asks isAsked with waits | owns
    · exact nobodyWaits other waits
    · have isL := onlyOwner other owns
      subst other
      exact isPlain.2.2 request isAsked
  · intro other frame isFilling
    have isL := onlyOwner other (by simp [isFilling, Role.owns])
    subst other
    exact isPlain.1 frame isFilling
  · intro other isReinserting
    have isL := fine.owner_unique owner (by simp [isReinserting, Role.owns] : (role other).owns)
    subst other
    exact wasPlain.1 isReinserting

/-- The lock of a denode is given back. -/
theorem letGo (owner : d.deLock = some l) (wasOut : role l = .none ∨ role l = .inactive .leaving)
    (isNow : role' l = .none) :
    DenodeFine vfsDev { d with deLock := none } holds free on role' := by
  have waiting : ∀ other, (role' other).waits → other ∈ d.waiters :=
    fun other waits => fine.waits other (of_others others (by grind) waits).2
  have noOwner : ∀ other, ¬ (role' other).owns := by
    intro other owns
    obtain rfl := fine.onlyOwner others owner other owns
    grind
  have relocked : ¬ free → DenodeFine vfsDev { d with deLock := none } holds free on role' := by
    intro notFree
    refine fine.relock notFree others waiting
      (fun other owns => absurd owns (noOwner other)) ?_ ?_ ?_ ?_ ?_
    all_goals grind
  by_cases isFree : free
  case neg => exact relocked isFree
  have noWaiters := fine.freeWaiters isFree
  obtain ⟨-, -, nobodyAsks, noFiller, wasUnfilled, notReinserting⟩ :=
    fine.alone others owner noWaiters (by grind) (by grind)
  constructor
  case hashed => exact fine.hashed
  case fitsFiller =>
    exact fun deh other frame _ isFilling => absurd isFilling (noFiller other frame)
  case fits =>
    exact fun deh onChain _ _ => fine.fits deh onChain wasUnfilled (.inr notReinserting)
  case counted => exact fine.stillCounted others (by grind)
  case freeCount => exact fine.freeCount
  case freeWaiters => exact fine.freeWaiters
  case freeLock => exact fun _ other isOwner => by cases isOwner
  case unflagged => exact fine.unflagged
  case flagged =>
    intro _ isFlagged
    obtain ⟨other, isWriting⟩ := fine.flagged isFree isFlagged
    have isL := fine.owner_unique owner (by simp [isWriting, Role.owns] : (role other).owns)
    grind
  case waits => exact waiting
  case owns => exact fun other owns => absurd owns (noOwner other)
  case writes =>
    exact fun other isWriting =>
      absurd (by simp [isWriting, Role.owns] : (role' other).owns) (noOwner other)
  case drains =>
    exact fun other isDraining =>
      absurd (by simp [isDraining, Role.owns] : (role' other).owns) (noOwner other)
  case fills =>
    exact fun other frame isFilling => absurd isFilling (noFiller other frame)
  case device => exact fun deh onChain _ => fine.device deh onChain wasUnfilled
  case asked =>
    exact fun other request isAsked _ => absurd isAsked (nobodyAsks other request)
  case askedFiller =>
    exact fun other request filler frame _ isFilling => absurd isFilling (noFiller filler frame)

/-- `dosfs_inactive` inserts a denode that nobody waits for. -/
theorem inserted (wasDraining : role l = .inactive .draining) (isNow : role' l = .inactive .writing)
    (noWaiters : d.waiters = []) {on' : Nat → Prop} (fewer : ∀ deh, on' deh → on deh)
    (removed : d.deRefcnt ≤ 0 → ∀ deh, ¬ on' deh) : DenodeFine vfsDev d holds True on' role' := by
  have owned : (role l).owns := by simp [wasDraining, Role.owns]
  have owner := fine.owns l owned
  have notFree : ¬ free :=
    fine.notFree_of_owner owner (by simp [wasDraining]) (by simp [wasDraining])
  obtain ⟨onlyOwner, nobodyWaits, nobodyAsks, noFiller, wasUnfilled, notReinserting⟩ :=
    fine.alone others owner noWaiters (by grind) (by grind)
  constructor
  case hashed => exact fun isFalse => absurd trivial isFalse
  case fitsFiller =>
    exact fun deh other frame _ isFilling => absurd isFilling (noFiller other frame)
  case fits =>
    exact fun deh onChain _ _ => fine.fits deh (fewer deh onChain) wasUnfilled (.inr notReinserting)
  case counted => exact fine.stillCounted others (by simp [wasDraining, isNow, Role.releases])
  case freeCount => exact fun _ => fine.drains l wasDraining
  case freeWaiters => exact fun _ => noWaiters
  case freeLock =>
    intro _ other isOwner
    rw [owner] at isOwner
    cases isOwner
    exact .inl isNow
  case unflagged => exact fun _ => trivial
  case flagged => exact fun _ _ => ⟨l, isNow⟩
  case waits => exact fun other waits => absurd waits (nobodyWaits other)
  case owns =>
    intro other owns
    rw [onlyOwner other owns]
    exact owner
  case writes =>
    intro other _
    refine ⟨trivial, ?_, removed⟩
    cases flag : d.deref with
    | true => rfl
    | false => exact absurd (fine.unflagged flag) notFree
  case drains =>
    intro other isDraining
    have isL := onlyOwner other (by simp [isDraining, Role.owns])
    grind
  case fills =>
    exact fun other frame isFilling => absurd isFilling (noFiller other frame)
  case device =>
    exact fun deh onChain _ => fine.device deh (fewer deh onChain) wasUnfilled
  case asked =>
    exact fun other request isAsked _ => absurd isAsked (nobodyAsks other request)
  case askedFiller =>
    exact fun other request filler frame _ isFilling => absurd isFilling (noFiller filler frame)

/-- `dosfs_inactive` clears the flags of a denode on the free list. -/
theorem written (wasWriting : role l = .inactive .writing) (isNow : role' l = .inactive .leaving)
    {name cluster : Nat} (kept : 0 < d.deRefcnt → cluster = d.deStartCluster) : DenodeFine vfsDev
      { d with
        deName0 := name
        deStartCluster := cluster
        deref := false }
      holds free on role' := by
  have owned : (role l).owns := by simp [wasWriting, Role.owns]
  have owner := fine.owns l owned
  obtain ⟨isFree, -, removed⟩ := fine.writes l wasWriting
  have noWaiters := fine.freeWaiters isFree
  obtain ⟨onlyOwner, nobodyWaits, nobodyAsks, noFiller, wasUnfilled, notReinserting⟩ :=
    fine.alone others owner noWaiters (by grind) (by grind)
  have sameCluster : ∀ deh, on deh → cluster = d.deStartCluster := by
    intro deh onChain
    apply kept
    by_contra noReference
    exact removed (by omega) deh onChain
  constructor
  case hashed => exact fine.hashed
  case fitsFiller =>
    exact fun deh other frame _ isFilling => absurd isFilling (noFiller other frame)
  case fits =>
    intro deh onChain _ _
    rw [sameCluster deh onChain]
    exact fine.fits deh onChain wasUnfilled (.inr notReinserting)
  case counted => exact fine.stillCounted others (by simp [wasWriting, isNow, Role.releases])
  case freeCount => exact fine.freeCount
  case freeWaiters => exact fine.freeWaiters
  case freeLock =>
    intro _ other isOwner
    rw [owner] at isOwner
    cases isOwner
    exact .inr isNow
  case unflagged => exact fun _ => isFree
  case flagged => exact fun _ isTrue => by cases isTrue
  case waits => exact fun other waits => absurd waits (nobodyWaits other)
  case owns =>
    intro other owns
    rw [onlyOwner other owns]
    exact owner
  case writes =>
    intro other isWriting
    have isL := onlyOwner other (by simp [isWriting, Role.owns])
    grind
  case drains =>
    intro other isDraining
    have isL := onlyOwner other (by simp [isDraining, Role.owns])
    grind
  case fills =>
    exact fun other frame isFilling => absurd isFilling (noFiller other frame)
  case device => exact fun deh onChain _ => fine.device deh onChain wasUnfilled
  case asked =>
    exact fun other request isAsked _ => absurd isAsked (nobodyAsks other request)
  case askedFiller =>
    exact fun other request filler frame _ isFilling => absurd isFilling (noFiller filler frame)

end

end DenodeFine

end Uw7.Dosfs.DenodeCache
