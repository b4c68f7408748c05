import Uw7.Ipc.Attachments

namespace Uw7.Ipc

/-!
# Records, children and memory objects

What a step may do to the records of processes, to the children of a `fork` in
progress, and to memory objects, and how many attachments there are behind it.
-/

open List Option Function

section Records

variable {added sap : Segacct} {segacct : List Segacct} {addr : UInt32}

/-- The records are in the order of their addresses. -/
def Ascending (segacct : List Segacct) : Prop :=
  segacct.Pairwise fun first second => first.saAddr ≤ second.saAddr

theorem shmAdd_perm : (shmAdd added segacct).Perm (added :: segacct) := by
  induction segacct with
  | nil => rfl
  | cons sap rest ih =>
    rw [shmAdd]
    split_ifs with before
    · exact (ih.cons sap).trans (Perm.swap added sap rest)
    · rfl

theorem shmAdd_ascending (ascending : Ascending segacct) : Ascending (shmAdd added segacct) := by
  induction segacct with
  | nil => exact pairwise_singleton _ _
  | cons sap rest ih =>
    obtain ⟨least, ordered⟩ := pairwise_cons.mp ascending
    rw [shmAdd]
    split_ifs with before
    · refine pairwise_cons.mpr ⟨fun other isOther => ?_, ih ordered⟩
      rcases mem_cons.mp (shmAdd_perm.mem_iff.mp isOther) with rfl | inRest
      · exact UInt32.le_of_lt before
      · exact least other inRest
    · have isLeast : added.saAddr ≤ sap.saAddr := UInt32.not_lt.mp before
      refine pairwise_cons.mpr ⟨fun other isOther => ?_, ascending⟩
      rcases mem_cons.mp isOther with rfl | inRest
      · exact isLeast
      · exact UInt32.le_trans isLeast (least other inRest)

theorem shmDel_perm (ascending : Ascending segacct) (found : shmFind addr segacct = some sap) :
    segacct.Perm (sap :: shmDel addr segacct) ∧ sap.saAddr = addr := by
  induction segacct with
  | nil => cases found
  | cons first rest ih =>
    obtain ⟨least, ordered⟩ := pairwise_cons.mp ascending
    rw [shmFind, List.find?_cons] at found
    rw [shmDel]
    by_cases isFirst : first.saAddr = addr
    · subst addr
      simp only [beq_self_eq_true, some.injEq] at found
      subst sap
      rw [if_neg (UInt32.lt_irrefl _)]
      exact ⟨Perm.refl _, rfl⟩
    · have notFirst : (first.saAddr == addr) = false := beq_false_of_ne isFirst
      rw [notFirst] at found
      obtain ⟨removed, isAddr⟩ := ih ordered found
      have inRest : sap ∈ rest := removed.mem_iff.mpr mem_cons_self
      have before : first.saAddr < addr := by
        have atMost := least sap inRest
        rw [isAddr] at atMost
        exact UInt32.lt_of_le_of_ne atMost isFirst
      rw [if_pos before]
      exact ⟨(removed.cons first).trans (Perm.swap sap first _), isAddr⟩

theorem shmDel_ascending (ascending : Ascending segacct) : Ascending (shmDel addr segacct) := by
  refine ascending.sublist ?_
  clear ascending
  induction segacct with
  | nil => exact Sublist.refl _
  | cons first rest ih =>
    rw [shmDel]
    split_ifs
    · exact ih.cons_cons first
    · exact sublist_cons_self first rest

end Records

def DshmActivity.child : DshmActivity → Option Nat
  | .forking child _ => some child
  | .counting child _ _ => some child
  | _ => none

/-- The records that are still to be duplicated. -/
def DshmActivity.rest : DshmActivity → List Segacct
  | .forking _ rest => rest
  | .counting _ _ rest => rest
  | _ => []

/-- The records of children are copies of those of their parents. -/
structure ForksKept (nproc : Nat) (procs : Nat → DshmProc) : Prop where
  outside : ∀ process, nproc ≤ process → procs process = absentProc
  absent : ∀ process, (procs process).activity = .absent → (procs process).segacct = []
  ascending : ∀ process, Ascending (procs process).segacct
  copied : ∀ process child, (procs process).activity.child = some child →
      (procs child).activity = .newborn ∧
        ((procs child).segacct ++ (procs process).activity.rest).Perm (procs process).segacct
  counting : ∀ process child kdshmp rest, (procs process).activity = .counting child kdshmp rest →
      ∃ sap ∈ (procs child).segacct, sap.saKdshmp = kdshmp
  parent : ∀ first second child, (procs first).activity.child = some child →
      (procs second).activity.child = some child → first = second

theorem DshmProc.attachments_pos {proc : DshmProc} {sap : Segacct} (recorded : sap ∈ proc.segacct)
    (notCounting : ∀ child rest, proc.activity ≠ .counting child sap.saKdshmp rest) :
    0 < proc.attachments sap.saKdshmp := by
  have some_ : 0 < proc.segacct.countP fun other => other.saKdshmp = sap.saKdshmp :=
    countP_pos_iff.mpr ⟨sap, recorded, by simp⟩
  rw [DshmProc.attachments]
  cases isActivity : proc.activity with
  | detaching other =>
    dsimp only
    split_ifs <;> omega
  | counting child other rest =>
    have different : other ≠ sap.saKdshmp := by
      rintro rfl
      exact notCounting child rest isActivity
    simp only [if_neg different]
    omega
  | _ =>
    dsimp only
    omega

namespace ForksKept

variable {nproc process child kdshmp : Nat} {procs : Nat → DshmProc}
  {proc : DshmProc} {sap : Segacct}

section

variable (forks : ForksKept nproc procs)
include forks

theorem inside (exists_ : (procs process).activity ≠ .absent) : process < nproc := by
  by_contra outside
  rw [forks.outside process (by omega)] at exists_
  exact exists_ rfl

theorem counting_own {rest : List Segacct}
    (counting : (procs process).activity = .counting child kdshmp rest) :
    ∃ sap ∈ (procs process).segacct, sap.saKdshmp = kdshmp := by
  obtain ⟨sap, inChild, isKdshmp⟩ := forks.counting process child kdshmp rest counting
  have copied := (forks.copied process child (by rw [counting]; rfl)).2
  exact ⟨sap, copied.mem_iff.mp (mem_append_left _ inChild), isKdshmp⟩

theorem attachments_nonneg (process kdshmp : Nat) : 0 ≤ (procs process).attachments kdshmp := by
  by_cases counting : ∃ child rest, (procs process).activity = .counting child kdshmp rest
  · obtain ⟨child, rest, counting⟩ := counting
    obtain ⟨sap, recorded, isKdshmp⟩ := forks.counting_own counting
    have some_ : 0 < (procs process).segacct.countP fun other =>
        other.saKdshmp = kdshmp :=
      countP_pos_iff.mpr ⟨sap, recorded, by simp [isKdshmp]⟩
    simp only [DshmProc.attachments, counting, if_true]
    omega
  · rw [DshmProc.attachments]
    cases isActivity : (procs process).activity with
    | detaching other =>
      dsimp only
      split_ifs <;> omega
    | counting child other rest =>
      have different : other ≠ kdshmp := by
        rintro rfl
        exact counting ⟨child, rest, isActivity⟩
      simp only [if_neg different]
      omega
    | _ =>
      dsimp only
      omega

theorem holder_of_record (recorded : sap ∈ (procs process).segacct) :
    ∃ holder < nproc, 0 < (procs holder).attachments sap.saKdshmp := by
  have exists_ : (procs process).activity ≠ .absent := by
    intro absent
    rw [forks.absent process absent] at recorded
    cases recorded
  by_cases counting : ∃ child rest, (procs process).activity = .counting child sap.saKdshmp rest
  · obtain ⟨child, rest, counting⟩ := counting
    obtain ⟨copy, inChild, isKdshmp⟩ := forks.counting process child _ rest counting
    have newborn := (forks.copied process child (by rw [counting]; rfl)).1
    refine ⟨child, forks.inside (by simp [newborn]), ?_⟩
    rw [← isKdshmp]
    exact DshmProc.attachments_pos inChild fun _ _ isCounting => by
      rw [newborn] at isCounting
      cases isCounting
  · exact ⟨process, forks.inside exists_,
      DshmProc.attachments_pos recorded fun child rest isCounting =>
        counting ⟨child, rest, isCounting⟩⟩

end

theorem update (forks : ForksKept nproc procs) (exists_ : (procs process).activity ≠ .absent)
    (notNewborn : (procs process).activity ≠ .newborn)
    (notParent : (procs process).activity.child = none)
    (stillNotParent : proc.activity.child = none)
    (absent : proc.activity = .absent → proc.segacct = []) (ascending : Ascending proc.segacct) :
    ForksKept nproc (Function.update procs process proc) := by
  have inside := forks.inside exists_
  have parents : ∀ other child, (Function.update procs process proc other).activity.child =
      some child →
      other ≠ process ∧ child ≠ process ∧ (procs other).activity.child = some child := by
    intro other child isChild
    have notProcess : other ≠ process := by
      rintro rfl
      rw [update_self, stillNotParent] at isChild
      cases isChild
    rw [update_of_ne notProcess] at isChild
    refine ⟨notProcess, ?_, isChild⟩
    rintro rfl
    exact notNewborn (forks.copied other child isChild).1
  refine
    { outside := fun other isOutside => ?_
      absent := fun other isAbsent => ?_
      ascending := fun other => ?_
      copied := fun other child isChild => ?_
      counting := fun other child kdshmp rest isCounting => ?_
      parent := fun first second child isFirst isSecond => ?_ }
  · rw [update_of_ne (by omega)]
    exact forks.outside other isOutside
  · exact (forall_update_iff procs fun _ proc => proc.activity = .absent → proc.segacct = []).2
      ⟨absent, fun other _ => forks.absent other⟩ other isAbsent
  · exact (forall_update_iff procs fun _ proc => Ascending proc.segacct).2
      ⟨ascending, fun other _ => forks.ascending other⟩ other
  · obtain ⟨notProcess, notChild, wasChild⟩ := parents other child isChild
    rw [update_of_ne notProcess, update_of_ne notChild]
    exact forks.copied other child wasChild
  · obtain ⟨notProcess, notChild, -⟩ := parents other child (by rw [isCounting]; rfl)
    rw [update_of_ne notProcess] at isCounting
    rw [update_of_ne notChild]
    exact forks.counting other child kdshmp rest isCounting
  · exact forks.parent first second child (parents first child isFirst).2.2
      (parents second child isSecond).2.2

/-- What holds of every process still does when a parent and its child change. -/
theorem update_family {P : DshmProc → Prop} {childProc : DshmProc} (own : P proc)
    (ofChild : P childProc) (others : ∀ other, P (procs other)) (other : Nat) :
    P (Function.update (Function.update procs child childProc) process proc other) := by
  rw [update_apply, update_apply]
  split_ifs
  · exact own
  · exact ofChild
  · exact others other

/-- A parent and its child change. -/
theorem updateFamily {childProc : DshmProc} (forks : ForksKept nproc procs)
    (inside : process < nproc) (childInside : child < nproc) (different : child ≠ process)
    (notNewborn : (procs process).activity ≠ .newborn)
    (noOtherParent : ∀ other, other ≠ process → (procs other).activity.child ≠ some child)
    (ownChild : ∀ other, proc.activity.child = some other → other = child)
    (exists_ : proc.activity ≠ .absent) (ascending : Ascending proc.segacct)
    (childExists : childProc.activity ≠ .absent) (childNotParent : childProc.activity.child = none)
    (childAscending : Ascending childProc.segacct)
    (copied : proc.activity.child = some child → childProc.activity = .newborn ∧
      (childProc.segacct ++ proc.activity.rest).Perm proc.segacct)
    (counting : ∀ kdshmp rest, proc.activity = .counting child kdshmp rest →
      ∃ sap ∈ childProc.segacct, sap.saKdshmp = kdshmp) :
    ForksKept nproc (Function.update (Function.update procs child childProc) process proc) := by
  have atProcess : Function.update (Function.update procs child childProc) process proc
      process = proc := update_self ..
  have atChild : Function.update (Function.update procs child childProc) process proc
      child = childProc := by
    rw [update_of_ne different, update_self]
  have elsewhere : ∀ other, other ≠ process → other ≠ child →
      Function.update (Function.update procs child childProc) process proc other = procs other := by
    intro other notProcess notChild
    rw [update_of_ne notProcess, update_of_ne notChild]
  have parents : ∀ other grandchild,
      (Function.update (Function.update procs child childProc) process proc
        other).activity.child = some grandchild →
        (other = process ∧ grandchild = child) ∨
          (other ≠ process ∧ other ≠ child ∧ grandchild ≠ process ∧ grandchild ≠ child ∧
            (procs other).activity.child = some grandchild) := by
    intro other grandchild isChild
    by_cases isProcess : other = process
    · subst other
      rw [atProcess] at isChild
      exact .inl ⟨rfl, ownChild grandchild isChild⟩
    · by_cases isOwn : other = child
      · subst other
        rw [atChild, childNotParent] at isChild
        cases isChild
      · rw [elsewhere other isProcess isOwn] at isChild
        refine .inr ⟨isProcess, isOwn, ?_, ?_, isChild⟩
        · rintro rfl
          exact notNewborn (forks.copied other grandchild isChild).1
        · rintro rfl
          exact noOtherParent other isProcess isChild
  refine
    { outside := fun other isOutside => ?_
      absent := fun other isAbsent => ?_
      ascending := fun other => ?_
      copied := fun other grandchild isChild => ?_
      counting := fun other grandchild kdshmp rest isCounting => ?_
      parent := fun first second grandchild isFirst isSecond => ?_ }
  · rw [elsewhere other (by omega) (by omega)]
    exact forks.outside other isOutside
  · exact update_family (P := fun proc => proc.activity = .absent → proc.segacct = [])
      (fun isAbsent => absurd isAbsent exists_) (fun isAbsent => absurd isAbsent childExists)
      forks.absent other isAbsent
  · exact update_family (P := fun proc => Ascending proc.segacct) ascending childAscending
      forks.ascending other
  · rcases parents other grandchild isChild with
      ⟨rfl, rfl⟩ | ⟨notProcess, notChild, notParent, notOwn, wasChild⟩
    · rw [atProcess] at isChild
      rw [atProcess, atChild]
      exact copied isChild
    · rw [elsewhere other notProcess notChild, elsewhere grandchild notParent notOwn]
      exact forks.copied other grandchild wasChild
  · rcases parents other grandchild (by rw [isCounting]; rfl) with
      ⟨rfl, rfl⟩ | ⟨notProcess, notChild, notParent, notOwn, -⟩
    · rw [atProcess] at isCounting
      rw [atChild]
      exact counting kdshmp rest isCounting
    · rw [elsewhere other notProcess notChild] at isCounting
      rw [elsewhere grandchild notParent notOwn]
      exact forks.counting other grandchild kdshmp rest isCounting
  · rcases parents first grandchild isFirst with
      ⟨rfl, rfl⟩ | ⟨-, -, -, notOwn, wasFirst⟩
    · rcases parents second grandchild isSecond with
        ⟨rfl, -⟩ | ⟨-, -, -, notOwn, -⟩
      · rfl
      · exact absurd rfl notOwn
    · rcases parents second grandchild isSecond with
        ⟨-, rfl⟩ | ⟨-, -, -, -, wasSecond⟩
      · exact absurd rfl notOwn
      · exact forks.parent first second grandchild wasFirst wasSecond

end ForksKept

/-- Each existing segment has its own memory; all other memory is released. -/
structure MemoryKept (kdshmids : Nat → Kdshmid) (nextMemory : Nat)
    (released : List Nat) : Prop where
  owned : ∀ kdshmp, (kdshmids kdshmp).ipcAlloc = true → ∃ memory < nextMemory,
      (kdshmids kdshmp).memory = some memory ∧ memory ∉ released
  unique : ∀ first second, (kdshmids first).ipcAlloc = true → (kdshmids second).ipcAlloc = true →
      (kdshmids first).memory = (kdshmids second).memory → first = second
  nodup : released.Nodup
  old : ∀ memory ∈ released, memory < nextMemory
  accounted : ∀ memory, memory < nextMemory → memory ∉ released →
      ∃ kdshmp, (kdshmids kdshmp).ipcAlloc = true ∧ (kdshmids kdshmp).memory = some memory

namespace MemoryKept

variable {kdshmids kdshmids' : Nat → Kdshmid} {nextMemory kdshmp : Nat}
  {released : List Nat} {kdshmid : Kdshmid}

section

variable (kept : MemoryKept kdshmids nextMemory released)
include kept

theorem congr (sameAlloc :
    ∀ kdshmp, (kdshmids' kdshmp).ipcAlloc = (kdshmids kdshmp).ipcAlloc)
    (sameMemory : ∀ kdshmp, (kdshmids' kdshmp).memory = (kdshmids kdshmp).memory) :
    MemoryKept kdshmids' nextMemory released where
  __ := kept
  owned := by
    intro kdshmp
    rw [sameAlloc, sameMemory]
    exact kept.owned kdshmp
  unique := by
    intro first second
    rw [sameAlloc, sameAlloc, sameMemory, sameMemory]
    exact kept.unique first second
  accounted := by
    intro memory
    simp only [sameAlloc, sameMemory]
    exact kept.accounted memory

theorem create (free : (kdshmids kdshmp).ipcAlloc = false) (allocated : kdshmid.ipcAlloc = true)
    (isNew : kdshmid.memory = some nextMemory) :
    MemoryKept (Function.update kdshmids kdshmp kdshmid) (nextMemory + 1) released where
  owned := by
    intro other
    by_cases same : other = kdshmp
    · subst other
      rw [update_self]
      refine fun _ => ⟨nextMemory, by omega, isNew, fun isOld => ?_⟩
      exact absurd (kept.old nextMemory isOld) (by omega)
    · rw [update_of_ne same]
      intro isAlloc
      obtain ⟨memory, small, isMemory, unreleased⟩ := kept.owned other isAlloc
      exact ⟨memory, by omega, isMemory, unreleased⟩
  unique := by
    have different : ∀ other, other ≠ kdshmp → (kdshmids other).ipcAlloc = true →
        (kdshmids other).memory ≠ some nextMemory := by
      intro other _ isAlloc sameMemory
      obtain ⟨memory, small, isMemory, -⟩ := kept.owned other isAlloc
      rw [isMemory] at sameMemory
      have equal := some.inj sameMemory
      omega
    intro first second
    by_cases isFirst : first = kdshmp
    · by_cases isSecond : second = kdshmp
      · exact fun _ _ _ => isFirst.trans isSecond.symm
      · subst first
        rw [update_self, update_of_ne isSecond, isNew]
        exact fun _ isAlloc same => absurd same.symm (different second isSecond isAlloc)
    · by_cases isSecond : second = kdshmp
      · subst second
        rw [update_self, update_of_ne isFirst, isNew]
        exact fun isAlloc _ same => absurd same (different first isFirst isAlloc)
      · rw [update_of_ne isFirst, update_of_ne isSecond]
        exact kept.unique first second
  nodup := kept.nodup
  old := fun memory isOld => by
    have small := kept.old memory isOld
    omega
  accounted := by
    intro memory small unreleased
    by_cases last : memory = nextMemory
    · subst memory
      exact ⟨kdshmp, by rw [update_self]; exact ⟨allocated, isNew⟩⟩
    · obtain ⟨other, isAlloc, isMemory⟩ := kept.accounted memory (by omega) unreleased
      have different : other ≠ kdshmp := by
        rintro rfl
        rw [free] at isAlloc
        cases isAlloc
      exact ⟨other, by rw [update_of_ne different]; exact ⟨isAlloc, isMemory⟩⟩

theorem destroy (allocated : (kdshmids kdshmp).ipcAlloc = true) (freed : kdshmid.ipcAlloc = false) :
    MemoryKept (Function.update kdshmids kdshmp kdshmid) nextMemory
      (released ++ (kdshmids kdshmp).memory.toList) := by
  obtain ⟨gone, small, isGone, unreleased⟩ := kept.owned kdshmp allocated
  have others : ∀ other, (Function.update kdshmids kdshmp kdshmid other).ipcAlloc = true →
      other ≠ kdshmp := by
    rintro other isAlloc rfl
    rw [update_self, freed] at isAlloc
    cases isAlloc
  rw [isGone, toList_some]
  refine
    { owned := fun other isAlloc => ?_
      unique := fun first second isFirst isSecond same => ?_
      nodup := ?_
      old := fun memory isOld => ?_
      accounted := fun memory isSmall stays => ?_ }
  · have different := others other isAlloc
    rw [update_of_ne different] at isAlloc ⊢
    obtain ⟨memory, isSmall, isMemory, stays⟩ := kept.owned other isAlloc
    refine ⟨memory, isSmall, isMemory, ?_⟩
    rw [mem_append, mem_singleton, not_or]
    refine ⟨stays, ?_⟩
    rintro rfl
    exact different (kept.unique other kdshmp isAlloc allocated (isMemory.trans isGone.symm))
  · have notFirst := others first isFirst
    have notSecond := others second isSecond
    rw [update_of_ne notFirst] at isFirst same
    rw [update_of_ne notSecond] at isSecond same
    exact kept.unique first second isFirst isSecond same
  · refine Nodup.append kept.nodup (nodup_singleton gone) ?_
    rintro memory inReleased inGone
    rw [mem_singleton] at inGone
    subst memory
    exact unreleased inReleased
  · rcases mem_append.mp isOld with wasOld | isGone
    · exact kept.old memory wasOld
    · rw [mem_singleton] at isGone
      omega
  · rw [mem_append, mem_singleton, not_or] at stays
    obtain ⟨other, isAlloc, isMemory⟩ := kept.accounted memory isSmall stays.1
    have different : other ≠ kdshmp := by
      rintro rfl
      rw [isGone] at isMemory
      exact stays.2 (some.inj isMemory).symm
    exact ⟨other, by rw [update_of_ne different]; exact ⟨isAlloc, isMemory⟩⟩

end

end MemoryKept

/-- A reference that is about to be dropped. -/
def owes (owed : Option Nat) (kdshmp : Nat) : Int :=
  if owed = some kdshmp then 1 else 0

/-- The references agree with the attachments, but for one that is owed. -/
structure DshmKept (nproc : Nat) (owed : Option Nat) (state : DshmState) : Prop where
  forks : ForksKept nproc state.procs
  memory : MemoryKept state.kdshmids state.nextMemory state.released
  entry : ∀ slot kdshmp, state.entries slot = some kdshmp → (state.kdshmids kdshmp).ipcAlloc = true
  injective : ∀ first second kdshmp, state.entries first = some kdshmp →
      state.entries second = some kdshmp → first = second
  present : ∀ slot kdshmp, state.entries slot = some kdshmp → (state.kdshmids kdshmp).kdshmRefcnt =
      1 + state.attachments nproc kdshmp + owes owed kdshmp
  removed : ∀ kdshmp, (state.kdshmids kdshmp).ipcAlloc = true →
      (∀ slot, state.entries slot ≠ some kdshmp) → (state.kdshmids kdshmp).kdshmRefcnt =
          state.attachments nproc kdshmp + owes owed kdshmp ∧
          0 < (state.kdshmids kdshmp).kdshmRefcnt
  records : ∀ process sap, sap ∈ (state.procs process).segacct →
      (state.kdshmids sap.saKdshmp).ipcAlloc = true ∧
        (state.kdshmids sap.saKdshmp).memory = sap.memory
  detaching : ∀ process kdshmp, (state.procs process).activity = .detaching kdshmp →
      (state.kdshmids kdshmp).ipcAlloc = true
  owed : ∀ kdshmp, owed = some kdshmp → (state.kdshmids kdshmp).ipcAlloc = true

section Totals

variable {nproc process kdshmp : Nat} {state : DshmState} {proc : DshmProc}

theorem setProc_procs : (state.setProc process proc).procs =
    Function.update state.procs process proc :=
  rfl

theorem attachments_setProc (inside : process < nproc) (kdshmp : Nat) :
    (state.setProc process proc).attachments nproc kdshmp +
      (state.procs process).attachments kdshmp =
      state.attachments nproc kdshmp + proc.attachments kdshmp := by
  have member : process ∈ Finset.range nproc := Finset.mem_range.mpr inside
  have others : ∑ other ∈ (Finset.range nproc).erase process,
      ((state.setProc process proc).procs other).attachments kdshmp =
      ∑ other ∈ (Finset.range nproc).erase process, (state.procs other).attachments kdshmp := by
    refine Finset.sum_congr rfl fun other isOther => ?_
    rw [setProc_procs, update_of_ne (Finset.ne_of_mem_erase isOther)]
  have own : (state.setProc process proc).procs process = proc := update_self ..
  rw [DshmState.attachments, DshmState.attachments,
    ← Finset.add_sum_erase _ _ member, ← Finset.add_sum_erase _ _ member, others, own]
  omega

section

variable (forks : ForksKept nproc state.procs)
include forks

theorem attachments_nonneg (kdshmp : Nat) : 0 ≤ state.attachments nproc kdshmp :=
  Finset.sum_nonneg fun other _ => forks.attachments_nonneg other kdshmp

theorem attachments_pos (inside : process < nproc)
    (holds : 0 < (state.procs process).attachments kdshmp) :
    0 < state.attachments nproc kdshmp := by
  have atMost : (state.procs process).attachments kdshmp ≤ state.attachments nproc kdshmp :=
    Finset.single_le_sum (fun other _ => forks.attachments_nonneg other kdshmp)
      (Finset.mem_range.mpr inside)
  omega

theorem attachments_pos_of_record {sap : Segacct} (recorded : sap ∈ (state.procs process).segacct) :
    0 < state.attachments nproc sap.saKdshmp := by
  obtain ⟨holder, inside, holds⟩ := forks.holder_of_record recorded
  exact attachments_pos forks inside holds

theorem attachments_pos_of_detaching
    (detaching : (state.procs process).activity = .detaching kdshmp) :
    0 < state.attachments nproc kdshmp := by
  have exists_ : (state.procs process).activity ≠ .absent := by
    rw [detaching]
    simp
  refine attachments_pos forks (forks.inside exists_) ?_
  simp only [DshmProc.attachments, detaching, if_true]
  omega

theorem attachments_eq_zero
    (noRecord : ∀ process, ∀ sap ∈ (state.procs process).segacct, sap.saKdshmp ≠ kdshmp)
    (noDetaching : ∀ process, (state.procs process).activity ≠ .detaching kdshmp) :
    state.attachments nproc kdshmp = 0 := by
  refine Finset.sum_eq_zero fun other _ => ?_
  have none_ : (state.procs other).segacct.countP (fun sap => sap.saKdshmp = kdshmp) = 0 := by
    refine countP_eq_zero.mpr fun sap recorded => ?_
    simpa using noRecord other sap recorded
  rw [DshmProc.attachments, none_]
  cases isActivity : (state.procs other).activity with
  | detaching which =>
    have different : which ≠ kdshmp := by
      rintro rfl
      exact noDetaching other isActivity
    simp [different]
  | counting child which rest =>
    have different : which ≠ kdshmp := by
      rintro rfl
      obtain ⟨sap, recorded, isKdshmp⟩ := forks.counting_own isActivity
      exact noRecord other sap recorded isKdshmp
    simp [different]
  | _ => simp

end

end Totals

end Uw7.Ipc
