import Uw7.Ipc.AttachmentCounts
import Uw7.Lib.Run

namespace Uw7.Ipc

/-!
# References over runs

The reference count of a segment agrees with its attachments after every step, so
that its memory is released with the last reference and not before.
-/

open Lib Function List Option

variable {nproc process kdshmp : Nat} {state : DshmState} {owed : Option Nat}

theorem owes_self : owes (some kdshmp) kdshmp = 1 := if_pos rfl

theorem owes_of_ne {other : Nat} (different : other ≠ kdshmp) : owes (some kdshmp) other = 0 :=
  if_neg fun same => different (some.inj same).symm

theorem owes_none : owes none kdshmp = 0 := if_neg (by simp)

theorem dropReference_last (last : (state.kdshmids kdshmp).kdshmRefcnt - 1 = 0) :
    state.dropReference kdshmp =
      { state with
        kdshmids := update state.kdshmids kdshmp
          { state.kdshmids kdshmp with
            kdshmRefcnt := (state.kdshmids kdshmp).kdshmRefcnt - 1
            ipcAlloc := false
            memory := none }
        released := state.released ++ (state.kdshmids kdshmp).memory.toList } := by
  rw [DshmState.dropReference, if_pos last]
  simp only [DshmState.destroy, DshmState.setKdshmid, update_self, update_idem]

theorem dropReference_other (more : (state.kdshmids kdshmp).kdshmRefcnt - 1 ≠ 0) :
    state.dropReference kdshmp =
      { state with
        kdshmids := update state.kdshmids kdshmp
          { state.kdshmids kdshmp with
            kdshmRefcnt := (state.kdshmids kdshmp).kdshmRefcnt - 1 } } := by
  rw [DshmState.dropReference, if_neg more]
  rfl

theorem update_refcnt (refcnt : Int) (other : Nat) : (update state.kdshmids kdshmp
    { state.kdshmids kdshmp with kdshmRefcnt := refcnt } other).ipcAlloc =
    (state.kdshmids other).ipcAlloc ∧
    (update state.kdshmids kdshmp { state.kdshmids kdshmp with kdshmRefcnt := refcnt }
      other).memory =
      (state.kdshmids other).memory := by
  by_cases same : other = kdshmp
  · subst other
    simp
  · simp [update_of_ne same]

namespace DshmKept

section

variable (kept : DshmKept nproc (some kdshmp) state)
include kept

/-- The segment goes with its last reference. -/
theorem dropLast (last : (state.kdshmids kdshmp).kdshmRefcnt - 1 = 0) :
    DshmKept nproc none (state.dropReference kdshmp) := by
  have allocated := kept.owed kdshmp rfl
  have nonneg := attachments_nonneg kept.forks kdshmp
  have hidden : ∀ slot, state.entries slot ≠ some kdshmp := by
    intro slot isEntry
    have count := kept.present slot kdshmp isEntry
    rw [owes_self] at count
    omega
  have none_ : state.attachments nproc kdshmp = 0 := by
    have count := (kept.removed kdshmp allocated hidden).1
    rw [owes_self] at count
    omega
  rw [dropReference_last last]
  refine
    { kept with
      memory := kept.memory.destroy allocated rfl
      entry := fun slot other isEntry => ?_
      present := fun slot other isEntry => ?_
      removed := fun other isAlloc noEntry => ?_
      records := fun process sap recorded => ?_
      detaching := fun process other isDetaching => ?_
      owed := fun other isOwed => by cases isOwed }
  · have different : other ≠ kdshmp := by
      rintro rfl
      exact hidden slot isEntry
    dsimp only
    rw [update_of_ne different]
    exact kept.entry slot other isEntry
  · have different : other ≠ kdshmp := by
      rintro rfl
      exact hidden slot isEntry
    have count := kept.present slot other isEntry
    rw [owes_of_ne different] at count
    dsimp only
    rw [update_of_ne different, owes_none]
    exact count
  · dsimp only at isAlloc ⊢
    by_cases same : other = kdshmp
    · subst other
      rw [update_self] at isAlloc
      cases isAlloc
    · rw [update_of_ne same] at isAlloc ⊢
      have counts := kept.removed other isAlloc noEntry
      rw [owes_of_ne same] at counts
      exact counts
  · have different : sap.saKdshmp ≠ kdshmp := by
      rintro rfl
      have some_ := attachments_pos_of_record kept.forks recorded
      omega
    dsimp only
    rw [update_of_ne different]
    exact kept.records process sap recorded
  · have different : other ≠ kdshmp := by
      rintro rfl
      have some_ := attachments_pos_of_detaching kept.forks isDetaching
      omega
    dsimp only
    rw [update_of_ne different]
    exact kept.detaching process other isDetaching

theorem dropOther (more : (state.kdshmids kdshmp).kdshmRefcnt - 1 ≠ 0) :
    DshmKept nproc none (state.dropReference kdshmp) := by
  rw [dropReference_other more]
  have same := @update_refcnt kdshmp state ((state.kdshmids kdshmp).kdshmRefcnt - 1)
  refine
    { kept with
      memory := kept.memory.congr (fun other => (same other).1) fun other => (same other).2
      entry := fun slot other isEntry => ?_
      present := fun slot other isEntry => ?_
      removed := fun other isAlloc noEntry => ?_
      records := fun process sap recorded => ?_
      detaching := fun process other isDetaching => ?_
      owed := fun other isOwed => by cases isOwed }
  · exact (same other).1.trans (kept.entry slot other isEntry)
  · have count := kept.present slot other isEntry
    dsimp only
    by_cases isDropped : other = kdshmp
    · subst other
      rw [owes_self] at count
      rw [update_self]
      change (state.kdshmids kdshmp).kdshmRefcnt - 1 = 1 + state.attachments nproc kdshmp + 0
      omega
    · rw [owes_of_ne isDropped] at count
      rw [update_of_ne isDropped]
      exact count
  · have isAlloc' := (same other).1.symm.trans isAlloc
    obtain ⟨count, positive⟩ := kept.removed other isAlloc' noEntry
    dsimp only
    by_cases isDropped : other = kdshmp
    · subst other
      rw [owes_self] at count
      rw [update_self]
      change (state.kdshmids kdshmp).kdshmRefcnt - 1 = state.attachments nproc kdshmp + 0 ∧
        0 < (state.kdshmids kdshmp).kdshmRefcnt - 1
      omega
    · rw [owes_of_ne isDropped] at count
      rw [update_of_ne isDropped]
      exact ⟨count, positive⟩
  · obtain ⟨isAlloc, isMemory⟩ := kept.records process sap recorded
    exact ⟨(same sap.saKdshmp).1.trans isAlloc, (same sap.saKdshmp).2.trans isMemory⟩
  · exact (same other).1.trans (kept.detaching process other isDetaching)

theorem dropReference :
    DshmKept nproc none (state.dropReference kdshmp) := by
  by_cases last : (state.kdshmids kdshmp).kdshmRefcnt - 1 = 0
  · exact kept.dropLast last
  · exact kept.dropOther last

end

theorem change {owed' : Option Nat} {procs' : Nat → DshmProc} {kdshmids' : Nat → Kdshmid}
    (kept : DshmKept nproc owed state) (forks : ForksKept nproc procs')
    (sameAlloc : ∀ other, (kdshmids' other).ipcAlloc = (state.kdshmids other).ipcAlloc)
    (sameMemory : ∀ other, (kdshmids' other).memory = (state.kdshmids other).memory)
    (balance : ∀ other, (state.kdshmids other).ipcAlloc = true →
      (kdshmids' other).kdshmRefcnt + state.attachments nproc other + owes owed other =
        (state.kdshmids other).kdshmRefcnt +
          { state with procs := procs' }.attachments nproc other + owes owed' other)
    (more : ∀ other, (state.kdshmids other).kdshmRefcnt ≤ (kdshmids' other).kdshmRefcnt)
    (records : ∀ process, ∀ sap ∈ (procs' process).segacct,
      (state.kdshmids sap.saKdshmp).ipcAlloc = true ∧
        (state.kdshmids sap.saKdshmp).memory = sap.memory)
    (detaching : ∀ process kdshmp, (procs' process).activity = .detaching kdshmp →
      (state.kdshmids kdshmp).ipcAlloc = true)
    (stillOwed : ∀ kdshmp, owed' = some kdshmp → (state.kdshmids kdshmp).ipcAlloc = true) :
    DshmKept nproc owed' { state with procs := procs', kdshmids := kdshmids' } where
  forks := forks
  memory := kept.memory.congr sameAlloc sameMemory
  entry := fun slot other isEntry => (sameAlloc other).trans (kept.entry slot other isEntry)
  injective := kept.injective
  present := by
    intro slot other isEntry
    have before := kept.present slot other isEntry
    have moved := balance other (kept.entry slot other isEntry)
    change (kdshmids' other).kdshmRefcnt =
      1 + { state with procs := procs' }.attachments nproc other + owes owed' other
    omega
  removed := by
    intro other isAlloc noEntry
    have wasAlloc := (sameAlloc other).symm.trans isAlloc
    obtain ⟨before, positive⟩ := kept.removed other wasAlloc noEntry
    have moved := balance other wasAlloc
    have atLeast := more other
    change (kdshmids' other).kdshmRefcnt = { state with procs := procs' }.attachments nproc other +
      owes owed' other ∧
      0 < (kdshmids' other).kdshmRefcnt
    omega
  records := by
    intro process sap recorded
    obtain ⟨isAlloc, isMemory⟩ := records process sap recorded
    exact ⟨(sameAlloc _).trans isAlloc, (sameMemory _).trans isMemory⟩
  detaching := fun process other isDetaching =>
    (sameAlloc other).trans (detaching process other isDetaching)
  owed := fun other isOwed => (sameAlloc other).trans (stillOwed other isOwed)

end DshmKept

section Counts

variable {sap : Segacct} {segacct : List Segacct} {addr : UInt32}

theorem countP_shmAdd (other : Nat) :
    ((shmAdd sap segacct).countP (fun sap => sap.saKdshmp = other) : Int) =
      segacct.countP (fun sap => sap.saKdshmp = other) +
        if sap.saKdshmp = other then 1 else 0 := by
  rw [shmAdd_perm.countP_eq, countP_cons]
  simp only [decide_eq_true_eq]
  split_ifs <;> simp

theorem countP_shmDel (ascending : Ascending segacct) (found : shmFind addr segacct = some sap)
    (other : Nat) : (segacct.countP (fun sap => sap.saKdshmp = other) : Int) =
      (shmDel sap.saAddr segacct).countP (fun sap => sap.saKdshmp = other) +
        if sap.saKdshmp = other then 1 else 0 := by
  obtain ⟨removed, rfl⟩ := shmDel_perm ascending found
  rw [removed.countP_eq, countP_cons]
  simp only [decide_eq_true_eq]
  split_ifs <;> simp

end Counts

namespace DshmKept

variable {slot : Nat}

theorem get (kept : DshmKept nproc none state) (dshmmin : Nat) (uap : DshmGeta) (created : Bool)
    (noEntry : state.entries slot = none) (free : (state.kdshmids kdshmp).ipcAlloc = false) :
    DshmKept nproc none (state.dshmgetNew dshmmin slot kdshmp uap created) := by
  have unused : ∀ other, state.entries other ≠ some kdshmp := by
    intro other isEntry
    rw [kept.entry other kdshmp isEntry] at free
    cases free
  have none_ : state.attachments nproc kdshmp = 0 := by
    refine attachments_eq_zero kept.forks ?_ ?_
    · rintro process sap recorded rfl
      rw [(kept.records process sap recorded).1] at free
      cases free
    · intro process isDetaching
      rw [kept.detaching process kdshmp isDetaching] at free
      cases free
  rw [DshmState.dshmgetNew]
  split_ifs with accepted
  · have allocated : ∀ other kdshmid, (state.kdshmids other).ipcAlloc = true →
        update state.kdshmids kdshmp kdshmid other = state.kdshmids other := by
      intro other kdshmid isAlloc
      refine update_of_ne ?_ _ _
      rintro rfl
      rw [free] at isAlloc
      cases isAlloc
    refine
      { forks := kept.forks
        memory := kept.memory.create free rfl rfl
        entry := fun place other isEntry => ?_
        injective := fun first second other isFirst isSecond => ?_
        present := fun place other isEntry => ?_
        removed := fun other isAlloc isHidden => ?_
        records := fun process sap recorded => ?_
        detaching := fun process other isDetaching => ?_
        owed := fun other isOwed => by cases isOwed }
    · dsimp only at isEntry
      by_cases isSlot : place = slot
      · subst place
        rw [update_self] at isEntry
        obtain rfl := some.inj isEntry
        simp [DshmState.setKdshmid]
      · rw [update_of_ne isSlot] at isEntry
        have isAlloc := kept.entry place other isEntry
        simp only [DshmState.setKdshmid, allocated other _ isAlloc, isAlloc]
    · dsimp only at isFirst isSecond
      by_cases firstSlot : first = slot
      · by_cases secondSlot : second = slot
        · rw [firstSlot, secondSlot]
        · subst first
          rw [update_self] at isFirst
          rw [update_of_ne secondSlot] at isSecond
          obtain rfl := some.inj isFirst
          exact absurd isSecond (unused second)
      · rw [update_of_ne firstSlot] at isFirst
        by_cases secondSlot : second = slot
        · subst second
          rw [update_self] at isSecond
          obtain rfl := some.inj isSecond
          exact absurd isFirst (unused first)
        · rw [update_of_ne secondSlot] at isSecond
          exact kept.injective first second other isFirst isSecond
    · dsimp only at isEntry
      change _ = 1 + state.attachments nproc other + owes none other
      by_cases isSlot : place = slot
      · subst place
        rw [update_self] at isEntry
        obtain rfl := some.inj isEntry
        simp [DshmState.setKdshmid, none_, owes_none]
      · rw [update_of_ne isSlot] at isEntry
        have isAlloc := kept.entry place other isEntry
        simp only [DshmState.setKdshmid, allocated other _ isAlloc]
        exact kept.present place other isEntry
    · have different : other ≠ kdshmp := by
        rintro rfl
        exact isHidden slot (update_self ..)
      simp only [DshmState.setKdshmid, update_of_ne different] at isAlloc ⊢
      refine kept.removed other isAlloc fun place isEntry => ?_
      refine isHidden place ?_
      have isOther : place ≠ slot := by
        rintro rfl
        rw [noEntry] at isEntry
        cases isEntry
      exact (update_of_ne isOther _ _).trans isEntry
    · have before := kept.records process sap recorded
      simp only [DshmState.setKdshmid, allocated _ _ before.1]
      exact before
    · have isAlloc := kept.detaching process other isDetaching
      simp only [DshmState.setKdshmid, allocated _ _ isAlloc]
      exact isAlloc
  · have same : ∀ other, (update state.kdshmids kdshmp ((state.kdshmids kdshmp).setParameters uap)
        other).ipcAlloc = (state.kdshmids other).ipcAlloc ∧
        (update state.kdshmids kdshmp ((state.kdshmids kdshmp).setParameters uap) other).memory =
          (state.kdshmids other).memory ∧
        (update state.kdshmids kdshmp ((state.kdshmids kdshmp).setParameters uap)
          other).kdshmRefcnt =
          (state.kdshmids other).kdshmRefcnt := by
      intro other
      by_cases isKdshmp : other = kdshmp
      · subst other
        simp [Kdshmid.setParameters]
      · simp [update_of_ne isKdshmp]
    exact kept.change kept.forks (fun other => (same other).1) (fun other => (same other).2.1)
      (fun other _ => by rw [(same other).2.2]) (fun other => (same other).2.2.ge)
      kept.records kept.detaching kept.owed

theorem changeOne {owed' : Option Nat} {proc : DshmProc} {kdshmids' : Nat → Kdshmid}
    (kept : DshmKept nproc owed state) (inside : process < nproc)
    (forks : ForksKept nproc (update state.procs process proc))
    (sameAlloc : ∀ other, (kdshmids' other).ipcAlloc = (state.kdshmids other).ipcAlloc)
    (sameMemory : ∀ other, (kdshmids' other).memory = (state.kdshmids other).memory)
    (balance : ∀ other, (kdshmids' other).kdshmRefcnt +
      (state.procs process).attachments other + owes owed other =
      (state.kdshmids other).kdshmRefcnt + proc.attachments other + owes owed' other)
    (more : ∀ other, (state.kdshmids other).kdshmRefcnt ≤ (kdshmids' other).kdshmRefcnt)
    (records : ∀ sap ∈ proc.segacct, (state.kdshmids sap.saKdshmp).ipcAlloc = true ∧
      (state.kdshmids sap.saKdshmp).memory = sap.memory)
    (detaching : ∀ kdshmp, proc.activity = .detaching kdshmp →
      (state.kdshmids kdshmp).ipcAlloc = true)
    (stillOwed : ∀ kdshmp, owed' = some kdshmp → (state.kdshmids kdshmp).ipcAlloc = true) :
    DshmKept nproc owed' { state.setProc process proc with kdshmids := kdshmids' } := by
  refine kept.change forks sameAlloc sameMemory ?_ more ?_ ?_ stillOwed
  · intro other _
    have sum := @attachments_setProc nproc process state proc inside other
    have own := balance other
    change _ = _ + (state.setProc process proc).attachments nproc other + _
    omega
  · exact (forall_update_iff _ fun _ (proc : DshmProc) => ∀ sap, sap ∈ proc.segacct →
      (state.kdshmids sap.saKdshmp).ipcAlloc = true ∧
        (state.kdshmids sap.saKdshmp).memory = sap.memory).2
      ⟨records, fun other _ => kept.records other⟩
  · exact (forall_update_iff _ fun _ (proc : DshmProc) => ∀ which,
      proc.activity = .detaching which → (state.kdshmids which).ipcAlloc = true).2
      ⟨detaching, fun other _ => kept.detaching other⟩

theorem setNshmseg (kept : DshmKept nproc none state)
    (runs : (state.procs process).activity = .idle) (nshmseg : Int) :
    DshmKept nproc none (state.setProc process
      { state.procs process with nshmseg := nshmseg }) := by
  refine kept.changeOne (kept.forks.inside (by rw [runs]; simp))
    (kept.forks.update (by rw [runs]; simp) (by rw [runs]; simp)
      (by rw [runs]; rfl) (by rw [runs]; rfl) ?_ (kept.forks.ascending process))
    (fun _ => rfl) (fun _ => rfl) (fun _ => rfl) (fun _ => le_rfl)
    (kept.records process) ?_ kept.owed
  · intro isAbsent
    rw [runs] at isAbsent
    cases isAbsent
  · intro which isDetaching
    rw [runs] at isDetaching
    cases isDetaching

theorem refcnt_up (other : Nat) : (update state.kdshmids kdshmp
    { state.kdshmids kdshmp with
      kdshmRefcnt := (state.kdshmids kdshmp).kdshmRefcnt + 1 }
    other).kdshmRefcnt = (state.kdshmids other).kdshmRefcnt +
      if kdshmp = other then 1 else 0 := by
  by_cases same : other = kdshmp
  · subst other
    simp
  · simp [update_of_ne same, Ne.symm same]

section

variable (kept : DshmKept nproc none state)
include kept

theorem attach (shmseg : Int) (denied gap mapped : Bool)
    (runs : (state.procs process).activity = .idle) (entry : state.entries slot = some kdshmp) :
    DshmKept nproc none (state.dshmat shmseg process kdshmp denied gap mapped) := by
  rw [DshmState.dshmat]
  split_ifs with isDenied tooMany noGap notMapped
  · exact kept
  · exact kept.setNshmseg runs _
  · exact kept.setNshmseg runs _
  · exact kept.setNshmseg runs _
  · have same := @update_refcnt kdshmp state ((state.kdshmids kdshmp).kdshmRefcnt + 1)
    refine @changeOne nproc process state none none _ (update state.kdshmids kdshmp
      { state.kdshmids kdshmp with
        kdshmRefcnt := (state.kdshmids kdshmp).kdshmRefcnt + 1 })
      kept (kept.forks.inside (by rw [runs]; simp))
      (kept.forks.update (by rw [runs]; simp) (by rw [runs]; simp)
        (by rw [runs]; rfl) (by rw [runs]; rfl) ?_
        (shmAdd_ascending (kept.forks.ascending process)))
      (fun other => (same other).1) (fun other => (same other).2) ?_ ?_ ?_ ?_ kept.owed
    · intro isAbsent
      rw [runs] at isAbsent
      cases isAbsent
    · intro other
      rw [refcnt_up]
      simp only [DshmProc.attachments, runs, countP_shmAdd]
      omega
    · intro other
      rw [refcnt_up]
      split_ifs <;> omega
    · intro sap recorded
      rcases mem_cons.mp (shmAdd_perm.mem_iff.mp recorded) with rfl | old
      · exact ⟨kept.entry slot kdshmp entry, rfl⟩
      · exact kept.records process sap old
    · intro which isDetaching
      rw [runs] at isDetaching
      cases isDetaching

theorem unmap {sap : Segacct} {addr : UInt32} (runs : (state.procs process).activity = .idle)
    (found : shmFind addr (state.procs process).segacct = some sap) :
    DshmKept nproc none (state.kdshmdtUnmap process sap) := by
  have ascending := kept.forks.ascending process
  obtain ⟨removed, isAddr⟩ := shmDel_perm ascending found
  refine kept.changeOne (kept.forks.inside (by rw [runs]; simp))
    (kept.forks.update (by rw [runs]; simp) (by rw [runs]; simp)
      (by rw [runs]; rfl) rfl ?_ (shmDel_ascending ascending))
    (fun _ => rfl) (fun _ => rfl) ?_ (fun _ => le_rfl) ?_ ?_ kept.owed
  · intro isAbsent
    cases isAbsent
  · intro other
    have count := countP_shmDel ascending found other
    simp only [DshmProc.attachments, runs]
    omega
  · intro other recorded
    refine kept.records process other (removed.mem_iff.mpr ?_)
    rw [isAddr] at recorded
    exact mem_cons_of_mem _ recorded
  · intro which isDetaching
    obtain rfl := DshmActivity.detaching.inj isDetaching
    exact (kept.records process sap (removed.mem_iff.mpr mem_cons_self)).1

theorem drop (detaching : (state.procs process).activity = .detaching kdshmp) :
    DshmKept nproc none (state.kdshmdtDrop process kdshmp) := by
  refine DshmKept.dropReference ?_
  refine kept.changeOne (kept.forks.inside (by rw [detaching]; simp))
    (kept.forks.update (by rw [detaching]; simp) (by rw [detaching]; simp)
      (by rw [detaching]; rfl) rfl ?_ (kept.forks.ascending process))
    (fun _ => rfl) (fun _ => rfl) ?_ (fun _ => le_rfl) (kept.records process) ?_ ?_
  · intro isAbsent
    cases isAbsent
  · intro other
    simp only [DshmProc.attachments, detaching, owes, reduceCtorEq, if_false, some.injEq]
    omega
  · intro which isDetaching
    cases isDetaching
  · intro which isOwed
    obtain rfl := some.inj isOwed
    exact kept.detaching process kdshmp detaching

theorem remove (denied : Bool)
    (entry : state.entries slot = some kdshmp) :
    DshmKept nproc none (state.ipcRmid slot kdshmp denied) := by
  rw [DshmState.ipcRmid]
  split_ifs
  · exact kept
  have isAlloc := kept.entry slot kdshmp entry
  have others : ∀ place other, update state.entries slot none place = some other →
      state.entries place = some other ∧ other ≠ kdshmp := by
    intro place other isEntry
    have different : place ≠ slot := by
      rintro rfl
      rw [update_self] at isEntry
      cases isEntry
    rw [update_of_ne different] at isEntry
    refine ⟨isEntry, ?_⟩
    rintro rfl
    exact different (kept.injective place slot other isEntry entry)
  refine DshmKept.dropReference ?_
  refine
    { kept with
      entry := fun place other isEntry => kept.entry place other (others place other isEntry).1
      injective := fun first second other isFirst isSecond =>
        kept.injective first second other (others first other isFirst).1
          (others second other isSecond).1
      present := fun place other isEntry => ?_
      removed := fun other isAlloc noEntry => ?_
      owed := fun other isOwed => ?_ }
  · obtain ⟨wasEntry, different⟩ := others place other isEntry
    have count := kept.present place other wasEntry
    rw [owes_of_ne different]
    exact count
  · by_cases same : other = kdshmp
    · subst other
      have count := kept.present slot kdshmp entry
      have nonneg := attachments_nonneg kept.forks kdshmp
      rw [owes_none] at count
      rw [owes_self]
      change (state.kdshmids kdshmp).kdshmRefcnt = state.attachments nproc kdshmp + 1 ∧
        0 < (state.kdshmids kdshmp).kdshmRefcnt
      omega
    · have counts := kept.removed other isAlloc fun place isEntry => by
        have isOther : place ≠ slot := by
          rintro rfl
          rw [entry] at isEntry
          exact same (some.inj isEntry).symm
        exact noEntry place ((update_of_ne isOther _ _).trans isEntry)
      rw [owes_of_ne same]
      exact counts
  · obtain rfl := some.inj isOwed
    exact isAlloc

/-- A parent and its child change together. -/
theorem changeFamily {child : Nat} {proc childProc : DshmProc}
    (inside : process < nproc) (childInside : child < nproc) (different : child ≠ process)
    (forks : ForksKept nproc (update (update state.procs child childProc) process proc))
    (balance : ∀ other, (state.procs process).attachments other +
      (state.procs child).attachments other =
      proc.attachments other + childProc.attachments other)
    (records : ∀ sap, sap ∈ proc.segacct ∨ sap ∈ childProc.segacct →
      sap ∈ (state.procs process).segacct ∨ sap ∈ (state.procs child).segacct)
    (notDetaching : ∀ kdshmp, proc.activity ≠ .detaching kdshmp ∧
      childProc.activity ≠ .detaching kdshmp) :
    DshmKept nproc none ((state.setProc child childProc).setProc process proc) := by
  have wasRecorded : ∀ sap, sap ∈ proc.segacct ∨ sap ∈ childProc.segacct →
      (state.kdshmids sap.saKdshmp).ipcAlloc = true ∧
        (state.kdshmids sap.saKdshmp).memory = sap.memory := by
    intro sap recorded
    rcases records sap recorded with inProcess | inChild
    · exact kept.records process sap inProcess
    · exact kept.records child sap inChild
  refine kept.change forks (fun _ => rfl) (fun _ => rfl) ?_ (fun _ => le_rfl) ?_ ?_ kept.owed
  · intro other _
    have first := @attachments_setProc nproc child state childProc childInside other
    have second := @attachments_setProc nproc process (state.setProc child childProc) proc
        inside other
    have own : (state.setProc child childProc).procs process = state.procs process :=
      update_of_ne (Ne.symm different) _ _
    rw [own] at second
    have moved := balance other
    change (state.kdshmids other).kdshmRefcnt + state.attachments nproc other + owes none other =
      (state.kdshmids other).kdshmRefcnt +
        ((state.setProc child childProc).setProc process proc).attachments
          nproc other + owes none other
    omega
  · exact ForksKept.update_family (P := fun proc => ∀ sap, sap ∈ proc.segacct →
        (state.kdshmids sap.saKdshmp).ipcAlloc = true ∧
          (state.kdshmids sap.saKdshmp).memory = sap.memory)
      (fun sap recorded => wasRecorded sap (.inl recorded))
      (fun sap recorded => wasRecorded sap (.inr recorded)) kept.records
  · exact ForksKept.update_family (P := fun proc => ∀ which, proc.activity = .detaching which →
        (state.kdshmids which).ipcAlloc = true)
      (fun which isDetaching => absurd isDetaching (notDetaching which).1)
      (fun which isDetaching => absurd isDetaching (notDetaching which).2) kept.detaching

end

section Forks

variable {child : Nat} {sap : Segacct} {rest : List Segacct}

section

variable (kept : DshmKept nproc none state)
include kept

theorem forkStart (runs : (state.procs process).activity = .idle) (childInside : child < nproc)
    (absent : (state.procs child).activity = .absent) :
    DshmKept nproc none (state.forkStart process child) := by
  have inside : process < nproc := kept.forks.inside (by rw [runs]; simp)
  have different : child ≠ process := by
    rintro rfl
    rw [runs] at absent
    cases absent
  have noRecords := kept.forks.absent child absent
  refine kept.changeFamily inside childInside different
    (kept.forks.updateFamily inside childInside different
      (by rw [runs]; simp) ?_ ?_ (by simp) (kept.forks.ascending process)
      (by simp) rfl List.Pairwise.nil ?_ ?_)
    ?_ ?_ ?_
  · intro other _ isChild
    rw [(kept.forks.copied other child isChild).1] at absent
    cases absent
  · intro other isChild
    exact (some.inj isChild).symm
  · intro _
    exact ⟨rfl, Perm.refl _⟩
  · intro _ _ isCounting
    cases isCounting
  · intro other
    simp [DshmProc.attachments, runs, absent, noRecords]
  · rintro sap (inProcess | inChild)
    · exact .inl inProcess
    · cases inChild
  · exact fun _ => ⟨by simp, by simp⟩

theorem forkAdd (forking : (state.procs process).activity = .forking child (sap :: rest)) :
    DshmKept nproc none (state.forkAdd process child sap rest) := by
  have isChild : (state.procs process).activity.child = some child := by
    rw [forking]
    rfl
  obtain ⟨newborn, copied⟩ := kept.forks.copied process child isChild
  rw [forking] at copied
  have inside : process < nproc := kept.forks.inside (by rw [forking]; simp)
  have childInside : child < nproc := kept.forks.inside (by rw [newborn]; simp)
  have different : child ≠ process := by
    rintro rfl
    rw [forking] at newborn
    cases newborn
  have inParent : sap ∈ (state.procs process).segacct :=
    copied.mem_iff.mp (mem_append_right _ mem_cons_self)
  refine kept.changeFamily inside childInside different
    (kept.forks.updateFamily inside childInside different (by rw [forking]; simp) ?_ ?_ (by simp)
      (kept.forks.ascending process) (by simp [newborn]) (by simp [newborn, DshmActivity.child])
      (shmAdd_ascending (kept.forks.ascending child)) ?_ ?_)
    ?_ ?_ ?_
  · intro other notProcess isOther
    exact notProcess (kept.forks.parent other process child isOther isChild)
  · intro other isOther
    exact (some.inj isOther).symm
  · intro _
    refine ⟨newborn, ?_⟩
    exact ((shmAdd_perm.append_right rest).trans perm_middle.symm).trans copied
  · intro kdshmp _ isCounting
    cases isCounting
    exact ⟨sap, shmAdd_perm.mem_iff.mpr mem_cons_self, rfl⟩
  · intro other
    simp only [DshmProc.attachments, forking, newborn, countP_shmAdd]
    split_ifs <;> omega
  · rintro other (inProcess | inChild)
    · exact .inl inProcess
    · rcases mem_cons.mp (shmAdd_perm.mem_iff.mp inChild) with
        rfl | wasInChild
      · exact .inl inParent
      · exact .inr wasInChild
  · exact fun _ => ⟨by simp, by simp [newborn]⟩

theorem forkCount (counting : (state.procs process).activity = .counting child kdshmp rest) :
    DshmKept nproc none (state.forkCount process child kdshmp rest) := by
  have isChild : (state.procs process).activity.child = some child := by
    rw [counting]
    rfl
  obtain ⟨newborn, copied⟩ := kept.forks.copied process child isChild
  rw [counting] at copied
  have inside : process < nproc := kept.forks.inside (by rw [counting]; simp)
  have childInside : child < nproc := kept.forks.inside (by rw [newborn]; simp)
  have different : child ≠ process := by
    rintro rfl
    rw [counting] at newborn
    cases newborn
  have forks := @ForksKept.updateFamily nproc process child state.procs
      { state.procs process with activity := .forking child rest }
      (state.procs child) kept.forks inside childInside different (by rw [counting]; simp)
      (fun other notProcess isOther =>
        notProcess (kept.forks.parent other process child isOther isChild))
      (fun other isOther => (some.inj isOther).symm) (by simp)
      (kept.forks.ascending process) (by simp [newborn])
      (by simp [newborn, DshmActivity.child]) (kept.forks.ascending child)
      (fun _ => ⟨newborn, copied⟩) (fun _ _ isCounting => by cases isCounting)
  rw [update_eq_self] at forks
  have same := @update_refcnt kdshmp state ((state.kdshmids kdshmp).kdshmRefcnt + 1)
  refine @changeOne nproc process state none none _ (update state.kdshmids kdshmp
    { state.kdshmids kdshmp with
      kdshmRefcnt := (state.kdshmids kdshmp).kdshmRefcnt + 1 })
    kept inside forks (fun other => (same other).1)
    (fun other => (same other).2) ?_ ?_ (kept.records process) ?_ kept.owed
  · intro other
    rw [refcnt_up]
    simp only [DshmProc.attachments, counting]
    split_ifs <;> omega
  · intro other
    rw [refcnt_up]
    split_ifs <;> omega
  · intro which isDetaching
    cases isDetaching

theorem forkDone (forking : (state.procs process).activity = .forking child []) :
    DshmKept nproc none (state.forkDone process child) := by
  have isChild : (state.procs process).activity.child = some child := by
    rw [forking]
    rfl
  obtain ⟨newborn, -⟩ := kept.forks.copied process child isChild
  have inside : process < nproc := kept.forks.inside (by rw [forking]; simp)
  have childInside : child < nproc := kept.forks.inside (by rw [newborn]; simp)
  have different : child ≠ process := by
    rintro rfl
    rw [forking] at newborn
    cases newborn
  refine kept.changeFamily inside childInside different
    (kept.forks.updateFamily inside childInside different (by rw [forking]; simp) ?_ ?_ (by simp)
      (kept.forks.ascending process) (by simp) rfl (kept.forks.ascending child) ?_ ?_)
    ?_ (fun _ => id) (fun _ => ⟨by simp, by simp⟩)
  · intro other notProcess isOther
    exact notProcess (kept.forks.parent other process child isOther isChild)
  · intro other isOther
    cases isOther
  · intro isOther
    cases isOther
  · intro _ _ isCounting
    cases isCounting
  · intro other
    simp [DshmProc.attachments, forking, newborn]

theorem exit (runs : (state.procs process).activity = .idle)
    (noRecords : (state.procs process).segacct = []) :
    DshmKept nproc none (state.setProc process absentProc) := by
  refine kept.changeOne (kept.forks.inside (by rw [runs]; simp))
    (kept.forks.update (by rw [runs]; simp) (by rw [runs]; simp)
      (by rw [runs]; rfl) rfl (fun _ => rfl) List.Pairwise.nil)
    (fun _ => rfl) (fun _ => rfl) ?_ (fun _ => le_rfl) ?_ ?_ kept.owed
  · intro other
    simp [DshmProc.attachments, runs, noRecords, absentProc]
  · intro sap recorded
    cases recorded
  · intro which isDetaching
    cases isDetaching

end

end Forks

end DshmKept

variable {dshmmin : Nat} {shmseg : Int} {after : DshmState} {action : DshmAction}

theorem DshmStep.kept (kept : DshmKept nproc none state)
    (taken : DshmStep nproc dshmmin shmseg state action after) : DshmKept nproc none after := by
  cases taken with
  | get uap created noEntry free => exact kept.get _ uap created noEntry free
  | attach denied gap mapped runs entry => exact kept.attach shmseg denied gap mapped runs entry
  | unmap runs found => exact kept.unmap runs found
  | drop detaching => exact kept.drop detaching
  | forkStart runs inside absent => exact kept.forkStart runs inside absent
  | forkAdd forking => exact kept.forkAdd forking
  | forkCount counting => exact kept.forkCount counting
  | forkDone forking => exact kept.forkDone forking
  | exit runs noRecords => exact kept.exit runs noRecords
  | remove denied entry => exact kept.remove denied entry

theorem dshmBoot_kept (positive : 0 < nproc) : DshmKept nproc none dshmBoot := by
  have procs : ∀ process, (dshmBoot.procs process).segacct = [] ∧
      (dshmBoot.procs process).activity.child = none ∧
      (∀ kdshmp, (dshmBoot.procs process).activity ≠ .detaching kdshmp) := by
    intro process
    by_cases isFirst : process = 0
    · subst process
      simp [dshmBoot, DshmActivity.child]
    · simp [dshmBoot, update_of_ne isFirst, absentProc, DshmActivity.child]
  exact
    { forks :=
      { outside := fun process outside =>
        update_of_ne (Nat.ne_of_gt (Nat.lt_of_lt_of_le positive outside)) _ (fun _ => absentProc)
        absent := fun process _ => (procs process).1
        ascending := fun process => by
          rw [(procs process).1]
          exact List.Pairwise.nil
        copied := fun process child isChild => by
          rw [(procs process).2.1] at isChild
          cases isChild
        counting := fun process child kdshmp rest isCounting => by
          have isChild := (procs process).2.1
          rw [isCounting] at isChild
          cases isChild
        parent := fun first _ child isFirst => by
          rw [(procs first).2.1] at isFirst
          cases isFirst }
      memory :=
        { owned := fun _ isAlloc => by cases isAlloc
          unique := fun _ _ isAlloc => by cases isAlloc
          nodup := nodup_nil
          old := fun _ isOld => by cases isOld
          accounted := fun _ small => by cases small }
      entry := fun _ _ isEntry => by cases isEntry
      injective := fun _ _ _ isEntry => by cases isEntry
      present := fun _ _ isEntry => by cases isEntry
      removed := fun _ isAlloc => by cases isAlloc
      records := fun process sap recorded => by
        rw [(procs process).1] at recorded
        cases recorded
      detaching := fun process kdshmp isDetaching => absurd isDetaching ((procs process).2.2 kdshmp)
      owed := fun _ isOwed => by cases isOwed }

theorem DshmKept.well (kept : DshmKept nproc none state) : DshmWell nproc state where
  present := by
    intro slot kdshmp isEntry
    have count := kept.present slot kdshmp isEntry
    rw [owes_none, add_zero] at count
    exact ⟨kept.entry slot kdshmp isEntry, count⟩
  removed := by
    intro kdshmp isAlloc noEntry
    obtain ⟨count, positive⟩ := kept.removed kdshmp isAlloc noEntry
    rw [owes_none, add_zero] at count
    exact ⟨count, by omega⟩
  releasedOnce := kept.memory.nodup
  released := by
    intro memory
    constructor
    · intro isReleased
      refine ⟨kept.memory.old memory isReleased, fun kdshmp isAlloc same => ?_⟩
      obtain ⟨own, -, isOwn, unreleased⟩ := kept.memory.owned kdshmp isAlloc
      rw [isOwn] at same
      obtain rfl := some.inj same
      exact unreleased isReleased
    · rintro ⟨small, noOwner⟩
      by_contra unreleased
      obtain ⟨kdshmp, isAlloc, isMemory⟩ := kept.memory.accounted memory small unreleased
      exact noOwner kdshmp isAlloc isMemory
  attached := by
    intro process sap recorded
    obtain ⟨isAlloc, isMemory⟩ := kept.records process sap recorded
    obtain ⟨memory, -, isOwn, unreleased⟩ := kept.memory.owned sap.saKdshmp isAlloc
    exact ⟨isAlloc, memory, isMemory.symm.trans isOwn, isOwn, unreleased⟩

theorem dshmWell_of_run (nproc dshmmin : Nat) (shmseg : Int) (positive : 0 < nproc)
    (actions : List DshmAction) (final : DshmState)
    (run : Run (DshmStep nproc dshmmin shmseg) dshmBoot actions final) : DshmWell nproc final := by
  have kept : DshmKept nproc none final := run.invariant (fun _ _ _ kept taken => taken.kept kept)
      (dshmBoot_kept positive)
  exact kept.well

theorem dshmWell_of_run_last : ∃ final, Run (DshmStep 1 1 6) dshmBoot
    [.get 0 0, .attach 0 0, .remove 0, .unmap 0, .drop 0] final ∧
    final.released = [0] ∧ DshmWell 1 final := by
  have created : Run (DshmStep 1 1 6) dshmBoot [.get 0 0] _ := .single
      (.get ⟨4096, 1, 1, 0x400000, 0x400000⟩ true rfl rfl)
  have attached := created.snoc (@DshmStep.attach 1 1 6 _ 0 0 0 false true true rfl rfl)
  have removed := attached.snoc (@DshmStep.remove 1 1 6 _ 0 0 false rfl)
  have unmapped := removed.snoc (@DshmStep.unmap 1 1 6 _ 0 0x400000 _ rfl rfl)
  have dropped := unmapped.snoc (@DshmStep.drop 1 1 6 _ 0 0 rfl)
  exact ⟨_, dropped, by decide, dshmWell_of_run 1 1 6 (by decide) _ _ dropped⟩

end Uw7.Ipc
