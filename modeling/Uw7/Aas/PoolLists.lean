import Mathlib.Order.WithBot
import Uw7.Aas.AddrServer

namespace Uw7.Aas.AddrDb

open Uw7.Lib Function List

/-!
# The lists of a pool

Every request keeps the two lists of a pool: each address is on one of them, the
one that its information says, and the addresses in use come in the order in which
their leases run out.  Lease arithmetic is modular; it is exact because no
allocation lies in the future.
-/

namespace AddrInfo

def remaining (forever now : AasTime) (info : AddrInfo) : WithTop Int :=
  if info.leaseTime = forever then ⊤
  else
    ((info.allocTime.toNat + info.leaseTime.toNat - now.toNat : Int) : WithTop Int)

def RunOut (forever now : AasTime) (info : AddrInfo) : Prop := info.leaseTime ≠ forever ∧
    info.allocTime.toNat + info.leaseTime.toNat ≤ now.toNat

def NoLater (forever : AasTime) (first second : AddrInfo) : Prop := second.leaseTime = forever ∨
    (first.leaseTime ≠ forever ∧ first.allocTime.toNat + first.leaseTime.toNat ≤
        second.allocTime.toNat + second.leaseTime.toNat)

end AddrInfo

/-- Remaining leases are compared in the linear order of the integers. -/
local instance leaseOrder : Preorder Int := Int.instLinearOrder.toPartialOrder.toPreorder

variable {now : AasTime} {first second info : AddrInfo} {forever : AasTime}

theorem remaining_le_iff :
    first.remaining forever now ≤ second.remaining forever now ↔ first.NoLater forever second := by
  unfold AddrInfo.remaining AddrInfo.NoLater
  by_cases secondForever : second.leaseTime = forever
  · simp [secondForever]
  · by_cases firstForever : first.leaseTime = forever
    · simp [secondForever, firstForever]
    · simp only [secondForever, firstForever, if_false, WithTop.coe_le_coe,
        ne_eq, not_false_eq_true, true_and, false_or]
      omega

theorem AddrInfo.NoLater.trans {third : AddrInfo}
    (earlier : first.NoLater forever second) (later : second.NoLater forever third) :
    first.NoLater forever third := by
  rcases later with endless | ⟨secondFinite, secondLater⟩
  · exact .inl endless
  · rcases earlier with endless | ⟨firstFinite, firstLater⟩
    · exact absurd endless secondFinite
    · exact .inr ⟨firstFinite, firstLater.trans secondLater⟩

theorem toNat_age {allocTime : AasTime} (past : allocTime ≤ now) :
    (now - allocTime).toNat = now.toNat - allocTime.toNat :=
  UInt32.toNat_sub_of_le _ _ past

theorem expired_iff (past : info.allocTime ≤ now) :
    info.expired forever now = true ↔ info.RunOut forever now := by
  have age := toNat_age past
  rw [UInt32.le_iff_toNat_le] at past
  simp only [AddrInfo.expired, expired, AddrInfo.RunOut, bne_iff_ne,
    Bool.and_eq_true, decide_eq_true_eq, UInt32.le_iff_toNat_le, age]
  constructor
  · rintro ⟨finite, elapsed⟩
    exact ⟨finite, by omega⟩
  · rintro ⟨finite, elapsed⟩
    exact ⟨finite, by omega⟩

theorem AddrInfo.RunOut.later {forever later : AasTime} (runOut : info.RunOut forever now)
    (passes : now ≤ later) : info.RunOut forever later :=
  ⟨runOut.1, runOut.2.trans (UInt32.le_iff_toNat_le.1 passes)⟩

theorem AddrInfo.RunOut.earlier (runOut : second.RunOut forever now)
    (noLater : first.NoLater forever second) :
    first.RunOut forever now := by
  rcases noLater with endless | ⟨finite, before⟩
  · exact absurd endless runOut.1
  · exact ⟨finite, before.trans runOut.2⟩

namespace Pool

/-- What every request keeps of a pool, at a time. -/
structure Kept (forever clock : AasTime) (pool : Pool) : Prop where
  placed : (pool.inuseList ++ pool.availList).Perm pool.addrs
  marked : ∀ addr ∈ pool.addrs, addr ∈ pool.inuseList ↔ (pool.info addr).inuse = true
  counted : pool.numAlloc = pool.inuseList.length
  ordered : pool.inuseList.Pairwise fun first second =>
      (pool.info first).NoLater forever (pool.info second)
  past : ∀ addr ∈ pool.addrs, (pool.info addr).inuse = true → (pool.info addr).allocTime ≤ clock

variable {forever clock : AasTime}

theorem nodup_addrs (pool : Pool) : pool.addrs.Nodup := by
  apply pool.sorted.imp
  rintro addr _ less rfl
  have := pool.atype.ordered
  have same : pool.atype.compare addr addr = .eq := Std.ReflCmp.compare_self
  rw [same] at less
  cases less

variable {pool : Pool}

theorem poolSearch_mem {addr found : AasAddr}
    (finds : pool.poolSearch addr = some found) : found ∈ pool.addrs :=
  (binarySearch_found finds).1

theorem poolSearch_eq {addr found : AasAddr} (valid : pool.atype.validate addr = true)
    (finds : pool.poolSearch addr = some found) : found = addr := by
  obtain ⟨member, same⟩ := binarySearch_found finds
  exact (pool.atype.separates _ _ valid (pool.valid _ member) same).symm

variable {addr : AasAddr} {addrs : List AasAddr} {now : AasTime}

namespace Kept

variable {pool : Pool}

theorem later (kept : pool.Kept forever clock) (passes : clock ≤ now) :
    pool.Kept forever now :=
  ⟨kept.placed, kept.marked, kept.counted, kept.ordered, fun addr member inuse =>
    UInt32.le_trans (kept.past addr member inuse) passes⟩

theorem nodup (kept : pool.Kept forever clock) : (pool.inuseList ++ pool.availList).Nodup :=
  kept.placed.nodup_iff.2 pool.nodup_addrs

variable {addr : AasAddr}

section

variable (kept : pool.Kept forever clock)
include kept

theorem inuse_mem (member : addr ∈ pool.inuseList) : addr ∈ pool.addrs :=
  kept.placed.mem_iff.1 (mem_append_left _ member)

theorem avail_mem (member : addr ∈ pool.availList) : addr ∈ pool.addrs :=
  kept.placed.mem_iff.1 (mem_append_right _ member)

theorem not_avail (member : addr ∈ pool.inuseList) : addr ∉ pool.availList :=
  fun avail => disjoint_of_nodup_append kept.nodup member avail

theorem avail_not_inuse (avail : addr ∈ pool.availList) : ¬ (pool.info addr).inuse = true :=
  fun inuse => kept.not_avail ((kept.marked addr (kept.avail_mem avail)).2 inuse) avail

end

theorem ordered_update {info : AasAddr → AddrInfo}
    (ordered : addrs.Pairwise fun first second => (info first).NoLater forever (info second))
    (apart : addr ∉ addrs) (changed : AddrInfo) : addrs.Pairwise fun first second =>
      (update info addr changed first).NoLater forever (update info addr changed second) := by
  apply ordered.imp_of_mem
  intro first second firstMember secondMember noLater
  rw [update_of_ne (ne_of_mem_of_not_mem firstMember apart),
    update_of_ne (ne_of_mem_of_not_mem secondMember apart)]
  exact noLater

theorem release (kept : pool.Kept forever clock) (member : addr ∈ pool.inuseList)
    (info : AddrInfo) : (pool.release addr info).Kept forever clock := by
  have availSame : pool.availList.erase addr = pool.availList :=
    erase_of_not_mem (kept.not_avail member)
  have inuseNodup : pool.inuseList.Nodup := kept.nodup.of_append_left
  have gone : addr ∉ pool.inuseList.erase addr := inuseNodup.not_mem_erase
  refine ⟨?_, ?_, ?_, ?_, ?_⟩
  · show (pool.inuseList.erase addr ++ (pool.availList.erase addr ++ [addr])).Perm pool.addrs
    rw [availSame, ← append_assoc]
    apply Perm.trans _ kept.placed
    apply (perm_append_singleton _ _).trans
    exact ((perm_cons_erase member).append_right _).symm
  · intro other otherMember
    by_cases same : other = addr
    · subst same
      simp [Pool.release, gone]
    · simp only [Pool.release, update_of_ne same]
      rw [mem_erase_of_ne same]
      exact kept.marked other otherMember
  · show pool.numAlloc - 1 = ((pool.inuseList.erase addr).length : Int)
    have positive := length_pos_of_mem member
    have counted := kept.counted
    rw [length_erase_of_mem member]
    omega
  · exact ordered_update (kept.ordered.sublist (erase_sublist)) gone _
  · intro other otherMember inuse
    by_cases same : other = addr
    · subst same
      simp [Pool.release] at inuse
    · simp only [Pool.release, update_of_ne same] at inuse ⊢
      exact kept.past other otherMember inuse

end Kept

/-- From one information to another, some leases that have run out are no longer
in use. -/
def Expires (forever now : AasTime) (before after : AasAddr → AddrInfo) : Prop :=
  ∀ addr, after addr = before addr ∨ ((before addr).RunOut forever now ∧
      after addr = { before addr with inuse := false })

theorem Kept.expireLoop (kept : pool.Kept forever now) (front : pool.inuseList = addrs) :
    (pool.expireLoop forever now addrs).Kept forever now ∧
      (pool.expireLoop forever now addrs).toPoolConfig = pool.toPoolConfig ∧
      Expires forever now pool.info (pool.expireLoop forever now addrs).info ∧
      ∀ addr ∈ (pool.expireLoop forever now addrs).inuseList,
        ¬ ((pool.expireLoop forever now addrs).info addr).RunOut forever
          now := by
  induction addrs generalizing pool with
  | nil =>
    refine ⟨kept, rfl, fun _ => .inl rfl, ?_⟩
    simp [Pool.expireLoop, front]
  | cons addr rest ih =>
    have member : addr ∈ pool.inuseList := by simp [front]
    have past : (pool.info addr).allocTime ≤ now := kept.past addr (kept.inuse_mem member)
        ((kept.marked addr (kept.inuse_mem member)).1 member)
    unfold Pool.expireLoop
    split
    case isTrue elapsed =>
      have frontNext : (pool.release addr (pool.info addr)).inuseList = rest := by
        simp [Pool.release, front]
      obtain ⟨keptNext, config, expires, none⟩ :=
        ih (kept.release member (pool.info addr)) frontNext
      refine ⟨keptNext, config, ?_, none⟩
      intro other
      by_cases same : other = addr
      · subst same
        have gone := expires other
        simp only [Pool.release, update_self] at gone
        rcases gone with gone | ⟨_, gone⟩ <;> exact .inr ⟨(expired_iff past).1 elapsed, gone⟩
      · have gone := expires other
        simp only [Pool.release, update_of_ne same] at gone
        exact gone
    case isFalse lasts =>
      refine ⟨kept, rfl, fun _ => .inl rfl, ?_⟩
      -- the front of the list runs out first
      have lastsFront : ¬ (pool.info addr).RunOut forever now :=
        fun runOut => lasts ((expired_iff past).2 runOut)
      intro other otherMember runOut
      have ordered := kept.ordered
      rw [front] at otherMember ordered
      rcases mem_cons.1 otherMember with rfl | after
      · exact lastsFront runOut
      · exact lastsFront (runOut.earlier (rel_of_pairwise_cons ordered after))

theorem Kept.expireAddresses (kept : pool.Kept forever clock)
    (passes : clock ≤ now) : (pool.expireAddresses forever now).Kept forever now ∧
      (pool.expireAddresses forever now).toPoolConfig = pool.toPoolConfig ∧
      Expires forever now pool.info (pool.expireAddresses forever now).info ∧
      ∀ addr ∈ (pool.expireAddresses forever now).inuseList,
        ¬ ((pool.expireAddresses forever now).info addr).RunOut forever
          now :=
  (kept.later passes).expireLoop rfl

theorem perm_insertBackward (info : AasAddr → AddrInfo) (allocTime leaseTime : AasTime)
    (addr : AasAddr) (addrs : List AasAddr) :
    (insertBackward forever info allocTime leaseTime addr addrs).Perm (addr :: addrs) := by
  induction addrs with
  | nil => exact Perm.refl _
  | cons other earlier ih =>
    have below : (other :: insertBackward forever info allocTime leaseTime addr
        earlier).Perm (addr :: other :: earlier) :=
      (ih.cons other).trans (Perm.swap addr other _)
    unfold insertBackward
    split
    · exact below
    · split
      · exact Perm.refl _
      · split
        · exact Perm.refl _
        · exact below

theorem pairwise_insertBackward {info : AasAddr → AddrInfo}
    (finite : (info addr).leaseTime ≠ forever)
    (past : ∀ other ∈ addrs, (info other).allocTime ≤ (info addr).allocTime)
    (ordered : addrs.Pairwise fun later earlier => (info earlier).NoLater forever (info later)) :
    (insertBackward forever info (info addr).allocTime (info addr).leaseTime
      addr addrs).Pairwise fun later earlier => (info earlier).NoLater forever (info later) := by
  induction addrs with
  | nil => exact pairwise_singleton _ _
  | cons other earlier ih =>
    have orderedRest := ordered.of_cons
    have before := fun item => @List.rel_of_pairwise_cons _ _ _ _ ordered item
    have pastRest : ∀ item ∈ earlier, (info item).allocTime ≤ (info addr).allocTime :=
      fun item member => past item (mem_cons_of_mem _ member)
    have age := toNat_age (past other mem_cons_self)
    have otherPast := UInt32.le_iff_toNat_le.1 (past other mem_cons_self)
    -- the address goes in after one that runs out no later
    have stop : (info other).NoLater forever (info addr) →
        (addr :: other :: earlier).Pairwise fun later earlier =>
          (info earlier).NoLater forever (info later) := by
      intro noLater
      refine pairwise_cons.2 ⟨?_, ordered⟩
      intro item member
      rcases mem_cons.1 member with rfl | member
      · exact noLater
      · exact (before item member).trans noLater
    -- or it goes in below one that runs out later
    have go : (info addr).NoLater forever (info other) →
        (other :: insertBackward forever info (info addr).allocTime
          (info addr).leaseTime addr earlier).Pairwise fun later earlier =>
            (info earlier).NoLater forever (info later) := by
      intro noLater
      refine pairwise_cons.2 ⟨?_, ih pastRest orderedRest⟩
      intro item member
      rcases mem_cons.1 ((perm_insertBackward _ _ _ _ _).mem_iff.1 member) with
        rfl | member
      · exact noLater
      · exact before item member
    unfold insertBackward
    split
    case isTrue endless => exact go (.inl endless)
    case isFalse otherFinite =>
      split
      case isTrue elapsed =>
        rw [UInt32.le_iff_toNat_le, age] at elapsed
        exact stop (.inr ⟨otherFinite, by omega⟩)
      case isFalse lasts =>
        have older := UInt32.le_of_lt (UInt32.not_le.1 lasts)
        have rest := UInt32.toNat_sub_of_le _ _ older
        split
        case isTrue shorter =>
          rw [UInt32.le_iff_toNat_le, rest, age] at shorter
          exact stop (.inr ⟨otherFinite, by omega⟩)
        case isFalse longer =>
          rw [UInt32.le_iff_toNat_le, rest, age] at longer
          exact go (.inr ⟨finite, by omega⟩)

theorem Kept.indexClient (kept : pool.Kept forever clock)
    (service clientId : List UInt8) (addr : AasAddr) :
    (pool.indexClient service clientId addr).Kept forever clock :=
  ⟨kept.placed, kept.marked, kept.counted, kept.ordered, kept.past⟩

theorem Kept.perm_erase (kept : pool.Kept forever clock) (member : addr ∈ pool.addrs) :
    (addr :: (pool.inuseList.erase addr ++ pool.availList.erase addr)).Perm pool.addrs := by
  apply Perm.trans _ kept.placed
  rcases mem_append.1 (kept.placed.mem_iff.2 member) with
    inuse | avail
  · rw [erase_of_not_mem (kept.not_avail inuse)]
    exact ((perm_cons_erase inuse).append_right _).symm
  · have notInuse : addr ∉ pool.inuseList := fun inuse => kept.not_avail inuse avail
    rw [erase_of_not_mem notInuse]
    apply perm_middle.symm.trans
    exact (perm_cons_erase avail).symm.append_left _

variable (forever) in
theorem perm_insertInuse (pool : Pool) (addr : AasAddr) (allocTime leaseTime : AasTime) :
    (pool.insertInuse forever addr allocTime leaseTime).inuseList.Perm
      (addr :: pool.inuseList) := by
  unfold insertInuse
  split
  · exact perm_append_singleton _ _
  · apply (reverse_perm _).trans
    apply (perm_insertBackward _ _ _ _ _).trans
    exact (reverse_perm _).cons addr

theorem pairwise_insertInuse (past : ∀ other ∈ pool.inuseList,
    (pool.info other).allocTime ≤ (pool.info addr).allocTime)
    (ordered : pool.inuseList.Pairwise fun first second =>
      (pool.info first).NoLater forever (pool.info second)) :
    (pool.insertInuse forever addr (pool.info addr).allocTime
      (pool.info addr).leaseTime).inuseList.Pairwise fun first second =>
        (pool.info first).NoLater forever (pool.info second) := by
  unfold insertInuse
  split
  case isTrue endless =>
    apply pairwise_append.2
    refine ⟨ordered, pairwise_singleton _ _, ?_⟩
    intro first _ second last
    rw [mem_singleton.1 last]
    exact .inl endless
  case isFalse finite =>
    apply pairwise_reverse.2
    apply pairwise_insertBackward finite
    · intro other member
      exact past other (mem_reverse.1 member)
    · exact pairwise_reverse.2 (by simpa using ordered)

/-- Allocating an address of the pool, in use or available, keeps the pool. -/
theorem Kept.allocated (kept : pool.Kept forever clock)
    (member : addr ∈ pool.addrs) (request : AllocRequest) {allocTime : AasTime}
    (passes : clock ≤ allocTime) :
    (((pool.setAllocated addr request allocTime).listDelete addr).insertInuse
      forever addr allocTime request.leaseTime).Kept forever allocTime := by
  have inuseNodup : pool.inuseList.Nodup := kept.nodup.of_append_left
  have gone : addr ∉ pool.inuseList.erase addr := inuseNodup.not_mem_erase
  have within : ∀ other ∈ pool.inuseList.erase addr, other ∈ pool.inuseList :=
    fun _ otherMember => mem_of_mem_erase otherMember
  have inserted := perm_insertInuse forever
      ((pool.setAllocated addr request allocTime).listDelete addr) addr allocTime request.leaseTime
  refine ⟨?_, ?_, ?_, ?_, ?_⟩
  · exact (inserted.append_right _).trans (kept.perm_erase member)
  · intro other otherMember
    apply inserted.mem_iff.trans
    show other ∈ addr :: pool.inuseList.erase addr ↔ (update pool.info addr _ other).inuse = true
    by_cases same : other = addr
    · subst same
      simp [allocInfo]
    · rw [update_of_ne same, mem_cons, mem_erase_of_ne same]
      simp only [same, false_or]
      exact kept.marked other otherMember
  · rw [inserted.length_eq]
    show (if (pool.info addr).inuse then pool.numAlloc
      else pool.numAlloc + 1) = (((pool.inuseList.erase addr).length + 1 : Nat) : Int)
    have counted := kept.counted
    split
    case isTrue inuse =>
      have listed := (kept.marked addr member).2 inuse
      have positive := length_pos_of_mem listed
      rw [length_erase_of_mem listed]
      omega
    case isFalse avail =>
      have notListed : addr ∉ pool.inuseList :=
        fun listed => avail ((kept.marked addr member).1 listed)
      rw [erase_of_not_mem notListed]
      omega
  · have ordered := Kept.ordered_update (kept.ordered.sublist (erase_sublist)) gone
        (allocInfo (pool.info addr) request allocTime)
    have placed := @pairwise_insertInuse forever
        ((pool.setAllocated addr request allocTime).listDelete addr) addr (by
          intro other otherMember
          show (update pool.info addr _ other).allocTime ≤ (update pool.info addr _ addr).allocTime
          rw [update_self, update_of_ne (ne_of_mem_of_not_mem otherMember gone)]
          have listed := within other otherMember
          exact UInt32.le_trans (kept.past other (kept.inuse_mem listed)
            ((kept.marked other (kept.inuse_mem listed)).1 listed)) passes)
        ordered
    have self : ((pool.setAllocated addr request allocTime).listDelete addr).info
        addr = allocInfo (pool.info addr) request allocTime :=
      update_self _ _ _
    rw [self] at placed
    exact placed
  · intro other otherMember
    show (update pool.info addr _ other).inuse = true →
      (update pool.info addr _ other).allocTime ≤ allocTime
    by_cases same : other = addr
    · subst same
      rw [update_self]
      exact fun _ => UInt32.le_refl _
    · rw [update_of_ne same]
      exact fun inuse => UInt32.le_trans (kept.past other otherMember inuse) passes

end Pool

end Uw7.Aas.AddrDb
