import Uw7.Aas.PoolRequests

namespace Uw7.Aas.AddrDb

open Uw7.Lib Function List

/-!
# Replaying the transaction file

A record changes the information of its address and nothing else.  The global
index finds every address that is configured, because no address is in two pools.
-/

namespace Server

structure InfoIs (config : Configuration) (info : Nat → AasAddr → AddrInfo)
    (server : Server) : Prop where
  pools : server.pools.map Pool.toPoolConfig = config.pools
  info : ∀ place pool, server.pools[place]? = some pool →
      ∀ addr ∈ pool.addrs, pool.info addr = info place addr

def putInfo (info : Nat → AasAddr → AddrInfo) (place : Nat) (addr : AasAddr)
    (changed : AddrInfo) : Nat → AasAddr → AddrInfo :=
  update info place (update (info place) addr changed)

@[simp] theorem putInfo_self (info : Nat → AasAddr → AddrInfo) (place : Nat) (addr : AasAddr)
    (changed : AddrInfo) :
    putInfo info place addr changed place addr = changed := by
  simp [putInfo]

theorem putInfo_of_ne {info : Nat → AasAddr → AddrInfo} {place other : Nat}
    {addr otherAddr : AasAddr} {changed : AddrInfo}
    (different : ¬ (other = place ∧ otherAddr = addr)) :
    putInfo info place addr changed other otherAddr = info other otherAddr := by
  unfold putInfo
  by_cases same : other = place
  · subst same
    rw [update_self, update_of_ne]
    exact fun sameAddr => different ⟨rfl, sameAddr⟩
  · rw [update_of_ne same]

theorem updateInfo_at {server : Server} {loc : AddrLoc} {change : AddrInfo → AddrInfo} {place : Nat}
    {pool : Pool} (there : (server.updateInfo loc change).pools[place]? = some pool) :
    ∃ before, server.pools[place]? = some before ∧ pool.toPoolConfig = before.toPoolConfig ∧
      pool.info =
        if loc.pool = place then
          update before.info loc.addr (change (before.info loc.addr))
        else before.info := by
  simp only [updateInfo, List.getElem?_modify] at there
  obtain ⟨before, found, rfl⟩ := Option.map_eq_some_iff.1 there
  refine ⟨before, found, ?_, ?_⟩
  · split <;> rfl
  · by_cases same : loc.pool = place <;> simp [same]

theorem updateInfo_pools (server : Server) (loc : AddrLoc) (change : AddrInfo → AddrInfo) :
    (server.updateInfo loc change).pools.map Pool.toPoolConfig =
      server.pools.map Pool.toPoolConfig := by
  apply ext_getElem?
  intro place
  simp only [updateInfo, List.getElem?_map, List.getElem?_modify]
  cases server.pools[place]? with
  | none => rfl
  | some pool =>
    by_cases same : loc.pool = place <;> simp [same]

theorem updateOrphan_pools (server : Server) (atype : AddressType) (addr : AasAddr)
    (change : AddrInfo → AddrInfo) :
    (server.updateOrphan atype addr change).pools = server.pools := by
  unfold updateOrphan
  split <;> rfl

theorem orphanageAdd_pools (server : Server) (atype : AddressType) (addr : AasAddr) :
    (server.orphanageAdd atype addr).pools = server.pools := by
  unfold orphanageAdd
  split <;> rfl

/-- The records of a file allocate nothing after a time. -/
def AllocatedBefore (now : AasTime) (log : List Trans) : Prop := ∀ record ∈ log,
    match record with
    | .alloc allocTime _ _ _ _ _ => allocTime ≤ now
    | _ => True

/-- The pools are those that are configured, and nothing in use was allocated
after a time. -/
structure Replaying (config : Configuration) (now : AasTime) (server : Server) : Prop where
  pools : server.pools.map Pool.toPoolConfig = config.pools
  past : ∀ pool ∈ server.pools, ∀ addr, (pool.info addr).inuse = true →
      (pool.info addr).allocTime ≤ now

variable {forever now : AasTime}
variable {config : Configuration}
variable {server : Server}

theorem Replaying.updateInfo (replaying : Replaying config now server) (loc : AddrLoc)
    {change : AddrInfo → AddrInfo}
    (past : ∀ info : AddrInfo, (info.inuse = true → info.allocTime ≤ now) →
      (change info).inuse = true → (change info).allocTime ≤ now) :
    Replaying config now (server.updateInfo loc change) := by
  refine ⟨(updateInfo_pools _ _ _).trans replaying.pools, ?_⟩
  intro pool member addr
  obtain ⟨place, there⟩ := List.getElem?_of_mem member
  obtain ⟨before, found, _, info⟩ := updateInfo_at there
  have pastBefore := replaying.past before (mem_of_getElem? found)
  rw [info]
  split
  · by_cases same : addr = loc.addr
    · subst same
      rw [update_self]
      exact past _ (pastBefore _)
    · rw [update_of_ne same]
      exact pastBefore addr
  · exact pastBefore addr

theorem Replaying.orphans (replaying : Replaying config now server) {after : Server}
    (pools : after.pools = server.pools) :
    Replaying config now after := by
  constructor
  · rw [pools]
    exact replaying.pools
  · rw [pools]
    exact replaying.past

end Server

namespace Server

variable {forever now : AasTime}
variable {config : Configuration}
variable {server after : Server}

section

variable (replaying : Replaying config now server)
include replaying

theorem Replaying.change (atype : AddressType)
    (addr : AasAddr) {change : AddrInfo → AddrInfo}
    (past : ∀ info : AddrInfo, (info.inuse = true → info.allocTime ≤ now) →
      (change info).inuse = true → (change info).allocTime ≤ now) :
    Replaying config now (server.change atype addr change) := by
  unfold Server.change
  split
  case h_1 => exact replaying.updateInfo _ past
  case h_2 => exact replaying.orphans (updateOrphan_pools _ _ _ _)

theorem Replaying.procTrans {record : Trans}
    (before : AllocatedBefore now [record])
    (done : server.procTrans forever now record = some after) :
    Replaying config now after := by
  cases record with
  | init => cases done
  | alloc allocTime leaseTime addrType addr service clientId =>
    have earlier : allocTime ≤ now := before _ mem_cons_self
    simp only [Server.procTrans, procAllocTrans] at done
    split at done
    · cases done
    · obtain ⟨atype, _, rfl⟩ := Option.map_eq_some_iff.1 done
      split
      · exact replaying.updateInfo _ (fun _ _ _ => earlier)
      split
      · exact replaying
      · have added := replaying.orphans (orphanageAdd_pools server atype addr)
        exact added.orphans (updateOrphan_pools _ _ _ _)
  | free freeTime addrType addr =>
    obtain ⟨atype, _, rfl⟩ := Option.map_eq_some_iff.1 done
    exact replaying.change atype addr (fun info _ inuse => by simp [freeChange] at inuse)
  | disable disable addrType addr =>
    obtain ⟨atype, _, rfl⟩ := Option.map_eq_some_iff.1 done
    exact replaying.change atype addr (fun _ past => past)

theorem Replaying.foldlM {records : List Trans} (before : AllocatedBefore now records)
    (done : records.foldlM (Server.procTrans forever now) server = some after) :
    Replaying config now after := by
  induction records generalizing server with
  | nil =>
    cases done
    exact replaying
  | cons record rest ih =>
    obtain ⟨middle, first, later⟩ := Option.bind_eq_some_iff.1 done
    have beforeFirst : AllocatedBefore now [record] := by
      intro other member
      rw [mem_singleton.1 member]
      exact before record mem_cons_self
    exact ih (replaying.procTrans beforeFirst first)
      (fun other member => before other (mem_cons_of_mem _ member))
      later

end

theorem configured_replaying (config : Configuration) (now : AasTime) :
    Replaying config now (configured config now) := by
  refine ⟨?_, ?_⟩
  · show (config.pools.map PoolConfig.reset).map Pool.toPoolConfig = config.pools
    rw [map_map]
    exact map_id _
  · intro pool member addr inuse
    obtain ⟨poolConfig, _, rfl⟩ := mem_map.1 member
    simp [PoolConfig.reset, AddrInfo.unused] at inuse

theorem replayTrans_eq {log : List Trans} (done : server.replayTrans forever now log = some after) :
    ∃ startTime records, log = .init startTime :: records ∧
      records.foldlM (procTrans forever now) server = some after := by
  unfold replayTrans at done
  split at done
  case h_1 startTime records => exact ⟨startTime, records, rfl, done⟩
  case h_2 => cases done

/-- **A server that starts from a file** has the pools that are configured, and
each is as requests keep it. -/
theorem restart_kept {log : List Trans} (before : AllocatedBefore now log)
    (started : restart forever config log now = some server) :
    server.pools.map Pool.toPoolConfig = config.pools ∧ server.clock = now ∧
      ∀ pool ∈ server.pools, pool.Kept forever now := by
  obtain ⟨replayed, done, rfl⟩ := Option.map_eq_some_iff.1 started
  obtain ⟨startTime, records, rfl, folded⟩ := replayTrans_eq done
  have replaying := (configured_replaying config now).foldlM
      (fun record member => before record (mem_cons_of_mem _ member))
      folded
  refine ⟨?_, rfl, ?_⟩
  · show (replayed.pools.map (Pool.setupAddressLists forever now)).map
      Pool.toPoolConfig = config.pools
    rw [← replaying.pools, map_map]
    apply map_congr_left
    intro pool _
    exact (Pool.setupAddressLists_info forever now pool).2
  · intro pool member
    obtain ⟨before, found, rfl⟩ := mem_map.1 member
    exact Pool.setupAddressLists_kept (fun addr _ => replaying.past before found addr)

end Server

namespace Server

variable {forever now : AasTime}
variable {config : Configuration}
variable {server : Server}
variable {info : Nat → AasAddr → AddrInfo}

theorem mem_addrLocs {addrType : Nat} {loc : AddrLoc} : loc ∈ server.addrLocs addrType ↔
    ∃ pool, server.pools[loc.pool]? = some pool ∧
      pool.atype.addrType = addrType ∧ loc.addr ∈ pool.addrs := by
  obtain ⟨place, addr⟩ := loc
  simp only [addrLocs, mem_flatMap]
  constructor
  · rintro ⟨⟨pool, index⟩, member, within⟩
    rw [List.mem_zipIdx_iff_getElem?] at member
    split at within
    case isTrue same =>
      obtain ⟨other, otherMember, equal⟩ := mem_map.1 within
      cases equal
      exact ⟨pool, member, same, otherMember⟩
    case isFalse => cases within
  · rintro ⟨pool, there, same, member⟩
    refine ⟨⟨pool, place⟩, List.mem_zipIdx_iff_getElem?.2 there, ?_⟩
    simp only [same, if_true]
    exact mem_map_of_mem member

variable {pool : Pool} {addr : AasAddr} {place : Nat}

theorem InfoIs.known (infoIs : server.InfoIs config info) (member : pool ∈ server.pools) :
    addressTypes pool.atype.addrType = some pool.atype := by
  apply config.known pool.toPoolConfig
  rw [← infoIs.pools]
  exact mem_map_of_mem member

theorem InfoIs.place_unique (infoIs : server.InfoIs config info) {first second : Nat}
    {firstPool secondPool : Pool} (firstAt : server.pools[first]? = some firstPool)
    (secondAt : server.pools[second]? = some secondPool)
    (sameType : firstPool.atype.addrType = secondPool.atype.addrType)
    (firstMember : addr ∈ firstPool.addrs) (secondMember : addr ∈ secondPool.addrs) :
    first = second := by
  have apart := config.apart
  rw [← infoIs.pools, pairwise_map] at apart
  obtain ⟨firstIn, rfl⟩ := List.getElem?_eq_some_iff.1 firstAt
  obtain ⟨secondIn, rfl⟩ := List.getElem?_eq_some_iff.1 secondAt
  have pairwise := pairwise_iff_getElem.1 apart
  rcases Nat.lt_trichotomy first second with before | same | after
  · exact absurd secondMember (pairwise first second firstIn secondIn before sameType addr
      firstMember)
  · exact same
  · exact absurd firstMember (pairwise second first secondIn firstIn after sameType.symm addr
      secondMember)

/-- The order of the global index is total. -/
instance addrLoc_total (atype : AddressType) : Std.Total fun first second : AddrLoc =>
    atype.compare first.addr second.addr ≠ .gt where
  total := by
    intro first second
    have := atype.ordered
    by_contra neither
    push Not at neither
    have swapped := Std.OrientedCmp.gt_iff_lt.1 neither.1
    rw [swapped] at neither
    exact absurd neither.2 (by decide)

/-- The order of the global index is transitive. -/
instance addrLoc_trans (atype : AddressType) : IsTrans AddrLoc fun first second =>
    atype.compare first.addr second.addr ≠ .gt where
  trans := by
    intro first second third earlier later
    have := atype.ordered
    exact Ordering.isLE_iff_ne_gt.1 (Std.TransCmp.isLE_trans (Ordering.isLE_iff_ne_gt.2 earlier)
        (Ordering.isLE_iff_ne_gt.2 later))

section

variable (infoIs : server.InfoIs config info)
include infoIs

theorem InfoIs.globalIndexSearch
    (there : server.pools[place]? = some pool) (member : addr ∈ pool.addrs) :
    server.globalIndexSearch pool.atype addr = some ⟨place, addr⟩ := by
  have ordered := pool.atype.ordered
  have sorted : SortedFor (fun loc : AddrLoc => pool.atype.compare addr loc.addr)
      ((server.addrLocs pool.atype.addrType).insertionSort fun first second =>
        pool.atype.compare first.addr second.addr ≠ .gt) := by
    apply (pairwise_insertionSort _ _).imp
    intro earlier later notAfter
    have isLE := Ordering.isLE_iff_ne_gt.2 notAfter
    constructor
    · exact fun less => Std.TransCmp.lt_of_lt_of_isLE less isLE
    · intro greater
      have less := Std.OrientedCmp.gt_iff_lt.1 greater
      exact Std.OrientedCmp.gt_iff_lt.2 (Std.TransCmp.lt_of_isLE_of_lt isLE less)
  have listed : (⟨place, addr⟩ : AddrLoc) ∈ (server.addrLocs pool.atype.addrType).insertionSort
      fun first second => pool.atype.compare first.addr second.addr ≠ .gt :=
    (mem_insertionSort _).2 (mem_addrLocs.2 ⟨pool, there, rfl, member⟩)
  obtain ⟨found, finds⟩ := binarySearch_finds sorted listed Std.ReflCmp.compare_self
  obtain ⟨foundMember, equal⟩ := binarySearch_found finds
  obtain ⟨other, otherAt, sameType, otherMember⟩ :=
    mem_addrLocs.1 ((mem_insertionSort _).1 foundMember)
  -- what is found is the address, and it is in no other pool
  have sameAtype : other.atype = pool.atype := by
    have otherKnown := infoIs.known (mem_of_getElem? otherAt)
    rw [sameType, infoIs.known (mem_of_getElem? there)] at otherKnown
    exact (Option.some.inj otherKnown).symm
  have valid := other.valid found.addr otherMember
  rw [sameAtype] at valid
  have same : addr = found.addr := pool.atype.separates _ _ (pool.valid addr member) valid equal
  subst same
  have samePlace := infoIs.place_unique otherAt there sameType otherMember member
  subst samePlace
  exact finds

theorem InfoIs.updateInfo (place : Nat) (addr : AasAddr)
    (change : AddrInfo → AddrInfo) :
    (server.updateInfo ⟨place, addr⟩ change).InfoIs config
      (putInfo info place addr (change (info place addr))) := by
  refine ⟨(updateInfo_pools _ _ _).trans infoIs.pools, ?_⟩
  intro otherPlace otherPool otherAt other otherMember
  obtain ⟨before, beforeAt, same, changed⟩ := updateInfo_at otherAt
  have addrs : otherPool.addrs = before.addrs := congrArg PoolConfig.addrs same
  rw [addrs] at otherMember
  have was := infoIs.info otherPlace before beforeAt other otherMember
  rw [changed]
  split
  case isTrue samePlace =>
    subst samePlace
    by_cases sameAddr : other = addr
    · subst sameAddr
      rw [update_self, putInfo_self, was]
    · rw [update_of_ne sameAddr, putInfo_of_ne (fun both => sameAddr both.2), was]
  case isFalse elsewhere => rw [putInfo_of_ne (fun both => elsewhere both.1.symm), was]

theorem InfoIs.recordType (there : server.pools[place]? = some pool) (member : addr ∈ pool.addrs) :
    Server.recordType pool.atype.addrType addr = some pool.atype := by
  have known := infoIs.known (mem_of_getElem? there)
  have valid := pool.valid addr member
  have isInet : pool.atype = atypeInet := by
    unfold addressTypes at known
    split at known
    · exact (Option.some.inj known).symm
    · cases known
  have given : addr.isEmpty = false := by
    rw [isInet] at valid
    cases addr with
    | nil => cases valid
    | cons => rfl
  unfold Server.recordType
  rw [known]
  simp [Option.filter, given, valid]

theorem InfoIs.procTrans_alloc {place : Nat} {pool : Pool}
    {addr : AasAddr} (there : server.pools[place]? = some pool) (member : addr ∈ pool.addrs)
    (allocTime leaseTime : AasTime) (service : List UInt8) {clientId : List UInt8}
    (identified : clientId ≠ []) :
    ∃ after, server.procTrans forever now
      (.alloc allocTime leaseTime pool.atype.addrType addr service clientId) = some after ∧
      after.orphanage = server.orphanage ∧
      after.InfoIs config (putInfo info place addr
        (allocChange allocTime leaseTime service clientId (info place addr))) := by
  refine ⟨_, ?_, ?_, infoIs.updateInfo place addr _⟩
  · simp [procTrans, procAllocTrans, identified,
      infoIs.recordType there member, infoIs.globalIndexSearch there member]
  · rfl

theorem InfoIs.procTrans_free {place : Nat} {pool : Pool}
    {addr : AasAddr} (there : server.pools[place]? = some pool) (member : addr ∈ pool.addrs)
    (freeTime : AasTime) :
    ∃ after, server.procTrans forever now (.free freeTime pool.atype.addrType addr) = some after ∧
      after.orphanage = server.orphanage ∧
      after.InfoIs config (putInfo info place addr (freeChange freeTime (info place addr))) := by
  refine ⟨_, ?_, ?_, infoIs.updateInfo place addr _⟩
  · simp [procTrans, procFreeTrans, Server.change,
      infoIs.recordType there member, infoIs.globalIndexSearch there member]
  · rfl

theorem InfoIs.procTrans_disable
    (there : server.pools[place]? = some pool) (member : addr ∈ pool.addrs) (disable : Bool) :
    ∃ after, server.procTrans forever now (.disable disable pool.atype.addrType addr) = some after ∧
      after.orphanage = server.orphanage ∧
      after.InfoIs config (putInfo info place addr
        { info place addr with disabled := disable }) := by
  refine ⟨_, ?_, ?_, infoIs.updateInfo place addr fun before => { before with disabled := disable }⟩
  · simp [procTrans, procDisableTrans, Server.change,
      infoIs.recordType there member, infoIs.globalIndexSearch there member]
  · rfl

end

end Server

end Uw7.Aas.AddrDb
