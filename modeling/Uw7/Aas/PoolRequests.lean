import Uw7.Aas.PoolLists

namespace Uw7.Aas.AddrDb

open Uw7.Lib Function List

/-!
# Requests to a pool

Each request first lets leases expire, and then fails or does what was asked; what
it did is stated once here, with the records that it writes.  A pool is kept by
every request, and by setting up its lists.
-/

namespace Pool

variable {forever clock : AasTime}

variable {now : AasTime} {info first second : AddrInfo} {pool : Pool} {request : AllocRequest}
  {addr : AasAddr} {calls : Calls}

theorem Expires.refl (info : AasAddr → AddrInfo) : Expires forever now info info :=
  fun _ => .inl rfl

theorem heldBy_of_not_refused {service clientId : List UInt8}
    (allowed : info.refused service clientId = false) (inuse : info.inuse = true) :
    info.heldBy service clientId = true := by
  simp only [AddrInfo.refused, Bool.or_eq_false_iff, Bool.and_eq_false_iff,
    inuse, Bool.true_eq_false, false_or, Bool.not_eq_false'] at allowed
  exact allowed.1

theorem currentAddr_spec (current : pool.currentAddr request = some addr) :
    addr ∈ pool.addrs ∧ (pool.info addr).refused request.service request.clientId =
      false := by
  obtain ⟨found, allowed⟩ := Option.filter_eq_some_iff.1 current
  obtain ⟨indexed, _, finds⟩ := Option.bind_eq_some_iff.1 found
  simp only [Bool.and_eq_true, Bool.not_eq_true'] at allowed
  exact ⟨poolSearch_mem finds, allowed.1⟩

theorem requestedAddr_spec (requested : pool.requestedAddr request = .ok (some addr)) :
    addr ∈ pool.addrs ∧ (pool.info addr).refused request.service request.clientId =
      false := by
  unfold requestedAddr at requested
  split at requested
  case isTrue => cases requested
  case isFalse =>
    split at requested
    case h_1 found finds =>
      split at requested
      case isTrue => split at requested <;> cases requested
      case isFalse allowed =>
        cases requested
        exact ⟨poolSearch_mem finds, by simpa using allowed⟩
    case h_2 => split at requested <;> cases requested

theorem Kept.chooseAddr (kept : pool.Kept forever clock)
    (chosen : pool.chooseAddr request = .ok addr) :
    addr ∈ pool.addrs ∧ ((pool.info addr).inuse = true →
      (pool.info addr).heldBy request.service request.clientId = true) := by
  have allowed : addr ∈ pool.addrs ∧
      (pool.info addr).refused request.service request.clientId = false →
      addr ∈ pool.addrs ∧ ((pool.info addr).inuse = true →
        (pool.info addr).heldBy request.service request.clientId = true) :=
    fun spec => ⟨spec.1, heldBy_of_not_refused spec.2⟩
  unfold Pool.chooseAddr at chosen
  split at chosen
  case h_1 cur _ current _ =>
    cases chosen
    exact allowed (currentAddr_spec current)
  case h_2 =>
    split at chosen
    case h_1 => cases chosen
    case h_2 req requested =>
      cases chosen
      exact allowed (requestedAddr_spec requested)
    case h_3 =>
      split at chosen
      case h_1 cur current =>
        cases chosen
        exact allowed (currentAddr_spec current)
      case h_2 =>
        split at chosen
        case h_1 found first =>
          cases chosen
          have avail := List.mem_of_find?_eq_some first
          exact ⟨kept.avail_mem avail, fun inuse => absurd inuse (kept.avail_not_inuse avail)⟩
        case h_2 => cases chosen

variable (forever) in
theorem allocate_cases (calls : Calls) (pool : Pool) (addr : AasAddr) (allocTime : AasTime)
    (request : AllocRequest) :
    pool.allocate forever calls addr allocTime request = (false, pool, []) ∨
      pool.allocate forever calls addr allocTime request =
        (false, pool.indexClient request.service request.clientId addr, []) ∨
      pool.allocate forever calls addr allocTime request = (true,
        (((pool.indexClient request.service request.clientId
          addr).setAllocated addr request allocTime).listDelete
            addr).insertInuse forever addr allocTime request.leaseTime,
        if request.temp then []
        else
          [.alloc allocTime request.leaseTime pool.atype.addrType addr
            request.service request.clientId]) := by
  unfold allocate
  split
  · exact .inl rfl
  · split
    · exact .inr (.inl rfl)
    · exact .inr (.inr rfl)

/-- What a request to a pool did before it acted: some leases expired, and the
pool is kept. -/
structure Settled (forever : AasTime) (calls : Calls) (pool : Pool) (middle : AasAddr → AddrInfo)
    (reply : PoolReply) : Prop where
  kept : reply.pool.Kept forever calls.now
  config : reply.pool.toPoolConfig = pool.toPoolConfig
  expires : Expires forever calls.expireTime pool.info middle

theorem Kept.fails (kept : pool.Kept forever clock) (calls : Calls)
    (reads : clock ≤ calls.expireTime) (passes : calls.expireTime ≤ calls.now) (code : Code) :
    Settled forever calls pool pool.info (pool.fails code) :=
  ⟨kept.later (UInt32.le_trans reads passes), rfl, Expires.refl _⟩

section

variable (kept : pool.Kept forever clock) (reads : clock ≤ calls.expireTime)
  (passes : calls.expireTime ≤ calls.now)
include kept reads passes

/-- **`alloc_addr` on a pool**: it fails, or grants an address that was available
or held by the client. -/
theorem Kept.allocAddr (request : AllocRequest) :
    ∃ middle, Settled forever calls pool middle (pool.allocAddr forever calls request) ∧
      (((pool.allocAddr forever calls request).granted = none ∧
        (pool.allocAddr forever calls request).records = [] ∧
        (pool.allocAddr forever calls request).pool.info = middle) ∨
        ∃ addr ∈ pool.addrs, (pool.allocAddr forever calls request).granted = some addr ∧
          ((middle addr).inuse = true →
            (middle addr).heldBy request.service request.clientId = true) ∧
          (pool.allocAddr forever calls request).pool.info = update middle addr
            (allocInfo (middle addr) request calls.now) ∧
          (pool.allocAddr forever calls request).records =
            if request.temp then []
            else
              [.alloc calls.now request.leaseTime pool.atype.addrType addr
                request.service request.clientId]) := by
  have failsAtOnce := kept.fails calls reads passes
  obtain ⟨keptThen, config, expires, _⟩ := kept.expireAddresses reads
  have failsThen : ∀ code, Settled forever calls pool
      (pool.expireAddresses forever calls.expireTime).info
      ((pool.expireAddresses forever calls.expireTime).fails code) :=
    fun code => ⟨keptThen.later passes, config, expires⟩
  unfold Pool.allocAddr
  split
  · exact ⟨_, failsAtOnce _, .inl ⟨rfl, rfl, rfl⟩⟩
  split
  · exact ⟨_, failsAtOnce _, .inl ⟨rfl, rfl, rfl⟩⟩
  split
  · exact ⟨_, failsAtOnce _, .inl ⟨rfl, rfl, rfl⟩⟩
  split
  · exact ⟨_, failsAtOnce _, .inl ⟨rfl, rfl, rfl⟩⟩
  simp only
  split
  · exact ⟨_, failsThen _, .inl ⟨rfl, rfl, rfl⟩⟩
  split
  · exact ⟨_, failsThen _, .inl ⟨rfl, rfl, rfl⟩⟩
  next addr chosen =>
    obtain ⟨member, held⟩ := keptThen.chooseAddr chosen
    have atype : (pool.expireAddresses forever calls.expireTime).atype = pool.atype :=
      congrArg PoolConfig.atype config
    refine ⟨(pool.expireAddresses forever calls.expireTime).info, ?_⟩
    rcases allocate_cases forever calls
      (pool.expireAddresses forever calls.expireTime) addr calls.now request
      with failed | unrecorded | allocated
    · rw [failed]
      exact ⟨failsThen _, .inl ⟨rfl, rfl, rfl⟩⟩
    · rw [unrecorded]
      exact ⟨⟨(keptThen.indexClient _ _ addr).later passes, config, expires⟩, .inl ⟨rfl, rfl, rfl⟩⟩
    · rw [allocated]
      have keptAfter := (keptThen.indexClient request.service request.clientId addr).allocated
          member request passes
      have inPool : addr ∈ pool.addrs := by
        rw [← congrArg PoolConfig.addrs config]
        exact member
      refine ⟨⟨keptAfter, config, expires⟩, .inr ⟨addr, inPool, rfl, held, rfl, ?_⟩⟩
      simp only [atype]

theorem Kept.freeAddr (member : addr ∈ pool.addrs) (service clientId : List UInt8) :
    ∃ middle, Settled forever calls pool middle
      (pool.freeAddr forever calls addr service clientId) ∧
      (((pool.freeAddr forever calls addr service clientId).records = [] ∧
        (pool.freeAddr forever calls addr service clientId).pool.info = middle) ∨
        ((middle addr).inuse = true ∧ (middle addr).heldBy service clientId = true ∧
          (pool.freeAddr forever calls addr service clientId).pool.info =
            update middle addr (Server.freeChange calls.now (middle addr)) ∧
          (pool.freeAddr forever calls addr service clientId).records =
            [.free calls.now pool.atype.addrType addr])) := by
  obtain ⟨keptThen, config, expires, _⟩ := kept.expireAddresses reads
  have failsThen : ∀ code, Settled forever calls pool
      (pool.expireAddresses forever calls.expireTime).info
      ((pool.expireAddresses forever calls.expireTime).fails code) :=
    fun code => ⟨keptThen.later passes, config, expires⟩
  refine ⟨(pool.expireAddresses forever calls.expireTime).info, ?_⟩
  unfold Pool.freeAddr
  simp only
  split
  · exact ⟨failsThen _, .inl ⟨rfl, rfl⟩⟩
  next inuse =>
    split
    · exact ⟨failsThen _, .inl ⟨rfl, rfl⟩⟩
    next held =>
      split
      · exact ⟨failsThen _, .inl ⟨rfl, rfl⟩⟩
      · simp only [Bool.not_eq_true', Bool.not_eq_false] at inuse held
        have inPool : addr ∈ (pool.expireAddresses forever calls.expireTime).addrs := by
          rw [congrArg PoolConfig.addrs config]
          exact member
        have listed := (keptThen.marked addr inPool).2 inuse
        refine ⟨⟨(keptThen.release listed _).later passes, config, expires⟩,
          .inr ⟨inuse, held, rfl, ?_⟩⟩
        simp only [congrArg PoolConfig.atype config]

end

/-- Addresses that a service has in use are freed, one after another, and the
records are written. -/
inductive FreesAll (addrs : List AasAddr) (addrType : Nat) (now : AasTime) (service : List UInt8) :
    (AasAddr → AddrInfo) → List Trans → (AasAddr → AddrInfo) → Prop where
  | nil (info : AasAddr → AddrInfo) : FreesAll addrs addrType now service info [] info
  | cons {info after : AasAddr → AddrInfo} {records : List Trans} {addr : AasAddr}
      (member : addr ∈ addrs) (inuse : (info addr).inuse = true)
      (allocated : (info addr).service = some service) (later : FreesAll addrs addrType now service
          (update info addr (Server.freeChange now (info addr))) records after) :
      FreesAll addrs addrType now service info (.free now addrType addr :: records) after

theorem Kept.freeLoop {pool : Pool} {calls : Calls} {service : List UInt8} {rest : List AasAddr}
    (kept : pool.Kept forever clock) (within : ∀ addr ∈ rest, addr ∈ pool.inuseList)
    (once : rest.Nodup) : (pool.freeLoop calls service rest).pool.Kept forever clock ∧
      (pool.freeLoop calls service rest).pool.toPoolConfig = pool.toPoolConfig ∧
      FreesAll pool.addrs pool.atype.addrType calls.now service pool.info
        (pool.freeLoop calls service rest).records
        (pool.freeLoop calls service rest).pool.info := by
  induction rest generalizing pool with
  | nil => exact ⟨kept, rfl, .nil _⟩
  | cons addr rest ih =>
    have withinRest : ∀ other ∈ rest, other ∈ pool.inuseList :=
      fun other member => within other (mem_cons_of_mem _ member)
    have onceRest := (nodup_cons.1 once).2
    unfold Pool.freeLoop
    split
    case isTrue => exact ih kept withinRest onceRest
    case isFalse same =>
      have allocated : (pool.info addr).service = some service := by simpa using same
      split
      case isTrue => exact ⟨kept, rfl, .nil _⟩
      case isFalse =>
        have listed := within addr mem_cons_self
        have withinNext : ∀ other ∈ rest, other ∈ (pool.freeIt addr calls.now).inuseList := by
          intro other member
          have different : other ≠ addr := ne_of_mem_of_not_mem member (nodup_cons.1 once).1
          exact (mem_erase_of_ne different).2 (withinRest other member)
        obtain ⟨keptNext, config, frees⟩ := ih (kept.release listed _) withinNext onceRest
        have member := kept.inuse_mem listed
        exact ⟨keptNext, config, .cons member ((kept.marked addr member).1 listed) allocated frees⟩

section

variable (kept : pool.Kept forever clock) (reads : clock ≤ calls.expireTime)
  (passes : calls.expireTime ≤ calls.now)
include kept reads passes

theorem Kept.freeAllAddrs (service : List UInt8) :
    ∃ middle, Settled forever calls pool middle (pool.freeAllAddrs forever calls service) ∧
      FreesAll pool.addrs pool.atype.addrType calls.now service middle
        (pool.freeAllAddrs forever calls service).records
        (pool.freeAllAddrs forever calls service).pool.info := by
  obtain ⟨keptThen, config, expires, _⟩ := kept.expireAddresses reads
  obtain ⟨keptAfter, configAfter, frees⟩ :=
    @Kept.freeLoop forever calls.expireTime _ calls service _ keptThen
      (fun _ member => member) keptThen.nodup.of_append_left
  rw [congrArg PoolConfig.addrs config, congrArg PoolConfig.atype config] at frees
  exact ⟨_, ⟨keptAfter.later passes, configAfter.trans config, expires⟩, frees⟩

theorem Kept.disableAddr (addrType : Nat) (addr : AasAddr) (disable : Bool) :
    Settled forever calls pool pool.info (pool.disableAddr calls addrType addr disable) ∧
      (((pool.disableAddr calls addrType addr disable).code ≠ .ok ∧
        (pool.disableAddr calls addrType addr disable).records = [] ∧
        (pool.disableAddr calls addrType addr disable).pool.info = pool.info) ∨
        (addr ∈ pool.addrs ∧ (pool.disableAddr calls addrType addr disable).pool.info =
          update pool.info addr { pool.info addr with disabled := disable } ∧
          (pool.disableAddr calls addrType addr disable).records =
            [.disable disable pool.atype.addrType addr])) := by
  have failsAtOnce := kept.fails calls reads passes
  unfold Pool.disableAddr
  split
  · exact ⟨failsAtOnce _, .inl ⟨nofun, rfl, rfl⟩⟩
  split
  · exact ⟨failsAtOnce _, .inl ⟨nofun, rfl, rfl⟩⟩
  next valid =>
  split
  · exact ⟨failsAtOnce _, .inl ⟨nofun, rfl, rfl⟩⟩
  next found finds =>
    split
    · exact ⟨failsAtOnce _, .inl ⟨nofun, rfl, rfl⟩⟩
    · have member := poolSearch_mem finds
      simp only [Bool.not_eq_true', Bool.not_eq_false] at valid
      obtain rfl := poolSearch_eq valid finds
      refine ⟨⟨?_, rfl, Expires.refl _⟩, .inr ⟨member, rfl, rfl⟩⟩
      have keptNow := kept.later (UInt32.le_trans reads passes)
      -- nothing that the lists depend on changes
      have same : ∀ other, update pool.info found
          { pool.info found with disabled := disable } other =
          { pool.info other with
            disabled := (update pool.info found { pool.info found with disabled := disable }
              other).disabled } := by
        intro other
        by_cases at' : other = found
        · subst at'
          simp
        · simp [update_of_ne at']
      refine ⟨keptNow.placed, ?_, keptNow.counted, ?_, ?_⟩
      · intro other otherMember
        simp only
        rw [same other]
        exact keptNow.marked other otherMember
      · simp only
        apply keptNow.ordered.imp
        intro first second noLater
        rw [same first, same second]
        exact noLater
      · intro other otherMember
        simp only
        rw [same other]
        exact keptNow.past other otherMember

end

theorem indexAddr_eq (now : AasTime) (pool : Pool) (addr : AasAddr) :
    ∃ id2addr, pool.indexAddr now addr = { pool with id2addr := id2addr } := by
  unfold indexAddr
  split
  · exact ⟨_, rfl⟩
  split
  · exact ⟨_, rfl⟩
  split
  · exact ⟨_, rfl⟩
  split <;> exact ⟨_, rfl⟩

theorem foldl_indexAddr_eq (now : AasTime) (addrs : List AasAddr) (pool : Pool) : ∃ id2addr,
    addrs.foldl (Pool.indexAddr now) pool = { pool with id2addr := id2addr } := by
  induction addrs generalizing pool with
  | nil => exact ⟨_, rfl⟩
  | cons addr rest ih =>
    obtain ⟨first, indexed⟩ := indexAddr_eq now pool addr
    rw [foldl_cons, indexed]
    obtain ⟨last, done⟩ := ih { pool with id2addr := first }
    exact ⟨last, done⟩

theorem inuseCompare_iff :
    inuseCompare forever now first second ≠ .gt ↔ second.leaseTime = forever ∨
      (first.leaseTime ≠ forever ∧ first.leaseTime - (now - first.allocTime) ≤
        second.leaseTime - (now - second.allocTime)) := by
  unfold inuseCompare
  by_cases firstForever : first.leaseTime = forever
  · by_cases secondForever : second.leaseTime = forever <;> simp [firstForever, secondForever]
  · by_cases secondForever : second.leaseTime = forever
    · simp [firstForever, secondForever]
    · simp only [firstForever, secondForever, if_false, false_or, ne_eq,
        not_false_eq_true, true_and]
      exact Std.LawfulLECmp.ne_gt_iff_le

/-- The comparison of leases in use is total. -/
instance inuseCompare_total (forever now : AasTime) (info : AasAddr → AddrInfo) :
    Std.Total fun first second =>
      inuseCompare forever now (info first) (info second) ≠ .gt where
  total := by
    intro first second
    rw [inuseCompare_iff, inuseCompare_iff]
    by_cases firstForever : (info first).leaseTime = forever
    · exact .inr (.inl firstForever)
    · by_cases secondForever : (info second).leaseTime = forever
      · exact .inl (.inl secondForever)
      · exact (UInt32.le_total _ _).imp (fun le => .inr ⟨firstForever, le⟩)
          (fun le => .inr ⟨secondForever, le⟩)

/-- The comparison of leases in use is transitive. -/
instance inuseCompare_trans (forever now : AasTime) (info : AasAddr → AddrInfo) :
    IsTrans AasAddr fun first second =>
      inuseCompare forever now (info first) (info second) ≠ .gt where
  trans := by
    intro first second third
    rw [inuseCompare_iff, inuseCompare_iff, inuseCompare_iff]
    rintro (secondForever | ⟨firstFinite, earlier⟩) (thirdForever | ⟨secondFinite, later⟩)
    · exact .inl thirdForever
    · exact absurd secondForever secondFinite
    · exact .inl thirdForever
    · exact .inr ⟨firstFinite, UInt32.le_trans earlier later⟩

theorem age_lt_of_not_expired (finite : info.leaseTime ≠ forever)
    (lasts : info.expired forever now = false) : now - info.allocTime < info.leaseTime := by
  apply UInt32.not_le.1
  intro elapsed
  have : info.expired forever now = true := by simp [AddrInfo.expired, expired, finite, elapsed]
  rw [lasts] at this
  cases this

theorem noLater_of_inuseCompare (firstPast : first.allocTime ≤ now)
    (secondPast : second.allocTime ≤ now) (firstLasts : first.expired forever now = false)
    (secondLasts : second.expired forever now = false)
    (before : inuseCompare forever now first second ≠ .gt) :
    first.NoLater forever second := by
  rcases inuseCompare_iff.1 before with endless | ⟨firstFinite, le⟩
  · exact .inl endless
  · by_cases secondForever : second.leaseTime = forever
    · exact .inl secondForever
    · have firstAge := toNat_age firstPast
      have secondAge := toNat_age secondPast
      have firstOver := age_lt_of_not_expired firstFinite firstLasts
      have secondOver := age_lt_of_not_expired secondForever secondLasts
      have firstRest := UInt32.toNat_sub_of_le _ _ (UInt32.le_of_lt firstOver)
      have secondRest := UInt32.toNat_sub_of_le _ _ (UInt32.le_of_lt secondOver)
      rw [UInt32.le_iff_toNat_le, firstRest, secondRest, firstAge, secondAge] at le
      rw [UInt32.lt_iff_toNat_lt, secondAge] at secondOver
      rw [UInt32.le_iff_toNat_le] at firstPast secondPast
      exact .inr ⟨firstFinite, by omega⟩

theorem setupAddressLists_info (forever now : AasTime) (pool : Pool) :
    (pool.setupAddressLists forever now).info = (fun addr => (pool.info addr).current forever now) ∧
      (pool.setupAddressLists forever now).toPoolConfig = pool.toPoolConfig := by
  unfold setupAddressLists
  obtain ⟨id2addr, done⟩ := foldl_indexAddr_eq now pool.addrs _
  rw [done]
  exact ⟨rfl, rfl⟩

/-- **`setup_address_lists`** sets up lists that are as requests keep them. -/
theorem setupAddressLists_kept
    (past : ∀ addr ∈ pool.addrs, (pool.info addr).inuse = true → (pool.info addr).allocTime ≤ now) :
    (pool.setupAddressLists forever now).Kept forever now := by
  have started : ∀ addr, ((pool.info addr).current forever now).inuse = true →
      (pool.info addr).inuse = true ∧ ((pool.info addr).current forever now).expired forever now =
        false := by
    intro addr inuse
    simp only [AddrInfo.current, Bool.and_eq_true, Bool.not_eq_true'] at inuse
    exact inuse
  unfold setupAddressLists
  obtain ⟨id2addr, done⟩ := foldl_indexAddr_eq now pool.addrs _
  rw [done]
  refine ⟨?_, ?_, rfl, ?_, ?_⟩
  · apply Perm.trans _ (filter_append_perm
      (fun addr => ((pool.info addr).current forever now).inuse) pool.addrs)
    exact (perm_insertionSort _ _).append (perm_insertionSort _ _)
  · intro addr member
    simp only [mem_insertionSort, mem_filter]
    exact and_iff_right member
  · apply (pairwise_insertionSort _ _).imp_of_mem
    intro first second firstMember secondMember before
    simp only [mem_insertionSort, mem_filter] at firstMember secondMember
    obtain ⟨firstIn, firstInuse⟩ := firstMember
    obtain ⟨secondIn, secondInuse⟩ := secondMember
    obtain ⟨firstWas, firstLasts⟩ := started first firstInuse
    obtain ⟨secondWas, secondLasts⟩ := started second secondInuse
    exact noLater_of_inuseCompare (past first firstIn firstWas)
      (past second secondIn secondWas) firstLasts secondLasts before
  · intro addr member inuse
    exact past addr member (started addr inuse).1

end Pool

end Uw7.Aas.AddrDb
