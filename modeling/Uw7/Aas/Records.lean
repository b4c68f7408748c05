import Uw7.Aas.Replay

namespace Uw7.Aas.AddrDb

open Uw7.Lib Function List

/-!
# Records and memory

The information that a file replays agrees with that in memory.  The records of a
request preserve this, and so does the file that `write_state` makes from memory,
for addresses that are not disabled.
-/

/-- The information that is replayed agrees with that in memory, at a time; a
lease that has run out may still be in use in the file. -/
structure SameState (forever clock : AasTime) (replayed running : AddrInfo) : Prop where
  freed : replayed.freed = running.freed
  disabled : replayed.disabled = running.disabled
  service : replayed.service = running.service
  clientId : replayed.clientId = running.clientId
  allocTime : replayed.allocTime = running.allocTime
  leaseTime : replayed.leaseTime = running.leaseTime
  freeTime : running.freed = true → replayed.freeTime = running.freeTime
  inuse : running.inuse = true → replayed.inuse = true
  gone : replayed.inuse = true → running.inuse = true ∨ running.RunOut forever clock
  past : running.allocTime ≤ clock
  held : running.inuse = true → running.freed = false
  elapsed : running.service ≠ none → running.inuse = true ∨ running.freed = true ∨
      running.RunOut forever clock
  identified : running.service ≠ none → running.clientId ≠ []
  untouched : running.service = none → replayed.inuse = false ∧ running.freed = false ∧
      running.clientId = [] ∧ running.allocTime = 0 ∧ running.leaseTime = 0

namespace SameState

variable {forever clock now : AasTime}
variable {replayed running : AddrInfo}

theorem later (same : SameState forever clock replayed running) (passes : clock ≤ now) :
    SameState forever now replayed running :=
  { same with
    gone := fun inuse => (same.gone inuse).imp_right fun runOut => runOut.later passes
    past := UInt32.le_trans same.past passes
    elapsed := fun allocated =>
      (same.elapsed allocated).imp_right fun rest =>
        rest.imp_right fun runOut => runOut.later passes }

theorem expires (same : SameState forever clock replayed running)
    (runOut : running.RunOut forever clock) :
    SameState forever clock replayed { running with inuse := false } :=
  { same with
    inuse := nofun
    gone := fun _ => .inr runOut
    held := nofun
    elapsed := fun _ => .inr (.inr runOut) }

section

variable (same : SameState forever now replayed running)
include same

theorem alloc (request : AllocRequest) (identified : request.clientId ≠ []) :
    SameState forever now (Server.allocChange now request.leaseTime request.service
      request.clientId replayed)
      (Pool.allocInfo running request now) where
  freed := by
    simp only [Server.allocChange, Pool.allocInfo]
    cases inuse : running.inuse with
    | false => rfl
    | true => rw [same.held inuse]; rfl
  disabled := same.disabled
  service := rfl
  clientId := rfl
  allocTime := rfl
  leaseTime := rfl
  freeTime := by
    intro freed
    simp only [Pool.allocInfo, Bool.and_eq_true] at freed
    rw [same.held freed.1] at freed
    cases freed.2
  inuse := fun _ => rfl
  gone := fun _ => .inl rfl
  past := UInt32.le_refl _
  held := by
    intro _
    simp only [Pool.allocInfo]
    cases inuse : running.inuse with
    | false => rfl
    | true => rw [same.held inuse]; rfl
  elapsed := fun _ => .inl rfl
  identified := fun _ => identified
  untouched := nofun

theorem free (allocated : running.service ≠ none) (freeTime : AasTime) :
    SameState forever now (Server.freeChange freeTime replayed)
      (Server.freeChange freeTime running) :=
  { same with
    freed := rfl
    freeTime := fun _ => rfl
    inuse := nofun
    gone := nofun
    held := nofun
    elapsed := fun _ => .inr (.inl rfl)
    untouched := fun never => absurd never allocated }

theorem disable (disabled : Bool) : SameState forever now { replayed with disabled := disabled }
      { running with disabled := disabled } :=
  { same with disabled := rfl }

end

end SameState

/-- What replaying the records of `write_address_info` makes of an address. -/
def written (source before : AddrInfo) : AddrInfo :=
  match source.service with
  | none => before
  | some service =>
    if source.freed then
      Server.freeChange source.freeTime
        (Server.allocChange source.allocTime source.leaseTime service source.clientId before)
    else
      Server.allocChange source.allocTime source.leaseTime service source.clientId before

theorem written_written (source : AddrInfo) :
    written source (written source .unused) = written source .unused := by
  unfold written
  cases source.service with
  | none => rfl
  | some service =>
    cases source.freed with
    | false => rfl
    | true => rfl

/-- **What is rewritten agrees with what is in memory**, for an address that is
not disabled. -/
theorem SameState.rewritten {forever clock : AasTime} {replayed running : AddrInfo}
    (same : SameState forever clock replayed running) (enabled : running.disabled = false) :
    SameState forever clock (written running .unused) running := by
  unfold written
  cases allocated : running.service with
  | none =>
    obtain ⟨replayedGone, freed, clientId, allocTime, leaseTime⟩ := same.untouched allocated
    exact
      { same with
        freed := freed.symm
        disabled := enabled.symm
        service := allocated.symm
        clientId := clientId.symm
        allocTime := allocTime.symm
        leaseTime := leaseTime.symm
        freeTime := fun isFreed => by rw [freed] at isFreed; cases isFreed
        inuse := fun inuse => by
          have replayedInuse := same.inuse inuse
          rw [replayedGone] at replayedInuse
          cases replayedInuse
        gone := nofun
        untouched := fun _ => ⟨rfl, freed, clientId, allocTime, leaseTime⟩ }
  | some service =>
    have some : running.service ≠ none := by simp [allocated]
    cases freed : running.freed with
    | true =>
      exact
        { same with
          freed := freed.symm
          disabled := enabled.symm
          service := allocated.symm
          clientId := rfl
          allocTime := rfl
          leaseTime := rfl
          freeTime := fun _ => rfl
          inuse := fun inuse => by
            have notFreed := same.held inuse
            rw [freed] at notFreed
            cases notFreed
          gone := nofun
          untouched := fun none => absurd none some }
    | false =>
      exact
        { same with
          freed := freed.symm
          disabled := enabled.symm
          service := allocated.symm
          clientId := rfl
          allocTime := rfl
          leaseTime := rfl
          freeTime := fun isFreed => by
            rw [freed] at isFreed
            cases isFreed
          inuse := fun _ => rfl
          gone := fun _ => by
            rcases same.elapsed some with inuse | isFreed | runOut
            · exact .inl inuse
            · rw [freed] at isFreed
              cases isFreed
            · exact .inr runOut
          untouched := fun none => absurd none some }

namespace Server

variable {forever clock now : AasTime}
variable {config : Configuration}

/-- Replaying the records takes information that agrees with what the addresses
of a pool had before to information that agrees with what they have after. -/
def Tracks (forever now : AasTime) (config : Configuration) (place : Nat) (addrs : List AasAddr)
    (before after : AasAddr → AddrInfo) (records : List Trans) : Prop :=
  ∀ time server info, server.InfoIs config info → (∀ addr ∈ addrs,
      SameState forever now (info place addr) (before addr)) →
    ∃ server' info', records.foldlM (procTrans forever time) server = some server' ∧
        server'.orphanage = server.orphanage ∧ server'.InfoIs config info' ∧
        (∀ other, other ≠ place → info' other = info other) ∧
        ∀ addr ∈ addrs, SameState forever now (info' place addr) (after addr)

theorem InfoIs.pool_at {server : Server} {info : Nat → AasAddr → AddrInfo}
    (infoIs : server.InfoIs config info) {place : Nat} {poolConfig : PoolConfig}
    (there : config.pools[place]? = some poolConfig) :
    ∃ pool, server.pools[place]? = some pool ∧ pool.toPoolConfig = poolConfig := by
  rw [← infoIs.pools, List.getElem?_map] at there
  exact Option.map_eq_some_iff.1 there

theorem Tracks.nil {place : Nat} {addrs : List AasAddr} (info : AasAddr → AddrInfo) :
    Tracks forever now config place addrs info info [] :=
  fun _ server before infoIs same => ⟨server, before, rfl, rfl, infoIs, fun _ _ => rfl, same⟩

theorem Tracks.append {place : Nat} {addrs : List AasAddr}
    {before middle after : AasAddr → AddrInfo} {first second : List Trans}
    (earlier : Tracks forever now config place addrs before middle first)
    (later : Tracks forever now config place addrs middle after second) :
    Tracks forever now config place addrs before after (first ++ second) := by
  intro time server info infoIs same
  obtain ⟨server', info', done, orphans, infoIs', others, same'⟩ :=
    earlier time server info infoIs same
  obtain ⟨server'', info'', done', orphans', infoIs'', others', same''⟩ :=
    later time server' info' infoIs' same'
  refine ⟨server'', info'', ?_, orphans'.trans orphans, infoIs'', ?_, same''⟩
  · rw [foldlM_append, done]
    exact done'
  · exact fun other different => (others' other different).trans (others other different)

theorem Tracks.single {place : Nat} {addrs : List AasAddr} {before : AasAddr → AddrInfo}
    {addr : AasAddr} {changed : AddrInfo} {record : Trans} {change : AddrInfo → AddrInfo}
    (replays : ∀ time (server : Server) info, server.InfoIs config info →
      ∃ server', server.procTrans forever time record = some server' ∧
        server'.orphanage = server.orphanage ∧
        server'.InfoIs config (putInfo info place addr (change (info place addr))))
    (agrees : addr ∈ addrs → ∀ replayed, SameState forever now replayed (before addr) →
      SameState forever now (change replayed) changed) :
    Tracks forever now config place addrs before (update before addr changed) [record] := by
  intro time server info infoIs same
  obtain ⟨server', done, orphans, infoIs'⟩ := replays time server info infoIs
  refine ⟨server', _, ?_, orphans, infoIs', ?_, ?_⟩
  · simp [foldlM_cons, done]
  · intro other different
    funext otherAddr
    exact putInfo_of_ne fun both => different both.1
  · intro other member
    by_cases sameAddr : other = addr
    · subst sameAddr
      rw [putInfo_self, update_self]
      exact agrees member _ (same other member)
    · rw [putInfo_of_ne fun both => sameAddr both.2, update_of_ne sameAddr]
      exact same other member

section

variable {place : Nat}
variable {poolConfig : PoolConfig}
variable (there : config.pools[place]? = some poolConfig)
include there

variable {before : AasAddr → AddrInfo} {addr : AasAddr}

theorem tracks_alloc (member : addr ∈ poolConfig.addrs) (request : AllocRequest)
    (identified : request.clientId ≠ []) :
    Tracks forever now config place poolConfig.addrs before (update before addr
      (Pool.allocInfo (before addr) request now))
      [.alloc now request.leaseTime poolConfig.atype.addrType addr
        request.service request.clientId] := by
  refine @Tracks.single forever now config place poolConfig.addrs before addr _ _
    (allocChange now request.leaseTime request.service request.clientId) ?_ ?_
  · intro time server info infoIs
    obtain ⟨pool, poolAt, rfl⟩ := infoIs.pool_at there
    exact infoIs.procTrans_alloc poolAt member now request.leaseTime request.service identified
  · exact fun _ replayed same => same.alloc request identified

theorem tracks_free (member : addr ∈ poolConfig.addrs) (allocated : (before addr).service ≠ none) :
    Tracks forever now config place poolConfig.addrs before
      (update before addr (freeChange now (before addr)))
      [.free now poolConfig.atype.addrType addr] := by
  refine @Tracks.single forever now config place poolConfig.addrs before addr
    _ _ (freeChange now) ?_ ?_
  · intro time server info infoIs
    obtain ⟨pool, poolAt, rfl⟩ := infoIs.pool_at there
    exact infoIs.procTrans_free poolAt member now
  · exact fun _ replayed same => same.free allocated now

theorem tracks_disable (member : addr ∈ poolConfig.addrs) (disable : Bool) :
    Tracks forever now config place poolConfig.addrs before
      (update before addr { before addr with disabled := disable })
      [.disable disable poolConfig.atype.addrType addr] := by
  refine @Tracks.single forever now config place poolConfig.addrs before addr
    { before addr with disabled := disable } _ (fun info => { info with disabled := disable }) ?_ ?_
  · intro time server info infoIs
    obtain ⟨pool, poolAt, rfl⟩ := infoIs.pool_at there
    exact infoIs.procTrans_disable poolAt member disable
  · exact fun _ replayed same => same.disable disable

theorem tracks_freesAll {service : List UInt8} {after : AasAddr → AddrInfo} {records : List Trans}
    (frees : Pool.FreesAll poolConfig.addrs poolConfig.atype.addrType now service
      before records after) :
    Tracks forever now config place poolConfig.addrs before after
      records := by
  induction frees with
  | nil info => exact Tracks.nil info
  | cons member inuse allocated later ih =>
    exact (tracks_free there member (by simp [allocated])).append ih

end

end Server

namespace Server

variable {forever clock now : AasTime}
variable {config : Configuration}

theorem putInfo_same (info : Nat → AasAddr → AddrInfo) (place : Nat) (addr : AasAddr) :
    putInfo info place addr (info place addr) = info := by
  simp [putInfo]

theorem InfoIs.foldlM_writeAddressInfo {server : Server} {info : Nat → AasAddr → AddrInfo}
    (infoIs : server.InfoIs config info) {place : Nat} {poolConfig : PoolConfig}
    (there : config.pools[place]? = some poolConfig) {addr : AasAddr}
    (member : addr ∈ poolConfig.addrs) {source : AddrInfo}
    (identified : source.service ≠ none → source.clientId ≠ []) :
    ∃ server', (writeAddressInfo poolConfig.atype.addrType addr source).foldlM
      (procTrans forever now) server = some server' ∧ server'.orphanage = server.orphanage ∧
      server'.InfoIs config (putInfo info place addr (written source (info place addr))) := by
  obtain ⟨pool, poolAt, rfl⟩ := infoIs.pool_at there
  unfold writeAddressInfo written
  cases allocated : source.service with
  | none =>
    refine ⟨server, rfl, rfl, ?_⟩
    rw [putInfo_same]
    exact infoIs
  | some service =>
    obtain ⟨middle, done, orphans, infoIs'⟩ :=
      @InfoIs.procTrans_alloc forever now config server info infoIs place
        pool addr poolAt member source.allocTime source.leaseTime service
        source.clientId (identified (by simp [allocated]))
    cases source.freed with
    | false =>
      refine ⟨middle, ?_, orphans, infoIs'⟩
      simp [foldlM_cons, done]
    | true =>
      obtain ⟨pool', poolAt', same⟩ := infoIs'.pool_at there
      have member' : addr ∈ pool'.addrs := by
        rw [congrArg PoolConfig.addrs same]
        exact member
      obtain ⟨after, done', orphans', infoIs''⟩ :=
        @InfoIs.procTrans_free forever now config middle _ infoIs' place
          pool' addr poolAt' member' source.freeTime
      rw [congrArg PoolConfig.atype same] at done'
      refine ⟨after, ?_, orphans'.trans orphans, ?_⟩
      · simp [foldlM_cons, done, done']
      · simpa [putInfo] using infoIs''

def allLocs (server : Server) : List AddrLoc := server.pools.zipIdx.flatMap fun entry =>
    entry.1.addrs.map fun addr => ⟨entry.2, addr⟩

def infoAt (server : Server) (loc : AddrLoc) : AddrInfo :=
  match server.pools[loc.pool]? with
  | none => .unused
  | some pool => pool.info loc.addr

/-- The records of the address at a place. -/
def writeLoc (server : Server) (loc : AddrLoc) : List Trans :=
  match server.pools[loc.pool]? with
  | none => []
  | some pool => writeAddressInfo pool.atype.addrType loc.addr (pool.info loc.addr)

theorem mem_allLocs {server : Server} {loc : AddrLoc} : loc ∈ server.allLocs ↔
    ∃ pool, server.pools[loc.pool]? = some pool ∧ loc.addr ∈ pool.addrs := by
  obtain ⟨place, addr⟩ := loc
  simp only [allLocs, mem_flatMap, mem_map]
  constructor
  · rintro ⟨⟨pool, index⟩, member, other, otherMember, equal⟩
    cases equal
    exact ⟨pool, List.mem_zipIdx_iff_getElem?.1 member, otherMember⟩
  · rintro ⟨pool, there, member⟩
    exact ⟨⟨pool, place⟩, List.mem_zipIdx_iff_getElem?.2 there, addr, member, rfl⟩

theorem flatMap_writePool (server : Server) : server.pools.flatMap writePool =
    server.allLocs.flatMap server.writeLoc := by
  have pools : server.pools = server.pools.zipIdx.map Prod.fst :=
    (zipIdx_map_fst 0 server.pools).symm
  unfold allLocs
  rw [flatMap_assoc]
  nth_rewrite 1 [pools]
  rw [flatMap_map]
  apply flatMap_congr
  rintro ⟨pool, place⟩ member
  have there := List.mem_zipIdx_iff_getElem?.1 member
  simp only [flatMap_map, writePool, writeLoc, there]

/-- Replaying the records of some addresses, each of which is as it was at first
or rewritten already. -/
theorem foldlM_writeLocs {running : Server}
    (pools : running.pools.map Pool.toPoolConfig = config.pools)
    (identified : ∀ loc ∈ running.allLocs, (running.infoAt loc).service ≠ none →
      (running.infoAt loc).clientId ≠ [])
    {locs : List AddrLoc} (within : ∀ loc ∈ locs, loc ∈ running.allLocs)
    {server : Server}
    {info : Nat → AasAddr → AddrInfo} (infoIs : server.InfoIs config info)
    (either : ∀ loc : AddrLoc, info loc.pool loc.addr = .unused ∨ info loc.pool loc.addr =
      written (running.infoAt loc) .unused) :
    ∃ server' info', (locs.flatMap running.writeLoc).foldlM (procTrans forever now) server =
      some server' ∧ server'.orphanage = server.orphanage ∧ server'.InfoIs config info' ∧
      (∀ loc : AddrLoc, info loc.pool loc.addr = written (running.infoAt loc) .unused →
        info' loc.pool loc.addr = written (running.infoAt loc) .unused) ∧
      ∀ loc ∈ locs, info' loc.pool loc.addr = written (running.infoAt loc) .unused := by
  induction locs generalizing server info with
  | nil => exact ⟨server, info, rfl, rfl, infoIs, fun _ => id, by simp⟩
  | cons loc rest ih =>
    have member := within loc mem_cons_self
    obtain ⟨pool, there, inPool⟩ := mem_allLocs.1 member
    have at' : running.infoAt loc = pool.info loc.addr := by simp [infoAt, there]
    have configured : config.pools[loc.pool]? = some pool.toPoolConfig := by
      rw [← pools, List.getElem?_map, there]
      rfl
    obtain ⟨middle, done, orphans, infoIs'⟩ :=
      @InfoIs.foldlM_writeAddressInfo forever now config server info infoIs
        loc.pool pool.toPoolConfig configured loc.addr inPool
        (running.infoAt loc) (identified loc member)
    -- the address is rewritten, whether or not it was before
    have rewritten : written (running.infoAt loc) (info loc.pool loc.addr) =
        written (running.infoAt loc) .unused := by
      rcases either loc with same | same
      · rw [same]
      · rw [same]
        exact written_written _
    rw [rewritten] at infoIs'
    have either' : ∀ other : AddrLoc, putInfo info loc.pool loc.addr
        (written (running.infoAt loc) .unused) other.pool other.addr = .unused ∨
        putInfo info loc.pool loc.addr (written (running.infoAt loc) .unused) other.pool
          other.addr = written (running.infoAt other) .unused := by
      intro other
      by_cases same : other.pool = loc.pool ∧ other.addr = loc.addr
      · obtain ⟨place, addr⟩ := other
        obtain ⟨rfl, rfl⟩ := same
        exact .inr (putInfo_self _ _ _ _)
      · rw [putInfo_of_ne same]
        exact either other
    obtain ⟨after, info'', done', orphans', infoIs'', keep, rest'⟩ := ih (fun other otherMember =>
      within other (mem_cons_of_mem _ otherMember)) infoIs' either'
    refine ⟨after, info'', ?_, orphans'.trans orphans, infoIs'', ?_, ?_⟩
    · have first : running.writeLoc loc = writeAddressInfo pool.atype.addrType loc.addr
          (running.infoAt loc) := by
        simp [writeLoc, at', there]
      rw [flatMap_cons, foldlM_append, first, done]
      exact done'
    · intro other was
      apply keep
      by_cases same : other.pool = loc.pool ∧ other.addr = loc.addr
      · obtain ⟨place, addr⟩ := other
        obtain ⟨rfl, rfl⟩ := same
        exact putInfo_self _ _ _ _
      · rw [putInfo_of_ne same]
        exact was
    · intro other otherMember
      rcases mem_cons.1 otherMember with rfl | later
      · exact keep other (putInfo_self _ _ _ _)
      · exact rest' other later

theorem configured_infoIs (config : Configuration) (now : AasTime) :
    (configured config now).InfoIs config fun _ _ => .unused := by
  refine ⟨(configured_replaying config now).pools, ?_⟩
  intro place pool there addr _
  obtain ⟨poolConfig, _, rfl⟩ := mem_map.1 (mem_of_getElem? there)
  rfl

/-- **Replaying a file that `write_state` wrote** gives each address what was
written of it. -/
theorem replayTrans_writeState {running : Server}
    (pools : running.pools.map Pool.toPoolConfig = config.pools)
    (identified : ∀ loc ∈ running.allLocs, (running.infoAt loc).service ≠ none →
      (running.infoAt loc).clientId ≠ [])
    (orphans : ∀ addrType, running.orphanage addrType = []) (written' : AasTime) (now : AasTime) :
    ∃ server info, (configured config now).replayTrans forever now
      (running.writeState forever written') = some server ∧ server.orphanage = (fun _ => []) ∧
      server.InfoIs config info ∧
      ∀ loc ∈ running.allLocs, info loc.pool loc.addr = written (running.infoAt loc) .unused := by
  obtain ⟨server, info, done, orphans', infoIs, _, all⟩ :=
    @foldlM_writeLocs forever now config running pools identified
      running.allLocs (fun _ member => member) (configured config now) _
      (configured_infoIs config now) (fun _ => .inl rfl)
  refine ⟨server, info, ?_, orphans', infoIs, all⟩
  have noOrphans : (addrTypeCodes.flatMap fun addrType =>
      (running.orphanage addrType).flatMap (writeOrphan forever written' addrType)) = [] := by
    simp [orphans]
  unfold writeState
  rw [noOrphans, append_nil, flatMap_writePool]
  exact done

end Server

end Uw7.Aas.AddrDb
