import Uw7.Aas.Leases
import Uw7.Aas.Records

namespace Uw7.Aas.AddrDb

open Uw7.Lib Function List Bool

/-!
# Restarting the address server

The live transaction file is the only durable state.  Each request appends its
records, and `compress_db` replaces the file by one that `write_state` makes from
memory.  Replaying the file rebuilds the state of every address, as long as no
address is disabled when the file is rewritten.
-/

/-- Replaying the file of the server gives information that agrees with what is
in memory, for every address. -/
structure Rebuildable (forever : AasTime) (config : Configuration) (server : Server) : Prop where
  pools : server.pools.map Pool.toPoolConfig = config.pools
  kept : ∀ pool ∈ server.pools, pool.Kept forever server.clock
  orphans : ∀ addrType, server.orphanage addrType = []
  replays : ∀ now, ∃ replayed info,
      (Server.configured config now).replayTrans forever now server.log = some replayed ∧
        replayed.orphanage = (fun _ => []) ∧ replayed.InfoIs config info ∧
        ∀ place pool, server.pools[place]? = some pool → ∀ addr ∈ pool.addrs,
            SameState forever server.clock (info place addr) (pool.info addr)

/-- No address is disabled. -/
def Server.NoneDisabled (server : Server) : Prop :=
  ∀ (place : Nat) (pool : Pool), server.pools[place]? = some pool →
    ∀ addr ∈ pool.addrs, (pool.info addr).disabled = false

namespace Rebuildable

variable {forever clock now : AasTime}
variable {config : Configuration}
variable {server : Server}

variable {place : Nat} {pool : Pool} {calls : Calls}

section

variable (rebuildable : Rebuildable forever config server)
include rebuildable

theorem sameState (there : server.pools[place]? = some pool) {addr : AasAddr}
    (member : addr ∈ pool.addrs) :
    ∃ replayed, SameState forever server.clock replayed (pool.info addr) := by
  obtain ⟨_, info, _, _, _, same⟩ := rebuildable.replays 0
  exact ⟨info place addr, same place pool there addr member⟩

theorem configured_at (there : server.pools[place]? = some pool) :
    config.pools[place]? = some pool.toPoolConfig := by
  rw [← rebuildable.pools, List.getElem?_map, there]
  rfl

/-- **Rewriting the file** when no address is disabled. -/
theorem compressDb (calls : Calls) (enabled : calls.compress ≠ none → server.NoneDisabled) :
    Rebuildable forever config (server.compressDb forever calls) := by
  unfold Server.compressDb
  cases rewrites : calls.compress with
  | none => exact rebuildable
  | some time =>
    have noneDisabled := enabled (by simp [rewrites])
    have passes := Server.left_le_later server.clock time
    refine ⟨rebuildable.pools, ?_, ?_, ?_⟩
    · exact fun pool member => (rebuildable.kept pool member).later passes
    · intro addrType
      simp [rebuildable.orphans addrType]
    · intro now
      have identified : ∀ loc ∈ server.allLocs, (server.infoAt loc).service ≠ none →
          (server.infoAt loc).clientId ≠ [] := by
        intro loc member
        obtain ⟨pool, there, inPool⟩ := Server.mem_allLocs.1 member
        obtain ⟨replayed, same⟩ := rebuildable.sameState there inPool
        simp only [Server.infoAt, there]
        exact same.identified
      obtain ⟨replayed, info, done, orphans, infoIs, all⟩ :=
        @Server.replayTrans_writeState forever config server
          rebuildable.pools identified rebuildable.orphans (max server.clock time) now
      refine ⟨replayed, info, done, orphans, infoIs, ?_⟩
      intro place pool there addr member
      have rewritten := all ⟨place, addr⟩ (Server.mem_allLocs.2 ⟨pool, there, member⟩)
      simp only [Server.infoAt, there] at rewritten
      obtain ⟨before, same⟩ := rebuildable.sameState there member
      rw [rewritten]
      exact (same.rewritten (noneDisabled place pool there addr member)).later passes

end

theorem replayTrans_append {replayed : Server} {log : List Trans} (done :
    (Server.configured config now).replayTrans forever now log = some replayed)
    (records : List Trans) :
    (Server.configured config now).replayTrans forever now (log ++ records) =
      records.foldlM (Server.procTrans forever now) replayed := by
  obtain ⟨startTime, earlier, rfl, folded⟩ := Server.replayTrans_eq done
  show (earlier ++ records).foldlM (Server.procTrans forever now) _ = _
  rw [foldlM_append, folded]
  rfl

/-- **A request to a pool** whose records track what it does. -/
theorem set (rebuildable : Rebuildable forever config server)
    (there : server.pools[place]? = some pool) (reads : server.clock ≤ calls.expireTime)
    (passes : calls.expireTime ≤ calls.now) {middle : AasAddr → AddrInfo} {reply : PoolReply}
    (settled : Pool.Settled forever calls pool middle reply)
    (tracks : Server.Tracks forever calls.now config place pool.addrs middle
      reply.pool.info reply.records) :
    Rebuildable forever config
      { server with
        pools := server.pools.set place reply.pool
        log := server.log ++ reply.records
        clock := calls.now } := by
  obtain ⟨placed, at'⟩ := List.getElem?_eq_some_iff.1 there
  have later := UInt32.le_trans reads passes
  refine ⟨?_, ?_, rebuildable.orphans, ?_⟩
  · rw [← rebuildable.pools, map_set, settled.config, ← at', ← map_set, set_getElem_self]
  · intro other member
    rcases mem_or_eq_of_mem_set member with old | rfl
    · exact (rebuildable.kept other old).later later
    · exact settled.kept
  · intro now
    obtain ⟨replayed, info, done, orphans, infoIs, same⟩ := rebuildable.replays now
    -- the leases that run out at first, and then the records
    have sameMiddle : ∀ addr ∈ pool.addrs,
        SameState forever calls.now (info place addr) (middle addr) := by
      intro addr member
      have before := (same place pool there addr member).later reads
      rcases settled.expires addr with same' | ⟨runOut, gone⟩
      · rw [same']
        exact before.later passes
      · rw [gone]
        exact (before.expires runOut).later passes
    obtain ⟨after, info', folded, orphans', infoIs', others, same'⟩ :=
      tracks now replayed info infoIs sameMiddle
    refine ⟨after, info', ?_, orphans'.trans orphans, infoIs', ?_⟩
    · rw [replayTrans_append done]
      exact folded
    · intro otherPlace otherPool otherAt addr member
      simp only [List.getElem?_set] at otherAt
      split at otherAt
      case isTrue samePlace =>
        subst samePlace
        rw [Option.some.injEq] at otherAt
        subst otherAt
        rw [congrArg PoolConfig.addrs settled.config] at member
        exact same' addr member
      case isFalse elsewhere =>
        rw [others otherPlace (Ne.symm elsewhere)]
        exact (same otherPlace otherPool otherAt addr member).later later

theorem onPool (rebuildable : Rebuildable forever config server)
    {operation : Calls → Pool → PoolReply}
    (keeps : ∀ pool, server.pools[place]? = some pool → ∃ middle,
      Pool.Settled forever (server.readTimes calls) pool middle
        (operation (server.readTimes calls) pool) ∧
        Server.Tracks forever (server.readTimes calls).now config place pool.addrs middle
          (operation (server.readTimes calls) pool).pool.info
          (operation (server.readTimes calls) pool).records)
    (enabled : ∀ pool, server.pools[place]? = some pool → calls.compress ≠ none →
      (operation (server.readTimes calls) pool).code = .ok → Server.NoneDisabled
        { server with
          pools := server.pools.set place (operation (server.readTimes calls) pool).pool }) :
    Rebuildable forever config (server.onPool forever calls place operation).server := by
  unfold Server.onPool
  cases there : server.pools[place]? with
  | none => exact rebuildable
  | some pool =>
    obtain ⟨middle, settled, tracks⟩ := keeps pool there
    obtain ⟨reads, passes⟩ := server.readTimes_le calls
    have after := rebuildable.set there reads passes settled tracks
    simp only
    split
    case isTrue succeeds =>
      exact after.compressDb _ fun rewrites => enabled pool there rewrites succeeds
    case isFalse => exact after

end Rebuildable

theorem Server.NoneDisabled.set {server after : Server} {place : Nat} {pool pool' : Pool} (others :
    ∀ (other : Nat) (otherPool : Pool), other ≠ place → server.pools[other]? = some otherPool →
      ∀ addr ∈ otherPool.addrs, (otherPool.info addr).disabled = false)
    (config : pool'.toPoolConfig = pool.toPoolConfig)
    (enabled : ∀ addr ∈ pool.addrs, (pool'.info addr).disabled = false)
    (pools : after.pools = server.pools.set place pool') : after.NoneDisabled := by
  intro other otherPool otherAt addr member
  rw [pools, List.getElem?_set] at otherAt
  split at otherAt
  case isTrue =>
    obtain ⟨-, otherAt⟩ := Option.ite_none_right_eq_some.1 otherAt
    rw [Option.some.injEq] at otherAt
    subst otherAt
    rw [congrArg PoolConfig.addrs config] at member
    exact enabled addr member
  case isFalse elsewhere => exact others other otherPool (Ne.symm elsewhere) otherAt addr member

theorem Pool.Expires.disabled {forever now : AasTime} {before after : AasAddr → AddrInfo}
    (expires : Pool.Expires forever now before after) (addr : AasAddr) :
    (after addr).disabled = (before addr).disabled := by
  rcases expires addr with same | ⟨_, gone⟩
  · rw [same]
  · rw [gone]

theorem Pool.FreesAll.disabled {addrs : List AasAddr} {addrType : Nat} {now : AasTime}
    {service : List UInt8} {before after : AasAddr → AddrInfo} {records : List Trans}
    (frees : Pool.FreesAll addrs addrType now service before records after) (addr : AasAddr) :
    (after addr).disabled = (before addr).disabled := by
  induction frees with
  | nil => rfl
  | @cons info after records freed member inuse allocated later ih =>
    rw [ih]
    by_cases same : addr = freed
    · subst same
      rw [update_self]
      rfl
    · rw [update_of_ne same]

namespace Rebuildable

variable {forever clock now : AasTime}
variable {config : Configuration}
variable {server : Server}

theorem onPool_enabled (rebuildable : Rebuildable forever config server) {calls : Calls}
    {place : Nat} {operation : Calls → Pool → PoolReply}
    (keeps : ∀ pool, server.pools[place]? = some pool → ∃ middle,
      Pool.Settled forever (server.readTimes calls) pool middle
        (operation (server.readTimes calls) pool) ∧
        Server.Tracks forever (server.readTimes calls).now config place pool.addrs middle
          (operation (server.readTimes calls) pool).pool.info
          (operation (server.readTimes calls) pool).records ∧
        ∀ addr, ((operation (server.readTimes calls) pool).pool.info
          addr).disabled = (middle addr).disabled)
    (enabled : calls.compress ≠ none → server.NoneDisabled) :
    Rebuildable forever config (server.onPool forever calls place operation).server ∧
      (server.NoneDisabled →
        (server.onPool forever calls place operation).server.NoneDisabled) := by
  have noneAfter : ∀ pool, server.pools[place]? = some pool →
      server.NoneDisabled → ∀ after : Server, after.pools = server.pools.set place
        (operation (server.readTimes calls) pool).pool →
        after.NoneDisabled := by
    intro pool there none after pools
    obtain ⟨middle, settled, _, same⟩ := keeps pool there
    refine Server.NoneDisabled.set
      (fun other otherPool _ => none other otherPool) settled.config ?_ pools
    intro addr member
    rw [same addr, settled.expires.disabled addr]
    exact none place pool there addr member
  refine ⟨?_, ?_⟩
  · refine rebuildable.onPool ?_ ?_
    · intro pool there
      obtain ⟨middle, settled, tracks, _⟩ := keeps pool there
      exact ⟨middle, settled, tracks⟩
    · intro pool there rewrites _
      exact noneAfter pool there (enabled rewrites) _ rfl
  · intro none
    cases there : server.pools[place]? with
    | none =>
      simp only [Server.onPool, there]
      exact none
    | some pool =>
      exact noneAfter pool there none _
        (@Server.onPool_pools forever calls server place operation pool there).1

section

variable (rebuildable : Rebuildable forever config server) (calls : Calls)
include rebuildable calls

theorem allocAddr (poolName : List UInt8) {request : AllocRequest} (lasting : request.temp = false)
    (identified : request.clientId ≠ []) (enabled : calls.compress ≠ none → server.NoneDisabled) :
    Rebuildable forever config (server.allocAddr forever calls poolName request).server := by
  unfold Server.allocAddr
  split
  · exact rebuildable
  next place _ =>
    refine (rebuildable.onPool_enabled ?_ enabled).1
    intro pool there
    obtain ⟨reads, passes⟩ := server.readTimes_le calls
    obtain ⟨middle, settled, outcome⟩ :=
      (rebuildable.kept pool (mem_of_getElem? there)).allocAddr reads passes request
    refine ⟨middle, settled, ?_⟩
    rcases outcome with ⟨_, records, info⟩ | ⟨addr, member, _, _, info, records⟩
    · rw [records, info]
      exact ⟨Server.Tracks.nil _, fun _ => rfl⟩
    · rw [records, info, if_neg (by simp [lasting])]
      refine ⟨Server.tracks_alloc (rebuildable.configured_at there) member request identified, ?_⟩
      intro other
      by_cases same : other = addr
      · subst same
        rw [update_self]
        rfl
      · rw [update_of_ne same]

theorem freeDeletedAddr (addrType : Nat) (addr : AasAddr) (service clientId : List UInt8)
    (missing : Code) :
    Rebuildable forever config (server.freeDeletedAddr calls addrType addr service clientId
      missing).server := by
  unfold Server.freeDeletedAddr
  split
  · exact rebuildable
  next atype _ =>
    have nowhere : server.orphanageSearch atype addr = (none, 0) := by
      unfold Server.orphanageSearch
      rw [rebuildable.orphans]
      rfl
    rw [nowhere]
    exact rebuildable

theorem freeAddr (poolName : List UInt8) (addrType : Nat) (addr : AasAddr)
    (service clientId : List UInt8) (enabled : calls.compress ≠ none → server.NoneDisabled) :
    Rebuildable forever config (server.freeAddr forever calls poolName addrType addr service
      clientId).server := by
  unfold Server.freeAddr
  split
  · exact rebuildable.freeDeletedAddr _ _ _ _ _ _
  next place _ =>
    cases found : server.pools[place]? with
    | none => exact rebuildable
    | some foundPool =>
      simp only
      split
      · exact rebuildable.freeDeletedAddr _ _ _ _ _ _
      split
      · exact rebuildable
      split
      · exact rebuildable.freeDeletedAddr _ _ _ _ _ _
      next target finds =>
        refine (rebuildable.onPool_enabled ?_ enabled).1
        intro pool there
        rw [found, Option.some.injEq] at there
        subst there
        obtain ⟨reads, passes⟩ := server.readTimes_le calls
        have member := Pool.poolSearch_mem finds
        obtain ⟨middle, settled, outcome⟩ :=
          (rebuildable.kept _ (mem_of_getElem? found)).freeAddr reads passes member service clientId
        refine ⟨middle, settled, ?_⟩
        rcases outcome with ⟨records, info⟩ | ⟨_, held, info, records⟩
        · rw [records, info]
          exact ⟨Server.Tracks.nil _, fun _ => rfl⟩
        · have allocated : (middle target).service ≠ none := by
            simp only [AddrInfo.heldBy, and_eq_true, beq_iff_eq] at held
            rw [held.1]
            exact Option.some_ne_none service
          rw [records, info]
          refine ⟨Server.tracks_free (rebuildable.configured_at found) member allocated, ?_⟩
          intro other
          by_cases same : other = target
          · subst same
            rw [update_self]
            rfl
          · rw [update_of_ne same]

end

theorem freeAllLoop {calls : Nat → Calls} {service : List UInt8} {places : List Nat}
    (rebuildable : Rebuildable forever config server)
    (enabled : (∃ place, (calls place).compress ≠ none) → server.NoneDisabled) :
    Rebuildable forever config (server.freeAllLoop forever calls service places).server := by
  induction places generalizing server with
  | nil => exact rebuildable
  | cons place rest ih =>
    obtain ⟨kept, noneAfter⟩ :=
      @onPool_enabled forever config server rebuildable (calls place) place
        (fun calls pool => pool.freeAllAddrs forever calls service) (by
          intro pool there
          obtain ⟨reads, passes⟩ := server.readTimes_le (calls place)
          obtain ⟨middle, settled, frees⟩ := (rebuildable.kept pool
            (mem_of_getElem? there)).freeAllAddrs reads passes service
          exact ⟨middle, settled, Server.tracks_freesAll (rebuildable.configured_at there) frees,
            frees.disabled⟩)
        (fun rewrites => enabled ⟨place, rewrites⟩)
    unfold Server.freeAllLoop
    simp only
    split
    · exact ih kept fun rewrites => noneAfter (enabled rewrites)
    · exact kept

theorem expireAddresses (rebuildable : Rebuildable forever config server) (calls : Calls)
    (place : Nat) :
    Rebuildable forever config (server.expireAddresses forever calls place).server := by
  refine (rebuildable.onPool_enabled ?_ (fun rewrites => ?_)).1
  · intro pool there
    obtain ⟨reads, passes⟩ := server.readTimes_le { calls with compress := none }
    obtain ⟨kept, configs, expires, _⟩ := (rebuildable.kept pool
      (mem_of_getElem? there)).expireAddresses reads
    exact ⟨_, ⟨kept.later passes, configs, expires⟩, Server.Tracks.nil _, fun _ => rfl⟩
  · exact absurd rfl rewrites

end Rebuildable

/-- What the server does next: it handles a request, with the system calls of the
request, or it starts again from its file. -/
inductive ServerAction where
  | request (request : Request) (calls : Nat → Calls)
  | restart (time : AasTime)

/-- A request that is not temporary; the protocol refuses an empty client id. -/
def Request.lasting : Request → Prop
  | .alloc _ request => request.temp = false ∧ request.clientId ≠ []
  | _ => True

/-- One step of the server. -/
def Server.act (forever : AasTime) (config : Configuration) (before : Server)
    (action : ServerAction) (after : Server) : Prop :=
  match action with
  | .request request calls => request.lasting ∧ after = (before.handle forever calls request).server
  | .restart time => Server.restart forever config before.log (max before.clock time) = some after

def Server.enabledBy (server : Server) : Request → Prop
  | .disable poolName _ addr disable =>
    disable = false ∧ ∀ (place : Nat) (pool : Pool), server.pools[place]? = some pool →
        ∀ other ∈ pool.addrs, (pool.info other).disabled = true →
          server.findPool poolName = some place ∧ other = addr
  | _ => server.NoneDisabled

/-- If the request rewrites the file, no address is disabled then. -/
def rewritesEnabled (server : Server) : ServerAction → Prop
  | .request request calls => (∃ place, (calls place).compress ≠ none) → server.enabledBy request
  | .restart _ => True

/-- The states of the addresses of a pool, in memory and rebuilt; an address whose
lease has run out is not in use. -/
structure Pool.SameStates (forever now : AasTime) (running rebuilt : Pool) : Prop where
  config : rebuilt.toPoolConfig = running.toPoolConfig
  inuse : ∀ addr ∈ running.addrs, (rebuilt.info addr).inuse = ((running.info addr).inuse &&
      !(running.info addr).expired forever now)
  freed : ∀ addr ∈ running.addrs, (rebuilt.info addr).freed = (running.info addr).freed
  disabled : ∀ addr ∈ running.addrs, (rebuilt.info addr).disabled = (running.info addr).disabled
  client : ∀ addr ∈ running.addrs, (rebuilt.info addr).service = (running.info addr).service ∧
      (rebuilt.info addr).clientId = (running.info addr).clientId
  times : ∀ addr ∈ running.addrs, (rebuilt.info addr).allocTime = (running.info addr).allocTime ∧
      (rebuilt.info addr).leaseTime = (running.info addr).leaseTime ∧
      ((running.info addr).freed = true →
        (rebuilt.info addr).freeTime = (running.info addr).freeTime)

namespace Rebuildable

variable {forever clock now : AasTime}
variable {config : Configuration}
variable {server : Server}

theorem disableAddr (rebuildable : Rebuildable forever config server) (calls : Calls)
    (poolName : List UInt8) (addrType : Nat) (addr : AasAddr) (disable : Bool)
    (enabled : calls.compress ≠ none → server.enabledBy (.disable poolName addrType addr disable)) :
    Rebuildable forever config (server.disableAddr forever calls poolName addrType addr
      disable).server := by
  unfold Server.disableAddr
  split
  · exact rebuildable
  next place named =>
    obtain ⟨reads, passes⟩ := server.readTimes_le calls
    refine rebuildable.onPool ?_ ?_
    · intro pool there
      obtain ⟨settled, outcome⟩ := (rebuildable.kept pool (mem_of_getElem? there)).disableAddr
        reads passes addrType addr disable
      refine ⟨pool.info, settled, ?_⟩
      rcases outcome with ⟨_, records, info⟩ | ⟨member, info, records⟩
      · rw [records, info]
        exact Server.Tracks.nil _
      · rw [records, info]
        exact Server.tracks_disable (rebuildable.configured_at there) member disable
    · intro pool there rewrites succeeds
      obtain ⟨off, only⟩ := enabled rewrites
      obtain ⟨settled, outcome⟩ := (rebuildable.kept pool (mem_of_getElem? there)).disableAddr
        reads passes addrType addr disable
      -- the request that succeeds clears the only flag that is set
      have cleared : ∀ other ∈ pool.addrs, ((pool.disableAddr (server.readTimes calls) addrType addr
          disable).pool.info other).disabled = false := by
        intro other member
        rcases outcome with ⟨failed, _⟩ | ⟨_, info, _⟩
        · exact absurd succeeds failed
        · rw [info]
          by_cases target : other = addr
          · subst target
            rw [update_self]
            exact off
          · rw [update_of_ne target]
            by_contra set
            rw [not_eq_false] at set
            exact target (only place pool there other member set).2
      refine Server.NoneDisabled.set ?_ settled.config cleared rfl
      intro other otherPool elsewhere otherAt otherAddr member
      by_contra set
      rw [not_eq_false] at set
      have same := (only other otherPool otherAt otherAddr member set).1
      rw [named, Option.some.injEq] at same
      exact elsewhere same.symm

/-- **Every request keeps the file rebuildable.** -/
theorem handle (rebuildable : Rebuildable forever config server) {request : Request}
    {calls : Nat → Calls} (lasting : request.lasting)
    (enabled : (∃ place, (calls place).compress ≠ none) → server.enabledBy request) :
    Rebuildable forever config (server.handle forever calls request).server := by
  cases request with
  | alloc poolName request =>
    exact rebuildable.allocAddr (calls 0) poolName lasting.1 lasting.2
      fun rewrites => enabled ⟨0, rewrites⟩
  | free poolName addrType addr service clientId =>
    exact rebuildable.freeAddr (calls 0) poolName addrType addr service
      clientId fun rewrites => enabled ⟨0, rewrites⟩
  | freeAll poolName service =>
    simp only [Server.handle, Server.freeAll]
    cases poolName with
    | none => exact rebuildable.freeAllLoop enabled
    | some name =>
      simp only
      split
      · exact rebuildable
      · exact rebuildable.freeAllLoop enabled
  | disable poolName addrType addr disable =>
    exact rebuildable.disableAddr (calls 0) poolName addrType addr disable
      fun rewrites => enabled ⟨0, rewrites⟩
  | expire place => exact rebuildable.expireAddresses (calls 0) place

end Rebuildable

namespace SameState

variable {forever clock now : AasTime}
variable {replayed other running : AddrInfo}

section

variable (same : SameState forever clock replayed running)
include same

theorem expired : replayed.expired forever now = running.expired forever now := by
  unfold AddrInfo.expired
  rw [same.allocTime, same.leaseTime]

theorem current_inuse (passes : clock ≤ now) :
    (replayed.current forever now).inuse = (running.inuse && !running.expired forever now) := by
  unfold AddrInfo.current
  rw [same.expired]
  cases inuse : running.inuse with
  | true => rw [same.inuse inuse]
  | false =>
    cases replayedInuse : replayed.inuse with
    | false => rfl
    | true =>
      rcases same.gone replayedInuse with stillInuse | runOut
      · rw [inuse] at stillInuse
        cases stillInuse
      · have past := UInt32.le_trans same.past passes
        rw [(expired_iff past).2 (runOut.later passes)]
        rfl

theorem restarted (rebuilt : SameState forever clock other running) (passes : clock ≤ now) :
    SameState forever now replayed (other.current forever now) := by
  have past := UInt32.le_trans same.past passes
  have inuse := rebuilt.current_inuse passes
  -- the lease of what is rebuilt is the running one's
  have runOut : running.RunOut forever now → (other.current forever now).RunOut forever now := by
    intro elapsed
    unfold AddrInfo.RunOut AddrInfo.current
    rw [rebuilt.allocTime, rebuilt.leaseTime]
    exact elapsed
  exact
    { freed := same.freed.trans rebuilt.freed.symm
      disabled := same.disabled.trans rebuilt.disabled.symm
      service := same.service.trans rebuilt.service.symm
      clientId := same.clientId.trans rebuilt.clientId.symm
      allocTime := same.allocTime.trans rebuilt.allocTime.symm
      leaseTime := same.leaseTime.trans rebuilt.leaseTime.symm
      freeTime := fun freed => by
        have runningFreed := rebuilt.freed.symm.trans freed
        exact (same.freeTime runningFreed).trans (rebuilt.freeTime runningFreed).symm
      inuse := fun current => by
        rw [inuse, and_eq_true] at current
        exact same.inuse current.1
      gone := fun replayedInuse => by
        rw [inuse]
        cases lasts : running.expired forever now with
        | true => exact .inr (runOut ((expired_iff past).1 lasts))
        | false =>
          rcases same.gone replayedInuse with stillInuse | elapsed
          · exact .inl (by simp [stillInuse])
          · exact .inr (runOut (elapsed.later passes))
      past := by
        show other.allocTime ≤ now
        rw [rebuilt.allocTime]
        exact past
      held := fun current => by
        rw [inuse, and_eq_true] at current
        exact rebuilt.freed.trans (rebuilt.held current.1)
      elapsed := fun allocated => by
        have was : running.service ≠ none := by
          rw [← rebuilt.service]
          exact allocated
        rw [inuse]
        rcases rebuilt.elapsed was with stillInuse | freed | elapsed
        · cases lasts : running.expired forever now with
          | true => exact .inr (.inr (runOut ((expired_iff past).1 lasts)))
          | false => exact .inl (by simp [stillInuse])
        · exact .inr (.inl (rebuilt.freed.trans freed))
        · exact .inr (.inr (runOut (elapsed.later passes)))
      identified := fun allocated => by
        show other.clientId ≠ []
        rw [rebuilt.clientId]
        apply rebuilt.identified
        rw [← rebuilt.service]
        exact allocated
      untouched := fun never => by
        have was : running.service = none := by
          rw [← rebuilt.service]
          exact never
        obtain ⟨gone, _⟩ := same.untouched was
        obtain ⟨_, freed, clientId, allocTime, leaseTime⟩ := rebuilt.untouched was
        exact ⟨gone, rebuilt.freed.trans freed,
          rebuilt.clientId.trans clientId, rebuilt.allocTime.trans allocTime,
          rebuilt.leaseTime.trans leaseTime⟩ }

end

end SameState

namespace Rebuildable

variable {forever clock now : AasTime}
variable {config : Configuration}
variable {server : Server}

/-- **Starting again** from the file keeps it rebuildable. -/
theorem restart {after : Server} (rebuildable : Rebuildable forever config server)
    (passes : server.clock ≤ now)
    (started : Server.restart forever config server.log now = some after) :
    Rebuildable forever config after := by
  obtain ⟨replayed, done, rfl⟩ := Option.map_eq_some_iff.1 started
  obtain ⟨replayed', info, done', orphans, infoIs, same⟩ := rebuildable.replays now
  rw [done, Option.some.injEq] at done'
  subst done'
  -- the pool of the server that a rebuilt pool stands for
  have ofPlace : ∀ (place : Nat) (pool : Pool), replayed.pools[place]? = some pool →
      ∃ running, server.pools[place]? = some running ∧
        running.toPoolConfig = pool.toPoolConfig := by
    intro place pool there
    have configured : config.pools[place]? = some pool.toPoolConfig := by
      rw [← infoIs.pools, List.getElem?_map, there]
      rfl
    rw [← rebuildable.pools, List.getElem?_map] at configured
    exact Option.map_eq_some_iff.1 configured
  have agrees : ∀ (place : Nat) (pool : Pool), replayed.pools[place]? = some pool →
      ∀ addr ∈ pool.addrs, ∃ running, SameState forever server.clock (pool.info addr) running := by
    intro place pool there addr member
    obtain ⟨running, runningAt, config⟩ := ofPlace place pool there
    rw [infoIs.info place pool there addr member]
    exact ⟨_, same place running runningAt addr
      (by rw [congrArg PoolConfig.addrs config]; exact member)⟩
  refine ⟨?_, ?_, ?_, ?_⟩
  · show (replayed.pools.map (Pool.setupAddressLists forever now)).map
      Pool.toPoolConfig = config.pools
    rw [← infoIs.pools, map_map]
    apply map_congr_left
    intro pool _
    exact (Pool.setupAddressLists_info forever now pool).2
  · intro pool member
    obtain ⟨before, found, rfl⟩ := mem_map.1 member
    obtain ⟨place, there⟩ := List.getElem?_of_mem found
    apply Pool.setupAddressLists_kept
    intro addr addrMember _
    obtain ⟨running, agree⟩ := agrees place before there addr addrMember
    rw [agree.allocTime]
    exact UInt32.le_trans agree.past passes
  · intro addrType
    show replayed.orphanage addrType = []
    rw [orphans]
  · intro later
    obtain ⟨replayed', info', done', orphans', infoIs', same'⟩ := rebuildable.replays later
    refine ⟨replayed', info', done', orphans', infoIs', ?_⟩
    intro place pool there addr member
    obtain ⟨before, beforeAt, rfl⟩ := Option.map_eq_some_iff.1
      ((List.getElem?_map).symm.trans there)
    obtain ⟨setupInfo, setupConfig⟩ := Pool.setupAddressLists_info forever now before
    rw [congrArg PoolConfig.addrs setupConfig] at member
    obtain ⟨running, runningAt, config⟩ := ofPlace place before beforeAt
    have inRunning : addr ∈ running.addrs := by
      rw [congrArg PoolConfig.addrs config]
      exact member
    rw [setupInfo]
    simp only
    rw [infoIs.info place before beforeAt addr member]
    exact (same' place running runningAt addr inRunning).restarted
      (same place running runningAt addr inRunning) passes

theorem fresh {startTime : AasTime} (started :
    Server.restart forever config [.init startTime] now = some server) :
    Rebuildable forever config server := by
  cases started
  refine ⟨?_, ?_, fun _ => rfl, ?_⟩
  · show (((config.pools.map PoolConfig.reset)).map
      (Pool.setupAddressLists forever now)).map Pool.toPoolConfig = config.pools
    rw [map_map, map_map]
    conv_rhs => rw [← map_id config.pools]
    apply map_congr_left
    intro pool _
    exact (Pool.setupAddressLists_info forever now pool.reset).2
  · intro pool member
    obtain ⟨before, found, rfl⟩ := mem_map.1 member
    obtain ⟨poolConfig, _, rfl⟩ := mem_map.1 found
    apply Pool.setupAddressLists_kept
    intro addr _ inuse
    cases inuse
  · intro later
    refine ⟨Server.configured config later, _, rfl, rfl, Server.configured_infoIs config later, ?_⟩
    intro place pool there addr member
    obtain ⟨before, found, rfl⟩ := mem_map.1 (mem_of_getElem? there)
    obtain ⟨poolConfig, _, rfl⟩ := mem_map.1 found
    rw [(Pool.setupAddressLists_info forever now poolConfig.reset).1]
    exact
      { freed := rfl
        disabled := rfl
        service := rfl
        clientId := rfl
        allocTime := rfl
        leaseTime := rfl
        freeTime := nofun
        inuse := nofun
        gone := nofun
        past := UInt32.zero_le
        held := nofun
        elapsed := fun allocated => absurd rfl allocated
        identified := fun allocated => absurd rfl allocated
        untouched := fun _ => ⟨rfl, rfl, rfl, rfl, rfl⟩ }

/-- **The file rebuilds the server**, at any later time. -/
theorem rebuilds (rebuildable : Rebuildable forever config server) (passes : server.clock ≤ now) :
    ∃ rebuilt, Server.restart forever config server.log now = some rebuilt ∧
      Forall₂ (Pool.SameStates forever now) server.pools rebuilt.pools := by
  obtain ⟨replayed, info, done, _, infoIs, same⟩ := rebuildable.replays now
  refine ⟨Server.setup forever server.log now replayed, ?_, ?_⟩
  · unfold Server.restart
    rw [done]
    rfl
  · have lengths : server.pools.length = replayed.pools.length := by
      have configured := rebuildable.pools.trans infoIs.pools.symm
      simpa using congrArg length configured
    apply forall₂_iff_get.2
    refine ⟨by simpa [Server.setup] using lengths, ?_⟩
    intro place inServer inRebuilt
    have inReplayed : place < replayed.pools.length := by
      rw [← lengths]
      exact inServer
    have rebuiltAt : (Server.setup forever server.log now replayed).pools.get ⟨place, inRebuilt⟩ =
        replayed.pools[place].setupAddressLists forever now := by
      simp [Server.setup]
    obtain ⟨setupInfo, setupConfig⟩ := Pool.setupAddressLists_info forever now replayed.pools[place]
    have config : replayed.pools[place].toPoolConfig = server.pools[place].toPoolConfig := by
      have configured := infoIs.pools.trans rebuildable.pools.symm
      have at' := congrArg (fun pools => pools[place]?) configured
      simpa [inReplayed, inServer] using at'
    have agrees : ∀ addr ∈ server.pools[place].addrs, SameState forever server.clock
        (replayed.pools[place].info addr) (server.pools[place].info addr) := by
      intro addr member
      have inPool : addr ∈ replayed.pools[place].addrs := by
        rw [congrArg PoolConfig.addrs config]
        exact member
      rw [infoIs.info place _ (List.getElem?_eq_getElem inReplayed) addr inPool]
      exact same place _ (List.getElem?_eq_getElem inServer) addr member
    rw [rebuiltAt]
    refine ⟨setupConfig.trans config, ?_, ?_, ?_, ?_, ?_⟩
    · intro addr member
      rw [setupInfo]
      exact (agrees addr member).current_inuse passes
    · intro addr member
      rw [setupInfo]
      exact (agrees addr member).freed
    · intro addr member
      rw [setupInfo]
      exact (agrees addr member).disabled
    · intro addr member
      rw [setupInfo]
      exact ⟨(agrees addr member).service, (agrees addr member).clientId⟩
    · intro addr member
      rw [setupInfo]
      exact ⟨(agrees addr member).allocTime, (agrees addr member).leaseTime,
        (agrees addr member).freeTime⟩

end Rebuildable

/-- **Restart equivalence.**  A server starts without data and handles requests,
and no address is disabled when one of them rewrites the file.  Then, at any later
time, its file rebuilds the state of every address. -/
theorem restart_rebuilds {forever startTime started now : AasTime} {config : Configuration}
    {server final : Server} {actions : List ServerAction}
    (starts : Server.restart forever config [.init startTime] started = some server)
    (run : Run (Guarded (Server.act forever config) rewritesEnabled) server actions final)
    (passes : final.clock ≤ now) :
    ∃ rebuilt, Server.restart forever config final.log now = some rebuilt ∧
      Forall₂ (Pool.SameStates forever now) final.pools rebuilt.pools := by
  have rebuildable : Rebuildable forever config final := by
    refine run.invariant ?_ (Rebuildable.fresh starts)
    rintro before action after kept ⟨acted, enabled⟩
    cases action with
    | request request calls =>
      obtain ⟨lasting, rfl⟩ := acted
      exact kept.handle lasting enabled
    | restart time => exact kept.restart (Server.left_le_later _ _) acted
  exact rebuildable.rebuilds passes

/-- System calls that succeed at a time; the file is too big, and is rewritten. -/
def rewritingCalls (now : AasTime) : Nat → Calls :=
  fun place => { sampleCalls now place with compress := some now }

/-- An address is allocated, and the file is rewritten: it rebuilds the state. -/
theorem restart_rebuilds_rewritten : ∃ server final rebuilt,
    Server.restart 0xffffffff sampleConfiguration [.init 5] 5 = some server ∧ Run
      (Guarded (Server.act 0xffffffff sampleConfiguration) rewritesEnabled) server
      [.request (sampleRequest [1]) (rewritingCalls 7)] final ∧
      Server.restart 0xffffffff sampleConfiguration final.log 9 = some rebuilt ∧
      Forall₂ (Pool.SameStates 0xffffffff 9) final.pools rebuilt.pools := by
  obtain ⟨server, started⟩ : ∃ server, Server.restart 0xffffffff sampleConfiguration [.init 5] 5 =
    some server := ⟨_, rfl⟩
  have enabled : server.NoneDisabled := by
    cases started
    rintro (_ | place) pool there addr member
    · cases there
      rfl
    · cases there
  have run : Run (Guarded (Server.act 0xffffffff sampleConfiguration) rewritesEnabled) server
      [.request (sampleRequest [1]) (rewritingCalls 7)]
      (server.handle 0xffffffff (rewritingCalls 7) (sampleRequest [1])).server :=
    .single ⟨⟨⟨rfl, by decide⟩, rfl⟩, fun _ => enabled⟩
  have passes : (server.handle 0xffffffff (rewritingCalls 7)
      (sampleRequest [1])).server.clock ≤ 9 := by
    cases started
    decide
  obtain ⟨rebuilt, restarts, same⟩ := restart_rebuilds started run passes
  exact ⟨server, _, rebuilt, started, run, restarts, same⟩

/-- **An address is disabled, and the file is rewritten**: after a restart it is
not disabled any more. -/
theorem rewriting_forgets_disabled :
    ¬ ∀ (server final rebuilt : Server) (actions : List ServerAction),
      Server.restart 0xffffffff sampleConfiguration [.init 5] 5 = some server →
        Run (Server.act 0xffffffff sampleConfiguration) server actions final →
        Server.restart 0xffffffff sampleConfiguration final.log 9 = some rebuilt →
        Forall₂ (Pool.SameStates 0xffffffff 9) final.pools rebuilt.pools := by
  intro equivalent
  obtain ⟨server, started⟩ : ∃ server, Server.restart 0xffffffff sampleConfiguration [.init 5] 5 =
    some server := ⟨_, rfl⟩
  have run : Run (Server.act 0xffffffff sampleConfiguration) server
      [.request (.disable [112] 1 [10, 0, 0, 1] true) (rewritingCalls 7)]
      (server.handle 0xffffffff (rewritingCalls 7) (.disable [112] 1 [10, 0, 0, 1] true)).server :=
    .single ⟨trivial, rfl⟩
  cases started
  have same := equivalent _ _ _ _ rfl run rfl
  cases same with
  | cons first rest =>
    have disabled := first.disabled [10, 0, 0, 1] (by decide)
    cases disabled

end Uw7.Aas.AddrDb
