import Uw7.Aas.AddrDb

namespace Uw7.Aas.AddrDb

open Uw7.Lib

/-!
# The address server

The server keeps its pools, the orphanage of allocated addresses that are in no
pool, and the live transaction file.  A request changes them and writes records;
`config` rebuilds them from the file.
-/

/-- An allocated address that is in no pool. -/
structure Orphan where
  addr : AasAddr
  info : AddrInfo

/-- The server; `clock` is the latest time that it has read. -/
structure Server where
  pools : List Pool
  orphanage : Nat → List Orphan
  log : List Trans
  clock : AasTime

/-- What a request returns, does and writes. -/
structure Reply where
  code : Code
  granted : Option (Nat × AasAddr)
  records : List Trans
  server : Server

/-- An entry of the global address index. -/
structure AddrLoc where
  pool : Nat
  addr : AasAddr

def addrTypeCodes : List Nat := [1]

/-- `inuse_compare`: the time to expiration, infinite leases last. -/
def inuseCompare (forever compareTime : AasTime) (first second : AddrInfo) : Ordering :=
  if first.leaseTime = forever then
    if second.leaseTime = forever then .eq else .gt
  else if second.leaseTime = forever then .lt
  else
    compare (first.leaseTime - (compareTime - first.allocTime))
      (second.leaseTime - (compareTime - second.allocTime))

def AddrInfo.sinceUse (compareTime : AasTime) (info : AddrInfo) : AasTime :=
  if info.freed then compareTime - info.freeTime
  else (compareTime - info.allocTime) - info.leaseTime

/-- `avail_compare`: addresses that were never allocated come first, then the
longer time since the last use, and then the addresses themselves. -/
def availCompare (compareTime : AasTime) (pool : Pool) (first second : AasAddr) : Ordering :=
  match (pool.info first).service, (pool.info second).service with
  | none, none => pool.atype.compare first second
  | none, some _ => .lt
  | some _, none => .gt
  | some _, some _ =>
    (compare ((pool.info second).sinceUse compareTime)
      ((pool.info first).sinceUse compareTime)).then
        (pool.atype.compare first second)

/-- One entry of the side index as `setup_address_lists` makes it: of two
addresses of one client the one that was allocated most recently is kept. -/
def Pool.indexAddr (now : AasTime) (pool : Pool) (addr : AasAddr) : Pool :=
  match (pool.info addr).service with
  | none => pool
  | some service =>
    match pool.id2addr (idKey service (pool.info addr).clientId) with
    | none => pool.indexClient service (pool.info addr).clientId addr
    | some other =>
      match pool.poolSearch other with
      | none => pool.indexClient service (pool.info addr).clientId addr
      | some other =>
        if now - (pool.info addr).allocTime < now - (pool.info other).allocTime then
          pool.indexClient service (pool.info addr).clientId addr
        else pool

/-- An address that is marked as in use may have expired. -/
def AddrInfo.current (forever now : AasTime) (info : AddrInfo) : AddrInfo :=
  { info with inuse := info.inuse && !info.expired forever now }

def Pool.setupAddressLists (forever now : AasTime) (pool : Pool) : Pool :=
  let info := fun addr => (pool.info addr).current forever now
  let inuse := (pool.addrs.filter fun addr => (info addr).inuse).insertionSort fun first second =>
      inuseCompare forever now (info first) (info second) ≠ .gt
  let avail := (pool.addrs.filter fun addr => !(info addr).inuse).insertionSort fun first second =>
      availCompare now { pool with info := info } first second ≠ .gt
  pool.addrs.foldl (Pool.indexAddr now)
    { pool with
      info := info
      numAlloc := inuse.length
      inuseList := inuse
      availList := avail
      id2addr := fun _ => none }

/-- What the configuration file says: no address is in two pools. -/
structure Configuration where
  pools : List PoolConfig
  known : ∀ pool ∈ pools, addressTypes pool.atype.addrType = some pool.atype
  apart : pools.Pairwise fun first second =>
      first.atype.addrType = second.atype.addrType → ∀ addr ∈ first.addrs, addr ∉ second.addrs

def PoolConfig.reset (config : PoolConfig) : Pool :=
  { config with
    info := fun _ => .unused
    numAlloc := 0
    inuseList := []
    availList := []
    id2addr := fun _ => none }

namespace Server

/-- The entries of the global index of an address type. -/
def addrLocs (server : Server) (addrType : Nat) : List AddrLoc :=
  server.pools.zipIdx.flatMap fun entry =>
    if entry.1.atype.addrType = addrType then
      entry.1.addrs.map fun addr => ⟨entry.2, addr⟩
    else []

def globalIndexSearch (server : Server) (atype : AddressType) (addr : AasAddr) : Option AddrLoc :=
  (binarySearch (fun loc => atype.compare addr loc.addr)
    ((server.addrLocs atype.addrType).insertionSort fun first second =>
      atype.compare first.addr second.addr ≠ .gt)).1

def orphanageSearch (server : Server) (atype : AddressType)
    (addr : AasAddr) : Option Orphan × Nat :=
  binarySearch (fun orphan => atype.compare addr orphan.addr) (server.orphanage atype.addrType)

def updateInfo (server : Server) (loc : AddrLoc) (change : AddrInfo → AddrInfo) : Server :=
  { server with
    pools := server.pools.modify loc.pool fun pool =>
        { pool with
          info := Function.update pool.info loc.addr (change (pool.info loc.addr)) } }

def setOrphans (server : Server) (addrType : Nat) (orphans : List Orphan) : Server :=
  { server with
    orphanage := Function.update server.orphanage addrType orphans }

def updateOrphan (server : Server) (atype : AddressType) (addr : AasAddr)
    (change : AddrInfo → AddrInfo) : Server :=
  match server.orphanageSearch atype addr with
  | (none, _) => server
  | (some orphan, place) =>
    server.setOrphans atype.addrType ((server.orphanage atype.addrType).set place
        { orphan with info := change orphan.info })

def orphanageAdd (server : Server) (atype : AddressType) (addr : AasAddr) : Server :=
  match server.orphanageSearch atype addr with
  | (some _, _) => server
  | (none, place) =>
    server.setOrphans atype.addrType
      ((server.orphanage atype.addrType).insertIdx place ⟨addr, .unused⟩)

/-- The information of an address, in a pool or in the orphanage, changes; an
address about which nothing is known is passed over. -/
def change (server : Server) (atype : AddressType) (addr : AasAddr)
    (change : AddrInfo → AddrInfo) : Server :=
  match server.globalIndexSearch atype addr with
  | some loc => server.updateInfo loc change
  | none => server.updateOrphan atype addr change

/-- What an allocation record says about its address. -/
def allocChange (allocTime leaseTime : AasTime) (service clientId : List UInt8)
    (info : AddrInfo) : AddrInfo :=
  { info with
    inuse := true
    freed := false
    service := some service
    clientId := clientId
    allocTime := allocTime
    leaseTime := leaseTime }

/-- What a free record says about its address. -/
def freeChange (freeTime : AasTime) (info : AddrInfo) : AddrInfo :=
  { info with
    inuse := false
    freed := true
    freeTime := freeTime }

/-- The address of a record, of a known type, is valid. -/
def recordType (addrType : Nat) (addr : AasAddr) : Option AddressType :=
  (addressTypes addrType).filter fun atype =>
    !addr.isEmpty && atype.validate addr

def procAllocTrans (forever now : AasTime) (server : Server) (allocTime leaseTime : AasTime)
    (addrType : Nat) (addr : AasAddr) (service clientId : List UInt8) : Option Server :=
  if clientId.isEmpty then none
  else
    (recordType addrType addr).map fun atype =>
      match server.globalIndexSearch atype addr with
      | some loc => server.updateInfo loc (allocChange allocTime leaseTime service clientId)
      | none =>
        if expired forever allocTime leaseTime now then server
        else
          (server.orphanageAdd atype addr).updateOrphan atype addr
            (allocChange allocTime leaseTime service clientId)

def procFreeTrans (server : Server) (freeTime : AasTime) (addrType : Nat)
    (addr : AasAddr) : Option Server :=
  (recordType addrType addr).map fun atype =>
    server.change atype addr (freeChange freeTime)

def procDisableTrans (server : Server) (disable : Bool) (addrType : Nat)
    (addr : AasAddr) : Option Server :=
  (recordType addrType addr).map fun atype =>
    server.change atype addr fun info => { info with disabled := disable }

/-- One record of the file. -/
def procTrans (forever now : AasTime) (server : Server) : Trans → Option Server
  | .init _ => none
  | .alloc allocTime leaseTime addrType addr service clientId =>
    server.procAllocTrans forever now allocTime leaseTime addrType addr service clientId
  | .free freeTime addrType addr => server.procFreeTrans freeTime addrType addr
  | .disable disable addrType addr => server.procDisableTrans disable addrType addr

def replayTrans (forever now : AasTime) (server : Server) : List Trans → Option Server
  | .init _ :: records => records.foldlM (procTrans forever now) server
  | _ => none

/-- The server as `config` starts to build it. -/
def configured (config : Configuration) (now : AasTime) : Server where
  pools := config.pools.map PoolConfig.reset
  orphanage := fun _ => []
  log := []
  clock := now

/-- The lists of each pool are set up, and the file is the live one. -/
def setup (forever : AasTime) (log : List Trans) (now : AasTime) (server : Server) : Server :=
  { server with
    pools := server.pools.map (Pool.setupAddressLists forever now)
    log := log
    clock := now }

/-- `config`: the file is replayed, and the lists of each pool are set up. -/
def restart (forever : AasTime) (config : Configuration) (log : List Trans)
    (now : AasTime) : Option Server :=
  ((configured config now).replayTrans forever now log).map (setup forever log now)

def writeAddressInfo (addrType : Nat) (addr : AasAddr) (info : AddrInfo) : List Trans :=
  match info.service with
  | none => []
  | some service =>
    .alloc info.allocTime info.leaseTime addrType addr service info.clientId ::
      if info.freed then [.free info.freeTime addrType addr] else []

def writePool (pool : Pool) : List Trans := pool.addrs.flatMap fun addr =>
    writeAddressInfo pool.atype.addrType addr (pool.info addr)

/-- The records of an orphan that is still in use. -/
def writeOrphan (forever now : AasTime) (addrType : Nat) (orphan : Orphan) : List Trans :=
  if (orphan.info.current forever now).inuse then
    writeAddressInfo addrType orphan.addr orphan.info
  else []

def writeState (forever now : AasTime) (server : Server) : List Trans := .init now ::
    (server.pools.flatMap writePool ++ addrTypeCodes.flatMap fun addrType =>
        (server.orphanage addrType).flatMap (writeOrphan forever now addrType))

/-- `compress_db`, which rewrites the file when it is too big. -/
def compressDb (forever : AasTime) (calls : Calls) (server : Server) : Server :=
  match calls.compress with
  | none => server
  | some time =>
    { server with
      orphanage := fun addrType =>
        (server.orphanage addrType).map fun orphan =>
          { orphan with
            info := orphan.info.current forever (max server.clock time) }
      log := server.writeState forever (max server.clock time)
      clock := max server.clock time }

/-- The times that a request reads: time does not go back. -/
def readTimes (server : Server) (calls : Calls) : Calls :=
  { calls with
    expireTime := max server.clock calls.expireTime
    now := max (max server.clock calls.expireTime) calls.now }

/-- A request that fails before it does anything. -/
def fails (server : Server) (code : Code) : Reply where
  code := code
  granted := none
  records := []
  server := server

def findPool (server : Server) (name : List UInt8) : Option Nat :=
  server.pools.findIdx? fun pool => pool.name == name

/-- A request to the pool at a place; if it succeeds, the file is compressed if
necessary. -/
def onPool (forever : AasTime) (calls : Calls) (server : Server) (place : Nat)
    (operation : Calls → Pool → PoolReply) : Reply :=
  match server.pools[place]? with
  | none => server.fails .unknownPool
  | some pool =>
    let calls := server.readTimes calls
    let reply := operation calls pool
    let after :=
      { server with
        pools := server.pools.set place reply.pool
        log := server.log ++ reply.records
        clock := calls.now }
    { code := reply.code
      granted := reply.granted.map fun addr => (pool.atype.addrType, addr)
      records := reply.records
      server :=
        if reply.code = .ok then after.compressDb forever calls
        else after }

def allocAddr (forever : AasTime) (calls : Calls) (server : Server) (poolName : List UInt8)
    (request : AllocRequest) : Reply :=
  match server.findPool poolName with
  | none => server.fails .unknownPool
  | some place =>
    server.onPool forever calls place fun calls pool =>
      pool.allocAddr forever calls request

def freeDeletedAddr (calls : Calls) (server : Server) (addrType : Nat) (addr : AasAddr)
    (service clientId : List UInt8) (missing : Code) : Reply :=
  match addressTypes addrType with
  | none => server.fails missing
  | some atype =>
    match server.orphanageSearch atype addr with
    | (none, _) => server.fails missing
    | (some orphan, _) =>
      if !orphan.info.heldBy service clientId then
        server.fails .incorrectId
      else if !orphan.info.temp && !calls.write addr then
        server.fails .serverError
      else
        let records :=
          if orphan.info.temp then []
          else [.free (server.readTimes calls).now addrType addr]
        { code := .ok
          granted := none
          records := records
          server :=
            { server.updateOrphan atype addr (freeChange (server.readTimes calls).now) with
              log := server.log ++ records
              clock := (server.readTimes calls).now } }

def freeAddr (forever : AasTime) (calls : Calls) (server : Server) (poolName : List UInt8)
    (addrType : Nat) (addr : AasAddr) (service clientId : List UInt8) : Reply :=
  match server.findPool poolName with
  | none => server.freeDeletedAddr calls addrType addr service clientId .unknownPool
  | some place =>
    match server.pools[place]? with
    | none => server.fails .unknownPool
    | some pool =>
      if pool.atype.addrType ≠ addrType then
        server.freeDeletedAddr calls addrType addr service clientId .wrongAddrType
      else if !pool.atype.validate addr then server.fails .badAddress
      else
        match pool.poolSearch addr with
        | none => server.freeDeletedAddr calls addrType addr service clientId .noSuchAddr
        | some found =>
          server.onPool forever calls place fun calls pool =>
            pool.freeAddr forever calls found service clientId

/-- `free_all_addrs` on each of the pools, until one fails. -/
def freeAllLoop (forever : AasTime) (calls : Nat → Calls)
    (service : List UInt8) : List Nat → Server → Reply
  | [], server =>
    { code := .ok
      granted := none
      records := []
      server := server }
  | place :: rest, server =>
    let reply := server.onPool forever (calls place) place
      fun calls pool => pool.freeAllAddrs forever calls service
    if reply.code = .ok then
      let later := freeAllLoop forever calls service rest reply.server
      { later with records := reply.records ++ later.records }
    else reply

def freeAll (forever : AasTime) (calls : Nat → Calls) (server : Server)
    (poolName : Option (List UInt8)) (service : List UInt8) : Reply :=
  match poolName with
  | none => freeAllLoop forever calls service (List.range server.pools.length) server
  | some name =>
    match server.findPool name with
    | none => server.fails .unknownPool
    | some place => freeAllLoop forever calls service [place] server

def disableAddr (forever : AasTime) (calls : Calls) (server : Server) (poolName : List UInt8)
    (addrType : Nat) (addr : AasAddr) (disable : Bool) : Reply :=
  match server.findPool poolName with
  | none => server.fails .unknownPool
  | some place =>
    server.onPool forever calls place fun calls pool =>
      pool.disableAddr calls addrType addr disable

def expireAddresses (forever : AasTime) (calls : Calls) (server : Server) (place : Nat) : Reply :=
  server.onPool forever { calls with compress := none } place fun calls pool =>
      { code := .ok
        granted := none
        pool := pool.expireAddresses forever calls.expireTime
        records := [] }

theorem left_le_later (first second : AasTime) : first ≤ max first second := by
  show first ≤ if first ≤ second then second else first
  split
  case isTrue le => exact le
  case isFalse => exact UInt32.le_refl _

theorem readTimes_le (server : Server) (calls : Calls) :
    server.clock ≤ (server.readTimes calls).expireTime ∧
      (server.readTimes calls).expireTime ≤ (server.readTimes calls).now :=
  ⟨left_le_later _ _, left_le_later _ _⟩

theorem compressDb_pools (forever : AasTime) (calls : Calls) (server : Server) :
    (server.compressDb forever calls).pools = server.pools ∧
      server.clock ≤ (server.compressDb forever calls).clock := by
  unfold compressDb
  split
  · exact ⟨rfl, UInt32.le_refl _⟩
  · exact ⟨rfl, left_le_later _ _⟩

end Server

/-- A request to the server. -/
inductive Request where
  | alloc (poolName : List UInt8) (request : AllocRequest)
  | free (poolName : List UInt8) (addrType : Nat) (addr : AasAddr) (service clientId : List UInt8)
  | freeAll (poolName : Option (List UInt8)) (service : List UInt8)
  | disable (poolName : List UInt8) (addrType : Nat) (addr : AasAddr) (disable : Bool)
  | expire (place : Nat)

def Server.handle (forever : AasTime) (calls : Nat → Calls) (server : Server) : Request → Reply
  | .alloc poolName request => server.allocAddr forever (calls 0) poolName request
  | .free poolName addrType addr service clientId =>
    server.freeAddr forever (calls 0) poolName addrType addr service clientId
  | .freeAll poolName service => server.freeAll forever calls poolName service
  | .disable poolName addrType addr disable =>
    server.disableAddr forever (calls 0) poolName addrType addr disable
  | .expire place => server.expireAddresses forever (calls 0) place

end Uw7.Aas.AddrDb
