import Mathlib.Data.List.Sort
import Uw7.Lib.BinarySearch

namespace Uw7.Aas.AddrDb

open Uw7.Lib Function

/-!
# The address database

Each pool keeps its addresses in a sorted array, and the information about an
address is on one of two lists: the addresses in use, in order of expiration, and
the available ones, in order of their last use.  A side index leads from a client
to the address it had last.  The information of an address is known here by the
address, since no address is in a pool twice.  `forever` is `AAS_FOREVER`.
-/

/-- A time or a duration, in seconds. -/
abbrev AasTime := UInt32

/-- The bytes of an address. -/
abbrev AasAddr := List UInt8

/-- What a request returns. -/
inductive Code where
  | ok
  | unknownPool
  | wrongAddrType
  | badAddress
  | badLeaseTime
  | noAddress
  | serverError
  | noAddrsAvail
  | noSuchAddr
  | notAllocated
  | incorrectId
deriving DecidableEq

structure AddressType where
  addrType : Nat
  compare : AasAddr → AasAddr → Ordering
  validate : AasAddr → Bool
  ordered : Std.TransCmp compare
  separates : ∀ first second, validate first → validate second →
      compare first second = .eq → first = second

/-- `inet_compare` is `memcmp` on four bytes. -/
def inetCompare : AasAddr → AasAddr → Ordering := compareOn fun addr => addr.take 4

def inetValidate (addr : AasAddr) : Bool := addr.length == 4

theorem inetCompare_separates (first second : AasAddr) (firstValid : inetValidate first)
    (secondValid : inetValidate second) (same : inetCompare first second = .eq) :
    first = second := by
  simp only [inetValidate, beq_iff_eq] at firstValid secondValid
  have taken : first.take 4 = second.take 4 := Std.LawfulEqOrd.eq_of_compare same
  rwa [List.take_of_length_le (by omega), List.take_of_length_le (by omega)] at taken

def atypeInet : AddressType where
  addrType := 1
  compare := inetCompare
  validate := inetValidate
  ordered := inferInstanceAs (Std.TransCmp (compareOn _))
  separates := inetCompare_separates

def addressTypes : Nat → Option AddressType
  | 1 => some atypeInet
  | _ => none

structure AddrInfo where
  inuse : Bool
  freed : Bool
  temp : Bool
  disabled : Bool
  service : Option (List UInt8)
  clientId : List UInt8
  allocTime : AasTime
  leaseTime : AasTime
  freeTime : AasTime
deriving DecidableEq

/-- The information about an address that was never allocated. -/
def AddrInfo.unused : AddrInfo where
  inuse := false
  freed := false
  temp := false
  disabled := false
  service := none
  clientId := []
  allocTime := 0
  leaseTime := 0
  freeTime := 0

/-- A record of the transaction file. -/
inductive Trans where
  | init (startTime : AasTime)
  | alloc (allocTime leaseTime : AasTime) (addrType : Nat) (addr : AasAddr)
      (service clientId : List UInt8)
  | free (freeTime : AasTime) (addrType : Nat) (addr : AasAddr)
  | disable (disable : Bool) (addrType : Nat) (addr : AasAddr)
deriving DecidableEq

/-- What the configuration says about a pool; the addresses are sorted. -/
structure PoolConfig where
  name : List UInt8
  atype : AddressType
  addrs : List AasAddr
  sorted : addrs.Pairwise fun first second =>
    atype.compare first second = .lt
  valid : ∀ addr ∈ addrs, atype.validate addr = true

/-- A pool: the array, the information of its addresses, the two lists from head
to tail, and the side index. -/
structure Pool extends PoolConfig where
  info : AasAddr → AddrInfo
  numAlloc : Int
  inuseList : List AasAddr
  availList : List AasAddr
  id2addr : List UInt8 → Option AasAddr

/-- The calls of one request: the times that are read, and which calls succeed. -/
structure Calls where
  expireTime : AasTime
  now : AasTime
  search : Bool
  put : Bool
  write : AasAddr → Bool
  compress : Option AasTime

/-- What a request to a pool returns, does and writes. -/
structure PoolReply where
  code : Code
  granted : Option AasAddr
  pool : Pool
  records : List Trans

/-- A request for an address; an empty address is one that is not given. -/
structure AllocRequest where
  addrType : Nat
  reqAddr : AasAddr
  minAddr : AasAddr
  maxAddr : AasAddr
  specific : Bool
  preferPrev : Bool
  temp : Bool
  leaseTime : AasTime
  service : List UInt8
  clientId : List UInt8

def expired (forever allocTime leaseTime now : AasTime) : Bool :=
  leaseTime != forever && decide (leaseTime ≤ now - allocTime)

def AddrInfo.expired (forever now : AasTime) (info : AddrInfo) : Bool :=
  AddrDb.expired forever info.allocTime info.leaseTime now

def AddrInfo.heldBy (service clientId : List UInt8) (info : AddrInfo) : Bool :=
  info.service == some service && info.clientId == clientId

/-- The address is in use by another client, or disabled. -/
def AddrInfo.refused (service clientId : List UInt8) (info : AddrInfo) : Bool :=
  (info.inuse && !info.heldBy service clientId) || info.disabled

/-- The key of a client in the side index: the service, its terminator, and the
client id. -/
def idKey (service clientId : List UInt8) : List UInt8 := service ++ 0 :: clientId

namespace Pool

def poolSearch (pool : Pool) (addr : AasAddr) : Option AasAddr :=
  (binarySearch (pool.atype.compare addr) pool.addrs).1

def listDelete (pool : Pool) (addr : AasAddr) : Pool :=
  { pool with
    inuseList := pool.inuseList.erase addr
    availList := pool.availList.erase addr }

/-- The address becomes available, at the tail of the list. -/
def release (pool : Pool) (addr : AasAddr) (info : AddrInfo) : Pool :=
  { pool with
    info := update pool.info addr { info with inuse := false }
    numAlloc := pool.numAlloc - 1
    inuseList := pool.inuseList.erase addr
    availList := pool.availList.erase addr ++ [addr] }

def expireLoop (forever now : AasTime) : List AasAddr → Pool → Pool
  | [], pool => pool
  | addr :: rest, pool =>
    if (pool.info addr).expired forever now then
      expireLoop forever now rest (pool.release addr (pool.info addr))
    else pool

def expireAddresses (forever now : AasTime) (pool : Pool) : Pool :=
  expireLoop forever now pool.inuseList pool

def freeIt (pool : Pool) (addr : AasAddr) (freeTime : AasTime) : Pool := pool.release addr
    { pool.info addr with freed := true, freeTime := freeTime }

/-- `id_search`, when the index can be read. -/
def idSearch (pool : Pool) (service clientId : List UInt8) : Option AasAddr :=
  (pool.id2addr (idKey service clientId)).bind pool.poolSearch

/-- The place for a finite lease, looked for from the tail of the in-use list,
which is given in that order. -/
def insertBackward (forever : AasTime) (info : AasAddr → AddrInfo) (allocTime leaseTime : AasTime)
    (addr : AasAddr) : List AasAddr → List AasAddr
  | [] => [addr]
  | other :: earlier =>
    if (info other).leaseTime = forever then
      other :: insertBackward forever info allocTime leaseTime addr earlier
    else if (info other).leaseTime ≤ allocTime - (info other).allocTime then
      -- the expired addresses are reached
      addr :: other :: earlier
    else if (info other).leaseTime - (allocTime - (info other).allocTime) ≤ leaseTime then
      addr :: other :: earlier
    else
      other :: insertBackward forever info allocTime leaseTime addr earlier

/-- The address goes on the in-use list, which is kept in order of
expiration. -/
def insertInuse (forever : AasTime) (pool : Pool) (addr : AasAddr)
    (allocTime leaseTime : AasTime) : Pool :=
  { pool with
    inuseList :=
      if leaseTime = forever then pool.inuseList ++ [addr]
      else
        (insertBackward forever pool.info allocTime leaseTime addr pool.inuseList.reverse).reverse }

def allocInfo (info : AddrInfo) (request : AllocRequest) (allocTime : AasTime) : AddrInfo :=
  { info with
    inuse := true
    freed := info.inuse && info.freed
    temp := request.temp
    service := some request.service
    clientId := request.clientId
    allocTime := allocTime
    leaseTime := request.leaseTime }

/-- The address is marked as allocated, and counted if it was not in use. -/
def setAllocated (pool : Pool) (addr : AasAddr) (request : AllocRequest)
    (allocTime : AasTime) : Pool :=
  { pool with
    info := update pool.info addr (allocInfo (pool.info addr) request allocTime)
    numAlloc :=
      if (pool.info addr).inuse then pool.numAlloc else pool.numAlloc + 1 }

/-- The side index leads from the client to the address. -/
def indexClient (pool : Pool) (service clientId : List UInt8) (addr : AasAddr) : Pool :=
  { pool with
    id2addr := update pool.id2addr (idKey service clientId) (some addr) }

/-- `allocate`.  A temporary allocation is not recorded. -/
def allocate (forever : AasTime) (calls : Calls) (pool : Pool) (addr : AasAddr)
    (allocTime : AasTime) (request : AllocRequest) : Bool × Pool × List Trans :=
  if !calls.put then (false, pool, [])
  else if !request.temp && !calls.write addr then
    (false, pool.indexClient request.service request.clientId addr, [])
  else
    (true, (((pool.indexClient request.service request.clientId addr).setAllocated
        addr request allocTime).listDelete addr).insertInuse forever addr
          allocTime request.leaseTime,
      if request.temp then []
      else
        [.alloc allocTime request.leaseTime pool.atype.addrType addr
          request.service request.clientId])

/-- The address lies within the range of the request. -/
def inRange (pool : Pool) (request : AllocRequest) (addr : AasAddr) : Bool :=
  (request.minAddr.isEmpty || pool.atype.compare addr request.minAddr != .lt) &&
    (request.maxAddr.isEmpty || pool.atype.compare addr request.maxAddr != .gt)

/-- The address that the client had last, unless it is refused or out of
range. -/
def currentAddr (pool : Pool) (request : AllocRequest) : Option AasAddr :=
  (pool.idSearch request.service request.clientId).filter fun addr =>
    !(pool.info addr).refused request.service request.clientId && pool.inRange request addr

/-- The requested address, if it is given and may be had; with
`AAS_ALLOC_SPECIFIC` it is an error that it may not. -/
def requestedAddr (pool : Pool) (request : AllocRequest) : Except Code (Option AasAddr) :=
  if request.reqAddr.isEmpty then .ok none
  else
    match pool.poolSearch request.reqAddr with
    | some addr =>
      if (pool.info addr).refused request.service request.clientId then
        if request.specific then .error .noAddrsAvail else .ok none
      else .ok (some addr)
    | none => if request.specific then .error .noSuchAddr else .ok none

/-- The first available address that is not disabled and within range. -/
def firstAvail (pool : Pool) (request : AllocRequest) : Option AasAddr :=
  pool.availList.find? fun addr =>
    !(pool.info addr).disabled && pool.inRange request addr

def chooseAddr (pool : Pool) (request : AllocRequest) : Except Code AasAddr :=
  match pool.currentAddr request, request.preferPrev || request.reqAddr.isEmpty with
  | some cur, true => .ok cur
  | cur, _ =>
    match pool.requestedAddr request with
    | .error code => .error code
    | .ok (some req) => .ok req
    | .ok none =>
      match cur with
      | some cur => .ok cur
      | none =>
        match pool.firstAvail request with
        | some addr => .ok addr
        | none => .error .noAddrsAvail

/-- A request that fails leaves the pool as it is now. -/
def fails (pool : Pool) (code : Code) : PoolReply where
  code := code
  granted := none
  pool := pool
  records := []

/-- An address of a request is not given, or it is valid. -/
def acceptable (pool : Pool) (addr : AasAddr) : Bool := addr.isEmpty || pool.atype.validate addr

def allocAddr (forever : AasTime) (calls : Calls) (pool : Pool)
    (request : AllocRequest) : PoolReply :=
  if pool.atype.addrType ≠ request.addrType then pool.fails .wrongAddrType
  else if !(pool.acceptable request.reqAddr && pool.acceptable request.minAddr &&
      pool.acceptable request.maxAddr) then
    pool.fails .badAddress
  else if request.leaseTime = 0 then pool.fails .badLeaseTime
  else if request.specific && request.reqAddr.isEmpty then
    pool.fails .noAddress
  else
    let pool := pool.expireAddresses forever calls.expireTime
    if !calls.search then pool.fails .serverError
    else
      match pool.chooseAddr request with
      | .error code => pool.fails code
      | .ok addr =>
        match pool.allocate forever calls addr calls.now request with
        | (false, pool, _) => pool.fails .serverError
        | (true, pool, records) =>
          { code := .ok
            granted := some addr
            pool := pool
            records := records }

def freeAddr (forever : AasTime) (calls : Calls) (pool : Pool) (addr : AasAddr)
    (service clientId : List UInt8) : PoolReply :=
  let pool := pool.expireAddresses forever calls.expireTime
  if !(pool.info addr).inuse then pool.fails .notAllocated
  else if !(pool.info addr).heldBy service clientId then
    pool.fails .incorrectId
  else if !calls.write addr then pool.fails .serverError
  else
    { code := .ok
      granted := none
      pool := pool.freeIt addr calls.now
      records := [.free calls.now pool.atype.addrType addr] }

/-- The loop of `free_all_addrs`, over what is left of the in-use list. -/
def freeLoop (calls : Calls) (service : List UInt8) : List AasAddr → Pool → PoolReply
  | [], pool =>
    { code := .ok
      granted := none
      pool := pool
      records := [] }
  | addr :: rest, pool =>
    if (pool.info addr).service ≠ some service then
      freeLoop calls service rest pool
    else if !calls.write addr then pool.fails .serverError
    else
      let reply := freeLoop calls service rest (pool.freeIt addr calls.now)
      { reply with
        records := .free calls.now pool.atype.addrType addr :: reply.records }

def freeAllAddrs (forever : AasTime) (calls : Calls) (pool : Pool)
    (service : List UInt8) : PoolReply :=
  let pool := pool.expireAddresses forever calls.expireTime
  freeLoop calls service pool.inuseList pool

def disableAddr (calls : Calls) (pool : Pool) (addrType : Nat) (addr : AasAddr)
    (disable : Bool) : PoolReply :=
  if pool.atype.addrType ≠ addrType then pool.fails .wrongAddrType
  else if !pool.atype.validate addr then pool.fails .badAddress
  else
    match pool.poolSearch addr with
    | none => pool.fails .noSuchAddr
    | some found =>
      if !calls.write found then pool.fails .serverError
      else
        { code := .ok
          granted := none
          pool :=
            { pool with
              info := update pool.info found { pool.info found with disabled := disable } }
          records := [.disable disable pool.atype.addrType found] }

end Pool

end Uw7.Aas.AddrDb
