import Mathlib.Order.ConditionallyCompleteLattice.Basic
import Mathlib.Data.Int.ConditionallyCompleteOrder
import Uw7.Lib.Run
import Uw7.Aas.Replay

namespace Uw7.Aas.AddrDb

open Uw7.Lib Function List Option

/-!
# Exclusive leases

The ledger is what clients have been told: a grant gives a client a lease of an
address, and a lease ends when its holder frees the address or when all addresses
of its service are freed.  The server never grants an address that the ledger
gives to another client while that lease lasts.
-/

/-- A lease that a client holds. -/
structure Lease where
  service : List UInt8
  clientId : List UInt8
  allocTime : AasTime
  leaseTime : AasTime

abbrev Ledger := Nat → AasAddr → Option Lease

def Lease.RunOut (forever now : AasTime) (lease : Lease) : Prop := lease.leaseTime ≠ forever ∧
    lease.allocTime.toNat + lease.leaseTime.toNat ≤ now.toNat

def freesAddr (addrType : Nat) (addr : AasAddr) (records : List Trans) : Bool :=
  records.any fun record =>
    match record with
    | .free _ freedType freed => freedType == addrType && freed == addr
    | _ => false

namespace Ledger

/-- A client is given a lease. -/
def grant (ledger : Ledger) (addrType : Nat) (addr : AasAddr) (lease : Lease) : Ledger :=
  update ledger addrType (update (ledger addrType) addr (some lease))

/-- Of the addresses that records free, the leases that satisfy a condition
end. -/
def clear (ledger : Ledger) (records : List Trans) (ends : Lease → Bool) : Ledger :=
  fun addrType addr =>
    (ledger addrType addr).filter fun lease =>
      !(freesAddr addrType addr records && ends lease)

/-- The ledger after a request that is answered at some time: only the holder, or
a request for its service, ends a lease. -/
def settle (now : AasTime) (ledger : Ledger) (reply : Reply) : Request → Ledger
  | .alloc _ request =>
    match reply.granted with
    | none => ledger
    | some (addrType, addr) =>
      ledger.grant addrType addr
        { service := request.service
          clientId := request.clientId
          allocTime := now
          leaseTime := request.leaseTime }
  | .free _ _ _ service clientId =>
    ledger.clear reply.records fun lease =>
      lease.service == service && lease.clientId == clientId
  | .freeAll _ service => ledger.clear reply.records fun lease => lease.service == service
  | .disable .. => ledger
  | .expire _ => ledger

end Ledger

def AddrInfo.Holds (info : AddrInfo) (lease : Lease) : Prop :=
  info.inuse = true ∧ info.service = some lease.service ∧
    info.clientId = lease.clientId ∧ info.allocTime = lease.allocTime ∧
    info.leaseTime = lease.leaseTime

/-- The information of the addresses records the leases that last. -/
def Respects (forever clock : AasTime) (addrs : List AasAddr) (leases : AasAddr → Option Lease)
    (info : AasAddr → AddrInfo) : Prop :=
  ∀ addr ∈ addrs, ∀ lease, leases addr = some lease →
    ¬ lease.RunOut forever clock → (info addr).Holds lease

/-- The server and the ledger: every pool is kept, no address is in two pools,
and the leases of the ledger that last are recorded. -/
structure Sound (forever : AasTime) (server : Server) (ledger : Ledger) : Prop where
  kept : ∀ pool ∈ server.pools, pool.Kept forever server.clock
  apart : server.pools.Pairwise fun first second =>
      first.atype.addrType = second.atype.addrType → ∀ addr ∈ first.addrs, addr ∉ second.addrs
  respects : ∀ pool ∈ server.pools, Respects forever server.clock pool.addrs
      (ledger pool.atype.addrType) pool.info

variable {forever clock now : AasTime}

theorem Lease.RunOut.later {lease : Lease} (runOut : lease.RunOut forever clock)
    (passes : clock ≤ now) :
    lease.RunOut forever now :=
  ⟨runOut.1, runOut.2.trans (UInt32.le_iff_toNat_le.1 passes)⟩

theorem AddrInfo.Holds.runOut {info : AddrInfo} {lease : Lease} (holds : info.Holds lease)
    (runOut : info.RunOut forever now) :
    lease.RunOut forever now := by
  obtain ⟨_, _, _, allocTime, leaseTime⟩ := holds
  obtain ⟨finite, elapsed⟩ := runOut
  rw [allocTime, leaseTime] at elapsed
  rw [leaseTime] at finite
  exact ⟨finite, elapsed⟩

namespace Respects

variable {addrs : List AasAddr}
variable {leases : AasAddr → Option Lease}
variable {info : AasAddr → AddrInfo}

theorem later (respects : Respects forever clock addrs leases info) (passes : clock ≤ now) :
    Respects forever now addrs leases info :=
  fun addr member lease held lasts =>
    respects addr member lease held fun runOut => lasts (runOut.later passes)

theorem expires {after : AasAddr → AddrInfo} (respects : Respects forever clock addrs leases info)
    (passes : clock ≤ now) (expired : Pool.Expires forever now info after) :
    Respects forever now addrs leases after := by
  intro addr member lease held lasts
  have holds := respects.later passes addr member lease held lasts
  rcases expired addr with same | ⟨runOut, _⟩
  · rw [same]
    exact holds
  · exact absurd (holds.runOut runOut) lasts

theorem grant (respects : Respects forever now addrs leases info) (addr : AasAddr)
    (request : AllocRequest) :
    Respects forever now addrs (update leases addr (some
      { request with
        allocTime := now
        leaseTime := request.leaseTime }))
      (update info addr (Pool.allocInfo (info addr) request now)) := by
  intro other member lease held lasts
  by_cases same : other = addr
  · subst same
    rw [update_self] at held ⊢
    cases held
    exact ⟨rfl, rfl, rfl, rfl, rfl⟩
  · rw [update_of_ne same] at held ⊢
    exact respects other member lease held lasts

theorem disable (respects : Respects forever now addrs leases info) (addr : AasAddr)
    (disabled : Bool) :
    Respects forever now addrs leases (update info addr
      { info addr with disabled := disabled }) := by
  intro other member lease held lasts
  have holds := respects other member lease held lasts
  by_cases same : other = addr
  · subst same
    rw [update_self]
    exact holds
  · rw [update_of_ne same]
    exact holds

end Respects

variable {addrType : Nat} {service : List UInt8} {after : AasAddr → AddrInfo} {records : List Trans}
  {addr : AasAddr} {info : AasAddr → AddrInfo} {addrs : List AasAddr}

theorem Pool.FreesAll.spec
    (frees : FreesAll addrs addrType now service info records after) (addr : AasAddr) :
    (freesAddr addrType addr records = true →
      (info addr).inuse = true ∧ (info addr).service = some service) ∧
      (freesAddr addrType addr records = false → after addr = info addr) := by
  induction frees with
  | nil info => exact ⟨by simp [freesAddr], fun _ => rfl⟩
  | @cons info after records freed member inuse allocated later ih =>
    by_cases same : freed = addr
    · subst same
      exact ⟨fun _ => ⟨inuse, allocated⟩, by simp [freesAddr]⟩
    · have further : freesAddr addrType addr (.free now addrType freed :: records) =
          freesAddr addrType addr records := by
        simp [freesAddr, same]
      rw [update_of_ne (Ne.symm same)] at ih
      rw [further]
      exact ih

theorem Pool.FreesAll.within
    (frees : FreesAll addrs addrType now service info records after) {freedType : Nat}
    (freed : freesAddr freedType addr records = true) :
    freedType = addrType ∧ addr ∈ addrs := by
  induction frees with
  | nil info => simp [freesAddr] at freed
  | cons member inuse allocated later ih =>
    simp only [freesAddr, any_cons, Bool.or_eq_true, Bool.and_eq_true, beq_iff_eq] at freed
    rcases freed with ⟨rfl, rfl⟩ | freed
    · exact ⟨rfl, member⟩
    · exact ih freed

variable {ledger : Ledger}

theorem Respects.freeAll (respects : Respects forever now addrs (ledger addrType) info)
    (frees : Pool.FreesAll addrs addrType now service info records after) :
    Respects forever now addrs
      (ledger.clear records (fun lease => lease.service == service) addrType)
      after := by
  intro addr member lease held lasts
  obtain ⟨before, remains⟩ := filter_eq_some_iff.1 held
  have holds := respects addr member lease before lasts
  obtain ⟨freed, same⟩ := frees.spec addr
  cases whether : freesAddr addrType addr records with
  | false =>
    rw [same whether]
    exact holds
  | true =>
    -- the lease would be that of the service
    have allocated := (freed whether).2.symm.trans holds.2.1
    rw [Option.some.injEq] at allocated
    simp [whether, allocated] at remains

theorem Respects.free {clientId : List UInt8}
    (respects : Respects forever now addrs (ledger addrType) info)
    (held : (info addr).heldBy service clientId = true) :
    Respects forever now addrs (ledger.clear [.free now addrType addr]
      (fun lease => lease.service == service && lease.clientId == clientId)
      addrType)
      (update info addr (Server.freeChange now (info addr))) := by
  intro other member lease remaining lasts
  obtain ⟨before, remains⟩ := filter_eq_some_iff.1 remaining
  have holds := respects other member lease before lasts
  by_cases same : other = addr
  · subst same
    simp only [AddrInfo.heldBy, Bool.and_eq_true, beq_iff_eq] at held
    have service := held.1.symm.trans holds.2.1
    have clientId := held.2.symm.trans holds.2.2.1
    rw [Option.some.injEq] at service
    simp [freesAddr, service, clientId] at remains
  · rw [update_of_ne same]
    exact holds

namespace Sound

variable {server : Server}
variable {ledger : Ledger}

section

variable (sound : Sound forever server ledger)
include sound

theorem later {after : Server} (pools : after.pools = server.pools)
    (passes : server.clock ≤ after.clock) :
    Sound forever after ledger := by
  refine ⟨?_, ?_, ?_⟩
  · rw [pools]
    exact fun pool member => (sound.kept pool member).later passes
  · rw [pools]
    exact sound.apart
  · rw [pools]
    exact fun pool member => (sound.respects pool member).later passes

theorem clear (records : List Trans) (ends : Lease → Bool) :
    Sound forever server (ledger.clear records ends) :=
  ⟨sound.kept, sound.apart, fun pool member addr addrMember lease held =>
    sound.respects pool member addr addrMember lease (filter_eq_some_iff.1 held).1⟩

theorem place_unique {first second : Nat} {firstPool secondPool : Pool}
    (firstAt : server.pools[first]? = some firstPool)
    (secondAt : server.pools[second]? = some secondPool)
    (sameType : firstPool.atype.addrType = secondPool.atype.addrType) {addr : AasAddr}
    (firstMember : addr ∈ firstPool.addrs) (secondMember : addr ∈ secondPool.addrs) :
    first = second := by
  obtain ⟨firstIn, rfl⟩ := List.getElem?_eq_some_iff.1 firstAt
  obtain ⟨secondIn, rfl⟩ := List.getElem?_eq_some_iff.1 secondAt
  have apart := pairwise_iff_getElem.1 sound.apart
  rcases Nat.lt_trichotomy first second with before | same | after
  · exact absurd secondMember (apart first second firstIn secondIn before sameType addr firstMember)
  · exact same
  · exact absurd firstMember (apart second first secondIn firstIn after sameType.symm addr
      secondMember)

theorem set {place : Nat} {pool pool' : Pool} (there : server.pools[place]? = some pool)
    {after : Server} {ledger' : Ledger} (pools : after.pools = server.pools.set place pool')
    (passes : server.clock ≤ after.clock) (kept : pool'.Kept forever after.clock)
    (config : pool'.toPoolConfig = pool.toPoolConfig)
    (respects : Respects forever after.clock pool.addrs (ledger' pool.atype.addrType) pool'.info)
    (outside : ∀ addrType addr, ¬ (addrType = pool.atype.addrType ∧ addr ∈ pool.addrs) →
      ledger' addrType addr = ledger addrType addr) :
    Sound forever after ledger' := by
  have placed := (List.getElem?_eq_some_iff.1 there).1
  have addrs : pool'.addrs = pool.addrs := congrArg PoolConfig.addrs config
  have atype : pool'.atype = pool.atype := congrArg PoolConfig.atype config
  -- every pool is the new one, or an old one at another place
  have cases' : ∀ other ∈ after.pools, other = pool' ∨
      ∃ index, index ≠ place ∧ server.pools[index]? = some other := by
    intro other member
    rw [pools] at member
    obtain ⟨index, there'⟩ := List.getElem?_of_mem member
    by_cases same : place = index
    · subst same
      rw [List.getElem?_set_self placed] at there'
      exact .inl (Option.some.inj there').symm
    · rw [List.getElem?_set_ne same] at there'
      exact .inr ⟨index, Ne.symm same, there'⟩
  refine ⟨?_, ?_, ?_⟩
  · intro other member
    rcases cases' other member with rfl | ⟨index, _, otherAt⟩
    · exact kept
    · exact (sound.kept other (mem_of_getElem? otherAt)).later passes
  · have same : after.pools.map Pool.toPoolConfig = server.pools.map Pool.toPoolConfig := by
      obtain ⟨_, rfl⟩ := List.getElem?_eq_some_iff.1 there
      rw [pools, map_set, config, ← map_set, set_getElem_self]
    have apart := sound.apart
    rw [← @List.pairwise_map _ _ Pool.toPoolConfig (fun first second =>
      first.atype.addrType = second.atype.addrType →
        ∀ addr ∈ first.addrs, addr ∉ second.addrs)] at apart ⊢
    rw [same]
    exact apart
  · intro other member
    rcases cases' other member with rfl | ⟨index, elsewhere, otherAt⟩
    · rw [addrs, atype]
      exact respects
    · intro addr addrMember lease held
      rw [outside] at held
      · exact (sound.respects other (mem_of_getElem? otherAt)).later
          passes addr addrMember lease held
      · rintro ⟨sameType, inPool⟩
        exact elsewhere (sound.place_unique otherAt there sameType addrMember inPool)

end

end Sound

namespace Server

theorem onPool_pools {forever : AasTime} {calls : Calls} {server : Server} {place : Nat}
    {operation : Calls → Pool → PoolReply} {pool : Pool}
    (there : server.pools[place]? = some pool) :
    (server.onPool forever calls place operation).server.pools = server.pools.set place
      (operation (server.readTimes calls) pool).pool ∧
      (server.readTimes calls).now ≤ (server.onPool forever calls place operation).server.clock ∧
      (server.onPool forever calls place operation).granted =
        ((operation (server.readTimes calls) pool).granted.map fun addr =>
          (pool.atype.addrType, addr)) ∧
      (server.onPool forever calls place operation).records =
        (operation (server.readTimes calls) pool).records := by
  obtain ⟨pools, later⟩ := compressDb_pools forever (server.readTimes calls)
    { server with
      pools := server.pools.set place (operation (server.readTimes calls) pool).pool
      log := server.log ++ (operation (server.readTimes calls) pool).records
      clock := (server.readTimes calls).now }
  unfold onPool
  simp only [there, and_true]
  split
  · exact ⟨pools, later⟩
  · exact ⟨rfl, UInt32.le_refl _⟩

end Server

namespace Sound

variable {server : Server}
variable {ledger : Ledger}

variable {place : Nat} {pool : Pool} {calls : Calls} {middle : AasAddr → AddrInfo}

section

variable (sound : Sound forever server ledger)
include sound

section

variable (there : server.pools[place]? = some pool)
include there

theorem kept_at : pool.Kept forever server.clock := sound.kept pool (mem_of_getElem? there)

theorem respects_middle {reply : PoolReply}
    (settled : Pool.Settled forever (server.readTimes calls) pool middle reply) :
    Respects forever (server.readTimes calls).now pool.addrs (ledger pool.atype.addrType) middle :=
  ((sound.respects pool (mem_of_getElem? there)).expires
    (server.readTimes_le calls).1 settled.expires).later (server.readTimes_le calls).2

theorem onPool {operation : Calls → Pool → PoolReply}
    (settled : Pool.Settled forever (server.readTimes calls) pool middle
      (operation (server.readTimes calls) pool)) {ledger' : Ledger}
    (respects : Respects forever (server.readTimes calls).now pool.addrs
      (ledger' pool.atype.addrType)
      (operation (server.readTimes calls) pool).pool.info)
    (outside : ∀ addrType addr, ¬ (addrType = pool.atype.addrType ∧ addr ∈ pool.addrs) →
      ledger' addrType addr = ledger addrType addr) :
    Sound forever (server.onPool forever calls place operation).server ledger' := by
  obtain ⟨pools, later, _, _⟩ :=
    @Server.onPool_pools forever calls server place operation pool there
  have passes : server.clock ≤ (server.onPool forever calls place operation).server.clock :=
    UInt32.le_trans (server.readTimes_le calls).1
      (UInt32.le_trans (server.readTimes_le calls).2 later)
  exact sound.set there pools passes (settled.kept.later later)
    settled.config (respects.later later) outside

end

theorem allocAddr (calls : Nat → Calls) (poolName : List UInt8) (request : AllocRequest) :
    Sound forever (server.handle forever calls (.alloc poolName request)).server
      (ledger.settle (server.readTimes (calls 0)).now
        (server.handle forever calls (.alloc poolName request))
        (.alloc poolName request)) ∧
      ∀ addrType addr lease, (server.handle forever calls (.alloc poolName request)).granted =
        some (addrType, addr) →
        ledger addrType addr = some lease →
        (lease.service = request.service ∧ lease.clientId = request.clientId) ∨
          lease.RunOut forever (server.readTimes (calls 0)).now := by
  simp only [Server.handle, Server.allocAddr]
  cases found : server.findPool poolName with
  | none => exact ⟨sound, by simp [Server.fails]⟩
  | some place =>
    simp only
    cases there : server.pools[place]? with
    | none =>
      have failed : server.onPool forever (calls 0) place
          (fun calls pool => pool.allocAddr forever calls request) =
          server.fails .unknownPool := by
        simp [Server.onPool, there]
      rw [failed]
      exact ⟨sound, by simp [Server.fails]⟩
    | some pool =>
      obtain ⟨reads, passes⟩ := server.readTimes_le (calls 0)
      obtain ⟨middle, settled, outcome⟩ := (sound.kept_at there).allocAddr reads passes request
      have before := sound.respects_middle there settled
      obtain ⟨_, _, granted, _⟩ := @Server.onPool_pools forever (calls 0) server place
        (fun calls pool => pool.allocAddr forever calls request) pool
        there
      rcases outcome with
        ⟨none, _, same⟩ | ⟨addr, member, some, held, info, _⟩
      · rw [none, map_none] at granted
        simp only [Ledger.settle, granted]
        refine ⟨?_, by simp⟩
        refine sound.onPool there settled ?_ (fun _ _ _ => rfl)
        rw [same]
        exact before
      · rw [some, map_some] at granted
        simp only [Ledger.settle, granted]
        refine ⟨?_, ?_⟩
        · refine sound.onPool there settled ?_ ?_
          · rw [info, Ledger.grant, update_self]
            exact before.grant addr request
          · intro addrType other elsewhere
            unfold Ledger.grant
            by_cases sameType : addrType = pool.atype.addrType
            · subst sameType
              have different : other ≠ addr := by
                rintro rfl
                exact elsewhere ⟨rfl, member⟩
              rw [update_self, update_of_ne different]
            · rw [update_of_ne sameType]
        · intro addrType other lease same holder
          obtain ⟨rfl, rfl⟩ := same
          by_cases runOut : lease.RunOut forever (server.readTimes (calls 0)).now
          · exact .inr runOut
          · -- the lease lasts, so its client is the one that is served
            have holds := before addr member lease holder runOut
            have client := held holds.1
            simp only [AddrInfo.heldBy, Bool.and_eq_true, beq_iff_eq] at client
            have service := holds.2.1.symm.trans client.1
            rw [Option.some.injEq] at service
            exact .inl ⟨service, holds.2.2.1.symm.trans client.2⟩

end

end Sound

theorem Ledger.clear_of_not_freed {records : List Trans} {ends : Lease → Bool}
    {addrType : Nat} {addr : AasAddr} (kept : freesAddr addrType addr records = false) :
    ledger.clear records ends addrType addr = ledger addrType addr := by
  simp only [Ledger.clear, kept, Bool.false_and, Bool.not_false]
  cases ledger addrType addr <;> rfl

theorem Ledger.clear_append (ledger : Ledger) (first second : List Trans) (ends : Lease → Bool) :
    (ledger.clear first ends).clear second ends = ledger.clear (first ++ second) ends := by
  funext addrType addr
  unfold Ledger.clear
  rw [Option.filter_filter]
  congr 1
  funext lease
  have either : freesAddr addrType addr (first ++ second) =
      (freesAddr addrType addr first || freesAddr addrType addr second) :=
    any_append
  rw [either]
  cases freesAddr addrType addr first with
  | false => simp
  | true => cases ends lease <;> simp

namespace Sound

variable {server : Server}
variable {ledger : Ledger}

section

variable (sound : Sound forever server ledger)
include sound

theorem freeDeletedAddr (calls : Calls) (addrType : Nat)
    (addr : AasAddr) (service clientId : List UInt8) (missing : Code) :
    Sound forever (server.freeDeletedAddr calls addrType addr service clientId
      missing).server ledger := by
  have orphan : ∀ atype (change : AddrInfo → AddrInfo),
      (server.updateOrphan atype addr change).pools = server.pools := by
    intro atype change
    unfold Server.updateOrphan
    split <;> rfl
  unfold Server.freeDeletedAddr
  split
  · exact sound
  split
  · exact sound
  split
  · exact sound
  split
  · exact sound
  · obtain ⟨reads, passes⟩ := server.readTimes_le calls
    exact sound.later (orphan _ _) (UInt32.le_trans reads passes)

theorem freeAddr (calls : Calls) (poolName : List UInt8)
    (addrType : Nat) (addr : AasAddr) (service clientId : List UInt8) :
    Sound forever (server.freeAddr forever calls poolName addrType addr service clientId).server
      (ledger.clear (server.freeAddr forever calls poolName addrType addr service
        clientId).records fun lease => lease.service == service && lease.clientId == clientId) := by
  unfold Server.freeAddr
  split
  · exact (sound.freeDeletedAddr _ _ _ _ _ _).clear _ _
  next place _ =>
    cases there : server.pools[place]? with
    | none => exact sound.clear _ _
    | some pool =>
      simp only
      split
      · exact (sound.freeDeletedAddr _ _ _ _ _ _).clear _ _
      split
      · exact sound.clear _ _
      split
      · exact (sound.freeDeletedAddr _ _ _ _ _ _).clear _ _
      next found finds =>
        obtain ⟨reads, passes⟩ := server.readTimes_le calls
        have member := Pool.poolSearch_mem finds
        obtain ⟨middle, settled, outcome⟩ :=
          (sound.kept_at there).freeAddr reads passes member service clientId
        have before := sound.respects_middle there settled
        obtain ⟨_, _, _, written⟩ := @Server.onPool_pools forever calls server place
          (fun calls pool => pool.freeAddr forever calls found service clientId)
          pool there
        rcases outcome with ⟨none, same⟩ | ⟨_, held, info, records⟩
        · apply Sound.clear
          refine sound.onPool there settled ?_ (fun _ _ _ => rfl)
          rw [same]
          exact before
        · rw [written, records]
          refine sound.onPool there settled ?_ ?_
          · rw [info]
            exact before.free held
          · intro otherType other elsewhere
            apply Ledger.clear_of_not_freed
            simp only [freesAddr, any_cons, any_nil,
              Bool.or_false, Bool.and_eq_false_iff, beq_eq_false_iff_ne]
            by_contra both
            push Not at both
            obtain ⟨rfl, rfl⟩ := both
            exact elsewhere ⟨rfl, member⟩

theorem freeAllAddrs (calls : Calls) (place : Nat)
    (service : List UInt8) :
    Sound forever (server.onPool forever calls place fun calls pool =>
      pool.freeAllAddrs forever calls service).server
      (ledger.clear (server.onPool forever calls place fun calls pool =>
        pool.freeAllAddrs forever calls service).records
        fun lease => lease.service == service) := by
  cases there : server.pools[place]? with
  | none =>
    have failed : (server.onPool forever calls place fun calls pool =>
        pool.freeAllAddrs forever calls service) =
        server.fails .unknownPool := by
      simp [Server.onPool, there]
    rw [failed]
    exact sound.clear _ _
  | some pool =>
    obtain ⟨reads, passes⟩ := server.readTimes_le calls
    obtain ⟨middle, settled, frees⟩ := (sound.kept_at there).freeAllAddrs reads passes service
    have before := sound.respects_middle there settled
    obtain ⟨_, _, _, written⟩ := @Server.onPool_pools forever calls server place
      (fun calls pool => pool.freeAllAddrs forever calls service) pool
      there
    rw [written]
    refine sound.onPool there settled (before.freeAll frees) ?_
    intro addrType addr elsewhere
    apply Ledger.clear_of_not_freed
    by_contra freed
    rw [Bool.not_eq_false] at freed
    exact elsewhere (frees.within freed)

theorem freeAllLoop {calls : Nat → Calls} {service : List UInt8} {places : List Nat} :
    Sound forever (server.freeAllLoop forever calls service places).server
      (ledger.clear (server.freeAllLoop forever calls service places).records
        fun lease => lease.service == service) := by
  induction places generalizing server ledger with
  | nil => exact sound.clear _ _
  | cons place rest ih =>
    have first := sound.freeAllAddrs (calls place) place service
    unfold Server.freeAllLoop
    simp only
    split
    · rw [← Ledger.clear_append]
      exact ih first
    · exact first

theorem disableAddr (calls : Calls) (poolName : List UInt8)
    (addrType : Nat) (addr : AasAddr) (disable : Bool) :
    Sound forever (server.disableAddr forever calls poolName addrType addr
      disable).server ledger := by
  unfold Server.disableAddr
  split
  · exact sound
  next place _ =>
    cases there : server.pools[place]? with
    | none =>
      simp only [Server.onPool, there]
      exact sound
    | some pool =>
      obtain ⟨reads, passes⟩ := server.readTimes_le calls
      obtain ⟨settled, outcome⟩ := (sound.kept_at there).disableAddr reads passes addrType addr
        disable
      have before := sound.respects_middle there settled
      refine sound.onPool there settled ?_ (fun _ _ _ => rfl)
      rcases outcome with ⟨_, _, same⟩ | ⟨_, info, _⟩
      · rw [same]
        exact before
      · rw [info]
        exact before.disable addr disable

theorem expireAddresses (calls : Calls) (place : Nat) :
    Sound forever (server.expireAddresses forever calls place).server
      ledger := by
  unfold Server.expireAddresses
  cases there : server.pools[place]? with
  | none =>
    simp only [Server.onPool, there]
    exact sound
  | some pool =>
    obtain ⟨reads, passes⟩ := server.readTimes_le { calls with compress := none }
    obtain ⟨kept, config, expires, _⟩ := (sound.kept_at there).expireAddresses reads
    have settled : Pool.Settled forever (server.readTimes { calls with compress := none }) pool
        (pool.expireAddresses forever (server.readTimes
          { calls with compress := none }).expireTime).info
        { code := .ok
          granted := none
          pool := pool.expireAddresses forever (server.readTimes
            { calls with compress := none }).expireTime
          records := [] } :=
      ⟨kept.later passes, config, expires⟩
    exact sound.onPool there settled (sound.respects_middle there settled) (fun _ _ _ => rfl)

theorem handle (calls : Nat → Calls) (request : Request) :
    Sound forever (server.handle forever calls request).server
      (ledger.settle (server.readTimes (calls 0)).now
        (server.handle forever calls request) request) := by
  cases request with
  | alloc poolName request => exact (sound.allocAddr calls poolName request).1
  | free poolName addrType addr service clientId =>
    exact sound.freeAddr (calls 0) poolName addrType addr service clientId
  | freeAll poolName service =>
    simp only [Server.handle, Server.freeAll, Ledger.settle]
    cases poolName with
    | none => exact sound.freeAllLoop
    | some name =>
      simp only
      split
      · exact sound.clear _ _
      · exact sound.freeAllLoop
  | disable poolName addrType addr disable =>
    exact sound.disableAddr (calls 0) poolName addrType addr disable
  | expire place => exact sound.expireAddresses (calls 0) place

end

end Sound

def AddrInfo.lease? (info : AddrInfo) : Option Lease :=
  if info.inuse then
    info.service.map fun service =>
      { service := service
        clientId := info.clientId
        allocTime := info.allocTime
        leaseTime := info.leaseTime }
  else none

/-- The leases that the server has when it starts. -/
def Ledger.ofServer (server : Server) : Ledger := fun addrType addr =>
    (server.pools.find? fun pool =>
      pool.atype.addrType == addrType && pool.addrs.contains addr).bind
        fun pool => (pool.info addr).lease?

theorem Sound.restart {config : Configuration} {log : List Trans} {server : Server}
    (before : Server.AllocatedBefore now log)
    (started : Server.restart forever config log now = some server) :
    Sound forever server (Ledger.ofServer server) := by
  obtain ⟨pools, clock, kept⟩ := Server.restart_kept before started
  have apart : server.pools.Pairwise fun first second =>
      first.atype.addrType = second.atype.addrType → ∀ addr ∈ first.addrs, addr ∉ second.addrs := by
    have configured := config.apart
    rw [← pools, pairwise_map] at configured
    exact configured
  refine ⟨by rw [clock]; exact kept, apart, ?_⟩
  intro pool member addr addrMember lease held _
  obtain ⟨found, finds, leased⟩ := bind_eq_some_iff.1 held
  -- the pool that is found is the one that has the address
  have same : found = pool := by
    have foundMember := List.mem_of_find?_eq_some finds
    have matching := List.find?_some finds
    simp only [Bool.and_eq_true, beq_iff_eq, contains_iff_mem] at matching
    by_contra different
    obtain ⟨first, firstAt⟩ := getElem_of_mem foundMember
    obtain ⟨second, secondAt⟩ := getElem_of_mem member
    obtain ⟨firstIn, rfl⟩ := firstAt
    obtain ⟨secondIn, rfl⟩ := secondAt
    have pairwise := pairwise_iff_getElem.1 apart
    rcases Nat.lt_trichotomy first second with less | rfl | more
    · exact pairwise first second firstIn secondIn less matching.1 addr matching.2 addrMember
    · exact different rfl
    · exact pairwise second first secondIn firstIn more matching.1.symm addr addrMember matching.2
  subst same
  obtain ⟨inuse, leased⟩ := ite_none_right_eq_some.1 leased
  obtain ⟨service, allocated, rfl⟩ := map_eq_some_iff.1 leased
  exact ⟨inuse, allocated, rfl, rfl, rfl⟩

/-- The server, and what its clients have been told. -/
structure Dealings where
  server : Server
  ledger : Ledger

/-- The server handles a request. -/
def Dealings.step (forever : AasTime) (before : Dealings) (action : Request × (Nat → Calls))
    (after : Dealings) : Prop :=
  after.server = (before.server.handle forever action.2 action.1).server ∧ after.ledger =
      before.ledger.settle (before.server.readTimes (action.2 0)).now
        (before.server.handle forever action.2 action.1) action.1

/-- The lists of a pool: each address of the pool is on exactly one of them, once,
and the addresses in use, which are counted, come in the order of their remaining
leases, infinite leases last. -/
structure Pool.WellListed (forever : AasTime) (pool : Pool) : Prop where
  sorted : ∀ now, pool.inuseList.Pairwise fun first second =>
      (pool.info first).remaining forever now ≤ (pool.info second).remaining forever now
  once : ∀ addr, pool.inuseList.count addr + pool.availList.count addr =
      if addr ∈ pool.addrs then 1 else 0
  counted : pool.numAlloc = pool.inuseList.length

theorem Pool.Kept.wellListed {pool : Pool} (kept : pool.Kept forever clock) :
    pool.WellListed forever := by
  refine ⟨?_, ?_, kept.counted⟩
  · intro now
    apply kept.ordered.imp
    exact fun noLater => remaining_le_iff.2 noLater
  · intro addr
    rw [← count_append, kept.placed.count_eq addr]
    split
    · next member => exact count_eq_one_of_mem pool.nodup_addrs member
    · next absent => exact count_eq_zero_of_not_mem absent

/-- A pool of two addresses. -/
def samplePool : PoolConfig where
  name := [112]
  atype := atypeInet
  addrs := [[10, 0, 0, 1], [10, 0, 0, 2]]
  sorted := by decide
  valid := by decide

def sampleConfiguration : Configuration where
  pools := [samplePool]
  known := by
    intro pool member
    rw [mem_singleton.1 member]
    rfl
  apart := pairwise_singleton _ _

/-- A request for any address of the pool, for a minute. -/
def sampleRequest (clientId : List UInt8) : Request := .alloc [112]
    { addrType := 1
      reqAddr := []
      minAddr := []
      maxAddr := []
      specific := false
      preferPrev := false
      temp := false
      leaseTime := 60
      service := [115]
      clientId := clientId }

/-- System calls that succeed at a time. -/
def sampleCalls (now : AasTime) : Nat → Calls := fun _ =>
    { expireTime := now
      now := now
      search := true
      put := true
      write := fun _ => true
      compress := none }

/-- **Exclusive leases.**  In every run of a server that starts from a file, the
lists of every pool are in order, and no request is granted an address of which the
ledger gives another client a lease, unless that lease has run out. -/
theorem leases_exclusive {config : Configuration} {log : List Trans} {server : Server}
    {actions : List (Request × (Nat → Calls))} {final : Dealings}
    (before : Server.AllocatedBefore now log)
    (started : Server.restart forever config log now = some server)
    (run : Run (Dealings.step forever) ⟨server, Ledger.ofServer server⟩ actions final) :
    (∀ pool ∈ final.server.pools, pool.WellListed forever) ∧
      ∀ poolName request calls addrType addr lease, (final.server.handle forever calls
        (.alloc poolName request)).granted = some (addrType, addr) →
        final.ledger addrType addr = some lease →
        (lease.service = request.service ∧ lease.clientId = request.clientId) ∨
          lease.RunOut forever (final.server.readTimes (calls 0)).now := by
  have sound : Sound forever final.server final.ledger := by
    refine @Run.invariant _ _ _ _ _ _ (fun dealings : Dealings =>
      Sound forever dealings.server dealings.ledger) ?_ ?_ run
    · rintro before' action after kept ⟨servers, ledgers⟩
      rw [servers, ledgers]
      exact kept.handle action.2 action.1
    · exact Sound.restart before started
  refine ⟨fun pool member => (sound.kept pool member).wellListed, ?_⟩
  intro poolName request calls addrType addr lease granted held
  exact (sound.allocAddr calls poolName request).2 addrType addr lease granted held

/-- One client is given an address, and the lease is in the ledger: no other client
is granted the address within the minute. -/
theorem leases_exclusive_oneGrant : ∃ server final,
    Server.restart 0xffffffff sampleConfiguration [.init 5] 5 = some server ∧
      Run (Dealings.step 0xffffffff) ⟨server, Ledger.ofServer server⟩
        [(sampleRequest [1], sampleCalls 7)] final ∧
      (final.ledger 1 [10, 0, 0, 1]).isSome = true ∧
      (∀ pool ∈ final.server.pools, pool.WellListed 0xffffffff) ∧
      ∀ poolName request calls addrType addr lease, (final.server.handle 0xffffffff calls
        (.alloc poolName request)).granted = some (addrType, addr) →
        final.ledger addrType addr = some lease →
        (lease.service = request.service ∧ lease.clientId = request.clientId) ∨
          lease.RunOut 0xffffffff (final.server.readTimes (calls 0)).now := by
  have before : Server.AllocatedBefore 5 [.init 5] := by
    intro record member
    rw [mem_singleton.1 member]
    exact trivial
  obtain ⟨server, started⟩ : ∃ server, Server.restart 0xffffffff sampleConfiguration [.init 5] 5 =
    some server := ⟨_, rfl⟩
  have run : Run (Dealings.step 0xffffffff) ⟨server, Ledger.ofServer server⟩
      [(sampleRequest [1], sampleCalls 7)]
      ⟨(server.handle 0xffffffff (sampleCalls 7) (sampleRequest [1])).server,
        (Ledger.ofServer server).settle (server.readTimes (sampleCalls 7 0)).now
          (server.handle 0xffffffff (sampleCalls 7) (sampleRequest [1]))
          (sampleRequest [1])⟩ :=
    .single ⟨rfl, rfl⟩
  refine ⟨server, _, started, run, ?_, leases_exclusive before started run⟩
  cases started
  rfl

end Uw7.Aas.AddrDb
