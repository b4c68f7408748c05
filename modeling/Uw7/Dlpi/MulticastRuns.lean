import Uw7.Dlpi.MulticastRequests
import Uw7.Lib.Run

namespace Uw7.Dlpi

/-!
# Multicast bookkeeping over runs

A close gives up the addresses of its stream chain by chain.  With the requests and
acknowledgements this makes every guarded run keep the table, the card and the
streams together.
-/

open Lib Function List

variable {maxsaps : Nat}

/-- The ioctls of a closing stream were sent, unless a request is at the driver. -/
structure AfterClosing (cmds : List MacCmd) (cp cp' : McaCard maxsaps) : Prop where
  same : cp' =
      { cp with
        dlpiIocblk := cp'.dlpiIocblk
        sent := cp'.sent
        onCard := cp'.onCard }
  requests : ∀ ioctl, ioctl.mp ≠ none → (ioctl ∈ cp'.sent ↔ ioctl ∈ cp.sent)
  places : cp'.sent.filterMap MacIoctl.mp = cp.sent.filterMap MacIoctl.mp
  busy : ∀ mp, cp'.dlpiIocblk = .request mp ↔ cp.dlpiIocblk = .request mp
  onCard : ∀ addr, cp'.onCard addr = cp.onCard addr ∧
      ((∃ mp, cp.dlpiIocblk = .request mp) ∨ .delmca addr ∉ cmds) ∨
      cp'.onCard addr = false ∧ .delmca addr ∈ cmds

section Closing

variable {cp cp' middle : McaCard maxsaps} {sp : Fin maxsaps} {cmd : MacCmd} {cmds : List MacCmd}
  {enabled : Fin maxsaps → MacAddr → Bool} {allEnabled : Fin maxsaps → Bool}

theorem AfterClosing.refl : AfterClosing [] cp cp :=
  ⟨rfl, fun _ _ => Iff.rfl, rfl, fun _ => Iff.rfl, fun addr => by simp⟩

theorem afterClosing_sendClosing (deletes : ∀ addr, cmd ≠ .setmca addr) :
    AfterClosing [cmd] cp (cp.sendClosing sp cmd) := by
  unfold McaCard.sendClosing
  split
  · next mp isBusy =>
      exact ⟨rfl, fun _ _ => Iff.rfl, rfl, fun _ => Iff.rfl,
        fun addr => .inl ⟨rfl, .inl ⟨mp, isBusy⟩⟩⟩
  · next notBusy =>
      refine ⟨rfl, ?_, ?_, ?_, ?_⟩
      · intro ioctl isRequest
        simp only [McaCard.send, mem_append, mem_singleton]
        refine ⟨fun either => either.resolve_right fun same => ?_, .inl⟩
        exact isRequest (same ▸ rfl)
      · simp [McaCard.send]
      · intro mp
        constructor
        · intro isClosing
          cases isClosing
        · exact fun isBusy => absurd isBusy (notBusy mp)
      · intro addr
        cases cmd with
        | setmca other => exact absurd rfl (deletes other)
        | delmca other =>
          by_cases same : addr = other
          · right
            simp [McaCard.send, same]
          · left
            simp [McaCard.send, same]
        | setallmca | delallmca => exact .inl ⟨rfl, .inr (by simp)⟩

theorem AfterClosing.cons (first : AfterClosing [cmd] cp middle)
    (others : AfterClosing cmds middle cp') :
    AfterClosing (cmd :: cmds) cp cp' where
  same := by rw [others.same, first.same]
  requests := by
    intro ioctl isRequest
    rw [others.requests ioctl isRequest, first.requests ioctl isRequest]
  places := others.places.trans first.places
  busy := fun mp => (others.busy mp).trans (first.busy mp)
  onCard := by
    intro addr
    have isBusy : (∃ mp, middle.dlpiIocblk = .request mp) ↔ ∃ mp, cp.dlpiIocblk = .request mp :=
      exists_congr first.busy
    rcases others.onCard addr with ⟨same, stays⟩ | ⟨isGone, isDeleted⟩
    · rcases first.onCard addr with ⟨sameFirst, staysFirst⟩ | ⟨isGone, isDel⟩
      · left
        refine ⟨same.trans sameFirst, ?_⟩
        rw [isBusy] at stays
        rcases staysFirst with busy | notFirst
        · exact .inl busy
        · refine stays.imp id fun notOthers => ?_
          rw [mem_cons, not_or]
          exact ⟨fun equal => notFirst (by simp [equal]), notOthers⟩
      · right
        refine ⟨same.trans isGone, ?_⟩
        rw [mem_singleton.mp isDel]
        exact mem_cons_self
    · exact .inr ⟨isGone, mem_cons_of_mem cmd isDeleted⟩

theorem afterClosing_foldl (deletes : ∀ cmd ∈ cmds, ∀ addr, cmd ≠ .setmca addr) :
    AfterClosing cmds cp (cmds.foldl (McaCard.sendClosing sp) cp) := by
  induction cmds generalizing cp with
  | nil => exact .refl
  | cons cmd rest ih =>
    exact (afterClosing_sendClosing (deletes cmd mem_cons_self)).cons (ih fun other inRest =>
      deletes other (mem_cons_of_mem cmd inRest))

theorem AfterClosing.without (closed : AfterClosing cmds cp cp') (cmd : MacCmd) :
    cp'.without cmd ↔ cp.without cmd := by
  constructor <;> intro noneIs ioctl isSent isRequest
  · exact noneIs ioctl ((closed.requests ioctl isRequest).mpr isSent) isRequest
  · exact noneIs ioctl ((closed.requests ioctl isRequest).mp isSent) isRequest

/-- What a close relies on while it clears the table. -/
structure ClosingKept (sp : Fin maxsaps) (enabled : Fin maxsaps → MacAddr → Bool)
    (allEnabled : Fin maxsaps → Bool)
    (cp : McaCard maxsaps) : Prop where
  kept : McaKept enabled allEnabled cp
  requests : ∀ ioctl ∈ cp.sent, ioctl.mp ≠ none → ioctl.sp = sp →
      (∃ addr, ioctl.cmd = .delmca addr) ∨ ioctl.cmd = .delallmca
  deleting : ∀ mp addr, cp.dlpiIocblk = .request mp →
      tableSaps cp.mcahashtbl addr = [sp] → ¬ cp.without (.delmca addr)

theorem ClosingKept.afterClosing (closing : ClosingKept sp enabled allEnabled cp)
    (after : AfterClosing cmds cp cp') (noAddr : ∀ addr, MacCmd.delmca addr ∉ cmds) :
    ClosingKept sp enabled allEnabled cp' := by
  obtain ⟨kept, requests, deleting⟩ := closing
  have sameCard : cp'.onCard = cp.onCard := by
    funext addr
    rcases after.onCard addr with ⟨same, _⟩ | ⟨_, isDel⟩
    · exact same
    · exact absurd isDel (noAddr addr)
  have without : ∀ cmd, cp'.without cmd ↔ cp.without cmd := after.without
  refine ⟨⟨?_, ?_, ?_, ?_, ?_, ?_, ?_, ?_, ?_⟩, ?_, ?_⟩
  · rw [after.same]
    exact kept.lists
  · rw [after.same]
    exact kept.isOpen
  · rw [after.same]
    exact kept.all
  · rw [after.same]
    exact kept.cardAll
  · intro addr noSet noDel
    rw [without] at noSet noDel
    rw [sameCard, after.same]
    exact kept.onCard addr noSet noDel
  · rw [after.places]
    exact kept.single
  · intro ioctl isSent isRequest
    have wasSent := (after.requests ioctl isRequest).mp isSent
    refine (kept.outstanding ioctl wasSent isRequest).congr (fun addr _ => ?_)
      (fun isOpen => ?_) fun _ tsp _ notAll => ?_
    · rw [sameCard, after.same]
      exact ⟨rfl, rfl⟩
    · rw [after.same]
      exact isOpen
    · rw [after.same]
      exact notAll
  · have sameRequests : cp'.requests = cp.requests := by rw [after.same]
    rw [sameRequests]
    refine kept.answered.congr fun place => ?_
    cases place with
    | outstanding => exact after.places
    | answered =>
      unfold McaCard.held
      rw [after.same]
  · rw [after.same]
    exact kept.fault
  · intro ioctl isSent isRequest
    exact requests ioctl ((after.requests ioctl isRequest).mp isSent) isRequest
  · intro mp addr busy alone
    rw [without]
    rw [after.busy] at busy
    rw [after.same] at alone
    exact deleting mp addr busy alone

theorem erase_eq_nil {saps : List (Fin maxsaps)} (notAlone : saps ≠ [sp]) :
    saps.erase sp = [] ↔ saps = [] := by
  constructor
  · intro isNil
    rcases erase_eq_nil_iff.mp isNil with empty | alone
    · exact empty
    · exact absurd alone notAlone
  · intro isNil
    rw [isNil]
    rfl

section

variable (closing : ClosingKept sp enabled allEnabled cp)
include closing

/-- One chain gives up a closing stream. -/
theorem ClosingKept.clearHash (hsh : Nat) :
    ClosingKept sp (forgetHash enabled sp hsh) allEnabled (McaCard.clearHash sp cp hsh) ∧
      (McaCard.clearHash sp cp hsh).enabled = cp.enabled ∧
      (McaCard.clearHash sp cp hsh).allEnabled = cp.allEnabled := by
  obtain ⟨kept, requests, deleting⟩ := closing
  obtain ⟨chain', deleted, isCleared, lists, saps, gone⟩ := kept.lists.clear sp hsh
  have cleared : ∃ cp' : McaCard maxsaps, McaCard.clearHash sp cp hsh = cp' ∧
      AfterClosing (deleted.map .delmca)
        { cp with
          mcahashtbl := update cp.mcahashtbl hsh chain' } cp' := by
    refine ⟨_, rfl, ?_⟩
    unfold McaCard.clearHash
    rw [isCleared]
    refine afterClosing_foldl fun cmd isDel addr isSet => ?_
    rw [isSet] at isDel
    simp at isDel
  obtain ⟨cp', isAfter, after⟩ := cleared
  rw [isAfter]
  have isDeleted : ∀ addr, MacCmd.delmca addr ∈ deleted.map MacCmd.delmca ↔
      dlpiHsh addr 6 = hsh ∧ tableSaps cp.mcahashtbl addr = [sp] := by
    intro addr
    rw [← gone addr]
    simp
  have sameTable : cp'.mcahashtbl = update cp.mcahashtbl hsh chain' := by rw [after.same]
  have without : ∀ cmd, cp'.without cmd ↔ cp.without cmd := after.without
  have isBusy : ∀ mp, cp'.dlpiIocblk = .request mp ↔ cp.dlpiIocblk = .request mp := after.busy
  have notAlone : ∀ addr, cp'.onCard addr = cp.onCard addr → ((∃ mp, cp.dlpiIocblk = .request mp) ∨
      MacCmd.delmca addr ∉ deleted.map MacCmd.delmca) →
      cp.without (.delmca addr) →
      (tableSaps cp'.mcahashtbl addr = [] ↔ tableSaps cp.mcahashtbl addr = []) := by
    intro addr _ stays noDel
    rw [sameTable, saps]
    split_ifs with sameHash
    · refine erase_eq_nil fun alone => ?_
      rcases stays with ⟨mp, busy⟩ | notDeleted
      · exact deleting mp addr busy alone noDel
      · exact notDeleted ((isDeleted addr).mpr ⟨sameHash, alone⟩)
    · rfl
  refine ⟨⟨⟨?_, ?_, ?_, ?_, ?_, ?_, ?_, ?_, ?_⟩, ?_, ?_⟩, ?_, ?_⟩
  · rw [sameTable]
    exact lists
  · intro other closed
    rw [after.same] at closed
    obtain ⟨noAll, nothing⟩ := kept.isOpen other closed
    exact ⟨noAll, fun addr => by simp [forgetHash, nothing addr]⟩
  · intro other
    rw [after.same]
    exact kept.all other
  · intro other
    rw [after.same]
    exact kept.cardAll other
  · intro addr noSet noDel
    rw [without] at noSet noDel
    rcases after.onCard addr with ⟨same, stays⟩ | ⟨isGone, isDel⟩
    · rw [same, ne_eq, notAlone addr same stays noDel]
      exact kept.onCard addr noSet noDel
    · obtain ⟨sameHash, alone⟩ := (isDeleted addr).mp isDel
      rw [isGone, sameTable, saps, if_pos sameHash, alone]
      simp
  · rw [after.places]
    exact kept.single
  · intro ioctl isSent isRequest
    have wasSent := (after.requests ioctl isRequest).mp isSent
    have out := kept.outstanding ioctl wasSent isRequest
    cases isCmd : ioctl.cmd with
    | setmca addr =>
      rw [isCmd] at out
      obtain ⟨isNil, isSet, isOpen⟩ := out
      refine ⟨?_, ?_, ?_⟩
      · rw [sameTable, saps, isNil]
        simp
      · rcases after.onCard addr with ⟨same, _⟩ | ⟨_, isDel⟩
        · exact same.trans isSet
        · rw [((isDeleted addr).mp isDel).2] at isNil
          cases isNil
      · rw [after.same]
        exact isOpen
    | delmca addr =>
      rw [isCmd] at out
      obtain ⟨isSingle, notSet⟩ := out
      refine ⟨?_, ?_⟩
      · rw [sameTable, saps]
        split_ifs
        · rcases isSingle with isNil | isSingle
          · simp [isNil]
          · rw [isSingle]
            by_cases isClosing : ioctl.sp = sp
            · simp [isClosing]
            · right
              exact erase_of_not_mem (by simpa using Ne.symm isClosing)
        · exact isSingle
      · rcases after.onCard addr with ⟨same, _⟩ | ⟨isGone, _⟩
        · exact same.trans notSet
        · exact isGone
    | setallmca | delallmca =>
      rw [isCmd] at out
      rw [after.same]
      exact out
  · have sameRequests : cp'.requests = cp.requests := by rw [after.same]
    rw [sameRequests]
    refine kept.answered.congr fun place => ?_
    cases place with
    | outstanding => exact after.places
    | answered =>
      unfold McaCard.held
      rw [after.same]
  · rw [after.same]
    exact kept.fault
  · intro ioctl isSent isRequest
    exact requests ioctl ((after.requests ioctl isRequest).mp isSent) isRequest
  · intro mp addr busy alone
    rw [without]
    rw [isBusy] at busy
    rw [sameTable, saps] at alone
    split_ifs at alone
    · have absent : sp ∉ (tableSaps cp.mcahashtbl addr).erase sp :=
        (kept.lists.nodup addr).not_mem_erase
      rw [alone] at absent
      exact absurd (mem_singleton_self sp) absent
    · exact deleting mp addr busy alone
  · rw [after.same]
  · rw [after.same]

theorem ClosingKept.foldl (hashes : List Nat) :
    ∃ enabled' : Fin maxsaps → MacAddr → Bool, ClosingKept sp enabled' allEnabled
      (hashes.foldl (McaCard.clearHash sp) cp) ∧
      (∀ other addr, enabled' other addr =
        if other = sp ∧ dlpiHsh addr 6 ∈ hashes then false
        else enabled other addr) ∧
      (hashes.foldl (McaCard.clearHash sp) cp).enabled = cp.enabled ∧
      (hashes.foldl (McaCard.clearHash sp) cp).allEnabled = cp.allEnabled := by
  induction hashes generalizing cp enabled with
  | nil => exact ⟨enabled, closing, fun _ _ => by simp, rfl, rfl⟩
  | cons hsh rest ih =>
    obtain ⟨closingNext, sameEnabled, sameAll⟩ := closing.clearHash hsh
    obtain ⟨enabled', closed, forgets, still, stillAll⟩ := ih closingNext
    refine ⟨enabled', closed, ?_, still.trans sameEnabled, stillAll.trans sameAll⟩
    intro other addr
    rw [forgets other addr]
    simp only [forgetHash, mem_cons]
    split_ifs <;> tauto

/-- The all-multicast reception of a closing stream. -/
theorem ClosingKept.clearAll :
    ClosingKept sp enabled (update allEnabled sp false) (cp.clearAll sp) ∧
      (cp.clearAll sp).enabled = cp.enabled ∧
      (cp.clearAll sp).allEnabled = cp.allEnabled := by
  obtain ⟨kept, requests, deleting⟩ := closing
  have isOpen : ∀ other, cp.isOpen other = false →
      update allEnabled sp false other = false ∧ ∀ addr, enabled other addr = false := by
    intro other closed
    obtain ⟨noAll, nothing⟩ := kept.isOpen other closed
    refine ⟨?_, nothing⟩
    by_cases same : other = sp
    · simp [same]
    · rwa [update_of_ne same]
  have all : update cp.sapAllMca sp false = update allEnabled sp false := by rw [funext kept.all]
  have cleared : ClosingKept sp enabled (update allEnabled sp false)
      { cp with sapAllMca := update cp.sapAllMca sp false } := by
    refine ⟨⟨kept.lists, isOpen, congrFun all, ?_, kept.onCard, kept.single, ?_,
      kept.answered, kept.fault⟩, requests, deleting⟩
    · intro other isAll
      by_cases same : other = sp
      · simp [same] at isAll
      · dsimp only at isAll
        rw [update_of_ne same] at isAll
        exact kept.cardAll other isAll
    · intro ioctl isSent isRequest
      refine (kept.outstanding ioctl isSent isRequest).congr
        (fun _ _ => ⟨rfl, rfl⟩) id fun _ tsp _ notAll => ?_
      by_cases same : tsp = sp
      · simp [same]
      · simpa [update_of_ne same] using notAll
  unfold McaCard.clearAll
  by_cases isSet : cp.allMca = true
  · rw [if_pos isSet]
    split
    · exact ⟨cleared, rfl, rfl⟩
    · next notBusy =>
        by_cases others : ∃ tsp, tsp ≠ sp ∧ cp.sapAllMca tsp = true
        · rw [if_pos others]
          exact ⟨cleared, rfl, rfl⟩
        · rw [if_neg others]
          have off : ClosingKept sp enabled (update allEnabled sp false)
              { cp with
                sapAllMca := update cp.sapAllMca sp false
                allMca := false } := by
            refine ⟨{ cleared.kept with cardAll := ?_ }, requests, deleting⟩
            intro other isAll
            by_cases same : other = sp
            · simp [same] at isAll
            · dsimp only at isAll
              rw [update_of_ne same] at isAll
              exact absurd ⟨other, same, isAll⟩ others
          have sent := @afterClosing_sendClosing maxsaps
              { cp with
                sapAllMca := update cp.sapAllMca sp false
                allMca := false }
              sp .delallmca (by simp)
          refine ⟨off.afterClosing sent (by simp), ?_, ?_⟩
          · rw [sent.same]
          · rw [sent.same]
  · have notAll : cp.sapAllMca sp = false := by
      cases isAll : cp.sapAllMca sp with
      | false => rfl
      | true => exact absurd (kept.cardAll sp isAll) isSet
    have same : update allEnabled sp false = allEnabled := by
      rw [← all, ← notAll, update_eq_self]
      exact funext kept.all
    rw [same, if_neg isSet]
    exact ⟨⟨kept, requests, deleting⟩, rfl, rfl⟩

end

end Closing

section Runs

variable {before after cp : McaCard maxsaps} {action : McaAction maxsaps} {sp : Fin maxsaps}

theorem dlpiHsh_lt (addr : MacAddr) : dlpiHsh addr 6 < 6 := Nat.mod_lt _ (by decide)

theorem McaKept.close (kept : McaKept cp.enabled cp.allEnabled cp)
    (guarded : McaGuard cp (.close sp)) :
    McaKept (cp.dlpiclose sp).enabled (cp.dlpiclose sp).allEnabled (cp.dlpiclose sp) := by
  obtain ⟨size, requests, deleting⟩ := guarded
  obtain ⟨enabled', closing, forgets, sameEnabled, sameAll⟩ := (⟨kept, requests, deleting⟩ :
    ClosingKept sp cp.enabled cp.allEnabled cp).foldl (range cp.nmcahash)
  obtain ⟨cleared, still, stillAll⟩ := closing.clearAll
  have nothing : enabled' = update cp.enabled sp fun _ => false := by
    funext other addr
    rw [forgets]
    by_cases same : other = sp
    · have inRange : dlpiHsh addr 6 ∈ range cp.nmcahash :=
        mem_range.mpr (Nat.lt_of_lt_of_le (dlpiHsh_lt addr) size)
      simp [same, inRange]
    · simp [same]
  have isEnabled : (cp.dlpiclose sp).enabled = enabled' := by
    rw [nothing]
    unfold McaCard.dlpiclose McaCard.dlpiClearSapMulticasts
    dsimp only
    rw [still, sameEnabled]
  have isAllEnabled : (cp.dlpiclose sp).allEnabled = update cp.allEnabled sp false := by
    unfold McaCard.dlpiclose McaCard.dlpiClearSapMulticasts
    dsimp only
    rw [stillAll, sameAll]
  rw [isEnabled, isAllEnabled]
  have before := cleared.kept
  refine ⟨before.lists, ?_, before.all, before.cardAll, before.onCard,
    before.single, ?_, before.answered, before.fault⟩
  · intro other closed
    by_cases same : other = sp
    · subst other
      refine ⟨by simp, fun addr => ?_⟩
      rw [nothing, update_self]
    · refine before.isOpen other ?_
      have stays : (cp.dlpiclose sp).isOpen other = (cp.dlpiClearSapMulticasts sp).isOpen other :=
        update_of_ne same ..
      exact stays.symm.trans closed
  · intro ioctl isSent isRequest
    have out := before.outstanding ioctl isSent isRequest
    have notSp : ioctl.sp = sp → (∃ addr, ioctl.cmd = .delmca addr) ∨ ioctl.cmd = .delallmca :=
      cleared.requests ioctl isSent isRequest
    have stays : ioctl.sp ≠ sp → (cp.dlpiclose sp).isOpen ioctl.sp =
        ((cp.dlpiClearSapMulticasts sp).isOpen ioctl.sp) :=
      fun different => update_of_ne different ..
    cases isCmd : ioctl.cmd with
    | setmca addr =>
      rw [isCmd] at out notSp
      refine ⟨out.1, out.2.1, ?_⟩
      rw [stays fun same => by simpa using notSp same]
      exact out.2.2
    | delmca addr =>
      rw [isCmd] at out
      exact out
    | setallmca =>
      rw [isCmd] at out notSp
      refine (stays fun same => by simpa using notSp same).trans ?_
      exact out
    | delallmca =>
      rw [isCmd] at out
      exact out

theorem mcaKept_init (nmcahash : Nat) : McaKept (mcaCardInit maxsaps nmcahash).enabled
    (mcaCardInit maxsaps nmcahash).allEnabled
    (mcaCardInit maxsaps nmcahash) where
  lists :=
    { chains := fun _ => ⟨nodup_nil, fun addr inNil => by cases inNil⟩
      nodup := fun _ => nodup_nil
      listed := fun addr sp =>
        ⟨fun inNil => (by cases inNil), fun isEnabled => (by cases isEnabled)⟩ }
  isOpen := fun _ _ => ⟨rfl, fun _ => rfl⟩
  all := fun _ => rfl
  cardAll := fun _ isAll => by cases isAll
  onCard := fun addr _ _ => ⟨fun isSet => (by cases isSet), fun present => absurd rfl present⟩
  single := Nat.zero_le 1
  outstanding := fun ioctl isSent => by cases isSent
  answered :=
    { nodup := fun place => by cases place <;> exact nodup_nil
      unique := fun mp first _ inFirst => by cases first <;> cases inFirst
      covered := fun mp isKnown => by cases isKnown
      sound := fun place mp inPlace => by cases place <;> cases inPlace }
  fault := rfl

theorem McaKept.step (kept : McaKept before.enabled before.allEnabled before)
    (step : McaStep before action after) (guarded : McaGuard before action) :
    McaKept after.enabled after.allEnabled after := by
  cases step with
  | @dlpiopen sp closed =>
    refine { kept with isOpen := ?_, outstanding := ?_ }
    · intro other stillClosed
      by_cases same : other = sp
      · rw [same]
        exact kept.isOpen sp closed
      · refine kept.isOpen other ?_
        dsimp only at stillClosed
        rwa [update_of_ne same] at stillClosed
    · intro ioctl isSent isRequest
      refine (kept.outstanding ioctl isSent isRequest).congr
        (fun _ _ => ⟨rfl, rfl⟩) (fun isOpen => ?_) fun _ _ _ => id
      by_cases same : ioctl.sp = sp
      · simp [same]
      · simpa [update_of_ne same] using isOpen
  | @primitive mp sp prim after isOpen new processed =>
    have keptAfter := kept.primitive isOpen new guarded processed
    exact keptAfter
  | ack isSent => exact kept.ack isSent rfl
  | close isOpen => exact kept.close guarded

theorem McaKept.well (kept : McaKept cp.enabled cp.allEnabled cp) : McaWell cp where
  __ := kept
  chains := by
    intro hsh
    obtain ⟨distinct, hashed⟩ := kept.lists.chains hsh
    exact ⟨distinct, fun cm inChain => hashed cm.mca (mem_map_of_mem inChain)⟩
  listed := fun addr => ⟨kept.lists.nodup addr, kept.lists.listed addr⟩
  sapMcaSet := by
    intro sp addr
    have listed := kept.lists.listed addr sp
    unfold McaCard.dlpiSapMcaSet
    rw [← kept.all sp]
    split_ifs with isAll
    · simp [isAll]
    · simp only [isAll]
      rw [← listed]
      cases found : mcaEntry addr (cp.chain addr) with
      | none =>
        have isNil : tableSaps cp.mcahashtbl addr = [] := mcaEntry_chain_none.mp found
        simp [isNil]
      | some cm =>
        have entry : tableSaps cp.mcahashtbl addr = cm.saps := chainSaps_of_entry found
        simp [entry]
  disabled := by
    intro mp sp addr notEnabled either
    have notListed : sp ∉ tableSaps cp.mcahashtbl addr := by
      rw [kept.lists.listed, notEnabled]
      simp
    have isNil := either.resolve_right notListed
    unfold McaCard.dlpiPrimitive
    dsimp only
    rw [mcaEntry_chain_none.mpr isNil]

theorem mcaWell_of_run (maxsaps nmcahash : Nat) (actions : List (McaAction maxsaps))
    (final : McaCard maxsaps)
    (run : Run (Guarded McaStep McaGuard) (mcaCardInit maxsaps nmcahash) actions final) :
    McaWell final := by
  have preserved : ∀ (before : McaCard maxsaps) action after,
      McaKept before.enabled before.allEnabled before →
        Guarded McaStep McaGuard before action after →
        McaKept after.enabled after.allEnabled after :=
    fun _ _ _ kept taken => kept.step taken.1 taken.2
  exact (run.invariant preserved (mcaKept_init nmcahash)).well

theorem mcaWell_of_run_enabled : ∃ final, Run (Guarded McaStep McaGuard) (mcaCardInit 1 509)
    [.dlpiopen 0, .primitive 7 0 (.enabmulti (Vector.replicate 6 1)),
      .ack ⟨0, .setmca (Vector.replicate 6 1), some 7⟩]
    final ∧
    final.enabled 0 (Vector.replicate 6 1) = true ∧ McaWell final := by
  have opened : Guarded McaStep McaGuard (mcaCardInit 1 509) (.dlpiopen 0) _ :=
    ⟨.dlpiopen rfl, trivial⟩
  have requested := (Run.single opened).snoc
    ⟨@McaStep.primitive 1 _ 7 0 (.enabmulti (Vector.replicate 6 1)) _ rfl
      (by simp [mcaCardInit]) rfl,
      fun ioctl isSent => by cases isSent⟩
  have acked := requested.snoc
    ⟨@McaStep.ack 1 _ ⟨0, .setmca (Vector.replicate 6 1), some 7⟩ [] [] rfl, trivial⟩
  exact ⟨_, acked, by simp [McaCard.ioctlHandler,
    McaCard.dlpiSendDlOkOrErrorAck, McaCard.dlpiSendDlOkAck, MacCmd.prim,
    McaCard.granted], mcaWell_of_run 1 509 _ _ acked⟩

theorem mcaWell_fails_twice : ¬ ∀ (maxsaps nmcahash : Nat) (actions : List (McaAction maxsaps))
    (final : McaCard maxsaps),
    Run McaStep (mcaCardInit maxsaps nmcahash) actions final → McaWell final := by
  intro always
  have opened : Run McaStep (mcaCardInit 1 509) [.dlpiopen 0] _ := .single (.dlpiopen rfl)
  have requested := opened.snoc
    (@McaStep.primitive 1 _ 7 0 (.enabmulti (Vector.replicate 6 1)) _ rfl
      (by simp [mcaCardInit]) rfl)
  have acked := requested.snoc
    (@McaStep.ack 1 _ ⟨0, .setmca (Vector.replicate 6 1), some 7⟩ [] [] rfl)
  have again := acked.snoc (@McaStep.primitive 1 _ 8 0 (.enabmulti (Vector.replicate 6 1)) _ rfl
      (by decide) rfl)
  have nodup : [(0 : Fin 1), 0].Nodup := ((always 1 509 _ _ again).listed (Vector.replicate 6 1)).1
  exact absurd nodup (by decide)

end Runs

end Uw7.Dlpi
