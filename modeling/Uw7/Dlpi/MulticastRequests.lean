import Uw7.Dlpi.MulticastTable

namespace Uw7.Dlpi

/-!
# Requests and acknowledgements against the multicast table

While no stream enables an address of which it is the last stream already, none
disables what it has not enabled or what others still use without an answer, and
none joins an address that is just being deleted, requests and acknowledgements
keep the table, the card and the streams together.
-/

open Lib Function List Option

variable {maxsaps : Nat}

/-- No ioctl of a request is at the driver. -/
def McaCard.quiet (cp : McaCard maxsaps) : Prop := ∀ ioctl ∈ cp.sent, ioctl.mp = none

/-- The state before a step does not lead into a branch that goes wrong. -/
def McaGuard (before : McaCard maxsaps) : McaAction maxsaps → Prop
  | .primitive _ sp (.enabmulti addr) =>
    if before.saps addr = [] then before.quiet
    else
      (before.saps addr).getLast? ≠ some sp ∧ before.without (.delmca addr)
  | .primitive _ sp (.disabmulti addr) =>
    before.saps addr = [] ∨ sp ∈ before.saps addr ∧ ((before.saps addr).length = 1 → before.quiet)
  | .primitive _ _ .enaballmulti =>
    if before.allMca then before.without .delallmca else before.quiet
  | .primitive _ sp .disaballmulti =>
    before.allMca = true → before.sapAllMca sp = true →
      before.quiet ∧ ∀ tsp, tsp ≠ sp → before.sapAllMca tsp = false
  | .close sp =>
    6 ≤ before.nmcahash ∧ (∀ ioctl ∈ before.sent, ioctl.mp ≠ none → ioctl.sp = sp →
        (∃ addr, ioctl.cmd = .delmca addr) ∨ ioctl.cmd = .delallmca) ∧
      ∀ mp addr, before.dlpiIocblk = .request mp →
        before.saps addr = [sp] → ¬ before.without (.delmca addr)
  | _ => True

/-- What a request at the driver relies on until it is acknowledged. -/
def McaCard.Outstanding (cp : McaCard maxsaps) (sp : Fin maxsaps) : MacCmd → Prop
  | .setmca addr => tableSaps cp.mcahashtbl addr = [] ∧ cp.onCard addr = true ∧ cp.isOpen sp = true
  | .delmca addr =>
    (tableSaps cp.mcahashtbl addr = [] ∨ tableSaps cp.mcahashtbl addr = [sp]) ∧
    cp.onCard addr = false
  | .setallmca => cp.isOpen sp = true
  | .delallmca => ∀ tsp, tsp ≠ sp → cp.sapAllMca tsp = false

/-- What every step keeps, for what the streams have enabled. -/
structure McaKept (enabled : Fin maxsaps → MacAddr → Bool) (allEnabled : Fin maxsaps → Bool)
    (cp : McaCard maxsaps) : Prop where
  lists : McaLists cp.mcahashtbl enabled
  isOpen : ∀ sp, cp.isOpen sp = false → allEnabled sp = false ∧ ∀ addr, enabled sp addr = false
  all : ∀ sp, cp.sapAllMca sp = allEnabled sp
  cardAll : ∀ sp, cp.sapAllMca sp = true → cp.allMca = true
  onCard : ∀ addr, cp.without (.setmca addr) → cp.without (.delmca addr) →
      (cp.onCard addr = true ↔ tableSaps cp.mcahashtbl addr ≠ [])
  single : (cp.sent.filterMap MacIoctl.mp).length ≤ 1
  outstanding : ∀ ioctl ∈ cp.sent, ioctl.mp ≠ none → cp.Outstanding ioctl.sp ioctl.cmd
  answered : Placed cp.held (· ∈ cp.requests)
  fault : cp.fault = false

section Requests

variable {cp cp' : McaCard maxsaps} {mp : Nat} {sp : Fin maxsaps}
  {addr : MacAddr} {cmd : MacCmd} {prim : McaPrim}

theorem McaCard.Outstanding.congr (out : cp.Outstanding sp cmd) (saps :
    ∀ addr, cmd = .setmca addr ∨ cmd = .delmca addr →
      tableSaps cp'.mcahashtbl addr = tableSaps cp.mcahashtbl addr ∧
        cp'.onCard addr = cp.onCard addr)
    (sameOpen : cp.isOpen sp = true → cp'.isOpen sp = true)
    (sameAll : cmd = .delallmca → ∀ tsp, tsp ≠ sp → cp.sapAllMca tsp = false →
      cp'.sapAllMca tsp = false) :
    cp'.Outstanding sp cmd := by
  cases cmd with
  | setmca addr =>
    obtain ⟨sameSaps, sameCard⟩ := saps addr (.inl rfl)
    simp only [McaCard.Outstanding, sameSaps, sameCard] at out ⊢
    exact ⟨out.1, out.2.1, sameOpen out.2.2⟩
  | delmca addr =>
    obtain ⟨sameSaps, sameCard⟩ := saps addr (.inr rfl)
    simp only [McaCard.Outstanding, sameSaps, sameCard] at out ⊢
    exact out
  | setallmca => exact sameOpen out
  | delallmca => exact fun tsp notSp => sameAll rfl tsp notSp (out tsp notSp)

section

variable (placed : Placed cp.held (· ∈ cp.requests))
include placed

theorem placed_answer {ok : Bool} (new : mp ∉ cp.requests) (sameSent : cp'.sent = cp.sent)
    (isAnswered : cp'.answers = cp.answers ++ [(mp, ok)])
    (isKnown : cp'.requests = mp :: cp.requests) : Placed cp'.held (· ∈ cp'.requests) := by
  have arrived : (cp'.held .answered).Perm (mp :: cp.held .answered) := by
    simp [McaCard.held, isAnswered, perm_append_singleton]
  have introduced := placed.introduce mp new arrived fun place different => by
      cases place with
      | outstanding => simp [McaCard.held, sameSent]
      | answered => exact absurd rfl different
  simpa only [isKnown, mem_cons] using introduced

theorem placed_claim (new : mp ∉ cp.requests) (isSent : cp'.sent = cp.sent ++ [⟨sp, cmd, some mp⟩])
    (sameAnswers : cp'.answers = cp.answers) (isKnown : cp'.requests = mp :: cp.requests) :
    Placed cp'.held (· ∈ cp'.requests) := by
  have arrived : (cp'.held .outstanding).Perm (mp :: cp.held .outstanding) := by
    simp [McaCard.held, isSent, perm_append_singleton]
  have introduced := placed.introduce mp new arrived fun place different => by
      cases place with
      | outstanding => exact absurd rfl different
      | answered => simp [McaCard.held, sameAnswers]
  simpa only [isKnown, mem_cons] using introduced

theorem placed_ack {earlier later : List (MacIoctl maxsaps)} {ioctl : MacIoctl maxsaps} {ok : Bool}
    (isSent : cp.sent = earlier ++ ioctl :: later) (isRequest : ioctl.mp = some mp)
    (isLeft : cp'.sent = earlier ++ later) (isAnswered : cp'.answers = cp.answers ++ [(mp, ok)])
    (sameRequests : cp'.requests = cp.requests) : Placed cp'.held (· ∈ cp'.requests) := by
  rw [sameRequests]
  refine placed.transfer mp (by simp : McaPlace.outstanding ≠ McaPlace.answered) ?_ ?_ ?_
  · simp [McaCard.held, isSent, isLeft, isRequest, perm_middle]
  · simp [McaCard.held, isAnswered, perm_append_singleton]
  · intro place notOutstanding notAnswered
    cases place with
    | outstanding => exact absurd rfl notOutstanding
    | answered => exact absurd rfl notAnswered

end

theorem McaKept.claim (kept : McaKept cp.enabled cp.allEnabled cp) (new : mp ∉ cp.requests)
    (quiet : cp.quiet) (isOpen : cp.isOpen sp = true) (fits :
      match cmd with
      | .setmca addr => tableSaps cp.mcahashtbl addr = []
      | .delmca addr => tableSaps cp.mcahashtbl addr = [sp]
      | .setallmca => True
      | .delallmca => ∀ tsp, tsp ≠ sp → cp.sapAllMca tsp = false)
    (claimed : cp.claim mp sp cmd = some cp') :
    McaKept cp'.enabled cp'.allEnabled { cp' with requests := mp :: cp.requests } := by
  unfold McaCard.claim at claimed
  split_ifs at claimed
  obtain rfl := some.inj claimed
  have noneBefore : cp.sent.filterMap MacIoctl.mp = [] := by
    rw [filterMap_eq_nil_iff]
    exact quiet
  refine ⟨kept.lists, kept.isOpen, kept.all, kept.cardAll, ?_, ?_, ?_,
    placed_claim kept.answered new rfl rfl rfl, kept.fault⟩
  · intro addr noSet noDel
    have notSet := noSet ⟨sp, cmd, some mp⟩ (by simp [McaCard.send]) (by simp)
    have notDel := noDel ⟨sp, cmd, some mp⟩ (by simp [McaCard.send]) (by simp)
    have before := kept.onCard addr
        (fun ioctl isSent notNone => absurd (quiet ioctl isSent) notNone)
        (fun ioctl isSent notNone => absurd (quiet ioctl isSent) notNone)
    cases cmd with
    | setmca other =>
      have different : addr ≠ other := fun same => notSet (same ▸ rfl)
      simpa [McaCard.send, update_of_ne different] using before
    | delmca other =>
      have different : addr ≠ other := fun same => notDel (same ▸ rfl)
      simpa [McaCard.send, update_of_ne different] using before
    | setallmca => exact before
    | delallmca => exact before
  · simp [McaCard.send, noneBefore]
  · intro ioctl isSent notNone
    rcases mem_append.mp isSent with wasSent | isNew
    · exact absurd (quiet ioctl wasSent) notNone
    · obtain rfl := mem_singleton.mp isNew
      cases cmd with
      | setmca addr => exact ⟨fits, by simp [McaCard.send], isOpen⟩
      | delmca addr => exact ⟨.inr fits, by simp [McaCard.send]⟩
      | setallmca => exact isOpen
      | delallmca => exact fits

end Requests

section Primitives

variable {cp after : McaCard maxsaps} {mp : Nat} {sp : Fin maxsaps} {addr : MacAddr}

theorem mcaEntry_chain_none : mcaEntry addr (cp.chain addr) = none ↔
    tableSaps cp.mcahashtbl addr = [] :=
  mcaEntry_eq_none

theorem McaKept.isOpen_granted {enabled : Fin maxsaps → MacAddr → Bool}
    {allEnabled : Fin maxsaps → Bool} (kept : McaKept enabled allEnabled cp)
    (isOpen : cp.isOpen sp = true) (forAddr : MacAddr → Bool) (forAll : Bool) (other : Fin maxsaps)
    (closed : cp.isOpen other = false) : update allEnabled sp forAll other = false ∧
      ∀ addr, update enabled sp forAddr other addr = false := by
  have different : other ≠ sp := by
    intro same
    rw [same, isOpen] at closed
    cases closed
  simpa [update_of_ne different] using kept.isOpen other closed

section

variable (kept : McaKept cp.enabled cp.allEnabled cp)
include kept

theorem McaKept.join (isOpen : cp.isOpen sp = true)
    (new : mp ∉ cp.requests) (present : tableSaps cp.mcahashtbl addr ≠ [])
    (notLast : (tableSaps cp.mcahashtbl addr).getLast? ≠ some sp)
    (noDel : cp.without (.delmca addr)) :
    McaKept (update cp.enabled sp (update (cp.enabled sp) addr true)) cp.allEnabled
      { (cp.allocMca sp addr).dlpiSendDlOkAck mp sp (.enabmulti addr) with
        requests := mp :: cp.requests } := by
  have noSet : cp.without (.setmca addr) := by
    intro ioctl isSent notNone isSet
    have out := kept.outstanding ioctl isSent notNone
    rw [isSet] at out
    exact present out.1
  have others : ∀ other, other ≠ addr → tableSaps (cp.allocMca sp addr).mcahashtbl other =
      tableSaps cp.mcahashtbl other := by
    intro other different
    exact tableSaps_alloc.trans (if_neg different)
  refine ⟨kept.lists.alloc notLast, ?_, kept.all, kept.cardAll, ?_, kept.single,
    ?_, placed_answer kept.answered new rfl rfl rfl, kept.fault⟩
  · intro other closed
    have nothing := kept.isOpen_granted isOpen (update (cp.enabled sp) addr true)
        (cp.allEnabled sp) other closed
    simpa only [update_eq_self] using nothing
  · intro other notSet notDel
    have before := kept.onCard other notSet notDel
    by_cases same : other = addr
    · subst other
      have after : tableSaps (cp.allocMca sp addr).mcahashtbl addr ≠ [] := by
        have joined : sp ∈ tableSaps (cp.allocMca sp addr).mcahashtbl addr := by
          rw [show tableSaps (cp.allocMca sp addr).mcahashtbl addr = _
            from tableSaps_alloc, if_pos rfl]
          exact mem_addSap.mpr (.inl rfl)
        exact ne_nil_of_mem joined
      exact ⟨fun _ => after, fun _ => before.mpr present⟩
    · have sameSaps := others other same
      exact before.trans (by rw [← sameSaps]; rfl)
  · intro ioctl isSent notNone
    refine (kept.outstanding ioctl isSent notNone).congr ?_ id fun _ _ _ => id
    intro other isCmd
    refine ⟨others other ?_, rfl⟩
    intro same
    subst other
    exact isCmd.elim (noSet ioctl isSent notNone) (noDel ioctl isSent notNone)

theorem McaKept.leave (isOpen : cp.isOpen sp = true)
    (new : mp ∉ cp.requests) (isListed : sp ∈ tableSaps cp.mcahashtbl addr)
    (several : tableSaps cp.mcahashtbl addr ≠ [sp])
    (left : (cp.deleteSap sp addr).dlpiSendDlOkAck mp sp (.disabmulti addr) = after) :
    McaKept after.enabled after.allEnabled { after with requests := mp :: cp.requests } := by
  obtain ⟨chain', isDeleted, lists, saps⟩ := kept.lists.delete (.inr isListed)
  have deletes : cp.deleteSap sp addr = cp.setChain addr chain' := by
    unfold McaCard.deleteSap McaCard.chain
    rw [isDeleted]
  rw [deletes] at left
  subst after
  have notNil : tableSaps cp.mcahashtbl addr ≠ [] := ne_nil_of_mem isListed
  have erasedNotNil : (tableSaps cp.mcahashtbl addr).erase sp ≠ [] := by
    intro isNil
    have length := length_erase_of_mem isListed
    rw [isNil] at length
    have one : (tableSaps cp.mcahashtbl addr).length = 1 := by
      have positive := length_pos_of_mem isListed
      simp only [length_nil] at length
      omega
    obtain ⟨only, isOnly⟩ := length_eq_one_iff.mp one
    rw [isOnly] at isListed several
    exact several (by rw [mem_singleton.mp isListed])
  refine ⟨lists, ?_, kept.all, kept.cardAll, ?_, kept.single, ?_,
    placed_answer kept.answered new rfl rfl rfl, kept.fault⟩
  · intro other closed
    have nothing := kept.isOpen_granted isOpen (update (cp.enabled sp) addr false)
        (cp.allEnabled sp) other closed
    rw [update_eq_self] at nothing
    exact nothing
  · intro other notSet notDel
    have before := kept.onCard other notSet notDel
    refine before.trans ?_
    change _ ↔ tableSaps (update cp.mcahashtbl (dlpiHsh addr 6) chain') other ≠ []
    rw [saps other]
    split_ifs with same
    · rw [same]
      exact ⟨fun _ => erasedNotNil, fun _ => notNil⟩
    · rfl
  · intro ioctl isSent notNone
    have out := kept.outstanding ioctl isSent notNone
    refine out.congr ?_ id fun _ _ _ => id
    intro other isCmd
    refine ⟨(saps other).trans (if_neg fun same => ?_), rfl⟩
    subst other
    rcases isCmd with isSet | isDel
    · rw [isSet] at out
      exact notNil out.1
    · rw [isDel] at out
      rcases out.1 with isNil | isOther
      · exact notNil isNil
      · rw [isOther] at isListed several
        exact several (by rw [mem_singleton.mp isListed])

theorem McaKept.refuse (new : mp ∉ cp.requests) :
    McaKept cp.enabled cp.allEnabled
      { cp.dlpiSendDlErrorAck mp with requests := mp :: cp.requests } :=
  { kept with answered := placed_answer kept.answered new rfl rfl rfl }

theorem McaKept.joinAll (isOpen : cp.isOpen sp = true)
    (new : mp ∉ cp.requests) (isSet : cp.allMca = true) (noDel : cp.without .delallmca) :
    McaKept cp.enabled (update cp.allEnabled sp true)
      { (cp.setAll sp true).dlpiSendDlOkAck mp sp .enaballmulti with
        requests := mp :: cp.requests } := by
  refine ⟨kept.lists, ?_, ?_, fun _ _ => isSet, kept.onCard, kept.single, ?_,
    placed_answer kept.answered new rfl rfl rfl, kept.fault⟩
  · intro other closed
    have nothing := kept.isOpen_granted isOpen (cp.enabled sp) true other closed
    simpa using nothing
  · intro other
    by_cases same : other = sp
    · subst other
      simp [McaCard.dlpiSendDlOkAck, McaCard.granted, McaCard.setAll]
    · simpa [McaCard.dlpiSendDlOkAck, McaCard.granted, McaCard.setAll,
        update_of_ne same] using kept.all other
  · intro ioctl isSent notNone
    refine (kept.outstanding ioctl isSent notNone).congr (fun _ _ => ⟨rfl, rfl⟩) id ?_
    intro isDel
    exact absurd isDel (noDel ioctl isSent notNone)

/-- Every guarded request keeps the table, the card and the streams together. -/
theorem McaKept.primitive {prim : McaPrim} (isOpen : cp.isOpen sp = true) (new : mp ∉ cp.requests)
    (guarded : McaGuard cp (.primitive mp sp prim))
    (processed : cp.dlpiPrimitive mp sp prim = some after) :
    McaKept after.enabled after.allEnabled { after with requests := mp :: cp.requests } := by
  cases prim with
  | enabmulti addr =>
    simp only [McaCard.dlpiPrimitive] at processed
    simp only [McaGuard] at guarded
    cases found : mcaEntry addr (cp.chain addr) with
    | none =>
      rw [found] at processed
      have isNil : cp.saps addr = [] := mcaEntry_chain_none.mp found
      rw [if_pos isNil] at guarded
      exact kept.claim new guarded isOpen isNil processed
    | some cm =>
      rw [found] at processed
      have present : cp.saps addr ≠ [] := by
        intro isNil
        rw [mcaEntry_chain_none.mpr isNil] at found
        cases found
      rw [if_neg present] at guarded
      obtain rfl := some.inj processed
      exact kept.join isOpen new present guarded.1 guarded.2
  | disabmulti addr =>
    simp only [McaCard.dlpiPrimitive] at processed
    cases found : mcaEntry addr (cp.chain addr) with
    | none =>
      rw [found] at processed
      obtain rfl := some.inj processed
      exact kept.refuse new
    | some cm =>
      rw [found] at processed
      dsimp only at processed
      have entry : tableSaps cp.mcahashtbl addr = cm.saps := chainSaps_of_entry found
      have guarded' : sp ∈ tableSaps cp.mcahashtbl addr ∧
          ((tableSaps cp.mcahashtbl addr).length = 1 → cp.quiet) := by
        refine guarded.resolve_left fun isNil => ?_
        exact CardMca.saps_ne_nil (entry.symm.trans isNil)
      split_ifs at processed with several
      · obtain rfl := some.inj processed
        refine kept.leave isOpen new guarded'.1 (fun single => ?_) rfl
        rw [entry] at single
        exact several (cons.inj single).2
      · have alone : cm.nextSap = [] := not_not.mp several
        have single : tableSaps cp.mcahashtbl addr = [sp] := by
          have isListed := guarded'.1
          rw [entry, CardMca.saps, alone] at isListed ⊢
          rw [mem_singleton.mp isListed]
        have quiet := guarded'.2 (by rw [single]; rfl)
        exact kept.claim new quiet isOpen single processed
  | enaballmulti =>
    simp only [McaCard.dlpiPrimitive] at processed
    simp only [McaGuard] at guarded
    split_ifs at processed guarded with isSet
    · obtain rfl := some.inj processed
      exact kept.joinAll isOpen new isSet guarded
    · exact kept.claim new guarded isOpen trivial processed
  | disaballmulti =>
    simp only [McaCard.dlpiPrimitive] at processed
    split_ifs at processed with notSet others
    · obtain rfl := some.inj processed
      have notAll : cp.sapAllMca sp = false := by
        rcases notSet with cardOff | sapOff
        · cases isSet : cp.sapAllMca sp with
          | false => rfl
          | true => exact absurd (kept.cardAll sp isSet) (by simp [cardOff])
        · exact sapOff
      have same : cp.setAll sp false = cp := by simp [McaCard.setAll, ← notAll]
      rw [same]
      exact kept.refuse new
    · simp only [not_or, Bool.not_eq_false] at notSet
      obtain ⟨tsp, notSp, isSet⟩ := others
      have alone := (guarded notSet.1 notSet.2).2 tsp notSp
      rw [alone] at isSet
      cases isSet
    · simp only [not_or, Bool.not_eq_false] at notSet
      obtain ⟨quiet, alone⟩ := guarded notSet.1 notSet.2
      exact kept.claim new quiet isOpen alone processed

end

end Primitives

section Acks

variable {cp after : McaCard maxsaps} {mp : Nat} {sp : Fin maxsaps}
  {addr : MacAddr} {cmd : MacCmd} {earlier later : List (MacIoctl maxsaps)}
  {ioctl : MacIoctl maxsaps}

theorem McaKept.isOpen_disabled {enabled : Fin maxsaps → MacAddr → Bool}
    {allEnabled : Fin maxsaps → Bool} (kept : McaKept enabled allEnabled cp)
    (sp other : Fin maxsaps) (addr : MacAddr) (closed : cp.isOpen other = false) :
    update allEnabled sp false other = false ∧ ∀ otherAddr, update enabled sp
      (update (enabled sp) addr false) other otherAddr =
        false := by
  obtain ⟨noAll, nothing⟩ := kept.isOpen other closed
  by_cases same : other = sp
  · subst other
    refine ⟨by simp, fun otherAddr => ?_⟩
    by_cases sameAddr : otherAddr = addr
    · simp [sameAddr]
    · simpa [update_of_ne sameAddr] using nothing otherAddr
  · simpa [update_of_ne same] using ⟨noAll, nothing⟩

section

variable (kept : McaKept cp.enabled cp.allEnabled cp)
include kept

section

variable (isSent : cp.sent = earlier ++ ioctl :: later)
include isSent

theorem McaKept.delmcaAck (noRequest : ioctl.mp = none) :
    McaKept cp.enabled cp.allEnabled { cp with sent := earlier ++ later, dlpiIocblk := .free } := by
  have still : ∀ other ∈ earlier ++ later, other ∈ cp.sent := by
    intro other isLeft
    rw [isSent]
    simp only [mem_append, mem_cons] at isLeft ⊢
    tauto
  have sameRequests : (earlier ++ later).filterMap MacIoctl.mp = cp.sent.filterMap MacIoctl.mp := by
    simp [isSent, noRequest]
  have without : ∀ cmd, McaCard.without
      { cp with sent := earlier ++ later, dlpiIocblk := .free } cmd → cp.without cmd := by
    intro cmd noneLeft other wasSent notNone
    rw [isSent] at wasSent
    refine noneLeft other ?_ notNone
    simp only [mem_append, mem_cons] at wasSent ⊢
    rcases wasSent with isEarlier | isIoctl | isLater
    · exact .inl isEarlier
    · exact absurd (isIoctl ▸ noRequest) notNone
    · exact .inr isLater
  refine ⟨kept.lists, kept.isOpen, kept.all, kept.cardAll, fun addr noSet noDel =>
    kept.onCard addr (without _ noSet) (without _ noDel), ?_, fun other isLeft notNone =>
      kept.outstanding other (still other isLeft) notNone,
    kept.answered.congr fun place => ?_, kept.fault⟩
  · rw [sameRequests]
    exact kept.single
  · cases place with
    | outstanding => exact sameRequests
    | answered => rfl

/-- The one request at the driver is acknowledged. -/
theorem McaKept.requestAck (isRequest : ioctl.mp = some mp)
    (acked : ({ cp with sent := earlier ++ later } : McaCard maxsaps).dlpiSendDlOkOrErrorAck
      ioctl.sp mp ioctl.cmd = after) :
    McaKept after.enabled after.allEnabled after := by
  have quiet : ∀ other ∈ earlier ++ later, other.mp = none := by
    have single := kept.single
    rw [isSent, filterMap_append, filterMap_cons_some isRequest] at single
    simp only [length_append, length_cons] at single
    have noneEarlier : earlier.filterMap MacIoctl.mp = [] := length_eq_zero_iff.mp (by omega)
    have noneLater : later.filterMap MacIoctl.mp = [] := length_eq_zero_iff.mp (by omega)
    intro other isLeft
    rcases mem_append.mp isLeft with isEarlier | isLater
    · exact filterMap_eq_nil_iff.mp noneEarlier other isEarlier
    · exact filterMap_eq_nil_iff.mp noneLater other isLater
  have noRequests : (earlier ++ later).filterMap MacIoctl.mp = [] := filterMap_eq_nil_iff.mpr quiet
  have without : ∀ cmd, cmd ≠ ioctl.cmd → cp.without cmd := by
    intro cmd different other wasSent notNone same
    rw [isSent] at wasSent
    simp only [mem_append, mem_cons] at wasSent
    rcases wasSent with isEarlier | isIoctl | isLater
    · exact notNone (quiet other (mem_append_left _ isEarlier))
    · exact different (same.symm.trans (congrArg MacIoctl.cmd isIoctl))
    · exact notNone (quiet other (mem_append_right _ isLater))
  have out := kept.outstanding ioctl (by rw [isSent]; simp) (by simp [isRequest])
  have single : ((earlier ++ later).filterMap MacIoctl.mp).length ≤ 1 := by simp [noRequests]
  cases isCmd : ioctl.cmd with
  | setmca addr =>
    rw [isCmd] at acked out without
    obtain ⟨isNil, isSet, isOpen⟩ := out
    subst acked
    refine ⟨kept.lists.alloc (by simp [isNil]), ?_, kept.all, kept.cardAll, ?_,
      single, fun other isLeft notNone => absurd (quiet other isLeft) notNone,
      placed_ack kept.answered isSent isRequest rfl rfl rfl, kept.fault⟩
    · intro other closed
      have nothing := kept.isOpen_granted isOpen (update (cp.enabled ioctl.sp) addr true)
          (cp.allEnabled ioctl.sp) other closed
      rw [update_eq_self] at nothing
      exact nothing
    · intro other _ _
      change cp.onCard other = true ↔ tableSaps (update cp.mcahashtbl (dlpiHsh addr 6)
        (dlpiAllocMca ioctl.sp addr (cp.mcahashtbl (dlpiHsh addr 6)))) other ≠ []
      rw [tableSaps_alloc]
      split_ifs with same
      · rw [same, isNil]
        exact ⟨fun _ => by simp [addSap], fun _ => isSet⟩
      · refine kept.onCard other (without _ ?_) (without _ ?_)
        · simpa using same
        · simp
  | delmca addr =>
    rw [isCmd] at acked out without
    obtain ⟨isSingle, notSet⟩ := out
    obtain ⟨chain', isDeleted, lists, saps⟩ := kept.lists.delete (isSingle.imp id fun isSingle => by
      rw [isSingle]
      exact mem_singleton_self ioctl.sp)
    have deletes : ({ cp with sent := earlier ++ later } : McaCard maxsaps).deleteSap
        ioctl.sp addr =
        ({ cp with sent := earlier ++ later } : McaCard maxsaps).setChain addr chain' := by
      unfold McaCard.deleteSap McaCard.chain
      rw [isDeleted]
    unfold McaCard.dlpiSendDlOkOrErrorAck at acked
    dsimp only at acked
    rw [deletes] at acked
    subst acked
    refine ⟨lists, ?_, kept.all, kept.cardAll, ?_, single,
      fun other isLeft notNone => absurd (quiet other isLeft) notNone,
      placed_ack kept.answered isSent isRequest rfl rfl rfl, kept.fault⟩
    · intro other closed
      exact ⟨(kept.isOpen other closed).1, (kept.isOpen_disabled ioctl.sp other addr closed).2⟩
    · intro other _ _
      change cp.onCard other = true ↔ tableSaps
        (update cp.mcahashtbl (dlpiHsh addr 6) chain') other ≠ []
      rw [saps other]
      split_ifs with same
      · rw [same, notSet]
        rcases isSingle with isNil | isSingle
        · simp [isNil]
        · simp [isSingle]
      · refine kept.onCard other (without _ ?_) (without _ ?_)
        · simp
        · simpa using same
  | setallmca =>
    rw [isCmd] at acked out without
    subst acked
    refine ⟨kept.lists, ?_, ?_, fun _ _ => rfl, ?_, single,
      fun other isLeft notNone => absurd (quiet other isLeft) notNone,
      placed_ack kept.answered isSent isRequest rfl rfl rfl, kept.fault⟩
    · intro other closed
      have nothing := kept.isOpen_granted out (cp.enabled ioctl.sp) true other closed
      rw [update_eq_self] at nothing
      exact nothing
    · intro other
      change update cp.sapAllMca ioctl.sp true other = update cp.allEnabled ioctl.sp true other
      rw [funext kept.all]
    · intro other _ _
      exact kept.onCard other (without _ (by simp)) (without _ (by simp))
  | delallmca =>
    rw [isCmd] at acked out without
    subst acked
    refine ⟨kept.lists, ?_, ?_, ?_, ?_, single,
      fun other isLeft notNone => absurd (quiet other isLeft) notNone,
      placed_ack kept.answered isSent isRequest rfl rfl rfl, kept.fault⟩
    · intro other closed
      exact ⟨(kept.isOpen_disabled ioctl.sp other default closed).1, (kept.isOpen other closed).2⟩
    · intro other
      change update cp.sapAllMca ioctl.sp false other = update cp.allEnabled ioctl.sp false other
      rw [funext kept.all]
    · intro other isAll
      have isAll' : update cp.sapAllMca ioctl.sp false other = true := isAll
      by_cases same : other = ioctl.sp
      · simp [same] at isAll'
      · rw [update_of_ne same, out other same] at isAll'
        cases isAll'
    · intro other _ _
      exact kept.onCard other (without _ (by simp)) (without _ (by simp))

theorem McaKept.ack
    (acked : ({ cp with sent := earlier ++ later } : McaCard maxsaps).ioctlHandler ioctl = after) :
    McaKept after.enabled after.allEnabled after := by
  unfold McaCard.ioctlHandler at acked
  cases isRequest : ioctl.mp with
  | none =>
    rw [isRequest] at acked
    subst acked
    exact kept.delmcaAck isSent isRequest
  | some mp =>
    rw [isRequest] at acked
    exact kept.requestAck isSent isRequest acked

end

end

end Acks

end Uw7.Dlpi
