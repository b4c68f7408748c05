import Uw7.Dlpi.Multicast

namespace Uw7.Dlpi

/-!
# The chains of the multicast table

A chain, and the table, are seen as the list of streams of each address.  Adding a
stream, deleting one and clearing one change these lists by one stream and leave
the chains well formed.
-/

open List Function

variable {maxsaps : Nat}

def chainSaps (addr : MacAddr) (chain : List (CardMca maxsaps)) : List (Fin maxsaps) :=
  ((mcaEntry addr chain).map CardMca.saps).getD []

/-- The streams after one more, as long as it is not the last one already. -/
def addSap (sp : Fin maxsaps) (saps : List (Fin maxsaps)) : List (Fin maxsaps) :=
  if sp ∈ saps.dropLast then saps else saps ++ [sp]

section Entries

variable {addr other : MacAddr} {sp : Fin maxsaps} {cm : CardMca maxsaps}
  {chain : List (CardMca maxsaps)}

@[simp]
theorem chainSaps_nil : chainSaps addr ([] : List (CardMca maxsaps)) = [] := rfl

theorem chainSaps_cons : chainSaps addr (cm :: chain) =
    if cm.mca = addr then cm.saps else chainSaps addr chain := by
  unfold chainSaps
  rw [mcaEntry]
  split_ifs <;> rfl

theorem CardMca.saps_ne_nil : cm.saps ≠ [] := cons_ne_nil _ _

theorem mcaEntry_eq_none : mcaEntry addr chain = none ↔ chainSaps addr chain = [] := by
  unfold chainSaps
  cases mcaEntry addr chain with
  | none => simp
  | some cm => simp [CardMca.saps]

theorem chainSaps_of_entry (found : mcaEntry addr chain = some cm) :
    chainSaps addr chain = cm.saps := by
  simp [chainSaps, found]

theorem chainSaps_ne_nil : chainSaps addr chain ≠ [] ↔ addr ∈ chain.map CardMca.mca := by
  induction chain with
  | nil => simp
  | cons cm rest ih =>
    rw [chainSaps_cons, map_cons, mem_cons]
    split_ifs with same
    · simp [same, CardMca.saps_ne_nil]
    · rw [ih]
      simp [Ne.symm same]

theorem chainSaps_of_notMem (absent : addr ∉ chain.map CardMca.mca) :
    chainSaps addr chain = [] := by
  by_contra present
  exact absent (chainSaps_ne_nil.mp present)

theorem chainSaps_of_mem (distinct : (chain.map CardMca.mca).Nodup) (inChain : cm ∈ chain) :
    chainSaps cm.mca chain = cm.saps := by
  induction chain with
  | nil => cases inChain
  | cons first rest ih =>
    rw [map_cons, nodup_cons] at distinct
    rw [chainSaps_cons]
    rcases mem_cons.mp inChain with rfl | inRest
    · rw [if_pos rfl]
    · rw [if_neg, ih distinct.2 inRest]
      intro same
      exact distinct.1 (same ▸ mem_map_of_mem inRest)

end Entries

section Alloc

variable {addr other : MacAddr} {sp : Fin maxsaps} {chain : List (CardMca maxsaps)}

theorem chainSaps_dlpiAllocMca : chainSaps other (dlpiAllocMca sp addr chain) =
    if other = addr then addSap sp (chainSaps addr chain)
    else chainSaps other chain := by
  induction chain with
  | nil =>
    rw [dlpiAllocMca, chainSaps_cons]
    by_cases same : other = addr
    · simp [same, addSap, CardMca.saps]
    · simp [same, Ne.symm same]
  | cons cm rest ih =>
    rw [dlpiAllocMca]
    by_cases isEntry : cm.mca = addr
    · rw [if_pos isEntry, chainSaps_cons, if_pos isEntry]
      by_cases same : other = addr
      · subst other
        rw [if_pos rfl]
        unfold addSap
        split_ifs with listed
        · rw [chainSaps_cons, if_pos isEntry]
        · rw [chainSaps_cons, if_pos isEntry]
          rfl
      · have notOther : cm.mca ≠ other := fun isOther => same (isOther ▸ isEntry)
        split_ifs with listed
        · rfl
        · rw [chainSaps_cons, chainSaps_cons, if_neg notOther, if_neg notOther]
    · rw [if_neg isEntry, chainSaps_cons, ih, chainSaps_cons, if_neg isEntry, chainSaps_cons]
      split_ifs with isOther same same
      · exact absurd (isOther.trans same) isEntry
      · rfl
      · rfl
      · rfl

theorem map_dlpiAllocMca : (dlpiAllocMca sp addr chain).map CardMca.mca =
    if addr ∈ chain.map CardMca.mca then chain.map CardMca.mca
    else chain.map CardMca.mca ++ [addr] := by
  induction chain with
  | nil => simp [dlpiAllocMca]
  | cons cm rest ih =>
    rw [dlpiAllocMca]
    by_cases isEntry : cm.mca = addr
    · split_ifs <;> simp_all
    · rw [if_neg isEntry, map_cons, ih, map_cons]
      simp only [mem_cons, Ne.symm isEntry, false_or]
      split_ifs <;> rfl

end Alloc

section Delete

variable {addr : MacAddr} {sp : Fin maxsaps} {cm : CardMca maxsaps} {chain : List (CardMca maxsaps)}

theorem dlpiDeleteMcaSap_spec (listed : sp ∈ cm.saps) :
    (dlpiDeleteMcaSap cm sp = .last ∧ cm.saps = [sp]) ∨ ∃ cm' : CardMca maxsaps,
        dlpiDeleteMcaSap cm sp = .kept cm' ∧ cm'.mca = cm.mca ∧
          cm'.saps = cm.saps.erase sp ∧ cm.saps ≠ [sp] := by
  unfold dlpiDeleteMcaSap CardMca.saps at *
  cases isNext : cm.nextSap with
  | nil =>
    rw [isNext] at listed
    exact .inl ⟨rfl, by rw [mem_singleton.mp listed]⟩
  | cons next others =>
    rw [isNext] at listed
    right
    by_cases isFirst : cm.sapMca = sp
    · refine ⟨{ cm with sapMca := next, nextSap := others }, ?_, rfl, ?_, ?_⟩
      · simp [isFirst]
      · simp [isFirst]
      · simp
    · have inOthers : sp ∈ next :: others := (mem_cons.mp listed).resolve_left (Ne.symm isFirst)
      refine ⟨{ cm with nextSap := (next :: others).erase sp }, ?_, rfl, ?_, ?_⟩
      · simp only [if_neg isFirst, if_pos inOthers]
      · exact (erase_cons_tail (by simpa using isFirst)).symm
      · simp

theorem deleteMca_spec (distinct : (chain.map CardMca.mca).Nodup)
    (listed : chainSaps addr chain = [] ∨ sp ∈ chainSaps addr chain) :
    ∃ chain' : List (CardMca maxsaps), deleteMca sp addr chain = some chain' ∧
        (chain'.map CardMca.mca).Sublist (chain.map CardMca.mca) ∧
        ∀ other, chainSaps other chain' =
            if other = addr then (chainSaps addr chain).erase sp
            else chainSaps other chain := by
  induction chain with
  | nil => exact ⟨[], rfl, Sublist.refl _, fun other => by simp⟩
  | cons cm rest ih =>
    rw [map_cons, nodup_cons] at distinct
    rw [chainSaps_cons] at listed
    by_cases isEntry : cm.mca = addr
    · rw [if_pos isEntry] at listed
      have inEntry := listed.resolve_left CardMca.saps_ne_nil
      have restEmpty : chainSaps addr rest = [] := chainSaps_of_notMem (isEntry ▸ distinct.1)
      rcases dlpiDeleteMcaSap_spec inEntry with
        ⟨isLast, single⟩ | ⟨cm', isKept, sameMca, less, _⟩
      · refine ⟨rest, by simp [deleteMca, isEntry, isLast], by simp, ?_⟩
        intro other
        rw [chainSaps_cons, if_pos isEntry, single]
        split_ifs with same
        · rw [same, restEmpty]
          simp
        · rw [chainSaps_cons, if_neg]
          exact fun isOther => same (isOther ▸ isEntry)
      · refine ⟨cm' :: rest, by simp [deleteMca, isEntry, isKept],
            by simp [sameMca], ?_⟩
        intro other
        rw [chainSaps_cons, chainSaps_cons, chainSaps_cons, sameMca, if_pos isEntry, less, isEntry]
        by_cases same : other = addr
        · simp [same]
        · simp [same, Ne.symm same]
    · rw [if_neg isEntry] at listed
      obtain ⟨chain', isDeleted, sub, lists⟩ := ih distinct.2 listed
      refine ⟨cm :: chain', by simp [deleteMca, isEntry, isDeleted],
          by simpa using sub.cons_cons cm.mca, ?_⟩
      intro other
      rw [chainSaps_cons, lists, chainSaps_cons, if_neg isEntry, chainSaps_cons]
      split_ifs with isOther same
      · exact absurd (isOther.trans same) isEntry
      · rfl
      · rfl
      · rfl

/-- A chain gives up a stream that is closed. -/
theorem clearChain_spec {passed : List (CardMca maxsaps)} (distinct : (chain.map CardMca.mca).Nodup)
    (once : ∀ cm ∈ chain, cm.saps.Nodup) (elsewhere : ∀ cm ∈ passed, sp ∉ cm.saps) :
    ∃ (chain' : List (CardMca maxsaps)) (deleted : List MacAddr),
      clearChain sp passed chain = some ⟨passed.reverse ++ chain', deleted⟩ ∧
        (chain'.map CardMca.mca).Sublist (chain.map CardMca.mca) ∧
        (∀ other, chainSaps other chain' = (chainSaps other chain).erase sp) ∧
        ∀ other, other ∈ deleted ↔ chainSaps other chain = [sp] := by
  induction chain generalizing passed with
  | nil => exact ⟨[], [], by simp [clearChain], Sublist.refl _, fun _ => rfl, fun other => by simp⟩
  | cons cm rest ih =>
    rw [map_cons, nodup_cons] at distinct
    have restOnce : ∀ cm ∈ rest, cm.saps.Nodup :=
      fun other inRest => once other (mem_cons_of_mem cm inRest)
    have cmOnce := once cm mem_cons_self
    have restEmpty : chainSaps cm.mca rest = [] := chainSaps_of_notMem distinct.1
    by_cases isListed : sp ∈ cm.saps
    · rcases dlpiDeleteMcaSap_spec isListed with
        ⟨isLast, single⟩ | ⟨cm', isKept, sameMca, less, notSingle⟩
      · obtain ⟨chain', deleted, isCleared, sub, lists, gone⟩ := ih distinct.2 restOnce elsewhere
        refine ⟨chain', cm.mca :: deleted, ?_, sub.trans (by simp), ?_, ?_⟩
        · cases passed with
          | nil => simp [clearChain, isListed, isLast, isCleared]
          | cons pcm before =>
            have notPcm := elsewhere pcm mem_cons_self
            simp [clearChain, isListed, isLast, notPcm, isCleared]
        · intro other
          rw [lists, chainSaps_cons]
          split_ifs with isOther
          · rw [← isOther, restEmpty, single]
            simp
          · rfl
        · intro other
          rw [mem_cons, gone, chainSaps_cons]
          split_ifs with isOther
          · simp [isOther, single]
          · simp [Ne.symm isOther]
      · have notListed : sp ∉ cm'.saps := by
          rw [less]
          exact cmOnce.not_mem_erase
        have elsewhere' : ∀ cm ∈ cm' :: passed, sp ∉ cm.saps := by
          intro other isPassed
          rcases mem_cons.mp isPassed with rfl | isBefore
          · exact notListed
          · exact elsewhere other isBefore
        obtain ⟨chain', deleted, isCleared, sub, lists, gone⟩ := ih distinct.2 restOnce elsewhere'
        refine ⟨cm' :: chain', deleted, ?_, ?_, ?_, ?_⟩
        · simp [clearChain, isListed, isKept, isCleared]
        · simpa [sameMca] using sub.cons_cons cm.mca
        · intro other
          rw [chainSaps_cons, lists, chainSaps_cons, sameMca, less]
          split_ifs <;> rfl
        · intro other
          rw [gone, chainSaps_cons]
          split_ifs with isOther
          · rw [← isOther, restEmpty]
            simp [notSingle]
          · rfl
    · have elsewhere' : ∀ other ∈ cm :: passed, sp ∉ other.saps := by
        intro other isPassed
        rcases mem_cons.mp isPassed with rfl | isBefore
        · exact isListed
        · exact elsewhere other isBefore
      obtain ⟨chain', deleted, isCleared, sub, lists, gone⟩ := ih distinct.2 restOnce elsewhere'
      refine ⟨cm :: chain', deleted, ?_, ?_, ?_, ?_⟩
      · simp [clearChain, isListed, isCleared]
      · simpa using sub.cons_cons cm.mca
      · intro other
        rw [chainSaps_cons, lists, chainSaps_cons]
        split_ifs with isOther
        · rw [erase_of_not_mem isListed]
        · rfl
      · intro other
        rw [gone, chainSaps_cons]
        split_ifs with isOther
        · rw [← isOther, restEmpty]
          refine ⟨fun absurdity => by simp at absurdity, fun single => ?_⟩
          exact absurd (by simp [single]) isListed
        · rfl

end Delete

def tableSaps (table : Nat → List (CardMca maxsaps)) (addr : MacAddr) : List (Fin maxsaps) :=
  chainSaps addr (table (dlpiHsh addr 6))

structure McaLists (table : Nat → List (CardMca maxsaps))
    (enabled : Fin maxsaps → MacAddr → Bool) : Prop where
  chains : ∀ hsh, ((table hsh).map CardMca.mca).Nodup ∧
      ∀ addr ∈ (table hsh).map CardMca.mca, dlpiHsh addr 6 = hsh
  nodup : ∀ addr, (tableSaps table addr).Nodup
  listed : ∀ addr sp, sp ∈ tableSaps table addr ↔ enabled sp addr = true

section Lists

variable {table : Nat → List (CardMca maxsaps)}
  {enabled enabled' : Fin maxsaps → MacAddr → Bool} {sp : Fin maxsaps}
  {addr other : MacAddr} {hsh : Nat} {chain' : List (CardMca maxsaps)}

theorem tableSaps_update : tableSaps (Function.update table hsh chain') other =
    if dlpiHsh other 6 = hsh then chainSaps other chain'
    else tableSaps table other := by
  unfold tableSaps
  split_ifs with same
  · rw [same, update_self]
  · rw [update_of_ne same]

theorem McaLists.update (lists : McaLists table enabled) (distinct : (chain'.map CardMca.mca).Nodup)
    (hashed : ∀ addr ∈ chain'.map CardMca.mca, dlpiHsh addr 6 = hsh)
    (nodup : ∀ addr, dlpiHsh addr 6 = hsh → (chainSaps addr chain').Nodup)
    (listed : ∀ addr, dlpiHsh addr 6 = hsh →
        ∀ sp, sp ∈ chainSaps addr chain' ↔ enabled' sp addr = true)
    (others : ∀ addr, dlpiHsh addr 6 ≠ hsh → ∀ sp, enabled' sp addr = enabled sp addr) :
    McaLists (Function.update table hsh chain') enabled' where
  chains := by
    intro other
    by_cases same : other = hsh
    · subst other
      rw [update_self]
      exact ⟨distinct, hashed⟩
    · rw [update_of_ne same]
      exact lists.chains other
  nodup := by
    intro other
    rw [tableSaps_update]
    split_ifs with same
    · exact nodup other same
    · exact lists.nodup other
  listed := by
    intro other sp
    rw [tableSaps_update]
    split_ifs with same
    · exact listed other same sp
    · rw [others other same, lists.listed]

theorem nodup_addSap {saps : List (Fin maxsaps)} (nodup : saps.Nodup)
    (notLast : saps.getLast? ≠ some sp) :
    (addSap sp saps).Nodup := by
  unfold addSap
  split_ifs with isListed
  · exact nodup
  · refine nodup_append.mpr ⟨nodup, nodup_singleton sp, ?_⟩
    intro first inSaps second isNew same
    obtain rfl := mem_singleton.mp isNew
    subst first
    rcases eq_nil_or_concat saps with rfl | ⟨others, last, rfl⟩
    · cases inSaps
    · simp only [concat_eq_append, dropLast_concat, getLast?_concat, mem_append,
        mem_singleton] at isListed notLast inSaps
      exact inSaps.elim isListed fun same => notLast (congrArg some same.symm)

theorem mem_addSap {saps : List (Fin maxsaps)} {other : Fin maxsaps} :
    other ∈ addSap sp saps ↔ other = sp ∨ other ∈ saps := by
  unfold addSap
  split_ifs with isListed
  · refine ⟨.inr, fun either => either.elim (fun same => ?_) id⟩
    rw [same]
    exact mem_of_mem_dropLast isListed
  · rw [mem_append, mem_singleton, or_comm]

theorem McaLists.alloc (lists : McaLists table enabled)
    (notLast : (tableSaps table addr).getLast? ≠ some sp) :
    McaLists (Function.update table (dlpiHsh addr 6)
        (dlpiAllocMca sp addr (table (dlpiHsh addr 6))))
      (Function.update enabled sp (Function.update (enabled sp) addr true)) := by
  have chains := lists.chains (dlpiHsh addr 6)
  refine lists.update ?_ ?_ ?_ ?_ ?_
  · rw [map_dlpiAllocMca]
    split_ifs with present
    · exact chains.1
    · refine nodup_append.mpr ⟨chains.1, nodup_singleton _, ?_⟩
      intro first inChain second isNew same
      obtain rfl := mem_singleton.mp isNew
      exact present (same ▸ inChain)
  · intro other inChain
    rw [map_dlpiAllocMca] at inChain
    split_ifs at inChain with present
    · exact chains.2 other inChain
    · rcases mem_append.mp inChain with wasThere | isNew
      · exact chains.2 other wasThere
      · rw [mem_singleton.mp isNew]
  · intro other sameHash
    rw [chainSaps_dlpiAllocMca]
    split_ifs with same
    · exact nodup_addSap (lists.nodup addr) notLast
    · rw [← sameHash]
      exact lists.nodup other
  · intro other sameHash stream
    rw [chainSaps_dlpiAllocMca]
    split_ifs with same
    · subst other
      change stream ∈ addSap sp (tableSaps table addr) ↔ _
      rw [mem_addSap]
      by_cases isStream : stream = sp
      · simp [isStream]
      · simpa [isStream] using lists.listed addr stream
    · have before := lists.listed other stream
      rw [tableSaps, sameHash] at before
      rw [before]
      by_cases isStream : stream = sp
      · subst stream
        simp [same]
      · simp [isStream]
  · intro other notHash stream
    have different : other ≠ addr := fun same => notHash (same ▸ rfl)
    by_cases isStream : stream = sp
    · subst stream
      simp [different]
    · simp [isStream]

theorem tableSaps_alloc : tableSaps (Function.update table (dlpiHsh addr 6)
    (dlpiAllocMca sp addr (table (dlpiHsh addr 6)))) other =
    if other = addr then addSap sp (tableSaps table addr)
    else tableSaps table other := by
  rw [tableSaps_update]
  split_ifs with sameHash same same
  · rw [chainSaps_dlpiAllocMca, if_pos same]
    rfl
  · rw [chainSaps_dlpiAllocMca, if_neg same, ← sameHash]
    rfl
  · exact absurd (same ▸ rfl) sameHash
  · rfl

theorem McaLists.delete (lists : McaLists table enabled)
    (isListed : tableSaps table addr = [] ∨ sp ∈ tableSaps table addr) :
    ∃ chain' : List (CardMca maxsaps), deleteMca sp addr (table (dlpiHsh addr 6)) = some chain' ∧
        McaLists (Function.update table (dlpiHsh addr 6) chain') (Function.update enabled sp
            (Function.update (enabled sp) addr false)) ∧
        ∀ other, tableSaps (Function.update table (dlpiHsh addr 6) chain') other =
            if other = addr then (tableSaps table addr).erase sp
            else tableSaps table other := by
  have chains := lists.chains (dlpiHsh addr 6)
  obtain ⟨chain', isDeleted, sub, saps⟩ := deleteMca_spec chains.1 isListed
  refine ⟨chain', isDeleted, ?_, ?_⟩
  · refine lists.update (sub.nodup chains.1) ?_ ?_ ?_ ?_
    · exact fun other inChain => chains.2 other (sub.subset inChain)
    · intro other sameHash
      rw [saps]
      split_ifs with same
      · exact (lists.nodup addr).erase sp
      · rw [← sameHash]
        exact lists.nodup other
    · intro other sameHash stream
      rw [saps]
      split_ifs with same
      · subst other
        change stream ∈ (tableSaps table addr).erase sp ↔ _
        rw [(lists.nodup addr).mem_erase_iff]
        by_cases isStream : stream = sp
        · simp [isStream]
        · simpa [isStream] using lists.listed addr stream
      · have before := lists.listed other stream
        rw [tableSaps, sameHash] at before
        rw [before]
        by_cases isStream : stream = sp
        · subst stream
          simp [same]
        · simp [isStream]
    · intro other notHash stream
      have different : other ≠ addr := fun same => notHash (same ▸ rfl)
      by_cases isStream : stream = sp
      · subst stream
        simp [different]
      · simp [isStream]
  · intro other
    rw [tableSaps_update]
    split_ifs with sameHash same same
    · rw [saps, if_pos same]
      rfl
    · rw [saps, if_neg same, ← sameHash]
      rfl
    · exact absurd (same ▸ rfl) sameHash
    · rfl

/-- What streams have enabled when one gives up the addresses of a chain. -/
def forgetHash (enabled : Fin maxsaps → MacAddr → Bool) (sp : Fin maxsaps)
    (hsh : Nat) : Fin maxsaps → MacAddr → Bool :=
  fun other addr =>
    if other = sp ∧ dlpiHsh addr 6 = hsh then false else enabled other addr

theorem McaLists.clear (lists : McaLists table enabled) (sp : Fin maxsaps) (hsh : Nat) :
    ∃ (chain' : List (CardMca maxsaps)) (deleted : List MacAddr),
      clearChain sp [] (table hsh) = some ⟨chain', deleted⟩ ∧
        McaLists (Function.update table hsh chain') (forgetHash enabled sp hsh) ∧
        (∀ other, tableSaps (Function.update table hsh chain') other =
            if dlpiHsh other 6 = hsh then (tableSaps table other).erase sp
            else tableSaps table other) ∧
        ∀ other, other ∈ deleted ↔ dlpiHsh other 6 = hsh ∧ tableSaps table other = [sp] := by
  have chains := lists.chains hsh
  have once : ∀ cm ∈ table hsh, cm.saps.Nodup := by
    intro cm inChain
    have sameHash := chains.2 cm.mca (mem_map_of_mem inChain)
    have nodup := lists.nodup cm.mca
    rwa [tableSaps, sameHash, chainSaps_of_mem chains.1 inChain] at nodup
  obtain ⟨chain', deleted, isCleared, sub, saps, gone⟩ :=
    @clearChain_spec maxsaps sp (table hsh) [] chains.1 once (fun _ inNil => by cases inNil)
  refine ⟨chain', deleted, isCleared, ?_, ?_, ?_⟩
  · refine lists.update (sub.nodup chains.1) ?_ ?_ ?_ ?_
    · exact fun other inChain => chains.2 other (sub.subset inChain)
    · intro other sameHash
      rw [saps, ← sameHash]
      exact (lists.nodup other).erase sp
    · intro other sameHash stream
      have before := lists.listed other stream
      have nodup := lists.nodup other
      rw [tableSaps, sameHash] at before nodup
      rw [saps, nodup.mem_erase_iff, before]
      by_cases isStream : stream = sp
      · simp [forgetHash, isStream, sameHash]
      · simp [forgetHash, isStream]
    · intro other notHash stream
      simp [forgetHash, notHash]
  · intro other
    rw [tableSaps_update]
    split_ifs with sameHash
    · rw [saps, ← sameHash]
      rfl
    · rfl
  · intro other
    rw [gone]
    constructor
    · intro single
      have present : other ∈ (table hsh).map CardMca.mca := chainSaps_ne_nil.mp (by simp [single])
      have sameHash := chains.2 other present
      exact ⟨sameHash, by rw [tableSaps, sameHash]; exact single⟩
    · rintro ⟨sameHash, single⟩
      rwa [tableSaps, sameHash] at single

end Lists

end Uw7.Dlpi
