import Uw7.Ipc.ShmAttach

namespace Uw7.Ipc.Shm

/-!
# What an attachment unmaps

`shmaddr` makes room for a segment by unmapping as many bytes as the segment before it
was rounded up by, counted from the address asked for.
-/

open Lib

/-- The bytes that are mapped before and not after. -/
def Unmaps (before after : AddressSpace) (point : Nat) : Prop :=
  before.Covers point ∧ ¬ after.Covers point

/--
What is unmapped is padding of one System V segment that starts before the address: it
is mapped by that segment and lies past its page-rounded size.
-/
def OnlyPadding (before after : AddressSpace) (addr : Nat) : Prop :=
  (∀ point, ¬ Unmaps before after point) ∨ ∃ segp ∈ before.extents, ∃ attached kshmp,
      segp.value = .shm attached kshmp ∧ attached < addr ∧ ∀ point, Unmaps before after point →
          segp.Contains point ∧ attached + kshmp.pageRounded ≤ point

/-- The call attaches as it is meant to. -/
structure AttachesWell (world : World) (kshmp : Kshmid) (uap : Shmata) (pp : Proc) : Prop where
  onlyPadding : OnlyPadding pp.pAs (shmaddr world kshmp uap pp).2 (attachAddress world kshmp uap)
  /-- The range that is returned is free. -/
  free : ∀ addr size, (shmaddr world kshmp uap pp).1 = .ok (addr, size) →
      (shmaddr world kshmp uap pp).2.isFree addr size = true
  /-- An error leaves everything mapped. -/
  errorUnmapsNothing : ∀ error, (shmat world kshmp uap pp).1 = .error error →
      ∀ point, ¬ Unmaps pp.pAs (shmat world kshmp uap pp).2.pAs point

/-- `shmaddr` unmaps `sadj` bytes from `addr` on, where `segp` is mapped. -/
structure Trims (world : World) (kshmp : Kshmid) (uap : Shmata) (pp : Proc) (addr sadj : Nat)
    (segp : Extent SegUse) : Prop where
  address : attachAddress world kshmp uap = addr
  segat : asSegat pp.pAs addr = some segp
  adjustment : startAdjustment pp addr = sadj
  adjusts : sadj ≠ 0
  /-- Past the adjustment there is room for the page-rounded size. -/
  room : ∃ size, attachSize world kshmp addr = some size ∧ asGap pp.pAs (uint (addr + sadj))
      (size - (size - kshmp.pageRounded)) = true

/-- `shmat` gets as far as `shmaddr`. -/
def Admitted (world : World) (pp : Proc) : Prop :=
  world.admission = none ∧ pp.pNshmseg < world.shmseg

/-- Whatever is unmapped to make room is padding, and the room is put to use. -/
def TrimsHarmlessly (world : World) (kshmp : Kshmid) (uap : Shmata) (pp : Proc) : Prop :=
  ∀ addr sadj segp, Trims world kshmp uap pp addr sadj segp →
    (∃ attached saKshmp, segp.value = .shm attached saKshmp ∧
      attached + saKshmp.pageRounded ≤ addr) ∧
    pp.pAs.isFree segp.stop (addr + sadj - segp.stop) = true ∧
    (Admitted world pp → world.mapError = none)

theorem Kshmid.pageRounded_pos (kshmp : Kshmid) : 0 < kshmp.pageRounded := by
  have positive := kshmp.segszPositive
  have fits := kshmp.segszFits
  simp only [pageRounded, roundup, uint, pagesize]
  omega

variable {world : World} {addr len size addr' sadj : Nat} {kshmp : Kshmid} {pp : Proc}
  {asp : AddressSpace} {segp : Extent SegUse} {uap : Shmata}

theorem validUsrRange_fits (addrFits : addr < 2 ^ 32) (lenFits : len < 2 ^ 32)
    (valid : validUsrRange world addr len = true) :
    addr + len < 2 ^ 32 := by
  have bounds := (of_decide_eq_true valid).1
  simp only [uint] at bounds
  omega

theorem attachAddress_fits (world : World) (kshmp : Kshmid) (uap : Shmata) :
    attachAddress world kshmp uap < 2 ^ 32 := by
  have fits := uap.addrFits
  have rounded := fun align : Nat => Nat.div_mul_le_self uap.addr align
  unfold attachAddress
  split
  · split <;> exact lt_of_le_of_lt (rounded _) fits
  · exact fits

theorem attachSize_spec (addrFits : addr < 2 ^ 32) (sized : attachSize world kshmp addr = some size)
    :
    kshmp.pageRounded ≤ size ∧ addr + size < 2 ^ 32 := by
  have covers := kshmp.mapsizeCovers
  have fits := kshmp.mapsizeFits
  have roundedFits : kshmp.pageRounded < 2 ^ 32 := lt_of_le_of_lt covers fits
  have valid : (size = kshmp.kshmMapsize ∨ size = kshmp.pageRounded) ∧
      validUsrRange world addr size = true := by
    unfold attachSize at sized
    grind
  rcases valid.1 with full | rounded
  · subst size
    exact ⟨covers, validUsrRange_fits addrFits fits valid.2⟩
  · subst size
    exact ⟨le_refl _, validUsrRange_fits addrFits roundedFits valid.2⟩

theorem startAdjustment_segat (adjusts : startAdjustment pp addr ≠ 0) :
    ∃ segp, asSegat pp.pAs addr = some segp := by
  unfold startAdjustment at adjusts
  cases segat : asSegat pp.pAs addr with
  | none => simp [segat] at adjusts
  | some segp => exact ⟨segp, rfl⟩

theorem asGap_of_segat (segat : asSegat asp addr = some segp) (positive : 0 < len) :
    asGap asp addr len = false := by
  obtain ⟨member, inside⟩ := (asp.locate_eq_some addr segp).mp segat
  rw [← Bool.not_eq_true]
  intro free
  exact (asp.isFree_iff addr len).mp free addr (le_refl _) (by omega) ⟨segp, member, inside⟩

theorem adjustConflict_kept (keeps :
    startAdjustment pp addr = 0 ∨ asGap pp.pAs (uint (addr + startAdjustment pp addr))
      (size - (size - kshmp.pageRounded)) = false) :
    (adjustConflict kshmp pp addr size).2 = pp.pAs := by
  unfold adjustConflict
  rcases keeps with none | taken
  · simp only [none, ne_eq, not_true_eq_false, false_and, if_false]
    split
    · rfl
    · split
      · rfl
      · split <;> rfl
  · simp only [taken, if_true]
    split <;> rfl

theorem adjustConflict_trimmed (adjusts : startAdjustment pp addr ≠ 0)
    (room : asGap pp.pAs (uint (addr + startAdjustment pp addr))
      (size - (size - kshmp.pageRounded)) = true) :
    ∃ attached, adjustConflict kshmp pp addr size =
      (.ok attached, asUnmap pp.pAs addr (startAdjustment pp addr)) := by
  obtain ⟨segp, segat⟩ := startAdjustment_segat adjusts
  have conflict : asGap pp.pAs addr (startAdjustment pp addr) = false :=
    asGap_of_segat segat (by omega)
  unfold adjustConflict
  simp only [adjusts, room, conflict, ne_eq, not_false_eq_true, false_and,
    and_self, if_false, if_true, Bool.true_eq_false]
  split <;> exact ⟨_, rfl⟩

theorem adjustConflict_free {size' : Nat} (covers : kshmp.pageRounded ≤ size)
    (fits : addr + size < 2 ^ 32)
    (attached : (adjustConflict kshmp pp addr size).1 = .ok (addr', size')) :
    (adjustConflict kshmp pp addr size).2.isFree addr' size' = true := by
  obtain ⟨sadj, isSadj⟩ : ∃ sadj, startAdjustment pp addr = sadj := ⟨_, rfl⟩
  obtain ⟨eadj, isEadj⟩ : ∃ eadj, size - kshmp.pageRounded = eadj := ⟨_, rfl⟩
  unfold adjustConflict at attached ⊢
  simp only [isSadj, isEadj] at attached ⊢
  split at attached
  · cases attached
  rename_i adjusted
  rw [if_neg adjusted]
  split at attached
  · cases attached
  rename_i room
  rw [if_neg room]
  rw [Bool.not_eq_false] at room
  generalize isAsp : (if sadj ≠ 0 ∧ asGap pp.pAs addr sadj = false then
    asUnmap pp.pAs addr sadj else pp.pAs) = asp at attached ⊢
  -- The adjustment itself is free by now, and the range past it still is.
  have startFree : asp.isFree addr sadj = true := by
    subst asp
    split
    · exact pp.pAs.remove_isFree addr sadj
    · rename_i kept
      by_cases empty : sadj = 0
      · rw [ExtentMap.isFree_iff]
        intro point above below
        omega
      · simpa [empty, asGap] using kept
  have restFree : asp.isFree (uint (addr + sadj)) (size - eadj) = true := by
    subst asp
    split
    · exact ExtentMap.isFree_remove room addr sadj
    · exact room
  have roundedFree : asp.isFree addr (size - eadj) = true := by
    by_cases wraps : addr + sadj < 2 ^ 32
    · rw [uint, Nat.mod_eq_of_lt wraps] at restFree
      exact ExtentMap.isFree_join startFree restFree (by omega)
    · exact ExtentMap.isFree_part startFree (by omega)
  split at attached
  · rename_i shrinks
    rw [if_pos shrinks]
    obtain ⟨rfl, rfl⟩ : addr = addr' ∧ size - eadj = size' := by simpa using attached
    exact roundedFree
  · rename_i keeps
    rw [if_neg keeps]
    obtain ⟨rfl, rfl⟩ : addr = addr' ∧ size = size' := by simpa using attached
    by_cases same : eadj = 0
    · simpa [same] using roundedFree
    · have endFree : asp.isFree (uint (addr + size - eadj)) eadj = true := by
        simpa [same, asGap] using keeps
      rw [uint, Nat.mod_eq_of_lt (by omega), Nat.add_sub_assoc (by omega)] at endFree
      exact ExtentMap.isFree_join roundedFree endFree (by omega)

theorem shmaddr_cases (world : World) (kshmp : Kshmid) (uap : Shmata) (pp : Proc)
    (chosen : uap.addr ≠ 0) :
    (∃ addr sadj segp attached, Trims world kshmp uap pp addr sadj segp ∧
      shmaddr world kshmp uap pp = (.ok attached, asUnmap pp.pAs addr sadj)) ∨
    ((shmaddr world kshmp uap pp).2 = pp.pAs ∧
      ∀ addr sadj segp, ¬ Trims world kshmp uap pp addr sadj segp) := by
  unfold shmaddr
  rw [if_neg chosen]
  dsimp only
  cases sized : attachSize world kshmp (attachAddress world kshmp uap) with
  | none =>
    refine .inr ⟨rfl, ?_⟩
    rintro addr sadj segp ⟨rfl, _, _, _, size, isSize, _⟩
    simp [sized] at isSize
  | some size =>
    obtain ⟨covers, _⟩ := attachSize_spec (attachAddress_fits world kshmp uap) sized
    have positive := kshmp.pageRounded_pos
    dsimp only
    by_cases free : asGap pp.pAs (attachAddress world kshmp uap) size = true
    · rw [if_pos free]
      refine .inr ⟨rfl, ?_⟩
      rintro addr sadj segp ⟨rfl, segat, _⟩
      simp [asGap_of_segat segat (by omega : 0 < size)] at free
    · rw [if_neg free]
      by_cases trims : startAdjustment pp (attachAddress world kshmp uap) ≠ 0 ∧ asGap pp.pAs
        (uint (attachAddress world kshmp uap +
          startAdjustment pp (attachAddress world kshmp uap)))
        (size - (size - kshmp.pageRounded)) = true
      · obtain ⟨attached, result⟩ := adjustConflict_trimmed trims.1 trims.2
        obtain ⟨segp, segat⟩ := startAdjustment_segat trims.1
        exact .inl ⟨_, _, segp, attached, ⟨rfl, segat, rfl, trims.1, size, sized, trims.2⟩, result⟩
      · refine .inr ⟨adjustConflict_kept ?_, ?_⟩
        · by_cases none : startAdjustment pp (attachAddress world kshmp uap) = 0
          · exact .inl none
          · exact .inr (by simpa [none] using trims)
        · rintro addr sadj segp ⟨rfl, _, rfl, adjusts, other, isSize, room⟩
          rw [sized] at isSize
          cases isSize
          exact trims ⟨adjusts, room⟩

theorem shmaddr_free {world : World} {kshmp : Kshmid} {uap : Shmata} {pp : Proc}
    (chosen : uap.addr ≠ 0) {addr size : Nat}
    (attached : (shmaddr world kshmp uap pp).1 = .ok (addr, size)) :
    (shmaddr world kshmp uap pp).2.isFree addr size = true := by
  unfold shmaddr at attached ⊢
  rw [if_neg chosen] at attached ⊢
  cases sized : attachSize world kshmp (attachAddress world kshmp uap) with
  | none => simp [sized] at attached
  | some asked =>
    obtain ⟨covers, fits⟩ := attachSize_spec (attachAddress_fits world kshmp uap) sized
    simp only [sized] at attached ⊢
    split at attached
    · rename_i free
      rw [if_pos free]
      obtain ⟨rfl, rfl⟩ : attachAddress world kshmp uap = addr ∧ asked = size := by
        simpa using attached
      exact free
    · rename_i taken
      rw [if_neg taken]
      exact adjustConflict_free covers fits attached

theorem shmaddr_positive {world : World} {kshmp : Kshmid} {uap : Shmata} {pp : Proc}
    (chosen : uap.addr ≠ 0) {addr size : Nat}
    (attached : (shmaddr world kshmp uap pp).1 = .ok (addr, size)) :
    0 < size := by
  have positive := kshmp.pageRounded_pos
  unfold shmaddr at attached
  rw [if_neg chosen] at attached
  cases sized : attachSize world kshmp (attachAddress world kshmp uap) with
  | none => simp [sized] at attached
  | some asked =>
    obtain ⟨covers, _⟩ := attachSize_spec (attachAddress_fits world kshmp uap) sized
    have either : size = asked ∨ size = asked - (asked - kshmp.pageRounded) := by
      simp only [sized, adjustConflict] at attached
      grind
    omega

theorem shmat_error (chosen : uap.addr ≠ 0) {error : ShmError}
    (failed : (shmat world kshmp uap pp).1 = .error error) :
    (shmat world kshmp uap pp).2.pAs = pp.pAs ∨ Admitted world pp ∧ world.mapError ≠ none ∧
      (shmat world kshmp uap pp).2.pAs = (shmaddr world kshmp uap pp).2 := by
  unfold shmat at failed ⊢
  cases admission : world.admission with
  | some errno => exact .inl rfl
  | none =>
    simp only [admission] at failed ⊢
    by_cases full : world.shmseg ≤ pp.pNshmseg
    · rw [if_pos full]
      exact .inl rfl
    · simp only [if_neg full] at failed ⊢
      have admitted : Admitted world pp := ⟨admission, by omega⟩
      have free := @shmaddr_free world kshmp uap pp chosen
      have positive := @shmaddr_positive world kshmp uap pp chosen
      have cases := shmaddr_cases world kshmp uap pp chosen
      generalize shmaddr world kshmp uap pp = outcome at failed free positive cases ⊢
      obtain ⟨result, asp⟩ := outcome
      cases result with
      | error reason =>
        rcases cases with ⟨_, _, _, attached, _, isOk⟩ | ⟨same, _⟩
        · cases isOk
        · exact .inl same
      | ok range =>
        obtain ⟨addr, size⟩ := range
        cases mapError : world.mapError with
        | some errno =>
          refine .inr ⟨admitted, by simp, ?_⟩
          simp [shmmmap, mapError]
        | none =>
          have fits : 0 < size ∧ asp.isFree addr size = true := ⟨positive rfl, free rfl⟩
          simp [shmmmap, mapError, asMap, fits] at failed

theorem shmat_mapError (admitted : Admitted world pp) (fails : world.mapError ≠ none)
    {attached : Nat × Nat} (room : shmaddr world kshmp uap pp = (.ok attached, asp)) :
    (∃ error, (shmat world kshmp uap pp).1 = .error error) ∧
      (shmat world kshmp uap pp).2.pAs = asp := by
  obtain ⟨errno, mapError⟩ := Option.ne_none_iff_exists'.mp fails
  have below : ¬ world.shmseg ≤ pp.pNshmseg := by
    have := admitted.2
    omega
  unfold shmat
  simp [admitted.1, below, room, shmmmap, mapError]

theorem unmaps_asUnmap (asp : AddressSpace) (addr size point : Nat) :
    Unmaps asp (asUnmap asp addr size) point ↔
      asp.Covers point ∧ addr ≤ point ∧ point < addr + size := by
  unfold Unmaps asUnmap
  rw [asp.remove_covers]
  constructor
  · rintro ⟨covered, removed⟩
    by_contra outside
    exact removed ⟨covered, fun inRange => outside ⟨covered, inRange⟩⟩
  · rintro ⟨covered, inRange⟩
    exact ⟨covered, fun kept => kept.2 inRange⟩

theorem not_unmaps_self (asp : AddressSpace) (point : Nat) : ¬ Unmaps asp asp point :=
  fun unmaps => unmaps.2 unmaps.1

theorem Trims.unmaps_address (trims : Trims world kshmp uap pp addr sadj segp) :
    Unmaps pp.pAs (asUnmap pp.pAs addr sadj) addr := by
  obtain ⟨member, inside⟩ := (pp.pAs.locate_eq_some addr segp).mp trims.segat
  have adjusts := trims.adjusts
  exact (unmaps_asUnmap pp.pAs addr sadj addr).mpr ⟨⟨segp, member, inside⟩, by omega, by omega⟩

theorem Trims.unique {sadj' : Nat} {segp' : Extent SegUse}
    (first : Trims world kshmp uap pp addr sadj segp)
    (second : Trims world kshmp uap pp addr' sadj' segp') :
    addr = addr' ∧ sadj = sadj' ∧ segp = segp' := by
  have addresses : addr = addr' := first.address.symm.trans second.address
  subst addresses
  exact ⟨rfl, first.adjustment.symm.trans second.adjustment,
    Option.some.inj (first.segat.symm.trans second.segat)⟩

theorem Trims.onlyPadding_iff (trims : Trims world kshmp uap pp addr sadj segp) :
    OnlyPadding pp.pAs (asUnmap pp.pAs addr sadj) addr ↔
      (∃ attached saKshmp, segp.value = .shm attached saKshmp ∧
        attached + saKshmp.pageRounded ≤ addr) ∧
      pp.pAs.isFree segp.stop (addr + sadj - segp.stop) = true := by
  obtain ⟨member, inside⟩ := (pp.pAs.locate_eq_some addr segp).mp trims.segat
  constructor
  · rintro (nothing | ⟨other, otherMember, attached, saKshmp, isShm, _, padding⟩)
    · exact absurd trims.unmaps_address (nothing addr)
    · obtain rfl := pp.pAs.contains_unique otherMember member
        (padding addr trims.unmaps_address).1 inside
      refine ⟨⟨attached, saKshmp, isShm, (padding addr trims.unmaps_address).2⟩, ?_⟩
      rw [ExtentMap.isFree_iff]
      intro point above below covered
      have inSegment : other.Contains point :=
        (padding point ((unmaps_asUnmap pp.pAs addr sadj point).mpr
          ⟨covered, by simp only [Extent.Contains] at inside; omega,
            by omega⟩)).1
      simp only [Extent.Contains] at inSegment
      omega
  · rintro ⟨⟨attached, saKshmp, isShm, past⟩, free⟩
    have positive := saKshmp.pageRounded_pos
    refine .inr ⟨segp, member, attached, saKshmp, isShm, by omega, ?_⟩
    intro point unmaps
    obtain ⟨covered, above, below⟩ := (unmaps_asUnmap pp.pAs addr sadj point).mp unmaps
    simp only [Extent.Contains] at inside
    refine ⟨⟨by omega, ?_⟩, by omega⟩
    by_contra beyond
    exact (pp.pAs.isFree_iff _ _).mp free point (by omega) (by omega) covered

/--
An attachment at a chosen address is right when the trim it makes, if any, is
harmless.
-/
theorem attachesWell_iff (world : World) (kshmp : Kshmid) (uap : Shmata) (pp : Proc)
    (chosen : uap.addr ≠ 0) :
    AttachesWell world kshmp uap pp ↔ TrimsHarmlessly world kshmp uap pp := by
  have free := @shmaddr_free world kshmp uap pp chosen
  rcases shmaddr_cases world kshmp uap pp chosen with
    ⟨addr, sadj, segp, attached, trims, result⟩ | ⟨same, noTrim⟩
  · have isAddress := trims.address
    have padding := trims.onlyPadding_iff
    constructor
    · intro well addr' sadj' segp' trims'
      obtain ⟨rfl, rfl, rfl⟩ := trims.unique trims'
      have onlyPadding := well.onlyPadding
      rw [result, isAddress] at onlyPadding
      obtain ⟨isShm, between⟩ := padding.mp onlyPadding
      refine ⟨isShm, between, fun admitted => ?_⟩
      by_contra fails
      obtain ⟨⟨error, failed⟩, left⟩ := shmat_mapError admitted fails result
      refine well.errorUnmapsNothing error failed addr ?_
      rw [left]
      exact trims.unmaps_address
    · intro harmless
      obtain ⟨isShm, between, succeeds⟩ := harmless _ _ _ trims
      refine ⟨?_, fun _ _ => free, ?_⟩
      · rw [result, isAddress]
        exact padding.mpr ⟨isShm, between⟩
      · intro error failed point
        rcases shmat_error chosen failed with
          same | ⟨admitted, fails, _⟩
        · rw [same]
          exact not_unmaps_self _ point
        · exact absurd (succeeds admitted) fails
  · constructor
    · intro _ addr sadj segp trims
      exact absurd trims (noTrim addr sadj segp)
    · intro _
      refine ⟨.inl ?_, fun _ _ => free, ?_⟩
      · rw [same]
        exact not_unmaps_self _
      · intro error failed point
        rcases shmat_error chosen failed with kept | ⟨_, _, left⟩
        · rw [kept]
          exact not_unmaps_self _ point
        · rw [left, same]
          exact not_unmaps_self _ point

/-- A segment of five megabytes in large pages. -/
def largeKshmid : Kshmid where
  shmSegsz := 0x500000
  kshmMapsize := 0x800000
  kshmAlign := psePagesize
  supportsAffinity := false
  segszPositive := by decide
  segszFits := by decide
  mapsizeCovers := by decide
  mapsizeFits := by decide
  alignKnown := by decide

/-- A segment of one page. -/
def smallKshmid : Kshmid where
  shmSegsz := 0x1000
  kshmMapsize := 0x1000
  kshmAlign := pagesize
  supportsAffinity := false
  segszPositive := by decide
  segszFits := by decide
  mapsizeCovers := by decide
  mapsizeFits := by decide
  alignKnown := by decide

/-- The large segment at 2 GB, with a file mapped right behind it or not at all. -/
def sampleProc (fileAt : Nat) (behind : 0x80800000 ≤ fileAt) : Proc where
  pAs :=
    { extents := [⟨0x80000000, 0x800000, .shm 0x80000000 largeKshmid⟩, ⟨fileAt, 0x1000, .other⟩]
      sized := by simp
      apart := by simpa [Extent.stop] using behind }
  pSegacct := [⟨0x80000000, 0x800000, .shm largeKshmid⟩]
  pNshmseg := 1

/-- Nothing fails. -/
def sampleWorld : World where
  uvend := 0xC0000000
  shmlba := 0x1000
  shmseg := 6
  mapAddr := fun _ _ => 0
  admission := none
  mapError := none

/-- An address in the padding of the large segment, two megabytes past its data. -/
def sampleShmata : Shmata where
  addr := 0x80700000
  shmRnd := false
  addrFits := by decide

/-- The attachment unmaps a file that is mapped behind the large segment. -/
theorem shmat_unmaps_file : ¬ AttachesWell sampleWorld smallKshmid sampleShmata
    (sampleProc 0x80800000 (by decide)) := by
  intro well
  have left : (shmaddr sampleWorld smallKshmid sampleShmata
      (sampleProc 0x80800000 (by decide))).2.extents =
        [⟨0x80000000, 0x700000, .shm 0x80000000 largeKshmid⟩] := by
    decide +kernel
  have unmaps : Unmaps (sampleProc 0x80800000 (by decide)).pAs
      (shmaddr sampleWorld smallKshmid sampleShmata
        (sampleProc 0x80800000 (by decide))).2 0x80800000 := by
    refine ⟨⟨⟨0x80800000, 0x1000, .other⟩, by simp [sampleProc], by decide⟩, ?_⟩
    rintro ⟨extent, member, inside⟩
    obtain rfl := List.mem_singleton.mp member
    revert inside
    decide
  rcases well.onlyPadding with
    nothing | ⟨segp, member, attached, kshmp, isShm, _, padding⟩
  · exact nothing _ unmaps
  · have inside := (padding _ unmaps).1
    simp only [sampleProc, List.mem_cons, List.not_mem_nil, or_false] at member
    rcases member with isLarge | isFile
    · subst segp
      revert inside
      decide
    · subst segp
      cases isShm

theorem attachesWell_iff_sample : AttachesWell sampleWorld smallKshmid sampleShmata
    (sampleProc 0x81000000 (by decide)) ↔
    TrimsHarmlessly sampleWorld smallKshmid sampleShmata (sampleProc 0x81000000 (by decide)) :=
  attachesWell_iff sampleWorld smallKshmid sampleShmata
    (sampleProc 0x81000000 (by decide)) (by decide)

end Uw7.Ipc.Shm
