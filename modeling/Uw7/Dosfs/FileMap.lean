import Uw7.Dosfs.AccountingFiles

namespace Uw7.Dosfs

/-!
# The map of a file and its cache

The clusters of a file are a chain in the FAT.  The two entries of the fat cache
hold places of that chain, the second one its end; as long as they do, `pcbmap`
answers as if it had followed the chain from its start.
-/

open Lib List Nat

variable {pvp : DosfsVfs} {dep : Denode} {chain : List Nat} {cn : Nat}
variable {lgeterror : Nat → Option Errno}

inductive FileChain (pvp : DosfsVfs) (dep : Denode) : List Nat → Prop where
  | empty (noStart : deStartCluster dep.deDe = 0) : FileChain pvp dep []
  | linked {chain : List Nat} {last : Nat} (isChain :
      Chain (tableEntry pvp) (IsCluster pvp) (deStartCluster dep.deDe) chain)
      (isLast : chain.getLast? = some last) (ended : dosfseof (tableEntry pvp last) = true) :
      FileChain pvp dep chain

/-- No cluster of the volume has the number of an end mark. -/
def BelowMarks (pvp : DosfsVfs) : Prop := pvp.vfsMaxcluster < 0xfff8

theorem mark_le (isMark : dosfseof cn = true) : 0xfff8 ≤ cn := by
  rw [dosfseof, beq_iff_eq] at isMark
  have below := @Nat.and_le_left cn 0xfff8
  rwa [isMark] at below

theorem cluster_lt_word (marks : BelowMarks pvp) (isCluster : IsCluster pvp cn) : cn < 2 ^ 16 := by
  unfold BelowMarks at marks
  omega

theorem dosfseof_cluster (marks : BelowMarks pvp) (isCluster : IsCluster pvp cn) :
    dosfseof cn = false := by
  by_contra isMark
  have above := mark_le (by simpa using isMark)
  unfold BelowMarks at marks
  omega

theorem not_isCluster_mark (marks : BelowMarks pvp) (isMark : dosfseof cn = true) :
    ¬ IsCluster pvp cn := by
  intro isCluster
  rw [dosfseof_cluster marks isCluster] at isMark
  exact Bool.noConfusion isMark

variable {index : Nat}

namespace FileChain

theorem unique {other : List Nat} (fileChain : FileChain pvp dep chain)
    (again : FileChain pvp dep other) : chain = other := by
  have startsNowhere : ∀ {nodes : List Nat}, deStartCluster dep.deDe = 0 →
      Chain (tableEntry pvp) (IsCluster pvp) (deStartCluster dep.deDe) nodes → nodes = [] := by
    intro nodes noStart isChain
    rw [noStart] at isChain
    exact isChain.unique (.stop fun isCluster => absurd isCluster.1 (by decide))
  cases fileChain with
  | empty noStart =>
    cases again with
    | empty _ => rfl
    | linked isChain _ _ => exact (startsNowhere noStart isChain).symm
  | linked isChain _ _ =>
    cases again with
    | empty noStart => exact startsNowhere noStart isChain
    | linked otherChain _ _ => exact isChain.unique otherChain

section

variable (fileChain : FileChain pvp dep chain)
include fileChain

theorem isChain : Chain (tableEntry pvp) (IsCluster pvp) (deStartCluster dep.deDe)
      chain := by
  cases fileChain with
  | empty noStart =>
    rw [noStart]
    exact .stop fun isCluster => absurd isCluster.1 (by decide)
  | linked isChain _ _ => exact isChain

theorem isCluster (member : cn ∈ chain) : IsCluster pvp cn := fileChain.isChain.valid_of_mem member

theorem length_lt (marks : BelowMarks pvp) : chain.length < 0xfff8 := by
  have inVolume : chain.toFinset ⊆ clusters pvp := by
    intro cn member
    exact mem_clusters.mpr (fileChain.isCluster (mem_toFinset.mp member))
  have counted := Finset.card_le_card inVolume
  rw [toFinset_card_of_nodup fileChain.isChain.nodup, clusters, card_Ico] at counted
  unfold BelowMarks at marks
  simp only [clustFirst] at counted
  omega

theorem start_eq_zero_iff : deStartCluster dep.deDe = 0 ↔ chain = [] := by
  constructor
  · intro noStart
    exact fileChain.unique (.empty noStart)
  · intro isEmpty
    cases fileChain with
    | empty noStart => exact noStart
    | linked _ isLast _ => simp [isEmpty] at isLast

theorem first (notEmpty : chain ≠ []) : chain[0]? = some (deStartCluster dep.deDe) := by
  have isChain := fileChain.isChain
  cases isChain with
  | stop => exact absurd rfl notEmpty
  | link _ _ => rfl

end

theorem next (fileChain : FileChain pvp dep chain) (found : chain[index]? = some cn) :
    chain[index + 1]? = some (tableEntry pvp cn) ∨ (index + 1 = chain.length ∧
      dosfseof (tableEntry pvp cn) = true) := by
  cases fileChain with
  | empty _ => simp at found
  | linked isChain isLast ended =>
    rcases isChain.next_of_getElem? found with follows | ⟨last, -⟩
    · exact .inl follows
    · refine .inr ⟨last, ?_⟩
      rw [getLast?_eq_getElem?, ← last, Nat.add_sub_cancel, found] at isLast
      rwa [Option.some.inj isLast]

theorem used (fileChain : FileChain pvp dep chain) (member : cn ∈ chain) :
    tableEntry pvp cn ≠ clustFree := by
  obtain ⟨index, found⟩ := mem_iff_getElem?.mp member
  rcases fileChain.next found with follows | ⟨-, isMark⟩
  · have isNext := fileChain.isCluster (mem_of_getElem? follows)
    intro free
    rw [free] at isNext
    exact absurd isNext.1 (by decide)
  · intro free
    rw [free] at isMark
    exact absurd isMark (by decide)

end FileChain

theorem fcSetcache_small (slot : Fin 2) (indexSmall : index < 2 ^ 16)
    (clusterSmall : cn < 2 ^ 16) : fcSetcache dep slot index cn =
      { dep with deFc := Function.update dep.deFc slot ⟨index, cn⟩ } := by
  rw [fcSetcache, mod_eq_of_lt indexSmall, mod_eq_of_lt clusterSmall]

/-- The entries of the fat cache are places of the chain. -/
structure CacheRight (dep : Denode) (chain : List Nat) : Prop where
  lastMap : (dep.deFc fcLastmap).fcFrcn ≠ fceEmpty → chain[(dep.deFc fcLastmap).fcFrcn]? =
      some (dep.deFc fcLastmap).fcFsrcn
  lastFc : (dep.deFc fcLastfc).fcFrcn ≠ fceEmpty → chain[(dep.deFc fcLastfc).fcFrcn]? =
      some (dep.deFc fcLastfc).fcFsrcn ∧ (dep.deFc fcLastfc).fcFrcn + 1 = chain.length

namespace CacheRight

theorem entry (cache : CacheRight dep chain) (slot : Fin 2)
    (notEmpty : (dep.deFc slot).fcFrcn ≠ fceEmpty) :
    chain[(dep.deFc slot).fcFrcn]? = some (dep.deFc slot).fcFsrcn := by
  obtain rfl | rfl : slot = fcLastmap ∨ slot = fcLastfc := by
    unfold fcLastmap fcLastfc
    omega
  · exact cache.lastMap notEmpty
  · exact (cache.lastFc notEmpty).1

theorem congr {other : Denode} (cache : CacheRight dep chain) (same : other.deFc = dep.deFc) :
    CacheRight other chain := by
  constructor
  · rw [same]
    exact cache.lastMap
  · rw [same]
    exact cache.lastFc

theorem setLastMap (cache : CacheRight dep chain) (found : chain[index]? = some cn)
    (indexSmall : index < 2 ^ 16) (clusterSmall : cn < 2 ^ 16) :
    CacheRight (fcSetcache dep fcLastmap index cn) chain where
  lastMap := by
    intro _
    simpa [fcSetcache_small _ indexSmall clusterSmall] using found
  lastFc := by simpa [fcSetcache, fcLastmap, fcLastfc] using cache.lastFc

theorem setLastFc (lastMap : (dep.deFc fcLastmap).fcFrcn ≠ fceEmpty →
    chain[(dep.deFc fcLastmap).fcFrcn]? = some (dep.deFc fcLastmap).fcFsrcn)
    (found : chain[index]? = some cn) (last : index + 1 = chain.length)
    (indexSmall : index < 2 ^ 16) (clusterSmall : cn < 2 ^ 16) :
    CacheRight (fcSetcache dep fcLastfc index cn) chain where
  lastMap := by simpa [fcSetcache, fcLastmap, fcLastfc] using lastMap
  lastFc := by
    intro _
    simpa [fcSetcache_small _ indexSmall clusterSmall] using And.intro found last

theorem purge (cache : CacheRight dep chain) (frcn : Nat) :
    CacheRight (fcPurge dep frcn) chain := by
  constructor
  · simp only [fcPurge]
    split_ifs with purged
    · intro notEmpty
      exact absurd rfl notEmpty
    · exact cache.lastMap
  · simp only [fcPurge]
    split_ifs with purged
    · intro notEmpty
      exact absurd rfl notEmpty
    · exact cache.lastFc

theorem lookup (cache : CacheRight dep chain) {start : Nat} (first : chain[0]? = some start)
    (findcn : Nat) :
    (fcLookup dep findcn 0 start).1 ≤ findcn ∧ chain[(fcLookup dep findcn 0 start).1]? =
      some (fcLookup dep findcn 0 start).2 := by
  have round : ∀ (closest : Option Fatcache) (slot : Fin 2), (∀ best ∈ closest,
      best.fcFrcn ≤ findcn ∧ chain[best.fcFrcn]? = some best.fcFsrcn) →
      ∀ best ∈ closer dep findcn closest slot, best.fcFrcn ≤ findcn ∧
        chain[best.fcFrcn]? = some best.fcFsrcn := by
    intro closest slot before
    have entered := cache.entry slot
    simp only [closer]
    split_ifs with usable
    · have taken : ∀ best ∈ some (dep.deFc slot), best.fcFrcn ≤ findcn ∧
          chain[best.fcFrcn]? = some best.fcFsrcn := by
        intro best isSlot
        obtain rfl := Option.some.inj isSlot
        exact ⟨usable.2, entered usable.1⟩
      cases closest with
      | none => exact taken
      | some held =>
        simp only
        split_ifs
        · exact taken
        · exact before
    · exact before
  have both := round _ 1 (round none 0 (by simp))
  unfold fcLookup
  cases found : closer dep findcn (closer dep findcn none 0) 1 with
  | none => exact ⟨Nat.zero_le _, first⟩
  | some closest => exact both closest found

end CacheRight

theorem readErrors_eq_some {whichblk : Nat} {straddles : Bool} {error : Errno}
    (failed : readErrors lgeterror whichblk straddles = some error) :
    ∃ bn, lgeterror bn = some error := by
  rcases Option.or_eq_some_iff.mp failed with here | ⟨-, following⟩
  · exact ⟨whichblk, here⟩
  · split_ifs at following
    exact ⟨whichblk + 1, following⟩

theorem nextCluster_cases (lgeterror : Nat → Option Errno) (pvp : DosfsVfs) (cn : Nat) :
    nextCluster lgeterror pvp cn = .ok (tableEntry pvp cn) ∨ ∃ bn error, lgeterror bn = some error ∧
      nextCluster lgeterror pvp cn = .error error := by
  have readable := @nextCluster_eq pvp cn
  unfold nextCluster lookUpEntry at readable ⊢
  simp only at readable ⊢
  cases errors : readErrors lgeterror
    ((if fat12 pvp then cn + cn >>> 1 else cn <<< 1) >>> vfsBnshift + pvp.vfsFatblk)
    (fat12 pvp && (if fat12 pvp then cn + cn >>> 1 else cn <<< 1) &&&
      vfsBrbomask == vfsBytesPerSec - 1) with
  | none =>
    left
    simpa [readErrors, noErrors] using readable
  | some error =>
    right
    obtain ⟨bn, hasError⟩ := readErrors_eq_some errors
    exact ⟨bn, error, hasError, rfl⟩

/-- Where the loop of `pcbmap` may stand in a chain, after a round or before. -/
def StandsAt (chain : List Nat) (i cn prevcn : Nat) : Prop := chain[i]? = some cn ∨
    (i = chain.length ∧ dosfseof cn = true ∧ chain[i - 1]? = some prevcn ∧ 0 < i)

theorem FileChain.followChain (fileChain : FileChain pvp dep chain) (marks : BelowMarks pvp)
    (lgeterror : Nat → Option Errno) (count : Nat) {i cn prevcn : Nat}
    (stands : StandsAt chain i cn prevcn) :
    match followChain lgeterror pvp count i cn prevcn with
    | .error error => ∃ bn, lgeterror bn = some error
    | .ok (reached, next, previous) =>
      StandsAt chain reached next previous ∧ reached ≤ i + count ∧
        (dosfseof next = false → reached = i + count) := by
  induction count generalizing i cn prevcn with
  | zero => exact ⟨stands, le_rfl, fun _ => rfl⟩
  | succ count ih =>
    unfold Dosfs.followChain
    rcases stands with found | ⟨atEnd, isMark, behind, positive⟩
    · have isCluster := fileChain.isCluster (mem_of_getElem? found)
      rw [dosfseof_cluster marks isCluster]
      rcases nextCluster_cases lgeterror pvp cn with read | failed
      · have stands : StandsAt chain (i + 1) (tableEntry pvp cn) cn := by
          rcases fileChain.next found with follows | ⟨last, isMark⟩
          · exact .inl follows
          · exact .inr ⟨last, isMark, found, succ_pos i⟩
        have rest := ih stands
        rw [Nat.add_right_comm] at rest
        simpa [read, add_assoc] using rest
      · obtain ⟨bn, error, hasError, failed⟩ := failed
        simpa [failed] using ⟨bn, hasError⟩
    · simp only [isMark, if_true]
      exact ⟨.inr ⟨atEnd, isMark, behind, positive⟩, by omega, fun notMark => by cases notMark⟩

/-- The answer of `pcbmap` is the one of the chain, or a read error. -/
def MapsRight (lgeterror : Nat → Option Errno) (chain : List Nat) (findcn : Nat) : Mapping → Prop
  | .found cn => chain[findcn]? = some cn
  | .beyond clusters => clusters = chain.length ∧ chain.length ≤ findcn
  | .failed error => ∃ bn, lgeterror bn = some error

theorem FileChain.pcbmap (fileChain : FileChain pvp dep chain) (marks : BelowMarks pvp)
    (cache : CacheRight dep chain) (notEmpty : chain ≠ []) (lgeterror : Nat → Option Errno)
    (findcn prevcn : Nat) :
    MapsRight lgeterror chain findcn (Dosfs.pcbmap lgeterror pvp dep findcn prevcn).1 ∧
      CacheRight (Dosfs.pcbmap lgeterror pvp dep findcn prevcn).2 chain ∧
      ∀ clusters, (Dosfs.pcbmap lgeterror pvp dep findcn prevcn).1 = .beyond clusters →
        ((Dosfs.pcbmap lgeterror pvp dep findcn prevcn).2.deFc fcLastfc).fcFrcn ≠ fceEmpty := by
  have hasStart : deStartCluster dep.deDe ≠ dosfsRoot :=
    fun noStart => notEmpty (fileChain.start_eq_zero_iff.mp noStart)
  have short := fileChain.length_lt marks
  have small : ∀ cn ∈ chain, cn < 2 ^ 16 :=
    fun cn member => cluster_lt_word marks (fileChain.isCluster member)
  obtain ⟨before, found⟩ := cache.lookup (fileChain.first notEmpty) findcn
  have walked := fileChain.followChain marks lgeterror
      (findcn - (fcLookup dep findcn 0 (deStartCluster dep.deDe)).1)
      (show StandsAt chain _ _ prevcn from .inl found)
  simp only [Dosfs.pcbmap, if_neg hasStart]
  cases followed : Dosfs.followChain lgeterror pvp
    (findcn - (fcLookup dep findcn 0 (deStartCluster dep.deDe)).1)
    (fcLookup dep findcn 0 (deStartCluster dep.deDe)).1
    (fcLookup dep findcn 0 (deStartCluster dep.deDe)).2 prevcn with
  | error error =>
    rw [followed] at walked
    exact ⟨walked, cache, fun _ returned => by cases returned⟩
  | ok reached =>
    obtain ⟨i, cn, previous⟩ := reached
    rw [followed] at walked
    obtain ⟨stands, bounded, passed⟩ := walked
    rw [Nat.add_sub_cancel' before] at bounded passed
    cases isMark : dosfseof cn with
    | true =>
      simp only [isMark, if_true]
      rcases stands with inChain | ⟨atEnd, -, last, positive⟩
      · have isCluster := fileChain.isCluster (mem_of_getElem? inChain)
        rw [dosfseof_cluster marks isCluster] at isMark
        exact Bool.noConfusion isMark
      · have index : (i + (2 ^ 32 - 1)) % 2 ^ 16 = i - 1 := by
          omega
        have entered : fcSetcache dep fcLastfc (i + (2 ^ 32 - 1)) previous =
            fcSetcache dep fcLastfc (i - 1) previous := by
          rw [fcSetcache, fcSetcache, index, mod_eq_of_lt (show i - 1 < 2 ^ 16 by omega)]
        rw [entered]
        have previousSmall := small previous (mem_of_getElem? last)
        refine ⟨⟨atEnd, atEnd ▸ bounded⟩, .setLastFc cache.lastMap last (by omega) (by omega)
          previousSmall, fun _ _ => ?_⟩
        rw [fcSetcache_small _ (by omega) previousSmall]
        simp only [Function.update_self, fceEmpty]
        omega
    | false =>
      have atIndex := passed isMark
      subst atIndex
      simp only [isMark, Bool.false_eq_true, if_false]
      rcases stands with inChain | ⟨-, mark, -, -⟩
      · have inside : i < chain.length := (List.getElem?_eq_some_iff.mp inChain).1
        exact ⟨inChain, cache.setLastMap inChain (by omega) (small cn (mem_of_getElem? inChain)),
          fun _ returned => by cases returned⟩
      · rw [isMark] at mark
        exact Bool.noConfusion mark

theorem FileChain.pcbmap_empty (fileChain : FileChain pvp dep []) (lgeterror : Nat → Option Errno)
    (findcn prevcn : Nat) :
    (Dosfs.pcbmap lgeterror pvp dep findcn prevcn).2 = dep ∧ (isadir dep = false →
      (Dosfs.pcbmap lgeterror pvp dep findcn prevcn).1 = .beyond 0) := by
  have noStart : deStartCluster dep.deDe = dosfsRoot := fileChain.start_eq_zero_iff.mpr rfl
  simp only [Dosfs.pcbmap, if_pos noStart]
  constructor
  · split_ifs <;> rfl
  · intro regular
    rw [regular]
    rfl

theorem FileChain.cacheRight_pcbmap (fileChain : FileChain pvp dep chain) (marks : BelowMarks pvp)
    (cache : CacheRight dep chain) (lgeterror : Nat → Option Errno) (findcn prevcn : Nat) :
    CacheRight (Dosfs.pcbmap lgeterror pvp dep findcn prevcn).2 chain := by
  by_cases isEmpty : chain = []
  · subst isEmpty
    rw [(fileChain.pcbmap_empty lgeterror findcn prevcn).1]
    exact cache
  · exact (fileChain.pcbmap marks cache isEmpty lgeterror findcn prevcn).2.1

theorem FileChain.mapsRight_iff (fileChain : FileChain pvp dep chain) (marks : BelowMarks pvp)
    (cache : CacheRight dep chain) : (∀ lgeterror findcn prevcn, MapsRight lgeterror chain findcn
      (Dosfs.pcbmap lgeterror pvp dep findcn prevcn).1) ↔
      (isadir dep = true → chain ≠ []) := by
  constructor
  · intro right isDirectory isEmpty
    subst isEmpty
    have noStart : deStartCluster dep.deDe = dosfsRoot := fileChain.start_eq_zero_iff.mpr rfl
    have mapped := right noErrors 0 0
    simp [Dosfs.pcbmap, noStart, isDirectory, MapsRight] at mapped
  · intro hasCluster lgeterror findcn prevcn
    by_cases isEmpty : chain = []
    · subst isEmpty
      have regular : isadir dep = false := by
        by_contra isDirectory
        exact hasCluster (by simpa using isDirectory) rfl
      rw [(fileChain.pcbmap_empty lgeterror findcn prevcn).2 regular]
      exact ⟨rfl, Nat.zero_le _⟩
    · exact (fileChain.pcbmap marks cache isEmpty lgeterror findcn prevcn).1

end Uw7.Dosfs
