import Uw7.Lib.OrderedWalk
import Uw7.Lib.Firsts

namespace Uw7.Rtld

/-!
# Init and fini order

`build_init`, `_rt_build_init_list`, `_rt_call_init` and `_rt_process_fini` of the
run-time linker, from `rtld/i386/rtfcns.c`.  Objects are the entries of the link
map; memory is always there.
-/

open Lib Function List

/-- What the routines read of the link map. -/
structure LinkMap (Obj : Type) where
  /-- From `_rt_map_head` over `NEXT`. -/
  maps : List Obj
  /-- `NAME` is not null; it is for the a.out. -/
  name : Obj → Bool
  /-- The list at `NEEDED`. -/
  needed : Obj → List Obj
  /-- `INIT` is not null. -/
  init : Obj → Bool
  /-- `FINI` is not null. -/
  fini : Obj → Bool

/-- The state of `build_init`; the list ends at `tail`. -/
structure BuildState (Obj : Type) where
  /-- `RT_NEEDED_SEEN`. -/
  neededSeen : Obj → Bool
  ilist : List Obj

/-- The state of `_rt_call_init`. -/
structure InitState (Obj : Type) where
  /-- `RT_INIT_CALLED`. -/
  initCalled : Obj → Bool
  flist : List Obj
  /-- The objects whose init routines were called. -/
  calls : List Obj

/-- The state of `_rt_process_fini`. -/
structure FiniState (Obj : Type) where
  /-- `RT_FINI_CALLED`. -/
  finiCalled : Obj → Bool
  /-- The objects whose fini routines were called. -/
  calls : List Obj

variable {Obj : Type} [DecidableEq Obj]

/-- A new entry at `tail`. -/
def BuildState.append (st : BuildState Obj) (lm : Obj) : BuildState Obj :=
  { st with ilist := st.ilist ++ [lm] }

def BuildState.see (st : BuildState Obj) (lm : Obj) : BuildState Obj :=
  { st with neededSeen := update st.neededSeen lm true }

/-- `build_init`: siblings first, then children, then the current node. -/
def buildInit (link : LinkMap Obj) : Nat → List Obj → BuildState Obj → Option (BuildState Obj)
  | 0, _, _ => none
  | fuel + 1, lptr, st =>
    lptr.foldr (fun lm siblings =>
        siblings.bind fun st =>
          (if st.neededSeen lm then some st
            else if (link.needed lm).isEmpty then some (st.see lm)
            else buildInit link fuel (link.needed lm) (st.see lm)).map fun st => st.append lm)
      (some st)

/-- `CLEAR_FLAG(lm1, RT_NEEDED_SEEN)` over the whole link map. -/
def clearNeededSeen (link : LinkMap Obj) (neededSeen : Obj → Bool) : Obj → Bool :=
  link.maps.foldl (fun flag lm1 => update flag lm1 false) neededSeen

def rtBuildInitList (link : LinkMap Obj) (neededSeen : Obj → Bool) (lm : Obj) : Option (List Obj) :=
  let st : BuildState Obj := ⟨clearNeededSeen link neededSeen, []⟩
  let st := st.see lm
  (if (link.needed lm).isEmpty then some st
    else buildInit link (link.maps.length + 1) (link.needed lm) st).map
    fun st => if link.name lm then (st.append lm).ilist else st.ilist

def callInitLoop (link : LinkMap Obj) : List Obj → InitState Obj → InitState Obj
  | [], st => st
  | lm :: mnext, st =>
    let st :=
      if st.initCalled lm then st
      else
        { st with
          initCalled := update st.initCalled lm true
          calls := if link.init lm then st.calls ++ [lm] else st.calls }
    callInitLoop link mnext { st with flist := lm :: st.flist }

def rtCallInit (link : LinkMap Obj) (initCalled : Obj → Bool) (ilist : List Obj) : InitState Obj :=
  callInitLoop link ilist ⟨initCalled, [], []⟩

def processFiniLoop (link : LinkMap Obj) (count : Obj → Int) (aboutToExit : Bool) :
    List Obj → FiniState Obj → FiniState Obj
  | [], st => st
  | lm :: rest, st =>
    let st :=
      if (aboutToExit || count lm == 0) && !st.finiCalled lm then
        { st with
          finiCalled := update st.finiCalled lm true
          calls := if link.fini lm then st.calls ++ [lm] else st.calls }
      else
        st
    processFiniLoop link count aboutToExit rest st

def rtProcessFini (link : LinkMap Obj) (count : Obj → Int) (aboutToExit : Bool)
    (finiCalled : Obj → Bool) (list : List Obj) : List Obj :=
  (processFiniLoop link count aboutToExit list ⟨finiCalled, []⟩).calls

/-- What is below the root, with the root itself if it is not the a.out. -/
def LinkMap.starts (link : LinkMap Obj) (lm : Obj) : List Obj :=
  if link.name lm then [lm] else link.needed lm

/-- Some link map with the objects that its objects need. -/
structure LinkMap.Loaded (link : LinkMap Obj) : Prop where
  closed : ∀ lm ∈ link.maps, ∀ dep ∈ link.needed lm, dep ∈ link.maps
  acyclic : Acyclic link.needed

variable {lm : Obj}

theorem clearNeededSeen_mem (link : LinkMap Obj) (neededSeen : Obj → Bool)
    (isMember : lm ∈ link.maps) :
    clearNeededSeen link neededSeen lm = false := by
  have cleared : ∀ (maps : List Obj) (flag : Obj → Bool), lm ∈ maps ∨ flag lm = false →
      maps.foldl (fun flag lm1 => update flag lm1 false) flag lm = false := by
    intro maps
    induction maps with
    | nil =>
      intro flag known
      exact known.resolve_left not_mem_nil
    | cons lm1 rest ih =>
      intro flag known
      refine ih _ ?_
      by_cases same : lm = lm1
      · subst same
        exact .inr (update_self ..)
      · have other : update flag lm1 false lm = flag lm := update_of_ne same ..
        obtain isMember | clear := known
        · exact .inl ((mem_cons.mp isMember).resolve_left same)
        · exact .inr (other.trans clear)
  exact cleared link.maps neededSeen (.inl isMember)

def unseen (link : LinkMap Obj) (st : BuildState Obj) : List Obj :=
  link.maps.filter fun lm => !st.neededSeen lm

theorem see_seen (st : BuildState Obj) (lm : Obj) :
    (fun other => (st.see lm).neededSeen other = true) =
      fun other => other = lm ∨ st.neededSeen other = true := by
  funext other
  by_cases same : other = lm <;> simp [BuildState.see, same]

variable {link : LinkMap Obj}

theorem unseen_see {st : BuildState Obj} (isMember : lm ∈ link.maps)
    (isNew : st.neededSeen lm = false) :
    (unseen link (st.see lm)).length < (unseen link st).length := by
  have smaller : unseen link (st.see lm) =
      (unseen link st).filter fun other => decide (other ≠ lm) := by
    rw [unseen, unseen, filter_filter]
    refine filter_congr fun other _ => ?_
    by_cases same : other = lm <;> simp [BuildState.see, same]
  rw [smaller, length_filter_lt_length_iff_exists]
  exact ⟨lm, by simp [unseen, isMember, isNew], by simp⟩

omit [DecidableEq Obj] in
theorem unseen_mono {st st' : BuildState Obj}
    (more : ∀ lm, st.neededSeen lm = true → st'.neededSeen lm = true) :
    (unseen link st').length ≤ (unseen link st).length := by
  refine (monotone_filter_right link.maps fun lm isNew => ?_).length_le
  cases isSeen : st.neededSeen lm with
  | true => simp [more lm isSeen] at isNew
  | false => rfl

theorem buildInit_cons (link : LinkMap Obj) (fuel : Nat) (lm : Obj) (rest : List Obj)
    (st : BuildState Obj) :
    buildInit link (fuel + 1) (lm :: rest) st = (buildInit link (fuel + 1) rest st).bind fun st =>
      (if st.neededSeen lm then some st
        else if (link.needed lm).isEmpty then some (st.see lm)
        else buildInit link fuel (link.needed lm) (st.see lm)).map fun st => st.append lm :=
  rfl

omit [DecidableEq Obj] in
theorem settled_children {next : Obj → List Obj} {seen seen' : Obj → Prop}
    {rest order : List Obj} (acyclic : Acyclic next) (settled : Settled next seen (lm :: rest))
    (walk : WalkOf next seen rest order seen') :
    Settled next (fun other => other = lm ∨ seen' other) (next lm) := by
  rintro node isBelow (rfl | isSeen) successor leads
  · exact absurd isBelow (Below.irrefl acyclic node)
  · right
    rw [walk.adds] at isSeen ⊢
    obtain isOld | inRest := isSeen
    · exact .inl (settled node isBelow.up isOld successor leads)
    · exact .inr (inRest.step leads)

theorem buildInit_walks (loaded : link.Loaded) {fuel : Nat} {lptr : List Obj}
    {st : BuildState Obj} (settled : Settled link.needed (fun lm => st.neededSeen lm = true) lptr)
    (listed : ∀ lm ∈ lptr, lm ∈ link.maps) (enough : (unseen link st).length < fuel) :
    ∃ st' order, buildInit link fuel lptr st = some st' ∧ st'.ilist = st.ilist ++ order ∧
      WalkOf link.needed (fun lm => st.neededSeen lm = true) lptr order
        (fun lm => st'.neededSeen lm = true) := by
  induction fuel generalizing lptr st with
  | zero => exact absurd enough (Nat.not_lt_zero _)
  | succ fuel ih =>
    induction lptr with
    | nil => exact ⟨st, [], rfl, by simp, .nil⟩
    | cons lm rest siblings =>
      have settledRest : Settled link.needed (fun lm => st.neededSeen lm = true) rest :=
        fun node isBelow => settled node isBelow.tail
      obtain ⟨st', order, built, list, walk⟩ := siblings settledRest fun other isMember =>
        listed other (mem_cons_of_mem _ isMember)
      have isListed : lm ∈ link.maps := listed lm mem_cons_self
      rw [buildInit_cons, built, Option.bind_some]
      cases isSeen : st'.neededSeen lm with
      | true =>
        refine ⟨st'.append lm, order ++ [lm], by simp, ?_, ?_⟩
        · simp [BuildState.append, list]
        · exact walk.old settled isSeen
      | false =>
        have isNew : ¬ st'.neededSeen lm = true := by simp [isSeen]
        have deeper : ∃ st'' below, (if (link.needed lm).isEmpty then some (st'.see lm)
                else buildInit link fuel (link.needed lm) (st'.see lm)) = some st'' ∧
                st''.ilist = st'.ilist ++ below ∧ WalkOf link.needed (fun other =>
                  other = lm ∨ st'.neededSeen other = true)
                  (link.needed lm) below (fun other => st''.neededSeen other = true) := by
          rw [← see_seen]
          cases children : link.needed lm with
          | nil => exact ⟨st'.see lm, [], rfl, by simp [BuildState.see], .nil⟩
          | cons child others =>
            rw [← children]
            have notEmpty : (link.needed lm).isEmpty = false := by simp [children]
            simp only [notEmpty, Bool.false_eq_true, if_false]
            refine @ih _ (st'.see lm) ?_ ?_ ?_
            · rw [see_seen]
              exact settled_children loaded.acyclic settled walk
            · exact loaded.closed lm isListed
            · have fewer := unseen_see isListed isSeen
              have kept : (unseen link st').length ≤ (unseen link st).length :=
                unseen_mono fun other isOld => (walk.adds other).mpr (.inl isOld)
              omega
        obtain ⟨st'', below, went, list', walk'⟩ := deeper
        refine ⟨st''.append lm, order ++ below ++ [lm], ?_, ?_, ?_⟩
        · simp only [Bool.false_eq_true, if_false, went]
          rfl
        · simp [BuildState.append, list, list']
        · exact walk.new loaded.acyclic settled isNew walk'

omit [DecidableEq Obj] in
theorem LinkMap.Loaded.below_mem (loaded : link.Loaded) {lptr : List Obj}
    (listed : ∀ lm ∈ lptr, lm ∈ link.maps) {node : Obj} (isBelow : Below link.needed lptr node) :
    node ∈ link.maps := by
  obtain ⟨start, isStart, path⟩ := isBelow
  induction path with
  | refl => exact listed start isStart
  | tail _ leads ih => exact loaded.closed _ ih _ leads

theorem rtBuildInitList_walks (loaded : link.Loaded) (neededSeen : Obj → Bool)
    (isMember : lm ∈ link.maps) :
    ∃ ilist seen seen', rtBuildInitList link neededSeen lm = some ilist ∧
      WalkOf link.needed seen (link.starts lm) ilist seen' ∧
      ∀ node, Below link.needed (link.starts lm) node → ¬ seen node := by
  let cleared : BuildState Obj := ⟨clearNeededSeen link neededSeen, []⟩
  have clear : ∀ node, Below link.needed [lm] node → ¬ cleared.neededSeen node = true := by
    intro node isBelow
    have inMaps : node ∈ link.maps := loaded.below_mem (by simpa using isMember) isBelow
    simp [cleared, clearNeededSeen_mem link neededSeen inMaps]
  have settled : Settled link.needed (fun other => (cleared.see lm).neededSeen other = true)
      (link.needed lm) := by
    rw [see_seen]
    rintro node isBelow (rfl | isSeen)
    · exact absurd isBelow (Below.irrefl loaded.acyclic node)
    · exact absurd isSeen (clear node isBelow.up)
  have built : ∃ st order, (if (link.needed lm).isEmpty then some (cleared.see lm)
          else buildInit link (link.maps.length + 1) (link.needed lm) (cleared.see lm)) = some st ∧
          st.ilist = order ∧
          WalkOf link.needed (fun other => other = lm ∨ cleared.neededSeen other = true)
            (link.needed lm) order (fun other => st.neededSeen other = true) := by
    rw [← see_seen]
    cases children : link.needed lm with
    | nil => exact ⟨cleared.see lm, [], rfl, rfl, .nil⟩
    | cons child others =>
      rw [← children]
      have notEmpty : (link.needed lm).isEmpty = false := by simp [children]
      simp only [notEmpty, Bool.false_eq_true, if_false]
      have enough : (unseen link (cleared.see lm)).length < link.maps.length + 1 :=
        Nat.lt_succ_of_le (length_filter_le ..)
      obtain ⟨st, order, went, list, walk⟩ :=
        buildInit_walks loaded settled (loaded.closed lm isMember) enough
      exact ⟨st, order, went, list, walk⟩
  obtain ⟨st, order, went, list, walk⟩ := built
  have result : rtBuildInitList link neededSeen lm =
      some (if link.name lm then st.ilist ++ [lm] else st.ilist) :=
    congrArg (Option.map _) went
  rw [list] at result
  cases named : link.name lm with
  | true =>
    have starts : link.starts lm = [lm] := by
      rw [LinkMap.starts, named]
      rfl
    have isNew : ¬ cleared.neededSeen lm = true := clear lm (.head ..)
    have settledRoot : Settled link.needed (fun other => cleared.neededSeen other = true) [lm] :=
      fun node isBelow isSeen => absurd isSeen (clear node isBelow)
    have rootWalk := WalkOf.nil.new loaded.acyclic settledRoot isNew walk
    rw [starts]
    refine ⟨order ++ [lm], _, _, ?_, rootWalk, clear⟩
    rw [result, named]
    rfl
  | false =>
    have starts : link.starts lm = link.needed lm := by
      rw [LinkMap.starts, named]
      rfl
    rw [starts]
    refine ⟨order, _, _, ?_, walk, ?_⟩
    · rw [result, named]
      rfl
    · rintro node isBelow (rfl | isSeen)
      · exact Below.irrefl loaded.acyclic node isBelow
      · exact clear node isBelow.up isSeen

theorem callInitLoop_calls (link : LinkMap Obj) (ilist : List Obj) (st : InitState Obj) :
    (callInitLoop link ilist st).calls = st.calls ++ firsts st.initCalled (ilist.filter link.init) ∧
      (callInitLoop link ilist st).flist = ilist.reverse ++ st.flist := by
  induction ilist generalizing st with
  | nil => simp [callInitLoop, firsts]
  | cons lm mnext ih =>
    rw [callInitLoop]
    obtain ⟨calls, flist⟩ := ih _
    rw [calls, flist]
    refine ⟨?_, ?_⟩
    · cases called : st.initCalled lm with
      | true => cases isInit : link.init lm <;> simp [called, isInit, firsts]
      | false =>
        cases isInit : link.init lm with
        | true => simp [called, isInit, firsts]
        | false =>
          have absent : lm ∉ mnext.filter link.init := by simp [isInit]
          simp [isInit, firsts_update absent]
    · cases st.initCalled lm <;> simp

/-- The objects whose fini routines are to be called. -/
def finalised (link : LinkMap Obj) (count : Obj → Int) (aboutToExit : Bool) (lm : Obj) : Bool :=
  (aboutToExit || count lm == 0) && link.fini lm

theorem processFiniLoop_calls (link : LinkMap Obj) (count : Obj → Int) (aboutToExit : Bool)
    (list : List Obj) (st : FiniState Obj) :
    (processFiniLoop link count aboutToExit list st).calls = st.calls ++ firsts st.finiCalled
      (list.filter (finalised link count aboutToExit)) := by
  induction list generalizing st with
  | nil => simp [processFiniLoop, firsts]
  | cons lm rest ih =>
    rw [processFiniLoop, ih]
    cases now : (aboutToExit || count lm == 0) with
    | false => simp [now, finalised]
    | true =>
      have same : finalised link count aboutToExit lm = link.fini lm := by simp [finalised, now]
      cases called : st.finiCalled lm with
      | true => cases isFini : link.fini lm <;> simp [called, isFini, firsts, same]
      | false =>
        cases isFini : link.fini lm with
        | true => simp [called, isFini, firsts, same]
        | false =>
          have absent : lm ∉ rest.filter (finalised link count aboutToExit) := by
            simp [same, isFini]
          simp [isFini, same, firsts_update absent]

end Uw7.Rtld
