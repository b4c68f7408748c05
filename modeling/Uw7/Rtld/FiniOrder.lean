import Uw7.Rtld.InitOrder

namespace Uw7.Rtld

/-!
# When fini routines run in order

The init routines always run below before above, and each runs once.  The fini
routines run in the order of the last occurrences in the list.
-/

open Lib List

variable {Obj : Type} [DecidableEq Obj]

/-- One object needs the other, over any number of objects. -/
def LinkMap.DependsOn (link : LinkMap Obj) : Obj → Obj → Prop :=
  Relation.TransGen (Leads link.needed)

/-- The objects that are initialised for a root. -/
def LinkMap.Listed (link : LinkMap Obj) (root lm : Obj) : Prop :=
  Below link.needed (link.starts root) lm

/-- The flags of the objects and their counts when the routines are called. -/
structure Called (Obj : Type) where
  neededSeen : Obj → Bool
  initCalled : Obj → Bool
  /-- `RT_FINI_CALLED`, `COUNT` and the argument of `_rt_process_fini`. -/
  finiCalled : Obj → Bool
  count : Obj → Int
  aboutToExit : Bool

/-- The init routine of the object is still to be called. -/
def LinkMap.toInit (link : LinkMap Obj) (called : Called Obj) (lm : Obj) : Prop :=
  link.init lm = true ∧ called.initCalled lm = false

/-- The fini routine of the object is still to be called. -/
def LinkMap.toFini (link : LinkMap Obj) (called : Called Obj) (lm : Obj) : Prop :=
  finalised link called.count called.aboutToExit lm = true ∧ called.finiCalled lm = false

/-- The calls of init routines, and later those of fini routines. -/
def initFini (link : LinkMap Obj) (called : Called Obj)
    (root : Obj) : Option (List Obj × List Obj) :=
  (rtBuildInitList link called.neededSeen root).map fun ilist =>
    let inits := rtCallInit link called.initCalled ilist
    (inits.calls, rtProcessFini link called.count called.aboutToExit called.finiCalled inits.flist)

/-- Each routine is called once, init routines below before above, and fini
routines above before below. -/
structure InitFiniWell (link : LinkMap Obj) (called : Called Obj) (root : Obj)
    (inits finis : List Obj) : Prop where
  initOnce : inits.Nodup ∧ ∀ lm, lm ∈ inits ↔ link.Listed root lm ∧ link.toInit called lm
  initOrder : ∀ before lm after, inits = before ++ lm :: after →
      ∀ dep, link.DependsOn lm dep → link.toInit called dep → dep ∈ before
  finiOnce : finis.Nodup ∧ ∀ lm, lm ∈ finis ↔ link.Listed root lm ∧ link.toFini called lm
  finiOrder : ∀ before dep after, finis = before ++ dep :: after →
      ∀ lm, link.Listed root lm → link.DependsOn lm dep → link.toFini called lm → lm ∈ before

/--
An entry of a list is known by its path.  The lists of an object are read at the
first path that leads to it, from their last entries to their first, and what is
below an entry comes before it.  Some entry that names an object comes behind all
that name what it depends on.
-/
def LastEntriesOrdered (link : LinkMap Obj) (called : Called Obj) (root : Obj) : Prop := ∀ lm dep,
    link.Listed root lm → link.DependsOn lm dep → link.toFini called lm →
    link.toFini called dep → ∃ path, Walked link.needed (fun _ => False) (link.starts root) path ∧
        follow link.needed (link.starts root) path = some lm ∧
        ∀ path', Walked link.needed (fun _ => False) (link.starts root) path' →
          follow link.needed (link.starts root) path' = some dep → Before path' path

theorem inits_eq (link : LinkMap Obj) (called : Called Obj) (ilist : List Obj) :
    (rtCallInit link called.initCalled ilist).calls =
      firsts called.initCalled (ilist.filter link.init) :=
  (callInitLoop_calls link ilist _).1

theorem finis_eq (link : LinkMap Obj) (called : Called Obj) (ilist : List Obj) :
    rtProcessFini link called.count called.aboutToExit called.finiCalled
      (rtCallInit link called.initCalled ilist).flist =
      firsts called.finiCalled (ilist.reverse.filter
        (finalised link called.count called.aboutToExit)) := by
  have reversed : (rtCallInit link called.initCalled ilist).flist = ilist.reverse := by
    rw [rtCallInit, (callInitLoop_calls link ilist _).2, append_nil]
  rw [reversed]
  exact processFiniLoop_calls link _ _ _ _

section

variable {link : LinkMap Obj} {called : Called Obj} {root : Obj}
  {ilist : List Obj} {seen seen' : Obj → Prop}

theorem finis_split {before after : List Obj} {lm dep : Obj} (different : lm ≠ dep)
    (isDep : link.toFini called dep) (split : firsts called.finiCalled (ilist.reverse.filter
      (finalised link called.count called.aboutToExit)) = before ++ dep :: after)
    (isLm : link.toFini called lm) :
    lm ∈ before ↔ ∃ front back, ilist = front ++ lm :: back ∧ dep ∉ back := by
  obtain ⟨front, back, list, isFirst, taken⟩ := firsts_split split
  rw [taken]
  constructor
  · rintro ⟨isFront, -⟩
    obtain ⟨first, second, rfl⟩ := append_of_mem isFront
    have list' : ilist.reverse.filter (finalised link called.count called.aboutToExit) =
        first ++ lm :: (second ++ dep :: back) := by
      simpa using list
    obtain ⟨a, b, isReverse, isFirst'⟩ := filter_split list'
    refine ⟨b.reverse, a.reverse, ?_, ?_⟩
    · rw [← reverse_reverse ilist, isReverse]
      simp
    · intro isMember
      apply isFirst
      rw [mem_append, ← isFirst', mem_filter]
      exact .inl ⟨mem_reverse.mp isMember, isDep.1⟩
  · rintro ⟨a, b, rfl, absent⟩
    refine ⟨?_, isLm.2⟩
    have list' : front ++ dep :: back = b.reverse.filter
        (finalised link called.count called.aboutToExit) ++
        lm :: a.reverse.filter (finalised link called.count called.aboutToExit) := by
      rw [← list]
      simp [isLm.1]
    refine mem_front_of_split different list' ?_
    simp [absent]

variable (loaded : link.Loaded) (walk : WalkOf link.needed seen (link.starts root) ilist seen')
  (unseen : ∀ node, link.Listed root node → ¬ seen node)

include walk unseen

omit [DecidableEq Obj] in
theorem mem_ilist {lm : Obj} : lm ∈ ilist ↔ link.Listed root lm := by
  refine ⟨walk.below_of_mem, fun isListed => ?_⟩
  exact (walk.covers lm isListed).resolve_right (unseen lm isListed)

theorem initOrder_of_walk {before after : List Obj} {lm dep : Obj} (split :
    firsts called.initCalled (ilist.filter link.init) = before ++ lm :: after)
    (depends : link.DependsOn lm dep) (isDep : link.toInit called dep) : dep ∈ before := by
  obtain ⟨front, back, list, -, taken⟩ := firsts_split split
  obtain ⟨a, b, isList, isFront⟩ := filter_split list
  have inFront : dep ∈ a := walk.deps_trans unseen isList depends
  rw [taken, ← isFront, mem_filter]
  exact ⟨⟨inFront, isDep.1⟩, isDep.2⟩

omit [DecidableEq Obj] in
theorem last_iff_paths {lm dep : Obj} (different : lm ≠ dep) :
    (∃ front back, ilist = front ++ lm :: back ∧ dep ∉ back) ↔ ∃ path,
      Walked link.needed (fun _ => False) (link.starts root) path ∧
        follow link.needed (link.starts root) path = some lm ∧
        ∀ path', Walked link.needed (fun _ => False) (link.starts root) path' →
          follow link.needed (link.starts root) path' = some dep → Before path' path := by
  rw [walk.last_iff different]
  simp only [walked_congr unseen]

include loaded

theorem initFiniWell_iff : InitFiniWell link called root
    (firsts called.initCalled (ilist.filter link.init))
    (firsts called.finiCalled (ilist.reverse.filter
      (finalised link called.count called.aboutToExit))) ↔
    LastEntriesOrdered link called root := by
  have inFinis : ∀ lm, lm ∈ firsts called.finiCalled (ilist.reverse.filter
      (finalised link called.count called.aboutToExit)) ↔
      link.Listed root lm ∧ link.toFini called lm := by
    intro lm
    rw [mem_firsts, mem_filter, mem_reverse, mem_ilist walk unseen, LinkMap.toFini, and_assoc]
  have irreflexive : ∀ {lm dep}, link.DependsOn lm dep → lm ≠ dep := by
    rintro lm dep depends rfl
    exact loaded.acyclic lm depends
  constructor
  · intro well lm dep isListed depends isLm isDep
    have depListed : link.Listed root dep := by
      obtain ⟨start, isStart, path⟩ := isListed
      exact ⟨start, isStart, path.trans depends.to_reflTransGen⟩
    obtain ⟨before, after, split⟩ := append_of_mem ((inFinis dep).mpr ⟨depListed, isDep⟩)
    have isBefore := well.finiOrder before dep after split lm isListed depends isLm
    have different := irreflexive depends
    rw [finis_split different isDep split isLm] at isBefore
    exact (last_iff_paths walk unseen different).mp isBefore
  · intro ordered
    refine ⟨⟨nodup_firsts, fun lm => ?_⟩, ?_, ⟨nodup_firsts, inFinis⟩, ?_⟩
    · rw [mem_firsts, mem_filter, mem_ilist walk unseen, LinkMap.toInit, and_assoc]
    · intro before lm after split dep depends isDep
      exact initOrder_of_walk walk unseen split depends isDep
    · intro before dep after split lm isListed depends isLm
      have isDep : link.toFini called dep := ((inFinis dep).mp (by rw [split]; simp)).2
      have different := irreflexive depends
      rw [finis_split different isDep split isLm, last_iff_paths walk unseen different]
      exact ordered lm dep isListed depends isLm isDep

end

theorem initFini_well_iff {link : LinkMap Obj} (loaded : link.Loaded) (called : Called Obj)
    {root : Obj} (isMember : root ∈ link.maps) :
    ∃ inits finis, initFini link called root = some (inits, finis) ∧
      (InitFiniWell link called root inits finis ↔ LastEntriesOrdered link called root) := by
  obtain ⟨ilist, seen, seen', built, walk, unseen⟩ :=
    rtBuildInitList_walks loaded called.neededSeen isMember
  refine ⟨_, _, congrArg (Option.map _) built, ?_⟩
  rw [inits_eq, finis_eq]
  exact initFiniWell_iff loaded walk unseen

def fourObjects (needed : Nat → List Nat) : LinkMap Nat where
  maps := [0, 1, 2, 3]
  name := fun _ => true
  needed := needed
  init := fun _ => true
  fini := fun _ => true

/-- All routines are still to be called, at the exit of the process. -/
def atExit : Called Nat where
  neededSeen := fun _ => false
  initCalled := fun _ => false
  finiCalled := fun _ => false
  count := fun _ => 1
  aboutToExit := true

/-- 1 and 2 both need 3, and 2 is needed by 1. -/
def sharedBelow : Nat → List Nat
  | 0 => [1]
  | 1 => [2, 3]
  | 2 => [3]
  | _ => []

/-- 1 and 2 both need 3, and both are needed by 0. -/
def sharedAside : Nat → List Nat
  | 0 => [2, 1]
  | 1 | 2 => [3]
  | _ => []

variable {needed : Nat → List Nat} {lm dep : Nat}

theorem loaded_fourObjects (later : ∀ lm, ∀ dep ∈ needed lm, lm < dep ∧ dep ≤ 3) :
    (fourObjects needed).Loaded := by
  constructor
  · intro lm _ dep isNeeded
    have bound := (later lm dep isNeeded).2
    simp only [fourObjects, mem_cons, not_mem_nil, or_false]
    omega
  · refine acyclic_of_rank (fun lm => 3 - lm) fun lm dep isNeeded => ?_
    have order := later lm dep isNeeded
    omega

theorem later_sharedBelow : ∀ lm, ∀ dep ∈ sharedBelow lm, lm < dep ∧ dep ≤ 3
  | 0 | 1 | 2 => by decide
  | _ + 3 => by simp [sharedBelow]

section

variable (later : ∀ lm, ∀ dep ∈ needed lm, lm < dep ∧ dep ≤ 3)
  (depends : (fourObjects needed).DependsOn lm dep)
include later depends

theorem lt_of_dependsOn : lm < dep := by
  induction depends with
  | single leads => exact (later _ _ leads).1
  | tail _ leads ih => exact Nat.lt_trans ih (later _ _ leads).1

theorem bound_of_dependsOn : dep ≤ 3 := by
  cases depends with
  | single leads => exact (later _ _ leads).2
  | tail _ leads => exact (later _ _ leads).2

end

theorem listed_sharedBelow (lm : Nat) : (fourObjects sharedBelow).Listed 0 lm ↔ lm ≤ 3 := by
  have loaded := loaded_fourObjects later_sharedBelow
  constructor
  · intro isListed
    have isMember : lm ∈ [0, 1, 2, 3] := loaded.below_mem (by decide) isListed
    simp only [mem_cons, not_mem_nil, or_false] at isMember
    omega
  · intro bound
    have first : (fourObjects sharedBelow).Listed 0 0 := .head ..
    have second : (fourObjects sharedBelow).Listed 0 1 := first.step (by decide : 1 ∈ sharedBelow 0)
    match lm with
    | 0 => exact first
    | 1 => exact second
    | 2 => exact second.step (by decide : 2 ∈ sharedBelow 1)
    | 3 => exact second.step (by decide : 3 ∈ sharedBelow 1)

theorem range_split {front back : List Nat} {x y : Nat} (split : [0, 1, 2, 3] = front ++ x :: back)
    (bound : y ≤ 3) : (y < x → y ∈ front) ∧ (x < y → y ∈ back) := by
  have sorted : (front ++ x :: back).Pairwise (· < ·) := by
    rw [← split]
    decide
  have isMember : y ∈ front ++ x :: back := by
    rw [← split]
    simp only [mem_cons, not_mem_nil, or_false]
    omega
  obtain ⟨-, later, across⟩ := pairwise_append.mp sorted
  rw [mem_append, mem_cons] at isMember
  obtain inFront | rfl | inBack := isMember
  · have less := across y inFront x mem_cons_self
    exact ⟨fun _ => inFront, fun greater => by omega⟩
  · exact ⟨fun less => by omega, fun greater => by omega⟩
  · have greater := rel_of_pairwise_cons later inBack
    exact ⟨fun less => by omega, fun _ => inBack⟩

/-- A dependency that is shared below one object is in order. -/
theorem lastEntriesOrdered_sharedBelow : initFini (fourObjects sharedBelow) atExit 0 =
    some ([3, 2, 1, 0], [0, 1, 2, 3]) ∧ LastEntriesOrdered (fourObjects sharedBelow) atExit 0 := by
  have called : initFini (fourObjects sharedBelow) atExit 0 =
      some ([3, 2, 1, 0], [0, 1, 2, 3]) := by
    decide
  obtain ⟨inits, finis, isCalled, iff⟩ := @initFini_well_iff Nat _ (fourObjects sharedBelow)
    (loaded_fourObjects later_sharedBelow) atExit 0 (by decide)
  rw [called] at isCalled
  cases isCalled
  refine ⟨called, iff.mp ⟨⟨by decide, ?_⟩, ?_, ⟨by decide, ?_⟩, ?_⟩⟩
  · intro lm
    rw [listed_sharedBelow]
    have toInit : (fourObjects sharedBelow).toInit atExit lm := ⟨rfl, rfl⟩
    simp only [toInit, and_true, mem_cons, not_mem_nil, or_false]
    omega
  · intro before lm after split dep depends _
    have larger := lt_of_dependsOn later_sharedBelow depends
    have reversed : [0, 1, 2, 3] = after.reverse ++ lm :: before.reverse := by
      have both := congrArg reverse split
      simpa using both
    have isLast : dep ≤ 3 := bound_of_dependsOn later_sharedBelow depends
    exact mem_reverse.mp ((range_split reversed isLast).2 larger)
  · intro lm
    rw [listed_sharedBelow]
    have toFini : (fourObjects sharedBelow).toFini atExit lm := ⟨rfl, rfl⟩
    simp only [toFini, and_true, mem_cons, not_mem_nil, or_false]
    omega
  · intro before dep after split lm isListed depends _
    have isFirst := (listed_sharedBelow lm).mp isListed
    have larger := lt_of_dependsOn later_sharedBelow depends
    exact (range_split split isFirst).1 larger

theorem initFini_sharedAside : initFini (fourObjects sharedAside) atExit 0 =
    some ([3, 1, 2, 0], [0, 2, 3, 1]) ∧ 3 ∈ sharedAside 1 ∧
    ¬ InitFiniWell (fourObjects sharedAside) atExit 0 [3, 1, 2, 0] [0, 2, 3, 1] := by
  refine ⟨by decide, by decide, fun well => ?_⟩
  have needs : (fourObjects sharedAside).DependsOn 1 3 := .single (by decide : 3 ∈ sharedAside 1)
  have isListed : (fourObjects sharedAside).Listed 0 1 :=
    ⟨0, by decide, .single (by decide : 1 ∈ sharedAside 0)⟩
  have isBefore := well.finiOrder [0, 2] 3 [1] rfl 1 isListed needs ⟨rfl, rfl⟩
  exact absurd isBefore (by decide)

end Uw7.Rtld
