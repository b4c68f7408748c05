import Mathlib.Data.List.Basic

namespace Uw7.Rtld.SearchPath

/-!
# The search path of the run-time linker

`process_path` and `_rt_setpath` from `rtld/i386/paths.c`, whose allocations succeed. A null path
is an empty one, and addresses count from the start of the buffer.
-/

open List

/-- A `pathnode`. -/
structure PathNode where
  name : Nat
  len : Nat

def isSep (envdir : Bool) (c : Char) : Bool := c == ':' || envdir && c == ';'

/-- A component, as it is in the buffer. -/
def copied (part : List Char) : List Char := if part = [] then ['.'] else part

/-- The loops of `process_path`: the nodes, and the bytes from `name` on. -/
def copyFrom (envdir : Bool) (name : Nat) (part : List Char) :
    List Char → List PathNode × List Char
  | [] => ([⟨name, (copied part).length⟩], copied part ++ ['\x00'])
  | c :: dirs =>
    if isSep envdir c then
      let next := copyFrom envdir (name + (copied part).length + 1) [] dirs
      (⟨name, (copied part).length⟩ :: next.1, copied part ++ '\x00' :: next.2)
    else copyFrom envdir name (part ++ [c]) dirs

/-- `process_path`. -/
def processPath (dirs : List Char) (dirCopy : Nat) (envdir : Bool) : List PathNode × List Char :=
  copyFrom envdir dirCopy [] dirs

/-- A path of the form `[PATH1][;PATH2]`, from its first component on. -/
def envPath : List Char → List Char
  | ';' :: envdirs => envdirs
  | envdirs => envdirs

/-- The buffer, what is copied into it and where, and `rt_dir_list` up to `libdirs`. -/
structure SetPath where
  size : Nat
  copies : List (Nat × List Char)
  rtDirList : List PathNode

/-- `_rt_setpath`. -/
def rtSetpath (envdirs rundirs : List Char) (useLdLibPath : Bool) : SetPath :=
  let edirs := 2 * rundirs.length
  let run := if rundirs = [] then ([], []) else processPath rundirs 0 false
  let env :=
    if useLdLibPath ∧ envPath envdirs ≠ [] then processPath (envPath envdirs) edirs true
    else ([], [])
  { size := 2 * (envdirs.length + rundirs.length)
    copies := [(0, run.2), (edirs, env.2)]
    rtDirList := run.1 ++ env.1 }

def store (memory : Nat → Option Char) (copy : Nat × List Char) (address : Nat) : Option Char :=
  if copy.1 ≤ address then copy.2[address - copy.1]?.or (memory address) else memory address

/-- The bytes of a node's name. -/
def read (memory : Nat → Option Char) (node : PathNode) : List (Option Char) :=
  (List.range node.len).map fun i => memory (node.name + i)

def SetPath.memory (path : SetPath) : Nat → Option Char := path.copies.foldl store fun _ => none

/-- The directories that a path names. -/
def components (dirs : List Char) (envdir : Bool) : List (List Char) :=
  if dirs = [] then [] else (dirs.splitOnP (isSep envdir)).map copied

variable (envdirs rundirs : List Char) (use : Bool)

def envComponents : List (List Char) :=
  if use then components (envPath envdirs) true else []

/-- Every byte goes into the buffer, and the list has the components in order, before `libdirs`. -/
def SetsRight : Prop :=
  let path := rtSetpath envdirs rundirs use
  (∀ copy ∈ path.copies, copy.1 + copy.2.length ≤ path.size) ∧
    path.rtDirList.map (read path.memory) ++ ["/usr/lib".toList.map some] =
      (components rundirs false ++ envComponents envdirs use ++
        ["/usr/lib".toList]).map (map some)

/-- The names at a place, one after the other. -/
def nodesAt (name : Nat) : List (List Char) → List PathNode
  | [] => []
  | dir :: dirs => ⟨name, dir.length⟩ :: nodesAt (name + dir.length + 1) dirs

def textOf (dirs : List (List Char)) : List Char := dirs.flatMap (· ++ ['\x00'])

theorem copyFrom_eq (envdir : Bool) (name : Nat) (part dirs : List Char) :
    copyFrom envdir name part dirs =
      (nodesAt name ((splitOnPPrepend (isSep envdir) dirs part.reverse).map copied),
        textOf ((splitOnPPrepend (isSep envdir) dirs part.reverse).map copied)) := by
  induction dirs generalizing name part with
  | nil => simp [copyFrom, nodesAt, textOf]
  | cons c dirs hypothesis =>
      rw [copyFrom, splitOnPPrepend_cons_eq_if]
      split
      · simp [hypothesis, nodesAt, textOf]
      · simp [hypothesis]

theorem processPath_eq {dirs : List Char} (given : dirs ≠ []) (name : Nat) (envdir : Bool) :
    processPath dirs name envdir =
      (nodesAt name (components dirs envdir), textOf (components dirs envdir)) := by
  simp [processPath, copyFrom_eq, components, given]

/-- The bytes for a path of which a part is copied. -/
theorem length_prepend (dirs part : List Char) (envdir : Bool) :
    (textOf ((splitOnPPrepend (isSep envdir) dirs part).map copied)).length ≤
      2 * dirs.length + max part.length 1 + 1 := by
  induction dirs generalizing part with
  | nil => cases part <;> simp [textOf, copied]
  | cons c dirs hypothesis =>
      rw [splitOnPPrepend_cons_eq_if]
      have first := hypothesis []
      have next := hypothesis (c :: part)
      cases part <;> split <;> simp [textOf, copied] at first next ⊢ <;> omega

/-- Only a path of separators needs more than twice its length. -/
theorem length_le_iff (dirs : List Char) (envdir : Bool) :
    (textOf ((dirs.splitOnP (isSep envdir)).map copied)).length ≤ 2 * dirs.length ↔
      ∃ c ∈ dirs, isSep envdir c = false := by
  induction dirs with
  | nil => simp [textOf, copied]
  | cons c dirs hypothesis =>
      rw [splitOnP_cons_eq_if_splitOnPPrepend]
      cases sep : isSep envdir c
      · simpa [sep, Nat.mul_add] using length_prepend dirs [c] envdir
      · simp [textOf, copied, sep] at hypothesis ⊢
        rw [← hypothesis]
        omega

/-- The names can be read from the bytes of all but the last terminator. -/
theorem read_nodesAt {memory : Nat → Option Char} {name : Nat} {dirs : List (List Char)}
    (stored : ∀ i, i + 1 < (textOf dirs).length → memory (name + i) = (textOf dirs)[i]?) :
    (nodesAt name dirs).map (read memory) = dirs.map (map some) := by
  induction dirs generalizing name with
  | nil => rfl
  | cons dir dirs hypothesis =>
      simp only [textOf, flatMap_cons, length_append, length_singleton] at stored
      rw [nodesAt, map_cons, map_cons]
      congr 1
      · refine ext_getElem (by simp [read]) fun i bound _ => ?_
        have inside : i < dir.length := by simpa [read] using bound
        simp [read, stored i (by omega), getElem?_append_left, inside]
      · refine hypothesis fun i bound => ?_
        have later := stored (dir.length + 1 + i) (by simp only [textOf] at bound; omega)
        rw [show name + (dir.length + 1 + i) = name + dir.length + 1 + i by omega] at later
        rw [later, getElem?_append_right (by simp)]
        simp [textOf, show dir.length + 1 + i - (dir.length + 1) = i by omega]

/-- A list of `.` is read back if each of them is there. -/
theorem read_replicate {memory : Nat → Option Char} {name count : Nat} :
    (nodesAt name (replicate count ['.'])).map (read memory) =
        (replicate count ['.']).map (map some) ↔
      ∀ i < count, memory (name + 2 * i) = some '.' := by
  induction count generalizing name with
  | zero => simp [nodesAt]
  | succ count hypothesis =>
      rw [replicate_succ, nodesAt, map_cons, map_cons, cons_eq_cons, hypothesis,
        Nat.forall_lt_succ_left]
      simp [read, Nat.mul_add, Nat.add_assoc, Nat.add_comm 2]

/-- The run path fits, and the environment's path leaves its last directory as it is. -/
def RunFits : Prop :=
  rundirs ≠ [] → (∀ c ∈ rundirs, c = ':') →
    envdirs ≠ [] ∧
      (use → ∀ c ∈ (envPath envdirs).head?, isSep true c ∨ c = '.')

/-- The environment's path fits. -/
def EnvFits : Prop :=
  use → envdirs.head? = some ':' → ∃ c ∈ envdirs, isSep true c = false

theorem rtSetpath_eq :
    rtSetpath envdirs rundirs use =
      ⟨2 * (envdirs.length + rundirs.length),
        [(0, textOf (components rundirs false)),
          (2 * rundirs.length, textOf (envComponents envdirs use))],
        nodesAt 0 (components rundirs false) ++
          nodesAt (2 * rundirs.length) (envComponents envdirs use)⟩ := by
  by_cases run : rundirs = [] <;> by_cases env : envPath envdirs = [] <;> cases use <;>
    simp [rtSetpath, processPath_eq, envComponents, components, nodesAt, textOf, run, env]

theorem memory_eq (address : Nat) :
    (rtSetpath envdirs rundirs use).memory address =
      if 2 * rundirs.length ≤ address then
        (textOf (envComponents envdirs use))[address - 2 * rundirs.length]?.or
          (textOf (components rundirs false))[address]?
      else (textOf (components rundirs false))[address]? := by
  simp [SetPath.memory, rtSetpath_eq, store]

theorem setsRight_iff :
    SetsRight envdirs rundirs use ↔
      (textOf (components rundirs false)).length ≤ 2 * (envdirs.length + rundirs.length) ∧
        (textOf (envComponents envdirs use)).length ≤ 2 * envdirs.length ∧
        (nodesAt 0 (components rundirs false)).map
            (read (rtSetpath envdirs rundirs use).memory) =
          (components rundirs false).map (map some) := by
  have env : (nodesAt (2 * rundirs.length) (envComponents envdirs use)).map
        (read (rtSetpath envdirs rundirs use).memory) =
      (envComponents envdirs use).map (map some) := by
    refine read_nodesAt fun i bound => ?_
    rw [memory_eq, if_pos (Nat.le_add_right ..), Nat.add_sub_cancel_left,
      getElem?_eq_getElem (by omega), Option.some_or]
  unfold SetsRight
  simp only [show (rtSetpath envdirs rundirs use).rtDirList = _ by rw [rtSetpath_eq],
    map_append, env, append_assoc]
  simp [rtSetpath_eq, Nat.mul_add, and_assoc]
  intro _ _
  omega

theorem components_colons (count : Nat) (envdir : Bool) :
    ((replicate count ':').splitOnP (isSep envdir)).map copied = replicate (count + 1) ['.'] := by
  induction count with
  | zero => rfl
  | succ count hypothesis =>
      rw [replicate_succ, splitOnP_cons_eq_if_splitOnPPrepend]
      simpa [isSep, copied, replicate_succ] using hypothesis

/-- The first byte of a path's copy. -/
theorem head_textOf (c : Char) (dirs : List Char) (envdir : Bool) :
    (textOf (components (c :: dirs) envdir))[0]? =
      some (if isSep envdir c then '.' else c) := by
  rw [components, if_neg (by simp), splitOnP_cons_eq_if_modifyHead]
  obtain ⟨part, parts, split⟩ := exists_cons_of_ne_nil (splitOnP_ne_nil (isSep envdir) dirs)
  cases sep : isSep envdir c <;> simp [split, textOf, copied]

theorem run_fits_iff (given : rundirs ≠ []) :
    (textOf (components rundirs false)).length ≤ 2 * (envdirs.length + rundirs.length) ↔
      ((∀ c ∈ rundirs, c = ':') → envdirs ≠ []) := by
  rw [components, if_neg given]
  by_cases room : envdirs = []
  · simpa [room, isSep] using length_le_iff rundirs false
  · have positive := length_pos_iff.2 room
    have upper := length_prepend rundirs [] false
    simp only [splitOnPPrepend_nil_right, length_nil] at upper
    simp only [room, ne_eq, not_false_eq_true, implies_true, iff_true]
    omega

theorem env_fits_iff :
    (textOf (envComponents envdirs use)).length ≤ 2 * envdirs.length ↔
      EnvFits envdirs use := by
  cases use with
  | false => simp [envComponents, EnvFits, textOf]
  | true =>
    cases envdirs with
    | nil => simp [envComponents, EnvFits, envPath, components, textOf]
    | cons c envdirs =>
      by_cases skipped : c = ';'
      · have upper := length_prepend envdirs [] true
        subst skipped
        by_cases given : envdirs = [] <;>
          simp [envComponents, EnvFits, envPath, components, given] at upper ⊢
        · simp [textOf]
        · omega
      · have exact := length_le_iff (c :: envdirs) true
        rw [envComponents, if_pos rfl, envPath.eq_2 _ (by simp [skipped]), components,
          if_neg (by simp), exact]
        by_cases colon : c = ':' <;> simp [EnvFits, colon, isSep, skipped]

/-- What the environment's path leaves of the run path's directories. -/
theorem run_read_iff :
    (nodesAt 0 (components rundirs false)).map
          (read (rtSetpath envdirs rundirs use).memory) =
        (components rundirs false).map (map some) ↔
      (rundirs ≠ [] → (∀ c ∈ rundirs, c = ':') →
        ∀ c ∈ (textOf (envComponents envdirs use))[0]?, c = '.') := by
  by_cases given : rundirs = []
  · simp [components, given, nodesAt]
  by_cases colons : ∀ c ∈ rundirs, c = ':'
  · have dots : components rundirs false = replicate (rundirs.length + 1) ['.'] := by
      rw [components, if_neg given, ← components_colons _ false, ← eq_replicate_of_mem colons]
    have own := read_replicate.1 (@read_nodesAt
      ((textOf (replicate (rundirs.length + 1) ['.']))[·]?) 0 _ fun i _ => by rw [Nat.zero_add])
    rw [dots, read_replicate]
    simp only [memory_eq, dots]
    constructor
    · intro right _ _ c first
      have last := right rundirs.length (by omega)
      simpa [Option.mem_def.1 first] using last
    · intro first i bound
      split
      · have last : i = rundirs.length := by omega
        subst last
        cases byte : (textOf (envComponents envdirs use))[0]? with
        | none => simpa [byte] using own _ bound
        | some c => simpa [byte] using first given colons c byte
      · exact own i bound
  · refine iff_of_true (read_nodesAt fun i bound => ?_) fun _ all => absurd all colons
    have short := (length_le_iff rundirs false).2 (by simpa [isSep] using colons)
    rw [components, if_neg given] at bound
    rw [memory_eq, if_neg (by omega), Nat.zero_add]

/-- The buffer is large enough, and nothing is copied over a directory, but for a path of
separators alone. -/
theorem setsRight_iff_fits :
    SetsRight envdirs rundirs use ↔
      RunFits envdirs rundirs use ∧ EnvFits envdirs use := by
  have first : (∀ c ∈ (textOf (envComponents envdirs use))[0]?, c = '.') ↔
      (use → ∀ c ∈ (envPath envdirs).head?, isSep true c ∨ c = '.') := by
    cases use with
    | false => simp [envComponents, textOf]
    | true =>
      rw [envComponents, if_pos rfl]
      cases envPath envdirs with
      | nil => simp [components, textOf]
      | cons c dirs => cases sep : isSep true c <;> simp [head_textOf, sep]
  rw [setsRight_iff, run_read_iff, env_fits_iff, first, RunFits]
  by_cases given : rundirs = []
  · simp [given, components, textOf]
  · rw [run_fits_iff _ _ given]
    grind

/-- Four colons take ten bytes of the eight. -/
theorem setsRight_fails : ¬ SetsRight [] "::::".toList false := fun right =>
  absurd (right.1 _ mem_cons_self) (by decide)

end Uw7.Rtld.SearchPath
