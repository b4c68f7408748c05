import Mathlib.Algebra.Order.Ring.Int
import Mathlib.Data.List.TakeWhile

namespace Uw7.Cron

/-!
# Fields of a crontab

`next_field` and `next_ge` from `cron/cron.c`, and `num` from `cron/cronfuncs.c`.  A text is
given without its terminator.
-/

open List

/-- The `int` of decimal digits. -/
def digitsValue (digits : List Char) : Int :=
  digits.foldl (fun n c => (n * 10 + (c.toNat - 48)).bmod (2 ^ 32)) 0

/-- The number in front of a text, 0 if there is none, and the rest. -/
def num (ptr : List Char) : Int × List Char :=
  (digitsValue (ptr.takeWhile Char.isDigit), ptr.dropWhile Char.isDigit)

/-- What the mail to the user tells. -/
inductive FieldError where
  | eoln
  | unexpect
  | outOfBound

/-- A number of `next_field`. -/
def fieldNumber (lower upper : Int) (ptr : List Char) : Except FieldError (List Char) :=
  if ¬ ptr.head?.any Char.isDigit then .error .unexpect
  else if (num ptr).1 < lower ∨ upper < (num ptr).1 then .error .outOfBound
  else .ok (num ptr).2

/-- A number, or two with a minus sign between them. -/
def fieldItem (lower upper : Int) (ptr : List Char) : Except FieldError (List Char) :=
  match fieldNumber lower upper ptr with
  | .ok ('-' :: rest) => fieldNumber lower upper rest
  | result => result

variable {ptr rest : List Char}

theorem fieldNumber_length {lower upper : Int}
    (read : fieldNumber lower upper ptr = .ok rest) : rest.length ≤ ptr.length := by
  unfold fieldNumber at read
  split_ifs at read
  cases read
  exact (dropWhile_suffix _).length_le

theorem fieldItem_length {lower upper : Int}
    (read : fieldItem lower upper ptr = .ok rest) : rest.length ≤ ptr.length := by
  unfold fieldItem at read
  split at read
  next first isFirst =>
    have second := fieldNumber_length read
    have whole := fieldNumber_length isFirst
    simp only [length_cons] at whole
    omega
  next => exact fieldNumber_length read

/-- The loop of `next_field`. -/
def fieldLoop (lower upper : Int) (ptr : List Char) : Except FieldError (List Char) :=
  match _item : fieldItem lower upper ptr with
  | .error error => .error error
  | .ok [] => .error .eoln
  | .ok (c :: rest) =>
    if c = ' ' ∨ c = '\t' then .ok (c :: rest)
    else if c ≠ ',' then .error .unexpect
    else fieldLoop lower upper rest
termination_by ptr.length
decreasing_by exact Nat.lt_of_succ_le (fieldItem_length _item)

/-- `next_field`: the field at the cursor, and the line from the cursor on. -/
def nextField (lower upper : Int) (line : List Char) : Except FieldError (List Char × List Char) :=
  match line.dropWhile (fun c => c = ' ' ∨ c = '\t') with
  | [] => .error .eoln
  | '*' :: rest =>
    if rest.head?.any (fun c => c = ' ' ∨ c = '\t') then .ok (['*'], rest) else .error .unexpect
  | start =>
    (fieldLoop lower upper start).map fun rest =>
      (start.take (start.length - rest.length), rest)

/-- `DUMMY`. -/
def dummy : Int := 100

/-- A number, or the range from it to another one. -/
structure Item where
  n : Int
  n2 : Option Int
  deriving DecidableEq

/-- The numbers at `ptr`. -/
def scanItem (ptr : List Char) : Item × List Char :=
  match num ptr with
  | (n, '-' :: rest) => (⟨n, some (num rest).1⟩, (num rest).2)
  | (n, rest) => (⟨n, none⟩, rest)

/-- The tests of `next_ge` that return `current`. -/
def Item.stops (item : Item) (current : Int) : Bool :=
  item.n = current ||
    match item.n2 with
    | none => false
    | some n2 =>
      if n2 > item.n then current > item.n && current ≤ n2
      -- a range that wraps around
      else current > item.n || current ≤ n2

/-- The loop of `next_ge`, with some rounds at most. -/
def nextGeLoop (current : Int) : Nat → List Char → Int → Int → Option Int
  | 0, _, _, _ => none
  | fuel + 1, ptr, min, minGt =>
    let item := (scanItem ptr).1
    let min' := if item.n < min then item.n else min
    let minGt' := if item.n > current ∧ item.n < minGt then item.n else minGt
    if item.stops current then some current
    else
      match (scanItem ptr).2 with
      | [] => some (if minGt' ≠ dummy then minGt' else min')
      | _ :: rest => nextGeLoop current fuel rest min' minGt'

/-- `next_ge`. -/
def nextGe (current : Int) (list : List Char) : Option Int :=
  if list = ['*'] then some current else nextGeLoop current list.length list dummy dummy

/-- A part of the list is a number, or two of them. -/
def readItem (part : List Char) : Item :=
  match part.splitOn '-' with
  | n :: n2 :: _ => ⟨digitsValue n, some (digitsValue n2)⟩
  | _ => ⟨digitsValue part, none⟩

/-- The list that a field is. -/
def fieldItems (text : List Char) : List Item := (text.splitOn ',').map readItem

def Item.Has (lower upper : Int) (item : Item) (value : Int) : Prop :=
  match item.n2 with
  | none => value = item.n
  | some n2 =>
    if item.n ≤ n2 then item.n ≤ value ∧ value ≤ n2
    else (item.n ≤ value ∧ value ≤ upper) ∨ (lower ≤ value ∧ value ≤ n2)

/-- The set that a field stands for. -/
def FieldHas (lower upper : Int) (text : List Char) (value : Int) : Prop :=
  if text = ['*'] then lower ≤ value ∧ value ≤ upper
  else ∃ item ∈ fieldItems text, item.Has lower upper value

/-- The least member of a set from `current` on, or else the least of all. -/
def IsNextGe (set : Int → Prop) (current value : Int) : Prop :=
  set value ∧ ((current ≤ value ∧ ∀ other, set other → current ≤ other → value ≤ other) ∨
      ∀ other, set other → other < current ∧ value ≤ other)

structure Number (lower upper : Int) (digits : List Char) : Prop where
  nonempty : digits ≠ []
  digit : ∀ c ∈ digits, c.isDigit = true
  low : lower ≤ digitsValue digits
  high : digitsValue digits ≤ upper

inductive ReadsItem (lower upper : Int) : List Char → Item → Prop where
  | number {a : List Char} (first : Number lower upper a) :
      ReadsItem lower upper a ⟨digitsValue a, none⟩
  | range {a b : List Char} (first : Number lower upper a) (second : Number lower upper b) :
      ReadsItem lower upper (a ++ '-' :: b) ⟨digitsValue a, some (digitsValue b)⟩

/-- A comma list. -/
inductive Reads (lower upper : Int) : List Char → List Item → Prop where
  | last {part : List Char} {item : Item} (isItem : ReadsItem lower upper part item) :
      Reads lower upper part [item]
  | more {part text : List Char} {item : Item} {items : List Item}
      (isItem : ReadsItem lower upper part item) (others : Reads lower upper text items) :
      Reads lower upper (part ++ ',' :: text) (item :: items)

variable {item : Item}

section

variable {lower upper : Int}

theorem fieldNumber_reads (read : fieldNumber lower upper ptr = .ok rest) :
    ∃ a, Number lower upper a ∧ ptr = a ++ rest := by
  unfold fieldNumber at read
  split_ifs at read with digit bounds
  cases read
  refine ⟨ptr.takeWhile Char.isDigit, ⟨?_, fun c => mem_takeWhile_imp, by simpa [num] using
    (not_or.mp bounds).1, by simpa [num] using (not_or.mp bounds).2⟩,
    (takeWhile_append_dropWhile).symm⟩
  cases ptr with
  | nil => simp at digit
  | cons c ptr =>
    have isDigit : c.isDigit = true := by simpa using digit
    simp [isDigit]

theorem fieldItem_reads (read : fieldItem lower upper ptr = .ok rest) :
    ∃ part item, ReadsItem lower upper part item ∧ ptr = part ++ rest := by
  unfold fieldItem at read
  split at read
  next behind isFirst =>
    obtain ⟨a, first, rfl⟩ := fieldNumber_reads isFirst
    obtain ⟨b, second, rfl⟩ := fieldNumber_reads read
    exact ⟨_, _, .range first second, by simp⟩
  next =>
    obtain ⟨a, first, rfl⟩ := fieldNumber_reads read
    exact ⟨a, _, .number first, rfl⟩

theorem fieldLoop_reads (read : fieldLoop lower upper ptr = .ok rest) :
    ∃ text items, Reads lower upper text items ∧ ptr = text ++ rest := by
  fun_induction fieldLoop lower upper ptr with
  | case1 => cases read
  | case2 => cases read
  | case3 ptr c behind isItem blank =>
    cases read
    obtain ⟨part, item, reads, rfl⟩ := fieldItem_reads isItem
    exact ⟨part, [item], .last reads, rfl⟩
  | case4 => cases read
  | case5 ptr c behind isItem notBlank comma ih =>
    obtain ⟨part, item, reads, rfl⟩ := fieldItem_reads isItem
    obtain ⟨text, items, others, rfl⟩ := ih read
    obtain rfl := not_not.mp comma
    exact ⟨_, _, .more reads others, by simp⟩

theorem nextField_reads {line text rest : List Char}
    (accepted : nextField lower upper line = .ok (text, rest)) :
    text = ['*'] ∨ ∃ items, Reads lower upper text items := by
  unfold nextField at accepted
  generalize line.dropWhile _ = start at accepted
  split at accepted
  next => cases accepted
  next =>
    split_ifs at accepted
    cases accepted
    exact .inl rfl
  next =>
    cases read : fieldLoop lower upper start with
    | error error => exact absurd accepted (by simp [read, Except.map])
    | ok behind =>
      obtain ⟨field, items, reads, isField⟩ := fieldLoop_reads read
      rw [read] at accepted
      simp only [Except.map, Except.ok.injEq, Prod.mk.injEq] at accepted
      refine .inr ⟨items, ?_⟩
      rw [← accepted.1, isField, length_append, Nat.add_sub_cancel_right, take_left]
      exact reads

theorem Number.not_mem {a : List Char} {c : Char} (number : Number lower upper a)
    (other : c.isDigit = false) : c ∉ a := by
  intro isMember
  rw [number.digit c isMember] at other
  cases other

variable {part : List Char}

theorem ReadsItem.readItem_eq (reads : ReadsItem lower upper part item) : readItem part = item := by
  unfold readItem
  cases reads with
  | number first => rw [splitOn_eq_singleton (first.not_mem rfl)]
  | range first second =>
    rw [splitOn_append_cons_self_of_not_mem (first.not_mem rfl),
      splitOn_eq_singleton (second.not_mem rfl)]

theorem ReadsItem.no_comma (reads : ReadsItem lower upper part item) : ',' ∉ part := by
  cases reads with
  | number first => exact first.not_mem rfl
  | range first second => simp [first.not_mem (c := ',') rfl, second.not_mem (c := ',') rfl]

theorem Reads.fieldItems_eq {text : List Char} {items : List Item}
    (reads : Reads lower upper text items) : fieldItems text = items := by
  unfold fieldItems
  induction reads with
  | last isItem => rw [splitOn_eq_singleton isItem.no_comma, map_singleton, isItem.readItem_eq]
  | more isItem _ ih =>
    rw [splitOn_append_cons_self_of_not_mem isItem.no_comma, map_cons, isItem.readItem_eq, ih]

theorem Number.num_eq {a rest : List Char} (number : Number lower upper a)
    (ends : rest.head?.any Char.isDigit = false) : num (a ++ rest) = (digitsValue a, rest) := by
  have behind : rest.takeWhile Char.isDigit = [] ∧ rest.dropWhile Char.isDigit = rest := by
    cases rest with
    | nil => exact ⟨rfl, rfl⟩
    | cons c rest =>
      have other : c.isDigit = false := by simpa using ends
      simp [other]
  rw [num, takeWhile_append_of_pos number.digit, dropWhile_append_of_pos number.digit,
    behind.1, behind.2, append_nil]

theorem ReadsItem.scanItem_eq {part rest : List Char}
    (reads : ReadsItem lower upper part item) (ends : rest = [] ∨ ∃ others, rest = ',' :: others) :
    scanItem (part ++ rest) = (item, rest) := by
  have digit : rest.head?.any Char.isDigit = false := by
    rcases ends with rfl | ⟨others, rfl⟩ <;> rfl
  unfold scanItem
  cases reads with
  | number first =>
    rw [first.num_eq digit]
    rcases ends with rfl | ⟨others, rfl⟩ <;> rfl
  | range first second =>
    rw [append_assoc, cons_append, first.num_eq rfl]
    simp only [second.num_eq digit]

theorem ReadsItem.starts (reads : ReadsItem lower upper part item) :
    ∃ c others, c.isDigit = true ∧ part = c :: others := by
  have ofNumber {a : List Char} (number : Number lower upper a) :
      ∃ c others, c.isDigit = true ∧ a = c :: others := by
    obtain ⟨c, others, rfl⟩ := exists_cons_of_ne_nil number.nonempty
    exact ⟨c, others, number.digit c mem_cons_self, rfl⟩
  cases reads with
  | number first => exact ofNumber first
  | range first second =>
    obtain ⟨c, others, digit, rfl⟩ := ofNumber first
    exact ⟨c, _, digit, rfl⟩

end

/-- The minimum of the first numbers, and that of those behind `current`. -/
structure Scanned (current : Int) (items : List Item) (min minGt least above : Int) : Prop where
  least_le : least ≤ min
  least_all : ∀ item ∈ items, least ≤ item.n
  least_is : least = min ∨ ∃ item ∈ items, item.n = least
  above_le : above ≤ minGt
  above_all : ∀ item ∈ items, current < item.n → above ≤ item.n
  above_is : above = minGt ∨ ∃ item ∈ items, item.n = above ∧ current < above

theorem Scanned.cons {current min minGt least above : Int} {items : List Item}
    (scanned : Scanned current items (if item.n < min then item.n else min)
      (if item.n > current ∧ item.n < minGt then item.n else minGt) least above) :
    Scanned current (item :: items) min minGt least above := by
  obtain ⟨leastLe, leastAll, leastIs, aboveLe, aboveAll, aboveIs⟩ := scanned
  refine ⟨by split at leastLe <;> omega, ?_, ?_, by split at aboveLe <;> omega, ?_, ?_⟩
  · simp only [forall_mem_cons]
    exact ⟨by split at leastLe <;> omega, leastAll⟩
  · simp only [mem_cons, exists_eq_or_imp]
    rcases leastIs with isLeast | found
    · split_ifs at isLeast with smaller
      · exact .inr (.inl isLeast.symm)
      · exact .inl isLeast
    · exact .inr (.inr found)
  · simp only [forall_mem_cons]
    exact ⟨by split at aboveLe <;> omega, aboveAll⟩
  · simp only [mem_cons, exists_eq_or_imp]
    rcases aboveIs with isAbove | found
    · split_ifs at isAbove with smaller
      · exact .inr (.inl ⟨isAbove.symm, isAbove ▸ smaller.1⟩)
      · exact .inl isAbove
    · exact .inr (.inr found)

section

variable {lower upper current : Int}

theorem Reads.loop {text : List Char} {items : List Item} (reads : Reads lower upper text items)
    {fuel : Nat} (enough : text.length ≤ fuel) (min minGt : Int) :
    (∃ item ∈ items, item.stops current = true) ∧
      nextGeLoop current fuel text min minGt = some current ∨
      (∀ item ∈ items, item.stops current = false) ∧ ∃ least above,
        Scanned current items min minGt least above ∧
        nextGeLoop current fuel text min minGt = some (if above ≠ dummy then above else least) := by
  induction reads generalizing fuel min minGt with
  | @last part item isItem =>
    obtain ⟨c, others, -, isPart⟩ := isItem.starts
    have positive : 0 < part.length := by simp [isPart]
    obtain ⟨fuel, rfl⟩ := Nat.exists_eq_succ_of_ne_zero (show fuel ≠ 0 by omega)
    have scanned : scanItem part = (item, []) := by simpa using isItem.scanItem_eq (.inl rfl)
    simp only [nextGeLoop, scanned]
    cases stops : item.stops current with
    | true => exact .inl ⟨⟨item, mem_singleton_self _, stops⟩, rfl⟩
    | false =>
      refine .inr ⟨by simpa using stops, _, _, ?_, rfl⟩
      exact Scanned.cons ⟨Int.le_refl _, by simp, .inl rfl, Int.le_refl _, by simp, .inl rfl⟩
  | @more part text item items isItem others ih =>
    rw [length_append, length_cons] at enough
    obtain ⟨fuel, rfl⟩ := Nat.exists_eq_succ_of_ne_zero (show fuel ≠ 0 by omega)
    simp only [nextGeLoop, isItem.scanItem_eq (.inr ⟨text, rfl⟩)]
    cases stops : item.stops current with
    | true => exact .inl ⟨⟨item, mem_cons_self, stops⟩, rfl⟩
    | false =>
      rcases ih (show text.length ≤ fuel by omega) (if item.n < min then item.n else min)
        (if item.n > current ∧ item.n < minGt then item.n else minGt) with
        ⟨⟨other, isMember, stops'⟩, result⟩ | ⟨goesOn, least, above, scanned, result⟩
      · exact .inl ⟨⟨other, mem_cons_of_mem _ isMember, stops'⟩, result⟩
      · exact .inr ⟨forall_mem_cons.mpr ⟨stops, goesOn⟩, least, above, scanned.cons, result⟩

theorem Reads.bounds {text : List Char} {items : List Item} (reads : Reads lower upper text items) :
    items ≠ [] ∧ ∀ item ∈ items, item.n ≤ upper ∧ ∀ n2 ∈ item.n2, lower ≤ n2 ∧ n2 ≤ upper := by
  have one {part : List Char} {item : Item} (isItem : ReadsItem lower upper part item) :
      item.n ≤ upper ∧ ∀ n2 ∈ item.n2, lower ≤ n2 ∧ n2 ≤ upper := by
    cases isItem with
    | number first => exact ⟨first.high, by simp⟩
    | range first second => exact ⟨first.high, by simp [second.low, second.high]⟩
  induction reads with
  | last isItem => exact ⟨by simp, by simpa using one isItem⟩
  | more isItem _ ih => exact ⟨by simp, forall_mem_cons.mpr ⟨one isItem, ih.2⟩⟩

/-- A range from a number to itself stops every search. -/
theorem Item.stops_degenerate (degenerate : item.n2 = some item.n) :
    item.stops current = true := by
  simp only [stops, degenerate, gt_iff_lt, Int.lt_irrefl, if_false]
  by_cases same : item.n = current
  · simp [same]
  · have apart : item.n < current ∨ current ≤ item.n := Int.lt_or_le _ _
    simpa [same] using apart

theorem Item.has_of_stops (stops : item.stops current = true)
    (proper : item.n2 ≠ some item.n) (low : lower ≤ current) (high : current ≤ upper)
    (bounds : item.n ≤ upper ∧ ∀ n2 ∈ item.n2, lower ≤ n2 ∧ n2 ≤ upper) :
    item.Has lower upper current := by
  obtain ⟨n, n2⟩ := item
  cases n2 with
  | none => simpa [Item.stops, Has, eq_comm] using stops
  | some n2 =>
    have different : n2 ≠ n := by simpa using proper
    simp only [Item.stops, gt_iff_lt, Bool.or_eq_true, decide_eq_true_eq] at stops
    simp only [Has]
    split at stops <;> split <;> simp at stops <;> omega

theorem Item.n_has (item : Item) (high : item.n ≤ upper) : item.Has lower upper item.n := by
  unfold Has
  split
  next => rfl
  next n2 _ =>
    split_ifs with straight
    · exact ⟨Int.le_refl _, straight⟩
    · exact .inl ⟨Int.le_refl _, high⟩

/-- A member of an item that does not stop the search is behind its first number. -/
theorem Item.behind_of_has {value : Int} (goesOn : item.stops current = false)
    (has : item.Has lower upper value) :
    (item.n < current ∧ value < current ∧ item.n ≤ value) ∨
      (current < item.n ∧ (value < current ∨ item.n ≤ value)) := by
  obtain ⟨n, n2⟩ := item
  cases n2 with
  | none =>
    simp only [Item.stops, Has, Bool.or_false, decide_eq_false_iff_not] at goesOn has
    dsimp only
    omega
  | some n2 =>
    simp only [Item.stops, gt_iff_lt, Bool.or_eq_false_iff, decide_eq_false_iff_not] at goesOn
    simp only [Has] at has
    obtain ⟨different, misses⟩ := goesOn
    dsimp only
    split at misses <;> split at has <;> simp at misses <;> omega

theorem nextGe_right_iff {line text rest : List Char} (small : upper < dummy)
    (accepted : nextField lower upper line = .ok (text, rest)) (low : lower ≤ current)
    (high : current ≤ upper) :
    (∃ value ∈ nextGe current text, IsNextGe (FieldHas lower upper text) current value) ↔
      FieldHas lower upper text current ∨ ∀ item ∈ fieldItems text, item.n2 ≠ some item.n := by
  rcases nextField_reads accepted with rfl | ⟨items, reads⟩
  · have has : FieldHas lower upper ['*'] current := ⟨low, high⟩
    exact iff_of_true ⟨current, rfl, has, .inl ⟨Int.le_refl _, fun _ _ from_ => from_⟩⟩ (.inl has)
  obtain ⟨nonempty, bounds⟩ := reads.bounds
  have isList : text ≠ ['*'] := by
    intro isStar
    cases reads with
    | last isItem =>
      obtain ⟨c, others, digit, rfl⟩ := isItem.starts
      rw [(List.cons.inj isStar).1] at digit
      exact absurd digit (by decide)
    | more isItem =>
      obtain ⟨c, others, digit, rfl⟩ := isItem.starts
      rw [(List.cons.inj isStar).1] at digit
      exact absurd digit (by decide)
  have has (value : Int) : FieldHas lower upper text value ↔
      ∃ item ∈ items, item.Has lower upper value := by
    rw [FieldHas, if_neg isList, reads.fieldItems_eq]
  rw [nextGe, if_neg isList, reads.fieldItems_eq]
  rcases @Reads.loop lower upper current text items reads _ (Nat.le_refl _) dummy dummy with
    ⟨⟨item, isMember, stops⟩, result⟩ | ⟨goesOn, least, above, scanned, result⟩
  · simp only [result, Option.mem_some_iff, exists_eq_left']
    constructor
    · exact fun right => .inl right.1
    · intro holds
      have member : FieldHas lower upper text current := by
        refine holds.elim id fun proper => (has current).mpr ?_
        exact ⟨item, isMember, item.has_of_stops stops (proper item isMember) low high
          (bounds item isMember)⟩
      exact ⟨member, .inl ⟨Int.le_refl _, fun _ _ from_ => from_⟩⟩
  · refine iff_of_true ⟨_, result, ?_⟩ (.inr fun item isMember degenerate => ?_)
    · by_cases isAbove : above ≠ dummy
      · rw [if_pos isAbove]
        obtain ⟨item, isMember, rfl, later⟩ := scanned.above_is.resolve_left isAbove
        refine ⟨(has _).mpr ⟨item, isMember, item.n_has (bounds item isMember).1⟩,
          .inl ⟨Int.le_of_lt later, fun other isOther from_ => ?_⟩⟩
        obtain ⟨found, isFound, foundHas⟩ := (has other).mp isOther
        have behind := found.behind_of_has (goesOn found isFound) foundHas
        have smallest := scanned.above_all found isFound
        omega
      · rw [if_neg isAbove]
        have notBehind : ∀ item ∈ items, ¬ current < item.n := by
          intro item isMember later
          have smallest := scanned.above_all item isMember later
          have bound := (bounds item isMember).1
          omega
        obtain ⟨first, isFirst⟩ := exists_mem_of_ne_nil items nonempty
        have notDummy : least ≠ dummy := by
          have smallest := scanned.least_all first isFirst
          have bound := (bounds first isFirst).1
          omega
        obtain ⟨item, isMember, rfl⟩ := scanned.least_is.resolve_left notDummy
        refine ⟨(has _).mpr ⟨item, isMember, item.n_has (bounds item isMember).1⟩,
          .inr fun other isOther => ?_⟩
        obtain ⟨found, isFound, foundHas⟩ := (has other).mp isOther
        have behind := found.behind_of_has (goesOn found isFound) foundHas
        have smallest := scanned.least_all found isFound
        have before := notBehind found isFound
        omega
    · exact absurd (goesOn item isMember) (by simp [item.stops_degenerate degenerate])

theorem nextGe_right_hours : ∃ value ∈ nextGe 15 "20-22,3".toList,
    IsNextGe (FieldHas 0 23 "20-22,3".toList) 15 value := by
  have accepted : nextField 0 23 "20-22,3 *".toList = .ok ("20-22,3".toList, " *".toList) := by
    have second : fieldLoop 0 23 "3 *".toList = .ok " *".toList := by
      rw [fieldLoop]
      rfl
    have first : fieldLoop 0 23 "20-22,3 *".toList = .ok " *".toList := by
      rw [fieldLoop]
      exact second
    exact congrArg (Except.map _) first
  exact (nextGe_right_iff (by decide) accepted (by decide) (by decide)).mpr (.inr (by decide))

theorem nextGe_degenerate : ¬ ∃ value ∈ nextGe 3 "5-5".toList,
    IsNextGe (FieldHas 0 59 "5-5".toList) 3 value := by
  have result : nextGe 3 "5-5".toList = some 3 := by decide
  have items : fieldItems "5-5".toList = [⟨5, some 5⟩] := by decide
  rintro ⟨value, isNext, member, -⟩
  cases isNext
  rw [FieldHas, if_neg (by decide), items] at member
  simp [Item.Has] at member

end

end Uw7.Cron
