import Uw7.Lib.LabelCode

/-!
# Counted loops in the code generator's queue

The trees and queue items of an innermost counted loop, and what they do.  A
counter is a 32-bit word in its signed reading, whatever its type; the body is
an item that records the value it sees for the counter.
-/

namespace Uw7.Amigo

open LabelCode

/-- The smallest `long`. -/
def longMin : Int := -2147483648

/-- The largest `long`. -/
def longMax : Int := 2147483647

/-- 32-bit arithmetic, in its signed reading. -/
def wrap32 (value : Int) : Int := (value + 2147483648) % 4294967296 - 2147483648

/-- A value that needs no wrapping. -/
def FitsLong (value : Int) : Prop := longMin ≤ value ∧ value ≤ longMax

instance (value : Int) : Decidable (FitsLong value) := inferInstanceAs (Decidable (_ ∧ _))

theorem fitsLong_wrap32 (value : Int) : FitsLong (wrap32 value) := by
  simp only [FitsLong, wrap32, longMin, longMax]
  omega

theorem wrap32_of_fits {value : Int} (fits : FitsLong value) : wrap32 value = value := by
  simp only [FitsLong, wrap32, longMin, longMax] at *
  omega

theorem wrap32_add_wrap32 (left right : Int) :
    wrap32 (left + wrap32 right) = wrap32 (left + right) := by
  simp only [wrap32]
  omega

inductive CounterType where
  | tyInt
  | tyUint
deriving DecidableEq

/-- The relational operators of a test. -/
inductive Relop where
  | eq
  | ne
  | lt
  | le
  | gt
  | ge
  | ult
  | ule
  | ugt
  | uge
deriving DecidableEq

/-- The comparison an operator makes of two words. -/
def Relop.compare (left right : Int) : Relop → Bool
  | .eq => left == right
  | .ne => left != right
  | .lt => left < right
  | .le => left ≤ right
  | .gt => right < left
  | .ge => right ≤ left
  | .ult => left % 4294967296 < right % 4294967296
  | .ule => left % 4294967296 ≤ right % 4294967296
  | .ugt => right % 4294967296 < left % 4294967296
  | .uge => right % 4294967296 ≤ left % 4294967296

/-- The trees a loop and its copies read. -/
inductive Tree where
  | counter
  | counterPlus (amount : Int)
  | icon (value : Int)
  | invariant
  | temp
deriving DecidableEq

inductive Test where
  | name
  | compare (op : Relop) (right : Tree)
  | not (test : Test)
deriving DecidableEq

/-- The calls `os_loop` marks a loop with. -/
inductive LoopMark where
  | lstart
  | lbody
  | lcond
  | lend
deriving DecidableEq

/-- The queue items that are no label and no branch. -/
inductive Action where
  | osLoop (mark : LoopMark)
  | startSpill
  | endSpill
  | body (mapped : Tree)
  | behindUpdate (mapped : Tree)
  | asgPlus (amount : Int)
  | assign (value : Int)
  | tempInit (left : Option Tree) (amount : Int)
deriving DecidableEq

/-- The counter, the guard's temporary, and the values seen so far by the body
and by what stands between the update and the test. -/
structure LoopState where
  counter : Int
  temp : Int
  trace : List Int
  behind : List Int
deriving DecidableEq

abbrev QueueItem := Item Action Test

/-- The value of a tree, given that of the loop-invariant limit. -/
def Tree.eval (limit : Int) (state : LoopState) : Tree → Int
  | .counter => state.counter
  | .counterPlus amount => wrap32 (state.counter + amount)
  | .icon value => wrap32 value
  | .invariant => limit
  | .temp => state.temp

/-- The outcome of a test. -/
def Test.holds (limit : Int) : Test → LoopState → Bool
  | .name, state => state.counter != 0
  | .compare op right, state => op.compare state.counter (right.eval limit state)
  | .not test, state => !test.holds limit state

/-- What a queue item does. -/
def Action.exec (limit : Int) : Action → LoopState → LoopState
  | .osLoop _, state => state
  | .startSpill, state => state
  | .endSpill, state => state
  | .body mapped, state => { state with trace := state.trace ++ [mapped.eval limit state] }
  | .behindUpdate mapped, state =>
    { state with behind := state.behind ++ [mapped.eval limit state] }
  | .asgPlus amount, state => { state with counter := wrap32 (state.counter + amount) }
  | .assign value, state => { state with counter := wrap32 value }
  | .tempInit none amount, state => { state with temp := wrap32 amount }
  | .tempInit (some left) amount, state =>
    { state with temp := wrap32 (left.eval limit state + amount) }

/-- An innermost counted loop, as loop unrolling finds it: one update of the
counter, with only items that name it between update and test. -/
structure CountedLoop where
  counterType : CounterType
  test : Test
  beginLimit : Tree
  increment : Int
  usedBehindUpdate : Bool
  updateFound : Bool
  labelFound : Bool
  singleExit : Bool
  treeCount : Nat
  label : Nat

/-- The limit a test compares the counter with. -/
def Test.endLimit : Test → Option Tree
  | .name => none
  | .compare _ right => some right
  | .not test => test.endLimit

/-- The operator of a test. -/
def Test.relop : Test → Option Relop
  | .name => none
  | .compare op _ => some op
  | .not test => test.relop

/-- A constant of a type: an unsigned one is not negative. -/
def IconOf : CounterType → Tree → Prop
  | .tyInt, .icon value => FitsLong value
  | .tyUint, .icon value => 0 ≤ value ∧ value ≤ 4294967295
  | _, _ => True

/-- The front end's typing: constants are of the counter's type, and a
relational test of unsigned words is an unsigned test. -/
structure CountedLoop.WellTyped (loop : CountedLoop) : Prop where
  beginTyped : IconOf loop.counterType loop.beginLimit
  endTyped : ∀ limit, loop.test.endLimit = some limit → IconOf loop.counterType limit
  opTyped : loop.counterType = .tyUint → ∀ op, loop.test.relop = some op →
      op = .eq ∨ op = .ne ∨ op = .ult ∨ op = .ule ∨ op = .ugt ∨ op = .uge
  incrementFits : FitsLong loop.increment

/-- The items between the update and the test that name the counter. -/
def CountedLoop.behind (loop : CountedLoop) (mapped : Tree) : List Action :=
  if loop.usedBehindUpdate then [.behindUpdate mapped] else []

/-- The body, the update and what follows it, before unrolling. -/
def CountedLoop.trip (loop : CountedLoop) : List Action :=
  [.body .counter, .asgPlus loop.increment] ++ loop.behind .counter

def CountedLoop.source (loop : CountedLoop) : List QueueItem :=
  [.act (.osLoop .lstart), .act (.osLoop .lbody), .label loop.label] ++
    (loop.trip ++ [Action.osLoop .lcond]).map Item.act ++
    [.cbranch loop.test loop.label, .act (.osLoop .lend)]

end Uw7.Amigo
