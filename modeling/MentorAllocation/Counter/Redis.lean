import Mathlib
import MentorAllocation.Concurrency.Program
import MentorAllocation.Text.Python

namespace Counter
open Text Concurrency

structure RedisNamespaces where
  base : String

namespace RedisNamespaces

def counterSequence (N : RedisNamespaces) (yearCode : String) (gender : Int) : String :=
  N.base ++ ":counter:seq:" ++ yearCode ++ ":" ++ toString gender

def counterStudent (N : RedisNamespaces) (yearCode studentId : String) : String :=
  N.base ++ ":counter:student:" ++ yearCode ++ ":" ++ studentId

end RedisNamespaces

/-- The object the script stores under a student's key. -/
structure Assignment where
  counter : String
  center : String
  gender : String
  serial : String
  yearCode : String
  deriving DecidableEq, Repr

/-- What a key holds, as `GET` followed by a JSON decoder sees it. -/
inductive Value where
  | pending
  | assigned (assignment : Assignment)
  | number (n : Int)
  deriving DecidableEq, Repr

/-- `volatile`: set with an expiry. -/
structure Entry where
  value : Value
  volatile : Bool
  deriving DecidableEq, Repr

abbrev Store := String → Option Entry

namespace Store

def set (s : Store) (key : String) (value : Value) (volatile : Bool) : Store :=
  Function.update s key (some ⟨value, volatile⟩)

def del (s : Store) (key : String) : Store := Function.update s key none

/-- `INCR` on signed 64-bit integers; an expiry stays. -/
def incr (s : Store) (key : String) : Except String (Int × Store) :=
  match s key with
  | none => .ok (1, s.set key (.number 1) false)
  | some ⟨.number n, volatile⟩ =>
    if n < 2 ^ 63 - 1 then .ok (n + 1, s.set key (.number (n + 1)) volatile)
    else .error "ERR increment or decrement would overflow"
  | some _ => .error "ERR value is not an integer or out of range"

/-- Keys whose time to live has run out are gone; only volatile ones have any. -/
def expire (s : Store) (keys : List String) : Store := fun key =>
  (s key).filter (fun entry => !(entry.volatile && keys.contains key))

end Store

/-- `KEYS` and `ARGV` of the script, the placeholder and its time to live left out. -/
structure ScriptArgs where
  studentKey : String
  sequenceKey : String
  yearCode : String
  prefixCode : String
  center : String
  gender : String
  seqMax : Int

inductive Reply where
  | new (counter serial : String)
  | reused (counter serial : String)
  | pending
  | exhausted
  deriving DecidableEq, Repr

/-- An integer as a Lua number: rounded, half to even, to the 53 bits of a double. -/
def luaNumber (n : Int) : Int :=
  let size := n.natAbs
  if size ≤ 2 ^ 53 then n
  else
    let unit := 2 ^ (size.log2 - 52)
    let whole := size / unit
    let up := unit < 2 * (size % unit) || (unit == 2 * (size % unit) && whole % 2 == 1)
    let rounded : Int := ((if up then whole + 1 else whole) * unit : Nat)
    if n < 0 then -rounded else rounded

/-- `_ALLOCATE_SCRIPT`. What it wrote before an error stays written. -/
def allocateScript (a : ScriptArgs) (s : Store) : Except String Reply × Store :=
  match s a.studentKey with
  | some ⟨.pending, _⟩ => (.ok .pending, s)
  | some ⟨.assigned assignment, _⟩ => (.ok (.reused assignment.counter assignment.serial), s)
  | some ⟨.number _, _⟩ => (.error "attempt to index local 'decoded' (a number value)", s)
  | none =>
    let s := s.set a.studentKey .pending true
    match s.incr a.sequenceKey with
    | .error message => (.error message, s)
    | .ok (seq, s) =>
      let seq := luaNumber seq
      if luaNumber a.seqMax < seq then (.ok .exhausted, s.del a.studentKey)
      else
        let serial := zeroPad 4 seq
        let counter := a.yearCode ++ a.prefixCode ++ serial
        let assignment : Assignment :=
          { counter, center := a.center, gender := a.gender, serial, yearCode := a.yearCode }
        (.ok (.new counter serial), s.set a.studentKey (.assigned assignment) false)

inductive Request where
  | eval (args : ScriptArgs)
  | get (key : String)

def Request.Result : Request → Type
  | .eval _ => Reply
  | .get _ => Option Value

/-- The result of a command, or the retryable error it ends in. -/
abbrev Request.Response (r : Request) : Type := Except String r.Result

def Store.execute (s : Store) : (r : Request) → r.Response × Store
  | .eval args => allocateScript args s
  | .get key => (.ok ((s key).map Entry.value), s)

/-- What becomes of one command: carried out and answered, carried out with the answer
lost, or not carried out. -/
inductive Delivery where
  | delivered
  | lost (error : String)
  | refused (error : String)

structure Choice where
  expired : List String := []
  delivery : Delivery := .delivered

/-- One command at a time, a script as a whole. -/
def Store.answer {ι : Type} (ch : Choice) (_ : ι) (r : Request) (s : Store) :
    Option (r.Response × Store) :=
  let s := s.expire ch.expired
  some (match ch.delivery with
    | .refused error => (.error error, s)
    | .lost error => (.error error, (s.execute r).2)
    | .delivered => s.execute r)

inductive Failure where
  /-- `CounterRuntimeError`. -/
  | counter (code messageFa : String) (details : Option String)
  /-- `RedisOperationError`. -/
  | operation (message : String)
  | keyError
  deriving DecidableEq, Repr

/-- `RedisExecutor.call` with so many attempts left and the last error seen. -/
def RedisExecutor.call (r : Request) (lastExc : Option String) :
    Nat → Fallible Request Request.Response Failure r.Result
  | 0 => Fallible.raise (.operation (lastExc.getD "redis operation failed without exception"))
  | attempts + 1 => Program.ask r fun
    | .ok result => Program.ret (.ok result)
    | .error error => RedisExecutor.call r (some error) attempts

end Counter
