import MentorAllocation.Concurrency.Exceptions

namespace Export
open Concurrency

inductive Raised where
  | exportValidation (message : String)
  | exportIo (message : String)
  | retryExhausted (lastError : Raised)
  | valueError (message : String)
  | assertion
  | fileNotFound (name : String)
  /-- Any other `OSError`, by its `str`. -/
  | os (text : String)
  | other (typeName text : String)
  deriving DecidableEq, Repr

namespace Raised

/-- `isinstance(exc, OSError)`, which `ConnectionError` and `TimeoutError` are too. -/
def isOSError : Raised → Bool
  | .fileNotFound _ | .os _ => true
  | _ => false

def isFileNotFound : Raised → Bool
  | .fileNotFound _ => true
  | _ => false

def text : Raised → String
  | .exportValidation message | .exportIo message | .valueError message => message
  | .retryExhausted _ =>
    "RETRY_EXHAUSTED: «در حال حاضر امکان انجام عملیات نیست؛ لطفاً بعداً دوباره تلاش کنید.»"
  | .assertion => ""
  | .fileNotFound name => "[Errno 2] No such file or directory: '" ++ name ++ "'"
  | .os text | .other _ text => text

def typeName : Raised → String
  | .exportValidation _ => "ExportValidationError"
  | .exportIo _ => "ExportIOError"
  | .retryExhausted _ => "RetryExhaustedError"
  | .valueError _ => "ValueError"
  | .assertion => "AssertionError"
  | .fileNotFound _ => "FileNotFoundError"
  | .os _ => "OSError"
  | .other typeName _ => typeName

def root : Raised → Raised
  | .retryExhausted lastError => lastError.root
  | e => e

end Raised

section
variable {Req : Type} {Resp : Req → Type} {α : Type} (retryable : Raised → Bool)
  (func : Fallible Req Resp Raised α)

/-- `execute_with_retry` with so many attempts left. Also an exception that is not
retryable leaves as `RetryExhaustedError`, and a policy without attempts runs into the
assertion behind the loop. -/
def executeWithRetry : Nat → Fallible Req Resp Raised α
  | 0 => Fallible.raise .assertion
  | n + 1 => Fallible.handle func pure fun e =>
    if !retryable e || n == 0 then Fallible.raise (.retryExhausted e) else executeWithRetry n

/-- `RetryingExportRunner.execute` with so many attempts to follow this one. -/
def execute : Nat → Fallible Req Resp Raised α
  | 0 => func
  | n + 1 => Fallible.handle func pure fun e =>
    if retryable e then execute n else Fallible.raise e

end

def Wrapped (E : Raised → Prop) (e : Raised) : Prop :=
  e = .assertion ∨ ∃ lastError, E lastError ∧ e = .retryExhausted lastError

section
variable {Req : Type} {Resp : Req → Type} {α : Type} {retryable : Raised → Bool}
  {func : Fallible Req Resp Raised α} {E : Raised → Prop}

theorem raises_executeWithRetry (h : func.Raises E) (n : Nat) :
    (executeWithRetry retryable func n).Raises (Wrapped E) := by
  induction n with
  | zero => exact .inl rfl
  | succ n ih =>
    refine h.handle (fun a => Fallible.Raises.pure a) fun e he => ?_
    split
    · exact .inr ⟨e, he, rfl⟩
    · exact ih

theorem raises_execute (h : func.Raises E) (n : Nat) : (execute retryable func n).Raises E := by
  induction n with
  | zero => exact h
  | succ n ih =>
    refine h.handle (fun a => Fallible.Raises.pure a) fun e he => ?_
    split
    · exact ih
    · exact he

end

end Export
