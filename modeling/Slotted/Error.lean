/-!
# What can go wrong

Two outcomes other than an answer are told apart.  An **error** is an answer of its own: the caller
asked for something that cannot be had, and everything goes on.  An **abort** cuts the call short
and unwinds through the scopes around it until something catches it.

## Main definitions

* `Error`, `Error.message` — the errors and their texts.
* `Abort`, `Abort.message` — the aborts and their texts.
* `Failure` — either of the two.
-/

namespace Slotted

/-- Which argument was refused, and why. -/
inductive ArgumentFault where
  /-- The number of slots asked for is not a machine word. -/
  | capacityOverflow
  /-- A plan with no batches was asked for. -/
  | zeroBatchCount
  /-- The least batch size was zero. -/
  | zeroMinimumBatch
  /-- The number of batches per thread was zero. -/
  | zeroBatchesPerThread
  /-- The number of threads was zero. -/
  | zeroThreads
  deriving DecidableEq, Repr

/-- Why the bytes are no encoding of a container. -/
inductive EncodingFault where
  /-- The input ends too early. -/
  | endOfInput
  /-- The leading tag names another kind of container. -/
  | kindTag
  /-- A pattern is no value of the kind. -/
  | value
  /-- A value is listed twice. -/
  | duplicate
  /-- A value is listed with no occurrences. -/
  | zeroCount
  /-- The counts together are more than a machine word. -/
  | countOverflow
  /-- Bytes are left over. -/
  | trailing
  deriving DecidableEq, Repr

/-- What a cursor had nothing to do it with. -/
inductive StateFault where
  /-- The cursor stands on no value. -/
  | noCurrentValue
  /-- The cursor stands on no occurrence. -/
  | noCurrentOccurrence
  deriving DecidableEq, Repr

/-- The operations that change a collection. -/
inductive Mutation where
  /-- Adding an element. -/
  | add
  /-- Removing an element. -/
  | remove
  /-- Removing every element. -/
  | clear
  deriving DecidableEq, Repr

/-- An answer that says why there is no other. -/
inductive Error where
  /-- An index past the end. -/
  | indexOutOfRange (index length : Nat)
  /-- An argument that cannot be served. -/
  | illegalArgument (why : ArgumentFault)
  /-- A change asked of a read-only view. -/
  | unsupportedOperation (what : Mutation)
  /-- An extremum asked of an empty container. -/
  | noSuchElement
  /-- A view used after the call that granted it returned. -/
  | usageAfterScope
  /-- A removal with nothing to remove. -/
  | illegalState (why : StateFault)
  /-- Bytes or documents that encode no container. -/
  | malformedInput (why : EncodingFault)
  deriving DecidableEq, Repr

/-- The text of a refused argument. -/
def ArgumentFault.message : ArgumentFault → String
  | capacityOverflow => "capacity overflow"
  | zeroBatchCount => "batch count must be positive"
  | zeroMinimumBatch => "minimum batch size must be positive"
  | zeroBatchesPerThread => "batches per thread must be positive"
  | zeroThreads => "thread count must be positive"

/-- The text of a faulty encoding. -/
def EncodingFault.message : EncodingFault → String
  | endOfInput => "unexpected end of input"
  | kindTag => "unexpected kind tag"
  | value => "invalid value"
  | duplicate => "duplicate value"
  | zeroCount => "zero occurrence count"
  | countOverflow => "occurrence count overflow"
  | trailing => "trailing bytes"

/-- The text of a removal with nothing to remove. -/
def StateFault.message : StateFault → String
  | noCurrentValue => "no current value to remove"
  | noCurrentOccurrence => "no current occurrence to remove"

/-- The name of a change. -/
def Mutation.name : Mutation → String
  | add => "add"
  | remove => "remove"
  | clear => "clear"

/-- The text of an error. -/
def Error.message : Error → String
  | indexOutOfRange i n => s!"index {i} out of range for length {n}"
  | illegalArgument why => "illegal argument: " ++ why.message
  | unsupportedOperation what => "unsupported operation `" ++ what.name ++ "` on a read-only view"
  | noSuchElement => "no such element"
  | usageAfterScope => "scoped view used after its granting call returned"
  | illegalState why => "illegal state: " ++ why.message
  | malformedInput why => "malformed input: " ++ why.message

/-- How a lock is held: together with other readers, or alone. -/
inductive Mode where
  /-- Together with other shared holds. -/
  | shared
  /-- Alone. -/
  | exclusive
  deriving DecidableEq, Repr

/-- The name of an acquisition in the given mode. -/
def Mode.name : Mode → String
  | shared => "Read"
  | exclusive => "Write"

/-- What cuts a call short. -/
inductive Abort where
  /-- The occurrences together would be more than a machine word. -/
  | countOverflow
  /-- A container was asked for whose slot count is not a machine word. -/
  | unrepresentableCapacity
  /-- Arrays were asked for that exceed the largest allocation. -/
  | oversizedAllocation
  /-- A thread asked for a lock that it holds already, in a way that would block it forever. -/
  | relock (mode : Mode)
  /-- A lock has as many shared holds as its word can count. -/
  | tooManyReaders
  /-- A piece of client code aborted with a text of its own. -/
  | raised (message : String)
  deriving DecidableEq, Repr

/-- The text of an abort. -/
def Abort.message : Abort → String
  | countOverflow => "occurrence count overflow"
  | unrepresentableCapacity => "capacity overflow: IllegalArgument(\"capacity overflow\")"
  | oversizedAllocation => "capacity overflow"
  | relock mode =>
    "lock is already held by this thread, " ++ mode.name ++ " acquisition would deadlock"
  | tooManyReaders => "too many readers"
  | raised message => message

/-- An error or an abort. -/
inductive Failure where
  /-- The call answered with an error. -/
  | error (e : Error)
  /-- The call was cut short. -/
  | abort (a : Abort)
  deriving DecidableEq, Repr

end Slotted
