import MerkleBatch.Shape
import MerkleBatch.Index

/-!
# Errors

What a request for a proof can end in besides a proof. The modules that find a fault describe it
by its cause; here the causes are gathered into the kinds that a caller tells apart.

* `Error`: the kinds, each with its wording.
* `Error.isInputError`: whether the caller's input is at fault rather than the prover.
* `Failure`: an error, or a computation that stopped.
-/

namespace MerkleBatch

/-- The part of the proof backend in which a failure occurred. -/
inductive Stage where
  | compile
  | setup
  | prove
  | verify
deriving DecidableEq

namespace Stage

/-- The name of a stage in messages. -/
def name : Stage → String
  | compile => "compile"
  | setup => "setup"
  | prove => "prove"
  | verify => "verify"

end Stage

/-- The kinds of errors. -/
inductive Error where
  | shape (cause : ShapeError)
  /-- A text is no JSON at all. One wording stands for all such faults: what is wrong with the text,
  and where, is not kept. -/
  | malformed
  /-- A text is read, but does not say what it should. -/
  | parse (message : String)
  /-- A batch contradicts itself. -/
  | witness (message : String)
  | prover (stage : Stage) (message : String)
  /-- A proof does not show what it is said to show. -/
  | verificationFailed
  | serialization (message : String)
  | io (message : String)
deriving DecidableEq

namespace Error

/-- The wording of an error. -/
def display : Error → String
  | shape cause => "Shape error: " ++ cause.message
  | malformed => "malformed JSON"
  | parse message => "Parse error: " ++ message
  | witness message => "Witness error: " ++ message
  | prover stage message => "Prover error during " ++ stage.name ++ ": " ++ message
  | verificationFailed => "Proof verification failed"
  | serialization message => "Serialization error: " ++ message
  | io message => "IO error: " ++ message

/-- Whether the input is at fault rather than the prover. -/
def isInputError : Error → Bool
  | shape _ | malformed | parse _ | witness _ => true
  | prover _ _ | verificationFailed | serialization _ | io _ => false

/-- The error and the causes below it, outermost first, as a report lists them. -/
def chain (e : Error) : List String :=
  match e with
  | shape cause => [e.display, cause.message]
  | _ => [e.display]

end Error

/-- How a computation ends without a result. -/
inductive Failure where
  | error (cause : Error)
  | stopped (overflow : Overflow)
deriving DecidableEq

end MerkleBatch
