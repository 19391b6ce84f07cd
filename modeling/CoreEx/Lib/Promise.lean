/-
  File:      CoreEx/Lib/Promise.lean
  Subject:   What a caller gets from an asynchronous function, with and without `await`.

  A call of an asynchronous function returns a promise at once. `await` takes the value out, or
  throws what the promise was rejected with. Used without `await`, the promise is an object: it
  counts as true in a condition and as no number in an arithmetic expression, whatever it settles
  to. Nothing here names the system under verification.

  * `Promise`, `Promise.await` -- a promise and the awaited value;
  * `Promise.truthy` -- the promise itself as a condition.
-/
import CoreEx.Lib.Prog

namespace CoreEx

/-- A promise, with what it settles to. -/
structure Promise (ε α : Type) where
  settled : Except ε α
  deriving Repr

namespace Promise

variable {σ ε α : Type}

/-- `await p`. -/
def await (p : Promise ε α) : Prog σ ε α := Prog.ofExcept p.settled

/-- `Boolean(p)`: an object is true, and a promise is an object. -/
def truthy (_ : Promise ε α) : Bool := true

/-- A promise used as a condition says nothing about the value it will have. -/
@[simp] theorem truthy_eq (p : Promise ε α) : p.truthy = true := rfl

end Promise

end CoreEx
