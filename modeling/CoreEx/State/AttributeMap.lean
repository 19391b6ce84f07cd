/-
  File:      CoreEx/State/AttributeMap.lean
  Subject:   `core-kernel/source/services/attributes/attribute-map.ts`, with `get`, `set`, `unset` and
             `has` of the utilities, on objects that refer to each other.

  Elsewhere a wallet is a record of values. Here its attributes are what they are in the code, an
  object with properties that lead to further objects, for what a copy shares with its original is
  a matter of objects.

  * `Primitive`, `ObjectKind`, `AttributeHeap` -- values and objects;
  * `BigNumber` -- numbers whose value is a private field, and their methods;
  * `getPath`, `setPath`, `unsetPath`, `hasPath` -- the utilities; `getPath_eq`;
  * `AttributeMap.get`, `set`, `forget`, `flush`, `has` -- the map;
  * `FastCopy` -- what is known of `cloneDeep`.
-/
import CoreEx.Contracts.Exceptions
import CoreEx.Lib.Double
import CoreEx.Lib.Heap
import CoreEx.Lib.Prog

namespace CoreEx

/-! ## 1. Values and objects -/

/-- A value that is no object. -/
inductive Primitive
  | undefined
  | null
  | boolean (b : Bool)
  | number (x : Double)
  | text (s : String)
  | bigint (n : Int)
  deriving DecidableEq

/-- What an object is. `#value` belongs to the object, but only the methods of the class see it; an
    object that the constructor has not made has none. -/
inductive ObjectKind
  | plain
  | array
  | bigNumber (value : Option Int)
  deriving DecidableEq

/-- The prototypes. -/
inductive Prototype
  | object
  | array
  | bigNumber
  deriving DecidableEq

def ObjectKind.prototype : ObjectKind → Prototype
  | plain => .object
  | array => .array
  | bigNumber _ => .bigNumber

abbrev AttributeHeap : Type := Heap ObjectKind Primitive

abbrev AttributeValue : Type := Slot Primitive

/-- Code that works on the objects and may throw. -/
abbrev HeapProg : Type → Type := Prog AttributeHeap Exception

/-- `BigNumber`. -/
structure BigNumber where
  value : Option Int
  deriving DecidableEq

/-- The methods of `BigNumber`; `div` is `dividedBy`, and the texts are those of `toBigInt`. -/
inductive NumberMethod
  | plus (other : Int)
  | minus (other : Int)
  | times (other : Int)
  | dividedBy (other : Int)
  | isZero
  | comparedTo (other : Int)
  | isLessThan (other : Int)
  | isLessThanEqual (other : Int)
  | isGreaterThan (other : Int)
  | isGreaterThanEqual (other : Int)
  | isEqualTo (other : Int)
  | isNegative
  | toBigInt

/-- What they return; a `BigNumber` that the constructor has made is given by its value. -/
inductive NumberResult
  | bigNumber (n : Int)
  | number (n : Int)
  | boolean (b : Bool)
  deriving DecidableEq

namespace BigNumber

/-- A method on a number with a value. -/
def compute (v : Int) : NumberMethod → Except Exception NumberResult
  | .plus other => .ok (.bigNumber (v + other))
  | .minus other => .ok (.bigNumber (v - other))
  | .times other => .ok (.bigNumber (v * other))
  | .dividedBy other => if other = 0 then .error .rangeError else .ok (.bigNumber (v.tdiv other))
  | .isZero => .ok (.boolean (v = 0))
  | .comparedTo other => .ok (.number (if v > other then 1 else if v < other then -1 else 0))
  | .isLessThan other => .ok (.boolean (v < other))
  | .isLessThanEqual other => .ok (.boolean (v ≤ other))
  | .isGreaterThan other => .ok (.boolean (v > other))
  | .isGreaterThanEqual other => .ok (.boolean (v ≥ other))
  | .isEqualTo other => .ok (.boolean (v = other))
  | .isNegative => .ok (.boolean (v < 0))
  | .toBigInt => .ok (.number v)

/-- **A method.** All of them begin with `this.#value`. -/
def call (x : BigNumber) (method : NumberMethod) : Except Exception NumberResult :=
  match x.value with
  | none => .error (.typeError "#value")
  | some v => compute v method

end BigNumber

/-! ## 2. Paths -/

/-- `isObject(value)`: so is `null`. -/
def isObject : AttributeValue → Bool
  | .ref _ => true
  | .prim .null => true
  | .prim _ => false

/-- `value === undefined || value === null`. -/
def isNullish : AttributeValue → Bool
  | .prim .undefined => true
  | .prim .null => true
  | _ => false

def disallowedKeys : List String := ["__proto__", "prototype", "constructor"]

/-- `getPathSegments(value)`. -/
def getPathSegments (value : String) : List String :=
  let segments := (value.toList.splitOn '.').map String.ofList
  if segments.any fun segment => segment ∈ disallowedKeys then [] else segments

/-- `object[segment]`, as far as it is the object's own. -/
def ownProperty (h : AttributeHeap) (a : Nat) (segment : String) : AttributeValue :=
  (h.property a segment).getD (.prim .undefined)

/-- The loop of `get(object, path)`; nothing is the default. -/
def getPath (h : AttributeHeap) : AttributeValue → List String → Option AttributeValue
  | object, [] => some object
  | .prim _, _ :: _ => none
  | .ref a, segment :: rest =>
    match h.property a segment with
    | none => none
    | some object =>
      if isNullish object = true then (if rest ≠ [] then none else some object)
      else getPath h object rest

/-- `get` follows the path. -/
theorem getPath_eq (h : AttributeHeap) (object : AttributeValue) (path : List String) :
    getPath h object path = h.follow object path := by
  induction path generalizing object with
  | nil => rfl
  | cons segment rest ih =>
    cases object with
    | prim p => rfl
    | ref a =>
      rw [Heap.follow_cons]
      unfold getPath
      cases h.property a segment with
      | none => rfl
      | some object =>
        show (if isNullish object = true then (if rest ≠ [] then none else some object)
          else getPath h object rest) = h.follow object rest
        split
        · rename_i hnull
          cases rest with
          | nil => rfl
          | cons segment' rest' =>
            cases object with
            | prim p => rfl
            | ref b => cases hnull
        · exact ih object

/-- `if (!isObject(object[segment])) object[segment] = {}`. -/
def ensureObject (a : Nat) (segment : String) (h : AttributeHeap) : AttributeHeap :=
  if isObject (ownProperty h a segment) = true then h
  else (h.create .plain).assign a segment (.ref h.length)

/-- The loop of `set(object, path, value)`. -/
def setPath (value : AttributeValue) : AttributeValue → List String → HeapProg Unit
  | _, [] => pure ()
  | .prim _, _ :: _ => Prog.throw (.typeError "null")
  | .ref a, segment :: rest => do
    Prog.modify (ensureObject a segment)
    Prog.modify fun h => if rest = [] then h.assign a segment value else h
    let object ← Prog.gets (ownProperty · a segment)
    setPath value object rest

/-- The loop of `unset(object, path)`. -/
def unsetPath : AttributeValue → List String → HeapProg Unit
  | _, [] => pure ()
  | .prim _, _ :: _ => Prog.throw (.typeError "null")
  | .ref a, [segment] => Prog.modify (Heap.remove · a segment)
  | .ref a, segment :: segment' :: rest => do
    let object ← Prog.gets (ownProperty · a segment)
    if isObject object = true then unsetPath object (segment' :: rest) else pure ()

/-- What the code is given: the registered attributes, and which names a prototype has. -/
structure AttributeContext where
  knownAttributes : String → Bool
  inherits : Prototype → String → Bool

namespace AttributeMap

variable (ctx : AttributeContext)

/-- `segment in object`. -/
def isIn (h : AttributeHeap) (a : Nat) (segment : String) : Bool :=
  match h[a]? with
  | none => false
  | some o => o.props.has segment || ctx.inherits o.kind.prototype segment

/-- The loop of `has(object, path)`. What a prototype has is a function. -/
def hasPath (h : AttributeHeap) : AttributeValue → List String → Except Exception Bool
  | _, [] => .ok true
  | .prim .null, _ :: _ => .error (.typeError "null")
  | .prim _, _ :: _ => .ok false
  | .ref a, segment :: rest =>
    if isIn ctx h a segment = true then hasPath h (ownProperty h a segment) rest else .ok false

/-! ## 3. The map -/

/-- `#assertKnown(key)`. -/
def assertKnown (key : String) : Except Exception Unit :=
  if ctx.knownAttributes key = true then .ok () else .error (.unknownAttribute key)

/-- `value ?? defaultValue`. -/
def orDefault (value : Option AttributeValue) (defaultValue : Primitive) : AttributeValue :=
  match value with
  | none => .prim defaultValue
  | some v => if isNullish v = true then .prim defaultValue else v

/-- `assert.defined(value)`. -/
def assertDefined (value : AttributeValue) : Except Exception AttributeValue :=
  if isNullish value = true then .error (.assertion "non-null and non-undefined") else .ok value

/-- `get(key, defaultValue)` on the object `#attributes`. -/
def get (h : AttributeHeap) (attributes : Nat) (key : String) (defaultValue : Primitive) :
    Except Exception AttributeValue := do
  assertKnown ctx key
  assertDefined (orDefault (getPath h (.ref attributes) (getPathSegments key)) defaultValue)

/-- `has(key)`. -/
def has (h : AttributeHeap) (attributes : Nat) (key : String) : Except Exception Bool := do
  assertKnown ctx key
  hasPath ctx h (.ref attributes) (getPathSegments key)

/-- `set(key, value)`. -/
def set (attributes : Nat) (key : String) (value : AttributeValue) : HeapProg Bool := do
  Prog.ofExcept (assertKnown ctx key)
  setPath value (.ref attributes) (getPathSegments key)
  let known ← Prog.gets fun h => has ctx h attributes key
  Prog.ofExcept known

/-- `forget(key)`. -/
def forget (attributes : Nat) (key : String) : HeapProg Bool := do
  Prog.ofExcept (assertKnown ctx key)
  unsetPath (.ref attributes) (getPathSegments key)
  let known ← Prog.gets fun h => has ctx h attributes key
  let known ← Prog.ofExcept known
  pure !known

end AttributeMap

/-! ## 4. The copy -/

/-- A copy has the prototype of its original and its own enumerable properties; a private field is
    none of them. -/
def ObjectKind.copied : ObjectKind → ObjectKind
  | plain => plain
  | array => array
  | bigNumber _ => bigNumber none

/-- **`cloneDeep(object)`** copies recursively what the object leads to. -/
def FastCopy (cloneDeep : AttributeHeap → Nat → AttributeHeap × Nat) : Prop :=
  ∀ (h : AttributeHeap) (a : Nat), (∃ S, h.Closed S ∧ S a) →
    ∃ twin, Heap.Copied ObjectKind.copied h a (cloneDeep h a).1 (cloneDeep h a).2 twin

end CoreEx
