/-
  File:      CoreEx/State/WalletClone.lean
  Subject:   `clone` of `core-state/source/wallets/wallet.ts`, and what callers do with a wallet and
             with its clone.

  * `WalletInstance`, `clone` -- the fields, and the copy;
  * `WalletRead`, `read` -- what a caller can see of a wallet;
  * `ClientCall`, `perform` -- what a caller who holds the wallet and some values can do;
  * `WalletPair`, `step` -- a wallet and its clone, each with a caller.
-/
import CoreEx.State.AttributeMap
import Mathlib.Logic.Function.Basic

namespace CoreEx

/-! ## 1. The wallet -/

/-- `Wallet`; `attributes` is the object of its `AttributeMap`. -/
structure WalletInstance where
  address : String
  publicKey : Option String
  balance : BigNumber
  nonce : BigNumber
  attributes : Nat

namespace WalletInstance

/-- **`clone()`**: the attributes are copied, the numbers are handed over. -/
def clone (cloneDeep : AttributeHeap → Nat → AttributeHeap × Nat) (h : AttributeHeap)
    (w : WalletInstance) : AttributeHeap × WalletInstance :=
  ((cloneDeep h w.attributes).1,
    { address := w.address
      publicKey := w.publicKey
      balance := w.balance
      nonce := w.nonce
      attributes := (cloneDeep h w.attributes).2 })

end WalletInstance

/-! ## 2. Reads -/

/-- What is done with a value: look at it, or call a method. -/
inductive Look
  | view
  | call (method : NumberMethod)

/-- What is seen. -/
inductive Seen
  | primitive (p : Primitive)
  | object (prototype : Prototype) (names : List String)
  | result (r : NumberResult)
  | boolean (b : Bool)
  | publicKey (publicKey : Option String)
  deriving DecidableEq

/-- A look at an object; only a `BigNumber` has the methods. -/
def lookAtObject (o : HeapObject ObjectKind Primitive) : Look → Except Exception Seen
  | .view => .ok (.object o.kind.prototype o.props.keys)
  | .call method =>
    match o.kind with
    | .bigNumber value => (BigNumber.call ⟨value⟩ method).map .result
    | _ => .error (.typeError "is not a function")

/-- A look at a value. -/
def lookAt (h : AttributeHeap) : AttributeValue → Look → Except Exception Seen
  | .prim p, .view => .ok (.primitive p)
  | .prim _, .call _ => .error (.typeError "is not a function")
  | .ref a, look =>
    match h[a]? with
    | none => .error (.typeError "is not a function")
    | some o => lookAtObject o look

/-- What a caller can read. -/
inductive WalletRead
  /-- `wallet.getAddress()`. -/
  | address
  /-- `wallet.getPublicKey()`. -/
  | publicKey
  /-- `wallet.getBalance().method(..)`. -/
  | balance (method : NumberMethod)
  /-- `wallet.getNonce().method(..)`. -/
  | nonce (method : NumberMethod)
  /-- `wallet.getAttribute(key, defaultValue)?.name₁?.name₂…`, and a look. -/
  | getAttribute (key : String) (defaultValue : Primitive) (names : List String) (look : Look)
  /-- `wallet.getAttributes()?.name₁?.name₂…`, and a look. -/
  | getAttributes (names : List String) (look : Look)
  /-- `wallet.hasAttribute(key)`, and with it `isValidator` and the like. -/
  | hasAttribute (key : String)

/-- `value?.name₁?.name₂…`. -/
def readNames (h : AttributeHeap) (value : AttributeValue) (names : List String) : AttributeValue :=
  (h.follow value names).getD (.prim .undefined)

variable (ctx : AttributeContext)

/-- **What is read.** -/
def read (h : AttributeHeap) (w : WalletInstance) : WalletRead → Except Exception Seen
  | .address => .ok (.primitive (.text w.address))
  | .publicKey => .ok (.publicKey w.publicKey)
  | .balance method => (w.balance.call method).map .result
  | .nonce method => (w.nonce.call method).map .result
  | .getAttribute key defaultValue names look => do
    let value ← AttributeMap.get ctx h w.attributes key defaultValue
    lookAt h (readNames h value names) look
  | .getAttributes names look => lookAt h (readNames h (.ref w.attributes) names) look
  | .hasAttribute key => (AttributeMap.has ctx h w.attributes key).map .boolean

/-! ## 3. Calls -/

/-- A caller with a wallet: the objects, the wallet, and the values the caller holds. -/
structure ClientState where
  heap : AttributeHeap
  wallet : WalletInstance
  held : List AttributeValue

/-- Code of a caller. -/
abbrev ClientProg : Type → Type := Prog ClientState Exception

/-- What a caller can do. Values are named by their place among those held. -/
inductive ClientCall
  /-- A literal. -/
  | literal (p : Primitive)
  /-- `{}`, `[]`, or `new BigNumber(..)`. -/
  | create (kind : ObjectKind)
  /-- `wallet.getAttributes()?.name₁?.name₂…`. -/
  | getAttributes (names : List String)
  /-- `wallet.getAttribute(key, defaultValue)?.name₁?.name₂…`. -/
  | getAttribute (key : String) (defaultValue : Primitive) (names : List String)
  /-- `held[i][name] = held[j]`. -/
  | assign (i : Nat) (name : String) (j : Nat)
  /-- `delete held[i][name]`. -/
  | remove (i : Nat) (name : String)
  /-- `wallet.setAttribute(key, held[j])`. -/
  | setAttribute (key : String) (j : Nat)
  | forgetAttribute (key : String)
  /-- `wallet.getData().attributes.flush()`. -/
  | flush
  | setPublicKey (publicKey : String)
  /-- `setBalance`, and with it `increaseBalance` and `decreaseBalance`. -/
  | setBalance (balance : BigNumber)
  /-- `setNonce`, and with it `increaseNonce` and `decreaseNonce`. -/
  | setNonce (nonce : BigNumber)

namespace ClientState

/-- `held[j]`. -/
def value (s : ClientState) (j : Nat) : AttributeValue := s.held[j]?.getD (.prim .undefined)

/-- Code of the map, on the objects. -/
def onHeap {α : Type} (x : HeapProg α) : ClientProg α :=
  Prog.zoom ClientState.heap (fun h s => { s with heap := h }) x

def hold (v : AttributeValue) : ClientProg Unit :=
  Prog.modify fun s => { s with held := s.held ++ [v] }

/-- `object[name] = value` and the like, in strict mode. -/
def change (i : Nat) (f : Nat → AttributeHeap → AttributeHeap) : ClientProg Unit := do
  let object ← Prog.gets (ClientState.value · i)
  match object with
  | .prim _ => Prog.throw (.typeError "Cannot set property")
  | .ref a => Prog.modify fun s => { s with heap := f a s.heap }

/-- **A call.** -/
def perform : ClientCall → ClientProg Unit
  | .literal p => hold (.prim p)
  | .create kind => do
    let a ← Prog.gets fun s => s.heap.length
    Prog.modify fun s => { s with heap := s.heap.create kind }
    hold (.ref a)
  | .getAttributes names => do
    let v ← Prog.gets fun s => readNames s.heap (.ref s.wallet.attributes) names
    hold v
  | .getAttribute key defaultValue names => do
    let found ← Prog.gets fun s => AttributeMap.get ctx s.heap s.wallet.attributes key defaultValue
    let v ← Prog.ofExcept found
    let v ← Prog.gets fun s => readNames s.heap v names
    hold v
  | .assign i name j => do
    let v ← Prog.gets (ClientState.value · j)
    change i fun a h => h.assign a name v
  | .remove i name => change i fun a h => h.remove a name
  | .setAttribute key j => do
    let v ← Prog.gets (ClientState.value · j)
    let attributes ← Prog.gets fun s => s.wallet.attributes
    let _ ← onHeap (AttributeMap.set ctx attributes key v)
    pure ()
  | .forgetAttribute key => do
    let attributes ← Prog.gets fun s => s.wallet.attributes
    let _ ← onHeap (AttributeMap.forget ctx attributes key)
    pure ()
  | .flush => Prog.modify fun s =>
      { s with heap := s.heap.create .plain, wallet.attributes := s.heap.length }
  | .setPublicKey publicKey => Prog.modify fun s => { s with wallet.publicKey := some publicKey }
  | .setBalance balance => Prog.modify fun s => { s with wallet.balance := balance }
  | .setNonce nonce => Prog.modify fun s => { s with wallet.nonce := nonce }

end ClientState

/-! ## 4. A wallet and its clone -/

/-- The wallet, or its clone. -/
inductive PairSide
  | original
  | clone
  deriving DecidableEq

/-- The other of the two. -/
def PairSide.other : PairSide → PairSide
  | original => clone
  | clone => original

/-- One of two things. -/
def PairSide.pick {α : Sort*} (x y : α) : PairSide → α
  | original => x
  | clone => y

/-- The two wallets, and what their callers hold. -/
structure WalletPair where
  heap : AttributeHeap
  wallet : PairSide → WalletInstance
  held : PairSide → List AttributeValue

namespace WalletPair

/-- One of the callers. -/
def client (s : WalletPair) (side : PairSide) : ClientState := ⟨s.heap, s.wallet side, s.held side⟩

/-- **A call of one of the callers**, whether it returns or throws. -/
def step (s : WalletPair) (side : PairSide) (call : ClientCall) : WalletPair :=
  let c := ((ClientState.perform ctx call).run (s.client side)).state
  { heap := c.heap
    wallet := Function.update s.wallet side c.wallet
    held := Function.update s.held side c.held }

end WalletPair

/-- The wallet with its clone: the caller of the clone holds nothing yet. -/
def ClientState.cloned (cloneDeep : AttributeHeap → Nat → AttributeHeap × Nat) (s : ClientState) :
    WalletPair where
  heap := (s.wallet.clone cloneDeep s.heap).1
  wallet := PairSide.pick s.wallet (s.wallet.clone cloneDeep s.heap).2
  held := PairSide.pick s.held []

end CoreEx
