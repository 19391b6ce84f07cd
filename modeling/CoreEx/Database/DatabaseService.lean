/-
  File:      CoreEx/Database/DatabaseService.lean
  Subject:   `core-database/source/database-service.ts`: the blocks, transactions and rounds that
             are kept.

  The stores hold bytes. Blocks and transactions enter the node through the factories, which make
  them from the very bytes that are stored; so a stored value is shown here as what the factory
  makes of it.

  * `Database` -- the four stores;
  * `findBlockByHeights`, `findBlocksByHeightRange`, `getLastBlock`, `getForgedTransactionsIds`,
    `saveBlocks`;
  * `getRound`, `saveRound`, `deleteRound` -- the rounds.
-/
import CoreEx.Contracts.Exceptions
import CoreEx.Lib.Prog
import CoreEx.Lib.Storage
import Mathlib.Data.String.Basic

namespace CoreEx

/-- `IRound`. -/
structure Round where
  balance : Int
  publicKey : PublicKey
  round : Int
  deriving DecidableEq, Repr

/-- The stores; heights lead to ids, ids to blocks. -/
structure Database where
  blockStorage : Storage String Block
  blockStorageById : Storage Nat String
  transactionStorage : Storage String Transaction
  roundStorage : Storage Int (List Round)

/-- Code that writes to the stores and may throw. -/
abbrev DatabaseProg : Type → Type := Prog Database Exception

namespace Database

/-! ## 1. The code -/

/-- The stores of a node that starts. -/
def empty : Database := ⟨.empty, .empty, .empty, .empty⟩

/-- `findBlockByHeights([height])`: none or one. -/
def findBlockByHeight (db : Database) (height : Nat) : Except Exception (Option Block) :=
  match db.blockStorageById.get? height with
  | none => .ok none
  | some id =>
    match db.blockStorage.get? id with
    | none => .error (.typeError "Cannot read properties of undefined (reading 'length')")
    | some block => .ok (some block)

/-- `blockFactory.fromBytes(blockStorage.get(id))`. -/
def blockOf (db : Database) (id : String) : Except Exception Block :=
  match db.blockStorage.get? id with
  | none => .error (.typeError "Cannot read properties of undefined (reading 'length')")
  | some block => .ok block

/-- `findBlockByHeights(heights)`; heights without an id are passed over. -/
def findBlockByHeights (db : Database) (heights : List Nat) : Except Exception (List Block) :=
  (heights.filterMap db.blockStorageById.get?).mapM db.blockOf

/-- `getLastBlock()`: the block of the greatest height; without one, `asArray[0].value` throws and
    the catch answers. -/
def getLastBlock (db : Database) : Except Exception (Option Block) :=
  match db.blockStorageById.last? with
  | none => .ok none
  | some (_, id) => (db.blockOf id).map some

/-- `(await findBlockByHeights([height]))[0].data.timestamp`. -/
def findBlockTimestampByHeight (db : Database) (height : Nat) : Except Exception Int :=
  match db.findBlockByHeight height with
  | .error e => .error e
  | .ok none => .error (.typeError "Cannot read properties of undefined (reading 'data')")
  | .ok (some block) => .ok block.data.timestamp

/-- The block of a height; a height that leads nowhere is passed over. -/
def blockAt (db : Database) : Int → Option Block
  | .negSucc _ => none
  | .ofNat height => (db.blockStorageById.get? height).bind db.blockStorage.get?

/-- `#range(start, end)`. -/
def range (start stop : Int) : List Int :=
  (List.range (stop + 1 - start).toNat).map fun (i : Nat) => start + i

/-- `findBlocksByHeightRange(start, end)`. -/
def findBlocksByHeightRange (db : Database) (start stop : Int) : List Block :=
  ((range start stop).filterMap db.blockAt).mergeSort fun a b => a.data.height ≤ b.data.height

/-- `getForgedTransactionsIds(ids)`. -/
def getForgedTransactionsIds (db : Database) (ids : List String) : List String :=
  ids.filter db.transactionStorage.doesExist

/-- `sortBy(sortByDesc(rounds, "balance"), "publicKey")`; balances are compared as texts. -/
def sortRounds (rounds : List Round) : List Round :=
  (rounds.mergeSort fun a b => toString a.balance ≥ toString b.balance).mergeSort
    fun a b => a.publicKey.text ≤ b.publicKey.text

/-- `getRound(round)`. -/
def getRound (db : Database) (round : Int) : List Round :=
  sortRounds ((db.roundStorage.get? round).getD [])

/-- `saveRound`, of what is stored of the validators; a round that is there stays. -/
def saveRound (activeValidators : List Round) : DatabaseProg Unit :=
  match activeValidators with
  | [] => Prog.throw (.typeError "Cannot read properties of undefined (reading 'getAttribute')")
  | first :: _ => do
    let known ← Prog.gets fun db => db.roundStorage.doesExist first.round
    Prog.when (!known) (Prog.modify fun db =>
      { db with roundStorage := db.roundStorage.put first.round activeValidators })

/-- `deleteRound(round)`: the round and all later ones. -/
def deleteRound (round : Int) : DatabaseProg Unit :=
  Prog.modify fun db => { db with roundStorage := db.roundStorage.removeFrom round }

/-- The writes of `saveBlocks` for one block. -/
def store (id : String) (block : Block) (db : Database) : Database :=
  { db with
    blockStorage := db.blockStorage.put id block
    blockStorageById := db.blockStorageById.put block.data.height id
    transactionStorage := block.transactions.foldl
      (fun storage t => storage.put (t.data.id.getD "") t) db.transactionStorage }

/-- `blockID` when there is one; the empty text is none. -/
def blockID (block : Block) : Option String := block.data.id.filter (· ≠ "")

/-- One pass of the loop of `saveBlocks`. -/
def saveBlock (block : Block) : DatabaseProg Unit :=
  match blockID block with
  | none => Prog.throw (.error s!"Failed to store block {block.data.height} because it has no ID.")
  | some id => do
    let known ← Prog.gets fun db => db.blockStorage.doesExist id
    Prog.when (!known) (Prog.modify (store id block))

/-- `saveBlocks`. -/
def saveBlocks (blocks : List Block) : DatabaseProg Unit := Prog.forEach saveBlock blocks

/-! ## 2. The order of reading -/

end Database

end CoreEx
