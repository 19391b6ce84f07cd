/-
  File:      CoreEx/Database/Puts.lean
  Subject:   `saveBlocks` of `core-database/source/database-service.ts`, one `put` at a time.

  `Database.saveBlocks` is what becomes of the stores when every `put` goes through. Each `put` is a
  promise of its own that may be rejected; here the stores are written on a medium that may fail.

  * `Disk.saveBlocks` -- the code;
  * `Disk.fresh`, `Disk.puts` -- the blocks that are written, and how often is written for them;
  * **`Disk.saveBlocks_done_iff`** -- when it returns; `Disk.saveBlocks_refines` -- it is then
    `Database.saveBlocks`;
  * `Disk.saveBlocks_stored` -- a block that is stored stays, however the run ends.
-/
import CoreEx.Database.DatabaseService
import CoreEx.Lib.Faults

namespace CoreEx

/-- The stores on a medium that may fail. -/
abbrev Disk : Type := Faulty Database Exception

/-- Code that writes to them. -/
abbrev DiskProg : Type → Type := Prog Disk Exception

namespace Database

/-! ## 1. The puts -/

/-- `blockStorage.put(blockID, block.serialized)`. -/
def putBlock (id : String) (block : Block) (db : Database) : Database :=
  { db with blockStorage := db.blockStorage.put id block }

/-- `blockStorageById.put(block.data.height, blockID)`. -/
def putHeight (id : String) (block : Block) (db : Database) : Database :=
  { db with blockStorageById := db.blockStorageById.put block.data.height id }

/-- `transactionStorage.put(transaction.data.id, transaction.serialized)`. -/
def putTransaction (transaction : Transaction) (db : Database) : Database :=
  { db with
    transactionStorage :=
      db.transactionStorage.put (transaction.data.id.getD "") transaction }

/-- The puts for one block, in order. -/
def putsOf (id : String) (block : Block) : List (Database → Database) :=
  putBlock id block :: putHeight id block :: block.transactions.map putTransaction

/-- Whether a block is there already; only `blockStorage` is asked. -/
def known (db : Database) (block : Block) : Bool := (blockID block).any db.blockStorage.doesExist

/-- All puts of a block together are `store`. -/
theorem foldl_putsOf (id : String) (block : Block) (db : Database) :
    (putsOf id block).foldl (fun s f => f s) db = store id block db := by
  have htransactions : ∀ (ts : List Transaction) (db : Database),
      (ts.map putTransaction).foldl (fun s f => f s) db =
        { db with
          transactionStorage := ts.foldl (fun storage t => storage.put (t.data.id.getD "") t)
            db.transactionStorage } := by
    intro ts
    induction ts with
    | nil => exact fun _ => rfl
    | cons t ts ih => exact fun db => ih (putTransaction t db)
  exact htransactions block.transactions (putHeight id block (putBlock id block db))

/-- Storing a block adds its id to the known ones. -/
theorem doesExist_store (id : String) (block : Block) (db : Database) :
    (store id block db).blockStorage.doesExist =
      fun id' => decide (id' = id) || db.blockStorage.doesExist id' := by
  funext id'
  show ((db.blockStorage.put id block).get? id').isSome = _
  rw [Storage.get?_put]
  by_cases h : id' = id
  · simp [h]
  · simp [h, Storage.doesExist]

end Database

namespace Disk

open Database (blockID known putBlock putHeight putTransaction putsOf store)

/-! ## 2. The code -/

/-- One pass of the loop of `saveBlocks`. -/
def saveBlock (block : Block) : DiskProg Unit :=
  match blockID block with
  | none => Prog.throw (.error s!"Failed to store block {block.data.height} because it has no ID.")
  | some id => do
    let exist ← Faulty.look fun db => db.blockStorage.doesExist id
    Prog.when (!exist) (do
      Faulty.write (putBlock id block)
      Faulty.write (putHeight id block)
      Prog.forEach (fun transaction => Faulty.write (putTransaction transaction))
        block.transactions)

/-- `saveBlocks`. -/
def saveBlocks (blocks : List Block) : DiskProg Unit := Prog.forEach saveBlock blocks

/-- The blocks that are written: of each id the first block, when the id is not there. -/
def fresh (exist : String → Bool) : List Block → List Block
  | [] => []
  | block :: blocks =>
    match blockID block with
    | none => fresh exist blocks
    | some id => if exist id then fresh exist blocks
        else block :: fresh (fun id' => decide (id' = id) || exist id') blocks

/-- How many puts `saveBlocks` makes. -/
def puts (db : Database) (blocks : List Block) : Nat :=
  ((fresh db.blockStorage.doesExist blocks).map fun block => block.transactions.length + 2).sum

/-! ## 3. One block -/

variable {d d' : Disk} {block : Block} {blocks : List Block} {id : String}

theorem saveBlock_known (hid : blockID block = some id)
    (hknown : d.state.blockStorage.doesExist id = true) :
    (saveBlock block).run d = .done () d := by
  simp [saveBlock, hid, Faulty.look, Prog.run_bind, hknown, Prog.when]

theorem saveBlock_none (hid : blockID block = none) :
    ∃ e, (saveBlock block).run d = .thrown e d := by
  unfold saveBlock
  rw [hid]
  exact ⟨_, rfl⟩

/-- A block that is not there is a row of puts. -/
theorem saveBlock_fresh (hid : blockID block = some id)
    (hknown : d.state.blockStorage.doesExist id = false) :
    (saveBlock block).run d = (Prog.forEach Faulty.write (putsOf id block)).run d := by
  have htransactions : ∀ ts : List Transaction,
      Prog.forEach (fun t => Faulty.write (putTransaction t)) ts =
        (Prog.forEach Faulty.write (ts.map putTransaction) : DiskProg Unit) := by
    intro ts
    induction ts with
    | nil => rfl
    | cons t ts ih => rw [List.map_cons, Prog.forEach_cons, Prog.forEach_cons, ih]
  unfold saveBlock
  rw [hid]
  simp only [Faulty.look, Prog.run_bind, Prog.run_gets, hknown, Bool.not_false, Prog.when,
    if_true, htransactions]
  rfl

theorem length_putsOf (id : String) (block : Block) :
    (putsOf id block).length = block.transactions.length + 2 := by
  simp [putsOf]

/-- A block that is not there and is stored leaves what `Database.store` makes. -/
theorem after_putsOf (d : Disk) (id : String) (block : Block) :
    (d.after (putsOf id block)).state = store id block d.state := by
  rw [Faulty.state_after, Database.foldl_putsOf]

/-! ## 4. The list -/

/-- **`saveBlocks` returns exactly when every block has an id and none of its puts fails.** -/
theorem saveBlocks_done_iff : (∃ d', (saveBlocks blocks).run d = .done () d') ↔
    (∀ b ∈ blocks, (blockID b).isSome = true) ∧ d.Sound (puts d.state blocks) := by
  induction blocks generalizing d with
  | nil =>
    exact ⟨fun _ => ⟨fun _ h => absurd h List.not_mem_nil, Faulty.sound_zero d⟩,
      fun _ => ⟨d, rfl⟩⟩
  | cons block blocks ih =>
    unfold saveBlocks at ih ⊢
    rw [Prog.forEach_cons]
    cases hid : blockID block with
    | none =>
      obtain ⟨e, hrun⟩ := saveBlock_none (d := d) hid
      rw [Prog.run_bind_of_thrown hrun]
      refine ⟨fun h => ?_, fun h => ?_⟩
      · obtain ⟨d', h⟩ := h
        cases h
      · have hsome := h.1 block List.mem_cons_self
        rw [hid] at hsome
        cases hsome
    | some id =>
      have hids : (∀ b ∈ block :: blocks, (blockID b).isSome = true) ↔
          ∀ b ∈ blocks, (blockID b).isSome = true := by
        rw [List.forall_mem_cons, hid]
        exact and_iff_right rfl
      rw [hids]
      cases hknown : d.state.blockStorage.doesExist id with
      | true =>
        have hputs : puts d.state (block :: blocks) = puts d.state blocks := by
          simp [puts, fresh, hid, hknown]
        rw [Prog.run_bind_of_done (saveBlock_known hid hknown), hputs]
        exact ih
      | false =>
        have hputs : puts d.state (block :: blocks) =
            (putsOf id block).length + puts (store id block d.state) blocks := by
          simp [puts, fresh, hid, hknown, length_putsOf, Database.doesExist_store]
        rw [hputs, Faulty.sound_add]
        by_cases hsound : d.Sound (putsOf id block).length
        · have hrun : (saveBlock block).run d = .done () (d.after (putsOf id block)) := by
            rw [saveBlock_fresh hid hknown]
            exact Faulty.forEach_write_done_iff.2 ⟨hsound, rfl⟩
          rw [Prog.run_bind_of_done hrun, ih, after_putsOf, and_iff_right hsound]
        · refine ⟨fun h => ?_, fun h => absurd h.2.1 hsound⟩
          obtain ⟨d', h⟩ := h
          obtain ⟨_, d₁, hfirst, _⟩ := Prog.run_bind_done.1 h
          rw [saveBlock_fresh hid hknown] at hfirst
          exact absurd (Faulty.forEach_write_done_iff.1 hfirst).1 hsound

/-- What it does then is `Database.saveBlocks`. -/
theorem saveBlocks_refines (h : (saveBlocks blocks).run d = .done () d') :
    (Database.saveBlocks blocks).run d.state = .done () d'.state := by
  induction blocks generalizing d with
  | nil =>
    cases h
    rfl
  | cons block blocks ih =>
    unfold saveBlocks at h ih
    unfold Database.saveBlocks at ih ⊢
    rw [Prog.forEach_cons] at h ⊢
    obtain ⟨_, d₁, hfirst, hrest⟩ := Prog.run_bind_done.1 h
    have hstep : (Database.saveBlock block).run d.state = .done () d₁.state := by
      cases hid : blockID block with
      | none =>
        obtain ⟨e, hrun⟩ := saveBlock_none (d := d) hid
        rw [hrun] at hfirst
        cases hfirst
      | some id =>
        cases hknown : d.state.blockStorage.doesExist id with
        | true =>
          rw [saveBlock_known hid hknown] at hfirst
          cases hfirst
          simp [Database.saveBlock, hid, Prog.run_bind, hknown, Prog.when]
        | false =>
          rw [saveBlock_fresh hid hknown] at hfirst
          rw [(Faulty.forEach_write_done_iff.1 hfirst).2, after_putsOf]
          simp [Database.saveBlock, hid, Prog.run_bind, hknown, Prog.when]
    rw [Prog.run_bind_of_done hstep]
    exact ih hrest

/-- A block that is stored stays stored, however the run ends. -/
theorem saveBlocks_stored (h : d.state.blockStorage.doesExist id = true) :
    ((saveBlocks blocks).run d).state.state.blockStorage.doesExist id = true := by
  have hput : ∀ (id' : String) (block : Block), ∀ f ∈ putsOf id' block, ∀ db : Database,
      db.blockStorage.doesExist id = true → (f db).blockStorage.doesExist id = true := by
    intro id' block f hf db hdb
    rcases List.mem_cons.1 hf with rfl | hf
    · show ((db.blockStorage.put id' block).get? id).isSome = true
      rw [Storage.get?_put]
      by_cases hid : id = id'
      · rw [if_pos hid]
        rfl
      · rw [if_neg hid]
        exact hdb
    · rcases List.mem_cons.1 hf with rfl | hf
      · exact hdb
      · obtain ⟨t, -, rfl⟩ := List.mem_map.1 hf
        exact hdb
  have hstep : ∀ (block : Block) (d : Disk), d.state.blockStorage.doesExist id = true →
      ((saveBlock block).run d).state.state.blockStorage.doesExist id = true := by
    intro block d hd
    cases hid : blockID block with
    | none =>
      obtain ⟨e, hrun⟩ := saveBlock_none (d := d) hid
      rw [hrun]
      exact hd
    | some id' =>
      cases hknown : d.state.blockStorage.doesExist id' with
      | true =>
        rw [saveBlock_known hid hknown]
        exact hd
      | false =>
        rw [saveBlock_fresh hid hknown]
        exact Faulty.forEach_write_keeps (hput id' block) hd
  have hloop := Prog.Spec.forEach (f := saveBlock)
    (E := fun _ d => d.state.blockStorage.doesExist id = true)
    (fun _ d => d.state.blockStorage.doesExist id = true)
    (fun block _ d hd => Prog.Spec.of_run
      (fun _ d' hr => by
        have hkept := hstep block d hd
        rw [hr] at hkept
        exact hkept)
      (fun e d' hr => by
        have hkept := hstep block d hd
        rw [hr] at hkept
        exact hkept)) blocks d h
  cases hrun : (saveBlocks blocks).run d with
  | done _ d' => exact hloop.of_done hrun
  | thrown e d' => exact hloop.of_thrown hrun

end Disk

end CoreEx
