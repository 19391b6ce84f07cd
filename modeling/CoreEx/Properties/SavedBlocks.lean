/-
  File:      CoreEx/Properties/SavedBlocks.lean
  Subject:   Whether `saveBlocks` stores all of its blocks or nothing.

  The puts are made one after the other and none is taken back. Of a block that was begun the first
  put is the one that is asked for later; when a later put fails, the block counts as stored.

  * `AllOrNothing` -- a failure leaves the stores as they were, and a retry does what a first try
    would do;
  * `NothingFails`, `FailsAtOnce` -- the two ways to that;
  * `thrown_unchanged_iff` -- a failure that changes nothing fails at once;
  * **`allOrNothing_iff`** -- there is no third way;
  * **`secondPut_not`** -- a second put that fails.
-/
import CoreEx.Database.Puts
import CoreEx.Properties.VoteBalances

namespace CoreEx

namespace Disk

open Database (blockID known putsOf store)

/-! ## 1. The condition -/

/-- Where `saveBlocks` throws, nothing has been added, and the same list on a medium with whatever
    faults later fares as it would have fared at first. -/
def AllOrNothing (d : Disk) (blocks : List Block) : Prop :=
  ∀ e d', (saveBlocks blocks).run d = .thrown e d' → d'.state = d.state ∧
    ∀ faults, (saveBlocks blocks).run ⟨d'.state, faults⟩ = (saveBlocks blocks).run ⟨d.state, faults⟩

/-- Every block has an id and every put that is made goes through. -/
def NothingFails (d : Disk) (blocks : List Block) : Prop :=
  (∀ b ∈ blocks, (blockID b).isSome = true) ∧ d.Sound (puts d.state blocks)

/-- The first block that is not there has no id, or the first put fails. -/
def FailsAtOnce (d : Disk) (blocks : List Block) : Prop :=
  ∃ block, blocks.find? (fun b => !known d.state b) = some block ∧
    (blockID block = none ∨ (d.faults 0).isSome = true)

/-! ## 2. What a failure leaves -/

variable {d d' : Disk} {block : Block} {blocks : List Block} {id : String} {e : Exception}

/-- Once the first put of a block is made, the block is there however the run ends. -/
theorem saveBlocks_begun (hid : blockID block = some id)
    (hknown : d.state.blockStorage.doesExist id = false) (hput : d.faults 0 = none) :
    ((saveBlocks (block :: blocks)).run d).state.state.blockStorage.doesExist id = true := by
  have hstored : ∀ (db : Database) (f : Database → Database),
      f ∈ Database.putHeight id block :: block.transactions.map Database.putTransaction →
      db.blockStorage.doesExist id = true → (f db).blockStorage.doesExist id = true := by
    intro db f hf hdb
    rcases List.mem_cons.1 hf with rfl | hf
    · exact hdb
    · obtain ⟨t, -, rfl⟩ := List.mem_map.1 hf
      exact hdb
  have hfirst : (d.next (Database.putBlock id block)).state.blockStorage.doesExist id = true := by
    show ((d.state.blockStorage.put id block).get? id).isSome = true
    rw [Storage.get?_put, if_pos rfl]
    rfl
  have hblock : ((saveBlock block).run d).state.state.blockStorage.doesExist id = true := by
    rw [saveBlock_fresh hid hknown, putsOf, Prog.forEach_cons,
      Prog.run_bind_of_done (Faulty.write_run_of_none hput)]
    exact Faulty.forEach_write_keeps
      (P := fun db : Database => db.blockStorage.doesExist id = true)
      (fun f hf db hdb => hstored db f hf hdb) hfirst
  unfold saveBlocks
  rw [Prog.forEach_cons]
  cases hrun : (saveBlock block).run d with
  | done u d₁ =>
    rw [hrun] at hblock
    rw [Prog.run_bind_of_done hrun]
    exact saveBlocks_stored hblock
  | thrown e d₁ =>
    rw [hrun] at hblock
    rw [Prog.run_bind_of_thrown hrun]
    exact hblock

/-- A failure leaves the stores as they were exactly when it comes at once. -/
theorem thrown_unchanged_iff (h : (saveBlocks blocks).run d = .thrown e d') :
    d'.state = d.state ↔ FailsAtOnce d blocks := by
  induction blocks generalizing d with
  | nil => cases h
  | cons block blocks ih =>
    unfold FailsAtOnce
    cases hid : blockID block with
    | none =>
      have hknown : known d.state block = false := by simp [known, hid]
      obtain ⟨e', hrun⟩ := saveBlock_none (d := d) hid
      have hthrown : (saveBlocks (block :: blocks)).run d = .thrown e' d := by
        unfold saveBlocks
        rw [Prog.forEach_cons, Prog.run_bind_of_thrown hrun]
      rw [hthrown] at h
      cases h
      exact ⟨fun _ => ⟨block, by simp [hknown], Or.inl hid⟩, fun _ => rfl⟩
    | some id =>
      have hknown : known d.state block = d.state.blockStorage.doesExist id := by simp [known, hid]
      cases hexist : d.state.blockStorage.doesExist id with
      | true =>
        have hrest : (saveBlocks blocks).run d = .thrown e d' := by
          unfold saveBlocks at h ⊢
          rw [Prog.forEach_cons, Prog.run_bind_of_done (saveBlock_known hid hexist)] at h
          exact h
        rw [ih hrest, List.find?_cons_of_neg (by simp [hknown, hexist])]
        rfl
      | false =>
        rw [List.find?_cons_of_pos (by simp [hknown, hexist])]
        cases hput : d.faults 0 with
        | none =>
          refine ⟨fun hsame => ?_, fun hcond => ?_⟩
          · have hbegun : ((saveBlocks (block :: blocks)).run
                d).state.state.blockStorage.doesExist id = true :=
              saveBlocks_begun hid hexist hput
            rw [h] at hbegun
            have hnow : d'.state.blockStorage.doesExist id = true := hbegun
            rw [hsame, hexist] at hnow
            cases hnow
          · obtain ⟨block', hblock', hcond⟩ := hcond
            obtain rfl := Option.some.inj hblock'
            rcases hcond with hnone | hfault
            · rw [hid] at hnone
              cases hnone
            · cases hfault
        | some e' =>
          have hrun : (saveBlock block).run d = .thrown e' (d.next fun s => s) := by
            rw [saveBlock_fresh hid hexist, putsOf, Prog.forEach_cons,
              Prog.run_bind_of_thrown (Faulty.write_run_of_some hput)]
          have hthrown : (saveBlocks (block :: blocks)).run d = .thrown e' (d.next fun s => s) := by
            unfold saveBlocks
            rw [Prog.forEach_cons, Prog.run_bind_of_thrown hrun]
          rw [hthrown] at h
          cases h
          exact ⟨fun _ => ⟨block, rfl, Or.inr rfl⟩, fun _ => rfl⟩

/-! ## 3. All or nothing -/

/-- **`saveBlocks` is all or nothing exactly when nothing fails or it fails at once.** -/
theorem allOrNothing_iff (d : Disk) (blocks : List Block) :
    AllOrNothing d blocks ↔ NothingFails d blocks ∨ FailsAtOnce d blocks := by
  refine ⟨fun h => ?_, fun h e d' hrun => ?_⟩
  · cases hrun : (saveBlocks blocks).run d with
    | done u d' => exact Or.inl (saveBlocks_done_iff.1 ⟨d', hrun⟩)
    | thrown e d' => exact Or.inr ((thrown_unchanged_iff hrun).1 (h e d' hrun).1)
  · have hsame : d'.state = d.state := by
      rcases h with hnothing | honce
      · obtain ⟨d₁, hdone⟩ := saveBlocks_done_iff.2 hnothing
        rw [hdone] at hrun
        cases hrun
      · exact (thrown_unchanged_iff hrun).2 honce
    exact ⟨hsame, fun faults => by rw [hsame]⟩

end Disk

/-! ## 4. The second put fails -/

namespace Sample

/-- Empty stores on a medium that refuses the second write. -/
def secondPutFails : Disk :=
  ⟨.empty, fun n => if n = 1 then some (.error "MDB_MAP_FULL") else none⟩

/-- One block with a transfer. -/
def blockToSave : Block := ⟨header 2 1 5, [transfer]⟩

end Sample

/-- The block stays without its height and its transfer, and a retry passes it over. -/
theorem secondPut_not : ¬ Disk.AllOrNothing Sample.secondPutFails [Sample.blockToSave] := by
  intro h
  have hthrown : ((Disk.saveBlocks [Sample.blockToSave]).run Sample.secondPutFails).isDone =
      false := by decide
  obtain ⟨e, hrun⟩ := Outcome.eq_thrown hthrown
  have hstate := (h e _ hrun).1
  have hexist : ((Disk.saveBlocks [Sample.blockToSave]).run
      Sample.secondPutFails).state.state.blockStorage.doesExist "block" = true := by decide
  rw [hstate] at hexist
  exact absurd hexist (by decide)

/-- After the retry the block still has no height. -/
example : ((Disk.saveBlocks [Sample.blockToSave]).run
    ⟨((Disk.saveBlocks [Sample.blockToSave]).run Sample.secondPutFails).state.state,
      fun _ => none⟩).state.state.blockStorageById.get? 2 = none := by decide

end CoreEx
