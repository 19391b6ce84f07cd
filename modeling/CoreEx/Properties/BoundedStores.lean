/-
  File:      CoreEx/Properties/BoundedStores.lean
  Subject:   Sequences of operations on a map of bounded size, and on the two maps of blocks.

  `CappedMap.set` drops the oldest entry whether the key is new or not, `CappedMap.resize` drops
  nothing when there is to be no room, and `BlockStore` takes an id and a height out of its maps
  that need not be those of one block.

  * `HoldsNewest`, `AllAllowed` -- the map after each operation, and the condition on each of them;
  * `KeepsSameBlocks`, `BlockStore.AllAllowed` -- the same for the store of blocks;
  * **`boundedStores_iff`** -- the sequences in which all is as it should be;
  * **`boundedStores_not`** -- a key that is set twice in a full map.
-/
import CoreEx.State.BlockStore

namespace CoreEx

/-! ## 1. Maps -/

namespace CappedMap

variable {κ ν : Type} [DecidableEq κ]

/-- After every operation the map is the one that holds the keys that came in last, with the latest
    values, and never more than there is room for. -/
def HoldsNewest (m : CappedMap κ ν) (b : BoundedMap κ ν) : List (MapOperation κ ν) → Prop
  | [] => True
  | op :: ops => Agrees (m.perform op) (b.perform op) ∧ HoldsNewest (m.perform op) (b.perform op) ops

/-- Every operation is allowed in the state in which it begins. -/
def AllAllowed (m : CappedMap κ ν) : List (MapOperation κ ν) → Prop
  | [] => True
  | op :: ops => m.Allowed op ∧ AllAllowed (m.perform op) ops

theorem holdsNewest_iff {m : CappedMap κ ν} {b : BoundedMap κ ν} (h : Agrees m b)
    (ops : List (MapOperation κ ν)) : HoldsNewest m b ops ↔ AllAllowed m ops := by
  induction ops generalizing m b with
  | nil => exact Iff.rfl
  | cons op ops ih =>
    have hstep := agrees_perform_iff h op
    refine ⟨fun hnewest => ?_, fun hallowed => ?_⟩
    · exact ⟨hstep.1 hnewest.1, (ih hnewest.1).1 hnewest.2⟩
    · have hagrees := hstep.2 hallowed.1
      exact ⟨hagrees, (ih hagrees).2 hallowed.2⟩

end CappedMap

/-! ## 2. Blocks -/

namespace BlockStore

/-- After every operation the maps have the same blocks. -/
def KeepsSameBlocks (s : BlockStore) : List BlockOperation → Prop
  | [] => True
  | op :: ops => (s.perform op).SameBlocks ∧ KeepsSameBlocks (s.perform op) ops

/-- Every operation is allowed in the state in which it begins. -/
def AllAllowed (s : BlockStore) : List BlockOperation → Prop
  | [] => True
  | op :: ops => s.Allowed op ∧ AllAllowed (s.perform op) ops

theorem filed_new (maxSize : Int) : (new maxSize).Filed :=
  ⟨fun _ he => (nomatch he), fun _ he => (nomatch he), fun _ he => (nomatch he), rfl⟩

theorem keepsSameBlocks_iff {s : BlockStore} (h : s.Filed) (hsame : s.SameBlocks)
    (ops : List BlockOperation) : KeepsSameBlocks s ops ↔ AllAllowed s ops := by
  induction ops generalizing s with
  | nil => exact Iff.rfl
  | cons op ops ih =>
    have hstep := sameBlocks_perform_iff h hsame op
    have hfiled := filed_perform h hsame op
    refine ⟨fun hkeeps => ?_, fun hallowed => ?_⟩
    · exact ⟨hstep.1 hkeeps.1, (ih hfiled hkeeps.1).1 hkeeps.2⟩
    · have hkept := hstep.2 hallowed.1
      exact ⟨hkept, (ih hfiled hkept).2 hallowed.2⟩

end BlockStore

/-! ## 3. Both -/

/-- **The sequences in which all is as it should be.** A map holds the newest entries where no key
    that is held is set without room for more (or only for it), and no size leaves entries without
    any room; the store has the same blocks by id as by height where an accepted block has a new id,
    and what is deleted is one block, or none. -/
theorem boundedStores_iff {κ ν : Type} [DecidableEq κ] (maxSize : Int)
    (ops : List (MapOperation κ ν)) (blockOps : List BlockOperation) :
    (CappedMap.HoldsNewest (.new maxSize) (.empty maxSize.toNat) ops ↔
      CappedMap.AllAllowed (.new maxSize) ops) ∧
    (BlockStore.KeepsSameBlocks (.new maxSize) blockOps ↔
      BlockStore.AllAllowed (.new maxSize) blockOps) :=
  ⟨CappedMap.holdsNewest_iff ⟨rfl, rfl⟩ ops,
    BlockStore.keepsSameBlocks_iff (BlockStore.filed_new maxSize) rfl blockOps⟩

/-- **A key that is set twice in a full map** drives another one out. -/
theorem boundedStores_not : ¬ ∀ (maxSize : Int) (ops : List (MapOperation String Nat)),
    CappedMap.HoldsNewest (.new maxSize) (.empty maxSize.toNat) ops := by
  intro h
  have hnewest := h 2 [.set "a" 1, .set "b" 2, .set "b" 3]
  have hstore := hnewest.2.2.1.store
  have hget := congrArg (OrderedMap.get? · "a") hstore
  exact absurd hget (by decide)

end CoreEx
