/-
  File:      CoreEx/State/BlockStore.lean
  Subject:   `core-state/source/stores/blocks.ts`: blocks by id and by height, in two maps.

  * `BlockStore` -- the code: every operation does to one map what it does to the other;
  * `BlockOperation`, `BlockStore.perform` -- the operations that change the store;
  * `Filed` -- the invariant: a block is filed under its own id and height, below the last height;
  * `Allowed`, **`BlockStore.sameBlocks_perform_iff`** -- when an operation leaves the same blocks in
    both maps.
-/
import CoreEx.Crypto.Data
import CoreEx.State.WalletRepository
import CoreEx.Utils.CappedMap

namespace CoreEx

/-! ## 1. The code -/

/-- `BlockStore`. -/
structure BlockStore where
  byId : CappedMap String BlockData
  byHeight : CappedMap Nat BlockData
  lastBlock : Option Block

/-- Code that works on the store and may throw. -/
abbrev BlockStoreProg : Type → Type := Prog BlockStore Exception

namespace BlockStore

/-- `new BlockStore(maxSize)`. -/
def new (maxSize : Int) : BlockStore := ⟨CappedMap.new maxSize, CappedMap.new maxSize, none⟩

/-- What is done to `#byId`. -/
def onId {α : Type} (x : CappedMap.MapProg String BlockData α) : BlockStoreProg α :=
  Prog.zoom (·.byId) (fun m s => { s with byId := m }) x

/-- What is done to `#byHeight`. -/
def onHeight {α : Type} (x : CappedMap.MapProg Nat BlockData α) : BlockStoreProg α :=
  Prog.zoom (·.byHeight) (fun m s => { s with byHeight := m }) x

/-- `lastBlock ? lastBlock.data.height + 1 : 1`. -/
def nextHeight (lastBlock : Option Block) : Nat :=
  match lastBlock with
  | some last => last.data.height + 1
  | none => 1

/-- `set(value)`. -/
def set (value : Block) : BlockStoreProg Unit := do
  let lastBlock ← Prog.gets (·.lastBlock)
  Prog.throwIf (value.data.height ≠ 1 ∧ lastBlock = none) Exception.notDefined
  Prog.throwIf (value.data.height ≠ nextHeight lastBlock) .assertionError
  let id ← assertDefined value.data.id
  onId (CappedMap.set id value.data)
  onHeight (CappedMap.set value.data.height value.data)
  Prog.modify fun s => { s with lastBlock := some value }

/-- `delete(value)`. -/
def delete (value : BlockData) : BlockStoreProg Unit := do
  let id ← assertDefined value.id
  let _ ← onId (CappedMap.delete id)
  let _ ← onHeight (CappedMap.delete value.height)
  pure ()

/-- `clear()`. -/
def clear : BlockStoreProg Unit := do
  onId CappedMap.clear
  onHeight CappedMap.clear

/-- `resize(maxSize)`. -/
def resize (maxSize : Int) : BlockStoreProg Unit := do
  onId (CappedMap.resize maxSize)
  onHeight (CappedMap.resize maxSize)

end BlockStore

/-- The operations that change the store. -/
inductive BlockOperation where
  | set (value : Block)
  | delete (value : BlockData)
  | clear
  | resize (maxSize : Int)
  deriving DecidableEq, Repr

namespace BlockStore

/-- The store after an operation; one that throws may have changed it before. -/
def perform (s : BlockStore) : BlockOperation → BlockStore
  | .set value => ((set value).run s).state
  | .delete value => ((delete value).run s).state
  | .clear => (clear.run s).state
  | .resize maxSize => ((resize maxSize).run s).state

/-! ## 2. The same blocks in both maps -/

/-- The same blocks by id as by height. -/
def SameBlocks (s : BlockStore) : Prop := s.byId.store.values = s.byHeight.store.values

/-- Every block is filed under its own id and its own height, and no height is above that of the
    last block. -/
structure Filed (s : BlockStore) : Prop where
  id : ∀ e ∈ s.byId.store.entries, e.2.id = some e.1
  height : ∀ e ∈ s.byHeight.store.entries, e.2.height = e.1
  below : ∀ e ∈ s.byHeight.store.entries, e.1 < nextHeight s.lastBlock
  maxSize : s.byId.maxSize = s.byHeight.maxSize

/-- The ids that are left when there is no room and the oldest entry has been dropped. -/
def idsLeft (s : BlockStore) : List String :=
  if s.byId.maxSize ≤ s.byId.store.size then s.byId.store.keys.tail else s.byId.store.keys

/-- A block that is accepted has an id that is not held, unless as the oldest, which is dropped for
    it; and the block that is deleted is held under its id and its height, or under neither. -/
def Allowed (s : BlockStore) : BlockOperation → Prop
  | .set value => ∀ id, value.data.id = some id → value.data.height = nextHeight s.lastBlock →
      id ∉ s.idsLeft
  | .delete value => ∀ id, value.id = some id → s.byId.get id = s.byHeight.get value.height
  | .clear => True
  | .resize _ => True

variable {s : BlockStore}

theorem size_eq (h : s.SameBlocks) : s.byId.store.size = s.byHeight.store.size := by
  have hlength := congrArg List.length h
  unfold OrderedMap.values at hlength
  rwa [List.length_map, List.length_map] at hlength

/-! ## 3. `set` -/

/-- A block without an id, or not of the next height, is refused. -/
theorem perform_set_refused {value : Block}
    (h : ∀ id, value.data.id = some id → value.data.height ≠ nextHeight s.lastBlock) :
    s.perform (.set value) = s := by
  show ((set value).run s).state = s
  have hget : (Prog.gets (·.lastBlock) : BlockStoreProg _).run s = .done s.lastBlock s := rfl
  unfold set
  rw [Prog.run_bind_of_done hget]
  unfold Prog.throwIf Prog.when
  by_cases hfirst : value.data.height ≠ 1 ∧ s.lastBlock = none
  · rw [if_pos hfirst]
    rfl
  · rw [if_neg hfirst, Prog.run_bind_of_done (Prog.run_pure _ _)]
    by_cases hnext : value.data.height ≠ nextHeight s.lastBlock
    · rw [if_pos hnext]
      rfl
    · rw [if_neg hnext, Prog.run_bind_of_done (Prog.run_pure _ _)]
      cases hid : value.data.id with
      | none => rfl
      | some id => exact absurd (h id hid) hnext

/-- A block that is accepted is put into both maps. -/
theorem run_set {value : Block} {id : String} (hid : value.data.id = some id)
    (hnext : value.data.height = nextHeight s.lastBlock) :
    (set value).run s =
      ((do
        onId (CappedMap.set id value.data)
        onHeight (CappedMap.set value.data.height value.data)
        Prog.modify fun s => { s with lastBlock := some value } : BlockStoreProg Unit)).run s := by
  have hget : (Prog.gets (·.lastBlock) : BlockStoreProg _).run s = .done s.lastBlock s := rfl
  have hfirst : ¬ (value.data.height ≠ 1 ∧ s.lastBlock = none) := by
    intro h
    refine h.1 ?_
    rw [hnext, h.2]
    rfl
  unfold set
  rw [Prog.run_bind_of_done hget]
  unfold Prog.throwIf Prog.when
  rw [if_neg hfirst, Prog.run_bind_of_done (Prog.run_pure _ _), if_neg (not_not.2 hnext),
    Prog.run_bind_of_done (Prog.run_pure _ _), hid]
  rfl

theorem perform_set_done {value : Block} {id : String} (hid : value.data.id = some id)
    (hnext : value.data.height = nextHeight s.lastBlock) {m : CappedMap String BlockData}
    {m' : CappedMap Nat BlockData}
    (hbyId : (CappedMap.set id value.data).run s.byId = .done () m)
    (hbyHeight : (CappedMap.set value.data.height value.data).run s.byHeight = .done () m') :
    s.perform (.set value) = ⟨m, m', some value⟩ := by
  have hrunId : (onId (CappedMap.set id value.data)).run s = .done () { s with byId := m } := by
    unfold onId
    rw [Prog.run_zoom, hbyId]
  have hrunHeight : (onHeight (CappedMap.set value.data.height value.data)).run
      { s with byId := m } = .done () ⟨m, m', s.lastBlock⟩ := by
    unfold onHeight
    rw [Prog.run_zoom]
    dsimp only
    rw [hbyHeight]
  show ((set value).run s).state = _
  rw [run_set hid hnext, Prog.run_bind_of_done hrunId, Prog.run_bind_of_done hrunHeight]
  rfl

/-- Maps without room and without entries are left as they are. -/
theorem perform_set_thrown {value : Block} {id : String} (hid : value.data.id = some id)
    (hnext : value.data.height = nextHeight s.lastBlock) (hfull : s.byId.maxSize ≤ 0)
    (hempty : s.byId.store.entries = []) : s.perform (.set value) = s := by
  obtain ⟨e, hrun⟩ := CappedMap.run_set_of_empty hfull hempty id value.data
  have hrunId : (onId (CappedMap.set id value.data)).run s = .thrown e s := by
    unfold onId
    rw [Prog.run_zoom, hrun]
  show ((set value).run s).state = _
  rw [run_set hid hnext, Prog.run_bind_of_thrown hrunId]
  rfl

/-- What both maps hold when the block comes in: where one has room the other has too, and where
    there is none both drop their oldest entry. -/
structure MakeRoom (s : BlockStore) (byId : OrderedMap String BlockData)
    (byHeight : OrderedMap Nat BlockData) : Prop where
  left : byId.keys = s.idsLeft
  same : byId.values = byHeight.values
  fromId : ∀ e ∈ byId.entries, e ∈ s.byId.store.entries
  fromHeight : ∀ e ∈ byHeight.entries, e ∈ s.byHeight.store.entries

theorem perform_set_accepted (h : s.Filed) (hsame : s.SameBlocks) {value : Block} {id : String}
    (hid : value.data.id = some id) (hnext : value.data.height = nextHeight s.lastBlock) :
    (s.perform (.set value) = s ∧ s.idsLeft = []) ∨
    ∃ (byId : OrderedMap String BlockData) (byHeight : OrderedMap Nat BlockData),
      s.MakeRoom byId byHeight ∧
      s.perform (.set value) =
        ⟨{ s.byId with store := byId.set id value.data },
          { s.byHeight with store := byHeight.set value.data.height value.data }, some value⟩ := by
  have hsize := size_eq hsame
  by_cases hroom : (s.byId.store.size : Int) < s.byId.maxSize
  · have hroom' : (s.byHeight.store.size : Int) < s.byHeight.maxSize := by
      rw [← hsize, ← h.maxSize]
      exact hroom
    refine Or.inr ⟨s.byId.store, s.byHeight.store, ⟨?_, hsame, fun _ he => he, fun _ he => he⟩, ?_⟩
    · unfold idsLeft
      rw [if_neg (by omega)]
    · exact perform_set_done hid hnext (CappedMap.run_set_of_room hroom _ _)
        (CappedMap.run_set_of_room hroom' _ _)
  · have hfull : s.byId.maxSize ≤ s.byId.store.size := Int.not_lt.1 hroom
    have hfull' : s.byHeight.maxSize ≤ s.byHeight.store.size := by
      rw [← hsize, ← h.maxSize]
      exact hfull
    have hleft : s.idsLeft = s.byId.store.keys.tail := by
      unfold idsLeft
      rw [if_pos hfull]
    cases hentries : s.byId.store.entries with
    | nil =>
      have hcount : s.byId.store.size = 0 := congrArg List.length hentries
      refine Or.inl ⟨perform_set_thrown hid hnext (by omega) hentries, ?_⟩
      rw [hleft]
      unfold OrderedMap.keys
      rw [hentries]
      rfl
    | cons first rest =>
      cases hentries' : s.byHeight.store.entries with
      | nil =>
        unfold OrderedMap.size at hsize
        rw [hentries, hentries'] at hsize
        cases hsize
      | cons first' rest' =>
        have hdelete := OrderedMap.entries_delete_first hentries
        have hdelete' := OrderedMap.entries_delete_first hentries'
        refine Or.inr ⟨s.byId.store.delete first.1, s.byHeight.store.delete first'.1,
          ⟨?_, ?_, ?_, ?_⟩,
          perform_set_done hid hnext (CappedMap.run_set_of_full hfull hentries _ _)
            (CappedMap.run_set_of_full hfull' hentries' _ _)⟩
        · rw [hleft]
          unfold OrderedMap.keys
          rw [hdelete, hentries]
          rfl
        · have hvalues : s.byId.store.values = s.byHeight.store.values := hsame
          unfold OrderedMap.values at hvalues ⊢
          rw [hentries, hentries'] at hvalues
          rw [hdelete, hdelete']
          exact (List.cons.inj hvalues).2
        · intro e he
          rw [hdelete] at he
          rw [hentries]
          exact List.mem_cons_of_mem _ he
        · intro e he
          rw [hdelete'] at he
          rw [hentries']
          exact List.mem_cons_of_mem _ he

/-- The block is in both maps when its id is new to what is left. -/
theorem sameBlocks_set_iff (h : s.Filed) (hsame : s.SameBlocks) {value : Block} {id : String}
    (hid : value.data.id = some id) (hnext : value.data.height = nextHeight s.lastBlock) :
    (s.perform (.set value)).SameBlocks ↔ id ∉ s.idsLeft := by
  rcases perform_set_accepted h hsame hid hnext with
    ⟨hperform, hnil⟩ | ⟨byId, byHeight, hroom, hperform⟩
  · rw [hperform, hnil]
    exact ⟨fun _ => List.not_mem_nil, fun _ => hsame⟩
  · have hnew : byHeight.has value.data.height = false := by
      refine OrderedMap.has_eq_false_iff.2 fun e he => ?_
      rw [hnext]
      exact Nat.ne_of_lt (h.below e (hroom.fromHeight e he))
    have hvalues : (byHeight.set value.data.height value.data).values =
        byHeight.values ++ [value.data] := by
      unfold OrderedMap.values
      rw [OrderedMap.entries_set_of_new hnew, List.map_append]
      rfl
    rw [hperform, ← hroom.left]
    show (byId.set id value.data).values = (byHeight.set value.data.height value.data).values ↔ _
    rw [hvalues, ← hroom.same]
    refine ⟨fun heq hmem => ?_, fun hout => ?_⟩
    · have hlength := congrArg List.length heq
      have hkept := OrderedMap.size_set_of_has (OrderedMap.mem_keys.1 hmem) value.data
      unfold OrderedMap.values at hlength
      unfold OrderedMap.size at hkept
      rw [List.length_map, List.length_append, List.length_map, hkept] at hlength
      exact absurd hlength (by simp)
    · have hout' : byId.has id = false := by
        rw [← Bool.not_eq_true, ← OrderedMap.mem_keys]
        exact hout
      unfold OrderedMap.values
      rw [OrderedMap.entries_set_of_new hout', List.map_append]
      rfl

theorem filed_set (h : s.Filed) (hsame : s.SameBlocks) (value : Block) :
    (s.perform (.set value)).Filed := by
  by_cases haccepted : ∃ id, value.data.id = some id ∧ value.data.height = nextHeight s.lastBlock
  · obtain ⟨id, hid, hnext⟩ := haccepted
    rcases perform_set_accepted h hsame hid hnext with
      ⟨hperform, -⟩ | ⟨byId, byHeight, hroom, hperform⟩
    · rw [hperform]
      exact h
    · rw [hperform]
      refine ⟨fun e he => ?_, fun e he => ?_, fun e he => ?_, h.maxSize⟩
      · rcases OrderedMap.mem_entries_set he with rfl | he
        · exact hid
        · exact h.id e (hroom.fromId e he)
      · rcases OrderedMap.mem_entries_set he with rfl | he
        · rfl
        · exact h.height e (hroom.fromHeight e he)
      · show e.1 < value.data.height + 1
        rcases OrderedMap.mem_entries_set he with rfl | he
        · exact Nat.lt_succ_self _
        · have hbelow := h.below e (hroom.fromHeight e he)
          omega
  · rw [perform_set_refused fun id hid hnext => haccepted ⟨id, hid, hnext⟩]
    exact h

/-! ## 4. `delete`, `clear` and `resize` -/

theorem perform_delete {value : BlockData} {id : String} (hid : value.id = some id) :
    s.perform (.delete value) =
      { s with
        byId := { s.byId with store := s.byId.store.delete id }
        byHeight := { s.byHeight with store := s.byHeight.store.delete value.height } } := by
  obtain ⟨gone, hbyId⟩ := CappedMap.run_delete (m := s.byId) id
  obtain ⟨gone', hbyHeight⟩ := CappedMap.run_delete (m := s.byHeight) value.height
  have hrunId : (onId (CappedMap.delete id)).run s =
      .done gone { s with byId := { s.byId with store := s.byId.store.delete id } } := by
    unfold onId
    rw [Prog.run_zoom, hbyId]
  have hrunHeight : (onHeight (CappedMap.delete value.height)).run
      { s with byId := { s.byId with store := s.byId.store.delete id } } =
      .done gone' { s with
        byId := { s.byId with store := s.byId.store.delete id }
        byHeight := { s.byHeight with store := s.byHeight.store.delete value.height } } := by
    unfold onHeight
    rw [Prog.run_zoom]
    dsimp only
    rw [hbyHeight]
  show ((delete value).run s).state = _
  unfold delete
  rw [hid]
  show ((onId (CappedMap.delete id) >>= _ : BlockStoreProg Unit).run s).state = _
  rw [Prog.run_bind_of_done hrunId, Prog.run_bind_of_done hrunHeight]
  rfl

theorem perform_delete_refused {value : BlockData} (hid : value.id = none) :
    s.perform (.delete value) = s := by
  show ((delete value).run s).state = s
  unfold delete
  rw [hid]
  rfl

/-- The maps without entries that do not fit a condition on their blocks. -/
theorem values_filter {κ : Type} (m : OrderedMap κ BlockData) {p : κ → BlockData → Bool}
    {q : BlockData → Bool} (h : ∀ e ∈ m.entries, p e.1 e.2 = q e.2) :
    (m.filter p).values = m.values.filter q := by
  unfold OrderedMap.values OrderedMap.filter
  rw [List.filter_map]
  exact congrArg (List.map Prod.snd) (List.filter_congr h)

theorem Filed.byId_get (h : s.Filed) {id : String} {block : BlockData} :
    s.byId.get id = some block ↔ block ∈ s.byId.store.values ∧ block.id = some id := by
  unfold CappedMap.get
  refine OrderedMap.mem_entries.symm.trans ⟨fun hmem => ?_, fun hblock => ?_⟩
  · exact ⟨List.mem_map_of_mem hmem, h.id _ hmem⟩
  · obtain ⟨e, he, rfl⟩ := List.mem_map.1 hblock.1
    obtain rfl := Option.some.inj ((h.id e he).symm.trans hblock.2)
    exact he

theorem Filed.byHeight_get (h : s.Filed) {height : Nat} {block : BlockData} :
    s.byHeight.get height = some block ↔
      block ∈ s.byHeight.store.values ∧ block.height = height := by
  unfold CappedMap.get
  refine OrderedMap.mem_entries.symm.trans ⟨fun hmem => ?_, fun hblock => ?_⟩
  · exact ⟨List.mem_map_of_mem hmem, h.height _ hmem⟩
  · obtain ⟨e, he, rfl⟩ := List.mem_map.1 hblock.1
    obtain rfl := (h.height e he).symm.trans hblock.2
    exact he

/-- Both maps lose the same block when it is the same one that is under the id and the height. -/
theorem sameBlocks_delete_iff (h : s.Filed) (hsame : s.SameBlocks) {value : BlockData} {id : String}
    (hid : value.id = some id) :
    (s.perform (.delete value)).SameBlocks ↔ s.byId.get id = s.byHeight.get value.height := by
  have hsame' : s.byId.store.values = s.byHeight.store.values := hsame
  have hbyId : (s.byId.store.delete id).values =
      s.byId.store.values.filter fun block => block.id ≠ some id := by
    refine values_filter _ fun e he => ?_
    rw [h.id e he]
    simp
  have hbyHeight : (s.byHeight.store.delete value.height).values =
      s.byId.store.values.filter fun block => block.height ≠ value.height := by
    rw [hsame']
    refine values_filter _ fun e he => ?_
    rw [h.height e he]
  have hgets : s.byId.get id = s.byHeight.get value.height ↔
      ∀ block ∈ s.byId.store.values, (block.id = some id ↔ block.height = value.height) := by
    rw [Option.ext_iff]
    simp only [h.byId_get, h.byHeight_get, ← hsame', and_congr_right_iff]
  rw [perform_delete hid, hgets]
  show (s.byId.store.delete id).values = (s.byHeight.store.delete value.height).values ↔ _
  rw [hbyId, hbyHeight]
  refine ⟨fun heq block hblock => ?_, fun hboth => ?_⟩
  · have hmem := congrArg (block ∈ ·) heq
    simp only [List.mem_filter, hblock, true_and, decide_eq_true_eq, eq_iff_iff] at hmem
    exact not_iff_not.1 hmem
  · refine List.filter_congr fun block hblock => ?_
    simp only [ne_eq, hboth block hblock]

theorem filed_delete (h : s.Filed) (value : BlockData) : (s.perform (.delete value)).Filed := by
  cases hid : value.id with
  | none =>
    rw [perform_delete_refused hid]
    exact h
  | some id =>
    rw [perform_delete hid]
    exact ⟨fun e he => h.id e (List.mem_of_mem_filter he),
      fun e he => h.height e (List.mem_of_mem_filter he),
      fun e he => h.below e (List.mem_of_mem_filter he), h.maxSize⟩

/-- What `resize` leaves of the entries, in each of the maps. -/
def resized {κ : Type} (m : CappedMap κ BlockData) (maxSize : Int) : CappedMap κ BlockData :=
  if maxSize < m.store.size then ⟨CappedMap.sliceLast m.store (max 0 maxSize).toNat, maxSize⟩
  else { m with maxSize := maxSize }

theorem perform_resize (maxSize : Int) :
    s.perform (.resize maxSize) =
      { s with byId := resized s.byId maxSize, byHeight := resized s.byHeight maxSize } := rfl

theorem maxSize_resized {κ : Type} (m : CappedMap κ BlockData) (maxSize : Int) :
    (resized m maxSize).maxSize = maxSize := by
  unfold resized
  split <;> rfl

theorem mem_resized {κ : Type} {m : CappedMap κ BlockData} {maxSize : Int} {e : κ × BlockData}
    (h : e ∈ (resized m maxSize).store.entries) : e ∈ m.store.entries := by
  unfold resized CappedMap.sliceLast at h
  split at h
  · split at h
    · exact h
    · exact List.mem_of_mem_drop h
  · exact h

/-- The blocks that are left are a matter of their order alone. -/
theorem values_resized {κ κ' : Type} {m : CappedMap κ BlockData} {m' : CappedMap κ' BlockData}
    (h : m.store.values = m'.store.values) (maxSize : Int) :
    (resized m maxSize).store.values = (resized m' maxSize).store.values := by
  have hsize : m.store.size = m'.store.size := by
    have hlength := congrArg List.length h
    unfold OrderedMap.values at hlength
    rwa [List.length_map, List.length_map] at hlength
  have hlast : ∀ {κ : Type} (m : OrderedMap κ BlockData) (n : Nat),
      (m.takeLast n).values = m.values.rtake n := by
    intro κ m n
    unfold OrderedMap.takeLast OrderedMap.values List.rtake
    rw [List.map_drop, List.length_map]
  unfold resized CappedMap.sliceLast
  rw [hsize]
  split
  · split
    · exact h
    · show (m.store.takeLast _).values = (m'.store.takeLast _).values
      rw [hlast, hlast, h]
  · exact h

/-! ## 5. All operations -/

/-- A block stays filed as it should be. -/
theorem filed_perform (h : s.Filed) (hsame : s.SameBlocks) (op : BlockOperation) :
    (s.perform op).Filed := by
  cases op with
  | set value => exact filed_set h hsame value
  | delete value => exact filed_delete h value
  | clear => exact ⟨fun _ he => (nomatch he), fun _ he => (nomatch he), fun _ he => (nomatch he),
      h.maxSize⟩
  | resize maxSize =>
    rw [perform_resize]
    refine ⟨fun e he => h.id e (mem_resized he), fun e he => h.height e (mem_resized he),
      fun e he => h.below e (mem_resized he), ?_⟩
    exact (maxSize_resized _ _).trans (maxSize_resized _ _).symm

/-- **An operation leaves the same blocks in both maps where it is allowed**, and only there. -/
theorem sameBlocks_perform_iff (h : s.Filed) (hsame : s.SameBlocks) (op : BlockOperation) :
    (s.perform op).SameBlocks ↔ s.Allowed op := by
  cases op with
  | set value =>
    by_cases haccepted : ∃ id, value.data.id = some id ∧ value.data.height = nextHeight s.lastBlock
    · obtain ⟨id, hid, hnext⟩ := haccepted
      rw [sameBlocks_set_iff h hsame hid hnext]
      refine ⟨fun hout id' hid' _ => ?_, fun hallowed => hallowed id hid hnext⟩
      obtain rfl := Option.some.inj (hid.symm.trans hid')
      exact hout
    · rw [perform_set_refused fun id hid hnext => haccepted ⟨id, hid, hnext⟩]
      exact ⟨fun _ id hid hnext => absurd ⟨id, hid, hnext⟩ haccepted, fun _ => hsame⟩
  | delete value =>
    cases hid : value.id with
    | none =>
      rw [perform_delete_refused hid]
      exact ⟨fun _ id hid' => (nomatch hid.symm.trans hid'), fun _ => hsame⟩
    | some id =>
      rw [sameBlocks_delete_iff h hsame hid]
      refine ⟨fun heq id' hid' => ?_, fun hallowed => hallowed id hid⟩
      obtain rfl := Option.some.inj (hid.symm.trans hid')
      exact heq
  | clear => exact ⟨fun _ => trivial, fun _ => rfl⟩
  | resize maxSize => exact ⟨fun _ => trivial, fun _ => values_resized hsame maxSize⟩

end BlockStore

end CoreEx
