/-
  File:      CoreEx/Properties/StoredChain.lean
  Subject:   Whether the database shows the chain that is current, over any run of saves and
             reverts.

  A revert does not touch the stores, and a block that is there is not written again. What is left
  of an abandoned fork is shown until the current chain overwrites it, and transactions are never
  overwritten.

  * `ChainOp`, `ChainRun` -- saves and reverts, the database and the current chain;
  * `Shows` -- the look-ups answer with the current chain;
  * `Undisturbed` -- what is left of other forks is not in the way of a save;
  * `Filed` -- what holds in the stores of every run; `Saved` -- what a save changes;
  * `shows_save_iff` -- one save; **`storedChain_iff`** -- a whole run;
  * **`refork_not`** -- fork `A`, fork `B`, and back to `A`.
-/
import CoreEx.Database.DatabaseService
import CoreEx.Properties.VoteBalances

namespace CoreEx

namespace Database

/-! ## 1. What is filed -/

/-- Whether a block has a transaction of the id. -/
def hasTransaction (id : String) (block : Block) : Bool :=
  block.transactions.any fun t => t.data.id = some id

/-- The stores of a node, whatever it has saved: blocks lie under their ids with all of their
    transactions, and a height leads to a block of that height. -/
structure Filed (db : Database) : Prop where
  keyed : ∀ id b, db.blockStorage.get? id = some b → blockID b = some id
  led : ∀ height id, db.blockStorageById.get? height = some id →
    0 < height ∧ ∃ b, db.blockStorage.get? id = some b ∧ b.data.height = height
  whole : ∀ id b, db.blockStorage.get? id = some b → ∀ id', hasTransaction id' b = true →
    db.transactionStorage.doesExist id' = true

/-- What saving the blocks makes of the stores. -/
structure Saved (blocks : List Block) (db db' : Database) : Prop where
  kept : ∀ id b, db.blockStorage.get? id = some b → db'.blockStorage.get? id = some b
  added : ∀ id b, db'.blockStorage.get? id = some b →
    db.blockStorage.get? id = some b ∨ b ∈ blocks ∧ blockID b = some id
  stored : ∀ b ∈ blocks, ∀ id, blockID b = some id → db.blockStorage.get? id = none →
    db'.blockStorage.get? id = some b ∧ db'.blockStorageById.get? b.data.height = some id
  others : ∀ height, (∀ b ∈ blocks, ∀ id, blockID b = some id →
      db.blockStorage.get? id = none → b.data.height ≠ height) →
    db'.blockStorageById.get? height = db.blockStorageById.get? height
  transactionsKept : ∀ id, db.transactionStorage.doesExist id = true →
    db'.transactionStorage.doesExist id = true
  transactionsAdded : ∀ id, db'.transactionStorage.doesExist id = true →
    db.transactionStorage.doesExist id = true ∨ ∃ b ∈ blocks, hasTransaction id b = true
  filed : Filed db → Filed db'

theorem filed_empty : Filed empty :=
  ⟨fun _ _ h => (nomatch h), fun _ _ h => (nomatch h), fun _ _ h => (nomatch h)⟩

/-- The transactions that are there after those of a block are put. -/
theorem doesExist_putTransactions {ts : List Transaction}
    (hids : ∀ t ∈ ts, t.data.id.isSome = true) (storage : Storage String Transaction)
    (id : String) :
    (ts.foldl (fun storage t => storage.put (t.data.id.getD "") t) storage).doesExist id = true ↔
      storage.doesExist id = true ∨ (ts.any fun t => t.data.id = some id) = true := by
  induction ts generalizing storage with
  | nil => simp
  | cons t ts ih =>
    obtain ⟨tid, htid⟩ := Option.isSome_iff_exists.1 (hids t List.mem_cons_self)
    have hput : (storage.put tid t).doesExist id = true ↔
        storage.doesExist id = true ∨ tid = id := by
      unfold Storage.doesExist
      rw [Storage.get?_put]
      by_cases h : id = tid
      · simp [h]
      · have h' : ¬ tid = id := fun e => h e.symm
        simp [h, h']
    rw [List.foldl_cons, ih (fun t' ht' => hids t' (List.mem_cons_of_mem _ ht')), htid,
      Option.getD_some, hput, List.any_cons, htid]
    simp [or_assoc]

variable {db db' : Database} {block : Block} {blocks : List Block} {id : String}

/-- One block that is not there. -/
theorem saved_store (hid : blockID block = some id) (hnone : db.blockStorage.get? id = none)
    (hheight : 0 < block.data.height) (hids : ∀ t ∈ block.transactions, t.data.id.isSome = true) :
    Saved [block] db (store id block db) := by
  have hblock : ∀ id', (store id block db).blockStorage.get? id' =
      if id' = id then some block else db.blockStorage.get? id' :=
    fun id' => Storage.get?_put db.blockStorage id id' block
  have hheights : ∀ height, (store id block db).blockStorageById.get? height =
      if height = block.data.height then some id else db.blockStorageById.get? height :=
    fun height => Storage.get?_put db.blockStorageById block.data.height height id
  have htransactions : ∀ id', (store id block db).transactionStorage.doesExist id' = true ↔
      db.transactionStorage.doesExist id' = true ∨ hasTransaction id' block = true :=
    fun id' => doesExist_putTransactions hids db.transactionStorage id'
  have hkept : ∀ id' b, db.blockStorage.get? id' = some b →
      (store id block db).blockStorage.get? id' = some b := by
    intro id' b hb
    rw [hblock, if_neg, hb]
    intro e
    rw [e, hnone] at hb
    cases hb
  refine ⟨hkept, fun id' b hb => ?_, fun b hb id' hid' _ => ?_, fun height h => ?_,
    fun id' h => (htransactions id').2 (Or.inl h), fun id' h => ?_, fun hfiled => ⟨?_, ?_, ?_⟩⟩
  · rw [hblock] at hb
    by_cases e : id' = id
    · rw [if_pos e] at hb
      obtain rfl := Option.some.inj hb
      exact Or.inr ⟨List.mem_singleton_self _, e ▸ hid⟩
    · rw [if_neg e] at hb
      exact Or.inl hb
  · obtain rfl := List.mem_singleton.1 hb
    obtain rfl := Option.some.inj (hid.symm.trans hid')
    exact ⟨by rw [hblock, if_pos rfl], by rw [hheights, if_pos rfl]⟩
  · have hne := h block (List.mem_singleton_self _) id hid hnone
    rw [hheights, if_neg fun e => hne e.symm]
  · rcases (htransactions id').1 h with hold | hnew
    · exact Or.inl hold
    · exact Or.inr ⟨block, List.mem_singleton_self _, hnew⟩
  · intro id' b hb
    rw [hblock] at hb
    by_cases e : id' = id
    · rw [if_pos e] at hb
      rw [← Option.some.inj hb, e, hid]
    · rw [if_neg e] at hb
      exact hfiled.keyed id' b hb
  · intro height id' h
    rw [hheights] at h
    by_cases e : height = block.data.height
    · rw [if_pos e] at h
      obtain rfl := Option.some.inj h
      exact ⟨e ▸ hheight, block, by rw [hblock, if_pos rfl], e.symm⟩
    · rw [if_neg e] at h
      obtain ⟨hpos, b, hb, hbh⟩ := hfiled.led height id' h
      exact ⟨hpos, b, hkept id' b hb, hbh⟩
  · intro id' b hb id₂ htx
    rw [hblock] at hb
    by_cases e : id' = id
    · rw [if_pos e] at hb
      obtain rfl := Option.some.inj hb
      exact (htransactions id₂).2 (Or.inr htx)
    · rw [if_neg e] at hb
      exact (htransactions id₂).2 (Or.inl (hfiled.whole id' b hb id₂ htx))

/-- Two saves, one after the other. -/
theorem Saved.append {bs cs : List Block} {db₁ db₂ : Database} (h₁ : Saved bs db db₁)
    (h₂ : Saved cs db₁ db₂) (hids : ∀ b ∈ bs, ∀ c ∈ cs, blockID c ≠ blockID b)
    (hheights : ∀ b ∈ bs, ∀ c ∈ cs, c.data.height ≠ b.data.height) :
    Saved (bs ++ cs) db db₂ := by
  have hfresh : ∀ c ∈ cs, ∀ id, blockID c = some id → db.blockStorage.get? id = none →
      db₁.blockStorage.get? id = none := by
    intro c hc id hid hnone
    cases hget : db₁.blockStorage.get? id with
    | none => rfl
    | some b =>
      rcases h₁.added id b hget with hold | hnew
      · rw [hnone] at hold
        cases hold
      · exact absurd (hid.trans hnew.2.symm) (hids b hnew.1 c hc)
  refine ⟨fun id b hb => h₂.kept id b (h₁.kept id b hb), fun id b hb => ?_,
    fun b hb id hid hnone => ?_, fun height h => ?_,
    fun id h => h₂.transactionsKept id (h₁.transactionsKept id h), fun id h => ?_,
    fun h => h₂.filed (h₁.filed h)⟩
  · rcases h₂.added id b hb with hold | hnew
    · exact (h₁.added id b hold).imp_right fun h => ⟨List.mem_append_left _ h.1, h.2⟩
    · exact Or.inr ⟨List.mem_append_right _ hnew.1, hnew.2⟩
  · rcases List.mem_append.1 hb with hb | hb
    · obtain ⟨hget, hheight⟩ := h₁.stored b hb id hid hnone
      refine ⟨h₂.kept id b hget, ?_⟩
      rw [h₂.others b.data.height fun c hc _ _ _ => hheights b hb c hc]
      exact hheight
    · exact h₂.stored b hb id hid (hfresh b hb id hid hnone)
  · rw [h₂.others height fun c hc id hid hnone => ?_,
      h₁.others height fun b hb id hid hnone => h b (List.mem_append_left _ hb) id hid hnone]
    refine h c (List.mem_append_right _ hc) id hid ?_
    cases hget : db.blockStorage.get? id with
    | none => rfl
    | some b =>
      rw [h₁.kept id b hget] at hnone
      cases hnone
  · rcases h₂.transactionsAdded id h with hold | hnew
    · exact (h₁.transactionsAdded id hold).imp_right fun ⟨b, hb, htx⟩ =>
        ⟨b, List.mem_append_left _ hb, htx⟩
    · obtain ⟨b, hb, htx⟩ := hnew
      exact Or.inr ⟨b, List.mem_append_right _ hb, htx⟩

/-- A list without blocks changes nothing. -/
theorem Saved.nil (db : Database) : Saved [] db db :=
  ⟨fun _ _ h => h, fun _ _ h => Or.inl h, fun _ h => absurd h List.not_mem_nil, fun _ _ => rfl,
    fun _ h => h, fun _ h => Or.inl h, fun h => h⟩

/-- Neither does a block that is there. -/
theorem saved_known {b : Block} (hid : blockID block = some id)
    (hget : db.blockStorage.get? id = some b) : Saved [block] db db := by
  refine ⟨fun _ _ h => h, fun _ _ h => Or.inl h, fun b' hb' id' hid' hnone => ?_, fun _ _ => rfl,
    fun _ h => h, fun _ h => Or.inl h, fun h => h⟩
  obtain rfl := List.mem_singleton.1 hb'
  obtain rfl := Option.some.inj (hid.symm.trans hid')
  rw [hget] at hnone
  cases hnone

/-- Blocks that can be saved: with ids and heights of their own. -/
structure Storable (blocks : List Block) : Prop where
  ids : ∀ b ∈ blocks, (blockID b).isSome = true
  distinct : (blocks.map blockID).Nodup
  heights : (blocks.map fun b => b.data.height).Nodup
  positive : ∀ b ∈ blocks, 0 < b.data.height
  transactionIds : ∀ b ∈ blocks, ∀ t ∈ b.transactions, t.data.id.isSome = true

/-- **What `saveBlocks` does.** -/
theorem saveBlocks_saved (h : Storable blocks) (db : Database) :
    ∃ db', (saveBlocks blocks).run db = .done () db' ∧ Saved blocks db db' := by
  induction blocks generalizing db with
  | nil => exact ⟨db, rfl, Saved.nil db⟩
  | cons block blocks ih =>
    obtain ⟨id, hid⟩ := Option.isSome_iff_exists.1 (h.ids block List.mem_cons_self)
    obtain ⟨hdistinct, hdistinct'⟩ := List.nodup_cons.1 h.distinct
    obtain ⟨hheights, hheights'⟩ := List.nodup_cons.1 h.heights
    have hrest : Storable blocks :=
      ⟨fun b hb => h.ids b (List.mem_cons_of_mem _ hb), hdistinct', hheights',
        fun b hb => h.positive b (List.mem_cons_of_mem _ hb),
        fun b hb => h.transactionIds b (List.mem_cons_of_mem _ hb)⟩
    have hfirst : ∃ db₁, (saveBlock block).run db = .done () db₁ ∧ Saved [block] db db₁ := by
      cases hget : db.blockStorage.get? id with
      | none =>
        refine ⟨store id block db, ?_, saved_store hid hget (h.positive block List.mem_cons_self)
          (h.transactionIds block List.mem_cons_self)⟩
        simp [saveBlock, hid, Prog.run_bind, Storage.doesExist, hget, Prog.when]
      | some b =>
        refine ⟨db, ?_, saved_known hid hget⟩
        simp [saveBlock, hid, Prog.run_bind, Storage.doesExist, hget, Prog.when]
    obtain ⟨db₁, hrun₁, hsaved₁⟩ := hfirst
    obtain ⟨db₂, hrun₂, hsaved₂⟩ := ih hrest db₁
    refine ⟨db₂, ?_, hsaved₁.append hsaved₂ (fun b hb c hc e => ?_) fun b hb c hc e => ?_⟩
    · unfold saveBlocks at hrun₂ ⊢
      rw [Prog.forEach_cons, Prog.run_bind_of_done hrun₁]
      exact hrun₂
    · rw [List.mem_singleton.1 hb] at e
      exact hdistinct (e ▸ List.mem_map_of_mem hc)
    · rw [List.mem_singleton.1 hb] at e
      exact hheights (List.mem_map.2 ⟨c, hc, e⟩)

end Database

/-! ## 3. Chains -/

open Database (blockID hasTransaction Filed Saved Storable)

/-- The blocks of a chain: the heights count up from one, every block has an id of its own. -/
structure IsChain (chain : List Block) : Prop where
  heights : chain.map (fun b => b.data.height) = List.range' 1 chain.length
  ids : ∀ b ∈ chain, (blockID b).isSome = true
  distinct : (chain.map blockID).Nodup
  transactionIds : ∀ b ∈ chain, ∀ t ∈ b.transactions, t.data.id.isSome = true

instance (chain : List Block) : Decidable (IsChain chain) :=
  decidable_of_iff (chain.map (fun b => b.data.height) = List.range' 1 chain.length ∧
      (∀ b ∈ chain, (blockID b).isSome = true) ∧ (chain.map blockID).Nodup ∧
      ∀ b ∈ chain, ∀ t ∈ b.transactions, t.data.id.isSome = true)
    ⟨fun h => ⟨h.1, h.2.1, h.2.2.1, h.2.2.2⟩,
      fun h => ⟨h.heights, h.ids, h.distinct, h.transactionIds⟩⟩

variable {chain blocks : List Block} {db : Database}

theorem IsChain.height (h : IsChain chain) {i : Nat} {b : Block} (hb : chain[i]? = some b) :
    b.data.height = i + 1 := by
  have hget : (chain.map fun b => b.data.height)[i]? = some b.data.height := by simp [hb]
  rw [h.heights, List.getElem?_range'] at hget
  · simpa [Nat.add_comm] using hget.symm
  · exact (List.getElem?_eq_some_iff.1 hb).1

/-- The heights of a chain ascend. -/
theorem IsChain.ascending (h : IsChain chain) :
    chain.Pairwise fun a b => a.data.height < b.data.height := by
  have hpair : (chain.map fun b => b.data.height).Pairwise (· < ·) := by
    rw [h.heights]
    exact List.pairwise_lt_range'
  exact List.pairwise_map.1 hpair

/-- What a chain ends with can be saved. -/
theorem IsChain.storable (h : IsChain (chain ++ blocks)) : Storable blocks := by
  have hmem : ∀ b ∈ blocks, b ∈ chain ++ blocks := fun b hb => List.mem_append_right _ hb
  refine ⟨fun b hb => h.ids b (hmem b hb), ?_, ?_, fun b hb => ?_,
    fun b hb => h.transactionIds b (hmem b hb)⟩
  · have hdistinct := h.distinct
    rw [List.map_append] at hdistinct
    exact hdistinct.of_append_right
  · have hpair := (List.pairwise_append.1 h.ascending).2.1
    exact (List.pairwise_map.2 hpair).imp fun hlt => hlt.ne
  · obtain ⟨i, hi⟩ := List.mem_iff_getElem?.1 (hmem b hb)
    rw [h.height hi]
    exact Nat.succ_pos i

/-- The blocks that follow a chain lie above it. -/
theorem IsChain.above (h : IsChain (chain ++ blocks)) {b : Block} (hb : b ∈ blocks) :
    chain.length < b.data.height ∧ b.data.height ≤ (chain ++ blocks).length := by
  obtain ⟨i, hi⟩ := List.mem_iff_getElem?.1 hb
  have hlt := (List.getElem?_eq_some_iff.1 hi).1
  have hget : (chain ++ blocks)[chain.length + i]? = some b := by
    rw [List.getElem?_append_right (by omega), Nat.add_sub_cancel_left]
    exact hi
  rw [h.height hget, List.length_append]
  omega

/-! ## 4. What is shown -/

/-- The heights of the chain lead to its blocks. -/
def ShowsBlocks (db : Database) (chain : List Block) : Prop :=
  ∀ i < chain.length, ∃ id b, db.blockStorageById.get? (i + 1) = some id ∧
    db.blockStorage.get? id = some b ∧ chain[i]? = some b

/-- The database answers with the chain: under each height and each range of heights, with the
    last block, and with the transactions that are forged. -/
structure Shows (db : Database) (chain : List Block) : Prop where
  byHeights : ∀ heights : List Nat, (∀ h ∈ heights, 0 < h ∧ h ≤ chain.length) →
    db.findBlockByHeights heights = .ok (heights.filterMap fun h => chain[h - 1]?)
  byRange : ∀ start stop : Nat, 0 < start → stop ≤ chain.length →
    db.findBlocksByHeightRange start stop = (chain.take stop).drop (start - 1)
  last : db.getLastBlock = .ok chain.getLast?
  forged : ∀ ids, db.getForgedTransactionsIds ids =
    ids.filter fun id => chain.any (hasTransaction id)

/-- The same of the entries: no height above the chain, no transaction beside it. -/
structure Agrees (db : Database) (chain : List Block) : Prop where
  blocks : ShowsBlocks db chain
  heights : ∀ height, db.blockStorageById.doesExist height = true → height ≤ chain.length
  transactions : ∀ id, db.transactionStorage.doesExist id = true →
    chain.any (hasTransaction id) = true

theorem ShowsBlocks.findBlockByHeights (h : ShowsBlocks db chain) (heights : List Nat)
    (hheights : ∀ h ∈ heights, 0 < h ∧ h ≤ chain.length) :
    db.findBlockByHeights heights = .ok (heights.filterMap fun h => chain[h - 1]?) := by
  unfold Database.findBlockByHeights
  induction heights with
  | nil => rfl
  | cons height heights ih =>
    obtain ⟨hpos, hle⟩ := hheights height List.mem_cons_self
    obtain ⟨id, b, hid, hb, hchain⟩ := h (height - 1) (by omega)
    rw [Nat.sub_add_cancel hpos] at hid
    have hcons : (height :: heights).filterMap (fun h => chain[h - 1]?) =
        b :: heights.filterMap fun h => chain[h - 1]? := List.filterMap_cons_some hchain
    rw [List.filterMap_cons_some hid, hcons, List.mapM_cons,
      ih fun h' hh' => hheights h' (List.mem_cons_of_mem _ hh'), Database.blockOf, hb]
    rfl

/-- The blocks of a range of heights. -/
theorem filterMap_range' (chain : List Block) (a n : Nat) (h : a + n ≤ chain.length) :
    (List.range' (a + 1) n).filterMap (fun height => chain[height - 1]?) =
      (chain.drop a).take n := by
  induction n generalizing a with
  | zero => simp
  | succ n ih =>
    have hlt : a < chain.length := by omega
    have hcons : ((a + 1) :: List.range' (a + 1 + 1) n).filterMap
        (fun height => chain[height - 1]?) = chain[a] ::
          (List.range' (a + 1 + 1) n).filterMap fun height => chain[height - 1]? :=
      List.filterMap_cons_some (List.getElem?_eq_getElem hlt)
    rw [List.range'_succ, hcons, ih (a + 1) (by omega), List.drop_eq_getElem_cons hlt,
      List.take_succ_cons]

theorem range_eq (start stop : Nat) :
    Database.range start stop = (List.range' start (stop + 1 - start)).map Int.ofNat := by
  have hlength : ((stop : Int) + 1 - start).toNat = stop + 1 - start := by omega
  unfold Database.range
  rw [hlength, List.range'_eq_map_range, List.map_map]
  exact List.map_congr_left fun i _ => rfl

theorem ShowsBlocks.blockAt (h : ShowsBlocks db chain) {height : Nat} (hpos : 0 < height)
    (hle : height ≤ chain.length) : db.blockAt (Int.ofNat height) = chain[height - 1]? := by
  obtain ⟨id, b, hid, hb, hchain⟩ := h (height - 1) (by omega)
  rw [Nat.sub_add_cancel hpos] at hid
  rw [hchain]
  show (db.blockStorageById.get? height).bind db.blockStorage.get? = some b
  rw [hid]
  exact hb

theorem ShowsBlocks.findBlocksByHeightRange (h : ShowsBlocks db chain) (hchain : IsChain chain)
    (start stop : Nat) (hstart : 0 < start) (hstop : stop ≤ chain.length) :
    db.findBlocksByHeightRange start stop = (chain.take stop).drop (start - 1) := by
  have hblocks : (Database.range start stop).filterMap db.blockAt =
      (chain.take stop).drop (start - 1) := by
    rw [range_eq, List.filterMap_map]
    by_cases hle : start ≤ stop
    · have hcongr : (List.range' start (stop + 1 - start)).filterMap (db.blockAt ∘ Int.ofNat) =
          (List.range' (start - 1 + 1) (stop + 1 - start)).filterMap
            fun height => chain[height - 1]? := by
        rw [Nat.sub_add_cancel hstart]
        refine List.filterMap_congr fun height hheight => ?_
        obtain ⟨h₁, h₂⟩ := List.mem_range'_1.1 hheight
        exact h.blockAt (by omega) (by omega)
      rw [hcongr, filterMap_range' chain (start - 1) _ (by omega), List.drop_take]
      congr 1
      omega
    · rw [show stop + 1 - start = 0 by omega]
      simp only [List.range'_zero, List.filterMap_nil]
      rw [List.drop_eq_nil_of_le]
      rw [List.length_take]
      omega
  have hsorted : ((chain.take stop).drop (start - 1)).Pairwise
      fun a b => decide (a.data.height ≤ b.data.height) = true :=
    (hchain.ascending.sublist ((List.drop_sublist _ _).trans (List.take_sublist _ _))).imp
      fun hlt => decide_eq_true hlt.le
  unfold Database.findBlocksByHeightRange
  rw [hblocks, List.mergeSort_of_pairwise hsorted]

/-- **The answers are those of the chain exactly when the entries are.** -/
theorem shows_iff_agrees (hfiled : Filed db) (hchain : IsChain chain) :
    Shows db chain ↔ Agrees db chain := by
  refine ⟨fun h => ⟨fun i hi => ?_, fun height hheight => ?_, fun id hid => ?_⟩,
    fun h => ⟨h.blocks.findBlockByHeights, h.blocks.findBlocksByHeightRange hchain, ?_, ?_⟩⟩
  · have hget : chain[i + 1 - 1]? = some chain[i] := List.getElem?_eq_getElem hi
    have hlist : [i + 1].filterMap (fun h => chain[h - 1]?) = [chain[i]] :=
      List.filterMap_cons_some hget
    have hone := h.byHeights [i + 1] fun h hmem => by
      rw [List.mem_singleton.1 hmem]
      omega
    rw [hlist, Database.findBlockByHeights] at hone
    cases hid : db.blockStorageById.get? (i + 1) with
    | none =>
      rw [List.filterMap_cons_none hid] at hone
      cases hone
    | some id =>
      rw [List.filterMap_cons_some hid, List.mapM_cons, Database.blockOf] at hone
      cases hb : db.blockStorage.get? id with
      | none =>
        rw [hb] at hone
        cases hone
      | some b =>
        rw [hb] at hone
        exact ⟨id, b, rfl, hb, by cases hone; exact List.getElem?_eq_getElem hi⟩
  · cases hlast : db.blockStorageById.last? with
    | none =>
      rw [Storage.last?_eq_none_iff.1 hlast height] at hheight
      cases hheight
    | some e =>
      obtain ⟨top, id⟩ := e
      obtain ⟨hget, hmax⟩ := Storage.last?_eq_some_iff.1 hlast
      obtain ⟨-, b, hb, hbh⟩ := hfiled.led top id hget
      have hshown := h.last
      have hblock : db.blockOf id = .ok b := by rw [Database.blockOf, hb]
      rw [Database.getLastBlock, hlast] at hshown
      dsimp only at hshown
      rw [show (db.blockOf id).map some = .ok (some b) by rw [hblock]; rfl] at hshown
      have hlastBlock : chain.getLast? = some b := (Except.ok.inj hshown).symm
      rw [List.getLast?_eq_getElem?] at hlastBlock
      have hlt := (List.getElem?_eq_some_iff.1 hlastBlock).1
      have hbheight := hchain.height hlastBlock
      have hle := hmax height hheight
      omega
  · have hone := h.forged [id]
    have hexist : db.getForgedTransactionsIds [id] = [id] := by
      simp [Database.getForgedTransactionsIds, hid]
    rw [hexist] at hone
    have hmem : id ∈ [id].filter fun id => chain.any (hasTransaction id) := by
      rw [← hone]
      exact List.mem_singleton_self id
    exact (List.mem_filter.1 hmem).2
  · unfold Database.getLastBlock
    cases hlength : chain.length with
    | zero =>
      have hnone : db.blockStorageById.last? = none := by
        refine Storage.last?_eq_none_iff.2 fun height => ?_
        cases hexist : db.blockStorageById.doesExist height with
        | false => rfl
        | true =>
          obtain ⟨id, hid⟩ := Option.isSome_iff_exists.1 hexist
          have hpos := (hfiled.led height id hid).1
          have hle := h.heights height hexist
          omega
      rw [hnone, List.length_eq_zero_iff.1 hlength]
      rfl
    | succ n =>
      obtain ⟨id, b, hid, hb, hbchain⟩ := h.blocks n (by omega)
      have hlast : db.blockStorageById.last? = some (n + 1, id) :=
        Storage.last?_eq_some_iff.2 ⟨hid, fun height hheight => hlength ▸ h.heights height hheight⟩
      rw [hlast, List.getLast?_eq_getElem?, hlength]
      show (db.blockOf id).map some = .ok chain[n]?
      rw [Database.blockOf, hb, hbchain]
      rfl
  · intro ids
    refine List.filter_congr fun id _ => ?_
    cases hexist : db.transactionStorage.doesExist id with
    | true => exact (h.transactions id hexist).symm
    | false =>
      cases hany : chain.any (hasTransaction id) with
      | false => rfl
      | true =>
        obtain ⟨b, hbmem, htx⟩ := List.any_eq_true.1 hany
        obtain ⟨i, hi⟩ := List.mem_iff_getElem?.1 hbmem
        obtain ⟨id', b', -, hb', hbchain⟩ := h.blocks i (List.getElem?_eq_some_iff.1 hi).1
        obtain rfl := Option.some.inj (hi.symm.trans hbchain)
        rw [hfiled.whole id' b hb' id htx] at hexist
        cases hexist

/-! ## 5. One save -/

/-- What is left of other forks is not in the way of the blocks: of those that are there the
    height still leads to them, no height lies above the chain as it will be, and no transaction is
    stored that it will not have. -/
structure Undisturbed (db : Database) (chain blocks : List Block) : Prop where
  stored : ∀ b ∈ blocks, ∀ id b', blockID b = some id → db.blockStorage.get? id = some b' →
    b' = b ∧ db.blockStorageById.get? b.data.height = some id
  heights : ∀ height, db.blockStorageById.doesExist height = true →
    height ≤ chain.length + blocks.length
  transactions : ∀ id, db.transactionStorage.doesExist id = true →
    (chain ++ blocks).any (hasTransaction id) = true

variable {db' : Database}

/-- A save leaves the heights of the chain below as they are. -/
theorem Database.Saved.below (h : Saved blocks db db') (hchain : IsChain (chain ++ blocks))
    {height : Nat}
    (hle : height ≤ chain.length) :
    db'.blockStorageById.get? height = db.blockStorageById.get? height := by
  refine h.others height fun b hb _ _ _ hsame => ?_
  have habove := (hchain.above hb).1
  omega

/-- Of a block that is there, too. -/
theorem Database.Saved.known_height (h : Saved blocks db db') (hblocks : Storable blocks)
    {b b' : Block}
    {id : String} (hb : b ∈ blocks) (hid : blockID b = some id)
    (hget : db.blockStorage.get? id = some b') :
    db'.blockStorageById.get? b.data.height = db.blockStorageById.get? b.data.height := by
  refine h.others b.data.height fun b₂ hb₂ id₂ hid₂ hnone hsame => ?_
  obtain rfl := List.inj_on_of_nodup_map hblocks.heights hb₂ hb hsame
  obtain rfl := Option.some.inj (hid.symm.trans hid₂)
  rw [hget] at hnone
  cases hnone

/-- A height is there after a save if it was there before or is that of a block. -/
theorem Database.Saved.heights (h : Saved blocks db db') (height : Nat) :
    (db.blockStorageById.doesExist height = true → db'.blockStorageById.doesExist height = true) ∧
      (db'.blockStorageById.doesExist height = true →
        db.blockStorageById.doesExist height = true ∨ ∃ b ∈ blocks, b.data.height = height) := by
  by_cases hfresh : ∀ b ∈ blocks, ∀ id, blockID b = some id → db.blockStorage.get? id = none →
      b.data.height ≠ height
  · have hsame := h.others height hfresh
    unfold Storage.doesExist
    rw [hsame]
    exact ⟨fun hold => hold, Or.inl⟩
  · push Not at hfresh
    obtain ⟨b, hb, id, hid, hnone, hheight⟩ := hfresh
    refine ⟨fun _ => ?_, fun _ => Or.inr ⟨b, hb, hheight⟩⟩
    have hstored := (h.stored b hb id hid hnone).2
    rw [hheight] at hstored
    unfold Storage.doesExist
    rw [hstored]
    rfl

/-- **After a save the entries are those of the chain exactly when nothing was in the way.** -/
theorem agrees_save_iff (hfiled : Filed db) (hshown : ShowsBlocks db chain)
    (hchain : IsChain (chain ++ blocks)) (hsaved : Saved blocks db db') :
    Agrees db' (chain ++ blocks) ↔ Undisturbed db chain blocks := by
  have hblocks := hchain.storable
  refine ⟨fun h => ⟨fun b hb id b' hid hget => ?_, fun height hheight => ?_, fun id hid => ?_⟩,
    fun h => ⟨fun i hi => ?_, fun height hheight => ?_, fun id hid => ?_⟩⟩
  · obtain ⟨i, hi⟩ := List.mem_iff_getElem?.1 (List.mem_append_right chain hb)
    obtain ⟨id₂, b₂, hid₂, hget₂, hb₂⟩ := h.blocks i (List.getElem?_eq_some_iff.1 hi).1
    obtain rfl := Option.some.inj (hi.symm.trans hb₂)
    obtain rfl := Option.some.inj
      (hid.symm.trans ((hsaved.filed hfiled).keyed id₂ b hget₂))
    obtain rfl := Option.some.inj ((hsaved.kept id b' hget).symm.trans hget₂)
    refine ⟨rfl, ?_⟩
    rw [← hsaved.known_height hblocks hb hid hget, hchain.height hi]
    exact hid₂
  · rw [← List.length_append]
    exact h.heights height ((hsaved.heights height).1 hheight)
  · exact h.transactions id (hsaved.transactionsKept id hid)
  · by_cases hlt : i < chain.length
    · obtain ⟨id, b, hid, hget, hb⟩ := hshown i hlt
      refine ⟨id, b, ?_, hsaved.kept id b hget, ?_⟩
      · rw [hsaved.below hchain hlt]
        exact hid
      · rw [List.getElem?_append_left hlt]
        exact hb
    · have hget : (chain ++ blocks)[i]? = some (chain ++ blocks)[i] := List.getElem?_eq_getElem hi
      generalize (chain ++ blocks)[i] = b at hget
      have hb : b ∈ blocks := by
        rw [List.getElem?_append_right (by omega)] at hget
        exact List.mem_of_getElem? hget
      obtain ⟨id, hid⟩ := Option.isSome_iff_exists.1 (hblocks.ids b hb)
      rw [← hchain.height hget]
      cases hold : db.blockStorage.get? id with
      | none =>
        obtain ⟨hnew, hheight⟩ := hsaved.stored b hb id hid hold
        exact ⟨id, b, hheight, hnew, hget⟩
      | some b' =>
        obtain ⟨rfl, hheight⟩ := h.stored b hb id b' hid hold
        refine ⟨id, b', ?_, hsaved.kept id b' hold, hget⟩
        rw [hsaved.known_height hblocks hb hid hold]
        exact hheight
  · rw [List.length_append]
    rcases (hsaved.heights height).2 hheight with hold | hnew
    · exact h.heights height hold
    · obtain ⟨b, hb, rfl⟩ := hnew
      rw [← List.length_append]
      exact (hchain.above hb).2
  · rcases hsaved.transactionsAdded id hid with hold | hnew
    · exact h.transactions id hold
    · obtain ⟨b, hb, htx⟩ := hnew
      exact List.any_eq_true.2 ⟨b, List.mem_append_right _ hb, htx⟩

/-! ## 6. Runs -/

/-- What happens to the chain: blocks that follow it are saved, or its last blocks are reverted. -/
inductive ChainOp where
  | save (blocks : List Block)
  | revert (count : Nat)

/-- The database and the current chain. -/
structure ChainState where
  database : Database
  chain : List Block

namespace ChainState

/-- Before the genesis block is saved. -/
def start : ChainState := ⟨.empty, []⟩

/-- `saveBlocks` of the blocks that were accepted. -/
def save (s : ChainState) (blocks : List Block) : ChainState :=
  ⟨((Database.saveBlocks blocks).run s.database).state, s.chain ++ blocks⟩

/-- The last blocks are reverted; the stores are not told. -/
def revert (s : ChainState) (count : Nat) : ChainState :=
  ⟨s.database, s.chain.take (s.chain.length - count)⟩

end ChainState

/-- The property holds at every save of the run. -/
def EverySave (P : ChainState → List Block → Prop) : ChainState → List ChainOp → Prop
  | _, [] => True
  | s, .save blocks :: ops => P s blocks ∧ EverySave P (s.save blocks) ops
  | s, .revert count :: ops => EverySave P (s.revert count) ops

/-- What is saved makes a chain with what is there. -/
def PossibleRun (ops : List ChainOp) : Prop :=
  EverySave (fun s blocks => IsChain (s.chain ++ blocks)) .start ops

theorem ShowsBlocks.take (h : ShowsBlocks db chain) (n : Nat) : ShowsBlocks db (chain.take n) := by
  intro i hi
  rw [List.length_take] at hi
  obtain ⟨id, b, hid, hget, hb⟩ := h i (by omega)
  refine ⟨id, b, hid, hget, ?_⟩
  rw [List.getElem?_take_of_lt (by omega)]
  exact hb

/-- **In every run the database shows the current chain after each save exactly when at each save
    nothing that other forks left was in the way.** -/
theorem storedChain_iff (ops : List ChainOp) (hpossible : PossibleRun ops) :
    EverySave (fun s blocks => Shows (s.save blocks).database (s.save blocks).chain) .start ops ↔
      EverySave (fun s blocks => Undisturbed s.database s.chain blocks) .start ops := by
  have hrun : ∀ s : ChainState, Filed s.database → ShowsBlocks s.database s.chain →
      EverySave (fun s blocks => IsChain (s.chain ++ blocks)) s ops →
      (EverySave (fun s blocks => Shows (s.save blocks).database (s.save blocks).chain) s ops ↔
        EverySave (fun s blocks => Undisturbed s.database s.chain blocks) s ops) := by
    clear hpossible
    induction ops with
    | nil => exact fun _ _ _ _ => Iff.rfl
    | cons op ops ih =>
      intro s hfiled hshown hpossible
      cases op with
      | revert count => exact ih (s.revert count) hfiled (hshown.take _) hpossible
      | save blocks =>
        obtain ⟨hchain, hrest⟩ := hpossible
        obtain ⟨db', hdone, hsaved⟩ := Database.saveBlocks_saved hchain.storable s.database
        have hdatabase : (s.save blocks).database = db' := by
          unfold ChainState.save
          rw [hdone]
          rfl
        have hfiled' : Filed (s.save blocks).database := hdatabase ▸ hsaved.filed hfiled
        have hagrees := agrees_save_iff hfiled hshown hchain hsaved
        rw [← hdatabase] at hagrees
        have hstep : Shows (s.save blocks).database (s.save blocks).chain ↔
            Undisturbed s.database s.chain blocks :=
          (shows_iff_agrees hfiled' hchain).trans hagrees
        unfold EverySave
        refine ⟨fun h => ⟨hstep.1 h.1, ?_⟩, fun h => ⟨hstep.2 h.1, ?_⟩⟩
        · exact (ih _ hfiled' (hagrees.2 (hstep.1 h.1)).blocks hrest).1 h.2
        · exact (ih _ hfiled' (hagrees.2 h.1).blocks hrest).2 h.2
  exact hrun .start Database.filed_empty (fun i hi => absurd hi (Nat.not_lt_zero i)) hpossible

/-! ## 7. Back to the first fork -/

namespace Sample

/-- An empty block. -/
def emptyBlock (id : String) (height : Nat) : Block :=
  ⟨{ header height 0 0 with id := some id }, []⟩

/-- Fork `A`, fork `B`, and back to `A`. -/
def refork : List ChainOp :=
  [.save [emptyBlock "genesis" 1, emptyBlock "a" 2], .revert 1, .save [emptyBlock "b" 2],
    .revert 1, .save [emptyBlock "a" 2]]

theorem refork_possible : PossibleRun refork :=
  ⟨by decide, by decide, by decide, trivial⟩

/-- Fork `A` is left for fork `B`, which goes on. -/
def leaving : List ChainOp :=
  [.save [emptyBlock "genesis" 1, emptyBlock "a" 2], .revert 1,
    .save [emptyBlock "b" 2, emptyBlock "c" 3]]

theorem leaving_possible : PossibleRun leaving := ⟨by decide, by decide, trivial⟩

/-- What a database holds, entry by entry. -/
theorem undisturbed_of_entries {db : Database} {chain blocks : List Block}
    (hstored : ∀ b ∈ blocks, ∀ e ∈ db.blockStorage.entries, blockID b = some e.1 →
      e.2 = b ∧ db.blockStorageById.get? b.data.height = some e.1)
    (hheights : ∀ e ∈ db.blockStorageById.entries, e.1 ≤ chain.length + blocks.length)
    (htransactions : ∀ e ∈ db.transactionStorage.entries,
      (chain ++ blocks).any (hasTransaction e.1) = true) : Undisturbed db chain blocks where
  stored b hb id b' hid hget := hstored b hb (id, b') (Storage.get?_eq_some_iff.1 hget) hid
  heights height hheight := by
    obtain ⟨id, hid⟩ := Option.isSome_iff_exists.1 hheight
    exact hheights (height, id) (Storage.get?_eq_some_iff.1 hid)
  transactions id hid := by
    obtain ⟨t, ht⟩ := Option.isSome_iff_exists.1 hid
    exact htransactions (id, t) (Storage.get?_eq_some_iff.1 ht)

theorem leaving_undisturbed :
    EverySave (fun s blocks => Undisturbed s.database s.chain blocks) .start leaving :=
  ⟨undisturbed_of_entries (by decide) (by decide) (by decide),
    undisturbed_of_entries (by decide) (by decide) (by decide), trivial⟩

end Sample

/-- The theorem at both runs: the first meets the condition. -/
theorem storedChain_iff_forks :
    EverySave (fun s blocks => Shows (s.save blocks).database (s.save blocks).chain) .start
        Sample.leaving ∧
      (EverySave (fun s blocks => Shows (s.save blocks).database (s.save blocks).chain) .start
          Sample.refork ↔
        EverySave (fun s blocks => Undisturbed s.database s.chain blocks) .start Sample.refork) :=
  ⟨(storedChain_iff Sample.leaving Sample.leaving_possible).2 Sample.leaving_undisturbed,
    storedChain_iff Sample.refork Sample.refork_possible⟩

/-- At the second height the database still shows the block of `B`. -/
theorem refork_not : ¬ ∀ ops, PossibleRun ops →
    EverySave (fun s blocks => Shows (s.save blocks).database (s.save blocks).chain) .start
      ops := by
  intro h
  obtain ⟨-, -, hshown, -⟩ := h Sample.refork Sample.refork_possible
  have hlast := hshown.last
  exact absurd hlast (by decide)

end CoreEx
