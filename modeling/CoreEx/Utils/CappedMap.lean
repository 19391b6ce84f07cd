/-
  File:      CoreEx/Utils/CappedMap.lean
  Subject:   `utils/source/capped-map.ts`: a map that is to hold no more than so many entries.

  * `CappedMap` -- the code: `set` drops the oldest entry before it looks at the key, and `resize`
    cuts with a negative index that may be zero;
  * `MapOperation`, `CappedMap.perform` -- the operations that change it;
  * `Allowed`, **`CappedMap.agrees_perform_iff`** -- when an operation does what the same operation
    does on a map that holds the newest entries.
-/
import CoreEx.Contracts.Exceptions
import CoreEx.Lib.BoundedMap
import CoreEx.Lib.Prog

namespace CoreEx

/-! ## 1. The code -/

/-- `CappedMap`. -/
structure CappedMap (κ ν : Type) where
  store : OrderedMap κ ν
  maxSize : Int

namespace CappedMap

variable {κ ν : Type}

/-- Code that works on such a map and may throw. -/
abbrev MapProg (κ ν : Type) : Type → Type := Prog (CappedMap κ ν) Exception

/-- `new CappedMap(maxSize)`. -/
def new (maxSize : Int) : CappedMap κ ν := ⟨OrderedMap.empty, maxSize⟩

/-- `clear()`. -/
def clear : MapProg κ ν Unit := Prog.modify fun m => { m with store := OrderedMap.empty }

/-- `entries.slice(-amount)`; `-0` is 0, from where everything is taken. -/
def sliceLast (m : OrderedMap κ ν) (amount : Nat) : OrderedMap κ ν :=
  if amount = 0 then m else m.takeLast amount

/-- `resize(maxSize)`. -/
def resize (maxSize : Int) : MapProg κ ν Unit :=
  Prog.modify fun m =>
    if maxSize < m.store.size then ⟨sliceLast m.store (max 0 maxSize).toNat, maxSize⟩
    else { m with maxSize := maxSize }

variable [DecidableEq κ]

/-- `get(key)`. -/
def get (m : CappedMap κ ν) (key : κ) : Option ν := m.store.get? key

/-- `has(key)`. -/
def has (m : CappedMap κ ν) (key : κ) : Bool := m.store.has key

/-- `this.store.delete([...this.store][0][0])`. -/
def deleteFirst : MapProg κ ν Unit :=
  ⟨fun m =>
    match m.store.first? with
    | some first => .done () { m with store := m.store.delete first.1 }
    | none => .thrown (.typeError "Cannot read properties of undefined (reading '0')") m⟩

/-- `set(key, value)`. -/
def set (key : κ) (value : ν) : MapProg κ ν Unit := do
  let size ← Prog.gets (·.store.size)
  let maxSize ← Prog.gets (·.maxSize)
  Prog.when (maxSize ≤ size) deleteFirst
  Prog.modify fun m => { m with store := m.store.set key value }

/-- `delete(key)`. -/
def delete (key : κ) : MapProg κ ν Bool := do
  let known ← Prog.gets (·.has key)
  if known = false then pure false
  else do
    Prog.modify fun m => { m with store := m.store.delete key }
    Prog.gets (! ·.has key)

end CappedMap

/-- The operations that change a map. -/
inductive MapOperation (κ ν : Type) where
  | set (key : κ) (value : ν)
  | delete (key : κ)
  | clear
  | resize (maxSize : Int)
  deriving DecidableEq, Repr

/-- What an operation does to a map that holds the newest entries; there is no room for a negative
    number of them. -/
def BoundedMap.perform {κ ν : Type} [DecidableEq κ] (m : BoundedMap κ ν) :
    MapOperation κ ν → BoundedMap κ ν
  | .set key value => m.set key value
  | .delete key => m.delete key
  | .clear => m.clear
  | .resize maxSize => m.resize maxSize.toNat

namespace CappedMap

variable {κ ν : Type}

/-- The map is one that holds the newest entries, of the same size. -/
structure Agrees (m : CappedMap κ ν) (b : BoundedMap κ ν) : Prop where
  store : m.store = b.map
  capacity : m.maxSize.toNat = b.capacity

theorem Agrees.size_le {m : CappedMap κ ν} {b : BoundedMap κ ν} (h : Agrees m b) :
    m.store.size ≤ m.maxSize.toNat := by
  rw [h.store, h.capacity]
  exact b.bounded

variable [DecidableEq κ]

/-- The map after an operation; one that throws may have changed it before. -/
def perform (m : CappedMap κ ν) : MapOperation κ ν → CappedMap κ ν
  | .set key value => ((set key value).run m).state
  | .delete key => ((delete key).run m).state
  | .clear => (clear.run m).state
  | .resize maxSize => ((resize maxSize).run m).state

/-! ## 2. What the operations do -/

/-- A key that is held is set only where there is room, or where it is the only one there is room
    for; and entries are not left without any room. -/
def Allowed (m : CappedMap κ ν) : MapOperation κ ν → Prop
  | .set key _ => m.has key = true → m.store.size < m.maxSize ∨ m.maxSize = 1
  | .delete _ => True
  | .clear => True
  | .resize maxSize => 1 ≤ maxSize ∨ m.store.size = 0

variable {m : CappedMap κ ν} {b : BoundedMap κ ν}

/-- What is not there need not be taken out. -/
theorem run_delete (key : κ) :
    ∃ gone, (delete key).run m = .done gone { m with store := m.store.delete key } := by
  have hget : (Prog.gets (·.has key) : MapProg κ ν Bool).run m = .done (m.has key) m := rfl
  unfold delete
  rw [Prog.run_bind_of_done hget]
  cases hknown : m.has key with
  | true => exact ⟨_, rfl⟩
  | false =>
    have hsame : m.store.delete key = m.store := by
      refine OrderedMap.ext_entries (List.filter_eq_self.2 fun e he => decide_eq_true ?_)
      exact OrderedMap.has_eq_false_iff.1 hknown e he
    rw [hsame]
    exact ⟨false, rfl⟩

theorem perform_delete (key : κ) :
    m.perform (.delete key) = { m with store := m.store.delete key } := by
  obtain ⟨gone, hrun⟩ := run_delete (m := m) key
  exact congrArg Outcome.state hrun

theorem run_set_of_room (hroom : m.store.size < m.maxSize) (key : κ) (value : ν) :
    (set key value).run m = .done () { m with store := m.store.set key value } := by
  have hwhen : (Prog.when (m.maxSize ≤ m.store.size) deleteFirst).run m = .done () m := by
    unfold Prog.when
    rw [if_neg (Int.not_le.2 hroom)]
    rfl
  have hsize : (Prog.gets (·.store.size) : MapProg κ ν Nat).run m = .done m.store.size m := rfl
  have hmax : (Prog.gets (·.maxSize) : MapProg κ ν Int).run m = .done m.maxSize m := rfl
  unfold set
  rw [Prog.run_bind_of_done hsize, Prog.run_bind_of_done hmax, Prog.run_bind_of_done hwhen]
  rfl

theorem run_set_of_full (hfull : m.maxSize ≤ m.store.size) {first : κ × ν}
    {rest : List (κ × ν)} (hentries : m.store.entries = first :: rest) (key : κ) (value : ν) :
    (set key value).run m =
      .done () { m with store := (m.store.delete first.1).set key value } := by
  have hfirst : m.store.first? = some first := congrArg List.head? hentries
  have hwhen : (Prog.when (m.maxSize ≤ m.store.size) deleteFirst).run m =
      .done () { m with store := m.store.delete first.1 } := by
    unfold Prog.when deleteFirst
    rw [if_pos hfull]
    dsimp only
    rw [hfirst]
  have hsize : (Prog.gets (·.store.size) : MapProg κ ν Nat).run m = .done m.store.size m := rfl
  have hmax : (Prog.gets (·.maxSize) : MapProg κ ν Int).run m = .done m.maxSize m := rfl
  unfold set
  rw [Prog.run_bind_of_done hsize, Prog.run_bind_of_done hmax, Prog.run_bind_of_done hwhen]
  rfl

/-- There is nothing to drop from an empty map. -/
theorem run_set_of_empty (hfull : m.maxSize ≤ 0) (hempty : m.store.entries = []) (key : κ)
    (value : ν) : ∃ e, (set key value).run m = .thrown e m := by
  have hfirst : m.store.first? = none := congrArg List.head? hempty
  have hcount : m.store.size = 0 := congrArg List.length hempty
  have hwhen : ∃ e, (Prog.when (m.maxSize ≤ m.store.size) deleteFirst).run m = .thrown e m := by
    have hcond : m.maxSize ≤ m.store.size := by
      rw [hcount]
      exact hfull
    unfold Prog.when deleteFirst
    rw [if_pos hcond]
    dsimp only
    rw [hfirst]
    exact ⟨_, rfl⟩
  obtain ⟨e, hwhen⟩ := hwhen
  have hsize : (Prog.gets (·.store.size) : MapProg κ ν Nat).run m = .done m.store.size m := rfl
  have hmax : (Prog.gets (·.maxSize) : MapProg κ ν Int).run m = .done m.maxSize m := rfl
  unfold set
  rw [Prog.run_bind_of_done hsize, Prog.run_bind_of_done hmax]
  exact ⟨e, Prog.run_bind_of_thrown hwhen⟩

theorem perform_set_of_room (hroom : m.store.size < m.maxSize) (key : κ) (value : ν) :
    m.perform (.set key value) = { m with store := m.store.set key value } :=
  congrArg Outcome.state (run_set_of_room hroom key value)

theorem perform_set_of_full (hfull : m.maxSize ≤ m.store.size) {first : κ × ν}
    {rest : List (κ × ν)} (hentries : m.store.entries = first :: rest) (key : κ) (value : ν) :
    m.perform (.set key value) = { m with store := (m.store.delete first.1).set key value } :=
  congrArg Outcome.state (run_set_of_full hfull hentries key value)

theorem perform_set_of_empty (hfull : m.maxSize ≤ 0) (hempty : m.store.entries = []) (key : κ)
    (value : ν) : m.perform (.set key value) = m := by
  obtain ⟨e, hrun⟩ := run_set_of_empty hfull hempty key value
  exact congrArg Outcome.state hrun

/-- A new key comes in as it should. -/
theorem Agrees.set_new (h : Agrees m b) {key : κ} (hnew : m.has key = false) (value : ν) :
    Agrees (m.perform (.set key value)) (b.perform (.set key value)) := by
  have hnew' : b.map.has key = false := by
    rw [← h.store]
    exact hnew
  have hsize := h.size_le
  by_cases hroom : (m.store.size : Int) < m.maxSize
  · rw [perform_set_of_room hroom]
    have hroom' : b.map.size < b.capacity := by
      rw [← h.store, ← h.capacity]
      omega
    refine ⟨OrderedMap.ext_entries ?_, h.capacity.trans (b.capacity_set key value).symm⟩
    show (m.store.set key value).entries = (b.set key value).map.entries
    rw [BoundedMap.entries_set_of_room hnew' hroom', OrderedMap.entries_set_of_new hnew, h.store]
  · have hfull : m.maxSize ≤ m.store.size := Int.not_lt.1 hroom
    have hfull' : b.map.size = b.capacity := by
      rw [← h.store, ← h.capacity]
      omega
    have hafter := BoundedMap.entries_set_of_full hnew' hfull' value
    cases hentries : m.store.entries with
    | nil =>
      have hcount : m.store.size = 0 := congrArg List.length hentries
      rw [perform_set_of_empty (by omega) hentries]
      refine ⟨OrderedMap.ext_entries ?_, h.capacity.trans (b.capacity_set key value).symm⟩
      rw [← h.store, hentries] at hafter
      exact hentries.trans hafter.symm
    | cons first rest =>
      rw [perform_set_of_full hfull hentries]
      refine ⟨OrderedMap.ext_entries ?_, h.capacity.trans (b.capacity_set key value).symm⟩
      have hdelete := OrderedMap.entries_delete_first hentries
      have hstill : (m.store.delete first.1).has key = false := by
        refine OrderedMap.has_eq_false_iff.2 fun e he => ?_
        rw [hdelete] at he
        refine OrderedMap.has_eq_false_iff.1 hnew e ?_
        rw [hentries]
        exact List.mem_cons_of_mem _ he
      show ((m.store.delete first.1).set key value).entries = (b.set key value).map.entries
      rw [hafter, OrderedMap.entries_set_of_new hstill, hdelete, ← h.store, hentries]
      rfl

/-- A key that is held is set as it should be where there is room. -/
theorem Agrees.set_room (h : Agrees m b) {key : κ} (hheld : m.has key = true)
    (hroom : (m.store.size : Int) < m.maxSize) (value : ν) :
    Agrees (m.perform (.set key value)) (b.perform (.set key value)) := by
  have hheld' : b.map.has key = true := by
    rw [← h.store]
    exact hheld
  rw [perform_set_of_room hroom]
  refine ⟨?_, ?_⟩
  · show m.store.set key value = (b.set key value).map
    rw [BoundedMap.set_of_held hheld', h.store]
  · exact h.capacity.trans (b.capacity_set key value).symm

/-- Where there is none, only the one key there is room for is set as it should be. -/
theorem Agrees.set_full (h : Agrees m b) {key : κ} (hheld : m.has key = true)
    (hfull : m.maxSize ≤ m.store.size) (value : ν) :
    Agrees (m.perform (.set key value)) (b.perform (.set key value)) ↔ m.maxSize = 1 := by
  have hheld' : b.map.has key = true := by
    rw [← h.store]
    exact hheld
  have hsize := h.size_le
  have hkeys : (b.set key value).map.keys = m.store.keys := by
    rw [BoundedMap.set_of_held hheld', OrderedMap.keys_set, if_pos (OrderedMap.mem_keys.2 hheld'),
      h.store]
  cases hentries : m.store.entries with
  | nil =>
    have hmem := OrderedMap.mem_keys.2 hheld
    unfold OrderedMap.keys at hmem
    rw [hentries] at hmem
    cases hmem
  | cons first rest =>
    have hcount : m.store.size = rest.length + 1 := by
      unfold OrderedMap.size
      rw [hentries, List.length_cons]
    have hdelete := OrderedMap.entries_delete_first hentries
    rw [perform_set_of_full hfull hentries]
    refine ⟨fun hagrees => ?_, fun hone => ?_⟩
    · have hkeys' : ((m.store.delete first.1).set key value).keys = first.1 :: rest.map Prod.fst := by
        have hstore : (m.store.delete first.1).set key value = (b.set key value).map := hagrees.store
        rw [hstore, hkeys]
        unfold OrderedMap.keys
        rw [hentries, List.map_cons]
      have hrest : (m.store.delete first.1).keys = rest.map Prod.fst := by
        unfold OrderedMap.keys
        rw [hdelete]
      have hnodup : (first.1 :: rest.map Prod.fst).Nodup :=
        hkeys' ▸ OrderedMap.keys_nodup _
      rw [OrderedMap.keys_set, hrest] at hkeys'
      split at hkeys'
      · have hlength := congrArg List.length hkeys'
        rw [List.length_cons] at hlength
        omega
      · -- the first of the others cannot be in front of them once more
        cases rest with
        | nil =>
          have hone : m.store.size = 1 := hcount
          omega
        | cons second rest =>
          have hsame : second.1 = first.1 := (List.cons.inj hkeys').1
          exact absurd (hsame ▸ List.mem_cons_self) (List.nodup_cons.1 hnodup).1
    · have hnil : rest = [] := List.eq_nil_of_length_eq_zero (by omega)
      subst hnil
      have hkey : first.1 = key := by
        have hmem := OrderedMap.mem_keys.2 hheld
        unfold OrderedMap.keys at hmem
        rw [hentries] at hmem
        exact (List.mem_singleton.1 hmem).symm
      refine ⟨OrderedMap.ext_entries ?_, h.capacity.trans (b.capacity_set key value).symm⟩
      show OrderedMap.setEntries key value (m.store.delete first.1).entries =
        (b.set key value).map.entries
      rw [BoundedMap.set_of_held hheld', hdelete]
      show _ = OrderedMap.setEntries key value b.map.entries
      rw [← h.store, hentries]
      unfold OrderedMap.setEntries
      rw [if_pos hkey]

/-- Cutting to the newest entries leaves none where there is room for none. -/
theorem agrees_resize_iff (h : Agrees m b) (maxSize : Int) :
    Agrees (m.perform (.resize maxSize)) (b.perform (.resize maxSize)) ↔
      1 ≤ maxSize ∨ m.store.size = 0 := by
  have hrun : m.perform (.resize maxSize) =
      if maxSize < m.store.size then ⟨sliceLast m.store (max 0 maxSize).toNat, maxSize⟩
      else { m with maxSize := maxSize } := rfl
  have hnewest : (b.perform (.resize maxSize)).map = m.store.takeLast maxSize.toNat := by
    rw [h.store]
    rfl
  have htonat : (max 0 maxSize).toNat = maxSize.toNat := by omega
  rw [hrun]
  by_cases hcut : maxSize < m.store.size
  · rw [if_pos hcut, htonat]
    unfold sliceLast
    by_cases hzero : maxSize.toNat = 0
    · rw [if_pos hzero]
      refine ⟨fun hagrees => Or.inr ?_, fun hallowed => ⟨?_, rfl⟩⟩
      · have hkept : m.store.size ≤ maxSize.toNat := hagrees.size_le
        omega
      · have hempty : m.store.size = 0 := hallowed.resolve_left (by omega)
        have hfits : m.store.entries.length ≤ maxSize.toNat := by
          unfold OrderedMap.size at hempty
          omega
        exact (hnewest.trans (OrderedMap.ext_entries (Recent.rtake_of_length_le hfits))).symm
    · rw [if_neg hzero]
      exact ⟨fun _ => Or.inl (by omega), fun _ => ⟨hnewest.symm, rfl⟩⟩
  · rw [if_neg hcut]
    have hall : m.store.takeLast maxSize.toNat = m.store := by
      refine OrderedMap.ext_entries (Recent.rtake_of_length_le ?_)
      have hfits : m.store.size ≤ maxSize.toNat := by omega
      exact hfits
    exact ⟨fun _ => by omega, fun _ => ⟨(hnewest.trans hall).symm, rfl⟩⟩

/-- **An operation does what it should where it is allowed**, and only there. -/
theorem agrees_perform_iff (h : Agrees m b) (op : MapOperation κ ν) :
    Agrees (m.perform op) (b.perform op) ↔ m.Allowed op := by
  cases op with
  | set key value =>
    cases hheld : m.has key with
    | false =>
      exact ⟨fun _ hheld' => (nomatch hheld.symm.trans hheld'), fun _ => h.set_new hheld value⟩
    | true =>
      by_cases hroom : (m.store.size : Int) < m.maxSize
      · exact ⟨fun _ _ => Or.inl hroom, fun _ => h.set_room hheld hroom value⟩
      · have hfull := h.set_full hheld (Int.not_lt.1 hroom) value
        exact ⟨fun hagrees _ => Or.inr (hfull.1 hagrees),
          fun hallowed => hfull.2 ((hallowed hheld).resolve_left hroom)⟩
  | delete key =>
    refine ⟨fun _ => trivial, fun _ => ?_⟩
    rw [perform_delete]
    exact ⟨congrArg (OrderedMap.delete · key) h.store, h.capacity⟩
  | clear => exact ⟨fun _ => trivial, fun _ => ⟨rfl, h.capacity⟩⟩
  | resize maxSize => exact agrees_resize_iff h maxSize

end CappedMap

end CoreEx
