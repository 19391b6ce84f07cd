/-
  File:      CoreEx/Lib/BoundedMap.lean
  Subject:   Maps that hold the keys that came in last, and never more than so many.

  A new key goes to the end, and the oldest keys give way where there is no room. A key that is held
  keeps its place and gets the new value: nothing gives way to it. A smaller size leaves the newest
  entries. The bound is part of the map.

  * `BoundedMap` -- the map, with `set`, `delete`, `clear`, `resize`;
  * **`entries_set_of_room`**, **`entries_set_of_full`** -- a new key comes last, and the oldest
    gives way where there is no room.
-/
import CoreEx.Lib.OrderedMap
import CoreEx.Lib.Recent

namespace CoreEx

/-- A map with room for `capacity` entries. -/
structure BoundedMap (κ ν : Type) where
  capacity : Nat
  map : OrderedMap κ ν
  bounded : map.size ≤ capacity

namespace BoundedMap

variable {κ ν : Type}

/-- The map without entries. -/
def empty (capacity : Nat) : BoundedMap κ ν := ⟨capacity, OrderedMap.empty, Nat.zero_le _⟩

theorem size_takeLast_le (m : OrderedMap κ ν) (n : Nat) : (m.takeLast n).size ≤ n := by
  unfold OrderedMap.takeLast OrderedMap.size
  rw [Recent.length_rtake]
  exact Nat.min_le_left _ _

/-- Another size: the newest entries that fit. -/
def resize (m : BoundedMap κ ν) (capacity : Nat) : BoundedMap κ ν :=
  ⟨capacity, m.map.takeLast capacity, size_takeLast_le _ _⟩

/-- No entry any more. -/
def clear (m : BoundedMap κ ν) : BoundedMap κ ν := empty m.capacity

theorem size_filter_le (m : OrderedMap κ ν) (p : κ → ν → Bool) : (m.filter p).size ≤ m.size :=
  List.length_filter_le _ _

variable [DecidableEq κ]

/-- A held key gets its value in place, a new one comes in at the end. -/
def set (m : BoundedMap κ ν) (k : κ) (v : ν) : BoundedMap κ ν :=
  if h : m.map.has k = true then
    ⟨m.capacity, m.map.set k v, (OrderedMap.size_set_of_has h v).trans_le m.bounded⟩
  else ⟨m.capacity, (m.map.set k v).takeLast m.capacity, size_takeLast_le _ _⟩

/-- Take a key out. -/
def delete (m : BoundedMap κ ν) (k : κ) : BoundedMap κ ν :=
  ⟨m.capacity, m.map.delete k, (size_filter_le _ _).trans m.bounded⟩

variable {m : BoundedMap κ ν} {k : κ}

theorem set_of_held (h : m.map.has k = true) (v : ν) :
    m.set k v = ⟨m.capacity, m.map.set k v, (OrderedMap.size_set_of_has h v).trans_le m.bounded⟩ :=
  dif_pos h

theorem set_of_new (h : m.map.has k = false) (v : ν) :
    m.set k v = ⟨m.capacity, (m.map.set k v).takeLast m.capacity, size_takeLast_le _ _⟩ :=
  dif_neg (by rw [h]; exact Bool.false_ne_true)

@[simp] theorem capacity_set (m : BoundedMap κ ν) (k : κ) (v : ν) :
    (m.set k v).capacity = m.capacity := by
  unfold set
  split <;> rfl

/-- Where there is room, a new key drives none out. -/
theorem entries_set_of_room (h : m.map.has k = false) (hroom : m.map.size < m.capacity) (v : ν) :
    (m.set k v).map.entries = m.map.entries ++ [(k, v)] := by
  have hentries := OrderedMap.entries_set_of_new h v
  rw [set_of_new h]
  show (m.map.set k v).entries.rtake m.capacity = _
  rw [hentries, Recent.rtake_of_length_le]
  rw [List.length_append]
  exact hroom

/-- Where there is no room, the oldest key gives way to a new one. -/
theorem entries_set_of_full (h : m.map.has k = false) (hfull : m.map.size = m.capacity) (v : ν) :
    (m.set k v).map.entries = (m.map.entries ++ [(k, v)]).tail := by
  have hentries := OrderedMap.entries_set_of_new h v
  rw [set_of_new h]
  show (m.map.set k v).entries.rtake m.capacity = _
  have hlength : (m.map.entries ++ [(k, v)]).length - m.capacity = 1 := by
    rw [List.length_append, ← hfull]
    unfold OrderedMap.size
    exact Nat.add_sub_cancel_left _ _
  rw [hentries]
  unfold List.rtake
  rw [hlength, List.drop_one]

end BoundedMap

end CoreEx
