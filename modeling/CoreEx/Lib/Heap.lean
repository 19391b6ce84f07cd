/-
  File:      CoreEx/Lib/Heap.lean
  Subject:   Objects that refer to each other, who may change which of them, and copies.

  An object is a place in a list. Code that starts from some of the objects reaches those they refer
  to and no others; so what it changes does not concern code that starts from other objects, as long
  as nobody hands a reference over. Nothing here names the system under verification.

  * `Slot`, `HeapObject`, `Heap` -- a property, an object, all objects; `assign`, `remove`;
  * `follow` -- what a path of property names leads to;
  * `Closed` -- a set of objects that refer to each other only; **`follow_same`** -- what is read from
    them depends on nothing else;
  * `Confined` -- a change made from a set of objects; it composes, and **`Confined.frame_closed`**
    leaves every other set as it is;
  * `Copied` -- a copy of all that an object leads to; **`Copied.follow`** -- what is read from it.
-/
import CoreEx.Lib.OrderedMap

namespace CoreEx

/-- What a property holds: a primitive, or a reference. -/
inductive Slot (P : Type)
  | prim (p : P)
  | ref (a : Nat)
  deriving DecidableEq

/-- An object: what it is, and its properties. -/
structure HeapObject (C P : Type) where
  kind : C
  props : OrderedMap String (Slot P)

/-- All objects. -/
abbrev Heap (C P : Type) : Type := List (HeapObject C P)

namespace Slot

variable {P : Type}

/-- The slot leads to no object outside a set. -/
def In (S : Nat → Prop) : Slot P → Prop
  | prim _ => True
  | ref a => S a

instance (S : Nat → Prop) [DecidablePred S] : (v : Slot P) → Decidable (v.In S)
  | prim _ => .isTrue trivial
  | ref a => inferInstanceAs (Decidable (S a))

/-- The same slot, with its reference renamed. -/
def map (f : Nat → Nat) : Slot P → Slot P
  | prim p => prim p
  | ref a => ref (f a)

theorem In.mono {S T : Nat → Prop} {v : Slot P} (h : v.In S) (hST : ∀ a, S a → T a) : v.In T := by
  cases v with
  | prim p => trivial
  | ref a => exact hST a h

end Slot

namespace Heap

variable {C P : Type} {h h' h'' : Heap C P} {S S' S'' T : Nat → Prop} {a b : Nat} {key : String}
  {v : Slot P} {path : List String}

/-! ## 1. Objects and paths -/

/-- `object[key]`. -/
def property (h : Heap C P) (a : Nat) (key : String) : Option (Slot P) :=
  h[a]?.bind fun o => o.props.get? key

/-- `object[key] = v`. -/
def assign (h : Heap C P) (a : Nat) (key : String) (v : Slot P) : Heap C P :=
  h.modify a fun o => { o with props := o.props.set key v }

/-- `delete object[key]`. -/
def remove (h : Heap C P) (a : Nat) (key : String) : Heap C P :=
  h.modify a fun o => { o with props := o.props.delete key }

/-- A new object with no properties; its place is the length of the list. -/
def create (h : Heap C P) (kind : C) : Heap C P := h ++ [⟨kind, .empty⟩]

/-- `v.key₁.key₂…`, while there is something to read. -/
def follow (h : Heap C P) : Slot P → List String → Option (Slot P)
  | v, [] => some v
  | .prim _, _ :: _ => none
  | .ref a, key :: path => (h.property a key).bind (h.follow · path)

theorem follow_cons (h : Heap C P) (a : Nat) (key : String) (path : List String) :
    h.follow (.ref a) (key :: path) = (h.property a key).bind (h.follow · path) := rfl

theorem follow_append (v : Slot P) (path path' : List String) :
    h.follow v (path ++ path') = (h.follow v path).bind (h.follow · path') := by
  induction path generalizing v with
  | nil => rfl
  | cons key path ih =>
    cases v with
    | prim p => rfl
    | ref a =>
      rw [List.cons_append, follow_cons, follow_cons, Option.bind_assoc]
      exact congrArg _ (funext fun w => ih w)

/-! ## 2. Sets of objects -/

/-- The objects of a set are there, and refer to each other only. -/
structure Closed (h : Heap C P) (S : Nat → Prop) : Prop where
  lt : ∀ a, S a → a < h.length
  inside : ∀ a key v, S a → h.property a key = some v → v.In S

/-- The objects of a set are the same. -/
def Same (S : Nat → Prop) (h h' : Heap C P) : Prop := ∀ a, S a → h'[a]? = h[a]?

theorem Same.property (hsame : Same S h h') (ha : S a) : h'.property a key = h.property a key := by
  unfold Heap.property
  rw [hsame a ha]

/-- A path does not leave the set. -/
theorem Closed.follow (hS : h.Closed S) (hv : v.In S) (path : List String) :
    ∀ w, h.follow v path = some w → w.In S := by
  induction path generalizing v with
  | nil =>
    intro w hw
    obtain rfl : v = w := Option.some.inj hw
    exact hv
  | cons key path ih =>
    intro w hw
    cases v with
    | prim p => cases hw
    | ref a =>
      rw [follow_cons] at hw
      obtain ⟨x, hx, hrest⟩ := Option.bind_eq_some_iff.1 hw
      exact ih (hS.inside a key x hv hx) w hrest

/-- **What is read from a closed set** depends on the objects of the set. -/
theorem follow_same (hS : h.Closed S) (hsame : Same S h h') (hv : v.In S) (path : List String) :
    h'.follow v path = h.follow v path := by
  induction path generalizing v with
  | nil => rfl
  | cons key path ih =>
    cases v with
    | prim p => rfl
    | ref a =>
      rw [follow_cons, follow_cons, hsame.property hv]
      cases hx : h.property a key with
      | none => rfl
      | some x => exact ih (hS.inside a key x hv hx)

/-- All objects, where no slot leads elsewhere. -/
theorem closed_all (hall : ∀ o ∈ h, ∀ e ∈ o.props.entries, e.2.In (· < h.length)) :
    h.Closed (· < h.length) := by
  refine ⟨fun a ha => ha, fun a key v _ hv => ?_⟩
  obtain ⟨o, ho, hget⟩ := Option.bind_eq_some_iff.1 hv
  exact hall o (List.mem_of_getElem? ho) (key, v) (OrderedMap.mem_entries.2 hget)

theorem Closed.same (hS : h.Closed S) (hsame : Same S h h') (hlen : h.length ≤ h'.length) :
    h'.Closed S := by
  refine ⟨fun a ha => Nat.lt_of_lt_of_le (hS.lt a ha) hlen, fun a key v ha hv => ?_⟩
  rw [hsame.property ha] at hv
  exact hS.inside a key v ha hv

/-! ## 3. Changes -/

theorem getElem?_assign (h : Heap C P) (a : Nat) (key : String) (v : Slot P) (b : Nat) :
    (h.assign a key v)[b]? =
      if a = b then h[b]?.map fun o => { o with props := o.props.set key v } else h[b]? := by
  unfold assign
  rw [List.getElem?_modify]
  split
  · rfl
  · rw [id_map']

theorem getElem?_remove (h : Heap C P) (a : Nat) (key : String) (b : Nat) :
    (h.remove a key)[b]? =
      if a = b then h[b]?.map fun o => { o with props := o.props.delete key } else h[b]? := by
  unfold remove
  rw [List.getElem?_modify]
  split
  · rfl
  · rw [id_map']

/-- A change that is made from one set of objects: it leaves all other objects, and the set grows by
    new objects only. -/
structure Confined (h : Heap C P) (S : Nat → Prop) (h' : Heap C P) (S' : Nat → Prop) : Prop where
  closed : h'.Closed S'
  grows : ∀ a, S a → S' a
  fresh : ∀ a, S' a → S a ∨ h.length ≤ a
  frame : ∀ a, a < h.length → ¬S a → h'[a]? = h[a]?
  length : h.length ≤ h'.length

theorem Confined.refl (hS : h.Closed S) : Confined h S h S :=
  ⟨hS, fun _ ha => ha, fun _ ha => .inl ha, fun _ _ _ => rfl, Nat.le_refl _⟩

theorem Confined.trans (h₁ : Confined h S h' S') (h₂ : Confined h' S' h'' S'') :
    Confined h S h'' S'' := by
  refine ⟨h₂.closed, fun a ha => h₂.grows a (h₁.grows a ha), fun a ha => ?_, fun a ha hout => ?_,
    Nat.le_trans h₁.length h₂.length⟩
  · rcases h₂.fresh a ha with ha' | hle
    · exact h₁.fresh a ha'
    · exact .inr (Nat.le_trans h₁.length hle)
  · have hout' : ¬S' a := by
      intro hin
      rcases h₁.fresh a hin with hS | hle
      · exact hout hS
      · exact absurd ha (Nat.not_lt.2 hle)
    rw [h₂.frame a (Nat.lt_of_lt_of_le ha h₁.length) hout', h₁.frame a ha hout]

/-- **A change from one set** does not concern another. -/
theorem Confined.frame_closed (hc : Confined h S h' S') (hT : h.Closed T)
    (hdisjoint : ∀ a, T a → ¬S a) : h'.Closed T ∧ Same T h h' ∧ ∀ a, T a → ¬S' a := by
  have hsame : Same T h h' := fun a ha => hc.frame a (hT.lt a ha) (hdisjoint a ha)
  refine ⟨hT.same hsame hc.length, hsame, fun a ha hin => ?_⟩
  rcases hc.fresh a hin with hS | hle
  · exact hdisjoint a ha hS
  · exact absurd (hT.lt a ha) (Nat.not_lt.2 hle)

theorem confined_assign (hS : h.Closed S) (ha : S a) (hv : v.In S) :
    Confined h S (h.assign a key v) S := by
  have hlength : (h.assign a key v).length = h.length := List.length_modify ..
  refine ⟨⟨fun b hb => hlength ▸ hS.lt b hb, fun b key' w hb hw => ?_⟩, fun _ hb => hb,
    fun _ hb => .inl hb, fun b _ hb => ?_, Nat.le_of_eq hlength.symm⟩
  · unfold property at hw
    rw [getElem?_assign] at hw
    split at hw
    · rename_i hab
      obtain ⟨o, ho, hget⟩ := Option.bind_eq_some_iff.1 hw
      obtain ⟨o', ho', rfl⟩ := Option.map_eq_some_iff.1 ho
      have hset : (o'.props.set key v).get? key' = some w := hget
      rw [OrderedMap.get?_set] at hset
      split at hset
      · obtain rfl : v = w := Option.some.inj hset
        exact hv
      · refine hS.inside b key' w hb ?_
        unfold property
        rw [ho']
        exact hset
    · exact hS.inside b key' w hb hw
  · rw [getElem?_assign, if_neg]
    intro hab
    exact hb (hab ▸ ha)

theorem confined_remove (hS : h.Closed S) (ha : S a) : Confined h S (h.remove a key) S := by
  have hlength : (h.remove a key).length = h.length := List.length_modify ..
  refine ⟨⟨fun b hb => hlength ▸ hS.lt b hb, fun b key' w hb hw => ?_⟩, fun _ hb => hb,
    fun _ hb => .inl hb, fun b _ hb => ?_, Nat.le_of_eq hlength.symm⟩
  · unfold property at hw
    rw [getElem?_remove] at hw
    split at hw
    · obtain ⟨o, ho, hget⟩ := Option.bind_eq_some_iff.1 hw
      obtain ⟨o', ho', rfl⟩ := Option.map_eq_some_iff.1 ho
      have hdelete : (o'.props.delete key).get? key' = some w := hget
      rw [OrderedMap.get?_delete] at hdelete
      split at hdelete
      · cases hdelete
      · refine hS.inside b key' w hb ?_
        unfold property
        rw [ho']
        exact hdelete
    · exact hS.inside b key' w hb hw
  · rw [getElem?_remove, if_neg]
    intro hab
    exact hb (hab ▸ ha)

theorem property_create (kind : C) (ha : a < h.length) :
    (h.create kind).property a key = h.property a key := by
  unfold property create
  rw [List.getElem?_append_left ha]

theorem property_created (h : Heap C P) (kind : C) (key : String) :
    (h.create kind).property h.length key = none := by
  unfold property create
  rw [List.getElem?_append_right (Nat.le_refl _), Nat.sub_self]
  rfl

theorem confined_create (hS : h.Closed S) (kind : C) :
    Confined h S (h.create kind) fun a => S a ∨ a = h.length := by
  have hlength : (h.create kind).length = h.length + 1 := List.length_append
  refine ⟨⟨fun b hb => ?_, fun b key' w hb hw => ?_⟩, fun _ hb => .inl hb, fun b hb => ?_,
    fun b hb _ => List.getElem?_append_left hb, by omega⟩
  · rcases hb with hb | rfl
    · exact hlength ▸ Nat.lt_succ_of_lt (hS.lt b hb)
    · omega
  · rcases hb with hb | rfl
    · rw [property_create kind (hS.lt b hb)] at hw
      exact (hS.inside b key' w hb hw).mono fun _ => .inl
    · rw [property_created] at hw
      cases hw
  · rcases hb with hb | rfl
    · exact .inl hb
    · exact .inr (Nat.le_refl _)

/-! ## 4. Copies -/

/-- What a copy makes of an object: `f` of what it is, and the properties with their references
    renamed. -/
def copyObject (f : C → C) (twin : Nat → Nat) (o : HeapObject C P) : HeapObject C P :=
  ⟨f o.kind, o.props.mapValues (Slot.map twin)⟩

/-- The place `b` of `h'` is a copy of all that the place `a` of `h` leads to: every object has its
    copy at a new place, and what was there stays. -/
structure Copied (f : C → C) (h : Heap C P) (a : Nat) (h' : Heap C P) (b : Nat)
    (twin : Nat → Nat) : Prop where
  root : b = twin a
  kept : ∀ c, c < h.length → h'[c]? = h[c]?
  fresh : ∀ c path, h.follow (.ref a) path = some (.ref c) → h.length ≤ twin c
  copied : ∀ c path o, h.follow (.ref a) path = some (.ref c) → h[c]? = some o →
    h'[twin c]? = some (copyObject f twin o)

variable {f : C → C} {twin : Nat → Nat}

theorem property_copy {c : Nat} {path : List String} (hcopy : Copied f h a h' b twin)
    (hc : h.follow (.ref a) path = some (.ref c)) (hlt : c < h.length) (key : String) :
    h'.property (twin c) key = (h.property c key).map (Slot.map twin) := by
  unfold property
  rw [hcopy.copied c path h[c] hc (List.getElem?_eq_getElem hlt), List.getElem?_eq_getElem hlt]
  exact OrderedMap.get?_mapValues _ _ _

/-- **What is read from a copy.** -/
theorem Copied.follow (hcopy : Copied f h a h' b twin) (hS : h.Closed S) (ha : S a)
    (path : List String) :
    h'.follow (.ref b) path = (h.follow (.ref a) path).map (Slot.map twin) := by
  have hin : (Slot.ref a : Slot P).In S := ha
  -- from any place that the path has led to so far
  have hrest : ∀ (rest front : List String) (w : Slot P), h.follow (.ref a) front = some w →
      h'.follow (w.map twin) rest = (h.follow w rest).map (Slot.map twin) := by
    intro rest
    induction rest with
    | nil => exact fun front w _ => rfl
    | cons key rest ih =>
      intro front w hw
      cases w with
      | prim p => rfl
      | ref c =>
        have hlt : c < h.length := hS.lt c (hS.follow hin front _ hw)
        show (h'.property (twin c) key).bind (h'.follow · rest) = _
        rw [property_copy hcopy hw hlt, follow_cons]
        cases hx : h.property c key with
        | none => rfl
        | some x =>
          refine ih (front ++ [key]) x ?_
          rw [follow_append, hw]
          show (h.property c key).bind (h.follow · []) = _
          rw [hx]
          rfl
  have hroot := hrest path [] (.ref a) rfl
  rw [hcopy.root]
  exact hroot

/-- The objects of a copy refer to each other only. -/
theorem Copied.closed (hcopy : Copied f h a h' b twin) (hS : h.Closed S) (ha : S a) :
    h'.Closed fun c => ∃ path, h'.follow (.ref b) path = some (.ref c) := by
  have hin : (Slot.ref a : Slot P).In S := ha
  -- a place that is reached is the copy of one that is reached
  have hsource : ∀ c path, h'.follow (.ref b) path = some (.ref c) →
      ∃ d, h.follow (.ref a) path = some (.ref d) ∧ c = twin d := by
    intro c path hc
    rw [hcopy.follow hS ha] at hc
    obtain ⟨w, hw, hmap⟩ := Option.map_eq_some_iff.1 hc
    cases w with
    | prim p => cases hmap
    | ref d => exact ⟨d, hw, (Slot.ref.inj hmap).symm⟩
  refine ⟨fun c hc => ?_, fun c key v hc hv => ?_⟩
  · obtain ⟨path, hpath⟩ := hc
    obtain ⟨d, hd, rfl⟩ := hsource c path hpath
    have hlt : d < h.length := hS.lt d (hS.follow hin path _ hd)
    have hget := hcopy.copied d path h[d] hd (List.getElem?_eq_getElem hlt)
    exact (List.getElem?_eq_some_iff.1 hget).1
  · obtain ⟨path, hpath⟩ := hc
    cases v with
    | prim p => trivial
    | ref d =>
      refine ⟨path ++ [key], ?_⟩
      rw [follow_append, hpath]
      show (h'.property c key).bind (h'.follow · []) = _
      rw [hv]
      rfl

end Heap

end CoreEx
