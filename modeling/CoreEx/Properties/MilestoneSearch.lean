/-
  File:      CoreEx/Properties/MilestoneSearch.lean
  Subject:   What the look-ups of the configuration return, whatever was looked up before.

  `getMilestone` returns all milestones up to the height, merged. `getNextMilestoneWithNewKey`
  compares with `!==`, and merging copies objects: a milestone that says nothing of an object-valued
  key counts as one with a new value.

  * `mergeUpTo`, `inForce_mergeUpTo` -- the merge, and that it is in force;
  * `ConfigurationCall`, `Reached` -- calls in any order;
  * `newHeights`, `IsNextChange` -- what the search should find;
  * `IsCopy`, `NoCopyBefore`, `isNextChange_newKey_iff` -- when it does;
  * `newKey_ascends` -- what it finds is above;
  * **`milestoneSearch`** -- all this after any calls;
  * **`copiedBlock_not`** -- a milestone that only changes the reward.
-/
import CoreEx.Crypto.MilestoneCursor
import Mathlib.Order.Bounds.Basic
import Mathlib.Data.Finset.Dedup
import Mathlib.Data.Finset.Order

namespace CoreEx

open ConfigurationState

/-! ## 1. The merge -/

/-- All milestones up to the height, each merged into the ones before. -/
def mergeUpTo (env : ConfigurationServices) (listed : List MilestoneData) (height : Nat) :
    Option MilestoneData :=
  match (sorted listed).filter (·.height ≤ height) with
  | [] => none
  | first :: later => some (later.foldl env.deepmerge first)

/-- The milestone of height 1 comes first. -/
def BeginsAtOne (listed : List MilestoneData) : Prop :=
  ∃ first, (sorted listed).head? = some first ∧ first.height = 1

section Merge

variable {env : ConfigurationServices}

theorem scanl_heights (later : List MilestoneData) : ∀ first : MilestoneData,
    (later.scanl env.deepmerge first).map (·.height) = first.height :: later.map (·.height) := by
  induction later with
  | nil => exact fun _ => rfl
  | cons next later ih =>
    intro first
    rw [List.scanl_cons, List.map_cons, ih, env.deepmerge_height]
    rfl

/-- Merging leaves the order of the milestones. -/
theorem pairwise_scanl {first : MilestoneData} {later : List MilestoneData}
    (h : (first :: later).Pairwise (·.height ≤ ·.height)) :
    (later.scanl env.deepmerge first).Pairwise (·.height ≤ ·.height) := by
  have hmap : ((later.scanl env.deepmerge first).map (·.height)).Pairwise (· ≤ ·) := by
    rw [scanl_heights]
    exact List.pairwise_map.2 h
  exact List.pairwise_map.1 hmap

/-- The merge of what has begun is in force among the merged milestones. -/
theorem inForce_scanl {height : Nat} (later : List MilestoneData) : ∀ first : MilestoneData,
    (first :: later).Pairwise (·.height ≤ ·.height) → first.height ≤ height →
      Timeline.InForce MilestoneData.height (later.scanl env.deepmerge first) height
        ((later.filter (·.height ≤ height)).foldl env.deepmerge first) := by
  induction later with
  | nil => exact fun first _ hfirst => ⟨[], [], rfl, hfirst, fun _ h => nomatch h⟩
  | cons next later ih =>
    intro first hsorted hfirst
    have htail := (List.pairwise_cons.1 hsorted).2
    rw [List.scanl_cons]
    by_cases hnext : next.height ≤ height
    · rw [List.filter_cons_of_pos (by simpa using hnext), List.foldl_cons]
      have hmerged : (env.deepmerge first next :: later).Pairwise (·.height ≤ ·.height) := by
        refine List.pairwise_cons.2 ⟨fun m hm => ?_, (List.pairwise_cons.1 htail).2⟩
        rw [env.deepmerge_height]
        exact (List.pairwise_cons.1 htail).1 m hm
      obtain ⟨before, after, hsplit, hbegun, hlater⟩ := ih (env.deepmerge first next) hmerged
        ((env.deepmerge_height _ _).trans_le hnext)
      exact ⟨first :: before, after, by rw [hsplit]; rfl, hbegun, hlater⟩
    · -- nothing from here on has begun
      have hnone : (next :: later).filter (·.height ≤ height) = [] := by
        refine List.filter_eq_nil_iff.2 fun m hm => ?_
        rcases List.mem_cons.1 hm with rfl | hm
        · simpa using hnext
        · have := (List.pairwise_cons.1 htail).1 m hm
          simp only [decide_eq_true_eq]
          omega
      rw [hnone]
      refine ⟨[], _, rfl, hfirst, fun m hm => ?_⟩
      have hheight : m.height ∈ (next :: later).map (·.height) := by
        have h := List.mem_map_of_mem (f := (·.height)) hm
        rw [scanl_heights, env.deepmerge_height] at h
        exact h
      obtain ⟨m', hm', heq⟩ := List.mem_map.1 hheight
      rcases List.mem_cons.1 hm' with rfl | hm'
      · omega
      · have := (List.pairwise_cons.1 htail).1 m' hm'
        omega

variable {listed : List MilestoneData}

theorem pairwise_sorted (listed : List MilestoneData) :
    (sorted listed).Pairwise (·.height ≤ ·.height) := List.pairwise_insertionSort _ _

/-- The merged milestones are in order. -/
theorem milestonesInOrder_merged (h : BeginsAtOne listed) :
    MilestonesInOrder (merged env (sorted listed)) := by
  obtain ⟨first, hfirst, hone⟩ := h
  have hsorted := pairwise_sorted listed
  cases hlist : sorted listed with
  | nil =>
    rw [hlist] at hfirst
    cases hfirst
  | cons first' later =>
    rw [hlist] at hfirst hsorted
    obtain rfl := Option.some.inj hfirst
    refine ⟨pairwise_scanl hsorted, first', ?_, hone⟩
    show (later.scanl env.deepmerge first')[0]? = _
    exact List.getElem?_scanl_zero

/-- **The merge of all milestones up to a height is the milestone in force there.** -/
theorem inForce_mergeUpTo (h : BeginsAtOne listed) {height : Nat} (hheight : 1 ≤ height) :
    ∃ m, mergeUpTo env listed height = some m ∧
      Timeline.InForce MilestoneData.height (merged env (sorted listed)) height m := by
  obtain ⟨first, hfirst, hone⟩ := h
  have hsorted := pairwise_sorted listed
  unfold mergeUpTo
  cases hlist : sorted listed with
  | nil =>
    rw [hlist] at hfirst
    cases hfirst
  | cons first' later =>
    rw [hlist] at hfirst hsorted
    obtain rfl := Option.some.inj hfirst
    rw [List.filter_cons_of_pos (by simpa using hone.trans_le hheight)]
    exact ⟨_, rfl, inForce_scanl later first' hsorted (hone.trans_le hheight)⟩

/-- The state after `setConfig`. -/
theorem built_buildConstants (h : BeginsAtOne listed) (s : ConfigurationState) :
    Built (merged env (sorted listed)) (ConfigurationState.buildConstants env listed s) := by
  obtain ⟨first, hfirst, -⟩ := h
  refine ⟨rfl, _, 0, first, rfl, rfl, ?_, hfirst⟩
  cases hlist : sorted listed with
  | nil =>
    rw [hlist] at hfirst
    cases hfirst
  | cons first' later =>
    rw [hlist] at hfirst
    obtain rfl := Option.some.inj hfirst
    exact List.getElem?_scanl_zero

end Merge

/-! ## 2. Calls -/

/-- A call with the heights it names. -/
inductive ConfigurationCall where
  | getMilestone (height : Nat)
  | getNextMilestoneWithNewKey (previousMilestone : Nat) (key : String)
  | setHeight (value : Nat)

/-- The height of a call. -/
def ConfigurationCall.height : ConfigurationCall → Nat
  | getMilestone height => height
  | getNextMilestoneWithNewKey previousMilestone _ => previousMilestone
  | setHeight value => value

/-- A call, whatever it returns. -/
def ConfigurationCall.perform : ConfigurationCall → ConfigurationProg Unit
  | getMilestone height => do
    let _ ← ConfigurationState.getMilestone height
    pure ()
  | getNextMilestoneWithNewKey previousMilestone key => do
    let _ ← ConfigurationState.getNextMilestoneWithNewKey previousMilestone key
    pure ()
  | setHeight value => ConfigurationState.setHeight value

/-- The states of a configuration after calls with heights from 1 on, none of which throws. -/
def Reached (env : ConfigurationServices) (listed : List MilestoneData)
    (s : ConfigurationState) : Prop :=
  ∃ (before : ConfigurationState) (calls : List ConfigurationCall),
    (∀ call ∈ calls, 1 ≤ call.height) ∧
      (Prog.forEach ConfigurationCall.perform calls).run
        (ConfigurationState.buildConstants env listed before) = .done () s

section Calls

variable {milestones : List MilestoneData}

theorem perform_always (h : MilestonesInOrder milestones) {call : ConfigurationCall}
    (hcall : 1 ≤ call.height) :
    Prog.Always Built milestones call.perform (fun _ => True) milestones := by
  cases call with
  | getMilestone height =>
    exact (getMilestone_always h hcall).bind fun _ _ => .pure trivial
  | getNextMilestoneWithNewKey previousMilestone key =>
    obtain ⟨m, hforce⟩ := h.inForce hcall
    exact (getNextMilestoneWithNewKey_always key h hcall hforce).bind fun _ _ => .pure trivial
  | setHeight value => exact setHeight_always value

/-- No sequence of calls throws. -/
theorem calls_always (h : MilestonesInOrder milestones) {calls : List ConfigurationCall}
    (hcalls : ∀ call ∈ calls, 1 ≤ call.height) :
    Prog.Always Built milestones (Prog.forEach ConfigurationCall.perform calls) (fun _ => True)
      milestones := by
  induction calls with
  | nil => exact .pure trivial
  | cons call calls ih =>
    rw [Prog.forEach_cons]
    exact (perform_always h (hcalls call List.mem_cons_self)).bind fun _ _ =>
      ih fun c hc => hcalls c (List.mem_cons_of_mem _ hc)

theorem Reached.built {env : ConfigurationServices} {listed : List MilestoneData}
    {s : ConfigurationState} (hlisted : BeginsAtOne listed) (h : Reached env listed s) :
    Built (merged env (sorted listed)) s := by
  obtain ⟨before, calls, hcalls, hrun⟩ := h
  exact ((calls_always (milestonesInOrder_merged hlisted) hcalls _
    (built_buildConstants hlisted before)).of_done hrun).1

end Calls

/-! ## 3. The search -/

/-- What a value is, without the reference of an object or an array. -/
def MilestoneValue.content : MilestoneValue → MilestoneValue
  | structured json _ => structured json 0
  | value => value

/-- The heights above `previousMilestone` of milestones with a value that is truthy and differs
    from the one of `current`. -/
def newHeights (milestones : List MilestoneData) (current : MilestoneData)
    (previousMilestone : Nat) (key : String) : Set Nat :=
  {height | ∃ m ∈ milestones, m.height = height ∧ previousMilestone < m.height ∧
    MilestoneValue.truthy (m.get key) = true ∧
    (m.get key).map (·.content) ≠ (current.get key).map (·.content)}

/-- The result is the least of these heights, or that there is none. -/
def IsNextChange (milestones : List MilestoneData) (current : MilestoneData)
    (previousMilestone : Nat) (key : String) (r : NewKeyResult) : Prop :=
  (r.found = true → IsLeast (newHeights milestones current previousMilestone key) r.height) ∧
    (r.found = false → newHeights milestones current previousMilestone key = ∅)

/-- The same object or array twice. -/
def IsCopy (a b : Option MilestoneValue) : Prop :=
  ∃ json reference reference', a = some (.structured json reference) ∧
    b = some (.structured json reference') ∧ reference ≠ reference'

/-- No milestone above `previousMilestone` has a copy of the value in force, unless a new value
    comes no later. -/
def NoCopyBefore (milestones : List MilestoneData) (current : MilestoneData)
    (previousMilestone : Nat) (key : String) : Prop :=
  ∀ m ∈ milestones, previousMilestone < m.height → IsCopy (m.get key) (current.get key) →
    ∃ height ∈ newHeights milestones current previousMilestone key, height ≤ m.height

section Search

variable {milestones : List MilestoneData} {current : MilestoneData} {previousMilestone : Nat}
  {key : String}

/-- Two values with the same content are the same or the same object twice. -/
theorem eq_or_isCopy {v w : MilestoneValue} (h : v.content = w.content) :
    v = w ∨ IsCopy (some v) (some w) := by
  by_cases hvw : v = w
  · exact Or.inl hvw
  · refine Or.inr ?_
    cases v with
    | structured json r =>
      cases w with
      | structured json' r' =>
        obtain ⟨rfl, -⟩ := MilestoneValue.structured.inj h
        exact ⟨json, r, r', rfl, rfl, fun hr => hvw (by rw [hr])⟩
      | _ => cases h
    | _ =>
      cases w with
      | structured json' r' => cases h
      | _ => exact absurd h hvw

/-- `!==`: another content, or a copy. -/
theorem ne_iff_content (a b : Option MilestoneValue) :
    a ≠ b ↔ a.map (·.content) ≠ b.map (·.content) ∨ IsCopy a b := by
  constructor
  · intro hne
    by_cases hcontent : a.map (·.content) = b.map (·.content)
    · rcases a with _ | v
      · rcases b with _ | w
        · exact absurd rfl hne
        · cases hcontent
      · rcases b with _ | w
        · cases hcontent
        · exact (eq_or_isCopy (Option.some.inj hcontent)).imp_left fun h =>
            absurd (congrArg some h) hne
    · exact Or.inl hcontent
  · intro h heq
    subst heq
    rcases h with h | ⟨json, r, r', hr, hr', hne⟩
    · exact h rfl
    · rw [hr] at hr'
      cases hr'
      exact hne rfl

theorem IsCopy.truthy {a b : Option MilestoneValue} (h : IsCopy a b) :
    MilestoneValue.truthy a = true := by
  obtain ⟨json, r, r', rfl, -, -⟩ := h
  rfl

/-- What the search finds is above the height it begins at. -/
theorem newKey_ascends (h : (newKey current previousMilestone key milestones).found = true) :
    previousMilestone < (newKey current previousMilestone key milestones).height ∧
      (newKey current previousMilestone key milestones).height ∈ milestones.map (·.height) := by
  unfold newKey at *
  cases hfind : milestones.find? fun m => decide (MilestoneValue.truthy (m.get key) = true ∧
      m.get key ≠ current.get key ∧ m.height > previousMilestone) with
  | none =>
    rw [hfind] at h
    cases h
  | some m =>
    have hm := List.find?_some hfind
    simp only [decide_eq_true_eq] at hm
    exact ⟨hm.2.2, List.mem_map_of_mem (List.mem_of_find?_eq_some hfind)⟩

/-- The first of the milestones in order with a property is a lowest one. -/
theorem height_le_of_find {P : MilestoneData → Bool} {found m : MilestoneData}
    (hsorted : milestones.Pairwise (·.height ≤ ·.height)) (hfind : milestones.find? P = some found)
    (hm : m ∈ milestones) (hP : P m = true) : found.height ≤ m.height := by
  obtain ⟨-, before, later, rfl, hbefore⟩ := List.find?_eq_some_iff_append.1 hfind
  rcases List.mem_append.1 hm with hm | hm
  · have := hbefore m hm
    rw [hP] at this
    cases this
  · rcases List.mem_cons.1 hm with rfl | hm
    · exact le_rfl
    · exact (List.pairwise_cons.1 (List.pairwise_append.1 hsorted).2.1).1 m hm

/-- **The search finds the next change unless it takes a copy for one.** -/
theorem isNextChange_newKey_iff (hsorted : milestones.Pairwise (·.height ≤ ·.height)) :
    IsNextChange milestones current previousMilestone key
        (newKey current previousMilestone key milestones) ↔
      NoCopyBefore milestones current previousMilestone key := by
  -- what has another content is another value for the search, and so is a copy
  have hnew : ∀ m : MilestoneData, previousMilestone < m.height →
      MilestoneValue.truthy (m.get key) = true →
      ((m.get key).map (·.content) ≠ (current.get key).map (·.content) ∨
        IsCopy (m.get key) (current.get key)) →
      decide (MilestoneValue.truthy (m.get key) = true ∧ m.get key ≠ current.get key ∧
        m.height > previousMilestone) = true :=
    fun m hlt htruthy hne => by
      simp only [decide_eq_true_eq]
      exact ⟨htruthy, (ne_iff_content _ _).2 hne, hlt⟩
  unfold newKey
  cases hfind : milestones.find? fun m => decide (MilestoneValue.truthy (m.get key) = true ∧
      m.get key ≠ current.get key ∧ m.height > previousMilestone) with
  | none =>
    have hnot := List.find?_eq_none.1 hfind
    refine ⟨fun _ m hm hlt hcopy => ?_, fun _ => ⟨fun h => (nomatch h), fun _ => ?_⟩⟩
    · exact absurd (hnew m hlt hcopy.truthy (Or.inr hcopy)) (hnot m hm)
    · refine Set.eq_empty_iff_forall_notMem.2 fun height hheight => ?_
      obtain ⟨m, hm, -, hlt, htruthy, hne⟩ := hheight
      exact hnot m hm (hnew m hlt htruthy (Or.inl hne))
  | some found =>
    have hfound := List.find?_some hfind
    simp only [decide_eq_true_eq] at hfound
    have hlower : found.height ∈
        lowerBounds (newHeights milestones current previousMilestone key) := by
      intro height hheight
      obtain ⟨m, hm, rfl, hlt, htruthy, hne⟩ := hheight
      exact height_le_of_find hsorted hfind hm (hnew m hlt htruthy (Or.inl hne))
    constructor
    · intro h m hm hlt hcopy
      exact ⟨found.height, (h.1 rfl).1,
        height_le_of_find hsorted hfind hm (hnew m hlt hcopy.truthy (Or.inr hcopy))⟩
    · intro h
      refine ⟨fun _ => ⟨?_, hlower⟩, fun h => (nomatch h)⟩
      rcases (ne_iff_content _ _).1 hfound.2.1 with hne | hcopy
      · exact ⟨found, List.mem_of_find?_eq_some hfind, rfl, hfound.2.2, hfound.1, hne⟩
      · obtain ⟨height, hheight, hle⟩ :=
          h found (List.mem_of_find?_eq_some hfind) hfound.2.2 hcopy
        have hge := hlower hheight
        have heq : height = found.height := le_antisymm hle hge
        show found.height ∈ _
        rw [← heq]
        exact hheight

end Search

/-! ## 4. All calls -/

/-- **After any calls**, `getMilestone` returns the merge of all milestones up to the height, the
    search finds the next change exactly where no copy comes before it, and no loop around the
    search goes on for ever. -/
theorem milestoneSearch (env : ConfigurationServices) (listed : List MilestoneData)
    (hlisted : BeginsAtOne listed) (before : ConfigurationState) (calls : List ConfigurationCall)
    (hcalls : ∀ call ∈ calls, 1 ≤ call.height) :
    (∃ s, (Prog.forEach ConfigurationCall.perform calls).run
        (ConfigurationState.buildConstants env listed before) = .done () s ∧
      ∀ height, 1 ≤ height → ∃ m, mergeUpTo env listed height = some m ∧
        (∃ s', (getMilestone height).run s = .done (some m) s') ∧
        ∀ key, ∃ r s', (getNextMilestoneWithNewKey height key).run s = .done r s' ∧
          (IsNextChange (merged env (sorted listed)) m height key r ↔
            NoCopyBefore (merged env (sorted listed)) m height key)) ∧
      ∀ (key : String) (states : Nat → ConfigurationState) (heights : Nat → Nat),
        (∀ n, Reached env listed (states n)) → 1 ≤ heights 0 →
        ¬ ∀ n, ∃ data s', (getNextMilestoneWithNewKey (heights n) key).run (states n) =
          .done ⟨data, true, heights (n + 1)⟩ s' := by
  have horder : MilestonesInOrder (merged env (sorted listed)) := milestonesInOrder_merged hlisted
  refine ⟨?_, fun key states heights hreached hone hloop => ?_⟩
  · obtain ⟨u, s, hrun, hbuilt, -⟩ := (calls_always horder hcalls).run
      (built_buildConstants hlisted before)
    refine ⟨s, hrun, fun height hheight => ?_⟩
    obtain ⟨m, hm, hforce⟩ := inForce_mergeUpTo hlisted hheight
    refine ⟨m, hm, ?_, fun key => ?_⟩
    · obtain ⟨found, s', hget, -, m', rfl, hforce'⟩ :=
        (getMilestone_always horder hheight).run hbuilt
      obtain rfl := hforce.unique hforce'
      exact ⟨s', hget⟩
    · obtain ⟨r, s', hget, -, rfl⟩ :=
        (getNextMilestoneWithNewKey_always key horder hheight hforce).run hbuilt
      exact ⟨_, s', hget, isNextChange_newKey_iff horder.sorted⟩
  · have hstep : ∀ n, 1 ≤ heights n → heights n < heights (n + 1) ∧
        heights (n + 1) ∈ (merged env (sorted listed)).map (·.height) := by
      intro n hn
      obtain ⟨data, s', hget⟩ := hloop n
      obtain ⟨m, -, hforce⟩ := inForce_mergeUpTo hlisted hn
      obtain ⟨r, s'', hget', -, hr⟩ := (getNextMilestoneWithNewKey_always key horder hn hforce).run
        ((hreached n).built hlisted)
      rw [hget] at hget'
      cases hget'
      have hascends := newKey_ascends (congrArg NewKeyResult.found hr).symm
      rw [← hr] at hascends
      exact hascends
    -- the heights grow for ever among finitely many
    have hgrow : ∀ n, n + 1 ≤ heights n := by
      intro n
      induction n with
      | zero => exact hone
      | succ n ih =>
        have := (hstep n (by omega)).1
        omega
    obtain ⟨bound, hbound⟩ := ((merged env (sorted listed)).map (·.height)).toFinset.exists_le
    have hle := hbound _ (List.mem_toFinset.2 (hstep bound (by
      have := hgrow bound
      omega)).2)
    have := hgrow (bound + 1)
    omega

namespace Sample

/-- Settings of the later milestone win, objects of the earlier one are copied. -/
def deepmerge (previous current : MilestoneData) : MilestoneData where
  height := current.height
  fields := (previous.fields.map fun field => match current.fields.lookup field.1, field.2 with
      | some value, _ => (field.1, value)
      | none, .structured json _ => (field.1, .structured json current.height)
      | none, value => (field.1, value)) ++
    current.fields.filter fun field => (previous.fields.lookup field.1).isNone

def mergingServices : ConfigurationServices where
  deepmerge := deepmerge
  deepmerge_height _ _ := rfl

/-- The limits of a block, in the object with this reference. -/
def limits (reference : Nat) : MilestoneValue := .structured "\x7b\"version\":1\x7d" reference

/-- At height 2 only the reward changes. -/
def rewardMilestones : List MilestoneData :=
  [⟨1, [("block", limits 1), ("reward", .string "0")]⟩, ⟨2, [("reward", .string "200000000")]⟩]

theorem rewardMilestones_beginsAtOne : BeginsAtOne rewardMilestones := ⟨_, rfl, rfl⟩

theorem merged_rewardMilestones : merged mergingServices (sorted rewardMilestones) =
    [⟨1, [("block", limits 1), ("reward", .string "0")]⟩,
      ⟨2, [("block", limits 2), ("reward", .string "200000000")]⟩] := by decide

/-- A configuration nothing was set in. -/
def blankConfiguration : ConfigurationState := ⟨none, none, none⟩

/-- The configuration after the node has gone to height 2 and looked back. -/
def lookedBack : Outcome ConfigurationState Exception Unit :=
  (Prog.forEach ConfigurationCall.perform
    [.setHeight 2, .getMilestone 2, .getNextMilestoneWithNewKey 1 "block", .getMilestone 1]).run
      (ConfigurationState.buildConstants mergingServices rewardMilestones blankConfiguration)

end Sample

/-- **A milestone that only changes the reward** is found as the next one with a new `block`. -/
theorem copiedBlock_not :
    ¬ ∀ (env : ConfigurationServices) (listed : List MilestoneData) (before s : ConfigurationState)
        (height : Nat) (key : String) (m : MilestoneData) (r : NewKeyResult), BeginsAtOne listed →
        1 ≤ height → mergeUpTo env listed height = some m →
        (getNextMilestoneWithNewKey height key).run
          (ConfigurationState.buildConstants env listed before) = .done r s →
        IsNextChange (merged env (sorted listed)) m height key r := by
  intro h
  obtain ⟨r, s, hrun, hr⟩ : ∃ r s, (getNextMilestoneWithNewKey 1 "block").run
      (ConfigurationState.buildConstants Sample.mergingServices Sample.rewardMilestones
        Sample.blankConfiguration) = .done r s ∧ r = ⟨some (Sample.limits 2), true, 2⟩ :=
    ⟨_, _, rfl, by decide⟩
  have hnext := h Sample.mergingServices Sample.rewardMilestones _ s 1 "block" _ r
    Sample.rewardMilestones_beginsAtOne le_rfl rfl hrun
  rw [hr, Sample.merged_rewardMilestones] at hnext
  obtain ⟨m, hm, -, hlt, -, hne⟩ := (hnext.1 rfl).1
  rcases List.mem_cons.1 hm with rfl | hm
  · exact absurd hlt (by decide)
  · obtain rfl := List.mem_singleton.1 hm
    exact hne rfl

/-- The laws for these milestones: the reward is found where it changes. -/
theorem milestoneSearch_sample : ∃ (m : MilestoneData) (r : NewKeyResult) (s : ConfigurationState),
    (getNextMilestoneWithNewKey 1 "reward").run Sample.lookedBack.state = .done r s ∧
      IsNextChange (merged Sample.mergingServices (sorted Sample.rewardMilestones)) m 1 "reward"
        r := by
  obtain ⟨⟨s, hrun, hlaws⟩, -⟩ := milestoneSearch Sample.mergingServices Sample.rewardMilestones
    Sample.rewardMilestones_beginsAtOne Sample.blankConfiguration
    [.setHeight 2, .getMilestone 2, .getNextMilestoneWithNewKey 1 "block", .getMilestone 1]
    (by decide)
  have hstate : Sample.lookedBack.state = s := congrArg Outcome.state hrun
  obtain ⟨m, -, -, hsearch⟩ := hlaws 1 le_rfl
  obtain ⟨r, s', hget, hnext⟩ := hsearch "reward"
  refine ⟨m, r, s', hstate ▸ hget, hnext.2 fun m' hm' _ hcopy => ?_⟩
  -- the rewards are strings
  obtain ⟨json, reference, _, hjson, -, -⟩ := hcopy
  rw [Sample.merged_rewardMilestones] at hm'
  rcases List.mem_cons.1 hm' with rfl | hm'
  · cases hjson
  · obtain rfl := List.mem_singleton.1 hm'
    cases hjson

end CoreEx
