/-
  File:      CoreEx/Crypto/Configuration.lean
  Subject:   `core-crypto-config/source/configuration.ts`: the milestones, and which is in force.

  A network configuration is a first milestone with every setting and further ones that change
  some of them. The class sorts them by height, checks that the number of validators changes at
  the end of a round only, and merges each into the one before.

  * `Milestone`, `MilestonePartial`, `MilestonePartial.merge`;
  * `MilestoneList` -- the milestones in order; `buildConstants` merges them;
  * `getMilestone`, `getNextMilestoneWithNewKey` -- the two searches;
  * `milestonesWithNewKey` -- the loop around the second one;
  * `validateMilestones`, `Configuration`, `setConfig` -- the configurations that are accepted.
-/
import CoreEx.Contracts.Exceptions
import CoreEx.Lib.Timeline

namespace CoreEx

/-! ## 1. Milestones -/

/-- `MilestoneBlock`. -/
structure MilestoneBlock where
  maxPayload : Nat
  maxTransactions : Nat
  version : Nat
  deriving DecidableEq, Repr

/-- The parts of a `Milestone` the modelled code reads; `epoch` in Unix seconds. -/
structure Milestone where
  height : Nat
  activeValidators : Nat
  block : MilestoneBlock
  blockTime : Nat
  epoch : Int
  reward : Int
  deriving DecidableEq, Repr

/-- `MilestonePartial`: the height, and what changes there. -/
structure MilestonePartial where
  height : Nat
  activeValidators : Option Nat
  maxPayload : Option Nat
  maxTransactions : Option Nat
  version : Option Nat
  blockTime : Option Nat
  epoch : Option Int
  reward : Option Int
  deriving DecidableEq, Repr

/-- `deepmerge(previous, current)`. -/
def MilestonePartial.merge (previous : Milestone) (current : MilestonePartial) : Milestone where
  height := current.height
  activeValidators := current.activeValidators.getD previous.activeValidators
  block :=
    { maxPayload := current.maxPayload.getD previous.block.maxPayload
      maxTransactions := current.maxTransactions.getD previous.block.maxTransactions
      version := current.version.getD previous.block.version }
  blockTime := current.blockTime.getD previous.blockTime
  epoch := current.epoch.getD previous.epoch
  reward := current.reward.getD previous.reward

/-- The loop of `#buildConstants`. -/
def buildConstants (first : Milestone) : List MilestonePartial → List Milestone
  | [] => [first]
  | next :: later => first :: buildConstants (next.merge first) later

/-! ## 2. Milestones in order -/

/-- The milestones of a network in the order of their heights. The first one is that of the genesis
    block and complete. -/
structure MilestoneList where
  first : Milestone
  later : List MilestonePartial
  genesis : first.height = 1
  sorted : (later.map (·.height)).Pairwise (· ≤ ·)
  after : ∀ m ∈ later, 1 ≤ m.height

/-- `MilestoneSearchResult`; `data` is what the key has there. -/
structure MilestoneSearchResult where
  data : Nat
  height : Nat
  deriving DecidableEq, Repr

namespace MilestoneList

/-- `#milestones`. -/
def milestones (c : MilestoneList) : List Milestone := buildConstants c.first c.later

/-- The two loops of `getMilestone`, from the milestone `current` on. The class remembers where it
    stopped and looks from there in both directions; the milestones being sorted, it finds the
    last one that is not above the height. -/
def search (current : Milestone) (height : Nat) : List Milestone → Milestone
  | [] => current
  | next :: rest => if height ≥ next.height then search next height rest else current

/-- `getMilestone(height)`. -/
def getMilestone (c : MilestoneList) (height : Nat) : Milestone :=
  match c.milestones with
  | [] => c.first
  | first :: rest => search first height rest

/-- `getNextMilestoneWithNewKey(previousMilestone, key)`; `none` is a result with `found: false`. -/
def getNextMilestoneWithNewKey (c : MilestoneList) (previousMilestone : Nat)
    (key : Milestone → Nat) : Option MilestoneSearchResult :=
  (c.milestones.find? fun milestone => key milestone ≠ 0 ∧
    key milestone ≠ key (c.getMilestone previousMilestone) ∧
      milestone.height > previousMilestone).map fun m => ⟨key m, m.height⟩

/-- `while (nextMilestone.found)`: every result is above the one before, so there are at most as
    many as milestones. -/
def nextMilestones (c : MilestoneList) (key : Milestone → Nat) :
    Nat → Nat → List MilestoneSearchResult
  | 0, _ => []
  | fuel + 1, previousMilestone =>
    match c.getNextMilestoneWithNewKey previousMilestone key with
    | some next => next :: c.nextMilestones key fuel next.height
    | none => []

/-- `getMilestonesWhichAffect..` without its first entry, the milestone of height 1. -/
def milestonesWithNewKey (c : MilestoneList) (key : Milestone → Nat) :
    List MilestoneSearchResult :=
  c.nextMilestones key c.milestones.length 1

/-! ## 3. The search ends -/

theorem mem_of_getNextMilestoneWithNewKey {c : MilestoneList} {previous : Nat}
    {key : Milestone → Nat} {next : MilestoneSearchResult}
    (h : c.getNextMilestoneWithNewKey previous key = some next) :
    ∃ m ∈ c.milestones, m.height = next.height ∧ previous < next.height := by
  obtain ⟨m, hm, rfl⟩ := Option.map_eq_some_iff.1 h
  have hcond := List.find?_some hm
  simp only [decide_eq_true_eq] at hcond
  exact ⟨m, List.mem_of_find?_eq_some hm, rfl, hcond.2.2⟩

/-- What the loop finds is a value, above the height it began at. -/
theorem mem_nextMilestones {c : MilestoneList} {key : Milestone → Nat} {m : MilestoneSearchResult} :
    ∀ {fuel previous : Nat}, m ∈ c.nextMilestones key fuel previous →
      m.data ≠ 0 ∧ previous < m.height := by
  intro fuel
  induction fuel with
  | zero =>
    intro previous h
    cases h
  | succ fuel ih =>
    intro previous h
    unfold nextMilestones at h
    cases hnext : c.getNextMilestoneWithNewKey previous key with
    | none =>
      rw [hnext] at h
      cases h
    | some next =>
      rw [hnext] at h
      obtain ⟨-, -, -, hlt⟩ := mem_of_getNextMilestoneWithNewKey hnext
      rcases List.mem_cons.1 h with rfl | hlater
      · obtain ⟨x, hx, rfl⟩ := Option.map_eq_some_iff.1 hnext
        have hcond := List.find?_some hx
        simp only [decide_eq_true_eq] at hcond
        exact ⟨hcond.1, hlt⟩
      · have hrest := ih hlater
        exact ⟨hrest.1, by omega⟩

theorem data_ne_zero {c : MilestoneList} {key : Milestone → Nat} {m : MilestoneSearchResult}
    (h : m ∈ c.milestonesWithNewKey key) : m.data ≠ 0 := (mem_nextMilestones h).1

theorem one_lt_height {c : MilestoneList} {key : Milestone → Nat} {m : MilestoneSearchResult}
    (h : m ∈ c.milestonesWithNewKey key) : 1 < m.height := (mem_nextMilestones h).2

/-- The milestones above a height get fewer with every result. -/
theorem countP_lt {c : MilestoneList} {previous : Nat} {key : Milestone → Nat}
    {next : MilestoneSearchResult} (h : c.getNextMilestoneWithNewKey previous key = some next) :
    c.milestones.countP (fun m => next.height < m.height) <
      c.milestones.countP (fun m => previous < m.height) := by
  obtain ⟨m, hm, hheight, hlt⟩ := mem_of_getNextMilestoneWithNewKey h
  have hsub : ∀ l : List Milestone, l.countP (fun m => next.height < m.height) ≤
      l.countP (fun m => previous < m.height) := fun l => by
    refine List.countP_mono_left fun m' _ h' => ?_
    simp only [decide_eq_true_eq] at h' ⊢
    omega
  obtain ⟨l₁, l₂, hsplit⟩ := List.append_of_mem hm
  rw [hsplit, List.countP_append, List.countP_append, List.countP_cons, List.countP_cons]
  have h₁ := hsub l₁
  have h₂ := hsub l₂
  have hnot : ¬ next.height < m.height := by omega
  have hyes : previous < m.height := by omega
  simp only [hnot, hyes, decide_false, decide_true, if_true, Bool.false_eq_true, if_false]
  omega

/-- The results of the loop that begins at `previous`: each is what the search finds after the one
    before, and after the last one it finds nothing. -/
def Follows (c : MilestoneList) (key : Milestone → Nat) : Nat → List MilestoneSearchResult → Prop
  | previous, [] => c.getNextMilestoneWithNewKey previous key = none
  | previous, next :: later =>
    c.getNextMilestoneWithNewKey previous key = some next ∧ c.Follows key next.height later

/-- **The loop has found everything when it stops.** -/
theorem nextMilestones_follows (c : MilestoneList) (key : Milestone → Nat) :
    ∀ (fuel previous : Nat), c.milestones.countP (fun m => previous < m.height) ≤ fuel →
      c.Follows key previous (c.nextMilestones key fuel previous) := by
  intro fuel
  induction fuel with
  | zero =>
    intro previous h
    cases hnext : c.getNextMilestoneWithNewKey previous key with
    | none => exact hnext
    | some next =>
      have := countP_lt hnext
      omega
  | succ fuel ih =>
    intro previous h
    unfold nextMilestones
    cases hnext : c.getNextMilestoneWithNewKey previous key with
    | none => exact hnext
    | some next =>
      have hlt := countP_lt hnext
      exact ⟨hnext, ih next.height (by omega)⟩

theorem follows_milestonesWithNewKey (c : MilestoneList) (key : Milestone → Nat) :
    c.Follows key 1 (c.milestonesWithNewKey key) :=
  c.nextMilestones_follows key _ 1 List.countP_le_length

/-! ## 4. The milestone in force -/

theorem height_mem_buildConstants {m : Milestone} :
    ∀ {later : List MilestonePartial} {first : Milestone}, m ∈ buildConstants first later →
      m = first ∨ m.height ∈ later.map (·.height)
  | [], first, h => Or.inl (List.mem_singleton.1 h)
  | next :: later, first, h => by
    rcases List.mem_cons.1 h with rfl | h
    · exact Or.inl rfl
    · rcases height_mem_buildConstants h with rfl | h
      · exact Or.inr List.mem_cons_self
      · exact Or.inr (List.mem_cons_of_mem _ h)

theorem pairwise_buildConstants :
    ∀ {later : List MilestonePartial} {first : Milestone},
      (later.map (·.height)).Pairwise (· ≤ ·) → (∀ m ∈ later, first.height ≤ m.height) →
      (buildConstants first later).Pairwise (·.height ≤ ·.height)
  | [], first, _, _ => List.pairwise_singleton _ _
  | next :: later, first, hsorted, hfirst => by
    have hcons := List.pairwise_cons.1 hsorted
    refine List.pairwise_cons.2 ⟨fun m hm => ?_, pairwise_buildConstants hcons.2 fun m hm =>
      hcons.1 m.height (List.mem_map_of_mem hm)⟩
    rcases height_mem_buildConstants hm with rfl | hm
    · exact hfirst next List.mem_cons_self
    · obtain ⟨m', hm', heq⟩ := List.mem_map.1 hm
      exact heq ▸ hfirst m' (List.mem_cons_of_mem _ hm')

theorem pairwise_milestones (c : MilestoneList) :
    c.milestones.Pairwise (·.height ≤ ·.height) :=
  pairwise_buildConstants c.sorted fun m hm => c.genesis ▸ c.after m hm

theorem one_le_height {c : MilestoneList} {m : Milestone} (h : m ∈ c.milestones) :
    1 ≤ m.height := by
  rcases height_mem_buildConstants h with rfl | h
  · exact c.genesis.ge
  · obtain ⟨m', hm', heq⟩ := List.mem_map.1 h
    exact heq ▸ c.after m' hm'

/-- The search ends at the last milestone that has begun. -/
theorem inForce_search {height : Nat} (rest : List Milestone) :
    ∀ (before : List Milestone) (current : Milestone),
      (before ++ current :: rest).Pairwise (·.height ≤ ·.height) → current.height ≤ height →
      Timeline.InForce Milestone.height (before ++ current :: rest) height
        (search current height rest) := by
  induction rest with
  | nil => exact fun before current _ h => ⟨before, [], rfl, h, fun _ hb => nomatch hb⟩
  | cons next rest ih =>
    intro before current hsorted h
    unfold search
    by_cases hnext : height ≥ next.height
    · rw [if_pos hnext]
      have hrest := ih (before ++ [current]) next (by simpa using hsorted) hnext
      simpa using hrest
    · rw [if_neg hnext]
      refine ⟨before, next :: rest, rfl, h, fun b hb => ?_⟩
      have htail := (List.pairwise_append.1 hsorted).2.1
      rcases List.mem_cons.1 hb with rfl | hb
      · omega
      · have := (List.pairwise_cons.1 (List.pairwise_cons.1 htail).2).1 b hb
        omega

/-- **In force is the last milestone that has begun.** -/
theorem inForce_getMilestone (c : MilestoneList) {height : Nat} (h : 1 ≤ height) :
    Timeline.InForce Milestone.height c.milestones height (c.getMilestone height) := by
  have hsorted := c.pairwise_milestones
  have hfirst : c.first.height ≤ height := c.genesis.trans_le h
  unfold getMilestone milestones at *
  cases hlater : c.later with
  | nil =>
    rw [hlater] at hsorted
    exact inForce_search _ [] _ hsorted hfirst
  | cons next later =>
    rw [hlater] at hsorted
    exact inForce_search _ [] _ hsorted hfirst

/-- As long as a search for a new value finds none, the value stays the same. -/
theorem getMilestone_congr (c : MilestoneList) {β : Type} {f : Milestone → β} {x y : Nat}
    (hx : 1 ≤ x) (hxy : x ≤ y) (h : ∀ m ∈ c.milestones, x < m.height → m.height ≤ y →
      f m = f (c.getMilestone x)) : f (c.getMilestone y) = f (c.getMilestone x) :=
  (c.inForce_getMilestone hx).congr (c.inForce_getMilestone (hx.trans hxy)) hxy h

/-- What the search for a new value has found. -/
theorem getNextMilestoneWithNewKey_eq_some {c : MilestoneList} {previous : Nat}
    {key : Milestone → Nat} {next : MilestoneSearchResult}
    (h : c.getNextMilestoneWithNewKey previous key = some next) :
    next.data ≠ 0 ∧ next.data ≠ key (c.getMilestone previous) ∧ previous < next.height ∧
      (∃ m ∈ c.milestones, m.height = next.height ∧ key m = next.data) ∧
      ∀ m ∈ c.milestones, previous < m.height → m.height < next.height →
        key m = 0 ∨ key m = key (c.getMilestone previous) := by
  obtain ⟨found, hfind, rfl⟩ := Option.map_eq_some_iff.1 h
  have hcond := List.find?_some hfind
  simp only [decide_eq_true_eq] at hcond
  refine ⟨hcond.1, hcond.2.1, hcond.2.2, ⟨found, List.mem_of_find?_eq_some hfind, rfl, rfl⟩,
    fun m hm hlt hlt' => ?_⟩
  have hfind' : c.milestones.find? (fun m => decide ((key m ≠ 0 ∧
      key m ≠ key (c.getMilestone previous)) ∧ previous < m.height)) = some found := by
    rw [← hfind]
    congr 1
    funext m
    simp [and_assoc]
  have hnot := Timeline.not_of_between c.pairwise_milestones hfind' hm hlt hlt'
  by_contra hcon
  exact hnot ⟨fun h0 => hcon (Or.inl h0), fun h1 => hcon (Or.inr h1)⟩

theorem getNextMilestoneWithNewKey_eq_none {c : MilestoneList} {previous : Nat}
    {key : Milestone → Nat} (h : c.getNextMilestoneWithNewKey previous key = none)
    {m : Milestone} (hm : m ∈ c.milestones) (hlt : previous < m.height) :
    key m = 0 ∨ key m = key (c.getMilestone previous) := by
  have hnot := List.find?_eq_none.1 (Option.map_eq_none_iff.1 h) m hm
  simp only [decide_eq_true_eq, not_and] at hnot
  by_contra hcon
  exact hnot (fun h0 => hcon (Or.inl h0)) (fun h1 => hcon (Or.inr h1)) hlt

/-- **Until the next result of the search the value stays the same.** -/
theorem value_congr {c : MilestoneList} {key : Milestone → Nat} {x y : Nat}
    (hpositive : ∀ m ∈ c.milestones, key m ≠ 0) (hx : 1 ≤ x) (hxy : x ≤ y)
    (h : ∀ next, c.getNextMilestoneWithNewKey x key = some next → y < next.height) :
    key (c.getMilestone y) = key (c.getMilestone x) := by
  refine c.getMilestone_congr hx hxy fun m hm hlt hle => ?_
  have hcases : key m = 0 ∨ key m = key (c.getMilestone x) := by
    cases hnext : c.getNextMilestoneWithNewKey x key with
    | none => exact getNextMilestoneWithNewKey_eq_none hnext hm hlt
    | some next =>
      obtain ⟨-, -, -, -, hbetween⟩ := getNextMilestoneWithNewKey_eq_some hnext
      exact hbetween m hm hlt (hle.trans_lt (h next hnext))
  rcases hcases with h0 | heq
  · exact absurd h0 (hpositive m hm)
  · exact heq

end MilestoneList

/-! ## 5. Configurations -/

/-- The loop of `#validateMilestones` over the milestones that name a number of validators. -/
def validateMilestones (height activeValidators : Nat) :
    List MilestonePartial → Except Exception Unit
  | [] => .ok ()
  | current :: later =>
    match current.activeValidators with
    | none | some 0 => validateMilestones height activeValidators later
    | some next =>
      if activeValidators = next then validateMilestones current.height next later
      else if (current.height - height) % activeValidators ≠ 0 then
        .error (.invalidMilestoneConfiguration (s!"Bad milestone at height: {current.height}. " ++
          "The number of validators can only be changed at the beginning of a new round."))
      else validateMilestones current.height next later

section

variable {m : MilestonePartial} {later : List MilestonePartial} {height activeValidators n : Nat}

/-- A milestone names no number of validators, or a positive one. -/
theorem MilestonePartial.activeValidators_cases (m : MilestonePartial) :
    (m.activeValidators = none ∨ m.activeValidators = some 0) ∨
      ∃ n, m.activeValidators = some n ∧ n ≠ 0 := by
  rcases hm : m.activeValidators with _ | _ | n
  · exact Or.inl (Or.inl rfl)
  · exact Or.inl (Or.inr rfl)
  · exact Or.inr ⟨n + 1, rfl, Nat.succ_ne_zero n⟩

theorem validateMilestones_none (h : m.activeValidators = none ∨ m.activeValidators = some 0) :
    validateMilestones height activeValidators (m :: later) =
      validateMilestones height activeValidators later := by
  conv_lhs => unfold validateMilestones
  rcases h with h | h
  · rw [h]
  · rw [h]
    rfl

theorem validateMilestones_some (h : m.activeValidators = some n) (hn : n ≠ 0) :
    validateMilestones height activeValidators (m :: later) =
      if activeValidators = n then validateMilestones m.height n later
      else if (m.height - height) % activeValidators ≠ 0 then
        .error (.invalidMilestoneConfiguration (s!"Bad milestone at height: {m.height}. " ++
          "The number of validators can only be changed at the beginning of a new round."))
      else validateMilestones m.height n later := by
  obtain ⟨n, rfl⟩ := Nat.exists_eq_succ_of_ne_zero hn
  conv_lhs => unfold validateMilestones
  rw [h]
  rfl

end

/-- What `setConfig` accepts. -/
structure Configuration extends MilestoneList where
  accepted : validateMilestones first.height first.activeValidators later = .ok ()

instance : CoeOut Configuration MilestoneList := ⟨Configuration.toMilestoneList⟩

/-- A configuration of milestones that are in order and accepted. -/
def Configuration.of (first : Milestone) (later : List MilestonePartial)
    (h : first.height = 1 ∧ (later.map (·.height)).Pairwise (· ≤ ·) ∧
      (∀ m ∈ later, 1 ≤ m.height) ∧
      validateMilestones first.height first.activeValidators later = .ok ()) : Configuration :=
  ⟨⟨first, later, h.1, h.2.1, h.2.2.1⟩, h.2.2.2⟩

/-- A milestone as it is listed: with every setting. -/
def Milestone.listed (m : Milestone) : MilestonePartial :=
  ⟨m.height, some m.activeValidators, some m.block.maxPayload, some m.block.maxTransactions,
    some m.block.version, some m.blockTime, some m.epoch, some m.reward⟩

/-- `milestones.sort((a, b) => a.height - b.height)`; the sort is stable. -/
def sortMilestones (milestones : List MilestonePartial) : List MilestonePartial :=
  milestones.insertionSort (·.height ≤ ·.height)

/-- `config.milestones`, in any order: the one that is sorted to the front is that of height 1,
    and complete. -/
structure ListedMilestones where
  milestones : List MilestonePartial
  first : Milestone
  later : List MilestonePartial
  sorted_eq : sortMilestones milestones = first.listed :: later
  genesis : first.height = 1

theorem ListedMilestones.pairwise (l : ListedMilestones) :
    (l.first.listed :: l.later).Pairwise (·.height ≤ ·.height) := by
  rw [← l.sorted_eq]
  exact List.pairwise_insertionSort _ _

/-- The milestones in order. -/
def ListedMilestones.inOrder (l : ListedMilestones) : MilestoneList where
  first := l.first
  later := l.later
  genesis := l.genesis
  sorted := List.pairwise_map.2 (List.pairwise_cons.1 l.pairwise).2
  after m hm := l.genesis ▸ (List.pairwise_cons.1 l.pairwise).1 m hm

/-- `setConfig(config)`. -/
def Configuration.setConfig (l : ListedMilestones) : Except Exception Configuration :=
  match h : validateMilestones l.first.height l.first.activeValidators l.later with
  | .error e => .error e
  | .ok () => .ok { l.inOrder with accepted := h }

theorem Configuration.setConfig_ok_iff (l : ListedMilestones) :
    (∃ c, setConfig l = .ok c) ↔
      validateMilestones l.first.height l.first.activeValidators l.later = .ok () := by
  unfold setConfig
  split
  · rename_i e h
    rw [h]
    simp
  · rename_i h
    simp [h]

end CoreEx
