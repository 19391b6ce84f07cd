/-
  File:      CoreEx/Crypto/MilestoneCursor.lean
  Subject:   `core-crypto-config/source/configuration.ts` with its state: the milestone the class
             last looked at, from which the next look-up sets out.

  `getMilestone` moves a cursor over the merged milestones and leaves it where it stops;
  `getNextMilestoneWithNewKey` calls it in its own loop. Milestones are records of any settings
  here; two settings are told apart as the language does it, primitives by what they are, objects
  and arrays by which they are.

  * `MilestoneValue`, `MilestoneData`, `ConfigurationServices` -- records, and the package that
    merges them;
  * `ConfigurationState`, `buildConstants` -- the fields of the class;
  * `getMilestone`, `getNextMilestoneWithNewKey`, `setHeight` -- its methods;
  * `Built` -- the cursor points at a milestone; **`getMilestone_always`**,
    **`getNextMilestoneWithNewKey_always`** -- what keeps it so, and what is returned;
  * **`MilestoneList.getMilestone_cursor`** -- the search without a state finds the same.
-/
import CoreEx.Crypto.Configuration
import CoreEx.Lib.Prog
import CoreEx.Lib.TimelineCursor

namespace CoreEx

/-! ## 1. Milestones as records -/

/-- A value of a milestone; of an object or an array its JSON text and its reference. -/
inductive MilestoneValue where
  | null
  | bool (b : Bool)
  | number (n : Rat)
  | string (s : String)
  | structured (json : String) (reference : Nat)
  deriving DecidableEq, Repr

/-- `Boolean(value)`; `none` is `undefined`. -/
def MilestoneValue.truthy : Option MilestoneValue → Bool
  | none | some null => false
  | some (bool b) => b
  | some (number n) => n ≠ 0
  | some (string s) => s ≠ ""
  | some (structured _ _) => true

/-- A milestone with the settings of its own, or merged. -/
structure MilestoneData where
  height : Nat
  fields : List (String × MilestoneValue)
  deriving DecidableEq, Repr

/-- `milestone[key]`. -/
def MilestoneData.get (m : MilestoneData) (key : String) : Option MilestoneValue :=
  if key = "height" then some (.number m.height) else m.fields.lookup key

/-- The package `deepmerge`, with the array merge that is passed to it. -/
structure ConfigurationServices where
  deepmerge : MilestoneData → MilestoneData → MilestoneData
  /-- A setting of the second argument wins. -/
  deepmerge_height : ∀ previous current, (deepmerge previous current).height = current.height

/-! ## 2. The class -/

/-- `#height`, `#milestone` and `#milestones`. -/
structure ConfigurationState where
  height : Option Nat
  milestone : Option (Timeline.Pointer MilestoneData)
  milestones : Option (List MilestoneData)
  deriving DecidableEq, Repr

/-- Code that works on the configuration. -/
abbrev ConfigurationProg : Type → Type := Prog ConfigurationState Exception

/-- `MilestoneSearchResult`; `data` is `null` when nothing was found. -/
structure NewKeyResult where
  data : Option MilestoneValue
  found : Bool
  height : Nat
  deriving DecidableEq, Repr

namespace ConfigurationState

/-- `milestones.sort((a, b) => a.height - b.height)`. -/
def sorted (milestones : List MilestoneData) : List MilestoneData :=
  milestones.insertionSort (·.height ≤ ·.height)

/-- The loop of `#buildConstants`: each milestone is merged into the one before, merged already. -/
def merged (env : ConfigurationServices) : List MilestoneData → List MilestoneData
  | [] => []
  | first :: later => later.scanl env.deepmerge first

/-- `#buildConstants()`. -/
def buildConstants (env : ConfigurationServices) (milestones : List MilestoneData)
    (s : ConfigurationState) : ConfigurationState :=
  { s with
    milestone := some ⟨0, (sorted milestones).head?⟩
    milestones := some (merged env (sorted milestones)) }

/-- `setHeight(value)`. -/
def setHeight (value : Nat) : ConfigurationProg Unit := .modify ({ · with height := some value })

/-- The height `getMilestone(height)` looks for; 0 is no height. -/
def requested (s : ConfigurationState) (height : Nat) : Nat :=
  if height ≠ 0 then height
  else match s.height with
    | some (value + 1) => value + 1
    | _ => 1

/-- `getMilestone(height)`. -/
def getMilestone (height : Nat) : ConfigurationProg (Option MilestoneData) := ⟨fun s =>
  match s.milestone, s.milestones with
  | some milestone, some milestones =>
    match Timeline.moveTo MilestoneData.height milestones (s.requested height) milestone with
    | .ok p => .done p.data { s with milestone := some p }
    | .error p => .thrown (.typeError "height") { s with milestone := some p }
  | _, _ => .thrown (.error "") s⟩

/-- The loop of `getNextMilestoneWithNewKey`. -/
def searchNewKey (previousMilestone : Nat) (key : String) :
    List MilestoneData → ConfigurationProg NewKeyResult
  | [] => pure ⟨none, false, previousMilestone⟩
  | milestone :: rest =>
    if MilestoneValue.truthy (milestone.get key) then do
      let current ← getMilestone previousMilestone
      match current with
      | none => .throw (.typeError key)
      | some current =>
        if milestone.get key ≠ current.get key ∧ milestone.height > previousMilestone then
          pure ⟨milestone.get key, true, milestone.height⟩
        else searchNewKey previousMilestone key rest
    else searchNewKey previousMilestone key rest

/-- `getNextMilestoneWithNewKey(previousMilestone, key)`. -/
def getNextMilestoneWithNewKey (previousMilestone : Nat) (key : String) :
    ConfigurationProg NewKeyResult := do
  let milestones ← Prog.gets ConfigurationState.milestones
  match milestones with
  | none | some [] => .throw (.error "Attempted to get next milestone but none were set")
  | some milestones => searchNewKey previousMilestone key milestones

/-! ## 3. The cursor -/

/-- These are the milestones, and the cursor points at one of them. -/
def Built (milestones : List MilestoneData) (s : ConfigurationState) : Prop :=
  s.milestones = some milestones ∧
    ∃ p i m, s.milestone = some p ∧ p.At milestones i m

/-- The milestones are in order, and the first one is that of height 1. -/
structure MilestonesInOrder (milestones : List MilestoneData) : Prop where
  sorted : milestones.Pairwise (·.height ≤ ·.height)
  genesis : ∃ first, milestones[0]? = some first ∧ first.height = 1

section

variable {milestones : List MilestoneData} {height : Nat}

theorem setHeight_always (value : Nat) :
    Prog.Always Built milestones (setHeight value) (fun _ => True) milestones :=
  .modify fun _ hs => hs

/-- **`getMilestone` returns the milestone in force, from wherever the cursor stands.** -/
theorem getMilestone_always (h : MilestonesInOrder milestones) (hheight : 1 ≤ height) :
    Prog.Always Built milestones (getMilestone height)
      (fun found => ∃ m, found = some m ∧
        Timeline.InForce MilestoneData.height milestones height m) milestones := by
  intro s hs
  obtain ⟨hmilestones, p, i, m, hp, hat⟩ := hs
  obtain ⟨first, hfirst, hgenesis⟩ := h.genesis
  obtain ⟨j, found, p', hmove, hat', hforce⟩ :=
    Timeline.moveTo_inForce h.sorted ⟨first, hfirst, hgenesis.trans_le hheight⟩ hat
  have hrequested : s.requested height = height := if_pos (by omega)
  have hrun : (getMilestone height).run s = .done (some found) { s with milestone := some p' } := by
    unfold getMilestone
    dsimp only
    rw [hp, hmilestones, hrequested]
    dsimp only
    rw [hmove, ← hat'.data]
  unfold Prog.Spec
  rw [hrun]
  exact ⟨⟨hmilestones, p', j, found, rfl, hat'⟩, found, rfl, hforce⟩

/-- The milestone the search takes when `current` is in force. -/
def newKey (current : MilestoneData) (previousMilestone : Nat) (key : String)
    (milestones : List MilestoneData) : NewKeyResult :=
  match milestones.find? fun m => MilestoneValue.truthy (m.get key) = true ∧
      m.get key ≠ current.get key ∧ m.height > previousMilestone with
  | some m => ⟨m.get key, true, m.height⟩
  | none => ⟨none, false, previousMilestone⟩

theorem newKey_cons_of (current : MilestoneData) {m : MilestoneData} {key : String}
    {previousMilestone : Nat} (rest : List MilestoneData)
    (h : MilestoneValue.truthy (m.get key) = true ∧ m.get key ≠ current.get key ∧
      m.height > previousMilestone) :
    newKey current previousMilestone key (m :: rest) = ⟨m.get key, true, m.height⟩ := by
  unfold newKey
  rw [List.find?_cons_of_pos (by simpa using h)]

theorem newKey_cons_of_not (current : MilestoneData) {m : MilestoneData} {key : String}
    {previousMilestone : Nat} (rest : List MilestoneData)
    (h : ¬ (MilestoneValue.truthy (m.get key) = true ∧ m.get key ≠ current.get key ∧
      m.height > previousMilestone)) :
    newKey current previousMilestone key (m :: rest) =
      newKey current previousMilestone key rest := by
  unfold newKey
  rw [List.find?_cons_of_neg (by simpa using h)]

/-- The loop: every pass looks up the same milestone. -/
theorem searchNewKey_always {previousMilestone : Nat} (key : String)
    (h : MilestonesInOrder milestones) (hprevious : 1 ≤ previousMilestone) {current : MilestoneData}
    (hforce : Timeline.InForce MilestoneData.height milestones previousMilestone current)
    (rest : List MilestoneData) :
    Prog.Always Built milestones (searchNewKey previousMilestone key rest)
      (fun r => r = newKey current previousMilestone key rest) milestones := by
  induction rest with
  | nil => exact .pure rfl
  | cons m rest ih =>
    unfold searchNewKey
    by_cases htruthy : MilestoneValue.truthy (m.get key) = true
    · rw [if_pos htruthy]
      refine (getMilestone_always h hprevious).bind fun found hfound => ?_
      obtain ⟨current', rfl, hforce'⟩ := hfound
      obtain rfl := hforce.unique hforce'
      dsimp only
      by_cases hnew : m.get key ≠ current.get key ∧ m.height > previousMilestone
      · rw [if_pos hnew, newKey_cons_of current rest ⟨htruthy, hnew⟩]
        exact .pure rfl
      · rw [if_neg hnew, newKey_cons_of_not current rest fun h => hnew h.2]
        exact ih
    · rw [if_neg htruthy, newKey_cons_of_not current rest fun h => htruthy h.1]
      exact ih

/-- **`getNextMilestoneWithNewKey` returns the first milestone above the height whose value is
    another one than that in force.** -/
theorem getNextMilestoneWithNewKey_always {previousMilestone : Nat} (key : String)
    (h : MilestonesInOrder milestones) (hprevious : 1 ≤ previousMilestone) {current : MilestoneData}
    (hforce : Timeline.InForce MilestoneData.height milestones previousMilestone current) :
    Prog.Always Built milestones (getNextMilestoneWithNewKey previousMilestone key)
      (fun r => r = newKey current previousMilestone key milestones) milestones := by
  have hgets : Prog.Always Built milestones
      (Prog.gets ConfigurationState.milestones : ConfigurationProg _)
      (fun found => found = some milestones) milestones := .gets fun _ hs => hs.1
  unfold getNextMilestoneWithNewKey
  refine hgets.bind fun found hfound => ?_
  subst hfound
  cases milestones with
  | nil =>
    obtain ⟨first, hfirst, -⟩ := h.genesis
    cases hfirst
  | cons first later => exact searchNewKey_always key h hprevious hforce _

/-- There is a milestone in force. -/
theorem MilestonesInOrder.inForce (h : MilestonesInOrder milestones) (hheight : 1 ≤ height) :
    ∃ m, Timeline.InForce MilestoneData.height milestones height m := by
  obtain ⟨first, hfirst, hgenesis⟩ := h.genesis
  obtain ⟨_, m, _, -, -, hforce⟩ := Timeline.moveTo_inForce h.sorted
    ⟨first, hfirst, hgenesis.trans_le hheight⟩
    (⟨rfl, hfirst, rfl⟩ : Timeline.Pointer.At milestones ⟨0, some first⟩ 0 first)
  exact ⟨m, hforce⟩

end

end ConfigurationState

/-- **The search without a state** finds what the cursor finds, from wherever it stands. -/
theorem MilestoneList.getMilestone_cursor (c : MilestoneList) {height : Nat} (hheight : 1 ≤ height)
    {p : Timeline.Pointer Milestone} {i : Nat} {m : Milestone} (hp : p.At c.milestones i m) :
    ∃ p', Timeline.moveTo Milestone.height c.milestones height p = .ok p' ∧
      p'.data = some (c.getMilestone height) := by
  have hfirst : c.milestones[0]? = some c.first := by
    unfold milestones
    cases c.later <;> rfl
  obtain ⟨j, found, p', hmove, hat, hforce⟩ := Timeline.moveTo_inForce c.pairwise_milestones
    ⟨c.first, hfirst, c.genesis.trans_le hheight⟩ hp
  obtain rfl := hforce.unique (c.inForce_getMilestone hheight)
  exact ⟨p', hmove, hat.data⟩

end CoreEx
