/-
  File:      CoreEx/Properties/RoundArithmetic.lean
  Subject:   Whether rounds follow each other without gap or overlap, at every height.

  Which number of validators a change brings is looked up in two ways: `calculateRound` takes the
  first milestone with another number, `getMilestone` and `isNewRound` the last one that has begun.
  Several milestones may have the same height, and then the two need not be the same.

  * `RoundLaws`, `RoundArithmetic` -- what holds at a height, and at all of them;
  * `firstChangeAt`, `Unambiguous` -- the first milestone with another number is the last word;
  * `roundIn_laws`, `turns_laws` -- a round inside a span, and the first of a new span;
  * `isNewRound_iff` -- `isNewRound` counts from the same height;
  * **`roundArithmetic_iff`** -- the laws hold of unambiguous milestones, and of no others;
  * **`twoNumbers_not`** -- two milestones of one height with different numbers.
-/
import CoreEx.Rounds.RoundCalculator

namespace CoreEx

open RoundCalculator

/-! ## 1. The laws -/

/-- The laws at a height; `info'` is the round of the next height. -/
structure RoundLaws (c : MilestoneList) (height : Nat) (info info' : RoundInfo) : Prop where
  begun : info.roundHeight ≤ height
  lasts : height < info.roundHeight + info.maxValidators
  maxValidators : info.maxValidators = (c.getMilestone height).activeValidators
  step : info'.round = info.round ∨ info'.round = info.round + 1
  nextRound : info.nextRound = info'.round
  isNewRound : isNewRound height c = true ↔ info.roundHeight = height

/-- The laws at every height; and the heights of one round agree about it. -/
def RoundArithmetic (c : MilestoneList) : Prop :=
  ∀ height, 1 ≤ height → ∃ info info', calculateRound height c = .ok info ∧
    calculateRound (height + 1) c = .ok info' ∧ RoundLaws c height info info' ∧
    ∀ other info₂, 1 ≤ other → calculateRound other c = .ok info₂ → info₂.round = info.round →
      info₂.roundHeight = info.roundHeight ∧ info₂.maxValidators = info.maxValidators

/-- The first milestone of a height that names another number of validators than was in force. -/
def firstChangeAt (c : MilestoneList) (height : Nat) : Option Milestone :=
  c.milestones.find? fun m => m.height = height ∧
    m.activeValidators ≠ (c.getMilestone (height - 1)).activeValidators

/-- Such a milestone names the number that is in force at its height. Nothing is asked where every
    height has one milestone. -/
def Unambiguous (c : MilestoneList) : Prop :=
  ∀ height m, 1 < height → firstChangeAt c height = some m →
    m.activeValidators = (c.getMilestone height).activeValidators

/-! ## 2. Rounds inside a span -/

/-- Dividing the next number. -/
theorem ediv_succ (x : Int) {a : Int} (ha : 0 < a) :
    (x + 1) / a = x / a + if (x + 1) % a = 0 then 1 else 0 := by
  have hx := Int.mul_ediv_add_emod x a
  have hlt := Int.emod_lt_of_pos x ha
  have hnonneg := Int.emod_nonneg x ha.ne'
  by_cases hlast : x % a + 1 = a
  · have hwhole : (x + 1) / a = x / a + 1 ∧ (x + 1) % a = 0 := by
      refine (Int.ediv_emod_unique ha).2 ⟨?_, le_rfl, ha⟩
      rw [mul_add, mul_one]
      omega
    rw [if_pos hwhole.2, hwhole.1]
  · have hpart : (x + 1) / a = x / a ∧ (x + 1) % a = x % a + 1 := by
      refine (Int.ediv_emod_unique ha).2 ⟨by omega, by omega, by omega⟩
    rw [if_neg (by omega), hpart.1, add_zero]

variable {c : MilestoneList} {height : Nat} {span span' : Span}

/-- A round holds its heights. -/
theorem roundIn_bounds (height : Nat) (ha : 0 < span.activeValidators)
    (hq : span.roundHeight = span.milestoneHeight) :
    (roundIn span height).roundHeight ≤ height ∧
      (height : Int) < (roundIn span height).roundHeight + (roundIn span height).maxValidators := by
  have ha' : (0 : Int) < span.activeValidators := by omega
  have hdiv := Int.mul_ediv_add_emod (height - span.milestoneHeight) span.activeValidators
  have hlt := Int.emod_lt_of_pos (height - span.milestoneHeight) ha'
  have hnonneg := Int.emod_nonneg (height - span.milestoneHeight) ha'.ne'
  unfold roundIn
  dsimp only
  rw [Int.fdiv_eq_ediv_of_nonneg _ ha'.le, hq, mul_comm _ (span.activeValidators : Int)]
  omega

/-- The round of the next height of the span is the one announced; the heights of one round begin it
    at the same height. -/
theorem roundIn_succ (height : Nat) (ha : 0 < span.activeValidators) :
    (roundIn span height).nextRound = (roundIn span (height + 1)).round ∧
      ((roundIn span (height + 1)).round = (roundIn span height).round →
        (roundIn span (height + 1)).roundHeight = (roundIn span height).roundHeight) := by
  have ha' : (0 : Int) < span.activeValidators := by omega
  have hsucc := ediv_succ (height - span.milestoneHeight) ha'
  have hnext : ((height + 1 : Nat) : Int) - span.milestoneHeight =
      height - span.milestoneHeight + 1 := by omega
  unfold roundIn
  dsimp only
  rw [Int.fdiv_eq_ediv_of_nonneg _ ha'.le, Int.fdiv_eq_ediv_of_nonneg _ ha'.le, hnext, hsucc]
  refine ⟨by omega, fun hround => ?_⟩
  have hzero : (if (height - span.milestoneHeight + 1) % (span.activeValidators : Int) = 0
      then (1 : Int) else 0) = 0 := by omega
  rw [hzero, add_zero]

/-- The next round follows at most one height later. -/
theorem roundIn_step (span : Span) (height : Nat) :
    (roundIn span height).nextRound = (roundIn span height).round ∨
      (roundIn span height).nextRound = (roundIn span height).round + 1 := by
  unfold roundIn
  dsimp only
  split
  · exact Or.inr rfl
  · exact Or.inl (add_zero _)

/-- A change of the number comes with a new round, announced before. -/
theorem turns_round (ha : 0 < span.activeValidators) (h : Turns height span span') :
    (roundIn span height).nextRound = (roundIn span' (height + 1)).round ∧
      (roundIn span' (height + 1)).round = (roundIn span height).round + 1 := by
  have ha' : (0 : Int) < span.activeValidators := by omega
  have hsucc := ediv_succ (height - span.milestoneHeight) ha'
  have hnow : (height : Int) - span.milestoneHeight + 1 = height + 1 - span.milestoneHeight := by
    omega
  rw [hnow, if_pos h.whole] at hsucc
  have hstart : ((height + 1 : Nat) : Int) - span'.milestoneHeight = 0 := by
    rw [h.milestoneHeight]
    omega
  unfold roundIn
  dsimp only
  rw [hstart, Int.zero_fdiv, hnow, if_pos h.whole, Int.fdiv_eq_ediv_of_nonneg _ ha'.le, h.round,
    hsucc]
  omega

/-! ## 3. Both look-ups -/

namespace RoundCalculator

/-- In a span nothing changes. -/
theorem SpanOf.getMilestone_eq {q : Nat} (h : SpanOf c height q span)
    (hpositive : ∀ m ∈ c.milestones, m.activeValidators ≠ 0) {x : Nat} (hq : q ≤ x)
    (hx : x ≤ height) : (c.getMilestone x).activeValidators =
      (c.getMilestone q).activeValidators :=
  MilestoneList.value_congr hpositive h.one_le hq fun next hnext => hx.trans_lt (h.last next hnext)

/-- At the start of a later span the first milestone with another number is the one found. -/
theorem SpanOf.firstChangeAt_eq {q : Nat} (h : SpanOf c height q span)
    (hpositive : ∀ m ∈ c.milestones, m.activeValidators ≠ 0) (hq : q ≠ 1) :
    1 < q ∧ span.activeValidators ≠ (c.getMilestone (q - 1)).activeValidators ∧
      ∃ m, firstChangeAt c q = some m ∧ m.activeValidators = span.activeValidators := by
  rcases h.origin with ⟨hone, -⟩ | ⟨p, hp, hlt, hnext⟩
  · exact absurd hone hq
  · obtain ⟨-, hne, -, -, hbetween⟩ := MilestoneList.getNextMilestoneWithNewKey_eq_some hnext
    have hbefore : (c.getMilestone (q - 1)).activeValidators =
        (c.getMilestone p).activeValidators := by
      refine MilestoneList.value_congr hpositive hp (by omega) fun next hnext' => ?_
      rw [hnext] at hnext'
      cases hnext'
      show q - 1 < q
      omega
    obtain ⟨m, hfind, hm⟩ := Option.map_eq_some_iff.1 hnext
    obtain ⟨hav, hheight⟩ := MilestoneSearchResult.mk.inj hm
    obtain ⟨hcond, before, later, hsplit, hskipped⟩ := List.find?_eq_some_iff_append.1 hfind
    refine ⟨by omega, by rwa [hbefore], m, ?_, hav⟩
    unfold firstChangeAt
    rw [List.find?_eq_some_iff_append]
    simp only [decide_eq_true_eq] at hcond
    refine ⟨?_, before, later, hsplit, fun b hb => ?_⟩
    · simpa [hheight, hbefore] using hcond.2.1
    · have hb' := hskipped b hb
      have hmem : b ∈ c.milestones := by
        rw [hsplit]
        exact List.mem_append_left _ hb
      have hzero := hpositive b hmem
      simp only [Bool.not_eq_true', decide_eq_false_iff_not, not_and, hbefore] at hb' ⊢
      intro hb₁ hb₂
      exact hb' hzero hb₂ (by omega)

/-- **`maxValidators` is the number in force when nothing is ambiguous.** -/
theorem SpanOf.activeValidators_eq {q : Nat} (h : SpanOf c height q span)
    (hpositive : ∀ m ∈ c.milestones, m.activeValidators ≠ 0) (hc : Unambiguous c) :
    span.activeValidators = (c.getMilestone height).activeValidators := by
  rw [h.getMilestone_eq hpositive h.le le_rfl]
  by_cases hq : q = 1
  · rcases h.origin with ⟨rfl, heq⟩ | ⟨p, hp, hlt, -⟩
    · exact heq
    · omega
  · obtain ⟨hone, -, m, hm, heq⟩ := h.firstChangeAt_eq hpositive hq
    rw [← heq]
    exact hc q m hone hm

/-- The height `isNewRound` counts from begins the span. -/
theorem SpanOf.spanMilestone_eq {q : Nat} (h : SpanOf c height q span)
    (hpositive : ∀ m ∈ c.milestones, m.activeValidators ≠ 0)
    (hmax : span.activeValidators = (c.getMilestone height).activeValidators) :
    ∃ m, spanMilestone height c.milestones.reverse none = some m ∧ m.height = q ∧
      m.activeValidators = span.activeValidators := by
  obtain ⟨before, m, after, later, hm, hsplit, hav, hle, hafter, hbefore, hlater⟩ :=
    spanMilestone_spec (c := c) (h.one_le.trans h.le)
  refine ⟨m, hm, ?_, hav.trans hmax.symm⟩
  rcases Nat.lt_trichotomy m.height q with hlt | heq | hgt
  · -- the number was another one before the span, but every milestone from `m` on names this one
    have hq : q ≠ 1 := by
      have := MilestoneList.one_le_height (c := c) (m := m) (by
        rw [hsplit]
        exact List.mem_append_right _ List.mem_cons_self)
      omega
    obtain ⟨hone, hne, -⟩ := h.firstChangeAt_eq hpositive hq
    have hprevious := c.inForce_getMilestone (show 1 ≤ q - 1 by omega)
    have hmem := hprevious.mem_append hsplit List.mem_cons_self (by omega)
    have hbegun := hprevious.begun
    have hqle := h.le
    have hsame : (c.getMilestone (q - 1)).activeValidators =
        (c.getMilestone height).activeValidators := by
      rcases List.mem_cons.1 hmem with heq | hmem
      · rw [heq, hav]
      · rcases List.mem_append.1 hmem with hmem | hmem
        · exact hafter _ hmem
        · have := hlater _ hmem
          omega
    exact absurd (hmax.trans hsame.symm) hne
  · exact heq
  · -- the milestone before `m` is the one in force at the start of the span, or later
    have hstart := c.inForce_getMilestone h.one_le
    have hsorted := c.pairwise_milestones
    rw [hsplit] at hsorted
    obtain ⟨-, hfrom, hupto⟩ := List.pairwise_append.1 hsorted
    have hend : ∀ b ∈ after ++ later, m.height ≤ b.height := (List.pairwise_cons.1 hfrom).1
    have hnil : before ≠ [] := by
      rintro rfl
      have hmem := hstart.mem
      have hbegun := hstart.begun
      rw [hsplit, List.nil_append] at hmem
      rcases List.mem_cons.1 hmem with heq | hmem
      · rw [heq] at hbegun
        omega
      · have := hend _ hmem
        omega
    obtain ⟨pre, e, rfl⟩ := List.eq_nil_or_concat' before |>.resolve_left hnil
    have hne := hbefore e (by rw [List.getLast?_concat]; rfl)
    refine absurd ?_ hne
    have hvalue := h.getMilestone_eq hpositive h.le le_rfl
    by_cases he : e.height ≤ q
    · have hforce : Timeline.InForce Milestone.height c.milestones q e := by
        refine ⟨pre, m :: (after ++ later), by rw [hsplit, List.append_assoc]; rfl, he,
          fun b hb => ?_⟩
        rcases List.mem_cons.1 hb with rfl | hb
        · exact hgt
        · exact hgt.trans_le (hend b hb)
      rw [hforce.unique hstart, hvalue]
    · have hmem : e ∈ c.milestones := by
        rw [hsplit]
        exact List.mem_append_left _ (List.mem_append_right _ List.mem_cons_self)
      have hupto' : e.height ≤ m.height :=
        hupto e (List.mem_append_right _ List.mem_cons_self) m List.mem_cons_self
      rw [hvalue]
      have hcases : e.activeValidators = 0 ∨
          e.activeValidators = (c.getMilestone q).activeValidators := by
        cases hnext : c.getNextMilestoneWithNewKey q Milestone.activeValidators with
        | none => exact MilestoneList.getNextMilestoneWithNewKey_eq_none hnext hmem (by omega)
        | some next =>
          obtain ⟨-, -, -, -, hbetween⟩ := MilestoneList.getNextMilestoneWithNewKey_eq_some hnext
          have := h.last next hnext
          exact hbetween e hmem (by omega) (by omega)
      exact hcases.resolve_left (hpositive e hmem)

/-- **`isNewRound` and `calculateRound` agree.** -/
theorem SpanOf.isNewRound_iff {q : Nat} (h : SpanOf c height q span)
    (hpositive : ∀ m ∈ c.milestones, m.activeValidators ≠ 0)
    (hmax : span.activeValidators = (c.getMilestone height).activeValidators) :
    isNewRound height c = true ↔ (roundIn span height).roundHeight = height := by
  obtain ⟨m, hm, hq, hav⟩ := h.spanMilestone_eq hpositive hmax
  have hle := h.le
  have hone := h.one_le
  have hcast : ((height - m.height : Nat) : Int) = height - span.milestoneHeight := by
    rw [h.milestoneHeight, hq]
    omega
  have hmod : (height - m.height) % m.activeValidators = 0 ↔
      ((height : Int) - span.milestoneHeight) % span.activeValidators = 0 := by
    rw [← hcast, hav, ← Int.natCast_mod]
    omega
  have hdiv := Int.mul_ediv_add_emod ((height : Int) - span.milestoneHeight) span.activeValidators
  have hround : (roundIn span height).roundHeight = height ↔
      ((height : Int) - span.milestoneHeight) % span.activeValidators = 0 := by
    unfold roundIn
    dsimp only
    rw [Int.fdiv_eq_ediv_of_nonneg _ (Int.natCast_nonneg _), h.roundHeight, ← h.milestoneHeight,
      mul_comm _ (span.activeValidators : Int)]
    omega
  rw [hround, ← hmod]
  unfold isNewRound
  rw [hm]
  by_cases hfirst : height = 1
  · have hsame : height - m.height = 0 := by omega
    rw [hsame, Nat.zero_mod]
    simp [hfirst]
  · simp [hfirst]

end RoundCalculator

/-! ## 4. From height to height -/

/-- What the rounds of two heights in a row have to do with each other. -/
theorem round_succ (hpositive : ∀ m ∈ c.milestones, m.activeValidators ≠ 0) (hc : Unambiguous c)
    (hheight : 1 ≤ height) {info' : RoundInfo} (h : calculateRound (height + 1) c = .ok info') :
    ∃ info, calculateRound height c = .ok info ∧ RoundLaws c height info info' ∧
      (info'.round = info.round → info'.roundHeight = info.roundHeight ∧
        info'.maxValidators = info.maxValidators) := by
  obtain ⟨span', hspan', rfl⟩ := calculateRound_eq_ok.1 h
  obtain ⟨span, hspan, hcases⟩ := spanAt_succ hspan'
  obtain ⟨q, hq⟩ := spanAt_spec hheight hspan
  have hmax := hq.activeValidators_eq hpositive hc
  have ha : 0 < span.activeValidators := by
    rw [hmax]
    exact Nat.pos_of_ne_zero (hpositive _ (c.inForce_getMilestone hheight).mem)
  obtain ⟨hbegun, hlasts⟩ := roundIn_bounds height ha
    (hq.roundHeight.trans hq.milestoneHeight.symm)
  have hnew := hq.isNewRound_iff hpositive hmax
  refine ⟨_, calculateRound_eq_ok.2 ⟨span, hspan, rfl⟩, ?_⟩
  rcases hcases with rfl | hturns
  · obtain ⟨hnext, hsame⟩ := roundIn_succ height ha
    have hstep := roundIn_step span' height
    rw [hnext] at hstep
    exact ⟨⟨hbegun, hlasts, hmax, hstep, hnext, hnew⟩, fun hround => ⟨hsame hround, rfl⟩⟩
  · obtain ⟨hnext, hstep⟩ := turns_round ha hturns
    refine ⟨⟨hbegun, hlasts, hmax, Or.inr hstep, hnext, hnew⟩, fun hround => ?_⟩
    omega

/-- Rounds do not go back, and the heights of one round agree about it. -/
theorem round_add (hpositive : ∀ m ∈ c.milestones, m.activeValidators ≠ 0) (hc : Unambiguous c)
    (hheight : 1 ≤ height) (n : Nat) : ∀ {info₂ : RoundInfo},
      calculateRound (height + n) c = .ok info₂ →
      ∃ info, calculateRound height c = .ok info ∧ info.round ≤ info₂.round ∧
        (info₂.round = info.round → info₂.roundHeight = info.roundHeight ∧
          info₂.maxValidators = info.maxValidators) := by
  induction n with
  | zero => exact fun h => ⟨_, h, le_rfl, fun _ => ⟨rfl, rfl⟩⟩
  | succ n ih =>
    intro info₂ h
    have hone : 1 ≤ height + n := by omega
    obtain ⟨info₁, h₁, hlaws, hsame⟩ := round_succ hpositive hc hone h
    obtain ⟨info, hinfo, hle, hagree⟩ := ih h₁
    have hstep := hlaws.step
    refine ⟨info, hinfo, by omega, fun hround => ?_⟩
    obtain ⟨hbegin, hmax⟩ := hsame (by omega)
    obtain ⟨hbegin₁, hmax₁⟩ := hagree (by omega)
    exact ⟨hbegin.trans hbegin₁, hmax.trans hmax₁⟩

theorem round_agree (hpositive : ∀ m ∈ c.milestones, m.activeValidators ≠ 0) (hc : Unambiguous c)
    {other : Nat} {info info₂ : RoundInfo} (hheight : 1 ≤ height) (hother : 1 ≤ other)
    (h : calculateRound height c = .ok info) (h₂ : calculateRound other c = .ok info₂)
    (hround : info₂.round = info.round) :
    info₂.roundHeight = info.roundHeight ∧ info₂.maxValidators = info.maxValidators := by
  rcases Nat.le_total height other with hle | hle
  · obtain ⟨n, rfl⟩ := Nat.exists_eq_add_of_le hle
    obtain ⟨info₀, h₀, -, hagree⟩ := round_add hpositive hc hheight n h₂
    rw [h] at h₀
    cases h₀
    exact hagree hround
  · obtain ⟨n, rfl⟩ := Nat.exists_eq_add_of_le hle
    obtain ⟨info₀, h₀, -, hagree⟩ := round_add hpositive hc hother n h
    rw [h₂] at h₀
    cases h₀
    obtain ⟨hbegin, hmax⟩ := hagree hround.symm
    exact ⟨hbegin.symm, hmax.symm⟩

/-- **The laws of rounds hold when no height names two numbers of validators, and only then.** -/
theorem roundArithmetic_iff (hpositive : ∀ m ∈ c.milestones, m.activeValidators ≠ 0)
    (hround : ∀ height, 1 ≤ height → ∃ info, calculateRound height c = .ok info) :
    RoundArithmetic c ↔ Unambiguous c := by
  constructor
  · intro hlaws height m hone hm
    obtain ⟨info, info', hinfo, -, hlaw, -⟩ := hlaws height (by omega)
    obtain ⟨span, hspan, rfl⟩ := calculateRound_eq_ok.1 hinfo
    obtain ⟨q, hq⟩ := spanAt_spec (by omega) hspan
    have hmax : span.activeValidators = (c.getMilestone height).activeValidators :=
      hlaw.maxValidators
    have hcond := List.find?_some hm
    simp only [decide_eq_true_eq] at hcond
    have hle := hq.le
    have hstart : q = height := by
      by_contra hne
      -- inside a span no milestone names another number
      have hbefore := hq.getMilestone_eq hpositive (show q ≤ height - 1 by omega) (by omega)
      have hmem := List.mem_of_find?_eq_some hm
      have hsame : m.activeValidators = 0 ∨
          m.activeValidators = (c.getMilestone q).activeValidators := by
        cases hnext : c.getNextMilestoneWithNewKey q Milestone.activeValidators with
        | none => exact MilestoneList.getNextMilestoneWithNewKey_eq_none hnext hmem (by omega)
        | some next =>
          obtain ⟨-, -, -, -, hbetween⟩ := MilestoneList.getNextMilestoneWithNewKey_eq_some hnext
          have := hq.last next hnext
          exact hbetween m hmem (by omega) (by omega)
      rw [hbefore] at hcond
      exact hcond.2 (hsame.resolve_left (hpositive m hmem))
    subst hstart
    obtain ⟨-, -, m', hm', heq⟩ := hq.firstChangeAt_eq hpositive (by omega)
    rw [hm] at hm'
    cases hm'
    exact heq.trans hmax
  · intro hc height hheight
    obtain ⟨info', hinfo'⟩ := hround (height + 1) (by omega)
    obtain ⟨info, hinfo, hlaws, -⟩ := round_succ hpositive hc hheight hinfo'
    exact ⟨info, info', hinfo, hinfo', hlaws, fun other info₂ hother h₂ heq =>
      round_agree hpositive hc hheight hother hinfo h₂ heq⟩

/-! ## 5. Two milestones of one height -/

namespace Sample

/-- From height 5 on seven validators, or four as before. -/
def twoNumbers : Configuration :=
  .of ⟨1, 4, ⟨1000, 10, 0⟩, 8, 0, 100⟩
    [⟨5, some 7, none, none, none, none, none, none⟩, ⟨5, some 4, none, none, none, none, none, none⟩]
    (by decide)

theorem twoNumbers_positive : ∀ m ∈ twoNumbers.milestones, m.activeValidators ≠ 0 := by decide

/-- Nothing is wrong with its rounds otherwise. -/
theorem twoNumbers_rounds (height : Nat) :
    ∃ info, calculateRound height twoNumbers = .ok info :=
  (calculateRound_ok_iff _).2 (by decide) height

end Sample

theorem roundArithmetic_iff_sample :
    RoundArithmetic Sample.twoNumbers ↔ Unambiguous Sample.twoNumbers :=
  roundArithmetic_iff Sample.twoNumbers_positive fun height _ => Sample.twoNumbers_rounds height

/-- **Two milestones of one height**: `calculateRound` goes on with seven validators where four are
    in force. -/
theorem twoNumbers_not :
    (∀ m ∈ Sample.twoNumbers.milestones, m.activeValidators ≠ 0) ∧
      (∀ height, ∃ info, calculateRound height Sample.twoNumbers = .ok info) ∧
      ¬RoundArithmetic Sample.twoNumbers := by
  refine ⟨Sample.twoNumbers_positive, Sample.twoNumbers_rounds, fun h => ?_⟩
  obtain ⟨info, info', hinfo, -, hlaws, -⟩ := h 5 (by decide)
  have hseven : calculateRound 5 Sample.twoNumbers = .ok ⟨7, 2, 2, 5⟩ := rfl
  rw [hseven] at hinfo
  cases hinfo
  exact absurd hlaws.maxValidators (by decide)

end CoreEx
