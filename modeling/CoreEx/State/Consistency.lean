/-
  File:      CoreEx/State/Consistency.lean
  Subject:   The repositories the state code works on: what the indexes of names promise, and a
             repository that keeps its promises.

  The indexes of usernames and resignations are kept by calls of `index`, one for each handler
  that changes a validator. They are right when they say exactly what the accounts say; then
  indexing a wallet anew after its account was changed back restores them.

  * `Names.Agrees` -- the indexes say what the accounts say;
  * `Names.relabel_back`, `Names.reindex_back` -- changing a wallet back restores the names;
  * `Books.Good`, `ConsistentRepository` -- accounts and names, and the repository with them.
-/
import CoreEx.State.Ledger

namespace CoreEx

/-! ## 1. Names -/

namespace Names

/-- The indexes lead from the usernames of the validators, and of the resigned ones, to them. -/
structure Agrees (N : Names) (L : Ledger) : Prop where
  usernames : ∀ u a, N.usernames u = some a ↔ (L a).username = some u
  resignations : ∀ u a, N.resignations u = some a ↔
    (L a).username = some u ∧ (L a).isResigned = true

/-- The names look at usernames and resignations only. -/
theorem reindex_congr {N : Names} {a : Address} {w w' : Account} (hu : w'.username = w.username)
    (hr : w'.isResigned = w.isResigned) : N.reindex a w' = N.reindex a w := by
  unfold reindex
  rw [hu, hr]

theorem Agrees.congr {N : Names} {L L' : Ledger} (h : N.Agrees L)
    (hu : ∀ a, (L' a).username = (L a).username)
    (hr : ∀ a, (L' a).isResigned = (L a).isResigned) : N.Agrees L' := by
  refine ⟨fun u a => ?_, fun u a => ?_⟩
  · rw [hu]
    exact h.usernames u a
  · rw [hu, hr]
    exact h.resignations u a

/-- A label that was put in place of another, and the other put back. -/
theorem relabel_back {lookup : String → Option Address} {a : Address} {own own' : Option String}
    (hown : ∀ u, lookup u = some a ↔ own = some u)
    (hfree : ∀ u, own' = some u → lookup u = none ∨ lookup u = some a) :
    relabel (relabel lookup a own') a own = lookup := by
  funext u
  unfold relabel
  by_cases hu : own = some u
  · rw [if_pos hu]
    exact ((hown u).2 hu).symm
  · have hne : lookup u ≠ some a := fun h => hu ((hown u).1 h)
    simp only [if_neg hu, if_neg hne]
    by_cases hu' : own' = some u
    · have hnone : lookup u = none := (hfree u hu').resolve_right hne
      simp only [if_pos hu', if_true, hnone]
    · simp only [if_neg hu', if_neg hne]

/-- **Indexing a wallet as it was restores the names.** -/
theorem reindex_back {N : Names} {L : Ledger} (h : N.Agrees L) {a : Address} {w : Account}
    (hfree : ∀ u, w.username = some u → N.usernames u = none ∨ N.usernames u = some a) :
    (N.reindex a w).reindex a (L a) = N := by
  have hname : ∀ u, N.usernames u = some a ↔ (L a).username = some u := fun u => h.usernames u a
  have hres : ∀ u, N.resignations u = some a ↔
      (if (L a).isResigned then (L a).username else none) = some u := by
    intro u
    rw [h.resignations u a]
    by_cases hr : (L a).isResigned = true
    · simp [hr]
    · simp [hr]
  have hresfree : ∀ u, (if w.isResigned then w.username else none) = some u →
      N.resignations u = none ∨ N.resignations u = some a := by
    intro u hu
    have hw : w.username = some u := by
      by_cases hr : w.isResigned = true
      · rwa [if_pos hr] at hu
      · rw [if_neg hr] at hu
        cases hu
    cases hb : N.resignations u with
    | none => exact Or.inl rfl
    | some b =>
      -- a resigned name is a taken name
      have htaken : N.usernames u = some b :=
        (h.usernames u b).2 ((h.resignations u b).1 hb).1
      rcases hfree u hw with hnone | hsome
      · rw [hnone] at htaken
        cases htaken
      · exact Or.inr (htaken.symm.trans hsome)
  ext1
  · exact relabel_back hname hfree
  · exact relabel_back hres hresfree

/-- Indexing a changed wallet keeps the agreement, when nobody else has its name. -/
theorem Agrees.reindex {N : Names} {L L' : Ledger} (h : N.Agrees L) {a : Address}
    (hother : ∀ b, b ≠ a → (L' b).username = (L b).username ∧
      (L' b).isResigned = (L b).isResigned)
    (hfree : ∀ u, (L' a).username = some u → N.usernames u = none ∨ N.usernames u = some a) :
    (N.reindex a (L' a)).Agrees L' := by
  have hclash : ∀ u b, b ≠ a → (L b).username = some u → (L' a).username ≠ some u := by
    intro u b hb hub hua
    have hN := (h.usernames u b).2 hub
    rcases hfree u hua with hnone | hsome
    · rw [hnone] at hN
      cases hN
    · exact hb (Option.some.inj (hN.symm.trans hsome))
  refine ⟨fun u b => ?_, fun u b => ?_⟩
  · show relabel N.usernames a (L' a).username u = some b ↔ _
    unfold relabel
    by_cases hba : b = a
    · subst hba
      by_cases hu : (L' b).username = some u
      · simp [hu]
      · by_cases hN : N.usernames u = some b <;> simp [hu, hN]
    · rw [(hother b hba).1, ← h.usernames u b]
      have hab : ¬ a = b := fun e => hba e.symm
      by_cases hu : (L' a).username = some u
      · have hne : ¬ N.usernames u = some b :=
          fun hN => hclash u b hba ((h.usernames u b).1 hN) hu
        simp [hu, hab, hne]
      · by_cases hN : N.usernames u = some a
        · simp [hu, hN, hab]
        · simp [hu, hN]
  · show relabel N.resignations a (if (L' a).isResigned then (L' a).username else none) u =
      some b ↔ _
    unfold relabel
    by_cases hba : b = a
    · subst hba
      by_cases hr : (L' b).isResigned = true
      · by_cases hu : (L' b).username = some u
        · simp [hr, hu]
        · by_cases hN : N.resignations u = some b <;> simp [hr, hu, hN]
      · by_cases hN : N.resignations u = some b <;> simp [hr, hN]
    · rw [(hother b hba).1, (hother b hba).2, ← h.resignations u b]
      have hab : ¬ a = b := fun e => hba e.symm
      by_cases hu : (if (L' a).isResigned then (L' a).username else none) = some u
      · have hname : (L' a).username = some u := by
          by_cases hr : (L' a).isResigned = true
          · rwa [if_pos hr] at hu
          · rw [if_neg hr] at hu
            cases hu
        have hne : ¬ N.resignations u = some b :=
          fun hN => hclash u b hba ((h.resignations u b).1 hN).1 hname
        simp [hu, hab, hne]
      · by_cases hN : N.resignations u = some a
        · simp [hu, hN, hab]
        · simp [hu, hN]

end Names

/-! ## 2. Books and repositories -/

/-- Consistent accounts, and names that agree with them. -/
structure Books.Good (env : Services) (b : Books) : Prop where
  consistent : b.1.Consistent env
  agrees : b.2.Agrees b.1

/-- A repository whose indexes and accounts keep their promises. The empty one does
    (`ConsistentRepository.empty`), and applying and reverting transactions and blocks lead from
    such repositories to such repositories. -/
structure ConsistentRepository (env : Services) extends WalletRepository where
  sound : toWalletRepository.Sound env
  good : Books.Good env (toWalletRepository.accounts, toWalletRepository.names)

namespace ConsistentRepository

variable {env : Services}

/-- The books of a repository. -/
def books (r : ConsistentRepository env) : Books := (r.accounts, r.names)

theorem stands (r : ConsistentRepository env) : Stands env r.books r.toWalletRepository :=
  ⟨r.sound, rfl, rfl⟩

/-- A repository that stands for good books. -/
def ofStands {b : Books} (hb : b.Good env) {r : WalletRepository} (h : Stands env b r) :
    ConsistentRepository env where
  toWalletRepository := r
  sound := h.sound
  good := by
    rw [h.accounts, h.names]
    exact hb

/-- The repository of a node that starts. -/
def empty (env : Services) : ConsistentRepository env where
  toWalletRepository := .empty
  sound := WalletRepository.sound_empty env
  good := by
    refine ⟨⟨fun a ha => ?_, fun a ha => ?_, fun a b hb => ?_⟩, ⟨fun u a => ?_, fun u a => ?_⟩⟩
    · cases ha
    · cases ha
    · cases hb
    · exact ⟨fun h => (nomatch h), fun h => (nomatch h)⟩
    · exact ⟨fun h => (nomatch h), fun h => (nomatch h.1)⟩

end ConsistentRepository

end CoreEx
