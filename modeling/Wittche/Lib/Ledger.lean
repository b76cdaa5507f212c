import Mathlib.Tactic.Common

/-! Allocation ledgers: a bit for every resource of a domain, set exactly for those
that have an owner and those that are held between being taken and being linked.
Taking and giving back change a bit; linking and unlinking move a resource between
the two groups and change no bit. -/

namespace Wittche

variable {β : Type} {dom owned owned' held held' : β → Prop} {bit bit' : β → Bool}

structure Ledger (dom : β → Prop) (bit : β → Bool) (owned held : β → Prop) : Prop where
  iff : ∀ b, dom b → (bit b = true ↔ owned b ∨ held b)
  apart : ∀ b, held b → dom b ∧ ¬owned b

theorem Ledger.clear_not_owned (l : Ledger dom bit owned held) {b : β} (hb : dom b)
    (clear : bit b = false) : ¬owned b := by
  intro own
  rw [(l.iff b hb).mpr (Or.inl own)] at clear
  exact Bool.noConfusion clear

theorem Ledger.hold [DecidableEq β] (l : Ledger dom bit owned held) {a : β} (ha : dom a)
    (clear : bit a = false) (set : ∀ b, dom b → bit' b = (decide (b = a) || bit b)) :
    Ledger dom bit' owned fun b => b = a ∨ held b := by
  refine ⟨fun b hb => ?_, ?_⟩
  · rw [set b hb, Bool.or_eq_true, decide_eq_true_eq, l.iff b hb]
    tauto
  · rintro b (rfl | h)
    · exact ⟨ha, l.clear_not_owned ha clear⟩
    · exact l.apart b h

theorem Ledger.release [DecidableEq β] (l : Ledger dom bit owned held) {a : β} (ha : held a)
    (cleared : ∀ b, bit' b = (!decide (b = a) && bit b)) :
    Ledger dom bit' owned fun b => held b ∧ b ≠ a := by
  have free := (l.apart a ha).2
  refine ⟨fun b hb => ?_, fun b h => l.apart b h.1⟩
  rw [cleared, Bool.and_eq_true, Bool.not_eq_true', decide_eq_false_iff_not, l.iff b hb]
  constructor
  · rintro ⟨ne, own | h⟩
    · exact Or.inl own
    · exact Or.inr ⟨h, ne⟩
  · rintro (own | ⟨h, ne⟩)
    · exact ⟨fun same => free (same ▸ own), Or.inl own⟩
    · exact ⟨ne, Or.inr h⟩

theorem Ledger.move (l : Ledger dom bit owned held)
    (same : ∀ b, dom b → (owned' b ∨ held' b ↔ owned b ∨ held b))
    (apart : ∀ b, held' b → dom b ∧ ¬owned' b) : Ledger dom bit owned' held' :=
  ⟨fun b hb => (l.iff b hb).trans (same b hb).symm, apart⟩

theorem Ledger.adopt (l : Ledger dom bit owned held) (new : β → Prop) (mine : ∀ b, dom b → new b → held b)
    (own : ∀ b, dom b → (owned' b ↔ owned b ∨ new b)) (rest : ∀ b, held' b ↔ held b ∧ ¬new b) :
    Ledger dom bit owned' held' := by
  refine l.move (fun b hb => ?_) fun b h => ?_
  · rw [own b hb, rest]
    have was := mine b hb
    tauto
  · obtain ⟨old, away⟩ := (rest b).mp h
    obtain ⟨hb, free⟩ := l.apart b old
    exact ⟨hb, fun own' => ((own b hb).mp own').elim free away⟩

theorem Ledger.orphan (l : Ledger dom bit owned held) (gone : β → Prop) (mine : ∀ b, gone b → dom b ∧ owned b)
    (own : ∀ b, dom b → (owned' b ↔ owned b ∧ ¬gone b)) : Ledger dom bit owned' fun b => gone b ∨ held b := by
  refine l.move (fun b hb => ?_) fun b h => ?_
  · rw [own b hb]
    have was := mine b
    tauto
  · have hb : dom b := h.elim (fun lost => (mine b lost).1) fun old => (l.apart b old).1
    refine ⟨hb, fun own' => ?_⟩
    obtain ⟨kept, stays⟩ := (own b hb).mp own'
    exact h.elim stays fun old => (l.apart b old).2 kept

theorem Ledger.link (l : Ledger dom bit owned held) {a : β} (mine : held a)
    (own : ∀ b, owned' b ↔ owned b ∨ b = a) : Ledger dom bit owned' fun b => held b ∧ b ≠ a :=
  l.adopt (· = a) (fun _ _ same => same ▸ mine) (fun b _ => own b) fun _ => Iff.rfl

/-- Each resource is claimed under one key at most. -/
def Exclusive {κ : Type} (claims : κ → β → Prop) : Prop := ∀ k k' b, claims k b → claims k' b → k = k'

theorem Exclusive.mono {κ : Type} {claims claims' : κ → β → Prop} (h : Exclusive claims)
    (fewer : ∀ k b, claims' k b → claims k b) : Exclusive claims' :=
  fun k k' b claim claim' => h k k' b (fewer k b claim) (fewer k' b claim')

theorem Ledger.claim {κ : Type} {claims claims' : κ → β → Prop} {a : β} {k : κ}
    (l : Ledger dom bit (fun b => ∃ k, claims k b) fun b => b = a ∨ held b) (away : ¬held a)
    (new : ∀ k' b, claims' k' b ↔ claims k' b ∨ k' = k ∧ b = a) :
    Ledger dom bit (fun b => ∃ k, claims' k b) held := by
  have own : ∀ b, (∃ k, claims' k b) ↔ (∃ k, claims k b) ∨ b = a := by
    intro b
    simp only [new]
    constructor
    · rintro ⟨k', old | ⟨-, same⟩⟩
      · exact Or.inl ⟨k', old⟩
      · exact Or.inr same
    · rintro (⟨k', old⟩ | same)
      · exact ⟨k', Or.inl old⟩
      · exact ⟨k, Or.inr ⟨rfl, same⟩⟩
  have linked := l.link (Or.inl rfl) own
  refine linked.move (fun b _ => or_congr_right ?_) fun b mine => linked.apart b ⟨Or.inr mine, ?_⟩
  · constructor
    · exact fun mine => ⟨Or.inr mine, fun same => away (same ▸ mine)⟩
    · exact fun ⟨either, other⟩ => either.resolve_left other
  · exact fun same => away (same ▸ mine)

theorem Ledger.retire {κ : Type} {claims claims' : κ → β → Prop} {gone : κ → Prop}
    (l : Ledger dom bit (fun b => ∃ k, claims k b) held) (exclusive : Exclusive claims)
    (rest : ∀ k b, claims' k b ↔ claims k b ∧ ¬gone k)
    (cleared : ∀ b, dom b → (bit' b = true ↔ bit b = true ∧ ∀ k, gone k → ¬claims k b)) :
    Ledger dom bit' (fun b => ∃ k, claims' k b) held := by
  refine ⟨fun b hb => ?_, fun b mine => ⟨(l.apart b mine).1, ?_⟩⟩
  · rw [cleared b hb, l.iff b hb]
    constructor
    · rintro ⟨⟨k, claim⟩ | mine, away⟩
      · exact Or.inl ⟨k, (rest k b).mpr ⟨claim, fun ends => away k ends claim⟩⟩
      · exact Or.inr mine
    · rintro (⟨k, claim⟩ | mine)
      · obtain ⟨claim, stays⟩ := (rest k b).mp claim
        refine ⟨Or.inl ⟨k, claim⟩, fun k' ends claim' => stays ?_⟩
        rw [exclusive k k' b claim claim']
        exact ends
      · exact ⟨Or.inr mine, fun k _ claim => (l.apart b mine).2 ⟨k, claim⟩⟩
  · rintro ⟨k, claim⟩
    exact (l.apart b mine).2 ⟨k, ((rest k b).mp claim).1⟩

theorem Exclusive.insert {κ : Type} {claims claims' : κ → β → Prop} (h : Exclusive claims) {k : κ} {b : β}
    (free : ∀ k', ¬claims k' b) (new : ∀ k' b', claims' k' b' ↔ claims k' b' ∨ k' = k ∧ b' = b) :
    Exclusive claims' := by
  intro k1 k2 b' claim1 claim2
  rcases (new k1 b').mp claim1 with old1 | ⟨rfl, rfl⟩
  · rcases (new k2 b').mp claim2 with old2 | ⟨rfl, rfl⟩
    · exact h k1 k2 b' old1 old2
    · exact absurd old1 (free k1)
  · rcases (new k2 b').mp claim2 with old2 | ⟨rfl, -⟩
    · exact absurd old2 (free k2)
    · rfl

end Wittche
