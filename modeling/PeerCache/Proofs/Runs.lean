import Mathlib

/-!
# Runs

A system takes one step after the other, and a run is the list of what it does.  `Along step p s es`
says that from `s` on each step of a run has the property `p` in the state in which it is taken.

Main statement: what every such step keeps, the run keeps (`Along.keeps`).
-/

namespace PeerCache

variable {σ ε : Type} {step : σ → ε → σ} {p q : σ → ε → Prop}

/-- Every step of a run has a property, in the state in which it is taken. -/
def Along (step : σ → ε → σ) (p : σ → ε → Prop) : σ → List ε → Prop
  | _, [] => True
  | s, e :: es => p s e ∧ Along step p (step s e) es

/-- A property that can be checked of a step can be checked of a run. -/
instance Along.decidable [∀ s e, Decidable (p s e)] : (s : σ) → (es : List ε) → Decidable (Along step p s es)
  | _, [] => inferInstanceAs (Decidable True)
  | s, e :: es =>
    have := decidable (step s e) es
    inferInstanceAs (Decidable (p s e ∧ Along step p (step s e) es))

theorem Along.keeps {I : σ → Prop} (hstep : ∀ s e, I s → p s e → I (step s e)) {s : σ} (hs : I s)
    {es : List ε} (h : Along step p s es) : I (es.foldl step s) := by
  induction es generalizing s with
  | nil => exact hs
  | cons e es ih => exact ih (hstep s e hs h.1) h.2

theorem Along.imp (hpq : ∀ s e, p s e → q s e) {s : σ} {es : List ε} (h : Along step p s es) :
    Along step q s es := by
  induction es generalizing s with
  | nil => trivial
  | cons e es ih => exact ⟨hpq s e h.1, ih h.2⟩

theorem Along.and {s : σ} {es : List ε} (hp : Along step p s es) (hq : Along step q s es) :
    Along step (fun s e => p s e ∧ q s e) s es := by
  induction es generalizing s with
  | nil => trivial
  | cons e es ih => exact ⟨⟨hp.1, hq.1⟩, ih hp.2 hq.2⟩

theorem along_of_forall {s : σ} {es : List ε} (h : ∀ e ∈ es, ∀ s, p s e) : Along step p s es := by
  induction es generalizing s with
  | nil => trivial
  | cons e es ih => exact ⟨h e List.mem_cons_self s, ih fun f hf => h f (List.mem_cons_of_mem e hf)⟩

/-- What holds at first and not at last, some step brings to an end. -/
theorem exists_turn (step : σ → ε → σ) {I : σ → Prop} {s : σ} (hs : I s) (es : List ε) : I (es.foldl step s) ∨
    ∃ as e bs, es = as ++ e :: bs ∧ I (as.foldl step s) ∧ ¬ I (step (as.foldl step s) e) := by
  induction es generalizing s with
  | nil => exact .inl hs
  | cons e es ih =>
    by_cases he : I (step s e)
    · rcases ih he with hi | ⟨as, f, bs, rfl, hbefore, hafter⟩
      · exact .inl hi
      · exact .inr ⟨e :: as, f, bs, rfl, hbefore, hafter⟩
    · exact .inr ⟨[], e, es, rfl, hs, he⟩

theorem along_append {s : σ} {as bs : List ε} :
    Along step p s (as ++ bs) ↔ Along step p s as ∧ Along step p (as.foldl step s) bs := by
  induction as generalizing s with
  | nil => exact (iff_of_eq (true_and _)).symm
  | cons a as ih =>
    show p s a ∧ Along step p (step s a) (as ++ bs) ↔ _
    rw [ih, ← and_assoc]
    rfl

end PeerCache
