import Mathlib.Logic.Basic

/-!
# Runs with a condition on every step

A deterministic machine `step : σ → ε → σ` driven by a list of events,
and runs in which every step meets a condition on the state before it
and the event. What the conditioned steps preserve holds at the end of
such a run (`Along.invariant`). The beginning of such a run is one again,
so it holds in every state on the way as well. Where the condition is
also necessary for a step to preserve it, the runs that keep it throughout
are exactly the conditioned ones (`along_iff_throughout`).
-/

namespace LunaEdge

namespace Runs

variable {σ ε : Type} {step : σ → ε → σ} {P : σ → ε → Prop} {s : σ}

/-- Every step of the run from `s` over these events meets `P`. -/
def Along (step : σ → ε → σ) (P : σ → ε → Prop) : σ → List ε → Prop
  | _, [] => True
  | s, e :: es => P s e ∧ Along step P (step s e) es

instance Along.decidable [∀ s e, Decidable (P s e)] :
    ∀ (s : σ) (es : List ε), Decidable (Along step P s es)
  | _, [] => isTrue trivial
  | s, e :: es =>
    have := Along.decidable (step s e) es
    inferInstanceAs (Decidable (P s e ∧ Along step P (step s e) es))

variable {es : List ε} {I : σ → Prop}

theorem along_append {es' : List ε} :
    Along step P s (es ++ es') ↔ Along step P s es ∧ Along step P (es.foldl step s) es' := by
  induction es generalizing s with
  | nil => simp only [Along, List.nil_append, List.foldl_nil, true_and]
  | cons e es ih => exact (and_congr_right fun _ => ih).trans and_assoc.symm

theorem Along.invariant (hstep : ∀ s e, I s → P s e → I (step s e)) (h : Along step P s es)
    (hs : I s) : I (es.foldl step s) := by
  induction es generalizing s with
  | nil => exact hs
  | cons e es ih => exact ih h.2 (hstep s e hs h.1)

/-- An invariant that every step preserves needs no condition. -/
theorem invariant (hstep : ∀ s e, I s → I (step s e)) (es : List ε) (hs : I s) :
    I (es.foldl step s) := by
  induction es generalizing s with
  | nil => exact hs
  | cons e es ih => exact ih (hstep s e hs)

/-- Two conditions that agree where the invariant holds, along a run whose
steps meet `H`. -/
theorem along_congr {H Q : σ → ε → Prop} (hstep : ∀ s e, I s → H s e → P s e → I (step s e))
    (hiff : ∀ s e, I s → H s e → (P s e ↔ Q s e)) (h : Along step H s es) (hs : I s) :
    Along step P s es ↔ Along step Q s es := by
  induction es generalizing s with
  | nil => exact Iff.rfl
  | cons e es ih =>
    rw [Along, Along, ← hiff s e hs h.1]
    exact and_congr_right fun hp => ih h.2 (hstep s e hs h.1 hp)

/-- `W` holds in every state of the run. -/
def Throughout (step : σ → ε → σ) (W : σ → Prop) (s : σ) (es : List ε) : Prop :=
  ∀ before, before <+: es → W (before.foldl step s)

theorem throughout_cons {W : σ → Prop} {e : ε} :
    Throughout step W s (e :: es) ↔ W s ∧ Throughout step W (step s e) es := by
  constructor
  · exact fun h => ⟨h [] List.nil_prefix, fun before hpre => h (e :: before) (by simpa using hpre)⟩
  · rintro ⟨hs, h⟩ before hpre
    cases before with
    | nil => exact hs
    | cons e' before =>
      obtain ⟨rfl, hrest⟩ := List.cons_prefix_cons.mp hpre
      exact h before hrest

/-- `J` holds in all states, and a step keeps `W` exactly under the
condition. -/
theorem along_iff_throughout {W J : σ → Prop} (hJ : ∀ s e, J s → J (step s e))
    (hW : ∀ s e, J s → W s → (W (step s e) ↔ P s e)) (hs : J s) (hw : W s) (es : List ε) :
    Throughout step W s es ↔ Along step P s es := by
  induction es generalizing s with
  | nil =>
    refine ⟨fun _ => trivial, fun _ before hpre => ?_⟩
    rw [List.prefix_nil.mp hpre]
    exact hw
  | cons e es ih =>
    rw [throughout_cons, Along]
    constructor
    · rintro ⟨-, h⟩
      have hnext := h [] List.nil_prefix
      exact ⟨(hW s e hs hw).mp hnext, (ih (hJ s e hs) hnext).mp h⟩
    · rintro ⟨hp, h⟩
      exact ⟨hw, (ih (hJ s e hs) ((hW s e hs hw).mpr hp)).mpr h⟩

end Runs

end LunaEdge
