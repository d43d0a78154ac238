/-
# Runs of a transition system with events

A transition system is a relation `step : σ → ε → σ → Prop`: in a state an event may happen and
lead to another state.  A run grows at its end, so that the events of a run are the past of the
state it leads to.  The invariant rule is the induction over a run, for properties of a state
together with its past; the potential rule bounds the length of a run.
-/
import Mathlib

namespace GribCpp.Transition

variable {σ ε : Type*}

/-- The runs from a state: their events, and the state they lead to. -/
inductive Run (step : σ → ε → σ → Prop) (s : σ) : List ε → σ → Prop
  | nil : Run step s [] s
  | snoc {es : List ε} {t u : σ} {e : ε} (hrun : Run step s es t) (hstep : step t e u) :
      Run step s (es ++ [e]) u

variable {step : σ → ε → σ → Prop} {s t : σ} {es : List ε}

/-- The last event of a run is a step. -/
lemma Run.last {e : ε} (hrun : Run step s (es ++ [e]) t) :
    ∃ u, Run step s es u ∧ step u e t := by
  generalize hall : es ++ [e] = all at hrun
  cases hrun with
  | nil => exact absurd hall (by simp)
  | @snoc es' u _ e' hrun hstep =>
    obtain ⟨rfl, hlast⟩ := List.append_inj' hall rfl
    obtain rfl := List.singleton_inj.mp hlast
    exact ⟨u, hrun, hstep⟩

/-- A run may be cut between any two of its events. -/
lemma Run.cut {later : List ε} (hrun : Run step s (es ++ later) t) :
    ∃ u, Run step s es u ∧ Run step u later t := by
  induction later using List.reverseRecOn generalizing t with
  | nil => exact ⟨t, by simpa using hrun, .nil⟩
  | append_singleton later e ih =>
    rw [← List.append_assoc] at hrun
    obtain ⟨u, hrun, hstep⟩ := hrun.last
    obtain ⟨v, hfirst, hsecond⟩ := ih hrun
    exact ⟨v, hfirst, hsecond.snoc hstep⟩

/-- The first event of a run is a step. -/
lemma Run.head {e : ε} (hrun : Run step s ([e] ++ es) t) :
    ∃ u, step s e u ∧ Run step u es t := by
  obtain ⟨u, hfirst, hrest⟩ := hrun.cut
  rw [← List.nil_append [e]] at hfirst
  obtain ⟨v, hnil, hstep⟩ := hfirst.last
  generalize hall : ([] : List ε) = all at hnil
  cases hnil with
  | nil => exact ⟨u, hstep, hrest⟩
  | snoc => exact absurd hall (by simp)

/-- **The invariant rule.**  What holds in the beginning, of no events, and is kept by every
step holds of every run. -/
theorem Run.invariant {I : List ε → σ → Prop} (hrun : Run step s es t) (hinit : I [] s)
    (hstep : ∀ es t e u, I es t → step t e u → I (es ++ [e]) u) : I es t := by
  induction hrun with
  | nil => exact hinit
  | snoc _ hlast ih => exact hstep _ _ _ _ ih hlast

/-- **The potential rule.**  When every step pays what it costs out of a potential and of what it
brings, a run costs no more than the potential at its start and what its steps bring. -/
theorem Run.potential {μ : σ → ℕ} {cost gain : ε → ℕ} (hrun : Run step s es t)
    (hstep : ∀ t e u, step t e u → μ u + cost e ≤ μ t + gain e) :
    μ t + (es.map cost).sum ≤ μ s + (es.map gain).sum := by
  induction hrun with
  | nil => simp
  | @snoc es t u e _ hlast ih =>
    have h := hstep t e u hlast
    simp only [List.map_append, List.map_singleton, List.sum_append, List.sum_singleton]
    omega

end GribCpp.Transition
