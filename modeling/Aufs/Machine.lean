import Mathlib.Logic.Relation
/-!
# Machine — the states a system reaches, and what holds of all of them

A system is a set of initial states and a step relation; a state is reachable when a run of steps leads to it from an
initial one.  An invariant is proved once of the initial states and once of a step taken from a reachable state
(`Reach.induction`); a property a step keeps, once it holds, holds along the rest of a run (`Reach.stable`).  A
simulation maps every run of one system onto a run of another, each step onto a step or onto no step at all
(`Reach.map`): what holds of the second system's reachable states then holds of the first's images.
-/
namespace Machine

variable {σ τ : Type} {init : σ → Prop} {step : σ → σ → Prop} {s s' : σ}

/-- The states `step` reaches from a state `init` allows. -/
def Reach (init : σ → Prop) (step : σ → σ → Prop) (s : σ) : Prop :=
  ∃ s₀, init s₀ ∧ Relation.ReflTransGen step s₀ s

theorem Reach.of_init (h : init s) : Reach init step s := ⟨s, h, .refl⟩

theorem Reach.tail (h : Reach init step s) (hs : step s s') : Reach init step s' :=
  let ⟨s₀, h₀, hr⟩ := h
  ⟨s₀, h₀, hr.tail hs⟩

/-- **The invariant rule**: what the initial states have and every step from a reachable state keeps, every
reachable state has. -/
theorem Reach.induction {P : σ → Prop} (h₀ : ∀ s, init s → P s)
    (hs : ∀ s s', Reach init step s → P s → step s s' → P s') (h : Reach init step s) : P s := by
  obtain ⟨s₀, hi, hr⟩ := h
  induction hr with
  | refl => exact h₀ s₀ hi
  | tail hr hst ih => exact hs _ _ ⟨s₀, hi, hr⟩ ih hst

/-- **The stability rule**: a property that every step from a reachable state keeps holds along every run from a
reachable state where it holds. -/
theorem Reach.stable {P : σ → Prop} (hs : ∀ s s', Reach init step s → step s s' → P s → P s')
    (h : Reach init step s) (hr : Relation.ReflTransGen step s s') (hp : P s) : P s' := by
  obtain ⟨s₀, h₀, hr₀⟩ := h
  induction hr with
  | refl => exact hp
  | tail hr hst ih => exact hs _ _ ⟨s₀, h₀, hr₀.trans hr⟩ hst ih

/-- **Stuttering simulation**: a map that sends initial states to initial states and each step from a reachable
state to a step or to no change sends reachable states to reachable states. -/
theorem Reach.map {init' : τ → Prop} {step' : τ → τ → Prop} (f : σ → τ) (h₀ : ∀ s, init s → init' (f s))
    (hs : ∀ s s', Reach init step s → step s s' → f s' = f s ∨ step' (f s) (f s')) (h : Reach init step s) :
    Reach init' step' (f s) := by
  refine Reach.induction (P := fun s => Reach init' step' (f s)) (fun s hi => .of_init (h₀ s hi)) ?_ h
  intro s s' hr ih hst
  rcases hs s s' hr hst with he | he
  · rw [he]; exact ih
  · exact ih.tail he

end Machine
