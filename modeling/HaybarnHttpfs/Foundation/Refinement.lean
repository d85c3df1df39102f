import Mathlib.Data.List.Forall2

/-!
Forward simulation between machines that answer each operation with an output.
-/

namespace HaybarnHttpfs.Foundation.Refinement

universe u v w x y

variable {σ : Type u} {τ : Type v} {op : Type w} {out : Type x} {out' : Type y}

/-- The outputs of a sequence of operations and the state after it; `none` if an
operation is not defined where it is called. -/
def trace (step : σ → op → Option (σ × out)) : σ → List op → Option (σ × List out)
  | s, [] => some (s, [])
  | s, o :: ops =>
      (step s o).bind fun (s', answer) =>
        (trace step s' ops).map fun (s'', answers) => (s'', answer :: answers)

theorem trace_cons_eq_some {step : σ → op → Option (σ × out)} {s s'' : σ} {o : op}
    {ops : List op} {answers : List out}
    (htrace : trace step s (o :: ops) = some (s'', answers)) :
    ∃ s' answer rest, step s o = some (s', answer) ∧
      trace step s' ops = some (s'', rest) ∧ answers = answer :: rest := by
  obtain ⟨⟨s', answer⟩, hstep, hrest⟩ := Option.bind_eq_some_iff.mp htrace
  obtain ⟨⟨s₁, rest⟩, htail, hpair⟩ := Option.map_eq_some_iff.mp hrest
  cases hpair
  exact ⟨s', answer, rest, hstep, htail, rfl⟩

/-- Whatever `abstract` does from a related state, `concrete` does as well, with
a related answer. -/
def Simulates (concrete : σ → op → Option (σ × out)) (abstract : τ → op → Option (τ × out'))
    (Related : σ → τ → Prop) (Agree : out → out' → Prop) : Prop :=
  ∀ s t o t' answer', Related s t → abstract t o = some (t', answer') →
    ∃ s' answer, concrete s o = some (s', answer) ∧ Agree answer answer' ∧ Related s' t'

theorem Simulates.trace {concrete : σ → op → Option (σ × out)}
    {abstract : τ → op → Option (τ × out')} {Related : σ → τ → Prop}
    {Agree : out → out' → Prop} (hsim : Simulates concrete abstract Related Agree)
    {s : σ} {t t' : τ} {ops : List op} {answers' : List out'} (hrelated : Related s t)
    (htrace : trace abstract t ops = some (t', answers')) :
    ∃ s' answers, Refinement.trace concrete s ops = some (s', answers) ∧
      List.Forall₂ Agree answers answers' ∧ Related s' t' := by
  induction ops generalizing s t answers' with
  | nil =>
      cases htrace
      exact ⟨s, [], rfl, .nil, hrelated⟩
  | cons o ops ih =>
      obtain ⟨t₁, answer', rest', hstep, htail, rfl⟩ := trace_cons_eq_some htrace
      obtain ⟨s₁, answer, hconcrete, hagree, hrelated₁⟩ :=
        hsim s t o t₁ answer' hrelated hstep
      obtain ⟨s', rest, hrest, hagrees, hrelated'⟩ := ih hrelated₁ htail
      refine ⟨s', answer :: rest, ?_, .cons hagree hagrees, hrelated'⟩
      simp [Refinement.trace, hconcrete, hrest]

end HaybarnHttpfs.Foundation.Refinement
