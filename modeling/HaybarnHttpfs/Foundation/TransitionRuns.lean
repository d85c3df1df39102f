import Mathlib.Data.List.Basic

/-!
Runs of deterministic partial transition systems. All nondeterminism is in the
labels: a scheduler, a server or a user of the component is the choice of the
next label.
-/

namespace HaybarnHttpfs.Foundation.TransitionRuns

universe u v w x

variable {σ : Type u} {ℓ : Type v}

/-- A finite run of `step` from `s` to `t` whose labels are `labels` and whose
steps all meet the side condition `ok`. -/
inductive Run (step : σ → ℓ → Option σ) (ok : σ → ℓ → Prop) :
    σ → List ℓ → σ → Prop where
  | nil (s : σ) : Run step ok s [] s
  | cons {s t u : σ} {l : ℓ} {labels : List ℓ} :
      ok s l → step s l = some t → Run step ok t labels u →
        Run step ok s (l :: labels) u

def Unrestricted : σ → ℓ → Prop := fun _ _ => True

variable {step : σ → ℓ → Option σ} {ok ok' : σ → ℓ → Prop}

theorem Run.single {s t : σ} {l : ℓ} (hok : ok s l) (hstep : step s l = some t) :
    Run step ok s [l] t :=
  .cons hok hstep (.nil t)

theorem Run.append {s t u : σ} {first second : List ℓ}
    (hfirst : Run step ok s first t) (hsecond : Run step ok t second u) :
    Run step ok s (first ++ second) u := by
  induction hfirst with
  | nil => exact hsecond
  | cons hok hstep _ ih => exact .cons hok hstep (ih hsecond)

theorem Run.split {s u : σ} {first second : List ℓ}
    (hrun : Run step ok s (first ++ second) u) :
    ∃ t, Run step ok s first t ∧ Run step ok t second u := by
  induction first generalizing s with
  | nil => exact ⟨s, .nil s, hrun⟩
  | cons l first ih =>
      cases hrun with
      | cons hok hstep hrest =>
          obtain ⟨t, hfirst, hsecond⟩ := ih hrest
          exact ⟨t, .cons hok hstep hfirst, hsecond⟩

theorem Run.mono {s t : σ} {labels : List ℓ}
    (hweaken : ∀ s l, ok s l → ok' s l) (hrun : Run step ok s labels t) :
    Run step ok' s labels t := by
  induction hrun with
  | nil s => exact .nil s
  | cons hok hstep _ ih => exact .cons (hweaken _ _ hok) hstep ih

theorem Run.labelled (admitted : ℓ → Prop) {s t : σ} {labels : List ℓ}
    (hrun : Run step ok s labels t) (hadmitted : ∀ l ∈ labels, admitted l) :
    Run step (fun _ l => admitted l) s labels t := by
  induction hrun with
  | nil s => exact .nil s
  | cons _ hstep _ ih =>
      rw [List.forall_mem_cons] at hadmitted
      exact .cons hadmitted.1 hstep (ih hadmitted.2)

/-- The invariant rule: what every admitted step preserves, every run
preserves. -/
theorem Run.invariant (Inv : σ → Prop) {s t : σ} {labels : List ℓ}
    (hpreserved : ∀ s l t, Inv s → ok s l → step s l = some t → Inv t)
    (hrun : Run step ok s labels t) (hstart : Inv s) : Inv t := by
  induction hrun with
  | nil => exact hstart
  | cons hok hstep _ ih => exact ih (hpreserved _ _ _ hstart hok hstep)

theorem Run.accumulates {α : Type w} (Inv : σ → Prop) (total : σ → List α) (added : ℓ → List α)
    {s t : σ} {labels : List ℓ}
    (hpreserved : ∀ s l t, Inv s → ok s l → step s l = some t →
      Inv t ∧ total t = total s ++ added l)
    (hrun : Run step ok s labels t) (hstart : Inv s) :
    Inv t ∧ total t = total s ++ labels.flatMap added := by
  induction hrun with
  | nil => exact ⟨hstart, (List.append_nil _).symm⟩
  | @cons s t u l labels hok hstep _ ih =>
      obtain ⟨hnext, hadded⟩ := hpreserved s l t hstart hok hstep
      obtain ⟨hend, hrest⟩ := ih hnext
      refine ⟨hend, ?_⟩
      rw [hrest, hadded, List.flatMap_cons, List.append_assoc]

theorem Run.deterministic {s t t' : σ} {labels : List ℓ}
    (hrun : Run step ok s labels t) (hrun' : Run step ok' s labels t') :
    t = t' := by
  induction hrun with
  | nil s => cases hrun'; rfl
  | cons _ hstep _ ih =>
      cases hrun' with
      | cons _ hstep' hrest =>
          rw [hstep] at hstep'
          cases hstep'
          exact ih hrest

/-- `Safe` holds all along a run exactly if every step of the run is admitted,
when the admitted steps preserve an invariant that implies `Safe` and any other
step breaks `Safe` at once. -/
theorem Run.restricted_iff_safe (Inv Safe : σ → Prop) {s t : σ} {labels : List ℓ}
    (hpreserved : ∀ s l t, Inv s → ok s l → step s l = some t → Inv t)
    (hsafe : ∀ s, Inv s → Safe s)
    (hbroken : ∀ s l t, Inv s → step s l = some t → Safe t → ok s l)
    (hrun : Run step Unrestricted s labels t) (hstart : Inv s) :
    Run step ok s labels t ↔
      ∀ first second m, labels = first ++ second →
        Run step Unrestricted s first m → Safe m := by
  constructor
  · intro hrestricted first second m hlabels hfirst
    subst hlabels
    obtain ⟨m', hfirst', -⟩ := hrestricted.split
    have hm : m = m' := hfirst.deterministic hfirst'
    subst hm
    exact hsafe m (hfirst'.invariant Inv hpreserved hstart)
  · intro halways
    induction hrun with
    | nil s => exact .nil s
    | @cons s t u l labels _ hstep hrest ih =>
        have ht : Safe t := halways [l] labels t rfl (.single trivial hstep)
        have hok : ok s l := hbroken s l t hstart hstep ht
        refine .cons hok hstep (ih (hpreserved s l t hstart hok hstep) ?_)
        intro first second m hlabels hfirst
        exact halways (l :: first) second m (by simp [hlabels])
          (.cons trivial hstep hfirst)

def exec (step : σ → ℓ → Option σ) (s : σ) : List ℓ → Option σ
  | [] => some s
  | l :: labels => (step s l).bind fun t => exec step t labels

theorem run_of_exec {s t : σ} {labels : List ℓ}
    (hexec : exec step s labels = some t) : Run step Unrestricted s labels t := by
  induction labels generalizing s with
  | nil =>
      cases hexec
      exact .nil _
  | cons l labels ih =>
      obtain ⟨m, hstep, hrest⟩ := Option.bind_eq_some_iff.mp hexec
      exact .cons trivial hstep (ih hrest)

def guarded (step : σ → ℓ → Option σ) (ok : σ → ℓ → Prop) [∀ s l, Decidable (ok s l)]
    (s : σ) (l : ℓ) : Option σ :=
  if ok s l then step s l else none

theorem run_of_exec_guarded [∀ s l, Decidable (ok s l)] {s t : σ} {labels : List ℓ}
    (hexec : exec (guarded step ok) s labels = some t) : Run step ok s labels t := by
  induction labels generalizing s with
  | nil =>
      cases hexec
      exact .nil _
  | cons l labels ih =>
      obtain ⟨m, hstep, hrest⟩ := Option.bind_eq_some_iff.mp hexec
      unfold guarded at hstep
      split at hstep
      · rename_i hok
        exact .cons hok hstep (ih hrest)
      · cases hstep

end HaybarnHttpfs.Foundation.TransitionRuns
