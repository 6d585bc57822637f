/-
Runs of a step function that may block.

The watcher calls, the timer loop and the streams reading the registry's channel are each
modelled as a step function `σ → α → Option (σ × List ε)`: from a state and an input, the
next state and what the step did (the events it emitted), or `none` where the step cannot
happen or never returns (a send on a full channel, a receive on an empty one).
`runSteps` chains such steps left to right and concatenates what they did.

The lemmas below are the induction over a run, stated once: a model proves what one step
preserves, and `runSteps_induction` gives it for every run; `runSteps_total` does the same
for a model whose steps never block under its invariant.
-/
import Mathlib.Logic.Basic
import Mathlib.Data.List.Basic

namespace MetrikaAgent

variable {σ α ε : Type}

/-- Run `step` over the inputs in order, concatenating the events of each step; `none` as
soon as one step is not possible. -/
def runSteps (step : σ → α → Option (σ × List ε)) (s : σ) (as : List α) : Option (σ × List ε) :=
  as.foldl (fun acc a => acc.bind fun p => (step p.1 a).map fun q => (q.1, p.2 ++ q.2))
    (some (s, []))

variable {step : σ → α → Option (σ × List ε)}

@[simp] theorem runSteps_nil (s : σ) : runSteps step s [] = some (s, []) := rfl

@[simp] theorem runSteps_singleton (s : σ) (a : α) : runSteps step s [a] = step s a := by
  simp only [runSteps, List.foldl_cons, List.foldl_nil, Option.some_bind, List.nil_append]
  cases step s a <;> rfl

theorem runSteps_snoc (s : σ) (as : List α) (a : α) :
    runSteps step s (as ++ [a]) =
      (runSteps step s as).bind fun p => (step p.1 a).map fun q => (q.1, p.2 ++ q.2) := by
  simp only [runSteps, List.foldl_append, List.foldl_cons, List.foldl_nil]

theorem runSteps_append (s : σ) (as bs : List α) :
    runSteps step s (as ++ bs) =
      (runSteps step s as).bind fun p => (runSteps step p.1 bs).map fun q => (q.1, p.2 ++ q.2) := by
  induction bs using List.reverseRecOn with
  | nil =>
    rw [List.append_nil]
    cases runSteps step s as <;> simp
  | append_singleton bs b ih =>
    rw [← List.append_assoc, runSteps_snoc, ih]
    cases runSteps step s as with
    | none => rfl
    | some p =>
      simp only [Option.some_bind, runSteps_snoc]
      cases runSteps step p.1 bs with
      | none => rfl
      | some q => simp [Function.comp_def]

theorem runSteps_cons (s : σ) (a : α) (as : List α) :
    runSteps step s (a :: as) =
      (step s a).bind fun q => (runSteps step q.1 as).map fun r => (r.1, q.2 ++ r.2) := by
  rw [← List.singleton_append, runSteps_append, runSteps_singleton]

theorem runSteps_append_eq_some {s t : σ} {as bs : List α} {e : List ε}
    (h : runSteps step s (as ++ bs) = some (t, e)) :
    ∃ t₁ e₁ e₂, runSteps step s as = some (t₁, e₁) ∧ runSteps step t₁ bs = some (t, e₂) ∧
      e = e₁ ++ e₂ := by
  rw [runSteps_append, Option.bind_eq_some] at h
  obtain ⟨⟨t₁, e₁⟩, h₁, h⟩ := h
  obtain ⟨⟨t₂, e₂⟩, h₂, h⟩ := Option.map_eq_some'.1 h
  obtain ⟨rfl, rfl⟩ := Prod.mk.inj h
  exact ⟨t₁, e₁, e₂, h₁, h₂, rfl⟩

theorem runSteps_snoc_eq_some {s t' : σ} {as : List α} {a : α} {e : List ε}
    (h : runSteps step s (as ++ [a]) = some (t', e)) :
    ∃ t e₁ e₂, runSteps step s as = some (t, e₁) ∧ step t a = some (t', e₂) ∧ e = e₁ ++ e₂ := by
  rw [runSteps_snoc, Option.bind_eq_some] at h
  obtain ⟨⟨t, e₁⟩, hrun, h⟩ := h
  obtain ⟨⟨t'', e₂⟩, hs, h⟩ := Option.map_eq_some'.1 h
  obtain ⟨rfl, rfl⟩ := Prod.mk.inj h
  exact ⟨t, e₁, e₂, hrun, hs, rfl⟩

/-- Induction over a run: a property of the inputs so far, the state and the events that
holds at the start and is kept by every step holds at the end of every run. -/
theorem runSteps_induction (P : List α → σ → List ε → Prop) {s : σ} (h₀ : P [] s [])
    (hstep : ∀ as t e a t' e', P as t e → step t a = some (t', e') → P (as ++ [a]) t' (e ++ e'))
    {as : List α} {t : σ} {e : List ε} (h : runSteps step s as = some (t, e)) : P as t e := by
  induction as using List.reverseRecOn generalizing t e with
  | nil =>
    obtain ⟨rfl, rfl⟩ := Prod.mk.inj (Option.some.inj h)
    exact h₀
  | append_singleton as a ih =>
    obtain ⟨t₁, e₁, e₂, h₁, h₂, rfl⟩ := runSteps_snoc_eq_some h
    exact hstep _ _ _ _ _ _ (ih h₁) h₂

/-- A run whose every step is possible under an invariant that each step keeps never
blocks, and ends in a state satisfying the invariant. -/
theorem runSteps_total (P : List α → σ → List ε → Prop) {s : σ} (h₀ : P [] s [])
    (hstep : ∀ as t e a, P as t e → ∃ t' e', step t a = some (t', e') ∧ P (as ++ [a]) t' (e ++ e'))
    (as : List α) : ∃ t e, runSteps step s as = some (t, e) ∧ P as t e := by
  induction as using List.reverseRecOn with
  | nil => exact ⟨s, [], rfl, h₀⟩
  | append_singleton as a ih =>
    obtain ⟨t, e, hrun, hP⟩ := ih
    obtain ⟨t', e', hs, hP'⟩ := hstep _ _ _ _ hP
    exact ⟨t', e ++ e', by simp [runSteps_snoc, hrun, hs], hP'⟩

/-- Simulation: when every step of `step` is, after projecting the state and keeping the
events `p` selects, a step of `step'` from the projected state, every run is. -/
theorem runSteps_map {σ' : Type} {step' : σ' → α → Option (σ' × List ε)} (proj : σ → σ')
    (p : ε → Bool)
    (hsim : ∀ s a, (step s a).map (fun r => (proj r.1, r.2.filter p)) = step' (proj s) a)
    (s : σ) (as : List α) :
    (runSteps step s as).map (fun r => (proj r.1, r.2.filter p)) = runSteps step' (proj s) as := by
  induction as using List.reverseRecOn with
  | nil => rfl
  | append_singleton as a ih =>
    rw [runSteps_snoc, runSteps_snoc, ← ih]
    cases runSteps step s as with
    | none => rfl
    | some r =>
      rw [Option.some_bind, Option.map_some', Option.some_bind, ← hsim]
      cases step r.1 a <;> simp

/-! ## Order of events in a trace -/

/-- Every `b` in the trace `l` has an `a` before it. -/
def Precedes (a b : α) (l : List α) : Prop := ∀ pre post, l = pre ++ b :: post → a ∈ pre

theorem precedes_nil (a b : α) : Precedes a b [] := fun pre post h => by simp at h

theorem Precedes.append {a b : α} {l e : List α} (hl : Precedes a b l) (he : b ∈ e → a ∈ l) :
    Precedes a b (l ++ e) := by
  intro pre post h
  rcases List.append_eq_append_iff.1 h with ⟨c, rfl, rfl⟩ | ⟨c, rfl, hc⟩
  · exact List.mem_append_left _ (he (by simp))
  · cases c with
    | nil =>
      rw [List.nil_append] at hc
      simpa using he (hc ▸ List.mem_cons_self _ _)
    | cons x c =>
      obtain ⟨rfl, rfl⟩ := List.cons.inj hc
      exact hl pre c rfl

theorem Precedes.of_filter {p : α → Bool} {a b : α} {l : List α} (h : Precedes a b (l.filter p))
    (hb : p b = true) : Precedes a b l := by
  rintro pre post rfl
  exact (List.mem_filter.1 (h (pre.filter p) (post.filter p) (by simp [hb]))).1

/-- No event satisfying `p` comes after an `a` in the trace `l`. -/
def NoneAfter (a : α) (p : α → Bool) (l : List α) : Prop :=
  ∀ pre post, l = pre ++ a :: post → ∀ x ∈ post, p x = false

theorem noneAfter_of_not_mem {a : α} {p : α → Bool} {l : List α} (h : a ∉ l) :
    NoneAfter a p l := by
  rintro pre post rfl
  simp at h

theorem noneAfter_singleton (a : α) (p : α → Bool) : NoneAfter a p [a] := by
  intro pre post h
  cases pre with
  | nil => obtain ⟨-, rfl⟩ := List.cons.inj h; simp
  | cons x pre => simp at h

theorem NoneAfter.append {a : α} {p : α → Bool} {l e : List α} (hl : NoneAfter a p l)
    (he : NoneAfter a p e) (hle : a ∈ l → ∀ x ∈ e, p x = false) : NoneAfter a p (l ++ e) := by
  intro pre post h
  rcases List.append_eq_append_iff.1 h with ⟨c, rfl, hc⟩ | ⟨c, rfl, hc⟩
  · exact he c post hc
  · cases c with
    | nil => exact he [] post (by simpa using hc.symm)
    | cons x c =>
      obtain ⟨rfl, rfl⟩ := List.cons.inj hc
      intro y hy
      rcases List.mem_append.1 hy with hy | hy
      · exact hl pre c rfl y hy
      · exact hle (by simp) y hy

end MetrikaAgent
