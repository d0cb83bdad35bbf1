import Mathlib.Data.List.Basic

/-!
# Machines and their runs

A machine moves from state to state by labelled steps; a label with no
step is not enabled. `Run ok ls s` is a run from the initial state taking
the labels `ls`, each of them in a state where `ok` allows it: `Free`
allows everything, and a narrower `ok` is how a result is stated of the
runs whose steps all meet a condition.

Every law of a machine is an instance of one of three rules: `invariant`
(what each step preserves holds in every state reached), `mono` (a condition
that holds of the steps of a run may be put for the one it was run under),
`simulate` (each step of one machine is a run of another).
-/

namespace Common

/-- **A labelled transition system with an initial state.** -/
structure Machine (S L : Type*) where
  init : S
  /-- The state a label leads to, `none` where the label is not enabled. -/
  step : S → L → Option S

namespace Machine

variable {S L T K : Type*} {M : Machine S L} {ok ok' : S → L → Prop}

/-- Every label is allowed. -/
abbrev Free : S → L → Prop := fun _ _ => True

variable (M) in
/-- **A run whose steps all meet a condition.** -/
inductive Run (ok : S → L → Prop) : List L → S → Prop
  /-- Nothing has happened. -/
  | nil : Run ok [] M.init
  /-- One more step. -/
  | snoc {ls : List L} {s s' : S} {l : L} :
      Run ok ls s → ok s l → M.step s l = some s' → Run ok (ls ++ [l]) s'

namespace Run

/-- **What every step preserves holds in every state reached.** -/
theorem invariant {I : S → Prop} (hinit : I M.init)
    (hstep : ∀ s l s', I s → ok s l → M.step s l = some s' → I s')
    {ls : List L} {s : S} (h : M.Run ok ls s) : I s := by
  induction h with
  | nil => exact hinit
  | snoc _ hok hs ih => exact hstep _ _ _ ih hok hs

/-- A run under a condition is one under any other that its steps meet. -/
theorem mono (hok : ∀ ls s l, M.Run ok ls s → ok s l → ok' s l) {ls : List L} {s : S}
    (h : M.Run ok ls s) : M.Run ok' ls s := by
  induction h with
  | nil => exact .nil
  | snoc hrun hl hs ih => exact .snoc ih (hok _ _ _ hrun hl) hs

end Run

/-! ## Executing labels -/

variable (M) in
/-- The state a list of labels leads to from `s`. -/
def exec (s : S) : List L → Option S
  | [] => some s
  | l :: ls => (M.step s l).bind fun s' => exec s' ls

/-- Executing after a run extends it. -/
theorem Run.exec {ls ks : List L} {s s' : S} (h : M.Run Free ls s)
    (hs : M.exec s ks = some s') : M.Run Free (ls ++ ks) s' := by
  induction ks generalizing ls s with
  | nil =>
      rw [Machine.exec, Option.some.injEq] at hs
      rw [List.append_nil, ← hs]
      exact h
  | cons k ks ih =>
      rw [Machine.exec, Option.bind_eq_some_iff] at hs
      obtain ⟨m, hm, hrest⟩ := hs
      rw [List.append_cons]
      exact ih (h.snoc trivial hm) hrest

/-- **Simulation**: where each step maps to labels that the other machine
executes, none or many, every state reached maps to one reached there. -/
theorem Run.simulate {N : Machine T K} (f : S → T) (hinit : f M.init = N.init)
    (hstep : ∀ s l s', ok s l → M.step s l = some s' → ∃ ks, N.exec (f s) ks = some (f s'))
    {ls : List L} {s : S} (h : M.Run ok ls s) : ∃ ks, N.Run Free ks (f s) := by
  induction h with
  | nil => exact ⟨[], hinit ▸ .nil⟩
  | snoc _ hok hs ih =>
      obtain ⟨ks, hks⟩ := ih
      obtain ⟨ks', hks'⟩ := hstep _ _ _ hok hs
      exact ⟨ks ++ ks', hks.exec hks'⟩

/-- Labels that execute from the initial state are a run. -/
theorem run_of_exec {ls : List L} {s : S} (h : M.exec M.init ls = some s) : M.Run Free ls s :=
  Run.exec Run.nil h

variable (M) in
/-- The machine without the steps a condition does not allow. -/
def restrict (ok : S → L → Prop) [∀ s l, Decidable (ok s l)] : Machine S L :=
  ⟨M.init, fun s l => if ok s l then M.step s l else none⟩

/-- Its runs are the runs whose steps all meet the condition. -/
theorem run_of_restrict [∀ s l, Decidable (ok s l)] {ls : List L} {s : S}
    (h : (M.restrict ok).Run Free ls s) : M.Run ok ls s := by
  induction h with
  | nil => exact .nil
  | snoc _ _ hs ih =>
      change (if ok _ _ then M.step _ _ else none) = some _ at hs
      split at hs
      · exact ih.snoc ‹_› hs
      · cases hs

end Machine

end Common
