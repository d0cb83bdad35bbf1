import Mathlib.Data.List.Forall2

/-!
# Paths matched step by step

A pattern is a list of segments and a path a list of steps; a pattern
matches a path segment by segment, `fits` saying which segment matches which
step. A walk that descends one step at a time keeps each pattern with the
number of segments matched so far, and drops it where the next segment does
not match: `advance`.

After any path, what is kept is the patterns whose beginning matches it
(`advance_started`), so the first of them that is at its end is the first
that matches the whole path (`find?_complete`).
-/

namespace Common

namespace Path

variable {S P R : Type*} (fits : P → S → Bool)

/-- A pattern matches a whole path. -/
def matchAll : List P → List S → Bool
  | [], [] => true
  | p :: ps, s :: ss => fits p s && matchAll ps ss
  | _, _ => false

/-- The beginning of a pattern matches a path. -/
def matchStart : List P → List S → Bool
  | _, [] => true
  | p :: ps, s :: ss => fits p s && matchStart ps ss
  | [], _ :: _ => false

/-- The patterns kept that go on, one segment further. -/
def advance (next : R → ℕ → Bool) (kept : List (R × ℕ)) : List (R × ℕ) :=
  (kept.filter fun r => next r.1 r.2).map fun r => (r.1, r.2 + 1)

/-- What is to be kept after a path: the patterns it is the beginning of. -/
def started (segments : R → List P) (patterns : List R) (path : List S) : List (R × ℕ) :=
  (patterns.filter fun r => matchStart fits (segments r) path).map fun r => (r, path.length)

/-- A whole match is a match that ends with the pattern. -/
theorem matchAll_eq (ps : List P) (ss : List S) :
    matchAll fits ps ss = (matchStart fits ps ss && decide (ss.length = ps.length)) := by
  induction ps generalizing ss with
  | nil => cases ss <;> rfl
  | cons p ps ih =>
      cases ss with
      | nil => rfl
      | cons s ss => simp [matchAll, matchStart, ih, Bool.and_assoc]

/-- A whole match, segment by segment. -/
theorem matchAll_iff {ps : List P} {ss : List S} :
    matchAll fits ps ss = true ↔ List.Forall₂ (fun p s => fits p s = true) ps ss := by
  induction ps generalizing ss with
  | nil => cases ss <;> simp [matchAll]
  | cons p ps ih =>
      cases ss with
      | nil => simp [matchAll]
      | cons s ss => simp [matchAll, ih]

/-- One more step is matched by the next segment. -/
theorem matchStart_concat (ps : List P) (ss : List S) (s : S) :
    matchStart fits ps (ss ++ [s]) =
      (matchStart fits ps ss && (ps[ss.length]?).any fun p => fits p s) := by
  induction ps generalizing ss with
  | nil => cases ss <;> simp [matchStart]
  | cons p ps ih =>
      cases ss with
      | nil => simp [matchStart]
      | cons s' ss => simp [matchStart, ih, Bool.and_assoc]

variable {fits} {segments : R → List P} {patterns : List R} {path : List S}

/-- Before any step every pattern is kept. -/
theorem started_nil : started fits segments patterns ([] : List S) =
    patterns.map fun r => (r, 0) := by
  simp [started, matchStart]

/-- **A step keeps what it has to keep.** -/
theorem advance_started {next : R → ℕ → Bool} {step : S}
    (hnext : ∀ r i, next r i = ((segments r)[i]?).any fun p => fits p step) :
    advance next (started fits segments patterns path) =
      started fits segments patterns (path ++ [step]) := by
  rw [advance, started, List.filter_map, List.filter_filter, List.map_map, started,
    List.length_append, List.length_singleton]
  refine congrArg (List.map _) (List.filter_congr fun r _ => ?_)
  rw [matchStart_concat, Bool.and_comm]
  simp only [Function.comp_apply, hnext]

variable (fits segments patterns path) in
/-- **The first kept pattern at its end is the first that matches the whole
path.** -/
theorem find?_complete :
    (started fits segments patterns path).find? (fun r => r.2 = (segments r.1).length) =
      (patterns.find? fun r => matchAll fits (segments r) path).map fun r => (r, path.length) := by
  rw [started, List.find?_map, List.find?_filter]
  refine congrArg (Option.map _) (congrArg (List.find? · patterns) (funext fun r => ?_))
  rw [matchAll_eq]
  simp only [Function.comp_apply, Bool.decide_and, Bool.decide_eq_true]

/-- Some kept pattern is at its end where some pattern matches the whole
path. -/
theorem any_complete :
    (started fits segments patterns path).any (fun r => r.2 = (segments r.1).length) =
      patterns.any fun r => matchAll fits (segments r) path := by
  rw [started, List.any_map, List.any_filter]
  refine congrArg (List.any patterns) (funext fun r => ?_)
  rw [matchAll_eq]
  simp only [Function.comp_apply]

end Path

end Common
