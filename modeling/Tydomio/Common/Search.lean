import Tydomio.Common.Text

/-!
# Where a separator stands

`Text.indexOf` and `Text.split` read back what a separator was written
into. The first occurrence is the one before which none is, the
separator's own start included (`indexOf_eq_some_iff`): a separator that
can begin inside itself is found too early otherwise. Where the pieces do
not hold the separator's first item at all, nothing can begin in them, and
splitting a joined list gives the pieces back (`split_intercalate`).
-/

namespace Common

namespace Text

variable {α : Type*} [DecidableEq α] {sub xs before after : List α}

/-! ## The first occurrence -/

/-- A separator is found where it was put, unless it occurs before. -/
theorem indexOf_append (hne : sub ≠ []) (h : ¬ sub <:+: before ++ sub.dropLast) :
    indexOf sub (before ++ sub ++ after) = some before.length := by
  induction before with
  | nil =>
      obtain ⟨x, sub, rfl⟩ := List.exists_cons_of_ne_nil hne
      simp [indexOf]
  | cons x before ih =>
      -- an occurrence at the head ends before the separator's own last item
      have hstart : ¬ sub <+: x :: (before ++ sub ++ after) := by
        intro hpre
        apply h
        have hsub : sub.dropLast ++ [sub.getLast hne] = sub := List.dropLast_append_getLast hne
        have hlong : x :: (before ++ sub ++ after) =
            (x :: before ++ sub.dropLast) ++ (sub.getLast hne :: after) := by
          conv_lhs => rw [← hsub]
          simp
        rw [hlong] at hpre
        have hlength : sub.length ≤ (x :: before ++ sub.dropLast).length := by
          rw [List.length_append, List.length_cons, List.length_dropLast]
          omega
        exact (List.prefix_of_prefix_length_le hpre (List.prefix_append _ _) hlength).isInfix
      have hrest : ¬ sub <:+: before ++ sub.dropLast :=
        fun hin => h (hin.trans (List.suffix_cons x _).isInfix)
      rw [List.cons_append, List.cons_append, indexOf, if_neg hstart, ih hrest]
      rfl

/-- **The first occurrence**: it is at a place, and no occurrence begins
before it. -/
theorem indexOf_eq_some_iff {i : ℕ} (hne : sub ≠ []) :
    indexOf sub xs = some i ↔ ∃ before after, xs = before ++ sub ++ after ∧
      before.length = i ∧ ¬ sub <:+: before ++ sub.dropLast := by
  constructor
  · intro h
    induction xs generalizing i with
    | nil => rw [indexOf, if_neg hne] at h; cases h
    | cons x xs ih =>
        rw [indexOf] at h
        split at h
        · rename_i hpre
          obtain ⟨after, hafter⟩ := hpre
          obtain rfl := Option.some.inj h
          refine ⟨[], after, by rw [List.nil_append, hafter], rfl, fun hin => ?_⟩
          have hlength := hin.length_le
          have hpos := List.length_pos_iff.2 hne
          rw [List.nil_append, List.length_dropLast] at hlength
          omega
        · rename_i hpre
          obtain ⟨j, hj, rfl⟩ := Option.map_eq_some_iff.1 h
          obtain ⟨before, after, rfl, rfl, hno⟩ := ih hj
          refine ⟨x :: before, after, rfl, rfl, fun hin => ?_⟩
          rw [List.cons_append, List.infix_cons_iff] at hin
          refine hin.elim (fun hstart => hpre (hstart.trans ?_)) hno
          have hsub := List.dropLast_prefix sub
          exact List.prefix_cons_iff.2 (.inr ⟨_, rfl,
            ((List.prefix_append_right_inj before).2 hsub).trans (List.prefix_append _ _)⟩)
  · rintro ⟨before, after, rfl, rfl, h⟩
    exact indexOf_append hne h

/-- From a position on, the first occurrence is that of the rest. -/
theorem find_append {i : ℕ} (hne : sub ≠ []) (h : ¬ sub <:+: before ++ sub.dropLast)
    (hi : xs.drop i = before ++ sub ++ after) : find sub xs i = some (i + before.length) := by
  rw [find, hi, indexOf_append hne h]
  rfl

/-- The converse: what is found is the first occurrence of the rest. -/
theorem exists_of_find {i j : ℕ} (hne : sub ≠ []) (h : find sub xs i = some j) :
    ∃ before after, xs.drop i = before ++ sub ++ after ∧ j = i + before.length ∧
      ¬ sub <:+: before ++ sub.dropLast := by
  obtain ⟨k, hk, rfl⟩ := Option.map_eq_some_iff.1 h
  obtain ⟨before, after, hdrop, rfl, hno⟩ := (indexOf_eq_some_iff hne).1 hk
  exact ⟨before, after, hdrop, rfl, hno⟩

/-- What stands before the first separator and what after. -/
theorem partition_append (hne : sub ≠ []) (h : ¬ sub <:+: before ++ sub.dropLast) :
    partition sub (before ++ sub ++ after) = some (before, after) := by
  rw [partition, indexOf_append hne h, Option.map_some, ← List.length_append,
    List.drop_left, List.append_assoc, List.take_left]

/-! ## Pieces without the separator's first item -/

section Pieces

variable {x : α} {sep line : List α}

omit [DecidableEq α] in
/-- Nothing begins in a piece. -/
theorem infix_append_iff_of_not_mem (h : x ∉ line) :
    (x :: sep) <:+: line ++ xs ↔ (x :: sep) <:+: xs := by
  induction line with
  | nil => rfl
  | cons y line ih =>
      rw [List.mem_cons, not_or] at h
      have hstart : ¬ (x :: sep) <+: y :: (line ++ xs) :=
        fun hpre => h.1 (List.cons_prefix_cons.1 hpre).1
      rw [List.cons_append, List.infix_cons_iff, or_iff_right hstart, ih h.2]

theorem splitFrom_skip (skipped piece : List α) :
    splitFrom sep skipped.length piece (skipped ++ xs) = splitFrom sep 0 piece xs := by
  induction skipped with
  | nil => rfl
  | cons y skipped ih => rw [List.length_cons, List.cons_append, splitFrom, ih]

theorem splitFrom_append (h : x ∉ line) (piece : List α) :
    splitFrom (x :: sep) 0 piece (line ++ xs) =
      splitFrom (x :: sep) 0 (line.reverse ++ piece) xs := by
  induction line generalizing piece with
  | nil => rfl
  | cons y line ih =>
      rw [List.mem_cons, not_or] at h
      have hstart : ¬ (x :: sep) <+: y :: (line ++ xs) :=
        fun hpre => h.1 (List.cons_prefix_cons.1 hpre).1
      rw [List.cons_append, splitFrom, if_neg hstart, ih h.2, List.reverse_cons,
        List.append_assoc, List.singleton_append]

/-- One piece, then the rest. -/
theorem split_append (h : x ∉ line) :
    split (x :: sep) (line ++ (x :: sep) ++ xs) = line :: split (x :: sep) xs := by
  have hstart : (x :: sep) <+: x :: (sep ++ xs) := List.prefix_append (x :: sep) xs
  rw [split, List.append_assoc, splitFrom_append h, List.cons_append, splitFrom, if_pos hstart,
    List.length_cons, Nat.add_sub_cancel, splitFrom_skip, List.append_nil, List.reverse_reverse]
  rfl

theorem split_of_not_mem (h : x ∉ line) : split (x :: sep) line = [line] := by
  have happend : splitFrom (x :: sep) 0 [] (line ++ []) =
      splitFrom (x :: sep) 0 (line.reverse ++ []) [] := splitFrom_append h []
  rw [List.append_nil, List.append_nil] at happend
  rw [split, happend, splitFrom, List.reverse_reverse]

/-- **Splitting a joined list gives its pieces back.** -/
theorem split_intercalate {lines : List (List α)} (hne : lines ≠ [])
    (h : ∀ line ∈ lines, x ∉ line) :
    split (x :: sep) ((x :: sep).intercalate lines) = lines := by
  induction lines with
  | nil => exact absurd rfl hne
  | cons line lines ih =>
      have hline := h line List.mem_cons_self
      rcases lines with _ | ⟨next, lines⟩
      · rw [List.intercalate_singleton, split_of_not_mem hline]
      · rw [List.intercalate_cons_cons, split_append hline,
          ih (List.cons_ne_nil _ _) fun l hl => h l (List.mem_cons_of_mem _ hl)]

omit [DecidableEq α] in
/-- A separator does not begin a doubled one where something else follows. -/
theorem double_infix_append_iff {y : α} (hx : x ∉ sep) (hy : x ≠ y) :
    (x :: sep) ++ (x :: sep) <:+: (x :: sep) ++ y :: xs ↔
      (x :: sep) ++ (x :: sep) <:+: y :: xs := by
  have hstart : ¬ (x :: sep) ++ (x :: sep) <+: (x :: sep) ++ y :: xs :=
    fun hpre => hy (List.cons_prefix_cons.1 ((List.prefix_append_right_inj _).1 hpre)).1
  rw [List.cons_append, List.cons_append] at hstart ⊢
  rw [List.infix_cons_iff, or_iff_right hstart, infix_append_iff_of_not_mem hx]

omit [DecidableEq α] in
/-- Between pieces that are not empty the separator stands once: written
twice it first occurs at the end. -/
theorem not_infix_intercalate {lines : List (List α)} (hx : x ∉ sep) (hne : lines ≠ [])
    (h : ∀ line ∈ lines, line ≠ [] ∧ x ∉ line) :
    ¬ (x :: sep) ++ (x :: sep) <:+:
      (x :: sep).intercalate lines ++ ((x :: sep) ++ (x :: sep)).dropLast := by
  induction lines with
  | nil => exact absurd rfl hne
  | cons line lines ih =>
      have hline := (h line List.mem_cons_self).2
      rcases lines with _ | ⟨next, lines⟩
      · rw [List.intercalate_singleton, List.cons_append, infix_append_iff_of_not_mem hline]
        intro hin
        have hlength := hin.length_le
        rw [List.length_dropLast, List.length_cons] at hlength
        omega
      · obtain ⟨⟨y, next, rfl⟩, hnext⟩ : (∃ y ys, next = y :: ys) ∧ x ∉ next :=
          ⟨List.exists_cons_of_ne_nil (h next (by simp)).1, (h next (by simp)).2⟩
        have hrest := ih (List.cons_ne_nil _ _) fun l hl => h l (List.mem_cons_of_mem _ hl)
        rw [List.intercalate_cons_cons, List.append_assoc, List.append_assoc, List.cons_append,
          infix_append_iff_of_not_mem hline, ← List.cons_append]
        have hy : x ≠ y := fun hxy => hnext (hxy ▸ List.mem_cons_self)
        rw [List.intercalate_cons_cons_left] at hrest ⊢
        generalize ((x :: sep) ++ (x :: sep)).dropLast = start at hrest ⊢
        generalize (x :: sep).intercalate (next :: lines) = rest at hrest ⊢
        exact fun hin => hrest ((double_infix_append_iff hx hy).1 hin)

end Pieces

/-! ## Joined pieces -/

section Joined

omit [DecidableEq α]

/-- An item of a joined list is one of the separator or of a piece. -/
theorem mem_intercalate {x : α} {lines : List (List α)} (h : x ∈ sub.intercalate lines) :
    x ∈ sub ∨ ∃ line ∈ lines, x ∈ line := by
  induction lines with
  | nil => cases h
  | cons line lines ih =>
      rcases lines with _ | ⟨next, lines⟩
      · rw [List.intercalate_singleton] at h
        exact .inr ⟨line, List.mem_cons_self, h⟩
      · rw [List.intercalate_cons_cons, List.mem_append, List.mem_append, or_assoc] at h
        rcases h with hline | hsub | hrest
        · exact .inr ⟨line, List.mem_cons_self, hline⟩
        · exact .inl hsub
        · refine (ih hrest).imp_right ?_
          rintro ⟨piece, hpiece, hx⟩
          exact ⟨piece, List.mem_cons_of_mem _ hpiece, hx⟩

theorem map_intercalate {β : Type*} (f : α → β) (lines : List (List α)) :
    (sub.intercalate lines).map f = (sub.map f).intercalate (lines.map (List.map f)) := by
  induction lines with
  | nil => rfl
  | cons line lines ih =>
      rcases lines with _ | ⟨next, lines⟩
      · simp only [List.intercalate_singleton, List.map_cons, List.map_nil]
      · rw [List.intercalate_cons_cons, List.map_append, List.map_append, ih]
        simp only [List.map_cons, List.intercalate_cons_cons]

end Joined

/-! ## Sides -/

section Sides

omit [DecidableEq α]

/-- What ends with an item is not in what lacks it. -/
theorem infix_append_singleton_iff_of_not_mem {x : α} {ys : List α} (hx : x ∉ after) :
    ys ++ [x] <:+: before ++ after ↔ ys ++ [x] <:+: before := by
  refine ⟨fun h => ?_, fun h => h.trans (List.prefix_append _ _).isInfix⟩
  rcases List.infix_append_iff.1 h with hleft | hright | ⟨front, back, heq, hfront, hback⟩
  · exact hleft
  · exact absurd (hright.subset (List.mem_append_right _ List.mem_cons_self)) hx
  · rcases List.eq_nil_or_concat back with rfl | ⟨back, y, rfl⟩
    · rw [heq, List.append_nil]
      exact hfront.isInfix
    · rw [List.concat_eq_append, ← List.append_assoc] at heq
      obtain ⟨-, hxy⟩ := List.append_inj' heq rfl
      rw [List.concat_eq_append, ← hxy] at hback
      exact absurd (hback.subset (List.mem_append_right _ List.mem_cons_self)) hx

/-- What lacks an item is on one side of it. -/
theorem infix_or_infix_of_not_mem {x : α} (h : sub <:+: before ++ x :: after) (hx : x ∉ sub) :
    sub <:+: before ∨ sub <:+: after := by
  rcases List.infix_append_iff.1 h with hleft | hright | ⟨front, back, rfl, hfront, hback⟩
  · exact .inl hleft
  · rcases List.infix_cons_iff.1 hright with hpre | hin
    · cases sub with
      | nil => exact .inl (List.nil_infix)
      | cons y ys =>
          obtain ⟨rfl, -⟩ := List.cons_prefix_cons.1 hpre
          exact absurd List.mem_cons_self hx
    · exact .inr hin
  · cases back with
    | nil =>
        rw [List.append_nil]
        exact .inl hfront.isInfix
    | cons y ys =>
        obtain ⟨rfl, -⟩ := List.cons_prefix_cons.1 hback
        exact absurd (List.mem_append_right _ List.mem_cons_self) hx

end Sides

/-! ## Reading from a position -/

section Positions

omit [DecidableEq α]

/-- Past what stands at a position. -/
theorem drop_of_drop {i : ℕ} (h : xs.drop i = before ++ after) :
    xs.drop (i + before.length) = after := by
  rw [← List.drop_drop, h, List.drop_left]

/-- The slice of what stands at a position. -/
theorem slice_of_drop {i : ℕ} (h : xs.drop i = before ++ after) :
    slice xs i (i + before.length) = before := by
  rw [slice, List.drop_take, h, Nat.add_sub_cancel_left, List.take_left]

/-- A slice of full length is what stands at its position. -/
theorem drop_eq_of_slice {i n : ℕ} {ys : List α} (h : slice xs i (i + n) = ys) :
    xs.drop i = ys ++ xs.drop (i + n) := by
  rw [slice, List.drop_take, Nat.add_sub_cancel_left] at h
  rw [← List.drop_drop, ← h, List.take_append_drop]

end Positions

/-! ## Removing a prefix and stripping -/

/-- The prefix that was put in front is removed. -/
@[simp] theorem removePrefix_append (p : List α) : removePrefix p (p ++ xs) = xs := by
  rw [removePrefix, if_pos (List.prefix_append p xs), List.drop_left]

omit [DecidableEq α] in
/-- An item of the kind in front is stripped. -/
theorem strip_cons {p : α → Bool} {x : α} (h : p x = true) : strip p (x :: xs) = strip p xs := by
  rw [strip, List.dropWhile_cons, if_pos h, strip]

omit [DecidableEq α] in
/-- Nothing is stripped where nothing is of the kind. -/
theorem strip_of_forall {p : α → Bool} (h : ∀ x ∈ xs, p x = false) : strip p xs = xs := by
  have hleft : xs.dropWhile p = xs := by
    cases xs with
    | nil => rfl
    | cons x xs =>
        rw [List.dropWhile_cons, if_neg]
        rw [h x List.mem_cons_self]
        exact Bool.false_ne_true
  rw [strip, hleft, List.rdropWhile_eq_self_iff]
  intro hne hlast
  rw [h _ (List.getLast_mem hne)] at hlast
  exact Bool.false_ne_true hlast

end Text

end Common
