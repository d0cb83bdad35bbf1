import Tydomio.Model.Secrets

/-!
# What the pattern of the secrets matches

`Form.Matches` says which texts a form matches, and the matcher finds a match
wherever there is one (`exists_matchLength`). So a scrubbed text, with the
characters of its markers marked, holds no match that has none of them:
`exists_marked_of_matches`.
-/

namespace Tydomio

variable (sameLetter : Char → Char → Bool)

/-- **The texts that a form matches.** -/
inductive Form.Matches : Form → List Char → Prop
  | nil : Matches [] []
  | letter {c x : Char} {form : Form} {text : List Char} :
      sameLetter c x = true → Matches form text → Matches (.letter c :: form) (x :: text)
  /-- No separator stands there. -/
  | joined {form : Form} {text : List Char} :
      Matches form text → Matches (.separator :: form) text
  | separated {x : Char} {form : Form} {text : List Char} :
      x ∈ [':', '.', '-'] → Matches form text → Matches (.separator :: form) (x :: text)

variable {sameLetter}

/-- A form that is left matches nothing in front of a match. -/
theorem Form.isSome_separator {form : Form} {text : List Char}
    (h : (form.matchLength sameLetter text).isSome = true) :
    (Form.matchLength sameLetter (.separator :: form) text).isSome = true := by
  cases text with
  | nil => exact h
  | cons x xs =>
      rw [matchLength]
      split
      · rw [Option.isSome_or, h, Bool.or_true]
      · exact h

/-- **The matcher finds what a form matches**, whatever follows. -/
theorem Form.exists_matchLength {form : Form} {text : List Char}
    (h : form.Matches sameLetter text) (after : List Char) :
    (form.matchLength sameLetter (text ++ after)).isSome = true := by
  induction h with
  | nil => rw [matchLength]; rfl
  | letter hletter _ ih =>
      rw [List.cons_append, matchLength, if_pos hletter, Option.isSome_map]
      exact ih
  | joined _ ih => exact isSome_separator ih
  | separated hx _ ih =>
      rw [List.cons_append, matchLength, if_pos hx, Option.isSome_or, Option.isSome_map, ih,
        Bool.true_or]

/-- What the matcher finds, a form matches. -/
theorem Form.matches_of_matchLength {form : Form} {text : List Char} {n : ℕ}
    (h : form.matchLength sameLetter text = some n) : form.Matches sameLetter (text.take n) := by
  induction form generalizing text n with
  | nil =>
      rw [matchLength] at h
      cases h
      exact .nil
  | cons step form ih =>
      cases step with
      | letter c =>
          cases text with
          | nil => cases h
          | cons x xs =>
              rw [matchLength] at h
              split at h
              · rename_i hletter
                obtain ⟨m, hm, rfl⟩ := Option.map_eq_some_iff.1 h
                exact .letter hletter (ih hm)
              · cases h
      | separator =>
          cases text with
          | nil => exact .joined (ih h)
          | cons x xs =>
              rw [matchLength] at h
              split at h
              · rename_i hx
                rcases Option.or_eq_some_iff.1 h with htaken | ⟨-, hleft⟩
                · obtain ⟨m, hm, rfl⟩ := Option.map_eq_some_iff.1 htaken
                  exact .separated hx (ih hm)
                · exact .joined (ih hleft)
              · exact .joined (ih h)

/-- A form with a letter matches no empty text. -/
theorem Form.ne_nil_of_matches {form : Form} {c : Char} (hform : .letter c ∈ form)
    {text : List Char} (h : form.Matches sameLetter text) : text ≠ [] := by
  induction h with
  | nil => exact absurd hform List.not_mem_nil
  | letter _ _ _ => exact List.cons_ne_nil _ _
  | joined _ ih => exact ih ((List.mem_cons.1 hform).resolve_left nofun)
  | separated _ _ _ => exact List.cons_ne_nil _ _

namespace Secrets

/-- **A match of the secrets.** -/
def Matches (sameLetter : Char → Char → Bool) (secrets : Secrets) (text : List Char) : Prop :=
  ∃ form ∈ secrets.pattern, form.Matches sameLetter text

/-- **Secrets to look for**: a password that is not empty, a MAC of twelve
hexadecimal digits, and an IP that is not empty, if there is one. -/
structure WellFormed (secrets : Secrets) : Prop where
  password : secrets.password ≠ ""
  digits : secrets.mac.length = 12
  hex : ∀ c ∈ secrets.mac.toList, c.isDigit = true ∨ c ∈ ['a', 'b', 'c', 'd', 'e', 'f'] ∨
    c ∈ ['A', 'B', 'C', 'D', 'E', 'F']
  ip : secrets.ip ≠ some ""

theorem exists_letter_literal {text : List Char} (h : text ≠ []) :
    ∃ c, .letter c ∈ Form.literal text := by
  cases text with
  | nil => exact absurd rfl h
  | cons c cs => exact ⟨c, List.mem_cons_self⟩

theorem exists_letter_separated {text : List Char} (h : text ≠ []) :
    ∃ c, .letter c ∈ Form.separated text := by
  cases text with
  | nil => exact absurd rfl h
  | cons c cs =>
      refine ⟨c, ?_⟩
      rw [Form.separated, List.map_cons]
      cases cs with
      | nil => exact List.mem_cons_self
      | cons d ds => exact List.mem_cons_self

variable {secrets : Secrets} (hsecrets : secrets.WellFormed)

include hsecrets

/-- Each form has a letter. -/
theorem WellFormed.exists_letter : ∀ form ∈ secrets.pattern, ∃ c, .letter c ∈ form := by
  have hlower : (Common.Text.lower secrets.mac.toList).length = 12 := by
    rw [Common.Text.lower, List.length_map, String.length_toList, hsecrets.digits]
  have hpassword : secrets.password.toList ≠ [] := by
    rw [ne_eq, String.toList_eq_nil_iff]
    exact hsecrets.password
  intro form hform
  rw [pattern, List.mem_append] at hform
  rcases hform with hform | hform
  · simp only [List.mem_cons, List.not_mem_nil, or_false] at hform
    rcases hform with rfl | rfl | rfl
    · exact exists_letter_literal hpassword
    · exact exists_letter_separated (List.ne_nil_of_length_pos (by omega))
    · refine exists_letter_separated (List.ne_nil_of_length_pos ?_)
      rw [List.length_drop]
      omega
  · rw [Option.mem_toList, Option.map_eq_some_iff] at hform
    obtain ⟨ip, hip, rfl⟩ := hform
    refine exists_letter_literal fun hnil => hsecrets.ip ?_
    rw [hip, String.toList_eq_nil_iff.1 hnil]

/-- So no match is empty. -/
theorem WellFormed.ne_nil {text : List Char} (h : secrets.Matches sameLetter text) :
    text ≠ [] := by
  obtain ⟨form, hform, hmatches⟩ := h
  obtain ⟨c, hc⟩ := hsecrets.exists_letter form hform
  exact Form.ne_nil_of_matches hc hmatches

/-- Nor is one found that is. -/
theorem WellFormed.matchAt_zero {text : List Char} :
    matchAt sameLetter secrets.pattern 0 text ≠ some 0 := by
  intro h
  obtain ⟨form, hform, hfound⟩ := List.exists_of_findSome?_eq_some h
  obtain ⟨hlength, -⟩ := Option.filter_eq_some_iff.1 hfound
  exact hsecrets.ne_nil ⟨form, hform, Form.matches_of_matchLength hlength⟩ (List.take_zero)

/-! ## Searching -/

section Search

omit hsecrets

/-- **A text holds a match** of one of the forms. -/
def Holds (sameLetter : Char → Char → Bool) (forms : List Form) (text : List Char) : Prop :=
  ∃ found, found <:+: text ∧ ∃ form ∈ forms, form.Matches sameLetter found

theorem Holds.mono {forms : List Form} {text text' : List Char} (h : Holds sameLetter forms text)
    (htext : text <:+: text') : Holds sameLetter forms text' := by
  obtain ⟨found, hfound, hmatches⟩ := h
  exact ⟨found, hfound.trans htext, hmatches⟩

/-- A match is found at its start, whatever follows. -/
theorem isSome_matchAt_iff {forms : List Form} {text : List Char} :
    (matchAt sameLetter forms 0 text).isSome = true ↔
      ∃ found, found <+: text ∧ ∃ form ∈ forms, form.Matches sameLetter found := by
  rw [matchAt, List.findSome?_isSome_iff]
  constructor
  · rintro ⟨form, hform, hfound⟩
    obtain ⟨n, hn⟩ := Option.isSome_iff_exists.1 hfound
    have hlength := (Option.filter_eq_some_iff.1 hn).1
    exact ⟨_, List.take_prefix n text, form, hform, Form.matches_of_matchLength hlength⟩
  · rintro ⟨found, ⟨after, rfl⟩, form, hform, hmatches⟩
    refine ⟨form, hform, ?_⟩
    obtain ⟨n, hn⟩ := Option.isSome_iff_exists.1 (Form.exists_matchLength hmatches after)
    rw [hn]
    rfl

/-- **A search finds a match exactly where there is one.** -/
theorem searchFrom_iff {forms : List Form} {text : List Char} :
    searchFrom sameLetter forms text = true ↔ Holds sameLetter forms text := by
  induction text with
  | nil =>
      rw [searchFrom, isSome_matchAt_iff, Holds]
      simp only [List.prefix_nil, List.infix_nil]
  | cons x xs ih =>
      rw [searchFrom, Bool.or_eq_true, isSome_matchAt_iff, ih, Holds, Holds]
      simp only [List.infix_cons_iff, or_and_right, exists_or]

/-- What is matched is found. -/
theorem isSome_matchAt {text : List Char} (h : secrets.Matches sameLetter text)
    (after : List Char) :
    (matchAt sameLetter secrets.pattern 0 (text ++ after)).isSome = true :=
  isSome_matchAt_iff.2 ⟨text, List.prefix_append text after, h⟩

end Search

/-! ## The markers of a scrubbed text -/

/-- `REDACTED`, each character marked. -/
def marker : List (Char × Bool) := redacted.toList.map (·, true)

variable (sameLetter) in
/-- `subFrom`, with the characters of the markers marked. -/
def markedFrom (forms : List Form) : ℕ → List Char → List (Char × Bool)
  | skip + 1, _ :: xs => markedFrom forms skip xs
  | _, [] => if (matchAt sameLetter forms 0 []).isSome then marker else []
  | 0, x :: xs =>
      match matchAt sameLetter forms 0 (x :: xs) with
      | none => (x, false) :: markedFrom forms 0 xs
      | some (n + 1) => marker ++ markedFrom forms n xs
      | some 0 =>
          marker ++
            match matchAt sameLetter forms 1 (x :: xs) with
            | some (n + 1) => marker ++ markedFrom forms n xs
            | _ => (x, false) :: markedFrom forms 0 xs

omit hsecrets in
theorem map_fst_markedFrom (forms : List Form) (skip : ℕ) (text : List Char) :
    (markedFrom sameLetter forms skip text).map Prod.fst = subFrom sameLetter forms skip text := by
  have hmarker : marker.map Prod.fst = redacted.toList := rfl
  fun_induction subFrom sameLetter forms skip text with
  | case1 skip x xs ih => exact ih
  | case2 skip h =>
      rw [markedFrom, if_pos h]
      exact hmarker
  | case3 skip h =>
      rw [markedFrom, if_neg h]
      rfl
  | case4 x xs h ih => simp only [markedFrom, h, List.map_cons, ih]
  | case5 x xs n h ih => simp only [markedFrom, h, List.map_append, hmarker, ih]
  | case6 x xs h ih ih' =>
      simp only [markedFrom, h, List.map_append, hmarker]
      rcases matchAt sameLetter forms 1 (x :: xs) with _ | _ | n
      · simp only [List.map_cons, ih']
      · simp only [List.map_cons, ih']
      · simp only [List.map_append, hmarker, ih]

omit hsecrets in
/-- A scrubbed text is made of the text and of markers. -/
theorem mem_subFrom {forms : List Form} {skip : ℕ} {text : List Char} {c : Char}
    (h : c ∈ subFrom sameLetter forms skip text) : c ∈ text ∨ c ∈ redacted.toList := by
  fun_induction subFrom sameLetter forms skip text with
  | case1 skip x xs ih => exact (ih h).imp_left (List.mem_cons_of_mem _)
  | case2 skip _ => exact .inr h
  | case3 skip _ => exact absurd h List.not_mem_nil
  | case4 x xs _ ih =>
      rcases List.mem_cons.1 h with rfl | hrest
      · exact .inl List.mem_cons_self
      · exact (ih hrest).imp_left (List.mem_cons_of_mem _)
  | case5 x xs n _ ih =>
      rcases List.mem_append.1 h with hmarker | hrest
      · exact .inr hmarker
      · exact (ih hrest).imp_left (List.mem_cons_of_mem _)
  | case6 x xs _ ih ih' =>
      rcases List.mem_append.1 h with hmarker | hrest
      · exact .inr hmarker
      · split at hrest
        · rcases List.mem_append.1 hrest with hmarker | hrest
          · exact .inr hmarker
          · exact (ih _ hrest).imp_left (List.mem_cons_of_mem _)
        · rcases List.mem_cons.1 hrest with rfl | hrest
          · exact .inl List.mem_cons_self
          · exact (ih' hrest).imp_left (List.mem_cons_of_mem _)

omit hsecrets in
/-- What is left of a match is passed over. -/
theorem markedFrom_drop (forms : List Form) (skip : ℕ) (text : List Char) :
    markedFrom sameLetter forms skip text = markedFrom sameLetter forms 0 (text.drop skip) := by
  induction text generalizing skip with
  | nil =>
      rw [List.drop_nil]
      cases skip <;> rfl
  | cons x xs ih =>
      cases skip with
      | zero => rfl
      | succ skip => rw [markedFrom, List.drop_succ_cons, ih]

omit hsecrets in
/-- A match puts a marker in front. -/
theorem exists_marker {forms : List Form} {text : List Char}
    (h : (matchAt sameLetter forms 0 text).isSome = true) :
    ∃ more, markedFrom sameLetter forms 0 text = marker ++ more := by
  cases text with
  | nil => exact ⟨[], by rw [markedFrom, if_pos h, List.append_nil]⟩
  | cons x xs =>
      rw [markedFrom]
      rcases hmatch : matchAt sameLetter forms 0 (x :: xs) with _ | _ | n
      · rw [hmatch] at h
        cases h
      · exact ⟨_, rfl⟩
      · exact ⟨_, rfl⟩

omit hsecrets in
/-- What is not marked stands behind a marker in front. -/
theorem exists_of_marker_append {more before found after : List (Char × Bool)}
    (h : marker ++ more = before ++ found ++ after) (hfound : found ≠ [])
    (hunmarked : ∀ c ∈ found, c.2 = false) : ∃ before', more = before' ++ found ++ after := by
  rw [List.append_assoc, List.append_eq_append_iff] at h
  rcases h with ⟨before', -, hmore⟩ | ⟨inside, hmarker, hrest⟩
  · exact ⟨before', by rw [hmore, List.append_assoc]⟩
  · cases inside with
    | nil => exact ⟨[], hrest.symm⟩
    | cons c inside =>
        have hmarked : c.2 = true := by
          have hmem : c ∈ marker := by
            rw [hmarker]
            exact List.mem_append_right _ List.mem_cons_self
          obtain ⟨d, -, rfl⟩ := List.mem_map.1 hmem
          rfl
        cases found with
        | nil => exact absurd rfl hfound
        | cons f found =>
            obtain ⟨rfl, -⟩ := List.cons.inj hrest
            rw [hunmarked f List.mem_cons_self] at hmarked
            cases hmarked

omit hsecrets in
/-- What is not marked in front stands in front of the text. -/
theorem prefix_of_unmarked {forms : List Form} {text : List Char}
    {found after : List (Char × Bool)}
    (h : markedFrom sameLetter forms 0 text = found ++ after)
    (hunmarked : ∀ c ∈ found, c.2 = false) :
    ∃ rest, text = found.map Prod.fst ++ rest ∧
      (found ≠ [] → matchAt sameLetter forms 0 text = none) := by
  induction found generalizing text with
  | nil => exact ⟨text, rfl, fun hne => absurd rfl hne⟩
  | cons f found ih =>
      have hnone : matchAt sameLetter forms 0 text = none := by
        by_contra hsome
        obtain ⟨more, hmore⟩ := exists_marker (Option.isSome_iff_ne_none.2 hsome)
        obtain ⟨c, cs, hmarker⟩ : ∃ c cs, marker = (c, true) :: cs := ⟨'<', _, rfl⟩
        rw [hmore, hmarker, List.cons_append, List.cons_append, List.cons.injEq] at h
        have hmarked := hunmarked f List.mem_cons_self
        rw [← h.1] at hmarked
        cases hmarked
      cases text with
      | nil =>
          rw [markedFrom, hnone] at h
          cases h
      | cons x xs =>
          simp only [markedFrom, hnone, List.cons_append, List.cons.injEq] at h
          obtain ⟨rfl, hrest⟩ := h
          obtain ⟨rest, hxs, -⟩ :=
            ih hrest fun c hc => hunmarked c (List.mem_cons_of_mem _ hc)
          exact ⟨rest, congrArg (x :: ·) hxs, fun _ => hnone⟩

/-- **What is not marked stands in the text, where nothing matches.** -/
theorem WellFormed.exists_of_unmarked {text : List Char} {before found after : List (Char × Bool)}
    (h : markedFrom sameLetter secrets.pattern 0 text = before ++ found ++ after)
    (hfound : found ≠ []) (hunmarked : ∀ c ∈ found, c.2 = false) :
    ∃ rest, matchAt sameLetter secrets.pattern 0 (found.map Prod.fst ++ rest) = none := by
  induction hlength : text.length using Nat.strong_induction_on generalizing text before with
  | _ length ih =>
      subst hlength
      cases hmatch : matchAt sameLetter secrets.pattern 0 text with
      | some n =>
          cases text with
          | nil =>
              have hnil : markedFrom sameLetter secrets.pattern 0 [] = marker ++ [] := by
                rw [markedFrom, hmatch, List.append_nil]
                rfl
              rw [hnil] at h
              obtain ⟨before', hbefore⟩ := exists_of_marker_append h hfound hunmarked
              exact absurd (List.append_eq_nil_iff.1 (List.append_eq_nil_iff.1 hbefore.symm).1).2
                hfound
          | cons x xs =>
              cases n with
              | zero => exact absurd hmatch hsecrets.matchAt_zero
              | succ n =>
                  simp only [markedFrom, hmatch, markedFrom_drop _ n xs] at h
                  obtain ⟨before', hbefore⟩ := exists_of_marker_append h hfound hunmarked
                  refine ih (xs.drop n).length ?_ hbefore rfl
                  rw [List.length_drop, List.length_cons]
                  omega
      | none =>
          cases before with
          | nil =>
              obtain ⟨rest, htext, -⟩ := prefix_of_unmarked h hunmarked
              exact ⟨rest, htext ▸ hmatch⟩
          | cons b before =>
              cases text with
              | nil =>
                  rw [markedFrom, hmatch] at h
                  cases h
              | cons x xs =>
                  simp only [markedFrom, hmatch, List.cons_append, List.cons.injEq] at h
                  exact ih xs.length (Nat.lt_succ_self _) h.2 rfl

/-- **A match in a scrubbed text has a character of a marker.** -/
theorem WellFormed.exists_marked_of_matches {text : List Char}
    {before found after : List (Char × Bool)}
    (h : markedFrom sameLetter secrets.pattern 0 text = before ++ found ++ after)
    (hmatches : secrets.Matches sameLetter (found.map Prod.fst)) : ∃ c ∈ found, c.2 = true := by
  by_contra hnone
  have hunmarked : ∀ c ∈ found, c.2 = false := fun c hc =>
    Bool.eq_false_iff.2 fun hmarked => hnone ⟨c, hc, hmarked⟩
  have hfound : found ≠ [] := fun hnil =>
    hsecrets.ne_nil hmatches (congrArg (List.map Prod.fst) hnil)
  obtain ⟨rest, hrest⟩ := hsecrets.exists_of_unmarked h hfound hunmarked
  have hsome := isSome_matchAt hmatches rest
  rw [hrest] at hsome
  cases hsome

end Secrets

end Tydomio
