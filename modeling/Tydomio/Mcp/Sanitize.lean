import Tydomio.Scrub
import Tydomio.Mcp.View

/-!
# A sanitized text

What `sanitize` puts out is short, has no hidden character, and holds no
secret outside the markers it inserted and the ellipsis of its cut; hidden
characters in the text make no difference: `sanitize_sanitized`.
-/

namespace Tydomio

open Common

namespace Mcp

/-- A character that is removed. -/
def isHidden (c : Char) : Bool := !Text.isSpace c && isControlOrFormat c

/-- **Hidden characters put anywhere into a text.** -/
inductive Hides : List Char → List Char → Prop
  | nil : Hides [] []
  | same (c : Char) {cs ds : List Char} : Hides cs ds → Hides (c :: cs) (c :: ds)
  | hidden {c : Char} {cs ds : List Char} : isHidden c = true → Hides cs ds → Hides cs (c :: ds)

section Sanitize

variable (sameLetter : Char → Char → Bool) (secrets : Secrets) (text : String)

/-- The text that is scrubbed. -/
def folded (text : List Char) : List Char :=
  Text.strip Text.isSpace
    (collapseSpace false (text.filter fun c => Text.isSpace c || !isControlOrFormat c))

/-- A text cut to `MAX_STRING` characters, the last of them for what is cut. -/
def cut {α : Type} (last : α) (scrubbed : List α) : List α :=
  if scrubbed.length > maxString then scrubbed.take (maxString - 1) ++ [last] else scrubbed

/-- `sanitize`, with the characters of the markers and the ellipsis marked. -/
def sanitizeMarked : List (Char × Bool) :=
  cut ('…', true) (Secrets.markedFrom sameLetter secrets.pattern 0 (folded text.toList))

/-- **A text that is safe to put out.** -/
structure Sanitized : Prop where
  length : (sanitize sameLetter secrets text).length ≤ maxString
  visible : ∀ c ∈ (sanitize sameLetter secrets text).toList, isControlOrFormat c = false
  /-- The marked characters are those put out. -/
  marked : (sanitizeMarked sameLetter secrets text).map Prod.fst =
    (sanitize sameLetter secrets text).toList
  /-- Every match of the secrets in them has a marked one. -/
  scrubbed : ∀ before found after,
    sanitizeMarked sameLetter secrets text = before ++ found ++ after →
    secrets.Matches sameLetter (found.map Prod.fst) → ∃ c ∈ found, c.2 = true
  /-- Hidden characters make no difference. -/
  hidden : ∀ text', Hides text.toList text'.toList →
    sanitize sameLetter secrets text' = sanitize sameLetter secrets text

variable {sameLetter secrets text}

theorem toList_sanitize : (sanitize sameLetter secrets text).toList =
    cut '…' (secrets.scrub sameLetter (folded text.toList)) := by
  rw [sanitize, String.toList_ofList]
  rfl

/-! ### The cut -/

theorem length_cut_le {α : Type} (last : α) (scrubbed : List α) :
    (cut last scrubbed).length ≤ maxString := by
  rw [cut]
  split
  · rw [List.length_append, List.length_take, List.length_singleton]
    have hpos : 0 < maxString := by decide
    omega
  · exact Nat.not_lt.1 ‹_›

theorem map_cut {α β : Type} (f : α → β) (last : α) (scrubbed : List α) :
    (cut last scrubbed).map f = cut (f last) (scrubbed.map f) := by
  rw [cut, cut, List.length_map]
  split
  · rw [List.map_append, List.map_take, List.map_singleton]
  · rfl

theorem mem_cut {α : Type} {last x : α} {scrubbed : List α} (h : x ∈ cut last scrubbed) :
    x = last ∨ x ∈ scrubbed := by
  rw [cut] at h
  split at h
  · rcases List.mem_append.1 h with hcut | hlast
    · exact .inr (List.mem_of_mem_take hcut)
    · exact .inl (List.mem_singleton.1 hlast)
  · exact .inr h

/-- What stands in a cut text stands in the text, or its last item is the one
for what is cut. -/
theorem infix_of_cut {α : Type} {last : α} {scrubbed before found after : List α}
    (hfound : found ≠ []) (h : cut last scrubbed = before ++ found ++ after) :
    last ∈ found ∨ ∃ after', scrubbed = before ++ found ++ after' := by
  rw [cut] at h
  split at h
  · rcases List.eq_nil_or_concat after with rfl | ⟨after, last', rfl⟩
    · obtain ⟨found, last', rfl⟩ := (List.eq_nil_or_concat found).resolve_left hfound
      rw [List.concat_eq_append, List.append_nil, ← List.append_assoc] at h
      obtain ⟨-, hlast⟩ := List.append_inj' h rfl
      rw [List.singleton_inj.1 hlast, List.concat_eq_append]
      exact .inl (List.mem_append_right _ (List.mem_singleton_self _))
    · rw [List.concat_eq_append, ← List.append_assoc] at h
      obtain ⟨htake, -⟩ := List.append_inj' h rfl
      refine .inr ⟨after ++ scrubbed.drop (maxString - 1), ?_⟩
      rw [← List.append_assoc, ← htake, List.take_append_drop]
  · exact .inr ⟨after, h⟩

theorem map_fst_sanitizeMarked : (sanitizeMarked sameLetter secrets text).map Prod.fst =
    (sanitize sameLetter secrets text).toList := by
  rw [sanitizeMarked, map_cut, Secrets.map_fst_markedFrom, toList_sanitize]
  rfl

/-! ### Characters -/

theorem mem_collapseSpace {c : Char} {inRun : Bool} {cs : List Char}
    (h : c ∈ collapseSpace inRun cs) : c = ' ' ∨ (c ∈ cs ∧ Text.isSpace c = false) := by
  induction cs generalizing inRun with
  | nil => cases h
  | cons d ds ih =>
      have htail : ∀ {run : Bool}, c ∈ collapseSpace run ds →
          c = ' ' ∨ (c ∈ d :: ds ∧ Text.isSpace c = false) := fun hrest =>
        (ih hrest).imp_right fun ⟨hmem, hspace⟩ => ⟨List.mem_cons_of_mem _ hmem, hspace⟩
      rw [collapseSpace] at h
      split at h
      · split at h
        · exact htail h
        · rcases List.mem_cons.1 h with rfl | hrest
          · exact .inl rfl
          · exact htail hrest
      · rename_i hspace
        rcases List.mem_cons.1 h with rfl | hrest
        · exact .inr ⟨List.mem_cons_self, Bool.eq_false_iff.2 hspace⟩
        · exact htail hrest

/-- No character of the text that is scrubbed is one of control or format. -/
theorem isControlOrFormat_of_mem_folded {c : Char} {cs : List Char} (h : c ∈ folded cs) :
    isControlOrFormat c = false := by
  have hcollapsed : c ∈ collapseSpace false
      (cs.filter fun c => Text.isSpace c || !isControlOrFormat c) :=
    (List.dropWhile_sublist _).subset ((List.rdropWhile_prefix _ _).subset h)
  rcases mem_collapseSpace hcollapsed with rfl | ⟨hmem, hspace⟩
  · decide
  · have hkept := (List.mem_filter.1 hmem).2
    rw [hspace, Bool.false_or, Bool.not_eq_true'] at hkept
    exact hkept

theorem isControlOrFormat_sanitize {c : Char}
    (h : c ∈ (sanitize sameLetter secrets text).toList) : isControlOrFormat c = false := by
  have hredacted : ∀ c ∈ redacted.toList, isControlOrFormat c = false := by
    simp [redacted, isControlOrFormat]
  have hscrub : ∀ c ∈ secrets.scrub sameLetter (folded text.toList), isControlOrFormat c = false :=
    fun c hc => (Secrets.mem_subFrom hc).elim isControlOrFormat_of_mem_folded (hredacted c)
  rw [toList_sanitize] at h
  rcases mem_cut h with rfl | hmem
  · decide
  · exact hscrub c hmem

/-! ### Matches -/

/-- A match does not show at the cut. -/
theorem exists_marked_sanitizeMarked (hsecrets : secrets.WellFormed)
    {before found after : List (Char × Bool)}
    (h : sanitizeMarked sameLetter secrets text = before ++ found ++ after)
    (hmatches : secrets.Matches sameLetter (found.map Prod.fst)) : ∃ c ∈ found, c.2 = true := by
  have hfound : found ≠ [] := fun hnil =>
    hsecrets.ne_nil hmatches (congrArg (List.map Prod.fst) hnil)
  rcases infix_of_cut hfound h with hlast | ⟨after', hscrubbed⟩
  · exact ⟨_, hlast, rfl⟩
  · exact hsecrets.exists_marked_of_matches hscrubbed hmatches

/-! ### Hidden characters -/

/-- Hidden characters are removed. -/
theorem Hides.filter_eq {cs ds : List Char} (h : Hides cs ds) :
    cs.filter (fun c => Text.isSpace c || !isControlOrFormat c) =
      ds.filter fun c => Text.isSpace c || !isControlOrFormat c := by
  induction h with
  | nil => rfl
  | same c _ ih => rw [List.filter_cons, List.filter_cons, ih]
  | @hidden c cs ds hc _ ih =>
      have hgone : (Text.isSpace c || !isControlOrFormat c) = false := by
        rw [isHidden, Bool.and_eq_true, Bool.not_eq_true'] at hc
        rw [hc.1, hc.2]
        rfl
      rw [ih, List.filter_cons, hgone]
      rfl

theorem sanitize_of_hides {text' : String} (h : Hides text.toList text'.toList) :
    sanitize sameLetter secrets text' = sanitize sameLetter secrets text := by
  rw [sanitize, sanitize, h.filter_eq]

/-- **A sanitized text is safe to put out.** -/
theorem sanitize_sanitized (sameLetter : Char → Char → Bool) {secrets : Secrets}
    (hsecrets : secrets.WellFormed) (text : String) : Sanitized sameLetter secrets text where
  length := by
    rw [← String.length_toList, toList_sanitize]
    exact length_cut_le _ _
  visible _ := isControlOrFormat_sanitize
  marked := map_fst_sanitizeMarked
  scrubbed _ _ _ := exists_marked_sanitizeMarked hsecrets
  hidden _ := sanitize_of_hides

end Sanitize

/-- A secret that is cut in two by a hidden character. -/
theorem sanitized_hidden :
    Sanitized asciiLetter plainSecrets "pw hun\u200bter2, TYDOM-AABBCC" := by
  have hsecrets : plainSecrets.WellFormed := ⟨by decide, rfl, by simp [plainSecrets], nofun⟩
  exact sanitize_sanitized asciiLetter hsecrets _

end Mcp

end Tydomio
