import Tydomio.Common.Json.Strings
import Tydomio.Common.Text
import Mathlib.Data.List.TakeWhile
import Mathlib.Order.Nat

/-!
# A text written is read back

Each step of the machine takes at least one character, so it never runs out
of steps. From where a value starts, its text takes the machine to where the
value has been read; the induction is on the tree, through its items and
fields. `scan_write` is the round trip, in every style.
-/

namespace Common

namespace Json

/-! ## Each step takes a character -/

theorem length_skip_le (cs : List Char) : (skip cs).length ≤ cs.length :=
  List.length_dropWhile_le _ _

theorem scanPieces_lt (cs : List Char) : ∀ pieces rest, scanPieces cs = some (pieces, rest) →
    rest.length < cs.length := by
  induction hn : cs.length using Nat.strongRecOn generalizing cs with
  | _ n ih =>
      subst hn
      intro pieces rest h
      have hrec : ∀ (tail : List Char) (piece : Piece), tail.length < cs.length →
          (scanPieces tail).bind (fun found => some (piece :: found.1, found.2)) =
            some (pieces, rest) → rest.length < cs.length := by
        intro tail piece hlt hbind
        obtain ⟨⟨pieces', rest'⟩, htail, heq⟩ := Option.bind_eq_some_iff.1 hbind
        obtain ⟨-, rfl⟩ := Prod.mk.inj (Option.some.inj heq)
        exact lt_trans (ih _ hlt tail rfl pieces' rest' htail) hlt
      rw [scanPieces.eq_def] at h
      split at h
      · cases h
      · rename_i c cs'
        split_ifs at h with hquote hslash hcontrol
        · obtain ⟨-, rfl⟩ := Prod.mk.inj (Option.some.inj h)
          simp
        · split at h
          · cases h
          · split_ifs at h with hu
            · split at h
              · rename_i h₁ h₂ h₃ h₄ tail
                obtain ⟨n, -, h⟩ := Option.bind_eq_some_iff.1 h
                exact hrec tail (.unit n) (by simp only [List.length_cons]; omega) h
              · cases h
            · obtain ⟨d, -, h⟩ := Option.bind_eq_some_iff.1 h
              exact hrec _ (.char d) (by simp only [List.length_cons]; omega) h
        · exact hrec _ (.char c) (by simp only [List.length_cons]; omega) h

theorem scanString_lt {cs rest : List Char} {text : String} (h : scanString cs = .ok (text, rest)) :
    rest.length < cs.length := by
  unfold scanString at h
  split at h
  · cases h
  · rename_i pieces rest' hpieces
    split at h
    · cases h
    · obtain ⟨-, rfl⟩ := Prod.mk.inj (Except.ok.inj h)
      exact scanPieces_lt cs pieces _ hpieces

theorem scanDigits_lt {sign cs integer rest : List Char}
    (h : scanDigits sign cs = some (integer, rest)) : rest.length < cs.length := by
  cases cs with
  | nil => cases h
  | cons c cs =>
      have hdigits := List.length_dropWhile_le Char.isDigit cs
      rw [scanDigits] at h
      split_ifs at h
      all_goals
        obtain ⟨-, rfl⟩ := Prod.mk.inj (Option.some.inj h)
        simp only [List.length_cons]
        omega

theorem scanInteger_lt {cs integer rest : List Char} (h : scanInteger cs = some (integer, rest)) :
    rest.length < cs.length := by
  unfold scanInteger at h
  split_ifs at h with hsign
  · have hlt := scanDigits_lt h
    rw [List.length_tail] at hlt
    omega
  · exact scanDigits_lt h

theorem length_scanFraction_le (cs : List Char) : (scanFraction cs).2.length ≤ cs.length := by
  unfold scanFraction
  split
  · rename_i c d rest
    have hdigits := List.length_dropWhile_le Char.isDigit rest
    split_ifs
    · simp only [List.length_cons]
      omega
    · exact le_rfl
  · exact le_rfl

theorem length_scanExponent_le (cs : List Char) : (scanExponent cs).2.length ≤ cs.length := by
  unfold scanExponent
  split
  · rename_i e rest
    have hdigits := List.length_dropWhile_le Char.isDigit (rest.drop (exponentSign rest).length)
    rw [List.length_drop] at hdigits
    simp only
    split_ifs
    · simp only [List.length_cons]
      omega
    · exact le_rfl
  · exact le_rfl

theorem scanAtom_lt {cs rest : List Char} {tree : Tree} (h : scanAtom cs = some (tree, rest)) :
    rest.length < cs.length := by
  unfold scanAtom at h
  split at h
  · rename_i word hword
    obtain ⟨-, rfl⟩ := Prod.mk.inj (Option.some.inj h)
    have hpos : ∀ word ∈ words, 0 < word.1.length := by decide
    have hprefix := List.find?_some hword
    have hle := (List.isPrefixOf_iff_prefix.1 hprefix).length_le
    have hword := hpos word (List.mem_of_find?_eq_some hword)
    rw [List.length_drop]
    omega
  · obtain ⟨number, hnumber, heq⟩ := Option.map_eq_some_iff.1 h
    obtain ⟨⟨integer, after⟩, hinteger, rfl⟩ := Option.map_eq_some_iff.1 hnumber
    obtain ⟨-, rfl⟩ := Prod.mk.inj heq
    have hlt := scanInteger_lt hinteger
    have hfraction := length_scanFraction_le after
    have hexponent := length_scanExponent_le (scanFraction after).2
    simp only at hlt ⊢
    omega

section Steps

variable {limit : ℕ} {stack : List Frame} {seen : List Numeral} {c : Config}

theorem length_tail_lt {cs : List Char} {a : Char} (h : cs.head? = some a) :
    cs.tail.length < cs.length := by
  cases cs with
  | nil => cases h
  | cons => simp

theorem startValue_lt {cs : List Char} (h : startValue limit stack seen cs = .more c) :
    c.rest.length < cs.length := by
  unfold startValue at h
  split_ifs at h with hquote hlist hdeep hdict hdeep
  · have htail := length_tail_lt hquote
    split at h
    · cases h
    · rename_i hstring
      obtain rfl := Next.more.inj h
      have hlt := scanString_lt hstring
      exact lt_trans hlt htail
  · obtain rfl := Next.more.inj h
    exact length_tail_lt hlist
  · obtain rfl := Next.more.inj h
    exact length_tail_lt hdict
  · split at h
    · cases h
    · rename_i hatom
      obtain rfl := Next.more.inj h
      exact scanAtom_lt hatom

theorem startKey_lt {before : List (String × Tree)} {cs : List Char}
    (h : startKey before stack seen cs = .more c) : c.rest.length < cs.length := by
  unfold startKey at h
  split_ifs at h with hquote
  have htail := length_tail_lt hquote
  split at h
  · cases h
  · rename_i key rest hstring
    split_ifs at h with hcolon
    obtain rfl := Next.more.inj h
    have hlt := scanString_lt hstring
    have hskip := length_skip_le rest
    have hcolon' := length_tail_lt hcolon
    exact lt_trans (lt_of_lt_of_le hcolon' hskip) (lt_trans hlt htail)

theorem goOn_lt {tree : Tree} {cs : List Char} (h : goOn tree stack seen cs = .more c) :
    c.rest.length < cs.length := by
  unfold goOn at h
  split at h
  · split_ifs at h
  all_goals
    split_ifs at h with hcomma hclose
    · obtain rfl := Next.more.inj h
      exact length_tail_lt hcomma
    · obtain rfl := Next.more.inj h
      exact length_tail_lt hclose

/-- **A step takes at least one character.** -/
theorem step_lt {c' : Config} (h : step limit c = .more c') : c'.rest.length < c.rest.length := by
  have hskip := length_skip_le c.rest
  refine lt_of_lt_of_le ?_ hskip
  unfold step at h
  simp only at h
  split at h
  · exact startValue_lt h
  · split_ifs at h with hclose
    · obtain rfl := Next.more.inj h
      exact length_tail_lt hclose
    · exact startValue_lt h
  · split_ifs at h with hclose
    · obtain rfl := Next.more.inj h
      exact length_tail_lt hclose
    · exact startKey_lt h
  · exact startKey_lt h
  · exact goOn_lt h

/-- **The steps suffice**: more than the text has characters change nothing. -/
theorem run_eq_of_lt {m n : ℕ} (hm : c.rest.length < m) (hn : c.rest.length < n) :
    run limit m c = run limit n c := by
  induction m generalizing c n with
  | zero => omega
  | succ m ih =>
      obtain ⟨n, rfl⟩ : ∃ k, n = k + 1 := ⟨n - 1, by omega⟩
      rw [run, run]
      cases hstep : step limit c with
      | more c' =>
          have hlt := step_lt hstep
          exact ih (by omega) (by omega)
      | done tree => rfl
      | stop seen why => rfl

/-- A step taken. -/
def Steps (limit : ℕ) : Config → Config → Prop :=
  Relation.ReflTransGen fun c c' => step limit c = .more c'

theorem run_of_steps {c' : Config} (h : Steps limit c c') :
    run limit (c.rest.length + 1) c = run limit (c'.rest.length + 1) c' := by
  induction h using Relation.ReflTransGen.head_induction_on with
  | refl => rfl
  | @head c c₁ hstep _ ih =>
      have hlt := step_lt hstep
      rw [run, hstep, ← ih]
      exact run_eq_of_lt hlt (Nat.lt_succ_self _)

end Steps

/-! ## Numbers -/

/-- A text that is empty, or starts with what is no part of a number. -/
def Delimited (rest : List Char) : Prop :=
  ∀ c ∈ rest.head?, c.isDigit = false ∧ c ∉ ['.', 'e', 'E', '+', '-']

section Digits

variable {cs rest : List Char} (h : ∀ c ∈ rest.head?, c.isDigit = false)

include h

theorem takeWhile_digits (cs : List Char) :
    (cs ++ rest).takeWhile Char.isDigit = cs.takeWhile Char.isDigit := by
  induction cs with
  | nil =>
      cases rest with
      | nil => rfl
      | cons c rest => exact List.takeWhile_cons_of_neg (by simp [h c rfl])
  | cons c cs ih =>
      rw [List.cons_append, List.takeWhile_cons, List.takeWhile_cons, ih]

theorem dropWhile_digits (cs : List Char) :
    (cs ++ rest).dropWhile Char.isDigit = cs.dropWhile Char.isDigit ++ rest := by
  induction cs with
  | nil =>
      cases rest with
      | nil => rfl
      | cons c rest => exact List.dropWhile_cons_of_neg (by simp [h c rfl])
  | cons c cs ih =>
      rw [List.cons_append, List.dropWhile_cons, List.dropWhile_cons, ih]
      split <;> rfl

theorem scanDigits_append {sign integer after : List Char}
    (hscan : scanDigits sign cs = some (integer, after)) :
    scanDigits sign (cs ++ rest) = some (integer, after ++ rest) := by
  cases cs with
  | nil => cases hscan
  | cons c cs =>
      simp only [List.cons_append, scanDigits, takeWhile_digits h, dropWhile_digits h] at hscan ⊢
      split_ifs at hscan ⊢
      all_goals
        obtain ⟨rfl, rfl⟩ := Prod.mk.inj (Option.some.inj hscan)
        rfl

theorem scanInteger_append {integer after : List Char}
    (hscan : scanInteger cs = some (integer, after)) :
    scanInteger (cs ++ rest) = some (integer, after ++ rest) := by
  cases cs with
  | nil => cases hscan
  | cons c cs =>
      unfold scanInteger at hscan ⊢
      rw [List.cons_append, List.head?_cons, List.tail_cons]
      rw [List.head?_cons, List.tail_cons] at hscan
      split_ifs at hscan ⊢
      · exact scanDigits_append h hscan
      · exact scanDigits_append h hscan

end Digits

section Numbers

variable {cs rest : List Char} (h : Delimited rest)

include h

theorem Delimited.digits : ∀ c ∈ rest.head?, c.isDigit = false := fun c hc => (h c hc).1

theorem scanFraction_append (cs : List Char) :
    scanFraction (cs ++ rest) = ((scanFraction cs).1, (scanFraction cs).2 ++ rest) := by
  match cs with
  | [] =>
      cases rest with
      | nil => rfl
      | cons c rest =>
          have hpoint : c ≠ '.' := fun heq => (h c rfl).2 (by simp [heq])
          cases rest with
          | nil => rfl
          | cons d rest => simp [scanFraction, hpoint]
  | [c] =>
      cases rest with
      | nil => rfl
      | cons d rest => simp [scanFraction, (h d rfl).1]
  | c :: d :: cs =>
      simp only [List.cons_append, scanFraction, takeWhile_digits h.digits,
        dropWhile_digits h.digits]
      split_ifs <;> rfl

theorem scanExponent_append (cs : List Char) :
    scanExponent (cs ++ rest) = ((scanExponent cs).1, (scanExponent cs).2 ++ rest) := by
  cases cs with
  | nil =>
      cases rest with
      | nil => rfl
      | cons c rest =>
          have hletter : ¬ (c = 'e' ∨ c = 'E') := by
            rintro (heq | heq) <;> exact (h c rfl).2 (by simp [heq])
          simp [scanExponent, hletter]
  | cons e cs =>
      have hsign : exponentSign (cs ++ rest) = exponentSign cs := by
        cases cs with
        | cons c cs => rfl
        | nil =>
            cases rest with
            | nil => rfl
            | cons c rest =>
                have hsign : ¬ (c = '+' ∨ c = '-') := by
                  rintro (heq | heq) <;> exact (h c rfl).2 (by simp [heq])
                simp [exponentSign, hsign]
      have hdrop : (cs ++ rest).drop (exponentSign cs).length =
          cs.drop (exponentSign cs).length ++ rest := by
        cases cs with
        | nil => rfl
        | cons c cs =>
            simp only [exponentSign]
            split_ifs <;> rfl
      simp only [List.cons_append, scanExponent, hsign, hdrop, takeWhile_digits h.digits,
        dropWhile_digits h.digits]
      split_ifs <;> rfl

/-- **A number ends where no part of a number follows.** -/
theorem scanNumber_append {numeral : Numeral} {after : List Char}
    (hscan : scanNumber cs = some (numeral, after)) :
    scanNumber (cs ++ rest) = some (numeral, after ++ rest) := by
  obtain ⟨⟨integer, tail⟩, hinteger, heq⟩ := Option.map_eq_some_iff.1 hscan
  rw [scanNumber, scanInteger_append h.digits hinteger, Option.map_some]
  simp only [scanFraction_append h, scanExponent_append h]
  obtain ⟨rfl, rfl⟩ := Prod.mk.inj heq
  rfl

omit h in
/-- A number starts with a digit, or with a sign and a digit. -/
theorem head_of_scanNumber {number : Numeral × List Char} (hscan : scanNumber cs = some number) :
    ∃ c tail, cs = c :: tail ∧
      (c.isDigit = true ∨ c = '-' ∧ ∃ d ∈ tail.head?, d.isDigit = true) := by
  have hdigits : ∀ sign cs, scanDigits sign cs ≠ none → ∃ d ∈ cs.head?, d.isDigit = true := by
    intro sign cs hne
    cases cs with
    | nil => exact absurd rfl hne
    | cons d cs =>
        refine ⟨d, rfl, ?_⟩
        rw [scanDigits] at hne
        split_ifs at hne with hzero hdigit
        · rw [hzero]
          rfl
        · exact hdigit
        · exact absurd rfl hne
  obtain ⟨integer, hinteger, -⟩ := Option.map_eq_some_iff.1 hscan
  cases cs with
  | nil => cases hinteger
  | cons c tail =>
      refine ⟨c, tail, rfl, ?_⟩
      unfold scanInteger at hinteger
      split_ifs at hinteger with hsign
      · rw [List.tail_cons] at hinteger
        exact .inr ⟨Option.some.inj hsign, hdigits ['-'] tail (by simp [hinteger])⟩
      · obtain ⟨d, hd, hdigit⟩ := hdigits [] (c :: tail) (by simp [hinteger])
        obtain rfl := Option.some.inj hd
        exact .inl hdigit

/-- A number is no word, whatever follows it. -/
theorem scanAtom_number {numeral : Numeral} (hscan : scanNumber cs = some (numeral, [])) :
    scanAtom (cs ++ rest) = some (.number numeral, rest) := by
  have hwords : (words.find? fun word => word.1.isPrefixOf (cs ++ rest)) = none := by
    obtain ⟨c, tail, rfl, hhead⟩ := head_of_scanNumber hscan
    rw [List.find?_eq_none]
    intro word hword hprefix
    have hprefix := List.isPrefixOf_iff_prefix.1 hprefix
    have hfirst : word.1.head? = some c := by
      obtain ⟨after, hafter⟩ := hprefix
      have hne : ∀ word ∈ words, word.1 ≠ [] := by decide
      cases hword' : word.1 with
      | nil => exact absurd hword' (hne word hword)
      | cons a as =>
          rw [hword'] at hafter
          rw [(List.cons.inj hafter).1]
          rfl
    have hletters : ∀ word ∈ words, ∀ c ∈ word.1.head?, c.isDigit = false ∧
        (c = '-' → word.1 = "-Infinity".toList) := by simp [words]
    obtain ⟨hdigit, hminus⟩ := hletters word hword c hfirst
    rcases hhead with hc | ⟨hc, d, hd, hdigit'⟩
    · rw [hdigit] at hc
      cases hc
    · -- after the sign of a number comes a digit, and not a letter
      obtain ⟨after, hafter⟩ := hprefix
      rw [hminus hc] at hafter
      cases tail with
      | nil => cases hd
      | cons e tail =>
          obtain rfl := Option.some.inj hd
          obtain ⟨-, hafter⟩ := List.cons.inj hafter
          obtain ⟨rfl, -⟩ := List.cons.inj hafter
          revert hdigit'
          decide
  rw [scanAtom, hwords, scanNumber_append h hscan]
  rfl

end Numbers

/-! ## Trees -/

namespace Tree

/-- **Induction over a tree**, through its items and the values of its
fields. -/
theorem induction {tree : Tree → Prop} {items : List Tree → Prop}
    {fields : List (String × Tree) → Prop}
    (null : tree .null) (bool : ∀ b, tree (.bool b)) (str : ∀ text, tree (.str text))
    (number : ∀ numeral, tree (.number numeral))
    (list : ∀ ts, items ts → tree (.list ts)) (dict : ∀ fs, fields fs → tree (.dict fs))
    (nil : items []) (cons : ∀ t ts, tree t → items ts → items (t :: ts))
    (noField : fields [])
    (field : ∀ k t fs, tree t → fields fs → fields ((k, t) :: fs)) :
    ∀ t, tree t :=
  fun t => @Tree.rec tree items fields (fun e => tree e.2) null bool str number list dict nil cons
    noField (fun e fs he hfs => field e.1 e.2 fs he hfs) (fun _ _ h => h) t

mutual

/-- The lists and objects one in another. -/
def depth : Tree → ℕ
  | list items => depthItems items + 1
  | dict items => depthFields items + 1
  | _ => 0

/-- Those of the deepest item. -/
def depthItems : List Tree → ℕ
  | [] => 0
  | item :: items => max (depth item) (depthItems items)

/-- Those of the deepest value. -/
def depthFields : List (String × Tree) → ℕ
  | [] => 0
  | (_, value) :: items => max (depth value) (depthFields items)

end

mutual

/-- The numbers, in the order of the text. -/
def numerals : Tree → List Numeral
  | number numeral => [numeral]
  | list items => numeralsItems items
  | dict items => numeralsFields items
  | _ => []

/-- Those of a list. -/
def numeralsItems : List Tree → List Numeral
  | [] => []
  | item :: items => numerals item ++ numeralsItems items

/-- Those of an object. -/
def numeralsFields : List (String × Tree) → List Numeral
  | [] => []
  | (_, value) :: items => numerals value ++ numeralsFields items

end

end Tree

/-- A number written as JSON writes it. -/
def Numeral.Proper (numeral : Numeral) : Prop := scanNumber numeral.text = some (numeral, [])

instance (numeral : Numeral) : Decidable numeral.Proper :=
  inferInstanceAs (Decidable (scanNumber numeral.text = some (numeral, [])))

/-- **The digits of a natural number** are read as they are. -/
theorem scanDigits_natText (sign : List Char) (n : ℕ) :
    scanDigits sign (toString n).toList = some (sign ++ (toString n).toList, []) := by
  have hdigits : ∀ c ∈ (toString n).toList, c.isDigit = true :=
    fun c hc => Text.isDigit_of_mem_natText hc
  have hne : (toString n).toList ≠ [] := by
    rw [Nat.toString_eq_repr, Nat.toList_repr]
    exact Nat.toDigits_ne_nil
  have hzero : (toString n).toList.head? = some '0' → (toString n).toList = ['0'] := by
    refine (Text.toDigits_ofDigitChars_iff hne hdigits).1 ?_
    rw [Nat.toString_eq_repr, Nat.toList_repr, Nat.ofDigitChars_toDigits (by decide) (by decide)]
  cases htext : (toString n).toList with
  | nil => exact absurd htext hne
  | cons c cs =>
      rw [htext] at hdigits hzero
      have hcs : ∀ d ∈ cs, d.isDigit = true := fun d hd => hdigits d (List.mem_cons_of_mem _ hd)
      rw [scanDigits]
      split_ifs with hc hdigit
      · obtain ⟨-, rfl⟩ := List.cons.inj (hzero (by rw [hc]; rfl))
        rw [hc]
      · rw [List.takeWhile_eq_self_iff.2 hcs, List.dropWhile_eq_nil_iff.2 hcs]
      · exact absurd (hdigits c List.mem_cons_self) hdigit

theorem scanInteger_intText (n : ℤ) :
    scanInteger (toString n).toList = some ((toString n).toList, []) := by
  rw [Int.toString_eq_repr, Int.repr_eq_if, scanInteger]
  split
  · rename_i hpos
    have hsign : ((toString n.toNat).toList).head? ≠ some '-' := by
      intro hhead
      have hmem := List.mem_of_mem_head? hhead
      exact absurd (Text.isDigit_of_mem_natText hmem) (by decide)
    rw [← Nat.toString_eq_repr, if_neg hsign, scanDigits_natText, List.nil_append]
  · rw [String.toList_append, ← Nat.toString_eq_repr]
    exact scanDigits_natText ['-'] _

/-- **The text of an integer is a number.** -/
theorem proper_intText (n : ℤ) : (Numeral.int (toString n).toList).Proper := by
  rw [Numeral.Proper, scanNumber]
  simp only [Numeral.text, scanInteger_intText, Option.map_some]
  rfl

/-- **An integer, a point and a digit** are a number. -/
theorem proper_pointText (n : ℤ) {d : Char} (hd : d.isDigit = true) :
    (Numeral.float ((toString n).toList ++ ['.', d])).Proper := by
  have hpoint : ∀ c ∈ (['.', d] : List Char).head?, c.isDigit = false := by
    intro c hc
    obtain rfl := Option.some.inj hc
    decide
  rw [Numeral.Proper, scanNumber]
  simp only [Numeral.text, scanInteger_append hpoint (scanInteger_intText n), Option.map_some,
    List.nil_append]
  simp [scanFraction, scanExponent, hd]

/-! ## Blanks written -/

section Blanks

variable (style : Style) (cs : List Char)

theorem isBlank_of_isDigit {c : Char} (h : c.isDigit = true) : isBlank c = false := by
  have hne : ∀ d, d.isDigit = false → c ≠ d := by
    rintro d hd rfl
    rw [hd] at h
    cases h
  simp [isBlank, hne ' ' (by decide), hne '\t' (by decide), hne '\n' (by decide),
    hne '\r' (by decide)]

theorem skip_cons {c : Char} (h : isBlank c = false) : skip (c :: cs) = c :: cs :=
  List.dropWhile_cons_of_neg (by simp [h])

theorem skip_replicate (n : ℕ) : skip (List.replicate n ' ' ++ cs) = skip cs := by
  induction n with
  | zero => rfl
  | succ n ih => exact ih

theorem skip_newline (level : ℕ) : skip (newline style level ++ cs) = skip cs := by
  unfold newline
  cases style.indent with
  | none => rfl
  | some width => exact skip_replicate cs _

/-- After a comma the next item follows, but for blanks. -/
theorem itemSeparator_append (level : ℕ) : ∃ blanks : List Char,
    itemSeparator style level ++ cs = ',' :: blanks ∧ skip blanks = skip cs := by
  refine ⟨_, rfl, ?_⟩
  cases hindent : style.indent with
  | none => exact skip_replicate cs _
  | some width => exact skip_newline style cs level

/-- What follows an item is no part of a number. -/
theorem delimited_cons {c : Char} (h : c.isDigit = false) (h' : c ∉ ['.', 'e', 'E', '+', '-']) :
    Delimited (c :: cs) := by
  rintro d hd
  obtain rfl := Option.some.inj hd
  exact ⟨h, h'⟩

theorem delimited_newline {c : Char} (h : c = ']' ∨ c = '}') (level : ℕ) :
    Delimited (newline style level ++ c :: cs) := by
  unfold newline
  cases style.indent with
  | none => rcases h with rfl | rfl <;> exact delimited_cons _ (by decide) (by decide)
  | some width => exact delimited_cons _ (by decide) (by decide)

end Blanks

/-! ## The text of a tree -/

section Text

variable (style : Style)

/-- **The text of a tree starts with a token**, and with no mark of the byte
order; the token does not close a list. -/
theorem head_write (level : ℕ) {tree : Tree} (h : ∀ numeral ∈ tree.numerals, numeral.Proper) :
    ∃ c cs, write style level tree = c :: cs ∧ isBlank c = false ∧ c ≠ ']' ∧ c ≠ '\ufeff' := by
  cases tree with
  | null => exact ⟨'n', _, rfl, by decide, by decide, by decide⟩
  | bool b =>
      cases b with
      | true => exact ⟨'t', _, rfl, by decide, by decide, by decide⟩
      | false => exact ⟨'f', _, rfl, by decide, by decide, by decide⟩
  | str text => exact ⟨'"', _, rfl, by decide, by decide, by decide⟩
  | list items =>
      cases items with
      | nil => exact ⟨'[', _, rfl, by decide, by decide, by decide⟩
      | cons item items => exact ⟨'[', _, rfl, by decide, by decide, by decide⟩
  | dict items =>
      cases items with
      | nil => exact ⟨'{', _, rfl, by decide, by decide, by decide⟩
      | cons item items => exact ⟨'{', _, rfl, by decide, by decide, by decide⟩
  | number numeral =>
      obtain ⟨c, cs, htext, hhead⟩ := head_of_scanNumber (h numeral (List.mem_singleton_self _))
      refine ⟨c, cs, htext, ?_⟩
      rcases hhead with hc | ⟨rfl, -⟩
      · have hne : ∀ d, d.isDigit = false → c ≠ d := by
          rintro d hd rfl
          rw [hd] at hc
          cases hc
        exact ⟨isBlank_of_isDigit hc, hne _ (by decide), hne _ (by decide)⟩
      · exact ⟨by decide, by decide, by decide⟩

theorem skip_write (level : ℕ) {tree : Tree} (h : ∀ numeral ∈ tree.numerals, numeral.Proper)
    (rest : List Char) :
    skip (write style level tree ++ rest) = write style level tree ++ rest := by
  obtain ⟨c, cs, hwrite, hblank, -, -⟩ := head_write style level h
  rw [hwrite, List.cons_append, skip_cons _ hblank]

variable {limit : ℕ} {stack : List Frame} {seen : List Numeral}

/-- A word or a number read where a value starts. -/
theorem startValue_atom {cs rest : List Char} {tree : Tree} (h : scanAtom cs = some (tree, rest))
    (hhead : ∀ c ∈ cs.head?, c ∉ ['"', '[', '{']) :
    startValue limit stack seen cs = .more ⟨.after tree, stack, seeing seen tree, rest⟩ := by
  have hne : ∀ d ∈ ['"', '[', '{'], cs.head? ≠ some d := by
    intro d hd heq
    exact hhead d heq hd
  rw [startValue, if_neg (hne _ (by decide)), if_neg (hne _ (by decide)),
    if_neg (hne _ (by decide)), h]

theorem startValue_string (text : String) (rest : List Char) :
    startValue limit stack seen (writeString style.ascii text ++ rest) =
      .more ⟨.after (.str text), stack, seen, rest⟩ := by
  have hwrite : writeString style.ascii text ++ rest =
      '"' :: (text.toList.flatMap (writeChar style.ascii) ++ '"' :: rest) := by
    simp [writeString]
  rw [hwrite, startValue, if_pos List.head?_cons, List.tail_cons, scanString_write]

theorem startValue_list (h : stack.length < limit) (rest : List Char) :
    startValue limit stack seen ('[' :: rest) = .more ⟨.firstItem, stack, seen, rest⟩ := by
  rw [startValue, if_neg (by simp), if_pos List.head?_cons, if_neg (by omega), List.tail_cons]

theorem startValue_dict (h : stack.length < limit) (rest : List Char) :
    startValue limit stack seen ('{' :: rest) = .more ⟨.firstKey, stack, seen, rest⟩ := by
  rw [startValue, if_neg (by simp), if_neg (by simp), if_pos List.head?_cons, if_neg (by omega),
    List.tail_cons]

theorem startKey_write (before : List (String × Tree)) (key : String) (cs : List Char) :
    startKey before stack seen (writeKey style key ++ cs) =
      .more ⟨.value, .fields before key :: stack, seen,
        List.replicate style.keyBlanks ' ' ++ cs⟩ := by
  have hwrite : writeKey style key ++ cs = '"' :: (key.toList.flatMap (writeChar style.ascii) ++
      '"' :: ':' :: (List.replicate style.keyBlanks ' ' ++ cs)) := by
    simp [writeKey, writeString]
  have hskip : skip (':' :: (List.replicate style.keyBlanks ' ' ++ cs)) =
      ':' :: (List.replicate style.keyBlanks ' ' ++ cs) := skip_cons _ (by decide)
  rw [hwrite, startKey, if_pos List.head?_cons, List.tail_cons, scanString_write]
  simp only [hskip, List.head?_cons, if_true, List.tail_cons]

/-- Where a value starts, the machine reads the tree. -/
def Reads (limit : ℕ) (stack : List Frame) (seen : List Numeral) (tree : Tree)
    (cs rest : List Char) : Prop :=
  ∃ c seen', startValue limit stack seen cs = .more c ∧
    Steps limit c ⟨.after tree, stack, seen', rest⟩

/-- From where the next item starts, it reads a list to its end. -/
def ReadsItems (limit : ℕ) (before : List Tree) (stack : List Frame) (seen : List Numeral)
    (items : List Tree) (cs rest : List Char) : Prop :=
  ∃ c seen', startValue limit (.items before :: stack) seen cs = .more c ∧
    Steps limit c ⟨.after (.list (before ++ items)), stack, seen', rest⟩

/-- From where the next key starts, it reads an object to its end. -/
def ReadsFields (limit : ℕ) (before : List (String × Tree)) (stack : List Frame)
    (seen : List Numeral) (fields : List (String × Tree)) (cs rest : List Char) : Prop :=
  ∃ c seen', startKey before stack seen cs = .more c ∧
    Steps limit c ⟨.after (.dict (before ++ fields)), stack, seen', rest⟩

theorem step_value {blanks cs : List Char} (h : skip blanks = cs) :
    step limit ⟨.value, stack, seen, blanks⟩ = startValue limit stack seen cs := by
  rw [← h]
  rfl

theorem step_key {before : List (String × Tree)} {blanks cs : List Char} (h : skip blanks = cs) :
    step limit ⟨.key before, stack, seen, blanks⟩ = startKey before stack seen cs := by
  rw [← h]
  rfl

/-- After an item and a comma comes the next. -/
theorem step_comma_items {before : List Tree} {tree : Tree} {cs : List Char} :
    step limit ⟨.after tree, .items before :: stack, seen, ',' :: cs⟩ =
      .more ⟨.value, .items (before ++ [tree]) :: stack, seen, cs⟩ := rfl

theorem step_comma_fields {before : List (String × Tree)} {key : String} {tree : Tree}
    {cs : List Char} :
    step limit ⟨.after tree, .fields before key :: stack, seen, ',' :: cs⟩ =
      .more ⟨.key (before ++ [(key, tree)]), stack, seen, cs⟩ := rfl

/-- After the last item the list is closed. -/
theorem step_close_items {before : List Tree} {tree : Tree} (level : ℕ) (rest : List Char) :
    step limit ⟨.after tree, .items before :: stack, seen, newline style level ++ ']' :: rest⟩ =
      .more ⟨.after (.list (before ++ [tree])), stack, seen, rest⟩ := by
  rw [step, skip_newline, skip_cons _ (by decide)]
  rfl

theorem step_close_fields {before : List (String × Tree)} {key : String} {tree : Tree}
    (level : ℕ) (rest : List Char) :
    step limit ⟨.after tree, .fields before key :: stack, seen,
        newline style level ++ '}' :: rest⟩ =
      .more ⟨.after (.dict (before ++ [(key, tree)])), stack, seen, rest⟩ := by
  rw [step, skip_newline, skip_cons _ (by decide)]
  rfl

/-- What follows an item in its list is no part of a number. -/
theorem delimited_items (items : List Tree) (level : ℕ) (rest : List Char) :
    Delimited (writeItems style (level + 1) items ++ (newline style level ++ ']' :: rest)) := by
  cases items with
  | nil => exact delimited_newline _ _ (.inl rfl) _
  | cons item items => exact delimited_cons _ (by decide) (by decide)

theorem delimited_fields (fields : List (String × Tree)) (level : ℕ) (rest : List Char) :
    Delimited (writeFields style (level + 1) fields ++ (newline style level ++ '}' :: rest)) := by
  cases fields with
  | nil => exact delimited_newline _ _ (.inr rfl) _
  | cons field fields => exact delimited_cons _ (by decide) (by decide)

/-- **An item and those after it**: the item read, the list is closed or goes
on after a comma. -/
theorem readsItems_cons {before : List Tree} {item : Tree} {items : List Tree} {level : ℕ}
    {rest : List Char} (hproper : ∀ numeral ∈ Tree.numeralsItems items, numeral.Proper)
    (hitem : Reads limit (.items before :: stack) seen item
      (write style (level + 1) item ++
        (writeItems style (level + 1) items ++ (newline style level ++ ']' :: rest)))
      (writeItems style (level + 1) items ++ (newline style level ++ ']' :: rest)))
    (hitems : ∀ next more seen, items = next :: more →
      ReadsItems limit (before ++ [item]) stack seen items
        (write style (level + 1) next ++
          (writeItems style (level + 1) more ++ (newline style level ++ ']' :: rest))) rest) :
    ReadsItems limit before stack seen (item :: items)
      (write style (level + 1) item ++
        (writeItems style (level + 1) items ++ (newline style level ++ ']' :: rest))) rest := by
  obtain ⟨c, seen₁, hstart, hsteps⟩ := hitem
  cases items with
  | nil => exact ⟨c, seen₁, hstart, hsteps.tail (step_close_items style level rest)⟩
  | cons next more =>
      obtain ⟨c', seen₂, hstart', hsteps'⟩ := hitems next more seen₁ rfl
      refine ⟨c, seen₂, hstart, hsteps.trans ?_⟩
      obtain ⟨blanks, hsep, hskip⟩ := itemSeparator_append style
        (write style (level + 1) next ++
          (writeItems style (level + 1) more ++ (newline style level ++ ']' :: rest))) (level + 1)
      rw [skip_write style _ fun numeral hmem =>
        hproper numeral (List.mem_append_left _ hmem)] at hskip
      rw [writeItems, List.append_assoc, List.append_assoc, hsep]
      rw [List.append_assoc, List.singleton_append] at hsteps'
      exact .head step_comma_items (.head ((step_value hskip).trans hstart') hsteps')

/-- A key with its value, and those after it. -/
theorem readsFields_cons {before : List (String × Tree)} {key : String} {value : Tree}
    {fields : List (String × Tree)} {level : ℕ} {rest : List Char}
    (hproper : ∀ numeral ∈ value.numerals, numeral.Proper)
    (hvalue : Reads limit (.fields before key :: stack) seen value
      (write style (level + 1) value ++
        (writeFields style (level + 1) fields ++ (newline style level ++ '}' :: rest)))
      (writeFields style (level + 1) fields ++ (newline style level ++ '}' :: rest)))
    (hfields : ∀ next nextValue more seen, fields = (next, nextValue) :: more →
      ReadsFields limit (before ++ [(key, value)]) stack seen fields
        (writeKey style next ++ (write style (level + 1) nextValue ++
          (writeFields style (level + 1) more ++ (newline style level ++ '}' :: rest)))) rest) :
    ReadsFields limit before stack seen ((key, value) :: fields)
      (writeKey style key ++ (write style (level + 1) value ++
        (writeFields style (level + 1) fields ++ (newline style level ++ '}' :: rest)))) rest := by
  obtain ⟨c, seen₁, hstart, hsteps⟩ := hvalue
  have hskip : skip (List.replicate style.keyBlanks ' ' ++ (write style (level + 1) value ++
      (writeFields style (level + 1) fields ++ (newline style level ++ '}' :: rest)))) = _ :=
    (skip_replicate _ _).trans (skip_write style _ hproper _)
  have hread : Steps limit ⟨.value, .fields before key :: stack, seen, _⟩
      ⟨.after value, .fields before key :: stack, seen₁, _⟩ :=
    .head ((step_value hskip).trans hstart) hsteps
  cases fields with
  | nil =>
      exact ⟨_, seen₁, startKey_write style before key _,
        hread.tail (step_close_fields style level rest)⟩
  | cons field more =>
      obtain ⟨next, nextValue⟩ := field
      obtain ⟨c', seen₂, hstart', hsteps'⟩ := hfields next nextValue more seen₁ rfl
      refine ⟨_, seen₂, startKey_write style before key _, hread.trans ?_⟩
      obtain ⟨blanks, hsep, hskip'⟩ := itemSeparator_append style
        (writeKey style next ++ (write style (level + 1) nextValue ++
          (writeFields style (level + 1) more ++ (newline style level ++ '}' :: rest)))) (level + 1)
      have hquote : skip (writeKey style next ++ (write style (level + 1) nextValue ++
          (writeFields style (level + 1) more ++ (newline style level ++ '}' :: rest)))) = _ :=
        skip_cons _ (by decide)
      rw [writeFields, List.append_assoc, List.append_assoc, List.append_assoc, hsep]
      rw [List.append_assoc, List.singleton_append] at hsteps'
      exact .head step_comma_fields
        (.head ((step_key (hskip'.trans hquote)).trans hstart') hsteps')

/-- **The text of a tree is read as the tree**, wherever it stands. -/
theorem reads_write (tree : Tree) :
    ∀ (level : ℕ) (stack : List Frame) (seen : List Numeral) (rest : List Char),
      stack.length + tree.depth ≤ limit → (∀ numeral ∈ tree.numerals, numeral.Proper) →
      Delimited rest → Reads limit stack seen tree (write style level tree ++ rest) rest := by
  refine @Tree.induction
    (fun tree => ∀ (level : ℕ) (stack : List Frame) (seen : List Numeral) (rest : List Char),
      stack.length + tree.depth ≤ limit → (∀ numeral ∈ tree.numerals, numeral.Proper) →
      Delimited rest → Reads limit stack seen tree (write style level tree ++ rest) rest)
    (fun items => ∀ (level : ℕ) (before : List Tree) (stack : List Frame) (seen : List Numeral)
      (rest : List Char) (next : Tree) (more : List Tree), items = next :: more →
      stack.length + 1 + Tree.depthItems items ≤ limit →
      (∀ numeral ∈ Tree.numeralsItems items, numeral.Proper) →
      ReadsItems limit before stack seen items (write style (level + 1) next ++
        (writeItems style (level + 1) more ++ (newline style level ++ ']' :: rest))) rest)
    (fun fields => ∀ (level : ℕ) (before : List (String × Tree)) (stack : List Frame)
      (seen : List Numeral) (rest : List Char) (key : String) (value : Tree)
      (more : List (String × Tree)), fields = (key, value) :: more →
      stack.length + 1 + Tree.depthFields fields ≤ limit →
      (∀ numeral ∈ Tree.numeralsFields fields, numeral.Proper) →
      ReadsFields limit before stack seen fields (writeKey style key ++
        (write style (level + 1) value ++
          (writeFields style (level + 1) more ++ (newline style level ++ '}' :: rest)))) rest)
    ?null ?bool ?str ?number ?list ?dict ?nil ?cons ?noField ?field tree
  case null =>
    intro level stack seen rest _ _ _
    exact ⟨_, _, startValue_atom rfl (by simp [write]), .refl⟩
  case bool =>
    intro b level stack seen rest _ _ _
    cases b with
    | true => exact ⟨_, _, startValue_atom rfl (by simp [write]), .refl⟩
    | false => exact ⟨_, _, startValue_atom rfl (by simp [write]), .refl⟩
  case str =>
    intro text level stack seen rest _ _ _
    exact ⟨_, _, startValue_string style text rest, .refl⟩
  case number =>
    intro numeral level stack seen rest _ hproper hrest
    have hscan := hproper numeral (List.mem_singleton_self _)
    refine ⟨_, _, startValue_atom (scanAtom_number hrest hscan) ?_, .refl⟩
    obtain ⟨c, cs, htext, hhead⟩ := head_of_scanNumber hscan
    rw [write, htext]
    rintro d hd hmem
    obtain rfl := Option.some.inj hd
    rcases hhead with hc | ⟨rfl, -⟩
    · have hall : ∀ d ∈ ['"', '[', '{'], d.isDigit = false := by simp
      rw [hall _ hmem] at hc
      cases hc
    · revert hmem
      decide
  case list =>
    intro items ih level stack seen rest hdepth hproper _
    rw [Tree.depth] at hdepth
    cases items with
    | nil =>
        refine ⟨_, seen, startValue_list (by omega) (']' :: rest), .single ?_⟩
        rw [step, skip_cons _ (by decide)]
        rfl
    | cons item items =>
        obtain ⟨c, seen', hstart, hsteps⟩ :=
          ih level [] stack seen rest item items rfl (by omega) hproper
        have hitem : ∀ numeral ∈ item.numerals, numeral.Proper :=
          fun numeral hmem => hproper numeral (List.mem_append_left _ hmem)
        refine ⟨⟨.firstItem, stack, seen, newline style (level + 1) ++
          (write style (level + 1) item ++
            (writeItems style (level + 1) items ++ (newline style level ++ ']' :: rest)))⟩,
          seen', ?_, .head ?_ hsteps⟩
        · rw [write]
          simp only [List.append_assoc, List.cons_append, List.nil_append]
          exact startValue_list (by omega) _
        · obtain ⟨d, ds, hwrite, -, hclose, -⟩ := head_write style (level + 1) hitem
          rw [step, skip_newline, skip_write style _ hitem]
          simp only
          rw [if_neg ?_, hstart]
          rw [hwrite, List.cons_append, List.head?_cons]
          exact fun heq => hclose (Option.some.inj heq)
  case dict =>
    intro fields ih level stack seen rest hdepth hproper _
    rw [Tree.depth] at hdepth
    cases fields with
    | nil =>
        refine ⟨_, seen, startValue_dict (by omega) ('}' :: rest), .single ?_⟩
        rw [step, skip_cons _ (by decide)]
        rfl
    | cons field fields =>
        obtain ⟨key, value⟩ := field
        obtain ⟨c, seen', hstart, hsteps⟩ :=
          ih level [] stack seen rest key value fields rfl (by omega) hproper
        refine ⟨⟨.firstKey, stack, seen, newline style (level + 1) ++
          (writeKey style key ++ (write style (level + 1) value ++
            (writeFields style (level + 1) fields ++ (newline style level ++ '}' :: rest))))⟩,
          seen', ?_, .head ?_ hsteps⟩
        · rw [write]
          simp only [List.append_assoc, List.cons_append, List.nil_append]
          exact startValue_dict (by omega) _
        · have hquote : skip (writeKey style key ++ (write style (level + 1) value ++
              (writeFields style (level + 1) fields ++ (newline style level ++ '}' :: rest)))) =
              _ := skip_cons _ (by decide)
          rw [step, skip_newline, hquote]
          exact hstart
  case nil =>
    intro level before stack seen rest next more heq
    cases heq
  case cons =>
    intro item items hitem hitems level before stack seen rest next more heq hdepth hproper
    obtain ⟨rfl, rfl⟩ := List.cons.inj heq
    rw [Tree.depthItems] at hdepth
    have htail : ∀ numeral ∈ Tree.numeralsItems items, numeral.Proper :=
      fun numeral hmem => hproper numeral (List.mem_append_right _ hmem)
    refine readsItems_cons style htail ?_ ?_
    · exact hitem (level + 1) (.items before :: stack) seen _
        (by rw [List.length_cons]; omega)
        (fun numeral hmem => hproper numeral (List.mem_append_left _ hmem))
        (delimited_items style items level rest)
    · intro next more seen heq
      exact hitems level (before ++ [item]) stack seen rest next more heq (by omega) htail
  case noField =>
    intro level before stack seen rest key value more heq
    cases heq
  case field =>
    intro key value fields hvalue hfields level before stack seen rest key' value' more heq hdepth
      hproper
    obtain ⟨heq', rfl⟩ := List.cons.inj heq
    obtain ⟨rfl, rfl⟩ := Prod.mk.inj heq'
    rw [Tree.depthFields] at hdepth
    have hhead : ∀ numeral ∈ value.numerals, numeral.Proper :=
      fun numeral hmem => hproper numeral (List.mem_append_left _ hmem)
    refine readsFields_cons style hhead ?_ ?_
    · exact hvalue (level + 1) (.fields before key :: stack) seen _
        (by rw [List.length_cons]; omega) hhead (delimited_fields style fields level rest)
    · intro next nextValue more seen heq
      exact hfields level (before ++ [(key, value)]) stack seen rest next nextValue more heq
        (by omega) fun numeral hmem => hproper numeral (List.mem_append_right _ hmem)

/-- **What is written is read back**, in every style, as deep as the reader
goes, whatever blanks follow. -/
theorem scan_write {tree : Tree} {blanks : List Char} (hdepth : tree.depth ≤ limit)
    (hproper : ∀ numeral ∈ tree.numerals, numeral.Proper)
    (hblanks : ∀ c ∈ blanks, isBlank c = true) :
    scan limit (write style 0 tree ++ blanks) = .value tree := by
  have hrest : Delimited blanks := by
    cases blanks with
    | nil =>
        intro c hc
        cases hc
    | cons c blanks =>
        have hc := hblanks c List.mem_cons_self
        refine delimited_cons _ ?_ ?_
        · by_contra hdigit
          rw [Bool.not_eq_false] at hdigit
          rw [isBlank_of_isDigit hdigit] at hc
          cases hc
        · intro hmem
          have hall : ∀ d ∈ ['.', 'e', 'E', '+', '-'], isBlank d = false := by
            simp [isBlank]
          rw [hall c hmem] at hc
          cases hc
  have hread : Reads limit [] [] tree (write style 0 tree ++ blanks) blanks :=
    reads_write style tree 0 [] [] blanks ((Nat.zero_add _).trans_le hdepth) hproper hrest
  obtain ⟨c, seen, hstart, hsteps⟩ := hread
  have hskip := skip_write style 0 hproper blanks
  have hmark : (write style 0 tree ++ blanks).head? ≠ some '\ufeff' := by
    obtain ⟨d, ds, hwrite, -, -, hmark⟩ := head_write style 0 hproper
    rw [hwrite, List.cons_append, List.head?_cons]
    exact fun heq => hmark (Option.some.inj heq)
  have hall : Steps limit ⟨.value, [], [], write style 0 tree ++ blanks⟩
      ⟨.after tree, [], seen, blanks⟩ := .head ((step_value hskip).trans hstart) hsteps
  have hend : step limit ⟨.after tree, [], seen, blanks⟩ = .done tree := by
    have hempty : skip blanks = [] := List.dropWhile_eq_nil_iff.2 hblanks
    rw [step, hempty]
    rfl
  rw [scan, if_neg hmark]
  refine (run_of_steps hall).trans ?_
  rw [run, hend]

end Text

end Json

end Common
