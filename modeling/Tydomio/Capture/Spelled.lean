import Tydomio.Capture.FindSecrets
import Tydomio.Common.Search

/-!
# What the path of a secret spells

A key that holds a secret is hidden in the paths, and one that holds none is
shown. A path joins them by dots, so it can spell what none of them holds: the
IP, or the MAC or its last digits with dots between them. No match of these
goes across a bracket or a hidden key, so the path spells one exactly where
consecutive keys do, or the digits of an index (`holdsAddress_shownPath_iff`).
-/

namespace Tydomio

open Common

/-! ## What an address matches -/

/-- The hexadecimal digits. -/
def hexDigits : List Char := [
  '0', '1', '2', '3', '4', '5', '6', '7', '8', '9', 'a', 'b', 'c', 'd', 'e', 'f', 'A', 'B', 'C',
  'D', 'E', 'F']

theorem mem_hexDigits_of_isDigit {c : Char} (h : c.isDigit = true) : c ∈ hexDigits := by
  have hdigits : ∀ n < 58, 48 ≤ n → Char.ofNat n ∈ hexDigits := by decide
  rw [Char.isDigit, Bool.and_eq_true, decide_eq_true_eq, decide_eq_true_eq] at h
  rw [← Char.ofNat_toNat c]
  exact hdigits _ (Nat.lt_succ_of_le h.2) h.1

/-- **Ignoring case**: a hexadecimal digit is a letter of none but
hexadecimal digits, and the dot of none but the dot. -/
structure Folds (sameLetter : Char → Char → Bool) : Prop where
  hex : ∀ c ∈ hexDigits, ∀ d, sameLetter c d = true → d ∈ hexDigits
  dot : ∀ d, sameLetter '.' d = true → d = '.'

/-- **Secrets with addresses**: a MAC of twelve hexadecimal digits and an IP
of four numbers. -/
structure Secrets.Addressed (secrets : Secrets) : Prop where
  digits : secrets.mac.length = 12
  hex : ∀ c ∈ secrets.mac.toList, c ∈ hexDigits
  ip : ∃ a b c d : ℕ, secrets.ip =
    some (toString a ++ "." ++ toString b ++ "." ++ toString c ++ "." ++ toString d)

/-- The form of an address: between two hexadecimal digits there are others,
dots and separators. -/
structure Form.IsAddress (form : Form) : Prop where
  ends : ∃ c middle d, form = .letter c :: (middle ++ [.letter d]) ∧ c ∈ hexDigits ∧ d ∈ hexDigits
  letters : ∀ c, .letter c ∈ form → c ∈ hexDigits ∨ c = '.'

theorem isAddress_literal {c d : Char} {middle : List Char} (hc : c ∈ hexDigits)
    (hd : d ∈ hexDigits) (hmiddle : ∀ x ∈ middle, x ∈ hexDigits ∨ x = '.') :
    (Form.literal (c :: (middle ++ [d]))).IsAddress where
  ends := ⟨c, middle.map .letter, d, by simp [Form.literal], hc, hd⟩
  letters x hx := by
    obtain ⟨y, hy, heq⟩ := List.mem_map.1 hx
    cases heq
    rcases List.mem_cons.1 hy with rfl | hy
    · exact .inl hc
    · rcases List.mem_append.1 hy with hy | hy
      · exact hmiddle _ hy
      · rw [List.mem_singleton.1 hy]
        exact .inl hd

/-- Numbers with dots between them. -/
theorem isAddress_dotted {first second third last : List Char} (hfirst : first ≠ [])
    (hlast : last ≠ []) (hfirstHex : ∀ c ∈ first, c ∈ hexDigits)
    (hlastHex : ∀ c ∈ last, c ∈ hexDigits)
    (hmiddle : ∀ c ∈ second ++ third, c ∈ hexDigits ∨ c = '.') :
    (Form.literal (first ++ ['.'] ++ second ++ ['.'] ++ third ++ ['.'] ++ last)).IsAddress := by
  obtain ⟨x, xs, rfl⟩ := List.exists_cons_of_ne_nil hfirst
  obtain ⟨ys, y, rfl⟩ := (List.eq_nil_or_concat last).resolve_left hlast
  rw [List.concat_eq_append] at hlastHex ⊢
  have hlist : x :: xs ++ ['.'] ++ second ++ ['.'] ++ third ++ ['.'] ++ (ys ++ [y]) =
      x :: ((xs ++ ['.'] ++ second ++ ['.'] ++ third ++ ['.'] ++ ys) ++ [y]) := by
    simp only [List.cons_append, List.append_assoc]
  rw [hlist]
  refine isAddress_literal (hfirstHex x List.mem_cons_self) (hlastHex y (by simp)) fun z hz => ?_
  simp only [List.mem_append, List.mem_singleton] at hz hmiddle
  rcases hz with (((((hz | hz) | hz) | hz) | hz) | hz) | hz
  · exact .inl (hfirstHex z (List.mem_cons_of_mem _ hz))
  · exact .inr hz
  · exact hmiddle z (.inl hz)
  · exact .inr hz
  · exact hmiddle z (.inr hz)
  · exact .inr hz
  · exact .inl (hlastHex z (List.mem_append_left _ hz))

/-- Between the ends of a list there is the same. -/
theorem exists_intersperse {α : Type*} (sep x y : α) (xs : List α) :
    ∃ front, (x :: (xs ++ [y])).intersperse sep = x :: (front ++ [y]) := by
  induction xs generalizing x with
  | nil => exact ⟨[sep], rfl⟩
  | cons z zs ih =>
      obtain ⟨front, hfront⟩ := ih z
      refine ⟨sep :: z :: front, ?_⟩
      rw [List.cons_append, List.intersperse_cons_cons, hfront]
      rfl

theorem mem_of_mem_intersperse {α : Type*} {sep x : α} {xs : List α}
    (h : x ∈ xs.intersperse sep) : x ∈ xs ∨ x = sep := by
  induction xs with
  | nil => cases h
  | cons y ys ih =>
      cases ys with
      | nil => exact .inl h
      | cons z zs =>
          rw [List.intersperse_cons_cons, List.mem_cons, List.mem_cons] at h
          rcases h with rfl | rfl | h
          · exact .inl List.mem_cons_self
          · exact .inr rfl
          · exact (ih h).imp_left (List.mem_cons_of_mem _)

theorem isAddress_separated {text : List Char} (hlength : 2 ≤ text.length)
    (hhex : ∀ c ∈ text, c ∈ hexDigits) : (Form.separated text).IsAddress where
  ends := by
    cases text with
    | nil => cases hlength
    | cons c cs =>
        rcases List.eq_nil_or_concat cs with rfl | ⟨middle, d, rfl⟩
        · simp at hlength
        · rw [List.concat_eq_append] at hhex ⊢
          obtain ⟨front, hfront⟩ := exists_intersperse FormStep.separator (.letter c) (.letter d)
            (middle.map .letter)
          refine ⟨c, front, d, ?_, hhex c (by simp), hhex d (by simp)⟩
          rw [← hfront, Form.separated]
          simp
  letters c hc := by
    rcases mem_of_mem_intersperse hc with hletter | hsep
    · obtain ⟨d, hd, heq⟩ := List.mem_map.1 hletter
      cases heq
      exact .inl (hhex c hd)
    · cases hsep

section Address

variable {sameLetter : Char → Char → Bool} {secrets : Secrets}

/-- The forms of the addresses: all but that of the password. -/
def Secrets.addresses (secrets : Secrets) : List Form := secrets.pattern.tail

theorem isAddress_of_mem_addresses (hsecrets : secrets.Addressed) :
    ∀ form ∈ secrets.addresses, form.IsAddress := by
  have hlower : ∀ c ∈ Text.lower secrets.mac.toList, c ∈ hexDigits := by
    have htoLower : (hexDigits.all fun c => c.toLower ∈ hexDigits) = true := by decide
    intro c hc
    obtain ⟨d, hd, rfl⟩ := List.mem_map.1 hc
    exact of_decide_eq_true (List.all_eq_true.1 htoLower d (hsecrets.hex d hd))
  have hlength : (Text.lower secrets.mac.toList).length = 12 := by
    rw [Text.lower, List.length_map, String.length_toList, hsecrets.digits]
  obtain ⟨a, b, c, d, hip⟩ := hsecrets.ip
  have haddresses : secrets.addresses = [.separated (Text.lower secrets.mac.toList),
      .separated ((Text.lower secrets.mac.toList).drop 6),
      .literal (toString a ++ "." ++ toString b ++ "." ++ toString c ++ "." ++
        toString d).toList] := by
    rw [Secrets.addresses, Secrets.pattern, hip]
    simp only [hlength]
    rfl
  rw [haddresses]
  intro form hform
  simp only [List.mem_cons, List.not_mem_nil, or_false] at hform
  rcases hform with rfl | rfl | rfl
  · exact isAddress_separated (by omega) hlower
  · refine isAddress_separated ?_ fun x hx => hlower x (List.mem_of_mem_drop hx)
    rw [List.length_drop]
    omega
  · have hnumber : ∀ n : ℕ, ∀ x ∈ (toString n).toList, x ∈ hexDigits := fun n x hx =>
      mem_hexDigits_of_isDigit (Text.isDigit_of_mem_natText hx)
    have hne : ∀ n : ℕ, (toString n).toList ≠ [] := fun n hnil =>
      Text.intText_ne_empty n (String.toList_eq_nil_iff.1 hnil)
    have hlist : (toString a ++ "." ++ toString b ++ "." ++ toString c ++ "." ++
        toString d).toList = (toString a).toList ++ ['.'] ++ (toString b).toList ++ ['.'] ++
          (toString c).toList ++ ['.'] ++ (toString d).toList := by
      simp only [String.toList_append]
      rfl
    rw [hlist]
    refine isAddress_dotted (hne a) (hne d) (hnumber a) (hnumber d) fun x hx => ?_
    rcases List.mem_append.1 hx with hx | hx
    · exact .inl (hnumber b x hx)
    · exact .inl (hnumber c x hx)

/-! ### Matches -/

theorem Form.matches_append {form form' : Form} {text : List Char}
    (h : (form ++ form').Matches sameLetter text) :
    ∃ front back, text = front ++ back ∧ form.Matches sameLetter front ∧
      form'.Matches sameLetter back := by
  induction form generalizing text with
  | nil => exact ⟨[], text, rfl, .nil, h⟩
  | cons step form ih =>
      cases h with
      | letter hletter h =>
          obtain ⟨front, back, rfl, hfront, hback⟩ := ih h
          exact ⟨_ :: front, back, rfl, .letter hletter hfront, hback⟩
      | joined h =>
          obtain ⟨front, back, rfl, hfront, hback⟩ := ih h
          exact ⟨front, back, rfl, .joined hfront, hback⟩
      | separated hx h =>
          obtain ⟨front, back, rfl, hfront, hback⟩ := ih h
          exact ⟨_ :: front, back, rfl, .separated hx hfront, hback⟩

/-- A character of a match is a letter of the form or a separator. -/
theorem Form.mem_of_matches {form : Form} {text : List Char} (h : form.Matches sameLetter text) :
    ∀ x ∈ text, (∃ c, .letter c ∈ form ∧ sameLetter c x = true) ∨ x ∈ [':', '.', '-'] := by
  induction h with
  | nil => exact nofun
  | @letter c x form text hletter _ ih =>
      rintro y (_ | ⟨_, hy⟩)
      · exact .inl ⟨c, List.mem_cons_self, hletter⟩
      · exact (ih y hy).imp_left fun ⟨d, hd, hsame⟩ => ⟨d, List.mem_cons_of_mem _ hd, hsame⟩
  | joined _ ih =>
      exact fun y hy => (ih y hy).imp_left fun ⟨d, hd, hsame⟩ =>
        ⟨d, List.mem_cons_of_mem _ hd, hsame⟩
  | separated hx _ ih =>
      rintro y (_ | ⟨_, hy⟩)
      · exact .inr hx
      · exact (ih y hy).imp_left fun ⟨d, hd, hsame⟩ => ⟨d, List.mem_cons_of_mem _ hd, hsame⟩

/-- **The text of an address**: hexadecimal digits, with separators between
them. -/
structure AddressText (text : List Char) : Prop where
  ends : ∃ x middle y, text = x :: (middle ++ [y]) ∧ x ∈ hexDigits ∧ y ∈ hexDigits
  chars : ∀ x ∈ text, x ∈ hexDigits ∨ x ∈ [':', '.', '-']

theorem Form.IsAddress.addressText (hfolds : Folds sameLetter) {form : Form}
    (hform : form.IsAddress) {text : List Char} (h : form.Matches sameLetter text) :
    AddressText text where
  ends := by
    obtain ⟨c, middle, d, rfl, hc, hd⟩ := hform.ends
    cases h with
    | letter hletter h =>
        obtain ⟨front, back, rfl, -, hback⟩ := Form.matches_append h
        cases hback with
        | letter hlast hnil =>
            cases hnil
            exact ⟨_, front, _, rfl, hfolds.hex c hc _ hletter, hfolds.hex d hd _ hlast⟩
  chars x hx := by
    rcases Form.mem_of_matches h x hx with ⟨c, hc, hsame⟩ | hsep
    · rcases hform.letters c hc with hhex | rfl
      · exact .inl (hfolds.hex c hhex x hsame)
      · rw [hfolds.dot x hsame]
        exact .inr (by decide)
    · exact .inr hsep

theorem AddressText.two_le_length {text : List Char} (h : AddressText text) : 2 ≤ text.length := by
  obtain ⟨x, middle, y, rfl, -⟩ := h.ends
  rw [List.length_cons, List.length_append, List.length_singleton]
  omega

/-- It is not in less than two characters. -/
theorem AddressText.not_infix {text : List Char} (h : AddressText text) {xs : List Char}
    (hxs : xs.length < 2) : ¬ text <:+: xs := by
  intro hin
  have hlength := hin.length_le
  have htwo := h.two_le_length
  omega

/-- It is on one side of a character that it cannot hold. -/
theorem AddressText.infix_or_infix {text before after : List Char} {x : Char}
    (h : AddressText text) (hin : text <:+: before ++ x :: after)
    (hx : x ∉ hexDigits ++ [':', '.', '-']) : text <:+: before ∨ text <:+: after := by
  refine Text.infix_or_infix_of_not_mem hin fun hmem => hx ?_
  exact List.mem_append.2 (h.chars x hmem)

variable (sameLetter secrets) in
/-- **A text holds an address**: a match of the MAC, of its last digits or of
the IP. -/
def HoldsAddress (text : List Char) : Prop := Secrets.Holds sameLetter secrets.addresses text

/-- A text that holds an address holds a secret. -/
theorem HoldsAddress.holdsSecret {text : String}
    (h : HoldsAddress sameLetter secrets text.toList) :
    Capture.HoldsSecret sameLetter secrets text := by
  obtain ⟨found, hfound, form, hform, hmatches⟩ := h
  exact ⟨found, hfound, form, List.mem_of_mem_tail hform, hmatches⟩

/-- What is found is the text of an address. -/
theorem holdsAddress_iff (hfolds : Folds sameLetter) (hsecrets : secrets.Addressed)
    {text : List Char} : HoldsAddress sameLetter secrets text ↔
      ∃ found, AddressText found ∧ found <:+: text ∧ HoldsAddress sameLetter secrets found := by
  constructor
  · rintro ⟨found, hfound, form, hform, hmatches⟩
    exact ⟨found, (isAddress_of_mem_addresses hsecrets form hform).addressText hfolds hmatches,
      hfound, found, List.infix_rfl, form, hform, hmatches⟩
  · rintro ⟨found, -, hfound, hholds⟩
    exact hholds.mono hfound

end Address

namespace Capture

section Spells

variable (sameLetter : Char → Char → Bool) (secrets : Secrets)

/-- **A trail spells an address**: consecutive keys that hold no secret do,
joined by dots, or the digits of an index. -/
inductive Spells (trail : List Crumb) : Prop
  | keys {before after : List Crumb} {keys : List String} :
      trail = before ++ keys.map .key ++ after →
      (∀ key ∈ keys, ¬ HoldsSecret sameLetter secrets key) →
      HoldsAddress sameLetter secrets (".".intercalate keys).toList → Spells trail
  | index {index : ℕ} : .index index ∈ trail →
      HoldsAddress sameLetter secrets (toString index).toList → Spells trail

/-! ## The text of a path -/

/-- What a step adds to a path. -/
def crumbText : Crumb → List Char
  | .key key => '.' :: (if secrets.search sameLetter key then hiddenKey else key).toList
  | .index index => '[' :: ((toString index).toList ++ [']'])

/-- A path with its leading dots. -/
def trailText (trail : List Crumb) : List Char := trail.flatMap (crumbText sameLetter secrets)

variable {sameLetter secrets}

/-- At most one dot is removed. -/
theorem exists_removePrefix_dot (xs : List Char) :
    ∃ n, xs = List.replicate n '.' ++ Text.removePrefix ['.'] xs := by
  rw [Text.removePrefix]
  split
  · rename_i hdot
    obtain ⟨ys, rfl⟩ := hdot
    exact ⟨1, rfl⟩
  · exact ⟨0, rfl⟩

/-- A path is the text of its trail, without leading dots. -/
theorem exists_trailText (trail : List Crumb) : ∃ n, trailText sameLetter secrets trail =
    List.replicate n '.' ++ (shownPath sameLetter secrets trail).toList := by
  induction trail using List.reverseRecOn with
  | nil => exact ⟨0, rfl⟩
  | append_singleton trail crumb ih =>
      obtain ⟨n, hn⟩ := ih
      have happend : trailText sameLetter secrets (trail ++ [crumb]) =
          trailText sameLetter secrets trail ++ crumbText sameLetter secrets crumb := by
        rw [trailText, List.flatMap_append, List.flatMap_singleton]
        rfl
      rw [happend, hn]
      cases crumb with
      | key key =>
          rw [shownPath_key, childPath, crumbText]
          generalize (if secrets.search sameLetter key then hiddenKey else key) = shown
          obtain ⟨m, hm⟩ := exists_removePrefix_dot
            (shownPath sameLetter secrets trail ++ "." ++ shown).toList
          have hpath : (shownPath sameLetter secrets trail ++ "." ++ shown).toList =
              (shownPath sameLetter secrets trail).toList ++ '.' :: shown.toList := by
            rw [String.toList_append, String.toList_append, List.append_assoc]
            rfl
          refine ⟨n + m, ?_⟩
          rw [String.toList_ofList, ← List.replicate_append_replicate, List.append_assoc,
            List.append_assoc, ← hm, hpath]
      | index index =>
          refine ⟨n, ?_⟩
          rw [shownPath_index, itemPath, crumbText]
          simp only [String.toList_append, List.append_assoc]
          rfl

section Address

variable (hfolds : Folds sameLetter) (hsecrets : secrets.Addressed)

include hfolds hsecrets

/-- Leading dots hold no address. -/
theorem holdsAddress_trailText_iff (trail : List Crumb) :
    HoldsAddress sameLetter secrets (trailText sameLetter secrets trail) ↔
      HoldsAddress sameLetter secrets (shownPath sameLetter secrets trail).toList := by
  obtain ⟨n, hn⟩ := @exists_trailText sameLetter secrets trail
  rw [hn]
  refine ⟨fun h => ?_, fun h => h.mono (List.suffix_append _ _).isInfix⟩
  obtain ⟨found, htext, hfound, hholds⟩ := (holdsAddress_iff hfolds hsecrets).1 h
  obtain ⟨x, middle, y, rfl, hx, -⟩ := htext.ends
  have hdot : x ∉ List.replicate n '.' := by
    intro hmem
    rw [List.eq_of_mem_replicate hmem] at hx
    exact absurd hx (by decide)
  exact hholds.mono ((Text.infix_append_iff_of_not_mem hdot).1 hfound)

end Address

/-! ## Keys in a row -/

/-- The text of keys in a row. -/
def rowText (keys : List String) : List Char := keys.flatMap fun key => '.' :: key.toList

/-- Keys joined by dots, and a dot before them. -/
theorem rowText_eq {keys : List String} (hne : keys ≠ []) :
    rowText keys = '.' :: (".".intercalate keys).toList := by
  rw [String.toList_intercalate]
  induction keys with
  | nil => exact absurd rfl hne
  | cons key keys ih =>
      rw [rowText, List.flatMap_cons]
      cases keys with
      | nil => simp
      | cons next keys =>
          rw [← rowText, ih (List.cons_ne_nil _ _), List.map_cons, List.map_cons, List.map_cons,
            List.intercalate_cons_cons]
          simp

theorem rowText_concat (keys : List String) (key : String) :
    rowText (keys ++ [key]) = rowText keys ++ '.' :: key.toList := by
  rw [rowText, List.flatMap_append, List.flatMap_singleton]
  rfl

/-- Keys that hold no secret are shown. -/
theorem trailText_keys {keys : List String}
    (hclean : ∀ key ∈ keys, ¬ HoldsSecret sameLetter secrets key) :
    trailText sameLetter secrets (keys.map .key) = rowText keys := by
  rw [trailText, List.flatMap_map, rowText]
  refine List.flatMap_congr fun key hkey => ?_
  rw [crumbText, if_neg (mt search_iff.1 (hclean key hkey))]

theorem trailText_append (trail trail' : List Crumb) :
    trailText sameLetter secrets (trail ++ trail') =
      trailText sameLetter secrets trail ++ trailText sameLetter secrets trail' :=
  List.flatMap_append

theorem trailText_cons (crumb : Crumb) (trail : List Crumb) :
    trailText sameLetter secrets (crumb :: trail) =
      crumbText sameLetter secrets crumb ++ trailText sameLetter secrets trail :=
  List.flatMap_cons

/-- A longer trail spells what a part of it does. -/
theorem Spells.append {trail : List Crumb} (h : Spells sameLetter secrets trail)
    (before after : List Crumb) : Spells sameLetter secrets (before ++ trail ++ after) := by
  cases h with
  | @keys front back keys htrail hclean hholds =>
      refine @Spells.keys _ _ _ (before ++ front) (back ++ after) keys ?_ hclean hholds
      rw [htrail]
      simp only [List.append_assoc]
  | @index index hmem hholds =>
      exact .index (List.mem_append_left _ (List.mem_append_right _ hmem)) hholds

/-! ## Addresses in a path -/

/-- The name of a hidden key holds none. -/
theorem not_infix_key {found : List Char} (htext : AddressText found) :
    ¬ found <:+: ['k', 'e', 'y'] := by
  intro h
  have hname : found <:+: [] ++ 'k' :: (['e'] ++ 'y' :: []) := h
  rcases htext.infix_or_infix hname (by decide) with hempty | hrest
  · exact htext.not_infix (by decide) hempty
  · rcases htext.infix_or_infix hrest (by decide) with hletter | hempty
    · exact htext.not_infix (by decide) hletter
    · exact htext.not_infix (by decide) hempty

section Found

variable {found : List Char} (htext : AddressText found)
  (hholds : HoldsAddress sameLetter secrets found)

include htext hholds

/-- An address in a row of keys is spelled. -/
theorem spells_of_row {keys : List String}
    (hclean : ∀ key ∈ keys, ¬ HoldsSecret sameLetter secrets key) (h : found <:+: rowText keys) :
    Spells sameLetter secrets (keys.map .key) := by
  obtain ⟨x, middle, y, rfl, hx, -⟩ := htext.ends
  have hne : keys ≠ [] := by
    rintro rfl
    exact List.cons_ne_nil _ _ (List.infix_nil.1 h)
  have hdot : x ∉ ['.'] := by
    intro hmem
    rw [List.mem_singleton.1 hmem] at hx
    exact absurd hx (by decide)
  rw [rowText_eq hne] at h
  have hjoined := (Text.infix_append_iff_of_not_mem hdot).1 h
  exact @Spells.keys _ _ _ [] [] keys (by simp) hclean (hholds.mono hjoined)

/-- **An address in a path is spelled by its trail**: no match goes across a
bracket or a hidden key. -/
theorem spells_of_infix (trail : List Crumb) : ∀ keys : List String,
    (∀ key ∈ keys, ¬ HoldsSecret sameLetter secrets key) →
    found <:+: rowText keys ++ trailText sameLetter secrets trail →
      Spells sameLetter secrets (keys.map .key ++ trail) := by
  induction trail with
  | nil =>
      intro keys hclean h
      rw [trailText, List.flatMap_nil, List.append_nil] at h
      rw [List.append_nil]
      exact spells_of_row htext hholds hclean h
  | cons crumb trail ih =>
      intro keys hclean h
      rw [trailText_cons] at h
      cases crumb with
      | key key =>
          by_cases hkey : HoldsSecret sameLetter secrets key
          · have hhidden : rowText keys ++ (crumbText sameLetter secrets (.key key) ++
                trailText sameLetter secrets trail) = rowText keys ++ ['.'] ++ '<' ::
                  (['k', 'e', 'y'] ++ '>' :: trailText sameLetter secrets trail) := by
              rw [crumbText, if_pos (search_iff.2 hkey), List.append_assoc]
              rfl
            rw [hhidden] at h
            rcases htext.infix_or_infix h (by decide) with hrow | hrest
            · obtain ⟨x, middle, y, rfl, -, hy⟩ := htext.ends
              have hdot : y ∉ ['.'] := by
                intro hmem
                rw [List.mem_singleton.1 hmem] at hy
                exact absurd hy (by decide)
              rw [← List.cons_append, Text.infix_append_singleton_iff_of_not_mem hdot] at hrow
              exact (spells_of_row htext hholds hclean hrow).append [] (.key key :: trail)
            · rcases htext.infix_or_infix hrest (by decide) with hname | hrest
              · exact absurd hname (not_infix_key htext)
              · have htrail := ih [] nofun hrest
                have hlonger := htrail.append (keys.map .key ++ [.key key]) []
                simpa using hlonger
          · rw [crumbText, if_neg (mt search_iff.1 hkey), ← List.append_assoc,
              ← rowText_concat] at h
            have hrow := ih (keys ++ [key]) (by
              intro other hother
              rcases List.mem_append.1 hother with hother | hother
              · exact hclean other hother
              · rwa [List.mem_singleton.1 hother]) h
            simpa using hrow
      | index index =>
          have hindex : rowText keys ++ (crumbText sameLetter secrets (.index index) ++
              trailText sameLetter secrets trail) = rowText keys ++ '[' ::
                ((toString index).toList ++ ']' :: trailText sameLetter secrets trail) := by
            rw [crumbText, List.cons_append, List.append_assoc]
            rfl
          rw [hindex] at h
          rcases htext.infix_or_infix h (by decide) with hrow | hrest
          · exact (spells_of_row htext hholds hclean hrow).append [] (.index index :: trail)
          · rcases htext.infix_or_infix hrest (by decide) with hdigits | hrest
            · exact .index (List.mem_append_right _ List.mem_cons_self) (hholds.mono hdigits)
            · have htrail := ih [] nofun hrest
              have hlonger := htrail.append (keys.map .key ++ [.index index]) []
              simpa using hlonger

end Found

/-- **A path holds an address exactly where its trail spells one.** -/
theorem holdsAddress_shownPath_iff (hfolds : Folds sameLetter) (hsecrets : secrets.Addressed)
    (trail : List Crumb) :
    HoldsAddress sameLetter secrets (shownPath sameLetter secrets trail).toList ↔
      Spells sameLetter secrets trail := by
  rw [← holdsAddress_trailText_iff hfolds hsecrets]
  constructor
  · intro h
    obtain ⟨found, htext, hfound, hholds⟩ := (holdsAddress_iff hfolds hsecrets).1 h
    exact spells_of_infix htext hholds trail [] nofun hfound
  · rintro (@⟨before, after, keys, rfl, hclean, hholds⟩ | @⟨index, hmem, hholds⟩)
    · have hrow : (".".intercalate keys).toList <:+: rowText keys := by
        cases keys with
        | nil => exact List.infix_rfl
        | cons key keys =>
            rw [rowText_eq (List.cons_ne_nil _ _)]
            exact List.infix_cons List.infix_rfl
      rw [trailText_append, trailText_append, trailText_keys hclean]
      exact hholds.mono (hrow.trans ⟨_, _, rfl⟩)
    · obtain ⟨before, after, rfl⟩ := List.append_of_mem hmem
      rw [trailText_append, trailText_cons, crumbText]
      refine hholds.mono ?_
      refine List.IsInfix.trans ?_ (List.suffix_append _ _).isInfix
      refine List.IsInfix.trans ?_ (List.prefix_append _ _).isInfix
      exact List.infix_cons (List.prefix_append _ _).isInfix

/-! ## The reports -/

/-- **Each report is of a spot that holds a secret.** -/
theorem exists_spot_of_mem_findSecrets {documents : Dict String JsonValue}
    {report : String × String} (h : report ∈ findSecrets sameLetter secrets documents) :
    ∃ spot ∈ spots documents, HoldsSecret sameLetter secrets spot.text ∧
      report = reportOf sameLetter secrets spot := by
  obtain ⟨document, hdocument, hreport⟩ := List.mem_flatMap.1 h
  have hof : report ∈ reports sameLetter secrets (spotsOf document) := by
    rw [findInDocument_eq] at hreport
    split at hreport
    · rw [spotsOf, reports_cons]
      exact List.mem_append_right _ hreport
    · exact hreport
  obtain ⟨spot, hspot, rfl⟩ := List.mem_map.1 hof
  obtain ⟨hspot, hsecret⟩ := List.mem_filter.1 hspot
  exact ⟨spot, List.mem_flatMap.2 ⟨document, hdocument, hspot⟩, search_iff.1 hsecret, rfl⟩

/-- And each spot below a document is reported. -/
theorem reportOf_mem_findSecrets {documents : Dict String JsonValue} {spot : Spot}
    (hspot : spot ∈ spots documents) (hsecret : HoldsSecret sameLetter secrets spot.text)
    (htrail : spot.trail ≠ []) :
    reportOf sameLetter secrets spot ∈ findSecrets sameLetter secrets documents := by
  obtain ⟨document, hdocument, hof⟩ := List.mem_flatMap.1 hspot
  have hbelow : spot ∈ spotsIn document.1 [] document.2 := by
    rcases List.mem_cons.1 hof with rfl | hbelow
    · exact absurd rfl htrail
    · exact hbelow
  have hreport : reportOf sameLetter secrets spot ∈
      reports sameLetter secrets (spotsIn document.1 [] document.2) :=
    List.mem_map_of_mem (List.mem_filter.2 ⟨hbelow, search_iff.2 hsecret⟩)
  refine List.mem_flatMap.2 ⟨document, hdocument, ?_⟩
  rw [findInDocument_eq]
  split
  · exact hreport
  · rw [spotsOf, reports_cons]
    exact List.mem_append_right _ hreport

/-- The name of a hidden file holds no address. -/
theorem not_holdsAddress_hiddenFile (hfolds : Folds sameLetter) (hsecrets : secrets.Addressed) :
    ¬ HoldsAddress sameLetter secrets hiddenFile.toList := by
  intro h
  obtain ⟨found, htext, hfound, -⟩ := (holdsAddress_iff hfolds hsecrets).1 h
  have hname : found <:+:
      [] ++ '<' :: (['f'] ++ 'i' :: ([] ++ 'l' :: (['e'] ++ '>' :: []))) := hfound
  rcases htext.infix_or_infix hname (by decide) with hempty | hfound
  · exact htext.not_infix (by decide) hempty
  · rcases htext.infix_or_infix hfound (by decide) with hletter | hfound
    · exact htext.not_infix (by decide) hletter
    · rcases htext.infix_or_infix hfound (by decide) with hempty | hfound
      · exact htext.not_infix (by decide) hempty
      · rcases htext.infix_or_infix hfound (by decide) with hletter | hempty
        · exact htext.not_infix (by decide) hletter
        · exact htext.not_infix (by decide) hempty

/-- An empty trail spells none. -/
theorem not_spells_nil (hfolds : Folds sameLetter) (hsecrets : secrets.Addressed) :
    ¬ Spells sameLetter secrets [] := by
  rw [← holdsAddress_shownPath_iff hfolds hsecrets]
  intro h
  obtain ⟨found, htext, hfound, -⟩ := (holdsAddress_iff hfolds hsecrets).1 h
  have hempty : found <:+: [] := hfound
  exact htext.not_infix (by decide) hempty

/-- **The reports show no address** exactly where no spot that holds a secret
lies on a trail that spells one. -/
theorem reports_hide_iff (hfolds : Folds sameLetter) (hsecrets : secrets.Addressed)
    (documents : Dict String JsonValue) :
    (∀ report ∈ findSecrets sameLetter secrets documents,
      ¬ HoldsAddress sameLetter secrets report.1.toList ∧
        ¬ HoldsAddress sameLetter secrets report.2.toList) ↔
    ∀ spot ∈ spots documents, HoldsSecret sameLetter secrets spot.text →
      ¬ Spells sameLetter secrets spot.trail := by
  constructor
  · intro h spot hspot hsecret hspells
    have htrail : spot.trail ≠ [] := by
      intro hnil
      rw [hnil] at hspells
      exact not_spells_nil hfolds hsecrets hspells
    have hpath := (h _ (reportOf_mem_findSecrets hspot hsecret htrail)).2
    exact hpath ((holdsAddress_shownPath_iff hfolds hsecrets spot.trail).2 hspells)
  · intro h report hreport
    obtain ⟨spot, hspot, hsecret, rfl⟩ := exists_spot_of_mem_findSecrets hreport
    refine ⟨fun hfile => ?_, fun hpath => ?_⟩
    · rw [reportOf] at hfile
      by_cases hname : secrets.search sameLetter spot.file = true
      · simp only [if_pos hname] at hfile
        exact not_holdsAddress_hiddenFile hfolds hsecrets hfile
      · simp only [if_neg hname] at hfile
        exact hname (search_iff.2 hfile.holdsSecret)
    · exact h spot hspot hsecret ((holdsAddress_shownPath_iff hfolds hsecrets _).1 hpath)

end Spells

/-! ### Keys that spell the IP -/

/-- Secrets with an IP. -/
def localSecrets : Secrets := ⟨"hunter2", some "192.168.1.10", "001122AABBCC"⟩

/-- The password, under the numbers of the IP. -/
def nestedKeys : Dict String JsonValue :=
  .ofList [("info.json", .dict [("192", .dict [("168", .dict [("1", .dict [
    ("10", .str "hunter2")])])])])]

/-- What the reports of these show is decided by their spots. -/
theorem reports_hide_iff_nested :
    (∀ report ∈ findSecrets (· == ·) localSecrets nestedKeys,
      ¬ HoldsAddress (· == ·) localSecrets report.1.toList ∧
        ¬ HoldsAddress (· == ·) localSecrets report.2.toList) ↔
    ∀ spot ∈ spots nestedKeys, HoldsSecret (· == ·) localSecrets spot.text →
      ¬ Spells (· == ·) localSecrets spot.trail := by
  have hfolds : Folds (· == ·) :=
    ⟨fun c hc d h => eq_of_beq h ▸ hc, fun d h => (eq_of_beq h).symm⟩
  have hsecrets : localSecrets.Addressed := by
    refine ⟨rfl, ?_, 192, 168, 1, 10, rfl⟩
    simp [localSecrets, hexDigits]
  exact reports_hide_iff hfolds hsecrets nestedKeys

/-- **The path of the password is the IP.** -/
theorem nested_not_hidden : ¬ ∀ report ∈ findSecrets (· == ·) localSecrets nestedKeys,
    ¬ HoldsAddress (· == ·) localSecrets report.1.toList ∧
      ¬ HoldsAddress (· == ·) localSecrets report.2.toList := by
  have hreport : ("info.json", "192.168.1.10") ∈
      findSecrets (· == ·) localSecrets nestedKeys := by decide +kernel
  have hholds : HoldsAddress (· == ·) localSecrets "192.168.1.10".toList :=
    Secrets.searchFrom_iff.1 (by decide +kernel)
  exact fun h => (h _ hreport).2 hholds

end Capture

end Tydomio
