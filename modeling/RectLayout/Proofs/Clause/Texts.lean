import RectLayout.Proofs.Clause.Words

/-!
# Texts of one clause

Trimming takes blanks away at the ends of a text, and all of them (`Text.exists_around_trim`, `Text.trim_trim`). That
changes neither its tokens (`Token.Lexes.trimLeft`, `Token.Lexes.trimRight`) nor the clause that it spells
(`ClauseText.Spells.trim`). Lists of clauses are divided at their commas (`Clause.splitCommas_append`,
`Clause.comma_induction`). No comma stands in a text that spells a clause, so a list that does so when its keywords are
expanded consists of this clause alone (`Clause.parseAll_of_spells`).
-/

namespace RectLayout

variable {α : Type} [Scalar α]

/-! ## Trimming -/

namespace Text

theorem trimLeft_append_cons {c : Char} (hc : isBlank c = false) (l r : List Char) :
    trimLeft (l ++ c :: r) = trimLeft l ++ c :: r := by
  induction l with
  | nil => rw [List.nil_append, trimLeft, List.dropWhile_cons_of_neg (by simp [hc])]; rfl
  | cons k l ih =>
    by_cases hk : isBlank k
    · rw [trimLeft, trimLeft, List.cons_append, List.dropWhile_cons_of_pos hk, List.dropWhile_cons_of_pos hk]
      exact ih
    · rw [trimLeft, trimLeft, List.cons_append, List.dropWhile_cons_of_neg hk, List.dropWhile_cons_of_neg hk,
        List.cons_append]

/-- A text is trimmed on the right up to a symbol without blanks. -/
theorem trimRight_append {symbol : List Char} (hne : symbol ≠ []) (hsymbol : ∀ c ∈ symbol, isBlank c = false)
    (l r : List Char) : trimRight (l ++ symbol ++ r) = l ++ symbol ++ trimRight r := by
  obtain ⟨s, c, rfl⟩ := (List.eq_nil_or_concat' symbol).resolve_left hne
  have htrim := trimLeft_append_cons (hsymbol c (by simp)) r.reverse (s.reverse ++ l.reverse)
  have hreverse : (l ++ (s ++ [c]) ++ r).reverse = r.reverse ++ c :: (s.reverse ++ l.reverse) := by simp
  rw [trimRight, hreverse, ← trimLeft, htrim]
  simp [trimRight, trimLeft]

/-- A text is trimmed on the two sides of a symbol without blanks. -/
theorem trim_append {symbol : List Char} (hne : symbol ≠ []) (hsymbol : ∀ c ∈ symbol, isBlank c = false)
    (l r : List Char) : trim (l ++ symbol ++ r) = trimLeft l ++ symbol ++ trimRight r := by
  obtain ⟨c, s, rfl⟩ := List.exists_cons_of_ne_nil hne
  have hleft : trimLeft (l ++ (c :: s) ++ r) = trimLeft l ++ (c :: s) ++ r := by
    rw [List.append_assoc, List.cons_append, trimLeft_append_cons (hsymbol c List.mem_cons_self), List.append_assoc,
      List.cons_append]
  rw [trim, hleft, trimRight_append hne hsymbol]

theorem trimRight_cons_of_blank {c : Char} (hc : isBlank c) (r : List Char) :
    trimRight (c :: r) = [] ∧ trimRight r = [] ∨ trimRight (c :: r) = c :: trimRight r := by
  unfold trimRight
  rw [List.reverse_cons, List.dropWhile_append]
  split
  · rename_i hempty
    exact .inl ⟨by simp [hc], by simpa using hempty⟩
  · exact .inr (by simp)

theorem trimRight_prefix (cs : List Char) : trimRight cs <+: cs := by
  have hsuffix := List.dropWhile_suffix (l := cs.reverse) isBlank
  rw [← List.reverse_prefix, List.reverse_reverse] at hsuffix
  exact hsuffix

/-- Blanks stand around what is left by trimming. -/
theorem exists_around_trim (cs : List Char) :
    ∃ l r, cs = l ++ trim cs ++ r ∧ (∀ c ∈ l, isBlank c) ∧ ∀ c ∈ r, isBlank c := by
  refine ⟨cs.takeWhile isBlank, ((trimLeft cs).reverse.takeWhile isBlank).reverse, ?_,
    fun c hc => List.mem_takeWhile_imp hc, fun c hc => List.mem_takeWhile_imp (List.mem_reverse.mp hc)⟩
  rw [trim, trimRight, List.append_assoc, ← List.reverse_append, List.takeWhile_append_dropWhile, List.reverse_reverse,
    trimLeft, List.takeWhile_append_dropWhile]

theorem head?_dropWhile_isBlank (cs : List Char) : ∀ c ∈ (cs.dropWhile isBlank).head?, isBlank c = false := by
  intro c hc
  rw [← List.find?_not_eq_head?_dropWhile] at hc
  simpa using List.find?_some hc

theorem trim_trim (cs : List Char) : trim (trim cs) = trim cs := by
  refine trim_eq_self (fun c hc => ?_) fun c hc => ?_
  · obtain ⟨r, hr⟩ := trimRight_prefix (trimLeft cs)
    refine head?_dropWhile_isBlank cs c ?_
    rw [← trimLeft, ← hr, List.head?_append, ← trim, hc]
    rfl
  · rw [trim, trimRight, List.getLast?_reverse] at hc
    exact head?_dropWhile_isBlank _ c hc

end Text

/-! ## Blanks around a side -/

namespace Token

variable {cs : List Char} {ts : List (Token α)}

theorem isBlank_of_gap {c : Char} (hc : isGap c) : Text.isBlank c := by
  simp only [isGap, Bool.or_eq_true, beq_iff_eq] at hc
  rcases hc with ((rfl | rfl) | rfl) | rfl <;> decide

theorem bounds_of_tokenChar {c : Char} (hc : IsTokenChar c) : 33 ≤ c.val.toNat ∧ c.val.toNat < 128 := by
  rcases hc with hc | hc
  · simp only [Keyword.isWordChar, Char.isAlphanum, Bool.or_eq_true, isAlpha_iff, isDigit_iff, beq_iff_eq] at hc
    rcases hc with hc | rfl
    · omega
    · decide
  · simp only [List.mem_cons, List.not_mem_nil, or_false] at hc
    rcases hc with rfl | rfl | rfl | rfl <;> decide

theorem not_isBlank_of_tokenChar {c : Char} (hc : IsTokenChar c) : Text.isBlank c = false := by
  have hbounds := bounds_of_tokenChar hc
  simp only [Text.isBlank, Text.blankRanges, List.any_cons, List.any_nil, Bool.or_eq_false_iff, Bool.and_eq_false_iff,
    decide_eq_false_iff_not, Char.toNat, and_true]
  omega

theorem not_wordChar_of_blank {c : Char} (hc : Text.isBlank c) : ¬ Keyword.isWordChar c := by
  intro hword
  rw [not_isBlank_of_tokenChar (.inl hword)] at hc
  cases hc

theorem Lexes.trimLeft (h : Lexes cs ts) : Lexes (Text.trimLeft cs) ts := by
  induction h with
  | nil => exact .nil
  | gap hc _ ih =>
    rw [Text.trimLeft, List.dropWhile_cons_of_pos (isBlank_of_gap hc)]
    exact ih
  | @token t l cs ts hl hrest =>
    obtain ⟨c, r, rfl, hc⟩ := hl.lexeme.exists_cons
    rw [Text.trimLeft, List.cons_append, List.dropWhile_cons_of_neg (by simp [not_isBlank_of_tokenChar hc])]
    exact .token hl hrest

/-- A lexeme is still the longest at its place if less follows it. -/
theorem IsLongest.mono {t : Token α} {l r : List Char} (h : IsLongest t l (l ++ cs)) (hr : r <+: cs) :
    IsLongest t l (l ++ r) where
  lexeme := h.lexeme
  front := List.prefix_append l r
  length_le t' l' hlexeme hfront := h.length_le t' l' hlexeme (hfront.trans ((List.prefix_append_right_inj l).mpr hr))

theorem Lexes.trimRight (h : Lexes cs ts) : Lexes (Text.trimRight cs) ts := by
  induction h with
  | nil => exact .nil
  | @gap c cs ts hc _ ih =>
    rcases Text.trimRight_cons_of_blank (isBlank_of_gap hc) cs with ⟨hnil, hrest⟩ | hcons
    · rw [hnil, ← hrest]
      exact ih
    · rw [hcons]
      exact .gap hc ih
  | @token t l cs ts hl _ ih =>
    have hne : l ≠ [] := by
      obtain ⟨c, r, rfl, -⟩ := hl.lexeme.exists_cons
      exact List.cons_ne_nil c r
    have htrim : Text.trimRight (l ++ cs) = l ++ Text.trimRight cs :=
      Text.trimRight_append hne (fun c hc => not_isBlank_of_tokenChar (hl.lexeme.tokenChar c hc)) [] cs
    rw [htrim]
    exact .token (hl.mono (Text.trimRight_prefix cs)) ih

end Token

/-! ## Blanks around a clause -/

namespace Comparison

theorem spelling_ne_nil (k : Comparison) : k.spelling ≠ [] := by cases k <;> decide

theorem not_isBlank_spelling (k : Comparison) : ∀ c ∈ k.spelling, Text.isBlank c = false := by
  have hall : k.spelling.all fun c => !Text.isBlank c := by cases k <;> decide
  simpa using hall

theorem not_wordChar_spelling (k : Comparison) : ∀ c ∈ k.spelling, ¬ Keyword.isWordChar c := by
  have hall : k.spelling.all fun c => !Keyword.isWordChar c := by cases k <;> decide
  simpa using hall

end Comparison

namespace ClauseText.Spells

variable {k : ClauseText α} {cs : List Char}

/-- Blanks around a clause are no part of it. -/
theorem trim (h : k.Spells cs) : k.Spells (Text.trim cs) := by
  obtain ⟨l, r, rfl, -, hl, hr⟩ := h
  rw [Text.trim_append k.comparison.spelling_ne_nil k.comparison.not_isBlank_spelling]
  exact spells_append hl.trimLeft hr.trimRight

theorem ne_nil (h : k.Spells cs) : cs ≠ [] := by
  obtain ⟨l, r, rfl, -⟩ := h
  simp [k.comparison.spelling_ne_nil]

/-- No comma stands in the text of a clause. -/
theorem no_comma (h : k.Spells cs) : ',' ∉ cs := by
  obtain ⟨l, r, rfl, -, hl, hr⟩ := h
  have hcomma : ¬ (Token.isGap ',' ∨ Token.IsTokenChar ',') := by unfold Token.IsTokenChar; decide
  rw [List.mem_append, List.mem_append]
  rintro ((hc | hc) | hc)
  · exact hcomma (hl.tokenChar _ hc)
  · revert hc
    cases k.comparison <;> decide
  · exact hcomma (hr.tokenChar _ hc)

end ClauseText.Spells

/-! ## Lists of one clause -/

namespace Clause

theorem splitCommas_of_notMem {cs : List Char} (h : ',' ∉ cs) : splitCommas cs = [cs] := by
  induction cs with
  | nil => rfl
  | cons c cs ih =>
    rw [List.mem_cons, not_or] at h
    rw [splitCommas, ih h.2]
    exact if_neg (Ne.symm h.1)

theorem splitCommas_ne_nil (cs : List Char) : splitCommas cs ≠ [] := by
  induction cs with
  | nil => simp [splitCommas]
  | cons c cs ih =>
    rw [splitCommas]
    split
    · simp
    · split <;> simp

/-- A comma separates the parts in front of it from those behind it. -/
theorem splitCommas_append (l r : List Char) : splitCommas (l ++ ',' :: r) = splitCommas l ++ splitCommas r := by
  induction l with
  | nil =>
    obtain ⟨part, parts, hparts⟩ := List.exists_cons_of_ne_nil (splitCommas_ne_nil r)
    simp [splitCommas, hparts]
  | cons c l ih =>
    obtain ⟨part, parts, hparts⟩ := List.exists_cons_of_ne_nil (splitCommas_ne_nil l)
    rw [List.cons_append, splitCommas, splitCommas, ih, hparts]
    by_cases hc : c = ',' <;> simp [hc]

/-- What holds of texts without commas, and of a text with one if it holds of what follows the first, holds of every
text. -/
theorem comma_induction {P : List Char → Prop} (last : ∀ l, ',' ∉ l → P l)
    (step : ∀ l r, ',' ∉ l → P r → P (l ++ ',' :: r)) (cs : List Char) : P cs := by
  have hcomma : ∀ l : List Char, (∀ c ∈ l, (c == ',') = false) → ',' ∉ l := fun l hl hmem => by simpa using hl ',' hmem
  refine break_induction (· == ',') (fun l hl => last l (hcomma l hl)) (fun l c r hl hc ih => ?_) cs
  obtain rfl : c = ',' := by simpa using hc
  exact step l r (hcomma l hl) ih

/-- A text that spells a clause when its keywords are expanded is the list of this clause. -/
theorem texts_of_spells {k : ClauseText α} {text : String} (h : k.Spells (Keyword.expandFrom [] text.toList)) :
    texts text = [String.ofList (Text.trim (Keyword.expandFrom [] text.toList))] := by
  have hne := h.trim.ne_nil
  rw [texts, splitCommas_of_notMem h.no_comma]
  simp [hne]

theorem parseAll_of_spells {k : ClauseText α} {text : String} (h : k.Spells (Keyword.expandFrom [] text.toList))
    {hasObject : Bool} {lhs rhs : LinearExpr α} (hlhs : k.lhs.Denotes hasObject lhs)
    (hrhs : k.rhs.Denotes hasObject rhs) : parseAll text hasObject =
      .ok [⟨String.ofList (Text.trim (Keyword.expandFrom [] text.toList)), k.comparison, lhs, rhs⟩] := by
  have hspells : k.Spells (String.ofList (Text.trim (Keyword.expandFrom [] text.toList))).toList := by
    rw [String.toList_ofList]
    exact h.trim
  rw [parseAll, texts_of_spells h, mapM_ok_iff]
  exact .cons (parse_of_spells hspells hlhs hrhs) .nil

end Clause

end RectLayout
