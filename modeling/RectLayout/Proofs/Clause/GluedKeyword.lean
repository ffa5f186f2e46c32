import RectLayout.Proofs.Clause.Texts

/-!
# Keywords behind digits

A keyword that stands directly behind a digit is no word. It is not expanded (`Keyword.Glued.expandFrom`), so it is left
as a name that is no coordinate's (`Token.Lexes.exists_name_of_glued`), and no list of clauses is read
(`Clause.parseAll_of_glued`).
-/

namespace RectLayout

namespace Keyword

variable {cs l r : List Char}

theorem isWordChar_of_digit {d : Char} (hd : d.isDigit) : isWordChar d := by simp [isWordChar, Char.isAlphanum, hd]

/-- A word with a digit in it stays as it is. -/
theorem Glued.expandFrom (h : Glued cs) : Glued (expandFrom [] cs) := by
  obtain ⟨l, d, w, r, rfl, hd, hkeyword, hends⟩ := h
  -- the text may go on inside a word, of which `word` has been read
  have hexpand : ∀ word, ∃ x, Keyword.expandFrom word (l ++ d :: (w ++ r)) =
      x ++ d :: (w ++ Keyword.expandFrom [] r) := by
    induction l with
    | nil =>
      intro word
      have hends : WordEnds (d :: w) r :=
        ⟨List.forall_mem_cons.mpr ⟨isWordChar_of_digit hd, hends.word⟩, hends.stop⟩
      refine ⟨word, ?_⟩
      rw [List.nil_append, ← List.cons_append, expandFrom_word hends, replaceWord_of_lookup (lookup_of_digit hd word w)]
      simp
    | cons c l ih =>
      intro word
      by_cases hc : isWordChar c
      · obtain ⟨x, hx⟩ := ih (word ++ [c])
        exact ⟨x, by rw [List.cons_append, Keyword.expandFrom, if_pos hc, hx]⟩
      · obtain ⟨x, hx⟩ := ih []
        exact ⟨replaceWord word ++ c :: x, by rw [List.cons_append, expandFrom_of_not_word hc, hx]; simp⟩
  obtain ⟨x, hx⟩ := hexpand []
  refine ⟨x, d, w, _, hx, hd, hkeyword, hends.word, ?_⟩
  rw [head?_expandFrom hends.stop]
  exact hends.stop

/-! ## Parts of a text -/

theorem Glued.of_append_cons {c : Char} (hc : ¬ isWordChar c) (h : Glued (l ++ c :: r)) : Glued l ∨ Glued r := by
  obtain ⟨l', d, w, r', heq, hd, hkeyword, hends⟩ := h
  have hcd : c ≠ d := fun h => hc (h ▸ isWordChar_of_digit hd)
  -- the digit stands behind the character or in front of it, and then the keyword ends in front of it too
  rcases List.append_eq_append_iff.mp heq with ⟨a, rfl, ha⟩ | ⟨a, rfl, ha⟩
  · cases a with
    | nil => exact absurd (List.cons.inj ha).1 hcd
    | cons k a => exact .inr ⟨a, d, w, r', (List.cons.inj ha).2, hd, hkeyword, hends⟩
  · cases a with
    | nil => exact absurd (List.cons.inj ha).1.symm hcd
    | cons k a =>
      obtain ⟨rfl, hrest⟩ : d = k ∧ w ++ r' = a ++ c :: r := List.cons.inj ha
      rcases List.append_eq_append_iff.mp hrest with ⟨b, rfl, hb⟩ | ⟨b, rfl, hb⟩
      · refine .inl ⟨l', d, w, b, rfl, hd, hkeyword, hends.word, fun k hk => hends.stop k ?_⟩
        rw [hb]
        cases b <;> simp_all
      · cases b with
        | nil =>
          refine .inl ⟨l', d, a, [], by simp, hd, by simpa using hkeyword, by simpa using hends.word, by simp⟩
        | cons k b =>
          obtain ⟨rfl, -⟩ := List.cons.inj hb
          exact absurd (hends.word c (by simp)) hc

theorem Glued.append_right {cs : List Char} (h : Glued cs) {c : Char} (hc : ¬ isWordChar c) (r : List Char) :
    Glued (cs ++ c :: r) := by
  obtain ⟨l, d, w, r', rfl, hd, hkeyword, hends⟩ := h
  refine ⟨l, d, w, r' ++ c :: r, by simp, hd, hkeyword, hends.word, fun k hk => ?_⟩
  cases r' with
  | nil =>
    cases hk
    exact hc
  | cons k' r' => exact hends.stop k hk

theorem Glued.exists_digit (h : Glued cs) : ∃ d ∈ cs, d.isDigit := by
  obtain ⟨l, d, w, r, rfl, hd, -⟩ := h
  exact ⟨d, by simp, hd⟩

theorem Glued.of_append_right (h : Glued (cs ++ r)) (hr : ∀ c ∈ r, ¬ isWordChar c) : Glued cs := by
  cases r with
  | nil => rwa [List.append_nil] at h
  | cons c r =>
    refine (h.of_append_cons (hr c List.mem_cons_self)).resolve_right fun h => ?_
    obtain ⟨d, hmem, hd⟩ := h.exists_digit
    exact hr d (List.mem_cons_of_mem c hmem) (isWordChar_of_digit hd)

theorem Glued.of_append_left (h : Glued (l ++ cs)) (hl : ∀ c ∈ l, ¬ isWordChar c) : Glued cs := by
  induction l with
  | nil => exact h
  | cons c l ih =>
    refine ih ?_ fun k hk => hl k (List.mem_cons_of_mem c hk)
    refine (Glued.of_append_cons (l := []) (hl c List.mem_cons_self) h).resolve_left fun h => ?_
    obtain ⟨d, hmem, -⟩ := h.exists_digit
    cases hmem

/-- A keyword stands behind a digit on one side of a symbol, if it does around it. -/
theorem glued_around_iff {symbol : List Char} (hne : symbol ≠ []) (hsymbol : ∀ c ∈ symbol, ¬ isWordChar c) :
    Glued (l ++ symbol ++ r) ↔ Glued l ∨ Glued r := by
  obtain ⟨c, s, rfl⟩ := List.exists_cons_of_ne_nil hne
  have hc := hsymbol c List.mem_cons_self
  rw [List.append_assoc, List.cons_append]
  constructor
  · intro h
    refine (h.of_append_cons hc).imp_right fun h => h.of_append_left fun k hk => ?_
    exact hsymbol k (List.mem_cons_of_mem c hk)
  · rintro (h | h)
    · exact h.append_right hc (s ++ r)
    · rw [← List.cons_append, ← List.append_assoc]
      exact h.append_left _

theorem Glued.trim (h : Glued cs) : Glued (Text.trim cs) := by
  obtain ⟨l, r, hsplit, hl, hr⟩ := Text.exists_around_trim cs
  rw [hsplit] at h
  exact (h.of_append_right fun c hc => Token.not_wordChar_of_blank (hr c hc)).of_append_left fun c hc =>
    Token.not_wordChar_of_blank (hl c hc)

end Keyword

/-! ## What is read behind a digit -/

section

variable {w : List Char}

/-- A keyword does not begin like a number. -/
theorem Keyword.exists_cons (h : (lookup (String.ofList w)).isSome) :
    ∃ k w', w = k :: w' ∧ ¬ (k.isDigit ∨ k = 'e' ∨ k = 'E') := by
  cases w with
  | nil => exact absurd h (by decide)
  | cons k w =>
    refine ⟨k, w, rfl, fun hk => ?_⟩
    have hnone := stuck_cons hk w []
    rw [List.append_nil] at hnone
    rw [hnone] at h
    cases h

/-- A coordinate's name does not end with a keyword. -/
theorem Keyword.not_isNamed (h : (lookup (String.ofList w)).isSome) (l : List Char) (c : Coord) :
    ¬ c.IsNamed (String.ofList (l ++ w)) := by
  have htable : ∀ p ∈ table, p.1.toList.getLast?.any fun k => !k.isDigit := by decide
  obtain ⟨p, hp, rfl⟩ := exists_of_lookup (Option.isSome_iff_ne_none.mp h)
  have hlast := htable p hp
  have hdigit : c.corner.digit.isDigit := by cases c.corner <;> decide
  intro hnamed
  have hcorner : (l ++ p.1.toList).getLast? = some c.corner.digit := by
    rw [Coord.IsNamed, String.toList_ofList] at hnamed
    rcases hnamed with hnamed | ⟨-, hnamed⟩ <;> rw [hnamed] <;> rfl
  rw [List.getLast?_append] at hcorner
  cases hk : p.1.toList.getLast? with
  | none =>
    rw [hk] at hlast
    cases hlast
  | some k =>
    rw [hk, Option.some_or, Option.some.injEq] at hcorner
    rw [hk, hcorner] at hlast
    simp [hdigit] at hlast

end

variable {α : Type} [Scalar α] {cs : List Char} {ts : List (Token α)}

namespace Token

theorem Lexeme.not_keyword_char {x : α} {l : List Char} (h : Lexeme (.number x) l) {k : Char} (hk : k ∈ l)
    (hword : Keyword.isWordChar k) : k.isDigit ∨ k = 'e' ∨ k = 'E' := by
  refine (h.numeralChar k hk).resolve_right fun hk => ?_
  simp only [List.mem_cons, List.not_mem_nil, or_false] at hk
  rcases hk with rfl | rfl | rfl <;> exact absurd hword (by decide)

/-- Word characters stand in names and numbers only. -/
theorem Lexeme.name_or_number {t : Token α} {l : List Char} (h : Lexeme t l) {k : Char} (hk : k ∈ l)
    (hword : Keyword.isWordChar k) : (∃ s, t = .name s) ∨ ∃ x, t = .number x := by
  rcases h.cases_operator with hname | hnumber | ⟨k', hk', rfl, -⟩
  · exact .inl hname
  · exact .inr hnumber
  · rw [List.mem_singleton.mp hk] at hword
    exact absurd hword (not_wordChar_of_operator hk')

/-- A keyword at the front of a side is read as a name. -/
theorem Lexes.name_of_keyword {w r : List Char} (h : Lexes (w ++ r) ts) (hends : Keyword.WordEnds w r)
    (hkeyword : (Keyword.lookup (String.ofList w)).isSome) : .name (String.ofList w) ∈ ts := by
  obtain ⟨k, w', hw, hk⟩ := Keyword.exists_cons hkeyword
  have hword : Keyword.isWordChar k := hends.word k (by simp [hw])
  generalize hcs : w ++ r = cs at h
  have hfront : cs = k :: (w' ++ r) := by rw [← hcs, hw, List.cons_append]
  cases h with
  | nil => cases hfront
  | gap hc =>
    cases hfront
    exact absurd hword (not_wordChar_of_gap hc)
  | @token t l cs ts hl hrest =>
    have hmem : k ∈ l := by
      obtain ⟨c, l', rfl, -⟩ := hl.lexeme.exists_cons
      obtain ⟨rfl, -⟩ := List.cons.inj hfront
      exact List.mem_cons_self
    rcases hl.lexeme.name_or_number hmem hword with ⟨s, rfl⟩ | ⟨x, rfl⟩
    · obtain ⟨rfl, hends'⟩ := hl.wordEnds
      have htake := hends.takeWhile_eq
      rw [hcs, hends'.takeWhile_eq] at htake
      rw [← htake, String.ofList_toList]
      exact List.mem_cons_self
    · exact absurd (hl.lexeme.not_keyword_char hmem hword) hk

/-- In a side with a keyword behind a digit, some name is no coordinate's. -/
theorem Lexes.exists_name_of_glued (h : Lexes cs ts) (hglued : Keyword.Glued cs) :
    ∃ n, .name n ∈ ts ∧ ∀ c : Coord, ¬ c.IsNamed n := by
  induction h with
  | nil =>
    obtain ⟨d, hmem, -⟩ := hglued.exists_digit
    cases hmem
  | @gap c cs ts hc _ ih =>
    refine ih (hglued.of_append_left (l := [c]) fun k hk => ?_)
    rw [List.mem_singleton.mp hk]
    exact not_wordChar_of_gap hc
  | @token t l cs ts hl hrest ih =>
    obtain ⟨l', d, w, r, heq, hd, hkeyword, hends⟩ := hglued
    have hlater : ∀ a, cs = a ++ d :: (w ++ r) → ∃ n, .name n ∈ t :: ts ∧ ∀ c : Coord, ¬ c.IsNamed n := by
      intro a ha
      obtain ⟨n, hn, hnone⟩ := ih ⟨a, d, w, r, ha, hd, hkeyword, hends⟩
      exact ⟨n, List.mem_cons_of_mem _ hn, hnone⟩
    rcases List.append_eq_append_iff.mp heq with ⟨a, -, ha⟩ | ⟨a, hla, ha⟩
    · exact hlater a ha
    · cases a with
      | nil => exact hlater [] ha.symm
      | cons k a =>
        -- the digit is a character of the first token
        obtain ⟨rfl, hbehind⟩ : d = k ∧ w ++ r = a ++ cs := List.cons.inj ha
        have hmem : d ∈ l := by simp [hla]
        rcases hl.lexeme.name_or_number hmem (Keyword.isWordChar_of_digit hd) with ⟨s, rfl⟩ | ⟨x, rfl⟩
        · obtain ⟨hs, hends'⟩ := hl.wordEnds
          have hends' : Keyword.WordEnds a cs := ⟨fun c hc => hends'.word c (by simp [hla, hc]), hends'.stop⟩
          have htake := hends.takeWhile_eq
          rw [hbehind, hends'.takeWhile_eq] at htake
          refine ⟨s, List.mem_cons_self, fun c hnamed => Keyword.not_isNamed hkeyword (l' ++ [d]) c ?_⟩
          rw [List.append_assoc, List.singleton_append, ← htake, ← hla, ← hs, String.ofList_toList]
          exact hnamed
        · cases a with
          | nil =>
            rw [List.nil_append] at hbehind
            rw [← hbehind] at hrest
            exact ⟨_, List.mem_cons_of_mem _ (hrest.name_of_keyword hends hkeyword), Keyword.not_isNamed hkeyword []⟩
          | cons k a =>
            obtain ⟨k', w', rfl, hk'⟩ := Keyword.exists_cons hkeyword
            obtain ⟨rfl, -⟩ := List.cons.inj hbehind
            have hword := hends.word k' List.mem_cons_self
            exact absurd (hl.lexeme.not_keyword_char (by simp [hla]) hword) hk'

end Token

/-! ## Lists of clauses -/

namespace Clause

theorem exists_glued_of_splitCommas {cs : List Char} (h : Keyword.Glued cs) :
    ∃ part ∈ splitCommas cs, Keyword.Glued part := by
  induction cs using comma_induction with
  | last l hl =>
    rw [splitCommas_of_notMem hl]
    exact ⟨l, List.mem_singleton_self l, h⟩
  | step l r hl ih =>
    rw [splitCommas_append, splitCommas_of_notMem hl]
    rcases h.of_append_cons (by decide) with h | h
    · exact ⟨l, List.mem_append_left _ (List.mem_singleton_self l), h⟩
    · obtain ⟨part, hpart, hglued⟩ := ih h
      exact ⟨part, List.mem_append_right _ hpart, hglued⟩

variable {α : Type} [Scalar α]

/-- A side with a keyword behind a digit does not consist of terms. -/
theorem not_denotes_of_glued {s : SumText α} {side : List Char} (h : Token.Lexes side s.tokens)
    (hglued : Keyword.Glued side) {hasObject : Bool} {e : LinearExpr α} : ¬ s.Denotes hasObject e := by
  intro hdenotes
  obtain ⟨n, hn, hnone⟩ := h.exists_name_of_glued hglued
  obtain ⟨p, hp, hname⟩ := SumText.mem_names_iff.mp (SumText.mem_names_of_mem_tokens hn)
  obtain ⟨t, -, ht⟩ := exists_of_forall₂ (List.Forall₂.flip hdenotes) hp
  have hbinds := ht.coord
  rw [hname] at hbinds
  generalize t.coord = c at hbinds
  cases hbinds with
  | coord hnamed => exact hnone _ hnamed

/-- No list of clauses is read in which a keyword stands directly behind a digit. -/
theorem parseAll_of_glued {text : String} (h : Keyword.Glued text.toList) (hasObject : Bool) :
    ∃ e, parseAll (α := α) text hasObject = .error e := by
  cases hparse : parseAll (α := α) text hasObject with
  | error e => exact ⟨e, rfl⟩
  | ok clauses =>
    exfalso
    obtain ⟨part, hpart, hglued⟩ := exists_glued_of_splitCommas h.expandFrom
    have hne : Text.trim part ≠ [] := by
      obtain ⟨d, hmem, -⟩ := hglued.trim.exists_digit
      exact List.ne_nil_of_mem hmem
    have htext : String.ofList (Text.trim part) ∈ texts text :=
      List.mem_map_of_mem (List.mem_filter.mpr ⟨List.mem_map_of_mem hpart, by simpa using hne⟩)
    obtain ⟨c, -, hc⟩ := exists_mem_of_mapM hparse htext
    obtain ⟨k, ⟨l, r, hcs, -, hl, hr⟩, -, -, hlhs, hrhs⟩ := exists_spells_of_parse hc
    rw [String.toList_ofList] at hcs
    have htrim := hglued.trim
    rw [hcs, Keyword.glued_around_iff k.comparison.spelling_ne_nil k.comparison.not_wordChar_spelling] at htrim
    rcases htrim with h | h
    · exact not_denotes_of_glued hl h hlhs
    · exact not_denotes_of_glued hr h hrhs

end Clause

end RectLayout
