import RectLayout.Proofs.Clause.Lexing

/-!
# The places of tokens

A range of bytes whose ends are boundaries of characters shows the characters between them (`Span.Shows`). The tokens of
a part of a clause stand in it one after another, each of them the longest at its place, and between them there are
blanks only (`Token.Tokenizes`). A blank or a longest lexeme in front of such a part extends it (`Tokenizes.gap`,
`Tokenizes.token`), so lexing a part of a clause splits all of it in this way, or all up to a character at which neither
a blank nor a token starts (`Token.lex_tokenizes`).
-/

namespace RectLayout

/-! ## Bytes -/

theorem byteLength_append (l r : List Char) : byteLength (l ++ r) = byteLength l + byteLength r := by
  induction l with
  | nil => simp [byteLength]
  | cons c l ih => simp [byteLength, ih, Nat.add_assoc]

theorem byteLength_pos {l : List Char} (h : l ≠ []) : 0 < byteLength l := by
  obtain ⟨c, r, rfl⟩ := List.exists_cons_of_ne_nil h
  have hpos := c.utf8Size_pos
  simp only [byteLength]
  omega

/-- The bytes of a text are those of its characters. -/
theorem byteLength_toList (s : String) : byteLength s.toList = s.utf8ByteSize := by
  have hlist : ∀ l : List Char, byteLength l = (String.ofList l).utf8ByteSize := by
    intro l
    induction l with
    | nil => simp [byteLength]
    | cons c l ih =>
      have hcons : String.ofList (c :: l) = String.singleton c ++ String.ofList l := by
        rw [String.singleton_eq_ofList, ← String.ofList_append]
        rfl
      rw [hcons, String.utf8ByteSize_append, String.utf8ByteSize_singleton, byteLength, ih]
  rw [hlist, String.ofList_toList]

/-- A range of bytes shows characters of a text: they stand between its ends. -/
def Span.Shows (s : Span) (cs l : List Char) : Prop :=
  ∃ before after, cs = before ++ l ++ after ∧ s = ⟨byteLength before, byteLength (before ++ l)⟩

theorem Span.Shows.start_lt {s : Span} {cs l : List Char} (h : s.Shows cs l) (hne : l ≠ []) : s.start < s.stop := by
  obtain ⟨before, after, -, rfl⟩ := h
  have hpos := byteLength_pos hne
  simp only [byteLength_append]
  omega

/-- A character that does not start in front of a part of a text starts behind the part or stands in it. -/
theorem Span.Shows.behind_or_in {s : Span} {c : Char} {front part rest : List Char}
    (h : s.Shows (front ++ part ++ rest) [c]) (hstart : byteLength front ≤ s.start) :
    byteLength (front ++ part) ≤ s.start ∨ c ∈ part ∧ s.stop ≤ byteLength (front ++ part) := by
  obtain ⟨before, after, hsplit, rfl⟩ := h
  simp only [List.append_assoc, List.singleton_append] at hsplit hstart ⊢
  obtain ⟨a, rfl, ha⟩ : ∃ a, before = front ++ a ∧ part ++ rest = a ++ c :: after := by
    rcases List.append_eq_append_iff.mp hsplit with hbehind | ⟨a, rfl, ha⟩
    · exact hbehind
    · have hnil : a = [] := by
        by_contra hne
        have hpos := byteLength_pos hne
        rw [byteLength_append] at hstart
        omega
      exact ⟨[], by simp [hnil], by simpa [hnil] using ha.symm⟩
  rcases List.append_eq_append_iff.mp ha with ⟨b, rfl, -⟩ | ⟨b, rfl, hb⟩
  · exact .inl (by simp only [byteLength_append]; omega)
  · cases b with
    | nil => exact .inl (by simp)
    | cons k b =>
      obtain ⟨rfl, -⟩ := List.cons.inj hb
      exact .inr ⟨by simp, by simp only [byteLength_append, byteLength]; omega⟩

namespace Token

variable {α : Type} [Scalar α]

/-! ## Tokens of a part of a clause -/

/-- The tokens of a range of bytes of a clause, up to a byte in it. -/
structure Tokenizes (clause : List Char) (input : Span) (upTo : Nat) (tokens : List (Located (Token α))) : Prop where
  /-- The place of a token is not empty, and it lies in the range. -/
  inside : ∀ t ∈ tokens, input.start ≤ t.span.start ∧ t.span.start < t.span.stop ∧ t.span.stop ≤ upTo
  /-- A token ends before the next one starts. -/
  ordered : tokens.Pairwise fun t u => t.span.stop ≤ u.span.start
  /-- The clause shows the token at its place, and no longer one starts there in the range. -/
  longest : ∀ t ∈ tokens, ∃ l rest, t.span.Shows clause l ∧ Span.Shows ⟨t.span.start, input.stop⟩ clause rest ∧
    IsLongest t.value l rest
  /-- A character that stands in no token is a blank. -/
  blank : ∀ (s : Span) (c : Char), s.Shows clause [c] → input.start ≤ s.start → s.stop ≤ upTo →
    isGap c ∨ ∃ t ∈ tokens, t.span.start ≤ s.start ∧ s.stop ≤ t.span.stop

/-- A character of a range of bytes of a clause at which neither a blank nor a token starts, behind the tokens of what
stands in front of it. -/
structure StopsAt (clause : List Char) (input : Span) (bad : Located Char) (tokens : List (Located (Token α))) :
    Prop where
  shows : bad.span.Shows clause [bad.value]
  inside : input.start ≤ bad.span.start ∧ bad.span.stop ≤ input.stop
  tokenizes : Tokenizes clause input bad.span.start tokens
  not_gap : isGap bad.value = false
  no_lexeme : ∃ rest, Span.Shows ⟨bad.span.start, input.stop⟩ clause rest ∧
    ∀ (t : Token α) (l : List Char), Lexeme t l → ¬ l <+: rest

variable {front part rest l : List Char} {k : Char} {stop upTo : Nat} {t : Token α} {tokens : List (Located (Token α))}

theorem Tokenizes.nil (clause : List Char) (start stop : Nat) :
    Tokenizes clause ⟨start, stop⟩ start ([] : List (Located (Token α))) where
  inside := by simp
  ordered := .nil
  longest := by simp
  blank s c hs hstart hstop := by
    have hlt := hs.start_lt (List.cons_ne_nil c [])
    simp only at hstart
    omega

/-- A blank in front of a part of a clause adds no token. -/
theorem Tokenizes.gap (h : Tokenizes (front ++ [k] ++ part ++ rest) ⟨byteLength (front ++ [k]), stop⟩ upTo tokens)
    (hk : isGap k) : Tokenizes (front ++ [k] ++ part ++ rest) ⟨byteLength front, stop⟩ upTo tokens where
  inside u hu := by
    have hin := h.inside u hu
    simp only [byteLength_append] at hin ⊢
    omega
  ordered := h.ordered
  longest := h.longest
  blank s c hs hstart hstop := by
    have hshows := hs
    rw [List.append_assoc (front ++ [k])] at hshows
    rcases hshows.behind_or_in hstart with hbehind | ⟨hc, -⟩
    · exact h.blank s c hs hbehind hstop
    · rw [List.mem_singleton.mp hc]
      exact .inl hk

/-- The longest lexeme in front of a part of a clause is a token more. -/
theorem Tokenizes.token (h : Tokenizes (front ++ l ++ part ++ rest) ⟨byteLength (front ++ l), stop⟩ upTo tokens)
    (hl : IsLongest t l (l ++ part)) (hstop : stop = byteLength (front ++ l ++ part))
    (hupTo : byteLength (front ++ l) ≤ upTo) :
    Tokenizes (front ++ l ++ part ++ rest) ⟨byteLength front, stop⟩ upTo
      (⟨t, byteLength front, byteLength (front ++ l)⟩ :: tokens) where
  inside u hu := by
    have hpos : 0 < byteLength l := by
      obtain ⟨c, r, rfl, -⟩ := hl.lexeme.exists_cons
      exact byteLength_pos (List.cons_ne_nil c r)
    rcases List.mem_cons.mp hu with rfl | hu
    · refine ⟨Nat.le_refl _, ?_, hupTo⟩
      simp only [byteLength_append]
      omega
    · have hin := h.inside u hu
      simp only [byteLength_append] at hin ⊢
      omega
  ordered := List.pairwise_cons.mpr ⟨fun u hu => (h.inside u hu).1, h.ordered⟩
  longest u hu := by
    rcases List.mem_cons.mp hu with rfl | hu
    · refine ⟨l, l ++ part, ⟨front, part ++ rest, by simp, rfl⟩, ⟨front, rest, by simp, ?_⟩, hl⟩
      rw [hstop, List.append_assoc]
    · exact h.longest u hu
  blank s c hs hstart hsstop := by
    have hshows := hs
    rw [List.append_assoc (front ++ l)] at hshows
    rcases hshows.behind_or_in hstart with hbehind | ⟨-, hend⟩
    · refine (h.blank s c hs hbehind hsstop).imp_right fun ⟨u, hu, hin⟩ => ?_
      exact ⟨u, List.mem_cons_of_mem _ hu, hin⟩
    · exact .inr ⟨_, List.mem_cons_self, hstart, hend⟩

/-- The same character stops a longer part, if there are tokens up to it. -/
theorem StopsAt.extend {clause : List Char} {start start' : Nat} {bad : Located Char}
    {tokens' : List (Located (Token α))} (h : StopsAt clause ⟨start', stop⟩ bad tokens) (hstart : start ≤ start')
    (htokens : Tokenizes clause ⟨start, stop⟩ bad.span.start tokens') : StopsAt clause ⟨start, stop⟩ bad tokens' where
  shows := h.shows
  inside := ⟨hstart.trans h.inside.1, h.inside.2⟩
  tokenizes := htokens
  not_gap := h.not_gap
  no_lexeme := h.no_lexeme

/-! ## Lexing -/

/-- All of a part of a clause is split into tokens and blanks, or all up to a character that starts neither. -/
theorem lexFrom_tokenizes (front part rest : List Char) :
    (∃ tokens : List (Located (Token α)), lexFrom (byteLength front) part = .ok tokens ∧
      Tokenizes (front ++ part ++ rest) ⟨byteLength front, byteLength (front ++ part)⟩ (byteLength (front ++ part))
        tokens) ∨
    ∃ (bad : Located Char) (tokens : List (Located (Token α))), lexFrom (α := α) (byteLength front) part = .error bad ∧
      StopsAt (front ++ part ++ rest) ⟨byteLength front, byteLength (front ++ part)⟩ bad tokens := by
  generalize hoffset : byteLength front = offset
  fun_induction lexFrom (α := α) offset part generalizing front with
  | case1 offset =>
    subst hoffset
    rw [List.append_nil]
    exact .inl ⟨[], rfl, .nil _ _ _⟩
  | case2 offset c r hc ih =>
    subst hoffset
    have hbytes : byteLength (front ++ [c]) = byteLength front + c.utf8Size := byteLength_append front [c]
    rw [List.append_cons]
    rcases ih (front ++ [c]) hbytes with ⟨tokens, hlex, htokens⟩ | ⟨bad, tokens, hlex, hstops⟩
    · rw [← hbytes] at htokens
      exact .inl ⟨tokens, hlex, htokens.gap hc⟩
    · rw [← hbytes] at hstops
      exact .inr ⟨bad, tokens, hlex, hstops.extend (by omega) (hstops.tokenizes.gap hc)⟩
  | case3 offset c r hc hscan =>
    subst hoffset
    have hbytes : byteLength (front ++ [c]) = byteLength front + c.utf8Size := byteLength_append front [c]
    refine .inr ⟨_, [], rfl, ?_⟩
    rw [← hbytes]
    exact {
      shows := ⟨front, r ++ rest, by simp, rfl⟩
      inside := ⟨Nat.le_refl _, by simp only [byteLength_append, byteLength]; omega⟩
      tokenizes := .nil _ _ _
      not_gap := by simpa using hc
      no_lexeme := ⟨c :: r, ⟨front, rest, rfl, rfl⟩, scan?_eq_none_iff.mp hscan⟩ }
  | case4 offset c r hc t l hscan stop =>
    rename_i ih
    subst hoffset
    have hlongest := scan?_eq_some_iff.mp hscan
    obtain ⟨r', hr'⟩ := hlongest.front
    rw [← hr'] at hlongest ih ⊢
    rw [List.drop_left] at ih ⊢
    rw [← List.append_assoc]
    have hbytes : byteLength (front ++ l) = stop := byteLength_append front l
    clear_value stop
    subst hbytes
    rcases ih (front ++ l) rfl with ⟨tokens, hlex, htokens⟩ | ⟨bad, tokens, hlex, hstops⟩
    · have hupTo : byteLength (front ++ l) ≤ byteLength (front ++ l ++ r') := by
        rw [byteLength_append (front ++ l)]
        omega
      exact .inl ⟨_, by rw [hlex]; rfl, htokens.token hlongest rfl hupTo⟩
    · have hstart : byteLength front ≤ byteLength (front ++ l) := by
        rw [byteLength_append]
        omega
      exact .inr ⟨bad, _, by rw [hlex]; rfl, hstops.extend hstart (hstops.tokenizes.token hlongest rfl hstops.inside.1)⟩

/-- A part of a clause is split into tokens that stand in it one after another, each the longest at its place, with
blanks between them; or it is so up to a character that starts neither, of which the error gives text and place. -/
theorem lex_tokenizes (front part rest : String) :
    (∃ tokens : List (Located (Token α)),
      lex part.toList front.utf8ByteSize (front ++ part ++ rest) = .ok tokens ∧
      Tokenizes (front ++ part ++ rest).toList ⟨front.utf8ByteSize, (front ++ part).utf8ByteSize⟩
        (front ++ part).utf8ByteSize tokens) ∨
    ∃ (bad : Located Char) (tokens : List (Located (Token α))),
      lex (α := α) part.toList front.utf8ByteSize (front ++ part ++ rest) =
        .error (.unknownToken (front ++ part ++ rest) (String.singleton bad.value) bad.span) ∧
      StopsAt (front ++ part ++ rest).toList ⟨front.utf8ByteSize, (front ++ part).utf8ByteSize⟩ bad tokens := by
  have hclause : (front ++ part ++ rest).toList = front.toList ++ part.toList ++ rest.toList := by simp
  have hpart : (front ++ part).utf8ByteSize = byteLength (front.toList ++ part.toList) := by
    rw [← byteLength_toList, String.toList_append]
  rw [hclause, hpart, ← byteLength_toList front]
  rcases lexFrom_tokenizes (α := α) front.toList part.toList rest.toList with
    ⟨tokens, hlex, htokens⟩ | ⟨bad, tokens, hlex, hstops⟩
  · exact .inl ⟨tokens, by rw [lex, hlex]; rfl, htokens⟩
  · exact .inr ⟨bad, tokens, by rw [lex, hlex]; rfl, hstops⟩

end Token

end RectLayout
