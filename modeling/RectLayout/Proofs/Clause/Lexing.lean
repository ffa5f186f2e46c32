import RectLayout.Proofs.Clause.Lexeme
import RectLayout.Proofs.Traverse

/-!
# The tokens of a text

Blanks are skipped, and everywhere else the longest lexeme is taken (`Token.Lexes`). A text has at most one list of
tokens, and `Token.lex` finds it if there is one (`lex_ok_iff`, `Lexes.unique`). No comparison symbol stands in a text
that has tokens (`Lexes.tokenChar`).
-/

namespace RectLayout.Token

variable {α : Type} [Scalar α] {cs : List Char} {ts : List (Token α)}

/-- The tokens of a text. -/
inductive Lexes : List Char → List (Token α) → Prop
  | nil : Lexes [] []
  | gap {c : Char} {cs : List Char} {ts : List (Token α)} : isGap c → Lexes cs ts → Lexes (c :: cs) ts
  | token {t : Token α} {l cs : List Char} {ts : List (Token α)} : IsLongest t l (l ++ cs) → Lexes cs ts →
      Lexes (l ++ cs) (t :: ts)

/-! ## The characters of tokens -/

/-- Letters, digits and underscores, signs, stars and points. -/
def IsTokenChar (c : Char) : Prop := Keyword.isWordChar c ∨ c ∈ ['+', '-', '*', '.']

/-- A number is written with digits, points, signs and the letter of a power of ten. -/
theorem Lexeme.numeralChar {x : α} {l : List Char} (h : Lexeme (.number x) l) :
    ∀ c ∈ l, (c.isDigit ∨ c = 'e' ∨ c = 'E') ∨ c ∈ ['+', '-', '.'] := by
  intro c hc
  cases h with
  | @number m p d e hm hp =>
    rcases List.mem_append.mp hc with hc | hc
    · cases hm with
      | whole hds => exact .inl (.inl (hds c hc))
      | point hds hfs =>
        rcases List.mem_append.mp hc with hc | hc
        · exact .inl (.inl (hds c hc))
        · rcases List.mem_cons.mp hc with rfl | hc
          · exact .inr (by simp)
          · exact .inl (.inl (hfs c hc))
    · cases hp with
      | none => cases hc
      | @exponent k sign ds hk hsign hds =>
        rw [List.cons_append, List.mem_cons, List.mem_append] at hc
        rcases hc with rfl | hc | hc
        · exact .inl (.inr hk)
        · simp only [List.mem_cons, List.not_mem_nil, or_false] at hsign
          rcases hsign with rfl | rfl | rfl
          · cases hc
          · exact .inr (by simp [List.mem_singleton.mp hc])
          · exact .inr (by simp [List.mem_singleton.mp hc])
        · exact .inl (.inl (hds c hc))

theorem Lexeme.tokenChar {t : Token α} {l : List Char} (h : Lexeme t l) : ∀ c ∈ l, IsTokenChar c := by
  intro c hc
  have hnumber : ∀ x : α, t = .number x → IsTokenChar c := by
    rintro x rfl
    rcases h.numeralChar c hc with (hc | rfl | rfl) | hc
    · exact .inl (by simp [Keyword.isWordChar, Char.isAlphanum, hc])
    · exact .inl (by decide)
    · exact .inl (by decide)
    · refine .inr ?_
      simp only [List.mem_cons, List.not_mem_nil, or_false] at hc ⊢
      rcases hc with rfl | rfl | rfl <;> simp
  cases h with
  | plus => exact .inr (by simp [List.mem_singleton.mp hc])
  | minus => exact .inr (by simp [List.mem_singleton.mp hc])
  | star => exact .inr (by simp [List.mem_singleton.mp hc])
  | @name k cs hk hcs =>
    rcases List.mem_cons.mp hc with rfl | hc
    · rcases hk with hk | rfl
      · exact .inl (by simp [Keyword.isWordChar, Char.isAlphanum, hk])
      · exact .inl (by decide)
    · exact .inl (hcs c hc)
  | number => exact hnumber _ rfl

theorem not_isGap_of_tokenChar {c : Char} (hc : IsTokenChar c) : isGap c = false := by
  have hne : ∀ k, ¬ IsTokenChar k → c ≠ k := fun k hk hck => hk (hck ▸ hc)
  have hspace := hne ' ' (by unfold IsTokenChar; decide)
  have htab := hne '\t' (by unfold IsTokenChar; decide)
  have hline := hne '\n' (by unfold IsTokenChar; decide)
  have hreturn := hne '\r' (by unfold IsTokenChar; decide)
  simp [isGap, hspace, htab, hline, hreturn]

theorem Lexeme.exists_cons {t : Token α} {l : List Char} (h : Lexeme t l) : ∃ c r, l = c :: r ∧ IsTokenChar c := by
  have hne : l ≠ [] := by
    cases h with
    | plus => simp
    | minus => simp
    | star => simp
    | name => simp
    | number hm =>
      obtain ⟨c, r, rfl, -⟩ := hm.exists_cons
      simp
  obtain ⟨c, r, rfl⟩ := List.exists_cons_of_ne_nil hne
  exact ⟨c, r, rfl, h.tokenChar c List.mem_cons_self⟩

/-- A text that has tokens consists of blanks and of characters of tokens. -/
theorem Lexes.tokenChar (h : Lexes cs ts) : ∀ c ∈ cs, isGap c ∨ IsTokenChar c := by
  induction h with
  | nil => simp
  | gap hc _ ih => exact List.forall_mem_cons.mpr ⟨.inl hc, ih⟩
  | token hl _ ih =>
    intro c hc
    rcases List.mem_append.mp hc with hc | hc
    · exact .inr (hl.lexeme.tokenChar c hc)
    · exact ih c hc

/-! ## Reading the tokens -/

theorem lexFrom_gap {c : Char} (hc : isGap c) (offset : Nat) (r : List Char) :
    lexFrom (α := α) offset (c :: r) = lexFrom (offset + c.utf8Size) r := by
  rw [lexFrom, if_pos hc]

theorem lexFrom_token {t : Token α} {l r : List Char} (h : IsLongest t l (l ++ r)) (offset : Nat) :
    lexFrom offset (l ++ r) =
      (⟨t, offset, offset + byteLength l⟩ :: ·) <$> lexFrom (offset + byteLength l) r := by
  obtain ⟨c, l', rfl, hc⟩ := h.lexeme.exists_cons
  have hscan : scan? (c :: (l' ++ r)) = some (t, c :: l') := scan?_eq_some_iff.mpr h
  rw [List.cons_append, lexFrom, if_neg (by rw [not_isGap_of_tokenChar hc]; simp)]
  split
  · rename_i hnone
    rw [hscan] at hnone
    cases hnone
  · rename_i t' l'' hsome
    rw [hscan] at hsome
    cases hsome
    simp only [List.length_cons, List.drop_succ_cons, List.drop_left]

theorem Lexes.of_lexFrom {offset : Nat} {located : List (Located (Token α))} (h : lexFrom offset cs = .ok located) :
    Lexes cs (located.map Located.value) := by
  fun_induction lexFrom (α := α) offset cs generalizing located with
  | case1 offset =>
    cases h
    exact .nil
  | case2 offset c r hc ih => exact .gap hc (ih h)
  | case3 offset c r hc hscan => cases h
  | case4 offset c r hc t l hscan stop =>
    rename_i ih
    obtain ⟨rest, hrest, rfl⟩ := map_eq_ok_iff.mp h
    have hlongest := scan?_eq_some_iff.mp hscan
    have hlexes := ih hrest
    obtain ⟨r', hr'⟩ := hlongest.front
    rw [← hr'] at hlongest hlexes ⊢
    rw [List.drop_left] at hlexes
    exact .token hlongest hlexes

theorem Lexes.exists_lexFrom (h : Lexes cs ts) (offset : Nat) : ∃ located, lexFrom offset cs = .ok located ∧
    located.map Located.value = ts := by
  induction h generalizing offset with
  | nil => exact ⟨[], by rw [lexFrom], rfl⟩
  | gap hc _ ih =>
    obtain ⟨located, hlocated, hvalues⟩ := ih (offset + Char.utf8Size _)
    exact ⟨located, by rw [lexFrom_gap hc, hlocated], hvalues⟩
  | @token t l cs ts hl _ ih =>
    obtain ⟨located, hlocated, hvalues⟩ := ih (offset + byteLength l)
    refine ⟨⟨t, offset, offset + byteLength l⟩ :: located, ?_, ?_⟩
    · rw [lexFrom_token hl, hlocated]
      rfl
    · rw [List.map_cons, hvalues]

/-- A text has no more than one list of tokens. -/
theorem Lexes.unique {ts' : List (Token α)} (h : Lexes cs ts) (h' : Lexes cs ts') : ts = ts' := by
  obtain ⟨located, hlocated, rfl⟩ := h.exists_lexFrom 0
  obtain ⟨located', hlocated', rfl⟩ := h'.exists_lexFrom 0
  rw [hlocated] at hlocated'
  rw [Except.ok.inj hlocated']

theorem lexes_iff_lexFrom : Lexes cs ts ↔ (lexFrom 0 cs).toOption.map (List.map Located.value) = some ts := by
  rw [Option.map_eq_some_iff]
  constructor
  · intro h
    obtain ⟨located, hlocated, hvalues⟩ := h.exists_lexFrom 0
    exact ⟨located, by rw [hlocated]; rfl, hvalues⟩
  · rintro ⟨located, hlocated, rfl⟩
    cases hlex : lexFrom (α := α) 0 cs with
    | error e =>
      rw [hlex] at hlocated
      cases hlocated
    | ok located' =>
      rw [hlex] at hlocated
      cases hlocated
      exact .of_lexFrom hlex

instance [DecidableEq α] (cs : List Char) (ts : List (Token α)) : Decidable (Lexes cs ts) :=
  decidable_of_iff _ lexes_iff_lexFrom.symm

/-- A side is split into tokens exactly if it has tokens, and into these. -/
theorem lex_ok_iff {offset : Nat} {clause : String} :
    (∃ located, lex cs offset clause = .ok located ∧ located.map Located.value = ts) ↔ Lexes cs ts := by
  simp only [lex, mapError_eq_ok_iff]
  constructor
  · rintro ⟨located, hlocated, rfl⟩
    exact .of_lexFrom hlocated
  · intro h
    exact h.exists_lexFrom offset

end RectLayout.Token
