import RectLayout.Proofs.Clause.Parsing
import RectLayout.Proofs.Clause.Places
import RectLayout.Proofs.Clause.Texts

/-!
# What the errors of a clause point at

A clause is refused for one of four reasons, and its error has the place of it (`ClauseError.PointsInto`): no comparison
symbol stands in it; a character starts no token, or a name is no coordinate, and then only tokens and blanks stand in
front of it; a token does not fit or names an object where there is none; or a side ends before its sum does. Places
come from the lexer (`Token.lexFrom_error`, `Tokenizes.exists_behind_last`), and reading a sum speaks of places of
tokens only (`RawTerm.within_readSum`), so every error has such a reason (`Clause.pointsInto_of_parse`).

The error of a side that ends too early starts at the end of the side and stops at the end of its last token. So the
place of an error lies between the ends of the clause on boundaries of characters, but it is backwards if blanks stand
between the last token and the end of the side, and only then (`Clause.place_of_parse_error`).
-/

namespace RectLayout

/-! ## Bytes and characters -/

/-- Of two texts at the front of a third, the one with fewer bytes is at the front of the other. -/
theorem prefix_of_byteLength_le {cs p q : List Char} (hp : p <+: cs) (hq : q <+: cs)
    (h : byteLength p ≤ byteLength q) : p <+: q := by
  rcases List.prefix_or_prefix_of_prefix hp hq with hpq | ⟨r, rfl⟩
  · exact hpq
  · have hr : r = [] := by
      by_contra hne
      have hpos := byteLength_pos hne
      rw [byteLength_append] at h
      omega
    rw [hr, List.append_nil]

/-- A boundary between characters is a valid position. -/
theorem isValid_of_append {s : String} {l r : List Char} (h : s.toList = l ++ r) :
    (⟨byteLength l⟩ : String.Pos.Raw).IsValid s := by
  have hs : s = String.ofList l ++ String.ofList r := by rw [← String.ofList_append, ← h, String.ofList_toList]
  have hend : (⟨byteLength l⟩ : String.Pos.Raw) = (String.ofList l).rawEndPos := by
    rw [← String.toList_ofList (l := l), byteLength_toList, String.toList_ofList]
    rfl
  rw [hs, hend]
  exact String.Pos.Raw.isValid_rawEndPos.append_right _

namespace Token

/-- A character of a token has one byte. -/
theorem utf8Size_of_tokenChar {c : Char} (hc : IsTokenChar c) : c.utf8Size = 1 := by
  have hbounds := bounds_of_tokenChar hc
  rw [Char.utf8Size_eq_one_iff, UInt32.le_iff_toNat_le]
  exact Nat.le_of_lt_succ hbounds.2

/-- A blank between tokens has one byte. -/
theorem utf8Size_of_gap {c : Char} (hc : isGap c) : c.utf8Size = 1 := by
  simp only [isGap, Bool.or_eq_true, beq_iff_eq] at hc
  rcases hc with ((rfl | rfl) | rfl) | rfl <;> rfl

theorem utf8Size_of_lexed {c : Char} (hc : isGap c ∨ IsTokenChar c) : c.utf8Size = 1 :=
  hc.elim utf8Size_of_gap utf8Size_of_tokenChar

variable {α : Type} [Scalar α]

/-! ## The places that lexing finds -/

/-- In front of a character that starts no token there are tokens and blanks only. -/
theorem lexFrom_error {offset : Nat} {cs : List Char} {bad : Located Char}
    (h : lexFrom (α := α) offset cs = .error bad) : ∃ before after : List Char, cs = before ++ bad.value :: after ∧
      bad.span = ⟨offset + byteLength before, offset + byteLength (before ++ [bad.value])⟩ ∧
      isGap bad.value = false ∧ ∀ c ∈ before, isGap c ∨ IsTokenChar c := by
  fun_induction lexFrom (α := α) offset cs with
  | case1 => cases h
  | case2 offset c r hc ih =>
    obtain ⟨before, after, rfl, hspan, hgap, hbefore⟩ := ih h
    refine ⟨c :: before, after, rfl, ?_, hgap, List.forall_mem_cons.mpr ⟨.inl hc, hbefore⟩⟩
    rw [hspan]
    simp only [List.cons_append, byteLength, Nat.add_assoc]
  | case3 offset c r hc hscan =>
    cases h
    exact ⟨[], r, rfl, rfl, by simpa using hc, by simp⟩
  | case4 offset c r hc t l hscan stop =>
    rename_i ih
    have hlongest := scan?_eq_some_iff.mp hscan
    obtain ⟨r', hr'⟩ := hlongest.front
    rw [← hr', List.drop_left] at ih h
    rw [← hr']
    cases hrest : lexFrom (α := α) stop r' with
    | ok tokens =>
      rw [hrest] at h
      cases h
    | error bad' =>
      rw [hrest] at h
      cases h
      obtain ⟨before, after, rfl, hspan, hgap, hbefore⟩ := ih hrest
      refine ⟨l ++ before, after, (List.append_assoc _ _ _).symm, ?_, hgap, fun c hc => ?_⟩
      · rw [hspan, List.append_assoc, byteLength_append l, byteLength_append l, ← Nat.add_assoc, ← Nat.add_assoc]
      · rcases List.mem_append.mp hc with hc | hc
        · exact .inr (hlongest.lexeme.tokenChar c hc)
        · exact hbefore c hc

theorem Lexeme.eq_ofList {s : String} {l : List Char} (h : Lexeme (α := α) (.name s) l) : s = String.ofList l := by
  cases h
  rfl

theorem tokenizes_of_lexFrom {front part : List Char} {tokens : List (Located (Token α))}
    (h : lexFrom (byteLength front) part = .ok tokens) (rest : List Char) :
    Tokenizes (front ++ part ++ rest) ⟨byteLength front, byteLength (front ++ part)⟩ (byteLength (front ++ part))
      tokens := by
  rcases lexFrom_tokenizes (α := α) front part rest with ⟨tokens', hlex, htokens⟩ | ⟨_, _, hlex, _⟩
  · rw [h] at hlex
    cases hlex
    exact htokens
  · rw [h] at hlex
    cases hlex

/-- The last token of a part of a clause ends behind all others. -/
theorem Tokenizes.stop_le_last {clause : List Char} {input : Span} {upTo : Nat} {init : List (Located (Token α))}
    {last : Located (Token α)} (h : Tokenizes clause input upTo (init ++ [last])) :
    ∀ t ∈ init ++ [last], t.span.stop ≤ last.span.stop := by
  intro t ht
  rcases List.mem_append.mp ht with hinit | hlast
  · have hin := h.inside last (List.mem_append_right _ List.mem_cons_self)
    have hle := (List.pairwise_append.mp h.ordered).2.2 t hinit last List.mem_cons_self
    omega
  · rw [List.mem_singleton.mp hlast]

/-- Behind the last token of a part of a clause there are blanks only. -/
theorem Tokenizes.exists_behind_last {part rest : List Char} {start : Nat} {init : List (Located (Token α))}
    {last : Located (Token α)}
    (h : Tokenizes (part ++ rest) ⟨start, byteLength part⟩ (byteLength part) (init ++ [last])) :
    ∃ text blanks, part = text ++ blanks ∧ last.span.stop = byteLength text ∧ ∀ c ∈ blanks, isGap c := by
  have hlast : last ∈ init ++ [last] := List.mem_append_right _ List.mem_cons_self
  obtain ⟨l, -, ⟨before, after, hclause, hspan⟩, -, -⟩ := h.longest last hlast
  obtain ⟨hstart, -, hstop⟩ := h.inside last hlast
  have hend : last.span.stop = byteLength (before ++ l) := by rw [hspan]
  have hbegin : last.span.start ≤ last.span.stop := by
    rw [hspan, byteLength_append]
    exact Nat.le_add_right _ _
  rw [hend] at hstop
  obtain ⟨blanks, rfl⟩ := prefix_of_byteLength_le ⟨after, hclause.symm⟩ (List.prefix_append part rest) hstop
  refine ⟨before ++ l, blanks, rfl, hend, fun c hc => ?_⟩
  obtain ⟨b, b', rfl⟩ := List.append_of_mem hc
  have hshows : Span.Shows ⟨byteLength (before ++ l ++ b), byteLength (before ++ l ++ b ++ [c])⟩
      (before ++ l ++ (b ++ c :: b') ++ rest) [c] := ⟨before ++ l ++ b, b' ++ rest, by simp, rfl⟩
  have hfrom : start ≤ byteLength (before ++ l ++ b) := by
    rw [byteLength_append (before ++ l)]
    simp only at hstart
    omega
  have hto : byteLength (before ++ l ++ b ++ [c]) ≤ byteLength (before ++ l ++ (b ++ c :: b')) := by
    simp only [byteLength_append, byteLength]
    omega
  rcases h.blank _ c hshows hfrom hto with hgap | ⟨t, ht, -, hin⟩
  · exact hgap
  · -- a token that holds the character ends behind the last one
    have hle := h.stop_le_last t ht
    have hlt := hshows.start_lt (List.cons_ne_nil c [])
    rw [hend] at hle
    rw [byteLength_append (before ++ l)] at hlt
    simp only at hin hlt
    omega

end Token

/-! ## The places that reading a sum speaks of -/

namespace RawTerm

variable {α : Type} {toks toks' : List (Located (Token α))}

/-- What reading some tokens says has its places from them: the names of terms, and what was not expected. -/
def Within (toks : List (Located (Token α))) : Except (Unexpected α) (List (RawTerm α)) → Prop
  | .ok raws => ∀ r ∈ raws, ∀ x ∈ r.name, ⟨.name x.value, x.span⟩ ∈ toks
  | .error u => u.rest <:+ toks

theorem Within.mono {res : Except (Unexpected α) (List (RawTerm α))} (h : Within toks' res) (hsuffix : toks' <:+ toks) :
    Within toks res := by
  cases res with
  | ok raws => exact fun r hr x hx => hsuffix.subset (h r hr x hx)
  | error u => exact List.IsSuffix.trans h hsuffix

theorem Within.cons {res : Except (Unexpected α) (List (RawTerm α))} {raw : RawTerm α} (h : Within toks' res)
    (hsuffix : toks' <:+ toks) (hraw : ∀ x ∈ raw.name, ⟨.name x.value, x.span⟩ ∈ toks) :
    Within toks ((raw :: ·) <$> res) := by
  have hres := h.mono hsuffix
  cases res with
  | ok raws => exact List.forall_mem_cons.mpr ⟨hraw, hres⟩
  | error u => exact hres

variable [Scalar α]

/-- The terms of a sum have the places of their tokens, and so has what does not fit. -/
theorem within_readTerm : (∀ (sign : α) (seen : Progress) (toks : List (Located (Token α))),
    Within toks (readTerm sign seen toks)) ∧
    ∀ (seen : Progress) (toks : List (Located (Token α))), Within toks (readMore seen toks) := by
  refine readTerm.mutual_induct _ _ ?name ?multiple ?starred ?star ?number ?noTerm ?done ?plus ?minus ?noSign
  case name =>
    intro sign seen s span r ih
    rw [readTerm]
    exact ih.cons (List.suffix_cons _ _) (by simp)
  case multiple =>
    intro sign seen x span s span' r ih
    rw [readTerm]
    exact ih.cons ((List.suffix_cons _ _).trans (List.suffix_cons _ _)) (by simp)
  case starred =>
    intro sign seen x span span' s span'' r ih
    rw [readTerm]
    exact ih.cons (List.suffix_append [_, _, _] r) (by simp)
  case star =>
    intro sign seen x span span' r hname
    rw [readTerm]
    · exact List.suffix_append [_, _] r
    · exact hname
  case number =>
    intro sign seen x span r hname hstarred hstar ih
    rw [readTerm]
    · exact ih.cons (List.suffix_cons _ _) (by simp)
    · exact hname
    · exact hstarred
    · exact hstar
  case noTerm =>
    intro sign seen r h₁ h₂ h₃ h₄ h₅
    rw [readTerm]
    · exact List.suffix_refl r
    all_goals assumption
  case done => exact fun seen r hr => by cases hr
  case plus =>
    intro seen span r ih
    rw [readMore]
    exact ih.mono (List.suffix_cons _ _)
  case minus =>
    intro seen span r ih
    rw [readMore]
    exact ih.mono (List.suffix_cons _ _)
  case noSign =>
    intro seen r h₁ h₂ h₃
    rw [readMore]
    · exact List.suffix_refl r
    all_goals assumption

theorem within_readSum (toks : List (Located (Token α))) : Within toks (readSum toks) := by
  unfold readSum
  split
  · exact (within_readTerm.1 _ _ _).mono (List.suffix_cons _ _)
  · exact (within_readTerm.1 _ _ _).mono (List.suffix_cons _ _)
  · exact within_readTerm.1 _ _ _

omit [Scalar α] in
/-- A name is refused because it is no coordinate, or because there is no object. -/
theorem bind_eq_error {clause : String} {hasObject : Bool} {raw : RawTerm α} {e : ClauseError}
    (h : raw.bind clause hasObject = .error e) : ∃ x ∈ raw.name, e = .unknownToken clause x.value x.span ∨
      ∃ detail expected, e = .malformed clause x.span detail expected := by
  unfold bind at h
  split at h
  · cases h
  · rename_i s span hname
    refine ⟨⟨s, span⟩, hname, ?_⟩
    split at h
    · cases h
      exact .inl rfl
    · split at h
      · cases h
        exact .inr ⟨_, _, rfl⟩
      · cases h

end RawTerm

/-! ## The reasons to refuse a clause -/

/-- An error of a clause with the place of its reason. -/
inductive ClauseError.PointsInto (clause : String) : ClauseError → Prop
  /-- No comparison symbol stands in the clause. -/
  | whole : PointsInto clause (.missingOperator clause)
  /-- Characters that are no token or no coordinate stand at the place, behind characters of one byte only. -/
  | unknown {before l after : List Char} : clause.toList = before ++ l ++ after → (∀ c ∈ before, c.utf8Size = 1) →
      l ≠ [] → (∀ c ∈ l, Token.isGap c = false) →
      PointsInto clause (.unknownToken clause (String.ofList l) ⟨byteLength before, byteLength (before ++ l)⟩)
  /-- A token that does not fit stands at the place. -/
  | misplaced {span : Span} {l : List Char} {detail : String} {expected : List String} : l ≠ [] →
      span.Shows clause.toList l → PointsInto clause (.malformed clause span detail expected)
  /-- A side ends at the place, and blanks stand in front of its end. -/
  | ending {text blanks rest : List Char} {expected : List String} : clause.toList = text ++ blanks ++ rest →
      (∀ c ∈ blanks, Token.isGap c) → (rest = [] ∨ ∃ k : Comparison, k.spelling <+: rest) →
      PointsInto clause (.malformed clause ⟨byteLength (text ++ blanks), byteLength text⟩
        "unexpected end of expression" expected)

/-- Comparison symbols consist of characters of one byte. -/
theorem Comparison.utf8Size_of_spelling (k : Comparison) : ∀ c ∈ k.spelling, c.utf8Size = 1 := by
  cases k <;> simp [spelling] <;> decide

namespace Clause

variable {α : Type} [Scalar α]

variable {clause : String} {front side rest : List Char} {tokens : List (Located (Token α))}

/-- A token of a side shows itself at its place. -/
theorem exists_place (hclause : clause.toList = front ++ side ++ rest)
    (htokens : Token.Tokenizes (front ++ side ++ rest) ⟨byteLength front, byteLength (front ++ side)⟩
      (byteLength (front ++ side)) tokens) {t : Token α} {span : Span} (ht : ⟨t, span⟩ ∈ tokens) :
    ∃ before l after, clause.toList = before ++ l ++ after ∧ span = ⟨byteLength before, byteLength (before ++ l)⟩ ∧
      before ++ l <+: front ++ side ∧ l ≠ [] ∧ Token.Lexeme t l := by
  obtain ⟨l, _, ⟨before, after, hsplit, hspan⟩, -, hlongest⟩ := htokens.longest _ ht
  have hend := (htokens.inside _ ht).2.2
  rw [hspan] at hend
  obtain ⟨c, r, hcons, -⟩ := hlongest.lexeme.exists_cons
  exact ⟨before, l, after, hclause.trans hsplit, hspan, prefix_of_byteLength_le ⟨after, hsplit.symm⟩
    (List.prefix_append _ _) hend, hcons ▸ List.cons_ne_nil c r, hlongest.lexeme⟩

theorem pointsInto_malformedSide (hclause : clause.toList = front ++ side ++ rest)
    (hrest : rest = [] ∨ ∃ k : Comparison, k.spelling <+: rest)
    (htokens : Token.Tokenizes (front ++ side ++ rest) ⟨byteLength front, byteLength (front ++ side)⟩
      (byteLength (front ++ side)) tokens) {u : Unexpected α} (hu : u.rest <:+ tokens) :
    (malformedSide clause (byteLength front + byteLength side) tokens u).PointsInto clause := by
  unfold malformedSide
  split
  · rename_i t span r hcons
    obtain ⟨before, l, after, hsplit, hspan, -, hne, -⟩ :=
      exists_place hclause htokens (hu.subset (hcons ▸ List.mem_cons_self))
    exact .misplaced hne ⟨before, after, hsplit, hspan⟩
  · rw [← byteLength_append]
    rcases List.eq_nil_or_concat' tokens with rfl | ⟨init, last, rfl⟩
    · have hblank : clause.toList = front ++ side ++ [] ++ rest := by rw [List.append_nil, hclause]
      simpa using ClauseError.PointsInto.ending hblank (by simp) hrest
    · obtain ⟨text, blanks, htext, hstop, hblanks⟩ := htokens.exists_behind_last
      rw [htext] at hclause ⊢
      simpa [hstop] using ClauseError.PointsInto.ending hclause hblanks hrest

/-- The error of a side has a place in the clause. -/
theorem pointsInto_of_parseSide {hasObject : Bool} {e : ClauseError}
    (hclause : clause.toList = front ++ side ++ rest) (hfront : ∀ c ∈ front, c.utf8Size = 1)
    (hrest : rest = [] ∨ ∃ k : Comparison, k.spelling <+: rest)
    (h : parseSide (α := α) side (byteLength front) clause hasObject = .error e) : e.PointsInto clause := by
  have hone : ∀ read, (∀ c ∈ read, Token.isGap c ∨ Token.IsTokenChar c) → ∀ c ∈ front ++ read, c.utf8Size = 1 :=
    fun read hread c hc => (List.mem_append.mp hc).elim (hfront c) fun hc => Token.utf8Size_of_lexed (hread c hc)
  rcases bind_eq_error_iff.mp h with hlex | ⟨tokens, hlex, h⟩
  · obtain ⟨bad, hbad, rfl⟩ := mapError_eq_error_iff.mp hlex
    obtain ⟨before, after, rfl, hspan, hgap, hbefore⟩ := Token.lexFrom_error hbad
    have hplace : bad.span = ⟨byteLength (front ++ before), byteLength (front ++ before ++ [bad.value])⟩ := by
      rw [hspan, ← byteLength_append, ← byteLength_append, ← List.append_assoc]
    have hsplit : clause.toList = front ++ before ++ [bad.value] ++ (after ++ rest) := by simp [hclause]
    rw [hplace, String.singleton_eq_ofList]
    exact .unknown hsplit (hone before hbefore) (List.cons_ne_nil _ _) (by simp [hgap])
  · have hlexFrom := mapError_eq_ok_iff.mp hlex
    have htokens := Token.tokenizes_of_lexFrom hlexFrom rest
    have hwithin := RawTerm.within_readSum tokens
    rcases bind_eq_error_iff.mp h with hread | ⟨raws, hread, h⟩
    · obtain ⟨u, hu, rfl⟩ := mapError_eq_error_iff.mp hread
      rw [hu] at hwithin
      exact pointsInto_malformedSide hclause hrest htokens hwithin
    · rw [mapError_eq_ok_iff.mp hread] at hwithin
      rcases bind_eq_error_iff.mp h with hbind | ⟨_, -, h⟩
      · obtain ⟨raw, hraw, hbind⟩ := exists_error_of_mapM hbind
        obtain ⟨x, hx, he⟩ := RawTerm.bind_eq_error hbind
        obtain ⟨before, l, after, hsplit, hspan, hin, hne, hlexeme⟩ :=
          exists_place hclause htokens (hwithin raw hraw x hx)
        rcases he with rfl | ⟨detail, expected, rfl⟩
        · have hbefore : ∀ c ∈ before, c.utf8Size = 1 := fun c hc =>
            hone side (Token.Lexes.of_lexFrom hlexFrom).tokenChar c (hin.subset (List.mem_append_left l hc))
          rw [hspan, hlexeme.eq_ofList]
          exact .unknown hsplit hbefore hne fun c hc => Token.not_isGap_of_tokenChar (hlexeme.tokenChar c hc)
        · exact .misplaced hne ⟨before, after, hsplit, hspan⟩
      · cases h

/-- The error of a text that is no clause has a place in the text. -/
theorem pointsInto_of_parse {hasObject : Bool} {e : ClauseError} (h : parse (α := α) clause hasObject = .error e) :
    e.PointsInto clause := by
  unfold parse at h
  split at h
  · cases h
    exact .whole
  · rename_i l symbol k r hsplit
    obtain ⟨hsymbol, hclause⟩ := toList_symbol_of_splitSides? hsplit
    rcases bind_eq_error_iff.mp h with hlhs | ⟨lhs, hlhs, h⟩
    · have hleft : clause.toList = [] ++ l ++ (symbol.toList ++ r) := by simp [hclause]
      exact pointsInto_of_parseSide hleft (by simp) (.inr ⟨k, hsymbol ▸ List.prefix_append _ _⟩) hlhs
    · rcases bind_eq_error_iff.mp h with hrhs | ⟨_, -, h⟩
      · obtain ⟨s, hlexes, -⟩ := parseSide_ok_iff.mp hlhs
        rw [← byteLength_toList, ← byteLength_append] at hrhs
        have hright : clause.toList = l ++ symbol.toList ++ r ++ [] := by simp [hclause]
        refine pointsInto_of_parseSide hright (fun c hc => ?_) (.inl rfl) hrhs
        rcases List.mem_append.mp hc with hc | hc
        · exact Token.utf8Size_of_lexed (hlexes.tokenChar c hc)
        · exact Comparison.utf8Size_of_spelling k c (hsymbol ▸ hc)
      · cases h

end Clause

/-! ## Where errors are -/

/-- The error says that a side ends before its sum does, and its place starts behind the blanks at the end of the side
and stops in front of them. -/
def ClauseError.BreaksOff (clause : String) (e : ClauseError) : Prop :=
  ∃ text blanks rest expected, clause.toList = text ++ blanks ++ rest ∧ blanks ≠ [] ∧ (∀ c ∈ blanks, Token.isGap c) ∧
    (rest = [] ∨ ∃ k : Comparison, k.spelling <+: rest) ∧
    e = .malformed clause ⟨byteLength (text ++ blanks), byteLength text⟩ "unexpected end of expression" expected

namespace ClauseError.PointsInto

variable {clause : String} {e : ClauseError}

theorem clause_eq (h : e.PointsInto clause) : e.clause = clause := by
  cases h <;> rfl

/-- A place starts and stops at boundaries of characters. -/
theorem isValid (h : e.PointsInto clause) : (⟨e.span.start⟩ : String.Pos.Raw).IsValid clause ∧
    (⟨e.span.stop⟩ : String.Pos.Raw).IsValid clause := by
  cases h with
  | whole =>
    rw [span, ← byteLength_toList]
    exact ⟨isValid_of_append (List.nil_append _).symm, isValid_of_append (List.append_nil _).symm⟩
  | @unknown before l after hsplit =>
    exact ⟨isValid_of_append (hsplit.trans (List.append_assoc _ _ _)), isValid_of_append hsplit⟩
  | misplaced hne hshows =>
    obtain ⟨before, after, hsplit, rfl⟩ := hshows
    exact ⟨isValid_of_append (hsplit.trans (List.append_assoc _ _ _)), isValid_of_append hsplit⟩
  | ending hsplit =>
    exact ⟨isValid_of_append hsplit, isValid_of_append (hsplit.trans (List.append_assoc _ _ _))⟩

/-- A place is backwards if it is the end of a side with blanks in front of it, and only then. -/
theorem stop_lt_start_iff (h : e.PointsInto clause) : e.span.stop < e.span.start ↔ e.BreaksOff clause := by
  constructor
  · intro hlt
    cases h with
    | whole => exact absurd hlt (Nat.not_lt_zero _)
    | unknown => simp only [span, byteLength_append] at hlt; omega
    | misplaced hne hshows => exact absurd (hshows.start_lt hne) (Nat.lt_asymm hlt)
    | @ending text blanks rest expected hsplit hblanks hrest =>
      refine ⟨text, blanks, rest, expected, hsplit, ?_, hblanks, hrest, rfl⟩
      rintro rfl
      simp [span] at hlt
  · rintro ⟨text, blanks, rest, expected, -, hne, -, -, rfl⟩
    have hpos := byteLength_pos hne
    simp only [span, byteLength_append]
    omega

end ClauseError.PointsInto

/-- A text that is no clause is refused with an error of this text for one of the four reasons. Its place starts and
stops at boundaries of characters in the text, and it is backwards if a side ends before its sum does, with blanks at
the end of the side, and only then. -/
theorem Clause.place_of_parse_error {α : Type} [Scalar α] {clause : String} {hasObject : Bool} {e : ClauseError}
    (h : Clause.parse (α := α) clause hasObject = .error e) : e.PointsInto clause ∧ e.clause = clause ∧
      (⟨e.span.start⟩ : String.Pos.Raw).IsValid clause ∧ (⟨e.span.stop⟩ : String.Pos.Raw).IsValid clause ∧
      (e.span.stop < e.span.start ↔ e.BreaksOff clause) := by
  have hpoints := Clause.pointsInto_of_parse h
  exact ⟨hpoints, hpoints.clause_eq, hpoints.isValid.1, hpoints.isValid.2, hpoints.stop_lt_start_iff⟩

/-- The error of a side that ends with a sign and a blank. -/
def ClauseError.dangling : ClauseError := .malformed "sx1+ < ox1" ⟨5, 4⟩ "unexpected end of expression" []

theorem Clause.parse_dangling : Clause.parse (α := Rat) "sx1+ < ox1" true = .error .dangling := by decide +kernel

theorem Clause.place_of_parse_error_dangling : Clause.parse (α := Rat) "sx1+ < ox1" true = .error .dangling ∧
    ClauseError.dangling.PointsInto "sx1+ < ox1" ∧ ClauseError.dangling.clause = "sx1+ < ox1" ∧
    (⟨5⟩ : String.Pos.Raw).IsValid "sx1+ < ox1" ∧ (⟨4⟩ : String.Pos.Raw).IsValid "sx1+ < ox1" ∧
    ClauseError.dangling.BreaksOff "sx1+ < ox1" := by
  obtain ⟨hpoints, hclause, hstart, hstop, hbackwards⟩ := Clause.place_of_parse_error Clause.parse_dangling
  exact ⟨Clause.parse_dangling, hpoints, hclause, hstart, hstop, hbackwards.mp (by decide)⟩

/-- The place of an error may stop before it starts. -/
theorem Clause.not_start_le_stop_of_parse_error : ¬ ∀ (clause : String) (hasObject : Bool) (e : ClauseError),
    Clause.parse (α := Rat) clause hasObject = .error e → e.clause = clause ∧ e.span.start ≤ e.span.stop ∧
      e.span.stop ≤ clause.utf8ByteSize ∧ (⟨e.span.start⟩ : String.Pos.Raw).IsValid clause ∧
      (⟨e.span.stop⟩ : String.Pos.Raw).IsValid clause := by
  intro h
  exact absurd (h _ _ _ Clause.parse_dangling).2.1 (by decide)

end RectLayout
