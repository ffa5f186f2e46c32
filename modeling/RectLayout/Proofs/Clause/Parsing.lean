import RectLayout.Proofs.Clause.Grammar

/-!
# The grammar of clauses

A clause is written as two sums around a comparison symbol (`ClauseText`), and a text spells it if both sides consist of
the tokens of these sums and no comparison symbol stands in them (`ClauseText.Spells`). A text spells one clause at most,
and `Clause.parse` accepts exactly the texts that spell a clause whose names are coordinates, with the terms that are
written (`Clause.parse_ok_iff_spells`).
-/

namespace RectLayout

/-! ## Names of coordinates -/

def Role.letter : Role → Char
  | .subject => 's'
  | .object => 'o'

def Axis.letter : Axis → Char
  | .x => 'x'
  | .y => 'y'

def Corner.digit : Corner → Char
  | .min => '1'
  | .max => '2'

/-- The names of a coordinate: role, axis and corner, or for the subject axis and corner alone. -/
def Coord.IsNamed (c : Coord) (s : String) : Prop :=
  s.toList = [c.role.letter, c.axis.letter, c.corner.digit] ∨
    c.role = .subject ∧ s.toList = [c.axis.letter, c.corner.digit]

theorem Axis.letter_eq_iff {axis : Axis} {a : Char} :
    (if a = 'x' then some Axis.x else if a = 'y' then some Axis.y else none) = some axis ↔ a = axis.letter := by
  cases axis with
  | x => by_cases hx : a = 'x' <;> simp [hx, letter]
  | y => by_cases hx : a = 'x' <;> simp [hx, letter]

theorem Corner.digit_eq_iff {corner : Corner} {k : Char} :
    (if k = '1' then some Corner.min else if k = '2' then some Corner.max else none) = some corner ↔
      k = corner.digit := by
  cases corner with
  | min => by_cases hk : k = '1' <;> simp [hk, digit]
  | max => by_cases hk : k = '1' <;> simp [hk, digit]

theorem Coord.ofLetters?_eq_some_iff {role : Role} {a k : Char} {c : Coord} :
    Coord.ofLetters? role a k = some c ↔ c.role = role ∧ a = c.axis.letter ∧ k = c.corner.digit := by
  have hbind : Coord.ofLetters? role a k =
      (if a = 'x' then some Axis.x else if a = 'y' then some Axis.y else none).bind fun axis =>
        (if k = '1' then some Corner.min else if k = '2' then some Corner.max else none).bind fun corner =>
          some ⟨role, axis, corner⟩ := by
    unfold ofLetters?
    split_ifs <;> rfl
  obtain ⟨role', axis, corner⟩ := c
  simp only [hbind, Option.bind_eq_some_iff, Axis.letter_eq_iff, Corner.digit_eq_iff, Option.some.injEq, mk.injEq]
  constructor
  · rintro ⟨_, ha, _, hk, rfl, rfl, rfl⟩
    exact ⟨rfl, ha, hk⟩
  · rintro ⟨rfl, ha, hk⟩
    exact ⟨axis, ha, corner, hk, rfl, rfl, rfl⟩

theorem Coord.ofName?_eq_some_iff {c : Coord} {s : String} : Coord.ofName? s = some c ↔ c.IsNamed s := by
  unfold ofName? IsNamed
  generalize s.toList = l
  obtain ⟨role, axis, corner⟩ := c
  split
  · rw [ofLetters?_eq_some_iff]
    simp
  · rw [ofLetters?_eq_some_iff]
    cases role <;> simp [Role.letter]
  · rw [ofLetters?_eq_some_iff]
    cases role <;> simp [Role.letter]
  · rename_i hshort hsubject hobject
    constructor
    · intro h
      cases h
    · rintro (rfl | ⟨-, rfl⟩)
      · cases role with
        | subject => exact absurd rfl (hsubject _ _)
        | object => exact absurd rfl (hobject _ _)
      · exact absurd rfl (hshort _ _)

/-! ## Sides -/

/-- The coordinate that the name in a summand stands for. Without an object the subject's coordinates are allowed. -/
inductive Binds (hasObject : Bool) : Option String → Option Coord → Prop
  | number : Binds hasObject none none
  | coord {s : String} {c : Coord} : c.IsNamed s → (c.role = .object → hasObject) → Binds hasObject (some s) (some c)

variable {α : Type} [Scalar α]

/-- The term that a summand stands for behind a sign. -/
structure Summand.Denotes (hasObject : Bool) (factor : α) (s : Summand α) (t : Term α) : Prop where
  coefficient : t.coefficient = s.coefficient * factor
  coord : Binds hasObject s.name? t.coord

/-- The terms that a sum stands for, in order. -/
def SumText.Denotes (hasObject : Bool) (s : SumText α) (e : LinearExpr α) : Prop :=
  List.Forall₂ (fun s t => s.2.Denotes hasObject s.1 t) s.summands e.terms

omit [Scalar α] in
theorem RawTerm.bind_ok_iff {clause : String} {hasObject : Bool} {r : RawTerm α} {t : Term α} :
    r.bind clause hasObject = .ok t ↔ t.coefficient = r.coefficient ∧
      Binds hasObject (r.name.map Located.value) t.coord := by
  obtain ⟨coefficient, name⟩ := r
  obtain ⟨coefficient', coord⟩ := t
  unfold bind
  cases name with
  | none =>
    constructor
    · intro h
      cases h
      exact ⟨rfl, .number⟩
    · rintro ⟨rfl, hbinds⟩
      cases hbinds
      rfl
  | some s =>
    obtain ⟨s, span⟩ := s
    simp only
    constructor
    · intro h
      split at h
      · cases h
      · rename_i c hc
        split at h
        · cases h
        · rename_i hobject
          cases h
          exact ⟨rfl, .coord (Coord.ofName?_eq_some_iff.mp hc) (by simpa using hobject)⟩
    · rintro ⟨rfl, hbinds⟩
      cases hbinds with
      | coord hnamed hobject =>
        rw [Coord.ofName?_eq_some_iff.mpr hnamed]
        simp only
        rw [if_neg (by simpa using hobject)]

/-- A term that is read from a summand is bound to what the summand stands for. -/
theorem RawTerm.IsRead.bind_ok_iff {clause : String} {hasObject : Bool} {r : RawTerm α} {s : α × Summand α}
    (h : r.IsRead s) {t : Term α} : r.bind clause hasObject = .ok t ↔ s.2.Denotes hasObject s.1 t := by
  rw [RawTerm.bind_ok_iff, h.coefficient, h.name]
  exact ⟨fun h => ⟨h.1, h.2⟩, fun h => ⟨h.coefficient, h.coord⟩⟩

/-- A side is read exactly if it consists of the tokens of a sum whose names are coordinates. -/
theorem Clause.parseSide_ok_iff {side : List Char} {offset : Nat} {clause : String} {hasObject : Bool}
    {e : LinearExpr α} : Clause.parseSide side offset clause hasObject = .ok e ↔
      ∃ s : SumText α, Token.Lexes side s.tokens ∧ s.Denotes hasObject e := by
  constructor
  · intro h
    obtain ⟨located, hlocated, h⟩ := bind_eq_ok_iff.mp h
    obtain ⟨raws, hraws, h⟩ := bind_eq_ok_iff.mp h
    obtain ⟨terms, hterms, h⟩ := bind_eq_ok_iff.mp h
    obtain ⟨s, htokens, hread⟩ := RawTerm.exists_sumText_of_readSum (mapError_eq_ok_iff.mp hraws)
    refine ⟨s, Token.lex_ok_iff.mp ⟨located, hlocated, htokens⟩, ?_⟩
    rw [← Except.ok.inj h]
    exact (forall₂_iff_of_forall₂ (fun _ _ _ h => h.bind_ok_iff) hread).mp (mapM_ok_iff.mp hterms)
  · rintro ⟨s, hlexes, hdenotes⟩
    obtain ⟨located, hlocated, htokens⟩ := Token.lex_ok_iff.mpr hlexes
    obtain ⟨raws, hraws, hread⟩ := RawTerm.exists_readSum s htokens
    have hterms : raws.mapM (RawTerm.bind clause hasObject) = .ok e.terms :=
      mapM_ok_iff.mpr ((forall₂_iff_of_forall₂ (fun _ _ _ h => h.bind_ok_iff) hread).mpr hdenotes)
    exact bind_eq_ok_iff.mpr ⟨located, hlocated, bind_eq_ok_iff.mpr ⟨raws, mapError_eq_ok_iff.mpr hraws,
      bind_eq_ok_iff.mpr ⟨e.terms, hterms, rfl⟩⟩⟩

/-! ## The comparison symbol -/

/-- The symbol of a comparison. -/
def Comparison.spelling : Comparison → List Char
  | .less => ['<']
  | .lessOrEqual => ['<', '=']
  | .greater => ['>']
  | .greaterOrEqual => ['>', '=']
  | .equal => ['=']

namespace Clause

theorem eq_append_of_splitAt? {symbol cs l r : List Char} (h : splitAt? symbol cs = some (l, r)) :
    cs = l ++ symbol ++ r := by
  induction cs generalizing l with
  | nil => cases h
  | cons c cs ih =>
    unfold splitAt? at h
    split at h
    · rename_i hfront
      cases h
      exact (List.prefix_iff_eq_append.mp (List.isPrefixOf_iff_prefix.mp hfront)).symm
    · obtain ⟨⟨l', r'⟩, hsplit, h⟩ := Option.map_eq_some_iff.mp h
      cases h
      rw [ih hsplit]
      rfl

/-- A symbol is found at the first place at which its first character stands. -/
theorem splitAt?_append {k : Char} {symbol l : List Char} (hk : k ∉ l) (r : List Char) :
    splitAt? (k :: symbol) (l ++ (k :: symbol) ++ r) = some (l, r) := by
  induction l with
  | nil =>
    simp only [List.nil_append, List.cons_append, splitAt?]
    rw [if_pos (by simp)]
    simp
  | cons c l ih =>
    have hck : c ≠ k := fun h => hk (h ▸ List.mem_cons_self)
    have hl : k ∉ l := fun h => hk (List.mem_cons_of_mem c h)
    simp only [List.cons_append, splitAt?] at ih ⊢
    rw [if_neg (by simp [hck.symm]), ih hl]
    rfl

theorem splitAt?_eq_none {symbol cs : List Char} (h : ∀ l r, cs ≠ l ++ symbol ++ r) : splitAt? symbol cs = none := by
  cases hsplit : splitAt? symbol cs with
  | none => rfl
  | some lr => exact absurd (eq_append_of_splitAt? hsplit) (h lr.1 lr.2)

theorem splitAt?_of_notMem {k : Char} {symbol cs : List Char} (hk : k ∉ cs) : splitAt? (k :: symbol) cs = none := by
  refine splitAt?_eq_none fun l r h => hk ?_
  rw [h]
  simp

/-- The symbol between the sides of a clause is the one of its comparison. -/
theorem toList_symbol_of_splitSides? {cs l r : List Char} {symbol : String} {k : Comparison}
    (h : splitSides? cs = some (l, symbol, k, r)) : symbol.toList = k.spelling ∧ cs = l ++ symbol.toList ++ r := by
  obtain ⟨⟨symbol', k'⟩, hmem, h⟩ := List.exists_of_findSome?_eq_some h
  obtain ⟨⟨l', r'⟩, hsplit, heq⟩ := Option.map_eq_some_iff.mp h
  cases heq
  refine ⟨?_, eq_append_of_splitAt? hsplit⟩
  simp only [Comparison.symbols, List.mem_cons, Prod.mk.injEq, List.not_mem_nil, or_false] at hmem
  rcases hmem with ⟨rfl, rfl⟩ | ⟨rfl, rfl⟩ | ⟨rfl, rfl⟩ | ⟨rfl, rfl⟩ | ⟨rfl, rfl⟩ <;> rfl

/-- A clause is split at a comparison symbol. -/
theorem splitSides?_ok {cs l r : List Char} {symbol : String} {k : Comparison}
    (h : splitSides? cs = some (l, symbol, k, r)) : cs = l ++ k.spelling ++ r := by
  obtain ⟨hspelling, hcs⟩ := toList_symbol_of_splitSides? h
  rw [hcs, hspelling]

/-- A clause is split at its comparison symbol if none stands in its sides. -/
theorem splitSides?_append {l r : List Char} (hsides : ∀ c ∈ l ++ r, c ∉ ['<', '>', '=']) (k : Comparison) :
    splitSides? (l ++ k.spelling ++ r) = some (l, String.ofList k.spelling, k, r) := by
  have hnone : '<' ∉ l ++ r ∧ '>' ∉ l ++ r ∧ '=' ∉ l ++ r := by
    refine ⟨?_, ?_, ?_⟩ <;> intro hc <;> exact hsides _ hc (by simp)
  simp only [List.mem_append, not_or] at hnone
  obtain ⟨⟨hltl, hltr⟩, ⟨hgtl, hgtr⟩, heql, heqr⟩ := hnone
  -- a symbol of two characters is not found where its first character stands alone
  have hlone : ∀ k : Char, k ∉ l → k ∉ r → splitAt? [k, '='] (l ++ [k] ++ r) = none := by
    intro k hkl hkr
    refine splitAt?_eq_none fun l' r' h => ?_
    simp only [List.append_assoc, List.cons_append, List.nil_append] at h
    obtain ⟨-, -, hr⟩ := (List.append_cons_inj_of_notMem hkl hkr).mp h
    exact heqr (hr ▸ List.mem_cons_self)
  have hfound : ∀ (k : Char) (symbol : List Char), k ∉ l →
      splitAt? (k :: symbol) (l ++ (k :: symbol) ++ r) = some (l, r) := fun k symbol hk => splitAt?_append hk r
  have habsent : ∀ (k : Char) (symbol found : List Char), k ∉ l → k ∉ found → k ∉ r →
      splitAt? (k :: symbol) (l ++ found ++ r) = none := by
    intro k symbol found hl hf hr
    exact splitAt?_of_notMem (by simp [hl, hf, hr])
  cases k with
  | lessOrEqual =>
    have hle : splitAt? "<=".toList (l ++ ['<', '='] ++ r) = some (l, r) := hfound _ _ hltl
    simp only [splitSides?, Comparison.symbols, Comparison.spelling, List.findSome?_cons, hle, Option.map_some]
  | greaterOrEqual =>
    have hle : splitAt? "<=".toList (l ++ ['>', '='] ++ r) = none := habsent _ _ _ hltl (by decide) hltr
    have hge : splitAt? ">=".toList (l ++ ['>', '='] ++ r) = some (l, r) := hfound _ _ hgtl
    simp only [splitSides?, Comparison.symbols, Comparison.spelling, List.findSome?_cons, hle, hge, Option.map_some,
      Option.map_none]
  | less =>
    have hle : splitAt? "<=".toList (l ++ ['<'] ++ r) = none := hlone _ hltl hltr
    have hge : splitAt? ">=".toList (l ++ ['<'] ++ r) = none := habsent _ _ _ hgtl (by decide) hgtr
    have hlt : splitAt? "<".toList (l ++ ['<'] ++ r) = some (l, r) := hfound _ _ hltl
    simp only [splitSides?, Comparison.symbols, Comparison.spelling, List.findSome?_cons, hle, hge, hlt,
      Option.map_some, Option.map_none]
  | greater =>
    have hle : splitAt? "<=".toList (l ++ ['>'] ++ r) = none := habsent _ _ _ hltl (by decide) hltr
    have hge : splitAt? ">=".toList (l ++ ['>'] ++ r) = none := hlone _ hgtl hgtr
    have hlt : splitAt? "<".toList (l ++ ['>'] ++ r) = none := habsent _ _ _ hltl (by decide) hltr
    have hgt : splitAt? ">".toList (l ++ ['>'] ++ r) = some (l, r) := hfound _ _ hgtl
    simp only [splitSides?, Comparison.symbols, Comparison.spelling, List.findSome?_cons, hle, hge, hlt, hgt,
      Option.map_some, Option.map_none]
  | equal =>
    have hle : splitAt? "<=".toList (l ++ ['='] ++ r) = none := habsent _ _ _ hltl (by decide) hltr
    have hge : splitAt? ">=".toList (l ++ ['='] ++ r) = none := habsent _ _ _ hgtl (by decide) hgtr
    have hlt : splitAt? "<".toList (l ++ ['='] ++ r) = none := habsent _ _ _ hltl (by decide) hltr
    have hgt : splitAt? ">".toList (l ++ ['='] ++ r) = none := habsent _ _ _ hgtl (by decide) hgtr
    have heq : splitAt? "=".toList (l ++ ['='] ++ r) = some (l, r) := hfound _ _ heql
    simp only [splitSides?, Comparison.symbols, Comparison.spelling, List.findSome?_cons, hle, hge, hlt, hgt, heq,
      Option.map_some, Option.map_none]

/-! ## Clauses -/

end Clause

/-- A clause as it is written. -/
structure ClauseText (α : Type) where
  lhs : SumText α
  comparison : Comparison
  rhs : SumText α
  deriving DecidableEq, Repr

/-- A text is two sides around a comparison symbol. No comparison symbol stands in the sides, and they consist of the
tokens of the sums. -/
def ClauseText.Spells (k : ClauseText α) (cs : List Char) : Prop :=
  ∃ l r, cs = l ++ k.comparison.spelling ++ r ∧ (∀ c ∈ l ++ r, c ∉ ['<', '>', '=']) ∧
    Token.Lexes l k.lhs.tokens ∧ Token.Lexes r k.rhs.tokens

/-- A text spells no more than one clause. -/
theorem ClauseText.Spells.unique {k k' : ClauseText α} {cs : List Char} (h : k.Spells cs) (h' : k'.Spells cs) :
    k = k' := by
  obtain ⟨l, r, rfl, hsides, hl, hr⟩ := h
  obtain ⟨l', r', hcs, hsides', hl', hr'⟩ := h'
  have hsplit := Clause.splitSides?_append hsides k.comparison
  rw [hcs, Clause.splitSides?_append hsides' k'.comparison] at hsplit
  obtain ⟨lhs, comparison, rhs⟩ := k
  obtain ⟨lhs', comparison', rhs'⟩ := k'
  simp only [Option.some.injEq, Prod.mk.injEq] at hsplit
  obtain ⟨rfl, -, rfl, rfl⟩ := hsplit
  have hlhs : lhs = lhs' := SumText.tokens_injective (hl.unique hl')
  have hrhs : rhs = rhs' := SumText.tokens_injective (hr.unique hr')
  rw [hlhs, hrhs]

/-- A text that has tokens contains no comparison symbol. -/
theorem Token.Lexes.no_comparison {cs : List Char} {ts : List (Token α)} (h : Token.Lexes cs ts) :
    ∀ c ∈ cs, c ∉ ['<', '>', '='] := by
  intro c hc hmem
  have hchar := h.tokenChar c hc
  simp only [List.mem_cons, List.not_mem_nil, or_false] at hmem
  unfold Token.IsTokenChar at hchar
  rcases hmem with rfl | rfl | rfl <;> exact absurd hchar (by decide)

/-- Two sides that consist of the tokens of sums spell a clause. -/
theorem ClauseText.spells_append {k : ClauseText α} {l r : List Char} (hl : Token.Lexes l k.lhs.tokens)
    (hr : Token.Lexes r k.rhs.tokens) : k.Spells (l ++ k.comparison.spelling ++ r) := by
  refine ⟨l, r, rfl, fun c hc => ?_, hl, hr⟩
  rcases List.mem_append.mp hc with hc | hc
  · exact hl.no_comparison c hc
  · exact hr.no_comparison c hc

/-- A text that spells a clause is read if the names in it are coordinates. -/
theorem Clause.parse_of_spells {k : ClauseText α} {text : String} (h : k.Spells text.toList) {hasObject : Bool}
    {lhs rhs : LinearExpr α} (hlhs : k.lhs.Denotes hasObject lhs) (hrhs : k.rhs.Denotes hasObject rhs) :
    Clause.parse text hasObject = .ok ⟨text, k.comparison, lhs, rhs⟩ := by
  obtain ⟨l, r, htext, hsides, hl, hr⟩ := h
  unfold parse
  rw [htext, splitSides?_append hsides]
  exact bind_eq_ok_iff.mpr ⟨lhs, parseSide_ok_iff.mpr ⟨_, hl, hlhs⟩,
    bind_eq_ok_iff.mpr ⟨rhs, parseSide_ok_iff.mpr ⟨_, hr, hrhs⟩, rfl⟩⟩

/-- A text that is read spells a clause, and the names in it are coordinates. -/
theorem Clause.exists_spells_of_parse {text : String} {hasObject : Bool} {c : Clause α}
    (h : Clause.parse text hasObject = .ok c) : ∃ k : ClauseText α, k.Spells text.toList ∧ c.text = text ∧
      c.comparison = k.comparison ∧ k.lhs.Denotes hasObject c.lhs ∧ k.rhs.Denotes hasObject c.rhs := by
  unfold parse at h
  split at h
  · cases h
  · rename_i l symbol comparison r hsplit
    obtain ⟨lhs, hlhs, h⟩ := bind_eq_ok_iff.mp h
    obtain ⟨rhs, hrhs, h⟩ := bind_eq_ok_iff.mp h
    obtain ⟨s, hl, hs⟩ := parseSide_ok_iff.mp hlhs
    obtain ⟨s', hr, hs'⟩ := parseSide_ok_iff.mp hrhs
    have hspells : ClauseText.Spells ⟨s, comparison, s'⟩ text.toList := by
      rw [splitSides?_ok hsplit]
      exact ClauseText.spells_append hl hr
    cases h
    exact ⟨⟨s, comparison, s'⟩, hspells, rfl, rfl, hs, hs'⟩

/-- A clause is read from exactly the texts that spell one, with the comparison and the terms that are written. A text
spells no more than one clause. -/
theorem Clause.parse_ok_iff_spells (text : String) (hasObject : Bool) :
    (∀ k k' : ClauseText α, k.Spells text.toList → k'.Spells text.toList → k = k') ∧
      ∀ c : Clause α, Clause.parse text hasObject = .ok c ↔ ∃ k : ClauseText α, k.Spells text.toList ∧ c.text = text ∧
        c.comparison = k.comparison ∧ k.lhs.Denotes hasObject c.lhs ∧ k.rhs.Denotes hasObject c.rhs := by
  refine ⟨fun k k' h h' => h.unique h', fun c => ⟨exists_spells_of_parse, ?_⟩⟩
  rintro ⟨k, hspells, rfl, hcomparison, hlhs, hrhs⟩
  rw [parse_of_spells hspells hlhs hrhs, ← hcomparison]

end RectLayout
