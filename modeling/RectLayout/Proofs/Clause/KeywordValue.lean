import RectLayout.Proofs.Clause.Meaning
import RectLayout.Proofs.Clause.GluedKeyword

/-!
# The values of keywords

A keyword for a number is expanded to a coordinate or to the difference of two. The expansion of a sum is a sum again
(`SumText.tokens_expand`), in which a coefficient or a sign in front of a keyword belongs to the first coordinate only
(`SumText.expr`). Every sum about coordinates and keywords for numbers has a reading (`SumText.readAs_ofName_iff`). So a
clause with keywords is read as what its text becomes, and as a clause about the values of its keywords if nothing stands
in front of a difference (`Clause.relation_iff_of_spells`).
-/

namespace RectLayout

/-! ## Expanded sums -/

section

variable {α : Type}

/-- The first summand of the expansion. It keeps the coefficient. -/
def Summand.expandFirst : Summand α → Summand α
  | .number x => .number x
  | .multiple x star s => .multiple x star (Keyword.parts s).1
  | .name s => .name (Keyword.parts s).1

/-- What the expansion takes away behind its first summand. -/
def Summand.expandRest (t : Summand α) : List (Sign × Summand α) :=
  (t.name?.bind fun s => (Keyword.parts s).2).toList.map fun v => (.minus, .name v)

/-- A sum with the expansions of its names. -/
def SumText.expand (s : SumText α) : SumText α where
  sign := s.sign
  first := s.first.expandFirst
  rest := s.first.expandRest ++ s.rest.flatMap fun r => (r.1, r.2.expandFirst) :: r.2.expandRest

theorem signedTokens_append (r r' : List (Sign × Summand α)) :
    signedTokens (r ++ r') = signedTokens r ++ signedTokens r' := List.flatMap_append

theorem Summand.tokens_expand (t : Summand α) :
    t.tokens.flatMap Token.expand = t.expandFirst.tokens ++ signedTokens t.expandRest := by
  have hname : ∀ s : String, Token.expand (.name s : Token α) = .name (Keyword.parts s).1 ::
      signedTokens ((Keyword.parts s).2.toList.map fun v => (.minus, .name v)) := by
    intro s
    rw [Token.expand]
    cases (Keyword.parts s).2 <;> rfl
  cases t with
  | number x => rfl
  | multiple x star s =>
    have hnumber : Token.expand (.number x) = [.number x] := rfl
    have hstar : Token.expand (.star : Token α) = [.star] := rfl
    cases star <;> simp [tokens, hnumber, hstar, hname, expandFirst, expandRest, name?]
  | name s => simp [tokens, hname, expandFirst, expandRest, name?]

theorem Sign.token_expand (s : Sign) : (s.token : Token α).expand = [s.token] := by cases s <;> rfl

/-- A sum is expanded to the tokens of a sum. -/
theorem SumText.tokens_expand (s : SumText α) : s.expand.tokens = s.tokens.flatMap Token.expand := by
  obtain ⟨sign, first, rest⟩ := s
  have hsign : (sign.map Sign.token).toList.flatMap (Token.expand (α := α)) = (sign.map Sign.token).toList := by
    cases sign with
    | none => rfl
    | some s => simp [Sign.token_expand]
  have hrest : (signedTokens rest).flatMap Token.expand =
      signedTokens (rest.flatMap fun r => (r.1, r.2.expandFirst) :: r.2.expandRest) := by
    induction rest with
    | nil => rfl
    | cons r rest ih =>
      rw [signedTokens_cons, List.flatMap_cons, List.flatMap_append, Sign.token_expand, Summand.tokens_expand, ih,
        List.flatMap_cons, signedTokens_append, signedTokens_cons]
      simp
  simp only [tokens, expand, List.flatMap_append, hsign, Summand.tokens_expand, hrest, signedTokens_append,
    List.append_assoc]

/-! ## No two numbers stand side by side -/

theorem numbersApart_cons {t : Token α} {ts : List (Token α)} (h : NumbersApart ts)
    (ht : ∀ u ∈ ts.head?, ¬ (t.isNumber ∧ u.isNumber)) : NumbersApart (t :: ts) := List.isChain_cons.mpr ⟨ht, h⟩

theorem Sign.not_isNumber (s : Sign) : ¬ (s.token : Token α).isNumber := by cases s <;> exact Bool.false_ne_true

/-- Behind a summand stands no number. -/
theorem numbersApart_tokens_append (t : Summand α) {rest : List (Sign × Summand α)}
    (h : NumbersApart (signedTokens rest)) : NumbersApart (t.tokens ++ signedTokens rest) := by
  have hrest : ∀ u ∈ (signedTokens rest).head?, ¬ u.isNumber := by
    intro u hu
    rcases signedTokens_cases rest with hnil | ⟨s, ts, hsign⟩
    · rw [hnil] at hu
      cases hu
    · rw [hsign] at hu
      cases hu
      exact s.not_isNumber
  have hname : ∀ s, NumbersApart (.name s :: signedTokens rest) := fun s =>
    numbersApart_cons h fun u _ hnumber => Bool.false_ne_true hnumber.1
  cases t with
  | number x => exact numbersApart_cons h fun u hu hnumber => hrest u hu hnumber.2
  | multiple x star s =>
    cases star with
    | false =>
      refine numbersApart_cons (hname s) fun u hu hnumber => ?_
      cases hu
      exact Bool.false_ne_true hnumber.2
    | true =>
      have hstar : NumbersApart (.star :: .name s :: signedTokens rest) :=
        numbersApart_cons (hname s) fun u _ hnumber => Bool.false_ne_true hnumber.1
      refine numbersApart_cons hstar fun u hu hnumber => ?_
      cases hu
      exact Bool.false_ne_true hnumber.2
  | name s => exact hname s

/-- No two numbers stand side by side in a sum. -/
theorem SumText.numbersApart (s : SumText α) : NumbersApart s.tokens := by
  have hsigned : ∀ rest : List (Sign × Summand α), NumbersApart (signedTokens rest) := by
    intro rest
    induction rest with
    | nil => exact .nil
    | cons r rest ih =>
      rw [signedTokens_cons]
      exact numbersApart_cons (numbersApart_tokens_append r.2 ih) fun u _ hnumber => r.1.not_isNumber hnumber.1
  obtain ⟨sign, first, rest⟩ := s
  have hsum := numbersApart_tokens_append first (hsigned rest)
  rw [tokens, List.append_assoc]
  cases sign with
  | none => exact hsum
  | some sign => exact numbersApart_cons hsum fun u _ hnumber => sign.not_isNumber hnumber.1

end

/-! ## Expanded terms -/

section

variable {α : Type} [Scalar α]

/-- What a name is read as. A name that stands for nothing is read as some coordinate. -/
def Reading.ofName (n : String) : Reading := (Reading.ofName? n).getD ⟨⟨.subject, .x, .min⟩, none⟩

/-- The coordinates in a reading. -/
def Reading.coords (r : Reading) : List Coord := r.minuend :: r.subtrahend.toList

/-- The names in a sum stand for what they are read as, and these readings need no object if there is none. -/
def SumText.ReadAs (reading : String → Reading) (hasObject : Bool) (s : SumText α) : Prop :=
  ∀ n ∈ s.names, Stands n (reading n) ∧ ∀ c ∈ (reading n).coords, c.role = .object → hasObject

/-- The terms of a summand behind a sign when its name is expanded. Coefficient and sign belong to the first. -/
def Summand.terms (reading : String → Reading) (p : α × Summand α) : List (Term α) :=
  match p.2.name? with
  | none => [⟨p.2.coefficient * p.1, none⟩]
  | some n => ⟨p.2.coefficient * p.1, (reading n).minuend⟩ ::
      (reading n).subtrahend.toList.map fun c => ⟨1 * -1, some c⟩

/-- The terms of a sum when its names are expanded. -/
def SumText.expr (reading : String → Reading) (s : SumText α) : LinearExpr α :=
  ⟨s.summands.flatMap (Summand.terms reading)⟩

variable {reading : String → Reading} {hasObject : Bool}

instance (s : SumText α) : Decidable (s.ReadAs reading hasObject) := inferInstanceAs (Decidable (∀ n ∈ s.names, _))

theorem Reading.stands_ofName_iff {n : String} : Stands n (ofName n) ↔ ∃ r, Stands n r := by
  refine ⟨fun h => ⟨_, h⟩, ?_⟩
  rintro ⟨r, hr⟩
  rwa [ofName, ofName?_eq_some_iff.mpr hr, Option.getD_some]

omit [Scalar α] in
/-- A sum can be read if its names are those of coordinates and keywords for numbers, and none of them needs an object
that there is not. -/
theorem SumText.readAs_ofName_iff {s : SumText α} : s.ReadAs Reading.ofName hasObject ↔
    ∀ n ∈ s.names, ((∃ c : Coord, c.IsNamed n) ∨ ∃ e, Keyword.lookup n = some e ∧ '=' ∉ e.toList) ∧
      ∀ c ∈ (Reading.ofName n).coords, c.role = .object → hasObject := by
  refine forall₂_congr fun n _ => and_congr_left fun _ => ?_
  rw [Reading.stands_ofName_iff, exists_stands_iff]

theorem SumText.summands_expand (s : SumText α) : s.expand.summands =
    s.summands.flatMap fun p => (p.1, p.2.expandFirst) :: p.2.expandRest.map fun r => (r.1.factor, r.2) := by
  simp [summands, expand, List.flatMap_map, List.map_flatMap]

/-- The expansion of a summand stands for its terms. -/
theorem Summand.denotes_terms {p : α × Summand α}
    (h : ∀ n, p.2.name? = some n → Stands n (reading n) ∧ ∀ c ∈ (reading n).coords, c.role = .object → hasObject) :
    List.Forall₂ (fun s t => s.2.Denotes hasObject s.1 t)
      ((p.1, p.2.expandFirst) :: p.2.expandRest.map fun r => (r.1.factor, r.2)) (Summand.terms reading p) := by
  obtain ⟨factor, t⟩ := p
  have hcoefficient : t.expandFirst.coefficient = t.coefficient := by cases t <;> rfl
  have hname : t.expandFirst.name? = t.name?.map fun s => (Keyword.parts s).1 := by cases t <;> rfl
  simp only [terms, expandRest]
  cases hn : t.name? with
  | none =>
    rw [hn] at hname
    exact .cons ⟨by rw [hcoefficient], hname ▸ .number⟩ .nil
  | some n =>
    rw [hn] at hname
    obtain ⟨hstands, hobject⟩ := h n hn
    refine .cons ⟨by rw [hcoefficient], hname ▸ .coord hstands.minuend (hobject _ List.mem_cons_self)⟩ ?_
    have hsubtrahend := hstands.subtrahend
    have hobject : ∀ c ∈ (reading n).subtrahend, c.role = .object → hasObject := fun c hc =>
      hobject c (List.mem_cons_of_mem _ (Option.mem_toList.mpr hc))
    rw [Option.bind_some]
    generalize (reading n).subtrahend = c at hsubtrahend hobject ⊢
    generalize (Keyword.parts n).2 = v at hsubtrahend ⊢
    cases hsubtrahend with
    | none => exact .nil
    | some hnamed => exact .cons ⟨rfl, .coord hnamed (hobject _ rfl)⟩ .nil

/-- The expansion of a sum stands for its terms. -/
theorem SumText.ReadAs.denotes {s : SumText α} (h : s.ReadAs reading hasObject) :
    s.expand.Denotes hasObject (s.expr reading) := by
  have hsame : List.Forall₂ (fun p q => p = q ∧ p ∈ s.summands) s.summands s.summands :=
    List.forall₂_same.mpr fun p hp => ⟨rfl, hp⟩
  rw [Denotes, summands_expand]
  refine List.rel_flatMap hsame ?_
  rintro p _ ⟨rfl, hp⟩
  exact Summand.denotes_terms fun n hn => h n (mem_names_iff.mpr ⟨p, hp, hn⟩)

end

/-! ## Values -/

section

variable (reading : String → Reading) (boxes : Role → Box Rat)

def Coord.valueIn (c : Coord) : Rat := (boxes c.role).get c.axis c.corner

/-- What a reading takes away from its first coordinate. -/
def Reading.taken (r : Reading) : Rat := (r.subtrahend.map (Coord.valueIn boxes)).getD 0

/-- The number that a reading stands for. -/
def Reading.value (r : Reading) : Rat := r.minuend.valueIn boxes - r.taken boxes

/-- The value of a summand behind a sign: coefficient and sign apply to the whole of what its name stands for. -/
def Summand.value (p : Rat × Summand Rat) : Rat :=
  match p.2.name? with
  | none => p.2.coefficient * p.1
  | some n => p.2.coefficient * p.1 * (reading n).value boxes

/-- The value of a summand behind a sign as its text is read: coefficient and sign apply to the first coordinate. -/
def Summand.textValue (p : Rat × Summand Rat) : Rat :=
  match p.2.name? with
  | none => p.2.coefficient * p.1
  | some n => p.2.coefficient * p.1 * (reading n).minuend.valueIn boxes - (reading n).taken boxes

def SumText.value (s : SumText Rat) : Rat := (s.summands.map (Summand.value reading boxes)).sum

def SumText.textValue (s : SumText Rat) : Rat := (s.summands.map (Summand.textValue reading boxes)).sum

/-- Nothing but a plus sign or a coefficient of 1 stands in front of a name that is read as a difference. -/
def SumText.Plain (s : SumText Rat) : Prop :=
  ∀ p ∈ s.summands, ∀ n ∈ p.2.name?, (reading n).subtrahend.isSome → p.2.coefficient * p.1 = 1

instance (s : SumText Rat) : Decidable (s.Plain reading) := inferInstanceAs (Decidable (∀ p ∈ s.summands, _))

variable {reading}

theorem Summand.value_terms (p : Rat × Summand Rat) :
    LinearExpr.value? (fun r => some (boxes r)) ⟨Summand.terms reading p⟩ = some (Summand.textValue reading boxes p) := by
  have hnone : LinearExpr.value? (fun r => some (boxes r)) ⟨[]⟩ = some 0 := rfl
  unfold terms textValue
  split
  · exact LinearExpr.value?_cons_eq_some.mpr ⟨_, 0, rfl, hnone, add_zero _⟩
  · rename_i n _
    refine LinearExpr.value?_cons_eq_some.mpr ⟨_, -(reading n).taken boxes, rfl, ?_, (sub_eq_add_neg _ _).symm⟩
    cases hc : (reading n).subtrahend with
    | none =>
      rw [Reading.taken, hc]
      exact hnone
    | some c =>
      rw [Reading.taken, hc]
      refine LinearExpr.value?_cons_eq_some.mpr ⟨_, 0, rfl, hnone, ?_⟩
      simp [Coord.valueIn]

/-- The terms of an expanded sum have the value that its text is read with. -/
theorem SumText.value_expr (s : SumText Rat) :
    (s.expr reading).value? (fun r => some (boxes r)) = some (s.textValue reading boxes) := by
  rw [expr, textValue]
  induction s.summands with
  | nil => rfl
  | cons p ps ih =>
    rw [List.flatMap_cons, List.map_cons, List.sum_cons]
    exact LinearExpr.value_append (Summand.value_terms boxes p) ih

/-- Where nothing stands in front of a difference, a sum is read with the values of its names. -/
theorem SumText.Plain.textValue_eq {s : SumText Rat} (h : s.Plain reading) :
    s.textValue reading boxes = s.value reading boxes := by
  rw [textValue, value]
  congr 1
  refine List.map_congr_left fun p hp => ?_
  unfold Summand.textValue Summand.value
  split
  · rfl
  · rename_i n hn
    unfold Reading.value Reading.taken
    cases hc : (reading n).subtrahend with
    | none => simp
    | some c =>
      rw [h p hp n hn (by rw [hc]; rfl)]
      ring

end

/-! ## Clauses with keywords -/

/-- A clause with the expansions of its names. -/
def ClauseText.expand {α : Type} (k : ClauseText α) : ClauseText α := ⟨k.lhs.expand, k.comparison, k.rhs.expand⟩

/-- A text that spells a clause is expanded to one that spells the expanded clause. -/
theorem ClauseText.Spells.expand {α : Type} [Scalar α] {k : ClauseText α} {cs : List Char} (h : k.Spells cs)
    (hnames : ∀ n ∈ k.lhs.names ++ k.rhs.names, ∃ r, Stands n r) (hglued : ¬ Keyword.Glued cs) :
    k.expand.Spells (Keyword.expandFrom [] cs) := by
  obtain ⟨l, r, rfl, -, hl, hr⟩ := h
  have hne := k.comparison.spelling_ne_nil
  have hsymbol := k.comparison.not_wordChar_spelling
  rw [Keyword.glued_around_iff hne hsymbol, not_or] at hglued
  have hlhs := hl.expand (fun s hs => hnames s (List.mem_append_left _ (SumText.mem_names_of_mem_tokens hs)))
    k.lhs.numbersApart hglued.1
  have hrhs := hr.expand (fun s hs => hnames s (List.mem_append_right _ (SumText.mem_names_of_mem_tokens hs)))
    k.rhs.numbersApart hglued.2
  rw [← SumText.tokens_expand] at hlhs hrhs
  rw [Keyword.expandFrom_around hne hsymbol]
  exact spells_append hlhs hrhs

/-- A text that spells a clause about coordinates and keywords is refused if a keyword stands directly behind a digit.
Otherwise it is read as one clause, which compares the values that the two sides have when coefficients and signs apply
to the first coordinate of a difference only. If none stands in front of a difference, these are the values that the
sides have when each name is read as a number. -/
theorem Clause.relation_iff_of_spells (text : String) (hasObject : Bool) (k : ClauseText Rat)
    (reading : String → Reading) (hspells : k.Spells text.toList) (hlhs : k.lhs.ReadAs reading hasObject)
    (hrhs : k.rhs.ReadAs reading hasObject) :
    (Keyword.Glued text.toList → ∃ e, Clause.parseAll (α := Rat) text hasObject = .error e) ∧
    (¬ Keyword.Glued text.toList →
      ∃ c : Clause Rat, Clause.parseAll text hasObject = .ok [c] ∧ ∀ boxes : Role → Box Rat,
      (c.relation.HoldsWithin 0 (fun r => some (boxes r)) ↔
        k.comparison.HoldsWithin 0 (k.lhs.textValue reading boxes) (k.rhs.textValue reading boxes)) ∧
      (k.lhs.Plain reading → k.rhs.Plain reading → (c.relation.HoldsWithin 0 (fun r => some (boxes r)) ↔
        k.comparison.HoldsWithin 0 (k.lhs.value reading boxes) (k.rhs.value reading boxes)))) := by
  refine ⟨fun hglued => parseAll_of_glued hglued hasObject, fun hglued => ?_⟩
  have hnames : ∀ n ∈ k.lhs.names ++ k.rhs.names, ∃ r, Stands n r := by
    intro n hn
    rcases List.mem_append.mp hn with hn | hn
    · exact ⟨_, (hlhs n hn).1⟩
    · exact ⟨_, (hrhs n hn).1⟩
  refine ⟨_, parseAll_of_spells (hspells.expand hnames hglued) hlhs.denotes hrhs.denotes, fun boxes => ?_⟩
  generalize String.ofList (Text.trim (Keyword.expandFrom [] text.toList)) = expanded
  have hl : (k.lhs.expr reading).value? (fun r => some (boxes r)) = some (k.lhs.textValue reading boxes) :=
    k.lhs.value_expr boxes
  have hr : (k.rhs.expr reading).value? (fun r => some (boxes r)) = some (k.rhs.textValue reading boxes) :=
    k.rhs.value_expr boxes
  have hholds : (Clause.mk expanded k.comparison (k.lhs.expr reading) (k.rhs.expr reading)).HoldsWithin 0
      (fun r => some (boxes r)) ↔
        k.comparison.HoldsWithin 0 (k.lhs.textValue reading boxes) (k.rhs.textValue reading boxes) := by
    simp [HoldsWithin, hl, hr]
  have htext := (holdsWithin_relation_iff hl hr).trans hholds
  refine ⟨htext, fun hplainl hplainr => ?_⟩
  rw [← hplainl.textValue_eq, ← hplainr.textValue_eq]
  exact htext

/-- A coefficient in front of a width stays with the right edge, a width by itself is a number, and a width directly
behind a digit is refused. -/
theorem Clause.relation_iff_of_spells_widths :
    (∃ c : Clause Rat, Clause.parseAll "width <= 2*owidth + 1.5 ox" true = .ok [c] ∧ ∀ s o : Box Rat,
      (c.relation.HoldsWithin 0 (fun r => some (match r with | .subject => s | .object => o)) ↔
        s.x2 - s.x1 ≤ 2 * o.x2 - o.x1 + 3 / 2 * o.x1)) ∧
    (∃ c : Clause Rat, Clause.parseAll "width <= owidth + 1.5 ox" true = .ok [c] ∧ ∀ s o : Box Rat,
      (c.relation.HoldsWithin 0 (fun r => some (match r with | .subject => s | .object => o)) ↔
        s.x2 - s.x1 ≤ o.x2 - o.x1 + 3 / 2 * o.x1)) ∧
    ∃ e, Clause.parseAll (α := Rat) "width <= 2owidth" true = .error e := by
  have hscaled : ClauseText.Spells (α := Rat) ⟨⟨none, .name "width", []⟩, .lessOrEqual,
      ⟨none, .multiple 2 true "owidth", [(.plus, .multiple (3 / 2) false "ox")]⟩⟩ "width <= 2*owidth + 1.5 ox".toList :=
    ClauseText.spells_append (l := "width ".toList) (r := " 2*owidth + 1.5 ox".toList) (by decide +kernel)
      (by decide +kernel)
  have hplain : ClauseText.Spells (α := Rat) ⟨⟨none, .name "width", []⟩, .lessOrEqual,
      ⟨none, .name "owidth", [(.plus, .multiple (3 / 2) false "ox")]⟩⟩ "width <= owidth + 1.5 ox".toList :=
    ClauseText.spells_append (l := "width ".toList) (r := " owidth + 1.5 ox".toList) (by decide +kernel)
      (by decide +kernel)
  have hglued : ClauseText.Spells (α := Rat) ⟨⟨none, .name "width", []⟩, .lessOrEqual,
      ⟨none, .multiple 2 false "owidth", []⟩⟩ "width <= 2owidth".toList :=
    ClauseText.spells_append (l := "width ".toList) (r := " 2owidth".toList) (by decide +kernel) (by decide +kernel)
  have hwidth : Reading.ofName "width" = ⟨⟨.subject, .x, .max⟩, some ⟨.subject, .x, .min⟩⟩ := by decide +kernel
  have howidth : Reading.ofName "owidth" = ⟨⟨.object, .x, .max⟩, some ⟨.object, .x, .min⟩⟩ := by decide +kernel
  have hox : Reading.ofName "ox" = ⟨⟨.object, .x, .min⟩, none⟩ := by decide +kernel
  obtain ⟨c, hc, hholds⟩ := (relation_iff_of_spells _ true _ Reading.ofName hscaled (by decide +kernel)
    (by decide +kernel)).2 (by decide)
  obtain ⟨c', hc', hholds'⟩ := (relation_iff_of_spells _ true _ Reading.ofName hplain (by decide +kernel)
    (by decide +kernel)).2 (by decide)
  refine ⟨⟨c, hc, fun s o => (hholds _).1.trans ?_⟩, ⟨c', hc', fun s o => ((hholds' _).2 ?_ ?_).trans ?_⟩, ?_⟩
  · simp [SumText.textValue, SumText.summands, Summand.textValue, Summand.name?, Summand.coefficient, Sign.factor, hwidth,
      howidth, hox, Reading.taken, Coord.valueIn, Box.get, Comparison.HoldsWithin]
  · decide +kernel
  · decide +kernel
  · simp [SumText.value, SumText.summands, Summand.value, Summand.name?, Summand.coefficient, Sign.factor, hwidth,
      howidth, hox, Reading.value, Reading.taken, Coord.valueIn, Box.get, Comparison.HoldsWithin]
  · exact (relation_iff_of_spells _ true _ Reading.ofName hglued (by decide +kernel) (by decide +kernel)).1 (by decide)

/-- A coefficient in front of a width does not apply to the whole of it. -/
theorem Clause.not_relation_iff_of_spells : ¬ ∀ (text : String) (k : ClauseText Rat) (reading : String → Reading),
    k.Spells text.toList → k.lhs.ReadAs reading true → k.rhs.ReadAs reading true →
    ∃ c : Clause Rat, Clause.parseAll text true = .ok [c] ∧ ∀ boxes : Role → Box Rat,
      (c.relation.HoldsWithin 0 (fun r => some (boxes r)) ↔
        k.comparison.HoldsWithin 0 (k.lhs.value reading boxes) (k.rhs.value reading boxes)) := by
  intro h
  have hspells : ClauseText.Spells (α := Rat) ⟨⟨none, .name "width", []⟩, .greaterOrEqual,
      ⟨none, .multiple 2 true "owidth", []⟩⟩ "width>=2*owidth".toList :=
    ClauseText.spells_append (l := "width".toList) (r := "2*owidth".toList) (by decide +kernel) (by decide +kernel)
  have hparse : Clause.parseAll (α := Rat) "width>=2*owidth" true = .ok [⟨"x2-x1>=2*ox2-ox1", .greaterOrEqual,
      ⟨[⟨1, some ⟨.subject, .x, .max⟩⟩, ⟨-1, some ⟨.subject, .x, .min⟩⟩]⟩,
      ⟨[⟨2, some ⟨.object, .x, .max⟩⟩, ⟨-1, some ⟨.object, .x, .min⟩⟩]⟩⟩] := by decide +kernel
  obtain ⟨c, hc, hiff⟩ := h _ _ Reading.ofName hspells (by decide +kernel) (by decide +kernel)
  obtain rfl := (List.cons.inj (Except.ok.inj (hparse.symm.trans hc))).1
  -- the subject is 5 wide, the object is 2 wide and stands at 10
  have hwide := (hiff fun r => if r = .subject then ⟨0, 0, 5, 1⟩ else ⟨10, 0, 12, 1⟩).mpr (by decide +kernel)
  obtain ⟨v, hv, hle⟩ := hwide
  obtain rfl : -9 = v := Option.some.inj (hv ▸ by decide +kernel)
  exact absurd hle (by decide +kernel)

end RectLayout
