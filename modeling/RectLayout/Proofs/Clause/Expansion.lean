import Mathlib.Data.List.Chain
import Mathlib.Data.List.Infix
import RectLayout.Proofs.Clause.Parsing

/-!
# Keywords in a text

A keyword is replaced where it stands as a whole word. So an expansion is local to the words of a text
(`Keyword.expandFrom_word`), and it passes over numbers, to which no keyword belongs (`Keyword.expandFrom_number`). The
names of coordinates stand for them, and a keyword for a number stands for a coordinate or for the difference of two; no
other name stands for anything (`exists_stands_iff`). A text with such names is expanded to one that has the tokens of their
expansions, unless a keyword stands directly behind a digit, where it is no word (`Token.Lexes.expand`).
-/

namespace RectLayout

namespace Keyword

/-! ## Words -/

theorem mem_table_of_lookup {s e : String} (h : lookup s = some e) : (s, e) ∈ table := by
  obtain ⟨l, r, hsplit, -⟩ := List.lookup_eq_some_iff.mp h
  rw [hsplit]
  simp

theorem replaceWord_nil : replaceWord [] = [] := by decide

theorem expandFrom_of_not_word {c : Char} (hc : ¬ isWordChar c) (word r : List Char) :
    expandFrom word (c :: r) = replaceWord word ++ c :: expandFrom [] r := by
  rw [expandFrom, if_neg hc]

theorem expandFrom_nil : expandFrom [] [] = [] := by rw [expandFrom, replaceWord_nil]

theorem expandFrom_nil_cons {c : Char} (hc : ¬ isWordChar c) (r : List Char) :
    expandFrom [] (c :: r) = c :: expandFrom [] r := by
  rw [expandFrom_of_not_word hc, replaceWord_nil, List.nil_append]

theorem head?_expandFrom {cs : List Char} (h : ∀ c ∈ cs.head?, ¬ isWordChar c) :
    (expandFrom [] cs).head? = cs.head? := by
  cases cs with
  | nil => rw [expandFrom_nil]
  | cons c r => rw [expandFrom_nil_cons (h c rfl), List.head?_cons, List.head?_cons]

/-- A word goes on to the end of `l`, and no further into what follows. -/
structure WordEnds (l rest : List Char) : Prop where
  word : ∀ c ∈ l, isWordChar c
  stop : ∀ c ∈ rest.head?, ¬ isWordChar c

theorem wordEnds_takeWhile (cs : List Char) : WordEnds (cs.takeWhile isWordChar) (cs.dropWhile isWordChar) where
  word _ hc := List.mem_takeWhile_imp hc
  stop c hc := by
    rw [← List.find?_not_eq_head?_dropWhile] at hc
    simpa using List.find?_some hc

theorem WordEnds.takeWhile_eq {l rest : List Char} (h : WordEnds l rest) : (l ++ rest).takeWhile isWordChar = l := by
  rw [List.takeWhile_append_of_pos h.word]
  cases rest with
  | nil => simp
  | cons c r => simp [h.stop c rfl]

/-- A word is replaced where it ends. -/
theorem expandFrom_word {l rest : List Char} (h : WordEnds l rest) (word : List Char) :
    expandFrom word (l ++ rest) = replaceWord (word ++ l) ++ expandFrom [] rest := by
  induction l generalizing word with
  | nil =>
    cases rest with
    | nil => simp [expandFrom, replaceWord_nil]
    | cons c r =>
      have hc := h.stop c rfl
      rw [List.nil_append, List.append_nil, expandFrom_of_not_word hc, expandFrom_nil_cons hc]
  | cons c l ih =>
    have hl : WordEnds l rest := ⟨fun k hk => h.word k (List.mem_cons_of_mem c hk), h.stop⟩
    rw [List.cons_append, expandFrom, if_pos (h.word c List.mem_cons_self), ih hl, List.append_assoc]
    rfl

/-- What stands on the two sides of a character of no word is expanded by itself. -/
theorem expandFrom_append {c : Char} (hc : ¬ isWordChar c) (word l r : List Char) :
    expandFrom word (l ++ c :: r) = expandFrom word l ++ c :: expandFrom [] r := by
  induction l generalizing word with
  | nil => exact expandFrom_of_not_word hc word r
  | cons k l ih =>
    by_cases hk : isWordChar k
    · rw [List.cons_append, expandFrom, if_pos hk, ih, expandFrom, if_pos hk]
    · rw [List.cons_append, expandFrom_of_not_word hk, ih, expandFrom_of_not_word hk, List.append_assoc]
      rfl

/-- What stands on the two sides of a symbol is expanded by itself. -/
theorem expandFrom_around {symbol : List Char} (hne : symbol ≠ []) (hsymbol : ∀ c ∈ symbol, ¬ isWordChar c)
    (l r : List Char) : expandFrom [] (l ++ symbol ++ r) = expandFrom [] l ++ symbol ++ expandFrom [] r := by
  have hafter : ∀ s : List Char, (∀ c ∈ s, ¬ isWordChar c) → expandFrom [] (s ++ r) = s ++ expandFrom [] r := by
    intro s hs
    induction s with
    | nil => rfl
    | cons c s ih =>
      rw [List.cons_append, expandFrom_nil_cons (hs c List.mem_cons_self),
        ih fun k hk => hs k (List.mem_cons_of_mem c hk), List.cons_append]
  obtain ⟨c, s, rfl⟩ := List.exists_cons_of_ne_nil hne
  rw [List.append_assoc, List.cons_append, expandFrom_append (hsymbol c List.mem_cons_self),
    hafter s fun k hk => hsymbol k (List.mem_cons_of_mem c hk), List.append_assoc, List.cons_append]

/-! ## Numbers -/

/-- A word that begins no keyword. -/
def Stuck (word : List Char) : Prop := ∀ l, lookup (String.ofList (word ++ l)) = none

theorem replaceWord_of_lookup {word : List Char} (h : lookup (String.ofList word) = none) : replaceWord word = word := by
  rw [replaceWord, h]

theorem Stuck.append {word : List Char} (h : Stuck word) (l : List Char) : Stuck (word ++ l) := by
  intro r
  rw [List.append_assoc]
  exact h (l ++ r)

theorem exists_of_lookup {word : List Char} (h : lookup (String.ofList word) ≠ none) :
    ∃ p ∈ table, p.1.toList = word := by
  by_contra hno
  refine h (List.lookup_eq_none_iff.mpr fun p hp => bne_iff_ne.mpr fun heq => hno ⟨p, hp, ?_⟩)
  rw [← heq, String.toList_ofList]

/-- No keyword begins with a digit or with the letter of a power of ten. -/
theorem stuck_cons {c : Char} (hc : c.isDigit ∨ c = 'e' ∨ c = 'E') (word : List Char) : Stuck (c :: word) := by
  have htable : ∀ p ∈ table, p.1.toList.head?.all (fun k => !(k.isDigit || k == 'e' || k == 'E')) := by decide
  intro l
  by_contra hne
  obtain ⟨p, hp, heq⟩ := exists_of_lookup hne
  have hhead := htable p hp
  rw [heq] at hhead
  rcases hc with hc | rfl | rfl
  · simp [hc] at hhead
  · simp at hhead
  · simp at hhead

/-- No digit stands in a keyword. -/
theorem lookup_of_digit {d : Char} (hd : d.isDigit) (l r : List Char) :
    lookup (String.ofList (l ++ d :: r)) = none := by
  have htable : ∀ p ∈ table, p.1.toList.all fun c => !c.isDigit := by decide
  by_contra hne
  obtain ⟨p, hp, heq⟩ := exists_of_lookup hne
  have hall := htable p hp
  rw [heq] at hall
  simp [hd] at hall

theorem replaceWord_of_stuck {word : List Char} (h : word = [] ∨ Stuck word) : replaceWord word = word := by
  rcases h with rfl | h
  · exact replaceWord_nil
  · exact replaceWord_of_lookup (by simpa using h [])

/-- A text of digits, letters of powers of ten and characters of no word stays as it is, but for a word at its end that
may go on and begins no keyword. -/
theorem expandFrom_numeral {l : List Char} (hl : ∀ c ∈ l, (c.isDigit ∨ c = 'e' ∨ c = 'E') ∨ ¬ isWordChar c)
    {word : List Char} (hword : word = [] ∨ Stuck word) : ∃ done last, word ++ l = done ++ last ∧
      (last = [] ∨ Stuck last) ∧ ∀ rest, expandFrom word (l ++ rest) = done ++ expandFrom last rest := by
  induction l generalizing word with
  | nil => exact ⟨[], word, List.append_nil word, hword, fun rest => rfl⟩
  | cons c l ih =>
    have hrest : ∀ c ∈ l, (c.isDigit ∨ c = 'e' ∨ c = 'E') ∨ ¬ isWordChar c := fun k hk => hl k (List.mem_cons_of_mem c hk)
    by_cases hc : isWordChar c
    · have hstuck : Stuck (word ++ [c]) := by
        rcases hword with rfl | hword
        · exact stuck_cons ((hl c List.mem_cons_self).resolve_right (not_not.mpr hc)) []
        · exact hword.append [c]
      obtain ⟨done, last, heq, hlast, hexpand⟩ := ih hrest (.inr hstuck)
      refine ⟨done, last, by rw [← heq, List.append_assoc]; rfl, hlast, fun rest => ?_⟩
      rw [List.cons_append, expandFrom, if_pos hc, hexpand]
    · obtain ⟨done, last, heq, hlast, hexpand⟩ := ih hrest (.inl rfl)
      refine ⟨word ++ c :: done, last, ?_, hlast, fun rest => ?_⟩
      · rw [List.nil_append] at heq
        rw [heq, List.append_assoc]
        rfl
      · rw [List.cons_append, expandFrom_of_not_word hc, replaceWord_of_stuck hword, hexpand, List.append_assoc]
        rfl

/-- A number is no part of a keyword: it ends with a point, or the word that goes on behind it is no keyword. -/
theorem expandFrom_number {l : List Char} (hl : ∀ c ∈ l, (c.isDigit ∨ c = 'e' ∨ c = 'E') ∨ ¬ isWordChar c)
    {rest : List Char} (hrest : l.getLast? = some '.' ∨ lookup (String.ofList (rest.takeWhile isWordChar)) = none) :
    expandFrom [] (l ++ rest) = l ++ expandFrom [] rest := by
  rcases hrest with hpoint | hlookup
  · obtain ⟨l, rfl⟩ := List.getLast?_eq_some_iff.mp hpoint
    obtain ⟨done, last, heq, hlast, hexpand⟩ :=
      expandFrom_numeral (fun c hc => hl c (List.mem_append_left _ hc)) (.inl rfl)
    have hnumeral : expandFrom [] l = l := by
      have hexpand := hexpand []
      rw [List.append_nil, expandFrom, replaceWord_of_stuck hlast, ← heq] at hexpand
      exact hexpand
    rw [List.append_assoc, List.singleton_append, expandFrom_append (by decide), hnumeral, List.append_assoc]
    rfl
  · obtain ⟨done, last, heq, hlast, hexpand⟩ := expandFrom_numeral hl (.inl rfl)
    -- the word behind the number, and what stands behind the word
    have hends := wordEnds_takeWhile rest
    have hrest : rest = rest.takeWhile isWordChar ++ rest.dropWhile isWordChar := List.takeWhile_append_dropWhile.symm
    generalize rest.takeWhile isWordChar = n at hlookup hends hrest
    generalize rest.dropWhile isWordChar = r at hends hrest
    have hreplace : replaceWord (last ++ n) = last ++ n := by
      rcases hlast with rfl | hlast
      · exact replaceWord_of_lookup hlookup
      · exact replaceWord_of_lookup (hlast n)
    rw [hexpand, hrest, expandFrom_word hends, expandFrom_word hends, hreplace, List.nil_append,
      replaceWord_of_lookup hlookup, ← List.append_assoc, ← List.append_assoc, ← heq, List.nil_append, List.append_assoc]

/-- A keyword stands directly behind a digit, where it is no word by itself. -/
def Glued (cs : List Char) : Prop :=
  ∃ l d w r, cs = l ++ d :: (w ++ r) ∧ d.isDigit ∧ (lookup (String.ofList w)).isSome ∧ WordEnds w r

theorem glued_iff_tails {cs : List Char} : Glued cs ↔ ∃ t ∈ cs.tails, t.head?.any Char.isDigit ∧
    (lookup (String.ofList (t.tail.takeWhile isWordChar))).isSome := by
  constructor
  · rintro ⟨l, d, w, r, rfl, hd, hkeyword, hends⟩
    refine ⟨d :: (w ++ r), (List.mem_tails _ _).mpr (List.suffix_append l _), hd, ?_⟩
    rw [List.tail_cons, hends.takeWhile_eq]
    exact hkeyword
  · rintro ⟨t, ht, hd, hkeyword⟩
    obtain ⟨l, rfl⟩ := (List.mem_tails _ _).mp ht
    cases t with
    | nil => cases hd
    | cons d t =>
      refine ⟨l, d, t.takeWhile isWordChar, _, ?_, hd, hkeyword, wordEnds_takeWhile t⟩
      rw [List.takeWhile_append_dropWhile]

instance (cs : List Char) : Decidable (Glued cs) := decidable_of_iff _ glued_iff_tails.symm

theorem Glued.append_left {cs : List Char} (h : Glued cs) (l : List Char) : Glued (l ++ cs) := by
  obtain ⟨l', d, w, r, rfl, hglued⟩ := h
  exact ⟨l ++ l', d, w, r, (List.append_assoc l l' _).symm, hglued⟩

theorem lookup_of_not_glued {l r : List Char} {d : Char} (h : ¬ Glued (l ++ d :: r)) (hd : d.isDigit) :
    lookup (String.ofList (r.takeWhile isWordChar)) = none := by
  by_contra hne
  refine h ⟨l, d, _, _, ?_, hd, Option.isSome_iff_ne_none.mpr hne, wordEnds_takeWhile r⟩
  rw [List.takeWhile_append_dropWhile]

/-! ## The parts of an expansion -/

/-- What a word is expanded to: a text, or two texts around a minus sign. -/
def parts (s : String) : String × Option String :=
  match lookup s with
  | none => (s, none)
  | some e =>
    match Clause.splitAt? ['-'] e.toList with
    | none => (e, none)
    | some (u, v) => (String.ofList u, some (String.ofList v))

theorem replaceWord_eq_parts (s : String) :
    replaceWord s.toList = (parts s).1.toList ++ ((parts s).2.map fun v => '-' :: v.toList).getD [] := by
  rw [replaceWord, String.ofList_toList, parts]
  cases lookup s with
  | none => simp
  | some e =>
    simp only
    cases hsplit : Clause.splitAt? ['-'] e.toList with
    | none => simp
    | some p =>
      obtain ⟨u, v⟩ := p
      simpa using Clause.eq_append_of_splitAt? hsplit

end Keyword

/-! ## Readings -/

namespace Coord.IsNamed

variable {c : Coord} {s : String}

/-- The name of a coordinate begins with one of four letters. -/
theorem exists_cons (h : c.IsNamed s) : ∃ k r, s.toList = k :: r ∧ k ∈ ['s', 'o', 'x', 'y'] := by
  obtain ⟨role, axis, corner⟩ := c
  rcases h with h | ⟨-, h⟩
  · exact ⟨_, _, h, by cases role <;> simp [Role.letter]⟩
  · exact ⟨_, _, h, by cases axis <;> simp [Axis.letter]⟩

theorem wordChar (h : c.IsNamed s) : ∀ k ∈ s.toList, Keyword.isWordChar k := by
  obtain ⟨role, axis, corner⟩ := c
  have hrole : Keyword.isWordChar role.letter := by cases role <;> decide
  have haxis : Keyword.isWordChar axis.letter := by cases axis <;> decide
  have hcorner : Keyword.isWordChar corner.digit := by cases corner <;> decide
  rcases h with h | ⟨-, h⟩
  · rw [h]
    simp [hrole, haxis, hcorner]
  · rw [h]
    simp [haxis, hcorner]

theorem lexeme {α : Type} [Scalar α] (h : c.IsNamed s) : Token.Lexeme (.name s : Token α) s.toList := by
  obtain ⟨k, r, hkr, hk⟩ := h.exists_cons
  have hs : s = String.ofList (k :: r) := by rw [← hkr, String.ofList_toList]
  have hletter : k.isAlpha ∨ k = '_' := by
    simp only [List.mem_cons, List.not_mem_nil, or_false] at hk
    rcases hk with rfl | rfl | rfl | rfl <;> decide
  have hword := h.wordChar
  rw [hkr] at hword ⊢
  rw [hs]
  exact .name hletter fun d hd => hword d (List.mem_cons_of_mem k hd)

end Coord.IsNamed

/-- A coordinate, or the difference of two. -/
structure Reading where
  minuend : Coord
  subtrahend : Option Coord
  deriving DecidableEq, Repr

/-- A name stands for the coordinate, or the difference of coordinates, that its expansion names. A name that is no
keyword is its own expansion. -/
structure Stands (s : String) (r : Reading) : Prop where
  minuend : r.minuend.IsNamed (Keyword.parts s).1
  subtrahend : Option.Rel Coord.IsNamed r.subtrahend (Keyword.parts s).2

/-- What a name stands for, if it stands for anything. -/
def Reading.ofName? (s : String) : Option Reading :=
  (Coord.ofName? (Keyword.parts s).1).bind fun u =>
    match (Keyword.parts s).2 with
    | none => some ⟨u, none⟩
    | some v => (Coord.ofName? v).map fun w => ⟨u, some w⟩

theorem Reading.ofName?_eq_some_iff {s : String} {r : Reading} : ofName? s = some r ↔ Stands s r := by
  obtain ⟨minuend, subtrahend⟩ := r
  have hsubtrahend : ∀ v, (∃ w, Coord.ofName? v = some w ∧ some w = subtrahend) ↔
      Option.Rel Coord.IsNamed subtrahend (some v) := by
    intro v
    constructor
    · rintro ⟨w, hw, rfl⟩
      exact .some (Coord.ofName?_eq_some_iff.mp hw)
    · intro h
      cases h with
      | some hw => exact ⟨_, Coord.ofName?_eq_some_iff.mpr hw, rfl⟩
  have hstands : Stands s ⟨minuend, subtrahend⟩ ↔ minuend.IsNamed (Keyword.parts s).1 ∧
      Option.Rel Coord.IsNamed subtrahend (Keyword.parts s).2 := ⟨fun h => ⟨h.1, h.2⟩, fun h => ⟨h.1, h.2⟩⟩
  rw [hstands, ofName?, Option.bind_eq_some_iff, ← Coord.ofName?_eq_some_iff]
  cases (Keyword.parts s).2 with
  | none =>
    constructor
    · rintro ⟨u, hu, h⟩
      cases h
      exact ⟨hu, .none⟩
    · rintro ⟨hu, h⟩
      cases h
      exact ⟨minuend, hu, rfl⟩
  | some v =>
    rw [← hsubtrahend]
    constructor
    · rintro ⟨u, hu, h⟩
      obtain ⟨w, hw, h⟩ := Option.map_eq_some_iff.mp h
      cases h
      exact ⟨hu, w, hw, rfl⟩
    · rintro ⟨hu, w, hw, rfl⟩
      exact ⟨minuend, hu, Option.map_eq_some_iff.mpr ⟨w, hw, rfl⟩⟩

instance (s : String) (r : Reading) : Decidable (Stands s r) := decidable_of_iff _ Reading.ofName?_eq_some_iff

/-- The name of a coordinate stands for it. -/
theorem Stands.of_isNamed {s : String} {c : Coord} (h : c.IsNamed s) : Stands s ⟨c, none⟩ := by
  have hlookup : Keyword.lookup s = none := by
    have hdigit : c.corner.digit.isDigit := by cases c.corner <;> decide
    rcases h with h | ⟨-, h⟩
    · rw [← String.ofList_toList (s := s), h]
      exact Keyword.lookup_of_digit hdigit [_, _] []
    · rw [← String.ofList_toList (s := s), h]
      exact Keyword.lookup_of_digit hdigit [_] []
  have hparts : Keyword.parts s = (s, none) := by rw [Keyword.parts, hlookup]
  refine ⟨?_, ?_⟩ <;> rw [hparts]
  · exact h
  · exact .none

/-- Keywords stand for coordinates or differences of two, save those whose expansions are clauses. -/
theorem Keyword.exists_stands_iff : ∀ p ∈ Keyword.table, (∃ r, Stands p.1 r) ↔ '=' ∉ p.2.toList := by
  have htable : ∀ p ∈ Keyword.table, (Reading.ofName? p.1).isSome ↔ '=' ∉ p.2.toList := by decide +kernel
  intro p hp
  rw [← htable p hp, Option.isSome_iff_exists]
  exact exists_congr fun r => Reading.ofName?_eq_some_iff.symm

/-- The names that stand for something are those of coordinates and the keywords for numbers. -/
theorem exists_stands_iff {s : String} : (∃ r, Stands s r) ↔
    (∃ c : Coord, c.IsNamed s) ∨ ∃ e, Keyword.lookup s = some e ∧ '=' ∉ e.toList := by
  constructor
  · rintro ⟨r, hr⟩
    cases hlookup : Keyword.lookup s with
    | none =>
      have hparts : Keyword.parts s = (s, none) := by rw [Keyword.parts, hlookup]
      exact .inl ⟨r.minuend, by simpa only [hparts] using hr.minuend⟩
    | some e => exact .inr ⟨e, rfl, (Keyword.exists_stands_iff (s, e) (Keyword.mem_table_of_lookup hlookup)).mp ⟨r, hr⟩⟩
  · rintro (⟨c, hc⟩ | ⟨e, hlookup, hequal⟩)
    · exact ⟨⟨c, none⟩, .of_isNamed hc⟩
    · exact (Keyword.exists_stands_iff (s, e) (Keyword.mem_table_of_lookup hlookup)).mpr hequal

/-- The expansion of a name begins with one of four letters. -/
theorem Stands.exists_cons {s : String} {r : Reading} (h : Stands s r) :
    ∃ k l, Keyword.replaceWord s.toList = k :: l ∧ k ∈ ['s', 'o', 'x', 'y'] := by
  obtain ⟨k, l, hkl, hk⟩ := h.minuend.exists_cons
  rw [Keyword.replaceWord_eq_parts, hkl]
  exact ⟨k, _, rfl, hk⟩

/-! ## Expanded tokens -/

section

variable {α : Type}

/-- The tokens that a token is expanded to. -/
def Token.expand : Token α → List (Token α)
  | .name s => .name (Keyword.parts s).1 :: ((Keyword.parts s).2.map fun v => [.minus, .name v]).getD []
  | t => [t]

def Token.isNumber : Token α → Bool
  | .number _ => true
  | _ => false

/-- No two numbers stand side by side. -/
def NumbersApart (ts : List (Token α)) : Prop := ts.IsChain fun t t' => ¬ (t.isNumber ∧ t'.isNumber)

end

variable {α : Type} [Scalar α] {cs : List Char} {ts : List (Token α)}

namespace Token

theorem Lexeme.exists_last {x : α} {l : List Char} (h : Lexeme (.number x) l) :
    ∃ l' c, l = l' ++ [c] ∧ (c.isDigit ∨ c = '.') := by
  have hdigits : ∀ {ds : List Char}, Digits ds → ds ≠ [] → ∃ l' c, ds = l' ++ [c] ∧ c.isDigit := by
    intro ds hds hne
    obtain ⟨l', c, rfl⟩ := (List.eq_nil_or_concat' ds).resolve_left hne
    exact ⟨l', c, rfl, hds c (by simp)⟩
  cases h with
  | @number m p d e hm hp =>
    cases hp with
    | none =>
      rw [List.append_nil]
      cases hm with
      | whole hds hne =>
        obtain ⟨l', c, rfl, hc⟩ := hdigits hds hne
        exact ⟨l', c, rfl, .inl hc⟩
      | @point ds fs hds hfs hne =>
        by_cases hfs' : fs = []
        · exact ⟨ds, '.', by rw [hfs'], .inr rfl⟩
        · obtain ⟨l', c, rfl, hc⟩ := hdigits hfs hfs'
          exact ⟨ds ++ '.' :: l', c, by simp, .inl hc⟩
    | @exponent k sign ds hk hsign hds hne =>
      obtain ⟨l', c, rfl, hc⟩ := hdigits hds hne
      exact ⟨m ++ (k :: sign ++ l'), c, by simp, .inl hc⟩

/-- A name ends where its word does. -/
theorem IsLongest.wordEnds {s : String} {l : List Char} (h : IsLongest (.name s : Token α) l (l ++ cs)) :
    s.toList = l ∧ Keyword.WordEnds l cs := by
  have hlexeme := h.lexeme
  cases hlexeme with
  | @name k l hk hl =>
    refine ⟨String.toList_ofList, List.forall_mem_cons.mpr ⟨?_, hl⟩, fun c hc hword => ?_⟩
    · rcases hk with hk | rfl
      · simp [Keyword.isWordChar, Char.isAlphanum, hk]
      · decide
    · obtain ⟨r, rfl⟩ := List.head?_eq_some_iff.mp hc
      have hlonger : Lexeme (.name (String.ofList (k :: (l ++ [c]))) : Token α) (k :: (l ++ [c])) :=
        .name hk fun d hd => (List.mem_append.mp hd).elim (hl d) fun hd => List.mem_singleton.mp hd ▸ hword
      have hle := h.length_le _ _ hlonger ⟨r, by simp⟩
      simp only [List.length_cons, List.length_append] at hle
      omega

theorem IsLongest.expandFrom_name {s : String} {l : List Char} (h : IsLongest (.name s : Token α) l (l ++ cs)) :
    Keyword.expandFrom [] (l ++ cs) = Keyword.replaceWord s.toList ++ Keyword.expandFrom [] cs := by
  obtain ⟨hs, hends⟩ := h.wordEnds
  rw [Keyword.expandFrom_word hends, List.nil_append, hs]

theorem not_wordChar_of_gap {c : Char} (hc : isGap c) : ¬ Keyword.isWordChar c := by
  intro hword
  rw [not_isGap_of_tokenChar (.inl hword)] at hc
  cases hc

/-- The expansion of a name is read as the tokens that the name is expanded to. -/
theorem Lexes.expand_name {s : String} {r : Reading} (hs : Stands s r) (hcs : ∀ c ∈ cs.head?, ¬ Keyword.isWordChar c)
    (h : Lexes cs ts) : Lexes (Keyword.replaceWord s.toList ++ cs) (Token.expand (.name s) ++ ts) := by
  obtain ⟨minuend, subtrahend⟩ := r
  obtain ⟨hminuend, hsubtrahend⟩ := hs
  rw [Keyword.replaceWord_eq_parts, Token.expand]
  generalize Keyword.parts s = p at hminuend hsubtrahend ⊢
  obtain ⟨u, v⟩ := p
  cases hsubtrahend with
  | none =>
    simp only [Option.map_none, Option.getD_none, List.append_nil, List.singleton_append]
    exact .token (hminuend.lexeme.isLongest hcs) h
  | @some c v hv =>
    simp only [Option.map_some, Option.getD_some, List.append_assoc, List.cons_append, List.nil_append]
    have hright := Lexes.token (hv.lexeme.isLongest hcs) h
    have hlongest : IsLongest (.minus : Token α) ['-'] (['-'] ++ (v.toList ++ cs)) := Lexeme.minus.isLongest fun _ _ => id
    have hminus := Lexes.token hlongest hright
    refine .token (hminuend.lexeme.isLongest fun c hc => ?_) hminus
    cases hc
    exact Bool.false_ne_true

/-- A token that is neither a name nor a number is one character, and nothing goes on it. -/
theorem Lexeme.cases_operator {t : Token α} {l : List Char} (h : Lexeme t l) : (∃ s, t = .name s) ∨
    (∃ x, t = .number x) ∨ ∃ k ∈ ['+', '-', '*'], l = [k] ∧ t.expand = [t] ∧ ∀ c, ¬ t.Continues c := by
  cases h with
  | plus => exact .inr (.inr ⟨'+', by simp, rfl, rfl, fun _ => id⟩)
  | minus => exact .inr (.inr ⟨'-', by simp, rfl, rfl, fun _ => id⟩)
  | star => exact .inr (.inr ⟨'*', by simp, rfl, rfl, fun _ => id⟩)
  | name => exact .inl ⟨_, rfl⟩
  | number => exact .inr (.inl ⟨_, rfl⟩)

theorem not_wordChar_of_operator {k : Char} (hk : k ∈ ['+', '-', '*']) : ¬ Keyword.isWordChar k := by
  simp only [List.mem_cons, List.not_mem_nil, or_false] at hk
  rcases hk with rfl | rfl | rfl <;> decide

/-- What a text that has tokens is expanded to does not go on a number, unless it begins with one. -/
theorem Lexes.not_continues (h : Lexes cs ts) (hnames : ∀ s, .name s ∈ ts → ∃ r, Stands s r)
    (hnumber : ∀ t ∈ ts.head?, ¬ t.isNumber) (x : α) :
    ∀ c ∈ (Keyword.expandFrom [] cs).head?, ¬ (Token.number x).Continues c := by
  intro c hc
  have hfirst : c ∈ ['+', '-', '*'] ++ ['s', 'o', 'x', 'y'] → ¬ (Token.number x).Continues c := by
    simp only [List.cons_append, List.nil_append, List.mem_cons, List.not_mem_nil, or_false]
    rintro (rfl | rfl | rfl | rfl | rfl | rfl | rfl) <;> simp [Continues]
  cases h with
  | nil =>
    rw [Keyword.expandFrom_nil] at hc
    cases hc
  | gap hk =>
    rw [Keyword.expandFrom_nil_cons (not_wordChar_of_gap hk)] at hc
    cases hc
    intro hcontinues
    have hchar : IsTokenChar c := by
      rcases hcontinues with hc | rfl | rfl | rfl
      · exact .inl (by simp [Keyword.isWordChar, Char.isAlphanum, hc])
      · exact .inr (by simp)
      · exact .inl (by decide)
      · exact .inl (by decide)
    rw [not_isGap_of_tokenChar hchar] at hk
    cases hk
  | @token t l cs ts hl =>
    rcases hl.lexeme.cases_operator with ⟨s, rfl⟩ | ⟨y, rfl⟩ | ⟨k, hk, rfl, -, -⟩
    · obtain ⟨r, hr⟩ := hnames s List.mem_cons_self
      obtain ⟨k, l', hkl, hk⟩ := hr.exists_cons
      rw [hl.expandFrom_name, hkl] at hc
      cases hc
      exact hfirst (List.mem_append_right _ hk)
    · exact absurd rfl (hnumber _ rfl)
    · rw [List.singleton_append, Keyword.expandFrom_nil_cons (not_wordChar_of_operator hk)] at hc
      cases hc
      exact hfirst (List.mem_append_left _ hk)

theorem IsLongest.expandFrom_number {x : α} {l : List Char} (h : IsLongest (.number x) l (l ++ cs))
    (hglued : ¬ Keyword.Glued (l ++ cs)) : Keyword.expandFrom [] (l ++ cs) = l ++ Keyword.expandFrom [] cs := by
  refine Keyword.expandFrom_number (fun c hc => ?_) ?_
  · refine (h.lexeme.numeralChar c hc).imp_right fun hc => ?_
    simp only [List.mem_cons, List.not_mem_nil, or_false] at hc
    rcases hc with rfl | rfl | rfl <;> decide
  · obtain ⟨l', c, rfl, hc | rfl⟩ := h.lexeme.exists_last
    · rw [List.append_assoc] at hglued
      exact .inr (Keyword.lookup_of_not_glued hglued hc)
    · exact .inl (by simp)

/-- A text that has tokens is expanded to one that has the tokens of the expansions. -/
theorem Lexes.expand (h : Lexes cs ts) (hnames : ∀ s, .name s ∈ ts → ∃ r, Stands s r) (hapart : NumbersApart ts)
    (hglued : ¬ Keyword.Glued cs) : Lexes (Keyword.expandFrom [] cs) (ts.flatMap Token.expand) := by
  induction h with
  | nil =>
    rw [Keyword.expandFrom_nil]
    exact .nil
  | @gap c cs ts hc _ ih =>
    rw [Keyword.expandFrom_nil_cons (not_wordChar_of_gap hc)]
    exact .gap hc (ih hnames hapart fun h => hglued (h.append_left [c]))
  | @token t l cs ts hl hrest ih =>
    have hnames' : ∀ s, .name s ∈ ts → ∃ r, Stands s r := fun s hs => hnames s (List.mem_cons_of_mem t hs)
    have hlexes := ih hnames' hapart.of_cons fun h => hglued (h.append_left l)
    rw [List.flatMap_cons]
    -- in each case the lexemes are still the longest, as what follows them cannot go on them
    rcases hl.lexeme.cases_operator with ⟨s, rfl⟩ | ⟨x, rfl⟩ | ⟨k, hk, rfl, hexpand, hstop⟩
    · obtain ⟨r, hr⟩ := hnames s List.mem_cons_self
      rw [hl.expandFrom_name]
      refine hlexes.expand_name hr ?_
      rw [Keyword.head?_expandFrom hl.wordEnds.2.stop]
      exact hl.wordEnds.2.stop
    · rw [hl.expandFrom_number hglued]
      have hnumber : ∀ t ∈ ts.head?, ¬ t.isNumber := by
        intro t ht
        obtain ⟨ts', rfl⟩ := List.head?_eq_some_iff.mp ht
        simpa [isNumber] using (List.isChain_cons_cons.mp hapart).1
      exact .token (hl.lexeme.isLongest (hrest.not_continues hnames' hnumber x)) hlexes
    · rw [List.singleton_append, Keyword.expandFrom_nil_cons (not_wordChar_of_operator hk), hexpand]
      exact .token (l := [k]) (hl.lexeme.isLongest fun c _ => hstop c) hlexes

end Token

end RectLayout
