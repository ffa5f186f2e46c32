import Mathlib.Data.List.TakeWhile
import RectLayout.Clause.Token

/-!
# Lexemes

The rules for the tokens of a clause, as they are written down: a sign or a star is itself, a name is a letter or an
underscore and letters, digits and underscores after it, a number is digits with an optional point and an optional power
of ten (`Token.Lexeme`). `Token.scan?` finds the longest lexeme of any token at the front of a text, if there is one
(`scan?_eq_some_iff`). A character that cannot continue a token ends it (`Lexeme.isLongest`).
-/

namespace RectLayout.Token

/-! ## The rules -/

def Digits (ds : List Char) : Prop := ∀ c ∈ ds, c.isDigit

/-- Digits with an optional point, which has a digit on one side at least, and the number that they write. -/
inductive Mantissa : List Char → Decimal → Prop
  | whole {ds : List Char} : Digits ds → ds ≠ [] → Mantissa ds ⟨Decimal.ofDigits ds, 0⟩
  | point {ds fs : List Char} : Digits ds → Digits fs → ds ≠ [] ∨ fs ≠ [] →
      Mantissa (ds ++ '.' :: fs) ⟨Decimal.ofDigits (ds ++ fs), -fs.length⟩

/-- A power of ten and its exponent. It may be left out; if it is there it has digits, and perhaps a sign. -/
inductive Power : List Char → Int → Prop
  | none : Power [] 0
  | exponent {c : Char} {sign ds : List Char} : c = 'e' ∨ c = 'E' → sign ∈ [[], ['+'], ['-']] → Digits ds → ds ≠ [] →
      Power (c :: sign ++ ds) (if sign = ['-'] then -Decimal.ofDigits ds else Decimal.ofDigits ds)

variable {α : Type} [Scalar α]

/-- The characters that write a token. -/
inductive Lexeme : Token α → List Char → Prop
  | plus : Lexeme .plus ['+']
  | minus : Lexeme .minus ['-']
  | star : Lexeme .star ['*']
  | name {c : Char} {cs : List Char} : c.isAlpha ∨ c = '_' → (∀ d ∈ cs, Keyword.isWordChar d) →
      Lexeme (.name (String.ofList (c :: cs))) (c :: cs)
  | number {m p : List Char} {d : Decimal} {e : Int} : Mantissa m d → Power p e →
      Lexeme (.number (Scalar.ofDecimal { d with exponent := d.exponent + e })) (m ++ p)

/-- A lexeme at the front of a text, and no longer one of any token is there. -/
structure IsLongest (t : Token α) (l cs : List Char) : Prop where
  lexeme : Lexeme t l
  front : l <+: cs
  length_le : ∀ (t' : Token α) (l' : List Char), Lexeme t' l' → l' <+: cs → l'.length ≤ l.length

/-- Characters that may go on a lexeme of the token. -/
def Continues : Token α → Char → Prop
  | .name _, c => Keyword.isWordChar c
  | .number _, c => c.isDigit ∨ c = '.' ∨ c = 'e' ∨ c = 'E'
  | _, _ => False

/-! ## Scanning at least a lexeme -/

theorem takeWhile_cases (q : Char → Bool) (cs : List Char) :
    cs.takeWhile q = [] ∧ cs.dropWhile q = cs ∨ (∃ c ∈ cs.head?, q c) ∧ 0 < (cs.takeWhile q).length := by
  cases cs with
  | nil => exact .inl ⟨rfl, rfl⟩
  | cons c r =>
    cases hc : q c with
    | false => exact .inl ⟨by simp [hc], by simp [hc]⟩
    | true => exact .inr ⟨⟨c, rfl, hc⟩, by simp [hc]⟩

/-- What is scanned at a mantissa is the mantissa or, if digits or a point follow it, something longer. -/
theorem scanMantissa?_append {m : List Char} {d : Decimal} (h : Mantissa m d) (rest : List Char) :
    scanMantissa? (m ++ rest) = some (m, d) ∨ (∃ c ∈ rest.head?, c.isDigit ∨ c = '.') ∧
      ∃ m' d', scanMantissa? (m ++ rest) = some (m', d') ∧ m.length < m'.length := by
  cases h with
  | @whole ds hds hne =>
    have htake : (m ++ rest).takeWhile Char.isDigit = m ++ rest.takeWhile Char.isDigit :=
      List.takeWhile_append_of_pos hds
    have hdrop : (m ++ rest).dropWhile Char.isDigit = rest.dropWhile Char.isDigit := List.dropWhile_append_of_pos hds
    have hempty : ∀ l, (m ++ l).isEmpty = false := by simp [hne]
    simp only [scanMantissa?, htake, hdrop, hempty]
    rcases takeWhile_cases Char.isDigit rest with ⟨hnone, hrest⟩ | ⟨⟨c, hc, hdigit⟩, hpos⟩
    · rw [hnone, hrest, List.append_nil]
      split
      · exact .inr ⟨⟨'.', rfl, .inr rfl⟩, _, _, rfl, by simp⟩
      · exact .inl rfl
    · refine .inr ⟨⟨c, hc, .inl hdigit⟩, ?_⟩
      split
      · exact ⟨_, _, rfl, by simp only [List.length_append]; omega⟩
      · exact ⟨_, _, rfl, by simp only [List.length_append]; omega⟩
  | @point ds fs hds hfs hne =>
    have htake : (ds ++ '.' :: fs ++ rest).takeWhile Char.isDigit = ds := by
      rw [List.append_assoc, List.takeWhile_append_of_pos hds]
      simp
    have hdrop : (ds ++ '.' :: fs ++ rest).dropWhile Char.isDigit = '.' :: (fs ++ rest) := by
      rw [List.append_assoc, List.dropWhile_append_of_pos hds]
      simp
    have htake' : (fs ++ rest).takeWhile Char.isDigit = fs ++ rest.takeWhile Char.isDigit :=
      List.takeWhile_append_of_pos hfs
    have hempty : ∀ l, (ds.isEmpty && (fs ++ l).isEmpty) = false := by
      intro l
      rcases hne with hne | hne <;> simp [hne]
    simp only [scanMantissa?, htake, hdrop, htake', hempty]
    rcases takeWhile_cases Char.isDigit rest with ⟨hnone, -⟩ | ⟨⟨c, hc, hdigit⟩, hpos⟩
    · rw [hnone, List.append_nil]
      exact .inl rfl
    · exact .inr ⟨⟨c, hc, .inl hdigit⟩, _, _, rfl, by simp only [List.length_append, List.length_cons]; omega⟩

/-- A sign is scanned up to the digits after it. -/
theorem scanSigned_append {sign ds : List Char} (hsign : sign ∈ [[], ['+'], ['-']]) (hds : Digits ds) (hne : ds ≠ [])
    (rest : List Char) : scanSigned (sign ++ ds ++ rest) = (sign, ds ++ rest.takeWhile Char.isDigit) := by
  have htake : (ds ++ rest).takeWhile Char.isDigit = ds ++ rest.takeWhile Char.isDigit :=
    List.takeWhile_append_of_pos hds
  rw [← htake, List.append_assoc]
  simp only [List.mem_cons, List.not_mem_nil, or_false] at hsign
  rcases hsign with rfl | rfl | rfl
  · cases ds with
    | nil => exact absurd rfl hne
    | cons k ds =>
      -- the first digit is no sign
      have hk := hds k List.mem_cons_self
      unfold scanSigned
      split
      · rename_i heq
        rw [(List.cons.inj heq).1] at hk
        exact absurd hk (by decide)
      · rename_i heq
        rw [(List.cons.inj heq).1] at hk
        exact absurd hk (by decide)
      · rfl
  · rfl
  · rfl

/-- What is scanned at a power of ten is the power or, if digits or the letter of one follow, something longer. -/
theorem scanExponent_append {p : List Char} {e : Int} (h : Power p e) (rest : List Char) :
    scanExponent (p ++ rest) = (p, e) ∨ (∃ c ∈ rest.head?, c.isDigit ∨ c = 'e' ∨ c = 'E') ∧
      p.length < (scanExponent (p ++ rest)).1.length := by
  cases h with
  | none =>
    cases rest with
    | nil => exact .inl rfl
    | cons c r =>
      simp only [List.nil_append, scanExponent]
      split
      · rename_i hc
        simp only [Bool.and_eq_true, Bool.or_eq_true, beq_iff_eq] at hc
        exact .inr ⟨⟨c, rfl, .inr hc.1⟩, by simp⟩
      · exact .inl rfl
  | @exponent c sign ds hc hsign hds hne =>
    simp only [List.cons_append, scanExponent, scanSigned_append hsign hds hne rest]
    rcases takeWhile_cases Char.isDigit rest with ⟨hnone, -⟩ | ⟨⟨k, hk, hdigit⟩, hpos⟩
    · exact .inl (by simp [hnone, hc, hne])
    · refine .inr ⟨⟨k, hk, .inl hdigit⟩, ?_⟩
      simp [hc, hne]
      omega

/-- Where neither a sign nor a star stands, a name or a number is scanned. -/
theorem scan?_cons {c : Char} (hplus : c ≠ '+') (hminus : c ≠ '-') (hstar : c ≠ '*') (r : List Char) :
    scan? (α := α) (c :: r) =
      if c.isAlpha || c == '_' then
        some (.name (String.ofList (c :: r.takeWhile Keyword.isWordChar)), c :: r.takeWhile Keyword.isWordChar)
      else (scanNumber? (c :: r)).map fun (lexeme, d) => (.number (Scalar.ofDecimal d), lexeme) := by
  unfold scan?
  split
  · contradiction
  · rename_i heq
    exact absurd (List.cons.inj heq).1 hplus
  · rename_i heq
    exact absurd (List.cons.inj heq).1 hminus
  · rename_i heq
    exact absurd (List.cons.inj heq).1 hstar
  · rename_i heq
    cases heq
    rfl

theorem scan?_of_letter {c : Char} (hc : c.isAlpha ∨ c = '_') (r : List Char) : scan? (α := α) (c :: r) =
    some (.name (String.ofList (c :: r.takeWhile Keyword.isWordChar)), c :: r.takeWhile Keyword.isWordChar) := by
  have hne : ∀ k, ¬ (k.isAlpha ∨ k = '_') → c ≠ k := fun k hk hck => hk (hck ▸ hc)
  rw [scan?_cons (hne _ (by decide)) (hne _ (by decide)) (hne _ (by decide)), if_pos (by simpa using hc)]

/-- The codes of letters. -/
theorem isAlpha_iff {c : Char} : c.isAlpha ↔
    65 ≤ c.val.toNat ∧ c.val.toNat ≤ 90 ∨ 97 ≤ c.val.toNat ∧ c.val.toNat ≤ 122 := by
  show (decide (c.val ≥ 'A'.val ∧ c.val ≤ 'Z'.val) || (decide (c.val ≥ 'a'.val) && decide (c.val ≤ 'z'.val))) = true ↔ _
  simp only [ge_iff_le, Bool.or_eq_true, Bool.and_eq_true, decide_eq_true_eq, UInt32.le_iff_toNat_le]
  exact Iff.rfl

/-- The codes of digits. -/
theorem isDigit_iff {c : Char} : c.isDigit ↔ 48 ≤ c.val.toNat ∧ c.val.toNat ≤ 57 := by
  show (decide (c.val ≥ '0'.val) && decide (c.val ≤ '9'.val)) = true ↔ _
  simp only [ge_iff_le, Bool.and_eq_true, decide_eq_true_eq, UInt32.le_iff_toNat_le]
  exact Iff.rfl

theorem not_letter_of_digit {c : Char} (hc : c.isDigit ∨ c = '.') : ¬ (c.isAlpha ∨ c = '_') := by
  rcases hc with hc | rfl
  · rintro (halpha | rfl)
    · rw [isDigit_iff] at hc
      rw [isAlpha_iff] at halpha
      omega
    · exact absurd hc (by decide)
  · decide

theorem scan?_of_digit {c : Char} (hc : c.isDigit ∨ c = '.') (r : List Char) : scan? (α := α) (c :: r) =
    (scanNumber? (c :: r)).map fun (lexeme, d) => (.number (Scalar.ofDecimal d), lexeme) := by
  have hne : ∀ k, ¬ (k.isDigit ∨ k = '.') → c ≠ k := fun k hk hck => hk (hck ▸ hc)
  have hletter := not_letter_of_digit hc
  rw [scan?_cons (hne _ (by decide)) (hne _ (by decide)) (hne _ (by decide)), if_neg (by simpa using hletter)]

theorem Mantissa.exists_cons {m : List Char} {d : Decimal} (h : Mantissa m d) :
    ∃ c r, m = c :: r ∧ (c.isDigit ∨ c = '.') := by
  cases h with
  | whole hds hne =>
    obtain ⟨c, r, rfl⟩ := List.exists_cons_of_ne_nil hne
    exact ⟨c, r, rfl, .inl (hds c List.mem_cons_self)⟩
  | @point ds fs hds =>
    cases ds with
    | nil => exact ⟨'.', fs, rfl, .inr rfl⟩
    | cons c ds => exact ⟨c, ds ++ '.' :: fs, rfl, .inl (hds c List.mem_cons_self)⟩

/-- What is scanned at a lexeme is its token or, if a character follows that may go on the lexeme, something longer. -/
theorem scan?_append {t : Token α} {l : List Char} (h : Lexeme t l) (rest : List Char) :
    scan? (l ++ rest) = some (t, l) ∨ (∃ c ∈ rest.head?, t.Continues c) ∧
      ∃ (t' : Token α) (l' : List Char), scan? (l ++ rest) = some (t', l') ∧ l.length < l'.length := by
  cases h with
  | plus => exact .inl rfl
  | minus => exact .inl rfl
  | star => exact .inl rfl
  | @name c cs hc hcs =>
    have htake : (cs ++ rest).takeWhile Keyword.isWordChar = cs ++ rest.takeWhile Keyword.isWordChar :=
      List.takeWhile_append_of_pos hcs
    rw [List.cons_append, scan?_of_letter hc, htake]
    rcases takeWhile_cases Keyword.isWordChar rest with ⟨hnone, -⟩ | ⟨⟨k, hk, hword⟩, hpos⟩
    · exact .inl (by rw [hnone, List.append_nil])
    · exact .inr ⟨⟨k, hk, hword⟩, _, _, rfl, by simp only [List.length_append, List.length_cons]; omega⟩
  | @number m p d e hm hp =>
    have hscan : scan? (α := α) (m ++ p ++ rest) =
        (scanNumber? (m ++ p ++ rest)).map fun (lexeme, d) => (.number (Scalar.ofDecimal d), lexeme) := by
      obtain ⟨c, r, rfl, hc⟩ := hm.exists_cons
      exact scan?_of_digit hc _
    rw [hscan]
    have hm := scanMantissa?_append hm (p ++ rest)
    rw [← List.append_assoc] at hm
    rcases hm with hm | ⟨⟨c, hc, hcontinues⟩, m', d', hm, hlt⟩
    · have hdrop : (m ++ p ++ rest).drop m.length = p ++ rest := by rw [List.append_assoc, List.drop_left]
      simp only [scanNumber?, hm, Option.map_some, hdrop]
      rcases scanExponent_append hp rest with hp | ⟨⟨c, hc, hcontinues⟩, hlt⟩
      · rw [hp]
        exact .inl rfl
      · refine .inr ⟨⟨c, hc, ?_⟩, _, _, rfl, by simp only [List.length_append]; omega⟩
        rcases hcontinues with hdigit | he
        · exact .inl hdigit
        · exact .inr (.inr he)
    · -- a mantissa ends before the letter of a power, so here the power is left out
      cases hp with
      | none =>
        simp only [List.append_nil] at hm ⊢
        simp only [scanNumber?, hm, Option.map_some]
        refine .inr ⟨⟨c, hc, ?_⟩, _, _, rfl, by simp only [List.length_append]; omega⟩
        rcases hcontinues with hdigit | hpoint
        · exact .inl hdigit
        · exact .inr (.inl hpoint)
      | @exponent k sign ds hk =>
        have hck : c = k := by simpa using hc.symm
        rw [hck] at hcontinues
        rcases hk with rfl | rfl <;> exact absurd hcontinues (by decide)

/-! ## Scanning at most a lexeme -/

theorem takeWhile_digits (cs : List Char) : Digits (cs.takeWhile Char.isDigit) := fun _ hc => List.mem_takeWhile_imp hc

theorem scanMantissa?_sound {cs m : List Char} {d : Decimal} (h : scanMantissa? cs = some (m, d)) :
    Mantissa m d ∧ m <+: cs := by
  have hsplit := List.takeWhile_append_dropWhile (p := Char.isDigit) (l := cs)
  simp only [scanMantissa?] at h
  split at h
  · rename_i r hr
    split at h
    · cases h
    · rename_i hne
      cases h
      have hne : cs.takeWhile Char.isDigit ≠ [] ∨ r.takeWhile Char.isDigit ≠ [] := by
        simpa [imp_iff_not_or] using hne
      refine ⟨.point (takeWhile_digits cs) (takeWhile_digits r) hne, r.dropWhile Char.isDigit, ?_⟩
      rw [List.append_assoc, List.cons_append, List.takeWhile_append_dropWhile, ← hr, hsplit]
  · split at h
    · cases h
    · rename_i hne
      cases h
      exact ⟨.whole (takeWhile_digits cs) (by simpa using hne), _, hsplit⟩

theorem scanExponent_sound (cs : List Char) :
    Power (scanExponent cs).1 (scanExponent cs).2 ∧ (scanExponent cs).1 <+: cs := by
  have hnone : Power [] 0 ∧ [] <+: cs := ⟨.none, List.nil_prefix⟩
  cases cs with
  | nil => exact hnone
  | cons c r =>
    have hsigned : (scanSigned r).1 ∈ [[], ['+'], ['-']] ∧ Digits (scanSigned r).2 ∧
        (scanSigned r).1 ++ (scanSigned r).2 <+: r := by
      unfold scanSigned
      split
      · exact ⟨by simp, takeWhile_digits _, by simp [List.takeWhile_prefix]⟩
      · exact ⟨by simp, takeWhile_digits _, by simp [List.takeWhile_prefix]⟩
      · exact ⟨by simp, takeWhile_digits _, by simp [List.takeWhile_prefix]⟩
    obtain ⟨hsign, hdigits, hfront⟩ := hsigned
    simp only [scanExponent]
    split
    · rename_i hc
      simp only [Bool.and_eq_true, Bool.or_eq_true, beq_iff_eq, Bool.not_eq_true', List.isEmpty_eq_false_iff] at hc
      exact ⟨.exponent hc.1 hsign hdigits hc.2, by simpa using hfront⟩
    · exact hnone

/-- What is scanned is a lexeme at the front of the text. -/
theorem scan?_sound {t : Token α} {l cs : List Char} (h : scan? cs = some (t, l)) : Lexeme t l ∧ l <+: cs := by
  unfold scan? at h
  split at h
  · cases h
  · cases h
    exact ⟨.plus, by simp⟩
  · cases h
    exact ⟨.minus, by simp⟩
  · cases h
    exact ⟨.star, by simp⟩
  · rename_i c r _ _ _
    split at h
    · rename_i hc
      cases h
      refine ⟨.name (by simpa using hc) fun d hd => List.mem_takeWhile_imp hd, ?_⟩
      simp [List.takeWhile_prefix]
    · obtain ⟨⟨l', d⟩, hnumber, h⟩ := Option.map_eq_some_iff.mp h
      obtain ⟨⟨m, d'⟩, hm, hl⟩ := Option.map_eq_some_iff.mp hnumber
      cases h
      cases hl
      obtain ⟨hmantissa, rest, hrest⟩ := scanMantissa?_sound hm
      have hdrop : (c :: r).drop m.length = rest := by rw [← hrest, List.drop_left]
      obtain ⟨hpower, hfront⟩ := scanExponent_sound rest
      rw [hdrop, ← hrest]
      exact ⟨.number hmantissa hpower, (List.prefix_append_right_inj m).mpr hfront⟩

/-! ## The longest lexeme -/

/-- A text is the lexeme of one token only. -/
theorem Lexeme.unique {t t' : Token α} {l : List Char} (h : Lexeme t l) (h' : Lexeme t' l) : t = t' := by
  have hscan : ∀ {t : Token α}, Lexeme t l → scan? l = some (t, l) := by
    intro t h
    have happend := scan?_append h []
    rw [List.append_nil] at happend
    rcases happend with hscan | ⟨⟨c, hc, -⟩, -⟩
    · exact hscan
    · cases hc
  have heq := (hscan h).symm.trans (hscan h')
  exact (Prod.mk.inj (Option.some.inj heq)).1

/-- Scanning finds the longest lexeme. -/
theorem scan?_eq_some_iff {t : Token α} {l cs : List Char} : scan? cs = some (t, l) ↔ IsLongest t l cs := by
  constructor
  · intro h
    obtain ⟨hlexeme, hfront⟩ := scan?_sound h
    refine ⟨hlexeme, hfront, ?_⟩
    rintro t' l' hlexeme' ⟨rest, rfl⟩
    rcases scan?_append hlexeme' rest with hscan | ⟨-, t'', l'', hscan, hlt⟩
    · rw [h] at hscan
      cases hscan
      exact Nat.le_refl _
    · rw [h] at hscan
      cases hscan
      exact Nat.le_of_lt hlt
  · rintro ⟨hlexeme, ⟨rest, rfl⟩, hlongest⟩
    rcases scan?_append hlexeme rest with hscan | ⟨-, t', l', hscan, hlt⟩
    · exact hscan
    · obtain ⟨hlexeme', hfront⟩ := scan?_sound hscan
      have hle := hlongest t' l' hlexeme' hfront
      omega

/-- Scanning fails where no token starts. -/
theorem scan?_eq_none_iff {cs : List Char} :
    scan? (α := α) cs = none ↔ ∀ (t : Token α) (l : List Char), Lexeme t l → ¬ l <+: cs := by
  constructor
  · rintro h t l hlexeme ⟨rest, rfl⟩
    rcases scan?_append hlexeme rest with hscan | ⟨-, t', l', hscan, -⟩
    · rw [h] at hscan
      cases hscan
    · rw [h] at hscan
      cases hscan
  · intro h
    cases hscan : scan? (α := α) cs with
    | none => rfl
    | some p =>
      obtain ⟨hlexeme, hfront⟩ := scan?_sound hscan
      exact absurd hfront (h _ _ hlexeme)

/-- A lexeme is the longest at its place if nothing follows that may go on it. -/
theorem Lexeme.isLongest {t : Token α} {l rest : List Char} (h : Lexeme t l)
    (hrest : ∀ c ∈ rest.head?, ¬ t.Continues c) : IsLongest t l (l ++ rest) := by
  rcases scan?_append h rest with hscan | ⟨⟨c, hc, hcontinues⟩, -⟩
  · exact scan?_eq_some_iff.mp hscan
  · exact absurd hcontinues (hrest c hc)

end RectLayout.Token
