import Mathlib.Data.List.Forall2
import RectLayout.Clause.Parser
import RectLayout.Proofs.Clause.Lexing

/-!
# The grammar of sums

A sum is `[sign] summand (sign summand)*`, where a summand is `number [[*] name]` or a name (`SumText`). A list of
tokens is written as one sum at most (`SumText.tokens_injective`), and `RawTerm.readSum` finds its terms in their order
exactly if there is one (`readSum_ok_iff`).
-/

namespace RectLayout

/-! ## Sums as they are written -/

inductive Sign where
  | plus
  | minus
  deriving DecidableEq, Repr

/-- A summand as it is written: a number, a number and a name with or without a star between them, or a name. -/
inductive Summand (α : Type) where
  | number (x : α)
  | multiple (x : α) (star : Bool) (name : String)
  | name (s : String)
  deriving DecidableEq, Repr

/-- A sum as it is written. -/
structure SumText (α : Type) where
  sign : Option Sign
  first : Summand α
  rest : List (Sign × Summand α)
  deriving DecidableEq, Repr

section

variable {α : Type}

def Sign.token : Sign → Token α
  | .plus => .plus
  | .minus => .minus

namespace Summand

def tokens : Summand α → List (Token α)
  | .number x => [.number x]
  | .multiple x false s => [.number x, .name s]
  | .multiple x true s => [.number x, .star, .name s]
  | .name s => [.name s]

/-- The name in a summand. -/
def name? : Summand α → Option String
  | .number _ => none
  | .multiple _ _ s | .name s => some s

end Summand

/-- The tokens of summands, each behind its sign. -/
def signedTokens (rest : List (Sign × Summand α)) : List (Token α) := rest.flatMap fun r => r.1.token :: r.2.tokens

/-- The tokens of a sum. -/
def SumText.tokens (s : SumText α) : List (Token α) :=
  (s.sign.map Sign.token).toList ++ s.first.tokens ++ signedTokens s.rest

/-! ## A list of tokens is one sum at most -/

theorem signedTokens_cons (r : Sign × Summand α) (rest : List (Sign × Summand α)) :
    signedTokens (r :: rest) = r.1.token :: (r.2.tokens ++ signedTokens rest) := rfl

theorem Sign.token_injective {s s' : Sign} (h : (s.token : Token α) = s'.token) : s = s' := by
  cases s <;> cases s' <;> first | rfl | cases h

/-- Behind a summand stands a sign or nothing. -/
theorem signedTokens_cases (rest : List (Sign × Summand α)) :
    signedTokens rest = [] ∨ ∃ (s : Sign) (ts : List (Token α)), signedTokens rest = s.token :: ts := by
  cases rest with
  | nil => exact .inl rfl
  | cons r rest => exact .inr ⟨r.1, _, signedTokens_cons r rest⟩

theorem signedTokens_ne_name (rest : List (Sign × Summand α)) (s : String) (ts : List (Token α)) :
    signedTokens rest ≠ .name s :: ts := by
  rcases signedTokens_cases rest with h | ⟨k, ts', h⟩
  · simp [h]
  · cases k <;> simp [h, Sign.token]

theorem signedTokens_ne_star (rest : List (Sign × Summand α)) (ts : List (Token α)) :
    signedTokens rest ≠ .star :: ts := by
  rcases signedTokens_cases rest with h | ⟨k, ts', h⟩
  · simp [h]
  · cases k <;> simp [h, Sign.token]

/-- Tokens begin with one summand only. -/
theorem Summand.tokens_append_injective {t t' : Summand α} {r r' : List (Sign × Summand α)}
    (h : t.tokens ++ signedTokens r = t'.tokens ++ signedTokens r') : t = t' ∧ signedTokens r = signedTokens r' := by
  have hname := signedTokens_ne_name (α := α)
  have hstar := signedTokens_ne_star (α := α)
  cases t with
  | number x =>
    cases t' with
    | number x' => simpa [tokens] using h
    | multiple x' star s' => cases star <;> simp [tokens, hname, hstar] at h
    | name s' => simp [tokens] at h
  | multiple x star s =>
    cases t' with
    | number x' => cases star <;> simp [tokens, fun r s ts => (hname r s ts).symm, fun r ts => (hstar r ts).symm] at h
    | multiple x' star' s' => cases star <;> cases star' <;> simp_all [tokens]
    | name s' => cases star <;> simp [tokens] at h
  | name s =>
    cases t' with
    | number x' => simp [tokens] at h
    | multiple x' star s' => cases star <;> simp [tokens] at h
    | name s' => simpa [tokens] using h

theorem signedTokens_injective {r r' : List (Sign × Summand α)} (h : signedTokens r = signedTokens r') : r = r' := by
  induction r generalizing r' with
  | nil =>
    cases r' with
    | nil => rfl
    | cons a r' => cases h
  | cons a r ih =>
    cases r' with
    | nil => cases h
    | cons a' r' =>
      rw [signedTokens_cons, signedTokens_cons] at h
      obtain ⟨hsign, hrest⟩ := List.cons.inj h
      obtain ⟨hsummand, hrest⟩ := Summand.tokens_append_injective hrest
      rw [ih hrest, Prod.ext (Sign.token_injective hsign) hsummand]

/-- No summand begins with a sign. -/
theorem Summand.tokens_ne_sign (t : Summand α) (s : Sign) (ts ts' : List (Token α)) : t.tokens ++ ts ≠ s.token :: ts' := by
  cases t with
  | number x => cases s <;> simp [tokens, Sign.token]
  | multiple x star n => cases star <;> cases s <;> simp [tokens, Sign.token]
  | name n => cases s <;> simp [tokens, Sign.token]

/-- A list of tokens is written as one sum at most. -/
theorem SumText.tokens_injective {s s' : SumText α} (h : s.tokens = s'.tokens) : s = s' := by
  obtain ⟨sign, first, rest⟩ := s
  obtain ⟨sign', first', rest'⟩ := s'
  have hsum : sign = sign' ∧ first.tokens ++ signedTokens rest = first'.tokens ++ signedTokens rest' := by
    simp only [tokens, List.append_assoc] at h
    cases sign with
    | none =>
      cases sign' with
      | none => exact ⟨rfl, h⟩
      | some k => exact absurd h (first.tokens_ne_sign k _ _)
    | some k =>
      cases sign' with
      | none => exact absurd h.symm (first'.tokens_ne_sign k _ _)
      | some k' =>
        obtain ⟨hsign, hrest⟩ := List.cons.inj h
        exact ⟨by rw [Sign.token_injective hsign], hrest⟩
  obtain ⟨hfirst, hrest⟩ := Summand.tokens_append_injective hsum.2
  rw [hsum.1, hfirst, signedTokens_injective hrest]

/-! ## The names in a sum -/

/-- The names in a sum. -/
def SumText.names (s : SumText α) : List String := (s.first :: s.rest.map Prod.snd).filterMap Summand.name?

theorem Summand.name?_of_mem_tokens {t : Summand α} {n : String} (h : .name n ∈ t.tokens) : t.name? = some n := by
  cases t with
  | number x => simp [tokens] at h
  | multiple x star m => cases star <;> simpa [tokens, name?, eq_comm] using h
  | name m => simpa [tokens, name?, eq_comm] using h

theorem SumText.mem_names_of_mem_tokens {s : SumText α} {n : String} (h : .name n ∈ s.tokens) : n ∈ s.names := by
  have hsign : ∀ k : Sign, (.name n : Token α) ≠ k.token := by
    intro k hk
    cases k <;> cases hk
  simp only [tokens, List.mem_append, Option.mem_toList, signedTokens, List.mem_flatMap, List.mem_cons] at h
  rw [names, List.mem_filterMap]
  rcases h with (h | h) | ⟨r, hr, h | h⟩
  · obtain ⟨k, -, hk⟩ := Option.map_eq_some_iff.mp h
    exact absurd hk.symm (hsign k)
  · exact ⟨s.first, List.mem_cons_self, Summand.name?_of_mem_tokens h⟩
  · exact absurd h (hsign r.1)
  · exact ⟨r.2, List.mem_cons_of_mem _ (List.mem_map_of_mem hr), Summand.name?_of_mem_tokens h⟩

end

/-! ## Reading a sum -/

section

variable {α : Type} [Scalar α]

/-- The factor of a sign. -/
def Sign.factor : Sign → α
  | .plus => 1
  | .minus => -1

/-- The number in a summand, 1 if there is none. -/
def Summand.coefficient : Summand α → α
  | .number x | .multiple x _ _ => x
  | .name _ => 1

/-- The summands of a sum with the factors of their signs, in order. -/
def SumText.summands (s : SumText α) : List (α × Summand α) :=
  ((s.sign.map Sign.factor).getD 1, s.first) :: s.rest.map fun r => (r.1.factor, r.2)

theorem SumText.mem_names_iff {s : SumText α} {n : String} : n ∈ s.names ↔ ∃ p ∈ s.summands, p.2.name? = some n := by
  have hmap : s.first :: s.rest.map Prod.snd = s.summands.map Prod.snd := by simp [summands]
  rw [names, hmap, List.filterMap_map, List.mem_filterMap]
  rfl

/-- A term is read from a summand behind a sign: its coefficient is multiplied by the factor. -/
structure RawTerm.IsRead (r : RawTerm α) (s : α × Summand α) : Prop where
  coefficient : r.coefficient = s.2.coefficient * s.1
  name : r.name.map Located.value = s.2.name?

namespace RawTerm

variable {toks : List (Located (Token α))} {raws : List (RawTerm α)}

/-- After a summand, a side ends or goes on behind a sign. -/
theorem readMore_ok {seen : Progress} (h : readMore seen toks = .ok raws) :
    toks = [] ∧ raws = [] ∨ ∃ (s : Sign) (span : Span) (r : List (Located (Token α))),
      toks = ⟨s.token, span⟩ :: r ∧ readTerm s.factor .sign r = .ok raws := by
  unfold readMore at h
  split at h
  · exact .inl ⟨rfl, (Except.ok.inj h).symm⟩
  · exact .inr ⟨.plus, _, _, rfl, h⟩
  · exact .inr ⟨.minus, _, _, rfl, h⟩
  · cases h

/-- A summand is read, and then what follows it. -/
theorem readTerm_ok {factor : α} {seen : Progress} (h : readTerm factor seen toks = .ok raws) :
    ∃ (t : Summand α) (read r : List (Located (Token α))) (raw : RawTerm α) (rest : List (RawTerm α)) (last : Progress),
      toks = read ++ r ∧ read ≠ [] ∧ read.map Located.value = t.tokens ∧ raw.IsRead (factor, t) ∧
        readMore last r = .ok rest ∧ raws = raw :: rest := by
  unfold readTerm at h
  split at h
  · rename_i s span r
    obtain ⟨rest, hrest, rfl⟩ := map_eq_ok_iff.mp h
    exact ⟨.name s, [_], r, _, rest, _, rfl, by simp, rfl, ⟨rfl, rfl⟩, hrest, rfl⟩
  · rename_i x _ s span r
    obtain ⟨rest, hrest, rfl⟩ := map_eq_ok_iff.mp h
    exact ⟨.multiple x false s, [_, _], r, _, rest, _, rfl, by simp, rfl, ⟨rfl, rfl⟩, hrest, rfl⟩
  · rename_i x _ _ s span r
    obtain ⟨rest, hrest, rfl⟩ := map_eq_ok_iff.mp h
    exact ⟨.multiple x true s, [_, _, _], r, _, rest, _, rfl, by simp, rfl, ⟨rfl, rfl⟩, hrest, rfl⟩
  · cases h
  · rename_i x span r _ _ _
    obtain ⟨rest, hrest, rfl⟩ := map_eq_ok_iff.mp h
    exact ⟨.number x, [_], r, _, rest, _, rfl, by simp, rfl, ⟨rfl, rfl⟩, hrest, rfl⟩
  · cases h

/-- Everything that is read is a summand and summands behind signs. -/
theorem exists_summands_of_readTerm {factor : α} {seen : Progress} (h : readTerm factor seen toks = .ok raws) :
    ∃ (t : Summand α) (rest : List (Sign × Summand α)), toks.map Located.value = t.tokens ++ signedTokens rest ∧
      List.Forall₂ IsRead raws ((factor, t) :: rest.map fun r => (r.1.factor, r.2)) := by
  induction hn : toks.length using Nat.strong_induction_on generalizing toks raws factor seen with
  | _ n ih =>
    obtain ⟨t, read, r, raw, rest, last, rfl, hne, hread, hraw, hmore, rfl⟩ := readTerm_ok h
    have hpos := List.length_pos_iff.mpr hne
    rcases readMore_ok hmore with ⟨rfl, rfl⟩ | ⟨s, span, r, rfl, hterm⟩
    · exact ⟨t, [], by rw [List.append_nil, hread]; simp [signedTokens], .cons hraw .nil⟩
    · have hlt : r.length < n := by
        simp only [List.length_append, List.length_cons] at hn
        omega
      obtain ⟨t', rest', hr, hrest⟩ := ih r.length hlt hterm rfl
      refine ⟨t, (s, t') :: rest', ?_, .cons hraw hrest⟩
      rw [List.map_append, hread, List.map_cons, hr, signedTokens_cons]

theorem readMore_sign (s : Sign) (span : Span) (seen : Progress) (r : List (Located (Token α))) :
    readMore seen (⟨s.token, span⟩ :: r) = readTerm s.factor .sign r := by
  cases s with
  | plus => simp only [Sign.token, Sign.factor, readMore]
  | minus => simp only [Sign.token, Sign.factor, readMore]

/-- A summand is read if a sign or nothing is behind it. -/
theorem readTerm_tokens (t : Summand α) {read r : List (Located (Token α))} (hread : read.map Located.value = t.tokens)
    {rest : List (Sign × Summand α)} (hr : r.map Located.value = signedTokens rest) (factor : α) (seen : Progress) :
    ∃ (raw : RawTerm α) (last : Progress), raw.IsRead (factor, t) ∧
      readTerm factor seen (read ++ r) = (raw :: ·) <$> readMore last r := by
  cases t with
  | number x =>
    obtain ⟨⟨_, span⟩, rfl, rfl⟩ := List.map_eq_singleton_iff.mp hread
    refine ⟨⟨x * factor, none⟩, .number, ⟨rfl, rfl⟩, ?_⟩
    cases r with
    | nil => simp only [List.singleton_append, readTerm]
    | cons k r =>
      rcases signedTokens_cases rest with hnil | ⟨s, ts, hsign⟩
      · rw [hnil] at hr
        cases hr
      · obtain ⟨k, span'⟩ := k
        rw [hsign] at hr
        obtain rfl : k = s.token := (List.cons.inj hr).1
        cases s <;> simp only [List.singleton_append, Sign.token, readTerm]
  | multiple x star s =>
    cases star with
    | false =>
      obtain ⟨⟨_, span⟩, read', rfl, rfl, hread'⟩ := List.map_eq_cons_iff.mp hread
      obtain ⟨⟨_, span'⟩, rfl, rfl⟩ := List.map_eq_singleton_iff.mp hread'
      refine ⟨⟨x * factor, some ⟨s, span'⟩⟩, .named, ⟨rfl, rfl⟩, ?_⟩
      simp only [List.cons_append, List.nil_append, readTerm]
    | true =>
      obtain ⟨⟨_, span⟩, read', rfl, rfl, hread'⟩ := List.map_eq_cons_iff.mp hread
      obtain ⟨⟨_, span'⟩, read'', rfl, rfl, hread''⟩ := List.map_eq_cons_iff.mp hread'
      obtain ⟨⟨_, span''⟩, rfl, rfl⟩ := List.map_eq_singleton_iff.mp hread''
      refine ⟨⟨x * factor, some ⟨s, span''⟩⟩, .named, ⟨rfl, rfl⟩, ?_⟩
      simp only [List.cons_append, List.nil_append, readTerm]
  | name s =>
    obtain ⟨⟨_, span⟩, rfl, rfl⟩ := List.map_eq_singleton_iff.mp hread
    exact ⟨⟨1 * factor, some ⟨s, span⟩⟩, .named, ⟨rfl, rfl⟩, by simp only [List.singleton_append, readTerm]⟩

/-- Summands behind signs are read if a summand goes before them. -/
theorem exists_readTerm (t : Summand α) (rest : List (Sign × Summand α))
    (htoks : toks.map Located.value = t.tokens ++ signedTokens rest) (factor : α) (seen : Progress) :
    ∃ raws, readTerm factor seen toks = .ok raws ∧
      List.Forall₂ IsRead raws ((factor, t) :: rest.map fun r => (r.1.factor, r.2)) := by
  induction rest generalizing t toks factor seen with
  | nil =>
    obtain ⟨read, r, rfl, hread, hr⟩ := List.map_eq_append_iff.mp htoks
    obtain ⟨raw, last, hraw, hterm⟩ := readTerm_tokens t hread hr factor seen
    obtain rfl : r = [] := List.map_eq_nil_iff.mp hr
    refine ⟨[raw], ?_, .cons hraw .nil⟩
    rw [hterm, readMore]
    rfl
  | cons a rest ih =>
    obtain ⟨read, r, rfl, hread, hr⟩ := List.map_eq_append_iff.mp htoks
    obtain ⟨raw, last, hraw, hterm⟩ := readTerm_tokens t hread hr factor seen
    rw [signedTokens_cons] at hr
    obtain ⟨⟨_, span⟩, r', rfl, rfl, hr'⟩ := List.map_eq_cons_iff.mp hr
    obtain ⟨raws, hmore, hraws⟩ := ih a.2 hr' a.1.factor .sign
    refine ⟨raw :: raws, ?_, .cons hraw hraws⟩
    rw [hterm, readMore_sign, hmore]
    rfl

/-- Tokens that are read are those of a sum, of which the terms are read in order. -/
theorem exists_sumText_of_readSum (h : readSum toks = .ok raws) :
    ∃ s : SumText α, toks.map Located.value = s.tokens ∧ List.Forall₂ IsRead raws s.summands := by
  unfold readSum at h
  split at h
  · obtain ⟨t, rest, htoks, hraws⟩ := exists_summands_of_readTerm h
    exact ⟨⟨some .plus, t, rest⟩, congrArg (Token.plus :: ·) htoks, hraws⟩
  · obtain ⟨t, rest, htoks, hraws⟩ := exists_summands_of_readTerm h
    exact ⟨⟨some .minus, t, rest⟩, congrArg (Token.minus :: ·) htoks, hraws⟩
  · obtain ⟨t, rest, htoks, hraws⟩ := exists_summands_of_readTerm h
    exact ⟨⟨none, t, rest⟩, htoks, hraws⟩

/-- The tokens of a sum are read. -/
theorem exists_readSum (s : SumText α) (htoks : toks.map Located.value = s.tokens) :
    ∃ raws, readSum toks = .ok raws ∧ List.Forall₂ IsRead raws s.summands := by
  obtain ⟨sign, t, rest⟩ := s
  cases sign with
  | none =>
    obtain ⟨raws, hterm, hraws⟩ := exists_readTerm t rest htoks 1 .nothing
    refine ⟨raws, ?_, hraws⟩
    rw [← hterm]
    unfold readSum
    split
    · exact absurd htoks.symm (t.tokens_ne_sign .plus _ _)
    · exact absurd htoks.symm (t.tokens_ne_sign .minus _ _)
    · rfl
  | some sign =>
    obtain ⟨⟨_, span⟩, r, rfl, rfl, hr⟩ := List.map_eq_cons_iff.mp htoks
    obtain ⟨raws, hterm, hraws⟩ := exists_readTerm t rest hr sign.factor .sign
    refine ⟨raws, ?_, hraws⟩
    rw [← hterm]
    cases sign <;> simp only [Sign.token, Sign.factor, readSum]

end RawTerm

end

end RectLayout
