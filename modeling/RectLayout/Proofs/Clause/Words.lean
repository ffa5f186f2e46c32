import RectLayout.Proofs.Clause.Expansion

/-!
# Texts without keywords

A text is expanded if no keyword stands in it as a whole word (`Keyword.Expanded`). A character of no word divides a
text into two that are expanded by themselves (`Keyword.expanded_append_cons`), so a text is expanded if its words are
(`Keyword.expanded_iff_words`), and the expansions in the table are. By induction along the words of a text
(`break_induction`) the expansion of any text is expanded (`Keyword.expanded_expandFrom`), and what is expanded stays as
it is (`Keyword.Expanded.expandFrom_eq`). So keywords are replaced word by word, and once is enough
(`Keyword.expand_replaces_words`).
-/

namespace RectLayout

/-- What holds of lists without a break, and of a list with one if it holds of what follows its first, holds of every
list. -/
theorem break_induction {β : Type} (isBreak : β → Bool) {P : List β → Prop}
    (last : ∀ l, (∀ b ∈ l, isBreak b = false) → P l)
    (step : ∀ l b r, (∀ a ∈ l, isBreak a = false) → isBreak b → P r → P (l ++ b :: r)) (l : List β) : P l := by
  induction hn : l.length using Nat.strong_induction_on generalizing l with
  | _ n ih =>
    have hfront : ∀ a ∈ l.takeWhile fun b => !isBreak b, isBreak a = false := by
      intro a ha
      simpa using List.mem_takeWhile_imp ha
    have hsplit := List.takeWhile_append_dropWhile (p := fun b => !isBreak b) (l := l)
    cases hrest : l.dropWhile fun b => !isBreak b with
    | nil =>
      rw [hrest, List.append_nil] at hsplit
      rw [← hsplit]
      exact last _ hfront
    | cons b r =>
      rw [hrest] at hsplit
      have hb : isBreak b := by
        have hhead : (l.dropWhile fun b => !isBreak b).head? = some b := by rw [hrest]; rfl
        rw [← List.find?_not_eq_head?_dropWhile] at hhead
        simpa using List.find?_some hhead
      have hlt : r.length < n := by
        rw [← hn, ← hsplit]
        simp only [List.length_append, List.length_cons]
        omega
      rw [← hsplit]
      exact step _ b r hfront hb (ih r.length hlt r rfl)

namespace Keyword

/-- A word of a text, between what stands in front of it and what stands behind it. It goes on to neither side. -/
structure IsWord (before w after : List Char) : Prop extends WordEnds w after where
  start : ∀ c ∈ before.getLast?, ¬ isWordChar c

/-- No word of the text is a keyword. -/
def Expanded (cs : List Char) : Prop :=
  ∀ p ∈ table, ∀ before after, cs = before ++ p.1.toList ++ after → ¬ IsWord before p.1.toList after

/-! ## Keywords -/

theorem lookup_eq_none_iff {s : String} : lookup s = none ↔ ∀ p ∈ table, p.1 ≠ s := by
  rw [lookup, List.lookup_eq_none_iff]
  exact forall₂_congr fun p _ => bne_iff_ne.trans ne_comm

theorem lookup_of_mem_table {p : String × String} (hp : p ∈ table) : lookup p.1 = some p.2 := by
  have htable : ∀ p ∈ table, lookup p.1 = some p.2 := by decide
  exact htable p hp

/-- A keyword is a word by itself. -/
theorem wordChar_of_mem_table {p : String × String} (hp : p ∈ table) :
    p.1.toList ≠ [] ∧ ∀ c ∈ p.1.toList, isWordChar c := by
  have htable : ∀ p ∈ table, p.1.toList ≠ [] ∧ p.1.toList.all isWordChar := by decide
  simpa using htable p hp

/-- A word stays as it is, or it is a keyword and its expansion is in the table. -/
theorem replaceWord_cases (w : List Char) : (lookup (String.ofList w) = none ∧ replaceWord w = w) ∨
    ∃ p ∈ table, p.1.toList = w ∧ replaceWord w = p.2.toList := by
  cases h : lookup (String.ofList w) with
  | none => exact .inl ⟨rfl, replaceWord_of_lookup h⟩
  | some e => exact .inr ⟨_, mem_table_of_lookup h, String.toList_ofList, by rw [replaceWord, h]⟩

/-! ## Expanded texts -/

section

variable {c : Char} {l r w : List Char}

/-- A character of no word divides a text into two that are expanded by themselves. -/
theorem expanded_append_cons (hc : ¬ isWordChar c) : Expanded (l ++ c :: r) ↔ Expanded l ∧ Expanded r := by
  constructor
  · intro h
    refine ⟨fun p hp before after heq hword => ?_, fun p hp before after heq hword => ?_⟩
    · refine h p hp before (after ++ c :: r) (by simp [heq]) ⟨⟨hword.word, fun k hk => ?_⟩, hword.start⟩
      cases after with
      | nil =>
        cases hk
        exact hc
      | cons a after => exact hword.stop k hk
    · refine h p hp (l ++ c :: before) after (by simp [heq]) ⟨hword.toWordEnds, fun k hk => ?_⟩
      rw [List.append_cons, List.getLast?_append] at hk
      cases hlast : before.getLast? with
      | none =>
        rw [hlast, Option.none_or, List.getLast?_concat] at hk
        cases hk
        exact hc
      | some a =>
        rw [hlast, Option.some_or] at hk
        cases hk
        exact hword.start k hlast
  · rintro ⟨hl, hr⟩ p hp before after heq hword
    have hmem : c ∉ p.1.toList := fun hmem => hc (hword.word c hmem)
    rw [List.append_assoc] at heq
    -- the keyword stands behind the character or ends in front of it
    rcases List.append_eq_append_iff.mp heq with ⟨a, rfl, ha⟩ | ⟨a, rfl, ha⟩
    · cases a with
      | nil =>
        obtain ⟨k, w, hw⟩ := List.exists_cons_of_ne_nil (wordChar_of_mem_table hp).1
        rw [List.nil_append, hw, List.cons_append] at ha
        refine hmem ?_
        rw [hw, (List.cons.inj ha).1]
        exact List.mem_cons_self
      | cons k a =>
        obtain ⟨rfl, rfl⟩ := List.cons.inj ha
        refine hr p hp a after (List.append_assoc _ _ _).symm ⟨hword.toWordEnds, fun k hk => hword.start k ?_⟩
        rw [List.append_cons, List.getLast?_append, hk]
        rfl
    · rcases List.append_eq_append_iff.mp ha with ⟨b, rfl, hb⟩ | ⟨b, hb, hafter⟩
      · refine hl p hp before b (List.append_assoc _ _ _).symm ⟨⟨hword.word, fun k hk => hword.stop k ?_⟩, hword.start⟩
        rw [hb, List.head?_append, hk]
        rfl
      · cases b with
        | nil =>
          rw [List.append_nil] at hb
          exact hl p hp before [] (by simp [hb]) ⟨⟨hword.word, fun k hk => by cases hk⟩, hword.start⟩
        | cons k b =>
          obtain ⟨rfl, -⟩ := List.cons.inj hafter
          exact hmem (by simp [hb])

theorem expanded_word (hw : ∀ c ∈ w, isWordChar c) : Expanded w ↔ lookup (String.ofList w) = none := by
  constructor
  · intro h
    by_contra hne
    obtain ⟨p, hp, rfl⟩ := exists_of_lookup hne
    exact h p hp [] [] (by simp) ⟨⟨hw, fun c hc => by cases hc⟩, fun c hc => by cases hc⟩
  · intro h p hp before after heq hword
    have hbefore : before = [] := by
      by_contra hne
      have hlast := List.getLast?_eq_getLast_of_ne_nil hne
      exact hword.start _ hlast (hw _ (by simp [heq, List.getLast_mem]))
    have hafter : after = [] := by
      by_contra hne
      obtain ⟨c, r, rfl⟩ := List.exists_cons_of_ne_nil hne
      exact hword.stop c rfl (hw c (by simp [heq]))
    rw [hbefore, hafter, List.nil_append, List.append_nil] at heq
    refine lookup_eq_none_iff.mp h p hp ?_
    rw [heq, String.ofList_toList]

/-- What holds of words, and of a text behind a word if it holds of the rest, holds of every text. -/
theorem word_induction {P : List Char → Prop} (word : ∀ w, (∀ c ∈ w, isWordChar c) → P w)
    (step : ∀ w c r, (∀ c ∈ w, isWordChar c) → ¬ isWordChar c → P r → P (w ++ c :: r)) (cs : List Char) : P cs :=
  break_induction (fun c => !isWordChar c) (fun w hw => word w (by simpa using hw))
    (fun w c r hw hc => step w c r (by simpa using hw) (by simpa using hc)) cs

/-- A text is expanded if the words between its characters of no word are no keywords. -/
theorem expanded_iff_words {cs : List Char} :
    Expanded cs ↔ ∀ w ∈ cs.splitOnP fun c => !isWordChar c, lookup (String.ofList w) = none := by
  induction cs using word_induction with
  | word w hw =>
    rw [expanded_word hw, List.splitOnP_eq_singleton (by simpa using hw)]
    simp
  | step w c r hw hc ih =>
    rw [expanded_append_cons hc, expanded_word hw, ih,
      List.splitOnP_append_cons_of_forall_mem (by simpa using hw) c (by simpa using hc)]
    simp

instance (cs : List Char) : Decidable (Expanded cs) := decidable_of_iff _ expanded_iff_words.symm

theorem expanded_table : ∀ p ∈ table, Expanded p.2.toList := by decide +kernel

/-! ## Expansions -/

theorem expandFrom_of_word (hw : ∀ c ∈ w, isWordChar c) : expandFrom [] w = replaceWord w := by
  have hends : WordEnds w [] := ⟨hw, fun c hc => by cases hc⟩
  have hexpand := expandFrom_word hends []
  rw [List.append_nil, expandFrom_nil, List.append_nil, List.nil_append] at hexpand
  exact hexpand

theorem expanded_replaceWord (hw : ∀ c ∈ w, isWordChar c) : Expanded (replaceWord w) := by
  rcases replaceWord_cases w with ⟨hnone, hsame⟩ | ⟨p, hp, -, hreplace⟩
  · rw [hsame]
    exact (expanded_word hw).mpr hnone
  · rw [hreplace]
    exact expanded_table p hp

/-- No keyword is left in an expansion. -/
theorem expanded_expandFrom (cs : List Char) : Expanded (expandFrom [] cs) := by
  induction cs using word_induction with
  | word w hw =>
    rw [expandFrom_of_word hw]
    exact expanded_replaceWord hw
  | step w c r hw hc ih =>
    rw [expandFrom_append hc, expandFrom_of_word hw]
    exact (expanded_append_cons hc).mpr ⟨expanded_replaceWord hw, ih⟩

/-- A text without keywords stays as it is. -/
theorem Expanded.expandFrom_eq {cs : List Char} (h : Expanded cs) : expandFrom [] cs = cs := by
  induction cs using word_induction with
  | word w hw => rw [expandFrom_of_word hw, replaceWord_of_lookup ((expanded_word hw).mp h)]
  | step w c r hw hc ih =>
    obtain ⟨hword, hrest⟩ := (expanded_append_cons hc).mp h
    rw [expandFrom_append hc, expandFrom_of_word hw, replaceWord_of_lookup ((expanded_word hw).mp hword), ih hrest]

/-- A text without keywords has none when characters of no word are taken away at its ends. -/
theorem Expanded.of_append {cs : List Char} (h : Expanded (l ++ cs ++ r)) (hl : ∀ c ∈ l, ¬ isWordChar c)
    (hr : ∀ c ∈ r, ¬ isWordChar c) : Expanded cs := by
  have hleft : Expanded (l ++ cs) := by
    cases r with
    | nil => rwa [List.append_nil] at h
    | cons c r => exact ((expanded_append_cons (hr c List.mem_cons_self)).mp h).1
  clear h
  induction l with
  | nil => exact hleft
  | cons c l ih =>
    have hrest := ((expanded_append_cons (l := []) (hl c List.mem_cons_self)).mp hleft).2
    exact ih (fun k hk => hl k (List.mem_cons_of_mem c hk)) hrest

end

/-- A text is expanded word by word: no keyword is left in it as a word, a second expansion changes nothing, what stands
on the two sides of a character of no word is expanded by itself, a keyword by itself becomes its expansion, and every
other word stays as it is. -/
theorem expand_replaces_words (text : String) :
    Expanded (expand text).toList ∧ expand (expand text) = expand text ∧
    (∀ (a b : String) (c : Char), ¬ isWordChar c →
      expand (a ++ String.singleton c ++ b) = expand a ++ String.singleton c ++ expand b) ∧
    (∀ p ∈ table, expand p.1 = p.2) ∧
    ∀ w : String, (∀ c ∈ w.toList, isWordChar c) → (∀ p ∈ table, p.1 ≠ w) → expand w = w := by
  refine ⟨?_, ?_, fun a b c hc => ?_, fun p hp => ?_, fun w hw hno => ?_⟩
  · rw [expand, String.toList_ofList]
    exact expanded_expandFrom _
  · rw [expand, expand, String.toList_ofList, (expanded_expandFrom _).expandFrom_eq]
  · have htext : (a ++ String.singleton c ++ b).toList = a.toList ++ c :: b.toList := by simp
    rw [expand, htext, expandFrom_append hc, expand, expand, ← String.toList_inj]
    simp
  · obtain ⟨-, hword⟩ := wordChar_of_mem_table hp
    rw [expand, expandFrom_of_word hword, replaceWord, String.ofList_toList, lookup_of_mem_table hp,
      String.ofList_toList]
  · have hnone : lookup (String.ofList w.toList) = none := by rwa [String.ofList_toList, lookup_eq_none_iff]
    rw [expand, expandFrom_of_word hw, replaceWord_of_lookup hnone, String.ofList_toList]

/-- A comma separates two texts, in one of which a word only ends with a keyword. -/
theorem expand_replaces_words_center : ¬ isWordChar ',' ∧
    expand "center,my_top" = "sx1+sx2=ox1+ox2,sy1+sy2=oy1+oy2,my_top" ∧
    Expanded (expand "center,my_top").toList ∧ expand (expand "center,my_top") = expand "center,my_top" := by
  obtain ⟨hexpanded, hagain, haround, hkeyword, hword⟩ := expand_replaces_words "center,my_top"
  have hcomma := haround "center" "my_top" ',' (by decide)
  have hcenter := hkeyword ("center", "sx1+sx2=ox1+ox2,sy1+sy2=oy1+oy2") (by decide)
  have htop := hword "my_top" (List.all_eq_true.mp (by decide)) (by decide)
  refine ⟨by decide, ?_, hexpanded, hagain⟩
  rw [hcenter, htop] at hcomma
  exact hcomma

end Keyword

end RectLayout
