import RectLayout.Proofs.Clause.Texts

/-!
# Lists of clauses

The texts of the clauses in a list are those in front of a comma and those behind it (`Clause.texts_append`), and an
expansion has the texts of what it expands (`Clause.texts_expand`). Each of them contains neither keywords nor commas and
has no blanks at its ends, so it is a list by itself, of which it is the only text (`Clause.texts_of_mem`). Hence lists
of clauses are read part by part, and the text of a clause that was read is read to that clause
(`Clause.parseAll_composes`).
-/

namespace RectLayout

namespace Clause

/-! ## Texts of clauses -/

theorem mem_texts_iff {t text : String} : t ∈ texts text ↔
    ∃ part ∈ splitCommas (Keyword.expandFrom [] text.toList), Text.trim part ≠ [] ∧ t = String.ofList (Text.trim part) := by
  simp only [texts, List.mem_map, List.mem_filter]
  constructor
  · rintro ⟨_, ⟨⟨part, hpart, rfl⟩, hne⟩, rfl⟩
    exact ⟨part, hpart, by simpa using hne, rfl⟩
  · rintro ⟨part, hpart, hne, rfl⟩
    exact ⟨_, ⟨⟨part, hpart, rfl⟩, by simpa using hne⟩, rfl⟩

/-- The parts of a text without keywords contain neither keywords nor commas. -/
theorem expanded_of_mem_splitCommas {cs : List Char} (h : Keyword.Expanded cs) :
    ∀ part ∈ splitCommas cs, Keyword.Expanded part ∧ ',' ∉ part := by
  induction cs using comma_induction with
  | last l hl =>
    rw [splitCommas_of_notMem hl]
    intro part hpart
    rw [List.mem_singleton.mp hpart]
    exact ⟨h, hl⟩
  | step l r hl ih =>
    obtain ⟨hleft, hright⟩ := (Keyword.expanded_append_cons (by decide)).mp h
    rw [splitCommas_append, splitCommas_of_notMem hl]
    intro part hpart
    rcases List.mem_append.mp hpart with hpart | hpart
    · rw [List.mem_singleton.mp hpart]
      exact ⟨hleft, hl⟩
    · exact ih hright part hpart

/-- A text of a list is the only text of the list that it is by itself. -/
theorem texts_of_mem {t text : String} (h : t ∈ texts text) : texts t = [t] := by
  obtain ⟨part, hpart, hne, rfl⟩ := mem_texts_iff.mp h
  obtain ⟨hexpanded, hcomma⟩ := expanded_of_mem_splitCommas (Keyword.expanded_expandFrom _) part hpart
  obtain ⟨l, r, hsplit, hl, hr⟩ := Text.exists_around_trim part
  have htrim : Keyword.Expanded (Text.trim part) := by
    rw [hsplit] at hexpanded
    exact hexpanded.of_append (fun c hc => Token.not_wordChar_of_blank (hl c hc)) fun c hc =>
      Token.not_wordChar_of_blank (hr c hc)
  have hcomma' : ',' ∉ Text.trim part := fun hmem => hcomma (by rw [hsplit]; simp [hmem])
  simp [texts, htrim.expandFrom_eq, splitCommas_of_notMem hcomma', Text.trim_trim, hne]

theorem texts_append (a b : String) : texts (a ++ "," ++ b) = texts a ++ texts b := by
  have htext : (a ++ "," ++ b).toList = a.toList ++ ',' :: b.toList := by simp
  rw [texts, htext, Keyword.expandFrom_append (by decide), splitCommas_append, List.map_append, List.filter_append,
    List.map_append, texts, texts]

theorem texts_expand (text : String) : texts (Keyword.expand text) = texts text := by
  rw [texts, Keyword.expand, String.toList_ofList, (Keyword.expanded_expandFrom _).expandFrom_eq, texts]

/-! ## Clauses -/

variable {α : Type} [Scalar α]

/-- The clauses of two lists around a comma are those of the first and those of the second. The first error is that of
the first list, or else that of the second. Expanding a list first changes nothing, and the text of a clause that was
read is, by itself, read to that clause alone. -/
theorem parseAll_composes (a b : String) (hasObject : Bool) :
    (parseAll (α := α) (a ++ "," ++ b) hasObject =
      match parseAll a hasObject, parseAll b hasObject with
      | .ok as, .ok bs => .ok (as ++ bs)
      | .error e, _ => .error e
      | .ok _, .error e => .error e) ∧
    parseAll (α := α) (Keyword.expand a) hasObject = parseAll a hasObject ∧
    ∀ cs : List (Clause α), parseAll a hasObject = .ok cs → ∀ c ∈ cs, parseAll c.text hasObject = .ok [c] := by
  refine ⟨?_, ?_, fun cs hcs c hc => ?_⟩
  · rw [parseAll, texts_append, List.mapM_append, ← parseAll, ← parseAll]
    cases parseAll (α := α) a hasObject with
    | error e => rfl
    | ok as =>
      cases parseAll (α := α) b hasObject with
      | error e => rfl
      | ok bs => rfl
  · rw [parseAll, texts_expand, parseAll]
  · obtain ⟨t, ht, hparse⟩ := exists_of_mem_mapM hcs hc
    obtain ⟨k, -, htext, -⟩ := exists_spells_of_parse hparse
    rw [htext, parseAll, texts_of_mem ht, mapM_ok_iff]
    exact .cons hparse .nil

theorem parseAll_composes_center : ∃ cs : List (Clause Rat), parseAll "center" true = .ok cs ∧
    cs.map Clause.text = ["sx1+sx2=ox1+ox2", "sy1+sy2=oy1+oy2"] ∧ (∀ c ∈ cs, parseAll c.text true = .ok [c]) ∧
    parseAll (α := Rat) "center,x1" true = .error (.missingOperator "x1") := by
  obtain ⟨hlist, -, hagain⟩ := parseAll_composes (α := Rat) "center" "x1" true
  have htexts : (parseAll (α := Rat) "center" true).map (List.map Clause.text) =
      .ok ["sx1+sx2=ox1+ox2", "sy1+sy2=oy1+oy2"] := by decide +kernel
  have herror : parseAll (α := Rat) "x1" true = .error (.missingOperator "x1") := by decide +kernel
  cases hcs : parseAll (α := Rat) "center" true with
  | error e =>
    rw [hcs] at htexts
    cases htexts
  | ok cs =>
    rw [hcs] at htexts hlist
    rw [herror] at hlist
    exact ⟨cs, rfl, Except.ok.inj htexts, hagain cs hcs, hlist⟩

end Clause

end RectLayout
