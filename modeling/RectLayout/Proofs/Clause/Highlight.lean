import RectLayout.Clause.Diagnostic
import RectLayout.Proofs.Clause.Errors

/-!
# What a diagnostic highlights

The line of a diagnostic that shows the clause draws the characters whose indices lie between the numbers of the error's
span in red and all others in light grey (`ClauseError.clauseLine_eq_shownLine`). These numbers count bytes. In front of
an unknown token every character has one byte, so the red ones start where the token starts, but there are as many of
them as the token has bytes (`Clause.shown_of_unknownToken`): a token of characters of one byte is highlighted exactly,
any other with characters that stand behind it, and if there are too few of these, the clause is not shown at all.
-/

namespace RectLayout

namespace ClauseError

open Painted

/-! ## Characters of a line -/

/-- A character at an index of a line. A blank is drawn as so many spaces as it fills columns. -/
def drawnChar (colour : String) (i : Nat) (c : Char) : List Painted :=
  if Text.isBlank c then List.replicate (Text.columns c i) ⟨colour, " "⟩ else [⟨colour, String.singleton c⟩]

/-- Characters of a line from an index on, each in the colour of its own index. -/
def drawnBy (colourAt : Nat → String) (first : Nat) (cs : List Char) : List Painted :=
  ((cs.zipIdx first).map fun (c, i) => drawnChar (colourAt i) i c).flatten

/-- Characters of a line from an index on in one colour. -/
def drawn (colour : String) (first : Nat) (cs : List Char) : List Painted := drawnBy (fun _ => colour) first cs

/-- The line of a clause of one line with the characters `bad` highlighted. -/
def shownLine (before bad after : List Char) : List Painted :=
  numbered 1 1 ++ (drawn lightGrey 0 before ++ (drawn red before.length bad ++
    drawn lightGrey (before.length + bad.length) after))

theorem drawnBy_append (colourAt : Nat → String) (first : Nat) (l r : List Char) :
    drawnBy colourAt first (l ++ r) = drawnBy colourAt first l ++ drawnBy colourAt (first + l.length) r := by
  unfold drawnBy
  rw [List.zipIdx_append, List.map_append, List.flatten_append]

/-- Characters whose indices have one colour are drawn in it. -/
theorem drawnBy_eq_drawn {colourAt : Nat → String} {colour : String} {first : Nat} {cs : List Char}
    (h : ∀ i, first ≤ i → i < first + cs.length → colourAt i = colour) :
    drawnBy colourAt first cs = drawn colour first cs := by
  unfold drawn drawnBy
  congr 1
  refine List.map_congr_left fun ⟨c, i⟩ hmem => ?_
  obtain ⟨hle, hlt, -⟩ := List.mem_zipIdx hmem
  simp only [h i hle hlt]

theorem clauseLine_eq_drawnBy (span : Span) (line : List Char) : clauseLine span line =
    drawnBy (fun i => if span.start ≤ i ∧ i < span.stop then red else lightGrey) 0 (Text.trimRight line) := by
  unfold clauseLine highlighted drawnBy
  congr 1
  refine List.ext_getElem (by simp) fun i _ _ => ?_
  simp [drawnChar]

/-- The characters whose indices lie between the numbers of a span are highlighted. -/
theorem clauseLine_eq_shownLine {span : Span} (h : span.start ≤ span.stop) (line : List Char) :
    numbered 1 1 ++ clauseLine span line = shownLine ((Text.trimRight line).take span.start)
      (((Text.trimRight line).take span.stop).drop span.start) ((Text.trimRight line).drop span.stop) := by
  rw [clauseLine_eq_drawnBy]
  generalize Text.trimRight line = cs
  have hsplit : cs = cs.take span.start ++ ((cs.take span.stop).drop span.start ++ cs.drop span.stop) := by
    have htake : cs.take span.start = (cs.take span.stop).take span.start := by rw [List.take_take, Nat.min_eq_left h]
    rw [htake, ← List.append_assoc, List.take_append_drop, List.take_append_drop]
  have hbefore : (cs.take span.start).length = min span.start cs.length := List.length_take
  have hbad : ((cs.take span.stop).drop span.start).length = min span.stop cs.length - span.start := by simp
  have hafter : (cs.drop span.stop).length = cs.length - span.stop := List.length_drop
  conv_lhs => rw [hsplit, drawnBy_append, drawnBy_append]
  congr 2
  · exact drawnBy_eq_drawn fun i hle hlt => if_neg (by omega)
  · rw [Nat.zero_add]
    congr 1
    · exact drawnBy_eq_drawn fun i hle hlt => if_pos (by omega)
    · exact drawnBy_eq_drawn fun i hle hlt => if_neg (by omega)

/-- Characters that are no blanks are highlighted, if the span is theirs. -/
theorem shownLine_trimRight {bad : List Char} (hne : bad ≠ []) (hblank : ∀ c ∈ bad, Text.isBlank c = false)
    (before after : List Char) :
    shownLine ((Text.trimRight (before ++ bad ++ after)).take before.length)
      (((Text.trimRight (before ++ bad ++ after)).take (before.length + bad.length)).drop before.length)
      ((Text.trimRight (before ++ bad ++ after)).drop (before.length + bad.length)) =
    shownLine before bad (Text.trimRight after) := by
  rw [Text.trimRight_append hne hblank, ← List.length_append, List.take_left, List.drop_left, List.drop_left,
    List.append_assoc, List.take_left]

/-! ## The lines of a diagnostic of one line -/

variable {e : ClauseError}

/-- Around the clause of one line there are three lines in the colours of the frame. -/
theorem body_of_oneLine (hlines : Text.lines e.clause.toList = [e.clause.toList]) (filename : String) (column : Nat) :
    ∃ place bar below, (∀ line ∈ [place, bar, below], ∀ p ∈ line, p.colour = "" ∨ p.colour = grey) ∧
      e.body filename (0, column) 0 = [place, bar] ++ e.oneLine 1 1 e.span e.clause.toList ++ [below] := by
  refine ⟨_, _, _, ?_, by unfold body; rw [hlines]; rfl⟩
  simp [plain]

/-- A diagnostic of a clause of one line is the message and the clause in its frame, or the message alone if there are
too few characters in the clause. -/
theorem lines_of_oneLine (hlines : Text.lines e.clause.toList = [e.clause.toList])
    (hstart : e.span.start < e.span.stop) (filename : String) :
    e.lines filename = [⟨red, "Error:"⟩, plain " ", plain e.message] ::
      if e.span.stop ≤ e.clause.toList.length + 1 then e.body filename (0, e.span.start) 0 else [] := by
  simp only [lines, hlines, if_pos hstart, Text.lineOf?]
  by_cases hstop : e.span.stop ≤ e.clause.toList.length + 1
  · rw [if_pos (by omega), if_pos (by omega), if_pos hstop]
  · have hlast : ¬ e.span.stop - 1 ≤ e.clause.toList.length := by omega
    rw [if_neg hstop, if_neg hlast]
    split
    · rename_i hnone
      cases hnone
    · rfl

/-- The clause is shown on the fourth line, if the span ends in it. -/
theorem lines_shown (hlines : Text.lines e.clause.toList = [e.clause.toList]) (hstart : e.span.start < e.span.stop)
    (hstop : e.span.stop ≤ e.clause.toList.length) (filename : String) :
    (e.lines filename)[3]? = some (numbered 1 1 ++ clauseLine e.span e.clause.toList) := by
  obtain ⟨place, bar, below, -, hbody⟩ := body_of_oneLine hlines filename e.span.start
  rw [lines_of_oneLine hlines hstart, if_pos (Nat.le_succ_of_le hstop), hbody, oneLine, if_pos hstop]
  rfl

/-- Nothing of the clause is shown, if the span ends behind it. -/
theorem lines_not_shown (hlines : Text.lines e.clause.toList = [e.clause.toList])
    (hstart : e.span.start < e.span.stop) (hstop : e.clause.toList.length < e.span.stop) (filename : String) :
    ∀ line ∈ (e.lines filename).tail, ∀ p ∈ line, p.colour ≠ lightGrey ∧ p.colour ≠ red := by
  obtain ⟨place, bar, below, hframe, hbody⟩ := body_of_oneLine hlines filename e.span.start
  rw [lines_of_oneLine hlines hstart, List.tail_cons]
  split
  · rw [hbody, oneLine, if_neg (Nat.not_le_of_lt hstop)]
    have hdark : ∀ p ∈ unnumbered 1 "│", p.colour = "" ∨ p.colour = darkGrey := by decide
    intro line hline p hp
    have hcolour : p.colour = "" ∨ p.colour = grey ∨ p.colour = darkGrey := by
      simp only [List.mem_append, List.mem_cons, List.not_mem_nil, or_false] at hline hframe
      rcases hline with (hline | rfl) | hline
      · rcases hframe line (by tauto) p hp with h | h <;> simp [h]
      · rcases hdark p hp with h | h <;> simp [h]
      · rcases hframe line (by tauto) p hp with h | h <;> simp [h]
    rcases hcolour with h | h | h <;> rw [h] <;> decide
  · simp

end ClauseError

/-! ## Unknown tokens -/

/-- A text of characters of one byte has as many bytes as characters. -/
theorem byteLength_eq_length {l : List Char} (h : ∀ c ∈ l, c.utf8Size = 1) : byteLength l = l.length := by
  induction l with
  | nil => rfl
  | cons c l ih =>
    rw [List.forall_mem_cons] at h
    rw [byteLength, h.1, ih h.2, List.length_cons, Nat.add_comm]

/-- The blanks of one byte stand between tokens or end lines. -/
theorem Token.not_isBlank_of_utf8Size {c : Char} (hsize : c.utf8Size = 1) (hgap : isGap c = false)
    (hend : Text.isLineEnd c = false) : Text.isBlank c = false := by
  rw [Char.utf8Size_eq_one_iff, UInt32.le_iff_toNat_le] at hsize
  have hcode : c.toNat ≤ 127 := hsize
  by_contra hblank
  simp only [Text.isBlank, Text.blankRanges, List.any_cons, List.any_nil, Bool.not_eq_false, Bool.or_eq_true,
    Bool.and_eq_true, decide_eq_true_eq, Bool.or_false] at hblank
  have hcodes : c.toNat = 9 ∨ c.toNat = 10 ∨ c.toNat = 11 ∨ c.toNat = 12 ∨ c.toNat = 13 ∨ c.toNat = 32 := by omega
  rw [← Char.ofNat_toNat c] at hgap hend
  rcases hcodes with h | h | h | h | h | h <;> rw [h] at hgap hend <;> revert hgap hend <;> decide

/-- In front of an unknown token there are as many characters as bytes. -/
theorem ClauseError.PointsInto.exists_before {clause c token : String} {span : Span}
    (h : (ClauseError.unknownToken c token span).PointsInto clause) : c = clause ∧ token.toList ≠ [] ∧
      (∀ k ∈ token.toList, Token.isGap k = false) ∧ ∃ before after, clause.toList = before ++ token.toList ++ after ∧
      span = ⟨before.length, before.length + byteLength token.toList⟩ := by
  cases h with
  | @unknown before l after hsplit hbefore hne hgap =>
    rw [String.toList_ofList, byteLength_append, byteLength_eq_length hbefore]
    exact ⟨rfl, hne, hgap, before, after, hsplit, rfl⟩

namespace Clause

open ClauseError Painted

variable {α : Type} [Scalar α]

/-- The error of an unknown token in a clause of one line starts where the token starts, counted in characters, and ends
so many characters behind as the token has bytes. The diagnostic shows the clause up to the blanks at its end with the
characters between highlighted; if there are too few in the clause, it shows nothing of it. So a token of characters of
one byte is highlighted exactly. -/
theorem shown_of_unknownToken {clause c token : String} {hasObject : Bool} {span : Span}
    (hone : ∀ k ∈ clause.toList, Text.isLineEnd k = false)
    (h : parse (α := α) clause hasObject = .error (.unknownToken c token span)) (filename : String) :
    ∃ before after, clause.toList = before ++ token.toList ++ after ∧
      span = ⟨before.length, before.length + byteLength token.toList⟩ ∧
      let lines := (ClauseError.unknownToken c token span).lines filename
      let cs := Text.trimRight clause.toList
      (span.stop ≤ clause.toList.length → lines[3]? = some (shownLine (cs.take span.start)
        ((cs.take span.stop).drop span.start) (cs.drop span.stop))) ∧
      (clause.toList.length < span.stop → ∀ line ∈ lines.tail, ∀ p ∈ line, p.colour ≠ lightGrey ∧ p.colour ≠ red) ∧
      ((∀ k ∈ token.toList, k.utf8Size = 1) →
        lines[3]? = some (shownLine before token.toList (Text.trimRight after))) := by
  obtain ⟨rfl, hne, hgap, before, after, hsplit, rfl⟩ := (pointsInto_of_parse h).exists_before
  have hlines := Text.lines_eq_singleton (by simp [hsplit, hne]) hone
  have hlt : before.length < before.length + byteLength token.toList := Nat.lt_add_of_pos_right (byteLength_pos hne)
  let span : Span := ⟨before.length, before.length + byteLength token.toList⟩
  let e := ClauseError.unknownToken c token span
  have hline : numbered 1 1 ++ clauseLine span c.toList = _ := clauseLine_eq_shownLine (Nat.le_of_lt hlt) _
  have hshown := fun hstop => (lines_shown (e := e) hlines hlt hstop filename).trans (congrArg some hline)
  refine ⟨before, after, hsplit, rfl, hshown, fun hstop => lines_not_shown (e := e) hlines hlt hstop filename,
    fun hbytes => ?_⟩
  have hlength := byteLength_eq_length hbytes
  have hstop : before.length + byteLength token.toList ≤ c.toList.length := by
    rw [hsplit, hlength, List.length_append, List.length_append]
    omega
  have hblank : ∀ k ∈ token.toList, Text.isBlank k = false := fun k hk =>
    Token.not_isBlank_of_utf8Size (hbytes k hk) (hgap k hk) (hone k (by simp [hsplit, hk]))
  refine (hshown hstop).trans (congrArg some ?_)
  simp only [span, hlength, hsplit, shownLine_trimRight hne hblank]

/-- A name that is no coordinate is highlighted exactly. -/
theorem shown_of_unknownToken_name : (∀ k ∈ "x1 = sx3+1".toList, Text.isLineEnd k = false) ∧
    parse (α := Rat) "x1 = sx3+1" false = .error (.unknownToken "x1 = sx3+1" "sx3" ⟨5, 8⟩) ∧
    ((ClauseError.unknownToken "x1 = sx3+1" "sx3" ⟨5, 8⟩).lines "top.toml")[3]? =
      some (shownLine "x1 = ".toList "sx3".toList "+1".toList) := by
  have hone : ∀ k ∈ "x1 = sx3+1".toList, Text.isLineEnd k = false := by simp [Text.isLineEnd]
  have hparse : parse (α := Rat) "x1 = sx3+1" false = .error (.unknownToken "x1 = sx3+1" "sx3" ⟨5, 8⟩) := by
    decide +kernel
  obtain ⟨before, after, hsplit, hspan, -, -, hshown⟩ := shown_of_unknownToken hone hparse "top.toml"
  have hlength : "x1 = ".toList.length = before.length := congrArg Span.start hspan
  have hparts : "x1 = ".toList ++ ("sx3".toList ++ "+1".toList) = before ++ ("sx3".toList ++ after) := by
    rw [← List.append_assoc before, ← hsplit]
    rfl
  obtain ⟨rfl, hrest⟩ := List.append_inj hparts hlength
  obtain rfl := List.append_cancel_left hrest
  exact ⟨hone, hparse, hshown (by simp; decide)⟩

/-- A token of two bytes is highlighted with the character behind it. -/
theorem not_highlights_token : ¬ ∀ (clause c token filename : String) (hasObject : Bool) (span : Span),
    (∀ k ∈ clause.toList, Text.isLineEnd k = false) →
    parse (α := Rat) clause hasObject = .error (.unknownToken c token span) →
    ∃ before after, clause.toList = before ++ token.toList ++ after ∧ byteLength before = span.start ∧
      shownLine before token.toList (Text.trimRight after) ∈
        (ClauseError.unknownToken c token span).lines filename := by
  intro h
  have hone : ∀ k ∈ "é=0".toList, Text.isLineEnd k = false := by simp [Text.isLineEnd]
  have hparse : parse (α := Rat) "é=0" false = .error (.unknownToken "é=0" "é" ⟨0, 2⟩) := by decide +kernel
  obtain ⟨before, after, hsplit, hbefore, hmem⟩ := h _ _ _ "top.toml" _ _ hone hparse
  have hnil : before = [] := by
    by_contra hne
    exact absurd (byteLength_pos hne) (by simp [hbefore])
  subst hnil
  have hparts : "é".toList ++ "=0".toList = "é".toList ++ after := hsplit
  obtain rfl := List.append_cancel_left hparts
  exact absurd hmem (by decide +kernel)

end Clause

end RectLayout
