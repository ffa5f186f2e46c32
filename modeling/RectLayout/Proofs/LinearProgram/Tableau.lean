import RectLayout.LinearProgram.Tableau
import RectLayout.Proofs.LinearProgram.Dictionary

/-!
# Tableaux in exact numbers

In exact numbers a tableau is a dictionary with columns for variables (`Dictionary.column`) and functions of columns for
forms (`Dictionary.combination`). What is done to the functions is done to the forms (`addCells_cells`,
`substitute_combination`, `solved_combination`), although the tableau drops what counts as zero and searches for cells in
their order.

A tableau shows a dictionary if it has the dictionary's rows, and besides them only rows of marks that are zero
(`Shows`). Then it has the point of the dictionary (`Shows.value_eq`), its pivots are the dictionary's
(`Shows.exchange`), and so are its ratio test (`Shows.leaving?_eq`) and how it expresses sums (`Shows.express_eq`).
-/

namespace RectLayout.LinearProgram

variable {d : Dictionary} {m n lo v w : Nat} {e f g : Form} {c : Rat} {a b terms : List (Nat × Rat)}

/-! ## Forms that are zero -/

namespace Form

theorem lookup_terms (hf : f.IsNormal m) (v : Nat) :
    f.terms.lookup v = if f.coefficient v = 0 then none else some (f.coefficient v) := by
  cases hlookup : f.terms.lookup v with
  | none => simp [coefficient, hlookup]
  | some c =>
    have hc := Ascending.ne_zero hf _ (mem_of_lookup hlookup)
    simp [coefficient, hlookup, hc]

/-- The value of `v` where the form is zero. -/
def isolate (f : Form) (v : Nat) : Form := (f.erase v).scale (-1 / f.coefficient v)

theorem isNormal_isolate (hf : f.IsNormal m) (v : Nat) : (f.isolate v).IsNormal m := (isNormal_erase hf v).scale _

theorem coefficient_isolate (hf : f.IsNormal m) (v u : Nat) :
    (f.isolate v).coefficient u = -1 / f.coefficient v * if u = v then 0 else f.coefficient u := by
  rw [isolate, coefficient_scale (isNormal_erase hf v), coefficient_erase]

theorem constant_isolate (f : Form) (v : Nat) : (f.isolate v).constant = -f.constant / f.coefficient v := by
  rw [isolate, constant_scale]
  simp only [erase]
  ring

/-- A variable that occurs in a form has the value of the isolated form exactly where the form is zero. -/
theorem eq_eval_isolate_iff (hf : f.IsNormal m) (hv : f.coefficient v ≠ 0) (x : Nat → Rat) :
    x v = (f.isolate v).eval x ↔ f.eval x = 0 := by
  rw [isolate, eval_scale, eval_erase hf v x]
  field_simp
  constructor <;> intro h <;> linarith

/-- Where a variable has the value of its form, their difference is zero. -/
theorem isolate_sub_single (hf : f.IsNormal m) (hw : w < m) (hvw : v ≠ w) :
    (f.addScaled (-1) (.single w 1)).isolate v = f.solveFor v w := by
  have hnormal := hf.addScaled (isNormal_single hw 1) (-1)
  have hcoefficient : ∀ u, (f.addScaled (-1) (.single w 1)).coefficient u =
      f.coefficient u - if u = w then 1 else 0 := fun u => by
    rw [coefficient_addScaled hf (isNormal_single hw 1), coefficient_single]
    ring
  have hconstant : (f.addScaled (-1) (.single w 1)).constant = f.constant := by
    rw [constant_addScaled]
    simp [single]
  refine ext_of_coefficient (isNormal_isolate hnormal v) (hf.solveFor hw v) (fun u => ?_) ?_
  · rw [coefficient_isolate hnormal, coefficient_solveFor hf hw, hcoefficient, hcoefficient, if_neg hvw, sub_zero]
    by_cases huv : u = v
    · simp [huv, hvw]
    · rw [if_neg huv, if_neg huv]
      split <;> ring
  · rw [constant_isolate, constant_solveFor, hcoefficient, hconstant, if_neg hvw, sub_zero]

end Form

/-! ## Columns of variables -/

/-- The role of the column of a variable with a bound. -/
def Bound.role : Bound → Role
  | .free => .unknown
  | .nonNegative => .slack
  | .zero => .mark

namespace Dictionary

/-- The column of a variable. -/
def column (d : Dictionary) (v : Nat) : Column := ⟨(d.bound v).role, v⟩

/-- The cells of terms. -/
def cells (d : Dictionary) (terms : List (Nat × Rat)) : List (Column × Rat) := terms.map fun t => (d.column t.1, t.2)

/-- A form as a function of columns. -/
def combination (d : Dictionary) (f : Form) : Combination Rat := ⟨f.constant, d.cells f.terms⟩

@[simp] theorem index_column (d : Dictionary) (v : Nat) : (d.column v).index = v := rfl

@[simp] theorem cells_nil (d : Dictionary) : d.cells [] = [] := rfl

@[simp] theorem cells_cons (d : Dictionary) (t : Nat × Rat) (terms : List (Nat × Rat)) :
    d.cells (t :: terms) = (d.column t.1, t.2) :: d.cells terms := rfl

@[simp] theorem constant_combination (d : Dictionary) (f : Form) : (d.combination f).constant = f.constant := rfl

theorem column_inj : d.column v = d.column w ↔ v = w :=
  ⟨fun h => congrArg Column.index h, fun h => congrArg d.column h⟩

theorem role_column_eq_mark_iff : (d.column v).role = .mark ↔ d.bound v = .zero := by
  unfold column
  cases d.bound v <;> simp [Bound.role]

theorem role_column_eq_unknown_iff : (d.column v).role = .unknown ↔ d.bound v = .free := by
  unfold column
  cases d.bound v <;> simp [Bound.role]

theorem column_of_free (hv : d.bound v = .free) : d.column v = ⟨.unknown, v⟩ := by rw [column, hv, Bound.role]

theorem column_fresh (hv : v < d.bounds.size) (b : Bound) : (d.fresh b).2.column v = d.column v := by
  rw [column, bound_fresh, if_neg hv.ne, column]

theorem combination_fresh (hf : f.IsNormal d.bounds.size) (b : Bound) :
    (d.fresh b).2.combination f = d.combination f := by
  have hcells : (d.fresh b).2.cells f.terms = d.cells f.terms :=
    List.map_congr_left fun t ht => by rw [column_fresh (Ascending.lt_of_mem hf ht)]
  rw [combination, hcells, combination]

theorem role_column_ne_unknown_iff (hv : d.bound v ≠ .zero) :
    (d.column v).role ≠ .unknown ↔ d.bound v = .nonNegative := by
  rw [Ne, role_column_eq_unknown_iff]
  cases hbound : d.bound v with
  | free => simp
  | nonNegative => simp
  | zero => exact absurd hbound hv

theorem isNegligible_iff : Combination.isNegligible c ↔ c = 0 := by
  have habs : ¬ Rat.abs c < 0 := by
    unfold Rat.abs
    split <;> linarith
  simp [Combination.isNegligible, Scalar.abs, Scalar.ofRat, Scalar.slack, habs]

theorem consCell_of_ne (v : Column) (hc : c ≠ 0) (cells : List (Column × Rat)) :
    Combination.consCell v c cells = (v, c) :: cells := if_neg (isNegligible_iff.not.mpr hc)

/-- Sums of cells are sums of terms. -/
theorem addCells_cells (hc : c ≠ 0) (hb : ∀ t ∈ b, t.2 ≠ 0) :
    Combination.addCells c (d.cells a) (d.cells b) = d.cells (addTerms c a b) := by
  fun_induction addTerms c a b with
  | case1 b =>
    rw [cells_nil, Combination.addCells]
    induction b with
    | nil => rfl
    | cons t b ih =>
      rw [List.forall_mem_cons] at hb
      rw [cells_cons, List.foldr_cons, ih hb.2, consCell_of_ne _ (mul_ne_zero hb.1 hc), mul_comm]
      rfl
  | case2 a => rw [cells_nil, Combination.addCells.eq_def]; cases a <;> rfl
  | case3 i p a k q b hik ih =>
    simp only [cells_cons] at ih ⊢
    simp only [Combination.addCells, index_column, hik, if_true, ih hb]
  | case4 i p a k q b hik hki ih =>
    rw [List.forall_mem_cons] at hb
    simp only [cells_cons] at ih ⊢
    simp only [Combination.addCells, index_column, hik, hki, if_true, if_false, ih hb.2]
    rw [consCell_of_ne _ (mul_ne_zero hb.1 hc), mul_comm]
  | case5 i p a k q b hik hki s hs ih =>
    rw [List.forall_mem_cons] at hb
    simp only [cells_cons, Combination.addCells, index_column, hik, hki, if_false, ih hb.2]
    exact if_pos (isNegligible_iff.mpr (by rwa [mul_comm]))
  | case6 i p a k q b hik hki s hs ih =>
    rw [List.forall_mem_cons] at hb
    simp only [cells_cons, Combination.addCells, index_column, hik, hki, if_false, ih hb.2]
    rw [mul_comm q c]
    exact consCell_of_ne _ hs _

theorem combination_addScaled (hc : c ≠ 0) (hg : g.IsNormal m) :
    (d.combination f).addScaled c (d.combination g) = d.combination (f.addScaled c g) := by
  rw [Form.addScaled, if_neg hc, Combination.addScaled, combination, combination, combination,
    addCells_cells hc (Ascending.ne_zero hg), mul_comm]

theorem combination_add (hc : c ≠ 0) (v : Nat) :
    (d.combination f).add (d.column v) c = d.combination (f.addScaled c (.single v 1)) := by
  have hone : d.cells [(v, 1)] = [(d.column v, 1)] := rfl
  rw [Form.addScaled, if_neg hc, Form.single, if_neg one_ne_zero, Combination.add, combination, combination, ← hone,
    mul_zero, add_zero, ← addCells_cells hc (by simp)]

theorem combination_scale (hc : c ≠ 0) (f : Form) : (d.combination f).scale c = d.combination (f.scale c) := by
  have hterms : addTerms c [] f.terms = f.terms.map fun t => (t.1, c * t.2) := by rw [addTerms]
  rw [Form.scale, Form.addScaled, if_neg hc, Form.const, hterms]
  simp [Combination.scale, combination, cells, mul_comm]

theorem combination_const (c : Rat) : Combination.const c = d.combination (.const c) := rfl

theorem erase_combination (f : Form) (v : Nat) : (d.combination f).erase (d.column v) = d.combination (f.erase v) := by
  have hfilter : ∀ t : Nat × Rat, decide (d.column t.1 ≠ d.column v) = (t.1 != v) := fun t => by
    simp [column_inj, bne, Bool.beq_eq_decide_eq]
  simp only [Combination.erase, combination, Form.erase, cells, List.filter_map, Function.comp_def, hfilter]

/-- The sorted search for the cell of a variable finds its term. -/
theorem cell?_cells (h : Ascending n lo terms) (v : Nat) : Combination.cell? v (d.cells terms) = terms.lookup v := by
  induction terms generalizing lo with
  | nil => rfl
  | cons t terms ih =>
    obtain ⟨i, c⟩ := t
    obtain ⟨-, -, -, hterms⟩ := h
    rw [cells_cons, Combination.cell?, List.lookup_cons, ih hterms]
    rcases Nat.lt_trichotomy i v with hlt | rfl | hgt
    · have hne : (v == i) = false := by simpa using hlt.ne'
      simp only [index_column, hlt, if_true, hne]
    · simp
    · have hne : (v == i) = false := by simpa using hgt.ne
      have hnone : terms.lookup v = none := List.lookup_eq_none_iff.mpr fun t ht => by
        have := hterms.forall_le t ht
        simpa using by omega
      simp only [index_column, hgt.not_gt, hgt.ne', if_false, hne, hnone]

theorem coefficient?_combination (hf : f.IsNormal m) (v : Nat) :
    (d.combination f).coefficient? (d.column v) = f.terms.lookup v := cell?_cells hf v

/-- A search among the cells of a form finds a variable that occurs in it. -/
theorem exists_of_find?_cells (hf : f.IsNormal m) {p : Column × Rat → Bool} {cell : Column × Rat}
    (h : (d.combination f).cells.find? p = some cell) :
    ∃ v, cell = (d.column v, f.coefficient v) ∧ f.coefficient v ≠ 0 ∧ p (d.column v, f.coefficient v) := by
  obtain ⟨t, ht, rfl⟩ := List.mem_map.mp (List.mem_of_find?_eq_some h)
  obtain ⟨hcoefficient, hne⟩ := (Form.mem_terms_iff hf).mp ht
  have hcell := List.find?_some h
  rw [← hcoefficient] at hne hcell ⊢
  exact ⟨t.1, rfl, hne, hcell⟩

theorem not_of_find?_cells (hf : f.IsNormal m) {p : Column × Rat → Bool} (h : (d.combination f).cells.find? p = none)
    (hv : f.coefficient v ≠ 0) : ¬ p (d.column v, f.coefficient v) :=
  List.find?_eq_none.mp h _ (List.mem_map_of_mem ((Form.mem_terms_iff hf).mpr ⟨rfl, hv⟩))

/-- Replacing a column is replacing its variable. -/
theorem substitute?_combination (hf : f.IsNormal m) (hg : g.IsNormal m) (v : Nat) :
    (d.combination f).substitute? (d.column v) (d.combination g) =
      (f.terms.lookup v).map fun _ => d.combination (f.substitute v g) := by
  rw [Combination.substitute?, coefficient?_combination hf, Form.substitute]
  cases hlookup : f.terms.lookup v with
  | none => rfl
  | some c =>
    have hc := Ascending.ne_zero hf _ (mem_of_lookup hlookup)
    simp only [Option.map_some, erase_combination, combination_addScaled hc hg]

theorem substitute_combination (hf : f.IsNormal m) (hg : g.IsNormal m) (v : Nat) :
    (d.combination f).substitute (d.column v) (d.combination g) = d.combination (f.substitute v g) := by
  rw [Combination.substitute, substitute?_combination hf hg]
  cases hlookup : f.terms.lookup v with
  | none => rw [Form.substitute, hlookup]; rfl
  | some c => rfl

theorem solveFor_combination (hf : f.IsNormal m) (hv : f.coefficient v ≠ 0) :
    (d.combination f).solveFor (d.column v) = d.combination (f.isolate v) := by
  rw [Combination.solveFor, coefficient?_combination hf, Form.lookup_terms hf, if_neg hv]
  simp only [erase_combination]
  exact combination_scale (div_ne_zero (neg_ne_zero.mpr one_ne_zero) hv) _

/-- Solving for the column that enters is solving for its variable. -/
theorem solved_combination (hf : f.IsNormal m) (hw : w < m) (hvw : v ≠ w) (hv : f.coefficient v ≠ 0) :
    Tableau.solved (d.column v) (d.column w) (d.combination f) = d.combination (f.solveFor v w) := by
  have hsingle := Form.isNormal_single hw 1
  rw [Tableau.solved, combination_add (neg_ne_zero.mpr one_ne_zero), solveFor_combination (hf.addScaled hsingle (-1)),
    Form.isolate_sub_single hf hw hvw]
  rwa [Form.coefficient_addScaled hf hsingle, Form.coefficient_single, if_neg hvw, mul_zero, add_zero]

end Dictionary

/-! ## Rows -/

section

variable {κ ω κ' ω' : Type} [BEq κ] [LawfulBEq κ] [BEq κ'] [LawfulBEq κ']

/-- What is dropped has another key. -/
theorem lookup_filter {p : κ → Bool} {k : κ} (hk : p k) (l : List (κ × ω)) :
    (l.filter fun r => p r.1).lookup k = l.lookup k := by
  induction l with
  | nil => rfl
  | cons r l ih =>
    obtain ⟨j, w⟩ := r
    rw [List.filter_cons, List.lookup_cons]
    by_cases hkj : k = j
    · subst hkj
      simp [hk]
    · have hne : (k == j) = false := by simpa using hkj
      rw [hne]
      split
      · rwa [List.lookup_cons, hne]
      · exact ih

theorem lookup_map (key : κ → κ') (hkey : ∀ j k, key j = key k → j = k) (value : ω → ω') (l : List (κ × ω)) (k : κ) :
    (l.map fun r => (key r.1, value r.2)).lookup (key k) = (l.lookup k).map value := by
  induction l with
  | nil => rfl
  | cons r l ih =>
    obtain ⟨j, w⟩ := r
    rw [List.map_cons, List.lookup_cons, List.lookup_cons, ih]
    by_cases hkj : k = j
    · subst hkj
      simp
    · have hne : (k == j) = false := by simpa using hkj
      have hne' : (key k == key j) = false := by simpa using fun h => hkj (hkey _ _ h)
      rw [hne, hne']

end

variable {t : Tableau Rat}

/-- The tableau has the rows of the dictionary, and rows of marks that are zero if the other marks are. -/
structure Shows (t : Tableau Rat) (d : Dictionary) : Prop where
  next : t.next = d.bounds.size
  rows : (t.rows.filter fun r => r.1.role ≠ .mark) = d.rows.map fun r => (d.column r.1, d.combination r.2)
  marks : ∀ r ∈ t.rows, r.1.role = .mark →
    r.2.constant = 0 ∧ ∀ c ∈ r.2.cells, c.1.role = .mark ∧ d.bound c.1.index = .zero
  cost : t.cost = .const 0

theorem shows_empty (n : Nat) : Shows (.empty n) (.empty n) where
  next := Array.size_replicate.symm
  rows := rfl
  marks := List.forall_mem_nil _
  cost := rfl

theorem Shows.mem_rows (h : Shows t d) {r : Nat × Form} (hr : r ∈ d.rows) :
    (d.column r.1, d.combination r.2) ∈ t.rows := by
  have hmem : (d.column r.1, d.combination r.2) ∈ t.rows.filter fun r => r.1.role ≠ .mark := by
    rw [h.rows]
    exact List.mem_map_of_mem hr
  exact List.mem_of_mem_filter hmem

/-- The rows of a tableau are found by their columns. -/
theorem Shows.row?_eq (h : Shows t d) (hv : d.bound v ≠ .zero) :
    t.row? (d.column v) = (d.rows.lookup v).map d.combination := by
  have hrole : decide ((d.column v).role ≠ .mark) = true := by simpa using Dictionary.role_column_eq_mark_iff.not.mpr hv
  rw [Tableau.row?, ← lookup_filter (p := fun c : Column => decide (c.role ≠ .mark)) hrole]
  simp only [h.rows]
  exact lookup_map d.column (fun _ _ => Dictionary.column_inj.mp) d.combination d.rows v

theorem Shows.value_eq (h : Shows t d) (hv : d.bound v = .free) : t.value v = d.value v := by
  have hrow := h.row?_eq (v := v) (hv.trans_ne (by decide))
  rw [Dictionary.column_of_free hv] at hrow
  rw [Tableau.value, hrow, Dictionary.value, Option.map_map]
  rfl

theorem coefficient?_eq_none {f : Combination Rat} {v : Column} (hne : ∀ c ∈ f.cells, c.1.index ≠ v.index) :
    f.coefficient? v = none := by
  rw [Combination.coefficient?]
  generalize f.cells = cells at hne
  induction cells with
  | nil => rfl
  | cons c cells ih =>
    rw [List.forall_mem_cons] at hne
    rw [Combination.cell?, if_neg hne.1, ih hne.2, ite_self]

/-- A column of the rows of marks is a mark. -/
theorem coefficient?_of_marks {f : Combination Rat} (hf : ∀ c ∈ f.cells, c.1.role = .mark ∧ d.bound c.1.index = .zero)
    (hv : d.bound v ≠ .zero) : f.coefficient? (d.column v) = none := by
  refine coefficient?_eq_none fun c hc heq => hv ?_
  rw [Dictionary.index_column] at heq
  exact heq ▸ (hf c hc).2

/-! ## Columns that become basic -/

theorem rows_install {α : Type} [Scalar α] (t : Tableau α) (v : Column) (f : Combination α) :
    (t.install v f).rows = (v, f) :: t.rows.map fun r => (r.1, r.2.substitute v f) := by
  rw [Tableau.install, List.cons.injEq]
  refine ⟨rfl, List.map_congr_left fun r _ => ?_⟩
  rw [Combination.substitute]
  cases r.2.substitute? v f <;> rfl

/-- A mark's row is not changed by what other columns become. -/
theorem substitute_of_marks {f g : Combination Rat}
    (hf : ∀ c ∈ f.cells, c.1.role = .mark ∧ d.bound c.1.index = .zero) (hv : d.bound v ≠ .zero) :
    f.substitute (d.column v) g = f := by
  rw [Combination.substitute, Combination.substitute?, coefficient?_of_marks hf hv, Option.map_none, Option.getD_none]

theorem Shows.install (h : Shows t d) (hnormal : ∀ r ∈ d.rows, r.2.IsNormal m) (hf : f.IsNormal m)
    (hv : d.bound v ≠ .zero) : Shows (t.install (d.column v) (d.combination f)) (d.install v f) := by
  have hrole : (d.column v).role ≠ .mark := Dictionary.role_column_eq_mark_iff.not.mpr hv
  refine ⟨h.next, ?_, ?_, ?_⟩
  · rw [rows_install, List.filter_cons_of_pos (by simpa using hrole), List.filter_map]
    simp only [Function.comp_def]
    rw [h.rows, Dictionary.install, List.map_cons, List.map_map, List.map_map]
    exact congrArg _ (List.map_congr_left fun r hr =>
      congrArg (Prod.mk _) (Dictionary.substitute_combination (hnormal r hr) hf v))
  · rw [rows_install, List.forall_mem_cons, List.forall_mem_map]
    refine ⟨fun hmark => absurd hmark hrole, fun r hr hmark => ?_⟩
    rw [substitute_of_marks (h.marks r hr hmark).2 hv]
    exact h.marks r hr hmark
  · have hcost : (t.install (d.column v) (d.combination f)).cost =
        t.cost.substitute (d.column v) (d.combination f) := rfl
    rw [hcost, h.cost]
    rfl

/-- The tableau without a row. -/
theorem Shows.without (h : Shows t d) (w : Nat) :
    Shows { t with rows := t.rows.filter fun r => r.1 ≠ d.column w } (d.without w) where
  next := h.next
  rows := by
    have hfilter : ∀ r : Nat × Form, decide (d.column r.1 ≠ d.column w) = (r.1 != w) := fun r => by
      simp [Dictionary.column_inj, bne, Bool.beq_eq_decide_eq]
    simp only [List.filter_comm (fun r : Column × Combination Rat => decide (r.1.role ≠ .mark)), h.rows, List.filter_map,
      Function.comp_def, hfilter]
    rfl
  marks r hr := h.marks r (List.mem_of_mem_filter hr)
  cost := h.cost

/-- A pivot of the tableau is a pivot of the dictionary. -/
theorem Shows.exchange (h : Shows t d) (hsolved : d.Solved m) (hmem : (w, f) ∈ d.rows) (hv : f.coefficient v ≠ 0)
    (hbound : d.bound v ≠ .zero) :
    Shows (t.exchange (d.column v) (d.column w) (d.combination f)) (d.exchange v w f) := by
  have hnormal := (hsolved.reduced _ hmem).normal
  have hw := hsolved.lt _ hmem
  have hvw := (hsolved.ne_of_coefficient_ne_zero hmem hv _ hmem).symm
  rw [Tableau.exchange, Dictionary.solved_combination hnormal hw hvw hv]
  exact (h.without w).install (fun r hr => ((hsolved.without w).reduced r hr).normal) (hnormal.solveFor hw v) hbound

/-! ## The row that bounds growth -/

/-- What changes nothing can be dropped. -/
theorem foldl_filter_eq {β γ : Type} {step : β → γ → β} {p : γ → Bool} {l : List γ}
    (h : ∀ a ∈ l, p a = false → ∀ b, step b a = b) (b : β) : (l.filter p).foldl step b = l.foldl step b := by
  induction l generalizing b with
  | nil => rfl
  | cons a l ih =>
    rw [List.forall_mem_cons] at h
    rw [List.filter_cons, List.foldl_cons]
    cases hp : p a with
    | true => exact ih h.2 (step b a)
    | false =>
      rw [h.1 hp b]
      exact ih h.2 b

theorem isBounded_eq_true (c : Rat) : Tableau.isBounded c = true := by simp [Tableau.isBounded, Scalar.toRat?]

/-- The best row so far as the tableau has it. -/
def Dictionary.shown (d : Dictionary) (best : Nat × Form × Rat) : Rat × Column × Combination Rat :=
  (best.2.2, d.column best.1, d.combination best.2.1)

/-- A row counts in the ratio test of the tableau as it does in that of the dictionary. -/
theorem nearer_column {best : Option (Nat × Form × Rat)} (hf : f.IsNormal m) (hw : d.bound w ≠ .zero) :
    Tableau.nearer (d.column v) (best.map d.shown) (d.column w, d.combination f) =
      (d.nearer v best (w, f)).map d.shown := by
  have hrole := Dictionary.role_column_ne_unknown_iff hw
  unfold Tableau.nearer Dictionary.nearer
  dsimp only
  rw [Dictionary.coefficient?_combination hf, Form.lookup_terms hf]
  by_cases hfalls : d.Falls v (w, f)
  · have hgrowth : f.constant / -f.coefficient v = -f.constant / f.coefficient v := by rw [div_neg, neg_div]
    have hreaches : (d.column w).role ≠ .unknown ∧ f.coefficient v < 0 ∧
        Tableau.isBounded (-f.constant / f.coefficient v) = true :=
      ⟨hrole.mpr hfalls.1, hfalls.2, isBounded_eq_true _⟩
    rw [if_neg hfalls.2.ne, if_pos (Dictionary.falls_iff.mpr hfalls), hgrowth]
    refine (if_pos hreaches).trans ?_
    cases best with
    | none => rfl
    | some best =>
      simp only [Option.map_some, Dictionary.shown, Dictionary.index_column, Dictionary.constant_combination,
        Bool.or_eq_true, decide_eq_true_eq, Bool.and_eq_true, beq_iff_eq, apply_ite (Option.map d.shown)]
  · rw [if_neg (Dictionary.falls_iff.not.mpr hfalls)]
    split
    · rfl
    · rename_i c hc
      refine if_neg ?_
      rintro ⟨hunknown, hneg, -⟩
      rw [Option.ite_none_left_eq_some] at hc
      exact hfalls ⟨hrole.mp hunknown, Option.some.inj hc.2 ▸ hneg⟩

/-- The ratio test of a tableau is that of the dictionary. -/
theorem Shows.leaving?_eq (h : Shows t d) (hsolved : d.Solved m) (hrows : ∀ r ∈ d.rows, d.bound r.1 ≠ .zero)
    (hv : d.bound v ≠ .zero) :
    t.leaving? (d.column v) = (d.leaving? v).map fun b => (d.column b.1, d.combination b.2.1) := by
  have hbest : t.rows.foldl (Tableau.nearer (d.column v)) none = (d.leaving? v).map d.shown := by
    -- rows of marks do not bound the growth of `v`, which does not occur in them
    rw [← foldl_filter_eq (p := fun r : Column × Combination Rat => decide (r.1.role ≠ .mark))]
    · rw [h.rows, List.foldl_map, Dictionary.leaving?]
      have hnormal : ∀ r ∈ d.rows, r.2.IsNormal m := fun r hr => (hsolved.reduced r hr).normal
      generalize d.rows = rows at hrows hnormal
      induction rows using List.reverseRecOn with
      | nil => rfl
      | append_singleton rows r ih =>
        rw [List.forall_mem_append, List.forall_mem_singleton] at hrows hnormal
        rw [List.foldl_append, List.foldl_append, List.foldl_cons, List.foldl_cons, List.foldl_nil, List.foldl_nil,
          ih hrows.1 hnormal.1]
        exact nearer_column hnormal.2 hrows.2
    · rintro ⟨w, f⟩ hr hmark best
      have hmark : w.role = .mark := by simpa using hmark
      have hnone := coefficient?_of_marks (h.marks _ hr hmark).2 hv
      dsimp only at hnone
      rw [Tableau.nearer, hnone]
  rw [Tableau.leaving?, hbest, Option.map_map]
  rfl

/-! ## New columns -/

/-- A new column of a tableau is a new variable of the dictionary. -/
theorem Shows.fresh (h : Shows t d) (hsolved : d.Solved d.bounds.size) (b : Bound) :
    (t.fresh b.role).1 = (d.fresh b).2.column d.bounds.size ∧ Shows (t.fresh b.role).2 (d.fresh b).2 := by
  refine ⟨?_, ?_, ?_, fun r hr hmark => ?_, h.cost⟩
  · rw [Dictionary.column, Dictionary.bound_fresh, if_pos rfl, ← h.next]
    rfl
  · simp [Tableau.fresh, Dictionary.fresh, h.next]
  · refine h.rows.trans (List.map_congr_left fun r hr => ?_)
    rw [Dictionary.column_fresh (hsolved.lt r hr), Dictionary.combination_fresh (hsolved.reduced r hr).normal]
  · refine ⟨(h.marks r hr hmark).1, fun c hc => ?_⟩
    obtain ⟨hrole, hbound⟩ := (h.marks r hr hmark).2 c hc
    have hlt := Dictionary.lt_size_of_bound (d := d) (v := c.1.index) (hbound.trans_ne (by decide))
    exact ⟨hrole, by rw [Dictionary.bound_fresh, if_neg hlt.ne, hbound]⟩

/-- No row has a cell of a new column. -/
theorem Shows.coefficient?_fresh (h : Shows t d) (hsolved : d.Solved d.bounds.size) (b : Bound) :
    ∀ r ∈ t.rows, r.2.coefficient? ((d.fresh b).2.column d.bounds.size) = none := by
  refine fun r hr => coefficient?_eq_none fun c hc => Nat.ne_of_lt ?_
  by_cases hmark : r.1.role = .mark
  · exact Dictionary.lt_size_of_bound (((h.marks r hr hmark).2 c hc).2.trans_ne (by decide))
  · have hmem : r ∈ t.rows.filter fun r => r.1.role ≠ .mark := List.mem_filter.mpr ⟨hr, by simpa using hmark⟩
    rw [h.rows] at hmem
    obtain ⟨s, hs, rfl⟩ := List.mem_map.mp hmem
    obtain ⟨p, hp, rfl⟩ := List.mem_map.mp hc
    exact Ascending.lt_of_mem (hsolved.reduced s hs).normal hp

/-! ## Sums of multiples of unknowns -/

/-- Sums are expressed in the columns that are not basic as forms are in the variables that are not. -/
theorem Shows.express_eq (h : Shows t d) (hsolved : d.Solved m) {terms : List (Nat × Rat)}
    (hterms : ∀ p ∈ terms, d.bound p.1 = .free) (c : Rat) :
    t.express terms c = d.combination (d.express ⟨terms, c⟩) := by
  rw [Tableau.express, Dictionary.express, Dictionary.combination_const]
  dsimp only
  generalize Form.const c = e
  induction terms generalizing e with
  | nil => rfl
  | cons p terms ih =>
    obtain ⟨i, q⟩ := p
    rw [List.forall_mem_cons] at hterms
    rw [List.foldl_cons, List.foldl_cons, ← ih hterms.2]
    congr 1
    by_cases hq : q = 0
    · rw [if_pos (Dictionary.isNegligible_iff.mpr hq), Form.addScaled, if_pos hq]
    · rw [if_neg (Dictionary.isNegligible_iff.not.mpr hq), ← Dictionary.column_of_free hterms.1,
        h.row?_eq (hterms.1.trans_ne (by decide)), Dictionary.formOf]
      cases hlookup : d.rows.lookup i with
      | none => exact Dictionary.combination_add hq i
      | some g => exact Dictionary.combination_addScaled hq (hsolved.reduced _ (mem_of_lookup hlookup)).normal

end RectLayout.LinearProgram
