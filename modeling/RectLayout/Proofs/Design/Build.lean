import RectLayout.Proofs.Design.Entry
import RectLayout.Proofs.Design.Made

/-!
# When a design file is built, and to what

A file is sensible if its names are (`DesignFile.Sensible`): the top and all templates are listed, no name draws itself,
and constraints speak of what their entries declare. None of this depends on the order of the entries.

Each entry grows the first cell of its name by a block, so at the end each such cell holds the blocks of the entries of
its name, in order (`Describes`, `describes_build`). From that the names can be read back, so what is built was sensible
(`sensible_of_describes`). Conversely nothing in a sensible file is refused: while it is built, each instance stands for
one of an entry, so a path from template to template is one from name to name (`Ready`), and a circle of cells would be
one of names (`exists_build`).
-/

namespace RectLayout.DesignFile

open Design Walk

variable {α : Type} {f : DesignFile α} {d e : Design α} {entry : CellEntry α} {k c : CellId} {name entryName : String}
  {ps : List PolygonId} {is : List InstanceId} {cs : List Constraint} {b : Block}

/-! ## Names that make sense -/

/-- An entry has the name. -/
def Lists (f : DesignFile α) (name : String) : Prop := name ∈ f.cells.map CellEntry.name

/-- An entry of the one name has an instance of the other. -/
def Draws (f : DesignFile α) (a b : String) : Prop :=
  ∃ entry ∈ f.cells, entry.name = a ∧ ∃ i ∈ entry.instances, i.cell = b

/-- A file whose names make sense. -/
structure Sensible (f : DesignFile α) : Prop where
  top : f.Lists f.top
  template : ∀ entry ∈ f.cells, ∀ i ∈ entry.instances, f.Lists i.cell
  acyclic : ∀ name, ¬ Relation.TransGen f.Draws name name
  participant : ∀ entry ∈ f.cells, ∀ q ∈ entry.constraints,
    Declares entry q.subject ∧ ∀ name ∈ q.object, Declares entry name

/-- The order of the entries makes no difference to the sense of the names. -/
theorem Sensible.perm {g : DesignFile α} (h : f.Sensible) (htop : g.top = f.top) (hcells : g.cells.Perm f.cells) :
    g.Sensible := by
  have hlists : ∀ name, f.Lists name → g.Lists name := fun name => (hcells.map CellEntry.name).mem_iff.mpr
  have hdraws : ∀ a b, g.Draws a b → f.Draws a b := fun a b ⟨entry, hentry, h⟩ => ⟨entry, hcells.mem_iff.mp hentry, h⟩
  refine ⟨htop ▸ hlists _ h.top, fun entry hentry i hi => ?_, fun name hcycle => ?_, fun entry hentry => ?_⟩
  · exact hlists _ (h.template entry (hcells.mem_iff.mp hentry) i hi)
  · exact h.acyclic name (Relation.TransGen.mono hdraws _ _ hcycle)
  · exact h.participant entry (hcells.mem_iff.mp hentry)

/-- A design with the cells that a file lists finds the names that the file lists. -/
theorem lists_iff (hnames : d.cellNames = f.cells.map CellEntry.name) : f.Lists name ↔ (d.cellNamed? name).isSome := by
  rw [isSome_cellNamed?_iff, hnames, Lists]

/-! ## What a file is built to -/

/-- A design has the cells that a file lists. The first cell of each name holds what the entries of that name in `done`
say, in order, and nothing else; the other cells are empty. -/
structure Describes (f : DesignFile α) (done : List (CellEntry α)) (d : Design α) : Prop where
  names : d.cellNames = f.cells.map CellEntry.name
  first : ∀ name k, d.cellNamed? name = some k → ∃ blocks : List Block,
    List.Forall₂ (Holds d k) (done.filter fun entry => entry.name = name) blocks ∧
      d.cell? k = some ⟨name, blocks.flatMap Block.polygons, blocks.flatMap Block.instances,
        blocks.flatMap Block.constraints, none, none⟩
  rest : ∀ k cell, d.cell? k = some cell → d.cellNamed? cell.name ≠ some k → cell = .ofName cell.name

/-- One more entry says what its block holds. -/
theorem Describes.addEntry {done : List (CellEntry α)} (h : f.Describes done d) (he : f.addEntry d entry = .ok e) :
    f.Describes (done ++ [entry]) e := by
  obtain ⟨k, b, hk, hgrows, hholds⟩ := grows_addEntry he
  have hname : ∀ name c, d.cellNamed? name = some c → c ≠ k → entry.name ≠ name := by
    rintro name c hc hne rfl
    exact hne (Option.some.inj (hc.symm.trans hk))
  refine ⟨hgrows.cellNames.trans h.names, fun name c hc => ?_, fun c cell hcell hc => ?_⟩
  · rw [hgrows.cellNamed?] at hc
    obtain ⟨blocks, hblocks, hcell⟩ := h.first name c hc
    have hblocks : List.Forall₂ (Holds e c) (done.filter fun entry => entry.name = name) blocks :=
      hblocks.imp fun _ _ => .mono hgrows
    rw [List.filter_append]
    by_cases hck : c = k
    · subst hck
      obtain rfl : entry.name = name := (name_of_cellNamed? hk).symm.trans (name_of_cellNamed? hc)
      refine ⟨blocks ++ [b], ?_, ?_⟩
      · simpa using List.rel_append hblocks (.cons hholds .nil)
      · simp [hgrows.cell, hcell]
    · refine ⟨blocks, ?_, by rw [hgrows.others c hck, hcell]⟩
      simpa [hname name c hc hck] using hblocks
  · rw [hgrows.cellNamed?] at hc
    by_cases hck : c = k
    · -- the cell that grew is the first of its name
      subst hck
      refine absurd ?_ hc
      have hsame : e.name (.cell c) = cell.name := by rw [Design.name, hcell]; rfl
      rw [← hsame, hgrows.cellName, name_of_cellNamed? hk, hk]
    · rw [hgrows.others c hck] at hcell
      exact h.rest c cell hcell hc

/-- The cells that a file lists, all empty. -/
def emptyCells (f : DesignFile α) : Design α := f.cells.foldl (fun d e => (d.addCell e.name).1) .empty

theorem emptyCells_eq (f : DesignFile α) :
    f.emptyCells = ⟨(f.cells.map fun entry => Cell.ofName entry.name).toArray, #[], #[]⟩ := by
  have hall : ∀ (l : List (CellEntry α)) (d : Design α), l.foldl (fun d e => (d.addCell e.name).1) d =
      ⟨d.cells ++ (l.map fun entry => Cell.ofName entry.name).toArray, d.polygons, d.instances⟩ := by
    intro l
    induction l with
    | nil => intro d; simp
    | cons entry l ih => intro d; rw [List.foldl_cons, ih]; simp [addCell]
  rw [emptyCells, hall]
  simp [Design.empty]

theorem cellNames_emptyCells (f : DesignFile α) : f.emptyCells.cellNames = f.cells.map CellEntry.name := by
  simp [emptyCells_eq, cellNames, Cell.ofName, Function.comp_def]

theorem eq_ofName_of_emptyCells {cell : Cell α} (h : f.emptyCells.cell? k = some cell) : cell = .ofName cell.name := by
  rw [emptyCells_eq, cell?, List.getElem?_toArray, List.getElem?_map] at h
  obtain ⟨entry, -, rfl⟩ := Option.map_eq_some_iff.mp h
  rfl

theorem describes_emptyCells (f : DesignFile α) : f.Describes [] f.emptyCells := by
  refine ⟨cellNames_emptyCells f, fun name k hk => ⟨[], .nil, ?_⟩, fun k cell hcell _ => eq_ofName_of_emptyCells hcell⟩
  obtain ⟨cell, hcell, rfl⟩ := cell?_of_cellNamed? hk
  rw [hcell, eq_ofName_of_emptyCells hcell]
  rfl

/-- What is built describes the file, and its top is the first cell of the name. -/
theorem describes_build (h : f.build = .ok (d, c)) : d.cellNamed? f.top = some c ∧ f.Describes f.cells d := by
  obtain ⟨d₁, hentries, h⟩ := bind_eq_ok_iff.mp h
  have hdescribes := foldlM_accumulates (P := f.Describes) (fun _ _ _ _ hs hs' => hs.addEntry hs') (describes_emptyCells f)
    hentries
  cases htop : d₁.cellNamed? f.top with
  | none =>
    rw [htop] at h
    cases h
  | some top =>
    rw [htop] at h
    cases h
    exact ⟨htop, hdescribes⟩

/-! ## What is built was sensible -/

/-- What an entry says is found in the first cell of its name. -/
theorem Describes.exists_holds (h : f.Describes f.cells d) (hentry : entry ∈ f.cells) : ∃ k b cell,
    d.cellNamed? entry.name = some k ∧ Holds d k entry b ∧ d.cell? k = some cell ∧ b.instances ⊆ cell.instances := by
  obtain ⟨k, hk⟩ := Option.isSome_iff_exists.mp ((lists_iff h.names).mp (List.mem_map_of_mem hentry))
  obtain ⟨blocks, hblocks, hcell⟩ := h.first _ k hk
  obtain ⟨b, hb, hholds⟩ := exists_of_forall₂ hblocks.flip (List.mem_filter.mpr ⟨hentry, by simp⟩)
  exact ⟨k, b, _, hk, hholds, hcell, fun i hi => List.mem_flatMap.mpr ⟨b, hb, hi⟩⟩

/-- A name that draws another is one of a cell that draws another. -/
theorem Describes.edge_of_draws (h : f.Describes f.cells d) {a b : String} (hab : f.Draws a b) : ∃ k t,
    d.cellNamed? a = some k ∧ d.cellNamed? b = some t ∧ Edge d.templates k t := by
  obtain ⟨entry, hentry, rfl, i, hi, rfl⟩ := hab
  obtain ⟨k, b, cell, hk, hholds, hcell, hsub⟩ := h.exists_holds hentry
  obtain ⟨id, hid, t, ht, hinst⟩ := exists_of_forall₂ hholds.instances.flip hi
  exact ⟨k, t, hk, ht, mem_templates_iff.mpr ⟨id, _, inst_mem_children_iff.mpr ⟨cell, hcell, hsub hid⟩, hinst, rfl⟩⟩

theorem Describes.path_of_draws (h : f.Describes f.cells d) {a b : String} (hab : Relation.TransGen f.Draws a b) :
    ∃ k t, d.cellNamed? a = some k ∧ d.cellNamed? b = some t ∧ Relation.TransGen (Edge d.templates) k t := by
  induction hab with
  | single hab =>
    obtain ⟨k, t, hk, ht, hedge⟩ := h.edge_of_draws hab
    exact ⟨k, t, hk, ht, .single hedge⟩
  | tail _ hbc ih =>
    obtain ⟨k, t, hk, ht, hpath⟩ := ih
    obtain ⟨t', u, ht', hu, hedge⟩ := h.edge_of_draws hbc
    obtain rfl := Option.some.inj (ht.symm.trans ht')
    exact ⟨k, u, hk, hu, hpath.tail hedge⟩

theorem Denotes.declares {n : Node} (hlength : entry.polygons.length = b.polygons.length)
    (hlength' : entry.instances.length = b.instances.length) (h : Denotes (b.declared entry) entry.name k name n) :
    Declares entry name := by
  cases h with
  | object hsplit hfresh =>
    right
    rw [← List.mem_append, ← map_fst_declared hlength hlength', hsplit]
    simp
  | cell _ hname => exact .inl hname

/-- A file that is described by a design without circles, its top among the cells, is sensible. -/
theorem sensible_of_describes (hd : d.WellFormed) (h : f.Describes f.cells d) (htop : d.cellNamed? f.top = some c) :
    f.Sensible := by
  refine ⟨(lists_iff h.names).mpr (by rw [htop]; rfl), fun entry hentry i hi => ?_, fun name hcycle => ?_,
    fun entry hentry q hq => ?_⟩
  · obtain ⟨k, b, cell, -, hholds, -⟩ := h.exists_holds hentry
    obtain ⟨id, -, t, ht, -⟩ := exists_of_forall₂ hholds.instances.flip hi
    exact (lists_iff h.names).mpr (by rw [ht]; rfl)
  · obtain ⟨k, t, hk, ht, hpath⟩ := h.path_of_draws hcycle
    obtain rfl := Option.some.inj (hk.symm.trans ht)
    obtain ⟨u, hku, huk⟩ := Relation.TransGen.head'_iff.mp hpath
    exact hd.acyclic k u hku huk
  · obtain ⟨k, b, cell, -, hholds, -⟩ := h.exists_holds hentry
    have hlength := hholds.polygons.length_eq
    have hlength' := hholds.instances.length_eq
    obtain ⟨x, -, hx⟩ := exists_of_forall₂ hholds.constraints.flip hq
    refine ⟨hx.subject.declares hlength hlength', fun name hname => ?_⟩
    have hobject := hx.object
    rw [hname] at hobject
    generalize x.object = object at hobject
    cases hobject with
    | some hn => exact hn.declares hlength hlength'

/-! ## What is sensible is built -/

section

variable [Scalar α]

/-- A design while a file is built: no cell is frozen, and each instance stands for one of an entry. -/
structure Ready (f : DesignFile α) (d : Design α) : Prop where
  reachable : d.Reachable
  names : d.cellNames = f.cells.map CellEntry.name
  active : ∀ c, (d.cell? c).isSome → d.isActive c
  draws : ∀ i inst, d.instance? i = some inst → f.Draws (d.name (.cell inst.parent)) (d.name (.cell inst.template))

theorem Ready.grows (h : f.Ready d) (he : e.Reachable) (hg : Grows d e k ps is cs)
    (hnew : ∀ i ∈ is, ∀ inst, e.instance? i = some inst →
      f.Draws (d.name (.cell inst.parent)) (d.name (.cell inst.template))) : f.Ready e where
  reachable := he
  names := hg.cellNames.trans h.names
  active c hc := by
    rw [hg.isSome_cell?] at hc
    rw [hg.isActive]
    exact h.active c hc
  draws i inst hi := by
    rw [hg.cellName, hg.cellName]
    by_cases hmem : i ∈ is
    · exact hnew i hmem inst hi
    · rw [hg.instances i hmem] at hi
      exact h.draws i inst hi

theorem Ready.isActive (h : f.Ready d) (hk : d.cellNamed? name = some k) : d.isActive k := by
  obtain ⟨cell, hcell, -⟩ := cell?_of_cellNamed? hk
  exact h.active k (by rw [hcell]; rfl)

/-- While a file is built, a name leads to the same cell. -/
theorem Ready.cellNamed? (h : f.Ready d) (he : f.Ready e) (name : String) : e.cellNamed? name = d.cellNamed? name := by
  rw [cellNamed?_eq, cellNamed?_eq, h.names, he.names]

/-- A path from template to template is one from name to name. -/
theorem Ready.draws_of_reaches (h : f.Ready d) {t : CellId} (hr : Reaches d.templates t k) :
    Relation.ReflTransGen f.Draws (d.name (.cell t)) (d.name (.cell k)) := by
  refine Relation.ReflTransGen.lift (fun c => d.name (.cell c)) (fun a b hab => ?_) _ _ hr
  obtain ⟨i, inst, hi, hinst, rfl⟩ := mem_templates_iff.mp hab
  have howner := ((h.reachable.wellFormed.mem_children_iff _ _).mp hi).1
  rw [owner?, hinst] at howner
  obtain rfl := Option.some.inj howner
  exact h.draws i inst hinst

/-- A polygon of an entry is taken. -/
theorem exists_addPolygonEntry (h : f.Ready d) (hk : d.cellNamed? name = some k) (scope : Scope) (p : PolygonEntry α) :
    ∃ s, addPolygonEntry k (d, scope) p = .ok s ∧ f.Ready s.1 := by
  have htaken : ∃ s, addPolygonEntry k (d, scope) p = .ok s := by
    obtain ⟨d₁, id, hadd⟩ : ∃ d₁ id, d.addPolygon k p.name p.layer = .ok (d₁, id) :=
      ⟨_, _, addPolygon_eq (h.isActive hk) p.name p.layer⟩
    obtain ⟨hgrows, hid⟩ := grows_addPolygon hadd
    simp only [addPolygonEntry]
    cases p.box with
    | none => exact ⟨_, bind_eq_ok_iff.mpr ⟨_, hadd, rfl⟩⟩
    | some box =>
      have howner : d₁.owner? (.polygon id) = some k := by rw [owner?, hid]; rfl
      have hset := setBox_eq howner ((hgrows.isActive k).trans (h.isActive hk)) box
      exact ⟨_, bind_eq_ok_iff.mpr ⟨_, hadd, bind_eq_ok_iff.mpr ⟨_, hset, rfl⟩⟩⟩
  obtain ⟨⟨e, scope'⟩, htaken⟩ := htaken
  obtain ⟨id, hgrows, -, -⟩ := grows_addPolygonEntry htaken
  exact ⟨_, htaken, h.grows (reachable_addPolygonEntry h.reachable htaken) hgrows (by simp)⟩

/-- An instance of an entry is taken, as no name draws itself. -/
theorem exists_addInstanceEntry (hf : f.Sensible) (h : f.Ready d) (hentry : entry ∈ f.cells)
    (hk : d.cellNamed? entry.name = some k) (scope : Scope) {i : InstanceEntry} (hi : i ∈ entry.instances) :
    ∃ s, addInstanceEntry f k (d, scope) i = .ok s ∧ f.Ready s.1 := by
  have hdraws : f.Draws entry.name i.cell := ⟨entry, hentry, rfl, i, hi, rfl⟩
  obtain ⟨t, ht⟩ := Option.isSome_iff_exists.mp ((lists_iff h.names).mp (hf.template entry hentry i hi))
  obtain ⟨drawn, hdrawn, -⟩ := cell?_of_cellNamed? ht
  have hfree : k ∉ d.reachable t := by
    intro hmem
    have hback := h.draws_of_reaches (mem_reachable_iff.mp hmem)
    rw [name_of_cellNamed? ht, name_of_cellNamed? hk] at hback
    exact hf.acyclic _ (Relation.TransGen.head' hdraws hback)
  obtain ⟨d₁, id, hadd⟩ : ∃ d₁ id, d.addInstance k i.name t = .ok (d₁, id) :=
    ⟨_, _, addInstance_eq (h.isActive hk) i.name (by rw [hdrawn]; rfl) hfree⟩
  have htaken : addInstanceEntry f k (d, scope) i = .ok (d₁, (i.name, .inst id) :: scope) := by
    simp only [addInstanceEntry, ht]
    exact bind_eq_ok_iff.mpr ⟨_, hadd, rfl⟩
  obtain ⟨hgrows, hid⟩ := grows_addInstance hadd
  refine ⟨_, htaken, h.grows (reachable_addInstanceEntry h.reachable htaken) hgrows ?_⟩
  intro j hj inst hinst
  obtain rfl := List.mem_singleton.mp hj
  obtain rfl := Option.some.inj (hid.symm.trans hinst)
  rwa [name_of_cellNamed? hk, name_of_cellNamed? ht]

/-- A constraint of an entry is taken if its participants are in the scope, of which all objects exist. -/
theorem exists_addConstraintEntry {declared : List (String × Node)} (h : f.Ready d)
    (hk : d.cellNamed? entryName = some k)
    (hscope : ∀ x ∈ scopeOf declared entryName k, (d.owner? x.2).isSome) {q : ConstraintEntry}
    (hsubject : q.subject ∈ (scopeOf declared entryName k).map Prod.fst)
    (hobject : ∀ name ∈ q.object, name ∈ (scopeOf declared entryName k).map Prod.fst) :
    ∃ e, addConstraintEntry entryName k (scopeOf declared entryName k) d q = .ok e ∧ f.Ready e ∧
      ∀ x ∈ scopeOf declared entryName k, (e.owner? x.2).isSome := by
  have htaken : ∃ e, addConstraintEntry entryName k (scopeOf declared entryName k) d q = .ok e := by
    obtain ⟨subject, hresolve, hmem⟩ := exists_resolve entryName hsubject
    obtain ⟨object, hobject, hmem'⟩ : ∃ object, q.object.mapM
        ((scopeOf declared entryName k).resolve entryName) = .ok object ∧ ∀ n ∈ object, (d.owner? n).isSome := by
      cases hq : q.object with
      | none => exact ⟨none, rfl, by simp⟩
      | some name =>
        obtain ⟨n, hresolve', hmem'⟩ := exists_resolve entryName (hobject name hq)
        exact ⟨some n, map_eq_ok_iff.mpr ⟨n, hresolve', rfl⟩, by simpa using hscope _ hmem'⟩
    have hconstrain := constrain_eq (h.isActive hk) (hscope _ hmem) q.clause hmem'
    exact ⟨_, bind_eq_ok_iff.mpr ⟨subject, hresolve, bind_eq_ok_iff.mpr ⟨object, hobject, hconstrain⟩⟩⟩
  obtain ⟨e, htaken⟩ := htaken
  obtain ⟨x, hgrows, -⟩ := grows_addConstraintEntry htaken
  exact ⟨e, htaken, h.grows (reachable_addConstraintEntry h.reachable htaken) hgrows (by simp),
    fun x hx => hgrows.isSome_owner (hscope x hx)⟩

/-- An entry of a sensible file is taken. -/
theorem exists_addEntry (hf : f.Sensible) (h : f.Ready d) (hentry : entry ∈ f.cells) :
    ∃ e, f.addEntry d entry = .ok e ∧ f.Ready e := by
  obtain ⟨k, hk⟩ := Option.isSome_iff_exists.mp ((lists_iff h.names).mp (List.mem_map_of_mem hentry))
  have hfound : ∀ e, f.Ready e → e.cellNamed? entry.name = some k := fun e he => (h.cellNamed? he _).trans hk
  obtain ⟨⟨d₁, scope₁⟩, hpolygons, h₁⟩ := exists_foldlM (P := fun s => f.Ready s.1) (l := entry.polygons)
    (fun s hs p _ => exists_addPolygonEntry hs (hfound _ hs) s.2 p) (s := (d, [(entry.name, .cell k)])) h
  obtain ⟨⟨d₂, scope₂⟩, hinstances, h₂⟩ := exists_foldlM (P := fun s => f.Ready s.1) (l := entry.instances)
    (fun s hs i hi => exists_addInstanceEntry hf hs hentry (hfound _ hs) s.2 hi) (s := (d₁, scope₁)) h₁
  obtain ⟨ps, hps, hps', rfl⟩ := grows_addPolygons hpolygons
  obtain ⟨is, his, his', rfl⟩ := grows_addInstances hinstances
  rw [scopeOf_declared] at hinstances
  have hdeclares : ∀ name, Declares entry name →
      name ∈ (scopeOf (Block.declared ⟨ps, is, []⟩ entry) entry.name k).map Prod.fst := fun name =>
    (mem_map_fst_scopeOf_iff (b := ⟨ps, is, []⟩) hps'.length_eq his'.length_eq).mpr
  have hscope : ∀ x ∈ scopeOf (Block.declared ⟨ps, is, []⟩ entry) entry.name k, (d₂.owner? x.2).isSome := by
    obtain ⟨cell, hcell, -⟩ := cell?_of_cellNamed? (hfound _ h₂)
    exact isSome_owner_of_mem_scopeOf (b := ⟨ps, is, []⟩) (hps'.imp fun _ _ => .mono his) his' (by rw [hcell]; rfl)
  obtain ⟨e, hconstraints, he, -⟩ := exists_foldlM (l := entry.constraints) (s := d₂)
    (P := fun e => f.Ready e ∧ ∀ x ∈ scopeOf (Block.declared ⟨ps, is, []⟩ entry) entry.name k, (e.owner? x.2).isSome)
    (fun e ⟨he, hscope⟩ q hq => by
      obtain ⟨hsubject, hobject⟩ := hf.participant entry hentry q hq
      exact exists_addConstraintEntry he (hfound e he) hscope (hdeclares _ hsubject) fun name hname =>
        hdeclares _ (hobject name hname))
    ⟨h₂, hscope⟩
  refine ⟨e, ?_, he⟩
  simp only [addEntry, hk]
  exact bind_eq_ok_iff.mpr ⟨_, hpolygons, bind_eq_ok_iff.mpr ⟨_, hinstances, hconstraints⟩⟩

theorem ready_emptyCells (f : DesignFile α) : f.Ready f.emptyCells := by
  refine ⟨reachable_addCells f.cells ⟨[], rfl⟩, cellNames_emptyCells f, fun c hc => ?_, fun i inst hi => ?_⟩
  · obtain ⟨cell, hcell⟩ := Option.isSome_iff_exists.mp hc
    exact isActive_iff.mpr ⟨cell, hcell, by rw [eq_ofName_of_emptyCells hcell]; rfl⟩
  · rw [emptyCells_eq] at hi
    cases hi

/-- A sensible file is built. -/
theorem exists_build (hf : f.Sensible) : ∃ d c, f.build = .ok (d, c) := by
  obtain ⟨d, hentries, h⟩ := exists_foldlM (P := f.Ready) (fun d hd entry hentry => exists_addEntry hf hd hentry)
    (ready_emptyCells f)
  obtain ⟨c, hc⟩ := Option.isSome_iff_exists.mp ((lists_iff h.names).mp hf.top)
  refine ⟨d, c, bind_eq_ok_iff.mpr ⟨d, hentries, ?_⟩⟩
  rw [hc]
  rfl

theorem exists_build_iff : (∃ d c, f.build = .ok (d, c)) ↔ f.Sensible := by
  refine ⟨fun ⟨d, c, h⟩ => ?_, exists_build⟩
  obtain ⟨htop, hdescribes⟩ := describes_build h
  exact sensible_of_describes (reachable_build h).wellFormed hdescribes htop

/-- A file is built exactly if its names make sense, and so in any order of its entries. What is built has the top under
its name, is well-formed, and is what the file describes: the first cell of each name holds what the entries of that name
say, in order, and nothing else. -/
theorem build_decides (f : DesignFile α) :
    ((∃ d c, f.build = .ok (d, c)) ↔ f.Sensible) ∧
    (∀ cells, cells.Perm f.cells → ((∃ d c, build ⟨f.top, cells⟩ = .ok (d, c)) ↔ ∃ d c, f.build = .ok (d, c))) ∧
    ∀ d c, f.build = .ok (d, c) → d.cellNamed? f.top = some c ∧ d.WellFormed ∧ f.Describes f.cells d := by
  refine ⟨exists_build_iff, fun cells hcells => ?_, fun d c h => ?_⟩
  · rw [exists_build_iff, exists_build_iff]
    exact ⟨fun h => h.perm rfl hcells.symm, fun h => h.perm rfl hcells⟩
  · obtain ⟨htop, hdescribes⟩ := describes_build h
    exact ⟨htop, (reachable_build h).wellFormed, hdescribes⟩

end

/-- Two entries of one name fill one cell. A constraint speaks of the last object of a name in its own entry, or of the
cell. -/
example : (build (⟨"pad", [⟨"pad", [⟨"rim", "met1", none⟩], [], []⟩, ⟨"pad", [⟨"rim", "met1", none⟩, ⟨"rim", "via1", none⟩],
    [], [⟨"rim", "width=1", some "pad"⟩]⟩]⟩ : DesignFile Rat)).map (fun r => (r.2, r.1.cell? ⟨0⟩, r.1.cell? ⟨1⟩)) =
    .ok (⟨0⟩, some ⟨"pad", [⟨0⟩, ⟨1⟩, ⟨2⟩], [], [⟨.polygon ⟨2⟩, "width=1", some (.cell ⟨0⟩)⟩], none, none⟩,
      some (.ofName "pad")) := by decide +kernel

end RectLayout.DesignFile
