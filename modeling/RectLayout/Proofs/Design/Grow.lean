import RectLayout.Proofs.Design.Fill
import RectLayout.Proofs.Library.Inventory

/-!
# Designs that grow at one cell

A new polygon, instance or constraint stands at the end of a list of one cell, and all that was there before stays as it
was (`Grows`). So a run of such edits at a cell adds lists to its lists (`Grows.trans`), and changes neither the names of
cells, nor what is found under a name (`Grows.cellNamed?`), nor which cells are frozen.
-/

namespace RectLayout.Design

variable {α : Type} {d e e' : Design α} {k c t : CellId} {name : String}

/-! ## Cells by name -/

/-- What is found under a name depends on the names of the cells only. -/
theorem cellNamed?_eq (d : Design α) (name : String) :
    d.cellNamed? name = (d.cellNames.findIdx? fun n => n == name).map CellId.mk := by
  rw [cellNamed?, cellNames, List.findIdx?_map, ← List.findIdx?_toArray, Array.toArray_toList]
  rfl

theorem isSome_cellNamed?_iff : (d.cellNamed? name).isSome ↔ name ∈ d.cellNames := by
  rw [cellNamed?_eq, Option.isSome_map, List.findIdx?_isSome]
  simp

theorem cell?_of_cellNamed? (h : d.cellNamed? name = some k) : ∃ cell, d.cell? k = some cell ∧ cell.name = name := by
  obtain ⟨n, hn, rfl⟩ := Option.map_eq_some_iff.mp h
  obtain ⟨hlt, hname, -⟩ := Array.findIdx?_eq_some_iff_getElem.mp hn
  exact ⟨d.cells[n], Array.getElem?_eq_getElem hlt, by simpa using hname⟩

theorem name_of_cellNamed? (h : d.cellNamed? name = some k) : d.name (.cell k) = name := by
  obtain ⟨cell, hcell, rfl⟩ := cell?_of_cellNamed? h
  rw [Design.name, hcell]
  rfl

/-! ## Growth -/

/-- `e` is `d` with new objects and constraints at the ends of the lists of the cell `k`. -/
structure Grows (d e : Design α) (k : CellId) (ps : List PolygonId) (is : List InstanceId) (cs : List Constraint) :
    Prop where
  cell : e.cell? k = (d.cell? k).map fun x =>
    { x with polygons := x.polygons ++ ps, instances := x.instances ++ is, constraints := x.constraints ++ cs }
  others : ∀ c, c ≠ k → e.cell? c = d.cell? c
  polygons : ∀ p, p ∉ ps → e.polygon? p = d.polygon? p
  instances : ∀ i, i ∉ is → e.instance? i = d.instance? i
  fresh_polygons : ∀ p ∈ ps, d.polygon? p = none
  fresh_instances : ∀ i ∈ is, d.instance? i = none

namespace Grows

variable {ps ps' : List PolygonId} {is is' : List InstanceId} {cs cs' : List Constraint}

theorem refl (d : Design α) (k : CellId) : Grows d d k [] [] [] := by
  refine ⟨?_, fun _ _ => rfl, fun _ _ => rfl, fun _ _ => rfl, by simp, by simp⟩
  simp only [List.append_nil]
  exact Option.map_id'.symm

theorem trans (h : Grows d e k ps is cs) (h' : Grows e e' k ps' is' cs') :
    Grows d e' k (ps ++ ps') (is ++ is') (cs ++ cs') where
  cell := by
    rw [h'.cell, h.cell, Option.map_map]
    simp only [Function.comp_def, List.append_assoc]
  others c hc := (h'.others c hc).trans (h.others c hc)
  polygons p hp := by
    rw [List.mem_append, not_or] at hp
    exact (h'.polygons p hp.2).trans (h.polygons p hp.1)
  instances i hi := by
    rw [List.mem_append, not_or] at hi
    exact (h'.instances i hi.2).trans (h.instances i hi.1)
  fresh_polygons p hp := by
    by_cases hmem : p ∈ ps
    · exact h.fresh_polygons p hmem
    · rw [← h.polygons p hmem]
      exact h'.fresh_polygons p ((List.mem_append.mp hp).resolve_left hmem)
  fresh_instances i hi := by
    by_cases hmem : i ∈ is
    · exact h.fresh_instances i hmem
    · rw [← h.instances i hmem]
      exact h'.fresh_instances i ((List.mem_append.mp hi).resolve_left hmem)

theorem polygon?_eq_some (h : Grows d e k ps is cs) {p : PolygonId} {x : Polygon α} (hp : d.polygon? p = some x) :
    e.polygon? p = some x := by
  rw [h.polygons p fun hmem => ?_, hp]
  cases hp.symm.trans (h.fresh_polygons p hmem)

theorem instance?_eq_some (h : Grows d e k ps is cs) {i : InstanceId} {x : Instance α} (hi : d.instance? i = some x) :
    e.instance? i = some x := by
  rw [h.instances i fun hmem => ?_, hi]
  cases hi.symm.trans (h.fresh_instances i hmem)

/-- What a cell has beside its lists it keeps. -/
theorem map_cell? {β : Type} {g : Cell α → β} (h : Grows d e k ps is cs)
    (hg : ∀ (x : Cell α) ps is cs, g { x with polygons := ps, instances := is, constraints := cs } = g x) (c : CellId) :
    (e.cell? c).map g = (d.cell? c).map g := by
  by_cases hc : c = k
  · rw [hc, h.cell, Option.map_map]
    exact congrArg (fun g => Option.map g _) (funext fun x => hg x _ _ _)
  · rw [h.others c hc]

theorem isSome_cell? (h : Grows d e k ps is cs) (c : CellId) : (e.cell? c).isSome = (d.cell? c).isSome := by
  have hmap := congrArg Option.isSome (h.map_cell? (g := fun _ => ()) (fun _ _ _ _ => rfl) c)
  rwa [Option.isSome_map, Option.isSome_map] at hmap

theorem cellName (h : Grows d e k ps is cs) (c : CellId) : e.name (.cell c) = d.name (.cell c) := by
  rw [Design.name, Design.name, h.map_cell? (fun _ _ _ _ => rfl)]

theorem cellNames (h : Grows d e k ps is cs) : e.cellNames = d.cellNames := by
  refine List.ext_getElem? fun n => ?_
  rw [getElem?_cellNames, getElem?_cellNames, h.map_cell? (fun _ _ _ _ => rfl)]

theorem cellNamed? (h : Grows d e k ps is cs) (name : String) : e.cellNamed? name = d.cellNamed? name := by
  rw [cellNamed?_eq, cellNamed?_eq, h.cellNames]

theorem isActive (h : Grows d e k ps is cs) (c : CellId) : e.isActive c = d.isActive c := by
  have hfrozen := h.map_cell? (g := Cell.frozen) (fun _ _ _ _ => rfl) c
  simp only [Design.isActive]
  cases hd : d.cell? c <;> cases he : e.cell? c <;> simp_all [Cell.isFrozen]

theorem isSome_owner (h : Grows d e k ps is cs) {n : Node} (hn : (d.owner? n).isSome) : (e.owner? n).isSome := by
  cases n with
  | cell c => rwa [isSome_owner_cell_iff, h.isSome_cell?, ← isSome_owner_cell_iff]
  | polygon p =>
    obtain ⟨x, hx⟩ := Option.isSome_iff_exists.mp (Option.isSome_map.symm.trans hn)
    rw [owner?, h.polygon?_eq_some hx]
    rfl
  | inst i =>
    obtain ⟨x, hx⟩ := Option.isSome_iff_exists.mp (Option.isSome_map.symm.trans hn)
    rw [owner?, h.instance?_eq_some hx]
    rfl

/-- A box of a new polygon makes no difference. -/
theorem writeBox (h : Grows d e k ps is cs) {p : PolygonId} (hp : p ∈ ps) (box : Option (Box α)) :
    Grows d (e.writeBox (.polygon p) box) k ps is cs where
  cell := h.cell
  others := h.others
  polygons q hq := by
    rw [polygon?_writeBox, if_neg, h.polygons q hq]
    rintro heq
    obtain rfl := Node.polygon.inj heq
    exact hq hp
  instances := h.instances
  fresh_polygons := h.fresh_polygons
  fresh_instances := h.fresh_instances

end Grows

/-! ## Edits that add -/

theorem grows_addPolygon {layer : String} {p : PolygonId} (h : d.addPolygon k name layer = .ok (e, p)) :
    Grows d e k [p] [] [] ∧ e.polygon? p = some ⟨name, layer, none, k⟩ := by
  obtain ⟨cell, hcell, -, rfl, rfl⟩ := addPolygon_ok h
  refine ⟨⟨?_, fun c hc => ?_, fun q hq => ?_, fun i _ => rfl, ?_, by simp⟩, ?_⟩
  · simp [cell?_modifyCell, hcell]
  · rw [cell?_modifyCell, if_neg hc.symm, cell?_withPolygon]
  · rw [polygon?_modifyCell, polygon?_withPolygon, if_neg (by simpa using hq)]
  · simp [polygon?_size]
  · rw [polygon?_modifyCell, polygon?_withPolygon, if_pos rfl]

theorem grows_addInstance {i : InstanceId} (h : d.addInstance k name t = .ok (e, i)) :
    Grows d e k [] [i] [] ∧ e.instance? i = some ⟨name, t, none, k⟩ := by
  obtain ⟨cell, hcell, -, -, -, rfl, rfl⟩ := addInstance_ok h
  refine ⟨⟨?_, fun c hc => ?_, fun p _ => rfl, fun j hj => ?_, by simp, ?_⟩, ?_⟩
  · simp [cell?_modifyCell, hcell]
  · rw [cell?_modifyCell, if_neg hc.symm, cell?_withInstance]
  · rw [instance?_modifyCell, instance?_withInstance, if_neg (by simpa using hj)]
  · simp [instance?_size]
  · rw [instance?_modifyCell, instance?_withInstance, if_pos rfl]

theorem grows_constrain {subject : Node} {clause : String} {object : Option Node}
    (h : d.constrain k subject clause object = .ok e) : Grows d e k [] [] [⟨subject, clause, object⟩] := by
  obtain ⟨cell, hcell, -, -, -, rfl⟩ := constrain_ok h
  refine ⟨?_, fun c hc => ?_, fun p _ => rfl, fun i _ => rfl, by simp, by simp⟩
  · simp [cell?_modifyCell, hcell]
  · rw [cell?_modifyCell, if_neg hc.symm]

end RectLayout.Design
