import RectLayout.Design.Freeze
import RectLayout.Proofs.Search

/-!
# Edits in place

An edit returns a design or an error. A caller who holds one design wants it changed in place, step by step, and finds it
as far as the edit came should it fail (`Design.Change`). Written in this way the edits make all their checks before
they write anything, so each leaves what it returns (`does_addPolygonInPlace`, `does_addInstanceInPlace`,
`does_constrainInPlace`, `does_setBoxInPlace`, `does_freezeInPlace`), and leaves the design alone if it fails
(`Does.safe`, `failSafe`). Whether an instance would close a circle is found by a search with a stack.
-/

namespace RectLayout.Design

variable {α β γ : Type}

/-! ## Changes -/

/-- A change of a design in place. It returns something or stops with an error, and leaves a design in both cases. -/
abbrev Change (α β : Type) := ExceptT LayoutError (StateM (Design α)) β

namespace Change

/-- What a change returns, and the design that it leaves. -/
def outcome (m : Change α β) (d : Design α) : Except LayoutError β × Design α := m.run d

/-- What is read from the design, or the error that reading it gives. -/
def read (f : Design α → Except LayoutError β) : Change α β := ExceptT.mk fun d => (f d, d)

/-- A change does on a design what an edit does that returns a design: it leaves that design, and without one the design
that it was given. -/
def Does (m : Change α β) (d : Design α) (edit : Except LayoutError (Design α × β)) : Prop :=
  m.outcome d = match edit with
    | .ok (d', x) => (.ok x, d')
    | .error e => (.error e, d)

theorem does_throw (e : LayoutError) (d : Design α) : (throw e : Change α β).Does d (.error e) := rfl

/-- Reading changes nothing, and ends the change if it fails. -/
theorem does_read_bind {f : Design α → Except LayoutError β} {m : β → Change α γ} {d : Design α}
    {edit : β → Except LayoutError (Design α × γ)} (h : ∀ x, (m x).Does d (edit x)) :
    (read f >>= m).Does d (f d >>= edit) := by
  have hread : (read f >>= m).outcome d = ExceptT.bindCont m (f d) d := rfl
  unfold Does
  rw [hread]
  cases f d with
  | ok x => exact h x
  | error e => rfl

theorem does_get_bind {m : Design α → Change α β} {d : Design α} {edit : Except LayoutError (Design α × β)}
    (h : (m d).Does d edit) : (get >>= m).Does d edit := h

theorem does_ite {p q : Prop} [Decidable p] [Decidable q] (hpq : p ↔ q) {m m' : Change α β} {d : Design α}
    {edit edit' : Except LayoutError (Design α × β)} (h : m.Does d edit) (h' : m'.Does d edit') :
    (if p then m else m').Does d (if q then edit else edit') := by
  by_cases hp : p
  · rwa [if_pos hp, if_pos (hpq.mp hp)]
  · rwa [if_neg hp, if_neg (hp ∘ hpq.mpr)]

/-- A change that fails leaves the design as it was. -/
def Safe (m : Change α β) (d : Design α) : Prop := ∀ e d', m.outcome d = (.error e, d') → d' = d

/-- A change that does what an edit does is safe. -/
theorem Does.safe {m : Change α β} {d : Design α} {edit : Except LayoutError (Design α × β)} (h : m.Does d edit) :
    m.Safe d := by
  intro e d' hout
  cases edit with
  | ok x => cases hout.symm.trans h
  | error e' => exact congrArg Prod.snd (hout.symm.trans h)

end Change

open Change

/-! ## The edits -/

def addPolygonInPlace (c : CellId) (name layer : String) : Change α PolygonId := do
  let _ ← read fun d => d.getUnfrozen c
  let p : PolygonId := ⟨(← get).polygons.size⟩
  modify fun d => { d with polygons := d.polygons.push ⟨name, layer, none, c⟩ }
  modify fun d => d.modifyCell c fun cell => { cell with polygons := cell.polygons ++ [p] }
  return p

def addInstanceInPlace (c : CellId) (name : String) (template : CellId) : Change α InstanceId := do
  let cell ← read fun d => d.getUnfrozen c
  let drawn ← read fun d => d.getCell template
  if template = c ∨ (← get).reaches template c then throw (.recursiveInstance cell.name drawn.name)
  else
    let i : InstanceId := ⟨(← get).instances.size⟩
    modify fun d => { d with instances := d.instances.push ⟨name, template, none, c⟩ }
    modify fun d => d.modifyCell c fun cell => { cell with instances := cell.instances ++ [i] }
    return i

def constrainInPlace (c : CellId) (subject : Node) (clause : String) (object : Option Node) : Change α Unit := do
  let _ ← read fun d => d.getUnfrozen c
  let _ ← read fun d => d.getOwner subject
  let _ ← read fun d => object.mapM d.getOwner
  modify fun d => d.modifyCell c fun cell =>
    { cell with constraints := cell.constraints ++ [⟨subject, clause, object⟩] }

def setBoxInPlace (n : Node) (box : Box α) : Change α Unit := do
  let c ← read fun d => d.getOwner n
  let _ ← read fun d => d.getUnfrozen c
  modify fun d => d.writeBox n (some box)

def freezeInPlace [Scalar α] (c : CellId) : Change α (Box α) := do
  let cell ← read fun d => d.getCell c
  match cell.frozen with
  | some box => return box
  | none =>
    let d ← get
    match (d.children c).find? fun n => (d.box? n).isNone with
    | some n => throw (.freezePrecondition cell.name (d.name n))
    | none =>
      match (Box.tight? (d.childBoxes c)).or cell.box with
      | none => throw (.freezePrecondition cell.name cell.name)
      | some box =>
        modify fun d => d.modifyCell c fun cell => { cell with box := some box, frozen := some box }
        return box

theorem map_bind {ε : Type} (x : Except ε β) (f : β → Except ε γ) {δ : Type} (g : γ → δ) :
    (x >>= f).map g = x >>= fun a => (f a).map g := by
  cases x <;> rfl

variable (d : Design α) (c : CellId)

theorem does_addPolygonInPlace (name layer : String) :
    (addPolygonInPlace c name layer).Does d (d.addPolygon c name layer) :=
  does_read_bind fun _ => rfl

theorem does_addInstanceInPlace (name : String) (template : CellId) :
    (addInstanceInPlace c name template).Does d (d.addInstance c name template) :=
  does_read_bind fun _ => does_read_bind fun _ => does_get_bind (does_ite contains_reachable_iff.symm (does_throw _ d) rfl)

theorem does_constrainInPlace (subject : Node) (clause : String) (object : Option Node) :
    (constrainInPlace c subject clause object).Does d
      ((d.constrain c subject clause object).map fun d' => (d', ())) := by
  simp only [constrain, map_bind]
  exact does_read_bind fun _ => does_read_bind fun _ => does_read_bind fun _ => rfl

theorem does_setBoxInPlace (n : Node) (box : Box α) :
    (setBoxInPlace n box).Does d ((d.setBox n box).map fun d' => (d', ())) := by
  simp only [setBox, map_bind]
  exact does_read_bind fun _ => does_read_bind fun _ => rfl

theorem does_freezeInPlace [Scalar α] : (freezeInPlace c).Does d (d.freeze c) := by
  refine does_read_bind fun cell => ?_
  cases cell.frozen with
  | some box => rfl
  | none =>
    refine does_get_bind ?_
    dsimp only
    cases (d.children c).find? fun n => (d.box? n).isNone with
    | some n => exact does_throw _ d
    | none =>
      cases (Box.tight? (d.childBoxes c)).or cell.box with
      | none => exact does_throw _ d
      | some box => rfl

/-- In place the edits do what they do on designs, and one that fails leaves the design as it was. -/
structure FailSafe [Scalar α] (d : Design α) : Prop where
  addPolygon : ∀ c name layer, (addPolygonInPlace c name layer).Does d (d.addPolygon c name layer) ∧
    (addPolygonInPlace c name layer).Safe d
  addInstance : ∀ c name template, (addInstanceInPlace c name template).Does d (d.addInstance c name template) ∧
    (addInstanceInPlace c name template).Safe d
  constrain : ∀ c subject clause object, (constrainInPlace c subject clause object).Does d
    ((d.constrain c subject clause object).map fun d' => (d', ())) ∧ (constrainInPlace c subject clause object).Safe d
  setBox : ∀ n box, (setBoxInPlace n box).Does d ((d.setBox n box).map fun d' => (d', ())) ∧
    (setBoxInPlace n box).Safe d
  freeze : ∀ c, (freezeInPlace c).Does d (d.freeze c) ∧ (freezeInPlace c).Safe d

theorem failSafe [Scalar α] : d.FailSafe where
  addPolygon c name layer := ⟨does_addPolygonInPlace d c name layer, (does_addPolygonInPlace d c name layer).safe⟩
  addInstance c name t := ⟨does_addInstanceInPlace d c name t, (does_addInstanceInPlace d c name t).safe⟩
  constrain c subject clause object :=
    ⟨does_constrainInPlace d c subject clause object, (does_constrainInPlace d c subject clause object).safe⟩
  setBox n box := ⟨does_setBoxInPlace d n box, (does_setBoxInPlace d n box).safe⟩
  freeze c := ⟨does_freezeInPlace d c, (does_freezeInPlace d c).safe⟩

end RectLayout.Design
