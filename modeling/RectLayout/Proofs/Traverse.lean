import Mathlib.Data.List.Forall2

/-!
# Readers that may fail, one element after another

A list is read if each of its elements is (`mapM_ok_iff`, `exists_mapM`, `exists_error_of_mapM`), and then a property of
all that was read is one of what each element is read to (`forall_mem_iff_of_mapM`). A fold that may fail keeps what its
steps keep (`foldlM_keeps`, `foldlM_accumulates`); if it succeeds, so did every step (`exists_step_of_foldlM`), and if it
fails, one step did (`exists_error_of_foldlM`, `exists_foldlM`).
-/

namespace RectLayout

variable {ε β γ : Type}

theorem bind_eq_ok_iff {x : Except ε β} {f : β → Except ε γ} {y : γ} :
    x.bind f = .ok y ↔ ∃ a, x = .ok a ∧ f a = .ok y := by
  cases x with
  | error e => simp [Except.bind]
  | ok a => simp [Except.bind]

theorem bind_eq_error_iff {x : Except ε β} {f : β → Except ε γ} {e : ε} :
    x.bind f = .error e ↔ x = .error e ∨ ∃ a, x = .ok a ∧ f a = .error e := by
  cases x with
  | error e' => simp [Except.bind]
  | ok a => simp [Except.bind]

theorem map_eq_ok_iff {x : Except ε β} {f : β → γ} {y : γ} : f <$> x = .ok y ↔ ∃ a, x = .ok a ∧ f a = y := by
  cases x with
  | error e => simp [Functor.map, Except.map]
  | ok a => simp [Functor.map, Except.map]

theorem mapError_eq_ok_iff {ε' : Type} {x : Except ε β} {f : ε → ε'} {y : β} : x.mapError f = .ok y ↔ x = .ok y := by
  cases x <;> simp [Except.mapError]

theorem mapError_eq_error_iff {ε' : Type} {x : Except ε β} {f : ε → ε'} {e : ε'} :
    x.mapError f = .error e ↔ ∃ e', x = .error e' ∧ f e' = e := by
  cases x <;> simp [Except.mapError]

/-- A list is read to what its elements are read to. -/
theorem mapM_ok_iff {f : β → Except ε γ} {l : List β} {r : List γ} :
    l.mapM f = .ok r ↔ List.Forall₂ (fun a b => f a = .ok b) l r := by
  induction l generalizing r with
  | nil =>
    rw [List.mapM_nil, List.forall₂_nil_left_iff]
    exact ⟨fun h => (Except.ok.inj h).symm, fun h => by rw [h]; rfl⟩
  | cons a l ih =>
    rw [List.mapM_cons]
    show Except.bind _ _ = _ ↔ _
    rw [bind_eq_ok_iff, List.forall₂_cons_left_iff]
    constructor
    · rintro ⟨b, hb, h⟩
      obtain ⟨s, hs, h⟩ := bind_eq_ok_iff.mp h
      exact ⟨b, s, hb, ih.mp hs, (Except.ok.inj h).symm⟩
    · rintro ⟨b, s, hb, hs, rfl⟩
      exact ⟨b, hb, bind_eq_ok_iff.mpr ⟨s, ih.mpr hs, rfl⟩⟩

/-- A list is related to some list if each of its elements is related to something. -/
theorem exists_forall₂ {R : β → γ → Prop} {l : List β} (h : ∀ a ∈ l, ∃ b, R a b) : ∃ r, List.Forall₂ R l r := by
  induction l with
  | nil => exact ⟨[], .nil⟩
  | cons a l ih =>
    obtain ⟨b, hb⟩ := h a List.mem_cons_self
    obtain ⟨r, hr⟩ := ih fun a' ha' => h a' (List.mem_cons_of_mem a ha')
    exact ⟨b :: r, .cons hb hr⟩

/-- A list is read if each of its elements is. -/
theorem exists_mapM {f : β → Except ε γ} {l : List β} (h : ∀ a ∈ l, ∃ b, f a = .ok b) : ∃ r, l.mapM f = .ok r := by
  simp only [mapM_ok_iff]
  exact exists_forall₂ h

/-- A list is not read because one of its elements is not. -/
theorem exists_error_of_mapM {f : β → Except ε γ} {l : List β} {e : ε} (h : l.mapM f = .error e) :
    ∃ a ∈ l, f a = .error e := by
  induction l with
  | nil => cases h
  | cons a l ih =>
    rw [List.mapM_cons] at h
    rcases bind_eq_error_iff.mp h with hstep | ⟨b, -, h⟩
    · exact ⟨a, List.mem_cons_self, hstep⟩
    · rcases bind_eq_error_iff.mp h with hrest | ⟨_, -, h⟩
      · obtain ⟨a', ha', hfail⟩ := ih hrest
        exact ⟨a', List.mem_cons_of_mem a ha', hfail⟩
      · cases h

/-- What holds of everything that was read holds of what each element is read to. -/
theorem forall_mem_iff_of_mapM {f : β → Except ε γ} {l : List β} {r : List γ} (h : l.mapM f = .ok r) {P : γ → Prop} :
    (∀ b ∈ r, P b) ↔ ∀ a ∈ l, ∃ b, f a = .ok b ∧ P b := by
  rw [mapM_ok_iff] at h
  induction h with
  | nil => simp
  | cons hab _ ih => simp [ih, hab]

/-- What every step of a fold keeps holds at its end. -/
theorem foldlM_keeps {P : β → Prop} {f : β → γ → Except ε β} {l : List γ} {s s' : β}
    (hf : ∀ s, P s → ∀ a ∈ l, ∀ s', f s a = .ok s' → P s') (hs : P s) (h : l.foldlM f s = .ok s') : P s' := by
  induction l generalizing s with
  | nil => rwa [← Except.ok.inj h]
  | cons a l ih =>
    rw [List.foldlM_cons] at h
    obtain ⟨t, ht, h⟩ := bind_eq_ok_iff.mp h
    exact ih (fun s hs b hb => hf s hs b (List.mem_cons_of_mem a hb)) (hf s hs a List.mem_cons_self t ht) h

/-- What every step of a fold extends to one more element holds at its end of all of them. -/
theorem foldlM_accumulates {P : List γ → β → Prop} {f : β → γ → Except ε β} {l : List γ} {s s' : β}
    (hf : ∀ done a s s', P done s → f s a = .ok s' → P (done ++ [a]) s') (hs : P [] s) (h : l.foldlM f s = .ok s') :
    P l s' := by
  have hall : ∀ (l done : List γ) (s : β), P done s → l.foldlM f s = .ok s' → P (done ++ l) s' := by
    intro l
    induction l with
    | nil =>
      intro done s hs h
      rwa [List.append_nil, ← Except.ok.inj h]
    | cons a l ih =>
      intro done s hs h
      rw [List.foldlM_cons] at h
      obtain ⟨t, ht, h⟩ := bind_eq_ok_iff.mp h
      rw [List.append_cons]
      exact ih (done ++ [a]) t (hf done a s t hs ht) h
  exact hall l [] s hs h

/-- A fold that succeeded took every step. -/
theorem exists_step_of_foldlM {f : β → γ → Except ε β} {l : List γ} {s s' : β} (h : l.foldlM f s = .ok s') {a : γ}
    (ha : a ∈ l) : ∃ t t', f t a = .ok t' := by
  induction l generalizing s with
  | nil => cases ha
  | cons b l ih =>
    rw [List.foldlM_cons] at h
    obtain ⟨t, ht, h⟩ := bind_eq_ok_iff.mp h
    rcases List.mem_cons.mp ha with rfl | ha
    · exact ⟨s, t, ht⟩
    · exact ih h ha

/-- A fold that failed came to a step that failed, with what the steps before it keep. -/
theorem exists_error_of_foldlM {P : β → Prop} {f : β → γ → Except ε β} {l : List γ} {s : β} {e : ε}
    (hf : ∀ s, P s → ∀ a ∈ l, ∀ s', f s a = .ok s' → P s') (hs : P s) (h : l.foldlM f s = .error e) :
    ∃ a ∈ l, ∃ t, P t ∧ f t a = .error e := by
  induction l generalizing s with
  | nil => cases h
  | cons a l ih =>
    rw [List.foldlM_cons] at h
    rcases bind_eq_error_iff.mp h with hstep | ⟨t, hstep, h⟩
    · exact ⟨a, List.mem_cons_self, s, hs, hstep⟩
    · obtain ⟨b, hb, hfail⟩ :=
        ih (fun s hs b hb => hf s hs b (List.mem_cons_of_mem a hb)) (hf s hs a List.mem_cons_self t hstep) h
      exact ⟨b, List.mem_cons_of_mem a hb, hfail⟩

/-- A fold succeeds if no step fails after what the steps before it keep. -/
theorem exists_foldlM {P : β → Prop} {f : β → γ → Except ε β} {l : List γ} {s : β}
    (hf : ∀ s, P s → ∀ a ∈ l, ∃ s', f s a = .ok s' ∧ P s') (hs : P s) : ∃ s', l.foldlM f s = .ok s' ∧ P s' := by
  induction l generalizing s with
  | nil => exact ⟨s, rfl, hs⟩
  | cons a l ih =>
    obtain ⟨t, ht, hkept⟩ := hf s hs a List.mem_cons_self
    rw [List.foldlM_cons, ht]
    exact ih (fun s hs b hb => hf s hs b (List.mem_cons_of_mem a hb)) hkept

/-! ## Readers that may have nothing to say -/

theorem mapM_congr {f g : β → Option γ} {l : List β} (h : ∀ a ∈ l, f a = g a) : l.mapM f = l.mapM g := by
  induction l with
  | nil => rfl
  | cons a l ih =>
    rw [List.mapM_cons, List.mapM_cons, h a List.mem_cons_self, ih fun b hb => h b (List.mem_cons_of_mem a hb)]

/-- A fold of which every step has something to say is a fold. -/
theorem foldlM_eq_some {P : β → Prop} {f : β → γ → Option β} {g : β → γ → β} {l : List γ} {s : β}
    (hf : ∀ s, P s → ∀ a ∈ l, f s a = some (g s a) ∧ P (g s a)) (hs : P s) : l.foldlM f s = some (l.foldl g s) := by
  induction l generalizing s with
  | nil => rfl
  | cons a l ih =>
    obtain ⟨hstep, hkept⟩ := hf s hs a List.mem_cons_self
    rw [List.foldlM_cons, hstep, List.foldl_cons]
    exact ih (fun s hs b hb => hf s hs b (List.mem_cons_of_mem a hb)) hkept

/-! ## Related lists -/

/-- What is in one of two related lists is related to something in the other. -/
theorem exists_of_forall₂ {R : β → γ → Prop} {l : List β} {r : List γ} (h : List.Forall₂ R l r) {b : γ} (hb : b ∈ r) :
    ∃ a ∈ l, R a b := by
  induction h with
  | nil => cases hb
  | @cons a c l r ha _ ih =>
    rcases List.mem_cons.mp hb with rfl | hb
    · exact ⟨a, List.mem_cons_self, ha⟩
    · obtain ⟨a', ha', hab⟩ := ih hb
      exact ⟨a', List.mem_cons_of_mem a ha', hab⟩

/-- What was read was read from some element. -/
theorem exists_of_mem_mapM {f : β → Except ε γ} {l : List β} {r : List γ} (h : l.mapM f = .ok r) {b : γ} (hb : b ∈ r) :
    ∃ a ∈ l, f a = .ok b :=
  exists_of_forall₂ (mapM_ok_iff.mp h) hb

/-- What an element is read to is among what was read. -/
theorem exists_mem_of_mapM {f : β → Except ε γ} {l : List β} {r : List γ} (h : l.mapM f = .ok r) {a : β} (ha : a ∈ l) :
    ∃ b ∈ r, f a = .ok b :=
  exists_of_forall₂ (List.Forall₂.flip (mapM_ok_iff.mp h)) ha

/-- What related elements have in common, the lists of them have in common. -/
theorem map_eq_of_forall₂ {δ : Type} {R : β → γ → Prop} {f : β → δ} {g : γ → δ} (h : ∀ a b, R a b → f a = g b)
    {l : List β} {r : List γ} (hlr : List.Forall₂ R l r) : l.map f = r.map g := by
  induction hlr with
  | nil => rfl
  | cons hab _ ih => rw [List.map_cons, List.map_cons, h _ _ hab, ih]

/-- What is found in one of two related lists is related to what is found in the other, if related elements are both
looked for or both not. -/
theorem exists_find?_of_forall₂ {R : β → γ → Prop} {p : β → Bool} {q : γ → Bool} (h : ∀ a b, R a b → p a = q b)
    {l : List β} {r : List γ} (hlr : List.Forall₂ R l r) {a : β} (ha : l.find? p = some a) :
    ∃ b, R a b ∧ r.find? q = some b := by
  induction hlr with
  | nil => cases ha
  | @cons a' b' l r hab _ ih =>
    rw [List.find?_cons] at ha ⊢
    rw [← h a' b' hab]
    cases hp : p a' with
    | true =>
      rw [hp] at ha
      obtain rfl := Option.some.inj ha
      exact ⟨b', hab, rfl⟩
    | false =>
      rw [hp] at ha
      exact ih ha

/-- What is related to all that is found in a list is related to the list, if something is found in each element. -/
theorem forall₂_of_filterMap {δ : Type} {f : γ → Option δ} {R : β → δ → Prop} {l : List β} {m : List γ}
    (hm : ∀ c ∈ m, (f c).isSome) (h : List.Forall₂ R l (m.filterMap f)) :
    List.Forall₂ (fun b c => ∃ x, f c = some x ∧ R b x) l m := by
  induction m generalizing l with
  | nil =>
    rw [List.filterMap_nil, List.forall₂_nil_right_iff] at h
    rw [h]
    exact .nil
  | cons c m ih =>
    rw [List.forall_mem_cons] at hm
    obtain ⟨x, hx⟩ := Option.isSome_iff_exists.mp hm.1
    rw [List.filterMap_cons_some hx] at h
    cases h with
    | cons hb h => exact .cons ⟨x, hx, hb⟩ (ih hm.2 h)

/-- Two lists whose elements are related to the same things are related to the same lists. -/
theorem forall₂_iff_of_forall₂ {δ : Type} {R : β → γ → Prop} {P : β → δ → Prop} {Q : γ → δ → Prop}
    (h : ∀ a b c, R a b → (P a c ↔ Q b c)) {l : List β} {m : List γ} (hlm : List.Forall₂ R l m) {r : List δ} :
    List.Forall₂ P l r ↔ List.Forall₂ Q m r := by
  induction hlm generalizing r with
  | nil => rw [List.forall₂_nil_left_iff, List.forall₂_nil_left_iff]
  | cons hab _ ih =>
    rw [List.forall₂_cons_left_iff, List.forall₂_cons_left_iff]
    simp only [ih, h _ _ _ hab]

end RectLayout
