/-!
# Steps that may fail

What is known of a step made of others is read off its parts:

* `bind_eq_ok_iff`, `bind_eq_error_iff` — one step after another;
* `mapError_eq_ok_iff`, `mapError_eq_error_iff` — a step whose error is passed on in other terms;
* `map_eq_ok_iff`, `map_eq_error_iff` — a step whose value is passed on in other terms;
* `mapM_eq_ok`, `mapM_eq_error` — the same step for each item of a list;
* `errorOf?` — the error alone; `errorOf?_map`, `errorOf?_bind` — that of a step made of others.
-/

namespace Propositional

theorem bind_eq_ok_iff {ε α β : Type} {x : Except ε α} {next : α → Except ε β} {b : β} :
    x >>= next = .ok b ↔ ∃ a, x = .ok a ∧ next a = .ok b := by
  cases x with
  | error e =>
    constructor
    · intro h
      cases h
    · rintro ⟨a, ha, _⟩
      cases ha
  | ok a =>
    constructor
    · intro h
      exact ⟨a, rfl, h⟩
    · rintro ⟨_, ha, h⟩
      cases ha
      exact h

theorem bind_eq_error_iff {ε α β : Type} {x : Except ε α} {next : α → Except ε β} {e : ε} :
    x >>= next = .error e ↔ x = .error e ∨ ∃ a, x = .ok a ∧ next a = .error e := by
  cases x with
  | error e' =>
    constructor
    · intro h
      cases h
      exact .inl rfl
    · rintro (h | ⟨_, ha, _⟩)
      · cases h
        rfl
      · cases ha
  | ok a =>
    constructor
    · intro h
      exact .inr ⟨a, rfl, h⟩
    · rintro (h | ⟨_, ha, h⟩)
      · cases h
      · cases ha
        exact h

theorem mapError_eq_ok_iff {ε ε' α : Type} {x : Except ε α} {wrap : ε → ε'} {a : α} :
    x.mapError wrap = .ok a ↔ x = .ok a := by
  cases x with
  | error e =>
    constructor <;> intro h <;> cases h
  | ok b =>
    constructor <;> intro h <;> cases h <;> rfl

theorem mapError_eq_error_iff {ε ε' α : Type} {x : Except ε α} {wrap : ε → ε'} {e : ε'} :
    x.mapError wrap = .error e ↔ ∃ cause, x = .error cause ∧ wrap cause = e := by
  cases x with
  | error cause =>
    constructor
    · intro h
      cases h
      exact ⟨cause, rfl, rfl⟩
    · rintro ⟨_, hcause, rfl⟩
      cases hcause
      rfl
  | ok a =>
    constructor
    · intro h
      cases h
    · rintro ⟨_, hcause, _⟩
      cases hcause

theorem map_eq_ok_iff {ε α β : Type} {x : Except ε α} {f : α → β} {b : β} :
    x.map f = .ok b ↔ ∃ a, x = .ok a ∧ f a = b := by
  cases x with
  | error e =>
    constructor
    · intro h
      cases h
    · rintro ⟨_, ha, _⟩
      cases ha
  | ok a =>
    constructor
    · intro h
      cases h
      exact ⟨a, rfl, rfl⟩
    · rintro ⟨_, ha, rfl⟩
      cases ha
      rfl

theorem map_eq_error_iff {ε α β : Type} {x : Except ε α} {f : α → β} {e : ε} :
    x.map f = .error e ↔ x = .error e := by
  cases x with
  | error e' =>
    constructor <;> intro h <;> cases h <;> rfl
  | ok a =>
    constructor <;> intro h <;> cases h

theorem mapM_eq_ok {ε α β : Type} {items : List α} {f : α → Except ε β} {g : α → β}
    (h : ∀ item ∈ items, f item = .ok (g item)) : items.mapM f = .ok (items.map g) := by
  induction items with
  | nil => rfl
  | cons item items ih =>
    have hitem := h item List.mem_cons_self
    have hitems := ih fun later hlater => h later (List.mem_cons_of_mem _ hlater)
    rw [List.mapM_cons, hitem, hitems]
    rfl

/-- A step that can fail in one way only fails so if it fails for any item. -/
theorem mapM_eq_error {ε α β : Type} {items : List α} {f : α → Except ε β} {e : ε}
    (honly : ∀ item ∈ items, ∀ cause, f item = .error cause → cause = e)
    (h : ∃ item ∈ items, f item = .error e) : items.mapM f = .error e := by
  induction items with
  | nil => simp at h
  | cons item items ih =>
    rw [List.mapM_cons]
    cases hitem : f item with
    | error cause =>
      rw [honly item List.mem_cons_self cause hitem]
      rfl
    | ok b =>
      have hlater : ∃ later ∈ items, f later = .error e := by
        obtain ⟨later, hmem, hfails⟩ := h
        rcases List.mem_cons.1 hmem with rfl | hmem
        · rw [hitem] at hfails
          cases hfails
        · exact ⟨later, hmem, hfails⟩
      rw [ih (fun later hmem => honly later (List.mem_cons_of_mem _ hmem)) hlater]
      rfl

/-! ### The error alone -/

/-- The error of a step that fails. -/
def errorOf? {ε α : Type} : Except ε α → Option ε
  | .ok _ => none
  | .error e => some e

theorem errorOf?_eq_some_iff {ε α : Type} {x : Except ε α} {e : ε} :
    errorOf? x = some e ↔ x = .error e := by
  cases x <;> simp [errorOf?]

theorem errorOf?_map {ε α β : Type} (x : Except ε α) (f : α → β) :
    errorOf? (x.map f) = errorOf? x := by
  cases x <;> rfl

/-- Of two steps the first error counts. -/
theorem errorOf?_bind {ε α β : Type} {x : Except ε α} {next : α → Except ε β} {later : Option ε}
    (h : ∀ a, x = .ok a → errorOf? (next a) = later) :
    errorOf? (x >>= next) = (errorOf? x).or later := by
  cases x with
  | error e => rfl
  | ok a => exact h a rfl

end Propositional
