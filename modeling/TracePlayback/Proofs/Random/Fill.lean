import TracePlayback.Random.Basic

/-!
# Filling a list from two sources

What is known of an item is kept, and for every other item something is drawn. So which draw an item
gets depends on how many before it were known.

* `fill_cases`: all that the list is filled with comes from one of the two.
* `Keyed.fill_keys`: it is filled in the order of the items.
* `Keyed.fill_kept`: an item that is known gets what is known of it.
* `Keyed.fill_new`: the others get what they would get if there were no others, and nothing else is
  drawn.
* `fill_again`: so nothing is drawn where all is known.
-/
namespace TracePlayback.Random

variable {ι κ α γ : Type}

/-! ## Items -/

/-- One draw for each item. -/
def drawAll (draw : ι → γ → α × γ) : List ι → γ → List α × γ
  | [], g => ([], g)
  | i :: rest, g =>
    let (a, g) := draw i g
    let (as, g) := drawAll draw rest g
    (a :: as, g)

/-- What is known under the key of an item is kept, and for the others something is drawn. -/
def fill (known : κ → Option α) (key : ι → κ) (draw : ι → γ → α × γ) : List ι → γ → List α × γ
  | [], g => ([], g)
  | i :: rest, g =>
    match known (key i) with
    | some a =>
      let (as, g) := fill known key draw rest g
      (a :: as, g)
    | none =>
      let (a, g) := draw i g
      let (as, g) := fill known key draw rest g
      (a :: as, g)

variable {known : κ → Option α} {key : ι → κ} {keyOf : α → κ} {draw : ι → γ → α × γ}

/-- All that the list is filled with is known, or drawn for an item. -/
theorem fill_cases {items : List ι} {g : γ} {a : α} (ha : a ∈ (fill known key draw items g).1) :
    (∃ k, known k = some a) ∨ ∃ i g, a = (draw i g).1 := by
  induction items generalizing g with
  | nil => cases ha
  | cons i rest ih =>
    unfold fill at ha
    cases hi : known (key i) with
    | some b =>
      simp only [hi, List.mem_cons] at ha
      rcases ha with rfl | ha
      · exact Or.inl ⟨key i, hi⟩
      · exact ih ha
    | none =>
      simp only [hi, List.mem_cons] at ha
      rcases ha with rfl | ha
      · exact Or.inr ⟨i, g, rfl⟩
      · exact ih ha

/-- Where all is known nothing is drawn. -/
theorem fill_again {items : List ι} {as : List α}
    (h : items.map (known ∘ key) = as.map some) (g : γ) :
    fill known key draw items g = (as, g) := by
  induction items generalizing as with
  | nil => rw [List.map_eq_nil_iff.mp h.symm, fill]
  | cons i rest ih =>
    cases as with
    | nil => cases h
    | cons a as =>
      obtain ⟨hi, hrest⟩ := List.cons.inj h
      have hi : known (key i) = some a := hi
      simp only [fill, hi, ih hrest]

/-! ## Keys -/

/-- What is known under a key has that key, and so has what is drawn for an item with it. -/
structure Keyed (known : κ → Option α) (key : ι → κ) (keyOf : α → κ) (draw : ι → γ → α × γ) :
    Prop where
  kept : ∀ {k a}, known k = some a → keyOf a = k
  drawn : ∀ i g, keyOf (draw i g).1 = key i

theorem Keyed.drawAll_keys (h : Keyed known key keyOf draw) (items : List ι) (g : γ) :
    (drawAll draw items g).1.map keyOf = items.map key := by
  induction items generalizing g with
  | nil => rfl
  | cons i rest ih => simp only [drawAll, List.map_cons, h.drawn, ih]

theorem Keyed.fill_keys (h : Keyed known key keyOf draw) (items : List ι) (g : γ) :
    (fill known key draw items g).1.map keyOf = items.map key := by
  induction items generalizing g with
  | nil => rfl
  | cons i rest ih =>
    unfold fill
    cases hi : known (key i) with
    | some a => simp only [List.map_cons, h.kept hi, ih]
    | none => simp only [List.map_cons, h.drawn, ih]

/-- What is known under the key of an item is found under it. -/
theorem Keyed.fill_kept [DecidableEq κ] (h : Keyed known key keyOf draw) {items : List ι} (g : γ)
    {k : κ} {a : α} (hk : k ∈ items.map key) (ha : known k = some a) :
    (fill known key draw items g).1.find? (keyOf · = k) = some a := by
  induction items generalizing g with
  | nil => cases hk
  | cons i rest ih =>
    unfold fill
    by_cases hi : key i = k
    · subst hi
      simp [ha, h.kept ha]
    · -- whatever the first one is, it has another key
      have hrest : k ∈ rest.map key := (List.mem_cons.mp hk).resolve_left (Ne.symm hi)
      cases hfirst : known (key i) with
      | some b => simp [h.kept hfirst, hi, ih g hrest]
      | none => simp [h.drawn, hi, ih (draw i g).2 hrest]

/-- The others have something drawn for them in order, as if there were no others, and nothing else
is drawn. -/
theorem Keyed.fill_new (h : Keyed known key keyOf draw) (items : List ι) (g : γ) :
    drawAll draw (items.filter fun i => (known (key i)).isNone) g =
      ((fill known key draw items g).1.filter fun a => (known (keyOf a)).isNone,
        (fill known key draw items g).2) := by
  induction items generalizing g with
  | nil => rfl
  | cons i rest ih =>
    unfold fill
    cases hi : known (key i) with
    | some a => simp [hi, h.kept hi, ih]
    | none => simp [hi, h.drawn, drawAll, ih]

end TracePlayback.Random
