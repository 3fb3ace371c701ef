import Mathlib.Data.List.Basic

set_option autoImplicit false

/-! # Computations that may fail

A computation that did not fail went through all its parts: what each of the combinators says about a
result, so that proofs take computations apart without unfolding them. -/

namespace Deduction

variable {ε ε' α β : Type}

theorem bind_eq_ok {x : Except ε α} {next : α → Except ε β} {b : β} :
    x >>= next = .ok b ↔ ∃ a, x = .ok a ∧ next a = .ok b := by
  cases x with
  | error e => simp [bind, Except.bind]
  | ok a => simp [bind, Except.bind]

theorem pure_eq_ok {a b : α} : (pure a : Except ε α) = .ok b ↔ a = b := by
  simp [pure, Except.pure]

theorem mapError_eq_ok {fn : ε → ε'} {x : Except ε α} {a : α} :
    x.mapError fn = .ok a ↔ x = .ok a := by
  cases x with
  | error e => simp [Except.mapError]
  | ok b => simp [Except.mapError]

theorem bind_eq_error {x : Except ε α} {next : α → Except ε β} {e : ε} :
    x >>= next = .error e ↔ x = .error e ∨ ∃ a, x = .ok a ∧ next a = .error e := by
  cases x with
  | error e' => simp [bind, Except.bind]
  | ok a => simp [bind, Except.bind]

theorem mapError_eq_error {fn : ε → ε'} {x : Except ε α} {e' : ε'} :
    x.mapError fn = .error e' ↔ ∃ e, x = .error e ∧ fn e = e' := by
  cases x with
  | error e => simp [Except.mapError]
  | ok a => simp [Except.mapError]

theorem toOption_eq_some {x : Except ε α} {a : α} : x.toOption = some a ↔ x = .ok a := by
  cases x with
  | error e => simp [Except.toOption]
  | ok b => simp [Except.toOption]

theorem toOption_bind (x : Except ε α) (next : α → Except ε β) :
    (x >>= next).toOption = x.toOption.bind fun a => (next a).toOption := by
  cases x <;> rfl

theorem mapM_cons_eq_ok {fn : α → Except ε β} {x : α} {xs : List α} {ys : List β} :
    (x :: xs).mapM fn = .ok ys ↔ ∃ y ys', fn x = .ok y ∧ xs.mapM fn = .ok ys' ∧ ys = y :: ys' := by
  rw [List.mapM_cons, bind_eq_ok]
  constructor
  · rintro ⟨y, hy, h⟩
    obtain ⟨ys', hys', h⟩ := bind_eq_ok.1 h
    exact ⟨y, ys', hy, hys', (pure_eq_ok.1 h).symm⟩
  · rintro ⟨y, ys', hy, hys', rfl⟩
    exact ⟨y, hy, bind_eq_ok.2 ⟨ys', hys', rfl⟩⟩

/-- Each element gave a result, and these are all of them. -/
theorem mem_of_mapM_eq_ok {fn : α → Except ε β} {xs : List α} {ys : List β}
    (h : xs.mapM fn = .ok ys) :
    (∀ x ∈ xs, ∃ y ∈ ys, fn x = .ok y) ∧ ∀ y ∈ ys, ∃ x ∈ xs, fn x = .ok y := by
  induction xs generalizing ys with
  | nil =>
      obtain rfl : ([] : List β) = ys := by simpa [pure, Except.pure] using h
      simp
  | cons x xs ih =>
      obtain ⟨y, ys', hy, hys', rfl⟩ := mapM_cons_eq_ok.1 h
      obtain ⟨hto, hfrom⟩ := ih hys'
      refine ⟨fun x' hx' => ?_, fun y' hy' => ?_⟩
      · rcases List.mem_cons.1 hx' with rfl | hx'
        · exact ⟨y, List.mem_cons_self .., hy⟩
        · obtain ⟨y', hy', hfn⟩ := hto x' hx'
          exact ⟨y', List.mem_cons_of_mem _ hy', hfn⟩
      · rcases List.mem_cons.1 hy' with rfl | hy'
        · exact ⟨x, List.mem_cons_self .., hy⟩
        · obtain ⟨x', hx', hfn⟩ := hfrom y' hy'
          exact ⟨x', List.mem_cons_of_mem _ hx', hfn⟩

/-- If every element gives a result with a property, then all of them together do. -/
theorem exists_mapM_eq_ok {fn : α → Except ε β} {property : β → Prop} {xs : List α}
    (h : ∀ x ∈ xs, ∃ y, fn x = .ok y ∧ property y) :
    ∃ ys, xs.mapM fn = .ok ys ∧ ∀ y ∈ ys, property y := by
  induction xs with
  | nil => exact ⟨[], rfl, by simp⟩
  | cons x xs ih =>
      obtain ⟨y, hy, hproperty⟩ := h x (List.mem_cons_self ..)
      obtain ⟨ys, hys, hproperties⟩ := ih fun x' hx' => h x' (List.mem_cons_of_mem _ hx')
      refine ⟨y :: ys, mapM_cons_eq_ok.2 ⟨y, ys, hy, hys, rfl⟩, fun y' hy' => ?_⟩
      rcases List.mem_cons.1 hy' with rfl | hy'
      · exact hproperty
      · exact hproperties y' hy'

theorem mapM_eq_ok_map {fn : α → Except ε β} {g : α → β} {xs : List α}
    (h : ∀ x ∈ xs, fn x = .ok (g x)) : xs.mapM fn = .ok (xs.map g) := by
  induction xs with
  | nil => rfl
  | cons x xs ih =>
      have htail := ih fun x' hx' => h x' (List.mem_cons_of_mem _ hx')
      exact mapM_cons_eq_ok.2 ⟨g x, xs.map g, h x (List.mem_cons_self ..), htail, rfl⟩

theorem mapM_eq_ok_self {fn : α → Except ε α} {xs : List α} (h : ∀ x ∈ xs, fn x = .ok x) :
    xs.mapM fn = .ok xs := by
  rw [mapM_eq_ok_map h, List.map_id']

/-- A run that fails does so at one of the elements, those before it having been taken. -/
theorem exists_of_foldlM_eq_error {fn : β → α → Except ε β} {b : β} {xs : List α} {e : ε}
    (h : xs.foldlM fn b = .error e) :
    ∃ front x back b', xs = front ++ x :: back ∧ front.foldlM fn b = .ok b' ∧ fn b' x = .error e := by
  induction xs generalizing b with
  | nil => cases h
  | cons x xs ih =>
      rw [List.foldlM_cons] at h
      rcases bind_eq_error.1 h with hx | ⟨b₁, hx, hxs⟩
      · exact ⟨[], x, xs, b, rfl, rfl, hx⟩
      · obtain ⟨front, y, back, b', rfl, hfront, hy⟩ := ih hxs
        exact ⟨x :: front, y, back, b', rfl, bind_eq_ok.2 ⟨b₁, hx, hfront⟩, hy⟩

theorem forM_eq_ok {fn : α → Except ε Unit} {xs : List α} :
    xs.forM fn = .ok () ↔ ∀ x ∈ xs, fn x = .ok () := by
  induction xs with
  | nil => exact ⟨fun _ => by simp, fun _ => rfl⟩
  | cons x xs ih =>
      show (fn x >>= fun _ => xs.forM fn) = .ok () ↔ _
      rw [bind_eq_ok, List.forall_mem_cons, ← ih]
      constructor
      · rintro ⟨_, h⟩
        exact h
      · intro h
        exact ⟨(), h⟩

/-- What a search found is what it made of one of the elements. -/
theorem exists_of_findSomeM?_eq_ok {fn : α → Except ε (Option β)} {xs : List α} {b : β}
    (h : xs.findSomeM? fn = .ok (some b)) : ∃ x ∈ xs, fn x = .ok (some b) := by
  induction xs with
  | nil => exact absurd h (by simp [List.findSomeM?, pure, Except.pure])
  | cons x xs ih =>
      obtain ⟨found, hfound, h⟩ := bind_eq_ok.1 h
      cases found with
      | none =>
          obtain ⟨x', hx', hfn⟩ := ih h
          exact ⟨x', List.mem_cons_of_mem _ hx', hfn⟩
      | some b' =>
          obtain rfl : b' = b := by simpa using pure_eq_ok.1 h
          exact ⟨x, List.mem_cons_self .., hfound⟩

/-- A search fails at one of the elements. -/
theorem exists_of_findSomeM?_eq_error {fn : α → Except ε (Option β)} {xs : List α} {e : ε}
    (h : xs.findSomeM? fn = .error e) : ∃ x ∈ xs, fn x = .error e := by
  induction xs with
  | nil => cases h
  | cons x xs ih =>
      rcases bind_eq_error.1 h with h | ⟨found, -, h⟩
      · exact ⟨x, List.mem_cons_self .., h⟩
      · cases found with
        | none =>
            obtain ⟨x', hx', hfn⟩ := ih h
            exact ⟨x', List.mem_cons_of_mem _ hx', hfn⟩
        | some b => cases h

/-- A search that fails at no element has a result, and it is one that an element gave, if any did. -/
theorem exists_findSomeM?_eq_ok {fn : α → Except ε (Option β)} {xs : List α}
    (h : ∀ x ∈ xs, ∃ r, fn x = .ok r) :
    ∃ r, xs.findSomeM? fn = .ok r ∧ (r.isSome = true ↔ ∃ x ∈ xs, ∃ b, fn x = .ok (some b)) := by
  induction xs with
  | nil => exact ⟨none, rfl, by simp⟩
  | cons x xs ih =>
      obtain ⟨⟨r, hr⟩, hxs⟩ := List.forall_mem_cons.1 h
      cases r with
      | some b =>
          refine ⟨some b, bind_eq_ok.2 ⟨some b, hr, rfl⟩, fun _ => ?_, fun _ => rfl⟩
          exact ⟨x, List.mem_cons_self .., b, hr⟩
      | none =>
          obtain ⟨r, hrest, hiff⟩ := ih hxs
          refine ⟨r, bind_eq_ok.2 ⟨none, hr, hrest⟩, hiff.trans ?_⟩
          simp [hr]

/-- A search finds nothing exactly if no element gives anything. -/
theorem findSomeM?_eq_ok_none {fn : α → Except ε (Option β)} {xs : List α} :
    xs.findSomeM? fn = .ok none ↔ ∀ x ∈ xs, fn x = .ok none := by
  induction xs with
  | nil => exact ⟨fun _ => by simp, fun _ => rfl⟩
  | cons x xs ih =>
      rw [List.forall_mem_cons, ← ih]
      constructor
      · intro h
        obtain ⟨found, hfound, h⟩ := bind_eq_ok.1 h
        cases found with
        | none => exact ⟨hfound, h⟩
        | some b => exact absurd (pure_eq_ok.1 h) (by simp)
      · rintro ⟨hx, hxs⟩
        exact bind_eq_ok.2 ⟨none, hx, hxs⟩

/-- Where one search has a result, so has another one that fares alike with each element, and it finds
    something exactly if the first does. -/
theorem exists_findSomeM?_congr {fn fn' : α → Except ε (Option β)} {xs : List α}
    (h : ∀ x ∈ xs, ∀ r, fn x = .ok r → ∃ r', fn' x = .ok r' ∧ r'.isSome = r.isSome)
    {r : Option β} (hr : xs.findSomeM? fn = .ok r) :
    ∃ r', xs.findSomeM? fn' = .ok r' ∧ r'.isSome = r.isSome := by
  induction xs with
  | nil => exact ⟨r, hr, rfl⟩
  | cons x xs ih =>
      obtain ⟨hx, hxs⟩ := List.forall_mem_cons.1 h
      obtain ⟨found, hfound, hr⟩ := bind_eq_ok.1 hr
      obtain ⟨found', hfound', hsame⟩ := hx found hfound
      cases found with
      | none =>
          obtain rfl : found' = none := by simpa using hsame
          obtain ⟨r', hr', hsame'⟩ := ih hxs hr
          exact ⟨r', bind_eq_ok.2 ⟨none, hfound', hr'⟩, hsame'⟩
      | some b =>
          obtain rfl := pure_eq_ok.1 hr
          obtain ⟨b', rfl⟩ := Option.isSome_iff_exists.1 hsame
          exact ⟨some b', bind_eq_ok.2 ⟨some b', hfound', rfl⟩, rfl⟩

end Deduction
