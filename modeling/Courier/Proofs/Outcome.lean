import Mathlib.Tactic.Common

/-!
# Computations that succeed

What is known of the steps of a computation in `Except` when the whole of it succeeds.  Each lemma
takes one step off, so that a proof about a function of several steps follows the function.

Where success itself is to be shown, three predicates say it together with what is found: a question
is answered by the truth (`Answers`), or says yes only where something holds (`Grants`), or a list
of all that has a property is found (`Collects`).  Where only one fault is to be excluded, `Avoids`
says so.
-/

namespace Courier.Outcome

variable {ε ε' α β : Type}

/-- A sequence succeeds when its first step does and the rest succeeds on the result. -/
theorem bind_eq_ok {x : Except ε α} {f : α → Except ε β} {b : β} :
    (x >>= f) = .ok b ↔ ∃ a, x = .ok a ∧ f a = .ok b := by
  rcases x with e | a
  · constructor
    · intro h
      cases h
    · rintro ⟨a, h, -⟩
      cases h
  · constructor
    · intro h
      exact ⟨a, rfl, h⟩
    · rintro ⟨a', h, hf⟩
      cases h
      exact hf

theorem map_eq_ok {x : Except ε α} {f : α → β} {b : β} :
    x.map f = .ok b ↔ ∃ a, x = .ok a ∧ f a = b := by
  rcases x with e | a
  · simp [Except.map]
  · simp [Except.map]

theorem mapError_eq_ok {x : Except ε α} {f : ε → ε'} {a : α} :
    x.mapError f = .ok a ↔ x = .ok a := by
  rcases x with e | a'
  · simp [Except.mapError]
  · simp [Except.mapError]

/-- A part of a result is decided without the result being written out. -/
theorem exists_of_toOption_map {x : Except ε α} {f : α → β} {b : β}
    (h : x.toOption.map f = some b) : ∃ a, x = .ok a ∧ f a = b := by
  cases x with
  | error e => cases h
  | ok a => exact ⟨a, rfl, Option.some.inj h⟩

/-- Every result of a traversal is the result for one of the elements. -/
theorem exists_of_mem_mapM {f : α → Except ε β} {xs : List α} {ys : List β}
    (h : xs.mapM f = .ok ys) : ∀ y ∈ ys, ∃ x ∈ xs, f x = .ok y := by
  induction xs generalizing ys with
  | nil =>
    cases h
    simp
  | cons x xs ih =>
    rw [List.mapM_cons] at h
    obtain ⟨y, hy, h⟩ := bind_eq_ok.1 h
    obtain ⟨rest, hrest, h⟩ := bind_eq_ok.1 h
    cases h
    intro y' hy'
    rcases List.mem_cons.1 hy' with rfl | hy'
    · exact ⟨x, List.mem_cons_self, hy⟩
    · obtain ⟨x', hx', heq⟩ := ih hrest y' hy'
      exact ⟨x', List.mem_cons_of_mem _ hx', heq⟩

/-- A traversal that succeeds has succeeded on every element. -/
theorem exists_of_mapM_eq_ok {f : α → Except ε β} {xs : List α} {ys : List β}
    (h : xs.mapM f = .ok ys) : ∀ x ∈ xs, ∃ y, f x = .ok y := by
  induction xs generalizing ys with
  | nil => simp
  | cons x xs ih =>
    rw [List.mapM_cons] at h
    obtain ⟨y, hy, h⟩ := bind_eq_ok.1 h
    obtain ⟨rest, hrest, -⟩ := bind_eq_ok.1 h
    exact List.forall_mem_cons.2 ⟨⟨y, hy⟩, ih hrest⟩

/-- A traversal of which no step fails has a result for every element. -/
theorem exists_mapM_eq_ok {f : α → Except ε β} {xs : List α} (h : ∀ a ∈ xs, ∃ b, f a = .ok b) :
    ∃ ys, xs.mapM f = .ok ys ∧ ys.length = xs.length := by
  induction xs with
  | nil => exact ⟨[], rfl, rfl⟩
  | cons a xs ih =>
    obtain ⟨b, hb⟩ := h a List.mem_cons_self
    obtain ⟨ys, hys, hlength⟩ := ih fun a' ha' => h a' (List.mem_cons_of_mem _ ha')
    refine ⟨b :: ys, ?_, by simp [hlength]⟩
    rw [List.mapM_cons, hb, hys]
    rfl

/-- A traversal of which some steps fail, all with one fault, fails with that fault. -/
theorem mapM_eq_error {f : α → Except ε β} {xs : List α} {fault : ε}
    (hall : ∀ a ∈ xs, f a = .error fault ∨ ∃ b, f a = .ok b) (h : ∃ a ∈ xs, f a = .error fault) :
    xs.mapM f = .error fault := by
  induction xs with
  | nil => simp at h
  | cons a xs ih =>
    rw [List.mapM_cons]
    rcases hall a List.mem_cons_self with ha | ⟨b, hb⟩
    · rw [ha]
      rfl
    · have hrest : ∃ a' ∈ xs, f a' = .error fault := by
        obtain ⟨a', ha', hfault⟩ := h
        rcases List.mem_cons.1 ha' with rfl | ha'
        · rw [hb] at hfault
          cases hfault
        · exact ⟨a', ha', hfault⟩
      rw [hb, ih (fun a' ha' => hall a' (List.mem_cons_of_mem _ ha')) hrest]
      rfl

/-! ## A fault that is avoided -/

/-- The computation does not end in the fault. -/
def Avoids (x : Except ε α) (fault : ε) : Prop := x ≠ .error fault

theorem avoids_ok (a : α) {fault : ε} : Avoids (.ok a) fault := nofun

theorem Avoids.bind {x : Except ε α} {f : α → Except ε β} {fault : ε} (hx : Avoids x fault)
    (hf : ∀ a, x = .ok a → Avoids (f a) fault) : Avoids (x >>= f) fault := by
  rcases x with e | a
  · rintro ⟨⟩
    exact hx rfl
  · exact hf a rfl

theorem Avoids.map {x : Except ε α} {f : α → β} {fault : ε} (hx : Avoids x fault) :
    Avoids (f <$> x) fault := by
  rcases x with e | a
  · rintro ⟨⟩
    exact hx rfl
  · exact avoids_ok _

theorem avoids_mapError {x : Except ε α} {f : ε → ε'} {fault : ε'}
    (h : ∀ e, x = .error e → f e ≠ fault) : Avoids (x.mapError f) fault := by
  rcases x with e | a
  · intro hfault
    exact h e rfl (Except.error.inj hfault)
  · exact avoids_ok a

theorem Avoids.mapM {f : α → Except ε β} {xs : List α} {fault : ε}
    (h : ∀ a ∈ xs, Avoids (f a) fault) : Avoids (xs.mapM f) fault := by
  induction xs with
  | nil => exact avoids_ok _
  | cons a xs ih =>
    rw [List.mapM_cons]
    refine (h a List.mem_cons_self).bind fun b _ => ?_
    exact (ih fun a' ha' => h a' (List.mem_cons_of_mem _ ha')).bind fun _ _ => avoids_ok _

/-- One question is asked when the answer to the other is no. -/
theorem Avoids.or {x y : Except ε Bool} {fault : ε} (hx : Avoids x fault) (hy : Avoids y fault) :
    Avoids (do if ← x then return true else y) fault := by
  refine hx.bind fun b _ => ?_
  rcases b with _ | _
  · exact hy
  · exact avoids_ok _

theorem Avoids.anyM {f : α → Except ε Bool} {xs : List α} {fault : ε}
    (h : ∀ a ∈ xs, Avoids (f a) fault) : Avoids (xs.anyM f) fault := by
  induction xs with
  | nil => exact avoids_ok _
  | cons a xs ih =>
    rw [List.anyM]
    refine (h a List.mem_cons_self).bind fun b _ => ?_
    rcases b with _ | _
    · exact ih fun a' ha' => h a' (List.mem_cons_of_mem _ ha')
    · exact avoids_ok _

/-- What ends in no fault succeeds. -/
theorem exists_eq_ok {x : Except ε α} (h : ∀ fault, Avoids x fault) : ∃ a, x = .ok a := by
  rcases x with fault | a
  · exact absurd rfl (h fault)
  · exact ⟨a, rfl⟩

/-! ## Questions and lists -/

/-- A question is answered: yes if and only if `P` holds. -/
def Answers (x : Except ε Bool) (P : Prop) : Prop := ∃ b, x = .ok b ∧ (b = true ↔ P)

/-- A question is answered, and yes only if `P` holds. -/
def Grants (x : Except ε Bool) (P : Prop) : Prop := ∃ b, x = .ok b ∧ (b = true → P)

/-- A list is found, and its members are those with the property `P`. -/
def Collects (x : Except ε (List α)) (P : α → Prop) : Prop := ∃ xs, x = .ok xs ∧ ∀ a, a ∈ xs ↔ P a

variable {P Q : Prop} {x y : Except ε Bool}

theorem Answers.congr (h : Answers x P) (hiff : P ↔ Q) : Answers x Q := by
  obtain ⟨b, hb, h⟩ := h
  exact ⟨b, hb, h.trans hiff⟩

theorem Answers.grants (h : Answers x P) (himp : P → Q) : Grants x Q := by
  obtain ⟨b, hb, h⟩ := h
  exact ⟨b, hb, fun hyes => himp (h.1 hyes)⟩

theorem Grants.imp (h : Grants x P) (himp : P → Q) : Grants x Q := by
  obtain ⟨b, hb, h⟩ := h
  exact ⟨b, hb, fun hyes => himp (h hyes)⟩

theorem Answers.avoids (h : Answers x P) {fault : ε} : Avoids x fault := by
  obtain ⟨b, rfl, -⟩ := h
  exact avoids_ok b

theorem answers_no (h : ¬ P) : Answers (ε := ε) (pure false) P :=
  ⟨false, rfl, by simp [h]⟩

theorem grants_no : Grants (ε := ε) (pure false) P := ⟨false, rfl, by simp⟩

/-- One question is asked when the answer to the other is no. -/
theorem Grants.or (hx : Grants x P) (hy : Grants y P) :
    Grants (do if ← x then return true else y) P := by
  obtain ⟨b, rfl, hb⟩ := hx
  rcases b with _ | _
  · exact hy
  · exact ⟨true, rfl, fun _ => hb rfl⟩

theorem Answers.anyM {f : α → Except ε Bool} {P : α → Prop} {xs : List α}
    (h : ∀ a ∈ xs, Answers (f a) (P a)) : Answers (xs.anyM f) (∃ a ∈ xs, P a) := by
  induction xs with
  | nil => exact ⟨false, rfl, by simp⟩
  | cons a xs ih =>
    obtain ⟨b, hb, hiff⟩ := h a List.mem_cons_self
    obtain ⟨c, hc, hrest⟩ := ih fun a' ha' => h a' (List.mem_cons_of_mem _ ha')
    rcases b with _ | _
    · refine ⟨c, ?_, ?_⟩
      · rw [List.anyM, hb]
        exact hc
      · rw [hrest]
        simp [← hiff]
    · refine ⟨true, ?_, ?_⟩
      · rw [List.anyM, hb]
        rfl
      · simp [← hiff]

theorem anyM_map (f : α → β) (g : β → Except ε Bool) (xs : List α) :
    (xs.map f).anyM g = xs.anyM fun a => g (f a) := by
  induction xs with
  | nil => rfl
  | cons a xs ih => rw [List.map_cons, List.anyM, List.anyM, ih]

theorem Grants.anyM {f : α → Except ε Bool} {xs : List α} (h : ∀ a ∈ xs, Grants (f a) P) :
    Grants (xs.anyM f) P := by
  induction xs with
  | nil => exact grants_no
  | cons a xs ih =>
    obtain ⟨b, hb, hyes⟩ := h a List.mem_cons_self
    have hrest := ih fun a' ha' => h a' (List.mem_cons_of_mem _ ha')
    rw [List.anyM, hb]
    rcases b with _ | _
    · exact hrest
    · exact ⟨true, rfl, fun _ => hyes rfl⟩

theorem Collects.congr {x : Except ε (List α)} {P Q : α → Prop} (h : Collects x P)
    (hiff : ∀ a, P a ↔ Q a) : Collects x Q := by
  obtain ⟨xs, hxs, h⟩ := h
  exact ⟨xs, hxs, fun a => (h a).trans (hiff a)⟩

theorem Collects.avoids {x : Except ε (List α)} {P : α → Prop} (h : Collects x P) {fault : ε} :
    Avoids x fault := by
  obtain ⟨xs, rfl, -⟩ := h
  exact avoids_ok xs

theorem collects_nil {P : α → Prop} (h : ∀ a, ¬ P a) : Collects (ε := ε) (pure []) P :=
  ⟨[], rfl, by simp [h]⟩

/-- What is found for the members of a list is put together. -/
theorem Collects.flatten {f : α → Except ε (List β)} {R : α → β → Prop} (xs : List α)
    (h : ∀ a ∈ xs, Collects (f a) (R a)) :
    Collects (do return (← xs.mapM f).flatten) fun b => ∃ a ∈ xs, R a b := by
  induction xs with
  | nil => exact ⟨[], rfl, by simp⟩
  | cons a xs ih =>
    obtain ⟨found, hfound, hmem⟩ := h a List.mem_cons_self
    obtain ⟨all, hall, hrest⟩ := ih fun a' ha' => h a' (List.mem_cons_of_mem _ ha')
    obtain ⟨lists, hlists, heq⟩ := bind_eq_ok.1 hall
    cases heq
    refine ⟨found ++ lists.flatten, ?_, fun b => ?_⟩
    · rw [List.mapM_cons, hfound, hlists]
      rfl
    · rw [List.mem_append, hmem, hrest]
      simp

theorem Collects.append {x y : Except ε (List α)} {P Q : α → Prop} (hx : Collects x P)
    (hy : Collects y Q) : Collects (do return (← x) ++ (← y)) fun a => P a ∨ Q a := by
  obtain ⟨xs, rfl, hxs⟩ := hx
  obtain ⟨ys, rfl, hys⟩ := hy
  exact ⟨xs ++ ys, rfl, fun a => by rw [List.mem_append, hxs, hys]⟩

end Courier.Outcome
