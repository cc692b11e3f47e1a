/-!
# Steps that may fail

A step that may fail gives a value or an error.  What is known of both is known of the steps one
after another: the values hand it on, and the first error ends it.

## Main results

* `Fallible.bind`, `Fallible.mapM` and `Fallible.foldlM`: what is known of two steps, of the same
  step for each element, and of steps that hand a value on.
* `Fallible.bind_eq_ok_iff`, `Fallible.elim_eq_ok_iff` and their like: a step that has been made is
  taken apart without opening the program it stands in.

## Design notes

`Fallible wrong right result` says of one result what a triple says of a program: `right` holds of
the value or `wrong` of the error.  The programs it is used for keep no state, and so need none of
the postconditions of triples.
-/

namespace RuleCatalogue

variable {α β ε δ : Type}

/-- **What holds of a step that may fail**: of its error or of its value. -/
def Fallible (wrong : ε → Prop) (right : α → Prop) : Except ε α → Prop
  | .ok a => right a
  | .error e => wrong e

namespace Fallible

variable {wrong : ε → Prop} {right : α → Prop} {result : Except ε α}

theorem of_ok (h : Fallible wrong right result) {a : α} (ha : result = .ok a) : right a := by
  subst ha
  exact h

theorem of_error (h : Fallible wrong right result) {e : ε} (he : result = .error e) : wrong e := by
  subst he
  exact h

theorem mono {wrong' : ε → Prop} {right' : α → Prop} (h : Fallible wrong right result)
    (hwrong : ∀ e, wrong e → wrong' e) (hright : ∀ a, right a → right' a) :
    Fallible wrong' right' result := by
  cases result with
  | ok a => exact hright a h
  | error e => exact hwrong e h

theorem bind {right' : β → Prop} {f : α → Except ε β} (h : Fallible wrong right result)
    (hf : ∀ a, right a → Fallible wrong right' (f a)) : Fallible wrong right' (result >>= f) := by
  cases result with
  | ok a => exact hf a h
  | error e => exact h

theorem map {right' : β → Prop} {f : α → β} (h : Fallible wrong right result)
    (hf : ∀ a, right a → right' (f a)) : Fallible wrong right' (result.map f) := by
  cases result with
  | ok a => exact hf a h
  | error e => exact h

/-- One of two steps. -/
theorem ite {c : Prop} [Decidable c] {other : Except ε α} (hpos : c → Fallible wrong right result)
    (hneg : ¬ c → Fallible wrong right other) :
    Fallible wrong right (if c then result else other) := by
  split
  · next h => exact hpos h
  · next h => exact hneg h

/-- **The same step for each element of a list**: with a value for each of them, what the steps say
of the elements holds of all.  Where one of them fails, its error is the error of the whole, and
`wrong` holds of it. -/
theorem mapM_forall {holds : α → Prop} {f : α → Except ε β} {l : List α}
    (step : ∀ a ∈ l, Fallible wrong (fun _ => holds a) (f a)) :
    Fallible wrong (fun _ => ∀ a ∈ l, holds a) (l.mapM f) := by
  induction l with
  | nil => exact fun _ h => nomatch h
  | cons a rest ih =>
    rw [List.mapM_cons]
    refine (step a List.mem_cons_self).bind fun b hfirst => ?_
    refine (ih fun a ha => step a (List.mem_cons_of_mem _ ha)).bind fun bs hrest => ?_
    exact List.forall_mem_cons.mpr ⟨hfirst, hrest⟩

/-- **The same step for each element of a list**: what every step gives holds of all results.
Unlike `mapM_forall` it speaks of the values returned and not of the elements given. -/
theorem mapM_values {right : β → Prop} {f : α → Except ε β} {l : List α}
    (step : ∀ a ∈ l, Fallible wrong right (f a)) :
    Fallible wrong (fun bs => ∀ b ∈ bs, right b) (l.mapM f) := by
  induction l with
  | nil => exact fun _ h => nomatch h
  | cons a rest ih =>
    rw [List.mapM_cons]
    refine (step a List.mem_cons_self).bind fun b hfirst => ?_
    refine (ih fun a ha => step a (List.mem_cons_of_mem _ ha)).bind fun bs hrest => ?_
    exact List.forall_mem_cons.mpr ⟨hfirst, hrest⟩

theorem mapM {f : α → Except ε β} {l : List α}
    (step : ∀ a ∈ l, Fallible wrong (fun _ => True) (f a)) :
    Fallible wrong (fun _ => True) (l.mapM f) :=
  (mapM_forall step).mono (fun _ h => h) fun _ _ => trivial

/-- **Steps one after another**: what every step hands on holds in the end.  The `invariant` may be
used by the step that is to keep it. -/
theorem foldlM {f : β → α → Except ε β} {invariant : β → Prop} {l : List α}
    (step : ∀ b, ∀ a ∈ l, invariant b → Fallible wrong invariant (f b a)) {b : β}
    (h : invariant b) : Fallible wrong invariant (l.foldlM f b) := by
  induction l generalizing b with
  | nil => exact h
  | cons a rest ih =>
    rw [List.foldlM_cons]
    refine (step b a List.mem_cons_self h).bind fun next hnext => ?_
    exact ih (fun b a ha => step b a (List.mem_cons_of_mem _ ha)) hnext

theorem bind_eq_ok_iff {f : α → Except ε β} {b : β} :
    result >>= f = .ok b ↔ ∃ a, result = .ok a ∧ f a = .ok b := by
  cases result with
  | ok a =>
    change f a = .ok b ↔ _
    simp
  | error e =>
    change (Except.error e : Except ε β) = .ok b ↔ _
    simp

theorem map_eq_ok_iff {f : α → β} {b : β} :
    result.map f = .ok b ↔ ∃ a, result = .ok a ∧ f a = b := by
  cases result with
  | ok a =>
    change Except.ok (f a) = .ok b ↔ _
    simp
  | error e =>
    change (Except.error e : Except ε β) = .ok b ↔ _
    simp

theorem map_eq_error_iff {f : α → β} {e : ε} : result.map f = .error e ↔ result = .error e := by
  cases result with
  | ok a =>
    change Except.ok (f a) = .error e ↔ _
    simp
  | error e' =>
    change (Except.error e' : Except ε β) = .error e ↔ _
    simp

/-- A value that may be missing is there if taking it succeeds. -/
theorem elim_eq_ok_iff {found : Option α} {e : ε} {a : α} :
    found.elim (Except.error e) Except.ok = Except.ok a ↔ found = some a := by
  cases found <;> simp

theorem mapError_eq_ok_iff {f : ε → δ} {a : α} : result.mapError f = .ok a ↔ result = .ok a := by
  cases result with
  | ok a' =>
    constructor
    · rintro ⟨⟩
      rfl
    · rintro ⟨⟩
      rfl
  | error e => exact iff_of_false (by rintro ⟨⟩) (by rintro ⟨⟩)

theorem mapError_eq_error_iff {f : ε → δ} {e : δ} :
    result.mapError f = .error e ↔ ∃ e', result = .error e' ∧ f e' = e := by
  cases result with
  | ok a => exact iff_of_false (by rintro ⟨⟩) (by rintro ⟨_, ⟨⟩, -⟩)
  | error e' =>
    constructor
    · rintro ⟨⟩
      exact ⟨e', rfl, rfl⟩
    · rintro ⟨_, ⟨⟩, rfl⟩
      rfl

end Fallible

end RuleCatalogue
