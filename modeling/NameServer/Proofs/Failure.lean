/-!
# Steps that can fail

What succeeds in several steps succeeds in each of them. What fails, fails with
the first thing that is wrong in the order of the steps.
-/

namespace NameServer

section
variable {ε α β : Type}

theorem ok_bind (a : α) (f : α → Except ε β) : (Except.ok a >>= f) = f a := rfl

theorem bind_ok_iff (x : Except ε α) (f : α → Except ε β) (b : β) :
    (x >>= f) = .ok b ↔ ∃ a, x = .ok a ∧ f a = .ok b := by
  refine ⟨fun h => ?_, fun ⟨a, hx, hf⟩ => by rw [hx, ok_bind, hf]⟩
  cases x with
  | error e => cases h
  | ok a => exact ⟨a, rfl, h⟩

/-- A step that only checks. -/
theorem check_bind_ok_iff (x : Except ε Unit) (f : Unit → Except ε β) (b : β) :
    (x >>= f) = .ok b ↔ x = .ok () ∧ f () = .ok b := by
  rw [bind_ok_iff]
  exact ⟨fun ⟨(), hx, hf⟩ => ⟨hx, hf⟩, fun ⟨hx, hf⟩ => ⟨(), hx, hf⟩⟩

theorem map_ok_iff (f : α → β) (x : Except ε α) (b : β) : (f <$> x) = .ok b ↔ ∃ a, x = .ok a ∧ f a = b := by
  cases x <;> simp [Functor.map, Except.map]

theorem toOption_eq_some_iff {x : Except ε α} {a : α} : x.toOption = some a ↔ x = .ok a := by
  cases x <;> simp [Except.toOption]

/-! ## Complaints -/

/-- A step fails with the first of the complaints, and only when there is one. -/
def Reports (step : Except ε α) (complaints : List ε) : Prop :=
  ∀ e, step = .error e ↔ complaints.head? = some e

theorem reports_ok (a : α) : Reports (.ok a : Except ε α) [] := fun e => by simp

theorem reports_error (e : ε) : Reports (.error e : Except ε α) [e] := fun e' => by simp

variable {step : Except ε α} {next : α → Except ε β} {first rest : List ε}

theorem Reports.exists_ok_iff (h : Reports step first) : (∃ a, step = .ok a) ↔ first = [] := by
  cases step with
  | error e =>
    have hnil : first ≠ [] := by
      rintro rfl
      cases (h e).mp rfl
    exact iff_of_false (by simp) hnil
  | ok a =>
    cases first with
    | nil => exact iff_of_true ⟨a, rfl⟩ rfl
    | cons e _ => exact nomatch (h e).mpr rfl

theorem Reports.bind (hstep : Reports step first) (hnext : ∀ a, Reports (next a) rest) :
    Reports (step >>= next) (first ++ rest) := by
  intro e
  cases step with
  | error e' =>
    rw [List.head?_append, (hstep e').mp rfl, Option.some_or]
    exact reports_error e' e
  | ok a =>
    rw [hstep.exists_ok_iff.mp ⟨a, rfl⟩]
    exact hnext a e

/-- A check that throws where `holds` fails, before a step. -/
theorem Reports.checked (h : Reports step rest) {fails holds : Prop} [Decidable fails] [Decidable holds]
    (hfails : fails ↔ ¬ holds) (e : ε) :
    Reports (if fails then throw e >>= fun _ : Unit => step else step) ((if holds then [] else [e]) ++ rest) := by
  by_cases hholds : holds
  · rw [if_neg fun hf => hfails.mp hf hholds, if_pos hholds]
    exact h
  · rw [if_pos (hfails.mpr hholds), if_neg hholds]
    exact (reports_error e).bind fun _ => h

end

end NameServer
