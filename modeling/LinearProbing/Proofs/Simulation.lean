-- SUMMARY: Runs of operations, and when their outcomes are those of a model that holds a list of items.
import Mathlib.Data.List.Perm.Basic

/-! # Simulation by a list of items

A container is compared with a model that holds its items as a list. Each operation either is
refused or has the outcome and the items of the model, up to the order of the items. By induction on
the operations the outcomes of a whole run are then those of a run of the model.

An operation that shows the order of the items, such as one that changes the first few of them, is
matched by the model only for the right order. `Trace` lets the model enumerate its items in another
order before each operation; if no operation shows the order, there is nothing to choose.
-/

namespace LinearProbing

universe u v w x

variable {Op : Type u} {State : Type v} {Outcome : Type w} {α : Type x}

/-- The outcomes of operations one after the other. -/
def outcomes (perform : Op → State → Outcome × State) : State → List Op → List Outcome
  | _, [] => []
  | s, op :: ops => (perform op s).1 :: outcomes perform (perform op s).2 ops

/-- The state after operations one after the other. -/
def final (perform : Op → State → Outcome × State) : State → List Op → State
  | s, [] => s
  | s, op :: ops => final perform (perform op s).2 ops

/-- The outcomes of a model that may enumerate its items in another order before each operation. -/
inductive Trace (model : Op → List α → Outcome × List α) :
    List α → List Op → List Outcome → Prop
  | done (items : List α) : Trace model items [] []
  | step {items order : List α} {op : Op} {ops : List Op} {rest : List Outcome}
      (perm : items.Perm order) (trace : Trace model (model op order).2 ops rest) :
      Trace model items (op :: ops) ((model op order).1 :: rest)

/-- The result of an operation is as the model has it, unless the operation is refused. -/
structure Follows (items : State → List α) (Inv : State → Prop) (Refused : Outcome → Prop)
    (result : Outcome × State) (expected : Outcome × List α) : Prop where
  inv : Inv result.2
  agrees : Refused result.1 ∨ result.1 = expected.1 ∧ (items result.2).Perm expected.2

section

variable {items : State → List α} {Inv : State → Prop} {Refused : Outcome → Prop} {s : State}
  {outcome outcome' : Outcome}

theorem Follows.unchanged (h : Inv s) (houtcome : outcome = outcome') :
    Follows items Inv Refused (outcome, s) (outcome', items s) :=
  ⟨h, .inr ⟨houtcome, List.Perm.refl _⟩⟩

theorem Follows.refused (h : Inv s) (hrefused : Refused outcome)
    {expected : Outcome × List α} : Follows items Inv Refused (outcome, s) expected :=
  ⟨h, .inl hrefused⟩

end

/-- The container follows the model in every operation, and the order of the items matters to some
operations only. -/
structure Simulation (perform : Op → State → Outcome × State)
    (model : Op → List α → Outcome × List α) (items : State → List α) (Inv : State → Prop)
    (Refused : Outcome → Prop) (OrderFree : Op → Prop) : Prop where
  step : ∀ s op, Inv s → Follows items Inv Refused (perform op s) (model op (items s))
  reorder : ∀ s op, Inv s → OrderFree op → ∀ order, (items s).Perm order →
    (model op (items s)).1 = (model op order).1 ∧
      (model op (items s)).2.Perm (model op order).2

/-- Runs from this state in which no operation is refused are runs of the model: for some order of
the items in each operation, and for any order if no operation shows it. -/
structure Refines (perform : Op → State → Outcome × State)
    (model : Op → List α → Outcome × List α) (Refused : Outcome → Prop) (OrderFree : Op → Prop)
    (s : State) (items : List α) : Prop where
  trace : ∀ ops, (∀ outcome ∈ outcomes perform s ops, ¬Refused outcome) →
    Trace model items ops (outcomes perform s ops)
  outcomes_eq : ∀ ops, (∀ outcome ∈ outcomes perform s ops, ¬Refused outcome) →
    (∀ op ∈ ops, OrderFree op) → outcomes perform s ops = outcomes model items ops

namespace Simulation

variable {perform : Op → State → Outcome × State} {model : Op → List α → Outcome × List α}
  {items : State → List α} {Inv : State → Prop} {Refused : Outcome → Prop} {OrderFree : Op → Prop}

theorem inv_final (h : Simulation perform model items Inv Refused OrderFree) {s : State}
    (hs : Inv s) (ops : List Op) : Inv (final perform s ops) := by
  induction ops generalizing s with
  | nil => exact hs
  | cons op ops ih => exact ih (h.step s op hs).inv

theorem trace (h : Simulation perform model items Inv Refused OrderFree) {s : State} (hs : Inv s)
    {ops : List Op} (haccepted : ∀ outcome ∈ outcomes perform s ops, ¬Refused outcome)
    {start : List α} (hstart : (items s).Perm start) :
    Trace model start ops (outcomes perform s ops) := by
  induction ops generalizing s start with
  | nil => exact .done start
  | cons op ops ih =>
    rw [outcomes, List.forall_mem_cons] at haccepted
    obtain ⟨hop, hops⟩ := haccepted
    obtain ⟨hinv, hagrees⟩ := h.step s op hs
    obtain ⟨houtcome, hitems⟩ := hagrees.resolve_left hop
    rw [outcomes, houtcome]
    exact .step hstart.symm (ih hinv hops hitems)

/-- Without operations that show the order of the items, the run of the model is determined. -/
theorem outcomes_eq (h : Simulation perform model items Inv Refused OrderFree) {s : State}
    (hs : Inv s) {ops : List Op}
    (haccepted : ∀ outcome ∈ outcomes perform s ops, ¬Refused outcome)
    (hfree : ∀ op ∈ ops, OrderFree op) {start : List α} (hstart : (items s).Perm start) :
    outcomes perform s ops = outcomes model start ops := by
  induction ops generalizing s start with
  | nil => rfl
  | cons op ops ih =>
    rw [outcomes, List.forall_mem_cons] at haccepted
    rw [List.forall_mem_cons] at hfree
    obtain ⟨hinv, hagrees⟩ := h.step s op hs
    obtain ⟨houtcome, hitems⟩ := hagrees.resolve_left haccepted.1
    obtain ⟨houtcome', hitems'⟩ := h.reorder s op hs hfree.1 start hstart
    rw [outcomes, outcomes, houtcome, houtcome',
      ih hinv haccepted.2 hfree.2 (hitems.trans hitems')]

theorem refines (h : Simulation perform model items Inv Refused OrderFree) {s : State}
    (hs : Inv s) : Refines perform model Refused OrderFree s (items s) where
  trace _ haccepted := h.trace hs haccepted (List.Perm.refl _)
  outcomes_eq _ haccepted hfree := h.outcomes_eq hs haccepted hfree (List.Perm.refl _)

end Simulation

end LinearProbing
