-- SUMMARY: The ends to which programs on a container come, and programs that insert item by item.
import LinearProbing.Proofs.Program.Basic
import LinearProbing.Proofs.Series

/-! # Programs on containers

A container is changed by programs on a part of it, its table. `view` reads that part off the
container. A program for a series of insertions stops in the middle of it, so what it leaves is what
the earlier insertions have made of the table.
-/

namespace LinearProbing.Program

variable {σ τ ι β γ : Type} {view : σ → τ} {s : σ}

/-- The end of a program that comes to the outcome of an operation on a container. -/
def ended (view : σ → τ) (result : Except Fault β × σ) : Part (Except Stop β × τ) :=
  .some (result.1.mapError .fault, view result.2)

theorem attempt_eq_ended (view : σ → τ) (s : σ) (result : Except Fault (β × σ)) :
    attempt (view s) (result.map fun result => (result.1, view result.2)) =
      ended view (LinearProbing.attempt s result) := by
  cases result <;> rfl

variable {result : Except Fault β × σ}

/-- The program ends in a fault exactly if the operation does, and leaves the same. -/
theorem ended_fault_iff {Leaves : σ → Fault → Prop}
    (hleaves : ∀ fault s', result = (.error fault, s') → Leaves s' fault) :
    (∃ fault s', ended view result = .some (.error (.fault fault), view s') ∧ Leaves s' fault) ↔
      result.1.isOk = false := by
  obtain ⟨fault | b, last⟩ := result
  · exact iff_of_true ⟨fault, last, rfl, hleaves fault last rfl⟩ rfl
  · refine iff_of_false ?_ Bool.false_ne_true.symm
    rintro ⟨fault, s', hend, -⟩
    cases (Prod.mk.inj (Part.some_inj.1 hend)).1

theorem exists_ended_ok (h : ¬result.1.isOk = false) :
    ∃ b s', result = (.ok b, s') ∧ ended view result = .some (.ok b, view s') := by
  obtain ⟨fault | b, last⟩ := result
  · exact absurd rfl h
  · exact ⟨b, last, rfl, rfl⟩

/-! ## Series -/

/-- Runs the program of each item, one after the other. -/
def forEach (p : ι → Program τ γ) : List ι → Program τ Unit
  | [] => pure ()
  | item :: rest => do
    let _ ← p item
    forEach p rest

/-- What a series of insertions leaves behind when it stops. -/
theorem exec_forEach {insert : σ → ι → Except Fault (β × σ)} {p : ι → Program τ γ}
    (answer : β → γ) (Inv : σ → Prop)
    (hrun : ∀ s item, Inv s → exec (p item) (view s) =
      ended view (LinearProbing.attempt s ((insert s item).map fun result =>
        (answer result.1, result.2))))
    (hstep : ∀ s item b s', Inv s → insert s item = .ok (b, s') → Inv s') (h : Inv s)
    (items : List ι) :
    exec (forEach p items) (view s) = ended view (concluded () (insertEach insert s items)) := by
  induction items generalizing s with
  | nil => rfl
  | cons item items ih =>
    rw [forEach, exec_bind, hrun s item h]
    cases hinsert : insert s item with
    | ok result =>
      rw [insertEach_cons_ok hinsert]
      exact (Part.bind_some _ _).trans (ih (hstep s item result.1 result.2 h hinsert))
    | error fault =>
      rw [insertEach_cons_error hinsert]
      exact Part.bind_some _ _

/-- A program that yields an answer after a series. -/
theorem exec_forEach_concluded {p : ι → Program τ γ} {items : List ι} {last : σ × Option Fault}
    (h : exec (forEach p items) (view s) = ended view (concluded () last)) (done : β) :
    exec (forEach p items >>= fun _ => pure done) (view s) = ended view (concluded done last) := by
  rw [exec_bind, h]
  obtain ⟨s', _ | fault⟩ := last <;> exact Part.bind_some _ _

end LinearProbing.Program
