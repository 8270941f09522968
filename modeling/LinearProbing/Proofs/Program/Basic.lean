-- SUMMARY: Programs that change a state step by step, with a check at each step that could go wrong.
import LinearProbing.Fault
import Mathlib.Data.PFun

/-! # Programs

The functions on tables leave no room for some failures: an index is a position of the array, no
count falls below zero, and the scan that closes a gap is known to end. A `Program` does the same in
smaller steps. It changes a state, its indices are plain numbers, each access and each operation on
numbers is checked, and a loop may run for ever. Where a program comes to what the function yields,
no check has failed on the way.
-/

namespace LinearProbing

/-- Something that a program relies on and that does not hold. -/
inductive Defect
  /-- A branch that is thought to be impossible. -/
  | unreachable
  | assertion
  | outOfRange
  | overflow
  | underflow
  | zeroDivisor

/-- Why a program stopped. -/
inductive Stop
  | fault (fault : Fault)
  | defect (defect : Defect)

/-- A program changes a state. It may stop on the way, which leaves the state as it is then, and it
may run for ever. -/
abbrev Program (σ β : Type) := ExceptT Stop (StateT σ Part) β

namespace Program

variable {σ ι β γ : Type}

/-! ## Running a program -/

/-- What comes of a program and the state in which it ends. -/
def exec (p : Program σ β) (s : σ) : Part (Except Stop β × σ) := p.run.run s

/-- Goes on from the end of an earlier program, unless that has stopped. -/
def resume (f : β → Program σ γ) : Except Stop β × σ → Part (Except Stop γ × σ)
  | (.ok b, s) => exec (f b) s
  | (.error stop, s) => .some (.error stop, s)

@[simp] theorem resume_ok (f : β → Program σ γ) (b : β) (s : σ) :
    resume f (.ok b, s) = exec (f b) s := rfl

@[simp] theorem resume_error (f : β → Program σ γ) (stop : Stop) (s : σ) :
    resume f (.error stop, s) = .some (.error stop, s) := rfl

@[simp] theorem exec_pure (b : β) (s : σ) : exec (pure b) s = .some (.ok b, s) := rfl

@[simp] theorem exec_throw (stop : Stop) (s : σ) :
    exec (throw stop : Program σ β) s = .some (.error stop, s) := rfl

@[simp] theorem exec_get (s : σ) : exec (get : Program σ σ) s = .some (.ok s, s) :=
  Part.bind_some (s, s) fun result => .some (Except.ok result.1, result.2)

@[simp] theorem exec_set (s s' : σ) : exec (set s' : Program σ PUnit) s = .some (.ok (), s') :=
  Part.bind_some (PUnit.unit, s') fun result => .some (Except.ok result.1, result.2)

@[simp] theorem exec_bind (p : Program σ β) (f : β → Program σ γ) (s : σ) :
    exec (p >>= f) s = (exec p s).bind (resume f) := by
  have hbind : exec (p >>= f) s = (exec p s).bind fun result =>
      (ExceptT.bindCont f result.1).run result.2 := rfl
  rw [hbind]
  congr 1
  funext result
  rcases result with ⟨stop | b, s'⟩ <;> rfl

theorem exec_bind_of_ok {p : Program σ β} {s s' : σ} {b : β} (h : exec p s = .some (.ok b, s'))
    (f : β → Program σ γ) : exec (p >>= f) s = exec (f b) s' := by
  rw [exec_bind, h, Part.bind_some, resume_ok]

/-- The run of a program that leaves the state as it was when it meets a fault. -/
def attempt (s : σ) : Except Fault (β × σ) → Part (Except Stop β × σ)
  | .ok (b, s') => .some (.ok b, s')
  | .error fault => .some (.error (.fault fault), s)

/-- The run ends in a fault exactly if the result is one. -/
theorem attempt_eq_fault_iff {s : σ} {result : Except Fault (β × σ)} :
    (∃ fault, attempt s result = .some (.error (.fault fault), s)) ↔ result.isOk = false := by
  cases result with
  | ok result =>
    refine iff_of_false ?_ Bool.false_ne_true.symm
    rintro ⟨fault, hend⟩
    cases Part.some_inj.1 hend
  | error fault => exact iff_of_true ⟨fault, rfl⟩ rfl

/-- The run of a program that leaves the state as it was when it yields nothing. -/
def optionally (s : σ) : Option (β × σ) → Part (Except Stop (Option β) × σ)
  | some (b, s') => .some (.ok (some b), s')
  | none => .some (.ok none, s)

@[simp] theorem optionally_some (s : σ) (result : β × σ) :
    optionally s (some result) = .some (.ok (some result.1), result.2) := rfl

@[simp] theorem optionally_none (s : σ) :
    optionally s (none : Option (β × σ)) = .some (.ok none, s) := rfl

/-! ## Loops -/

/-- Whether a loop has ended after a round, and how, or where the next round starts. -/
def turn : Except Stop (β ⊕ ι) × σ → (Except Stop β × σ) ⊕ (ι × σ)
  | (.ok (.inl b), s) => .inl (.ok b, s)
  | (.ok (.inr i), s) => .inr (i, s)
  | (.error stop, s) => .inl (.error stop, s)

/-- Runs the body, round after round, until it yields a value. -/
def loop (body : ι → Program σ (β ⊕ ι)) (i : ι) : Program σ β :=
  ExceptT.mk fun s => PFun.fix (fun start => (exec (body start.1) start.2).map turn) (i, s)

variable {body : ι → Program σ (β ⊕ ι)} {i i' : ι} {s s' : σ}

theorem exec_loop_of_last {b : β} (h : exec (body i) s = .some (.ok (.inl b), s')) :
    exec (loop body i) s = .some (.ok b, s') := by
  refine Part.eq_some_iff.2 (PFun.fix_stop ?_)
  rw [h]
  exact Part.mem_some _

theorem exec_loop_of_round (h : exec (body i) s = .some (.ok (.inr i'), s')) :
    exec (loop body i) s = exec (loop body i') s' := by
  refine PFun.fix_fwd_eq ?_
  rw [h]
  exact Part.mem_some _

/-! ## Checks -/

/-- Yields the value if the condition holds, and stops if it does not. -/
def checked (holds : Prop) [Decidable holds] (defect : Defect) (value : β) : Program σ β :=
  if holds then pure value else throw (.defect defect)

def require (holds : Prop) [Decidable holds] (defect : Defect) : Program σ Unit :=
  checked holds defect ()

/-- A sum that must fit in a word. -/
def add (a b : Nat) : Program σ Nat := checked (a + b ≤ largestCount) .overflow (a + b)

def subtract (a b : Nat) : Program σ Nat := checked (b ≤ a) .underflow (a - b)

def divide (a b : Nat) : Program σ Nat := checked (0 < b) .zeroDivisor (a / b)

def remainder (a b : Nat) : Program σ Nat := checked (0 < b) .zeroDivisor (a % b)

/-- Numbers of slots are far from the end of the word range. -/
theorem lt_largestCount {capacity : Nat} (h : capacity < capacityBound) :
    capacity < largestCount :=
  h.trans (by decide)

theorem exec_checked {holds : Prop} [Decidable holds] (h : holds) (defect : Defect) (value : β)
    (s : σ) : exec (checked holds defect value) s = .some (.ok value, s) := by
  rw [checked, if_pos h, exec_pure]

theorem exec_require {holds : Prop} [Decidable holds] (h : holds) (defect : Defect) (s : σ) :
    exec (require holds defect) s = .some (.ok (), s) :=
  exec_checked h ..

variable {a b : Nat}

theorem exec_add (h : a + b ≤ largestCount) (s : σ) :
    exec (add a b) s = .some (.ok (a + b), s) :=
  exec_checked h ..

theorem exec_subtract (h : b ≤ a) (s : σ) : exec (subtract a b) s = .some (.ok (a - b), s) :=
  exec_checked h ..

theorem exec_divide (h : 0 < b) (s : σ) : exec (divide a b) s = .some (.ok (a / b), s) :=
  exec_checked h ..

theorem exec_remainder (h : 0 < b) (s : σ) : exec (remainder a b) s = .some (.ok (a % b), s) :=
  exec_checked h ..

end Program

end LinearProbing
