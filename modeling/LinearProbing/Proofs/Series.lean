-- SUMMARY: Insertions that may be refused: what a refusal leaves, alone and in a series.
import LinearProbing.Proofs.Dictionary.Capacity
import LinearProbing.Proofs.Simulation
import LinearProbing.Series

/-! # Insertions that may be refused

A fault leaves a container as it was. A series of insertions stops at the first item that is
refused, in the state to which the items before it lead; that is all there is to know about a series
that fails, whatever the container and however it stores an item.

A container whose insertions follow a dictionary follows it in a series of them, too. So what holds
of a single insertion into a map or a set is enough for any number of them.
-/

namespace LinearProbing

universe u v w x

variable {State : Type u} {Item : Type v} {Answer : Type w} {s s' : State} {fault : Fault}

/-! ## One insertion -/

/-- The outcome of an operation that leaves the state as it was if it fails. -/
def attempt (s : State) : Except Fault (Answer × State) → Except Fault Answer × State
  | .ok (answer, s') => (.ok answer, s')
  | .error fault => (.error fault, s)

theorem isOk_attempt (s : State) (result : Except Fault (Answer × State)) :
    (attempt s result).1.isOk = result.isOk := by
  cases result <;> rfl

theorem eq_of_attempt {result : Except Fault (Answer × State)}
    (h : attempt s result = (.error fault, s')) : s' = s := by
  cases result with
  | ok result => cases h
  | error _ =>
    cases h
    rfl

/-! ## Where a series stops -/

variable {insert : State → Item → Except Fault (Answer × State)} {items : List Item}

/-- The item after some others is refused, in the state that those lead to. -/
def StopsAt (insert : State → Item → Except Fault (Answer × State)) (s s' : State)
    (items : List Item) (fault : Fault) : Prop :=
  ∃ before item after, items = before ++ item :: after ∧
    insertEach insert s before = (s', none) ∧ insert s' item = .error fault

theorem insertEach_cons_ok {s₁ : State} {item : Item} {answer : Answer}
    (h : insert s item = .ok (answer, s₁)) (items : List Item) :
    insertEach insert s (item :: items) = insertEach insert s₁ items := by
  rw [insertEach, h]

theorem insertEach_cons_error {item : Item} (h : insert s item = .error fault)
    (items : List Item) : insertEach insert s (item :: items) = (s, some fault) := by
  rw [insertEach, h]

/-- What every insertion preserves holds at the end of a series, also of one that is stopped. -/
theorem insertEach_induction (Inv : State → Prop)
    (hstep : ∀ s item answer s', Inv s → insert s item = .ok (answer, s') → Inv s')
    (h : Inv s) (items : List Item) : Inv (insertEach insert s items).1 := by
  induction items generalizing s with
  | nil => exact h
  | cons item items ih =>
    cases hinsert : insert s item with
    | ok result =>
      rw [insertEach_cons_ok hinsert]
      exact ih (hstep s item result.1 result.2 h hinsert)
    | error fault =>
      rw [insertEach_cons_error hinsert]
      exact h

theorem insertEach_append {before : List Item} (h : insertEach insert s before = (s', none))
    (items : List Item) : insertEach insert s (before ++ items) = insertEach insert s' items := by
  induction before generalizing s with
  | nil =>
    cases h
    rfl
  | cons item before ih =>
    rw [List.cons_append]
    cases hinsert : insert s item with
    | ok result =>
      rw [insertEach_cons_ok hinsert] at h ⊢
      exact ih h
    | error fault =>
      rw [insertEach_cons_error hinsert] at h
      cases h

theorem StopsAt.cons {s₁ : State} {item : Item} {answer : Answer}
    (hinsert : insert s item = .ok (answer, s₁)) (h : StopsAt insert s₁ s' items fault) :
    StopsAt insert s s' (item :: items) fault := by
  obtain ⟨before, refused, after, rfl, hbefore, hrefused⟩ := h
  refine ⟨item :: before, refused, after, rfl, ?_, hrefused⟩
  rw [insertEach_cons_ok hinsert, hbefore]

/-- A series fails exactly if one of its items is refused after those before it. -/
theorem insertEach_eq_error_iff :
    insertEach insert s items = (s', some fault) ↔ StopsAt insert s s' items fault := by
  constructor
  · intro h
    induction items generalizing s with
    | nil => cases h
    | cons item items ih =>
      cases hinsert : insert s item with
      | ok result =>
        rw [insertEach_cons_ok hinsert] at h
        exact (ih h).cons hinsert
      | error fault' =>
        rw [insertEach_cons_error hinsert] at h
        cases h
        exact ⟨[], item, items, rfl, rfl, hinsert⟩
  · rintro ⟨before, item, after, rfl, hbefore, hrefused⟩
    rw [insertEach_append hbefore, insertEach_cons_error hrefused]

/-! ## The outcome of a series -/

/-- The outcome of a series: `done`, or the fault that has ended it. -/
def concluded {Reply : Type x} (done : Reply) (result : State × Option Fault) :
    Except Fault Reply × State :=
  (result.2.elim (.ok done) .error, result.1)

variable {Reply : Type x} {done : Reply}

theorem concluded_insertEach_eq_error_iff :
    concluded done (insertEach insert s items) = (.error fault, s') ↔
      StopsAt insert s s' items fault := by
  rw [← insertEach_eq_error_iff]
  rcases insertEach insert s items with ⟨last, _ | fault'⟩ <;> simp [concluded, and_comm]

theorem concluded_insertEach_fails_iff :
    (concluded done (insertEach insert s items)).1.isOk = false ↔
      ∃ s' fault, StopsAt insert s s' items fault := by
  simp only [← insertEach_eq_error_iff]
  rcases insertEach insert s items with ⟨last, _ | fault⟩
  · refine iff_of_false Bool.false_ne_true.symm ?_
    rintro ⟨s', fault, hall⟩
    cases hall
  · exact iff_of_true rfl ⟨last, fault, rfl⟩

/-- Collecting items fails where the series of them does. -/
theorem isOk_collect (done : Reply) (s : State) (items : List Item) :
    (collect insert s items).isOk = (concluded done (insertEach insert s items)).1.isOk := by
  rw [collect]
  rcases insertEach insert s items with ⟨last, _ | fault⟩ <;> rfl

/-! ## A series as a dictionary has it -/

variable {α : Type v} {contents : State → List α} {Inv : State → Prop}
  {Refused : Except Fault Reply → Prop}

/-- If every insertion follows the dictionary or is refused, so does a series of them. -/
theorem follows_insertEach {store : List α → Item → List α}
    (hstep : ∀ s item, Inv s →
      (∃ answer s', insert s item = .ok (answer, s') ∧ Inv s' ∧
          (contents s').Perm (store (contents s) item)) ∨
        ∃ fault, insert s item = .error fault ∧ Refused (.error fault))
    (hperm : ∀ s order (items : List Item), Inv s → (contents s).Perm order →
      (items.foldl store (contents s)).Perm (items.foldl store order))
    (h : Inv s) (items : List Item) :
    Follows contents Inv Refused (concluded done (insertEach insert s items))
      (.ok done, items.foldl store (contents s)) := by
  induction items generalizing s with
  | nil => exact .unchanged h rfl
  | cons item items ih =>
    rcases hstep s item h with ⟨answer, s', hinsert, hinv, hcontents⟩ | ⟨fault, hinsert, hrefused⟩
    · rw [insertEach_cons_ok hinsert]
      obtain ⟨hlast, hagrees⟩ := ih hinv
      refine ⟨hlast, ?_⟩
      rcases hagrees with hrefused | ⟨houtcome, hrest⟩
      · exact .inl hrefused
      · exact .inr ⟨houtcome, hrest.trans (hperm s' _ items hinv hcontents)⟩
    · rw [insertEach_cons_error hinsert]
      exact .refused h hrefused

open Dictionary

/-- An insertion stores an item as a dictionary does, and is refused exactly where a dictionary of
limited capacity has no room for its key. -/
structure InsertsWithin {K : Type*} [BEq K] (keyOf : α → K) (store : List α → α → List α)
    (capacity : Nat) (contents : State → List α) (Inv : State → Prop) (fault : Fault)
    (insert : State → α → Except Fault (Answer × State)) : Prop where
  inserts : Inserts keyOf store
  distinct : ∀ s, Inv s → Distinct keyOf (contents s)
  step : ∀ s item, Inv s →
    (¬NoRoom keyOf capacity (keyOf item) (contents s) ∧
        ∃ answer s', insert s item = .ok (answer, s') ∧ Inv s' ∧
          (contents s').Perm (store (contents s) item)) ∨
      (NoRoom keyOf capacity (keyOf item) (contents s) ∧ insert s item = .error fault)

variable {K : Type*} [BEq K] [EquivBEq K] {keyOf : α → K} {store : List α → α → List α}
  {capacity : Nat} {insert : State → α → Except Fault (Answer × State)}

theorem InsertsWithin.follows
    (hinserts : InsertsWithin keyOf store capacity contents Inv fault insert) (done : Reply)
    (h : Inv s) (items : List α) :
    Follows contents Inv (fun _ => False) (concluded done (insertEach insert s items))
      (insertWithin keyOf store capacity (.ok done) (.error fault) (contents s) items) := by
  induction items generalizing s with
  | nil => exact .unchanged h rfl
  | cons item items ih =>
    rw [insertWithin, unlessFull]
    rcases hinserts.step s item h with
      ⟨hroom, answer, s', hinsert, hinv, hcontents⟩ | ⟨hroom, hinsert⟩
    · rw [insertEach_cons_ok hinsert, if_neg hroom]
      obtain ⟨hlast, hagrees⟩ := ih hinv
      obtain ⟨houtcome, hrest⟩ := hagrees.resolve_left id
      obtain ⟨hanswer, hperm⟩ :=
        hinserts.inserts.insertWithin_perm (hinserts.distinct s' hinv) hcontents items
      exact ⟨hlast, .inr ⟨houtcome.trans hanswer, hrest.trans hperm⟩⟩
    · rw [insertEach_cons_error hinsert, if_pos hroom]
      exact .unchanged h rfl

omit [EquivBEq K] in
/-- A series is stopped by no other fault. -/
theorem InsertsWithin.eq_of_stopsAt
    (hinserts : InsertsWithin keyOf store capacity contents Inv fault insert) (h : Inv s)
    {items : List α} {fault' : Fault} (hstops : StopsAt insert s s' items fault') :
    fault' = fault := by
  obtain ⟨before, item, after, -, hbefore, hrefused⟩ := hstops
  have hstep (s : State) (item : α) (answer : Answer) (s' : State) (hinv : Inv s)
      (hinsert : insert s item = .ok (answer, s')) : Inv s' := by
    rcases hinserts.step s item hinv with ⟨-, answer', s₁, hinsert', hinv', -⟩ | ⟨-, hinsert'⟩
    · rw [hinsert] at hinsert'
      cases hinsert'
      exact hinv'
    · rw [hinsert] at hinsert'
      cases hinsert'
  have hinv := insertEach_induction Inv hstep h before
  rw [hbefore] at hinv
  rcases hinserts.step s' item hinv with ⟨-, answer, s₁, hinsert, -⟩ | ⟨-, hinsert⟩
  · rw [hrefused] at hinsert
    cases hinsert
  · rw [hrefused] at hinsert
    exact Except.error.inj hinsert

/-- Collecting items fails exactly if there are more different keys than there may be items. -/
theorem InsertsWithin.collect_isOk_iff
    (hinserts : InsertsWithin keyOf store capacity contents Inv fault insert) (h : Inv s)
    (hempty : contents s = []) (items : List α) :
    (collect insert s items).isOk = false ↔ MoreKeys capacity (items.map keyOf) := by
  have hne : (.ok () : Except Fault Unit) ≠ .error fault := by
    intro heq
    cases heq
  obtain ⟨houtcome, -⟩ := (hinserts.follows () h items).agrees.resolve_left id
  have hrefused := hinserts.inserts.insertWithin_eq_refusal_iff hne List.Pairwise.nil
    (Nat.zero_le capacity) items
  rw [hempty] at houtcome
  rw [List.nil_append] at hrefused
  rw [isOk_collect (), houtcome, ← hrefused]
  rcases hinserts.inserts.insertWithin_cases List.Pairwise.nil (Nat.zero_le capacity)
    (Except.ok () : Except Fault Unit) (.error fault) items with ⟨hdone, -⟩ | ⟨hrefusal, -⟩
  · rw [hdone]
    exact iff_of_false Bool.false_ne_true.symm hne
  · rw [hrefusal]
    exact iff_of_true rfl rfl

end LinearProbing
