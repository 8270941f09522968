-- SUMMARY: A listing yields the keys of its segments that it lists, segment by segment, and then no more.
import LinearProbing.KeySet.Algebra
import LinearProbing.Proofs.Traversal

/-! # Listings

A listing is asked for one key at a time, and passes over the keys that it does not list. All that
it yields are the keys of its sources in their order, without those. If the counters of its sources
are exact, its bounds on the number of keys still to come are right however often it has been asked.
-/

namespace LinearProbing

universe u

variable {K : Type u}

/-- The keys that a segment lists. -/
def Segment.keys (segment : Segment K) : List K := segment.source.rest.filter segment.lists

theorem Segment.keys_of_none {segment : Segment K} (h : segment.next? = none) :
    segment.keys = [] := by
  fun_induction next? segment with
  | case1 segment hnone => rw [keys, Traversal.rest_of_none hnone, List.filter_nil]
  | case2 => cases h
  | case3 segment key source hsome rest hlists ih =>
    rw [keys, Traversal.rest_of_some hsome, List.filter_cons_of_neg hlists]
    exact ih h

theorem Segment.keys_of_some {segment segment' : Segment K} {key : K}
    (h : segment.next? = some (key, segment')) : segment.keys = key :: segment'.keys := by
  fun_induction next? segment with
  | case1 => cases h
  | case2 segment key source hsome rest hlists =>
    simp only [Option.some.injEq, Prod.mk.injEq] at h
    obtain ⟨rfl, rfl⟩ := h
    rw [keys, Traversal.rest_of_some hsome, List.filter_cons_of_pos hlists]
    rfl
  | case3 segment key source hsome rest hlists ih =>
    rw [keys, Traversal.rest_of_some hsome, List.filter_cons_of_neg hlists]
    exact ih h

namespace Listing

theorem keys_of_firstOf?_none {segments : List (Segment K)} (h : firstOf? segments = none) :
    segments.flatMap Segment.keys = [] := by
  fun_induction firstOf? segments with
  | case1 => rfl
  | case2 => cases h
  | case3 segment later hnone ih =>
    rw [List.flatMap_cons, Segment.keys_of_none hnone, ih h, List.append_nil]

theorem keys_of_firstOf?_some {segments : List (Segment K)} {key : K} {l : Listing K}
    (h : firstOf? segments = some (key, l)) :
    segments.flatMap Segment.keys = key :: l.segments.flatMap Segment.keys := by
  fun_induction firstOf? segments with
  | case1 => cases h
  | case2 segment later key segment' hsome =>
    cases h
    rw [List.flatMap_cons, Segment.keys_of_some hsome]
    rfl
  | case3 segment later hnone ih =>
    rw [List.flatMap_cons, Segment.keys_of_none hnone]
    exact ih h

theorem rest_eq (l : Listing K) : l.rest = l.segments.flatMap Segment.keys := by
  fun_induction rest l with
  | case1 l hnone => rw [keys_of_firstOf?_none hnone]
  | case2 l key l' hsome ih => rw [keys_of_firstOf?_some hsome, ih]

/-! ## One key after the other -/

/-- Asking for the next key takes the first of those that are left. -/
theorem next_spec (l : Listing K) : l.next.1 = l.rest.head? ∧ l.next.2.rest = l.rest.tail := by
  simp only [rest_eq, next]
  cases hfirst : firstOf? l.segments with
  | none =>
    rw [keys_of_firstOf?_none hfirst]
    exact ⟨rfl, rfl⟩
  | some result =>
    obtain ⟨key, l'⟩ := result
    rw [keys_of_firstOf?_some hfirst]
    exact ⟨rfl, rfl⟩

theorem next_eq_none_iff (l : Listing K) : l.next.1 = none ↔ l.rest = [] := by
  rw [l.next_spec.1, List.head?_eq_none_iff]

/-- The listing after it has been asked for so many keys. -/
def after (l : Listing K) : (asked : Nat) → Listing K
  | 0 => l
  | asked + 1 => l.next.2.after asked

theorem rest_after (l : Listing K) (asked : Nat) : (l.after asked).rest = l.rest.drop asked := by
  induction asked generalizing l with
  | zero => rfl
  | succ asked ih => rw [after, ih, l.next_spec.2, List.drop_tail]

theorem next_after (l : Listing K) (asked : Nat) : (l.after asked).next.1 = l.rest[asked]? := by
  rw [(l.after asked).next_spec.1, rest_after, List.head?_drop]

end Listing

/-! ## Bounds on the number of keys still to come -/

/-- The counter of the source agrees with the number of its keys. -/
def Segment.Exact (segment : Segment K) : Prop :=
  segment.source.remaining = segment.source.rest.length

theorem Segment.Exact.next? {segment segment' : Segment K} {key : K} (h : segment.Exact)
    (hnext : segment.next? = some (key, segment')) : segment'.Exact := by
  have hsource {segment : Segment K} {key : K} {source : Traversal K segment.capacity}
      (h : segment.Exact) (hsome : segment.source.next? = some (key, source)) :
      Segment.Exact { segment with source } := by
    have hcount := Traversal.remaining_nextWith? hsome
    rw [Segment.Exact, Traversal.rest_of_some hsome, List.length_cons, ← hcount] at h
    exact Nat.succ.inj h
  fun_induction Segment.next? segment with
  | case1 => cases hnext
  | case2 segment key' source hsome rest hlists =>
    simp only [Option.some.injEq, Prod.mk.injEq] at hnext
    obtain ⟨-, rfl⟩ := hnext
    exact hsource h hsome
  | case3 segment key' source hsome rest hlists ih => exact ih (hsource h hsome) hnext

theorem Segment.Exact.bounds {segment : Segment K} (h : segment.Exact) :
    segment.sizeHint.1 ≤ segment.keys.length ∧ segment.keys.length ≤ segment.sizeHint.2 := by
  have hupper : segment.keys.length ≤ segment.remaining := by
    rw [remaining, h]
    exact List.length_filter_le _ _
  refine ⟨?_, hupper⟩
  unfold sizeHint
  cases hcondition : segment.condition? with
  | none =>
    have hall : segment.keys = segment.source.rest := by
      apply List.filter_eq_self.2
      intro key _
      rw [lists, hcondition]
      rfl
    rw [hall]
    exact Nat.le_of_eq h
  | some condition => exact Nat.zero_le _

namespace Listing

/-- The counters of all sources are exact. -/
def Exact (l : Listing K) : Prop := ∀ segment ∈ l.segments, segment.Exact

theorem exact_firstOf? {segments : List (Segment K)} {key : K} {l : Listing K}
    (h : ∀ segment ∈ segments, segment.Exact) (hfirst : firstOf? segments = some (key, l)) :
    l.Exact := by
  fun_induction firstOf? segments with
  | case1 => cases hfirst
  | case2 segment later key segment' hsome =>
    cases hfirst
    rw [List.forall_mem_cons] at h
    exact List.forall_mem_cons.2 ⟨h.1.next? hsome, h.2⟩
  | case3 segment later hnone ih => exact ih (List.forall_mem_cons.1 h).2 hfirst

theorem Exact.next {l : Listing K} (h : l.Exact) : l.next.2.Exact := by
  unfold Listing.next
  cases hfirst : firstOf? l.segments with
  | none =>
    intro segment hmem
    cases hmem
  | some result => exact exact_firstOf? h hfirst

theorem Exact.after {l : Listing K} (h : l.Exact) (asked : Nat) : (l.after asked).Exact := by
  induction asked generalizing l with
  | zero => exact h
  | succ asked ih => exact ih h.next

theorem Exact.bounds {l : Listing K} (h : l.Exact) :
    l.sizeHint.1 ≤ l.rest.length ∧ l.rest.length ≤ l.sizeHint.2 := by
  obtain ⟨segments⟩ := l
  rw [rest_eq]
  simp only [sizeHint]
  induction segments with
  | nil => exact ⟨Nat.le_refl _, Nat.le_refl _⟩
  | cons segment later ih =>
    obtain ⟨hfirst, hlater⟩ := List.forall_mem_cons.1 h
    obtain ⟨hlower, hupper⟩ := hfirst.bounds
    obtain ⟨hlowers, huppers⟩ := ih hlater
    rw [List.flatMap_cons, List.length_append]
    exact ⟨Nat.add_le_add hlower hlowers, Nat.add_le_add hupper huppers⟩

/-- Asked for one key after the other, a listing yields these keys in this order and then no more.
At every point its bounds are right. -/
structure Yields (l : Listing K) (keys : List K) : Prop where
  next_eq : ∀ asked, (l.after asked).next.1 = keys[asked]?
  stays_done : ∀ asked more, (l.after asked).next.1 = none →
    (l.after (asked + more)).next.1 = none
  lower_le : ∀ asked, (l.after asked).sizeHint.1 ≤ keys.length - asked
  le_upper : ∀ asked, keys.length - asked ≤ (l.after asked).sizeHint.2

theorem Exact.yields {l : Listing K} (h : l.Exact) : l.Yields l.rest where
  next_eq := l.next_after
  stays_done asked more hnone := by
    rw [next_after, List.getElem?_eq_none_iff] at hnone ⊢
    exact Nat.le_trans hnone (Nat.le_add_right ..)
  lower_le asked := by
    rw [← List.length_drop, ← rest_after]
    exact (h.after asked).bounds.1
  le_upper asked := by
    rw [← List.length_drop, ← rest_after]
    exact (h.after asked).bounds.2

end Listing

end LinearProbing
