-- SUMMARY: Comparisons and combinations of containers as programs that look up the keys of one in the other.
import LinearProbing.KeyMap.Equality
import LinearProbing.Proofs.KeySet.Listing
import LinearProbing.Proofs.Program.KeyMap
import LinearProbing.Proofs.Program.KeySet

/-! # Programs on two containers

The keys of one container are visited and looked up in the other. Both are only read, so the
programs are about any state; they come to what the functions yield.
-/

namespace LinearProbing

open Program (exec exec_bind_of_ok exec_aside)

/-! ## Visits that ask about each item -/

namespace Program

variable {α : Type} {n : Nat}

/-- Visits the next item and asks about it. -/
def askNext {β : Type} (check : α → Program (Traversal α n) Bool) (last : β)
    (answer : α → Bool → β) : Program (Traversal α n) β := do
  match ← visitOne .front id with
  | none => pure last
  | some item =>
    let passes ← check item
    pure (answer item passes)

/-- Whether all items that are left pass the check; the first that does not ends the visit. -/
def allLeft (check : α → Program (Traversal α n) Bool) : Program (Traversal α n) Bool :=
  loop (fun _ : Unit =>
    askNext check (.inl true) fun _ passes => if passes then .inr () else .inl false) ()

/-- The items that are left and pass the check, after those that are given. -/
def listLeft (check : α → Program (Traversal α n) Bool) :
    (listed : List α) → Program (Traversal α n) (List α) :=
  loop fun listed =>
    askNext check (.inl listed) fun item passes =>
      .inr (if passes then listed ++ [item] else listed)

variable {check : α → Program (Traversal α n) Bool} {passes : α → Bool} {t t' : Traversal α n}
  {item : α}

theorem exec_askNext_none {β : Type} (h : t.next? = none) (last : β) (answer : α → Bool → β) :
    exec (askNext check last answer) t = .some (.ok last, t) := by
  have hstep : t.stepWith? .front id = none := h
  have hvisit := exec_visitOne t .front id
  rw [hstep] at hvisit
  exact exec_bind_of_ok hvisit _

theorem exec_askNext_some {β : Type}
    (hcheck : ∀ item t, exec (check item) t = .some (.ok (passes item), t))
    (h : t.next? = some (item, t')) (last : β) (answer : α → Bool → β) :
    exec (askNext check last answer) t = .some (.ok (answer item (passes item)), t') := by
  have hstep : t.stepWith? .front id = some (item, t') := h
  have hvisit := exec_visitOne t .front id
  rw [hstep] at hvisit
  exact (exec_bind_of_ok hvisit _).trans (exec_bind_of_ok (hcheck item t') _)

theorem remaining_next? (h : t.next? = some (item, t')) : t'.remaining < t.remaining :=
  Nat.lt_of_succ_le (Nat.le_of_eq (Traversal.remaining_nextWith? h))

theorem exec_allLeft (hcheck : ∀ item t, exec (check item) t = .some (.ok (passes item), t))
    (t : Traversal α n) :
    ∃ last, exec (allLeft check) t = .some (.ok (t.rest.all passes), last) := by
  induction hcount : t.remaining using Nat.strong_induction_on generalizing t with
  | _ count ih =>
    subst hcount
    cases hnext : t.next? with
    | none =>
      rw [Traversal.rest_of_none hnext]
      exact ⟨t, exec_loop_of_last (exec_askNext_none hnext _ _)⟩
    | some result =>
      obtain ⟨item, t'⟩ := result
      have hround := exec_askNext_some hcheck hnext (Sum.inl true)
        fun _ passes => if passes then .inr () else .inl false
      rw [Traversal.rest_of_some hnext, List.all_cons]
      cases hpasses : passes item with
      | false =>
        rw [hpasses] at hround
        exact ⟨t', exec_loop_of_last hround⟩
      | true =>
        rw [hpasses] at hround
        obtain ⟨last, hrest⟩ := ih _ (remaining_next? hnext) t' rfl
        exact ⟨last, (exec_loop_of_round hround).trans hrest⟩

theorem exec_listLeft (hcheck : ∀ item t, exec (check item) t = .some (.ok (passes item), t))
    (t : Traversal α n) (listed : List α) :
    ∃ last, exec (listLeft check listed) t =
      .some (.ok (listed ++ t.rest.filter passes), last) := by
  induction hcount : t.remaining using Nat.strong_induction_on generalizing t listed with
  | _ count ih =>
    subst hcount
    cases hnext : t.next? with
    | none =>
      rw [Traversal.rest_of_none hnext, List.filter_nil, List.append_nil]
      exact ⟨t, exec_loop_of_last (exec_askNext_none hnext _ _)⟩
    | some result =>
      obtain ⟨item, t'⟩ := result
      have hround := exec_askNext_some hcheck hnext (Sum.inl listed)
        fun item passes => .inr (if passes then listed ++ [item] else listed)
      obtain ⟨last, hrest⟩ := ih _ (remaining_next? hnext) t'
        (if passes item then listed ++ [item] else listed) rfl
      refine ⟨last, (exec_loop_of_round hround).trans (hrest.trans ?_)⟩
      rw [Traversal.rest_of_some hnext, List.filter_cons]
      cases passes item with
      | false => rfl
      | true => rw [if_pos rfl, if_pos rfl, List.append_assoc, List.singleton_append]

end Program

variable {σ : Type} {K V : Type} [BEq K]

/-! ## Maps -/

namespace KeyMap

variable [BEq V]

/-- Whether the map has an equal value for the key. -/
def hasValue (m : KeyMap K V) (pair : K × V) : Program σ Bool :=
  Program.aside m.table do
    let found? ← search m.hash pair.1
    pure (found?.map (·.2) == some pair.2)

/-- Whether two maps are equal. -/
def equals (a b : KeyMap K V) : Program σ Bool :=
  if a.count = b.count then Program.aside a.table.traversal (Program.allLeft b.hasValue)
  else pure false

variable {a b : KeyMap K V}

theorem exec_hasValue (hb : b.table.Addressable) (pair : K × V) (s : σ) :
    exec (b.hasValue pair) s = .some (.ok (b.get? pair.1 == some pair.2), s) :=
  exec_aside (exec_bind_of_ok (exec_search hb pair.1) _) s

theorem exec_equals (hb : b.table.Addressable) (s : σ) :
    exec (equals a b) s = .some (.ok (a == b), s) := by
  have hbeq : (a == b) = (a.count == b.count &&
      a.toList.all fun pair => b.get? pair.1 == some pair.2) := rfl
  rw [hbeq, equals]
  split
  · next hcount =>
    obtain ⟨last, hall⟩ := Program.exec_allLeft (exec_hasValue hb) a.table.traversal
    rw [beq_iff_eq.2 hcount, Bool.true_and]
    exact exec_aside hall s
  · next hne =>
    rw [beq_eq_false_iff_ne.2 hne, Bool.false_and]
    rfl

end KeyMap

/-! ## Sets -/

namespace KeySet

/-- Whether the set has a key that is equal to this one. -/
def has (s : KeySet K) (key : K) : Program σ Bool :=
  Program.aside s.table do
    let found? ← search s.hash key
    pure found?.isSome

/-- Whether the set has a key, or has it not. -/
def hasAs (s : KeySet K) (shared : Bool) (key : K) : Program σ Bool := do
  let found ← s.has key
  pure (found == shared)

/-- Whether all keys of one set are in another, or none is. -/
def allAs (a b : KeySet K) (shared : Bool) : Program σ Bool :=
  Program.aside a.table.traversal (Program.allLeft (b.hasAs shared))

def equals (a b : KeySet K) : Program σ Bool :=
  if a.count = b.count then allAs a b true else pure false

def disjointFrom (a b : KeySet K) : Program σ Bool :=
  if a.count ≤ b.count then allAs a b false else allAs b a false

def within (a b : KeySet K) : Program σ Bool :=
  if b.count < a.count then pure false else allAs a b true

/-- The keys of one set whose membership in another is as given. -/
def select (a b : KeySet K) (shared : Bool) : Program σ (List K) :=
  Program.aside a.table.traversal (Program.listLeft (b.hasAs shared) [])

def listUnion (a b : KeySet K) : Program σ (List K) := do
  let first ← Program.aside a.table.traversal (Program.visitAll id)
  let second ← select b a false
  pure (first ++ second)

def listIntersection (a b : KeySet K) : Program σ (List K) :=
  if a.count ≤ b.count then select a b true else select b a true

def listSymmetricDifference (a b : KeySet K) : Program σ (List K) := do
  let first ← select a b false
  let second ← select b a false
  pure (first ++ second)

variable {a b : KeySet K}

theorem exec_has (hb : b.table.Addressable) (key : K) (s : σ) :
    exec (b.has key) s = .some (.ok (b.contains key), s) :=
  exec_aside (exec_bind_of_ok (exec_search hb key) _) s

theorem exec_hasAs (hb : b.table.Addressable) (shared : Bool) (key : K) (s : σ) :
    exec (b.hasAs shared key) s = .some (.ok (b.contains key == shared), s) :=
  exec_bind_of_ok (exec_has hb key s) _

theorem exec_allAs (hb : b.table.Addressable) (shared : Bool) (s : σ) :
    exec (allAs a b shared) s =
      .some (.ok (a.toList.all fun key => b.contains key == shared), s) := by
  obtain ⟨last, hall⟩ := Program.exec_allLeft (exec_hasAs hb shared) a.table.traversal
  exact exec_aside hall s

theorem exec_select (hb : b.table.Addressable) (shared : Bool) (s : σ) :
    exec (select a b shared) s = .some (.ok (a.selection b shared).keys, s) := by
  obtain ⟨last, hall⟩ := Program.exec_listLeft (exec_hasAs hb shared) a.table.traversal []
  exact exec_aside hall s

theorem exec_equals (hb : b.table.Addressable) (s : σ) :
    exec (equals a b) s = .some (.ok (a == b), s) := by
  have hbeq : (a == b) = (a.count == b.count && a.toList.all b.contains) := rfl
  rw [hbeq, equals]
  split
  · next hcount =>
    rw [beq_iff_eq.2 hcount, Bool.true_and, exec_allAs hb]
    simp
  · next hne =>
    rw [beq_eq_false_iff_ne.2 hne, Bool.false_and]
    rfl

theorem exec_disjointFrom (ha : a.table.Addressable) (hb : b.table.Addressable) (s : σ) :
    exec (disjointFrom a b) s = .some (.ok (a.isDisjoint b), s) := by
  rw [disjointFrom, isDisjoint]
  split
  · rw [exec_allAs hb]
    simp
  · rw [exec_allAs ha]
    simp

theorem exec_within (hb : b.table.Addressable) (s : σ) :
    exec (within a b) s = .some (.ok (a.isSubset b), s) := by
  rw [within, isSubset]
  split
  · rfl
  · rw [exec_allAs hb]
    simp

theorem exec_listDifference (hb : b.table.Addressable) (s : σ) :
    exec (select a b false) s = .some (.ok (a.difference b).rest, s) := by
  rw [exec_select hb, Listing.rest_eq, difference, List.flatMap_singleton]

theorem exec_listUnion (ha : a.table.Addressable) (s : σ) :
    exec (listUnion a b) s = .some (.ok (a.union b).rest, s) := by
  have hfirst := exec_aside (Program.exec_visitAll a.table.traversal id) s
  have hevery : a.everyKey.keys = a.toList := List.filter_eq_self.2 fun _ _ => rfl
  rw [listUnion, exec_bind_of_ok hfirst, exec_bind_of_ok (exec_select ha false s), Listing.rest_eq,
    union, List.flatMap_cons, List.flatMap_singleton, hevery]
  rfl

theorem exec_listIntersection (ha : a.table.Addressable) (hb : b.table.Addressable) (s : σ) :
    exec (listIntersection a b) s = .some (.ok (a.intersection b).rest, s) := by
  rw [listIntersection, Listing.rest_eq, intersection]
  split
  · rw [exec_select hb, List.flatMap_singleton]
  · rw [exec_select ha, List.flatMap_singleton]

theorem exec_listSymmetricDifference (ha : a.table.Addressable) (hb : b.table.Addressable)
    (s : σ) :
    exec (listSymmetricDifference a b) s = .some (.ok (a.symmetricDifference b).rest, s) := by
  rw [listSymmetricDifference, exec_bind_of_ok (exec_select hb false s),
    exec_bind_of_ok (exec_select ha false s), Listing.rest_eq, symmetricDifference,
    List.flatMap_cons, List.flatMap_singleton]
  rfl

end KeySet

end LinearProbing
