-- SUMMARY: A table that has reserved slots keeps them until it holds more entries than announced.
import LinearProbing.Proofs.Table.Refusals

/-! # Reserved slots

Reserving makes the capacity so large that the load of all announced entries is at most the
threshold. No table with fewer entries needs room then, whatever its entries are and in whatever
order they came and went. So until there are more of them, only an operation that asks for a number
of slots changes it.
-/

namespace LinearProbing.Table

universe u

variable {α : Type u} {t t' : Table α} {policy : GrowthPolicy}

/-- The operation asks for a number of slots, at once or for entries to come. -/
def Op.AsksForSlots : Op α → Prop
  | .grow _ => True
  | .reserve _ => True
  | .shrinkToFit => True
  | _ => False

/-- A table whose load is at most the threshold has room for every entry. -/
theorem WellFormed.not_needsRoom (h : t.WellFormed) (hword : 100 * t.count < 2 ^ 64)
    (henough : policy.needsGrowth t.count t.capacity = false) (hash : UInt64)
    (accepts : α → Bool) : ¬t.NeedsRoom policy hash accepts := by
  rintro (hneeds | ⟨hfull, -⟩)
  · rw [henough] at hneeds
    cases hneeds
  · have hroom := GrowthPolicy.lt_of_needsGrowth_eq_false henough (Nat.le_of_lt_succ hword) h.count_le
    exact absurd hfull (Nat.ne_of_lt hroom)

/-! ## One operation -/

theorem Moves.eq_of_not_asksForSlots {op : Op α} (hop : ¬op.AsksForSlots)
    (hsizing : t.sizing = .growing policy)
    (henough : ∀ hash accepts, ¬t.NeedsRoom policy hash accepts) (h : Moves t op t') : t' = t := by
  cases h with
  | stays => rfl
  | entry hroom =>
    cases hroom with
    | stays => rfl
    | grows hgrowing hneeds =>
      cases hsizing.symm.trans hgrowing
      exact absurd hneeds (henough _ _)
  | grow | reserve | shrinkToFit => exact absurd trivial hop

/-- The step lemma: a table that has room for every entry stays in its slots. -/
theorem WellFormed.capacity_after (h : t.WellFormed) {op : Op α} (hop : ¬op.AsksForSlots)
    (hsizing : t.sizing = .growing policy)
    (henough : ∀ hash accepts, ¬t.NeedsRoom policy hash accepts) :
    (op.after t).capacity = t.capacity := by
  unfold Op.after
  cases hresult : op.result? t with
  | none => rfl
  | some t' =>
    obtain ⟨moved, hmoves, -, hcapacity⟩ := h.exists_moves hresult
    rw [hmoves.eq_of_not_asksForSlots hop hsizing henough] at hcapacity
    exact hcapacity

/-! ## All operations -/

/-- The slots are enough for `limit` entries, as far as the policy's threshold is concerned. -/
structure Reserved (t : Table α) (policy : GrowthPolicy) (limit : Nat) : Prop where
  sizing_eq : t.sizing = .growing policy
  limit_word : 100 * limit < 2 ^ 64
  enough : policy.needsGrowth limit t.capacity = false

theorem Reserved.needsGrowth_eq_false {limit : Nat} (h : t.Reserved policy limit)
    (hcount : t.count ≤ limit) : policy.needsGrowth t.count t.capacity = false :=
  GrowthPolicy.needsGrowth_eq_false_of_le h.enough hcount

theorem Reserved.not_needsRoom {limit : Nat} (h : t.Reserved policy limit) (ht : t.WellFormed)
    (hcount : t.count ≤ limit) (hash : UInt64) (accepts : α → Bool) :
    ¬t.NeedsRoom policy hash accepts := by
  refine ht.not_needsRoom ?_ (h.needsGrowth_eq_false hcount) hash accepts
  exact Nat.lt_of_le_of_lt (Nat.mul_le_mul_left 100 hcount) h.limit_word

theorem Reserved.after {limit : Nat} (h : t.Reserved policy limit) (ht : t.WellFormed)
    (hcount : t.count ≤ limit) {op : Op α} (hop : ¬op.AsksForSlots) :
    (op.after t).Reserved policy limit where
  sizing_eq := (ht.frame_after op).1.trans h.sizing_eq
  limit_word := h.limit_word
  enough := by
    rw [ht.capacity_after hop h.sizing_eq (h.not_needsRoom ht hcount)]
    exact h.enough

/-- The run lemma: as long as there are not more entries than the limit, the slots stay reserved and
their number stays the same. -/
theorem Reserved.afterAll {limit : Nat} (h : t.Reserved policy limit) (ht : t.WellFormed)
    {ops : List (Op α)} (hops : ∀ op ∈ ops, ¬op.AsksForSlots)
    (hcounts : ∀ before, before <+: ops → (t.afterAll before).count ≤ limit) :
    (t.afterAll ops).Reserved policy limit ∧ (t.afterAll ops).capacity = t.capacity := by
  induction ops generalizing t with
  | nil => exact ⟨h, rfl⟩
  | cons op ops ih =>
    have hcount : t.count ≤ limit := hcounts [] List.nil_prefix
    have hop : ¬op.AsksForSlots := hops op List.mem_cons_self
    obtain ⟨hreserved, hcapacity⟩ := ih (h.after ht hcount hop) (ht.after op)
      (fun op hop => hops op (List.mem_cons_of_mem _ hop))
      fun before hbefore => hcounts (op :: before) (List.cons_prefix_cons.2 ⟨rfl, hbefore⟩)
    refine ⟨hreserved, hcapacity.trans ?_⟩
    exact ht.capacity_after hop h.sizing_eq (h.not_needsRoom ht hcount)

theorem Reserved.not_refused {limit : Nat} (h : t.Reserved policy limit) (hcount : t.count ≤ limit)
    {op : Op α} (hop : ¬op.AsksForSlots) : ¬op.Refused policy t := by
  intro hrefused
  cases op with
  | entry hash accepts use =>
    have houtgrown : t.Outgrown policy := hrefused
    have henough := h.needsGrowth_eq_false hcount
    rw [houtgrown.needsGrowth] at henough
    cases henough
  | grow | reserve => exact hop trivial
  | tryEntry | modify | remove | visit | clear | drain | shrinkToFit | retain => exact hrefused

/-- Reserving never removes slots, and afterwards there are enough for all announced entries. -/
theorem WellFormed.reserved (h : t.WellFormed) (hsizing : t.sizing = .growing policy)
    {additional : Nat} (hpos : 0 < t.count + additional)
    (hword : 100 * (t.count + additional) < 2 ^ 64) (hreserve : t.reserve additional = .ok t') :
    t.capacity ≤ t'.capacity ∧ t'.Reserved policy (t.count + additional) := by
  have hsaturate : saturate (t.count + additional) = t.count + additional :=
    saturate_of_le (by unfold largestCount; omega)
  have hsizing' : t'.sizing = .growing policy := (h.reserve_eq_ok hreserve).sizing_eq.trans hsizing
  have hspec : t.capacity ≤ t'.capacity ∧
      policy.capacityFor (t.count + additional) ≤ t'.capacity := by
    simp only [reserve, hsizing, hsaturate] at hreserve
    split at hreserve
    · next hmore =>
      have hcapacity := (h.grow_eq_ok hreserve).2
      exact ⟨hcapacity ▸ hmore.le, hcapacity.ge⟩
    · next henough =>
      cases hreserve
      exact ⟨Nat.le_refl _, Nat.le_of_not_lt henough⟩
  refine ⟨hspec.1, hsizing', hword, ?_⟩
  rw [← Bool.not_eq_true, GrowthPolicy.needsGrowth_iff policy hpos]
  exact Nat.not_lt_of_le hspec.2

theorem Op.after_reserve {additional : Nat} (h : t.reserve additional = .ok t') :
    (Op.reserve additional).after t = t' := by
  simp [Op.after, Op.result?, h, Except.toOption]

/-- Operations that neither change the number of slots nor are refused. -/
structure KeepsSlots (t : Table α) (ops : List (Op α)) : Prop where
  capacity_eq : ∀ before, before <+: ops → (t.afterAll before).capacity = t.capacity
  granted : ∀ before op, before ++ [op] <+: ops → (op.outcome (t.afterAll before)).isOk = true

/-- In every growing table that operations lead to, reserving room for additional entries keeps the
slots through every run of operations that ask for none, as long as there are never more than those
entries. -/
theorem Reachable.reserve_keepsSlots (h : t.Reachable) (hsizing : t.sizing = .growing policy)
    {additional : Nat} (hpos : 0 < t.count + additional)
    (hword : 100 * (t.count + additional) < 2 ^ 64) (hreserve : t.reserve additional = .ok t') :
    t.capacity ≤ t'.capacity ∧
      ∀ ops : List (Op α), (∀ op ∈ ops, ¬op.AsksForSlots) →
        (∀ before, before <+: ops → (t'.afterAll before).count ≤ t.count + additional) →
        KeepsSlots t' ops := by
  obtain ⟨hmore, hreserved⟩ := h.wellFormed.reserved hsizing hpos hword hreserve
  have hreachable : t'.Reachable := by
    rw [← Op.after_reserve hreserve]
    exact .step h _
  refine ⟨hmore, ?_⟩
  intro ops hops hcounts
  have hrun (before : List (Op α)) (hbefore : before <+: ops) :=
    hreserved.afterAll hreachable.wellFormed (fun op hop => hops op (hbefore.subset hop))
      fun _ hearlier => hcounts _ (hearlier.trans hbefore)
  refine ⟨fun before hbefore => (hrun before hbefore).2, ?_⟩
  intro before op hupTo
  have hbefore : before <+: ops := (List.prefix_append before [op]).trans hupTo
  have hop : ¬op.AsksForSlots := hops op (hupTo.subset (by simp))
  have hcount := hcounts before hbefore
  have hreserved' := (hrun before hbefore).1
  have hgrows : (t'.afterAll before).Grows policy :=
    { reachable := (leads_afterAll fun _ _ => trivial).reachable hreachable
      sizing_eq := hreserved'.sizing_eq
      count_word := Nat.lt_of_le_of_lt (Nat.mul_le_mul_left 100 hcount) hword }
  rw [← Bool.not_eq_false, hgrows.outcome_fails_iff]
  exact hreserved'.not_refused hcount hop

/-- Five new entries, an update, a removal, another entry, and a visit that drops the first item. -/
def turnover : List (Op Nat) :=
  let insertion (hash : UInt64) : Op Nat :=
    .entry hash (fun item => item == hash.toNat) (.branch (some hash.toNat) id false)
  [1, 2, 3, 4, 5].map insertion ++
    [.entry 3 (fun item => item == 3) (.andModify id), .remove 4 (fun item => item == 4),
      insertion 6, .retain (fun calls item => (calls + 1, if calls = 0 then none else some item)) 0]

/-- A full table that reserves room for five more entries. -/
theorem reserve_keepsSlots_single :
    ∃ t', single.reserve 5 = .ok t' ∧ t'.capacity = 9 ∧ (t'.afterAll turnover).count = 5 ∧
      KeepsSlots t' turnover := by
  obtain ⟨t', hreserve⟩ : ∃ t', single.reserve 5 = .ok t' := by
    rcases reachable_single.wellFormed.reserve_cases 5 with ⟨t', hok, -⟩ | ⟨_, herror⟩
    · exact ⟨t', hok⟩
    · have hisOk : (single.reserve 5).isOk = true := by decide +kernel
      rw [herror] at hisOk
      cases hisOk
  obtain ⟨-, hkeeps⟩ := reachable_single.reserve_keepsSlots sizing_single (by decide +kernel)
    (by decide +kernel) hreserve
  obtain rfl := Op.after_reserve hreserve
  refine ⟨_, hreserve, by decide +kernel, by decide +kernel, hkeeps turnover ?_ ?_⟩
  · simp [turnover, Op.AsksForSlots]
  · simp only [← List.mem_inits]
    decide +kernel

end LinearProbing.Table
