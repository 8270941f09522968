-- SUMMARY: Tables that store each item under the hash of its key, and no two items with equal keys.
import LinearProbing.Proofs.Dictionary
import LinearProbing.Proofs.Table.Lookup

/-! # Keyed tables

Maps and sets use a table in one way: the hash of an item is the hash of its key, and an item is
looked up by equality of keys. If equal keys have equal hashes, such a table behaves as a dictionary
of its items. The lemmas say so for each operation of a table, in terms of `Dictionary`.
-/

namespace LinearProbing

universe u v w

open Dictionary

/-- Equal keys have equal hashes. -/
def RespectsEquality {K : Type u} [BEq K] (hash : K → UInt64) : Prop :=
  ∀ a b, a == b → hash a = hash b

namespace Table

variable {K : Type u} {α : Type v} {t t' : Table α}

/-- The items in slot order. -/
def items (t : Table α) : List α := t.slots.cells.map (·.item)

theorem length_items (t : Table α) : t.items.length = t.slots.cells.length := List.length_map ..

theorem WellFormed.toList_eq_items (h : t.WellFormed) : t.toList = t.items := h.toList_eq

theorem items_perm (h : t'.slots.cells.Perm t.slots.cells) : t'.items.Perm t.items := h.map _

/-- Each item is stored under the hash of its key, and no two keys are equal. -/
structure Keyed [BEq K] (hash : K → UInt64) (keyOf : α → K) (t : Table α) : Prop where
  wellFormed : t.WellFormed
  hash_eq : ∀ cell ∈ t.slots.cells, cell.hash = hash (keyOf cell.item)
  distinct : Distinct keyOf t.items

section Keyed

variable [BEq K] {hash : K → UInt64} {keyOf : α → K} {key : K}

/-- What a table keeps of a cell whatever becomes of the rest of its item. -/
def signature (keyOf : α → K) (cell : Cell α) : UInt64 × K := (cell.hash, keyOf cell.item)

/-- A table whose entries are among those of a keyed one, with the same keys. -/
theorem Keyed.of_sublist [EquivBEq K] (h : Keyed hash keyOf t) (ht' : t'.WellFormed)
    {cells : List (Cell α)} (hcells : t'.slots.cells.Perm cells)
    (hsub : (cells.map (signature keyOf)).Sublist (t.slots.cells.map (signature keyOf))) :
    Keyed hash keyOf t' where
  wellFormed := ht'
  hash_eq cell hcell := by
    have hmem := hsub.mem (List.mem_map_of_mem (hcells.mem_iff.1 hcell))
    obtain ⟨source, hsource, hsame⟩ := List.mem_map.1 hmem
    obtain ⟨hhash, hkey⟩ := Prod.mk.inj hsame
    rw [← hhash, ← hkey]
    exact h.hash_eq source hsource
  distinct := by
    have hkeys : ((cells.map (·.item)).map keyOf).Sublist (t.items.map keyOf) := by
      simpa [items, signature, Function.comp_def] using hsub.map Prod.snd
    exact (h.distinct.of_sublist hkeys).perm (hcells.symm.map _)

theorem Keyed.of_perm [EquivBEq K] (h : Keyed hash keyOf t) (ht' : t'.WellFormed)
    (hcells : t'.slots.cells.Perm t.slots.cells) : Keyed hash keyOf t' :=
  h.of_sublist ht' hcells (List.Sublist.refl _)

theorem keyed_of_items_eq_nil (h : t.WellFormed) (hcells : t.slots.cells = []) :
    Keyed hash keyOf t where
  wellFormed := h
  hash_eq cell hcell := by
    rw [hcells] at hcell
    cases hcell
  distinct := by
    rw [items, hcells]
    exact List.Pairwise.nil

theorem keyed_fresh (sizing : Sizing) (capacity : Nat) :
    Keyed hash keyOf (fresh α sizing capacity) :=
  keyed_of_items_eq_nil (wellFormed_fresh sizing capacity) Slots.cells_empty

@[simp] theorem items_fresh (sizing : Sizing) (capacity : Nat) :
    (fresh α sizing capacity).items = [] := by
  simp [items, fresh]

theorem Starts.keyed (h : Starts t) : Keyed hash keyOf t := by
  obtain ⟨sizing, capacity, rfl⟩ := h.eq_fresh
  exact keyed_fresh sizing capacity

omit [BEq K] in
theorem Starts.items_eq_nil (h : Starts t) : t.items = [] := by
  obtain ⟨sizing, capacity, rfl⟩ := h.eq_fresh
  exact items_fresh sizing capacity

theorem keyed_clear (t : Table α) : Keyed hash keyOf t.clear :=
  keyed_of_items_eq_nil (wellFormed_clear t) Slots.cells_empty

@[simp] theorem items_clear (t : Table α) : t.clear.items = [] := by
  simp [items, clear]

/-- The keys in two slots are not equal. -/
theorem Keyed.keys_ne [EquivBEq K] (h : Keyed hash keyOf t) {i j : Fin t.capacity}
    {cell cell' : Cell α} (hij : j ≠ i) (hi : t.slots.get i = some cell)
    (hj : t.slots.get j = some cell') : (keyOf cell.item == keyOf cell'.item) = false := by
  have hcells : t.slots.cells.Perm (cell :: t.slots.others i) := by
    simpa [hi] using t.slots.cells_perm_others i
  have hitems : t.items.Perm (cell.item :: (t.slots.others i).map (·.item)) := hcells.map _
  exact h.distinct.ne_of_perm_cons hitems (BEq.refl _)
    (List.mem_map_of_mem (Slots.mem_others.2 ⟨j, hij, hj⟩))

/-! ## Looking up -/

theorem Keyed.matches_iff (h : Keyed hash keyOf t) (hhash : RespectsEquality hash) {cell : Cell α}
    (hcell : cell ∈ t.slots.cells) :
    Slots.Matches (hash key) (fun a => key == keyOf a) cell ↔ key == keyOf cell.item := by
  constructor
  · intro hm
    exact hm.2
  · intro hkey
    exact ⟨(h.hash_eq cell hcell).trans (hhash _ _ hkey).symm, hkey⟩

theorem Keyed.absent_iff (h : Keyed hash keyOf t) (hhash : RespectsEquality hash) :
    t.Absent (hash key) (fun a => key == keyOf a) ↔ lookup keyOf key t.items = none := by
  rw [lookup_eq_none_iff]
  constructor
  · intro habsent a ha
    obtain ⟨cell, hcell, rfl⟩ := List.mem_map.1 ha
    obtain ⟨i, hi⟩ := Slots.mem_cells.1 hcell
    apply Bool.eq_false_iff.2
    intro hkey
    exact habsent hi ((h.matches_iff hhash hcell).2 hkey)
  · intro hne i cell hi hm
    have hcell : cell ∈ t.slots.cells := Slots.mem_cells.2 ⟨i, hi⟩
    exact Bool.eq_false_iff.1 (hne cell.item (List.mem_map_of_mem hcell)) hm.2

theorem Keyed.lookup_of_mem [EquivBEq K] (h : Keyed hash keyOf t) {i : Fin t.capacity}
    {cell : Cell α} (hi : t.slots.get i = some cell) (hkey : key == keyOf cell.item) :
    lookup keyOf key t.items = some cell.item :=
  h.distinct.lookup_eq_some (List.mem_map_of_mem (Slots.mem_cells.2 ⟨i, hi⟩)) hkey

/-- A search ends at the item with the key. -/
theorem Keyed.seek?_cases [EquivBEq K] (h : Keyed hash keyOf t) (hhash : RespectsEquality hash)
    (key : K) :
    (∃ i cell, t.seek? (hash key) (fun a => key == keyOf a) = some (i, cell) ∧
        t.slots.get i = some cell ∧ key == keyOf cell.item ∧
        lookup keyOf key t.items = some cell.item) ∨
      (t.seek? (hash key) (fun a => key == keyOf a) = none ∧
        lookup keyOf key t.items = none) := by
  cases hseek : t.seek? (hash key) (fun a => key == keyOf a) with
  | none =>
    exact .inr ⟨rfl, (h.absent_iff hhash).1 (h.wellFormed.absent_of_seek?_eq_none hseek)⟩
  | some result =>
    obtain ⟨hi, hm⟩ := seek?_eq_some hseek
    exact .inl ⟨result.1, result.2, rfl, hi, hm.2, h.lookup_of_mem hi hm.2⟩

theorem Keyed.find?_eq [EquivBEq K] (h : Keyed hash keyOf t) (hhash : RespectsEquality hash)
    (key : K) : t.find? (hash key) (fun a => key == keyOf a) = lookup keyOf key t.items := by
  rcases h.seek?_cases hhash key with ⟨i, cell, hseek, -, -, hlookup⟩ | ⟨hseek, hlookup⟩
  · rw [find?, hseek, hlookup, Option.map_some]
  · rw [find?, hseek, hlookup, Option.map_none]

/-- The item under a cursor. -/
theorem Keyed.item?_cursor [EquivBEq K] (h : Keyed hash keyOf t) (hhash : RespectsEquality hash)
    (key : K) :
    (t.cursor (hash key) fun a => key == keyOf a).item? = lookup keyOf key t.items := by
  rcases h.seek?_cases hhash key with ⟨i, cell, hseek, hi, -, hlookup⟩ | ⟨hseek, hlookup⟩
  · simp [cursor, Cursor.item?, Cursor.cell?, hseek, hi, hlookup]
  · simp [cursor, Cursor.item?, Cursor.cell?, hseek, hlookup]

/-! ## Replacing, taking out and adding one entry -/

variable [EquivBEq K]

/-- Another item with an equal key takes the place of an item. -/
theorem Keyed.replace (h : Keyed hash keyOf t) (hhash : RespectsEquality hash)
    (ht' : t'.WellFormed) {cell : Cell α} {item : α} {rest : List (Cell α)}
    (hcells : t.slots.cells.Perm (cell :: rest))
    (hcells' : t'.slots.cells.Perm ({ cell with item } :: rest))
    (hkey : keyOf item == keyOf cell.item) :
    Keyed hash keyOf t' ∧ t'.items.Perm (put keyOf item t.items) := by
  have hitems : t.items.Perm (cell.item :: rest.map (·.item)) := hcells.map _
  have hitems' : t'.items.Perm (item :: rest.map (·.item)) := hcells'.map _
  refine ⟨⟨ht', ?_, ?_⟩, ?_⟩
  · intro other hother
    rcases List.mem_cons.1 (hcells'.mem_iff.1 hother) with rfl | hrest
    · have hold := h.hash_eq cell (hcells.mem_iff.2 List.mem_cons_self)
      exact hold.trans (hhash _ _ hkey).symm
    · exact h.hash_eq other (hcells.mem_iff.2 (List.mem_cons_of_mem _ hrest))
  · exact ((h.distinct.perm hitems).replace hkey).perm hitems'.symm
  · exact hitems'.trans (h.distinct.put_of_perm_cons hitems hkey).symm

theorem Keyed.without (h : Keyed hash keyOf t) {i : Fin t.capacity} {cell : Cell α}
    (hi : t.slots.get i = some cell) (hkey : key == keyOf cell.item) :
    Keyed hash keyOf (t.without i) ∧ (t.without i).items.Perm (erase keyOf key t.items) := by
  have hcells := (cells_without hi).symm
  have hitems : t.items.Perm (cell.item :: (t.without i).items) := hcells.map _
  refine ⟨⟨h.wellFormed.without hi, ?_, ?_⟩, ?_⟩
  · intro other hother
    exact h.hash_eq other (hcells.mem_iff.2 (List.mem_cons_of_mem _ hother))
  · exact (List.pairwise_cons.1 (h.distinct.perm hitems)).2
  · exact (h.distinct.erase_of_perm_cons hitems hkey).symm

/-- An item with a new key is added. -/
theorem Keyed.add (h : Keyed hash keyOf t) (ht' : t'.WellFormed) {item : α}
    (hcells' : t'.slots.cells.Perm ({ hash := hash (keyOf item), item } :: t.slots.cells))
    (hnew : lookup keyOf (keyOf item) t.items = none) :
    Keyed hash keyOf t' ∧ t'.items.Perm (put keyOf item t.items) := by
  have hitems' : t'.items.Perm (item :: t.items) := hcells'.map _
  refine ⟨⟨ht', ?_, ?_⟩, ?_⟩
  · intro other hother
    rcases List.mem_cons.1 (hcells'.mem_iff.1 hother) with rfl | hold
    · rfl
    · exact h.hash_eq other hold
  · have hdistinct : Distinct keyOf (item :: t.items) :=
      List.pairwise_cons.2 ⟨lookup_eq_none_iff.1 hnew, h.distinct⟩
    exact hdistinct.perm hitems'.symm
  · rw [put_of_lookup_eq_none hnew]
    exact hitems'

theorem Keyed.modify?_cases (h : Keyed hash keyOf t) (hhash : RespectsEquality hash) (key : K)
    (update : α → α) (hupdate : ∀ a, keyOf (update a) = keyOf a) :
    (∃ a t', t.modify? (hash key) (fun a => key == keyOf a) update = some (update a, t') ∧
        lookup keyOf key t.items = some a ∧ Keyed hash keyOf t' ∧
        t'.items.Perm (put keyOf (update a) t.items)) ∨
      (t.modify? (hash key) (fun a => key == keyOf a) update = none ∧
        lookup keyOf key t.items = none) := by
  rcases h.seek?_cases hhash key with ⟨i, cell, hseek, hi, -, hlookup⟩ | ⟨hseek, hlookup⟩
  · left
    let slots := t.slots.put i (some { cell with item := update cell.item })
    have hmodify : t.modify? (hash key) (fun a => key == keyOf a) update =
        some (update cell.item, { t with slots }) :=
      (h.wellFormed.hits (probe_of_seek? hseek)).modify update
    have hcells : t.slots.cells.Perm (cell :: t.slots.others i) := by
      simpa [hi] using t.slots.cells_perm_others i
    have hcells' : slots.cells.Perm
        ({ cell with item := update cell.item } :: t.slots.others i) :=
      t.slots.cells_put_perm i _
    have hkey : keyOf (update cell.item) == keyOf cell.item := by
      rw [hupdate]
      exact BEq.refl _
    exact ⟨cell.item, { t with slots }, hmodify, hlookup,
      h.replace hhash (h.wellFormed.modify? hmodify) hcells hcells' hkey⟩
  · right
    exact ⟨by rw [modify?, hseek]; rfl, hlookup⟩

theorem Keyed.remove?_cases (h : Keyed hash keyOf t) (hhash : RespectsEquality hash) (key : K) :
    (∃ a t', t.remove? (hash key) (fun a => key == keyOf a) = some (a, t') ∧
        lookup keyOf key t.items = some a ∧ Keyed hash keyOf t' ∧
        t'.items.Perm (erase keyOf key t.items)) ∨
      (t.remove? (hash key) (fun a => key == keyOf a) = none ∧
        lookup keyOf key t.items = none) := by
  rcases h.seek?_cases hhash key with ⟨i, cell, hseek, hi, hkey, hlookup⟩ | ⟨hseek, hlookup⟩
  · left
    have hremove := (h.wellFormed.hits (probe_of_seek? hseek)).remove
    exact ⟨cell.item, t.without i, hremove, hlookup, h.without hi hkey⟩
  · right
    exact ⟨by rw [remove?, hseek]; rfl, hlookup⟩

/-! ## Visiting all entries -/

variable {σ : Type w}

omit [BEq K] [EquivBEq K] in
theorem map_item_sift (visit : σ → α → σ × Option α) (state : σ) (cells : List (Cell α)) :
    (Table.sift visit state cells).2.map (·.item) =
      Dictionary.sift visit state (cells.map (·.item)) := by
  induction cells generalizing state with
  | nil => rfl
  | cons cell cells ih =>
    rw [List.map_cons, Dictionary.sift, ← ih, Table.sift]
    simp only
    cases (visit state cell.item).2 <;> rfl

omit [BEq K] [EquivBEq K] in
theorem sift_sublist {visit : σ → α → σ × Option α}
    (hvisit : ∀ state a b, (visit state a).2 = some b → keyOf b = keyOf a) (state : σ)
    (cells : List (Cell α)) :
    ((Table.sift visit state cells).2.map (signature keyOf)).Sublist
      (cells.map (signature keyOf)) := by
  induction cells generalizing state with
  | nil => exact List.Sublist.refl _
  | cons cell cells ih =>
    rw [Table.sift]
    simp only
    cases hitem : (visit state cell.item).2 with
    | some item =>
      have hsame : signature keyOf { cell with item } = signature keyOf cell := by
        rw [signature, signature, hvisit state cell.item item hitem]
      simp only [List.map_cons, hsame]
      exact (ih _).cons_cons _
    | none => exact (ih _).cons _

/-- Retaining keeps what a visit of the items in slot order keeps. -/
theorem Keyed.retain (h : Keyed hash keyOf t) {visit : σ → α → σ × Option α}
    (hvisit : ∀ state a b, (visit state a).2 = some b → keyOf b = keyOf a) (state : σ) :
    ∃ last t', t.retain visit state = .ok (last, t') ∧ Keyed hash keyOf t' ∧
      t'.items.Perm (Dictionary.sift visit state t.items) := by
  obtain ⟨t', hretain, hwf, -, -, hcells⟩ := t.retain_spec visit state
  refine ⟨_, t', hretain, h.of_sublist hwf hcells (sift_sublist hvisit state _), ?_⟩
  rw [items, items, ← map_item_sift]
  exact hcells.map _

omit [BEq K] [EquivBEq K] in
theorem map_signature_applyFirst {updates : List (α → α)}
    (hupdates : ∀ update ∈ updates, ∀ a, keyOf (update a) = keyOf a) (cells : List (Cell α)) :
    (Traversal.applyFirst (updates.map Traversal.onItem) cells).map (signature keyOf) =
      cells.map (signature keyOf) := by
  refine Traversal.map_applyFirst ?_ cells
  intro update' hmem cell
  obtain ⟨update, hupdate, rfl⟩ := List.mem_map.1 hmem
  simp only [signature, Traversal.onItem, hupdates update hupdate]

omit [BEq K] [EquivBEq K] in
theorem map_item_applyFirst (updates : List (α → α)) (cells : List (Cell α)) :
    (Traversal.applyFirst (updates.map Traversal.onItem) cells).map (·.item) =
      Traversal.applyFirst updates (cells.map (·.item)) := by
  induction updates generalizing cells with
  | nil => rfl
  | cons update updates ih =>
    cases cells with
    | nil => rfl
    | cons cell cells =>
      simp only [List.map_cons, Traversal.applyFirst, ih]
      rfl

/-- Visiting from the front changes the first items in slot order, and yields them. -/
theorem Keyed.visit_front (h : Keyed hash keyOf t) {updates : List (α → α)}
    (hupdates : ∀ update ∈ updates, ∀ a, keyOf (update a) = keyOf a) :
    let (items, last) := t.traversal.visit (updates.map (.front, ·))
    let items' := Traversal.applyFirst updates t.items
    items = items'.take updates.length ∧ Keyed hash keyOf (t.visited last) ∧
      (t.visited last).items.Perm items' := by
  have hall : t.traversal.slots.cells.Perm ([] ++ t.traversal.pendingCells) := by
    rw [pendingCells_traversal]
    exact List.Perm.refl _
  obtain ⟨hitems, hcells⟩ := Traversal.visit_front h.wellFormed.exact_traversal updates hall
  rw [pendingCells_traversal] at hitems hcells
  have hwf := h.wellFormed.visited (Traversal.hashAt?_visit t.traversal (updates.map (.front, ·)))
  refine ⟨?_, h.of_sublist hwf hcells ?_, ?_⟩
  · rw [hitems, List.map_take, map_item_applyFirst]
    rfl
  · rw [List.nil_append, map_signature_applyFirst hupdates]
  · simp only [items]
    rw [← map_item_applyFirst]
    exact hcells.map _

theorem Keyed.mapItems (h : Keyed hash keyOf t) (update : α → α)
    (hupdate : ∀ a, keyOf (update a) = keyOf a) :
    Keyed hash keyOf (t.mapItems update) ∧
      (t.mapItems update).items.Perm (t.items.map update) := by
  have hcells := h.wellFormed.cells_mapItems update
  have hsame : (t.slots.cells.map (Traversal.onItem update)).map (signature keyOf) =
      t.slots.cells.map (signature keyOf) := by
    simp [signature, Traversal.onItem, hupdate, Function.comp_def]
  refine ⟨h.of_sublist (h.wellFormed.mapItems update) hcells ?_, ?_⟩
  · rw [hsame]
  · have hitems := hcells.map (·.item)
    simpa [items, Traversal.onItem, Function.comp_def] using hitems

end Keyed

end Table

end LinearProbing
