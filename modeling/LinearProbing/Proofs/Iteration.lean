-- SUMMARY: Iterating over a table, a map or a set from one or both ends covers every entry exactly once.
import LinearProbing.Proofs.KeyMap.Frame
import LinearProbing.Proofs.KeySet.Frame
import LinearProbing.Proofs.SetAlgebra
import LinearProbing.Proofs.Table.Conservation
import LinearProbing.Proofs.Traversal.BothEnds

/-! # Iteration

A table that operations lead to counts its entries exactly, so a traversal of all of them is exact
from the start, and requests at its two ends in any order hand out every entry once. A traversal
that reads, one that changes items, and the one of a drained table differ only in the updates and in
what becomes of the table. Maps and sets pass the traversal of their table on, and ask it from the
front only; the keys and the values of a map are those of the pairs it hands out.
-/

namespace LinearProbing

universe u v

open Traversal

namespace Table

variable {α : Type u} {t : Table α}

/-- A script of requests to a traversal of all entries has been served: by the front with the entries
in `front`, in slot order, by the back with those in `back`, in the opposite order, and those in
`left` are still to come. -/
structure Served (t : Table α) (script : List (End × (α → α)))
    (front left back : List (Fin t.capacity × Cell α)) : Prop where
  split : t.slots.entries = front ++ left ++ back.reverse
  front_items : End.front.items (t.traversal.serve script).1 =
    itemsOf (End.front.updated script front)
  back_items : End.back.items (t.traversal.serve script).1 =
    itemsOf (End.back.updated script back)
  /-- There is an answer until all entries have been handed out, and none ever after. -/
  answered : ∀ asked side answer, (t.traversal.serve script).1[asked]? = some (side, answer) →
    (answer.isSome ↔ asked < t.count)
  length_left : left.length = t.count - script.length
  rest_eq : (t.traversal.serve script).2.rest = itemsOf left
  remaining_eq : (t.traversal.serve script).2.remaining = left.length
  sizeHint_eq : (t.traversal.serve script).2.sizeHint = (left.length, left.length)
  /-- The table has new items in the entries that were handed out, and is the same otherwise. -/
  entries_visited : (t.visited (t.traversal.serve script).2).slots.entries =
    End.front.updated script front ++ left ++ (End.back.updated script back).reverse

/-- Iteration hands out all entries. -/
structure IteratesOnce (t : Table α) : Prop where
  /-- The entries are the occupied slots in ascending order. -/
  occupied : ∀ i cell, (i, cell) ∈ t.slots.entries ↔ t.slots.get i = some cell
  ascending : (t.slots.entries.map (·.1)).Pairwise (· < ·)
  served : ∀ script, ∃ front left back, t.Served script front left back
  /-- Whatever is changed, the hashes stay in their slots. -/
  hashAt?_visited : ∀ script,
    (t.visited (t.traversal.serve script).2).slots.hashAt? = t.slots.hashAt?
  /-- A traversal that only reads hands out the items as they are and changes nothing. -/
  visited_of_reading : ∀ script, (∀ request ∈ script, request.2 = id) →
    t.visited (t.traversal.serve script).2 = t
  items_of_reading : ∀ script front left back, (∀ request ∈ script, request.2 = id) →
    t.Served script front left back →
    End.front.items (t.traversal.serve script).1 = itemsOf front ∧
      End.back.items (t.traversal.serve script).1 = itemsOf back
  /-- Draining hands out the same traversal, and the table is empty at once. -/
  drain_eq : t.drain = (t.traversal, fresh α t.sizing t.capacity)

theorem pendingEntries_traversal (t : Table α) : t.traversal.pendingEntries = t.slots.entries := by
  rw [pendingEntries, pending_traversal, List.filterMap_filter]
  apply List.filterMap_congr
  intro i _
  cases hi : t.slots.get i <;> simp [traversal, hi]

theorem served_of_serves {script : List (End × (α → α))}
    {front left back : List (Fin t.capacity × Cell α)}
    (hserves : t.traversal.Serves script front left back) : t.Served script front left back := by
  have hremaining : (t.traversal.serve script).2.remaining = left.length := by
    rw [hserves.exact_after.remaining_eq, hserves.pending_after]
  refine
    { split := ?_
      front_items := hserves.front_items
      back_items := hserves.back_items
      answered := hserves.answered
      length_left := hserves.length_left
      rest_eq := ?_
      remaining_eq := hremaining
      sizeHint_eq := ?_
      entries_visited := ?_ }
  · rw [← pendingEntries_traversal]
    exact hserves.split
  · rw [hserves.exact_after.rest_eq, ← map_snd_pendingEntries, hserves.pending_after, List.map_map]
    rfl
  · rw [sizeHint, hremaining]
  · have hall : t.traversal.slots.entries = [] ++ t.traversal.pendingEntries ++ [] := by
      rw [pendingEntries_traversal, List.nil_append, List.append_nil]
      rfl
    have hafter := hserves.entries_after [] [] hall
    rwa [List.nil_append, List.append_nil] at hafter

theorem WellFormed.served (h : t.WellFormed) (script : List (End × (α → α))) :
    ∃ front left back, t.Served script front left back := by
  obtain ⟨front, left, back, hserves⟩ := h.exact_traversal.exists_serves script
  exact ⟨front, left, back, served_of_serves hserves⟩

/-- Requests at the front take no entry from the back. -/
theorem WellFormed.served_front (h : t.WellFormed) (updates : List (α → α)) :
    ∃ front left, t.Served (fromFront updates) front left [] := by
  obtain ⟨front, left, back, hserves⟩ := h.exact_traversal.exists_serves (fromFront updates)
  obtain rfl : back = [] := hserves.back_eq_nil
  exact ⟨front, left, served_of_serves hserves⟩

/-- What the updates do not change in an entry stays the same in the whole table. -/
theorem Served.map_entries_visited {β : Type*} {updates : List (α → α)}
    {front left : List (Fin t.capacity × Cell α)} (h : t.Served (fromFront updates) front left [])
    {f : Fin t.capacity × Cell α → β}
    (hupdates : ∀ update ∈ updates, ∀ entry, f (onEntry update entry) = f entry) :
    (t.visited (t.traversal.serve (fromFront updates)).2).slots.entries.map f =
      t.slots.entries.map f := by
  have hfront : (End.front.updated (fromFront updates) front).map f = front.map f := by
    refine map_applyFirst ?_ front
    simpa [updates_fromFront] using hupdates
  rw [h.entries_visited, h.split, End.updated_nil, List.map_append, List.map_append, List.map_append,
    List.map_append, hfront]

theorem WellFormed.iteratesOnce (h : t.WellFormed) : t.IteratesOnce where
  occupied _ _ := Slots.mem_entries
  ascending := t.slots.ascending_entries
  served := h.served
  hashAt?_visited script := hashAt?_serve t.traversal script
  visited_of_reading script hreading := by
    rw [Table.visited, slots_serve_of_reading t.traversal hreading]
    rfl
  items_of_reading script front left back hreading hserved := by
    rw [hserved.front_items, hserved.back_items, End.updated_of_reading _ hreading,
      End.updated_of_reading _ hreading]
    exact ⟨rfl, rfl⟩
  drain_eq := rfl

end Table

/-! ## Maps and sets -/

namespace KeyMap

variable {K : Type u} {V : Type v} {m : KeyMap K V}

/-- Iteration hands out all pairs from the front, and may change their values. -/
structure IteratesOnce (m : KeyMap K V) : Prop where
  traversal_eq : m.traversal = m.table.traversal
  served : ∀ updates : List (K → V → V), ∃ front left,
    m.table.Served (fromFront (updates.map updatePair)) front left []
  /-- The keys and their hashes stay in their slots. -/
  keys_visited : ∀ updates : List (K → V → V),
    (m.visited (m.traversal.serve (fromFront (updates.map updatePair))).2).table.slots.entries.map
        (fun entry => (entry.1, entry.2.hash, entry.2.item.1)) =
      m.table.slots.entries.map fun entry => (entry.1, entry.2.hash, entry.2.item.1)
  drain_eq : m.drain =
    (m.traversal, { m with table := .fresh (K × V) m.table.sizing m.table.capacity })

theorem iteratesOnce (h : m.table.WellFormed) : m.IteratesOnce where
  traversal_eq := rfl
  served updates := h.served_front (updates.map updatePair)
  keys_visited updates := by
    obtain ⟨front, left, hserved⟩ := h.served_front (updates.map updatePair)
    refine hserved.map_entries_visited ?_
    intro update hupdate entry
    obtain ⟨update', -, rfl⟩ := List.mem_map.1 hupdate
    rfl
  drain_eq := rfl

end KeyMap

namespace KeySet

variable {K : Type u} {s : KeySet K}

/-- Iteration hands out all keys from the front. -/
structure IteratesOnce (s : KeySet K) : Prop where
  traversal_eq : s.traversal = s.table.traversal
  served : ∀ asked, ∃ front left,
    s.table.Served (fromFront (List.replicate asked id)) front left [] ∧
      End.front.items (s.traversal.serve (fromFront (List.replicate asked id))).1 = itemsOf front
  drain_eq : s.drain = (s.traversal, { s with table := .fresh K s.table.sizing s.table.capacity })

theorem iteratesOnce (h : s.table.WellFormed) : s.IteratesOnce where
  traversal_eq := rfl
  served asked := by
    obtain ⟨front, left, hserved⟩ := h.served_front (List.replicate asked id)
    have hitems := h.iteratesOnce.items_of_reading _ _ _ _ (by simp [fromFront]) hserved
    exact ⟨front, left, hserved, hitems.1⟩
  drain_eq := rfl

end KeySet

/-! ## All containers -/

/-- Iterating over a table that operations lead to hands out every entry exactly once, from whichever
ends it is asked for them, and so does iterating over a map or a set with such a table. -/
theorem iterates_once {α : Type*} {K : Type*} {V : Type*} :
    (∀ t : Table α, t.Reachable → t.IteratesOnce) ∧
      (∀ m : KeyMap K V, m.table.Reachable → m.IteratesOnce) ∧
      (∀ s : KeySet K, s.table.Reachable → s.IteratesOnce) :=
  ⟨fun _ h => h.wellFormed.iteratesOnce, fun _ h => KeyMap.iteratesOnce h.wellFormed,
    fun _ h => KeySet.iteratesOnce h.wellFormed⟩

/-- Requests at both ends, of which the first changes an item, and more of them than three. -/
def interleaved : List (End × (Nat → Nat)) :=
  [(.front, (· + 100)), (.back, id), (.front, id), (.back, id), (.front, id)]

theorem iterates_once_wrapped :
    (∃ front back, Table.wrapped.Served interleaved front [] back) ∧
      (Table.wrapped.traversal.serve interleaved).1 =
        [(.front, some 113), (.back, some 6), (.front, some 20), (.back, none), (.front, none)] ∧
      (final KeyMap.Op.perform LastDigit.emptyMap LastDigit.mapOps).IteratesOnce ∧
      LastDigit.grownSet.IteratesOnce := by
  obtain ⟨htables, hmaps, hsets⟩ := iterates_once (α := Nat) (K := LastDigit) (V := Nat)
  refine ⟨?_, by decide +kernel, hmaps _ ?_, hsets _ ?_⟩
  · obtain ⟨front, left, back, hserved⟩ :=
      (htables Table.wrapped Table.reachable_wrapped).served interleaved
    have hlength : left.length = 0 := hserved.length_left.trans (by decide +kernel)
    obtain rfl := List.eq_nil_of_length_eq_zero hlength
    exact ⟨front, back, hserved⟩
  · exact KeyMap.reachable_final (.start LastDigit.starts_emptyMap.table) _
  · exact KeySet.reachable_final (.start (.ofPolicy .standard)) _

end LinearProbing
