-- SUMMARY: Entries of keyed tables: what they say about the key, and what their use does to the items.
import LinearProbing.Proofs.Table.Keyed

/-! # Entries of keyed tables

The entry of a key is occupied by the item with that key or, if there is none, vacant. Using it
stores, changes or takes out that item and leaves the other items alone.
-/

namespace LinearProbing

universe u v

open Dictionary

/-- An operation ended because there is no room for another entry. -/
def Fault.LacksRoom : Fault → Prop
  | .capacityTooLarge _ => True
  | .unhandled (.capacityExceeded _) => True
  | _ => False

namespace Table

variable {K : Type u} {α : Type v} [BEq K] {hash : K → UInt64} {keyOf : α → K} {key : K}
  {t : Table α} {items : List α}

/-- The entry of a key in a keyed table that holds these items. -/
inductive EntryFor (hash : K → UInt64) (keyOf : α → K) (key : K) (items : List α) :
    Entry α → Prop
  | vacant {v : VacantEntry α} (wellFormed : v.WellFormed) (keyed : Keyed hash keyOf v.table)
      (items_perm : v.table.items.Perm items) (hash_eq : v.hash = hash key)
      (absent : lookup keyOf key items = none) : EntryFor hash keyOf key items (.vacant v)
  | occupied {e : OccupiedEntry α} (keyed : Keyed hash keyOf e.table)
      (items_perm : e.table.items.Perm items) (key_beq : key == keyOf e.item) :
      EntryFor hash keyOf key items (.occupied e)

namespace EntryFor

theorem keyed {e : Entry α} (h : EntryFor hash keyOf key items e) : Keyed hash keyOf e.table := by
  cases h with
  | vacant _ hkeyed => exact hkeyed
  | occupied hkeyed => exact hkeyed

theorem items_perm {e : Entry α} (h : EntryFor hash keyOf key items e) :
    e.table.items.Perm items := by
  cases h with
  | vacant _ _ hperm => exact hperm
  | occupied _ hperm => exact hperm

variable [EquivBEq K]

/-- The item of the entry is the item with the key. -/
theorem lookup_eq {e : Entry α} (h : EntryFor hash keyOf key items e) :
    lookup keyOf key items = e.item? := by
  cases h with
  | vacant _ _ _ _ habsent => exact habsent
  | @occupied e hkeyed hperm hkey =>
    rw [← hkeyed.distinct.lookup_perm hperm key]
    exact hkeyed.lookup_of_mem e.holds hkey

theorem insert {v : VacantEntry α} (h : EntryFor hash keyOf key items (.vacant v)) {item : α}
    (hitem : keyOf item = key) :
    EntryFor hash keyOf key (put keyOf item items) (.occupied (v.insert item)) := by
  cases h with
  | vacant hwf hkeyed hperm hhash habsent =>
    subst hitem
    have hnew : lookup keyOf (keyOf item) v.table.items = none := by
      rwa [hkeyed.distinct.lookup_perm hperm]
    have hcells := v.cells_insert item
    rw [hhash] at hcells
    obtain ⟨hkeyed', hperm'⟩ := hkeyed.add (hwf.insert item) hcells hnew
    exact .occupied hkeyed' (hperm'.trans (put_perm hperm)) (BEq.refl _)

theorem modify {e : OccupiedEntry α} (h : EntryFor hash keyOf key items (.occupied e))
    (hhash : RespectsEquality hash) (update : α → α)
    (hupdate : keyOf (update e.item) == keyOf e.item) :
    EntryFor hash keyOf key (put keyOf (update e.item) items) (.occupied (e.modify update)) := by
  cases h with
  | occupied hkeyed hperm hkey =>
    have hcells' := (e.modify update).cells_perm
    rw [e.others_modify] at hcells'
    obtain ⟨hkeyed', hperm'⟩ := hkeyed.replace hhash
      (OccupiedEntry.wellFormed_modify hkeyed.wellFormed update) e.cells_perm hcells' hupdate
    exact .occupied hkeyed' (hperm'.trans (put_perm hperm))
      (BEq.trans hkey (BEq.symm hupdate))

theorem remove {e : OccupiedEntry α} (h : EntryFor hash keyOf key items (.occupied e)) :
    Keyed hash keyOf e.remove.2 ∧ e.remove.2.items.Perm (erase keyOf key items) := by
  cases h with
  | occupied hkeyed hperm hkey =>
    obtain ⟨hkeyed', hperm'⟩ := hkeyed.without e.holds hkey
    exact ⟨hkeyed', hperm'.trans (erase_perm hperm)⟩

end EntryFor

/-! ## Asking for an entry -/

theorem Keyed.entryFor (h : Keyed hash keyOf t) (hhash : RespectsEquality hash) {e : Entry α}
    (hlocates : Locates t (hash key) (fun a => key == keyOf a) e) :
    EntryFor hash keyOf key t.items e := by
  have hwf := hlocates.wellFormed h.wellFormed
  cases hlocates with
  | @vacant v htable heq _ habsent =>
    subst htable
    exact .vacant hwf h (List.Perm.refl _) heq ((h.absent_iff hhash).1 habsent)
  | @occupied e htable hfound =>
    subst htable
    exact .occupied h (List.Perm.refl _) hfound.2

theorem Keyed.locate_cases (h : Keyed hash keyOf t) (hhash : RespectsEquality hash) (key : K) :
    (∃ e, t.locate (hash key) (fun a => key == keyOf a) = .ok e ∧
        EntryFor hash keyOf key t.items e) ∨
      t.locate (hash key) (fun a => key == keyOf a) = .error (.capacityExceeded t.capacity) := by
  rcases h.wellFormed.locate_cases (hash key) (fun a => key == keyOf a) with
    ⟨e, hlocate, hlocates⟩ | ⟨hlocate, -⟩
  · exact .inl ⟨e, hlocate, h.entryFor hhash hlocates⟩
  · exact .inr hlocate

variable [EquivBEq K]

theorem EntryFor.of_perm {items' : List α} {e : Entry α} (h : EntryFor hash keyOf key items e)
    (hperm : items.Perm items') : EntryFor hash keyOf key items' e := by
  have hlookup := (h.keyed.distinct.perm h.items_perm).lookup_perm hperm key
  cases h with
  | vacant hwf hkeyed hitems heq habsent =>
    exact .vacant hwf hkeyed (hitems.trans hperm) heq (hlookup ▸ habsent)
  | occupied hkeyed hitems hkey => exact .occupied hkeyed (hitems.trans hperm) hkey

/-- A keyed table has an entry for every key, unless there is no room for one. -/
theorem Keyed.entry_cases (h : Keyed hash keyOf t) (hhash : RespectsEquality hash) (key : K) :
    (∃ e, t.entry (hash key) (fun a => key == keyOf a) = .ok e ∧
        EntryFor hash keyOf key t.items e) ∨
      ∃ fault, t.entry (hash key) (fun a => key == keyOf a) = .error fault ∧
        fault.LacksRoom := by
  cases h.wellFormed.entry_cases (hash key) (fun a => key == keyOf a) with
  | located t' e hentry hroom hlocates =>
    have hrehoused := hroom.rehoused h.wellFormed
    have h' := h.of_perm hrehoused.wellFormed hrehoused.cells_perm
    have hperm := items_perm hrehoused.cells_perm
    exact .inl ⟨e, hentry, (h'.entryFor hhash hlocates).of_perm hperm⟩
  | tooLarge policy _ _ _ hentry => exact .inr ⟨_, hentry, trivial⟩
  | full _ _ _ hentry => exact .inr ⟨_, hentry, trivial⟩

end Table

end LinearProbing
