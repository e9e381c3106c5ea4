import Newt.Foundation.Keyed

/-! # Finite maps with keys in insertion order

Hash maps and slot tables, read as association lists whose keys are unique by
construction.
-/

namespace Foundation

open Keyed

/-- A finite map. -/
structure Assoc (κ α : Type) where
  entries : List (κ × α)
  nodup : UniqueKeys Prod.fst entries

namespace Assoc

variable {κ α : Type}

def empty : Assoc κ α := ⟨[], List.nodup_nil⟩

def keys (m : Assoc κ α) : List κ := m.entries.map Prod.fst

theorem keys_nodup (m : Assoc κ α) : m.keys.Nodup := m.nodup

/-- Change all values. -/
def mapValues (f : κ → α → α) (m : Assoc κ α) : Assoc κ α where
  entries := m.entries.map fun e => (e.1, f e.1 e.2)
  nodup := by
    have hsame : (m.entries.map fun e => (e.1, f e.1 e.2)).map Prod.fst =
        m.entries.map Prod.fst := by
      rw [List.map_map]
      rfl
    unfold UniqueKeys
    rw [hsame]
    exact m.nodup

@[simp]
theorem keys_mapValues (f : κ → α → α) (m : Assoc κ α) : (m.mapValues f).keys = m.keys := by
  simp [keys, mapValues]

variable [DecidableEq κ]

def get? (m : Assoc κ α) (k : κ) : Option α := (table Prod.fst m.entries k).map Prod.snd

/-- Change the value of a key, if it has one. -/
def modify (m : Assoc κ α) (k : κ) (f : α → α) : Assoc κ α where
  entries := modifyFirst (fun e => decide (e.1 = k)) (fun e => (e.1, f e.2)) m.entries
  nodup := by
    refine UniqueKeys.modifyFirst ?_ m.nodup _
    exact fun _ => rfl

def erase (m : Assoc κ α) (k : κ) : Assoc κ α := ⟨eraseKey Prod.fst k m.entries, m.nodup.eraseKey k⟩

/-- Set the value of a key. -/
def insert (m : Assoc κ α) (k : κ) (a : α) : Assoc κ α where
  entries := (m.erase k).entries ++ [(k, a)]
  nodup := by
    refine (m.erase k).nodup.push ?_
    rw [erase, table_eraseKey, Function.update_self]

theorem get?_isSome_iff (m : Assoc κ α) (k : κ) : (m.get? k).isSome = true ↔ k ∈ m.keys := by
  rw [get?, Option.isSome_map, keys, List.mem_map]
  cases hfound : table Prod.fst m.entries k with
  | none =>
      have hnone := table_eq_none_iff.mp hfound
      simpa using fun a ha => hnone (k, a) ha rfl
  | some e => exact iff_of_true rfl ⟨e, mem_of_table hfound⟩

@[simp]
theorem keys_modify (m : Assoc κ α) (k : κ) (f : α → α) : (m.modify k f).keys = m.keys := by
  refine map_key_modifyFirst ?_ _ _
  exact fun _ => rfl

theorem keys_erase (m : Assoc κ α) (k : κ) : (m.erase k).keys = m.keys.erase k := by
  rw [m.keys_nodup.erase_eq_filter]
  simp only [keys, erase, eraseKey, List.filter_map]
  congr 2
  funext e
  by_cases he : e.1 = k <;> simp [he]

theorem keys_perm_erase {m : Assoc κ α} {k : κ} (hk : k ∈ m.keys) :
    m.keys.Perm (k :: (m.erase k).keys) := by
  rw [keys_erase]
  exact List.perm_cons_erase hk

theorem keys_insert_perm {m : Assoc κ α} {k : κ} (hk : k ∉ m.keys) (a : α) :
    (m.insert k a).keys.Perm (k :: m.keys) := by
  have herase : (m.erase k).entries.map Prod.fst = m.keys := by
    change (m.erase k).keys = m.keys
    rw [keys_erase, List.erase_of_not_mem hk]
  rw [keys, insert, List.map_append, List.map_singleton, herase]
  exact List.perm_append_singleton _ _

/-! ## Lookup after an update -/

theorem get?_erase (m : Assoc κ α) (k : κ) :
    (m.erase k).get? = Function.update m.get? k none := by
  funext j
  simp only [get?, erase, table_eraseKey, Function.update_apply]
  split <;> rfl

theorem get?_insert (m : Assoc κ α) (k : κ) (a : α) :
    (m.insert k a).get? = Function.update m.get? k (some a) := by
  have hfresh : table Prod.fst (m.erase k).entries ((k, a) : κ × α).1 = none := by
    rw [erase, table_eraseKey, Function.update_self]
  funext j
  simp only [get?, insert, table_push hfresh, Function.update_apply]
  split
  · rfl
  · next hj =>
      rw [erase, table_eraseKey, Function.update_of_ne hj]

theorem get?_modify (m : Assoc κ α) (k : κ) (f : α → α) :
    (m.modify k f).get? = Function.update m.get? k ((m.get? k).map f) := by
  have hkey : ∀ e : κ × α, ((e.1, f e.2) : κ × α).1 = e.1 := fun _ => rfl
  funext j
  simp only [get?, modify, table_modifyFirst hkey, Function.update_apply]
  split
  · cases table Prod.fst m.entries k <;> rfl
  · rfl

theorem get?_mapValues (m : Assoc κ α) (f : κ → α → α) (k : κ) :
    (m.mapValues f).get? k = (m.get? k).map (f k) := by
  have hlist : ∀ entries : List (κ × α),
      (table Prod.fst (entries.map fun e => (e.1, f e.1 e.2)) k).map Prod.snd =
        ((table Prod.fst entries k).map Prod.snd).map (f k) := by
    intro entries
    induction entries with
    | nil => rfl
    | cons e rest ih =>
        rw [List.map_cons, table_cons, table_cons]
        split
        · next hkey =>
            rw [← hkey]
            rfl
        · exact ih
  exact hlist m.entries

/-- What holds of all values still does after an update with a value of which it
holds. -/
theorem forall_of_update {m n : Assoc κ α} {k : κ} {v : Option α} {inv : α → Prop}
    (hupdate : n.get? = Function.update m.get? k v) (hinv : ∀ j a, m.get? j = some a → inv a)
    (hvalue : ∀ a, v = some a → inv a) : ∀ j a, n.get? j = some a → inv a := by
  intro j a hget
  rw [hupdate, Function.update_apply] at hget
  split at hget
  · exact hvalue a hget
  · exact hinv j a hget

end Assoc

end Foundation
