import Mathlib.Data.List.Nodup
import Mathlib.Data.List.Perm.Basic
import Mathlib.Logic.Function.Basic

/-! # Vectors of records read as maps

Programs keep small tables as vectors of records and search them by a key. The
`table` of a vector is the map that a first-match search reads. The operations
below are those of Rust vectors, and each has its law on tables. Laws that need
unique keys say so.
-/

namespace Foundation.Keyed

variable {α κ : Type} [DecidableEq κ] (key : α → κ)

/-- The map that a first-match search by key reads. -/
def table (l : List α) (k : κ) : Option α := l.find? fun x => decide (key x = k)

/-- No two records have the same key. -/
def UniqueKeys (l : List α) : Prop := (l.map key).Nodup

/-- `retain`: drop the records with key `k`. -/
def eraseKey (k : κ) (l : List α) : List α := l.filter fun x => decide (key x ≠ k)

/-- Change the first record that satisfies `p`, as a mutable search does. -/
def modifyFirst (p : α → Bool) (f : α → α) : List α → List α
  | [] => []
  | x :: rest => if p x then f x :: rest else x :: modifyFirst p f rest

/-- Remove the record at `i` and put the last one in its place. -/
def swapRemove (i : Nat) (l : List α) : Option (α × List α) :=
  match l[i]?, l.getLast? with
  | some x, some last => some (x, (l.set i last).dropLast)
  | _, _ => none

variable {key}

/-! ## Search -/

@[simp]
theorem table_nil (k : κ) : table key [] k = none := rfl

theorem table_cons (x : α) (l : List α) (k : κ) :
    table key (x :: l) k = if key x = k then some x else table key l k := by
  by_cases hkey : key x = k <;> simp [table, hkey]

theorem table_append (l m : List α) (k : κ) :
    table key (l ++ m) k = (table key l k).or (table key m k) := by
  simp [table, List.find?_append]

theorem mem_of_table {l : List α} {k : κ} {x : α} (hx : table key l k = some x) :
    x ∈ l ∧ key x = k :=
  ⟨List.mem_of_find?_eq_some hx, by simpa using List.find?_some hx⟩

theorem table_eq_none_iff {l : List α} {k : κ} :
    table key l k = none ↔ ∀ x ∈ l, key x ≠ k := by
  simp [table]

omit [DecidableEq κ] in
theorem UniqueKeys.eq_of_key {l : List α} (hunique : UniqueKeys key l) {x y : α} (hx : x ∈ l)
    (hy : y ∈ l) (hkey : key x = key y) : x = y :=
  List.inj_on_of_nodup_map hunique hx hy hkey

/-- With unique keys a search finds every record. -/
theorem table_eq_some_iff {l : List α} (hunique : UniqueKeys key l) {k : κ} {x : α} :
    table key l k = some x ↔ x ∈ l ∧ key x = k := by
  refine ⟨mem_of_table, ?_⟩
  intro hmem
  rcases hmem with ⟨hx, hkey⟩
  cases hfound : table key l k with
  | none => exact absurd hkey (table_eq_none_iff.mp hfound x hx)
  | some y =>
      obtain ⟨hy, hykey⟩ := mem_of_table hfound
      rw [hunique.eq_of_key hx hy (hkey.trans hykey.symm)]

/-- The table of a vector with unique keys does not depend on its order. -/
theorem table_perm {l m : List α} (hperm : l.Perm m) (hunique : UniqueKeys key l) :
    table key l = table key m := by
  have hunique' : UniqueKeys key m := (hperm.map key).nodup_iff.mp hunique
  funext k
  ext x
  rw [table_eq_some_iff hunique, table_eq_some_iff hunique', hperm.mem_iff]

/-! ## Erasing -/

theorem table_eraseKey (k : κ) (l : List α) :
    table key (eraseKey key k l) = Function.update (table key l) k none := by
  funext j
  induction l with
  | nil => simp [eraseKey, Function.update_apply]
  | cons x l ih =>
      simp only [eraseKey, List.filter_cons, Function.update_apply] at ih ⊢
      by_cases hx : key x = k
      · rw [if_neg (by simp [hx]), ih, table_cons, hx]
        by_cases hj : j = k
        · simp [hj]
        · simp [hj, Ne.symm hj]
      · rw [if_pos (by simp [hx]), table_cons, ih, table_cons]
        by_cases hj : j = k
        · subst hj
          simp [hx]
        · simp [hj]

theorem UniqueKeys.eraseKey {l : List α} (hunique : UniqueKeys key l) (k : κ) :
    UniqueKeys key (eraseKey key k l) :=
  hunique.sublist (List.filter_sublist.map key)

theorem UniqueKeys.eraseKey_eq_eraseIdx {l : List α} (hunique : UniqueKeys key l) {i : Nat} {x : α}
    (hx : l[i]? = some x) : Keyed.eraseKey key (key x) l = l.eraseIdx i := by
  induction l generalizing i with
  | nil => cases hx
  | cons y l ih =>
      obtain ⟨hnot, hrest⟩ := List.nodup_cons.mp hunique
      cases i with
      | zero =>
          obtain rfl : y = x := Option.some.inj hx
          have hother : ∀ z ∈ l, key z ≠ key y := fun z hz heq =>
            hnot (heq ▸ List.mem_map_of_mem hz)
          simpa [Keyed.eraseKey] using hother
      | succ i =>
          have hmem : x ∈ l := List.mem_of_getElem? hx
          have hne : key y ≠ key x := fun heq => hnot (heq ▸ List.mem_map_of_mem hmem)
          have htail := ih hrest hx
          simp only [Keyed.eraseKey] at htail ⊢
          rw [List.filter_cons_of_pos (by simpa using hne), htail, List.eraseIdx_cons_succ]

/-- Erasing the keys of a list one after another. -/
theorem foldl_update_none (l : List κ) (m : κ → Option α) :
    l.foldl (fun m k => Function.update m k none) m = fun k => if k ∈ l then none else m k := by
  induction l generalizing m with
  | nil => simp
  | cons j l ih =>
      rw [List.foldl_cons, ih]
      funext k
      rw [Function.update_apply]
      by_cases hk : k = j <;> simp [hk]

/-! ## Appending -/

theorem UniqueKeys.push {l : List α} (hunique : UniqueKeys key l) {x : α}
    (hfresh : table key l (key x) = none) : UniqueKeys key (l ++ [x]) := by
  unfold UniqueKeys
  rw [List.map_append, List.map_singleton]
  refine List.Nodup.append hunique (List.nodup_singleton _) ?_
  intro k hk hx
  rw [List.mem_singleton] at hx
  obtain ⟨y, hy, rfl⟩ := List.mem_map.mp hk
  exact table_eq_none_iff.mp hfresh y hy hx

theorem table_push {l : List α} {x : α} (hfresh : table key l (key x) = none) :
    table key (l ++ [x]) = Function.update (table key l) (key x) (some x) := by
  funext k
  rw [table_append, table_cons, table_nil, Function.update_apply]
  by_cases hk : key x = k
  · subst hk
    simp [hfresh]
  · simp [hk, Ne.symm hk]

/-! ## Changing a record in place -/

section Modify

variable {f : α → α} (hkey : ∀ x, key (f x) = key x)
include hkey

omit [DecidableEq κ] in
theorem map_key_modifyFirst (p : α → Bool) (l : List α) :
    (modifyFirst p f l).map key = l.map key := by
  induction l with
  | nil => rfl
  | cons x l ih =>
      rw [modifyFirst]
      split
      · rw [List.map_cons, List.map_cons, hkey]
      · rw [List.map_cons, List.map_cons, ih]

omit [DecidableEq κ] in
theorem UniqueKeys.modifyFirst {l : List α} (hunique : UniqueKeys key l) (p : α → Bool) :
    UniqueKeys key (modifyFirst p f l) := by
  unfold UniqueKeys
  rw [map_key_modifyFirst hkey]
  exact hunique

theorem table_modifyFirst (k : κ) (l : List α) :
    table key (Keyed.modifyFirst (fun x => decide (key x = k)) f l) =
      Function.update (table key l) k ((table key l k).map f) := by
  funext j
  induction l with
  | nil => simp [Keyed.modifyFirst, Function.update_apply]
  | cons x l ih =>
      simp only [Function.update_apply] at ih ⊢
      by_cases hx : key x = k
      · subst hx
        rw [Keyed.modifyFirst, if_pos (by simp), table_cons, hkey]
        by_cases hj : j = key x
        · simp [hj, table_cons]
        · simp [hj, Ne.symm hj, table_cons]
      · rw [Keyed.modifyFirst, if_neg (by simp [hx]), table_cons, ih]
        by_cases hj : j = k
        · subst hj
          simp [hx, table_cons]
        · simp [hj, table_cons]

end Modify

/-! ## Removing by position -/

theorem swapRemove_of_lt {i : Nat} {l : List α} (hi : i < l.length) :
    ∃ x rest, swapRemove i l = some (x, rest) := by
  have hne : l ≠ [] := List.ne_nil_of_length_pos (Nat.zero_lt_of_lt hi)
  refine ⟨l[i], (l.set i (l.getLast hne)).dropLast, ?_⟩
  rw [swapRemove, List.getElem?_eq_getElem hi, List.getLast?_eq_some_getLast hne]

/-- `swapRemove` keeps the other records in some order, and those before the
position in place. -/
theorem swapRemove_some {i : Nat} {l rest : List α} {x : α}
    (hremove : swapRemove i l = some (x, rest)) :
    l[i]? = some x ∧ l.Perm (x :: rest) ∧ ∀ k < i, rest[k]? = l[k]? := by
  unfold swapRemove at hremove
  split at hremove
  · next y last hy hlast =>
      cases hremove
      obtain ⟨init, rfl⟩ := List.getLast?_eq_some_iff.mp hlast
      refine ⟨hy, ?_⟩
      obtain ⟨hi, hget⟩ := List.getElem?_eq_some_iff.mp hy
      rw [List.length_append, List.length_singleton] at hi
      by_cases hinit : i < init.length
      · -- the last record takes the free place
        rw [List.set_append_left i last hinit, List.dropLast_concat]
        rw [List.getElem_append_left hinit] at hget
        refine ⟨?_, ?_⟩
        · have hset := List.set_perm_cons_eraseIdx hinit last
          have herase := List.getElem_cons_eraseIdx_perm hinit
          rw [hget] at herase
          refine (List.perm_append_singleton last init).trans ?_
          refine ((herase.symm.cons last).trans (List.Perm.swap x last _)).trans ?_
          exact hset.symm.cons x
        · intro k hk
          rw [List.getElem?_set_ne (by omega), List.getElem?_append_left (by omega)]
      · -- the last record itself is removed
        obtain rfl : i = init.length := by omega
        rw [List.set_append_right _ _ (Nat.le_refl _)]
        simp only [Nat.sub_self, List.set_cons_zero, List.dropLast_concat]
        simp only [List.getElem_concat_length] at hget
        subst hget
        refine ⟨List.perm_append_singleton _ _, ?_⟩
        intro k hk
        rw [List.getElem?_append_left hk]
  · cases hremove

omit [DecidableEq κ] in
/-- Taking a record out leaves unique keys, none of which is its own. -/
theorem UniqueKeys.of_perm_cons {l rest : List α} {x : α} (hunique : UniqueKeys key l)
    (hperm : l.Perm (x :: rest)) : key x ∉ rest.map key ∧ UniqueKeys key rest := by
  have hcons : UniqueKeys key (x :: rest) := (hperm.map key).nodup_iff.mp hunique
  exact List.nodup_cons.mp hcons

theorem table_of_perm_cons {l rest : List α} {x : α} (hunique : UniqueKeys key l)
    (hperm : l.Perm (x :: rest)) :
    table key rest = Function.update (table key l) (key x) none := by
  have hgone : table key rest (key x) = none := by
    refine table_eq_none_iff.mpr ?_
    intro y hy hkey
    exact (hunique.of_perm_cons hperm).1 (hkey ▸ List.mem_map_of_mem hy)
  funext k
  rw [table_perm hperm hunique, Function.update_apply, table_cons]
  by_cases hk : k = key x
  · rw [if_pos hk, hk, hgone]
  · rw [if_neg hk, if_neg (Ne.symm hk)]

end Foundation.Keyed
