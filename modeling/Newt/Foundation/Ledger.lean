import Mathlib.Data.List.Nodup
import Mathlib.Logic.Function.Basic

/-! # Ledgers of keyed cells

Cells come and go, and every use of a cell consumes a number under its key. The
ledger records the keys and the numbers. When no key is given out twice, the numbers
under a key are those of a single cell, even if the cell is long gone. What each cell
guarantees about its own numbers then holds of the whole ledger.
-/

namespace Foundation

/-! ## Logged runs -/

/-- A run of a step relation, with everything its steps log. -/
inductive Trail {σ ε : Type} (step : σ → List ε → σ → Prop) : σ → List ε → σ → Prop
  | refl (s : σ) : Trail step s [] s
  | tail {s t u : σ} {log more : List ε} (prior : Trail step s log t) (last : step t more u) :
      Trail step s (log ++ more) u

namespace Trail

variable {σ τ ε δ : Type} {step : σ → List ε → σ → Prop} {s t u : σ} {log more : List ε}

theorem single (hstep : step s log t) : Trail step s log t := (refl s).tail hstep

theorem trans (hfirst : Trail step s log t) (hsecond : Trail step t more u) :
    Trail step s (log ++ more) u := by
  induction hsecond with
  | refl => simpa using hfirst
  | tail _ last ih =>
      rw [← List.append_assoc]
      exact ih.tail last

/-- A relation between the state and the log that every step keeps holds after a run. -/
theorem invariant (I : List ε → σ → Prop) (hstart : I [] s)
    (hkeep : ∀ {log t more u}, I log t → step t more u → I (log ++ more) u)
    (htrail : Trail step s log t) : I log t := by
  induction htrail with
  | refl => exact hstart
  | tail _ last ih => exact hkeep ih last

/-- A run seen through a view of its states and of its log. -/
theorem map {step' : τ → List δ → τ → Prop} (f : σ → τ) (g : ε → List δ)
    (hsim : ∀ {t more u}, step t more u → Trail step' (f t) (more.flatMap g) (f u))
    (htrail : Trail step s log t) : Trail step' (f s) (log.flatMap g) (f t) := by
  induction htrail with
  | refl => exact .refl _
  | tail _ last ih =>
      rw [List.flatMap_append]
      exact ih.trans (hsim last)

end Trail

/-! ## Entries -/

inductive Entry (κ γ : Type) where
  | opened (key : κ)
  | used (key : κ) (number : γ)

namespace Entry

variable {κ γ : Type}

def opened? : Entry κ γ → Option κ
  | .opened key => some key
  | .used _ _ => none

def used? : Entry κ γ → Option (κ × γ)
  | .opened _ => none
  | .used key number => some (key, number)

/-- The keys given out. -/
def keys (entries : List (Entry κ γ)) : List κ := entries.filterMap opened?

/-- The numbers used, with their keys. -/
def uses (entries : List (Entry κ γ)) : List (κ × γ) := entries.filterMap used?

variable {entries more : List (Entry κ γ)} {key other : κ} {number : γ}

@[simp]
theorem keys_append : keys (entries ++ more) = keys entries ++ keys more :=
  List.filterMap_append

@[simp]
theorem keys_opened : keys [(.opened key : Entry κ γ)] = [key] := rfl

@[simp]
theorem keys_used : keys [.used key number] = [] := rfl

variable [DecidableEq κ]

/-- The numbers used under one key. -/
def numbers (key : κ) (entries : List (Entry κ γ)) : List γ :=
  ((uses entries).filter fun use => use.1 = key).map Prod.snd

@[simp]
theorem numbers_nil : numbers key ([] : List (Entry κ γ)) = [] := rfl

@[simp]
theorem numbers_append :
    numbers key (entries ++ more) = numbers key entries ++ numbers key more := by
  simp [numbers, uses]

@[simp]
theorem numbers_opened : numbers key [(.opened other : Entry κ γ)] = [] := rfl

@[simp]
theorem numbers_used_self : numbers key [.used key number] = [number] := by
  simp [numbers, uses, used?]

theorem numbers_used_of_ne (hne : other ≠ key) : numbers key [.used other number] = [] := by
  simp [numbers, uses, used?, hne]

theorem mem_numbers_iff : number ∈ numbers key entries ↔ (key, number) ∈ uses entries := by
  simp [numbers]

/-- When no number is used twice under one key, no pair is used twice. -/
theorem nodup_uses (hnodup : ∀ key, (numbers key entries).Nodup) : (uses entries).Nodup := by
  unfold numbers at hnodup
  generalize uses entries = pairs at hnodup ⊢
  induction pairs with
  | nil => exact List.nodup_nil
  | cons use rest ih =>
      obtain ⟨key, number⟩ := use
      refine List.nodup_cons.mpr ⟨?_, ih fun other => ?_⟩
      · intro hmem
        have hkey := hnodup key
        rw [List.filter_cons_of_pos (by simp), List.map_cons, List.nodup_cons] at hkey
        exact hkey.1 (List.mem_map.mpr ⟨(key, number), by simp [hmem], rfl⟩)
      · exact (hnodup other).sublist (((List.sublist_cons_self _ _).filter _).map _)

end Entry

/-! ## Disciplines -/

/-- How cells with keys are used. A use consumes a number, and no step of a cell
changes its key. -/
structure Discipline (σ κ γ : Type) where
  key : σ → κ
  fresh : σ → Prop
  use : σ → γ → σ → Prop
  keep : σ → σ → Prop
  key_of_use : ∀ {s n s'}, use s n s' → key s' = key s
  key_of_keep : ∀ {s s'}, keep s s' → key s' = key s

namespace Discipline

variable {ι σ κ γ : Type}

/-- What can happen to a family of cells. -/
inductive Step [DecidableEq ι] (D : Discipline σ κ γ) :
    (ι → Option σ) → List (Entry κ γ) → (ι → Option σ) → Prop
  | drop {cells next : ι → Option σ} (hcells : ∀ i, next i = cells i ∨ next i = none) :
      Step D cells [] next
  | put {cells : ι → Option σ} (i : ι) {s : σ} (hfresh : D.fresh s) :
      Step D cells [.opened (D.key s)] (Function.update cells i (some s))
  | use {cells : ι → Option σ} {i : ι} {s s' : σ} {n : γ} (hcell : cells i = some s)
      (huse : D.use s n s') : Step D cells [.used (D.key s) n] (Function.update cells i (some s'))
  | keep {cells : ι → Option σ} {i : ι} {s s' : σ} (hcell : cells i = some s)
      (hkeep : D.keep s s') : Step D cells [] (Function.update cells i (some s'))

/-- A relation between a cell and the numbers it consumed that every step of the cell
keeps. -/
structure Guarantees (D : Discipline σ κ γ) (Good : σ → List γ → Prop) : Prop where
  fresh : ∀ {s}, D.fresh s → Good s []
  use : ∀ {s n s' ns}, Good s ns → D.use s n s' → Good s' (ns ++ [n])
  keep : ∀ {s s' ns}, Good s ns → D.keep s s' → Good s' ns

variable [DecidableEq κ] {D : Discipline σ κ γ} {Good : σ → List γ → Prop}
  {entries : List (Entry κ γ)} {cells : ι → Option σ}

/-- The ledger and the cells agree: no two cells share a key, every cell accounts for
the numbers under its key, and so did some cell for every key that was given out. -/
structure Balanced (D : Discipline σ κ γ) (Good : σ → List γ → Prop)
    (entries : List (Entry κ γ)) (cells : ι → Option σ) : Prop where
  key_mem : ∀ {i s}, cells i = some s → D.key s ∈ Entry.keys entries
  unique : ∀ {i j s s'}, cells i = some s → cells j = some s' → D.key s = D.key s' → i = j
  good : ∀ {i s}, cells i = some s → Good s (Entry.numbers (D.key s) entries)
  past : ∀ key ∈ Entry.keys entries, ∃ s, Good s (Entry.numbers key entries)
  unopened : ∀ key, key ∉ Entry.keys entries → Entry.numbers key entries = []

theorem Balanced.empty : Balanced D Good [] (fun _ : ι => none) where
  key_mem h := by cases h
  unique h := by cases h
  good h := by cases h
  past key hkey := by cases hkey
  unopened key _ := rfl

theorem Balanced.drop (hbalanced : Balanced D Good entries cells) {next : ι → Option σ}
    (hcells : ∀ i, next i = cells i ∨ next i = none) : Balanced D Good entries next := by
  have hold : ∀ {i s}, next i = some s → cells i = some s := by
    intro i s hs
    rcases hcells i with hkept | hgone
    · rw [← hkept, hs]
    · rw [hgone] at hs
      cases hs
  exact {
    key_mem := fun hs => hbalanced.key_mem (hold hs)
    unique := fun hs hs' => hbalanced.unique (hold hs) (hold hs')
    good := fun hs => hbalanced.good (hold hs)
    past := hbalanced.past
    unopened := hbalanced.unopened }

variable [DecidableEq ι]

/-- A cell replaced by one with the same key, after it consumed the numbers of `more`. -/
theorem Balanced.replace (hbalanced : Balanced D Good entries cells) {i : ι} {s s' : σ}
    (hcell : cells i = some s) (hkey : D.key s' = D.key s) {more : List (Entry κ γ)}
    (hopened : Entry.keys more = [])
    (hother : ∀ key ≠ D.key s, Entry.numbers key more = [])
    (hgood : Good s' (Entry.numbers (D.key s) (entries ++ more))) :
    Balanced D Good (entries ++ more) (Function.update cells i (some s')) := by
  have hkeys : Entry.keys (entries ++ more) = Entry.keys entries := by simp [hopened]
  have hold : ∀ {j t}, Function.update cells i (some s') j = some t →
      ∃ t₀, cells j = some t₀ ∧ D.key t = D.key t₀ ∧ (j ≠ i → t = t₀) := by
    intro j t ht
    by_cases hj : j = i
    · subst hj
      rw [Function.update_self] at ht
      cases ht
      exact ⟨s, hcell, hkey, fun hne => absurd rfl hne⟩
    · rw [Function.update_of_ne hj] at ht
      exact ⟨t, ht, rfl, fun _ => rfl⟩
  refine ⟨fun ht => ?_, fun ht ht' hsame => ?_, fun {j t} ht => ?_, fun key hmem => ?_,
    fun key hnot => ?_⟩
  · obtain ⟨t₀, ht₀, hsame, -⟩ := hold ht
    rw [hkeys, hsame]
    exact hbalanced.key_mem ht₀
  · obtain ⟨t₀, ht₀, hkey₀, -⟩ := hold ht
    obtain ⟨t₁, ht₁, hkey₁, -⟩ := hold ht'
    exact hbalanced.unique ht₀ ht₁ (hkey₀.symm.trans (hsame.trans hkey₁))
  · by_cases hj : j = i
    · subst hj
      rw [Function.update_self] at ht
      cases ht
      rwa [hkey]
    · rw [Function.update_of_ne hj] at ht
      have hne : D.key t ≠ D.key s := fun hsame => hj (hbalanced.unique ht hcell hsame)
      rw [Entry.numbers_append, hother _ hne, List.append_nil]
      exact hbalanced.good ht
  · rw [hkeys] at hmem
    by_cases hsame : key = D.key s
    · subst hsame
      exact ⟨s', hgood⟩
    · rw [Entry.numbers_append, hother _ hsame, List.append_nil]
      exact hbalanced.past key hmem
  · rw [hkeys] at hnot
    have hne : key ≠ D.key s := fun hsame => hnot (hsame ▸ hbalanced.key_mem hcell)
    rw [Entry.numbers_append, hother _ hne, hbalanced.unopened key hnot, List.append_nil]

/-- A new cell with a key that was not given out before. -/
theorem Balanced.put (hbalanced : Balanced D Good entries cells)
    (hguarantees : D.Guarantees Good) (i : ι) {s : σ} (hfresh : D.fresh s)
    (hnew : D.key s ∉ Entry.keys entries) :
    Balanced D Good (entries ++ [.opened (D.key s)]) (Function.update cells i (some s)) := by
  have hnumbers : Entry.numbers (D.key s) entries = [] := hbalanced.unopened _ hnew
  have hold : ∀ {j t}, Function.update cells i (some s) j = some t →
      (j = i ∧ t = s) ∨ (j ≠ i ∧ cells j = some t) := by
    intro j t ht
    by_cases hj : j = i
    · subst hj
      rw [Function.update_self] at ht
      cases ht
      exact .inl ⟨rfl, rfl⟩
    · rw [Function.update_of_ne hj] at ht
      exact .inr ⟨hj, ht⟩
  have hne : ∀ {j t}, cells j = some t → D.key t ≠ D.key s :=
    fun ht hsame => hnew (hsame ▸ hbalanced.key_mem ht)
  refine ⟨fun ht => ?_, fun ht ht' hsame => ?_, fun ht => ?_, fun key hmem => ?_,
    fun key hnot => ?_⟩
  · rcases hold ht with ⟨-, rfl⟩ | ⟨-, hcell⟩
    · simp
    · simp [hbalanced.key_mem hcell]
  · rcases hold ht with ⟨rfl, rfl⟩ | ⟨-, hcell⟩
    · rcases hold ht' with ⟨rfl, -⟩ | ⟨-, hcell'⟩
      · rfl
      · exact absurd hsame.symm (hne hcell')
    · rcases hold ht' with ⟨-, rfl⟩ | ⟨-, hcell'⟩
      · exact absurd hsame (hne hcell)
      · exact hbalanced.unique hcell hcell' hsame
  · rcases hold ht with ⟨-, rfl⟩ | ⟨-, hcell⟩
    · simpa [hnumbers] using hguarantees.fresh hfresh
    · simpa using hbalanced.good hcell
  · simp only [Entry.keys_append, Entry.keys_opened, List.mem_append, List.mem_singleton] at hmem
    rcases hmem with hmem | rfl
    · simpa using hbalanced.past key hmem
    · exact ⟨s, by simpa [hnumbers] using hguarantees.fresh hfresh⟩
  · simp only [Entry.keys_append, List.mem_append, not_or] at hnot
    simpa using hbalanced.unopened key hnot.1

theorem Balanced.step (hbalanced : Balanced D Good entries cells)
    (hguarantees : D.Guarantees Good) {more : List (Entry κ γ)} {next : ι → Option σ}
    (hstep : D.Step cells more next) (hkeys : (Entry.keys (entries ++ more)).Nodup) :
    Balanced D Good (entries ++ more) next := by
  cases hstep with
  | drop hcells => simpa using hbalanced.drop hcells
  | put i hfresh =>
      refine hbalanced.put hguarantees i hfresh fun hmem => ?_
      rw [Entry.keys_append, List.nodup_append'] at hkeys
      exact hkeys.2.2 hmem (by simp)
  | use hcell huse =>
      refine hbalanced.replace hcell (D.key_of_use huse) rfl
        (fun key hne => Entry.numbers_used_of_ne hne.symm) ?_
      simpa using hguarantees.use (hbalanced.good hcell) huse
  | keep hcell hkeep =>
      refine hbalanced.replace hcell (D.key_of_keep hkeep) rfl (fun key _ => rfl) ?_
      simpa using hguarantees.keep (hbalanced.good hcell) hkeep

/-- After every run of cells without a repeated key, the ledger balances. -/
theorem balanced_of_trail (hguarantees : D.Guarantees Good)
    (htrail : Trail D.Step (fun _ : ι => none) entries cells)
    (hkeys : (Entry.keys entries).Nodup) : Balanced D Good entries cells := by
  refine htrail.invariant (fun entries cells => (Entry.keys entries).Nodup →
    Balanced D Good entries cells) (fun _ => .empty) ?_ hkeys
  intro entries cells more next ih hstep hkeys
  have hbefore : (Entry.keys entries).Nodup := by
    rw [Entry.keys_append] at hkeys
    exact hkeys.of_append_left
  exact (ih hbefore).step hguarantees hstep hkeys

/-- When cells never repeat a number of their own, no pair of key and number is ever
used twice. -/
theorem nodup_uses_of_trail (hguarantees : D.Guarantees Good)
    (htrail : Trail D.Step (fun _ : ι => none) entries cells)
    (hkeys : (Entry.keys entries).Nodup)
    (hgood : ∀ s key, Good s (Entry.numbers key entries) → (Entry.numbers key entries).Nodup) :
    (Entry.uses entries).Nodup := by
  have hbalanced := balanced_of_trail hguarantees htrail hkeys
  refine Entry.nodup_uses fun key => ?_
  by_cases hmem : key ∈ Entry.keys entries
  · obtain ⟨s, hs⟩ := hbalanced.past key hmem
    exact hgood s key hs
  · rw [hbalanced.unopened key hmem]
    exact List.nodup_nil

end Discipline

end Foundation
