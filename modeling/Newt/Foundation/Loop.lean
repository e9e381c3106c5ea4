import Mathlib.Data.List.Forall2

/-! # Loops that can fail

Rules for a loop over a list whose body may fail. The invariant may speak of the
items that are still to come.
-/

namespace Foundation

variable {α β ε : Type}

theorem bind_eq_ok_iff {x : Except ε α} {f : α → Except ε β} {b : β} :
    x >>= f = .ok b ↔ ∃ a, x = .ok a ∧ f a = .ok b := by
  cases x with
  | error e => simp [bind, Except.bind]
  | ok a => simp [bind, Except.bind]

theorem bind_unit_eq_ok_iff {x : Except ε Unit} {f : Unit → Except ε β} {b : β} :
    x >>= f = .ok b ↔ x = .ok () ∧ f () = .ok b := by
  rw [bind_eq_ok_iff]
  exact ⟨fun ⟨_, hx, hf⟩ => ⟨hx, hf⟩, fun ⟨hx, hf⟩ => ⟨(), hx, hf⟩⟩

/-- A check that throws on failure. -/
theorem ite_throw_eq_ok_iff {p : Prop} [Decidable p] {e : ε} {x : Except ε α} {a : α} :
    (if p then throw e else x) = .ok a ↔ ¬ p ∧ x = .ok a := by
  split <;> simp_all [throw, throwThe, MonadExceptOf.throw]

theorem pure_eq_ok_iff {a b : α} : (pure a : Except ε α) = .ok b ↔ a = b := by
  simp [pure, Except.pure]

theorem map_eq_ok_iff {x : Except ε α} {f : α → β} {b : β} :
    x.map f = .ok b ↔ ∃ a, x = .ok a ∧ f a = b := by
  cases x <;> simp [Except.map]

theorem mapError_eq_ok_iff {η : Type} {x : Except ε α} {f : ε → η} {a : α} :
    x.mapError f = .ok a ↔ x = .ok a := by
  cases x <;> simp [Except.mapError]

theorem mapM_eq_ok_iff {f : α → Except ε β} {l : List α} {out : List β} :
    l.mapM f = .ok out ↔ List.Forall₂ (fun a b => f a = .ok b) l out := by
  induction l generalizing out with
  | nil =>
      rw [List.mapM_nil, pure_eq_ok_iff, List.forall₂_nil_left_iff]
      exact eq_comm
  | cons a l ih =>
      rw [List.mapM_cons, bind_eq_ok_iff]
      simp only [bind_eq_ok_iff, pure_eq_ok_iff, ih, List.forall₂_cons_left_iff]
      constructor
      · rintro ⟨b, ha, rest, hl, rfl⟩
        exact ⟨b, rest, ha, hl, rfl⟩
      · rintro ⟨b, rest, ha, hl, rfl⟩
        exact ⟨b, ha, rest, hl, rfl⟩

theorem exists_mapM_eq_ok_iff {f : α → Except ε β} {l : List α} :
    (∃ out, l.mapM f = .ok out) ↔ ∀ a ∈ l, ∃ b, f a = .ok b := by
  simp only [mapM_eq_ok_iff]
  induction l with
  | nil => simp
  | cons a l ih =>
      simp only [List.forall₂_cons_left_iff, List.forall_mem_cons, ← ih]
      constructor
      · rintro ⟨_, b, rest, ha, hl, -⟩
        exact ⟨⟨b, ha⟩, rest, hl⟩
      · rintro ⟨⟨b, ha⟩, rest, hl⟩
        exact ⟨_, b, rest, ha, hl, rfl⟩

/-- Both computations fail in the same way, or both succeed with related results. -/
inductive Alike (r : α → β → Prop) : Except ε α → Except ε β → Prop
  | error (e : ε) : Alike r (.error e) (.error e)
  | ok {a : α} {b : β} (h : r a b) : Alike r (.ok a) (.ok b)

/-- Loops over the same list are alike if their bodies are. -/
theorem foldlM_alike {μ : Type} {r : β → β → Prop} {body body' : β → μ → Except ε β} {l : List μ}
    (hbody : ∀ a ∈ l, ∀ s t, r s t → Alike r (body s a) (body' t a)) {s t : β} (hst : r s t) :
    Alike r (l.foldlM body s) (l.foldlM body' t) := by
  induction l generalizing s t with
  | nil => exact .ok hst
  | cons a l ih =>
      rw [List.foldlM_cons, List.foldlM_cons]
      have hrest : ∀ b ∈ l, ∀ s t, r s t → Alike r (body s b) (body' t b) := fun b hb =>
        hbody b (List.mem_cons_of_mem _ hb)
      have hhead := hbody a List.mem_cons_self s t hst
      revert hhead
      generalize body s a = x, body' t a = y
      rintro (e | hnext)
      · exact .error e
      · exact ih hrest hnext

variable (inv : List α → β → Prop) {body : β → α → Except ε β}

/-- A loop succeeds if its body succeeds and keeps an invariant. -/
theorem foldlM_total
    (hbody : ∀ a rest b, inv (a :: rest) b → ∃ b', body b a = .ok b' ∧ inv rest b')
    {l : List α} {b : β} (hb : inv l b) : ∃ b', l.foldlM body b = .ok b' ∧ inv [] b' := by
  induction l generalizing b with
  | nil => exact ⟨b, rfl, hb⟩
  | cons a rest ih =>
      obtain ⟨middle, hmiddle, hinv⟩ := hbody a rest b hb
      obtain ⟨last, hlast, hinv⟩ := ih hinv
      refine ⟨last, ?_, hinv⟩
      rw [List.foldlM_cons]
      exact bind_eq_ok_iff.mpr ⟨middle, hmiddle, hlast⟩

/-- What the body keeps whenever it succeeds holds after a loop that succeeds. -/
theorem foldlM_keeps
    (hbody : ∀ a rest b b', inv (a :: rest) b → body b a = .ok b' → inv rest b')
    {l : List α} {b b' : β} (hb : inv l b) (hloop : l.foldlM body b = .ok b') : inv [] b' := by
  induction l generalizing b with
  | nil =>
      cases hloop
      exact hb
  | cons a rest ih =>
      rw [List.foldlM_cons] at hloop
      obtain ⟨middle, hmiddle, hrest⟩ := bind_eq_ok_iff.mp hloop
      exact ih (hbody a rest b middle hb hmiddle) hrest

/-- A loop that can fail follows a loop that cannot, if each of its steps does. -/
theorem foldlM_simulates {μ : Type} (related : β → μ → Prop) {effect : μ → α → μ}
    (hbody : ∀ a b m b', related b m → body b a = .ok b' → related b' (effect m a))
    {l : List α} {b b' : β} {m : μ} (hb : related b m) (hloop : l.foldlM body b = .ok b') :
    related b' (l.foldl effect m) := by
  have hkeeps : ∃ now, related b' now ∧ [].foldl effect now = l.foldl effect m := by
    refine foldlM_keeps
      (fun rest b => ∃ now, related b now ∧ rest.foldl effect now = l.foldl effect m)
      ?_ ⟨m, hb, rfl⟩ hloop
    intro a rest b b' hinv hstep
    rcases hinv with ⟨now, hnow, hend⟩
    exact ⟨effect now a, hbody a b now b' hnow hstep, hend⟩
  obtain ⟨last, hlast, hend⟩ := hkeeps
  rw [← hend]
  exact hlast

end Foundation
