import Mathlib.Algebra.GroupWithZero.Nat

/-! # Reloading countdowns

A system with a countdown that its events advance by arbitrary amounts. An event
that brings the countdown to its end makes the system act, and reloads the
countdown with its interval. The system then acts exactly at the events at which
the time since its last act first reaches the interval.
-/

namespace Foundation

/-- A countdown of `interval` in a system with the given step. It runs in the
`Active` states and on the `Waits` events. -/
structure Countdown {σ ε : Type} (step : σ → ε → σ) (elapsed : ε → Nat) (interval : Nat) where
  Active : σ → Prop
  Waits : ε → Prop
  remaining : σ → Nat
  Fires : σ → ε → Prop
  remaining_pos : ∀ s, Active s → 0 < remaining s
  step_active : ∀ s e, Active s → Waits e → Active (step s e)
  fires_iff : ∀ s e, Active s → Waits e → (Fires s e ↔ remaining s ≤ elapsed e)
  remaining_fire : ∀ s e, Active s → Waits e → Fires s e → remaining (step s e) = interval
  remaining_wait : ∀ s e, Active s → Waits e → ¬Fires s e →
    remaining (step s e) = remaining s - elapsed e

namespace Countdown

variable {σ ε : Type} {step : σ → ε → σ} {elapsed : ε → Nat} {interval : Nat}
  (T : Countdown step elapsed interval)

/-- No event of the sequence makes the system act. -/
def Quiet (s : σ) (events : List ε) : Prop :=
  ∀ before e after, events = before ++ e :: after → ¬T.Fires (before.foldl step s) e

theorem active_foldl {s : σ} {events : List ε} (hactive : T.Active s)
    (hwaits : ∀ e ∈ events, T.Waits e) : T.Active (events.foldl step s) := by
  induction events generalizing s with
  | nil => exact hactive
  | cons e events ih =>
      obtain ⟨hwait, hrest⟩ := List.forall_mem_cons.mp hwaits
      exact ih (T.step_active s e hactive hwait) hrest

theorem quiet_cons_iff (s : σ) (e : ε) (events : List ε) :
    T.Quiet s (e :: events) ↔ ¬T.Fires s e ∧ T.Quiet (step s e) events := by
  constructor
  · intro hquiet
    refine ⟨hquiet [] e events rfl, ?_⟩
    intro before later after hsplit
    exact hquiet (e :: before) later after (by rw [hsplit, List.cons_append])
  · rintro ⟨hfirst, hrest⟩ before later after hsplit
    cases before with
    | nil =>
        obtain ⟨rfl, -⟩ := List.cons.inj hsplit
        exact hfirst
    | cons first before =>
        obtain ⟨rfl, hafter⟩ := List.cons.inj hsplit
        exact hrest before later after hafter

/-- A sequence is quiet exactly when it is shorter than what remains. -/
theorem quiet_iff {s : σ} {events : List ε} (hactive : T.Active s)
    (hwaits : ∀ e ∈ events, T.Waits e) :
    T.Quiet s events ↔ (events.map elapsed).sum < T.remaining s := by
  induction events generalizing s with
  | nil =>
      have hpos := T.remaining_pos s hactive
      simp [Quiet, hpos]
  | cons e events ih =>
      obtain ⟨hwait, hrest⟩ := List.forall_mem_cons.mp hwaits
      have hnext := ih (T.step_active s e hactive hwait) hrest
      have hfires := T.fires_iff s e hactive hwait
      rw [quiet_cons_iff, hnext, List.map_cons, List.sum_cons]
      by_cases hfire : T.Fires s e
      · have hdue := hfires.mp hfire
        simp only [hfire, not_true, false_and, false_iff]
        omega
      · rw [T.remaining_wait s e hactive hwait hfire]
        rw [hfires] at hfire
        simp only [hfires, hfire, not_false_iff, true_and]
        omega

/-- During a quiet sequence the countdown runs down by the time that passes. -/
theorem remaining_foldl {s : σ} {events : List ε} (hactive : T.Active s)
    (hwaits : ∀ e ∈ events, T.Waits e) (hquiet : T.Quiet s events) :
    T.remaining (events.foldl step s) = T.remaining s - (events.map elapsed).sum := by
  induction events generalizing s with
  | nil => rfl
  | cons e events ih =>
      obtain ⟨hwait, hrest⟩ := List.forall_mem_cons.mp hwaits
      obtain ⟨hsilent, hlater⟩ := (T.quiet_cons_iff s e events).mp hquiet
      rw [List.foldl_cons, ih (T.step_active s e hactive hwait) hrest hlater,
        T.remaining_wait s e hactive hwait hsilent, List.map_cons, List.sum_cons]
      omega

/-- After a quiet sequence an event acts exactly when it brings the time since
the start to what remained there. -/
theorem fires_foldl_iff {s : σ} {quiet : List ε} {e : ε} (hactive : T.Active s)
    (hwaits : ∀ e ∈ quiet, T.Waits e) (hquiet : T.Quiet s quiet) (hwait : T.Waits e) :
    T.Fires (quiet.foldl step s) e ↔
      T.remaining s ≤ ((quiet ++ [e]).map elapsed).sum := by
  have hshort := (T.quiet_iff hactive hwaits).mp hquiet
  rw [T.fires_iff _ e (T.active_foldl hactive hwaits) hwait,
    T.remaining_foldl hactive hwaits hquiet, List.map_append, List.sum_append]
  simp only [List.map_cons, List.map_nil, List.sum_cons, List.sum_nil]
  omega

end Countdown

end Foundation
