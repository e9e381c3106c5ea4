import Mathlib.Init

/-! # Computations that leave a trace

A traced computation records notes and may fail. The notes before a failure stay
recorded, so a computation has the notes it records when it succeeds, or a part of
them. A monitor reads the notes in order and may refuse one. The rules follow a
monitor through a computation. Over a loop, the relation between the monitor and
the computation may speak of the items done so far.
-/

namespace Foundation

structure Traced (ν ε α : Type) where
  notes : List ν
  result : Except ε α

namespace Traced

variable {ν ε α β : Type}

instance : Monad (Traced ν ε) where
  pure a := ⟨[], .ok a⟩
  bind x f :=
    match x.result with
    | .error e => ⟨x.notes, .error e⟩
    | .ok a => ⟨x.notes ++ (f a).notes, (f a).result⟩

/-- Record a note. -/
def tell (n : ν) : Traced ν ε Unit := ⟨[n], .ok ()⟩

/-- A computation without notes. -/
def lift (x : Except ε α) : Traced ν ε α := ⟨[], x⟩

@[simp] theorem pure_eq (a : α) : (pure a : Traced ν ε α) = ⟨[], .ok a⟩ := rfl

@[simp] theorem bind_ok (notes : List ν) (a : α) (f : α → Traced ν ε β) :
    (⟨notes, .ok a⟩ : Traced ν ε α) >>= f = ⟨notes ++ (f a).notes, (f a).result⟩ := rfl

@[simp] theorem bind_error (notes : List ν) (e : ε) (f : α → Traced ν ε β) :
    (⟨notes, .error e⟩ : Traced ν ε α) >>= f = ⟨notes, .error e⟩ := rfl

instance : LawfulMonad (Traced ν ε) := LawfulMonad.mk' _
  (fun x => by
    obtain ⟨notes, result⟩ := x
    cases result <;> simp [Functor.map])
  (fun a f => by simp)
  (fun x f g => by
    obtain ⟨notes, result⟩ := x
    cases result with
    | error e => rfl
    | ok a =>
        rw [bind_ok, bind_ok]
        rcases f a with ⟨more, next⟩
        cases next with
        | error e => rfl
        | ok b => simp)

theorem bind_of_ok {x : Traced ν ε α} {a : α} (f : α → Traced ν ε β) (hx : x.result = .ok a) :
    x >>= f = ⟨x.notes ++ (f a).notes, (f a).result⟩ := by
  obtain ⟨notes, result⟩ := x
  subst hx
  rfl

theorem bind_of_error {x : Traced ν ε α} {e : ε} (f : α → Traced ν ε β)
    (hx : x.result = .error e) : x >>= f = ⟨x.notes, .error e⟩ := by
  obtain ⟨notes, result⟩ := x
  subst hx
  rfl

/-- The computation records `notes` and has a result with `P`, or fails on the
way. -/
def Records (x : Traced ν ε α) (notes : List ν) (P : α → Prop) : Prop :=
  x.notes <+: notes ∧ ∀ a, x.result = .ok a → x.notes = notes ∧ P a

theorem records_pure {a : α} {P : α → Prop} (h : P a) :
    Records (pure a : Traced ν ε α) [] P := by
  refine ⟨List.prefix_rfl, ?_⟩
  intro b hb
  cases hb
  exact ⟨rfl, h⟩

theorem records_error {e : ε} {notes : List ν} {P : α → Prop} :
    Records (lift (.error e) : Traced ν ε α) notes P := by
  refine ⟨List.nil_prefix, ?_⟩
  intro b hb
  cases hb

theorem records_lift {x : Except ε α} : (lift x : Traced ν ε α).Records [] fun _ => True :=
  ⟨List.prefix_rfl, fun _ _ => ⟨rfl, trivial⟩⟩

theorem records_tell_bind {n : ν} {notes : List ν} {f : Unit → Traced ν ε β} {P : β → Prop}
    (h : (f ()).Records notes P) : (tell n >>= f).Records (n :: notes) P :=
  ⟨List.prefix_cons_inj n |>.mpr h.1, fun b hb => ⟨congrArg (n :: ·) (h.2 b hb).1, (h.2 b hb).2⟩⟩

theorem records_lift_bind {x : Except ε α} {notes : List ν} {f : α → Traced ν ε β}
    {P : β → Prop} (h : ∀ a, x = .ok a → (f a).Records notes P) :
    (lift x >>= f).Records notes P := by
  cases x with
  | error e => exact records_error
  | ok a => exact h a rfl

theorem Records.bind {x : Traced ν ε α} {front rest : List ν} {f : α → Traced ν ε β}
    {Q : α → Prop} {P : β → Prop} (hx : x.Records front Q)
    (hf : ∀ a, Q a → (f a).Records rest P) : (x >>= f).Records (front ++ rest) P := by
  obtain ⟨hpart, hresult⟩ := hx
  rcases hcase : x.result with e | a
  · rw [bind_of_error f hcase]
    refine ⟨hpart.trans (List.prefix_append front rest), ?_⟩
    intro b hb
    cases hb
  · rw [bind_of_ok f hcase]
    obtain ⟨hnotes, ha⟩ := hresult a hcase
    obtain ⟨hmore, hlast⟩ := hf a ha
    rw [hnotes]
    refine ⟨(List.prefix_append_right_inj front).mpr hmore, ?_⟩
    intro b hb
    exact ⟨by rw [(hlast b hb).1], (hlast b hb).2⟩

/-- A loop whose turns record one note each. -/
theorem records_foldlM {ι : Type} {step : α → ι → Traced ν ε α} {note : ι → ν}
    (hstep : ∀ a i, (step a i).Records [note i] fun _ => True) (items : List ι) (a : α) :
    (items.foldlM step a).Records (items.map note) fun _ => True := by
  induction items generalizing a with
  | nil => exact records_pure trivial
  | cons i rest ih =>
      rw [List.foldlM_cons, List.map_cons, ← List.singleton_append]
      exact (hstep a i).bind fun b _ => ih b

/-- What every turn carries from the items done and the notes so far to one more
item holds after a loop that succeeds. -/
theorem foldlM_keeps {ι : Type} (R : List ι → List ν → α → Prop) {step : α → ι → Traced ν ε α}
    (hstep : ∀ done notes i a b, R done notes a → (step a i).result = .ok b →
      R (done ++ [i]) (notes ++ (step a i).notes) b)
    (done items : List ι) {notes : List ν} {a b : α} (h : R done notes a)
    (hloop : (items.foldlM step a).result = .ok b) :
    R (done ++ items) (notes ++ (items.foldlM step a).notes) b := by
  induction items generalizing done notes a with
  | nil =>
      cases hloop
      simpa using h
  | cons i items ih =>
      rw [List.foldlM_cons] at hloop ⊢
      rcases hcase : (step a i).result with e | middle
      · rw [bind_of_error _ hcase] at hloop
        cases hloop
      · rw [bind_of_ok _ hcase] at hloop ⊢
        have hrest := ih (done ++ [i]) (hstep done notes i a middle h hcase) hloop
        rwa [List.append_assoc, List.append_assoc] at hrest

/-- Record several notes. -/
def tellAll (notes : List ν) : Traced ν ε Unit := ⟨notes, .ok ()⟩

/-- A computation that succeeds ends with notes and a result of which `Q` holds. -/
def Ends (x : Traced ν ε α) (Q : List ν → α → Prop) : Prop := ∀ a, x.result = .ok a → Q x.notes a

section Ends

variable {x : Traced ν ε α} {f : α → Traced ν ε β} {Q : List ν → α → Prop}
  {R : List ν → β → Prop}

theorem ends_pure {a : α} (h : Q [] a) : (pure a : Traced ν ε α).Ends Q := by
  intro b hb
  cases hb
  exact h

theorem ends_lift {y : Except ε α} (h : ∀ a, y = .ok a → Q [] a) :
    (lift y : Traced ν ε α).Ends Q := h

theorem ends_of_ok {a : α} (hx : x.result = .ok a) (h : Q x.notes a) : x.Ends Q := by
  intro b hb
  cases hx.symm.trans hb
  exact h

theorem Ends.bind (hx : x.Ends Q)
    (hf : ∀ notes a, Q notes a → (f a).Ends fun more => R (notes ++ more)) : (x >>= f).Ends R := by
  intro b hb
  rcases hcase : x.result with e | a
  · rw [bind_of_error f hcase] at hb
    cases hb
  · rw [bind_of_ok f hcase] at hb ⊢
    exact hf x.notes a (hx a hcase) b hb

theorem ends_lift_bind {y : Except ε α} (h : ∀ a, y = .ok a → (f a).Ends R) :
    (lift y >>= f).Ends R := by
  refine (ends_lift (Q := fun notes a => notes = [] ∧ y = .ok a) fun a ha => ⟨rfl, ha⟩).bind ?_
  intro notes a hy
  obtain ⟨rfl, ha⟩ := hy
  exact h a ha

theorem ends_tellAll_bind {notes : List ν} {f : Unit → Traced ν ε β}
    (h : (f ()).Ends fun more => R (notes ++ more)) : (tellAll notes >>= f).Ends R := h

theorem ends_tell_bind {n : ν} {f : Unit → Traced ν ε β}
    (h : (f ()).Ends fun more => R (n :: more)) : (tell n >>= f).Ends R := h

end Ends

/-- A computation that fails does so with an error of which `E` holds. -/
def Fails (x : Traced ν ε α) (E : ε → Prop) : Prop := ∀ e, x.result = .error e → E e

section Fails

variable {x : Traced ν ε α} {f : α → Traced ν ε β} {Q : List ν → α → Prop} {E : ε → Prop}

theorem Fails.bind (hx : x.Fails E) (hends : x.Ends Q)
    (hf : ∀ notes a, Q notes a → (f a).Fails E) : (x >>= f).Fails E := by
  intro e he
  rcases hcase : x.result with e' | a
  · rw [bind_of_error f hcase] at he
    cases he
    exact hx e hcase
  · rw [bind_of_ok f hcase] at he
    exact hf x.notes a (hends a hcase) e he

theorem fails_bind (hx : x.Fails E) (hf : ∀ a, (f a).Fails E) : (x >>= f).Fails E :=
  hx.bind (Q := fun _ _ => True) (fun _ _ => trivial) fun _ a _ => hf a

theorem fails_of_ok {a : α} (hx : x.result = .ok a) : x.Fails E := by
  intro e he
  cases hx.symm.trans he

theorem fails_tell_bind {n : ν} {f : Unit → Traced ν ε β} (h : (f ()).Fails E) :
    (tell n >>= f).Fails E := h

theorem fails_lift_bind {y : Except ε α} (hy : ∀ e, y = .error e → E e)
    (hf : ∀ a, y = .ok a → (f a).Fails E) : (lift y >>= f).Fails E := by
  cases y with
  | error e =>
      intro other hother
      cases hother
      exact hy e rfl
  | ok a => exact hf a rfl

end Fails

/-- Every note of a computation has `p`, whether it succeeds or not. -/
def Only (x : Traced ν ε α) (p : ν → Prop) : Prop := ∀ n ∈ x.notes, p n

section Only

variable {x : Traced ν ε α} {f : α → Traced ν ε β} {p : ν → Prop}

theorem only_pure {a : α} : (pure a : Traced ν ε α).Only p := fun _ hmem => by cases hmem

theorem only_lift {y : Except ε α} : (lift y : Traced ν ε α).Only p := fun _ hmem => by cases hmem

theorem Only.bind (hx : x.Only p) (hf : ∀ a, (f a).Only p) : (x >>= f).Only p := by
  rcases hcase : x.result with e | a
  · rw [bind_of_error f hcase]
    exact hx
  · rw [bind_of_ok f hcase]
    exact List.forall_mem_append.mpr ⟨hx, hf a⟩

theorem only_tell_bind {n : ν} {f : Unit → Traced ν ε β} (hn : p n) (hf : (f ()).Only p) :
    (tell n >>= f).Only p := List.forall_mem_cons.mpr ⟨hn, hf⟩

end Only

end Traced

/-- A monitor moves with every note, and allows or refuses it before it moves. -/
structure Monitor (ν τ : Type) where
  next : τ → ν → τ
  allows : τ → ν → Prop

namespace Monitor

variable {ν τ ε α β ι : Type} (m : Monitor ν τ)

/-- The state of the monitor after the notes. -/
def after (t : τ) (notes : List ν) : τ := notes.foldl m.next t

/-- The monitor allows every note. -/
def Accepts : τ → List ν → Prop
  | _, [] => True
  | t, n :: rest => m.allows t n ∧ Accepts (m.next t n) rest

@[simp] theorem after_nil (t : τ) : m.after t [] = t := rfl

@[simp] theorem after_cons (t : τ) (n : ν) (rest : List ν) :
    m.after t (n :: rest) = m.after (m.next t n) rest := rfl

@[simp] theorem after_append (t : τ) (front rest : List ν) :
    m.after t (front ++ rest) = m.after (m.after t front) rest := List.foldl_append

@[simp] theorem accepts_nil (t : τ) : m.Accepts t [] := trivial

@[simp] theorem accepts_cons (t : τ) (n : ν) (rest : List ν) :
    m.Accepts t (n :: rest) ↔ m.allows t n ∧ m.Accepts (m.next t n) rest := Iff.rfl

@[simp] theorem accepts_append (t : τ) (front rest : List ν) :
    m.Accepts t (front ++ rest) ↔ m.Accepts t front ∧ m.Accepts (m.after t front) rest := by
  induction front generalizing t with
  | nil => simp
  | cons n front ih => simp [ih, and_assoc]

theorem accepts_iff_allows (t : τ) (notes : List ν) :
    m.Accepts t notes ↔
      ∀ front n rest, notes = front ++ n :: rest → m.allows (m.after t front) n := by
  constructor
  · intro haccepts front n rest hsplit
    rw [hsplit, accepts_append, accepts_cons] at haccepts
    exact haccepts.2.1
  · intro hallows
    induction notes generalizing t with
    | nil => trivial
    | cons n notes ih =>
        refine ⟨hallows [] n notes rfl, ih (m.next t n) ?_⟩
        intro front later rest hsplit
        exact hallows (n :: front) later rest (by rw [hsplit, List.cons_append])

/-- The monitor without a state, which allows the notes with `p`. -/
def pointwise (p : ν → Prop) : Monitor ν Unit where
  next _ _ := ()
  allows _ := p

theorem pointwise_accepts_iff (p : ν → Prop) (t : Unit) (notes : List ν) :
    (pointwise p).Accepts t notes ↔ ∀ n ∈ notes, p n := by
  induction notes with
  | nil => simp
  | cons n rest ih =>
      rw [List.forall_mem_cons, ← ih]
      rfl

/-- The monitor allows the notes of a computation from the state `t`, and is in
the relation `R` with its result. -/
def Follows (t : τ) (x : Traced ν ε α) (R : τ → α → Prop) : Prop :=
  m.Accepts t x.notes ∧ ∀ a, x.result = .ok a → R (m.after t x.notes) a

variable {m}

theorem follows_pure {t : τ} {a : α} {R : τ → α → Prop} (h : R t a) :
    m.Follows t (pure a : Traced ν ε α) R := by
  refine ⟨trivial, ?_⟩
  intro b hb
  cases hb
  exact h

theorem Follows.bind {t : τ} {x : Traced ν ε α} {f : α → Traced ν ε β} {Q : τ → α → Prop}
    {R : τ → β → Prop} (hx : m.Follows t x Q) (hf : ∀ u a, Q u a → m.Follows u (f a) R) :
    m.Follows t (x >>= f) R := by
  obtain ⟨haccepts, hresult⟩ := hx
  rcases hcase : x.result with e | a
  · rw [Traced.bind_of_error f hcase]
    refine ⟨haccepts, ?_⟩
    intro b hb
    cases hb
  · rw [Traced.bind_of_ok f hcase]
    obtain ⟨hmore, hlast⟩ := hf _ a (hresult a hcase)
    refine ⟨(m.accepts_append t x.notes _).mpr ⟨haccepts, hmore⟩, ?_⟩
    intro b hb
    rw [after_append]
    exact hlast b hb

theorem follows_of_records {t : τ} {x : Traced ν ε α} {notes : List ν} {P : α → Prop}
    {R : τ → α → Prop} (hx : x.Records notes P) (haccepts : m.Accepts t notes)
    (h : ∀ a, P a → R (m.after t notes) a) : m.Follows t x R := by
  obtain ⟨⟨rest, hrest⟩, hresult⟩ := hx
  refine ⟨?_, ?_⟩
  · rw [← hrest, accepts_append] at haccepts
    exact haccepts.1
  · intro a ha
    obtain ⟨hnotes, hP⟩ := hresult a ha
    rw [hnotes]
    exact h a hP

/-- The rule for loops: every turn carries the relation from the items done to
one more. -/
theorem follows_foldlM (R : List ι → τ → α → Prop) {step : α → ι → Traced ν ε α}
    (hstep : ∀ done i t a, R done t a → m.Follows t (step a i) (R (done ++ [i])))
    (done items : List ι) {t : τ} {a : α} (h : R done t a) :
    m.Follows t (items.foldlM step a) (R (done ++ items)) := by
  induction items generalizing done t a with
  | nil =>
      rw [List.append_nil]
      exact follows_pure h
  | cons i items ih =>
      rw [List.foldlM_cons]
      refine (hstep done i t a h).bind ?_
      intro u b hb
      have hrest := ih (done ++ [i]) hb
      rwa [List.append_assoc] at hrest

variable (m)

/-- A monitor allows the notes of a loop exactly when it allows those of every
turn that the loop takes. -/
theorem accepts_foldlM_iff {step : α → ι → Traced ν ε α} (items : List ι) (t : τ) (a : α) :
    m.Accepts t (items.foldlM step a).notes ↔
      ∀ front i rest b, items = front ++ i :: rest → (front.foldlM step a).result = .ok b →
        m.Accepts (m.after t (front.foldlM step a).notes) (step b i).notes := by
  induction items generalizing t a with
  | nil => simp
  | cons i items ih =>
      have hfirst : ([].foldlM step a : Traced ν ε α).result = .ok a := rfl
      rw [List.foldlM_cons]
      rcases hcase : (step a i).result with e | b
      · rw [Traced.bind_of_error _ hcase]
        constructor
        · intro haccepts front j rest c hsplit hfront
          cases front with
          | nil =>
              obtain ⟨rfl, rfl⟩ := List.cons.inj hsplit
              cases hfront
              exact haccepts
          | cons j' front =>
              obtain ⟨rfl, rfl⟩ := List.cons.inj hsplit
              rw [List.foldlM_cons, Traced.bind_of_error _ hcase] at hfront
              cases hfront
        · intro hturns
          exact hturns [] i items a rfl hfirst
      · rw [Traced.bind_of_ok _ hcase, accepts_append, ih]
        constructor
        · rintro ⟨haccepts, hlater⟩ front j rest c hsplit hfront
          cases front with
          | nil =>
              obtain ⟨rfl, rfl⟩ := List.cons.inj hsplit
              cases hfront
              exact haccepts
          | cons j' front =>
              obtain ⟨rfl, rfl⟩ := List.cons.inj hsplit
              rw [List.foldlM_cons, Traced.bind_of_ok _ hcase] at hfront ⊢
              rw [after_append]
              exact hlater front j rest c rfl hfront
        · intro hturns
          refine ⟨hturns [] i items a rfl hfirst, ?_⟩
          intro front j rest c hsplit hfront
          have hturn := hturns (i :: front) j rest c (by rw [hsplit, List.cons_append])
          rw [List.foldlM_cons, Traced.bind_of_ok _ hcase, after_append] at hturn
          exact hturn hfront

end Monitor

end Foundation
