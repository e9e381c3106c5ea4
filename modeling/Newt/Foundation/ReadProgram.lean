import Mathlib.Data.List.Basic

/-! # Readers that ask for exact amounts of input

A read program asks for a number of input symbols, continues with the symbols
it received, and finally returns or fails. Execution is driven by the input,
one symbol at a time: a suspended reader keeps the symbols of its unfinished
read, and these symbols have already left the stream.
-/

namespace Foundation

/-- A sequential reader over symbols `β` that fails with `ε` or returns `α`. -/
inductive ReadProgram (β ε α : Type) where
  | done (value : α)
  | fail (error : ε)
  | readExact (count : Nat) (next : List β → ReadProgram β ε α)

namespace ReadProgram

variable {β ε α γ : Type}

def bind : ReadProgram β ε α → (α → ReadProgram β ε γ) → ReadProgram β ε γ
  | .done value, f => f value
  | .fail error, _ => .fail error
  | .readExact count next, f => .readExact count (fun input => (next input).bind f)

instance : Monad (ReadProgram β ε) where
  pure := .done
  bind := ReadProgram.bind

/-- Read exactly `count` symbols and return them. -/
def exactly (count : Nat) : ReadProgram β ε (List β) := .readExact count .done

/-- A reader in the middle of a read of `need` symbols. The symbols `got` are
held by the reader alone. -/
structure Suspended (β ε α : Type) where
  need : Nat
  next : List β → ReadProgram β ε α
  got : List β
  short : got.length < need

/-- Where a reader stands once it can make no progress without input. -/
inductive Status (β ε α : Type) where
  | returned (value : α)
  | failed (error : ε)
  | waiting (reading : Suspended β ε α)

/-- Run a program up to its first read of at least one symbol. Empty reads
complete at once. -/
def settle : ReadProgram β ε α → Status β ε α
  | .done value => .returned value
  | .fail error => .failed error
  | .readExact count next =>
      if hpos : 0 < count then .waiting ⟨count, next, [], hpos⟩ else (next []).settle

/-- Hand one symbol to a suspended reader. -/
def Suspended.push (reading : Suspended β ε α) (symbol : β) : Status β ε α :=
  if hshort : reading.got.length + 1 < reading.need then
    .waiting { reading with got := reading.got ++ [symbol], short := by simpa using hshort }
  else (reading.next (reading.got ++ [symbol])).settle

/-- Let a reader take symbols from a buffer until it finishes or the buffer is
empty. -/
def Status.consume : Status β ε α → List β → Status β ε α × List β
  | .waiting reading, symbol :: rest => (reading.push symbol).consume rest
  | .waiting reading, [] => (.waiting reading, [])
  | .returned value, buffer => (.returned value, buffer)
  | .failed error, buffer => (.failed error, buffer)

@[simp] theorem settle_done (value : α) :
    (.done value : ReadProgram β ε α).settle = .returned value := rfl

@[simp] theorem settle_fail (error : ε) :
    (.fail error : ReadProgram β ε α).settle = .failed error := rfl

theorem settle_readExact_pos {count : Nat} (hpos : 0 < count)
    (next : List β → ReadProgram β ε α) :
    (readExact count next).settle = .waiting ⟨count, next, [], hpos⟩ := by
  simp [settle, hpos]

@[simp] theorem settle_readExact_zero (next : List β → ReadProgram β ε α) :
    (readExact 0 next).settle = (next []).settle := by
  simp [settle]

@[simp] theorem consume_returned (value : α) (buffer : List β) :
    (Status.returned value : Status β ε α).consume buffer = (.returned value, buffer) := by
  cases buffer <;> rfl

@[simp] theorem consume_failed (error : ε) (buffer : List β) :
    (Status.failed error : Status β ε α).consume buffer = (.failed error, buffer) := by
  cases buffer <;> rfl

@[simp] theorem consume_waiting_cons (reading : Suspended β ε α) (symbol : β) (rest : List β) :
    (Status.waiting reading).consume (symbol :: rest) = (reading.push symbol).consume rest := rfl

/-- A suspended read finishes as soon as the buffer holds its missing symbols,
and leaves the symbols after them. -/
theorem consume_waiting_of_le (reading : Suspended β ε α) (buffer : List β)
    (henough : reading.need ≤ reading.got.length + buffer.length) :
    (Status.waiting reading).consume buffer =
      (reading.next (reading.got ++ buffer.take (reading.need - reading.got.length))).settle.consume
        (buffer.drop (reading.need - reading.got.length)) := by
  induction buffer generalizing reading with
  | nil =>
      have hshort := reading.short
      simp only [List.length_nil, Nat.add_zero] at henough
      omega
  | cons symbol rest ih =>
      rw [consume_waiting_cons, Suspended.push]
      have hshort := reading.short
      split
      next hmore =>
        rw [ih _ (by simp only [List.length_append, List.length_cons, List.length_nil] at *; omega)]
        have hleft : reading.need - reading.got.length =
            (reading.need - (reading.got ++ [symbol]).length) + 1 := by
          simp only [List.length_append, List.length_cons, List.length_nil]
          omega
        rw [hleft]
        simp
      next hlast =>
        have hone : reading.need - reading.got.length = 1 := by omega
        rw [hone]
        simp

/-- A program that reads `count` symbols continues with the next `count`
symbols of a long enough buffer. -/
theorem consume_readExact {count : Nat} (next : List β → ReadProgram β ε α) (buffer : List β)
    (henough : count ≤ buffer.length) :
    (readExact count next).settle.consume buffer =
      (next (buffer.take count)).settle.consume (buffer.drop count) := by
  rcases Nat.eq_zero_or_pos count with rfl | hpos
  · simp
  · rw [settle_readExact_pos hpos, consume_waiting_of_le _ _ (by simpa using henough)]
    simp

/-- A program that reads more than the buffer holds empties it and waits. -/
theorem consume_readExact_short {count : Nat} (next : List β → ReadProgram β ε α)
    (buffer : List β) (hshort : buffer.length < count) :
    ∃ reading, (readExact count next).settle.consume buffer = (.waiting reading, []) := by
  rw [settle_readExact_pos (Nat.zero_lt_of_lt hshort)]
  have hmissing : ∀ (reading : Suspended β ε α) (buffer : List β),
      reading.got.length + buffer.length < reading.need →
        ∃ last, (Status.waiting reading).consume buffer = (.waiting last, []) := by
    intro reading buffer hmissing
    induction buffer generalizing reading with
    | nil => exact ⟨reading, rfl⟩
    | cons symbol rest ih =>
        rw [List.length_cons] at hmissing
        rw [consume_waiting_cons, Suspended.push, dif_pos (by omega)]
        apply ih
        simp only [List.length_append, List.length_singleton]
        omega
  apply hmissing
  simpa using hshort

/-! ## Inputs of a program -/

/-- What becomes of a reader when its program is continued with `f`. -/
def Status.bind (f : α → ReadProgram β ε γ) : Status β ε α → Status β ε γ
  | .returned value => (f value).settle
  | .failed error => .failed error
  | .waiting reading =>
      .waiting ⟨reading.need, fun input => (reading.next input).bind f, reading.got, reading.short⟩

theorem settle_bind (program : ReadProgram β ε α) (f : α → ReadProgram β ε γ) :
    (program >>= f).settle = program.settle.bind f := by
  change (program.bind f).settle = _
  induction program with
  | done value => rfl
  | fail error => rfl
  | readExact count next ih =>
      rw [ReadProgram.bind]
      by_cases hpos : 0 < count
      · rw [settle_readExact_pos hpos, settle_readExact_pos hpos, Status.bind]
      · obtain rfl : count = 0 := Nat.eq_zero_of_not_pos hpos
        rw [settle_readExact_zero, settle_readExact_zero, ih]

/-- A continued reader consumes what the reader consumes, and goes on from there. -/
theorem consume_bind_status {status last : Status β ε α} {buffer rest : List β}
    (f : α → ReadProgram β ε γ) (hstatus : status.consume buffer = (last, rest)) :
    (status.bind f).consume buffer = (last.bind f).consume rest := by
  induction buffer generalizing status with
  | nil =>
      cases status <;>
        · cases hstatus
          rfl
  | cons symbol tail ih =>
      cases status with
      | returned value =>
          cases hstatus
          rfl
      | failed error =>
          cases hstatus
          rfl
      | waiting reading =>
          rw [consume_waiting_cons] at hstatus
          rw [← ih hstatus, Status.bind, consume_waiting_cons, Suspended.push, Suspended.push]
          congr 1
          by_cases hmore : reading.got.length + 1 < reading.need
          · rw [dif_pos hmore, dif_pos hmore, Status.bind]
          · rw [dif_neg hmore, dif_neg hmore]
            exact settle_bind _ f

theorem consume_bind {status : Status β ε α} {buffer rest : List β} {value : α}
    (f : α → ReadProgram β ε γ) (hstatus : status.consume buffer = (.returned value, rest)) :
    (status.bind f).consume buffer = (f value).settle.consume rest :=
  consume_bind_status f hstatus

/-- The program takes exactly `input` from any stream that starts with it, and
returns `value`. -/
def Accepts (program : ReadProgram β ε α) (input : List β) (value : α) : Prop :=
  ∀ rest, program.settle.consume (input ++ rest) = (.returned value, rest)

theorem accepts_pure (value : α) : (pure value : ReadProgram β ε α).Accepts [] value :=
  fun rest => consume_returned value rest

theorem accepts_exactly {count : Nat} {input : List β} (hlength : input.length = count) :
    (exactly count : ReadProgram β ε (List β)).Accepts input input := by
  intro rest
  unfold exactly
  rw [consume_readExact _ _ (by simp [hlength]), ← hlength, List.take_left, List.drop_left]
  exact consume_returned input rest

theorem Accepts.bind {program : ReadProgram β ε α} {f : α → ReadProgram β ε γ}
    {first second : List β} {value : α} {result : γ} (hfirst : program.Accepts first value)
    (hsecond : (f value).Accepts second result) :
    (program >>= f).Accepts (first ++ second) result := by
  intro rest
  rw [settle_bind, List.append_assoc, consume_bind f (hfirst _), hsecond]

theorem Accepts.bind_pure {program : ReadProgram β ε α} {input : List β} {value : α}
    (haccepts : program.Accepts input value) (f : α → γ) :
    (program >>= fun v => pure (f v)).Accepts input (f value) := by
  rw [← List.append_nil input]
  exact haccepts.bind (accepts_pure _)

/-- Run a program a number of times and return all results in order. -/
def times (program : ReadProgram β ε α) : Nat → ReadProgram β ε (List α)
  | 0 => pure []
  | count + 1 => do
      let value ← program
      let values ← times program count
      return value :: values

/-- A program that accepts each of the inputs accepts them one after another. -/
theorem accepts_times {ι : Type} {program : ReadProgram β ε α} (input : ι → List β)
    (value : ι → α) (items : List ι)
    (haccepts : ∀ item ∈ items, program.Accepts (input item) (value item)) :
    (program.times items.length).Accepts (items.flatMap input) (items.map value) := by
  induction items with
  | nil => exact accepts_pure []
  | cons item rest ih =>
      have hrest := ih fun later hlater => haccepts later (List.mem_cons_of_mem item hlater)
      have hitem := haccepts item List.mem_cons_self
      rw [List.flatMap_cons, List.map_cons, List.length_cons, times]
      exact hitem.bind (hrest.bind_pure _)

end ReadProgram

end Foundation
