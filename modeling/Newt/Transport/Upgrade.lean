import Mathlib.Data.List.Infix
import Newt.Transport.Codec

/-! # The answer to the WebSocket upgrade

`connect` reads the head of the server's answer one byte at a time, up to the
blank line, so that the frames after it stay in the stream for `recv`. The size
of the head is checked after the blank line was looked for. A head may
therefore be one byte longer than the limit, if its last byte completes the
blank line.
-/

namespace Newt.Transport

open Foundation Foundation.ReadProgram

/-- The end of the last header line and the empty line after it. -/
def blankLine : List UInt8 := [13, 10, 13, 10]

/-- The bytes of `HTTP/1.1 101`. -/
def switching : List UInt8 := [72, 84, 84, 80, 47, 49, 46, 49, 32, 49, 48, 49]

/-- Size above which an unfinished head is given up. -/
def headLimit : Nat := 8192

/-- The loop of `connect` that reads the head, with the bytes read so far. -/
def readHead (head : List UInt8) : ReadProgram UInt8 IoError (List UInt8) :=
  .readExact 1 fun b =>
    let next := head ++ [b.getD 0 0]
    if blankLine <:+ next then .done next
    else if headLimit < next.length then .fail "websocket upgrade headers too large"
    else readHead next
termination_by headLimit + 1 - head.length
decreasing_by
  simp_all +zetaDelta only [List.length_append, List.length_singleton]
  omega

/-- The bytes before the first carriage return. -/
def statusLine (head : List UInt8) : List UInt8 := head.takeWhile (· != 13)

/-- What `connect` reads after its request. `lossy` makes a text of bytes that
need not be UTF-8. -/
def upgrade (lossy : List UInt8 → String) : ReadProgram UInt8 IoError Unit := do
  let head ← readHead []
  if switching <+: statusLine head then return ()
  else ReadProgram.fail ("websocket upgrade failed: " ++ lossy (statusLine head))

/-- A complete head: it ends with a blank line and no shorter part of it does. -/
structure IsHead (head : List UInt8) : Prop where
  closed : blankLine <:+ head
  first : ∀ shorter, shorter <+: head → blankLine <:+ shorter → shorter = head

/-- Bytes that end with a blank line start with a complete head. -/
theorem exists_isHead {bytes : List UInt8} (hclosed : blankLine <:+ bytes) :
    ∃ head, head <+: bytes ∧ IsHead head := by
  induction hlength : bytes.length using Nat.strongRecOn generalizing bytes with
  | _ length ih =>
      by_cases hfirst : ∀ shorter, shorter <+: bytes → blankLine <:+ shorter → shorter = bytes
      · exact ⟨bytes, List.prefix_rfl, hclosed, hfirst⟩
      · push Not at hfirst
        obtain ⟨shorter, hbegins, hends, hne⟩ := hfirst
        have hlt : shorter.length < length := by
          have hle := hbegins.length_le
          have hlen : shorter.length ≠ bytes.length := fun h => hne (hbegins.eq_of_length h)
          omega
        obtain ⟨head, hhead, hisHead⟩ := ih _ hlt hends rfl
        exact ⟨head, hhead.trans hbegins, hisHead⟩

/-- The status line starts with the expected bytes exactly if the head does. -/
theorem switching_statusLine (head : List UInt8) :
    switching <+: statusLine head ↔ switching <+: head := by
  have hline : ∀ b ∈ switching, (b != 13) = true := by simp [switching]
  constructor
  · exact fun h => h.trans (List.takeWhile_prefix _)
  · rintro ⟨rest, rfl⟩
    rw [statusLine, List.takeWhile_append_of_pos hline]
    exact List.prefix_append _ _

/-! ## One byte of the head -/

theorem readHead_cons (head bytes : List UInt8) (b : UInt8) :
    (readHead head).settle.consume (b :: bytes) =
      if blankLine <:+ head ++ [b] then (.returned (head ++ [b]), bytes)
      else if headLimit < (head ++ [b]).length then
        (.failed "websocket upgrade headers too large", bytes)
      else (readHead (head ++ [b])).settle.consume bytes := by
  rw [readHead, consume_readExact _ _ (by simp)]
  simp only [List.take_succ_cons, List.take_zero, List.drop_succ_cons, List.drop_zero,
    List.getD_cons_zero]
  split
  next => rw [settle_done, consume_returned]
  next =>
    split
    next => rw [settle_fail, consume_failed]
    next => rfl

/-- The loop reads up to the blank line and leaves what follows. -/
theorem readHead_isHead {head tail : List UInt8} (hhead : IsHead (head ++ tail))
    (hmore : tail ≠ []) (hfits : (head ++ tail).length ≤ headLimit + 1) (rest : List UInt8) :
    (readHead head).settle.consume (tail ++ rest) = (.returned (head ++ tail), rest) := by
  induction tail generalizing head with
  | nil => exact absurd rfl hmore
  | cons b tail ih =>
      rw [List.append_cons] at hhead hfits
      rw [List.cons_append, readHead_cons, List.append_cons head b tail]
      by_cases hlast : tail = []
      · subst hlast
        rw [List.append_nil] at hhead ⊢
        rw [if_pos hhead.closed, List.nil_append]
      · have hopen : ¬ blankLine <:+ head ++ [b] := by
          intro hends
          have hall := hhead.first _ (List.prefix_append _ tail) hends
          exact hlast (List.append_right_eq_self.mp hall.symm)
        have hroom : ¬ headLimit < (head ++ [b]).length := by
          have hpos := List.length_pos_iff.mpr hlast
          rw [List.length_append] at hfits
          omega
        rw [if_neg hopen, if_neg hroom]
        exact ih hhead hlast hfits

section Unfinished

variable {head bytes : List UInt8}

/-- No byte of `bytes`, read after `head`, completes a blank line within the limit. -/
def Unfinished (head bytes : List UInt8) : Prop :=
  ∀ part, part <+: head ++ bytes → head.length < part.length → part.length ≤ headLimit + 1 →
    ¬ blankLine <:+ part

theorem Unfinished.first {b : UInt8} (hopen : Unfinished head (b :: bytes))
    (hroom : head.length ≤ headLimit) : ¬ blankLine <:+ head ++ [b] := by
  apply hopen
  · rw [List.append_cons head b bytes]
    exact List.prefix_append _ _
  · simp
  · simpa using hroom

theorem Unfinished.tail {b : UInt8} (hopen : Unfinished head (b :: bytes)) :
    Unfinished (head ++ [b]) bytes := by
  intro part hpart hlonger
  rw [← List.append_cons] at hpart
  apply hopen part hpart
  rw [List.length_append] at hlonger
  omega

/-- The loop waits while the head is unfinished and within the limit. -/
theorem readHead_waits (hopen : Unfinished head bytes)
    (hshort : head.length + bytes.length ≤ headLimit) :
    ∃ reading, (readHead head).settle.consume bytes = (.waiting reading, []) := by
  induction bytes generalizing head with
  | nil =>
      rw [readHead]
      exact consume_readExact_short _ [] Nat.zero_lt_one
  | cons b bytes ih =>
      rw [List.length_cons] at hshort
      have hlength : (head ++ [b]).length = head.length + 1 := List.length_append
      rw [readHead_cons, if_neg (hopen.first (by omega)), if_neg (by omega)]
      exact ih hopen.tail (by omega)

/-- The loop gives up on the first byte above the limit. -/
theorem readHead_gives_up (hopen : Unfinished head bytes) (hroom : head.length ≤ headLimit)
    (hlong : headLimit < head.length + bytes.length) :
    (readHead head).settle.consume bytes =
      (.failed "websocket upgrade headers too large",
        bytes.drop (headLimit + 1 - head.length)) := by
  induction bytes generalizing head with
  | nil =>
      rw [List.length_nil] at hlong
      omega
  | cons b bytes ih =>
      rw [List.length_cons] at hlong
      have hlength : (head ++ [b]).length = head.length + 1 := List.length_append
      have hdrop : headLimit + 1 - head.length = headLimit + 1 - (head ++ [b]).length + 1 := by
        omega
      rw [readHead_cons, if_neg (hopen.first hroom), hdrop, List.drop_succ_cons]
      by_cases hlast : headLimit < (head ++ [b]).length
      · have hnone : headLimit + 1 - (head ++ [b]).length = 0 := by omega
        rw [if_pos hlast, hnone, List.drop_zero]
      · rw [if_neg hlast]
        exact ih hopen.tail (by omega) (by omega)

end Unfinished

/-! ## The whole answer -/

theorem IsHead.ne_nil {head : List UInt8} (hhead : IsHead head) : head ≠ [] := by
  rintro rfl
  exact absurd hhead.closed (by decide)

/-- Without a complete head within the limit, the loop never finds its blank line. -/
theorem unfinished_of_no_head {bytes : List UInt8}
    (hnone : ∀ head, head <+: bytes → IsHead head → headLimit + 1 < head.length) :
    Unfinished [] bytes := by
  intro part hpart _ hfits hends
  obtain ⟨head, hbegins, hhead⟩ := exists_isHead hends
  have hlong := hnone head (hbegins.trans hpart) hhead
  have hle := hbegins.length_le
  omega

theorem upgrade_isHead (lossy : List UInt8 → String) {head : List UInt8} (hhead : IsHead head)
    (hfits : head.length ≤ headLimit + 1) (rest : List UInt8) :
    (upgrade lossy).settle.consume (head ++ rest) =
      (if switching <+: head then .returned ()
        else .failed ("websocket upgrade failed: " ++ lossy (statusLine head)), rest) := by
  have hread : (readHead []).settle.consume (head ++ rest) = (.returned head, rest) := by
    rw [← List.nil_append head] at hhead hfits
    exact readHead_isHead hhead hhead.ne_nil hfits rest
  rw [upgrade, settle_bind, consume_bind _ hread]
  simp only [switching_statusLine]
  split
  next => exact consume_returned _ _
  next => exact consume_failed _ _

/-- A reply that switches protocols leaves every frame after it to be read. -/
theorem upgrade_then_frames (lossy : List UInt8 → String) {usizeBits : Nat}
    (hwidth : usizeBits = 32 ∨ usizeBits = 64) {head : List UInt8} (hhead : IsHead head)
    (hfits : head.length ≤ headLimit + 1) (hswitching : switching <+: head)
    {frames : List Frame}
    (hframes : ∀ frame ∈ frames, frame.opcode < 16 ∧ frame.payload.length ≤ maxFrame) :
    (upgrade lossy >>= fun _ => (readFrame usizeBits).times frames.length).Accepts
      (head ++ frames.flatMap fun frame => encodeFrame frame.fin frame.opcode none frame.payload)
      frames := by
  have hupgrade : (upgrade lossy).Accepts head () := by
    intro rest
    rw [upgrade_isHead lossy hhead hfits, if_pos hswitching]
  have hbits : usizeBits ≤ 64 := by omega
  have hframe : ∀ frame ∈ frames, (readFrame usizeBits).Accepts
      (encodeFrame frame.fin frame.opcode none frame.payload) frame := by
    intro frame hmem
    obtain ⟨hopcode, hpayload⟩ := hframes frame hmem
    exact readFrame_accepts hbits (maxFrame_lt hwidth) frame.fin hopcode (by simp) hpayload
  have hread := accepts_times _ id frames hframe
  rw [List.map_id] at hread
  exact hupgrade.bind hread

/-- What `connect` makes of every stream of bytes. A complete head of at most
`headLimit + 1` bytes is taken and nothing after it; the call then succeeds
exactly if the head starts with the status of a protocol switch. Without such a
head the call waits for more, and fails once the limit is passed. -/
theorem upgrade_reads (lossy : List UInt8 → String) (bytes : List UInt8) :
    (∀ head rest, bytes = head ++ rest → IsHead head → head.length ≤ headLimit + 1 →
      (upgrade lossy).settle.consume bytes =
        (if switching <+: head then .returned ()
          else .failed ("websocket upgrade failed: " ++ lossy (statusLine head)), rest)) ∧
      ((∀ head, head <+: bytes → IsHead head → headLimit + 1 < head.length) →
        (bytes.length ≤ headLimit →
          ∃ reading, (upgrade lossy).settle.consume bytes = (.waiting reading, [])) ∧
        (headLimit < bytes.length →
          (upgrade lossy).settle.consume bytes =
            (.failed "websocket upgrade headers too large", bytes.drop (headLimit + 1)))) := by
  constructor
  · rintro head rest rfl hhead hfits
    exact upgrade_isHead lossy hhead hfits rest
  · intro hnone
    have hopen := unfinished_of_no_head hnone
    rw [upgrade, settle_bind]
    constructor
    · intro hshort
      obtain ⟨reading, hwaits⟩ := readHead_waits hopen (by simpa using hshort)
      rw [consume_bind_status _ hwaits]
      exact ⟨_, rfl⟩
    · intro hlong
      rw [consume_bind_status _ (readHead_gives_up hopen (Nat.zero_le _) (by simpa using hlong))]
      exact consume_failed _ _

/-- A server that switches protocols and sends an empty text frame at once. -/
theorem upgrade_reads_switching :
    (upgrade fun _ => "").settle.consume (switching ++ blankLine ++ [0x81, 0]) =
      (.returned (), [0x81, 0]) := by
  have hhead : IsHead (switching ++ blankLine) := by
    refine ⟨by decide, fun shorter hshorter => ?_⟩
    rw [← List.mem_inits] at hshorter
    revert shorter
    decide
  rw [(upgrade_reads (fun _ => "") (switching ++ blankLine ++ [0x81, 0])).1 _ _ rfl hhead
    (by decide), if_pos (List.prefix_append _ _)]

end Newt.Transport
