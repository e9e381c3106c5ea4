import Newt.Transport.Codec
import Newt.Transport.Recv

/-! # Reassembly of fragmented messages

A server cuts its messages into fragments and may put pings and pongs between any
two frames. Successive calls of `recv` return the text messages in order, skip
the binary ones, and answer each ping.
-/

namespace Newt.Transport

open Foundation LoopedReader

variable {Msg : Type}

/-! ## What a server sends -/

/-- A frame of the server, with the key if it is masked. -/
structure ServerFrame where
  frame : Frame
  mask : Option (List UInt8)
  opcode_lt : frame.opcode < 16
  mask_length : ∀ m ∈ mask, m.length = 4

namespace ServerFrame

def bytes (sent : ServerFrame) : List UInt8 :=
  encodeFrame sent.frame.fin sent.frame.opcode sent.mask sent.frame.payload

/-- The frame is not larger than the client accepts. -/
def Fits (sent : ServerFrame) : Prop := sent.frame.payload.length ≤ maxFrame

theorem Fits.accepts {usizeBits : Nat} (hwidth : usizeBits = 32 ∨ usizeBits = 64)
    {sent : ServerFrame} (hfits : sent.Fits) :
    (readFrame usizeBits).Accepts sent.bytes sent.frame :=
  readFrame_accepts (by omega) (maxFrame_lt hwidth) sent.frame.fin sent.opcode_lt sent.mask_length
    hfits

/-- An unmasked frame. -/
def plain (frame : Frame) (hopcode : frame.opcode < 16) : ServerFrame :=
  ⟨frame, none, hopcode, fun _ hmask => by cases hmask⟩

end ServerFrame

/-- A text or binary message with the payloads of its fragments. -/
structure Message where
  text : Bool
  first : List UInt8
  more : List (List UInt8)
  deriving DecidableEq, Repr

/-- The fragments after the first one. The last carries the FIN flag. -/
def continuations : List (List UInt8) → List Frame
  | [] => []
  | payload :: more => ⟨more.isEmpty, 0x0, payload⟩ :: continuations more

namespace Message

def payload (m : Message) : List UInt8 := m.first ++ m.more.flatten

def frames (m : Message) : List Frame :=
  ⟨m.more.isEmpty, if m.text then 0x1 else 0x2, m.first⟩ :: continuations m.more

end Message

namespace Frame

def isPing (frame : Frame) : Bool := frame.opcode == 0x9

/-- Pings and pongs may stand between any two frames. -/
def isKeepalive (frame : Frame) : Bool := frame.opcode == 0x9 || frame.opcode == 0xA

end Frame

/-- Pings and pongs, and fragments of a text or binary message that goes on. -/
def Frame.GoesOn (frame : Frame) : Prop :=
  frame.isKeepalive = true ∨
    frame.fin = false ∧ (frame.opcode = 0x0 ∨ frame.opcode = 0x1 ∨ frame.opcode = 0x2)

/-- The answers to the pings among the frames. -/
def pongs (frames : List Frame) : List Written :=
  (frames.filter Frame.isPing).map fun frame => ⟨0xA, frame.payload⟩

/-- What the calls of `recv` return for the messages. -/
def decodings (wire : Wire Msg) (messages : List Message) : List (RecvResult Msg) :=
  (messages.filter Message.text).map fun m => (wire.decode m.payload).map some

/-! ## One frame -/

theorem onFrame_keepalive (wire : Wire Msg) (hwrite : ∀ written, wire.write written = .ok ())
    (locals : RecvLocals) {frame : Frame} (hkeepalive : frame.isKeepalive = true) :
    onFrame wire locals frame = (.again locals, pongs [frame]) := by
  unfold onFrame
  by_cases hping : frame.opcode = 0x9
  · simp [hping, hwrite, pongs, Frame.isPing]
  · have hpong : frame.opcode = 0xA := by simpa [Frame.isKeepalive, hping] using hkeepalive
    simp [hpong, pongs, Frame.isPing]

theorem onFrame_goesOn (wire : Wire Msg) (hwrite : ∀ written, wire.write written = .ok ())
    (locals : RecvLocals) {frame : Frame} (hgoesOn : frame.GoesOn) :
    ∃ next, onFrame wire locals frame = (.again next, pongs [frame]) := by
  rcases hgoesOn with hkeepalive | ⟨hfin, hopcode⟩
  · exact ⟨locals, onFrame_keepalive wire hwrite locals hkeepalive⟩
  · obtain ⟨fin, opcode, payload⟩ := frame
    obtain rfl : fin = false := hfin
    rcases hopcode with hopcode | hopcode | hopcode
    · obtain rfl : opcode = 0x0 := hopcode
      exact ⟨_, onFrame_continuation wire locals.msg false locals.msgIsText payload⟩
    · obtain rfl : opcode = 0x1 := hopcode
      exact ⟨_, onFrame_first wire locals false true payload⟩
    · obtain rfl : opcode = 0x2 := hopcode
      exact ⟨_, onFrame_first wire locals false false payload⟩

/-! ## Whole messages -/

/-- The message whose fragments `more` are still to come, if there are any. -/
def openMessage (text : Bool) (got : List UInt8) (more : List (List UInt8)) : List Message :=
  if more.isEmpty then [] else [⟨text, got, more⟩]

/-- The locals of a call inside this message, or between two messages. -/
def openLocals (text : Bool) (got : List UInt8) (more : List (List UInt8)) : RecvLocals :=
  if more.isEmpty then ⟨[], false⟩ else ⟨got, text⟩

def Decodes (wire : Wire Msg) (m : Message) : Prop :=
  m.text = true → ∃ msg, wire.decode m.payload = .ok msg

theorem Message.payload_append (text : Bool) (got payload : List UInt8)
    (more : List (List UInt8)) :
    (⟨text, got ++ payload, more⟩ : Message).payload =
      (⟨text, got, payload :: more⟩ : Message).payload := by
  simp [Message.payload]

theorem decodes_append {wire : Wire Msg} {text : Bool} {got payload : List UInt8}
    {more : List (List UInt8)} (hdecode : Decodes wire ⟨text, got, payload :: more⟩) :
    Decodes wire ⟨text, got ++ payload, more⟩ := by
  unfold Decodes at hdecode ⊢
  rw [Message.payload_append]
  exact hdecode

theorem decodes_of_cons {wire : Wire Msg} {text : Bool} {got : List UInt8}
    {more : List (List UInt8)} {messages : List Message}
    (hfirst : Decodes wire ⟨text, got, more⟩) (hrest : ∀ m ∈ messages, Decodes wire m) :
    ∀ m ∈ openMessage text got more ++ messages, Decodes wire m := by
  intro m hm
  rcases List.mem_append.mp hm with hopen | hlater
  · unfold openMessage at hopen
    split at hopen
    · cases hopen
    · rw [List.mem_singleton.mp hopen]
      exact hfirst
  · exact hrest m hlater

theorem decodings_cons (wire : Wire Msg) (m : Message) (messages : List Message) :
    decodings wire (m :: messages) =
      (if m.text then [(wire.decode m.payload).map some] else []) ++ decodings wire messages := by
  unfold decodings
  cases htext : m.text <;> simp [htext]

theorem decodings_append (wire : Wire Msg) (text : Bool) (got payload : List UInt8)
    (more : List (List UInt8)) (messages : List Message) :
    decodings wire (⟨text, got ++ payload, more⟩ :: messages) =
      decodings wire (⟨text, got, payload :: more⟩ :: messages) := by
  rw [decodings_cons, decodings_cons, Message.payload_append]

theorem pongs_cons (frame : Frame) (frames : List Frame) :
    pongs (frame :: frames) = pongs [frame] ++ pongs frames := by
  unfold pongs
  cases hping : frame.isPing <;> simp [hping]

theorem pongs_of_data {frame : Frame} (hdata : frame.isKeepalive = false) :
    pongs [frame] = [] := by
  have hping : frame.isPing = false := by
    rw [Frame.isKeepalive, Bool.or_eq_false_iff] at hdata
    exact hdata.1
  simp [pongs, hping]

theorem recv_onItem (usizeBits : Nat) (wire : Wire Msg) :
    (recv usizeBits wire).onItem = onFrame wire := rfl

section Run

variable {usizeBits : Nat} {wire : Wire Msg}

/-- A fragment was read. The call returns the message if it was the last one of a
text, and goes on otherwise. -/
theorem serve_collect {text : Bool} {got : List UInt8} {more : List (List UInt8)}
    {messages : List Message} {rest : List UInt8} {written : List Written}
    {last : RecvResult Msg} (hdecode : Decodes wire ⟨text, got, more⟩)
    (hrest : (recv usizeBits wire).serve
        ⟨openLocals text got more, (recv usizeBits wire).opening⟩ rest =
      ⟨decodings wire (openMessage text got more ++ messages) ++ [last], written, none⟩) :
    (recv usizeBits wire).resume rest (collect wire text got more.isEmpty) =
      ⟨decodings wire (⟨text, got, more⟩ :: messages) ++ [last], written, none⟩ := by
  cases more with
  | cons payload more => exact hrest
  | nil =>
      have hpayload : (⟨text, got, []⟩ : Message).payload = got := List.append_nil got
      rw [decodings_cons, hpayload]
      cases text with
      | false => exact hrest
      | true =>
          obtain ⟨msg, hmsg⟩ := hdecode rfl
          rw [hpayload] at hmsg
          change (recv usizeBits wire).serve (recv usizeBits wire).fresh rest = _ at hrest
          simp only [collect, List.isEmpty_nil, ↓reduceIte, hmsg, resume, hrest]
          rfl

/-- A close frame ends the last call, inside or outside a message. -/
theorem serve_close {close : ServerFrame} (hwidth : usizeBits = 32 ∨ usizeBits = 64)
    (hfits : close.Fits) (hclose : close.frame.opcode = 0x8) (trailing : List UInt8)
    (locals : RecvLocals) :
    (recv usizeBits wire).serve ⟨locals, (recv usizeBits wire).opening⟩ (close.bytes ++ trailing) =
      ⟨[.ok none], [], none⟩ := by
  rw [serve_accepted _ (hfits.accepts hwidth), recv_onItem, onFrame_close wire hclose]
  rfl

/-- So does a frame that is too large. -/
theorem serve_large {large : ServerFrame} (hwidth : usizeBits = 32 ∨ usizeBits = 64)
    (hlarge : ¬ large.Fits) (hlen : large.frame.payload.length < 2 ^ usizeBits)
    (trailing : List UInt8) (locals : RecvLocals) :
    (recv usizeBits wire).serve ⟨locals, (recv usizeBits wire).opening⟩ (large.bytes ++ trailing) =
      ⟨[.error "websocket frame too large"], [], none⟩ := by
  obtain ⟨rest, hrefused⟩ := readFrame_refuses (show usizeBits ≤ 64 by omega) large.frame.fin
    large.frame.opcode large.mask (Nat.not_le.mp hlarge) hlen trailing
  exact serve_failure (recv usizeBits wire) hrefused

variable (hwidth : usizeBits = 32 ∨ usizeBits = 64)
  (hwrite : ∀ written, wire.write written = .ok ())
include hwidth hwrite

/-- Keepalives and fragments of an unfinished message only answer the pings. -/
theorem serve_goesOn {tail : List UInt8} {last : RecvResult Msg}
    (htail : ∀ locals, (recv usizeBits wire).serve ⟨locals, (recv usizeBits wire).opening⟩ tail =
      ⟨[last], [], none⟩)
    (opened : List ServerFrame) (hopened : ∀ sent ∈ opened, sent.Fits ∧ sent.frame.GoesOn)
    (locals : RecvLocals) :
    (recv usizeBits wire).serve ⟨locals, (recv usizeBits wire).opening⟩
        (opened.flatMap ServerFrame.bytes ++ tail) =
      ⟨[last], pongs (opened.map ServerFrame.frame), none⟩ := by
  induction opened generalizing locals with
  | nil => exact htail locals
  | cons next opened ih =>
      obtain ⟨⟨hfits, hgoesOn⟩, hrest⟩ := List.forall_mem_cons.mp hopened
      obtain ⟨locals', hnext⟩ := onFrame_goesOn wire hwrite locals hgoesOn
      rw [List.flatMap_cons, List.append_assoc, serve_accepted _ (hfits.accepts hwidth),
        recv_onItem, hnext, resume, ih hrest, List.map_cons,
        pongs_cons next.frame (opened.map ServerFrame.frame)]
      rfl

variable {tail : List UInt8} {last : RecvResult Msg} {later : List Written}
  (htail : ∀ locals, (recv usizeBits wire).serve ⟨locals, (recv usizeBits wire).opening⟩ tail =
    ⟨[last], later, none⟩)
include htail

/-- The frames `sent` carry the rest of an open message and further messages, and what
comes after them makes the last call return `last`. -/
theorem serve_frames {text : Bool} {got : List UInt8} {more : List (List UInt8)}
    {messages : List Message} (sent : List ServerFrame) (hfits : ∀ next ∈ sent, next.Fits)
    (hsent : (sent.map ServerFrame.frame).filter (fun frame => !frame.isKeepalive) =
      continuations more ++ messages.flatMap Message.frames)
    (hdecode : ∀ m ∈ openMessage text got more ++ messages, Decodes wire m) :
    (recv usizeBits wire).serve ⟨openLocals text got more, (recv usizeBits wire).opening⟩
        (sent.flatMap ServerFrame.bytes ++ tail) =
      ⟨decodings wire (openMessage text got more ++ messages) ++ [last],
        pongs (sent.map ServerFrame.frame) ++ later, none⟩ := by
  induction sent generalizing text got more messages with
  | nil =>
      cases more with
      | cons payload more => cases hsent
      | nil =>
          cases messages with
          | cons m messages => cases hsent
          | nil => exact htail _
  | cons next sent ih =>
      obtain ⟨hnext, hfits⟩ := List.forall_mem_cons.mp hfits
      rw [List.flatMap_cons, List.append_assoc, serve_accepted _ (hnext.accepts hwidth),
        recv_onItem, List.map_cons, pongs_cons, List.append_assoc]
      rw [List.map_cons, List.filter_cons] at hsent
      cases hkeepalive : next.frame.isKeepalive with
      | true =>
          -- an open message stays as it is
          rw [hkeepalive] at hsent
          rw [onFrame_keepalive wire hwrite _ hkeepalive, resume, ih hfits hsent hdecode]
          rfl
      | false =>
          have hpong : pongs [next.frame] = [] := pongs_of_data hkeepalive
          rw [hpong, List.nil_append]
          simp only [hkeepalive, Bool.not_false, ↓reduceIte] at hsent
          cases more with
          | cons payload more =>
              rw [continuations, List.cons_append, List.cons.injEq] at hsent
              obtain ⟨hframe, hsent⟩ := hsent
              have hlocals : openLocals text got (payload :: more) = ⟨got, text⟩ := rfl
              have hdecode' : Decodes wire ⟨text, got ++ payload, more⟩ :=
                decodes_append (hdecode _ List.mem_cons_self)
              have hrest := ih hfits hsent (decodes_of_cons hdecode' fun m hm =>
                hdecode m (List.mem_append_right _ hm))
              rw [hframe, hlocals, onFrame_continuation, serve_collect hdecode' hrest,
                decodings_append]
              rfl
          | nil =>
              cases messages with
              | nil => cases hsent
              | cons m messages =>
                  rw [continuations, List.nil_append, List.flatMap_cons, Message.frames,
                    List.cons_append, List.cons.injEq] at hsent
                  obtain ⟨hframe, hsent⟩ := hsent
                  have hfirst := hdecode m List.mem_cons_self
                  have hrest := ih hfits hsent (decodes_of_cons hfirst fun later hlater =>
                    hdecode later (List.mem_cons_of_mem m hlater))
                  rw [hframe, onFrame_first, serve_collect hfirst hrest]
                  rfl

end Run

/-- Whatever the fragmentation and wherever pings and pongs stand: as long as no frame
is larger than the client accepts, successive calls return the decoded text messages
and then the end of the channel, and every ping is answered in order. A frame that is
larger, in a message or between messages, ends the calls with an error in its place. -/
theorem recv_reassembles {usizeBits : Nat} (hwidth : usizeBits = 32 ∨ usizeBits = 64)
    {wire : Wire Msg} (hwrite : ∀ written, wire.write written = .ok ()) {messages : List Message}
    (hdecode : ∀ m ∈ messages, m.text = true → ∃ msg, wire.decode m.payload = .ok msg)
    {sent : List ServerFrame} (hfits : ∀ next ∈ sent, next.frame.payload.length ≤ maxFrame)
    (hsent : (sent.map ServerFrame.frame).filter (fun frame => !frame.isKeepalive) =
      messages.flatMap Message.frames) (trailing : List UInt8) :
    (∀ close : ServerFrame, close.frame.opcode = 0x8 → close.frame.payload.length ≤ maxFrame →
      (recv usizeBits wire).serve (recv usizeBits wire).fresh
          (sent.flatMap ServerFrame.bytes ++ (close.bytes ++ trailing)) =
        ⟨decodings wire messages ++ [.ok none], pongs (sent.map ServerFrame.frame), none⟩) ∧
    ∀ (opened : List ServerFrame) (large : ServerFrame),
      (∀ next ∈ opened, next.frame.payload.length ≤ maxFrame ∧ next.frame.GoesOn) →
      maxFrame < large.frame.payload.length → large.frame.payload.length < 2 ^ usizeBits →
      (recv usizeBits wire).serve (recv usizeBits wire).fresh
          (sent.flatMap ServerFrame.bytes ++
            (opened.flatMap ServerFrame.bytes ++ (large.bytes ++ trailing))) =
        ⟨decodings wire messages ++ [.error "websocket frame too large"],
          pongs (sent.map ServerFrame.frame) ++ pongs (opened.map ServerFrame.frame), none⟩ := by
  constructor
  · intro close hclose hsmall
    have hserved := @serve_frames Msg usizeBits wire hwidth hwrite _ _ _
      (serve_close hwidth hsmall hclose trailing) false [] [] messages sent hfits hsent hdecode
    rw [List.append_nil] at hserved
    exact hserved
  · intro opened large hopened hlarge hlen
    have htail := serve_goesOn hwidth hwrite
      (serve_large hwidth (Nat.not_le.mpr hlarge) hlen trailing) opened hopened
    exact @serve_frames Msg usizeBits wire hwidth hwrite _ _ _ htail false [] [] messages sent
      hfits hsent hdecode

/-- A socket that accepts every write, and a decoder that knows one message. -/
def hiWire : Wire Unit where
  decode bytes := if bytes = [0x68, 0x69] then .ok () else .error "expected value"
  write _ := .ok ()

/-- A text message in two fragments around a ping, a pong, and a binary message. -/
def hiSent : List ServerFrame :=
  [.plain ⟨false, 0x1, [0x68]⟩ (by decide), .plain ⟨true, 0x9, [7]⟩ (by decide),
    .plain ⟨true, 0x0, [0x69]⟩ (by decide), .plain ⟨true, 0xA, []⟩ (by decide),
    .plain ⟨true, 0x2, [9]⟩ (by decide)]

def hiClose : ServerFrame := .plain ⟨true, 0x8, []⟩ (by decide)

/-- The first fragment of another message. -/
def hiOpened : ServerFrame := .plain ⟨false, 0x1, [0x68]⟩ (by decide)

/-- A frame of 16 MiB and one byte. -/
def largeFrame : ServerFrame := .plain ⟨true, 0x1, List.replicate (maxFrame + 1) 0⟩ (by decide)

theorem largeFrame_length : largeFrame.frame.payload.length = maxFrame + 1 := List.length_replicate

/-- The messages arrive, and the channel is closed or ends with a frame of one byte more
than the client accepts, in the middle of another message. -/
theorem recv_reassembles_hi :
    (recv 64 hiWire).serve (recv 64 hiWire).fresh
        (hiSent.flatMap ServerFrame.bytes ++ (hiClose.bytes ++ [])) =
      ⟨[.ok (some ()), .ok none], [⟨0xA, [7]⟩], none⟩ ∧
    (recv 64 hiWire).serve (recv 64 hiWire).fresh
        (hiSent.flatMap ServerFrame.bytes ++
          ([hiOpened].flatMap ServerFrame.bytes ++ (largeFrame.bytes ++ []))) =
      ⟨[.ok (some ()), .error "websocket frame too large"], [⟨0xA, [7]⟩], none⟩ := by
  have hdecode : ∀ m ∈ [(⟨true, [0x68], [[0x69]]⟩ : Message), ⟨false, [9], []⟩],
      m.text = true → ∃ msg, hiWire.decode m.payload = .ok msg := by
    intro m hm htext
    rcases List.mem_cons.mp hm with rfl | hm
    · exact ⟨(), rfl⟩
    · rw [List.mem_singleton.mp hm] at htext
      cases htext
  have hfits : ∀ next ∈ hiSent, next.frame.payload.length ≤ maxFrame := by
    simp [hiSent, ServerFrame.plain, maxFrame]
  have hsent : (hiSent.map ServerFrame.frame).filter (fun frame => !frame.isKeepalive) =
      [(⟨true, [0x68], [[0x69]]⟩ : Message), ⟨false, [9], []⟩].flatMap Message.frames := rfl
  obtain ⟨hclosed, hlarge⟩ :=
    recv_reassembles (.inr rfl : 64 = 32 ∨ 64 = 64) (fun _ => rfl) hdecode hfits hsent []
  constructor
  · exact hclosed hiClose rfl (Nat.zero_le _)
  · have hopened : ∀ next ∈ [hiOpened], next.frame.payload.length ≤ maxFrame ∧
        next.frame.GoesOn := by
      intro next hnext
      rw [List.mem_singleton.mp hnext]
      exact ⟨by decide, .inr ⟨rfl, .inr (.inl rfl)⟩⟩
    have hlength := largeFrame_length
    have hwide : maxFrame + 1 < 2 ^ 64 := by decide
    exact hlarge _ largeFrame hopened (by omega) (by omega)

/-- A socket that accepts every write, and a decoder that takes every text. -/
def anyWire : Wire Unit where
  decode _ := .ok ()
  write _ := .ok ()

/-- A text message that is sent in one frame of 16 MiB and one byte. -/
def largeText : Message := ⟨true, List.replicate (maxFrame + 1) 0, []⟩

/-- The frame is the whole message and its text is decodable, but `recv` returns an
error in the place of the message. -/
theorem recv_refuses_large_text :
    [largeFrame.frame] = largeText.frames ∧ anyWire.decode largeText.payload = .ok () ∧
      (recv 64 anyWire).serve (recv 64 anyWire).fresh (largeFrame.bytes ++ hiClose.bytes) =
        ⟨[.error "websocket frame too large"], [], none⟩ ∧
      decodings anyWire [largeText] ++ [.ok none] = [.ok (some ()), .ok none] := by
  have hlength := largeFrame_length
  refine ⟨rfl, rfl, ?_, rfl⟩
  apply serve_large (.inr rfl)
  · rw [ServerFrame.Fits, hlength]
    exact Nat.not_succ_le_self maxFrame
  · rw [hlength]
    decide

end Newt.Transport
