import Newt.Core.Text

/-! # Proxy targets

The target specifications `listenPort:host:targetPort` of the control plane, and
the grammar that the parser accepts.
-/

namespace Newt

open Text

/-- A proxy target. The host may be a bracketed IPv6 literal in its text. -/
structure Target where
  listenPort : UInt16
  host : String
  targetPort : UInt16
  deriving DecidableEq, Repr

namespace Target

/-- The host and port part of a specification. -/
def splitHostPort (rest : List Char) : Option (List Char × List Char) :=
  match stripChar '[' rest with
  | some after =>
      match splitOnce ']' after with
      | some (host, tail) => (stripChar ':' tail).map fun port => (host, port)
      | none => none
  | none => rsplitOnce ':' rest

def parse (s : String) : Option Target :=
  match splitOnce ':' s.toList with
  | none => none
  | some (listen, rest) =>
      match parseU16 listen with
      | none => none
      | some listenPort =>
          match splitHostPort rest with
          | none => none
          | some (host, port) =>
              match parseU16 port with
              | none => none
              | some targetPort => some ⟨listenPort, String.ofList host, targetPort⟩

/-- The destination as the listeners keep it, `host:port`. -/
def destination (t : Target) : String := t.host ++ ":" ++ toString t.targetPort.toNat

/-! ## The accepted specifications -/

/-- The specifications of a target: `host:port` after the listening port, or
`[host]:port`. -/
def Grammar (s : List Char) (t : Target) : Prop :=
  ∃ listen rest port, s = listen ++ ':' :: rest ∧ ':' ∉ listen ∧
    IsNumeral listen t.listenPort ∧ IsNumeral port t.targetPort ∧
    ((rest = '[' :: (t.host.toList ++ ']' :: ':' :: port) ∧ ']' ∉ t.host.toList) ∨
      (rest.head? ≠ some '[' ∧ rest = t.host.toList ++ ':' :: port ∧ ':' ∉ port))

theorem splitHostPort_eq_some_iff {rest host port : List Char} :
    splitHostPort rest = some (host, port) ↔
      (rest = '[' :: (host ++ ']' :: ':' :: port) ∧ ']' ∉ host) ∨
        (rest.head? ≠ some '[' ∧ rest = host ++ ':' :: port ∧ ':' ∉ port) := by
  cases hbracket : stripChar '[' rest with
  | some after =>
      obtain rfl := stripChar_eq_some_iff.mp hbracket
      simp only [splitHostPort, hbracket, List.head?_cons, ne_eq, not_true, false_and, or_false,
        List.cons.injEq, true_and]
      cases hclose : splitOnce ']' after with
      | none =>
          simp only [reduceCtorEq, false_iff]
          rintro hafter
          rw [splitOnce_eq_some_iff.mpr hafter] at hclose
          cases hclose
      | some parts =>
          obtain ⟨front, tail⟩ := parts
          simp only [Option.map_eq_some_iff, Prod.mk.injEq, stripChar_eq_some_iff]
          constructor
          · rintro ⟨_, rfl, rfl, rfl⟩
            exact splitOnce_eq_some_iff.mp hclose
          · intro hafter
            rw [splitOnce_eq_some_iff.mpr hafter] at hclose
            cases hclose
            exact ⟨port, rfl, rfl, rfl⟩
  | none =>
      have hhead : rest.head? ≠ some '[' := by
        cases rest with
        | nil => simp
        | cons c rest =>
            rintro hc
            obtain rfl : c = '[' := Option.some.inj hc
            simp [stripChar] at hbracket
      have hnot (tail : List Char) : rest ≠ '[' :: tail := by
        rintro rfl
        exact hhead rfl
      simp only [splitHostPort, hbracket, rsplitOnce_eq_some_iff, hnot, hhead, ne_eq,
        not_false_iff, true_and, false_and, false_or]

theorem parse_eq_some_iff_grammar (s : String) (t : Target) :
    parse s = some t ↔ Grammar s.toList t := by
  constructor
  · intro hparse
    simp only [parse] at hparse
    split at hparse
    · cases hparse
    · next listen rest hsplit =>
        split at hparse
        · cases hparse
        · next listenPort hlisten =>
            split at hparse
            · cases hparse
            · next host port hrest =>
                split at hparse
                · cases hparse
                · next targetPort hport =>
                    cases hparse
                    obtain ⟨hs, hcolon⟩ := splitOnce_eq_some_iff.mp hsplit
                    refine ⟨listen, rest, port, hs, hcolon, parseU16_eq_some_iff.mp hlisten,
                      parseU16_eq_some_iff.mp hport, ?_⟩
                    rw [String.toList_ofList]
                    exact splitHostPort_eq_some_iff.mp hrest
  · rintro ⟨listen, rest, port, hs, hcolon, hlisten, hport, hrest⟩
    have hsplit := splitOnce_eq_some_iff.mpr ⟨hs, hcolon⟩
    have hhost := splitHostPort_eq_some_iff.mpr hrest
    simp only [parse, hsplit, hhost, parseU16_eq_some_iff.mpr hlisten,
      parseU16_eq_some_iff.mpr hport, String.ofList_toList]

/-- A target written `listen:[host]:port`. -/
def printBracketed (t : Target) : String :=
  toString t.listenPort.toNat ++ ":[" ++ t.host ++ "]:" ++ toString t.targetPort.toNat

/-- A target written `listen:host:port`. -/
def printPlain (t : Target) : String :=
  toString t.listenPort.toNat ++ ":" ++ t.host ++ ":" ++ toString t.targetPort.toNat

theorem parse_accepts_grammar :
    (∀ s t, parse s = some t ↔ Grammar s.toList t) ∧
      (∀ t, ']' ∉ t.host.toList → parse t.printBracketed = some t) ∧
      ∀ t, t.host.toList.head? ≠ some '[' → parse t.printPlain = some t := by
  have hlisten (n : UInt16) : ':' ∉ (toString n.toNat).toList :=
    (isNumeral_toString n).not_mem (by decide) (by decide)
  refine ⟨parse_eq_some_iff_grammar, ?_, ?_⟩
  · intro t hhost
    refine (parse_eq_some_iff_grammar _ t).mpr ⟨_, _, _, ?_, hlisten t.listenPort,
      isNumeral_toString t.listenPort, isNumeral_toString t.targetPort, .inl ⟨rfl, hhost⟩⟩
    simp [printBracketed]
  · intro t hhost
    refine (parse_eq_some_iff_grammar _ t).mpr ⟨_, _, _, ?_, hlisten t.listenPort,
      isNumeral_toString t.listenPort, isNumeral_toString t.targetPort,
      .inr ⟨?_, rfl, hlisten t.targetPort⟩⟩
    · simp [printPlain]
    · cases hchars : t.host.toList with
      | nil => simp
      | cons c rest => simpa [hchars] using hhost

/-- Both spellings of a target with an IPv6 host are read back. -/
theorem parse_print_loopback :
    parse (printBracketed ⟨3001, "::1", 8080⟩) = some ⟨3001, "::1", 8080⟩ ∧
      parse (printPlain ⟨3001, "::1", 8080⟩) = some ⟨3001, "::1", 8080⟩ :=
  ⟨parse_accepts_grammar.2.1 ⟨3001, "::1", 8080⟩ (by decide),
    parse_accepts_grammar.2.2 ⟨3001, "::1", 8080⟩ (by decide)⟩

example : parse "3001:192.168.1.1:80" = some ⟨3001, "192.168.1.1", 80⟩ := by decide
example : parse "3001:[::1]:8080" = some ⟨3001, "::1", 8080⟩ := by decide
example : parse "3001:host" = none := by decide

end Target

end Newt
