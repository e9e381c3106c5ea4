import Newt.Config.Sources
import Newt.Core.Target
import Newt.Foundation.Loop

/-! # Forwards and targets

A forward of the client is written like a target of the site, `listen:host:port`,
but only the parser of targets takes the brackets of an IPv6 literal off. The
userspace backend then refuses the host with its brackets as an address.
-/

namespace Newt.Config

open Text Olm Foundation

theorem parseForward_eq_ok_iff {spec : List Char} {f : Forward} :
    parseForward spec = .ok f ↔
      ∃ listen port, spec = listen ++ ':' :: (f.destHost.toList ++ ':' :: port) ∧
        IsNumeral listen f.listenPort ∧ IsNumeral port f.destPort := by
  constructor
  · intro hparse
    simp only [parseForward] at hparse
    split at hparse
    · cases hparse
    · next listen rest hsplit =>
        split at hparse
        · cases hparse
        · next host port hrest =>
            split at hparse
            · cases hparse
            · next listenPort hlisten =>
                split at hparse
                · cases hparse
                · next destPort hport =>
                    cases hparse
                    obtain ⟨hspec, -⟩ := splitOnce_eq_some_iff.mp hsplit
                    obtain ⟨hrest, -⟩ := rsplitOnce_eq_some_iff.mp hrest
                    refine ⟨listen, port, ?_, parseU16_eq_some_iff.mp hlisten,
                      parseU16_eq_some_iff.mp hport⟩
                    rw [hspec, hrest, String.toList_ofList]
  · rintro ⟨listen, port, hspec, hlisten, hport⟩
    have hsplit := splitOnce_eq_some_iff.mpr
      ⟨hspec, hlisten.not_mem (c := ':') (by decide) (by decide)⟩
    have hrest : rsplitOnce ':' (f.destHost.toList ++ ':' :: port) =
        some (f.destHost.toList, port) :=
      rsplitOnce_eq_some_iff.mpr ⟨rfl, hport.not_mem (by decide) (by decide)⟩
    simp only [parseForward, hsplit, hrest, parseU16_eq_some_iff.mpr hlisten,
      parseU16_eq_some_iff.mpr hport, String.ofList_toList]

/-- The listening port, the host and the port of a forward. -/
def target (f : Forward) : Target := ⟨f.listenPort, f.destHost, f.destPort⟩

/-- A specification of the form `listen:host:port` with numerals of `u16`. -/
def WellFormed (spec : List Char) : Prop :=
  ∃ listen host port l d, spec = listen ++ ':' :: (host ++ ':' :: port) ∧ IsNumeral listen l ∧
    IsNumeral port d

/-- A specification with a bracket right after its first colon. -/
def Bracketed (spec : List Char) : Prop :=
  ∃ listen rest, spec = listen ++ ':' :: '[' :: rest ∧ ':' ∉ listen

theorem bracketed_iff (spec : List Char) :
    Bracketed spec ↔ (splitOnce ':' spec).any (fun parts => parts.2.head? = some '[') = true := by
  constructor
  · rintro ⟨listen, rest, hspec, hcolon⟩
    rw [splitOnce_eq_some_iff.mpr ⟨hspec, hcolon⟩]
    rfl
  · intro hany
    cases hsplit : splitOnce ':' spec with
    | none => simp [hsplit] at hany
    | some parts =>
        obtain ⟨listen, rest⟩ := parts
        obtain ⟨behind, rfl⟩ : ∃ behind, rest = '[' :: behind := by
          simpa [hsplit, List.head?_eq_some_iff] using hany
        exact ⟨listen, behind, splitOnce_eq_some_iff.mp hsplit⟩

instance (spec : List Char) : Decidable (Bracketed spec) :=
  decidable_of_iff _ (bracketed_iff spec).symm

theorem wellFormed_iff (spec : List Char) :
    WellFormed spec ↔ ∃ f, parseForward spec = .ok f := by
  constructor
  · rintro ⟨listen, host, port, l, d, hspec, hlisten, hport⟩
    refine ⟨⟨l, String.ofList host, d⟩, parseForward_eq_ok_iff.mpr ?_⟩
    refine ⟨listen, port, ?_, hlisten, hport⟩
    rw [hspec, String.toList_ofList]
  · rintro ⟨f, hparse⟩
    obtain ⟨listen, port, hspec, hlisten, hport⟩ := parseForward_eq_ok_iff.mp hparse
    exact ⟨listen, _, port, _, _, hspec, hlisten, hport⟩

/-- The text before and after the first colon is determined. -/
theorem append_colon_inj {a b c d : List Char} (h : a ++ ':' :: b = c ++ ':' :: d)
    (ha : ':' ∉ a) (hc : ':' ∉ c) : a = c ∧ b = d := by
  have hfirst : splitOnce ':' (a ++ ':' :: b) = some (a, b) := splitOnce_eq_some_iff.mpr ⟨rfl, ha⟩
  have hsecond : splitOnce ':' (a ++ ':' :: b) = some (c, d) := splitOnce_eq_some_iff.mpr ⟨h, hc⟩
  exact Prod.mk.inj (Option.some.inj (hfirst.symm.trans hsecond))

/-- The text before and after the last colon is determined. -/
theorem append_last_colon_inj {a b c d : List Char} (h : a ++ ':' :: b = c ++ ':' :: d)
    (hb : ':' ∉ b) (hd : ':' ∉ d) : a = c ∧ b = d := by
  have hfirst : rsplitOnce ':' (a ++ ':' :: b) = some (a, b) :=
    rsplitOnce_eq_some_iff.mpr ⟨rfl, hb⟩
  have hsecond : rsplitOnce ':' (a ++ ':' :: b) = some (c, d) := rsplitOnce_eq_some_iff.mpr ⟨h, hd⟩
  exact Prod.mk.inj (Option.some.inj (hfirst.symm.trans hsecond))

/-- Whatever the parser of targets accepts is a forward. -/
theorem wellFormed_of_target {spec : String} {t : Target} (hparse : Target.parse spec = some t) :
    WellFormed spec.toList := by
  obtain ⟨listen, rest, port, hspec, -, hlisten, hport, ⟨rfl, -⟩ | ⟨-, rfl, -⟩⟩ :=
    (Target.parse_eq_some_iff_grammar spec t).mp hparse
  · refine ⟨listen, '[' :: (t.host.toList ++ [']']), port, _, _, ?_, hlisten, hport⟩
    simpa using hspec
  · exact ⟨listen, _, port, _, _, hspec, hlisten, hport⟩

/-- Without a bracket after the first colon the parsers do the same. -/
theorem parse_target_iff {spec : String} (hplain : ¬Bracketed spec.toList) (f : Forward) :
    Target.parse spec = some (target f) ↔ parseForward spec.toList = .ok f := by
  rw [Target.parse_eq_some_iff_grammar, parseForward_eq_ok_iff]
  constructor
  · rintro ⟨listen, rest, port, hspec, hcolon, hlisten, hport, ⟨rfl, -⟩ | ⟨-, rfl, -⟩⟩
    · exact absurd ⟨listen, _, hspec, hcolon⟩ hplain
    · exact ⟨listen, port, hspec, hlisten, hport⟩
  · rintro ⟨listen, port, hspec, hlisten, hport⟩
    have hcolon : ':' ∉ listen := hlisten.not_mem (by decide) (by decide)
    refine ⟨listen, _, port, hspec, hcolon, hlisten, hport, .inr ⟨?_, rfl, ?_⟩⟩
    · intro hhead
      obtain ⟨rest, hrest⟩ := List.head?_eq_some_iff.mp hhead
      rw [hrest] at hspec
      exact hplain ⟨listen, rest, hspec, hcolon⟩
    · exact hport.not_mem (by decide) (by decide)

/-- The forward keeps the brackets that the target loses. -/
theorem parse_ne_of_bracketed {spec : String} {f : Forward} (hbracketed : Bracketed spec.toList)
    (hforward : parseForward spec.toList = .ok f) : Target.parse spec ≠ some (target f) := by
  rw [ne_eq, Target.parse_eq_some_iff_grammar]
  rintro ⟨listen, rest, port, hspec, hcolon, hlisten, hport, hrest⟩
  obtain ⟨first, behind, hopen, hfirst⟩ := hbracketed
  obtain ⟨-, hbehind⟩ := append_colon_inj (hspec.symm.trans hopen) hcolon hfirst
  obtain ⟨hrest, -⟩ | ⟨hhead, -⟩ := hrest
  · obtain ⟨listen', port', hspec', hlisten', hport'⟩ := parseForward_eq_ok_iff.mp hforward
    obtain ⟨-, hhost⟩ := append_colon_inj (hspec.symm.trans hspec') hcolon
      (hlisten'.not_mem (by decide) (by decide))
    have hparts : ('[' :: (f.destHost.toList ++ [']'])) ++ ':' :: port =
        f.destHost.toList ++ ':' :: port' := by
      rw [← hhost, hrest]
      simp [target]
    obtain ⟨hsame, -⟩ := append_last_colon_inj hparts (hport.not_mem (by decide) (by decide))
      (hport'.not_mem (by decide) (by decide))
    have hlength := congrArg List.length hsame
    simp at hlength
    omega
  · rw [hbehind] at hhead
    exact hhead rfl

/-! ## Lists of specifications -/

/-- A specification as it stands between the commas. -/
structure IsSpec (spec : String) : Prop where
  nonempty : spec ≠ ""
  comma : ',' ∉ spec.toList
  trimmed : trim spec.toList = spec.toList

theorem parseForwards_intercalate {specs : List String} (hspecs : ∀ spec ∈ specs, IsSpec spec) :
    parseForwards (",".intercalate specs) = specs.mapM fun spec => parseForward spec.toList := by
  have htrim : (specs.map String.toList).map trim = specs.map String.toList := by
    rw [List.map_map]
    exact List.map_congr_left fun spec hspec => (hspecs spec hspec).trimmed
  have hpieces : ((split ',' (",".intercalate specs).toList).map trim).filter (· ≠ []) =
      specs.map String.toList := by
    rw [String.toList_intercalate]
    by_cases hnil : specs = []
    · subst hnil
      rfl
    · rw [show ",".toList = [','] from rfl, split_intercalate (by simpa using hnil), htrim,
        List.filter_eq_self]
      · intro piece hpiece
        obtain ⟨spec, hspec, rfl⟩ := List.mem_map.mp hpiece
        simpa using (hspecs spec hspec).nonempty
      · intro piece hpiece
        obtain ⟨spec, hspec, rfl⟩ := List.mem_map.mp hpiece
        exact (hspecs spec hspec).comma
  rw [parseForwards, hpieces, List.mapM_map]
  rfl

/-- The parsers accept the same lists, with the same ports and hosts in the same order. -/
structure ParsersAgree (specs : List String) : Prop where
  accepted : (∃ forwards, parseForwards (",".intercalate specs) = .ok forwards) ↔
    ∀ spec ∈ specs, ∃ t, Target.parse spec = some t
  same : ∀ forwards, parseForwards (",".intercalate specs) = .ok forwards →
    List.Forall₂ (fun spec f => Target.parse spec = some (target f)) specs forwards

theorem exists_of_forall₂ {α β : Type} {r s : α → β → Prop} {l : List α} {m : List β}
    (hr : List.Forall₂ r l m) (hs : List.Forall₂ s l m) {a : α} (ha : a ∈ l) :
    ∃ b, r a b ∧ s a b := by
  induction hr with
  | nil => cases ha
  | cons hhead _ ih =>
      cases hs with
      | cons hhead' htail =>
          rcases List.mem_cons.mp ha with rfl | ha
          · exact ⟨_, hhead, hhead'⟩
          · exact ih htail ha

/-- The parsers agree on a list unless all its specifications are well-formed and one
of them has a bracket right after its first colon. -/
theorem parsersAgree_iff {specs : List String} (hspecs : ∀ spec ∈ specs, IsSpec spec) :
    ParsersAgree specs ↔
      ((∀ spec ∈ specs, WellFormed spec.toList) →
        ∀ spec ∈ specs, ¬Bracketed spec.toList) := by
  have haccepted : (∃ forwards, parseForwards (",".intercalate specs) = .ok forwards) ↔
      ∀ spec ∈ specs, WellFormed spec.toList := by
    simp only [parseForwards_intercalate hspecs, exists_mapM_eq_ok_iff, wellFormed_iff]
  constructor
  · intro hagree hwell spec hspec hbracketed
    obtain ⟨forwards, hforwards⟩ := haccepted.mpr hwell
    have hsame := hagree.same forwards hforwards
    rw [parseForwards_intercalate hspecs, mapM_eq_ok_iff] at hforwards
    obtain ⟨f, hforward, htarget⟩ := exists_of_forall₂ hforwards hsame hspec
    exact parse_ne_of_bracketed hbracketed hforward htarget
  · intro hplain
    refine ⟨?_, ?_⟩
    · rw [haccepted]
      constructor
      · intro hwell spec hspec
        obtain ⟨f, hforward⟩ := (wellFormed_iff _).mp (hwell spec hspec)
        exact ⟨_, (parse_target_iff (hplain hwell spec hspec) f).mpr hforward⟩
      · intro htargets spec hspec
        obtain ⟨t, htarget⟩ := htargets spec hspec
        exact wellFormed_of_target htarget
    · intro forwards hforwards
      have hwell := haccepted.mp ⟨forwards, hforwards⟩
      rw [parseForwards_intercalate hspecs, mapM_eq_ok_iff, List.forall₂_iff_zip] at hforwards
      refine List.forall₂_iff_zip.mpr ⟨hforwards.1, ?_⟩
      intro spec f hpair
      have hspec := (List.of_mem_zip hpair).1
      exact (parse_target_iff (hplain hwell spec hspec) f).mpr (hforwards.2 hpair)

theorem parsersAgree_two_hosts :
    (∀ spec ∈ ["8080:10.0.0.5:80", "9090:host:443"], IsSpec spec) ∧
      ParsersAgree ["8080:10.0.0.5:80", "9090:host:443"] := by
  have hspecs : ∀ spec ∈ ["8080:10.0.0.5:80", "9090:host:443"], IsSpec spec := by
    simp only [List.forall_mem_cons]
    exact ⟨⟨by decide, by decide, by decide⟩, ⟨by decide, by decide, by decide⟩, by simp⟩
  exact ⟨hspecs, (parsersAgree_iff hspecs).mpr fun _ => by decide⟩

/-- The IPv6 loopback address with brackets is a host of a target. As a forward it
keeps the brackets, and the backend refuses it. -/
theorem bracketed_forward_disagrees :
    IsSpec "3001:[::1]:8080" ∧ ¬ParsersAgree ["3001:[::1]:8080"] ∧
      Target.parse "3001:[::1]:8080" = some ⟨3001, "::1", 8080⟩ ∧
      parseForwards "3001:[::1]:8080" = .ok [⟨3001, "[::1]", 8080⟩] ∧
      UserspaceBackend.new (fun _ => .ok ()) [⟨3001, "[::1]", 8080⟩] =
        (.error "forward dest must be an IP address: [::1]" :
          Except IoError (UserspaceBackend Unit)) := by
  have hforwards : parseForwards (",".intercalate ["3001:[::1]:8080"]) =
      .ok [⟨3001, "[::1]", 8080⟩] := by decide
  refine ⟨⟨by decide, by decide, by decide⟩, ?_, by decide, by decide, rfl⟩
  intro hagree
  have hsame := hagree.same _ hforwards
  rw [List.forall₂_cons] at hsame
  exact absurd hsame.1 (by decide)

end Newt.Config
