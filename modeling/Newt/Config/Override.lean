import Newt.Config.Sources
import Newt.Foundation.Loop
import Newt.Foundation.Writes

/-! # Flags and the environment

The fields of the accumulator are written one by one, first from the environment
and then from the flags, so the last flag of an option decides. But a variable
whose value is refused stops the program before it looks at any flag.
-/

namespace Newt.Config

open Foundation

/-- The field that a setting belongs to. -/
def Setting.field : Setting → Field
  | .endpoint _ => .option .endpoint
  | .mtu _ => .option .mtu
  | .logLevel _ => .option .logLevel
  | .skipTlsVerify _ => .skipTlsVerify
  | .udpIdleTimeout _ => .udpIdleTimeout
  | .newtId _ => .option .id
  | .newtSecret _ => .option .secret
  | .olmId _ => .option .olmId
  | .olmSecret _ => .option .olmSecret
  | .userToken _ => .option .olmUserToken
  | .orgId _ => .option .orgId
  | .access _ => .option .olmAccess
  | .interface _ => .option .olmInterface
  | .forwards _ => .option .olmForwards
  | .socksPort _ => .option .olmSocksPort

theorem lastWins : LastWins Raw.put Setting.field where
  replace r a b h := by
    cases a <;> cases b <;> cases h <;> rfl
  comm r a b h := by
    cases a <;> cases b <;> first | rfl | exact absurd rfl h

/-- The accumulators differ at most in the field of an option. -/
abbrev SameButOption (o : Opt) : Raw → Raw → Prop := SameBut Raw.put Setting.field (.option o)

/-! ## Variables -/

/-- The variables of a field. -/
def Field.variables : Field → List String
  | .option .endpoint => ["PANGOLIN_ENDPOINT"]
  | .option .mtu => ["MTU"]
  | .option .logLevel => ["LOG_LEVEL"]
  | .skipTlsVerify => ["SKIP_TLS_VERIFY"]
  | .udpIdleTimeout => ["NEWT_UDP_PROXY_IDLE_TIMEOUT"]
  | .option .id => ["NEWT_ID"]
  | .option .secret => ["NEWT_SECRET"]
  | .option .olmId => ["OLM_ID"]
  | .option .olmSecret => ["OLM_SECRET"]
  | .option .olmUserToken => ["OLM_USER_TOKEN"]
  | .option .orgId => ["PANGOLIN_ORG_ID", "ORG_ID"]
  | .option .olmAccess => ["OLM_ACCESS_MODE"]
  | .option .olmInterface => ["OLM_INTERFACE"]
  | .option .olmForwards => ["OLM_FORWARDS"]
  | .option .olmSocksPort => ["OLM_SOCKS_PORT"]

/-- The environment with the variables of one option taken from another. -/
def Env.set (env : Env) (o : Opt) (x : Env) : Env := fun name =>
  if name ∈ (Field.option o).variables then x name else env name

/-- Why the environment refuses to set an option, if it does. -/
def refusal (platform : Platform) (o : Opt) (x : Env) : Option String :=
  match (Field.option o).fromEnv platform x with
  | some (.error e) => some e
  | _ => none

variable (platform : Platform)

/-- A field is read from its own variables. -/
theorem fromEnv_congr {f : Field} {x y : Env} (h : ∀ name ∈ f.variables, x name = y name) :
    f.fromEnv platform x = f.fromEnv platform y := by
  cases f with
  | option o => cases o <;> simp_all [Field.variables, Field.fromEnv]
  | skipTlsVerify => simp_all [Field.variables, Field.fromEnv]
  | udpIdleTimeout => simp_all [Field.variables, Field.fromEnv]

theorem orError_eq_ok_iff {parsed : Option Setting} {message : String} {setting : Setting} :
    orError parsed message = .ok setting ↔ parsed = some setting := by
  cases parsed <;> simp [orError]

/-- An option that is given sets its own field. -/
theorem fromArg_field {o : Opt} {v : String} {setting : Setting}
    (h : o.fromArg platform v = .ok setting) : setting.field = .option o := by
  cases o <;>
    simp only [Opt.fromArg, orError_eq_ok_iff, Option.map_eq_some_iff, map_eq_ok_iff,
      Except.ok.injEq] at h <;>
    first
    | (subst h; rfl)
    | (obtain ⟨_, _, rfl⟩ := h; rfl)

theorem fromEnv_field {f : Field} {x : Env} {setting : Setting}
    (h : f.fromEnv platform x = some (.ok setting)) : setting.field = f := by
  cases f with
  | skipTlsVerify =>
      simp only [Field.fromEnv, Option.map_eq_some_iff, Except.ok.injEq] at h
      obtain ⟨_, _, rfl⟩ := h
      rfl
  | udpIdleTimeout =>
      simp only [Field.fromEnv, Option.map_eq_some_iff, map_eq_ok_iff] at h
      obtain ⟨_, _, _, _, rfl⟩ := h
      rfl
  | option o =>
      cases o <;>
        simp only [Field.fromEnv, orError_eq_ok_iff, Option.map_eq_some_iff, map_eq_ok_iff,
          Except.ok.injEq] at h <;>
        first
        | (obtain ⟨_, _, rfl⟩ := h; rfl)
        | (obtain ⟨_, _, _, _, rfl⟩ := h; rfl)

/-- The field that a variable belongs to. -/
def Field.ofVariable : String → Option Field
  | "PANGOLIN_ENDPOINT" => some (.option .endpoint)
  | "MTU" => some (.option .mtu)
  | "LOG_LEVEL" => some (.option .logLevel)
  | "SKIP_TLS_VERIFY" => some .skipTlsVerify
  | "NEWT_UDP_PROXY_IDLE_TIMEOUT" => some .udpIdleTimeout
  | "NEWT_ID" => some (.option .id)
  | "NEWT_SECRET" => some (.option .secret)
  | "OLM_ID" => some (.option .olmId)
  | "OLM_SECRET" => some (.option .olmSecret)
  | "OLM_USER_TOKEN" => some (.option .olmUserToken)
  | "PANGOLIN_ORG_ID" | "ORG_ID" => some (.option .orgId)
  | "OLM_ACCESS_MODE" => some (.option .olmAccess)
  | "OLM_INTERFACE" => some (.option .olmInterface)
  | "OLM_FORWARDS" => some (.option .olmForwards)
  | "OLM_SOCKS_PORT" => some (.option .olmSocksPort)
  | _ => none

theorem ofVariable_eq_some {f : Field} : ∀ name ∈ f.variables, Field.ofVariable name = some f := by
  cases f with
  | option o => cases o <;> decide
  | skipTlsVerify => decide
  | udpIdleTimeout => decide

/-- No variable belongs to two fields. -/
theorem eq_of_mem_variables {f g : Field} {name : String} (hf : name ∈ f.variables)
    (hg : name ∈ g.variables) : f = g :=
  Option.some.inj ((ofVariable_eq_some name hf).symm.trans (ofVariable_eq_some name hg))

theorem fromEnv_set_of_ne {f : Field} {o : Opt} (hne : f ≠ .option o) (env x : Env) :
    f.fromEnv platform (env.set o x) = f.fromEnv platform env := by
  apply fromEnv_congr
  intro name hname
  rw [Env.set, if_neg]
  exact fun hmem => hne (eq_of_mem_variables hname hmem)

theorem fromEnv_set_self (o : Opt) (env x : Env) :
    (Field.option o).fromEnv platform (env.set o x) = (Field.option o).fromEnv platform x := by
  apply fromEnv_congr
  intro name hname
  rw [Env.set, if_pos hname]

/-- The variables of an option change its field at most, unless they are refused. -/
theorem readField_own (o : Opt) (env x : Env) (r : Raw) :
    (∃ e, refusal platform o x = some e ∧
        readField platform (env.set o x) r (.option o) = .error e) ∨
      refusal platform o x = none ∧
        ∃ s, readField platform (env.set o x) r (.option o) = .ok s ∧ SameButOption o s r := by
  simp only [readField, refusal, fromEnv_set_self]
  cases hx : (Field.option o).fromEnv platform x with
  | none => exact .inr ⟨rfl, r, rfl, SameBut.refl⟩
  | some parsed =>
      cases parsed with
      | error e => exact .inl ⟨e, rfl, rfl⟩
      | ok setting =>
          exact .inr ⟨rfl, _, rfl, lastWins.sameBut_put (fromEnv_field platform hx)⟩

/-- Environments that refuse the option in the same way leave accumulators that differ
in its field only, or fail alike. -/
theorem readField_alike {o : Opt} {env x y : Env}
    (hrefusal : refusal platform o x = refusal platform o y) (f : Field) {r s : Raw}
    (h : SameButOption o r s) :
    Alike (SameButOption o) (readField platform (env.set o x) r f)
      (readField platform (env.set o y) s f) := by
  by_cases hf : f = .option o
  · subst hf
    rcases readField_own platform o env x r with ⟨e, hx, hread⟩ | ⟨hx, r', hread, hr⟩
    · rcases readField_own platform o env y s with ⟨e', hy, hread'⟩ | ⟨hy, -⟩
      · obtain rfl : e = e' := Option.some.inj (hx.symm.trans (hrefusal.trans hy))
        rw [hread, hread']
        exact .error e
      · rw [hx, hy] at hrefusal
        cases hrefusal
    · rcases readField_own platform o env y s with ⟨e', hy, -⟩ | ⟨-, s', hread', hs⟩
      · rw [hx, hy] at hrefusal
        cases hrefusal
      · rw [hread, hread']
        exact .ok ((hr.trans h).trans hs.symm)
  · simp only [readField]
    rw [fromEnv_set_of_ne platform hf, fromEnv_set_of_ne platform hf]
    split
    · exact .ok h
    · exact .ok (lastWins.sameBut_put_put h _)
    · exact .error _

/-- The variables of the option are unset or hold a value that it takes. Most options
take any text. -/
def Accepted (x : Env) : Opt → Prop
  | .mtu => ∀ v ∈ x "MTU", ∃ mtu, parseUsize platform v = some mtu
  | .olmAccess => ∀ v ∈ x "OLM_ACCESS_MODE", ∃ access, parseAccess v = .ok access
  | .olmForwards => ∀ v ∈ x "OLM_FORWARDS", ∃ forwards, parseForwards v = .ok forwards
  | .olmSocksPort => ∀ v ∈ x "OLM_SOCKS_PORT", ∃ port, Text.parseU16 v.toList = some port
  | _ => True

theorem refusal_eq_none_iff (o : Opt) (x : Env) :
    refusal platform o x = none ↔ Accepted platform x o := by
  have hrefusal : refusal platform o x = none ↔
      ∀ parsed, (Field.option o).fromEnv platform x = some parsed →
        ∃ setting, parsed = .ok setting := by
    rw [refusal]
    cases (Field.option o).fromEnv platform x with
    | none => simp
    | some parsed => cases parsed <;> simp
  rw [hrefusal]
  cases o <;> simp [Field.fromEnv, Accepted, orError_eq_ok_iff, map_eq_ok_iff]

/-! ## Flags -/

/-- The options that are given, in their order, with their values. The last one may
lack its value. -/
def occurrences : List String → List (Opt × Option String)
  | [] => []
  | a :: rest =>
      match Flag.ofText a with
      | some (.value o) =>
          match rest with
          | [] => [(o, none)]
          | v :: rest => (o, some v) :: occurrences rest
      | _ => occurrences rest

def Given (o : Opt) (args : List String) : Prop := o ∈ (occurrences args).map Prod.fst

instance (o : Opt) (args : List String) : Decidable (Given o args) :=
  inferInstanceAs (Decidable (o ∈ _))

/-- The value of the last occurrence of an option. -/
def lastValue (o : Opt) (args : List String) : Option String :=
  ((occurrences args).filter (·.1 = o)).getLast?.bind Prod.snd

section LastValue

variable {o other : Opt} {a v w : String} {rest : List String}

theorem occurrences_value (hflag : Flag.ofText a = some (.value other)) :
    occurrences (a :: v :: rest) = (other, some v) :: occurrences rest := by
  simp only [occurrences, hflag]

theorem given_value_iff (hflag : Flag.ofText a = some (.value other)) :
    Given o (a :: v :: rest) ↔ o = other ∨ Given o rest := by
  simp only [Given, occurrences_value hflag, List.map_cons, List.mem_cons]

theorem lastValue_of_ne (hflag : Flag.ofText a = some (.value other)) (hne : other ≠ o) :
    lastValue o (a :: v :: rest) = lastValue o rest := by
  simp [lastValue, occurrences_value hflag, hne]

theorem lastValue_of_later (hflag : Flag.ofText a = some (.value o))
    (hlater : lastValue o rest = some w) : lastValue o (a :: v :: rest) = some w := by
  obtain ⟨pair, hpair, hw⟩ := Option.bind_eq_some_iff.mp hlater
  simp [lastValue, occurrences_value hflag, List.getLast?_cons, hpair, hw]

theorem lastValue_of_not_later (hflag : Flag.ofText a = some (.value o))
    (hnot : ¬Given o rest) : lastValue o (a :: v :: rest) = some v := by
  have hfilter : (occurrences rest).filter (·.1 = o) = [] := by
    rw [List.filter_eq_nil_iff]
    intro pair hmem heq
    exact hnot (List.mem_map.mpr ⟨pair, hmem, of_decide_eq_true heq⟩)
  simp [lastValue, occurrences_value hflag, hfilter]

end LastValue

/-- An option that is given makes accumulators equal that differ in its field only. -/
theorem readArgs_eq_of_given {o : Opt} {args : List String} (hgiven : Given o args) {r s : Raw}
    (h : SameButOption o r s) : readArgs platform args r = readArgs platform args s := by
  fun_induction readArgs platform args r generalizing s with
  | case1 r => cases hgiven
  | case2 a rest r hflag => simp only [readArgs, hflag]
  | case3 a rest r hflag ih =>
      simp only [Given, occurrences, hflag] at hgiven
      simp only [readArgs, hflag]
      exact ih hgiven (lastWins.sameBut_put_put h _)
  | case4 a r other hflag => simp only [readArgs, hflag]
  | case5 a r other hflag v rest e hvalue => simp only [readArgs, hflag, hvalue]
  | case6 a r other hflag v rest setting hvalue ih =>
      simp only [readArgs, hflag, hvalue]
      by_cases hother : other = o
      · -- this occurrence makes them equal
        subst hother
        rw [h setting (fromArg_field platform hvalue)]
      · have hlater := ((given_value_iff hflag).mp hgiven).resolve_left (Ne.symm hother)
        exact ih hlater (lastWins.sameBut_put_put h _)

/-- After the flags the accumulator holds the last value of an option that is given,
and keeps what it held of one that is not. -/
theorem readArgs_holds {o : Opt} {args : List String} {r last : Raw}
    (hread : readArgs platform args r = .ok last) :
    (Given o args → ∃ v setting, lastValue o args = some v ∧
      o.fromArg platform v = .ok setting ∧ Holds Raw.put last setting) ∧
    (¬Given o args → ∀ setting, setting.field = .option o → Holds Raw.put r setting →
      Holds Raw.put last setting) := by
  fun_induction readArgs platform args r with
  | case1 r =>
      cases hread
      refine ⟨?_, fun _ _ _ hholds => hholds⟩
      intro hgiven
      cases hgiven
  | case2 a rest r hflag => cases hread
  | case3 a rest r hflag ih =>
      obtain ⟨hgiven, hkept⟩ := ih hread
      simp only [Given, lastValue, occurrences, hflag]
      refine ⟨hgiven, ?_⟩
      intro hnot setting hfield hholds
      refine hkept hnot setting hfield (lastWins.holds_put_of_ne hholds ?_)
      rw [hfield]
      exact Field.noConfusion
  | case4 a r other hflag => cases hread
  | case5 a r other hflag v rest e hvalue => cases hread
  | case6 a r other hflag v rest setting hvalue ih =>
      obtain ⟨hgiven, hkept⟩ := ih hread
      have hfield := fromArg_field platform hvalue
      rw [given_value_iff hflag]
      by_cases hother : other = o
      · subst hother
        refine ⟨fun _ => ?_, fun hnot => absurd (.inl rfl) hnot⟩
        by_cases hlater : Given other rest
        · obtain ⟨w, later, hlast, hlater⟩ := hgiven hlater
          exact ⟨w, later, lastValue_of_later hflag hlast, hlater⟩
        · exact ⟨v, setting, lastValue_of_not_later hflag hlater, hvalue,
            hkept hlater setting hfield lastWins.holds_put⟩
      · rw [lastValue_of_ne hflag hother]
        refine ⟨fun h => hgiven (h.resolve_left (Ne.symm hother)), ?_⟩
        intro hnot held hheld hholds
        refine hkept (fun h => hnot (.inr h)) held hheld (lastWins.holds_put_of_ne hholds ?_)
        rw [hfield, hheld]
        exact fun heq => hother (Field.option.inj heq)

/-! ## The configuration -/

/-- The configuration has the value of a setting wherever it belongs. -/
def Shows (c : Config) : Setting → Prop
  | .endpoint v => (∀ s ∈ c.site, s.endpoint = v) ∧ ∀ l ∈ c.client, l.endpoint = v
  | .mtu v => (∀ s ∈ c.site, s.mtu = v) ∧ ∀ l ∈ c.client, l.mtu = v
  | .logLevel v => c.logLevel = v
  | .skipTlsVerify v =>
      (∀ s ∈ c.site, s.skipTlsVerify = v) ∧ ∀ l ∈ c.client, l.skipTlsVerify = v
  | .udpIdleTimeout v => ∀ s ∈ c.site, s.udpIdleTimeout = v
  | .newtId v => ∀ s ∈ c.site, s.id = v
  | .newtSecret v => ∀ s ∈ c.site, s.secret = v
  | .olmId v => ∀ l ∈ c.client, l.id = v
  | .olmSecret v => ∀ l ∈ c.client, l.secret = v
  | .userToken v => ∀ l ∈ c.client, l.userToken = v
  | .orgId v => ∀ l ∈ c.client, l.orgId = v
  | .access v => ∀ l ∈ c.client, l.access = v
  | .interface v => ∀ l ∈ c.client, l.interface = v
  | .forwards v => ∀ l ∈ c.client, l.forwards = v
  | .socksPort v => ∀ l ∈ c.client, l.socksPort = some v

theorem mem_site {r : Raw} {s : SiteRun} (h : s ∈ r.site) :
    s = ⟨r.endpoint, r.newtId, r.newtSecret, r.mtu, r.skipTlsVerify, r.udpIdleTimeout⟩ := by
  simp only [Raw.site] at h
  split_ifs at h
  · exact (Option.some.inj h).symm
  · cases h

theorem mem_client {r : Raw} {l : ClientRun} (h : l ∈ r.client) :
    l = ⟨⟨r.access, r.interface, r.forwards, r.socksPort⟩, r.endpoint, r.olmId, r.olmSecret,
      r.userToken, r.orgId, r.mtu, r.skipTlsVerify⟩ := by
  simp only [Raw.client] at h
  split_ifs at h
  · exact (Option.some.inj h).symm
  · cases h

theorem shows_of_holds {r : Raw} {c : Config} (hconfig : r.config = .ok c) {setting : Setting}
    (hholds : Holds Raw.put r setting) : c.Shows setting := by
  simp only [Raw.config] at hconfig
  split_ifs at hconfig
  cases hconfig
  rw [← hholds]
  cases setting <;>
    first
    | rfl
    | (intro _ hrun; obtain rfl := mem_site hrun; rfl)
    | (intro _ hrun; obtain rfl := mem_client hrun; rfl)
    | (constructor
       · intro _ hrun
         obtain rfl := mem_site hrun
         rfl
       · intro _ hrun
         obtain rfl := mem_client hrun
         rfl)

/-! ## Refused variables -/

/-- An environment that sets no variable. -/
def Env.empty : Env := fun _ => none

theorem fromEnv_empty (f : Field) : f.fromEnv platform Env.empty = none := by
  cases f with
  | option o => cases o <;> rfl
  | skipTlsVerify => rfl
  | udpIdleTimeout => rfl

theorem readField_empty_of_ne {f : Field} {o : Opt} (hne : f ≠ .option o) (x : Env) (r : Raw) :
    readField platform (Env.empty.set o x) r f = .ok r := by
  simp only [readField, fromEnv_set_of_ne platform hne, fromEnv_empty]

theorem readEnv_refused {o : Opt} {x : Env} {e : String} (hrefusal : refusal platform o x = some e)
    (r : Raw) : readEnv platform (Env.empty.set o x) r = .error e := by
  have hfields (fields : List Field) (hmem : .option o ∈ fields) :
      fields.foldlM (readField platform (Env.empty.set o x)) r = .error e := by
    induction fields with
    | nil => cases hmem
    | cons f fields ih =>
        rw [List.foldlM_cons]
        by_cases hf : f = .option o
        · subst hf
          obtain ⟨e', he, hread⟩ | ⟨hnone, -⟩ := readField_own platform o Env.empty x r
          · rw [hread, Option.some.inj (hrefusal.symm.trans he)]
            rfl
          · rw [hrefusal] at hnone
            cases hnone
        · rw [readField_empty_of_ne platform hf]
          exact ih ((List.mem_cons.mp hmem).resolve_left (Ne.symm hf))
  exact hfields Field.order (by cases o <;> decide)

theorem readEnv_accepted {o : Opt} {x : Env} (hrefusal : refusal platform o x = none) (r : Raw) :
    ∃ s, readEnv platform (Env.empty.set o x) r = .ok s := by
  have hbody (f : Field) (r : Raw) :
      ∃ s, readField platform (Env.empty.set o x) r f = .ok s := by
    by_cases hf : f = .option o
    · subst hf
      obtain ⟨e, he, -⟩ | ⟨-, s, hread, -⟩ := readField_own platform o Env.empty x r
      · rw [hrefusal] at he
        cases he
      · exact ⟨s, hread⟩
    · exact ⟨r, readField_empty_of_ne platform hf x r⟩
  obtain ⟨s, hread, -⟩ := foldlM_total (fun _ _ => True)
    (fun f _ r _ => (hbody f r).imp fun _ hread => ⟨hread, trivial⟩) (l := Field.order) (b := r)
    trivial
  exact ⟨s, hread⟩

/-- Flags for a site with an endpoint and credentials. -/
def siteArgs : List String := ["--endpoint", "e", "--id", "i", "--secret", "s"]

/-- An option with a value that it accepts. -/
def Opt.sample : Opt → List String
  | .endpoint => ["--endpoint", "e"]
  | .id => ["--id", "i"]
  | .secret => ["--secret", "s"]
  | .mtu => ["--mtu", "0"]
  | .logLevel => ["--log-level", "INFO"]
  | .olmId => ["--olm-id", "o"]
  | .olmSecret => ["--olm-secret", "os"]
  | .olmUserToken => ["--olm-user-token", "t"]
  | .orgId => ["--org-id", "org"]
  | .olmAccess => ["--olm-access", "kernel"]
  | .olmInterface => ["--olm-interface", "olm"]
  | .olmForwards => ["--olm-forwards", ""]
  | .olmSocksPort => ["--olm-socks-port", "0"]

theorem given_sample (o : Opt) : Given o (siteArgs ++ o.sample) := by
  cases o <;> decide

theorem config_sample (o : Opt) (r : Raw) :
    ∃ c, (readArgs platform (siteArgs ++ o.sample) r >>= Raw.config) = .ok c := by
  cases o <;> exact ⟨_, rfl⟩

/-- The run with flags that are fine apart from the variables of the option. -/
theorem fromSources_sample (o : Opt) (x : Env) :
    (∃ e, refusal platform o x = some e ∧
        fromSources platform (Env.empty.set o x) (siteArgs ++ o.sample) = .error e) ∨
      refusal platform o x = none ∧
        ∃ c, fromSources platform (Env.empty.set o x) (siteArgs ++ o.sample) = .ok c := by
  cases hrefusal : refusal platform o x with
  | some e =>
      refine .inl ⟨e, rfl, ?_⟩
      rw [fromSources, readEnv_refused platform hrefusal]
      rfl
  | none =>
      obtain ⟨r, hread⟩ := readEnv_accepted platform hrefusal (Raw.default platform)
      obtain ⟨c, hc⟩ := config_sample platform o r
      refine .inr ⟨rfl, c, ?_⟩
      rw [fromSources, hread]
      exact hc

/-- Whenever the option is given, the configuration does not depend on whether its
variables are those of `x` or of `y`, and it has the last value that is given. -/
structure Overrides (o : Opt) (x y : Env) : Prop where
  same : ∀ (env : Env) (args : List String), Given o args →
    fromSources platform (env.set o x) args = fromSources platform (env.set o y) args
  last : ∀ (env : Env) (args : List String) (c : Config), Given o args →
    fromSources platform (env.set o x) args = .ok c → ∃ v setting, lastValue o args = some v ∧
      o.fromArg platform v = .ok setting ∧ c.Shows setting

theorem refusal_eq_of_overrides {o : Opt} {x y : Env} (hoverrides : Overrides platform o x y) :
    refusal platform o x = refusal platform o y := by
  have hsame := hoverrides.same Env.empty _ (given_sample o)
  obtain ⟨e, hx, hleft⟩ | ⟨hx, c, hleft⟩ := fromSources_sample platform o x <;>
    obtain ⟨e', hy, hright⟩ | ⟨hy, c', hright⟩ := fromSources_sample platform o y
  · rw [hleft, hright] at hsame
    rw [hx, hy, Except.error.inj hsame]
  · rw [hleft, hright] at hsame
    cases hsame
  · rw [hleft, hright] at hsame
    cases hsame
  · rw [hx, hy]

theorem overrides_of_refusal_eq {o : Opt} {x y : Env}
    (hrefusal : refusal platform o x = refusal platform o y) : Overrides platform o x y where
  same env args hgiven := by
    have halike : Alike (SameButOption o)
        (readEnv platform (env.set o x) (Raw.default platform))
        (readEnv platform (env.set o y) (Raw.default platform)) :=
      foldlM_alike (fun f _ r s => readField_alike platform hrefusal f) SameBut.refl
    simp only [fromSources]
    revert halike
    generalize readEnv platform (env.set o x) (Raw.default platform) = left
    generalize readEnv platform (env.set o y) (Raw.default platform) = right
    rintro (e | hsame)
    · rfl
    · exact congrArg (· >>= Raw.config) (readArgs_eq_of_given platform hgiven hsame)
  last env args c hgiven hconfig := by
    simp only [fromSources, bind_eq_ok_iff] at hconfig
    obtain ⟨r, -, last, hread, hconfig⟩ := hconfig
    obtain ⟨v, setting, hlast, hvalue, hholds⟩ := (readArgs_holds platform hread).1 hgiven
    exact ⟨v, setting, hlast, hvalue, shows_of_holds hconfig hholds⟩

/-- A flag overrides the variables of its option as long as the environment holds no
value that the option does not take. -/
theorem overrides_of_accepted {o : Opt} {x y : Env} (hx : Accepted platform x o)
    (hy : Accepted platform y o) : Overrides platform o x y := by
  apply overrides_of_refusal_eq
  rw [(refusal_eq_none_iff platform o x).mpr hx, (refusal_eq_none_iff platform o y).mpr hy]

/-- A flag overrides the variables of its option exactly if both of their values are
accepted, or both are refused in the same words. -/
theorem overrides_iff (o : Opt) (x y : Env) :
    Overrides platform o x y ↔ refusal platform o x = refusal platform o y :=
  ⟨refusal_eq_of_overrides platform, overrides_of_refusal_eq platform⟩

/-- A machine with 64-bit addresses that runs Linux. -/
def linux64 : Platform := ⟨2 ^ 64 - 1, true⟩

/-- An environment with one variable. -/
def Env.only (key value : String) : Env := fun name => if name = key then some value else none

/-- An MTU that is no number stops the program, although a flag gives another. -/
theorem bad_mtu_not_overridden :
    Given .mtu (siteArgs ++ ["--mtu", "1400"]) ∧
      fromSources linux64 (Env.empty.set .mtu (Env.only "MTU" "auto"))
        (siteArgs ++ ["--mtu", "1400"]) = .error "bad MTU" ∧
      fromSources linux64 (Env.empty.set .mtu (Env.only "MTU" "1300"))
        (siteArgs ++ ["--mtu", "1400"]) =
          .ok ⟨"INFO", some ⟨"e", "i", "s", 1400, false, 90⟩, none⟩ := by
  decide

end Newt.Config
