import Mathlib.Data.List.Perm.Basic
import SessionHost.Handshake
import SessionHost.Proofs.Json.Documents

/-!
# What a session file says

A session file is an object of nine members that may be absent or null.  Whatever else it holds,
and however it is written, these members make the handshake: a start with the endpoints of its
services, a refusal with its reason, or what is wrong.

Main definitions:

- `RawHandshake.Given`: what the members of an object say.
- `RawHandshake.Settles`: the handshake that the nine members make.

Main results:

- Theorem `RawHandshake.settles_iff`: the members make one handshake or one fault.
- Theorem `Handshake.ofText_of_nameless`: a member whose name has no text makes the file malformed.
- Theorem `Handshake.file_decoded`: what a session file is decoded to.
-/

namespace SessionHost

open Json (Node)

/-! ## What is given -/

namespace RawHandshake

/-- The members of an object, under their names. -/
abbrev Members := List (Option String × Node)

/-- A name is that of no member or of this one alone. -/
def Sole (name : String) (members : Members) (value : Option Node) : Prop :=
  (members.filter fun m => m.1 = some name).map Prod.snd = value.toList

/-- What a text member says. -/
inductive TextField : Option Node → Option String → Prop where
  | absent : TextField none none
  | null : TextField (some .null) none
  | given (s : String) : TextField (some (.string (some s))) (some s)

/-- What a port member says: digits, without a sign, a fraction or an exponent. -/
inductive PortField : Option Node → Option Nat → Prop where
  | absent : PortField none none
  | null : PortField (some .null) none
  | given {digits : List Nat} (h : Json.digitsBehind 0 digits ≤ 65535) :
      PortField (some (.number ⟨false, digits, [], none⟩)) (some (Json.digitsBehind 0 digits))

/-- The text that the members give for a name. -/
def GivesText (members : Members) (name : String) (s : Option String) : Prop :=
  ∃ value, Sole name members value ∧ TextField value s

/-- The port that the members give for a name. -/
def GivesPort (members : Members) (name : String) (n : Option Nat) : Prop :=
  ∃ value, Sole name members value ∧ PortField value n

/-- What the members of an object say. -/
structure Given (raw : RawHandshake) (members : Members) : Prop where
  status : GivesText members "status" raw.status
  reason : GivesText members "reason" raw.reason
  detail : GivesText members "detail" raw.detail
  runtimeVersion : GivesText members "powerShellVersion" raw.runtimeVersion
  channel : GivesText members "channel" raw.channel
  languagePort : GivesPort members "languageServicePort" raw.languagePort
  debugPort : GivesPort members "debugServicePort" raw.debugPort
  languagePipe : GivesText members "languageServicePipeName" raw.languagePipe
  debugPipe : GivesText members "debugServicePipeName" raw.debugPipe

variable {raw : RawHandshake} {members : Members} {name : String} {value : Option Node}

/-! ## What is made of it -/

/-- Where a service listens: at its pipe unless that is blank, else at its port unless that is
zero. -/
inductive Listens (pipe : Option String) (port : Option Nat) : Option Endpoint → Prop where
  | pipe {name : String} (hpipe : pipe = some name)
      (hblank : ∃ c ∈ name.toList, Text.isBlank c = false) : Listens pipe port (some (.pipe name))
  | tcp {n : Nat} (hpipe : ∀ name ∈ pipe, ∀ c ∈ name.toList, Text.isBlank c = true)
      (hport : port = some n) (hzero : n ≠ 0) : Listens pipe port (some (.tcp n))
  | nowhere (hpipe : ∀ name ∈ pipe, ∀ c ∈ name.toList, Text.isBlank c = true)
      (hport : ∀ n ∈ port, n = 0) : Listens pipe port none

/-- The reason that a name stands for; a name that is not known is kept. -/
inductive Names : Option String → RefusalReason → Prop where
  | absent : Names none (.other "")
  | runtimeVersion : Names (some "powerShellVersion") .runtimeVersion
  | dotNetVersion : Names (some "dotNetVersion") .dotNetVersion
  | languageMode : Names (some "languageMode") .languageMode
  | other {s : String} (h : s ∉ ["powerShellVersion", "dotNetVersion", "languageMode"]) :
      Names (some s) (.other s)

/-- The handshake that the nine members make. -/
inductive Settles (raw : RawHandshake) : Except HandshakeFault Handshake → Prop where
  | started {language : Endpoint} {debug : Option Endpoint} (hstatus : raw.status = some "started")
      (hlanguage : Listens raw.languagePipe raw.languagePort (some language))
      (hdebug : Listens raw.debugPipe raw.debugPort debug) :
      Settles raw (.ok (.started ⟨raw.runtimeVersion.getD "", raw.channel, language, debug⟩))
  | missingEndpoint (hstatus : raw.status = some "started")
      (hlanguage : Listens raw.languagePipe raw.languagePort none) :
      Settles raw (.error .missingEndpoint)
  | refused {reason : RefusalReason} (hstatus : raw.status = some "failed")
      (hreason : Names raw.reason reason) :
      Settles raw (.ok (.refused ⟨reason, raw.detail, raw.runtimeVersion⟩))
  | unknownStatus (hstarted : raw.status ≠ some "started") (hfailed : raw.status ≠ some "failed") :
      Settles raw (.error (.unknownStatus (raw.status.getD "")))

/-- A text is blank if all its characters are. -/
theorem isAllBlank_eq_true_iff {s : String} :
    Text.isAllBlank s = true ↔ ∀ c ∈ s.toList, Text.isBlank c = true := List.all_eq_true

/-- A text is not blank if one of its characters is not. -/
theorem isAllBlank_eq_false_iff {s : String} :
    Text.isAllBlank s = false ↔ ∃ c ∈ s.toList, Text.isBlank c = false := by
  rw [Text.isAllBlank, List.all_eq_false]
  simp only [Bool.not_eq_true]

/-- A blank name is that of no pipe. -/
theorem filter_pipe_eq_none_iff {pipe : Option String} :
    (pipe.filter fun name => !Text.isAllBlank name) = none ↔
      ∀ name ∈ pipe, ∀ c ∈ name.toList, Text.isBlank c = true := by
  rw [Option.filter_eq_none_iff]
  simp only [Bool.not_eq_true', Bool.not_eq_false, isAllBlank_eq_true_iff, Option.mem_def]

/-- A pipe is kept if its name is not blank. -/
theorem filter_pipe_eq_some_iff {pipe : Option String} {name : String} :
    (pipe.filter fun name => !Text.isAllBlank name) = some name ↔
      pipe = some name ∧ ∃ c ∈ name.toList, Text.isBlank c = false := by
  rw [Option.filter_eq_some_iff, Bool.not_eq_true', isAllBlank_eq_false_iff]

/-- The endpoint that is chosen, and no other, is where the service listens. -/
theorem listens_iff {pipe : Option String} {port : Option Nat} {endpoint : Option Endpoint} :
    Listens pipe port endpoint ↔ Endpoint.choose? pipe port = endpoint := by
  constructor
  · intro h
    cases h with
    | pipe hpipe hblank => rw [Endpoint.choose?, filter_pipe_eq_some_iff.2 ⟨hpipe, hblank⟩]
    | tcp hpipe hport hzero =>
      rw [Endpoint.choose?, filter_pipe_eq_none_iff.2 hpipe, hport]
      simp [Option.filter, hzero]
    | nowhere hpipe hport =>
      have hnone : (port.filter fun n => n ≠ 0) = none :=
        Option.filter_eq_none_iff.2 fun n hn => by simp [hport n hn]
      rw [Endpoint.choose?, filter_pipe_eq_none_iff.2 hpipe, hnone]
      rfl
  · rintro rfl
    rw [Endpoint.choose?]
    cases hpipe : pipe.filter fun name => !Text.isAllBlank name with
    | some name =>
      obtain ⟨rfl, hblank⟩ := filter_pipe_eq_some_iff.1 hpipe
      exact .pipe rfl hblank
    | none =>
      rw [filter_pipe_eq_none_iff] at hpipe
      cases hport : port.filter fun n => n ≠ 0 with
      | some n =>
        obtain ⟨rfl, hzero⟩ := Option.filter_eq_some_iff.1 hport
        exact .tcp hpipe rfl (of_decide_eq_true hzero)
      | none =>
        refine .nowhere hpipe fun n hn => ?_
        simpa using Option.filter_eq_none_iff.1 hport n hn

/-- The reason is the one that the text names. -/
theorem names_iff {s : Option String} {reason : RefusalReason} :
    Names s reason ↔ RefusalReason.ofName s = reason := by
  constructor
  · intro h
    cases h with
    | absent | runtimeVersion | dotNetVersion | languageMode => rfl
    | other h =>
      simp only [List.mem_cons, List.not_mem_nil, or_false, not_or] at h
      rw [RefusalReason.ofName, if_neg h.1, if_neg h.2.1, if_neg h.2.2]
  · rintro rfl
    cases s with
    | none => exact .absent
    | some s =>
      simp only [RefusalReason.ofName]
      split
      · subst s
        exact .runtimeVersion
      split
      · subst s
        exact .dotNetVersion
      split
      · subst s
        exact .languageMode
      · rename_i hruntime hdotNet hmode
        exact .other (by simp [hruntime, hdotNet, hmode])

/-- The members make one handshake or one fault. -/
theorem settles_iff {result : Except HandshakeFault Handshake} :
    raw.Settles result ↔ raw.decide = result := by
  constructor
  · intro h
    cases h with
    | started hstatus hlanguage hdebug =>
      rw [decide, if_pos hstatus, listens_iff.1 hlanguage, listens_iff.1 hdebug]
    | missingEndpoint hstatus hlanguage =>
      rw [decide, if_pos hstatus, listens_iff.1 hlanguage]
    | refused hstatus hreason =>
      have hstarted : raw.status ≠ some "started" := by
        rw [hstatus]
        decide
      rw [decide, if_neg hstarted, if_pos hstatus, names_iff.1 hreason]
    | unknownStatus hstarted hfailed => rw [decide, if_neg hstarted, if_neg hfailed]
  · rintro rfl
    by_cases hstarted : raw.status = some "started"
    · rw [decide, if_pos hstarted]
      cases hlanguage : Endpoint.choose? raw.languagePipe raw.languagePort with
      | none => exact .missingEndpoint hstarted (listens_iff.2 hlanguage)
      | some language => exact .started hstarted (listens_iff.2 hlanguage) (listens_iff.2 rfl)
    · by_cases hfailed : raw.status = some "failed"
      · rw [decide, if_neg hstarted, if_pos hfailed]
        exact .refused hfailed (names_iff.2 rfl)
      · rw [decide, if_neg hstarted, if_neg hfailed]
        exact .unknownStatus hstarted hfailed

/-! ## Reading -/

/-- A text field is decoded. -/
theorem TextField.textField? {s : Option String} (h : TextField value s) :
    textField? value = some s := by
  cases h <;> rfl

/-- A port is decoded. -/
theorem PortField.portField? {n : Option Nat} (h : PortField value n) :
    portField? value = some n := by
  cases h with
  | absent | null => rfl
  | @given digits hport =>
    have hfits : Json.digitsBehind 0 digits ≤ Text.maxUInt64 := by
      rw [Text.maxUInt64]
      omega
    have hvalue := Json.value?_whole hfits
    have hrange : (0 : Int) ≤ Json.digitsBehind 0 digits ∧
        (Json.digitsBehind 0 digits : Int) ≤ Text.maxUInt16 := by
      rw [Text.maxUInt16]
      omega
    simp only [SessionHost.portField?, Node.nullableNat?, hvalue]
    rw [if_pos hrange, Int.toNat_natCast]

/-- Every member has a name. -/
def Named (members : Members) : Prop := ∀ m ∈ members, m.1 ≠ none

instance (members : Members) : Decidable (Named members) :=
  inferInstanceAs (Decidable (∀ m ∈ members, m.1 ≠ none))

/-- Members with names are keyed by them. -/
theorem keyedMembers?_of_named (h : Named members) :
    ∃ keyed : List (String × Node), Json.keyedMembers? members = some keyed ∧
      members = keyed.map fun m => (some m.1, m.2) := by
  induction members with
  | nil => exact ⟨[], rfl, rfl⟩
  | cons m rest ih =>
    obtain ⟨keyed, hkeyed, rfl⟩ := ih fun n hn => h n (List.mem_cons_of_mem _ hn)
    obtain ⟨key, node⟩ := m
    obtain ⟨name, rfl⟩ := Option.ne_none_iff_exists'.1 (h _ List.mem_cons_self)
    refine ⟨(name, node) :: keyed, ?_, rfl⟩
    rw [Json.keyedMembers?, List.mapM_cons, ← Json.keyedMembers?, hkeyed]
    rfl

/-- Members that are keyed have names. -/
theorem named_of_keyedMembers? {keyed : List (String × Node)}
    (h : Json.keyedMembers? members = some keyed) : Named members := by
  induction members generalizing keyed with
  | nil => exact fun m hm => absurd hm List.not_mem_nil
  | cons m rest ih =>
    rw [Json.keyedMembers?, List.mapM_cons] at h
    obtain ⟨first, hfirst, h⟩ := Option.bind_eq_some_iff.1 h
    obtain ⟨more, hmore, -⟩ := Option.bind_eq_some_iff.1 h
    obtain ⟨name, hname, -⟩ := Option.map_eq_some_iff.1 hfirst
    refine List.forall_mem_cons.2 ⟨?_, ih hmore⟩
    rw [hname]
    exact Option.some_ne_none name

/-- The one member of a name is found. -/
theorem Sole.soleMember? {keyed : List (String × Node)}
    (h : Sole name (keyed.map fun m => (some m.1, m.2)) value) :
    Json.soleMember? name keyed = some value := by
  have hvalues : (keyed.filter fun m => m.1 == name).map Prod.snd = value.toList := by
    rw [← h, List.filter_map, List.map_map]
    refine congrArg (List.map Prod.snd) (List.filter_congr fun m _ => ?_)
    simp [beq_eq_decide]
  unfold Json.soleMember?
  generalize keyed.filter (fun m => m.1 == name) = found at hvalues
  cases value with
  | none =>
    obtain rfl := List.map_eq_nil_iff.1 hvalues
    rfl
  | some node =>
    obtain ⟨m, rfl, rfl⟩ := List.map_eq_singleton_iff.1 hvalues
    rfl

/-- The nine members are read, whatever stands beside them. -/
theorem Given.ofRecord? (h : raw.Given members) (hnamed : Named members) :
    (Node.record? fieldNames (.object members)).bind RawHandshake.ofRecord? = some raw := by
  obtain ⟨keyed, hkeyed, rfl⟩ := keyedMembers?_of_named hnamed
  obtain ⟨⟨status, hstatus, hstatus'⟩, ⟨reason, hreason, hreason'⟩, ⟨detail, hdetail, hdetail'⟩,
    ⟨version, hversion, hversion'⟩, ⟨channel, hchannel, hchannel'⟩,
    ⟨languagePort, hlanguagePort, hlanguagePort'⟩, ⟨debugPort, hdebugPort, hdebugPort'⟩,
    ⟨languagePipe, hlanguagePipe, hlanguagePipe'⟩, ⟨debugPipe, hdebugPipe, hdebugPipe'⟩⟩ := h
  have hrecord : Node.record? fieldNames (.object (keyed.map fun m => (some m.1, m.2))) =
      some ⟨false, [status, reason, detail, version, channel, languagePort, debugPort, languagePipe,
        debugPipe]⟩ := by
    rw [Node.record?, hkeyed, Option.bind_some, Json.Record.ofMembers?]
    simp [fieldNames, hstatus.soleMember?, hreason.soleMember?, hdetail.soleMember?,
      hversion.soleMember?, hchannel.soleMember?, hlanguagePort.soleMember?,
      hdebugPort.soleMember?, hlanguagePipe.soleMember?, hdebugPipe.soleMember?]
  rw [hrecord, Option.bind_some]
  simp [RawHandshake.ofRecord?, hstatus'.textField?, hreason'.textField?, hdetail'.textField?,
    hversion'.textField?, hchannel'.textField?, hlanguagePort'.portField?, hdebugPort'.portField?,
    hlanguagePipe'.textField?, hdebugPipe'.textField?]

/-! ## Order and further members -/

/-- The one member of a name is found in every order of the members. -/
theorem Sole.perm {more : Members} (h : Sole name members value) (hperm : members.Perm more) :
    Sole name more value := by
  have hvalues := (hperm.filter fun m => m.1 = some name).map Prod.snd
  rw [h] at hvalues
  cases value with
  | none => exact hvalues.symm.eq_nil
  | some node => exact hvalues.symm.eq_singleton

/-- Members of other names do not hide the one of a name. -/
theorem Sole.append {unknown : Members} (h : Sole name members value)
    (hunknown : ∀ m ∈ unknown, m.1 ≠ some name) : Sole name (members ++ unknown) value := by
  have hnone : unknown.filter (fun m => m.1 = some name) = [] :=
    List.filter_eq_nil_iff.2 fun m hm => by simpa using hunknown m hm
  rw [Sole, List.filter_append, hnone, List.append_nil]
  exact h

/-- The nine members may stand in any order, among others whose names are not theirs. -/
theorem Given.perm_append {more unknown : Members} (h : raw.Given members)
    (hunknown : ∀ m ∈ unknown, ∀ name ∈ m.1, name ∉ fieldNames)
    (hperm : more.Perm (members ++ unknown)) : raw.Given more := by
  have hother {name : String} (hname : name ∈ fieldNames) :
      ∀ m ∈ unknown, m.1 ≠ some name := fun m hm heq => hunknown m hm name heq hname
  have htext {name : String} {s : Option String} (hname : name ∈ fieldNames)
      (h : GivesText members name s) : GivesText more name s := by
    obtain ⟨value, hsole, hfield⟩ := h
    exact ⟨value, (hsole.append (hother hname)).perm hperm.symm, hfield⟩
  have hport {name : String} {n : Option Nat} (hname : name ∈ fieldNames)
      (h : GivesPort members name n) : GivesPort more name n := by
    obtain ⟨value, hsole, hfield⟩ := h
    exact ⟨value, (hsole.append (hother hname)).perm hperm.symm, hfield⟩
  exact ⟨htext (by decide) h.status, htext (by decide) h.reason, htext (by decide) h.detail,
    htext (by decide) h.runtimeVersion, htext (by decide) h.channel,
    hport (by decide) h.languagePort, hport (by decide) h.debugPort,
    htext (by decide) h.languagePipe, htext (by decide) h.debugPipe⟩

end RawHandshake

namespace Handshake

open RawHandshake (Members Named)

variable {text : String} {raw : RawHandshake} {members : Members}

/-- A member whose name has no text makes the file malformed. -/
theorem ofText_of_nameless (htext : (Node.object members).Spelled text) (h : ¬Named members) :
    ofText text = .error .malformed := by
  have hkeyed : Json.keyedMembers? members = none :=
    Option.eq_none_iff_forall_not_mem.2 fun keyed hkeyed =>
      h (RawHandshake.named_of_keyedMembers? hkeyed)
  rw [ofText, htext.ofText?, Option.bind_some, Node.record?, hkeyed]
  rfl

/-- A text with all nine members is decided by what they say. -/
theorem ofText_of_given (htext : (Node.object members).Spelled text) (hnamed : Named members)
    (hgiven : raw.Given members) : ofText text = raw.decide := by
  rw [ofText, htext.ofText?, Option.bind_some, hgiven.ofRecord? hnamed]

/-- **What a session file says.**  A text of an object whose members all have names is decoded to
the handshake that its nine known members make.  Any other text in which they say the same, with
other white space, escapes and members beside them, is decoded to the same handshake; and they say
the same in any order and among any further members. -/
theorem file_decoded (htext : (Node.object members).Spelled text) (hnamed : Named members)
    (hgiven : raw.Given members) :
    (∀ result, ofText text = result ↔ raw.Settles result) ∧
      (∀ {other : String} {more : Members}, (Node.object more).Spelled other → Named more →
        raw.Given more → ofText other = ofText text) ∧
      ∀ {more unknown : Members}, (∀ m ∈ unknown, ∀ name ∈ m.1, name ∉ RawHandshake.fieldNames) →
        more.Perm (members ++ unknown) → raw.Given more := by
  have hdecide := ofText_of_given htext hnamed hgiven
  refine ⟨fun result => ?_, fun hother hmore hsame => ?_, fun hunknown hperm =>
    hgiven.perm_append hunknown hperm⟩
  · rw [hdecide, RawHandshake.settles_iff]
  · rw [hdecide, ofText_of_given hother hmore hsame]

/-- A pipe beside a port, behind a member that nobody asks for. -/
theorem decoded_beside_unknown :
    ofText ("\x7b \"x\":[\x7b\x7d ,1e9],\"languageServicePort\":7,\n" ++
        "\"languageServicePipeName\":\"\\u0070\",\"status\":\"started\"\x7d") =
      .ok (.started ⟨"", none, .pipe "p", none⟩) := by
  have hempty : Json.Item.Spaced ⟨[], .object [], ['{', '}'], [' ']⟩ :=
    ⟨Json.gap_nil, by decide⟩
  have hlarge : (⟨false, [1], [], some ⟨false, [9]⟩⟩ : Json.Numeral).Spelled ['1', 'e', '9'] :=
    @Json.Numeral.Spelled.parts false [1] [] _ ['1'] [] _ (by decide) (.inr (by decide)) .absent
      (@Json.ExponentSpelled.given 'e' false [] [9] ['9'] (.inl rfl) (by decide) (by decide))
  have hextra : Json.Spells
      (.array [.object [], .number ⟨false, [1], [], some ⟨false, [9]⟩⟩])
      ['[', '{', '}', ' ', ',', '1', 'e', '9', ']'] :=
    @Json.Spells.array ⟨[], .object [], ['{', '}'], [' ']⟩
      [⟨[], .number ⟨false, [1], [], some ⟨false, [9]⟩⟩, ['1', 'e', '9'], []⟩]
      (List.forall_mem_cons.2 ⟨hempty, List.forall_mem_singleton.2 ⟨Json.gap_nil, Json.gap_nil⟩⟩)
      (List.forall_mem_cons.2 ⟨.emptyObject Json.gap_nil,
        List.forall_mem_singleton.2 (.number hlarge)⟩)
  have hseven : Json.Digits [7] ['7'] := by decide
  have hport : (⟨false, [7], [], none⟩ : Json.Numeral).Spelled ['7'] :=
    hseven.spelled (.inr (by decide)) false
  have hpipe : Json.StringSpelled (some "p") ['"', '\\', 'u', '0', '0', '7', '0', '"'] := by
    have hpart : (Json.Part.unit 0x70).Spelled ['\\', 'u', '0', '0', '7', '0'] :=
      .unit (i := 0) (j := 0) (k := 7) (l := 0) (by decide) (by decide) (by decide) (by decide)
    exact (Json.PartsSpelled.cons hpart .nil).quoted
  have hbare : Json.Gap [] := Json.gap_nil
  have hobject := @Json.Spells.object
    ⟨[' '], some "x", Json.quote "x", [], ⟨[], _, _, []⟩⟩
    [⟨[], some "languageServicePort", Json.quote "languageServicePort", [], ⟨[], _, _, []⟩⟩,
      ⟨['\n'], some "languageServicePipeName", Json.quote "languageServicePipeName", [],
        ⟨[], _, _, []⟩⟩,
      ⟨[], some "status", Json.quote "status", [], ⟨[], _, Json.quote "started", []⟩⟩]
    (List.forall_mem_cons.2 ⟨⟨by decide, Json.stringSpelled_quote _, hbare, hbare, hbare⟩,
      List.forall_mem_cons.2 ⟨⟨hbare, Json.stringSpelled_quote _, hbare, hbare, hbare⟩,
      List.forall_mem_cons.2 ⟨⟨by decide, Json.stringSpelled_quote _, hbare, hbare, hbare⟩,
      List.forall_mem_singleton.2 ⟨hbare, Json.stringSpelled_quote _, hbare, hbare, hbare⟩⟩⟩⟩)
    (List.forall_mem_cons.2 ⟨hextra, List.forall_mem_cons.2 ⟨.number hport,
      List.forall_mem_cons.2 ⟨.string hpipe,
        List.forall_mem_singleton.2 (.string (Json.stringSpelled_quote "started"))⟩⟩⟩)
  have hgiven : RawHandshake.Given ⟨some "started", none, none, none, none, some 7, none, some "p",
      none⟩ [(some "x", .array [.object [], .number ⟨false, [1], [], some ⟨false, [9]⟩⟩]),
        (some "languageServicePort", .number ⟨false, [7], [], none⟩),
        (some "languageServicePipeName", .string (some "p")),
        (some "status", .string (some "started"))] :=
    { status := ⟨some _, rfl, .given _⟩
      reason := ⟨none, rfl, .absent⟩
      detail := ⟨none, rfl, .absent⟩
      runtimeVersion := ⟨none, rfl, .absent⟩
      channel := ⟨none, rfl, .absent⟩
      languagePort := ⟨some _, rfl, @RawHandshake.PortField.given [7] (by decide)⟩
      debugPort := ⟨none, rfl, .absent⟩
      languagePipe := ⟨some _, rfl, .given _⟩
      debugPipe := ⟨none, rfl, .absent⟩ }
  refine ((file_decoded ⟨⟨[], _, _, []⟩, rfl, ⟨hbare, hbare⟩, hobject, by decide +kernel⟩
    (by decide) hgiven).1 _).2 (.started rfl (.pipe rfl ⟨'p', by decide, rfl⟩)
      (.nowhere ?_ ?_))
  · exact fun name hname => by cases hname
  · exact fun n hn => by cases hn

/-- A lone half of a surrogate pair is a name in a JSON text, and no reader knows it.  The members
are those of a refusal, and the file is malformed. -/
theorem nameless_member_malformed :
    ofText "\x7b\"status\":\"failed\"\x7d" = .ok (.refused ⟨.other "", none, none⟩) ∧
      (Node.object [(some "status", .string (some "failed")),
          (none, .number ⟨false, [1], [], none⟩)]).Spelled
        "\x7b\"status\":\"failed\",\"\\ud800\":1\x7d" ∧
      RawHandshake.Given ⟨some "failed", none, none, none, none, none, none, none, none⟩
        [(some "status", .string (some "failed")), (none, .number ⟨false, [1], [], none⟩)] ∧
      ofText "\x7b\"status\":\"failed\",\"\\ud800\":1\x7d" = .error .malformed := by
  have hname : Json.StringSpelled none ['"', '\\', 'u', 'd', '8', '0', '0', '"'] := by
    have hpart : (Json.Part.unit 0xD800).Spelled ['\\', 'u', 'd', '8', '0', '0'] :=
      .unit (i := 13) (j := 8) (k := 0) (l := 0) (by decide) (by decide) (by decide) (by decide)
    exact (Json.PartsSpelled.cons hpart .nil).quoted
  have hdigits : Json.Digits [1] ['1'] := by decide
  have hone : (⟨false, [1], [], none⟩ : Json.Numeral).Spelled ['1'] :=
    hdigits.spelled (.inr (by decide)) false
  have hspelled : (Node.object [(some "status", .string (some "failed")),
      (none, .number ⟨false, [1], [], none⟩)]).Spelled
        "\x7b\"status\":\"failed\",\"\\ud800\":1\x7d" := by
    have hobject := @Json.Spells.object
      ⟨[], some "status", Json.quote "status", [], ⟨[], .string (some "failed"),
        Json.quote "failed", []⟩⟩
      [⟨[], none, ['"', '\\', 'u', 'd', '8', '0', '0', '"'], [],
        ⟨[], .number ⟨false, [1], [], none⟩, ['1'], []⟩⟩]
      (List.forall_mem_cons.2
        ⟨⟨Json.gap_nil, Json.stringSpelled_quote _, Json.gap_nil, Json.gap_nil, Json.gap_nil⟩,
          List.forall_mem_singleton.2
            ⟨Json.gap_nil, hname, Json.gap_nil, Json.gap_nil, Json.gap_nil⟩⟩)
      (List.forall_mem_cons.2 ⟨.string (Json.stringSpelled_quote _),
        List.forall_mem_singleton.2 (.number hone)⟩)
    exact ⟨⟨[], _, _, []⟩, rfl, ⟨Json.gap_nil, Json.gap_nil⟩, hobject, by decide +kernel⟩
  have hgiven : RawHandshake.Given ⟨some "failed", none, none, none, none, none, none, none, none⟩
      [(some "status", .string (some "failed")), (none, .number ⟨false, [1], [], none⟩)] :=
    { status := ⟨some _, rfl, .given _⟩
      reason := ⟨none, rfl, .absent⟩
      detail := ⟨none, rfl, .absent⟩
      runtimeVersion := ⟨none, rfl, .absent⟩
      channel := ⟨none, rfl, .absent⟩
      languagePort := ⟨none, rfl, .absent⟩
      debugPort := ⟨none, rfl, .absent⟩
      languagePipe := ⟨none, rfl, .absent⟩
      debugPipe := ⟨none, rfl, .absent⟩ }
  refine ⟨by rfl, hspelled, hgiven, ofText_of_nameless hspelled fun hnamed => ?_⟩
  exact hnamed _ (List.mem_cons_of_mem _ List.mem_cons_self) rfl

end Handshake

end SessionHost
