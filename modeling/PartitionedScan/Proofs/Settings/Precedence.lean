/-
Which of two option maps a connection is made of.

Options given explicitly are merged with those of a file, and a connection is made of the result. Each `Setting` of a
connection has an option of its own; all but the authentication may also be a part of the connection text
(`Setting.PartOf`). Merging decides option by option and reading prefers an option to a part of the text
(`ofOptions_eq_ok_iff`), so there are four places, in this order: the explicit option, the option of the file, the explicit
text, the text of the file. The second stands before the third: an option of the file wins over a part of the text that was
given explicitly. Main result:
- `explicit_wins_iff`: what was given explicitly for a setting holds just when it has an option of its own there, or the
  file has none that says otherwise.
-/
import PartitionedScan.Proofs.Outcomes
import PartitionedScan.Settings.Connection

namespace PartitionedScan

/-! ## Settings -/

/-- a setting of a connection -/
inductive Setting where
  | host
  | port
  | username
  | password
  | database
  | authType
  deriving DecidableEq, Repr

namespace Setting

/-- the option of its own -/
def key : Setting → String
  | host => Options.host
  | port => Options.port
  | username => Options.username
  | password => Options.password
  | database => Options.database
  | authType => Options.authType

/-- the type of what it is set to -/
abbrev Content : Setting → Type
  | host => String
  | port => UInt16
  | username | password | database => Option String
  | authType => AuthType

/-- what a connection has for it -/
def get (c : Connection) : (s : Setting) → s.Content
  | host => c.host
  | port => c.port
  | username => c.username
  | password => c.password
  | database => c.database
  | authType => c.authType

/-- what the text of its option says -/
def read (raw : String) : (s : Setting) → Except SettingError s.Content
  | host => .ok raw
  | port => Connection.readPort Options.port raw.toList
  | username => .ok (some raw)
  | password => .ok (some raw)
  | database => .ok (some raw)
  | authType => Connection.readAuthType raw

/-- the connection text that was read as `base` has it as a part: the database may be missing, the authentication is none -/
def PartOf (base : Connection) : Setting → Prop
  | host | port | username | password => True
  | database => base.database.isSome = true
  | authType => False

/-- what it is set to: by its option, else as `base` has it -/
def chosen (s : Setting) (raw : Option String) (base : Connection) : Except SettingError s.Content :=
  raw.elim (.ok (s.get base)) fun raw => s.read raw

theorem chosen_host (raw : Option String) (base : Connection) : host.chosen raw base = .ok (raw.getD base.host) := by
  cases raw <;> rfl

theorem elim_eq_or (raw base : Option String) :
    raw.elim (.ok base) (fun raw => .ok (some raw)) = (.ok (raw.or base) : Except SettingError (Option String)) := by
  cases raw <;> rfl

end Setting

/-- the options determine a setting: by its own option, or as a part of the connection text -/
def Options.Determines (o : Options) (s : Setting) : Prop :=
  (∃ raw, o.get? s.key = some raw) ∨
    ∃ text base, o.get? Options.uri = some text ∧ Connection.ofUri text = .ok base ∧ s.PartOf base

/-! ## Connections by their settings -/

namespace Connection

/-- what settings without an option are taken from: the connection text, or the default -/
def baseOf (text : Option String) : Except SettingError Connection :=
  text.elim (.ok default) ofUri

/-- the connection of options and of a base, with the settings that may be refused already read -/
def assembled (o : Options) (base : Connection) (port : UInt16) (authType : AuthType) : Connection :=
  ⟨(o.get? Options.host).getD base.host, port, (o.get? Options.username).or base.username,
    (o.get? Options.password).or base.password, (o.get? Options.database).or base.database, authType⟩

theorem ofOptions_eq (o : Options) : ofOptions o = do
    let base ← baseOf (o.get? Options.uri)
    let port ← Setting.port.chosen (o.get? Options.port) base
    let authType ← Setting.authType.chosen (o.get? Options.authType) base
    (assembled o base port authType).validate
    return assembled o base port authType := by
  unfold ofOptions
  cases o.get? Options.uri <;> cases o.get? Options.port <;> cases o.get? Options.authType <;> rfl

theorem assembled_eq_iff {o : Options} {base c : Connection} {port : UInt16} {authType : AuthType}
    (hport : Setting.port.chosen (o.get? Options.port) base = .ok port)
    (hauth : Setting.authType.chosen (o.get? Options.authType) base = .ok authType) :
    assembled o base port authType = c ↔ ∀ s : Setting, s.chosen (o.get? s.key) base = .ok (s.get c) := by
  constructor
  · rintro rfl s
    cases s with
    | host => exact Setting.chosen_host _ base
    | port => exact hport
    | username => exact Setting.elim_eq_or _ base.username
    | password => exact Setting.elim_eq_or _ base.password
    | database => exact Setting.elim_eq_or _ base.database
    | authType => exact hauth
  · intro h
    have hhost := Except.ok.inj ((Setting.chosen_host _ base).symm.trans (h .host))
    have hport := Except.ok.inj (hport.symm.trans (h .port))
    have husername := Except.ok.inj ((Setting.elim_eq_or _ base.username).symm.trans (h .username))
    have hpassword := Except.ok.inj ((Setting.elim_eq_or _ base.password).symm.trans (h .password))
    have hdatabase := Except.ok.inj ((Setting.elim_eq_or _ base.database).symm.trans (h .database))
    have hauth := Except.ok.inj (hauth.symm.trans (h .authType))
    exact (Connection.mk.injEq ..).mpr ⟨hhost, hport, husername, hpassword, hdatabase, hauth⟩

/-- **A connection is its settings**, each from its option or else from the connection text, and it is valid -/
theorem ofOptions_eq_ok_iff {o : Options} {c : Connection} : ofOptions o = .ok c ↔
    ∃ base, baseOf (o.get? Options.uri) = .ok base ∧ (∀ s : Setting, s.chosen (o.get? s.key) base = .ok (s.get c)) ∧
      c.validate = .ok () := by
  rw [ofOptions_eq, bind_eq_ok_iff]
  refine exists_congr fun base => and_congr_right fun _ => ?_
  simp only [bind_eq_ok_iff]
  constructor
  · rintro ⟨port, hport, authType, hauth, _, hvalid, hc⟩
    obtain rfl := Except.ok.inj hc
    exact ⟨(assembled_eq_iff hport hauth).1 rfl, hvalid⟩
  · rintro ⟨hsettings, hvalid⟩
    have hc := (assembled_eq_iff (hsettings .port) (hsettings .authType)).2 hsettings
    exact ⟨c.port, hsettings .port, c.authType, hsettings .authType, (), hc ▸ hvalid, congrArg Except.ok hc⟩

/-! ## Explicit options and a file -/

/-- **What was given explicitly for a setting holds**, next to any file, just when it has an option of its own there or no
option of the file says otherwise; if not, the option of the file holds, also against the connection text that was given
explicitly -/
theorem explicit_wins_iff {explicit file : Options} {alone merged : Connection} (halone : ofOptions explicit = .ok alone)
    (hmerged : ofOptions (explicit.mergeMissing file) = .ok merged) {s : Setting} (hs : explicit.Determines s) :
    (s.get merged = s.get alone ↔
      explicit.get? s.key ≠ none ∨ ∀ raw ∈ file.get? s.key, s.read raw = .ok (s.get alone)) ∧
    (explicit.get? s.key = none → ∀ raw ∈ file.get? s.key, s.read raw = .ok (s.get merged)) := by
  obtain ⟨base, hbase, hsettings, _⟩ := ofOptions_eq_ok_iff.1 halone
  obtain ⟨base', hbase', hsettings', _⟩ := ofOptions_eq_ok_iff.1 hmerged
  have hset := hsettings s
  have hset' := hsettings' s
  rw [Options.get?_mergeMissing] at hbase' hset'
  cases hown : explicit.get? s.key with
  | some raw =>
    rw [hown] at hset
    rw [hown, Option.some_or] at hset'
    have hsame := Except.ok.inj (hset'.symm.trans hset)
    exact ⟨iff_of_true hsame (Or.inl (by simp)), nofun⟩
  | none =>
    -- the explicit text then has the setting, and no text of the file is looked at
    rw [hown, Option.none_or] at hset'
    rw [hown] at hset
    have htext : ∃ text, explicit.get? Options.uri = some text := by
      rcases hs with ⟨raw, hraw⟩ | ⟨text, _, htext, _⟩
      · rw [hown] at hraw
        cases hraw
      · exact ⟨text, htext⟩
    obtain ⟨text, htext⟩ := htext
    rw [htext, Option.some_or] at hbase'
    rw [htext] at hbase
    obtain rfl : base = base' := Except.ok.inj (hbase.symm.trans hbase')
    cases hfile : file.get? s.key with
    | none =>
      rw [hfile] at hset'
      have hsame := Except.ok.inj (hset'.symm.trans hset)
      exact ⟨iff_of_true hsame (Or.inr (by simp)), fun _ => by simp⟩
    | some raw =>
      rw [hfile] at hset'
      have hread : s.read raw = .ok (s.get merged) := hset'
      refine ⟨?_, fun _ => by simpa using hread⟩
      simp [hread]

/-- an explicit port holds against the text beside it and against the file, and the host of that text holds next to a file
without one -/
theorem explicit_wins_iff_port :
    let explicit := Options.ofList [(Options.uri, "u:p@a:1"), (Options.port, " 2")]
    let file := Options.ofList [(Options.port, "3"), (Options.database, "d")]
    let alone : Connection := ⟨"a", 2, some "u", some "p", none, .digest⟩
    let merged : Connection := ⟨"a", 2, some "u", some "p", some "d", .digest⟩
    ofOptions explicit = .ok alone ∧ ofOptions (explicit.mergeMissing file) = .ok merged ∧
      explicit.Determines .port ∧ Setting.port.get merged = Setting.port.get alone ∧
      explicit.Determines .host ∧ Setting.host.get merged = Setting.host.get alone := by
  intro explicit file alone merged
  have halone : ofOptions explicit = .ok alone := by decide +kernel
  have hmerged : ofOptions (explicit.mergeMissing file) = .ok merged := by decide +kernel
  have hport : explicit.Determines .port := Or.inl ⟨" 2", by decide +kernel⟩
  have hhost : explicit.Determines .host :=
    Or.inr ⟨"u:p@a:1", ⟨"a", 1, some "u", some "p", none, .digest⟩, by decide +kernel, by decide +kernel, trivial⟩
  have hfile : file.get? Setting.host.key = none := by decide +kernel
  refine ⟨halone, hmerged, hport, ?_, hhost, ?_⟩
  · exact (explicit_wins_iff halone hmerged hport).1.2 (Or.inl (by decide +kernel))
  · exact (explicit_wins_iff halone hmerged hhost).1.2 (Or.inr (by simp [hfile]))

/-- **A file wins over the text that was given explicitly.** It changes the host, and of the credentials the name alone,
beside the password of the text. -/
theorem explicit_text_overridden :
    let explicit := Options.ofList [(Options.uri, "u:p@a:1")]
    let file := Options.ofList [(Options.host, "b"), (Options.username, "v")]
    let alone : Connection := ⟨"a", 1, some "u", some "p", none, .digest⟩
    let merged : Connection := ⟨"b", 1, some "v", some "p", none, .digest⟩
    ofOptions explicit = .ok alone ∧ ofOptions (explicit.mergeMissing file) = .ok merged ∧
      explicit.Determines .host ∧ Setting.host.get merged ≠ Setting.host.get alone ∧
      explicit.Determines .username ∧ Setting.username.get merged ≠ Setting.username.get alone := by
  intro explicit file alone merged
  have halone : ofOptions explicit = .ok alone := by decide +kernel
  have htext (s : Setting) (hs : s.PartOf alone) : explicit.Determines s :=
    Or.inr ⟨"u:p@a:1", alone, by decide +kernel, by decide +kernel, hs⟩
  exact ⟨halone, by decide +kernel, htext .host trivial, by decide, htext .username trivial, by decide⟩

end Connection

end PartitionedScan
