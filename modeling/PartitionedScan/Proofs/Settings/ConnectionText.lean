/-
Connection texts and their parts.

The text `user:password@host:port[/database]` is cut at the last `@`, then the credentials at the first `:`, and the location
at the first `/` and, in front of that, at the last `:`. So a password may hold any separator, a host `:` and a database `:`
and `/`, while each part must lack the separators that are looked for across it. `Parts` are texts that keep to this; only
their port can be spelled in more than one way (`SpellsPort`). Cutting is inverted one cut at a time, and reading the port by
what it is spelled with. Main result:
- `ofUri_inverts_uri`: the text of any parts is read as these parts, and a text is read as parts just when it is theirs but
  for the spelling of the port and a bare slash behind it.
-/
import PartitionedScan.Proofs.Outcomes
import PartitionedScan.Settings.Connection

namespace PartitionedScan.Connection

/-! ## Ports -/

/-- the text is the port in decimal, perhaps behind zeros and a plus sign and between blanks -/
def SpellsPort (port : UInt16) (raw : List Char) : Prop :=
  ∃ before plus zeros after, (∀ c ∈ before ++ after, Text.isBlank c = true) ∧
    raw = before ++ (Text.Integer.plusSign plus ++ (List.replicate zeros '0' ++ Text.Integer.ofNat port.toNat)) ++ after

theorem isBlank_unsigned {plus : Bool} {zeros n : Nat} :
    ∀ c ∈ Text.Integer.plusSign plus ++ (List.replicate zeros '0' ++ Text.Integer.ofNat n), Text.isBlank c = false := by
  intro c hc
  rcases Text.Integer.mem_unsigned hc with rfl | hdigit
  · decide
  · exact Text.isBlank_of_isDigit hdigit

/-- **What is read as a port** spells it, and it is not zero -/
theorem readPort_eq_ok_iff {key : String} {raw : List Char} {port : UInt16} :
    readPort key raw = .ok port ↔ port ≠ 0 ∧ SpellsPort port raw := by
  have hread {n : Nat} : Text.Integer.readBelow? Text.Integer.count16 (Text.trimmed raw) = some n ↔
      n < 65536 ∧ ∃ plus zeros before after, (∀ c ∈ before ++ after, Text.isBlank c = true) ∧
        raw = before ++ (Text.Integer.plusSign plus ++ (List.replicate zeros '0' ++ Text.Integer.ofNat n)) ++ after := by
    rw [Text.Integer.readBelow?, Option.filter_eq_some_iff, Text.Integer.readUnsigned?_eq_some_iff, decide_eq_true_eq,
      and_comm]
    simp only [Text.trimmed_eq_iff isBlank_unsigned, Text.Integer.count16]
  constructor
  · intro h
    rw [readPort] at h
    split at h
    · next n hn =>
      obtain ⟨hlt, plus, zeros, before, after, hblank, hraw⟩ := hread.1 hn
      split_ifs at h with hzero
      obtain rfl : UInt16.ofNat n = port := Except.ok.inj h
      have hport : (UInt16.ofNat n).toNat = n := UInt16.toNat_ofNat_of_lt' hlt
      refine ⟨fun hnone => hzero ?_, before, plus, zeros, after, hblank, hport.symm ▸ hraw⟩
      rw [← hport, hnone]
      rfl
    · cases h
  · rintro ⟨hne, before, plus, zeros, after, hblank, hraw⟩
    have hzero : port.toNat ≠ 0 := fun h => hne (UInt16.toNat_inj.1 h)
    rw [readPort, hread.2 ⟨port.toNat_lt, plus, zeros, before, after, hblank, hraw⟩]
    simp only
    rw [if_neg hzero, UInt16.ofNat_toNat]

theorem SpellsPort.chars {port : UInt16} {raw : List Char} (h : SpellsPort port raw) :
    ∀ c ∈ raw, (Text.isBlank c || c == '+' || c.isDigit) = true := by
  obtain ⟨before, plus, zeros, after, hblank, rfl⟩ := h
  intro c hc
  simp only [Bool.or_eq_true, beq_iff_eq]
  rcases List.mem_append.1 hc with hc | hafter
  · rcases List.mem_append.1 hc with hbefore | hnumber
    · exact Or.inl (Or.inl (hblank c (List.mem_append_left _ hbefore)))
    · rcases Text.Integer.mem_unsigned hnumber with hplus | hdigit
      · exact Or.inl (Or.inr hplus)
      · exact Or.inr hdigit
  · exact Or.inl (Or.inl (hblank c (List.mem_append_right _ hafter)))

theorem spellsPort_ofNat (port : UInt16) : SpellsPort port (Text.Integer.ofNat port.toNat) :=
  ⟨[], false, 0, [], nofun, by simp [Text.Integer.plusSign]⟩

/-! ## Cuts -/

/-- a database behind its slash -/
def slashed : Option (List Char) → List Char
  | none => []
  | some database => '/' :: database

theorem splitLocation_append {address : List Char} (h : '/' ∉ address) (written : Option (List Char)) :
    splitLocation (address ++ slashed written) = (address, written.filter fun d => !d.isEmpty) := by
  cases written with
  | none =>
    rw [slashed, List.append_nil, splitLocation, Text.splitFirst_eq_none_iff.2 h]
    rfl
  | some database =>
    rw [slashed, splitLocation, Text.splitFirst_eq_some_iff.2 ⟨rfl, h⟩]
    cases database <;> rfl

theorem exists_slashed (location : List Char) :
    ∃ address written, location = address ++ slashed written ∧ '/' ∉ address := by
  cases h : Text.splitFirst '/' location with
  | none => exact ⟨location, none, (List.append_nil _).symm, Text.splitFirst_eq_none_iff.1 h⟩
  | some pieces =>
    obtain ⟨hlocation, haddress⟩ := Text.splitFirst_eq_some h
    exact ⟨pieces.1, some pieces.2, hlocation, haddress⟩

/-- parts put together -/
def joined (username password host port : List Char) (written : Option (List Char)) : List Char :=
  username ++ ':' :: password ++ '@' :: (host ++ ':' :: port ++ slashed written)

/-- the parts do not have the separators that are looked for across them -/
structure Separated (username host port : List Char) (written : Option (List Char)) : Prop where
  location_at : '@' ∉ host ++ ':' :: port ++ slashed written
  username_colon : ':' ∉ username
  address_slash : '/' ∉ host ++ ':' :: port
  port_colon : ':' ∉ port
  username_ne : username ≠ []
  host_ne : host ≠ []

/-- **What is cut into parts** was put together from them; an empty database is none -/
theorem uriParts?_eq_some_iff {uri username password host port : List Char} {database : Option (List Char)} :
    uriParts? uri = some (username, password, host, port, database) ↔
      ∃ written, uri = joined username password host port written ∧ Separated username host port written ∧
        (written.filter fun d => !d.isEmpty) = database := by
  constructor
  · intro h
    -- each cut gives back the text that it was made in, from the outside in
    simp only [uriParts?, Option.bind_eq_bind, Option.bind_eq_some_iff, Prod.exists, Text.splitLast_eq_some_iff,
      Text.splitFirst_eq_some_iff] at h
    obtain ⟨credentials, location, ⟨rfl, hat⟩, user, pass, ⟨rfl, huser⟩, h⟩ := h
    obtain ⟨address, written, rfl, hslash⟩ := exists_slashed location
    rw [splitLocation_append hslash] at h
    obtain ⟨name, digits, ⟨rfl, hcolon⟩, h⟩ := h
    split_ifs at h with hempty
    simp only [Option.some.injEq, Prod.mk.injEq] at h
    obtain ⟨rfl, rfl, rfl, rfl, rfl⟩ := h
    rw [Bool.or_eq_true, not_or, List.isEmpty_iff, List.isEmpty_iff] at hempty
    exact ⟨written, rfl, ⟨hat, huser, hslash, hcolon, hempty.2, hempty.1⟩, rfl⟩
  · rintro ⟨written, rfl, h, rfl⟩
    rw [joined, uriParts?, Text.splitLast_eq_some_iff.2 ⟨rfl, h.location_at⟩]
    simp only [Option.bind_eq_bind, Option.bind_some]
    rw [Text.splitFirst_eq_some_iff.2 ⟨rfl, h.username_colon⟩]
    simp only [Option.bind_some]
    rw [splitLocation_append h.address_slash]
    simp only
    rw [Text.splitLast_eq_some_iff.2 ⟨rfl, h.port_colon⟩]
    simp [h.username_ne, h.host_ne]

/-! ## Parts -/

/-- the parts of a connection text -/
structure Parts where
  username : String
  password : String
  host : String
  port : UInt16
  database : Option String
  username_ne : username ≠ ""
  username_colon : ':' ∉ username.toList
  host_ne : host ≠ ""
  host_at : '@' ∉ host.toList
  host_slash : '/' ∉ host.toList
  port_ne : port ≠ 0
  database_at : ∀ d ∈ database, '@' ∉ d.toList

namespace Parts

/-- `username:password@host:port[/database]`, the port as it is spelled -/
def uriWith (parts : Parts) (port : List Char) : String :=
  parts.username ++ ":" ++ parts.password ++ "@" ++ parts.host ++ ":" ++ String.ofList port ++
    parts.database.elim "" ("/" ++ ·)

/-- `username:password@host:port[/database]`, the port in plain decimal -/
def uri (parts : Parts) : String :=
  parts.uriWith (Text.Integer.ofNat parts.port.toNat)

/-- the connection with these parts; an empty database is none -/
def connection (parts : Parts) : Connection :=
  ⟨parts.host, parts.port, some parts.username, some parts.password, parts.database.filter (· ≠ ""), .digest⟩

/-- the text of the parts but for the spelling of the port, and for a bare slash in the place of a database -/
def Respelled (parts : Parts) (s : String) : Prop :=
  ∃ port slash, SpellsPort parts.port port ∧ (slash = "" ∨ parts.database = none ∧ slash = "/") ∧
    s = parts.uriWith port ++ slash

variable {parts : Parts} {port : List Char}

theorem uriWith_toList (parts : Parts) (port : List Char) : (parts.uriWith port).toList =
    joined parts.username.toList parts.password.toList parts.host.toList port (parts.database.map String.toList) := by
  cases h : parts.database <;> simp [uriWith, joined, slashed, h]

theorem separated (h : SpellsPort parts.port port) :
    Separated parts.username.toList parts.host.toList port (parts.database.map String.toList) := by
  have hport (sep : Char) (hsep : (Text.isBlank sep || sep == '+' || sep.isDigit) = false) : sep ∉ port := fun hmem =>
    Bool.false_ne_true (hsep.symm.trans (h.chars sep hmem))
  have hdatabase : '@' ∉ slashed (parts.database.map String.toList) := by
    cases hd : parts.database with
    | none => exact List.not_mem_nil
    | some d => simp [slashed, parts.database_at d hd]
  constructor
  case location_at => simp [parts.host_at, hport '@' (by decide), hdatabase]
  case username_colon => exact parts.username_colon
  case address_slash => simp [parts.host_slash, hport '/' (by decide)]
  case port_colon => exact hport ':' (by decide)
  case username_ne => exact mt String.toList_eq_nil_iff.1 parts.username_ne
  case host_ne => exact mt String.toList_eq_nil_iff.1 parts.host_ne

theorem ofList_filter_toList (database : Option String) :
    ((database.map String.toList).filter fun d => !d.isEmpty).map String.ofList = database.filter (· ≠ "") := by
  cases database with
  | none => rfl
  | some d =>
    by_cases hd : d = ""
    · subst hd
      rfl
    · rw [Option.map_some, Option.filter_some, Option.filter_some]
      simp [hd]

/-- **The text of parts is read as these parts**, however the port is spelled -/
theorem ofUri_uriWith (h : SpellsPort parts.port port) : ofUri (parts.uriWith port) = .ok parts.connection := by
  have hparts := uriParts?_eq_some_iff.2 ⟨_, parts.uriWith_toList port, parts.separated h, rfl⟩
  have hport : readPort Options.uri port = .ok parts.port := readPort_eq_ok_iff.2 ⟨parts.port_ne, h⟩
  rw [ofUri, hparts]
  simp only [hport, ofList_filter_toList, String.ofList_toList, connection]

/-- parts that are separated, with the port that was read -/
def ofSeparated {username host raw : List Char} {written : Option (List Char)} (h : Separated username host raw written)
    (password : List Char) {number : UInt16} (hne : number ≠ 0) : Parts where
  username := String.ofList username
  password := String.ofList password
  host := String.ofList host
  port := number
  database := written.map String.ofList
  username_ne := by simpa using h.username_ne
  username_colon := by simpa using h.username_colon
  host_ne := by simpa using h.host_ne
  host_at hmem := h.location_at (by simp [show '@' ∈ host by simpa using hmem])
  host_slash hmem := h.address_slash (by simp [show '/' ∈ host by simpa using hmem])
  port_ne := hne
  database_at := by
    intro d hd hmem
    obtain ⟨cs, rfl, rfl⟩ := Option.map_eq_some_iff.1 hd
    exact h.location_at (by simp [slashed, show '@' ∈ cs by simpa using hmem])

/-- **A text that is read is the text of parts** but for the spelling of the port -/
theorem exists_of_ofUri {s : String} {c : Connection} (h : ofUri s = .ok c) :
    ∃ (parts : Parts) (port : List Char), parts.connection = c ∧ SpellsPort parts.port port ∧ s = parts.uriWith port := by
  rw [ofUri] at h
  split at h
  · cases h
  · next username password host raw database hparts =>
    obtain ⟨written, htext, hseparated, rfl⟩ := uriParts?_eq_some_iff.1 hparts
    split at h
    · cases h
    · next number hport =>
      obtain ⟨hne, hspells⟩ := readPort_eq_ok_iff.1 hport
      refine ⟨ofSeparated hseparated password hne, raw, ?_, hspells, ?_⟩
      · rw [← Except.ok.inj h, connection, ← ofList_filter_toList]
        simp [ofSeparated]
      · apply String.toList_inj.1
        rw [uriWith_toList, htext]
        simp [ofSeparated]

/-- the parts without an empty database -/
def returned (parts : Parts) : Parts :=
  { parts with
    database := parts.database.filter (· ≠ "")
    database_at := fun d hd => parts.database_at d (Option.filter_eq_some_iff.1 hd).1 }

/-- an empty database is a bare slash -/
theorem respelled_returned (h : SpellsPort parts.port port) : parts.returned.Respelled (parts.uriWith port) := by
  cases hd : parts.database with
  | none => exact ⟨port, "", h, Or.inl rfl, by simp [uriWith, returned, hd]⟩
  | some d =>
    by_cases hempty : d = ""
    · have hnone : parts.returned.database = none := by simp [returned, hd, hempty, Option.filter_some]
      refine ⟨port, "/", h, Or.inr ⟨hnone, rfl⟩, ?_⟩
      rw [uriWith, uriWith, hnone, hd, hempty]
      simp [returned]
    · have hsame : parts.returned.database = some d := by simp [returned, hd, hempty, Option.filter_some]
      refine ⟨port, "", h, Or.inl rfl, ?_⟩
      rw [uriWith, uriWith, hsame, hd]
      simp [returned]

/-- the parts with an empty database -/
def bare (parts : Parts) : Parts :=
  { parts with database := some "", database_at := by simp }

theorem connection_returned (parts : Parts) : parts.returned.connection = parts.connection := by
  simp [connection, returned]

/-- a bare slash is an empty database -/
theorem ofUri_of_respelled {s : String} (h : parts.Respelled s) : ofUri s = .ok parts.connection := by
  obtain ⟨port, slash, hspells, hslash, rfl⟩ := h
  rcases hslash with rfl | ⟨hnone, rfl⟩
  · rw [String.append_empty]
    exact ofUri_uriWith hspells
  · have htext : parts.uriWith port ++ "/" = parts.bare.uriWith port := by simp [uriWith, hnone, bare]
    have hread : ofUri (parts.bare.uriWith port) = .ok parts.bare.connection := ofUri_uriWith hspells
    rw [htext, hread]
    simp [connection, hnone, bare]

end Parts

/-- **Reading a connection text inverts writing it.** A user name that is not empty has no `:`, a host that is not empty no `@`
or `/`, and a database no `@`; the password is any text and the port any number from 1 to 65535. The text of such parts is read
as exactly these parts, an empty database as none. And a text is read as a connection just when the connection has such parts
and they, written back, give that text again, but for the spelling of the port and a bare slash where there is no database. -/
theorem ofUri_inverts_uri :
    (∀ parts : Parts, ofUri parts.uri = .ok parts.connection) ∧
      ∀ (s : String) (c : Connection), ofUri s = .ok c ↔
        ∃ parts : Parts, parts.connection = c ∧ parts.database = c.database ∧ parts.Respelled s := by
  refine ⟨fun parts => Parts.ofUri_uriWith (spellsPort_ofNat parts.port), fun s c => ⟨fun h => ?_, ?_⟩⟩
  · obtain ⟨parts, port, rfl, hspells, rfl⟩ := Parts.exists_of_ofUri h
    exact ⟨parts.returned, parts.connection_returned, rfl, Parts.respelled_returned hspells⟩
  · rintro ⟨parts, rfl, _, h⟩
    exact Parts.ofUri_of_respelled h

/-- separators in every part that may have them -/
theorem ofUri_inverts_uri_separators :
    ofUri "a/b@c:d@e:/f@[::1]:8000/x:y/z" =
      .ok ⟨"[::1]", 8000, some "a/b@c", some "d@e:/f", some "x:y/z", .digest⟩ := by
  let parts : Parts :=
    ⟨"a/b@c", "d@e:/f", "[::1]", 8000, some "x:y/z", by decide, by decide, by decide, by decide, by decide, by decide,
      by decide⟩
  have huri : parts.uri = "a/b@c:d@e:/f@[::1]:8000/x:y/z" := by decide +kernel
  rw [← huri, ofUri_inverts_uri.1 parts]
  rfl

example : ofUri "u:@h:: +0080 /" = .ok ⟨"h:", 80, some "u", some "", none, .digest⟩ := by decide +kernel

end PartitionedScan.Connection
