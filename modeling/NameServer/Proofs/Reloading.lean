import NameServer.Proofs.Loading
import NameServer.Server.Launch

/-!
# Configurations that are loaded again

A server takes its proxy entries and its tokens from the same configuration,
the last one that could be loaded. One that can't be loaded changes nothing,
and one that can changes nothing else.
-/

namespace NameServer

/-! ## Proxy entries -/

theorem Table.contains_ofList_iff {α : Type} (key : String) : ∀ entries : List (String × α),
    (ofList entries).contains key = true ↔ key ∈ entries.map Prod.fst
  | [] => iff_of_false Bool.false_ne_true List.not_mem_nil
  | (first, value) :: entries => by
    have ih := contains_ofList_iff key entries
    rw [List.map_cons, List.mem_cons, ← ih, ofList]
    split
    · next hlater => exact ⟨.inr, fun h => h.elim (fun hkey => hkey ▸ hlater) id⟩
    · by_cases hkey : key = first
      · simp [hkey, contains]
      · simp [hkey, contains, get?_insert_of_ne _ _ hkey]

/-- The addresses of a table are found under their ids, in any letter case, without the blanks around them. -/
structure Proxies.Serves (proxies : Proxies) (table : Table String) : Prop where
  found : ∀ id address, proxies.get? id = some address →
    ∃ entry ∈ table.entries, Text.lowered entry.1 = Text.lowered id ∧ address = Text.trimmed entry.2
  missing : ∀ id, proxies.get? id = none → ∀ entry ∈ table.entries, Text.lowered entry.1 ≠ Text.lowered id

theorem Proxies.serves_ofTable (table : Table String) : (ofTable table).Serves table where
  found := by
    intro id address h
    have hmem := Table.mem_of_mem_ofList ((Table.get?_eq_some_iff ..).mp h)
    obtain ⟨entry, hentry, heq⟩ := List.mem_map.mp hmem
    exact ⟨entry, hentry, congrArg Prod.fst heq, (congrArg Prod.snd heq).symm⟩
  missing := by
    intro id h entry hentry hid
    have hknown : (ofTable table).addresses.contains (Text.lowered id) = true := by
      rw [ofTable, Table.contains_ofList_iff, List.map_map]
      exact List.mem_map.mpr ⟨entry, hentry, hid⟩
    rw [Table.contains, show (ofTable table).addresses.get? (Text.lowered id) = none from h] at hknown
    cases hknown

/-! ## Turns -/

theorem Config.usable_of_ofPlace {place : Place} {config : Config} (h : ofPlace place = .ok config) :
    config.Usable := by
  cases place with
  | file content =>
    obtain ⟨decoded, _, husable, rfl⟩ := (ofText_ok_iff content config).mp h
    exact husable.normalized
  | absent | directory | nowhere => cases h

/-- An operation that doesn't replace what a configuration brings. -/
def Operation.keepsSources : Operation → Bool
  | .proxies _ | .tokens _ => false
  | _ => true

inductive Turn where
  | operation (op : Operation)
  /-- What the path of the configuration leads to is loaded. -/
  | reload (place : Place)

def Turn.loaded? : Turn → Option Config
  | .operation _ => none
  | .reload place => (Config.ofPlace place).toOption

/-- The configuration that was loaded last. Before any was, the one that the server was started with. -/
def lastLoaded (config : Config) (turns : List Turn) : Config := (turns.filterMap Turn.loaded?).getLastD config

namespace Server

variable {s : Server} {config current : Config}

def turn (s : Server) : Turn → Server
  | .operation op => (s.step op).2
  | .reload place => (s.reload place).2

def through (s : Server) : List Turn → Server
  | [] => s
  | t :: turns => (s.turn t).through turns

/-- Both the proxy entries and the tokens are those of a configuration. -/
structure Follows (s : Server) (current : Config) : Prop where
  proxies : s.proxies = Proxies.ofTable current.proxies
  tokens : s.tokens = current.acme.tokens

theorem sources_step (s : Server) (op : Operation) : (s.step op).2.config = s.config ∧
    (op.keepsSources = true → (s.step op).2.proxies = s.proxies ∧ (s.step op).2.tokens = s.tokens) := by
  cases op with
  | query packet =>
    show (s.handle packet).server.config = _ ∧ (_ → (s.handle packet).server.proxies = _ ∧ _)
    rw [step, handle_server]
    exact ⟨rfl, fun _ => ⟨rfl, rfl⟩⟩
  | evict segment =>
    show (Api.evict s segment).2.config = _ ∧ (_ → (Api.evict s segment).2.proxies = _ ∧ _)
    rw [step, evict_server]
    exact ⟨rfl, fun _ => ⟨rfl, rfl⟩⟩
  | proxies _ | tokens _ => exact ⟨rfl, fun hop => nomatch hop⟩
  | opened _ | closed _ | clear | tokenFile _ | sweep _ | advance _ => exact ⟨rfl, fun _ => ⟨rfl, rfl⟩⟩

theorem Follows.step (h : s.Follows current) {op : Operation} (hop : op.keepsSources = true) :
    (s.step op).2.Follows current := by
  obtain ⟨hproxies, htokens⟩ := (s.sources_step op).2 hop
  exact ⟨hproxies.trans h.proxies, htokens.trans h.tokens⟩

/-- A reload replaces the proxy entries and the tokens together, or neither. -/
theorem reload_cases (s : Server) (place : Place) :
    (∃ error, Config.ofPlace place = .error error ∧ s.reload place = (false, s)) ∨
    ∃ config, Config.ofPlace place = .ok config ∧
      s.reload place = (true, { s with proxies := .ofTable config.proxies, tokens := config.acme.tokens }) := by
  unfold reload
  cases Config.ofPlace place with
  | error error => exact .inl ⟨error, rfl, rfl⟩
  | ok config => exact .inr ⟨config, rfl, rfl⟩

theorem Follows.turn (h : s.Follows current) {t : Turn} (ht : ∀ op, t = .operation op → op.keepsSources = true) :
    (s.turn t).Follows (t.loaded?.getD current) := by
  cases t with
  | operation op => exact h.step (ht op rfl)
  | reload place =>
    rcases s.reload_cases place with ⟨error, hplace, heq⟩ | ⟨config, hplace, heq⟩
    · rw [Server.turn, Turn.loaded?, heq, hplace]
      exact h
    · rw [Server.turn, Turn.loaded?, heq, hplace]
      exact ⟨rfl, rfl⟩

theorem lastLoaded_cons (config : Config) (t : Turn) (turns : List Turn) :
    lastLoaded config (t :: turns) = lastLoaded (t.loaded?.getD config) turns := by
  rw [lastLoaded, lastLoaded, List.filterMap_cons]
  cases t.loaded? with
  | none => rfl
  | some loaded => exact List.getLastD_cons ..

theorem Follows.through : ∀ {turns : List Turn} {s : Server} {current : Config}, s.Follows current →
    (∀ op, .operation op ∈ turns → op.keepsSources = true) → (s.through turns).Follows (lastLoaded current turns)
  | [], _, _, h, _ => h
  | t :: turns, s, current, h, hops => by
    have hturn : (s.turn t).Follows (t.loaded?.getD current) :=
      h.turn fun op ht => hops op (ht ▸ List.mem_cons_self ..)
    rw [lastLoaded_cons]
    exact hturn.through fun op hmem => hops op (List.mem_cons_of_mem _ hmem)

theorem config_through : ∀ (turns : List Turn) (s : Server), (s.through turns).config = s.config
  | [], _ => rfl
  | t :: turns, s => by
    have hturn : (s.turn t).config = s.config := by
      cases t with
      | operation op => exact (s.sources_step op).1
      | reload place => rcases s.reload_cases place with ⟨_, _, heq⟩ | ⟨_, _, heq⟩ <;> rw [turn, heq]
    exact (config_through turns (s.turn t)).trans hturn

theorem usable_lastLoaded : ∀ {turns : List Turn} {config : Config}, config.Usable → (lastLoaded config turns).Usable
  | [], _, h => h
  | t :: turns, config, h => by
    have ht : (t.loaded?.getD config).Usable := by
      cases t with
      | operation op => exact h
      | reload place =>
        rw [Turn.loaded?]
        cases hplace : Config.ofPlace place with
        | error _ => exact h
        | ok loaded => exact Config.usable_of_ofPlace hplace
    rw [lastLoaded_cons]
    exact usable_lastLoaded ht

theorem follows_of_start {stateFile tokenFile : Option Place} (h : start config stateFile tokenFile = .ok s) :
    s.Follows config ∧ s.config = config := by
  cases stateFile with
  | none =>
    rw [start_none h]
    exact ⟨⟨rfl, rfl⟩, rfl⟩
  | some place =>
    obtain ⟨_, _, rfl⟩ := start_some h
    exact ⟨⟨rfl, rfl⟩, rfl⟩

theorem start_of_launch {program path : String} {arguments : List String} {disk : String → Place}
    (h : launch program (path :: arguments) disk = .ok s) : ∃ config, Config.ofPlace (disk path) = .ok config ∧
      start config (config.sessions.statePath.map disk) (config.acme.tokensPath.map disk) = .ok s := by
  simp only [launch] at h
  cases hplace : Config.ofPlace (disk path) with
  | error error =>
    rw [hplace] at h
    cases h
  | ok config =>
    simp only [hplace] at h
    refine ⟨config, rfl, ?_⟩
    cases hstart : start config (config.sessions.statePath.map disk) (config.acme.tokensPath.map disk) with
    | error error =>
      rw [hstart] at h
      cases h
    | ok started =>
      rw [hstart] at h
      exact congrArg Except.ok (Except.ok.inj h)

/-- **A reload is all or nothing.** After any number of them the proxy entries and the tokens are both those of the
last configuration that was loaded, whatever else the server did, and no reload has changed anything else. -/
theorem reload_all_or_nothing {program path : String} {arguments : List String} {disk : String → Place}
    (h : launch program (path :: arguments) disk = .ok s) : ∃ config, Config.ofPlace (disk path) = .ok config ∧
      ∀ turns, (∀ op, .operation op ∈ turns → op.keepsSources = true) →
        (s.through turns).proxies.Serves (lastLoaded config turns).proxies ∧
        (s.through turns).tokens =
          presentTokens (lastLoaded config turns).acme.challenge1 (lastLoaded config turns).acme.challenge2 ∧
        (lastLoaded config turns).Usable ∧ (s.through turns).config = config ∧
        ∀ place, ∃ proxies tokens, ((s.through turns).reload place).2 = { s.through turns with proxies, tokens } := by
  obtain ⟨config, hplace, hstart⟩ := start_of_launch h
  obtain ⟨hfollows, hconfig⟩ := follows_of_start hstart
  refine ⟨config, hplace, fun turns hturns => ?_⟩
  have hlast := hfollows.through hturns
  refine ⟨?_, ?_, usable_lastLoaded (Config.usable_of_ofPlace hplace), ?_, fun place => ?_⟩
  · rw [hlast.proxies]
    exact Proxies.serves_ofTable _
  · rw [hlast.tokens, AcmeSettings.tokens, tokensOf_eq]
  · rw [config_through, hconfig]
  · rcases (s.through turns).reload_cases place with ⟨_, _, heq⟩ | ⟨_, _, heq⟩
    · rw [heq]
      exact ⟨_, _, rfl⟩
    · rw [heq]
      exact ⟨_, _, rfl⟩

/-! A server is started without proxy entries. The first reloads find no file, one with an entry and a challenge,
one that is usable in no way, and a directory. -/

def entryText : String :=
  "\x7b\"entry_ip_address_map\":\x7b\"E1\":\" 203.0.113.9\"\x7d,\"acme\":\x7b\"challenge_2\":\"digest\"\x7d\x7d"

def entryConfig : Config where
  proxies := Table.empty.insert "E1" " 203.0.113.9"
  acme := { challenge2 := some "digest" }

theorem ofText_entryText : Config.ofText (Text.toUtf8 entryText) = .ok entryConfig := by
  have hdenotes : Json.Denotes (Text.toUtf8 entryText) Config.meaning entryConfig :=
    Json.denotes_of_chars Config.reads_decode String.toList_ofList (by decide +kernel)
  have husable := Config.usable_standard
  have hnormal : entryConfig = entryConfig.normalized := by decide +kernel
  exact (Config.ofText_ok_iff ..).mpr
    ⟨entryConfig, hdenotes, ⟨husable.zones, husable.names, husable.inner, husable.room⟩, hnormal⟩

def startPlace : Place := .file (Text.toUtf8 Zone.nestedText)

def entryPlace : Place := .file (Text.toUtf8 entryText)

def faultyPlace : Place := .file (Text.toUtf8 Config.faultyText)

def reloadTurns : List Turn :=
  [.reload .absent, .reload entryPlace, .operation .clear, .reload faultyPlace, .reload .directory]

theorem lastLoaded_reloadTurns (config : Config) : lastLoaded config reloadTurns = entryConfig := by
  have hentry : Config.ofPlace entryPlace = .ok entryConfig := ofText_entryText
  have hfaulty : Config.ofPlace faultyPlace = .error .invalidZone := by
    have hfirst : Config.faultyConfig.complaints.head? = some .invalidZone := by
      rw [Config.complaints_faultyConfig]
      rfl
    exact (Config.ofText_error_iff (Text.toUtf8 Config.faultyText) _).mpr (.inr ⟨_, Config.denotes_faultyText, hfirst⟩)
  simp only [reloadTurns, lastLoaded_cons, Turn.loaded?, hentry, hfaulty]
  rfl

theorem reload_all_or_nothing_entry : ∃ s, launch "tunneldns" ["config.json"] (fun _ => startPlace) = .ok s ∧
    (s.through reloadTurns).proxies.get? "e1" = some "203.0.113.9" ∧ (s.through reloadTurns).tokens = ["digest"] ∧
    (s.through reloadTurns).config = Zone.nestedConfig := by
  have hplace : Config.ofPlace startPlace = .ok Zone.nestedConfig := Zone.ofText_nestedText
  obtain ⟨s, hlaunch⟩ : ∃ s, launch "tunneldns" ["config.json"] (fun _ => startPlace) = .ok s := by
    simp only [launch, hplace]
    exact ⟨_, rfl⟩
  obtain ⟨config, hconfig, hall⟩ := reload_all_or_nothing hlaunch
  have hkeeps : ∀ op, .operation op ∈ reloadTurns → op.keepsSources = true := by
    intro op hmem
    have hop : op = .clear := by simpa [reloadTurns] using hmem
    rw [hop]
    rfl
  obtain ⟨hserves, htokens, _, hsame, _⟩ := hall reloadTurns hkeeps
  rw [lastLoaded_reloadTurns] at hserves htokens
  refine ⟨s, hlaunch, ?_, htokens.trans (by decide +kernel), ?_⟩
  · cases hfound : (s.through reloadTurns).proxies.get? "e1" with
    | none => exact absurd (by decide +kernel) (hserves.missing "e1" hfound ("E1", " 203.0.113.9") (by decide +kernel))
    | some address =>
      obtain ⟨entry, hentry, _, haddress⟩ := hserves.found "e1" address hfound
      rw [haddress, List.mem_singleton.mp hentry]
      decide +kernel
  · rw [hsame]
    exact Except.ok.inj (hconfig.symm.trans hplace)

end Server

end NameServer
