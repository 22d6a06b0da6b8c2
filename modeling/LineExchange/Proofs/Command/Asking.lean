import LineExchange.Proofs.Command.LastValues

/-!
# Asking — the command that some arguments ask for

Arguments ask for a mode with settings when they are the name of the mode, which may be left out for
a server, and behind it words that say the settings.  This file defines:

* `Mode.Asks` — that some arguments ask for a mode with some settings;
* `Command.IsAskedFor` — the command that some settings of a mode ask for, if they ask for one.

The draft behind some settings holds what they give (`Draft.give?_server_iff`,
`Draft.give?_client_iff`), and the last checks are those of `IsAskedFor` (`isAskedFor_iff`).  So
arguments get the command that they ask for (`ofArguments_eq_ok_iff`), and no other arguments get a
command to serve or to send (`exists_asks`).
-/

namespace LineExchange

open Setting

/-! ## Drafts -/

namespace Draft

variable {d : Draft} {ps : List Setting}

theorem exists_server (mode : d.mode = .server) : ∃ s, d = .server s := by
  cases d with
  | server s => exact ⟨s, rfl⟩
  | client => cases mode

theorem exists_client (mode : d.mode = .client) : ∃ s given, d = .client s given := by
  cases d with
  | server => cases mode
  | client s given => exact ⟨s, given, rfl⟩

theorem give?_server_iff {s₀ s : ServerSettings} (own : ∀ p ∈ ps, p.flag ∈ Mode.server.flags) :
    (Draft.server s₀).give? ps = some (.server s) ↔ s₀.IsGiven ps s := by
  induction ps using List.reverseRecOn generalizing s with
  | nil =>
      rw [ServerSettings.isGiven_nil_iff]
      constructor
      · intro given
        cases given
        rfl
      · rintro rfl
        rfl
  | append_singleton ps p ih =>
      have before : ∀ q ∈ ps, q.flag ∈ Mode.server.flags :=
        fun q mem => own q (List.mem_append_left _ mem)
      rw [give?_concat_eq_some_iff, ServerSettings.isGiven_concat_iff (own p (by simp))]
      constructor
      · rintro ⟨d, given, takes⟩
        rcases exists_server takes.mode.symm with ⟨s', rfl⟩
        exact ⟨s', (ih before).1 given, takes⟩
      · rintro ⟨s', isGiven, takes⟩
        exact ⟨.server s', (ih before).2 isGiven, takes⟩

theorem give?_client_iff {s₀ s : ClientSettings} {given : List String}
    (own : ∀ p ∈ ps, p.flag ∈ Mode.client.flags) :
    (Draft.client s₀ []).give? ps = some (.client s given) ↔ s₀.IsDrafted ps s given := by
  induction ps using List.reverseRecOn generalizing s given with
  | nil =>
      rw [ClientSettings.isDrafted_nil_iff]
      constructor
      · intro same
        cases same
        exact ⟨rfl, rfl⟩
      · rintro ⟨rfl, rfl⟩
        rfl
  | append_singleton ps p ih =>
      have before : ∀ q ∈ ps, q.flag ∈ Mode.client.flags :=
        fun q mem => own q (List.mem_append_left _ mem)
      rw [give?_concat_eq_some_iff, ClientSettings.isDrafted_concat_iff (own p (by simp))]
      constructor
      · rintro ⟨d, drafted, takes⟩
        rcases exists_client takes.mode.symm with ⟨s', given', rfl⟩
        exact ⟨s', given', (ih before).1 drafted, takes⟩
      · rintro ⟨s', given', drafted, takes⟩
        exact ⟨.client s' given', (ih before).2 drafted, takes⟩

theorem finish_server_eq_ok_iff {s : ServerSettings} {c : Command} :
    (Draft.server s).finish = .ok c ↔ c = .serve s ∧ ∃ ip, IpAddr.ofText? s.host = some ip := by
  simp only [finish, ServerSettings.bindAddress]
  cases IpAddr.ofText? s.host with
  | some ip => simp [Except.map, eq_comm]
  | none => simp [Except.map]

theorem finish_client_eq_ok_iff {s : ClientSettings} {given : List String} {c : Command} :
    (Draft.client s given).finish = .ok c ↔
      c = .send { s with requests := s.requests ++ given.reverse } ∧
        s.requests ++ given.reverse ≠ [] := by
  simp only [finish]
  split
  · rename_i hnone
    have empty : s.requests ++ given.reverse = [] := List.isEmpty_iff.1 hnone
    simp [empty]
  · rename_i hne
    have kept : s.requests ++ given.reverse ≠ [] := fun empty => hne (List.isEmpty_iff.2 empty)
    rw [Except.ok.injEq, and_iff_left kept]
    exact eq_comm

end Draft

/-! ## Commands -/

/-- The command that some settings of a mode ask for, on a machine with `processors` processors: a
server has to be given the address of a host, and a client something to send. -/
inductive Command.IsAskedFor (processors : Nat) (ps : List Setting) : Mode → Command → Prop where
  | serve {s : ServerSettings} {ip : IpAddr}
      (given : (ServerSettings.standard processors).IsGiven ps s)
      (host : IpAddr.ofText? s.host = some ip) : IsAskedFor processors ps .server (.serve s)
  | send {s : ClientSettings} (given : ClientSettings.standard.IsGiven ps s)
      (hne : s.requests ≠ []) : IsAskedFor processors ps .client (.send s)

namespace Mode

variable {m : Mode} {arguments words : List String} {ps : List Setting}

/-- Arguments ask for a mode with some settings; the name of the server's mode may be left out. -/
def Asks (m : Mode) (arguments : List String) (ps : List Setting) : Prop :=
  ∃ words, m.Spells words ps ∧ (arguments = m.name :: words ∨ m = .server ∧ arguments = words)

theorem Spells.own (spells : m.Spells words ps) : ∀ p ∈ ps, p.flag ∈ m.flags := by
  induction spells with
  | nil => simp
  | cons mem _ _ ih => exact List.forall_mem_cons.2 ⟨mem, ih⟩

/-- No option is spelled like a mode. -/
theorem not_isSpelled_name (m : Mode) (f : Flag) : ¬f.IsSpelled m.name := by
  cases m <;> cases f <;> simp [Flag.IsSpelled, name, Flag.long, Flag.short]

theorem asks_iff : m.Asks arguments ps ↔ inForce arguments = m ∧ m.Spells (wordsOf arguments) ps := by
  have ne : Mode.server.name ≠ Mode.client.name := by decide
  constructor
  · rintro ⟨words, spells, rfl | ⟨rfl, rfl⟩⟩
    · cases m with
      | server => exact ⟨by simp [inForce, ne], by simpa [wordsOf] using spells⟩
      | client => exact ⟨by simp [inForce], by simpa [wordsOf] using spells⟩
    · -- Words that say settings do not begin with the name of a mode.
      cases spells with
      | nil => exact ⟨rfl, .nil⟩
      | @cons f word value words ps mem spelled rest =>
          have noName : ∀ m : Mode, word ≠ m.name := by
            rintro m rfl
            exact not_isSpelled_name m f spelled
          refine ⟨by simp [inForce, noName], ?_⟩
          simpa [wordsOf, noName] using Spells.cons mem spelled rest
  · rintro ⟨rfl, spells⟩
    cases arguments with
    | nil => exact ⟨[], spells, .inr ⟨rfl, rfl⟩⟩
    | cons word rest =>
        by_cases client : word = Mode.client.name
        · subst client
          exact ⟨rest, by simpa [wordsOf] using spells, .inl (by simp [inForce])⟩
        · by_cases server : word = Mode.server.name
          · subst server
            exact ⟨rest, by simpa [wordsOf] using spells, .inl (by simp [inForce, ne])⟩
          · refine ⟨word :: rest, ?_, .inr ⟨by simp [inForce, client], rfl⟩⟩
            simpa [wordsOf, client, server] using spells

end Mode

namespace Command

open Reading

variable {processors : Nat} {arguments : List String} {m : Mode} {ps : List Setting} {c : Command}

/-- The last checks let a draft through if the settings that it is given ask for a command. -/
theorem isAskedFor_iff (own : ∀ p ∈ ps, p.flag ∈ m.flags) :
    c.IsAskedFor processors ps m ↔
      ∃ d, (m.start processors).give? ps = some d ∧ d.finish = .ok c := by
  constructor
  · intro asked
    cases asked with
    | @serve s ip given host =>
        have drafted := (Draft.give?_server_iff own).2 given
        exact ⟨.server s, drafted, Draft.finish_server_eq_ok_iff.2 ⟨rfl, ip, host⟩⟩
    | send isGiven hne =>
        rcases ClientSettings.isGiven_iff.1 isGiven with ⟨s, given, drafted, rfl⟩
        exact ⟨.client s given, (Draft.give?_client_iff own).2 drafted,
          Draft.finish_client_eq_ok_iff.2 ⟨rfl, hne⟩⟩
  · rintro ⟨d, given, finish⟩
    have mode : d.mode = m := (Draft.mode_of_give? given).trans (Mode.mode_start processors m)
    cases m with
    | server =>
        rcases Draft.exists_server mode with ⟨s, rfl⟩
        rcases Draft.finish_server_eq_ok_iff.1 finish with ⟨rfl, ip, host⟩
        exact .serve ((Draft.give?_server_iff own).1 given) host
    | client =>
        rcases Draft.exists_client mode with ⟨s, requests, rfl⟩
        rcases Draft.finish_client_eq_ok_iff.1 finish with ⟨rfl, hne⟩
        have drafted := (Draft.give?_client_iff own).1 given
        exact .send (ClientSettings.isGiven_iff.2 ⟨s, requests, drafted, rfl⟩) hne

/-- Arguments that ask for a mode with some settings get the command that these ask for. -/
theorem ofArguments_eq_ok_iff (asks : m.Asks arguments ps) :
    Command.ofArguments processors arguments = .ok c ↔ c.IsAskedFor processors ps m := by
  rcases Mode.asks_iff.1 asks with ⟨rfl, spells⟩
  have spells' : ((Mode.inForce arguments).start processors).mode.Spells
      (Mode.wordsOf arguments) ps := by
    rwa [Mode.mode_start]
  rw [ofArguments_eq, isAskedFor_iff spells.own, Reading.ofArguments]
  cases given : ((Mode.inForce arguments).start processors).give? ps with
  | some d =>
      rw [foldl_of_given spells' given]
      simp [result]
  | none =>
      rcases foldl_of_refused spells' given with ⟨f, value, refused⟩
      rw [refused]
      simp [result]

/-- Arguments that get a command other than help and the version ask for it with some settings. -/
theorem exists_asks (ok : Command.ofArguments processors arguments = .ok c) (noHelp : c ≠ .help)
    (noVersion : c ≠ .version) : ∃ ps, (Mode.inForce arguments).Asks arguments ps := by
  rw [ofArguments_eq] at ok
  have known := isFrom_ofArguments processors arguments
  revert known ok
  generalize Reading.ofArguments processors arguments = r
  generalize here : Mode.wordsOf arguments = words
  intro ok known
  cases known with
  | @ready _ ps _ spells _ =>
      rw [Mode.mode_start, ← here] at spells
      exact ⟨ps, Mode.asks_iff.2 ⟨rfl, spells⟩⟩
  | awaiting => cases ok
  | decided decisive =>
      simp only [result] at ok
      subst ok
      cases decisive with
      | help => exact absurd rfl noHelp
      | version => exact absurd rfl noVersion

theorem IsAskedFor.congr {qs : List Setting} (asked : c.IsAskedFor processors ps m)
    (same : ∀ f, valuesOf f qs = valuesOf f ps) : c.IsAskedFor processors qs m := by
  cases asked with
  | serve given host => exact .serve (given.congr same) host
  | send given hne => exact .send (given.congr same) hne

theorem IsAskedFor.drop {p : Setting} {before after : List Setting}
    (asked : c.IsAskedFor processors (before ++ p :: after) m)
    (overridden : p.flag ∈ after.map Setting.flag) (noRequest : p.flag ≠ .request) :
    c.IsAskedFor processors (before ++ after) m := by
  cases asked with
  | serve given host => exact .serve (given.drop overridden) host
  | send given hne => exact .send (given.drop overridden noRequest) hne

/-- The command line is accepted exactly, and the last value of an option wins.  Arguments are
accepted to serve, with some settings, if and only if they are an optional `server` and then options
of a server with a value each, all of the values can be read, each of the settings is the last value
of its option or the default, and the host is the address of one.  They are accepted to send, with
some settings, if and only if they are `client` and then options of a client with a value each, in
the same way, and the requests are all values of that option in their order, of which there is one.
So an accepted command stays the same when the options are spelled otherwise or come in an order in
which each of them has the same values in the same order, and when an option other than a request is
left out that comes again behind.  A server that is accepted has an endpoint to listen on, and at
least one thread if the machine has a processor. -/
theorem accepts_exactly_last_values (processors : Nat) (arguments : List String) :
    (∀ s, Command.ofArguments processors arguments = .ok (.serve s) ↔
      ∃ ps, Mode.server.Asks arguments ps ∧ (ServerSettings.standard processors).IsGiven ps s ∧
        ∃ ip, IpAddr.ofText? s.host = some ip) ∧
    (∀ s, Command.ofArguments processors arguments = .ok (.send s) ↔
      ∃ ps, Mode.client.Asks arguments ps ∧ ClientSettings.standard.IsGiven ps s ∧
        s.requests ≠ []) ∧
    (∀ (m : Mode) ps c, m.Asks arguments ps → Command.ofArguments processors arguments = .ok c →
      (∀ others qs, m.Asks others qs → (∀ f, valuesOf f qs = valuesOf f ps) →
        Command.ofArguments processors others = .ok c) ∧
      ∀ others before p after, ps = before ++ p :: after → p.flag ∈ after.map Setting.flag →
        p.flag ≠ .request → m.Asks others (before ++ after) →
        Command.ofArguments processors others = .ok c) ∧
    ∀ s, Command.ofArguments processors arguments = .ok (.serve s) →
      (∃ e, s.bindAddress = .ok e) ∧ (0 < processors → 0 < s.threads) := by
  have serves (s : ServerSettings) :
      Command.ofArguments processors arguments = .ok (.serve s) ↔
        ∃ ps, Mode.server.Asks arguments ps ∧ (ServerSettings.standard processors).IsGiven ps s ∧
          ∃ ip, IpAddr.ofText? s.host = some ip := by
    constructor
    · intro ok
      rcases exists_asks ok (by simp) (by simp) with ⟨ps, asks⟩
      -- Which mode is in force is told by the result.
      generalize Mode.inForce arguments = m at asks
      cases (ofArguments_eq_ok_iff asks).1 ok with
      | @serve _ ip given host => exact ⟨ps, asks, given, ip, host⟩
    · rintro ⟨ps, asks, given, ip, host⟩
      exact (ofArguments_eq_ok_iff asks).2 (.serve given host)
  refine ⟨serves, ?_, ?_, ?_⟩
  · intro s
    constructor
    · intro ok
      rcases exists_asks ok (by simp) (by simp) with ⟨ps, asks⟩
      generalize Mode.inForce arguments = m at asks
      cases (ofArguments_eq_ok_iff asks).1 ok with
      | send given hne => exact ⟨ps, asks, given, hne⟩
    · rintro ⟨ps, asks, given, hne⟩
      exact (ofArguments_eq_ok_iff asks).2 (.send given hne)
  · intro m ps c asks ok
    have asked := (ofArguments_eq_ok_iff asks).1 ok
    constructor
    · intro others qs asks' same
      exact (ofArguments_eq_ok_iff asks').2 (asked.congr same)
    · rintro others before p after rfl overridden noRequest asks'
      exact (ofArguments_eq_ok_iff asks').2 (asked.drop overridden noRequest)
  · intro s ok
    rcases (serves s).1 ok with ⟨ps, -, given, ip, host⟩
    constructor
    · exact ⟨.ofIp ip s.port, by simp only [ServerSettings.bindAddress, host]⟩
    · intro hne
      exact given.threads_pos (Nat.mul_pos (by decide) hne)

/-- A host that is refused if it is the last, and looks like an option besides. -/
def twoHosts : List Setting :=
  [⟨.port, "80"⟩, ⟨.host, "--port"⟩, ⟨.threads, "+3"⟩, ⟨.host, "::1"⟩]

def twoHostsApart : List Setting :=
  [⟨.host, "--port"⟩, ⟨.threads, "+3"⟩, ⟨.port, "80"⟩, ⟨.host, "::1"⟩]

def twoHostsCommand : Command :=
  .serve { host := "::1", port := 80, threads := 3, delayMs := 500 }

theorem accepts_twoHosts :
    Mode.server.Asks ["-p", "80", "--host", "--port", "-t", "+3", "-h", "::1"] twoHosts ∧
      Command.ofArguments 1 ["-p", "80", "--host", "--port", "-t", "+3", "-h", "::1"] =
        .ok twoHostsCommand ∧
      (∀ f, valuesOf f twoHostsApart = valuesOf f twoHosts) ∧
      Command.ofArguments 1
          ["server", "-h", "--port", "--threads", "+3", "--port", "80", "-h", "::1"] =
        .ok twoHostsCommand ∧
      Command.ofArguments 1 ["-p", "80", "-t", "+3", "-h", "::1"] = .ok twoHostsCommand := by
  have asks : Mode.server.Asks ["-p", "80", "--host", "--port", "-t", "+3", "-h", "::1"]
      twoHosts := by
    refine ⟨_, .cons ?_ ?_ (.cons ?_ ?_ (.cons ?_ ?_ (.cons ?_ ?_ .nil))), .inr ⟨rfl, rfl⟩⟩
    all_goals decide
  have asksApart : Mode.server.Asks
      ["server", "-h", "--port", "--threads", "+3", "--port", "80", "-h", "::1"]
      twoHostsApart := by
    refine ⟨_, .cons ?_ ?_ (.cons ?_ ?_ (.cons ?_ ?_ (.cons ?_ ?_ .nil))), .inl rfl⟩
    all_goals decide
  have asksOnce : Mode.server.Asks ["-p", "80", "-t", "+3", "-h", "::1"]
      ([⟨.port, "80"⟩] ++ [⟨.threads, "+3"⟩, ⟨.host, "::1"⟩]) := by
    refine ⟨_, .cons ?_ ?_ (.cons ?_ ?_ (.cons ?_ ?_ .nil)), .inr ⟨rfl, rfl⟩⟩
    all_goals decide
  have ok : Command.ofArguments 1 ["-p", "80", "--host", "--port", "-t", "+3", "-h", "::1"] =
      .ok twoHostsCommand := by decide +kernel
  have same : ∀ f, valuesOf f twoHostsApart = valuesOf f twoHosts := by
    intro f
    cases f <;> rfl
  rcases (accepts_exactly_last_values 1 _).2.2.1 .server twoHosts twoHostsCommand asks ok with
    ⟨apart, once⟩
  refine ⟨asks, ok, same, apart _ _ asksApart same, ?_⟩
  exact once _ [⟨.port, "80"⟩] ⟨.host, "--port"⟩ [⟨.threads, "+3"⟩, ⟨.host, "::1"⟩] rfl
    (by decide) (by decide) asksOnce

end Command
end LineExchange
