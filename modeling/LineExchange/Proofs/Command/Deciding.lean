import LineExchange.Proofs.Command.Reading

/-!
# Deciding — which argument decides what the arguments ask for

Some results are those of one word, and others are found only when no word is left.  They are told
apart by the state that the reading of the arguments has come to: a `Decisive` result is that of a
reading that is decided, a `Provisional` one that of a reading that stands between two options, and
a value is missing when the reading stands behind an option (`IsFrom.of_decisive`,
`IsFrom.of_provisional`, `IsFrom.of_missingValue`).

So the leftmost word that decides something decides the result
(`leftmost_decisive_argument_decides`).
-/

namespace LineExchange
namespace Reading

/-- A result of the checks that are made when there is no word left. -/
inductive Provisional : Except SettingsError Command → Prop where
  | serve (s : ServerSettings) : Provisional (.ok (.serve s))
  | send (s : ClientSettings) : Provisional (.ok (.send s))
  | invalidHost (host : String) : Provisional (.error (.invalidHost host))
  | noRequests : Provisional (.error .noRequests)

variable {d : Draft} {r : Reading} {words : List String}

theorem provisional_finish (d : Draft) : Provisional d.finish := by
  cases d with
  | server s =>
      simp only [Draft.finish, ServerSettings.bindAddress]
      cases IpAddr.ofText? s.host with
      | some ip => exact .serve s
      | none => exact .invalidHost s.host
  | client s given =>
      simp only [Draft.finish]
      split
      · exact .noRequests
      · exact .send _

theorem Decisive.not_provisional {result : Except SettingsError Command}
    (decisive : Decisive result) : ¬Provisional result := by
  intro provisional
  cases decisive <;> cases provisional

/-- Only a reading that is decided has a decisive result. -/
theorem IsFrom.of_decisive (known : IsFrom d words r) (decisive : Decisive r.result) :
    r = .decided r.result := by
  cases known with
  | @ready _ _ d' => exact absurd (provisional_finish d') decisive.not_provisional
  | awaiting => cases decisive
  | decided => rfl

/-- Only between two options a result is provisional. -/
theorem IsFrom.of_provisional (known : IsFrom d words r) (provisional : Provisional r.result) :
    ∃ d', r = .ready d' ∧ d'.mode = d.mode := by
  cases known with
  | ready _ given => exact ⟨_, rfl, Draft.mode_of_give? given⟩
  | awaiting => cases provisional
  | decided decisive => exact absurd provisional decisive.not_provisional

/-- Only behind an option its value is missing. -/
theorem IsFrom.of_missingValue {f : Flag} (known : IsFrom d words r)
    (missing : r.result = .error (.missingValue f)) :
    ∃ before word d', words = before ++ [word] ∧ f.IsSpelled word ∧ r = .awaiting d' f := by
  cases known with
  | @ready _ _ d' =>
      have provisional := provisional_finish d'
      simp only [result] at missing
      rw [missing] at provisional
      cases provisional
  | awaiting _ _ _ spelled =>
      cases missing
      exact ⟨_, _, _, rfl, spelled, rfl⟩
  | decided decisive =>
      simp only [result] at missing
      rw [missing] at decisive
      cases decisive

/-- The word behind an option is refused as its value, or leaves nothing but the last checks. -/
theorem result_next_awaiting (d : Draft) (f : Flag) (value : String) :
    ((Reading.awaiting d f).next value).result = .error (.invalidValue f value) ∨
      Provisional ((Reading.awaiting d f).next value).result := by
  simp only [next]
  split
  · exact .inr (provisional_finish _)
  · exact .inl rfl

end Reading

/-- The last of the words behind the name of a mode is the last argument. -/
theorem Mode.getLast?_of_wordsOf {arguments before : List String} {word : String}
    (words : wordsOf arguments = before ++ [word]) : arguments.getLast? = some word := by
  have suffix : wordsOf arguments <:+ arguments := by
    cases arguments with
    | nil => exact List.suffix_rfl
    | cons first rest =>
        rw [wordsOf]
        split
        · exact List.suffix_cons first rest
        · exact List.suffix_rfl
  rcases suffix with ⟨name, split⟩
  rw [← split, words, ← List.append_assoc, List.getLast?_concat]

namespace Command

open Reading

/-- No arguments have no result but a provisional one. -/
theorem ne_nil_of_not_provisional (processors : Nat) {arguments : List String}
    (decided : ¬Provisional (Command.ofArguments processors arguments)) : arguments ≠ [] := by
  rintro rfl
  rw [ofArguments_eq] at decided
  exact decided (provisional_finish (Mode.server.start processors))

/-- The leftmost decisive argument decides.  First, a result that is the answer to one argument —
help, the version, an unknown argument, a value that an option does not take — is the result
whatever is behind the arguments.  Second, if the value of an option is missing, the last argument
is a spelling of the option, and one more argument is refused as its value or leaves only what is
checked at the end: a command to serve or to send, a host that is no address, no requests.  Third,
if there are arguments and their result is of this last kind, the next argument decides that it is
unknown, whatever is behind it, unless the mode in force knows it. -/
theorem leftmost_decisive_argument_decides (processors : Nat) (arguments : List String) :
    (Decisive (Command.ofArguments processors arguments) →
      ∀ more, Command.ofArguments processors (arguments ++ more) =
        Command.ofArguments processors arguments) ∧
    (∀ f, Command.ofArguments processors arguments = .error (.missingValue f) →
      (∃ word, arguments.getLast? = some word ∧ f.IsSpelled word) ∧
      ∀ value,
        Command.ofArguments processors (arguments ++ [value]) = .error (.invalidValue f value) ∨
        Provisional (Command.ofArguments processors (arguments ++ [value]))) ∧
    (arguments ≠ [] → Provisional (Command.ofArguments processors arguments) →
      ∀ word more, ¬(Mode.inForce arguments).Knows word →
        Command.ofArguments processors (arguments ++ [word] ++ more) =
          .error (.unknownArgument word)) := by
  have known := isFrom_ofArguments processors arguments
  refine ⟨?_, ?_, ?_⟩
  · intro decisive more
    have hne : arguments ≠ [] := ne_nil_of_not_provisional processors decisive.not_provisional
    rw [ofArguments_eq] at decisive
    have decided := known.of_decisive decisive
    rw [ofArguments_eq, ofArguments_append hne, decided, foldl_decided, ofArguments_eq]
    rfl
  · intro f missing
    have hne : arguments ≠ [] := by
      refine ne_nil_of_not_provisional processors ?_
      rw [missing]
      intro provisional
      cases provisional
    -- Only the last word is without its value, so whatever comes next is that value.
    rw [ofArguments_eq] at missing
    rcases known.of_missingValue missing with ⟨before, word, d', words, spelled, awaits⟩
    refine ⟨⟨word, Mode.getLast?_of_wordsOf words, spelled⟩, ?_⟩
    intro value
    rw [ofArguments_eq, ofArguments_append hne, awaits]
    exact result_next_awaiting d' f value
  · intro hne provisional word more unknown
    rw [ofArguments_eq] at provisional
    rcases known.of_provisional provisional with ⟨d', ready, mode⟩
    have inForce : d'.mode = Mode.inForce arguments := mode.trans (Mode.mode_start _ _)
    -- Such a word is met where an option could stand, and decides at once.
    have met : (Reading.ready d').next word = .decided (.error (.unknownArgument word)) :=
      meet_of_unknown (inForce ▸ unknown)
    rw [ofArguments_eq, List.append_assoc, ofArguments_append hne, ready, List.singleton_append,
      List.foldl_cons, met, foldl_decided]
    rfl

/-- A port that is none, a value that looks like an option in front of an option without a value,
and a host that is no address. -/
theorem decides_in_mixedArguments :
    Command.ofArguments 1 ["server", "-p", "http", "--help"] = .error (.invalidValue .port "http") ∧
      Command.ofArguments 1 ["client", "-r", "--help", "-e"] = .error (.missingValue .endpoint) ∧
      Provisional (Command.ofArguments 1 ["client", "-r", "--help", "-e", "[::1]:80"]) ∧
      ¬Mode.server.Knows "client" ∧
      Command.ofArguments 1 ["-h", "nowhere", "client", "-v"] =
        .error (.unknownArgument "client") := by
  have port : Command.ofArguments 1 ["server", "-p", "http"] =
      .error (.invalidValue .port "http") := by decide +kernel
  have missing : Command.ofArguments 1 ["client", "-r", "--help", "-e"] =
      .error (.missingValue .endpoint) := by decide +kernel
  have host : Command.ofArguments 1 ["-h", "nowhere"] = .error (.invalidHost "nowhere") := by
    decide +kernel
  have unknown : ¬Mode.server.Knows "client" := by
    simp [Mode.Knows, Mode.flags, Flag.IsSpelled, Flag.long, Flag.short]
  refine ⟨?_, missing, ?_, unknown, ?_⟩
  · have decisive : Decisive (Command.ofArguments 1 ["server", "-p", "http"]) :=
      port ▸ .invalidValue .port "http"
    exact ((leftmost_decisive_argument_decides 1 _).1 decisive ["--help"]).trans port
  · have next := (leftmost_decisive_argument_decides 1 _).2.1 .endpoint missing
    exact (next.2 "[::1]:80").resolve_left (by decide +kernel)
  · have provisional : Provisional (Command.ofArguments 1 ["-h", "nowhere"]) :=
      host ▸ .invalidHost "nowhere"
    exact (leftmost_decisive_argument_decides 1 ["-h", "nowhere"]).2.2 (by simp) provisional
      "client" ["-v"] unknown

end Command
end LineExchange
