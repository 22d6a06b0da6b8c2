import Mathlib.Data.List.Induction
import LineExchange.CommandLine
import LineExchange.Proofs.Text.Digits

/-!
# Reading — the arguments of a program, one word at a time

Options are read in pairs of words, and some words end the reading at once.  This file defines the
same reading as a state that every word moves on:

* `Flag.IsSpelled`, `Mode.Knows` — the words that mean something where no value is expected;
* `Setting` and `Mode.Spells` — options with their values, and the words that say them;
* `Draft.Takes` and `Draft.give?` — what one setting does to a draft, and what any number do;
* `Reading` — the state, with `Reading.next` and `Reading.result`;
* `Reading.IsFrom` — what is known of the state behind some words;
* `Mode.inForce`, `Mode.start`, `Mode.wordsOf` — the mode of some arguments, the draft that it
  starts with, and the words behind its name.

Drafts are read this way (`Draft.read_eq`), and so are all arguments (`ofArguments_eq`).  What is
known of a reading is kept by every word (`Reading.IsFrom.next`), so it is known behind any words
(`Reading.IsFrom.foldl`).
-/

namespace LineExchange

/-! ## Words -/

def Flag.IsSpelled (f : Flag) (word : String) : Prop :=
  word = f.long ∨ word = f.short

instance (f : Flag) (word : String) : Decidable (f.IsSpelled word) :=
  inferInstanceAs (Decidable (word = f.long ∨ word = f.short))

structure Setting where
  flag : Flag
  value : String
  deriving DecidableEq, Repr

namespace Mode

/-- A word means something in a mode, where no value is expected. -/
def Knows (m : Mode) (word : String) : Prop :=
  (∃ f ∈ m.flags, f.IsSpelled word) ∨ word = "--help" ∨ word = "--version" ∨ word = "-v"

/-- Words say settings of options of a mode: each option in one of its spellings, and behind it its
value, which may be any word. -/
inductive Spells (m : Mode) : List String → List Setting → Prop where
  | nil : Spells m [] []
  | cons {f : Flag} {word value : String} {words : List String} {ps : List Setting}
      (mem : f ∈ m.flags) (spelled : f.IsSpelled word) (rest : Spells m words ps) :
      Spells m (word :: value :: words) (⟨f, value⟩ :: ps)

variable {m : Mode} {f : Flag} {word value : String} {words : List String} {ps : List Setting}

/-- A mode takes a word for the option of its own that the word spells; no word spells two. -/
theorem flag?_eq_some_iff : m.flag? word = some f ↔ f ∈ m.flags ∧ f.IsSpelled word := by
  constructor
  · intro found
    have spelled := List.find?_some found
    rw [Bool.or_eq_true, beq_iff_eq, beq_iff_eq] at spelled
    exact ⟨List.mem_of_find?_eq_some found, spelled⟩
  · rintro ⟨mem, rfl | rfl⟩
    -- One mode, one option and one spelling at a time.
    · revert mem
      cases m <;> cases f <;> decide
    · revert mem
      cases m <;> cases f <;> decide

theorem Spells.concat (spells : m.Spells words ps) (mem : f ∈ m.flags)
    (spelled : f.IsSpelled word) : m.Spells (words ++ [word, value]) (ps ++ [⟨f, value⟩]) := by
  induction spells with
  | nil => exact .cons mem spelled .nil
  | cons mem' spelled' _ ih => exact .cons mem' spelled' ih

end Mode

/-! ## Settings -/

namespace Setting

def IsPort (value : String) (n : UInt16) : Prop :=
  Numeral.Spells value.toList n.toNat

def IsDelay (value : String) (n : UInt64) : Prop :=
  Numeral.Spells value.toList n.toNat

def IsCount (value : String) (n : Nat) : Prop :=
  Numeral.Spells value.toList n ∧ 0 < n ∧ n < UInt64.size

variable {value : String}

theorem isPort_iff {n : UInt16} :
    (Numeral.natural? UInt16.size value.toList).map .ofNat = some n ↔ IsPort value n := by
  simp only [Option.map_eq_some_iff, Numeral.natural?_eq_some_iff]
  constructor
  · rintro ⟨k, ⟨spells, small⟩, rfl⟩
    rwa [IsPort, UInt16.toNat_ofNat_of_lt' small]
  · intro spells
    exact ⟨n.toNat, ⟨spells, n.toNat_lt⟩, UInt16.ofNat_toNat⟩

theorem isDelay_iff {n : UInt64} :
    (Numeral.natural? UInt64.size value.toList).map .ofNat = some n ↔ IsDelay value n := by
  simp only [Option.map_eq_some_iff, Numeral.natural?_eq_some_iff]
  constructor
  · rintro ⟨k, ⟨spells, small⟩, rfl⟩
    rwa [IsDelay, UInt64.toNat_ofNat_of_lt' small]
  · intro spells
    exact ⟨n.toNat, ⟨spells, n.toNat_lt⟩, UInt64.ofNat_toNat⟩

theorem isCount_iff {n : Nat} : Draft.count? value = some n ↔ IsCount value n := by
  rw [Draft.count?, Option.filter_eq_some_iff, Numeral.natural?_eq_some_iff, decide_eq_true_iff]
  exact and_right_comm.trans and_assoc

end Setting

namespace Draft

open Setting

/-- What a setting does to a draft, if its option is one of the mode's and takes the value. -/
inductive Takes : Draft → Setting → Draft → Prop where
  | host {s : ServerSettings} {value : String} :
      Takes (.server s) ⟨.host, value⟩ (.server { s with host := value })
  | port {s : ServerSettings} {value : String} {n : UInt16} (reads : IsPort value n) :
      Takes (.server s) ⟨.port, value⟩ (.server { s with port := n })
  | serverThreads {s : ServerSettings} {value : String} {n : Nat} (reads : IsCount value n) :
      Takes (.server s) ⟨.threads, value⟩ (.server { s with threads := n })
  | delay {s : ServerSettings} {value : String} {n : UInt64} (reads : IsDelay value n) :
      Takes (.server s) ⟨.delay, value⟩ (.server { s with delayMs := n })
  | endpoint {s : ClientSettings} {given : List String} {value : String} {e : Endpoint}
      (reads : Endpoint.ofText? value = some e) :
      Takes (.client s given) ⟨.endpoint, value⟩ (.client { s with endpoint := e } given)
  | request {s : ClientSettings} {given : List String} {value : String} :
      Takes (.client s given) ⟨.request, value⟩ (.client s (value :: given))
  | clientThreads {s : ClientSettings} {given : List String} {value : String} {n : Nat}
      (reads : IsCount value n) :
      Takes (.client s given) ⟨.threads, value⟩ (.client { s with threads := n } given)

variable {d d' : Draft} {p : Setting} {ps : List Setting}

/-- Setting an option does nothing but what `Takes` says. -/
theorem takes_iff : d.set? p.flag p.value = some d' ↔ d.Takes p d' := by
  rcases p with ⟨f, value⟩
  constructor
  · intro set
    -- A draft has only the options of its own mode.
    cases d with
    | server s =>
        cases f with
        | host =>
            cases set
            exact .host
        | port =>
            rcases Option.map_eq_some_iff.1 set with ⟨n, read, rfl⟩
            exact .port (isPort_iff.1 (congrArg (Option.map UInt16.ofNat) read))
        | threads =>
            rcases Option.map_eq_some_iff.1 set with ⟨n, read, rfl⟩
            exact .serverThreads (isCount_iff.1 read)
        | delay =>
            rcases Option.map_eq_some_iff.1 set with ⟨n, read, rfl⟩
            exact .delay (isDelay_iff.1 (congrArg (Option.map UInt64.ofNat) read))
        | endpoint => cases set
        | request => cases set
    | client s given =>
        cases f with
        | endpoint =>
            rcases Option.map_eq_some_iff.1 set with ⟨e, read, rfl⟩
            exact .endpoint read
        | request =>
            cases set
            exact .request
        | threads =>
            rcases Option.map_eq_some_iff.1 set with ⟨n, read, rfl⟩
            exact .clientThreads (isCount_iff.1 read)
        | host => cases set
        | port => cases set
        | delay => cases set
  · intro takes
    cases takes with
    | host => rfl
    | port reads =>
        rcases Option.map_eq_some_iff.1 (isPort_iff.2 reads) with ⟨k, read, rfl⟩
        exact Option.map_eq_some_iff.2 ⟨k, read, rfl⟩
    | serverThreads reads => exact Option.map_eq_some_iff.2 ⟨_, isCount_iff.2 reads, rfl⟩
    | delay reads =>
        rcases Option.map_eq_some_iff.1 (isDelay_iff.2 reads) with ⟨k, read, rfl⟩
        exact Option.map_eq_some_iff.2 ⟨k, read, rfl⟩
    | endpoint reads => exact Option.map_eq_some_iff.2 ⟨_, reads, rfl⟩
    | request => rfl
    | clientThreads reads => exact Option.map_eq_some_iff.2 ⟨_, isCount_iff.2 reads, rfl⟩

theorem Takes.mode (takes : d.Takes p d') : d'.mode = d.mode := by
  cases takes <;> rfl

def give? (d : Draft) (ps : List Setting) : Option Draft :=
  ps.foldlM (fun d p => d.set? p.flag p.value) d

theorem give?_cons : d.give? (p :: ps) = (d.set? p.flag p.value).bind (·.give? ps) := rfl

theorem give?_concat_eq_some_iff {d₂ : Draft} :
    d.give? (ps ++ [p]) = some d₂ ↔ ∃ d₁, d.give? ps = some d₁ ∧ d₁.Takes p d₂ := by
  have last : d.give? (ps ++ [p]) = (d.give? ps).bind (·.set? p.flag p.value) := by
    simp [give?, List.foldlM_append]
  rw [last, Option.bind_eq_some_iff]
  exact exists_congr fun d₁ => and_congr_right fun _ => takes_iff

theorem mode_of_give? (given : d.give? ps = some d') : d'.mode = d.mode := by
  induction ps using List.reverseRecOn generalizing d' with
  | nil =>
      cases given
      rfl
  | append_singleton ps p ih =>
      rcases give?_concat_eq_some_iff.1 given with ⟨d₁, before, takes⟩
      exact takes.mode.trans (ih before)

end Draft

/-! ## Readings -/

inductive Reading where
  /-- It stands between two options. -/
  | ready (d : Draft)
  /-- It stands behind an option that has no value yet. -/
  | awaiting (d : Draft) (f : Flag)
  /-- No other word matters. -/
  | decided (r : Except SettingsError Command)

namespace Reading

/-- A result that one word decides, whatever is behind it. -/
inductive Decisive : Except SettingsError Command → Prop where
  | help : Decisive (.ok .help)
  | version : Decisive (.ok .version)
  | unknownArgument (word : String) : Decisive (.error (.unknownArgument word))
  | invalidValue (f : Flag) (value : String) : Decisive (.error (.invalidValue f value))

def meet (d : Draft) (word : String) : Reading :=
  match d.mode.flag? word with
  | some f => .awaiting d f
  | none =>
      if word == "--help" then .decided (.ok .help)
      else if word == "--version" || word == "-v" then .decided (.ok .version)
      else .decided (.error (.unknownArgument word))

def next : Reading → String → Reading
  | .ready d, word => meet d word
  | .awaiting d f, value =>
      match d.set? f value with
      | some d' => .ready d'
      | none => .decided (.error (.invalidValue f value))
  | .decided r, _ => .decided r

def result : Reading → Except SettingsError Command
  | .ready d => d.finish
  | .awaiting _ f => .error (.missingValue f)
  | .decided r => r

/-- What is known of the reading of some words that started with the draft `d`. -/
inductive IsFrom (d : Draft) : List String → Reading → Prop where
  | ready {words : List String} {ps : List Setting} {d' : Draft}
      (spells : d.mode.Spells words ps) (given : d.give? ps = some d') : IsFrom d words (.ready d')
  | awaiting {words : List String} {word : String} {ps : List Setting} {d' : Draft} {f : Flag}
      (spells : d.mode.Spells words ps) (given : d.give? ps = some d') (mem : f ∈ d.mode.flags)
      (spelled : f.IsSpelled word) : IsFrom d (words ++ [word]) (.awaiting d' f)
  | decided {words : List String} {r : Except SettingsError Command} (decisive : Decisive r) :
      IsFrom d words (.decided r)

variable {d : Draft} {r : Reading} {word : String} {words : List String}

@[simp] theorem foldl_decided (r : Except SettingsError Command) (words : List String) :
    words.foldl next (.decided r) = .decided r := by
  induction words with
  | nil => rfl
  | cons word words ih => exact ih

theorem meet_of_flag {f : Flag} (mem : f ∈ d.mode.flags) (spelled : f.IsSpelled word) :
    meet d word = .awaiting d f := by
  simp only [meet, Mode.flag?_eq_some_iff.2 ⟨mem, spelled⟩]

/-- A word that the mode does not know decides that it is unknown. -/
theorem meet_of_unknown (unknown : ¬d.mode.Knows word) :
    meet d word = .decided (.error (.unknownArgument word)) := by
  have noFlag : d.mode.flag? word = none := by
    rw [Option.eq_none_iff_forall_ne_some]
    intro f found
    exact unknown (.inl ⟨f, Mode.flag?_eq_some_iff.1 found⟩)
  have others : word ≠ "--help" ∧ word ≠ "--version" ∧ word ≠ "-v" := by
    refine ⟨?_, ?_, ?_⟩ <;> (rintro rfl; exact unknown (by simp [Mode.Knows]))
  simp [meet, noFlag, others]

/-- What a word does that is no option of the mode: it decides something. -/
theorem meet_of_noFlag (noFlag : d.mode.flag? word = none) :
    ∃ r, meet d word = .decided r ∧ Decisive r := by
  simp only [meet, noFlag]
  split
  · exact ⟨_, rfl, .help⟩
  · split
    · exact ⟨_, rfl, .version⟩
    · exact ⟨_, rfl, .unknownArgument word⟩

/-- Every word keeps what is known. -/
theorem IsFrom.next (known : IsFrom d words r) (word : String) :
    IsFrom d (words ++ [word]) (r.next word) := by
  cases known with
  | @ready _ ps d' spells given =>
      have mode : d'.mode = d.mode := Draft.mode_of_give? given
      show IsFrom d (words ++ [word]) (meet d' word)
      cases found : d'.mode.flag? word with
      | some f =>
          have own := Mode.flag?_eq_some_iff.1 found
          rw [meet_of_flag own.1 own.2]
          exact .awaiting spells given (mode ▸ own.1) own.2
      | none =>
          rcases meet_of_noFlag found with ⟨result, met, decisive⟩
          rw [met]
          exact .decided decisive
  | @awaiting words name ps d' f spells given mem spelled =>
      simp only [Reading.next]
      cases set : d'.set? f word with
      | some d₂ =>
          have takes : d'.Takes ⟨f, word⟩ d₂ := Draft.takes_iff.1 set
          have more : d.mode.Spells (words ++ [name, word]) (ps ++ [⟨f, word⟩]) :=
            spells.concat mem spelled
          rw [List.append_assoc]
          exact .ready more (Draft.give?_concat_eq_some_iff.2 ⟨d', given, takes⟩)
      | none => exact .decided (.invalidValue f word)
  | decided decisive => exact .decided decisive

theorem IsFrom.foldl (known : IsFrom d words r) (more : List String) :
    IsFrom d (words ++ more) (more.foldl Reading.next r) := by
  induction more generalizing words r with
  | nil => simpa using known
  | cons word more ih => simpa using ih (known.next word)

/-- Words that say settings which are all taken lead to the draft behind them. -/
theorem foldl_of_given {ps : List Setting} {d' : Draft} (spells : d.mode.Spells words ps)
    (given : d.give? ps = some d') : words.foldl next (.ready d) = .ready d' := by
  generalize same : d.mode = m at spells
  induction spells generalizing d with
  | nil =>
      cases given
      rfl
  | @cons f word value words ps mem spelled _ ih =>
      rw [Draft.give?_cons, Option.bind_eq_some_iff] at given
      rcases given with ⟨d₁, set, rest⟩
      have pair : next (next (.ready d) word) value = .ready d₁ := by
        simp only [next, meet_of_flag (same ▸ mem) spelled, set]
      rw [List.foldl_cons, List.foldl_cons, pair]
      have takes : d.Takes ⟨f, value⟩ d₁ := Draft.takes_iff.1 set
      exact ih rest (takes.mode.trans same)

/-- Words that say settings which are not all taken are refused for one of the values. -/
theorem foldl_of_refused {ps : List Setting} (spells : d.mode.Spells words ps)
    (refused : d.give? ps = none) :
    ∃ f value, words.foldl next (.ready d) = .decided (.error (.invalidValue f value)) := by
  generalize same : d.mode = m at spells
  induction spells generalizing d with
  | nil => cases refused
  | @cons f word value words ps mem spelled _ ih =>
      rw [Draft.give?_cons, Option.bind_eq_none_iff] at refused
      rw [List.foldl_cons, List.foldl_cons]
      simp only [next, meet_of_flag (same ▸ mem) spelled]
      cases set : d.set? f value with
      | some d₁ =>
          have takes : d.Takes ⟨f, value⟩ d₁ := Draft.takes_iff.1 set
          exact ih (refused d₁ set) (takes.mode.trans same)
      | none => exact ⟨f, value, foldl_decided _ words⟩

end Reading

/-- Drafts are read one word at a time. -/
theorem Draft.read_eq (d : Draft) (words : List String) :
    d.read words = (words.foldl Reading.next (.ready d)).result := by
  fun_induction Draft.read d words with
  | case1 d => rfl
  | case2 d word f found => simp [Reading.next, Reading.meet, found, Reading.result]
  | case3 d word f found value rest d' taken ih =>
      simp [Reading.next, Reading.meet, found, taken, ih]
  | case4 d word f found value rest refused =>
      simp [Reading.next, Reading.meet, found, refused, Reading.result]
  | case5 d word words found help => simp [Reading.next, Reading.meet, found, help, Reading.result]
  | case6 d word words found help version =>
      simp [Reading.next, Reading.meet, found, help, version, Reading.result]
  | case7 d word words found help version =>
      simp [Reading.next, Reading.meet, found, help, version, Reading.result]

/-! ## Arguments -/

namespace Mode

def inForce (arguments : List String) : Mode :=
  if arguments.head? = some Mode.client.name then .client else .server

/-- The words behind the name of the mode, if there is a name. -/
def wordsOf : List String → List String
  | [] => []
  | word :: rest => if word = Mode.client.name ∨ word = Mode.server.name then rest else word :: rest

def start (processors : Nat) : Mode → Draft
  | .server => .server (ServerSettings.standard processors)
  | .client => .client ClientSettings.standard []

@[simp] theorem mode_start (processors : Nat) (m : Mode) : (m.start processors).mode = m := by
  cases m <;> rfl

end Mode

namespace Reading

variable {processors : Nat} {arguments : List String}

def ofArguments (processors : Nat) (arguments : List String) : Reading :=
  (Mode.wordsOf arguments).foldl next (.ready ((Mode.inForce arguments).start processors))

theorem isFrom_ofArguments (processors : Nat) (arguments : List String) :
    IsFrom ((Mode.inForce arguments).start processors) (Mode.wordsOf arguments)
      (ofArguments processors arguments) :=
  IsFrom.foldl (.ready .nil rfl) (Mode.wordsOf arguments)

/-- Arguments choose their mode with the first of them, and more of them are only read on. -/
theorem ofArguments_append (hne : arguments ≠ []) (more : List String) :
    ofArguments processors (arguments ++ more) =
      more.foldl next (ofArguments processors arguments) := by
  cases arguments with
  | nil => exact absurd rfl hne
  | cons word rest =>
      have mode : Mode.inForce (word :: rest ++ more) = Mode.inForce (word :: rest) := rfl
      have words : Mode.wordsOf (word :: rest ++ more) = Mode.wordsOf (word :: rest) ++ more := by
        by_cases named : word = Mode.client.name ∨ word = Mode.server.name
        · simp only [Mode.wordsOf, List.cons_append, if_pos named]
        · simp only [Mode.wordsOf, List.cons_append, if_neg named]
      rw [ofArguments, mode, words, List.foldl_append]
      rfl

end Reading

namespace Command

theorem ofArguments_eq (processors : Nat) (arguments : List String) :
    Command.ofArguments processors arguments = (Reading.ofArguments processors arguments).result := by
  rw [Reading.ofArguments, ← Draft.read_eq]
  cases arguments with
  | nil => rfl
  | cons word rest =>
      by_cases client : word = Mode.client.name
      · simp [ofArguments, Mode.inForce, Mode.wordsOf, Mode.start, client]
      · by_cases server : word = Mode.server.name
        · have other : Mode.server.name ≠ Mode.client.name := by decide
          simp [ofArguments, Mode.inForce, Mode.wordsOf, Mode.start, server, other]
        · simp [ofArguments, Mode.inForce, Mode.wordsOf, Mode.start, client, server]

end Command
end LineExchange
