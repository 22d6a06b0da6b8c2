import Mathlib.Data.List.Basic
import LineExchange.Proofs.Command.Reading

/-!
# Last values — what settings give, the last of each option

An option may be given any number of times.  This file says what some settings give without saying
how they are read:

* `Setting.valuesOf` — the values of one option, in order;
* `IsLast` — a number, a host or an endpoint is what the last of some values reads as, or the
  default when there are none;
* `ServerSettings.IsGiven`, `ClientSettings.IsGiven` — field by field, what some settings give;
* `ClientSettings.IsDrafted` — the same for a client's draft, which keeps the requests apart.

One more setting is taken by what those before it give, and gives the rest
(`ServerSettings.isGiven_concat_iff`, `ClientSettings.isDrafted_concat_iff`).  What is given depends
on nothing but the values of each option (`IsGiven.congr`), of which only the last counts where it is
not a request (`IsGiven.drop`).
-/

namespace LineExchange

/-! ## Values -/

namespace Setting

variable {f : Flag} {p : Setting} {ps : List Setting}

def valuesOf (f : Flag) (ps : List Setting) : List String :=
  (ps.filter fun p => p.flag == f).map Setting.value

@[simp] theorem valuesOf_nil (f : Flag) : valuesOf f [] = [] := rfl

@[simp] theorem valuesOf_append (f : Flag) (ps qs : List Setting) :
    valuesOf f (ps ++ qs) = valuesOf f ps ++ valuesOf f qs := by
  simp [valuesOf]

@[simp] theorem valuesOf_cons_self (value : String) (ps : List Setting) :
    valuesOf f (⟨f, value⟩ :: ps) = value :: valuesOf f ps := by
  simp [valuesOf]

theorem valuesOf_cons_of_ne (other : p.flag ≠ f) : valuesOf f (p :: ps) = valuesOf f ps := by
  simp [valuesOf, other]

theorem valuesOf_ne_nil (mem : f ∈ ps.map Setting.flag) : valuesOf f ps ≠ [] := by
  rcases List.mem_map.1 mem with ⟨p, here, rfl⟩
  simpa [valuesOf] using ⟨p, here, rfl⟩

end Setting

open Setting

/-- All of the values can be read, and `x` is what the last of them reads as; it is the default if
there are none. -/
inductive IsLast {α : Type} (reads : String → α → Prop) (default : α) :
    List String → α → Prop where
  | standard : IsLast reads default [] default
  | last {values : List String} {value : String} {x : α}
      (readable : ∀ v ∈ values, ∃ y, reads v y) (read : reads value x) :
      IsLast reads default (values ++ [value]) x

namespace IsLast

variable {α : Type} {reads : String → α → Prop} {default x : α} {values more : List String}
  {value : String}

theorem readable (last : IsLast reads default values x) : ∀ v ∈ values, ∃ y, reads v y := by
  intro v mem
  cases last with
  | standard => cases mem
  | last readable read =>
      rcases List.mem_append.1 mem with before | here
      · exact readable v before
      · rw [List.mem_singleton.1 here]
        exact ⟨x, read⟩

theorem eq_default_or_reads (last : IsLast reads default values x) :
    x = default ∨ ∃ v, reads v x := by
  cases last with
  | standard => exact .inl rfl
  | last _ read => exact .inr ⟨_, read⟩

theorem exists_of_readable (readable : ∀ v ∈ values, ∃ y, reads v y) (default : α) :
    ∃ y, IsLast reads default values y := by
  rcases List.eq_nil_or_concat' values with rfl | ⟨before, v, rfl⟩
  · exact ⟨default, .standard⟩
  · rcases readable v (by simp) with ⟨y, read⟩
    exact ⟨y, .last (fun u mem => readable u (List.mem_append_left _ mem)) read⟩

@[simp] theorem nil_iff : IsLast reads default [] x ↔ x = default := by
  constructor
  · intro last
    generalize hnone : ([] : List String) = values at last
    cases last with
    | standard => rfl
    | last => simp at hnone
  · rintro rfl
    exact .standard

/-- One more value is read, and is the last. -/
theorem concat_iff :
    IsLast reads default (values ++ [value]) x ↔
      (∃ y, IsLast reads default values y) ∧ reads value x := by
  constructor
  · intro last
    have all := last.readable
    have before : ∃ y, IsLast reads default values y :=
      exists_of_readable (fun v mem => all v (List.mem_append_left _ mem)) default
    generalize same : values ++ [value] = vs at last
    cases last with
    | standard => simp at same
    | last _ read =>
        cases List.append_singleton_inj.1 same with
        | intro _ here =>
            subst here
            exact ⟨before, read⟩
  · rintro ⟨⟨y, before⟩, read⟩
    exact .last before.readable read

/-- A value with another one behind it does not count. -/
theorem drop (last : IsLast reads default (values ++ value :: more) x) (hne : more ≠ []) :
    IsLast reads default (values ++ more) x := by
  rcases List.eq_nil_or_concat' more with rfl | ⟨others, v, rfl⟩
  · exact absurd rfl hne
  · rw [← List.cons_append, ← List.append_assoc, concat_iff] at last
    rcases last with ⟨⟨y, before⟩, read⟩
    rw [← List.append_assoc, concat_iff]
    refine ⟨exists_of_readable (fun u mem => before.readable u ?_) default, read⟩
    rcases List.mem_append.1 mem with left | right
    · exact List.mem_append_left _ left
    · exact List.mem_append_right _ (List.mem_cons_of_mem _ right)

/-- A setting with another one of its option behind it does not count for any field. -/
theorem drop_setting {f : Flag} {p : Setting} {before after : List Setting}
    (last : IsLast reads default (valuesOf f (before ++ p :: after)) x)
    (overridden : p.flag ∈ after.map Setting.flag) :
    IsLast reads default (valuesOf f (before ++ after)) x := by
  rcases p with ⟨g, value⟩
  by_cases own : g = f
  · subst own
    rw [valuesOf_append, valuesOf_cons_self] at last
    rw [valuesOf_append]
    exact last.drop (valuesOf_ne_nil overridden)
  · rw [valuesOf_append, valuesOf_cons_of_ne own] at last
    rwa [valuesOf_append]

end IsLast

/-! ## Fields -/

/-- What some settings make of the settings `s₀` of a server. -/
structure ServerSettings.IsGiven (s₀ : ServerSettings) (ps : List Setting) (s : ServerSettings) :
    Prop where
  host : IsLast (fun value host => host = value) s₀.host (valuesOf .host ps) s.host
  port : IsLast IsPort s₀.port (valuesOf .port ps) s.port
  threads : IsLast IsCount s₀.threads (valuesOf .threads ps) s.threads
  delay : IsLast IsDelay s₀.delayMs (valuesOf .delay ps) s.delayMs

/-- What some settings make of the settings `s₀` of a client: the last of each field, and all of the
requests. -/
structure ClientSettings.IsGiven (s₀ : ClientSettings) (ps : List Setting) (s : ClientSettings) :
    Prop where
  endpoint : IsLast (fun value e => Endpoint.ofText? value = some e) s₀.endpoint
    (valuesOf .endpoint ps) s.endpoint
  threads : IsLast IsCount s₀.threads (valuesOf .threads ps) s.threads
  requests : s.requests = s₀.requests ++ valuesOf .request ps

namespace IsLast

variable {α : Type} {reads : String → α → Prop} {default x : α} {f g : Flag} {value : String}
  {ps : List Setting}

theorem concat_own :
    IsLast reads default (valuesOf f (ps ++ [⟨f, value⟩])) x ↔
      (∃ y, IsLast reads default (valuesOf f ps) y) ∧ reads value x := by
  rw [valuesOf_append, valuesOf_cons_self, valuesOf_nil, concat_iff]

theorem concat_other (other : g ≠ f) :
    IsLast reads default (valuesOf f (ps ++ [⟨g, value⟩])) x ↔
      IsLast reads default (valuesOf f ps) x := by
  rw [valuesOf_append, valuesOf_cons_of_ne other, valuesOf_nil, List.append_nil]

end IsLast

namespace ServerSettings

variable {s₀ s : ServerSettings} {p : Setting} {ps qs before after : List Setting}

theorem isGiven_nil_iff : s₀.IsGiven [] s ↔ s = s₀ := by
  constructor
  · intro given
    rcases s₀ with ⟨host₀, port₀, threads₀, delay₀⟩
    rcases s with ⟨host, port, threads, delay⟩
    cases IsLast.nil_iff.1 given.host
    cases IsLast.nil_iff.1 given.port
    cases IsLast.nil_iff.1 given.threads
    cases IsLast.nil_iff.1 given.delay
    rfl
  · rintro rfl
    exact ⟨.standard, .standard, .standard, .standard⟩

/-- The last setting is taken by what those before it give. -/
theorem isGiven_concat_iff (own : p.flag ∈ Mode.server.flags) :
    s₀.IsGiven (ps ++ [p]) s ↔ ∃ s', s₀.IsGiven ps s' ∧ Draft.Takes (.server s') p (.server s) := by
  constructor
  · intro given
    rcases p with ⟨f, value⟩
    -- The field of the option goes back to what it was, and the others stay.
    cases f with
    | host =>
        rcases IsLast.concat_own.1 given.host with ⟨⟨host, before⟩, rfl⟩
        have port := (IsLast.concat_other (by decide)).1 given.port
        have threads := (IsLast.concat_other (by decide)).1 given.threads
        have delay := (IsLast.concat_other (by decide)).1 given.delay
        exact ⟨{ s with host }, ⟨before, port, threads, delay⟩, .host⟩
    | port =>
        rcases IsLast.concat_own.1 given.port with ⟨⟨port, before⟩, reads⟩
        have host := (IsLast.concat_other (by decide)).1 given.host
        have threads := (IsLast.concat_other (by decide)).1 given.threads
        have delay := (IsLast.concat_other (by decide)).1 given.delay
        exact ⟨{ s with port }, ⟨host, before, threads, delay⟩, .port reads⟩
    | threads =>
        rcases IsLast.concat_own.1 given.threads with ⟨⟨threads, before⟩, reads⟩
        have host := (IsLast.concat_other (by decide)).1 given.host
        have port := (IsLast.concat_other (by decide)).1 given.port
        have delay := (IsLast.concat_other (by decide)).1 given.delay
        exact ⟨{ s with threads }, ⟨host, port, before, delay⟩, .serverThreads reads⟩
    | delay =>
        rcases IsLast.concat_own.1 given.delay with ⟨⟨delayMs, before⟩, reads⟩
        have host := (IsLast.concat_other (by decide)).1 given.host
        have port := (IsLast.concat_other (by decide)).1 given.port
        have threads := (IsLast.concat_other (by decide)).1 given.threads
        exact ⟨{ s with delayMs }, ⟨host, port, threads, before⟩, .delay reads⟩
    | endpoint => exact absurd own (show Flag.endpoint ∉ Mode.server.flags by decide)
    | request => exact absurd own (show Flag.request ∉ Mode.server.flags by decide)
  · rintro ⟨s', given, takes⟩
    cases takes with
    | host =>
        refine ⟨IsLast.concat_own.2 ⟨⟨_, given.host⟩, rfl⟩, ?_, ?_, ?_⟩
        · exact (IsLast.concat_other (by decide)).2 given.port
        · exact (IsLast.concat_other (by decide)).2 given.threads
        · exact (IsLast.concat_other (by decide)).2 given.delay
    | port reads =>
        refine ⟨?_, IsLast.concat_own.2 ⟨⟨_, given.port⟩, reads⟩, ?_, ?_⟩
        · exact (IsLast.concat_other (by decide)).2 given.host
        · exact (IsLast.concat_other (by decide)).2 given.threads
        · exact (IsLast.concat_other (by decide)).2 given.delay
    | serverThreads reads =>
        refine ⟨?_, ?_, IsLast.concat_own.2 ⟨⟨_, given.threads⟩, reads⟩, ?_⟩
        · exact (IsLast.concat_other (by decide)).2 given.host
        · exact (IsLast.concat_other (by decide)).2 given.port
        · exact (IsLast.concat_other (by decide)).2 given.delay
    | delay reads =>
        refine ⟨?_, ?_, ?_, IsLast.concat_own.2 ⟨⟨_, given.delay⟩, reads⟩⟩
        · exact (IsLast.concat_other (by decide)).2 given.host
        · exact (IsLast.concat_other (by decide)).2 given.port
        · exact (IsLast.concat_other (by decide)).2 given.threads

theorem IsGiven.congr (isGiven : s₀.IsGiven ps s) (same : ∀ f, valuesOf f qs = valuesOf f ps) :
    s₀.IsGiven qs s where
  host := (same .host).symm ▸ isGiven.host
  port := (same .port).symm ▸ isGiven.port
  threads := (same .threads).symm ▸ isGiven.threads
  delay := (same .delay).symm ▸ isGiven.delay

/-- A setting with another one of its option behind it gives nothing. -/
theorem IsGiven.drop (isGiven : s₀.IsGiven (before ++ p :: after) s)
    (overridden : p.flag ∈ after.map Setting.flag) : s₀.IsGiven (before ++ after) s where
  host := isGiven.host.drop_setting overridden
  port := isGiven.port.drop_setting overridden
  threads := isGiven.threads.drop_setting overridden
  delay := isGiven.delay.drop_setting overridden

theorem IsGiven.threads_pos (isGiven : s₀.IsGiven ps s) (pos : 0 < s₀.threads) : 0 < s.threads := by
  rcases isGiven.threads.eq_default_or_reads with same | ⟨value, reads⟩
  · rwa [same]
  · exact reads.2.1

end ServerSettings

/-- What some settings make of a client's draft, which keeps the requests apart, last first. -/
structure ClientSettings.IsDrafted (s₀ : ClientSettings) (ps : List Setting) (s : ClientSettings)
    (given : List String) : Prop where
  endpoint : IsLast (fun value e => Endpoint.ofText? value = some e) s₀.endpoint
    (valuesOf .endpoint ps) s.endpoint
  threads : IsLast IsCount s₀.threads (valuesOf .threads ps) s.threads
  kept : s.requests = s₀.requests
  requests : given.reverse = valuesOf .request ps

namespace ClientSettings

variable {s₀ s t : ClientSettings} {given : List String} {p : Setting}
  {ps qs before after : List Setting}

theorem isDrafted_nil_iff : s₀.IsDrafted [] s given ↔ s = s₀ ∧ given = [] := by
  constructor
  · intro drafted
    rcases s₀ with ⟨threads₀, endpoint₀, requests₀⟩
    rcases s with ⟨threads, endpoint, requests⟩
    cases IsLast.nil_iff.1 drafted.endpoint
    cases IsLast.nil_iff.1 drafted.threads
    cases drafted.kept
    exact ⟨rfl, List.reverse_eq_nil_iff.1 drafted.requests⟩
  · rintro ⟨rfl, rfl⟩
    exact ⟨.standard, .standard, rfl, rfl⟩

/-- The last setting is taken by what those before it give. -/
theorem isDrafted_concat_iff (own : p.flag ∈ Mode.client.flags) :
    s₀.IsDrafted (ps ++ [p]) s given ↔
      ∃ s' given', s₀.IsDrafted ps s' given' ∧
        Draft.Takes (.client s' given') p (.client s given) := by
  constructor
  · intro drafted
    rcases p with ⟨f, value⟩
    have requests := drafted.requests
    rw [valuesOf_append] at requests
    cases f with
    | endpoint =>
        rcases IsLast.concat_own.1 drafted.endpoint with ⟨⟨endpoint, before⟩, reads⟩
        have threads := (IsLast.concat_other (by decide)).1 drafted.threads
        refine ⟨{ s with endpoint }, given, ⟨before, threads, drafted.kept, ?_⟩, .endpoint reads⟩
        simpa [valuesOf] using requests
    | request =>
        have endpoint := (IsLast.concat_other (by decide)).1 drafted.endpoint
        have threads := (IsLast.concat_other (by decide)).1 drafted.threads
        -- Requests are collected with the last one in front.
        have last : given = value :: (valuesOf .request ps).reverse := by
          simpa [valuesOf] using congrArg List.reverse requests
        subst last
        exact ⟨s, _, ⟨endpoint, threads, drafted.kept, List.reverse_reverse _⟩, .request⟩
    | threads =>
        rcases IsLast.concat_own.1 drafted.threads with ⟨⟨threads, before⟩, reads⟩
        have endpoint := (IsLast.concat_other (by decide)).1 drafted.endpoint
        refine ⟨{ s with threads }, given, ⟨endpoint, before, drafted.kept, ?_⟩,
          .clientThreads reads⟩
        simpa [valuesOf] using requests
    | host => exact absurd own (show Flag.host ∉ Mode.client.flags by decide)
    | port => exact absurd own (show Flag.port ∉ Mode.client.flags by decide)
    | delay => exact absurd own (show Flag.delay ∉ Mode.client.flags by decide)
  · rintro ⟨s', given', drafted, takes⟩
    cases takes with
    | endpoint reads =>
        refine ⟨IsLast.concat_own.2 ⟨⟨_, drafted.endpoint⟩, reads⟩, ?_, drafted.kept, ?_⟩
        · exact (IsLast.concat_other (by decide)).2 drafted.threads
        · simpa [valuesOf] using drafted.requests
    | request =>
        refine ⟨?_, ?_, drafted.kept, ?_⟩
        · exact (IsLast.concat_other (by decide)).2 drafted.endpoint
        · exact (IsLast.concat_other (by decide)).2 drafted.threads
        · simpa [valuesOf] using drafted.requests
    | clientThreads reads =>
        refine ⟨?_, IsLast.concat_own.2 ⟨⟨_, drafted.threads⟩, reads⟩, drafted.kept, ?_⟩
        · exact (IsLast.concat_other (by decide)).2 drafted.endpoint
        · simpa [valuesOf] using drafted.requests

/-- The requests of a draft come behind those that it started with. -/
theorem isGiven_iff :
    s₀.IsGiven ps t ↔
      ∃ s given, s₀.IsDrafted ps s given ∧ t = { s with requests := s.requests ++ given.reverse } := by
  constructor
  · intro isGiven
    refine ⟨{ t with requests := s₀.requests }, (valuesOf .request ps).reverse, ?_, ?_⟩
    · exact ⟨isGiven.endpoint, isGiven.threads, rfl, List.reverse_reverse _⟩
    · rw [List.reverse_reverse, ← isGiven.requests]
  · rintro ⟨s, given, drafted, rfl⟩
    refine ⟨drafted.endpoint, drafted.threads, ?_⟩
    rw [drafted.kept, drafted.requests]

theorem IsGiven.congr (isGiven : s₀.IsGiven ps s) (same : ∀ f, valuesOf f qs = valuesOf f ps) :
    s₀.IsGiven qs s where
  endpoint := (same .endpoint).symm ▸ isGiven.endpoint
  threads := (same .threads).symm ▸ isGiven.threads
  requests := (same .request).symm ▸ isGiven.requests

/-- A setting with another one of its option behind it gives nothing, but for a request. -/
theorem IsGiven.drop (isGiven : s₀.IsGiven (before ++ p :: after) s)
    (overridden : p.flag ∈ after.map Setting.flag) (noRequest : p.flag ≠ .request) :
    s₀.IsGiven (before ++ after) s where
  endpoint := isGiven.endpoint.drop_setting overridden
  threads := isGiven.threads.drop_setting overridden
  requests := by
    have requests := isGiven.requests
    rwa [valuesOf_append, valuesOf_cons_of_ne noRequest, ← valuesOf_append] at requests

end ClientSettings
end LineExchange
