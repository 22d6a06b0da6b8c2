import LineExchange.Proofs.Request.Grammar

/-!
# Round trip — what becomes of a request that is written and read

A request is written without any quoting, and its line is stripped, trimmed and split when it is
read.  This file defines:

* `Request.IsPlain` — the requests that their own lines carry;
* `Request.ComesBackAs` — what the line of a request is read as.

Every request comes back as `ComesBackAs` says, and the plain requests are those that come back as
themselves (`Request.comes_back_iff_plain`).
-/

namespace LineExchange

/-! ## The last character -/

namespace IsWithoutLast

variable {α : Type} {b : α} {bs s front : List α}

/-- What stands in front stays, unless it is itself the end of the whole. -/
theorem append_left (other : ∀ u, front ≠ u ++ [b]) (h : IsWithoutLast b bs s) :
    IsWithoutLast b (front ++ bs) (front ++ s) := by
  rcases h with rfl | ⟨rfl, stays⟩
  · exact .inl (List.append_assoc front s [b]).symm
  · refine .inr ⟨rfl, ?_⟩
    intro u same
    rcases List.eq_nil_or_concat' bs with rfl | ⟨init, last, rfl⟩
    · exact other u (by rwa [List.append_nil] at same)
    · rw [← List.append_assoc] at same
      have ends : [last] = [b] := List.append_inj_right' same rfl
      exact stays init (by rw [ends])

end IsWithoutLast

namespace Utf8

variable {cs ds : List Char}

/-- An encoding ends in the byte of a carriage return only where the text ends in one. -/
theorem isWithoutLast_encode (h : IsWithoutLast '\r' cs ds) :
    IsWithoutLast Line.carriageReturn (encode cs) (encode ds) := by
  rcases h with rfl | ⟨rfl, stays⟩
  · exact .inl (encode_append ds ['\r'])
  · refine .inr ⟨rfl, ?_⟩
    intro front same
    rcases List.eq_nil_or_concat' cs with rfl | ⟨init, last, rfl⟩
    · exact List.cons_ne_nil _ _ (List.append_eq_nil_iff.1 same.symm).2
    · have bytes : String.utf8EncodeChar last ≠ [] := String.utf8EncodeChar_ne_nil
      rcases List.eq_nil_or_concat' (String.utf8EncodeChar last) with hnil | ⟨before, b, split⟩
      · exact bytes hnil
      · rw [encode_append, encode_cons, encode_nil, List.append_nil, split,
          ← List.append_assoc] at same
        have ends : [b] = [Line.carriageReturn] := List.append_inj_right' same rfl
        have mem : Line.carriageReturn ∈ String.utf8EncodeChar last := by
          rw [split, ends]
          exact List.mem_append_right before (List.mem_singleton_self _)
        have number : last.toNat = 13 := toNat_of_mem_encodeChar mem (by decide)
        have hreturn : last = '\r' := Char.toNat_inj.1 number
        exact stays init (by rw [hreturn])

end Utf8

/-! ## Requests -/

namespace Request

open Text

variable {cs ds : List Char} {r : Request} {x : Except Refusal Request}

/-- The requests that their own lines carry: a text to echo begins with no blank and ends with no
carriage return, and a calculation takes whole seconds. -/
def IsPlain : Request → Prop
  | .ping => True
  | .echo t => (∃ c cs, t.toList = c :: cs ∧ isInk c = true) ∧ ∀ front, t.toList ≠ front ++ ['\r']
  | .longCalculation p => p.nanos.val = 0

inductive ComesBackAs : Request → Except Refusal Request → Prop where
  | ping : ComesBackAs .ping (.ok .ping)
  /-- A text keeps what follows its leading blanks, but not a carriage return at its end. -/
  | echo {t : String} {b u : List Char} {c : Char} (blank : ∀ d ∈ b, isBlank d = true)
      (ink : isInk c = true) (kept : IsWithoutLast '\r' t.toList (b ++ c :: u)) :
      ComesBackAs (.echo t) (.ok (.echo (String.ofList (c :: u))))
  /-- A text is lost that has nothing else. -/
  | nothing {t : String} {b : List Char} (blank : ∀ d ∈ b, isBlank d = true)
      (kept : IsWithoutLast '\r' t.toList b) :
      ComesBackAs (.echo t) (.error (.wrongArity .echo))
  | longCalculation (p : Pause) :
      ComesBackAs (.longCalculation p) (.ok (.longCalculation (Pause.ofSeconds p.seconds)))

/-- The line of a request is read as the text of the request, without a carriage return at its
end. -/
theorem ofLine?_line (kept : IsWithoutLast '\r' r.text.toList cs) : ofLine? r.line = ofText? cs := by
  have same : Utf8.encode cs = Line.strip r.line := by
    apply Line.isStripped_iff.1
    exact ⟨Utf8.ofString r.text, .inl rfl, Utf8.isWithoutLast_encode kept⟩
  exact ofLine?_of_encode same

theorem isInk_of_isDigit {c : Char} (digit : c.isDigit = true) : isInk c = true := by
  have range := Numeral.isDigit_iff_range.1 digit
  rw [isInk_iff, isBlank]
  simp only [Bool.or_eq_false_iff, Bool.and_eq_false_iff, decide_eq_false_iff_not, beq_eq_false_iff_ne]
  omega

/-- What spells a number is a word. -/
theorem isInk_of_spells {n : Nat} {c : Char} (spells : Numeral.Spells cs n) (mem : c ∈ cs) :
    isInk c = true := by
  rcases spells with ⟨ds, rfl | rfl, -, digits, -⟩
  · exact isInk_of_isDigit (digits c mem)
  · rcases List.mem_cons.1 mem with rfl | later
    · decide
    · exact isInk_of_isDigit (digits c later)

theorem ne_nil_of_spells {n : Nat} (spells : Numeral.Spells cs n) : cs ≠ [] := by
  rcases spells with ⟨ds, rfl | rfl, hne, -, -⟩
  · exact hne
  · exact List.cons_ne_nil _ _

theorem calls_name (verb : Verb) : verb.Calls verb.name.toList := by
  cases verb <;> exact Verb.calls_iff.2 (by decide)

/-- The name of a command is the first word, with a space behind it. -/
theorem splits_name (verb : Verb) (cs : List Char) :
    Splits (verb.name.toList ++ ' ' :: cs) [] verb.name.toList (' ' :: cs) := by
  cases verb <;> exact .of_all rfl rfl rfl rfl rfl

theorem ofLine?_ping : ofLine? (line .ping) = .ok .ping := by
  have kept : IsWithoutLast '\r' (text .ping).toList Verb.ping.name.toList :=
    IsWithoutLast.of_not_mem (by decide)
  have split : Splits Verb.ping.name.toList [] Verb.ping.name.toList [] :=
    .of_all rfl rfl rfl rfl rfl
  rw [ofLine?_line kept, ofText?_eq_iff split]
  exact .ping (calls_name .ping) (by simp)

theorem ofLine?_longCalculation (p : Pause) :
    ofLine? (line (.longCalculation p)) = .ok (.longCalculation (Pause.ofSeconds p.seconds)) := by
  have spells := Numeral.spells_toString p.seconds.toNat
  have ink : ∀ c ∈ (toString p.seconds.toNat).toList, isInk c = true :=
    fun c mem => isInk_of_spells spells mem
  have whole : (text (.longCalculation p)).toList =
      Verb.longCalculation.name.toList ++ ' ' :: (toString p.seconds.toNat).toList := by
    simp [text]
  have free : '\r' ∉ (text (.longCalculation p)).toList := by
    rw [whole]
    intro mem
    rcases List.mem_append.1 mem with inName | inRest
    · revert inName
      decide
    · rcases List.mem_cons.1 inRest with space | inWord
      · revert space
        decide
      · have word := ink '\r' inWord
        revert word
        decide
  have one := HasWords.single (w := [' ']) (List.all_eq_true.1 rfl) (ne_nil_of_spells spells) ink
  have reads := Reads.longCalculation (calls_name .longCalculation) one spells p.seconds.toNat_lt_size
  rw [UInt64.ofNat_toNat] at reads
  rw [ofLine?_line (IsWithoutLast.of_not_mem free), whole,
    ofText?_eq_iff (splits_name .longCalculation _)]
  exact reads

/-- The line of an echo is read as the command, a space, and what the carriage return at the end of
the text leaves of it. -/
theorem ofLine?_echo {t : String} (kept : IsWithoutLast '\r' t.toList ds) :
    ofLine? (line (.echo t)) = x ↔ Reads Verb.echo.name.toList (' ' :: ds) x := by
  have front : ∀ u, Verb.echo.name.toList ++ [' '] ≠ u ++ ['\r'] := by
    intro u same
    have ends : [' '] = ['\r'] := List.append_inj_right' same rfl
    revert ends
    decide
  have whole : (text (.echo t)).toList = Verb.echo.name.toList ++ [' '] ++ t.toList := by
    simp [text]
  have kept' := kept.append_left front
  rw [← whole, List.append_assoc] at kept'
  rw [ofLine?_line kept']
  exact ofText?_eq_iff (splits_name .echo ds)

theorem isBlank_of_mem_space_cons {b : List Char} (blank : ∀ d ∈ b, isBlank d = true) :
    ∀ d ∈ ' ' :: b, isBlank d = true := by
  intro d mem
  rcases List.mem_cons.1 mem with rfl | later
  · decide
  · exact blank d later

theorem ComesBackAs.ofLine?_eq (comes : ComesBackAs r x) : ofLine? r.line = x := by
  cases comes with
  | ping => exact ofLine?_ping
  | echo blank ink kept =>
      have leading := isBlank_of_mem_space_cons blank
      exact (ofLine?_echo kept).2 (.echo (calls_name .echo) leading ink rfl)
  | nothing blank kept =>
      have hnil := HasWords.nil (isBlank_of_mem_space_cons blank)
      exact (ofLine?_echo kept).2 (.wrongArity (calls_name .echo) hnil (Nat.lt_irrefl 0))
  | longCalculation p => exact ofLine?_longCalculation p

theorem exists_comesBackAs (r : Request) : ∃ x, ComesBackAs r x := by
  cases r with
  | ping => exact ⟨_, .ping⟩
  | longCalculation p => exact ⟨_, .longCalculation p⟩
  | echo t =>
      rcases exists_isWithoutLast '\r' t.toList with ⟨ds, kept⟩
      rcases blank_or_ink ds with blank | ⟨b, c, u, blank, ink, parted⟩
      · exact ⟨_, .nothing blank kept⟩
      · rw [← parted] at kept
        exact ⟨_, .echo blank ink kept⟩

theorem ofLine?_line_eq_iff : ofLine? r.line = x ↔ ComesBackAs r x := by
  constructor
  · rintro rfl
    rcases exists_comesBackAs r with ⟨y, comes⟩
    rw [comes.ofLine?_eq]
    exact comes
  · intro comes
    exact comes.ofLine?_eq

/-- A request comes back as itself when it is plain. -/
theorem comesBackAs_self_iff : ComesBackAs r (.ok r) ↔ IsPlain r := by
  cases r with
  | ping => exact ⟨fun _ => trivial, fun _ => .ping⟩
  | longCalculation p =>
      rcases p with ⟨seconds, nanos⟩
      constructor
      · intro comes
        -- The nanoseconds are lost, so there must have been none.
        have same := comes.ofLine?_eq
        rw [ofLine?_longCalculation] at same
        injection same with same
        injection same with same
        injection same with _ whole
        exact (congrArg Fin.val whole).symm
      · intro whole
        obtain rfl : nanos = 0 := Fin.ext whole
        exact .longCalculation ⟨seconds, 0⟩
  | echo t =>
      constructor
      · intro comes
        cases comes with
        | @echo _ b u c blank ink kept =>
            rw [IsPlain, String.toList_ofList]
            rw [String.toList_ofList] at kept
            rcases kept with longer | ⟨-, ends⟩
            · -- Nothing can be trimmed off a text and leave the whole of it.
              have lengths := congrArg List.length longer
              simp only [List.length_append, List.length_cons] at lengths
              omega
            · exact ⟨⟨c, u, rfl, ink⟩, ends⟩
      · rintro ⟨⟨c, cs, starts, ink⟩, ends⟩
        have kept : IsWithoutLast '\r' t.toList ([] ++ c :: cs) := .inr ⟨starts, ends⟩
        have whole : String.ofList (c :: cs) = t := by
          rw [← starts, String.ofList_toList]
        have comes := ComesBackAs.echo (by simp) ink kept
        rw [whole] at comes
        exact comes

/-- What becomes of a request: every one comes back as `ComesBackAs` says, and the plain ones are
those that come back as themselves. -/
theorem comes_back_iff_plain (r : Request) :
    (ofLine? r.line = .ok r ↔ IsPlain r) ∧ ∀ x, ofLine? r.line = x ↔ ComesBackAs r x := by
  refine ⟨?_, fun x => ofLine?_line_eq_iff⟩
  rw [ofLine?_line_eq_iff, comesBackAs_self_iff]

end Request

end LineExchange
