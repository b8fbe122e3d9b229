import Parley.CommandLine.Client

/-!
# Arguments of the client program

An argument that does not begin with a dash is neither an option nor a flag, and behind the end of
the options every argument is positional. So any texts can be the values of the program, those that
look like options included, and any number can be its limit.

**Theorem (`CommandLine.Client.asks_values`).** An address, an option that spells the limit, the end
of the options and any values ask for just these.
-/

namespace Parley

/-! ## Numbers and addresses -/

namespace Digits

theorem foldlM_append?_of_isDigit {digits : List Char} (h : ∀ digit ∈ digits, digit.isDigit = true)
    (n : Nat) : digits.foldlM (append? 10) n = some (Nat.ofDigitChars 10 digits n) := by
  induction digits generalizing n with
  | nil => rfl
  | cons digit digits ih =>
    obtain ⟨hdigit, hmore⟩ := List.forall_mem_cons.mp h
    have hten : digit.toNat - '0'.toNat < 10 := by
      have hle : digit.toNat ≤ 57 := (Char.isDigit_iff_toNat.mp hdigit).2
      have hzero : '0'.toNat = 48 := rfl
      omega
    have hvalue : append? 10 n digit = some (10 * n + (digit.toNat - '0'.toNat)) := by
      rw [append?, value?, if_pos hdigit, Option.filter_some, decide_eq_true hten, if_pos rfl,
        Nat.mul_comm 10]
      rfl
    rw [List.foldlM_cons, hvalue, Option.bind_eq_bind, Option.bind_some, ih hmore]
    rfl

theorem number?_toDigits (n : Nat) : number? 10 (Nat.toDigits 10 n) = some n := by
  have hsome : ¬(Nat.toDigits 10 n).isEmpty = true := by
    rw [List.isEmpty_iff]
    exact Nat.toDigits_ne_nil
  rw [number?, if_neg hsome, foldlM_append?_of_isDigit fun digit hm =>
    Nat.isDigit_of_mem_toDigits (by decide) (by decide) hm, Nat.ofDigitChars_ten_toDigits]

theorem head?_of_number? {base n : Nat} {digits : List Char} (h : number? base digits = some n) :
    ∃ digit more, digits = digit :: more ∧ (value? digit).isSome := by
  cases digits with
  | nil => cases h
  | cons digit more =>
    obtain ⟨first, hfirst, -⟩ := Option.bind_eq_some_iff.mp h
    obtain ⟨value, hvalue, -⟩ := Option.map_eq_some_iff.mp hfirst
    exact ⟨digit, more, rfl, Option.isSome_of_eq_some (Option.filter_eq_some_iff.mp hvalue).1⟩

end Digits

theorem prefix_of_splitOn {separator : Char} {chars first : List Char} {more : List (List Char)}
    (h : chars.splitOn separator = first :: more) : first <+: chars := by
  have hchars : [separator].intercalate (first :: more) = chars :=
    h ▸ List.intercalate_splitOn separator
  rw [← hchars]
  cases more with
  | nil => simp [List.intercalate]
  | cons second more =>
    rw [List.intercalate_cons_cons, List.append_assoc]
    exact List.prefix_append _ _

theorem Host.head?_of_octets? {chars : List Char} {octets : UInt8 × UInt8 × UInt8 × UInt8}
    (h : octets? chars = some octets) :
    ∃ digit more, chars = digit :: more ∧ (Digits.value? digit).isSome := by
  unfold octets? at h
  split at h
  · next a b c d hsplit =>
    obtain ⟨octet, hoctet, -⟩ := Option.bind_eq_some_iff.mp h
    rw [octet?] at hoctet
    split at hoctet
    · cases hoctet
    · obtain ⟨n, hfilter, -⟩ := Option.map_eq_some_iff.mp hoctet
      obtain ⟨digit, more, rfl, hdigit⟩ :=
        Digits.head?_of_number? (Option.filter_eq_some_iff.mp hfilter).1
      obtain ⟨rest, hrest⟩ := prefix_of_splitOn hsplit
      exact ⟨digit, more ++ rest, hrest.symm, hdigit⟩
  · cases h

theorem Address.head?_of_parse? {text : String} {address : Address}
    (h : parse? text = some address) : text.toList.head? ≠ some '-' := by
  unfold parse? at h
  split at h
  · next chars htext =>
    rw [htext]
    exact nofun
  · split at h
    · next host socket hsplit =>
      obtain ⟨octets, hoctets, -⟩ := Option.bind_eq_some_iff.mp h
      obtain ⟨digit, more, rfl, hdigit⟩ := Host.head?_of_octets? hoctets
      obtain ⟨rest, hrest⟩ := prefix_of_splitOn hsplit
      rw [← hrest]
      rintro ⟨⟩
      cases hdigit
    · cases h

namespace CommandLine

/-! ## Arguments one by one -/

section Arguments

variable {grammar : Grammar} {argument : String}

/-- A text that does not begin with a dash. -/
def IsPlain (text : String) : Prop := text.toList.head? ≠ some '-'

theorem IsPlain.startsWith_dash (h : IsPlain argument) {pattern : String}
    (hp : pattern.toList.head? = some '-') : argument.startsWith pattern = false := by
  rw [Bool.eq_false_iff]
  intro hstarts
  obtain ⟨rest, hrest⟩ := String.startsWith_string_iff.mp hstarts
  refine h ?_
  rw [← hrest, List.head?_append, hp]
  rfl

theorem IsPlain.ne (h : IsPlain argument) {text : String}
    (ht : text.toList.head? = some '-') : argument ≠ text := by
  rintro rfl
  exact h ht

theorem IsPlain.looksLikeOption (h : IsPlain argument) :
    Grammar.looksLikeOption argument = false := by
  rw [Grammar.looksLikeOption, h.startsWith_dash (by decide), Bool.false_and]

theorem IsPlain.word (h : IsPlain argument) :
    Grammar.Word.ofArgument argument = .positional := by
  have hversion : ¬(argument = "--version" ∨ argument.startsWith "-V" = true) := by
    have hshort : argument.startsWith "-V" = false := h.startsWith_dash (by decide)
    rw [hshort]
    rintro (heq | hshort)
    · exact h.ne (by decide) heq
    · cases hshort
  have hhelp : ¬(argument = "--help" ∨ argument.startsWith "-h" = true) := by
    have hshort : argument.startsWith "-h" = false := h.startsWith_dash (by decide)
    rw [hshort]
    rintro (heq | hshort)
    · exact h.ne (by decide) heq
    · cases hshort
  have hoption : ¬argument.startsWith "--" = true := by
    rw [Bool.not_eq_true]
    exact h.startsWith_dash (by decide)
  have hend : argument ≠ "--" := h.ne (by decide)
  rw [Grammar.Word.ofArgument, if_neg hend, if_neg hversion, if_neg hhelp, if_neg hoption,
    h.looksLikeOption, if_neg Bool.false_ne_true]

end Arguments

/-- Every number below the limit is spelled with digits as an option value. -/
theorem exists_numeral {limit n : Nat} (h : n < limit) :
    ∃ text, IsPlain text ∧ intBelow? limit text = some n := by
  have hvalue := Digits.number?_toDigits n
  obtain ⟨digit, more, hdigits, hdigit⟩ := Digits.head?_of_number? hvalue
  rw [hdigits] at hvalue
  have htext : (String.ofList (digit :: more)).toList = digit :: more := String.toList_ofList
  have hnumber : natBelow? limit (.ofList (digit :: more)) = some n := by
    rw [natBelow?, htext]
    split
    · next heq =>
      cases heq
      cases hdigit
    · rw [hvalue, Option.filter_some, decide_eq_true h, if_pos rfl]
  refine ⟨.ofList (digit :: more), ?_, ?_⟩
  · rw [IsPlain, htext]
    rintro ⟨⟩
    cases hdigit
  · rw [intBelow?, htext]
    split
    · next heq =>
      cases heq
      cases hdigit
    · exact hnumber

namespace Client

/-- The arguments ask for this. -/
def Asks (arguments : List String) (invocation : Invocation) : Prop :=
  ∃ read, grammar.read arguments = .run read ∧ Invocation.ofArguments? read = some invocation

theorem addPositional_values (options : List (String × String)) (address : String)
    (before values : List String) :
    values.foldlM grammar.addPositional { options, positional := address :: before } =
      some { options, positional := address :: (before ++ values) } := by
  induction values generalizing before with
  | nil => rw [List.append_nil]; rfl
  | cons value values ih =>
    have hadd : grammar.addPositional { options, positional := address :: before } value =
        some { options, positional := address :: (before ++ [value]) } := rfl
    rw [List.foldlM_cons, hadd, Option.bind_eq_bind, Option.bind_some, ih, List.append_assoc]
    rfl

/-- **Any values can be asked for**, with any limit. -/
theorem asks_values {address : Address} {text : String} (h : Address.parse? text = some address)
    (size : UInt32) {values : List String} (hvalues : values ≠ []) :
    ∃ number, Asks (text :: "--max-frame-size" :: number :: "--" :: values)
      { address, values, config := { maxFrameSize := size } } := by
  have htext : IsPlain text := Address.head?_of_parse? h
  obtain ⟨number, hnumeral, hsize⟩ := exists_numeral size.toNat_lt
  have hsize : intBelow? UInt32.size number = some size.toNat := hsize
  have haddress : grammar.addPositional {} text = some { positional := [text] } := by
    rw [Grammar.addPositional, if_pos (by simp [grammar, h])]
    rfl
  have hname : Grammar.Word.ofArgument "--max-frame-size" = .named "max-frame-size" := by
    decide +kernel
  have hend : Grammar.Word.ofArgument "--" = .endOfOptions := by decide +kernel
  have hoption : grammar.addOption { positional := [text] } "max-frame-size" number =
      some { options := [("max-frame-size", number)], positional := [text] } := by
    simp [Grammar.addOption, grammar, hsize]
  refine ⟨number, { options := [("max-frame-size", number)], positional := text :: values },
    ?_, ?_⟩
  · simp only [Grammar.read, Grammar.readAfter, htext.word, haddress, hname,
      hnumeral.looksLikeOption, Bool.false_eq_true, if_false, hoption, hend]
    rw [Grammar.readPositional, addPositional_values, List.nil_append]
  · simp [Invocation.ofArguments?, hvalues, h, hsize]

end Client

end CommandLine

end Parley
