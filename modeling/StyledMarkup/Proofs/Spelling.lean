import Mathlib.Data.List.Forall2
import Mathlib.Tactic.IntervalCases
import StyledMarkup.Proofs.Value

/-!
# Spellings of a value

Between double quotes a character can be written as itself, unless it is a double quote or a
backslash, by its short escape if it has one, or by its code point in four hexadecimal digits. Each
spelling is read alone, whatever comes after it, so the spellings of the characters of a text can
be mixed. Whichever are taken, the quotes around them are found again and the text is read back.
-/

namespace StyledMarkup.Value

/-- The characters that have a short escape, each with what stands after the backslash. -/
def shortEscapes : List (Char × Char) :=
  [('"', '"'), ('\\', '\\'), ('/', '/'), ('\n', 'n'), ('\t', 't'), ('\r', 'r')]

/-- The character is the hexadecimal digit of this value, in either case. -/
def IsHexDigit (d : Char) (n : Nat) : Prop :=
  n < 16 ∧ d.toLower = n.digitChar

instance (d : Char) (n : Nat) : Decidable (IsHexDigit d n) :=
  inferInstanceAs (Decidable (_ ∧ _))

/-- The text is a spelling of the character between double quotes. -/
inductive Spells : Char → Text → Prop
  | plain {c : Char} (hquote : c ≠ '"') (hbackslash : c ≠ '\\') : Spells c [c]
  | short {c e : Char} (h : (c, e) ∈ shortEscapes) : Spells c ['\\', e]
  /-- Four digits, the most significant first, make up the code point. -/
  | code {c : Char} {digits : Text} (values : List Nat)
    (hdigits : List.Forall₂ IsHexDigit digits values) (hlength : values.length = 4)
    (hcode : values.foldl (fun n digit ↦ 16 * n + digit) 0 = c.toNat) :
    Spells c ('\\' :: 'u' :: digits)

/-! ## One character -/

theorem charOfCode?_toNat (c : Char) : charOfCode? c.toNat = some c := by
  have hvalid : c.toNat.isValidChar := c.valid
  rw [charOfCode?, if_pos hvalid, Char.ofNat_toNat]

theorem hexDigit?_toLower (d : Char) : Text.hexDigit? d.toLower = Text.hexDigit? d := by
  by_cases hupper : 'A' ≤ d ∧ d ≤ 'Z'
  · have hrange : 65 ≤ d.toNat ∧ d.toNat ≤ 90 := hupper
    obtain ⟨n, hn, rfl⟩ : ∃ n, (65 ≤ n ∧ n ≤ 90) ∧ Char.ofNat n = d :=
      ⟨d.toNat, hrange, Char.ofNat_toNat d⟩
    obtain ⟨hlow, hhigh⟩ := hn
    interval_cases n <;> rfl
  · have hsame : d.toLower = d := dif_neg hupper
    rw [hsame]

namespace IsHexDigit

variable {d : Char} {n : Nat} (h : IsHexDigit d n)
include h

theorem hexDigit?_eq : Text.hexDigit? d = some n := by
  obtain ⟨hn, hd⟩ := h
  rw [← hexDigit?_toLower, hd]
  interval_cases n <;> rfl

theorem ne_special : d ≠ '"' ∧ d ≠ '\\' := by
  have hd := h.hexDigit?_eq
  constructor
  all_goals
    rintro rfl
    cases hd

end IsHexDigit

/-- Four digits are read as the character that they make up. -/
theorem hexChar?_of_digits {c d₁ d₂ d₃ d₄ : Char} {values : List Nat}
    (hdigits : List.Forall₂ IsHexDigit [d₁, d₂, d₃, d₄] values)
    (hcode : values.foldl (fun n digit ↦ 16 * n + digit) 0 = c.toNat) :
    hexChar? d₁ d₂ d₃ d₄ = some c := by
  obtain _ | ⟨h₁, _ | ⟨h₂, _ | ⟨h₃, _ | ⟨h₄, ⟨⟩⟩⟩⟩⟩ := hdigits
  next n₁ n₂ n₃ n₄ =>
    have hunit : Text.hexUnit? d₁ d₂ d₃ d₄ = some (n₁ * 4096 + n₂ * 256 + n₃ * 16 + n₄) := by
      rw [Text.hexUnit?, h₁.hexDigit?_eq, h₂.hexDigit?_eq, h₃.hexDigit?_eq, h₄.hexDigit?_eq]
      rfl
    have hsum : n₁ * 4096 + n₂ * 256 + n₃ * 16 + n₄ = c.toNat := by
      simp only [List.foldl_cons, List.foldl_nil] at hcode
      omega
    rw [hexChar?, hunit, hsum, Option.bind_some, charOfCode?_toNat]

theorem foldl_next_digits {digits : Text} {values : List Nat}
    (h : List.Forall₂ IsHexDigit digits values) :
    digits.foldl Position.next .quoted = .quoted := by
  induction h with
  | nil => rfl
  | cons hd _ ih =>
    obtain ⟨hquote, hbackslash⟩ := hd.ne_special
    rw [List.foldl_cons, Position.next_quoted hquote hbackslash, ih]

namespace Spells

variable {c : Char} {w : Text} (h : Spells c w)
include h

/-- A spelling is read as its character, whatever comes after it. -/
theorem decode_append (t : Text) : decode (w ++ t) = c :: decode t := by
  cases h with
  | plain _ hbackslash => exact decode_cons_of_ne hbackslash t
  | @short e h =>
    have hcases : (c = '"' ∧ e = '"') ∨ (c = '\\' ∧ e = '\\') ∨ (c = '/' ∧ e = '/') ∨
        (c = '\n' ∧ e = 'n') ∨ (c = '\t' ∧ e = 't') ∨ (c = '\r' ∧ e = 'r') := by
      simpa [shortEscapes] using h
    rcases hcases with ⟨rfl, rfl⟩ | ⟨rfl, rfl⟩ | ⟨rfl, rfl⟩ | ⟨rfl, rfl⟩ | ⟨rfl, rfl⟩ | ⟨rfl, rfl⟩
    all_goals exact decode.eq_def _
  | code values hdigits hlength hcode =>
    obtain ⟨d₁, d₂, d₃, d₄, rfl⟩ := List.length_eq_four.mp (hdigits.length_eq.trans hlength)
    rw [List.cons_append, List.cons_append, List.cons_append, List.cons_append, List.cons_append,
      List.cons_append, List.nil_append, decode, hexChar?_of_digits hdigits hcode]

/-- A reader inside double quotes is still inside them after a spelling. -/
theorem foldl_next : w.foldl Position.next .quoted = .quoted := by
  cases h with
  | plain hquote hbackslash => exact Position.next_quoted hquote hbackslash
  | short h => rfl
  | code _ hdigits _ _ =>
    have hletter : (Position.next .quoted '\\').next 'u' = .quoted := rfl
    rw [List.foldl_cons, List.foldl_cons, hletter, foldl_next_digits hdigits]

end Spells

/-! ## A whole text -/

section Spelled

variable {s : Text} {ws : List Text} (h : List.Forall₂ Spells s ws)
include h

theorem decode_flatten : decode ws.flatten = s := by
  induction h with
  | nil => rfl
  | cons hw _ ih => rw [List.flatten_cons, hw.decode_append, ih]

theorem foldl_next_flatten : ws.flatten.foldl Position.next .quoted = .quoted := by
  induction h with
  | nil => rfl
  | cons hw _ ih => rw [List.flatten_cons, List.foldl_append, hw.foldl_next, ih]

theorem foldl_next_enclose : (enclose ws.flatten).foldl Position.next .plain = .plain := by
  have hopen : Position.next .plain '"' = .quoted := rfl
  rw [enclose, List.foldl_cons, List.foldl_append, hopen, foldl_next_flatten h]
  rfl

end Spelled

/-- A declaration may go on with blanks around its value and after its semicolon. -/
theorem extract_of_pads {value padded after : Text} (hvalue : value.IsTrimmed)
    (hclosed : value.foldl Position.next .plain = .plain) (hpads : Text.Pads value padded)
    (hafter : Text.allBlank after = true) : extract (padded ++ ';' :: after) = value := by
  rw [Text.allBlank, List.all_eq_true] at hafter
  have hplain : padded.foldl Position.next .plain = .plain := by
    obtain ⟨front, back, hfront, hback, rfl⟩ := hpads
    rw [Text.allBlank, List.all_eq_true] at hfront hback
    have hread : front.foldl Position.next .plain = .plain :=
      (foldl_next_eq_plain_iff (Text.not_mem_of_blanks hfront (by decide))).mpr rfl
    rw [List.foldl_append, List.foldl_append, hread, hclosed,
      foldl_next_eq_plain_iff (Text.not_mem_of_blanks hback (by decide))]
  have hend : (padded ++ ';' :: after).foldl Position.next .plain = .plain := by
    have hsemicolon : '"' ∉ ';' :: after := by
      simpa using Text.not_mem_of_blanks hafter (c := '"') (by decide)
    rw [List.foldl_append, foldl_next_eq_plain_iff hsemicolon, hplain]
  rw [extract, if_pos hend,
    beforeTerminator?_append_semicolon hplain (Text.not_mem_of_blanks hafter (by decide)),
    Option.getD_some, hvalue.trim_of_pads hpads]

/-- However the characters of a text are spelled, the text is read back from between its quotes, and
a declaration with these quotes gives them back as its value. -/
theorem unescape_extract_of_spells {s : Text} {ws : List Text} (h : List.Forall₂ Spells s ws) :
    unescape (enclose ws.flatten) = s ∧
      ∀ padded after, Text.Pads (enclose ws.flatten) padded → Text.allBlank after = true →
        extract (padded ++ ';' :: after) = enclose ws.flatten := by
  constructor
  · rw [unescape_enclose, decode_flatten h]
  · intro padded after hpads hafter
    exact extract_of_pads (isTrimmed_enclose _) (foldl_next_enclose h) hpads hafter

theorem unescape_extract_of_spells_mixed :
    unescape "\"\\\"\\u005Cn\\n\\u00411;\\\"\"".toList = "\"\\n\nA1;\"".toList ∧
      extract " \t\"\\\"\\u005Cn\\n\\u00411;\\\"\" ;\n".toList =
        "\"\\\"\\u005Cn\\n\\u00411;\\\"\"".toList := by
  have h : List.Forall₂ Spells "\"\\n\nA1;\"".toList
      ["\\\"".toList, "\\u005C".toList, "n".toList, "\\n".toList, "\\u0041".toList, "1".toList,
        ";".toList, "\\\"".toList] :=
    .cons (.short (by decide)) (.cons (.code [0, 0, 5, 12] (by decide) rfl rfl)
      (.cons (.plain (by decide) (by decide)) (.cons (.short (by decide))
        (.cons (.code [0, 0, 4, 1] (by decide) rfl rfl) (.cons (.plain (by decide) (by decide))
          (.cons (.plain (by decide) (by decide)) (.cons (.short (by decide)) .nil)))))))
  obtain ⟨hunescape, hextract⟩ := unescape_extract_of_spells h
  refine ⟨hunescape, ?_⟩
  exact hextract " \t\"\\\"\\u005Cn\\n\\u00411;\\\"\" ".toList ['\n']
    ⟨[' ', '\t'], [' '], rfl, rfl, rfl⟩ rfl

end StyledMarkup.Value
