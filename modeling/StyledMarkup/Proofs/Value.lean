import Mathlib.Algebra.Group.Nat.Even
import StyledMarkup.Proofs.Text
import StyledMarkup.Value

/-!
# Writing values

`Value.encode` writes a text so that it can stand between double quotes: each quote and each
backslash gets a backslash before it. Whatever the text is, the reader of a declaration finds the
end of the written value and gets the text back.

A semicolon at the end of a declaration is taken for the end of the value when it stands outside
double quotes or right after one. So the reader finds the end of everything that stands between
double quotes, be it written by `encode` or not.
-/

namespace StyledMarkup.Value

/-- The text with a backslash before each double quote and each backslash. -/
def encode (value : Text) : Text :=
  value.flatMap fun c ↦ if c = '"' ∨ c = '\\' then ['\\', c] else [c]

/-- The text between double quotes. -/
def quote (value : Text) : Text :=
  '"' :: (encode value ++ ['"'])

/-- Two double quotes around a text that is left as it is. -/
def enclose (spelling : Text) : Text :=
  '"' :: (spelling ++ ['"'])

theorem quote_eq (value : Text) : quote value = enclose (encode value) := rfl

theorem isTrimmed_enclose (spelling : Text) : (enclose spelling).IsTrimmed :=
  Text.isTrimmed_append_singleton (t := '"' :: spelling) ⟨'"', rfl, by decide⟩ (by decide)

theorem encode_cons_of_special {c : Char} (hc : c = '"' ∨ c = '\\') (value : Text) :
    encode (c :: value) = '\\' :: c :: encode value := by
  rw [encode, List.flatMap_cons, if_pos hc]
  rfl

theorem encode_cons_of_plain {c : Char} (hquote : c ≠ '"') (hbackslash : c ≠ '\\') (value : Text) :
    encode (c :: value) = c :: encode value := by
  rw [encode, List.flatMap_cons, if_neg (not_or.mpr ⟨hquote, hbackslash⟩)]
  rfl

theorem mem_encode {c : Char} {value : Text} (h : c ∈ encode value) : c = '\\' ∨ c ∈ value := by
  obtain ⟨d, hd, hc⟩ := List.mem_flatMap.mp h
  split at hc
  · rcases List.mem_cons.mp hc with rfl | hc
    · exact Or.inl rfl
    · exact Or.inr (List.mem_singleton.mp hc ▸ hd)
  · exact Or.inr (List.mem_singleton.mp hc ▸ hd)

/-! ## Reading back -/

theorem decode_cons_of_ne {c : Char} (hc : c ≠ '\\') (t : Text) :
    decode (c :: t) = c :: decode t := by
  rw [decode.eq_def]
  split <;> simp_all

/-- The text starts with four digits that denote a character. -/
def startsCode : Text → Bool
  | a :: b :: c :: d :: _ => (hexChar? a b c d).isSome
  | _ => false

/-- The text starts with an escape. -/
def startsEscape : Text → Bool
  | '\\' :: c :: rest => "\"\\/ntr".toList.contains c || (c == 'u' && startsCode rest)
  | _ => false

/-- An escape is replaced by one character. -/
theorem decode_of_startsEscape {t : Text} (h : startsEscape t = true) :
    ∃ c rest, decode t = c :: decode rest ∧ rest.length + 2 ≤ t.length := by
  unfold startsEscape at h
  split at h
  · next c rest =>
    simp only [Bool.or_eq_true, Bool.and_eq_true, beq_iff_eq, List.contains_iff_mem] at h
    rcases h with hc | ⟨rfl, hcode⟩
    · have hcases : c = '"' ∨ c = '\\' ∨ c = '/' ∨ c = 'n' ∨ c = 't' ∨ c = 'r' := by simpa using hc
      rcases hcases with rfl | rfl | rfl | rfl | rfl | rfl
      all_goals exact ⟨_, rest, by rw [decode], by simp⟩
    · unfold startsCode at hcode
      split at hcode
      · next a b c d rest =>
        obtain ⟨x, hx⟩ := Option.isSome_iff_exists.mp hcode
        exact ⟨x, rest, by rw [decode, hx], by simp⟩
      · cases hcode
  · cases h

theorem decode_cons_of_not_startsEscape {c : Char} {t : Text} (h : startsEscape (c :: t) = false) :
    decode (c :: t) = c :: decode t := by
  by_cases hc : c = '\\'
  · subst hc
    cases t with
    | nil => rfl
    | cons d t =>
      simp only [startsEscape, Bool.or_eq_false_iff, Bool.and_eq_false_imp, beq_iff_eq,
        List.contains_eq_mem, decide_eq_false_iff_not] at h
      obtain ⟨hd, hcode⟩ := h
      have hnext : d ≠ '\\' := fun heq ↦ hd (by simp [heq])
      rw [decode_cons_of_ne hnext, decode.eq_def]
      split
      case h_7 a b c e rest heq =>
        obtain ⟨-, rfl, rfl⟩ : '\\' = '\\' ∧ d = 'u' ∧ t = a :: b :: c :: e :: rest := by
          simpa using heq
        have hx : hexChar? a b c e = none := by simpa [startsCode] using hcode rfl
        rw [hx]
      case h_8 x rest _ _ _ _ _ _ _ heq => simp_all
      case h_9 x rest _ _ _ _ _ _ _ hother heq =>
        obtain ⟨rfl, rfl⟩ := List.cons.inj heq
        exact (hother d t rfl rfl).elim
      all_goals simp_all
  · exact decode_cons_of_ne hc t

theorem length_decode_le (t : Text) : (decode t).length ≤ t.length := by
  induction hlength : t.length using Nat.strong_induction_on generalizing t with
  | _ n ih =>
    subst hlength
    cases hescape : startsEscape t with
    | true =>
      obtain ⟨c, rest, hdecode, hshorter⟩ := decode_of_startsEscape hescape
      have hrest := ih rest.length (by omega) rest rfl
      rw [hdecode, List.length_cons]
      omega
    | false =>
      cases t with
      | nil => exact Nat.le_refl _
      | cons c t =>
        rw [decode_cons_of_not_startsEscape hescape, List.length_cons, List.length_cons]
        exact Nat.succ_le_succ (ih t.length (Nat.lt_succ_self _) t rfl)

/-- Decoding leaves a text as it is exactly if no escape starts anywhere in it. -/
theorem decode_eq_self_iff {t : Text} :
    decode t = t ↔ ∀ u, u <:+ t → startsEscape u = false := by
  induction t with
  | nil => simp [decode, startsEscape]
  | cons c t ih =>
    simp only [List.suffix_cons_iff, forall_eq_or_imp, ← ih]
    constructor
    · intro hdecode
      cases hescape : startsEscape (c :: t) with
      | true =>
        -- one character stands for at least two, so the text gets shorter
        obtain ⟨d, rest, hshort, hlength⟩ := decode_of_startsEscape hescape
        have hrest := length_decode_le rest
        rw [hshort] at hdecode
        rw [← hdecode, List.length_cons] at hlength
        omega
      | false =>
        rw [decode_cons_of_not_startsEscape hescape] at hdecode
        exact ⟨rfl, (List.cons.inj hdecode).2⟩
    · rintro ⟨hescape, ht⟩
      rw [decode_cons_of_not_startsEscape hescape, ht]

theorem decode_eq_self_of_not_mem {t : Text} (h : '\\' ∉ t) : decode t = t := by
  induction t with
  | nil => rfl
  | cons c t ih =>
    rw [List.mem_cons, not_or] at h
    rw [decode_cons_of_ne (Ne.symm h.1), ih h.2]

theorem decode_encode (value : Text) : decode (encode value) = value := by
  induction value with
  | nil => rfl
  | cons c value ih =>
    by_cases hquote : c = '"'
    · rw [encode_cons_of_special (Or.inl hquote), hquote, decode, ih]
    · by_cases hbackslash : c = '\\'
      · rw [encode_cons_of_special (Or.inr hbackslash), hbackslash, decode, ih]
      · rw [encode_cons_of_plain hquote hbackslash, decode_cons_of_ne hbackslash, ih]

theorem unescape_enclose (spelling : Text) : unescape (enclose spelling) = decode spelling := by
  have hhead : Text.after? ['"'] (enclose spelling) = some (spelling ++ ['"']) := by
    rw [Text.after?_eq_some_iff]
    rfl
  have htail : Text.before? ['"'] (spelling ++ ['"']) = some spelling :=
    Text.before?_eq_some_iff.mpr rfl
  rw [unescape, unquote, Text.dropHead, hhead, Option.getD_some, Text.dropTail, htail,
    Option.getD_some]

theorem unescape_quote (value : Text) : unescape (quote value) = value := by
  rw [quote_eq, unescape_enclose, decode_encode]

/-! ## Finding the end -/

theorem Position.next_quoted {c : Char} (hquote : c ≠ '"') (hbackslash : c ≠ '\\') :
    Position.next .quoted c = .quoted := by
  unfold Position.next
  split <;> simp_all

/-- Only a double quote moves a reader out of a string. -/
theorem Position.next_eq_plain_iff {p : Position} {c : Char} (hc : c ≠ '"') :
    p.next c = .plain ↔ p = .plain := by
  unfold Position.next
  split <;> simp_all

theorem foldl_next_eq_plain_iff {t : Text} (h : '"' ∉ t) {p : Position} :
    t.foldl Position.next p = .plain ↔ p = .plain := by
  induction t generalizing p with
  | nil => rfl
  | cons c t ih =>
    rw [List.mem_cons, not_or] at h
    rw [List.foldl_cons, ih h.2, Position.next_eq_plain_iff (Ne.symm h.1)]

theorem beforeTerminator?_eq_none {t : Text} (h : ';' ∉ t) (p : Position) :
    beforeTerminator? p t = none := by
  induction t generalizing p with
  | nil => rfl
  | cons c t ih =>
    rw [List.mem_cons, not_or] at h
    rw [beforeTerminator?, ih h.2]
    exact if_neg fun hc ↦ h.1 hc.2.symm

/-- The last semicolon, when it is outside quotes, is the one that ends the value. -/
theorem beforeTerminator?_append_semicolon {t after : Text} {p : Position}
    (h : t.foldl Position.next p = .plain) (hafter : ';' ∉ after) :
    beforeTerminator? p (t ++ ';' :: after) = some t := by
  induction t generalizing p with
  | nil =>
    obtain rfl : p = .plain := h
    rw [List.nil_append, beforeTerminator?, beforeTerminator?_eq_none hafter]
    rfl
  | cons c t ih =>
    rw [List.cons_append, beforeTerminator?, ih h]

theorem before?_quote_semicolon (t : Text) :
    (Text.before? "\";".toList (t ++ [';'])).map (· ++ ['"']) =
      if t.endsWith '"' then some t else none := by
  split
  · next hlast =>
    obtain ⟨start, rfl⟩ := Text.endsWith_iff.mp hlast
    have hbefore : Text.before? "\";".toList (start ++ ['"'] ++ [';']) = some start :=
      Text.before?_eq_some_iff.mpr (by simp)
    rw [hbefore]
    rfl
  · next hlast =>
    rw [Option.map_eq_none_iff, Option.eq_none_iff_forall_ne_some]
    intro start hbefore
    have hsplit : t ++ [';'] = start ++ ['"'] ++ [';'] := by
      simpa using Text.before?_eq_some_iff.mp hbefore
    exact hlast (Text.endsWith_iff.mpr ⟨start, List.append_cancel_right hsplit⟩)

/-- A semicolon at the end is cut off in two cases: it stands outside double quotes, or right after
one. -/
theorem extract_append_semicolon (t : Text) :
    extract (t ++ [';']) =
      if t.foldl Position.next .plain = .plain ∨ t.endsWith '"' = true then Text.trim t
      else Text.trimStart t ++ [';'] := by
  have hblank : Text.isBlank ';' = false := by decide
  have hend : (t ++ [';']).foldl Position.next .plain = .plain ↔
      t.foldl Position.next .plain = .plain := by
    rw [List.foldl_append, foldl_next_eq_plain_iff (by decide)]
  rw [extract]
  by_cases hplain : t.foldl Position.next .plain = .plain
  · rw [if_pos (hend.mpr hplain), if_pos (Or.inl hplain),
      beforeTerminator?_append_semicolon hplain List.not_mem_nil]
    rfl
  · rw [if_neg (mt hend.mp hplain), Text.trimEnd_append_singleton _ hblank,
      before?_quote_semicolon, ← Text.trim_append_singleton _ hblank]
    by_cases hlast : t.endsWith '"' = true <;> simp [hplain, hlast]

theorem extract_append_semicolon_iff {t : Text} :
    extract (t ++ [';']) = Text.trim t ↔
      t.foldl Position.next .plain = .plain ∨ t.endsWith '"' = true := by
  rw [extract_append_semicolon]
  split
  · next hcut => exact iff_of_true rfl hcut
  · next hkept =>
    refine iff_of_false (fun heq ↦ ?_) hkept
    obtain ⟨blanks, hblanks, -⟩ := Text.exists_trimEnd_eq (Text.trimStart t)
    rw [Text.trim] at heq
    have hlonger := congrArg List.length heq
    have hshorter := congrArg List.length hblanks
    simp only [List.length_append, List.length_singleton] at hlonger hshorter
    omega

theorem extract_enclose (spelling : Text) :
    extract (' ' :: (enclose spelling ++ [';'])) = enclose spelling := by
  have hsplit : ' ' :: enclose spelling = ' ' :: '"' :: spelling ++ ['"'] := by
    simp [enclose]
  have hlast : Text.endsWith (' ' :: enclose spelling) '"' = true :=
    Text.endsWith_iff.mpr ⟨_, hsplit⟩
  have hblank : Text.isBlank '"' = false := by decide
  have hstart : Text.trimStart (' ' :: '"' :: spelling) = '"' :: spelling := by
    simp [Text.trimStart, hblank, show Text.isBlank ' ' = true from by decide]
  rw [← List.cons_append, extract_append_semicolon_iff.mpr (Or.inr hlast), hsplit,
    Text.trim_append_singleton _ hblank, hstart]
  rfl

theorem extract_quote (value : Text) : extract (' ' :: (quote value ++ [';'])) = quote value :=
  extract_enclose (encode value)

/-! ## Values without quotes around them -/

/-- Where a reader stands after so many double quotes, when no backslash has come. -/
def Position.afterQuotes (quotes : Nat) : Position :=
  if Even quotes then .plain else .quoted

theorem Position.next_afterQuotes (quotes : Nat) {c : Char} (hc : c ≠ '\\') :
    (afterQuotes quotes).next c = afterQuotes (quotes + if c = '"' then 1 else 0) := by
  by_cases hquote : c = '"'
  · subst hquote
    by_cases heven : Even quotes <;> simp [afterQuotes, heven, Nat.even_add_one, Position.next]
  · by_cases heven : Even quotes
    · have hplain : Position.next .plain c = .plain := (Position.next_eq_plain_iff hquote).mpr rfl
      simpa [afterQuotes, heven, hquote] using hplain
    · simpa [afterQuotes, heven, hquote] using Position.next_quoted hquote hc

theorem foldl_next_afterQuotes {t : Text} (h : '\\' ∉ t) (quotes : Nat) :
    t.foldl Position.next (.afterQuotes quotes) = .afterQuotes (quotes + t.count '"') := by
  induction t generalizing quotes with
  | nil => rfl
  | cons c t ih =>
    rw [List.mem_cons, not_or] at h
    have hcount : t.count '"' + (if c = '"' then 1 else 0) = (c :: t).count '"' := by
      simp [List.count_cons]
    rw [List.foldl_cons, Position.next_afterQuotes quotes (Ne.symm h.1), ih h.2, ← hcount,
      Nat.add_assoc, Nat.add_comm (t.count '"')]

/-- The end of a value is found when each double quote has its partner. -/
theorem extract_bare {t : Text} (ht : t.IsTrimmed) (hbackslash : '\\' ∉ t)
    (hquotes : Even (t.count '"')) : extract (' ' :: (t ++ [';'])) = t := by
  have hplain : (' ' :: t).foldl Position.next .plain = .plain := by
    have hread := foldl_next_afterQuotes hbackslash 0
    rwa [Nat.zero_add, Position.afterQuotes, Position.afterQuotes, if_pos hquotes,
      if_pos (by decide)] at hread
  have htrim : Text.trim (' ' :: t) = t := by
    have hstart : Text.trimStart (' ' :: t) = Text.trimStart t := rfl
    rw [Text.trim, hstart]
    exact ht.trim_eq
  rw [← List.cons_append, extract_append_semicolon_iff.mpr (Or.inl hplain), htrim]

/-- A double quote at the end is dropped, also when there is none at the start. -/
theorem unescape_bare {t : Text} (hhead : t.head? ≠ some '"') (hbackslash : '\\' ∉ t) :
    unescape t = if t.endsWith '"' then t.dropLast else t := by
  have hfront : Text.dropHead ['"'] t = t := by
    have hnone : Text.after? ['"'] t = none := by
      rw [Option.eq_none_iff_forall_ne_some]
      intro rest hrest
      exact hhead (by rw [Text.after?_eq_some_iff.mp hrest]; rfl)
    rw [Text.dropHead, hnone, Option.getD_none]
  rw [unescape, unquote, hfront, Text.dropTail_singleton]
  apply decode_eq_self_of_not_mem
  split
  · exact fun hmem ↦ hbackslash ((List.dropLast_sublist t).subset hmem)
  · exact hbackslash

end StyledMarkup.Value
