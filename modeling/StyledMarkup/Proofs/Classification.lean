import StyledMarkup.Builder
import StyledMarkup.Proofs.Statement.Shape
import StyledMarkup.Proofs.Value

/-!
# What scanned statements are classified as

A declaration without a value never opens a block, so while an attribute is open the scope stays
what it was. Each further piece of its value is then classified as the same attribute again. A
closing brace is a generic statement, an include opens no block, and the header of a mixin always
does.
-/

namespace StyledMarkup

/-! ## Values -/

namespace Value

theorem beforeTerminator?_eq_some {p : Position} {t before : Text}
    (h : beforeTerminator? p t = some before) :
    ∃ after, t = before ++ ';' :: after ∧ before.foldl Position.next p = .plain := by
  induction t generalizing p before with
  | nil => simp [beforeTerminator?] at h
  | cons c rest ih =>
    unfold beforeTerminator? at h
    split at h
    · next inner hinner =>
      obtain ⟨after, hrest, hplain⟩ := ih hinner
      cases h
      exact ⟨after, by simp [hrest], hplain⟩
    · split at h
      · next hsemicolon =>
        cases h
        exact ⟨rest, by simp [hsemicolon.2], hsemicolon.1⟩
      · simp at h

theorem decode_ne_nil (c : Char) (t : Text) : decode (c :: t) ≠ [] := by
  rw [decode.eq_def]
  split
  case h_7 => split <;> simp
  case h_10 hnil => simp at hnil
  all_goals simp

theorem decode_eq_nil_iff {t : Text} : decode t = [] ↔ t = [] := by
  cases t with
  | nil => simp [decode]
  | cons c t => simp [decode_ne_nil]

theorem dropTail_singleton_eq_nil {c : Char} {t : Text} (h : Text.dropTail [c] t = []) :
    t = [] ∨ t = [c] := by
  rw [Text.dropTail_singleton] at h
  split at h
  · next hlast =>
    obtain ⟨start, rfl⟩ := Text.endsWith_iff.mp hlast
    rw [List.dropLast_concat] at h
    exact Or.inr (by rw [h, List.nil_append])
  · exact Or.inl h

/-- The only spellings of the empty text are nothing, one quote and two quotes. -/
theorem unescape_eq_nil {t : Text} (h : unescape t = []) : t = [] ∨ t = ['"'] ∨ t = ['"', '"'] := by
  have hunquote : unquote t = [] := decode_eq_nil_iff.mp h
  have hhead : t = Text.dropHead ['"'] t ∨ t = '"' :: Text.dropHead ['"'] t := by
    unfold Text.dropHead
    cases hafter : Text.after? ['"'] t with
    | none => exact Or.inl rfl
    | some rest => exact Or.inr (Text.after?_eq_some_iff.mp hafter)
  rcases dropTail_singleton_eq_nil hunquote with hnil | hone <;> rcases hhead with hhead | hhead
  · exact Or.inl (hhead.trans hnil)
  · exact Or.inr (Or.inl (hnil ▸ hhead))
  · exact Or.inr (Or.inl (hhead.trans hone))
  · exact Or.inr (Or.inr (hone ▸ hhead))

theorem foldl_next_quoted {t : Text} (h : ∀ c ∈ t, c ≠ '"' ∧ c ≠ '\\') :
    t.foldl Position.next .quoted = .quoted := by
  induction t with
  | nil => rfl
  | cons c rest ih =>
    obtain ⟨hquote, hbackslash⟩ := h c List.mem_cons_self
    rw [List.foldl_cons, Position.next_quoted hquote hbackslash]
    exact ih fun d hd ↦ h d (by simp [hd])

end Value

/-! ## Declarations without a value -/

namespace Scan

theorem openQuote?_append {t before : Text} (hbefore : openQuote? before = some none)
    (h : ∀ c ∈ t, c ≠ '"' ∧ c ≠ '(' ∧ c ≠ '\'') : openQuote? (t ++ before) = some none := by
  induction t with
  | nil => exact hbefore
  | cons c rest ih =>
    have hrest := ih fun d hd ↦ h d (by simp [hd])
    simp [openQuote?, hrest, h c (by simp)]

/-- Two quotes that follow no word open and close at once. -/
theorem openQuote?_empty_pair {before : Text} (hbefore : openQuote? before = some none)
    (hword : before.head?.any Text.isAlphanumeric = false) :
    openQuote? ('"' :: '"' :: before) = some none := by
  simp [openQuote?, hbefore, hword]

end Scan

namespace Classification

theorem attribute?_eq_some {t : Text} {scope : Scope} {c : Classification}
    (h : attribute? t scope = some c) :
    ∃ name blanks value, t = ['-', '-'] ++ name ++ blanks ++ ':' :: value ∧
      (∀ d ∈ name, isAttributeChar d = true) ∧ (∀ d ∈ blanks, Text.isBlank d = true) ∧
      allowed name scope = true ∧
      c = .attribute name (Value.unescape (Value.extract value)) (Vocabulary.isEvent name) := by
  unfold attribute? at h
  split at h
  · simp at h
  · next rest hrest =>
    dsimp only at h
    split at h
    · next value hvalue =>
      split at h
      · next hallowed =>
        obtain ⟨blanks, hblanks, hblank⟩ :=
          Text.exists_trimStart_eq (rest.dropWhile isAttributeChar)
        refine ⟨rest.takeWhile isAttributeChar, blanks, value, ?_, ?_, hblank, hallowed, ?_⟩
        · rw [Text.after?_eq_some_iff.mp hrest, List.append_assoc, List.append_assoc, ← hvalue,
            ← hblanks, List.takeWhile_append_dropWhile]
          rfl
        · intro d hd
          exact List.mem_takeWhile_imp hd
        · exact (Option.some.inj h).symm
      · simp at h
    · simp at h

theorem attribute?_declaration {scope : Scope} {name : Text}
    (hname : ∀ c ∈ name, isAttributeChar c = true) (hallowed : allowed name scope = true)
    (value : Text) :
    attribute? ("--".toList ++ name ++ ':' :: value) scope =
      some (.attribute name (Value.unescape (Value.extract value)) (Vocabulary.isEvent name)) := by
  have hafter : Text.after? "--".toList ("--".toList ++ name ++ ':' :: value) =
      some (name ++ ':' :: value) := Text.after?_eq_some_iff.mpr (by simp)
  have hcolon : isAttributeChar ':' = false := by decide
  have htake : (name ++ ':' :: value).takeWhile isAttributeChar = name :=
    Text.takeWhile_run hname (by simp [hcolon])
  have hdrop : Text.trimStart ((name ++ ':' :: value).dropWhile isAttributeChar) =
      ':' :: value := by
    have hblank : Text.isBlank ':' = false := by decide
    rw [Text.dropWhile_run hname (by simp [hcolon])]
    simp [Text.trimStart, hblank]
  unfold attribute?
  rw [hafter]
  simp [htake, hdrop, hallowed]

theorem toNat_lt_of_isAlphanum {c : Char} (h : c.isAlphanum = true) : c.toNat < 128 := by
  change (decide (c.val ≥ 'A'.val ∧ c.val ≤ 'Z'.val) || (c.val ≥ 'a'.val && c.val ≤ 'z'.val) ||
    (c.val ≥ '0'.val && c.val ≤ '9'.val)) = true at h
  simp only [Bool.or_eq_true, Bool.and_eq_true, decide_eq_true_eq, UInt32.le_iff_toNat_le] at h
  have hval : c.val.toNat = c.toNat := rfl
  have hupper : 'Z'.val.toNat = 90 := rfl
  have hlower : 'z'.val.toNat = 122 := rfl
  have hdigit : '9'.val.toNat = 57 := rfl
  omega

theorem not_isBlank_of_isAttributeChar {c : Char} (h : isAttributeChar c = true) :
    Text.isBlank c = false := by
  simp only [isAttributeChar, Bool.or_eq_true, beq_iff_eq] at h
  rcases h with (halnum | rfl) | rfl
  · by_contra hblank
    have hword := Text.isAlphanumeric_of_isBlank (Bool.of_not_eq_false hblank)
    rw [Text.isAlphanumeric_of_ascii (toNat_lt_of_isAlphanum halnum), halnum] at hword
    cases hword
  · decide
  · decide

theorem not_special_of_isAttributeChar {c : Char} (h : isAttributeChar c = true) :
    c ≠ '"' ∧ c ≠ '(' ∧ c ≠ '\'' ∧ c ≠ ':' := by
  refine ⟨?_, ?_, ?_, ?_⟩ <;> rintro rfl <;> revert h <;> decide

theorem not_special_of_isBlank {c : Char} (h : Text.isBlank c = true) :
    c ≠ '"' ∧ c ≠ '(' ∧ c ≠ '\'' ∧ c ≠ '\\' := by
  refine ⟨?_, ?_, ?_, ?_⟩ <;> rintro rfl <;> revert h <;> decide

/-- What stands before the semicolon of a declaration without a value: it opens no quote. -/
theorem openQuote?_of_valueless {name blanks before : Text}
    (hname : ∀ c ∈ name, isAttributeChar c = true) (hblanks : ∀ c ∈ blanks, Text.isBlank c = true)
    (hplain : before.foldl Value.Position.next .plain = .plain)
    (hempty : Value.unescape (Text.trim before) = []) :
    Scan.openQuote? (['-', '-'] ++ name ++ blanks ++ ':' :: before).reverse = some none := by
  have hcolon : Scan.openQuote? (':' :: (['-', '-'] ++ name ++ blanks).reverse) = some none := by
    have hcalm : ∀ c ∈ ':' :: (['-', '-'] ++ name ++ blanks).reverse,
        c ≠ '"' ∧ c ≠ '(' ∧ c ≠ '\'' := by
      simp only [List.mem_cons, List.mem_reverse, List.mem_append, List.not_mem_nil, or_false]
      rintro c (rfl | ((rfl | rfl) | hc) | hc)
      · decide
      · decide
      · decide
      · have hspecial := not_special_of_isAttributeChar (hname c hc)
        exact ⟨hspecial.1, hspecial.2.1, hspecial.2.2.1⟩
      · have hspecial := not_special_of_isBlank (hblanks c hc)
        exact ⟨hspecial.1, hspecial.2.1, hspecial.2.2.1⟩
    have hnil : Scan.openQuote? [] = some none := rfl
    simpa using Scan.openQuote?_append hnil hcalm
  obtain ⟨left, right, heq, hleft, hright⟩ := Text.exists_trim_eq before
  have hcalm : ∀ {t : Text}, (∀ c ∈ t, Text.isBlank c = true) →
      ∀ c ∈ t.reverse, c ≠ '"' ∧ c ≠ '(' ∧ c ≠ '\'' := by
    intro t ht c hc
    have hspecial := not_special_of_isBlank (ht c (List.mem_reverse.mp hc))
    exact ⟨hspecial.1, hspecial.2.1, hspecial.2.2.1⟩
  have hbefore := Scan.openQuote?_append hcolon (hcalm hleft)
  have hsplit : (['-', '-'] ++ name ++ blanks ++ ':' :: before).reverse =
      right.reverse ++ ((Text.trim before).reverse ++
        (left.reverse ++ ':' :: (['-', '-'] ++ name ++ blanks).reverse)) := by
    have hrev : before.reverse = right.reverse ++ ((Text.trim before).reverse ++ left.reverse) := by
      simpa only [List.reverse_append] using congrArg List.reverse heq
    rw [List.reverse_append, List.reverse_cons, hrev]
    simp
  rw [hsplit]
  apply Scan.openQuote?_append _ (hcalm hright)
  rcases Value.unescape_eq_nil hempty with hnil | hone | htwo
  · simpa [hnil] using hbefore
  · -- a single quote would still be open at the semicolon
    rw [heq, hone, List.foldl_append, List.foldl_append,
      (Value.foldl_next_eq_plain_iff fun hmem ↦
        (not_special_of_isBlank (hleft _ hmem)).1 rfl).mpr rfl] at hplain
    have hquoted := Value.foldl_next_quoted (t := right) fun c hc ↦
      ⟨(not_special_of_isBlank (hright c hc)).1, (not_special_of_isBlank (hright c hc)).2.2.2⟩
    have hnext : ['"'].foldl Value.Position.next .plain = .quoted := rfl
    rw [hnext, hquoted] at hplain
    cases hplain
  · rw [htwo]
    apply Scan.openQuote?_empty_pair hbefore
    cases hrev : left.reverse with
    | nil => simp; decide
    | cons c rest =>
      have hc : c ∈ left := List.mem_reverse.mp (by simp [hrev])
      simpa using Text.isAlphanumeric_of_isBlank (hleft c hc)

/-- A declaration without a value opens no block. -/
theorem not_opens_of_valueless {s : Statement} (hs : s.IsShaped) {scope : Scope} {name : Text}
    {isEvent : Bool} (h : attribute? s.text scope = some (.attribute name [] isEvent)) :
    s.opens = false := by
  obtain ⟨name', blanks, value, htext, hname, hblanks, -, hclass⟩ := attribute?_eq_some h
  have hempty : Value.unescape (Value.extract value) = [] :=
    (Classification.attribute.inj hclass).2.1.symm
  by_contra hopens
  have hbrace : Text.isBlank '{' = false := by decide
  -- the brace is the last character of what follows the colon
  obtain ⟨init, rfl⟩ : ∃ init, value = init ++ ['{'] := by
    have hlast := Bool.of_not_eq_false hopens
    rw [Statement.opens, htext] at hlast
    exact Text.exists_concat_of_endsWith hlast (by decide)
  have hwhole : Value.unescape (Text.trim (init ++ ['{'])) ≠ [] := by
    intro hnil
    rcases Value.unescape_eq_nil hnil with hcase | hcase | hcase <;>
      simp [Text.trim_append_singleton init hbrace] at hcase <;>
      exact absurd (congrArg List.getLast? hcase) (by simp)
  unfold Value.extract at hempty
  dsimp only at hempty
  split at hempty
  · cases hbefore : Value.beforeTerminator? .plain (init ++ ['{']) with
    | none => exact hwhole (by simpa [hbefore] using hempty)
    | some before =>
      obtain ⟨after, hvalue, hplain⟩ := Value.beforeTerminator?_eq_some hbefore
      have hquote := openQuote?_of_valueless hname hblanks hplain
        (by simpa [hbefore] using hempty)
      have hafter := hs.ends (by simp [htext]) _ after (by rw [htext, hvalue]; simp) hquote
      rw [hafter] at hvalue
      simpa using congrArg List.getLast? hvalue
  · have hnone : Text.before? ['"', ';'] (Text.trimEnd (init ++ ['{'])) = none := by
      rw [Text.trimEnd_append_singleton init hbrace, Option.eq_none_iff_forall_ne_some]
      intro x hx
      simpa using congrArg List.getLast? (Text.before?_eq_some_iff.mp hx)
    exact hwhole (by simpa [hnone] using hempty)

/-! ## Pieces of a value -/

/-- Every tag has a name. -/
theorem not_isTag_nil : Vocabulary.isTag [] = false := by
  rw [Vocabulary.isTag, Vocabulary.tags, Bool.eq_false_iff, ne_eq, List.contains_iff_mem,
    List.mem_map]
  rintro ⟨name, hname, hnil⟩
  have hempty : name = "" := String.toList_inj.mp hnil
  rw [hempty] at hname
  exact absurd hname (by decide)

theorem element?_cons {c : Char} (hc : c.isAlphanum = false) (t : Text) :
    element? (c :: t) = none := by
  simp [element?, hc, not_isTag_nil]

theorem textMarker_eq : textMarker = "--".toList ++ "text".toList := by
  rfl

theorem isTextMarker_iff {t : Text} :
    isTextMarker t = true ↔
      ∃ blanks rest, t = textMarker ++ blanks ++ ':' :: rest ∧
        ∀ c ∈ blanks, Text.isBlank c = true := by
  unfold isTextMarker
  constructor
  · intro h
    split at h
    · next rest hrest =>
      obtain ⟨blanks, hblanks, hblank⟩ := Text.exists_trimStart_eq rest
      obtain ⟨more, hmore⟩ := List.head?_eq_some_iff.mp (eq_of_beq h)
      refine ⟨blanks, more, ?_, hblank⟩
      rw [Text.after?_eq_some_iff.mp hrest, List.append_assoc, ← hmore, ← hblanks]
    · cases h
  · rintro ⟨blanks, rest, rfl, hblank⟩
    have hafter : Text.after? textMarker (textMarker ++ blanks ++ ':' :: rest) =
        some (blanks ++ ':' :: rest) := by
      rw [Text.after?_eq_some_iff, List.append_assoc]
    have htrim : Text.trimStart (blanks ++ ':' :: rest) = ':' :: rest := by
      rw [Text.trimStart, List.dropWhile_append_of_pos hblank]
      rfl
    simp only [hafter, htrim]
    rfl

/-- An attribute name followed by a colon is no text marker, unless it is the marker's own name. -/
theorem isTextMarker_declaration {name rest : Text} (hname : ∀ c ∈ name, isAttributeChar c = true)
    (hne : name ≠ "text".toList) : isTextMarker ("--".toList ++ name ++ ':' :: rest) = false := by
  unfold isTextMarker
  split
  · next tail htail =>
    have hsplit : name ++ ':' :: rest = "text".toList ++ tail := by
      have heq := Text.after?_eq_some_iff.mp htail
      rw [textMarker_eq, List.append_assoc, List.append_assoc] at heq
      exact List.append_cancel_left heq
    rcases List.append_eq_append_iff.mp hsplit with ⟨mid, hmid, hrest⟩ | ⟨mid, hmid, hrest⟩
    · cases mid with
      | nil => exact absurd (by simpa using hmid.symm) hne
      | cons c mid =>
        obtain ⟨rfl, -⟩ := List.cons.inj hrest
        have hcolon : ':' ∈ "text".toList := by simp [hmid]
        exact absurd hcolon (by decide)
    · cases mid with
      | nil => exact absurd (by simpa using hmid) hne
      | cons c mid =>
        have hc := hname c (by simp [hmid])
        rw [hrest]
        simp [Text.trimStart, not_isBlank_of_isAttributeChar hc,
          (not_special_of_isAttributeChar hc).2.2.2]
  · rfl

end Classification

/-- In this scope, any further piece of an attribute's value declares that attribute again. -/
def Scope.Continues (scope : Scope) (name : Text) : Prop :=
  ∀ piece, ∃ value isEvent,
    scope.classify ("--".toList ++ name ++ ": ".toList ++ piece) = .attribute name value isEvent

namespace Scope

open Classification

theorem classify_eq_attribute {scope : Scope} {t name value : Text} {isEvent : Bool}
    (h : scope.classify t = .attribute name value isEvent) :
    isTextMarker t = false ∧ attribute? t scope = some (.attribute name value isEvent) := by
  unfold classify at h
  split at h
  · next c hc =>
    unfold element? at hc
    dsimp only at hc
    split at hc
    · cases hc
      cases h
    · cases hc
  · split at h
    · cases h
    · next hmarker =>
      refine ⟨by simpa using hmarker, ?_⟩
      cases hattr : attribute? t scope with
      | none => simp [hattr] at h
      | some c => simpa [hattr] using h

theorem classify_of_isTextMarker (scope : Scope) {t : Text} (h : isTextMarker t = true) :
    scope.classify t = .generic := by
  obtain ⟨blanks, rest, ht, -⟩ := isTextMarker_iff.mp h
  have helement : element? t = none := by
    rw [ht]
    exact element?_cons (by decide) _
  simp [classify, helement, h]

theorem classify_declaration {scope : Scope} {name : Text}
    (hname : ∀ c ∈ name, isAttributeChar c = true) (hne : name ≠ "text".toList)
    (hallowed : allowed name scope = true) (value : Text) :
    scope.classify ("--".toList ++ name ++ ':' :: value) =
      .attribute name (Value.unescape (Value.extract value)) (Vocabulary.isEvent name) := by
  have helement : element? ("--".toList ++ name ++ ':' :: value) = none :=
    element?_cons (by decide) _
  rw [classify, helement, isTextMarker_declaration hname hne,
    attribute?_declaration hname hallowed]
  rfl

theorem continues_of_classify {scope : Scope} {t name value : Text} {isEvent : Bool}
    (h : scope.classify t = .attribute name value isEvent) : scope.Continues name := by
  obtain ⟨hmarker, hattr⟩ := classify_eq_attribute h
  obtain ⟨name', blanks, value', rfl, hname, hblanks, hallowed, hclass⟩ := attribute?_eq_some hattr
  obtain rfl : name = name' := (Classification.attribute.inj hclass).1
  have hne : name ≠ "text".toList := by
    rintro rfl
    have htext := isTextMarker_iff.mpr
      ⟨blanks, value', (rfl : ['-', '-'] ++ "text".toList ++ blanks ++ ':' :: value' = _), hblanks⟩
    rw [hmarker] at htext
    cases htext
  intro piece
  have htext : "--".toList ++ name ++ ": ".toList ++ piece =
      "--".toList ++ name ++ ':' :: (' ' :: piece) := by simp
  rw [htext]
  exact ⟨_, _, classify_declaration hname hne hallowed (' ' :: piece)⟩

theorem classify_closing (scope : Scope) : scope.classify ['}'] = .generic := by
  have helement : element? ['}'] = none := element?_cons (by decide) []
  have hmarker : isTextMarker ['}'] = false := by decide
  have hattr : attribute? ['}'] scope = none := rfl
  simp [classify, helement, hmarker, hattr]

end Scope

/-! ## Directives -/

namespace Directive

theorem not_isName_of_brace (t : Text) : isName (t ++ ['{']) = false := by
  have hbrace : Text.isAlphanumeric '{' = false := by decide
  simp [isName, hbrace]

theorem call?_brace (t : Text) : call? (t ++ ['{']) = none := by
  unfold call?
  split
  · rfl
  · next name rest hsplit =>
    have heq := (Text.splitAt?_eq_some_iff.mp hsplit).1
    have hnone : Text.before? [')'] rest = none := by
      rw [Option.eq_none_iff_forall_ne_some]
      intro inner hinner
      rw [Text.before?_eq_some_iff.mp hinner, ← List.cons_append, ← List.append_assoc] at heq
      simpa using (List.append_inj' heq rfl).2
    simp [hnone]

/-- What follows the keyword of a statement that ends in a brace ends in that brace. -/
theorem exists_rest_of_endsWith {keyword t rest : Text}
    (hkeyword : Text.endsWith keyword '{' = false) (hrest : Text.after? keyword t = some rest)
    (ht : Text.endsWith t '{' = true) :
    ∃ init, rest = init ++ ['{'] := by
  have heq := Text.after?_eq_some_iff.mp hrest
  obtain ⟨start, hstart⟩ := Text.endsWith_iff.mp ht
  rcases List.eq_nil_or_concat rest with rfl | ⟨init, c, rfl⟩
  · rw [List.append_nil] at heq
    rw [heq, hkeyword] at ht
    cases ht
  · rw [List.concat_eq_append, ← List.append_assoc, hstart] at heq
    exact ⟨init, by simpa using (List.append_inj' heq rfl).2.symm⟩

/-- An include opens no block. -/
theorem include?_not_opens {t : Text} {request : Include} (h : include? t = some request) :
    Text.endsWith t '{' = false := by
  by_contra hopens
  simp only [include?, Option.bind_eq_bind, Option.bind_eq_some_iff] at h
  obtain ⟨rest, hrest, h⟩ := h
  obtain ⟨init, rfl⟩ :=
    exists_rest_of_endsWith (by decide) hrest (Bool.of_not_eq_false hopens)
  have hblank : Text.isBlank '{' = false := by decide
  have htail :
      Text.dropTail [';'] (Text.trimStart init ++ ['{']) = Text.trimStart init ++ ['{'] := by
    have hnone : Text.before? [';'] (Text.trimStart init ++ ['{']) = none := by
      rw [Option.eq_none_iff_forall_ne_some]
      intro start hstart
      simpa using (List.append_inj' (Text.before?_eq_some_iff.mp hstart) rfl).2
    simp [Text.dropTail, hnone]
  rw [Text.trim_append_singleton init hblank, htail,
    Text.trimEnd_append_singleton _ hblank] at h
  split at h
  · simp [call?_brace] at h
  · simp [not_isName_of_brace] at h

/-- The header of a mixin opens a block. -/
theorem mixin?_opens {t : Text} (ht : Text.IsTrimmed t) {header : MixinHeader}
    (h : mixin? t = some header) : Text.endsWith t '{' = true := by
  simp only [mixin?, Option.bind_eq_bind, Option.bind_eq_some_iff] at h
  obtain ⟨rest, hrest, inner, hinner, -⟩ := h
  have heq := Text.after?_eq_some_iff.mp hrest
  have htrim := Text.before?_eq_some_iff.mp hinner
  rcases List.eq_nil_or_concat rest with rfl | ⟨init, c, rfl⟩
  · simp [Text.trim, Text.trimStart, Text.trimEnd] at htrim
  · rw [List.concat_eq_append] at heq htrim
    have hblank : Text.isBlank c = false := ht.2 c (by simp [heq])
    rw [Text.trim_append_singleton init hblank] at htrim
    have hc : c = '{' := by simpa using (List.append_inj' htrim rfl).2
    exact Text.endsWith_iff.mpr ⟨mixinKeyword ++ init, by rw [heq, hc]; simp⟩

end Directive

end StyledMarkup
