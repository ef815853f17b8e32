import StyledMarkup.Proofs.Builder.Step
import StyledMarkup.Proofs.Vocabulary

/-!
# Declarations on one line

A declaration `--name: value;` of an attribute that the innermost block allows is always taken in.
Whether it leaves the attribute open depends on the value after its quotes are dropped. So a value
between double quotes is complete unless nothing stands between them, and a value without quotes
around it is kept up to a double quote at its end.
-/

namespace StyledMarkup

/-- The line that declares an attribute with a value as it is written. -/
def Classification.declarationLine (name written : Text) : Text :=
  "--".toList ++ name ++ ": ".toList ++ written ++ [';']

namespace Classification

theorem declarationLine_text (written : Text) :
    declarationLine "text".toList written =
      textMarker ++ [] ++ ':' :: ' ' :: (written ++ [';']) := by
  simp [declarationLine, textMarker_eq]

theorem isTextMarker_declarationLine (written : Text) :
    isTextMarker (declarationLine "text".toList written) = true :=
  isTextMarker_iff.mpr ⟨[], _, declarationLine_text written, by simp⟩

end Classification

namespace Scope

open Classification

/-- The declaration of an attribute that the scope allows. The name of the text marker declares
text, whatever the scope. -/
theorem classify_declarationLine {scope : Scope} {name : Text}
    (hallowed : allowed name scope = true) (written : Text) :
    scope.classify (declarationLine name written) =
      if name = "text".toList then .generic
      else .attribute name (Value.unescape (Value.extract (' ' :: (written ++ [';']))))
        (Vocabulary.isEvent name) := by
  split
  · next htext =>
    subst htext
    exact classify_of_isTextMarker scope (isTextMarker_declarationLine written)
  · next htext =>
    have hline : declarationLine name written =
        "--".toList ++ name ++ ':' :: ' ' :: (written ++ [';']) := by
      simp [declarationLine]
    rw [hline]
    exact classify_declaration (Vocabulary.isAttributeChar_of_allowed hallowed) htext hallowed _

end Scope

theorem Document.kind_graft_size (doc : Document) (parent : Option NodeId) (s : Statement)
    (kind : NodeKind) (suppressed expanded : Bool) :
    ((doc.graft parent s kind suppressed expanded).get? doc.size).map Node.kind = some kind := by
  cases parent with
  | none => simp [graft, attach, alloc, get?, size]
  | some p =>
    have hadopt : ∀ (n : Node) asAttribute, (n.adopt doc.size asAttribute).kind = n.kind := by
      intro n asAttribute
      cases asAttribute <;> rfl
    have hsize : doc.nodes.size = doc.size := rfl
    simp only [graft, attach, alloc, get?, Array.getElem?_modify, Array.getElem?_push, hsize]
    by_cases hp : p = doc.size <;> simp [hp, hadopt]

namespace Builder

open Classification

section DeclarationLine

variable {b : Builder} {s : Statement} {name written : Text} (hopen : b.openAttribute = none)
  (hallowed : allowed name b.scope = true) (hs : s.text = declarationLine name written)
include hopen hallowed hs

/-- Taking in a declaration adds one node, and leaves the attribute open if its value is empty. -/
theorem step_declarationLine (settings : Settings) (ctx : Context) {value : Text}
    (hvalue : Value.unescape (Value.extract (' ' :: (written ++ [';']))) = value) :
    ∃ b', b.step settings ctx s = .ok (.next b') ∧ b'.doc.size = b.doc.size + 1 ∧
      (b'.doc.get? b.doc.size).map Node.kind = some
        (if name = "text".toList then .generic
        else .attribute name value (Vocabulary.isEvent name) value.isEmpty) ∧
      b'.openAttribute =
        if value = [] ∧ name ≠ "text".toList then some ⟨name, s.line, s.text⟩ else none := by
  have hstep : b.step settings ctx s = .ok (.next (b.plain s ctx.isExpanding)) := by
    refine step_plain hopen (c := '-') (by rw [hs]; rfl) (by decide) (by decide) ?_
    rw [Statement.closes, hs]
    intro hcloses
    cases hcloses
  have hkind : (b.scope.classify s.text).toKind.awaitValue =
      if name = "text".toList then .generic
      else .attribute name value (Vocabulary.isEvent name) value.isEmpty := by
    rw [hs, Scope.classify_declarationLine hallowed, hvalue]
    split <;> rfl
  refine ⟨_, hstep, ?_, ?_, ?_⟩
  · rw [doc_plain, Document.size_graft]
  · rw [doc_plain, Document.kind_graft_size, hkind]
  · rw [openAttribute_plain, hkind]
    by_cases htext : name = "text".toList
    · rw [if_pos htext, if_neg fun h ↦ h.2 htext]
      rfl
    · rw [if_neg htext]
      cases value with
      | nil =>
        rw [if_pos ⟨rfl, htext⟩]
        rfl
      | cons c value =>
        rw [if_neg (by simp)]
        rfl

end DeclarationLine

section Values

variable {b : Builder} {s : Statement} {name : Text}

/-- A declaration of a value between double quotes is taken in at once: the text between the quotes
is read and kept. It leaves the attribute open in one case, when nothing stands between them. -/
theorem step_of_enclosed (settings : Settings) (ctx : Context) {spelling : Text}
    (hopen : b.openAttribute = none) (hallowed : allowed name b.scope = true)
    (hs : s.text = declarationLine name (Value.enclose spelling)) :
    ∃ b', b.step settings ctx s = .ok (.next b') ∧ b'.doc.size = b.doc.size + 1 ∧
      (b'.doc.get? b.doc.size).map Node.kind = some
        (if name = "text".toList then .generic
        else .attribute name (Value.decode spelling) (Vocabulary.isEvent name) spelling.isEmpty) ∧
      b'.openAttribute =
        if spelling = [] ∧ name ≠ "text".toList then some ⟨name, s.line, s.text⟩ else none := by
  have hvalue : Value.unescape (Value.extract (' ' :: (Value.enclose spelling ++ [';']))) =
      Value.decode spelling := by
    rw [Value.extract_enclose, Value.unescape_enclose]
  have hempty : (Value.decode spelling).isEmpty = spelling.isEmpty := by
    rw [Bool.eq_iff_iff, List.isEmpty_iff, List.isEmpty_iff, Value.decode_eq_nil_iff]
  have hstep := step_declarationLine hopen hallowed hs settings ctx hvalue
  simpa only [hempty, Value.decode_eq_nil_iff] using hstep

theorem step_of_enclosed_title :
    ∃ b', ({} : Builder).step ⟨fun _ ↦ .error "", 0⟩ { base := ⟨[]⟩ }
        ⟨"--title: \"say \\\"hi\\\"\";".toList, 1⟩ = .ok (.next b') ∧
      (b'.doc.get? 0).map Node.kind =
        some (.attribute "title".toList "say \"hi\"".toList false false) ∧
      b'.openAttribute = none := by
  have hallowed := Vocabulary.allowed_title ({} : Builder).scope
  have hline : "--title: \"say \\\"hi\\\"\";".toList =
      declarationLine "title".toList (Value.enclose "say \\\"hi\\\"".toList) := by decide
  obtain ⟨b', hstep, -, hkind, hopen⟩ := step_of_enclosed ⟨fun _ ↦ .error "", 0⟩ { base := ⟨[]⟩ }
    (b := {}) (s := ⟨_, 1⟩) rfl hallowed hline
  rw [Vocabulary.isEvent_title] at hkind
  exact ⟨b', hstep, hkind, hopen⟩

/-- Not every quoted value is complete: two quotes with nothing between them leave the attribute
open. -/
theorem not_forall_quoted_complete :
    ¬∀ (settings : Settings) (ctx : Context) (b : Builder) (s : Statement) (name value : Text),
      b.openAttribute = none → allowed name b.scope = true →
      s.text = declarationLine name (Value.quote value) →
      ∃ b', b.step settings ctx s = .ok (.next b') ∧ b'.openAttribute = none := by
  intro hall
  have hallowed := Vocabulary.allowed_title ({} : Builder).scope
  obtain ⟨b', hstep, hclosed⟩ := hall ⟨fun _ ↦ .error "", 0⟩ { base := ⟨[]⟩ } {}
    ⟨declarationLine "title".toList (Value.quote []), 1⟩ "title".toList [] rfl hallowed rfl
  obtain ⟨b₁, hstep₁, -, -, hopen⟩ := step_declarationLine (b := {}) rfl hallowed
    (s := ⟨declarationLine "title".toList (Value.quote []), 1⟩) rfl
    ⟨fun _ ↦ .error "", 0⟩ { base := ⟨[]⟩ } rfl
  rw [hstep] at hstep₁
  cases hstep₁
  rw [hclosed] at hopen
  revert hopen
  decide +kernel

/-- A value without quotes around it is kept as it is written, except that a double quote at its end
is dropped. -/
theorem step_of_bare (settings : Settings) (ctx : Context) {written : Text}
    (hopen : b.openAttribute = none) (hallowed : allowed name b.scope = true)
    (htrimmed : written.IsTrimmed) (hne : written ≠ []) (hhead : written.head? ≠ some '"')
    (hbackslash : '\\' ∉ written) (hquotes : Even (written.count '"'))
    (hs : s.text = declarationLine name written) :
    ∃ b', b.step settings ctx s = .ok (.next b') ∧ b'.doc.size = b.doc.size + 1 ∧
      (b'.doc.get? b.doc.size).map Node.kind = some
        (if name = "text".toList then .generic
        else .attribute name (if written.endsWith '"' then written.dropLast else written)
          (Vocabulary.isEvent name) false) ∧
      b'.openAttribute = none := by
  have hvalue : Value.unescape (Value.extract (' ' :: (written ++ [';']))) =
      if written.endsWith '"' then written.dropLast else written := by
    rw [Value.extract_bare htrimmed hbackslash hquotes, Value.unescape_bare hhead hbackslash]
  have hkept : (if written.endsWith '"' then written.dropLast else written) ≠ [] := by
    split
    · next hlast =>
      obtain ⟨start, rfl⟩ := Text.endsWith_iff.mp hlast
      rw [List.dropLast_concat]
      rintro rfl
      exact hhead rfl
    · exact hne
  have hstep := step_declarationLine hopen hallowed hs settings ctx hvalue
  simpa only [hkept, List.isEmpty_eq_false_iff.mpr hkept, false_and, if_false] using hstep

theorem step_of_bare_title :
    ∃ b', ({} : Builder).step ⟨fun _ ↦ .error "", 0⟩ { base := ⟨[]⟩ }
        ⟨"--title: say \"hi\" now;".toList, 1⟩ = .ok (.next b') ∧
      (b'.doc.get? 0).map Node.kind =
        some (.attribute "title".toList "say \"hi\" now".toList false false) := by
  have hallowed := Vocabulary.allowed_title ({} : Builder).scope
  have htrimmed : Text.IsTrimmed "say \"hi\" now".toList :=
    ⟨by rintro c ⟨⟩; decide, by rintro c ⟨⟩; decide⟩
  have hline : "--title: say \"hi\" now;".toList =
      declarationLine "title".toList "say \"hi\" now".toList := by decide
  obtain ⟨b', hstep, -, hkind, -⟩ := step_of_bare ⟨fun _ ↦ .error "", 0⟩ { base := ⟨[]⟩ }
    (b := {}) (s := ⟨_, 1⟩) rfl hallowed htrimmed (by decide) (by decide) (by decide)
    (by decide) hline
  rw [Vocabulary.isEvent_title] at hkind
  exact ⟨b', hstep, hkind⟩

/-- Not every value without quotes around it is kept as it is written, even if its quotes come in
pairs that the scanner reads as strings. -/
theorem not_forall_bare_kept :
    ¬∀ (settings : Settings) (ctx : Context) (b : Builder) (s : Statement) (name written : Text),
      b.openAttribute = none → allowed name b.scope = true → name ≠ "text".toList →
      written.IsTrimmed → written ≠ [] → written.head? ≠ some '"' →
      (∀ c ∈ "\\;\x7b\x7d'\n".toList, c ∉ written) → Even (written.count '"') →
      (∀ i < written.length, written[i]? = some '"' → Even ((written.take i).count '"') →
        (written.take i).getLast?.any Text.isAlphanumeric = false) →
      s.text = declarationLine name written →
      ∃ b' isEvent, b.step settings ctx s = .ok (.next b') ∧
        (b'.doc.get? b.doc.size).map Node.kind = some (.attribute name written isEvent false) := by
  intro hall
  have hallowed := Vocabulary.allowed_title ({} : Builder).scope
  have htrimmed : Text.IsTrimmed "say \"hi\"".toList :=
    ⟨by rintro c ⟨⟩; decide, by rintro c ⟨⟩; decide⟩
  obtain ⟨b', isEvent, hstep, hkind⟩ := hall ⟨fun _ ↦ .error "", 0⟩ { base := ⟨[]⟩ } {}
    ⟨declarationLine "title".toList "say \"hi\"".toList, 1⟩ "title".toList _ rfl hallowed
    (by decide) htrimmed (by decide) (by decide) (by simp) (by decide) (by decide +kernel) rfl
  obtain ⟨b₁, hstep₁, -, hkind₁, -⟩ := step_declarationLine (b := {}) rfl hallowed
    (s := ⟨declarationLine "title".toList "say \"hi\"".toList, 1⟩) rfl
    ⟨fun _ ↦ .error "", 0⟩ { base := ⟨[]⟩ } rfl
  rw [hstep] at hstep₁
  cases hstep₁
  rw [hkind₁] at hkind
  revert hkind
  cases isEvent <;> decide +kernel

end Values

end Builder

end StyledMarkup
