import StyledMarkup.Classification
import StyledMarkup.Markup
import StyledMarkup.Proofs.Text

/-!
# Reading an open tag

The values of attributes are arbitrary texts: they may hold `>`, `=`, spaces and what looks like
another attribute. Only double quotes are replaced. That is enough for a reader that looks for
nothing but the next double quote: it gets the names back in order, each with its escaped value,
and stops right behind the tag.
-/

namespace StyledMarkup.Markup

open Classification (isAttributeChar)

/-! ## Escaped values -/

/-- Escaping puts `&quot;` in the place of each double quote. -/
theorem escape_eq_intercalate (value : Text) :
    escape value = "&quot;".toList.intercalate (value.splitOn '"') := by
  induction value with
  | nil => rfl
  | cons c value ih =>
    have hcons : escape (c :: value) =
        (if c = '"' then "&quot;".toList else [c]) ++ escape value := List.flatMap_cons
    rw [hcons, List.splitOn_cons_eq_if_modifyHead]
    by_cases hc : c = '"'
    · rw [if_pos hc, if_pos (beq_iff_eq.mpr hc),
        List.intercalate_cons_of_ne_nil (List.splitOn_ne_nil '"' value), ← ih, List.nil_append]
    · obtain ⟨piece, more, hsplit⟩ :=
        List.exists_cons_of_ne_nil (List.splitOn_ne_nil '"' value)
      rw [if_neg hc, if_neg (mt beq_iff_eq.mp hc), ih, hsplit, List.modifyHead_cons]
      -- the character goes into the first piece, and there may be no other
      cases more with
      | nil => simp
      | cons next more => simp [List.intercalate_cons_cons]

theorem quote_not_mem_escape (value : Text) : '"' ∉ escape value := by
  intro hmem
  obtain ⟨c, -, hc⟩ := List.mem_flatMap.mp hmem
  split at hc
  · exact absurd hc (by decide)
  · next hne => exact hne (List.mem_singleton.mp hc).symm

/-! ## The reader -/

/-- Reads a space, a name, `="`, a value up to the next double quote, and that quote. -/
def readAttribute? : Text → Option ((Text × Text) × Text)
  | ' ' :: t => do
    let t' ← Text.after? "=\"".toList (t.dropWhile isAttributeChar)
    let (value, rest) ← Text.splitAt? '"' t'
    some ((t.takeWhile isAttributeChar, value), rest)
  | _ => none

theorem readAttribute?_eq_some_iff {t rest name value : Text} :
    readAttribute? t = some ((name, value), rest) ↔
      t = ' ' :: (name ++ "=\"".toList ++ value ++ '"' :: rest) ∧
        (∀ c ∈ name, isAttributeChar c = true) ∧ '"' ∉ value := by
  constructor
  · intro hread
    unfold readAttribute? at hread
    split at hread
    · next t =>
      simp only [Option.bind_eq_bind, Option.bind_eq_some_iff, Text.after?_eq_some_iff] at hread
      obtain ⟨afterName, hname, ⟨v, r⟩, hsplit, hsome⟩ := hread
      obtain ⟨rfl, hv⟩ := Text.splitAt?_eq_some_iff.mp hsplit
      simp only [Option.some.injEq, Prod.mk.injEq] at hsome
      obtain ⟨⟨rfl, rfl⟩, rfl⟩ := hsome
      have ht : t.takeWhile isAttributeChar ++ t.dropWhile isAttributeChar = t :=
        List.takeWhile_append_dropWhile
      rw [hname] at ht
      refine ⟨?_, fun c hc ↦ List.mem_takeWhile_imp hc, hv⟩
      rw [List.append_assoc, List.append_assoc, ht]
    · cases hread
  · rintro ⟨rfl, hname, hvalue⟩
    have hstop : ∀ c ∈ ("=\"".toList ++ (value ++ '"' :: rest)).head?,
        isAttributeChar c = false := by
      rintro c ⟨⟩
      decide
    have hsplit : Text.splitAt? '"' (value ++ '"' :: rest) = some (value, rest) :=
      Text.splitAt?_eq_some_iff.mpr ⟨rfl, hvalue⟩
    rw [List.append_assoc, List.append_assoc, readAttribute?, Text.dropWhile_run hname hstop,
      Text.takeWhile_run hname hstop, Text.after?_eq_some_iff.mpr rfl]
    simp [hsplit]

/-- Reads attributes as long as there are any, and gives what is left. -/
def readAttributes (t : Text) : List (Text × Text) × Text :=
  match _h : readAttribute? t with
  | none => ([], t)
  | some (attr, rest) =>
    let more := readAttributes rest
    (attr :: more.1, more.2)
termination_by t.length
decreasing_by
  rw [(readAttribute?_eq_some_iff.mp _h).1]
  simp only [List.length_cons, List.length_append]
  omega

/-- Reads a tag with its attributes, and gives what is left. -/
def readTag? : Text → Option (Text × List (Text × Text) × Text)
  | '<' :: t =>
    let read := readAttributes (t.dropWhile Char.isAlphanum)
    (Text.after? ['>'] read.2).map fun rest ↦ (t.takeWhile Char.isAlphanum, read.1, rest)
  | _ => none

theorem readAttributes_of_none {t : Text} (h : readAttribute? t = none) :
    readAttributes t = ([], t) := by
  rw [readAttributes]
  split
  · rfl
  · next heq => simp [h] at heq

theorem readAttributes_of_some {t rest : Text} {attr : Text × Text}
    (h : readAttribute? t = some (attr, rest)) :
    readAttributes t = (attr :: (readAttributes rest).1, (readAttributes rest).2) := by
  rw [readAttributes]
  split
  · next heq => simp [h] at heq
  · next heq =>
    rw [h] at heq
    obtain ⟨rfl, rfl⟩ := Prod.mk.inj (Option.some.inj heq)
    rfl

/-- The reader stays in step with the attributes of a tag, however many there are. -/
theorem readAttributes_attributeText {attrs : List (Text × Text)}
    (hnames : ∀ attr ∈ attrs, ∀ c ∈ attr.1, isAttributeChar c = true) {rest : Text}
    (hrest : readAttribute? rest = none) :
    readAttributes (attrs.flatMap attributeText ++ rest) =
      (attrs.map fun attr ↦ (attr.1, escape attr.2), rest) := by
  induction attrs with
  | nil => exact readAttributes_of_none hrest
  | cons attr attrs ih =>
    rw [List.forall_mem_cons] at hnames
    have hread : readAttribute? ((attr :: attrs).flatMap attributeText ++ rest) =
        some ((attr.1, escape attr.2), attrs.flatMap attributeText ++ rest) := by
      refine readAttribute?_eq_some_iff.mpr ⟨?_, hnames.1, quote_not_mem_escape attr.2⟩
      simp [attributeText]
    rw [readAttributes_of_some hread, ih hnames.2]
    rfl

/-- An open tag is read back to its end, whatever comes after it: its tag, the names of its
attributes in order, and each value with `&quot;` in the place of its double quotes. -/
theorem openTag_reads_back {tag : Text} {attrs : List (Text × Text)}
    (htag : ∀ c ∈ tag, c.isAlphanum = true)
    (hnames : ∀ attr ∈ attrs, ∀ c ∈ attr.1, isAttributeChar c = true) (rest : Text) :
    readTag? (openTag tag attrs ++ rest) =
      some (tag, attrs.map fun attr ↦ (attr.1, "&quot;".toList.intercalate (attr.2.splitOn '"')),
        rest) := by
  have hend : readAttribute? ('>' :: rest) = none := rfl
  have hread := readAttributes_attributeText hnames hend
  have hstop : ∀ c ∈ (attrs.flatMap attributeText ++ '>' :: rest).head?, c.isAlphanum = false := by
    cases attrs with
    | nil =>
      rintro c ⟨⟩
      decide
    | cons attr attrs =>
      rintro c ⟨⟩
      decide
  have hopen : openTag tag attrs ++ rest =
      '<' :: (tag ++ (attrs.flatMap attributeText ++ '>' :: rest)) := by
    simp [openTag]
  have hclose : Text.after? ['>'] ('>' :: rest) = some rest := rfl
  rw [hopen, readTag?, Text.dropWhile_run htag hstop, Text.takeWhile_run htag hstop, hread]
  simp only [hclose, Option.map_some, escape_eq_intercalate]

theorem openTag_reads_back_quotes :
    readTag? "<h1 title=\"a&quot; b=&quot;c>\" data-x_1=\"\" title=\"&quot;=\">\">".toList =
      some ("h1".toList, [("title".toList, "a&quot; b=&quot;c>".toList), ("data-x_1".toList, []),
        ("title".toList, "&quot;=".toList)], "\">".toList) := by
  have hall : [("title".toList, "a\" b=\"c>".toList), ("data-x_1".toList, []),
      ("title".toList, "&quot;=".toList)].all (fun attr ↦ attr.1.all isAttributeChar) = true := by
    decide
  simp only [List.all_eq_true] at hall
  have htag : ∀ c ∈ "h1".toList, c.isAlphanum = true := List.all_eq_true.mp (by decide)
  exact openTag_reads_back htag hall "\">".toList

end StyledMarkup.Markup
