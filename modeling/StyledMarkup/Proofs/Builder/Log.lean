import StyledMarkup.Proofs.Builder.Run
import StyledMarkup.Proofs.Document.Descendants

/-!
# What the log of a run tells

The log of a run determines its document: the entries that leave a node are the nodes, in order, and
the parent of a node is the innermost block that was open when its statement was fed. Between a
header and its closing brace the log is balanced, so the nodes below a block are those between the
two.
-/

namespace StyledMarkup

namespace Fed

/-- The entries that leave a node. -/
def kept (log : List Fed) : List Fed :=
  log.filter fun f ↦ f.role.addsNode

@[simp] theorem kept_nil : kept [] = [] := rfl

@[simp] theorem kept_append (front back : List Fed) :
    kept (front ++ back) = kept front ++ kept back :=
  List.filter_append ..

theorem kept_cons_of_addsNode {f : Fed} (h : f.role.addsNode = true) (log : List Fed) :
    kept (f :: log) = f :: kept log :=
  List.filter_cons_of_pos h

theorem length_kept_cons (f : Fed) (log : List Fed) :
    (kept (f :: log)).length = (kept [f]).length + (kept log).length := by
  rw [← List.singleton_append, kept_append, List.length_append]

theorem length_kept_singleton {f : Fed} (h : f.role.addsNode = true) : (kept [f]).length = 1 := by
  rw [kept_cons_of_addsNode h]
  rfl

/-- The open blocks after one more entry, which has the number `next` if it leaves a node. -/
def rescope (f : Fed) (next : NodeId) (scopes : List NodeId) : List NodeId :=
  if f.role.opens then next :: scopes else if f.role.closes then scopes.tail else scopes

/-- The open blocks after more entries, given the next number and the open blocks before. -/
def openBlocks : (next : NodeId) → List NodeId → List Fed → List NodeId
  | _, scopes, [] => scopes
  | next, scopes, f :: rest => openBlocks (next + (kept [f]).length) (f.rescope next scopes) rest

theorem openBlocks_append (next : NodeId) (scopes : List NodeId) (front back : List Fed) :
    openBlocks next scopes (front ++ back) =
      openBlocks (next + (kept front).length) (openBlocks next scopes front) back := by
  induction front generalizing next scopes with
  | nil => simp [openBlocks]
  | cons f front ih =>
    rw [List.cons_append, openBlocks, ih, openBlocks, length_kept_cons f front, Nat.add_assoc]

theorem mem_openBlocks {next : NodeId} {scopes : List NodeId} {log : List Fed} {i : NodeId}
    (h : i ∈ openBlocks next scopes log) :
    i ∈ scopes ∨ next ≤ i ∧ i < next + (kept log).length := by
  induction log generalizing next scopes with
  | nil => exact Or.inl h
  | cons f log ih =>
    rw [length_kept_cons f log, ← Nat.add_assoc]
    rcases ih h with hmem | ⟨hle, hlt⟩
    · unfold rescope at hmem
      split at hmem
      · next hopens =>
        rcases List.mem_cons.mp hmem with rfl | hmem
        · refine Or.inr ⟨Nat.le_refl _, ?_⟩
          rw [length_kept_singleton (Role.addsNode_of_opens hopens), Nat.add_assoc]
          exact Nat.lt_add_of_pos_right (Nat.lt_of_lt_of_le Nat.one_pos (Nat.le_add_right _ _))
        · exact Or.inl hmem
      · split at hmem
        · exact Or.inl (List.mem_of_mem_tail hmem)
        · exact Or.inl hmem
    · exact Or.inr ⟨Nat.le_trans (Nat.le_add_right _ _) hle, hlt⟩

theorem lt_of_mem_openBlocks {log : List Fed} {i : NodeId} (h : i ∈ openBlocks 0 [] log) :
    i < (kept log).length := by
  rcases mem_openBlocks h with hnil | ⟨-, hlt⟩
  · cases hnil
  · rwa [Nat.zero_add] at hlt

/-! ## Balanced parts of the log -/

/-- Every block that is opened is closed again, and nothing else is closed. -/
inductive Balanced : List Fed → Prop
  | nil : Balanced []
  | statement {f : Fed} {rest : List Fed} (hopens : f.role.opens = false)
    (hcloses : f.role.closes = false) (hrest : Balanced rest) : Balanced (f :: rest)
  | block {header : Fed} {body : List Fed} {close : Fed} {rest : List Fed}
    (hopens : header.role.opens = true) (hbody : Balanced body) (hcloses : close.role.closes = true)
    (hrest : Balanced rest) : Balanced (header :: (body ++ close :: rest))

theorem Balanced.append {front back : List Fed} (h : Balanced front) (hback : Balanced back) :
    Balanced (front ++ back) := by
  induction h with
  | nil => exact hback
  | statement hopens hcloses _ ih => exact .statement hopens hcloses ih
  | block hopens hbody hcloses _ _ ih =>
    rw [List.cons_append, List.append_assoc, List.cons_append]
    exact .block hopens hbody hcloses ih

theorem not_opens_of_closes {f : Fed} (h : f.role.closes = true) : f.role.opens = false := by
  cases hrole : f.role <;> simp_all [Role.opens, Role.closes]

theorem openBlocks_cons_open {f : Fed} (h : f.role.opens = true) (next : NodeId)
    (scopes : List NodeId) (log : List Fed) :
    openBlocks next scopes (f :: log) = openBlocks (next + 1) (next :: scopes) log := by
  rw [openBlocks, length_kept_singleton (Role.addsNode_of_opens h), rescope, if_pos h]

theorem openBlocks_cons_close {f : Fed} (h : f.role.closes = true) (next : NodeId)
    (scopes : List NodeId) (log : List Fed) :
    openBlocks next scopes (f :: log) = openBlocks (next + 1) scopes.tail log := by
  rw [openBlocks, length_kept_singleton (Role.addsNode_of_closes h), rescope, not_opens_of_closes h,
    if_neg Bool.false_ne_true, if_pos h]

theorem openBlocks_cons_statement {f : Fed} (hopens : f.role.opens = false)
    (hcloses : f.role.closes = false) (next : NodeId) (scopes : List NodeId) (log : List Fed) :
    openBlocks next scopes (f :: log) = openBlocks (next + (kept [f]).length) scopes log := by
  rw [openBlocks, rescope, hopens, hcloses, if_neg Bool.false_ne_true, if_neg Bool.false_ne_true]

theorem Balanced.openBlocks_eq {log : List Fed} (h : Balanced log) (next : NodeId)
    (scopes : List NodeId) : openBlocks next scopes log = scopes := by
  induction h generalizing next scopes with
  | nil => rfl
  | statement hopens hcloses _ ih => rw [openBlocks_cons_statement hopens hcloses, ih]
  | block hopens _ hcloses _ ihbody ihrest =>
    rw [openBlocks_cons_open hopens, openBlocks_append, ihbody, openBlocks_cons_close hcloses,
      List.tail_cons, ihrest]

theorem Balanced.head?_openBlocks {rest : List Fed} (h : Balanced rest) (front : List Fed) {f : Fed}
    (hf : f.role.opens = true) :
    (openBlocks 0 [] (front ++ f :: rest)).head? = some (kept front).length := by
  rw [openBlocks_append, openBlocks_cons_open hf, h.openBlocks_eq, Nat.zero_add, List.head?_cons]

theorem getElem?_kept (front rest : List Fed) {f : Fed} (hf : f.role.addsNode = true) :
    (kept (front ++ f :: rest))[(kept front).length]? = some f := by
  rw [kept_append, kept_cons_of_addsNode hf]
  simp

/-- Inside a balanced part nothing is closed that was open before. -/
theorem Balanced.openBlocks_of_isPrefix {log : List Fed} (h : Balanced log) {front : List Fed}
    (hfront : front <+: log) (next : NodeId) (scopes : List NodeId) :
    ∃ own, openBlocks next scopes front = own ++ scopes ∧ ∀ i ∈ own, next ≤ i := by
  induction h generalizing front next scopes with
  | nil =>
    rw [List.prefix_nil.mp hfront]
    exact ⟨[], rfl, by simp⟩
  | statement hopens hcloses _ ih =>
    rcases List.prefix_cons_iff.mp hfront with rfl | ⟨front, rfl, hpre⟩
    · exact ⟨[], rfl, by simp⟩
    · rw [openBlocks_cons_statement hopens hcloses]
      obtain ⟨own, hown, hle⟩ := ih hpre (next + _) scopes
      exact ⟨own, hown, fun i hi ↦ Nat.le_trans (Nat.le_add_right _ _) (hle i hi)⟩
  | @block header body close rest hopens hbody hcloses _ ihbody ihrest =>
    rcases List.prefix_cons_iff.mp hfront with rfl | ⟨front, rfl, hpre⟩
    · exact ⟨[], rfl, by simp⟩
    · rw [openBlocks_cons_open hopens]
      rcases List.prefix_or_prefix_of_prefix hpre (List.prefix_append body _) with hinner | hpast
      · obtain ⟨own, hown, hle⟩ := ihbody hinner (next + 1) (next :: scopes)
        refine ⟨own ++ [next], by rw [hown, List.append_assoc]; rfl, ?_⟩
        intro i hi
        rcases List.mem_append.mp hi with hi | hi
        · exact Nat.le_trans (Nat.le_succ next) (hle i hi)
        · exact Nat.le_of_eq (List.mem_singleton.mp hi).symm
      · obtain ⟨tail, rfl⟩ := hpast
        have htail := (List.prefix_append_right_inj body).mp hpre
        rw [openBlocks_append, hbody.openBlocks_eq]
        rcases List.prefix_cons_iff.mp htail with rfl | ⟨tail, rfl, hrest⟩
        · exact ⟨[next], rfl, by simp⟩
        · rw [openBlocks_cons_close hcloses, List.tail_cons]
          obtain ⟨own, hown, hle⟩ := ihrest hrest (next + 1 + (kept body).length + 1) scopes
          refine ⟨own, hown, fun i hi ↦ Nat.le_trans ?_ (hle i hi)⟩
          rw [Nat.add_assoc, Nat.add_assoc]
          exact Nat.le_add_right _ _

/-- An open block has its header in the log, and what follows the header is balanced. -/
theorem exists_header {log : List Fed} {i : NodeId} {outer : List NodeId}
    (h : openBlocks 0 [] log = i :: outer) :
    ∃ before header body, log = before ++ header :: body ∧ header.role.opens = true ∧
      Balanced body ∧ i = (kept before).length ∧ outer = openBlocks 0 [] before := by
  induction hlength : log.length using Nat.strong_induction_on generalizing log i outer with
  | _ n ih =>
    rcases List.eq_nil_or_concat log with rfl | ⟨front, f, rfl⟩
    · cases h
    · have hfront : front.length < n := by simp [← hlength]
      rw [List.concat_eq_append, openBlocks_append, Nat.zero_add] at h
      by_cases hopens : f.role.opens = true
      · rw [openBlocks_cons_open hopens] at h
        obtain ⟨rfl, rfl⟩ := List.cons.inj h
        exact ⟨front, f, [], by simp, hopens, .nil, rfl, rfl⟩
      · by_cases hcloses : f.role.closes = true
        · -- The brace closes a block that was opened inside the one that is still open.
          rw [openBlocks_cons_close hcloses, openBlocks] at h
          obtain ⟨k, hk⟩ : ∃ k, openBlocks 0 [] front = k :: i :: outer := by
            cases hopen : openBlocks 0 [] front with
            | nil => simp [hopen] at h
            | cons k inner => exact ⟨k, by rw [hopen, List.tail_cons] at h; rw [h]⟩
          obtain ⟨before, header, body, rfl, hheader, hbody, -, houter⟩ := ih _ hfront hk rfl
          have hbefore : before.length < n := by
            rw [List.length_append] at hfront
            exact Nat.lt_of_le_of_lt (Nat.le_add_right _ _) hfront
          obtain ⟨before', header', body', rfl, hheader', hbody', hi, houter'⟩ :=
            ih _ hbefore houter.symm rfl
          refine ⟨before', header', body' ++ header :: (body ++ f :: []), by simp, hheader', ?_, hi,
            houter'⟩
          exact hbody'.append (.block hheader hbody hcloses .nil)
        · rw [openBlocks_cons_statement (Bool.of_not_eq_true hopens) (Bool.of_not_eq_true hcloses),
            openBlocks] at h
          obtain ⟨before, header, body, rfl, hheader, hbody, hi, houter⟩ := ih _ hfront h rfl
          refine ⟨before, header, body ++ [f], by simp, hheader, ?_, hi, houter⟩
          exact hbody.append (.statement (Bool.of_not_eq_true hopens) (Bool.of_not_eq_true hcloses)
            .nil)

end Fed

/-! ## The document of a log -/

/-- What a node keeps of its statement: text, line, where it comes from, and the mixin it opens. -/
def Node.record (n : Node) : Text × Nat × Bool × Option MixinHeader :=
  (n.raw, n.line, n.expanded, n.kind.mixin?)

def Fed.record (f : Fed) : Text × Nat × Bool × Option MixinHeader :=
  (f.statement.text, f.statement.line, f.expanded,
    if f.role = .mixin then Directive.mixin? f.statement.text else none)

/-- The builder is what the log tells. -/
structure Recorded (log : List Fed) (b : Builder) : Prop where
  size : b.doc.size = (Fed.kept log).length
  nodes : ∀ j : Nat, (b.doc.get? j).map Node.record = ((Fed.kept log)[j]?).map Fed.record
  scopes : b.scopes = Fed.openBlocks 0 [] log
  parents : ∀ front f back, log = front ++ f :: back → f.role.addsNode = true →
    b.doc.parent? (Fed.kept front).length = (Fed.openBlocks 0 [] front).head?
  braces : ∀ f ∈ log, f.role.closes = true → f.statement.closes = true

namespace Recorded

theorem nil : Recorded [] {} where
  size := rfl
  nodes := by simp [Document.get?]
  scopes := rfl
  parents := by simp
  braces := by simp

theorem record_adopt (n : Node) (id : NodeId) (asAttribute : Bool) :
    (n.adopt id asAttribute).record = n.record := by
  cases asAttribute <;> rfl

variable {log : List Fed} {b b' : Builder} {s : Statement} {expanded : Bool} {role : Role}

theorem nodes_intake (h : Recorded log b) (hb : b.Sound) (hintake : b.Intake s expanded role b') :
    b'.doc.size = (Fed.kept (log ++ [⟨s, role, expanded⟩])).length ∧
      ∀ j : Nat, (b'.doc.get? j).map Node.record =
        ((Fed.kept (log ++ [⟨s, role, expanded⟩]))[j]?).map Fed.record := by
  rcases hintake.doc_cases with ⟨hadds, hdoc⟩ | ⟨hadds, kind, suppressed, hdoc, hmixin⟩
  · have hkept : Fed.kept [⟨s, role, expanded⟩] = [] := List.filter_cons_of_neg (by simp [hadds])
    rw [Fed.kept_append, hkept, List.append_nil, hdoc]
    exact ⟨h.size, h.nodes⟩
  · have hkept : Fed.kept [⟨s, role, expanded⟩] = [⟨s, role, expanded⟩] :=
      Fed.kept_cons_of_addsNode hadds []
    rw [Fed.kept_append, hkept, hdoc]
    refine ⟨by simp [h.size], fun j ↦ ?_⟩
    rw [Document.map_get?_graft b.doc s kind suppressed expanded record_adopt hb.head?_lt,
      List.getElem?_append, ← h.size]
    split
    · next hj =>
      subst hj
      simp [Document.leaf, Node.record, Fed.record, hmixin]
    · next hj =>
      split
      · exact h.nodes j
      · next hge =>
        have hlarge : b.doc.size ≤ j := Nat.le_of_not_lt hge
        have hpos : 0 < j - b.doc.size := Nat.sub_pos_of_lt (Nat.lt_of_le_of_ne hlarge (Ne.symm hj))
        rw [Document.get?_eq_none_iff.mpr hlarge, List.getElem?_eq_none hpos]
        rfl

theorem parents_intake (h : Recorded log b) (hb : b.Sound) (hintake : b.Intake s expanded role b')
    {front back : List Fed} {f : Fed} (hlog : log ++ [⟨s, role, expanded⟩] = front ++ f :: back)
    (hadds : f.role.addsNode = true) :
    b'.doc.parent? (Fed.kept front).length = (Fed.openBlocks 0 [] front).head? := by
  rcases List.eq_nil_or_concat back with rfl | ⟨back, last, rfl⟩
  · obtain ⟨rfl, hf⟩ := List.append_inj' hlog rfl
    obtain rfl := List.singleton_inj.mp hf
    rcases hintake.doc_cases with ⟨hskips, -⟩ | ⟨-, kind, suppressed, hdoc, -⟩
    · rw [hskips] at hadds
      cases hadds
    · rw [hdoc, Document.parent?_graft b.doc s kind suppressed expanded hb.head?_lt, ← h.size,
        if_pos rfl, h.scopes]
  · have hlog' : log = front ++ f :: back := by
      rw [List.concat_eq_append, ← List.cons_append, ← List.append_assoc] at hlog
      exact (List.append_inj' hlog rfl).1
    have hlt : (Fed.kept front).length < b.doc.size := by
      rw [h.size, hlog', Fed.kept_append, Fed.kept_cons_of_addsNode hadds, List.length_append]
      exact Nat.lt_add_of_pos_right (Nat.succ_pos _)
    have hold := h.parents front f back hlog' hadds
    rcases hintake.doc_cases with ⟨-, hdoc⟩ | ⟨-, kind, suppressed, hdoc, -⟩
    · rw [hdoc]
      exact hold
    · rw [hdoc, Document.parent?_graft b.doc s kind suppressed expanded hb.head?_lt,
        if_neg (Nat.ne_of_lt hlt)]
      exact hold

theorem intake (h : Recorded log b) (hb : b.Sound) (hintake : b.Intake s expanded role b') :
    Recorded (log ++ [⟨s, role, expanded⟩]) b' := by
  obtain ⟨hsize, hnodes⟩ := h.nodes_intake hb hintake
  refine ⟨hsize, hnodes, ?_, fun front f back ↦ h.parents_intake hb hintake, ?_⟩
  · rw [hintake.scopes_eq, Fed.openBlocks_append, Nat.zero_add, ← h.size, ← h.scopes]
    rfl
  · intro f hf hcloses
    rcases List.mem_append.mp hf with hf | hf
    · exact h.braces f hf hcloses
    · obtain rfl := List.mem_singleton.mp hf
      exact hintake.statement_closes hcloses

end Recorded

/-! ## The nodes of a block -/

theorem Fed.exists_split {log : List Fed} {j : Nat} (h : j < (kept log).length) :
    ∃ front f back,
      log = front ++ f :: back ∧ f.role.addsNode = true ∧ (kept front).length = j := by
  induction log generalizing j with
  | nil => cases h
  | cons g log ih =>
    by_cases hadds : g.role.addsNode = true
    · rw [kept_cons_of_addsNode hadds] at h
      cases j with
      | zero => exact ⟨[], g, log, rfl, hadds, rfl⟩
      | succ j =>
        obtain ⟨front, f, back, rfl, hf, rfl⟩ := ih (Nat.lt_of_succ_lt_succ h)
        exact ⟨g :: front, f, back, rfl, hf, by rw [kept_cons_of_addsNode hadds]; rfl⟩
    · have hskip : ∀ rest, kept (g :: rest) = kept rest := fun _ ↦ List.filter_cons_of_neg hadds
      rw [hskip] at h
      obtain ⟨front, f, back, rfl, hf, rfl⟩ := ih h
      exact ⟨g :: front, f, back, rfl, hf, by rw [hskip]⟩

/-- A block of the log, from its header to its closing brace. -/
structure BlockAt (log before : List Fed) (header : Fed) (body : List Fed) (close : Fed)
    (after : List Fed) : Prop where
  log_eq : log = before ++ header :: (body ++ close :: after)
  opens : header.role.opens = true
  balanced : Fed.Balanced body
  closes : close.role.closes = true

namespace BlockAt

variable {log before body after : List Fed} {header close : Fed}
  (h : BlockAt log before header body close after)
include h

theorem kept_eq :
    Fed.kept log =
      Fed.kept before ++ header :: (Fed.kept body ++ close :: Fed.kept after) := by
  rw [h.log_eq, Fed.kept_append, Fed.kept_cons_of_addsNode (Role.addsNode_of_opens h.opens),
    Fed.kept_append, Fed.kept_cons_of_addsNode (Role.addsNode_of_closes h.closes)]

theorem length_log :
    (Fed.kept log).length =
      (Fed.kept before).length + (Fed.kept body).length + 2 + (Fed.kept after).length := by
  rw [h.kept_eq]
  simp only [List.length_append, List.length_cons]
  omega

theorem openBlocks_header :
    Fed.openBlocks 0 [] (before ++ [header]) =
      (Fed.kept before).length :: Fed.openBlocks 0 [] before := by
  rw [Fed.openBlocks_append, Nat.zero_add, Fed.openBlocks_cons_open h.opens, Fed.openBlocks]

theorem length_header : (Fed.kept (before ++ [header])).length = (Fed.kept before).length + 1 := by
  rw [Fed.kept_append, List.length_append,
    Fed.length_kept_singleton (Role.addsNode_of_opens h.opens)]

theorem openBlocks_close :
    Fed.openBlocks 0 [] (before ++ header :: (body ++ [close])) = Fed.openBlocks 0 [] before := by
  rw [Fed.openBlocks_append, Fed.openBlocks_cons_open h.opens, Fed.openBlocks_append,
    h.balanced.openBlocks_eq, Fed.openBlocks_cons_close h.closes, List.tail_cons, Fed.openBlocks]

theorem length_close :
    (Fed.kept (before ++ header :: (body ++ [close]))).length =
      (Fed.kept before).length + (Fed.kept body).length + 2 :=
  length_log ⟨rfl, h.opens, h.balanced, h.closes⟩

end BlockAt

/-- What is fed while a block is open has its parent there: the block itself or a node inside it. -/
theorem Recorded.parent_of_isPrefix {log before body front back : List Fed} {header f : Fed}
    {b : Builder} (hrec : Recorded log b) (hlog : log = before ++ header :: (front ++ f :: back))
    (hopens : header.role.opens = true) (hbody : Fed.Balanced body) (hfront : front <+: body)
    (hadds : f.role.addsNode = true) :
    ∃ p, b.doc.parent? ((Fed.kept before).length + 1 + (Fed.kept front).length) = some p ∧
      (Fed.kept before).length ≤ p := by
  have hparent := hrec.parents (before ++ header :: front) f back (by simp [hlog]) hadds
  obtain ⟨own, hown, hle⟩ := hbody.openBlocks_of_isPrefix hfront ((Fed.kept before).length + 1)
    ((Fed.kept before).length :: Fed.openBlocks 0 [] before)
  rw [Fed.openBlocks_append, Fed.openBlocks_cons_open hopens, Nat.zero_add, hown, Fed.kept_append,
    Fed.kept_cons_of_addsNode (Role.addsNode_of_opens hopens), List.length_append,
    List.length_cons, Nat.add_comm (Fed.kept front).length, ← Nat.add_assoc] at hparent
  cases own with
  | nil => exact ⟨_, hparent, Nat.le_refl _⟩
  | cons p own => exact ⟨p, hparent, Nat.le_of_succ_le (hle p List.mem_cons_self)⟩

section Block

variable {log before body after : List Fed} {header close : Fed} {b : Builder}
  (hrec : Recorded log b) (h : BlockAt log before header body close after)
include hrec h

/-- The parent of a node between header and closing brace, the brace included, is the header or
another such node. -/
theorem Recorded.parent_inside {j : Nat} (hlow : (Fed.kept before).length < j)
    (hhigh : j ≤ (Fed.kept before).length + (Fed.kept body).length + 1) :
    ∃ p, b.doc.parent? j = some p ∧ (Fed.kept before).length ≤ p := by
  have hlength : (Fed.kept (body ++ [close])).length = (Fed.kept body).length + 1 := by
    rw [Fed.kept_append, List.length_append,
      Fed.length_kept_singleton (Role.addsNode_of_closes h.closes)]
  have hlt : j - ((Fed.kept before).length + 1) < (Fed.kept (body ++ [close])).length := by omega
  obtain ⟨front, f, back, hsplit, hadds, hcount⟩ := Fed.exists_split hlt
  have hfront : front <+: body := by
    rcases List.eq_nil_or_concat back with rfl | ⟨back, last, rfl⟩
    · have hbody : body = front := (List.append_inj' hsplit rfl).1
      exact hbody ▸ List.prefix_refl body
    · rw [List.concat_eq_append, ← List.cons_append, ← List.append_assoc] at hsplit
      rw [(List.append_inj' hsplit rfl).1]
      exact List.prefix_append _ _
  have hlog : log = before ++ header :: (front ++ f :: (back ++ after)) := by
    rw [h.log_eq, ← List.singleton_append (l := after), ← List.append_assoc body, hsplit,
      List.append_assoc, List.cons_append]
  have hparent := hrec.parent_of_isPrefix hlog h.opens h.balanced hfront hadds
  rwa [hcount, Nat.add_sub_cancel' hlow] at hparent

omit hrec in
theorem BlockAt.mem_openBlocks {front : List Fed} {p : NodeId}
    (hp : p ∈ Fed.openBlocks 0 [] (before ++ header :: (body ++ [close]) ++ front)) :
    p < (Fed.kept before).length ∨ (Fed.kept before).length + (Fed.kept body).length + 1 < p := by
  rw [Fed.openBlocks_append, h.openBlocks_close, h.length_close] at hp
  rcases Fed.mem_openBlocks hp with hold | ⟨hnew, -⟩
  · exact Or.inl (Fed.lt_of_mem_openBlocks hold)
  · rw [Nat.zero_add] at hnew
    exact Or.inr hnew

theorem Recorded.parent_after {j : Nat} {p : NodeId}
    (hlow : (Fed.kept before).length + (Fed.kept body).length + 1 < j)
    (hp : b.doc.parent? j = some p) :
    p < (Fed.kept before).length ∨ (Fed.kept before).length + (Fed.kept body).length + 1 < p := by
  have hsize := Document.lt_size_of_parent? hp
  rw [hrec.size, h.length_log] at hsize
  have hlt : j - ((Fed.kept before).length + (Fed.kept body).length + 2) <
      (Fed.kept after).length := by
    have hsize : j < _ := hsize
    omega
  obtain ⟨front, f, back, rfl, hadds, hcount⟩ := Fed.exists_split hlt
  have hlog : log = before ++ header :: (body ++ [close]) ++ front ++ f :: back := by
    rw [h.log_eq]
    simp
  have hparent := hrec.parents _ _ _ hlog hadds
  have hnumber : (Fed.kept (before ++ header :: (body ++ [close]) ++ front)).length = j := by
    rw [Fed.kept_append, List.length_append, h.length_close, hcount]
    omega
  rw [hnumber, hp] at hparent
  exact h.mem_openBlocks (List.mem_of_head? hparent.symm)

/-- The nodes below a header are those up to its closing brace. -/
theorem Recorded.below_iff (hlinked : b.doc.Linked) {j : Nat} :
    b.doc.Below (Fed.kept before).length j ↔
      (Fed.kept before).length < j ∧
        j ≤ (Fed.kept before).length + (Fed.kept body).length + 1 := by
  constructor
  · intro hbelow
    refine ⟨hbelow.lt hlinked.coherent, ?_⟩
    induction j using Nat.strong_induction_on with
    | _ j ih =>
      by_contra hhigh
      have hlow := Nat.lt_of_not_le hhigh
      obtain ⟨p, hp⟩ : ∃ p, b.doc.parent? j = some p := by
        cases hbelow with
        | single hj => exact ⟨_, hj⟩
        | tail _ hj => exact ⟨_, hj⟩
      have hstep := hbelow.parent_cases hp
      rcases hrec.parent_after h hlow hp with hless | hmore
      · rcases hstep with heq | hbelow
        · exact Nat.ne_of_lt hless heq.symm
        · exact Nat.lt_asymm hless (hbelow.lt hlinked.coherent)
      · rcases hstep with heq | hbelow
        · rw [← heq] at hmore
          have hmore : _ < (Fed.kept before).length := hmore
          omega
        · exact Nat.not_lt_of_le (ih p (hlinked.parent_lt hp) hbelow) hmore
  · rintro ⟨hlow, hhigh⟩
    induction j using Nat.strong_induction_on with
    | _ j ih =>
      obtain ⟨p, hp, hle⟩ := hrec.parent_inside h hlow hhigh
      have hpj : p < j := hlinked.parent_lt hp
      rcases Nat.eq_or_lt_of_le hle with heq | hlt
      · exact Document.Below.of_parent (heq ▸ hp)
      · exact (ih p hpj hlt (Nat.le_of_lt (Nat.lt_of_lt_of_le hpj hhigh))).tail hp

theorem Recorded.parent_close :
    b.doc.parent? ((Fed.kept before).length + (Fed.kept body).length + 1) =
      some (Fed.kept before).length := by
  have hlog : log = before ++ [header] ++ body ++ close :: after := by
    rw [h.log_eq]
    simp
  have hparent := hrec.parents _ _ _ hlog (Role.addsNode_of_closes h.closes)
  rw [Fed.kept_append, List.length_append, h.length_header, Fed.openBlocks_append,
    h.balanced.openBlocks_eq, h.openBlocks_header, Nat.add_right_comm] at hparent
  exact hparent

theorem Recorded.not_mem_scopes : (Fed.kept before).length ∉ b.scopes := by
  have hlog : log = before ++ header :: (body ++ [close]) ++ after := by
    rw [h.log_eq]
    simp
  intro hmem
  rw [hrec.scopes, hlog] at hmem
  rcases h.mem_openBlocks hmem with hlt | hlt
  · exact Nat.lt_irrefl _ hlt
  · rw [Nat.add_assoc] at hlt
    exact Nat.not_lt_of_le (Nat.le_add_right _ _) hlt

end Block

end StyledMarkup
