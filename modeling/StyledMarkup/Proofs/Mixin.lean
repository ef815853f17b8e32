import Mathlib
import StyledMarkup.Proofs.Builder.Log
import StyledMarkup.Proofs.Document.WellFormed

/-!
# Mixins and what has been fed

The mixin that a name stands for is the first one of that name whose block has been closed. Its body
is what was fed between the header and the closing brace, without comments and imports, which leave
no node, and without what includes inside the body gave. This stays so for the rest of the run.
-/

namespace StyledMarkup

/-! ## Reading a body back -/

/-- Sorting by order of creation restores nodes of a document that are in that order. -/
theorem Document.Sound.mergeSort_eq {doc : Document} (h : doc.Sound) {nodes sorted : List Node}
    (hperm : nodes.Perm sorted) (hstored : ∀ n ∈ sorted, ∃ i, doc.get? i = some n)
    (hsorted : sorted.Pairwise fun a b ↦ a.sourceIndex ≤ b.sourceIndex) :
    nodes.mergeSort (fun a b ↦ a.sourceIndex ≤ b.sourceIndex) = sorted := by
  have hpairwise : (nodes.mergeSort fun a b ↦ a.sourceIndex ≤ b.sourceIndex).Pairwise
      fun a b ↦ decide (a.sourceIndex ≤ b.sourceIndex) = true :=
    List.pairwise_mergeSort (by simpa using fun a b c hab hbc ↦ Nat.le_trans hab hbc)
      (by simpa using fun a b ↦ Nat.le_total _ _) nodes
  have hsame := (List.mergeSort_perm nodes fun a b ↦ a.sourceIndex ≤ b.sourceIndex).trans hperm
  refine hsame.eq_of_pairwise ?_ (hpairwise.imp fun hab ↦ of_decide_eq_true hab) hsorted
  intro a b ha hb hab hba
  obtain ⟨i, hi⟩ := hstored a (hsame.mem_iff.mp ha)
  obtain ⟨j, hj⟩ := hstored b hb
  have hij : i = j := by
    rw [← h.index i a hi, ← h.index j b hj]
    exact Nat.le_antisymm hab hba
  rw [hij] at hi
  exact Option.some.inj (hi.symm.trans hj)

theorem filterMap_range'_getElem? {α : Type*} (l : List α) (start count : Nat)
    (h : start + count ≤ l.length) :
    (List.range' start count).filterMap (fun j ↦ l[j]?) = (l.drop start).take count := by
  induction count generalizing start with
  | zero => simp
  | succ count ih =>
    have hlt : start < l.length := by omega
    rw [List.range'_succ, List.filterMap_cons, List.getElem?_eq_getElem hlt,
      List.drop_eq_getElem_cons hlt, List.take_succ_cons, ih (start + 1) (by omega)]

section Body

variable {log before body after : List Fed} {header close : Fed} {b : Builder} (hb : b.Sound)
  (hrec : Recorded log b) (h : BlockAt log before header body close after)
include hb hrec h

theorem Recorded.ownClose_eq {n : Node} (hn : b.doc.get? (Fed.kept before).length = some n) :
    n.children.filter (b.doc.has Node.isBlockClose) =
      [(Fed.kept before).length + (Fed.kept body).length + 1] := by
  have hparent := hrec.parent_close h
  obtain ⟨-, c, hc⟩ := hb.closed _ (hrec.not_mem_scopes h) (Or.inr ⟨_, hparent⟩)
  have hbrace : b.doc.has Node.isBlockClose
      ((Fed.kept before).length + (Fed.kept body).length + 1) = true := by
    obtain ⟨m, hm⟩ := Document.exists_get? (Document.lt_size_of_parent? hparent)
    have hkept : (Fed.kept log)[(Fed.kept before).length + (Fed.kept body).length + 1]? =
        some close := by
      rw [h.kept_eq, List.getElem?_append_right (by omega)]
      simp [Nat.add_assoc]
    have hrecord := hrec.nodes ((Fed.kept before).length + (Fed.kept body).length + 1)
    rw [hm, hkept, Option.map_some, Option.map_some] at hrecord
    have hraw : m.raw = close.statement.text := congrArg Prod.fst (Option.some.inj hrecord)
    have hcloses := hrec.braces close (by simp [h.log_eq]) h.closes
    have htext : close.statement.text = ['}'] := by simpa [Statement.closes] using hcloses
    rw [Document.has_of_get? hm, Node.isBlockClose, hraw, htext]
    rfl
  have hlast : c = (Fed.kept before).length + (Fed.kept body).length + 1 := by
    by_contra hne
    rw [(hc.2.2 _ hparent (Ne.symm hne)).2] at hbrace
    cases hbrace
  obtain ⟨earlier, hchildren, hearlier⟩ := hb.doc_sound.children_of_closedBy hn hc
  rw [hchildren, List.filter_append, List.filter_eq_nil_iff.mpr (by simpa using hearlier),
    List.nil_append, hlast, List.filter_cons_of_pos hbrace, List.filter_nil]

theorem Recorded.descendants_perm :
    ((b.doc.descendants (Fed.kept before).length).filter
      fun id ↦ !(List.contains [(Fed.kept before).length + (Fed.kept body).length + 1] id)).Perm
      (List.range' ((Fed.kept before).length + 1) (Fed.kept body).length) := by
  have hlinked := hb.doc_sound.linked
  refine (List.perm_ext_iff_of_nodup ?_ List.nodup_range').mpr ?_
  · exact (hlinked.coherent.nodup_descendantsWithin _ _).filter _
  · intro j
    rw [List.mem_filter, hlinked.coherent.mem_descendants, hrec.below_iff h hlinked,
      List.mem_range'_1]
    simp only [List.contains_cons, List.contains_nil, Bool.or_false, Bool.not_eq_true',
      beq_eq_false_iff_ne, ne_eq]
    omega

theorem Recorded.body_eq_filter {m : Mixin} (hm : m.node = (Fed.kept before).length) :
    m.body b.doc = ((List.range' ((Fed.kept before).length + 1)
      (Fed.kept body).length).filterMap b.doc.get?).filter fun n ↦ !n.expanded := by
  have hlt : (Fed.kept before).length < b.doc.size := by
    rw [hrec.size, h.length_log]
    omega
  obtain ⟨n, hn⟩ := Document.exists_get? hlt
  have hown : (n.children.filter fun id ↦ (b.doc.get? id).any Node.isBlockClose) = _ :=
    hrec.ownClose_eq hb h hn
  unfold Mixin.body
  simp only [hm, hn, Option.map_some, Option.getD_some, hown]
  apply hb.doc_sound.mergeSort_eq
  · exact ((hrec.descendants_perm hb h).filterMap _).filter _
  · intro n hn
    obtain ⟨j, -, hj⟩ := List.mem_filterMap.mp (List.mem_filter.mp hn).1
    exact ⟨j, hj⟩
  · apply List.Pairwise.filter
    rw [List.pairwise_filterMap]
    apply List.Pairwise.imp _ List.pairwise_lt_range'
    intro i j hij a ha c hc
    rw [hb.doc_sound.index i a ha, hb.doc_sound.index j c hc]
    exact Nat.le_of_lt hij

/-- The nodes of a body are those of the statements between header and closing brace. -/
theorem Recorded.body_eq {m : Mixin} (hm : m.node = (Fed.kept before).length) :
    (m.body b.doc).map Node.record =
      ((Fed.kept body).filter fun f ↦ !f.expanded).map Fed.record := by
  have hkept : Fed.kept log =
      (Fed.kept before ++ [header]) ++ (Fed.kept body ++ close :: Fed.kept after) := by
    rw [h.kept_eq]
    simp
  have hlist : ((List.range' ((Fed.kept before).length + 1)
      (Fed.kept body).length).filterMap b.doc.get?).map Node.record =
        (Fed.kept body).map Fed.record := by
    have hnodes : (fun j : Nat ↦ (b.doc.get? j).map Node.record) =
        fun j : Nat ↦ ((Fed.kept log)[j]?).map Fed.record := funext hrec.nodes
    rw [List.map_filterMap, hnodes, ← List.map_filterMap,
      filterMap_range'_getElem? _ _ _ (by rw [h.length_log]; omega), hkept]
    congr 1
    have hlength : (Fed.kept before).length + 1 = (Fed.kept before ++ [header]).length := by simp
    rw [hlength, List.drop_left, List.take_left]
  have hfilter : ∀ nodes : List Node, (nodes.filter fun n ↦ !n.expanded).map Node.record =
      (nodes.map Node.record).filter fun record ↦ !record.2.2.1 := by
    intro nodes
    rw [List.filter_map]
    rfl
  rw [hrec.body_eq_filter hb h hm, hfilter, hlist, List.filter_map]
  rfl

theorem Recorded.expand_eq {m : Mixin} (hm : m.node = (Fed.kept before).length) (params : Params) :
    m.expand b.doc params =
      (body.filter fun f ↦ f.role.addsNode && !f.expanded).map fun f ↦
        (f.statement.line,
          Token.substitute (fun token ↦ params.lookup token) f.statement.text) := by
  have hmap : ∀ nodes : List Node,
      nodes.map (fun n ↦ (n.line, Token.substitute (fun token ↦ params.lookup token) n.raw)) =
        (nodes.map Node.record).map fun record ↦
          (record.2.1, Token.substitute (fun token ↦ params.lookup token) record.1) := by
    intro nodes
    rw [List.map_map]
    rfl
  rw [Mixin.expand, hmap, hrec.body_eq hb h hm, List.map_map, Fed.kept, List.filter_filter]
  simp only [Bool.and_comm]
  rfl

end Body

/-! ## The registry -/

theorem Registry.find?_register (r : Registry) (m : Mixin) (name : Text) :
    (r.register m).find? name = (r.find? name).or (if m.name = name then some m else none) := by
  unfold Registry.register Registry.register?
  split
  · next htaken =>
    rw [Option.getD_none]
    by_cases hname : m.name = name
    · obtain ⟨m', hm'⟩ := Option.isSome_iff_exists.mp htaken
      rw [← hname, hm', Option.some_or]
    · rw [if_neg hname, Option.or_none]
  · rw [Option.getD_some, Registry.find?, List.find?_append]
    congr 1
    by_cases hname : m.name = name <;> simp [hname]

/-- The log ends with the closing brace of the block that defines `m`. -/
def Defines (log : List Fed) (m : Mixin) (header : Fed) (body : List Fed) : Prop :=
  ∃ before close, BlockAt log before header body close [] ∧ header.role = .mixin ∧
    Directive.mixin? header.statement.text = some ⟨m.name, m.params⟩ ∧
    m.node = (Fed.kept before).length

/-- Of the mixins of this name, `m` is the one whose block was closed first. -/
def FirstDefined (log : List Fed) (name : Text) (m : Mixin) : Prop :=
  m.name = name ∧ ∃ front header body, front <+: log ∧ Defines front m header body ∧
    ∀ front' m' header' body', front' <+: log → Defines front' m' header' body' → m'.name = name →
      front.length ≤ front'.length

section Registry

variable {log : List Fed} {b b' : Builder}

theorem Recorded.definition?_eq (hrec : Recorded log b) {i : Nat} {f : Fed}
    (hf : (Fed.kept log)[i]? = some f) :
    b.definition? i = (if f.role = .mixin then Directive.mixin? f.statement.text else none).map
      fun header ↦ ⟨header.name, header.params, i⟩ := by
  have hrecord := hrec.nodes i
  rw [hf, Option.map_some] at hrecord
  obtain ⟨n, hn, hrecord⟩ := Option.map_eq_some_iff.mp hrecord
  have hkind : n.kind.mixin? = _ := congrArg (fun record ↦ record.2.2.2) hrecord
  rw [Builder.definition?, hn, Option.bind_some, hkind]
  rfl

/-- One more statement completes a definition exactly if it closes the block of a mixin. -/
theorem Recorded.defines_iff (hrec : Recorded log b) {f : Fed} {m : Mixin} :
    (∃ header body, Defines (log ++ [f]) m header body) ↔
      f.role.closes = true ∧ b.scopes.head?.bind b.definition? = some m := by
  constructor
  · rintro ⟨header, body, before, close, hblock, hrole, htext, hnode⟩
    have hsplit : log ++ [f] = (before ++ header :: body) ++ [close] := by
      rw [hblock.log_eq]
      simp
    obtain ⟨hlog, hclose⟩ := List.append_inj' hsplit rfl
    obtain rfl := List.singleton_inj.mp hclose
    refine ⟨hblock.closes, ?_⟩
    have hscopes : b.scopes.head? = some (Fed.kept before).length := by
      rw [hrec.scopes, hlog]
      exact hblock.balanced.head?_openBlocks before hblock.opens
    have hkept : (Fed.kept log)[(Fed.kept before).length]? = some header := by
      rw [hlog]
      exact Fed.getElem?_kept before body (Role.addsNode_of_opens hblock.opens)
    rw [hscopes, Option.bind_some, hrec.definition?_eq hkept, if_pos hrole, htext, Option.map_some,
      ← hnode]
  · rintro ⟨hcloses, hdefinition⟩
    obtain ⟨i, hi, hdefinition⟩ := Option.bind_eq_some_iff.mp hdefinition
    obtain ⟨outer, houter⟩ := List.head?_eq_some_iff.mp hi
    rw [hrec.scopes] at houter
    obtain ⟨before, header, body, hlog, hopens, hbody, rfl, -⟩ := Fed.exists_header houter
    have hkept : (Fed.kept log)[(Fed.kept before).length]? = some header := by
      rw [hlog]
      exact Fed.getElem?_kept before body (Role.addsNode_of_opens hopens)
    rw [hrec.definition?_eq hkept] at hdefinition
    obtain ⟨found, hfound, rfl⟩ := Option.map_eq_some_iff.mp hdefinition
    split at hfound
    · next hrole =>
      refine ⟨header, body, before, f, ⟨by rw [hlog]; simp, hopens, hbody, hcloses⟩, hrole, ?_, rfl⟩
      exact hfound
    · cases hfound

/-- A log is completed by one mixin at most. -/
theorem Defines.unique {m m' : Mixin} {header header' : Fed} {body body' : List Fed}
    (h : Defines log m header body) (h' : Defines log m' header' body') : m = m' := by
  obtain ⟨before, close, hblock, -, htext, hnode⟩ := h
  obtain ⟨before', close', hblock', -, htext', hnode'⟩ := h'
  have hsplit :
      (before ++ header :: body) ++ [close] = (before' ++ header' :: body') ++ [close'] := by
    rw [List.append_assoc, List.append_assoc, List.cons_append, List.cons_append, ← hblock.log_eq,
      ← hblock'.log_eq]
  have hlog := (List.append_inj' hsplit rfl).1
  have hhead := hblock.balanced.head?_openBlocks before hblock.opens
  have hhead' := hblock'.balanced.head?_openBlocks before' hblock'.opens
  have hget := Fed.getElem?_kept before body (Role.addsNode_of_opens hblock.opens)
  have hget' := Fed.getElem?_kept before' body' (Role.addsNode_of_opens hblock'.opens)
  rw [← hlog, hhead] at hhead'
  have hnodes := Option.some.inj hhead'
  rw [← hlog, ← hnodes, hget] at hget'
  rw [← Option.some.inj hget', htext] at htext'
  obtain ⟨hname, hparams⟩ := MixinHeader.mk.inj (Option.some.inj htext')
  cases m
  cases m'
  simp_all

theorem FirstDefined.unique {name : Text} {m m' : Mixin} (h : FirstDefined log name m)
    (h' : FirstDefined log name m') : m = m' := by
  obtain ⟨hname, front, header, body, hpre, hdefines, hfirst⟩ := h
  obtain ⟨hname', front', header', body', hpre', hdefines', hfirst'⟩ := h'
  have hlength : front.length = front'.length :=
    Nat.le_antisymm (hfirst _ _ _ _ hpre' hdefines' hname') (hfirst' _ _ _ _ hpre hdefines hname)
  have hfront : front = front' := by
    rw [List.prefix_iff_eq_take.mp hpre, List.prefix_iff_eq_take.mp hpre', hlength]
  rw [hfront] at hdefines
  exact hdefines.unique hdefines'

/-- The registry is what the log tells. -/
structure Registered (log : List Fed) (b : Builder) : Prop where
  found : ∀ {name m}, b.mixins.find? name = some m → FirstDefined log name m
  absent : ∀ {name}, b.mixins.find? name = none → ∀ front m header body, front <+: log →
    Defines front m header body → m.name ≠ name

theorem Registered.nil : Registered [] {} where
  found := by simp [Registry.find?]
  absent := by
    intro name _ front m header body hpre hdefines
    obtain ⟨before, close, hblock, -⟩ := hdefines
    have hlog := hblock.log_eq
    simp [List.prefix_nil.mp hpre] at hlog

/-- The mixin that a statement completes. -/
def completed? (b : Builder) (role : Role) : Option Mixin :=
  if role.closes then b.scopes.head?.bind b.definition? else none

theorem find?_intake {s : Statement} {expanded : Bool} {role : Role}
    (hintake : b.Intake s expanded role b') (hb : b.Sound) (name : Text) :
    b'.mixins.find? name = (b.mixins.find? name).or
      ((completed? b role).bind fun m ↦ if m.name = name then some m else none) := by
  rw [hintake.mixins_eq hb.scopes_lt, completed?]
  split
  · rw [Builder.closeBlock_mixins]
    split
    · next m hm => rw [hm, Option.bind_some, Registry.find?_register]
    · next hm => rw [hm, Option.bind_none, Option.or_none]
  · rw [Option.bind_none, Option.or_none]

theorem Recorded.completed?_eq (hrec : Recorded log b) {f : Fed} {m : Mixin} :
    completed? b f.role = some m ↔ ∃ header body, Defines (log ++ [f]) m header body := by
  rw [hrec.defines_iff, completed?]
  split
  · next hcloses => simp [hcloses]
  · next hcloses => simp [hcloses]

theorem FirstDefined.append {name : Text} {m : Mixin} (h : FirstDefined log name m) (f : Fed) :
    FirstDefined (log ++ [f]) name m := by
  obtain ⟨hname, front, header, body, hpre, hdefines, hfirst⟩ := h
  refine ⟨hname, front, header, body, hpre.trans (List.prefix_append _ _), hdefines, ?_⟩
  intro front' m' header' body' hpre' hdefines' hname'
  rcases List.prefix_concat_iff.mp hpre' with rfl | hpre'
  · exact Nat.le_trans hpre.length_le (by simp)
  · exact hfirst front' m' header' body' hpre' hdefines' hname'

theorem Registered.intake (h : Registered log b) (hrec : Recorded log b) (hb : b.Sound)
    {s : Statement} {expanded : Bool} {role : Role} (hintake : b.Intake s expanded role b') :
    Registered (log ++ [⟨s, role, expanded⟩]) b' := by
  have hcompleted : ∀ {m}, completed? b role = some m ↔
      ∃ header body, Defines (log ++ [⟨s, role, expanded⟩]) m header body :=
    hrec.completed?_eq (f := ⟨s, role, expanded⟩)
  refine ⟨?_, ?_⟩
  · intro name m hm
    rw [find?_intake hintake hb] at hm
    cases hold : b.mixins.find? name with
    | some m₀ =>
      rw [hold, Option.some_or] at hm
      rw [← Option.some.inj hm]
      exact (h.found hold).append _
    | none =>
      -- The name was free, so the block that is closed here is the first one.
      rw [hold, Option.none_or] at hm
      obtain ⟨m', hm', hname⟩ := Option.bind_eq_some_iff.mp hm
      split at hname
      · next hname' =>
        obtain rfl := Option.some.inj hname
        obtain ⟨header, body, hdefines⟩ := hcompleted.mp hm'
        refine ⟨hname', _, header, body, List.prefix_refl _, hdefines, ?_⟩
        intro front m' header' body' hpre hdefines' hname
        rcases List.prefix_concat_iff.mp hpre with rfl | hpre
        · exact Nat.le_refl _
        · exact absurd hname (h.absent hold front m' header' body' hpre hdefines')
      · cases hname
  · intro name hnone front m header body hpre hdefines hname
    rw [find?_intake hintake hb, Option.or_eq_none_iff] at hnone
    rcases List.prefix_concat_iff.mp hpre with rfl | hpre
    · have hm := hcompleted.mpr ⟨header, body, hdefines⟩
      simp [hm, hname] at hnone
    · exact h.absent hnone.1 front m header body hpre hdefines hname

end Registry

/-! ## Along a run -/

structure Moment.Logged (m : Moment) : Prop where
  recorded : Recorded m.log m.builder
  registered : Registered m.log m.builder

section Run

variable {settings : Settings} {m m' : Moment}

theorem Moment.Logged.moves (h : m.Logged) (hsound : m.Sound settings)
    (hmoves : Moves settings m m') : m'.Logged := by
  have htake : ∀ {b : Builder} {ctx : Context} {s : Statement} {rest : List Statement}
      {callers : List Caller} {log : List Fed} {r : Builder.Step},
      Moment.Sound settings ⟨b, ctx, s :: rest, callers, log⟩ →
      Moment.Logged ⟨b, ctx, s :: rest, callers, log⟩ → b.step settings ctx s = .ok r →
      Recorded (log ++ [⟨s, b.roleOf s, ctx.isExpanding⟩]) r.builder ∧
        Registered (log ++ [⟨s, b.roleOf s, ctx.isExpanding⟩]) r.builder := by
    intro b ctx s rest callers log r hsound h hstep
    have hb := hsound.builder_sound
    have hintake := (Builder.taken_of_step hstep).intake (hsound.rest_shaped s List.mem_cons_self)
      hb.attentive
    exact ⟨h.recorded.intake hb hintake, h.registered.intake h.recorded hb hintake⟩
  cases hmoves with
  | next hstep =>
    obtain ⟨hrecorded, hregistered⟩ := htake hsound h hstep
    exact ⟨hrecorded, hregistered⟩
  | nested hstep =>
    obtain ⟨hrecorded, hregistered⟩ := htake hsound h hstep
    exact ⟨hrecorded, hregistered⟩
  | settle hsettle =>
    obtain ⟨rfl, -, -⟩ := Builder.settle_eq_ok hsettle
    exact ⟨h.recorded, h.registered⟩

theorem Moves.log_isPrefix (h : Moves settings m m') : m.log <+: m'.log := by
  cases h with
  | next => exact List.prefix_append _ _
  | nested => exact List.prefix_append _ _
  | settle => exact List.prefix_refl _

theorem Runs.log_isPrefix (h : Runs settings m m') : m.log <+: m'.log := by
  induction h with
  | refl => exact List.prefix_refl _
  | tail _ hmoves ih => exact ih.trans hmoves.log_isPrefix

theorem Reachable.logged {base : Path} {source : Text} (h : Reachable settings base source m) :
    m.Logged := by
  obtain ⟨statements, hscan, hruns⟩ := h
  have hstart : (Moment.start base statements).Sound settings :=
    Moment.sound_start (Statement.isShaped_of_scan hscan)
  induction hruns with
  | refl => exact ⟨.nil, .nil⟩
  | tail hruns hmoves ih => exact ih.moves (hstart.runs hruns) hmoves

end Run

/-- At every point of a run, a name stands for the first mixin of that name whose block has been
closed. The body of a mixin is what was fed between its header and its closing brace, less what
leaves no node and what an include produced, and stays the same for the rest of the run. -/
theorem mixins_of_log {settings : Settings} {base : Path} {source : Text} {m : Moment}
    (h : Reachable settings base source m) :
    (∀ name mixin, m.builder.mixins.find? name = some mixin ↔ FirstDefined m.log name mixin) ∧
    (∀ name, m.builder.mixins.find? name = none ↔ ∀ front mixin header body, front <+: m.log →
      Defines front mixin header body → mixin.name ≠ name) ∧
    ∀ front mixin header body, front <+: m.log → Defines front mixin header body →
      ∀ params m', Runs settings m m' → mixin.expand m'.builder.doc params =
        (body.filter fun f ↦ f.role.addsNode && !f.expanded).map fun f ↦
          (f.statement.line,
            Token.substitute (fun token ↦ params.lookup token) f.statement.text) := by
  have hregistered := h.logged.registered
  refine ⟨?_, ?_, ?_⟩
  · intro name mixin
    refine ⟨hregistered.found, fun hfirst ↦ ?_⟩
    cases hfind : m.builder.mixins.find? name with
    | some found => rw [(hregistered.found hfind).unique hfirst]
    | none =>
      obtain ⟨hname, front, header, body, hpre, hdefines, -⟩ := hfirst
      exact absurd hname (hregistered.absent hfind front mixin header body hpre hdefines)
  · intro name
    refine ⟨hregistered.absent, fun habsent ↦ ?_⟩
    cases hfind : m.builder.mixins.find? name with
    | some found =>
      obtain ⟨hname, front, header, body, hpre, hdefines, -⟩ := hregistered.found hfind
      exact absurd hname (habsent front found header body hpre hdefines)
    | none => rfl
  · intro front mixin header body hpre hdefines params m' hruns
    have hm' := h.runs hruns
    obtain ⟨before, close, hblock, -, -, hnode⟩ := hdefines
    obtain ⟨after, hafter⟩ := hpre.trans hruns.log_isPrefix
    have hlog : m'.log = before ++ header :: (body ++ close :: after) := by
      rw [← hafter, hblock.log_eq]
      simp
    exact hm'.logged.recorded.expand_eq hm'.sound.builder_sound
      ⟨hlog, hblock.opens, hblock.balanced, hblock.closes⟩ hnode params

theorem mixins_of_log_nested :
    ∃ m, Reachable ⟨fun _ ↦ .error "", 0⟩ ⟨[]⟩
        "@mixin a($x: 1) \x7b\n// note\n@include b;\np \x7b\n$y: $x;\n\x7d\n\x7d".toList m ∧
      ∃ mixin, m.builder.mixins.find? "a".toList = some mixin ∧
        mixin.expand m.builder.doc [("$x".toList, "2".toList)] =
          [(3, "@include b;".toList), (4, "p \x7b".toList), (5, "$y: 2;".toList),
            (6, "\x7d".toList)] := by
  have hscan : Statement.scan
      "@mixin a($x: 1) \x7b\n// note\n@include b;\np \x7b\n$y: $x;\n\x7d\n\x7d".toList =
      .ok [⟨"@mixin a($x: 1) \x7b".toList, 1⟩, ⟨"// note".toList, 2⟩, ⟨"@include b;".toList, 3⟩,
        ⟨"p \x7b".toList, 4⟩, ⟨"$y: $x;".toList, 5⟩, ⟨"\x7d".toList, 6⟩, ⟨"\x7d".toList, 7⟩] := by
    cbv
  obtain ⟨m, hm, hfind, hlog⟩ : ∃ m, Reachable ⟨fun _ ↦ .error "", 0⟩ ⟨[]⟩
      "@mixin a($x: 1) \x7b\n// note\n@include b;\np \x7b\n$y: $x;\n\x7d\n\x7d".toList m ∧
      m.builder.mixins.find? "a".toList = some ⟨"a".toList, [("$x".toList, "1".toList)], 0⟩ ∧
      m.log = ⟨⟨"@mixin a($x: 1) \x7b".toList, 1⟩, .mixin, false⟩ ::
        ([⟨⟨"// note".toList, 2⟩, .comment, false⟩,
          ⟨⟨"@include b;".toList, 3⟩, .includeMixin, false⟩,
          ⟨⟨"p \x7b".toList, 4⟩, .opener, false⟩, ⟨⟨"$y: $x;".toList, 5⟩, .plain, false⟩,
          ⟨⟨"\x7d".toList, 6⟩, .closer, false⟩] ++ [⟨⟨"\x7d".toList, 7⟩, .closer, false⟩]) := by
    refine ⟨_, ⟨_, hscan, .head (.next rfl) (.head (.next rfl) (.head (.next rfl) (.head (.next rfl)
      (.head (.next rfl) (.head (.next rfl) (.head (.next rfl) .refl))))))⟩, rfl, rfl⟩
  have hbalanced : Fed.Balanced [⟨⟨"// note".toList, 2⟩, .comment, false⟩,
      ⟨⟨"@include b;".toList, 3⟩, .includeMixin, false⟩, ⟨⟨"p \x7b".toList, 4⟩, .opener, false⟩,
      ⟨⟨"$y: $x;".toList, 5⟩, .plain, false⟩, ⟨⟨"\x7d".toList, 6⟩, .closer, false⟩] :=
    .statement rfl rfl (.statement rfl rfl (.block rfl (.statement rfl rfl .nil) rfl .nil))
  have hexpand := (mixins_of_log hm).2.2 m.log ⟨"a".toList, [("$x".toList, "1".toList)], 0⟩ _ _
    (List.prefix_refl _) ⟨[], _, ⟨hlog, rfl, hbalanced, rfl⟩, rfl, rfl, rfl⟩
    [("$x".toList, "2".toList)] m .refl
  refine ⟨m, hm, _, hfind, hexpand.trans ?_⟩
  cbv

end StyledMarkup
