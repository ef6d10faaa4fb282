import Mathlib.Data.List.Forall2
import StreamTransform.Proofs.Drafts

/-!
# Outlines

The outline of a text tells what its nodes are to be, in order, as it is written. Commands have an
outline of their own, and what they are resolved to is laid out accordingly, if all that is written
can be read. Reading only ever adds problems.
-/

namespace StreamTransform

/-- What a node is to be, as it is written. Where nothing is selected, the content tells the value. -/
inductive Label where
  | body
  | process (walk : Walk) (delegation : Script.Delegation)
  | call (procedure : String) (delegation : Script.Delegation)
  | startElement (name : String)
  | endElement (name : String)
  | text (text : String)
  | valueOf (select separator : String)
  | literal (name : String) (attributes : List (String × String))
  | element (name : String) (uri : Option String)
  | attr (name : String) (select : Option String)
  | copy (attributes : Bool)
  | comment
  | processingInstruction (target : String)
  | cdata
  | document (href : String)
  | message (select : Option String) (terminate : Bool)
  | variable (name : String) (select : Option String) (home : Home)
  /-- Without a default the parameter has to be passed. -/
  | parameter (name : String) (default : Option (Option String)) (home : Home)
  | assign (name : String) (select : Option String)
  | loop (test : String)
  | each (name select : String)
  | condition (test : String) (alternative : Bool)
  | alternative
  | choice
  | when (test : String)
  | otherwise
  | closing

/-- The labels of a content between those of its start and its end. -/
def Label.around (l : Label) (content : List Label) : List Label := l :: content ++ [closing]

namespace Script

mutual

/-- What a command is to be laid out as. -/
def Command.labels : Command → List Label
  | .locate _ => []
  | .process w d => [.process w d]
  | .call procedure d => [.call procedure d]
  | .literal n as content => (Label.literal n as).around (labelsOf content)
  | .element n uri content => (Label.element n uri).around (labelsOf content)
  | .startElement n => [.startElement n]
  | .endElement n => [.endElement n]
  | .attr n select => (Label.attr n select).around []
  | .attrContent n content => (Label.attr n none).around (labelsOf content)
  | .text s => [.text s]
  | .valueOf select separator => [.valueOf select separator]
  | .copy as content => (Label.copy as).around (labelsOf content)
  | .comment content => Label.comment.around (labelsOf content)
  | .processingInstruction target content =>
    (Label.processingInstruction target).around (labelsOf content)
  | .cdata content => Label.cdata.around (labelsOf content)
  | .document href content => (Label.document href).around (labelsOf content)
  | .message select => (Label.message select false).around []
  | .messageContent terminate content => (Label.message none terminate).around (labelsOf content)
  | .variable n select => (Label.variable n select .body).around []
  | .variableContent n content => (Label.variable n none .body).around (labelsOf content)
  | .parameter n select => (Label.parameter n (some select) .body).around []
  | .parameterContent n content => (Label.parameter n (some none) .body).around (labelsOf content)
  | .required n => (Label.parameter n none .body).around []
  | .assign n select => (Label.assign n select).around []
  | .assignContent n content => (Label.assign n none).around (labelsOf content)
  | .condition test yes => (Label.condition test false).around (labelsOf yes)
  | .either test yes no =>
    (Label.condition test true).around (labelsOf yes) ++ Label.alternative.around (labelsOf no)
  | .choose branches => Label.choice.around (branchLabels branches)
  | .loop test content => (Label.loop test).around (labelsOf content)
  | .each n select content => (Label.each n select).around (labelsOf content)

/-- Commands are laid out one after the other. -/
def labelsOf : List Command → List Label
  | [] => []
  | c :: cs => c.labels ++ labelsOf cs

def Branch.labels : Branch → List Label
  | .when test content => (Label.when test).around (labelsOf content)
  | .otherwise content => Label.otherwise.around (labelsOf content)

def branchLabels : List Branch → List Label
  | [] => []
  | b :: bs => b.labels ++ branchLabels bs

end

/-- The outline of a body with the commands as its content. -/
def outline (content : List Command) : List Label := Label.body.around (labelsOf content)

/-! ## What is read -/

/-- What is read in some namespaces, without a problem. -/
def Yields {α : Type} (ns : Namespaces) (r : Resolve α) (a : α) : Prop :=
  ∃ l, r.run ⟨l, ns, []⟩ = (a, ⟨l, ns, []⟩)

/-- Nothing changes but that problems are added. -/
def Steady {α : Type} (r : Resolve α) : Prop :=
  ∀ x, (r.run x).2.location = x.location ∧ (r.run x).2.namespaces = x.namespaces ∧
    x.problems <:+ (r.run x).2.problems

/-- Namespaces stay, problems are only added, and what is read without one has a property. -/
def Reads {α : Type} (ns : Namespaces) (Q : α → Prop) (r : Resolve α) : Prop :=
  ∀ x, x.namespaces = ns → (r.run x).2.namespaces = ns ∧ x.problems <:+ (r.run x).2.problems ∧
    ((r.run x).2.problems = [] → Q (r.run x).1)

section
variable {α β : Type} {ns : Namespaces} {P : α → Prop} {Q : β → Prop} {r : Resolve α}
  {k : α → Resolve β}

theorem steady_pure (b : β) : Steady (pure b) := fun _ => ⟨rfl, rfl, List.suffix_refl _⟩

theorem steady_bind (h : Steady r) (hk : ∀ a, Steady (k a)) : Steady (r >>= k) := by
  intro x
  obtain ⟨hl, hn, hp⟩ := h x
  obtain ⟨hl', hn', hp'⟩ := hk (r.run x).1 (r.run x).2
  exact ⟨hl'.trans hl, hn'.trans hn, hp.trans hp'⟩

theorem steady_mapM {f : α → Resolve β} (h : ∀ a, Steady (f a)) (as : List α) :
    Steady (as.mapM f) := by
  induction as with
  | nil => exact steady_pure []
  | cons a as ih =>
    rw [List.mapM_cons]
    exact steady_bind (h a) fun _ => steady_bind ih fun _ => steady_pure _

theorem steady_optional {f : α → Resolve β} (h : ∀ a, Steady (f a)) :
    ∀ a, Steady (Resolve.optional f a)
  | none => steady_pure none
  | some a => steady_bind (h a) fun _ => steady_pure _

theorem reads_pure {b : β} (h : Q b) : Reads ns Q (pure b) := fun _ hx =>
  ⟨hx, List.suffix_refl _, fun _ => h⟩

/-- What holds of the first result is at hand in what is shown of the second. -/
theorem reads_bind (h : Reads ns P r) (hk : ∀ a, Reads ns (fun b => P a → Q b) (k a)) :
    Reads ns Q (r >>= k) := by
  intro x hx
  obtain ⟨hn, hp, ha⟩ := h x hx
  obtain ⟨hn', hp', hb⟩ := hk (r.run x).1 (r.run x).2 hn
  refine ⟨hn', hp.trans hp', fun hnone => hb hnone (ha ?_)⟩
  exact List.suffix_nil.mp (hnone ▸ hp')

theorem Steady.reads (h : Steady r) (ns : Namespaces) : Reads ns (Yields ns r) r := by
  rintro ⟨l, _, problems⟩ rfl
  obtain ⟨hl, hn, hp⟩ := h ⟨l, _, problems⟩
  refine ⟨hn, hp, fun hnone => ⟨l, ?_⟩⟩
  obtain rfl : problems = [] := List.suffix_nil.mp (hnone ▸ hp)
  have hsame : (r.run ⟨l, _, []⟩).2 = ⟨l, _, []⟩ :=
    congr (congr (congrArg Reading.mk hl) hn) hnone
  exact Prod.ext rfl hsame

theorem reads_after (h : Steady r) (hk : ∀ a, Reads ns Q (k a)) : Reads ns Q (r >>= k) :=
  reads_bind (h.reads ns) fun a x hx =>
    ⟨(hk a x hx).1, (hk a x hx).2.1, fun hnone _ => (hk a x hx).2.2 hnone⟩

end

theorem steady_problem (d : Defect) : Steady (Resolve.problem d) :=
  fun _ => ⟨rfl, rfl, List.suffix_cons _ _⟩

theorem steady_location : Steady Resolve.location := fun _ => ⟨rfl, rfl, List.suffix_refl _⟩

theorem steady_namespaces : Steady Resolve.namespaces := fun _ => ⟨rfl, rfl, List.suffix_refl _⟩

theorem steady_orElse {α : Type} (fallback : α) : ∀ e, Steady (Resolve.orElse fallback e)
  | .ok a => steady_pure a
  | .error f => steady_bind (steady_problem (.path f)) fun _ => steady_pure fallback

theorem steady_expression (source : String) : Steady (Resolve.expression source) :=
  steady_bind steady_namespaces fun _ => steady_orElse _ _

theorem steady_textTemplate (source : String) : Steady (Resolve.textTemplate source) :=
  steady_bind steady_namespaces fun _ => steady_orElse _ _

theorem steady_pattern (source : String) : Steady (Resolve.pattern source) :=
  steady_bind steady_namespaces fun _ => steady_orElse _ _

theorem steady_name (lexical : String) : Steady (Resolve.name lexical) := by
  unfold Resolve.name
  split
  · exact steady_pure _
  · refine steady_bind steady_namespaces fun ns => ?_
    split
    · exact steady_pure _
    · exact steady_bind (steady_problem _) fun _ => steady_pure _

theorem steady_nameTemplate (lexical : String) (uri : Option String) :
    Steady (Resolve.nameTemplate lexical uri) :=
  steady_bind (steady_textTemplate lexical) fun _ =>
    steady_bind (steady_optional steady_textTemplate uri) fun _ =>
      steady_bind steady_namespaces fun _ => steady_pure _

theorem steady_delegation (d : Delegation) : Steady (Resolve.delegation d) := by
  refine steady_bind (steady_mapM ?_ d.arguments) fun _ => steady_pure _
  exact fun p => steady_bind (steady_expression p.2) fun _ => steady_pure _

theorem steady_declare (declared : List String) (name : String) :
    Steady (Resolve.declare declared name) := by
  unfold Resolve.declare
  split
  · exact steady_bind (steady_problem _) fun _ => steady_pure _
  · exact steady_pure _

/-- The attributes of a literal element, which are written out but for their values. -/
def Resolve.attributes (as : List (String × String)) :
    Resolve (List (QName × Path.TextTemplate)) :=
  as.mapM fun p => do
    let attr ← name p.1
    pure (attr, ← textTemplate p.2)

theorem steady_attributes (as : List (String × String)) : Steady (Resolve.attributes as) := by
  refine steady_mapM (fun p => ?_) as
  exact steady_bind (steady_name p.1) fun _ =>
    steady_bind (steady_textTemplate p.2) fun _ => steady_pure _

end Script

/-! ## Nodes as written -/

open Script (Yields)
open Script.Resolve (attributes expression name nameTemplate optional pattern textTemplate)

/-- Where a value comes from, as it is written. -/
inductive Originates (ns : Namespaces) : Option String → Origin → Prop
  | selected {source : String} {e : Path.Expr} : Yields ns (expression source) e →
      Originates ns (some source) (.selected e)
  | written : Originates ns none .written

namespace Label

/-- An instruction is what is written, as it is read in these namespaces. -/
inductive Fits (ns : Namespaces) : Label → Instruction → Prop
  | body : Fits ns .body .body
  | process {w : Walk} {d : Script.Delegation} {d' : Delegation} : w ≠ .siblings →
      Yields ns (Script.Resolve.delegation d) d' → Fits ns (.process w d) (.act (.process w d'))
  | processSiblings {d : Script.Delegation} {d' : Delegation}
      {whilst till : Option (Option Path.Pattern)} : Yields ns (Script.Resolve.delegation d) d' →
      Yields ns (optional pattern d.whilst) whilst → Yields ns (optional pattern d.till) till →
      Fits ns (.process .siblings d) (.act (.processSiblings d' whilst.join till.join))
  | call {n : String} {d : Script.Delegation} {d' : Delegation} :
      Yields ns (Script.Resolve.delegation d) d' → Fits ns (.call n d) (.act (.call n d'))
  | startElement {n : String} {n' : NameTemplate} : Yields ns (nameTemplate n none) n' →
      Fits ns (.startElement n) (.act (.startElement n'))
  | endElement {n : String} {n' : NameTemplate} : Yields ns (nameTemplate n none) n' →
      Fits ns (.endElement n) (.act (.endElement n'))
  | text {s : String} : Fits ns (.text s) (.act (.text s))
  | valueOf {source separator : String} {e : Path.Expr} {t : Path.TextTemplate} :
      Yields ns (expression source) e → Yields ns (textTemplate separator) t →
      Fits ns (.valueOf source separator) (.act (.valueOf e t))
  | literal {n : String} {as : List (String × String)} {n' : QName}
      {as' : List (QName × Path.TextTemplate)} : Yields ns (name n) n' →
      Yields ns (attributes as) as' → Fits ns (.literal n as) (.container (.literal n' as'))
  | element {n : String} {uri : Option String} {n' : NameTemplate} :
      Yields ns (nameTemplate n uri) n' → Fits ns (.element n uri) (.container (.element n'))
  | attr {n : String} {select : Option String} {n' : NameTemplate} {o : Origin} :
      Yields ns (nameTemplate n none) n' → Originates ns select o →
      Fits ns (.attr n select) (.container (.attr n' o))
  | copy {as : Bool} : Fits ns (.copy as) (.container (.copy as))
  | comment : Fits ns .comment (.container .comment)
  | processingInstruction {target : String} {t : Path.TextTemplate} :
      Yields ns (textTemplate target) t →
      Fits ns (.processingInstruction target) (.container (.processingInstruction t))
  | cdata : Fits ns .cdata (.container .cdata)
  | document {href : String} {t : Path.TextTemplate} : Yields ns (textTemplate href) t →
      Fits ns (.document href) (.container (.document t))
  | message {select : Option String} {terminate : Bool} {o : Origin} : Originates ns select o →
      Fits ns (.message select terminate) (.container (.message o terminate))
  | variable {n : String} {select : Option String} {home : Home} {o : Origin} :
      Originates ns select o → Fits ns (.variable n select home) (.container (.variable n o home))
  | parameter {n : String} {select : Option String} {home : Home} {o : Origin} :
      Originates ns select o →
      Fits ns (.parameter n (some select) home) (.container (.parameter n (some o) home))
  | required {n : String} {home : Home} :
      Fits ns (.parameter n none home) (.container (.parameter n none home))
  | assign {n : String} {select : Option String} {o : Origin} : Originates ns select o →
      Fits ns (.assign n select) (.container (.assign n o))
  | loop {test : String} {e : Path.Expr} : Yields ns (expression test) e →
      Fits ns (.loop test) (.container (.loop e))
  | each {n source : String} {e : Path.Expr} : Yields ns (expression source) e →
      Fits ns (.each n source) (.container (.each n e))
  | condition {test : String} {e : Path.Expr} {alternative : Option NodeId} {hasOther : Bool} :
      Yields ns (expression test) e → alternative.isSome = hasOther →
      Fits ns (.condition test hasOther) (.condition e alternative)
  | alternative : Fits ns .alternative .alternative
  | choice : Fits ns .choice .choice
  | when {test : String} {e : Path.Expr} {choice : NodeId} : Yields ns (expression test) e →
      Fits ns (.when test) (.when e choice)
  | otherwise : Fits ns .otherwise .otherwise
  | closing {start : NodeId} : Fits ns .closing (.closing start)

/-- An instruction is what is written, as it is read in some namespaces. -/
def Suits (l : Label) (i : Instruction) : Prop := ∃ ns, l.Fits ns i

/-- A node has an instruction that is what is written. -/
def Bears (l : Label) (n : Node) : Prop := l.Suits n.instruction

end Label

namespace Script

variable {ns : Namespaces}

/-- A pattern that is read without a problem is what its source says. -/
theorem Yields.pattern {source : String} {pattern : Option Path.Pattern}
    (h : Yields ns (Resolve.pattern source) pattern) :
    ∃ p, pattern = some p ∧ Path.parsePattern ns source = .ok p := by
  obtain ⟨l, h⟩ := h
  change (Resolve.orElse none ((Path.parsePattern ns source).map some)).run ⟨l, ns, []⟩ = _ at h
  cases hp : Path.parsePattern ns source with
  | ok p =>
    rw [hp] at h
    exact ⟨p, (congrArg Prod.fst h).symm, rfl⟩
  | error f =>
    rw [hp] at h
    cases congrArg (fun x => x.2.problems) h

/-- A default that is selected, or written as content. -/
theorem Yields.originates {select : Option String} {e : Option Path.Expr}
    (h : Yields ns (optional expression select) e) :
    Originates ns select (e.elim .written .selected) := by
  obtain ⟨l, h⟩ := h
  cases select with
  | none =>
    obtain rfl : none = e := congrArg Prod.fst h
    exact .written
  | some source =>
    obtain rfl : some _ = e := congrArg Prod.fst h
    have hsame : ((expression source).run ⟨l, ns, []⟩).2 = ⟨l, ns, []⟩ := congrArg Prod.snd h
    exact .selected ⟨l, Prod.ext rfl hsame⟩

end Script

/-! ## Labels of code -/

/-- Code that has these labels wherever it is laid out. -/
def Labelled (ls : List Label) (code : NodeId → List Node) : Prop :=
  ∀ start, List.Forall₂ Label.Bears ls (code start)

section
variable {ns : Namespaces} {label : Label} {ls ls' : List Label} {ss ss' : List Statement}
  {bs : List Branch} {l l' : Location} {test : Path.Expr}

theorem codeOf_append (start : NodeId) (ss ss' : List Statement) :
    codeOf start (ss ++ ss') = codeOf start ss ++ codeOf (start + (codeOf start ss).length) ss' := by
  induction ss generalizing start with
  | nil => rfl
  | cons s ss ih =>
    simp only [List.cons_append, codeOf, ih, List.append_assoc, List.length_append, Nat.add_assoc]

theorem Statement.code_ne_nil (s : Statement) (start : NodeId) : s.code start ≠ [] := by
  cases s <;> simp [Statement.code, encloseCode]

theorem labels_encloseCode {i : Instruction} {content : List Node} (h : label.Suits i)
    (hcontent : List.Forall₂ Label.Bears ls content) (start : NodeId) :
    List.Forall₂ Label.Bears (label.around ls) (encloseCode start i l content l') :=
  .cons h (List.rel_append hcontent (.cons ⟨[], .closing⟩ .nil))

theorem labelled_nil : Labelled [] (codeOf · []) := fun _ => by
  simp only [codeOf]
  exact .nil

theorem Labelled.append (h : Labelled ls (codeOf · ss)) (h' : Labelled ls' (codeOf · ss')) :
    Labelled (ls ++ ls') (codeOf · (ss ++ ss')) := by
  intro start
  simp only [codeOf_append]
  exact List.rel_append (h start) (h' _)

theorem labelled_act {a : Action} (h : label.Suits (.act a)) :
    Labelled [label] (codeOf · [.act l a]) := fun _ => by
  simp only [codeOf, Statement.code, List.append_nil]
  exact .cons h .nil

theorem Labelled.enclose {c : Container} (h : Labelled ls (codeOf · ss))
    (hc : label.Suits (.container c)) :
    Labelled (label.around ls) (codeOf · [.enclose l c ss l']) := by
  intro start
  simp only [codeOf, Statement.code, List.append_nil]
  exact labels_encloseCode hc (h (start + 1)) start

theorem suits_condition {source : String} (ht : Yields ns (expression source) test)
    (alternative : Option NodeId) :
    (Label.condition source alternative.isSome).Suits (.condition test alternative) :=
  ⟨ns, .condition ht rfl⟩

theorem Labelled.condition {source : String} (h : Labelled ls (codeOf · ss))
    (ht : Yields ns (expression source) test) :
    Labelled ((Label.condition source false).around ls) (codeOf · [.condition l test ss l']) := by
  intro start
  simp only [codeOf, Statement.code, List.append_nil]
  exact labels_encloseCode (suits_condition ht none) (h (start + 1)) start

theorem Labelled.either {source : String} {between : Location} (h : Labelled ls (codeOf · ss))
    (h' : Labelled ls' (codeOf · ss')) (ht : Yields ns (expression source) test) :
    Labelled ((Label.condition source true).around ls ++ Label.alternative.around ls')
      (codeOf · [.either l test ss between ss' l']) := by
  intro start
  simp only [codeOf, Statement.code, List.append_nil]
  exact List.rel_append
    (labels_encloseCode (suits_condition ht (some _)) (h (start + 1)) start)
    (labels_encloseCode ⟨ns, .alternative⟩ (h' _) _)

theorem Labelled.choose (h : ∀ choice, Labelled ls (branchesCode choice · bs)) :
    Labelled (Label.choice.around ls) (codeOf · [.choose l bs l']) := by
  intro start
  simp only [codeOf, Statement.code, List.append_nil]
  exact labels_encloseCode ⟨[], .choice⟩ (h start (start + 1)) start

theorem Labelled.branch {b : Branch} {choice : NodeId} (h : Labelled ls (b.code choice))
    (h' : Labelled ls' (branchesCode choice · bs)) :
    Labelled (ls ++ ls') (branchesCode choice · (b :: bs)) := by
  intro start
  simp only [branchesCode]
  exact List.rel_append (h start) (h' _)

theorem Labelled.when {source : String} (h : Labelled ls (codeOf · ss))
    (ht : Yields ns (expression source) test) (choice : NodeId) :
    Labelled ((Label.when source).around ls) (Branch.code choice · (.when l test ss l')) := by
  intro start
  simp only [Branch.code]
  exact labels_encloseCode ⟨ns, .when ht⟩ (h (start + 1)) start

theorem Labelled.otherwise (h : Labelled ls (codeOf · ss)) (choice : NodeId) :
    Labelled (Label.otherwise.around ls) (Branch.code choice · (.otherwise l ss l')) := by
  intro start
  simp only [Branch.code]
  exact labels_encloseCode ⟨[], .otherwise⟩ (h (start + 1)) start

theorem Labelled.body {b : Body} (h : Labelled ls (codeOf · b.statements)) :
    Labelled (Label.body.around ls) b.code :=
  fun start => labels_encloseCode ⟨[], .body⟩ (h (start + 1)) start

end

/-! ## Commands -/

namespace Script

variable {ns : Namespaces} {declared : List String} {ls : List Label}

/-- The statements are laid out with these labels. -/
def Spells (ls : List Label) (ss : List Statement) : Prop := Labelled ls (codeOf · ss)

theorem Spells.eq_nil_iff {ss : List Statement} (h : Spells ls ss) : ls = [] ↔ ss = [] := by
  have hcode := h 0
  cases ss with
  | nil =>
    simp only [codeOf, List.forall₂_nil_right_iff] at hcode
    exact iff_of_true hcode rfl
  | cons s ss =>
    refine iff_of_false ?_ (List.cons_ne_nil _ _)
    rintro rfl
    simp only [codeOf, List.forall₂_nil_left_iff, List.append_eq_nil_iff] at hcode
    exact s.code_ne_nil 0 hcode.1

/-- The command has a statement that is laid out with these labels, or none at all. -/
def SpellsCommand (ls : List Label) (p : List String × Option Statement) : Prop :=
  Spells ls p.2.toList

def SpellsBranches (ls : List Label) (bs : List StreamTransform.Branch) : Prop :=
  ∀ choice, Labelled ls (branchesCode choice · bs)

theorem reads_locate (l : Location) : Reads ns (fun _ => True) (Resolve.locate l) := fun _ hx =>
  ⟨hx, List.suffix_refl _, fun _ => trivial⟩

theorem reads_act (a : Action) :
    Reads ns (fun s => ∀ {label : Label}, label.Suits (.act a) →
      Spells [label] [s]) (Resolve.act a) :=
  reads_after steady_location fun _ => reads_pure labelled_act

theorem reads_enclose (c : Container) {content : Resolve (List Statement)}
    (h : Reads ns (Spells ls) content) :
    Reads ns (fun s => ∀ {label : Label}, label.Suits (.container c) →
      Spells (label.around ls) [s]) (Resolve.enclose c content) :=
  reads_after steady_location fun _ => reads_bind h fun _ => reads_after steady_location fun _ =>
    reads_pure fun hss => hss.enclose

theorem reads_noContent : Reads ns (Spells []) Resolve.noContent := reads_pure labelled_nil

mutual

/-- What a command is resolved to has the outline of the command. -/
theorem Command.reads_resolve (ns : Namespaces) (declared : List String) :
    ∀ c : Command, Reads ns (SpellsCommand c.labels) (c.resolve declared)
  | .locate l => reads_bind (reads_locate l) fun _ => reads_pure fun _ => labelled_nil
  | .process w d => by
    refine reads_bind ((steady_delegation d).reads ns) fun d' => ?_
    by_cases hw : w = .siblings
    · subst hw
      exact reads_bind ((steady_optional steady_pattern _).reads ns) fun _ =>
        reads_bind ((steady_optional steady_pattern _).reads ns) fun _ =>
          reads_bind (reads_act _) fun _ =>
            reads_pure fun hs htill hwhilst hd => hs ⟨ns, .processSiblings hd hwhilst htill⟩
    · have plain : Reads ns (fun p => Yields ns (Resolve.delegation d) d' →
          SpellsCommand [.process w d] p) (do
            pure (declared, some (← Resolve.act (.process w d')))) :=
        reads_bind (reads_act _) fun _ => reads_pure fun hs hd => hs ⟨ns, .process hw hd⟩
      cases w with
      | siblings => exact absurd rfl hw
      | _ => exact plain
  | .call procedure d => reads_bind ((steady_delegation d).reads ns) fun _ =>
    reads_bind (reads_act _) fun _ => reads_pure fun hs hd => hs ⟨ns, .call hd⟩
  | .literal n as content => reads_bind ((steady_name n).reads ns) fun _ =>
    reads_bind ((steady_attributes as).reads ns) fun _ =>
      reads_bind (reads_enclose _ (reads_resolveAll ns [] content)) fun _ =>
        reads_pure fun hs has hn => hs ⟨ns, .literal hn has⟩
  | .element n uri content => reads_bind ((steady_nameTemplate n uri).reads ns) fun _ =>
    reads_bind (reads_enclose _ (reads_resolveAll ns [] content)) fun _ =>
      reads_pure fun hs hn => hs ⟨ns, .element hn⟩
  | .startElement n => reads_bind ((steady_nameTemplate n none).reads ns) fun _ =>
    reads_bind (reads_act _) fun _ => reads_pure fun hs hn => hs ⟨ns, .startElement hn⟩
  | .endElement n => reads_bind ((steady_nameTemplate n none).reads ns) fun _ =>
    reads_bind (reads_act _) fun _ => reads_pure fun hs hn => hs ⟨ns, .endElement hn⟩
  | .attr n select => reads_bind ((steady_expression select).reads ns) fun _ =>
    reads_bind ((steady_nameTemplate n none).reads ns) fun _ =>
      reads_bind (reads_enclose _ reads_noContent) fun _ =>
        reads_pure fun hs hn he => hs ⟨ns, .attr hn (.selected he)⟩
  | .attrContent n content => reads_bind ((steady_nameTemplate n none).reads ns) fun _ =>
    reads_bind (reads_enclose _ (reads_resolveAll ns [] content)) fun _ =>
      reads_pure fun hs hn => hs ⟨ns, .attr hn .written⟩
  | .text s => reads_bind (reads_act _) fun _ => reads_pure fun hs => hs ⟨ns, .text⟩
  | .valueOf select separator => reads_bind ((steady_expression select).reads ns) fun _ =>
    reads_bind ((steady_textTemplate separator).reads ns) fun _ =>
      reads_bind (reads_act _) fun _ => reads_pure fun hs ht he => hs ⟨ns, .valueOf he ht⟩
  | .copy as content => reads_bind (reads_enclose _ (reads_resolveAll ns [] content)) fun _ =>
    reads_pure fun hs => hs ⟨ns, .copy⟩
  | .comment content => reads_bind (reads_enclose _ (reads_resolveAll ns [] content)) fun _ =>
    reads_pure fun hs => hs ⟨ns, .comment⟩
  | .processingInstruction target content =>
    reads_bind ((steady_textTemplate target).reads ns) fun _ =>
      reads_bind (reads_enclose _ (reads_resolveAll ns [] content)) fun _ =>
        reads_pure fun hs ht => hs ⟨ns, .processingInstruction ht⟩
  | .cdata content => reads_bind (reads_enclose _ (reads_resolveAll ns [] content)) fun _ =>
    reads_pure fun hs => hs ⟨ns, .cdata⟩
  | .document href content => reads_bind ((steady_textTemplate href).reads ns) fun _ =>
    reads_bind (reads_enclose _ (reads_resolveAll ns [] content)) fun _ =>
      reads_pure fun hs ht => hs ⟨ns, .document ht⟩
  | .message select => reads_bind ((steady_expression select).reads ns) fun _ =>
    reads_bind (reads_enclose _ reads_noContent) fun _ =>
      reads_pure fun hs he => hs ⟨ns, .message (.selected he)⟩
  | .messageContent terminate content =>
    reads_bind (reads_enclose _ (reads_resolveAll ns [] content)) fun _ =>
      reads_pure fun hs => hs ⟨ns, .message .written⟩
  | .variable n select => reads_after (steady_declare declared n) fun _ =>
    reads_bind ((steady_expression select).reads ns) fun _ =>
      reads_bind (reads_enclose _ reads_noContent) fun _ =>
        reads_pure fun hs he => hs ⟨ns, .variable (.selected he)⟩
  | .variableContent n content => reads_after (steady_declare declared n) fun _ =>
    reads_bind (reads_enclose _ (reads_resolveAll ns [] content)) fun _ =>
      reads_pure fun hs => hs ⟨ns, .variable .written⟩
  | .parameter n select => reads_after (steady_declare declared n) fun _ =>
    reads_bind ((steady_expression select).reads ns) fun _ =>
      reads_bind (reads_enclose _ reads_noContent) fun _ =>
        reads_pure fun hs he => hs ⟨ns, .parameter (.selected he)⟩
  | .parameterContent n content => reads_after (steady_declare declared n) fun _ =>
    reads_bind (reads_enclose _ (reads_resolveAll ns [] content)) fun _ =>
      reads_pure fun hs => hs ⟨ns, .parameter .written⟩
  | .required n => reads_after (steady_declare declared n) fun _ =>
    reads_bind (reads_enclose _ reads_noContent) fun _ => reads_pure fun hs => hs ⟨ns, .required⟩
  | .assign n select => reads_bind ((steady_expression select).reads ns) fun _ =>
    reads_bind (reads_enclose _ reads_noContent) fun _ =>
      reads_pure fun hs he => hs ⟨ns, .assign (.selected he)⟩
  | .assignContent n content =>
    reads_bind (reads_enclose _ (reads_resolveAll ns [] content)) fun _ =>
      reads_pure fun hs => hs ⟨ns, .assign .written⟩
  | .condition test yes => reads_bind ((steady_expression test).reads ns) fun _ =>
    reads_after steady_location fun _ => reads_bind (reads_resolveAll ns [] yes) fun _ =>
      reads_after steady_location fun _ => reads_pure fun hyes he => hyes.condition he
  | .either test yes no => reads_bind ((steady_expression test).reads ns) fun _ =>
    reads_after steady_location fun _ => reads_bind (reads_resolveAll ns [] yes) fun _ =>
      reads_after steady_location fun _ => reads_bind (reads_resolveAll ns [] no) fun _ =>
        reads_after steady_location fun _ => reads_pure fun hno hyes he => hyes.either hno he
  | .choose branches => reads_after steady_location fun _ =>
    reads_bind (reads_resolveBranches ns branches) fun _ =>
      reads_after steady_location fun _ => reads_pure fun hbs => Labelled.choose hbs
  | .loop test content => reads_bind ((steady_expression test).reads ns) fun _ =>
    reads_bind (reads_enclose _ (reads_resolveAll ns [] content)) fun _ =>
      reads_pure fun hs he => hs ⟨ns, .loop he⟩
  | .each n select content => reads_bind ((steady_expression select).reads ns) fun _ =>
    reads_bind (reads_enclose _ (reads_resolveAll ns [n] content)) fun _ =>
      reads_pure fun hs he => hs ⟨ns, .each he⟩

theorem reads_resolveAll (ns : Namespaces) (declared : List String) :
    ∀ cs : List Command, Reads ns (Spells (labelsOf cs)) (resolveAll declared cs)
  | [] => reads_pure labelled_nil
  | c :: cs => reads_bind (Command.reads_resolve ns declared c) fun p =>
    reads_bind (reads_resolveAll ns p.1 cs) fun _ => reads_pure fun hss hs => hs.append hss

theorem Branch.reads_resolve (ns : Namespaces) :
    ∀ b : Branch, Reads ns (fun b' => ∀ choice, Labelled b.labels (b'.code choice)) b.resolve
  | .when test content => reads_bind ((steady_expression test).reads ns) fun _ =>
    reads_after steady_location fun _ => reads_bind (reads_resolveAll ns [] content) fun _ =>
      reads_after steady_location fun _ => reads_pure fun hss he => hss.when he
  | .otherwise content => reads_after steady_location fun _ =>
    reads_bind (reads_resolveAll ns [] content) fun _ => reads_after steady_location fun _ =>
      reads_pure fun hss => hss.otherwise

theorem reads_resolveBranches (ns : Namespaces) :
    ∀ bs : List Branch, Reads ns (SpellsBranches (branchLabels bs)) (resolveBranches bs)
  | [] => reads_pure fun _ _ => .nil
  | b :: bs => reads_bind (Branch.reads_resolve ns b) fun _ =>
    reads_bind (reads_resolveBranches ns bs) fun _ => reads_pure fun hbs hb choice =>
      (hb choice).branch (hbs choice)

end

/-- A body is laid out with the outline of its commands. -/
theorem reads_resolveBody (ns : Namespaces) (content : List Command) :
    Reads ns (fun b : Body => Labelled (outline content) b.code) (resolveBody content) :=
  reads_after steady_location fun _ => reads_bind (reads_resolveAll ns [] content) fun _ =>
    reads_after steady_location fun _ => reads_pure fun hss => Labelled.body (b := ⟨_, _, _⟩) hss

end Script

end StreamTransform
