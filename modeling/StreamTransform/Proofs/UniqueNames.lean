import StreamTransform.Proofs.BuiltPrograms

/-!
# Names of one content

No content declares a name twice, and the content of a loop over items does not declare the name
of the items. What a content of a script is resolved to keeps to this, unless a problem is noted,
and so do the declarations of a group's variables. So all bodies of a program that is built are
laid out from such trees. The bodies of templates and procedures declare nothing but variables of
their own.
-/

namespace StreamTransform

/-- What a container declares: where the variable lives, and its name. -/
def Container.declared? : Container → Option (Home × String)
  | .variable name _ home | .parameter name _ home => some (home, name)
  | _ => none

/-- What is bound in the content of a container from the beginning. -/
def Container.taken : Container → List (Home × String)
  | .each name _ => [(.body, name)]
  | _ => []

def Statement.declared? : Statement → Option (Home × String)
  | .enclose _ c _ _ => c.declared?
  | .act .. | .condition .. | .either .. | .choose .. => none

mutual

/-- In every content inside of the statement names are declared once. -/
def Statement.Unique : Statement → Prop
  | .act .. => True
  | .enclose _ c content _ => UniqueContent c.taken content
  | .condition _ _ yes _ => UniqueContent [] yes
  | .either _ _ yes _ no _ => UniqueContent [] yes ∧ UniqueContent [] no
  | .choose _ branches _ => UniqueBranches branches

/-- The statements declare names once, and none of those that are taken. -/
def UniqueContent (taken : List (Home × String)) : List Statement → Prop
  | [] => True
  | s :: r => (∀ x ∈ s.declared?, x ∉ taken) ∧ s.Unique ∧
    UniqueContent (s.declared?.toList ++ taken) r

def UniqueBranches : List Branch → Prop
  | [] => True
  | .when _ _ content _ :: r | .otherwise _ content _ :: r =>
    UniqueContent [] content ∧ UniqueBranches r

end

def Body.Unique (b : Body) : Prop := UniqueContent [] b.statements

/-- One more statement may follow, if it declares another name. -/
theorem UniqueContent.concat {taken : List (Home × String)} {ss : List Statement} {s : Statement}
    (h : UniqueContent taken ss) (hs : s.Unique)
    (hnew : ∀ x ∈ s.declared?, x ∉ taken ∧ ∀ s' ∈ ss, s'.declared? ≠ some x) :
    UniqueContent taken (ss ++ [s]) := by
  induction ss generalizing taken with
  | nil => exact ⟨fun x hx => (hnew x hx).1, hs, trivial⟩
  | cons s' ss ih =>
    obtain ⟨hfree, hs', hss⟩ := h
    refine ⟨hfree, hs', ih hss fun x hx => ?_⟩
    obtain ⟨htaken, hothers⟩ := hnew x hx
    obtain ⟨hother, hothers⟩ := List.forall_mem_cons.mp hothers
    refine ⟨fun hmem => ?_, hothers⟩
    rcases List.mem_append.mp hmem with hmem | hmem
    · exact hother (Option.mem_toList.mp hmem)
    · exact htaken hmem

theorem Sits.code_append {code : Array Node} {b : NodeId} {ns : List Node} (h : Sits code b ns)
    (ms : List Node) : Sits (code ++ ms) b ns := fun i n hn => getElem?_append_of_some (h i n hn)

/-! ## Reading -/

namespace Script

variable {ns : Namespaces} {declared : List String}

/-- The names of variables that live in the body. -/
def locals (names : List String) : List (Home × String) := names.map (Home.body, ·)

/-- What a command comes to may stand before what declares none of the names that there are after
it. -/
def Extends (declared : List String) (p : List String × Option Statement) : Prop :=
  ∀ rest, UniqueContent (locals p.1) rest → UniqueContent (locals declared) (p.2.toList ++ rest)

theorem extends_none : Extends declared (declared, none) := fun _ hrest => hrest

/-- A name that is declared without a problem was not declared before. -/
theorem reads_declare (ns : Namespaces) (declared : List String) (n : String) :
    Reads ns (fun d => d = n :: declared ∧ n ∉ declared) (Resolve.declare declared n) := by
  rintro x rfl
  obtain ⟨-, hns, hproblems⟩ := steady_declare declared n x
  refine ⟨hns, hproblems, fun hnone => ?_⟩
  unfold Resolve.declare at hnone ⊢
  split at hnone
  · cases hnone
  next h =>
    rw [if_neg h]
    exact ⟨rfl, by simpa using h⟩

theorem reads_encloses {c : Container} {content : Resolve (List Statement)}
    (h : Reads ns (UniqueContent c.taken) content) :
    Reads ns (fun s => s.declared? = c.declared? ∧ s.Unique) (Resolve.enclose c content) :=
  reads_after steady_location fun _ => reads_bind h fun _ => reads_after steady_location fun _ =>
    reads_pure fun hcontent => ⟨rfl, hcontent⟩

theorem reads_empty : Reads ns (UniqueContent []) Resolve.noContent := reads_pure trivial

/-- A statement that declares nothing leaves the names as they are. -/
theorem reads_plain {r : Resolve Statement}
    (h : Reads ns (fun s => s.declared? = none ∧ s.Unique) r) :
    Reads ns (Extends declared) (do pure (declared, some (← r))) :=
  reads_bind h fun s => reads_pure fun ⟨hnone, hs⟩ rest hrest => by
    refine ⟨by simp [hnone], hs, ?_⟩
    rw [hnone]
    exact hrest

theorem reads_action (a : Action) :
    Reads ns (fun s => s.declared? = none ∧ s.Unique) (Resolve.act a) :=
  reads_after steady_location fun _ => reads_pure ⟨rfl, trivial⟩

/-- A container that declares the name that is new. -/
theorem reads_declaring {c : Container} {n : String} {names : List String}
    {content : Resolve (List Statement)} (hc : c.declared? = some (.body, n))
    (h : Reads ns (UniqueContent c.taken) content) :
    Reads ns (fun p => names = n :: declared ∧ n ∉ declared → Extends declared p)
      (do pure (names, some (← Resolve.enclose c content))) :=
  reads_bind (reads_encloses h) fun s =>
      reads_pure fun ⟨hs, hunique⟩ ⟨hnames, hnew⟩ rest hrest => by
    rw [hc] at hs
    subst hnames
    refine ⟨fun x hx hmem => ?_, hunique, ?_⟩
    · obtain rfl := Option.some.inj (hs.symm.trans hx)
      obtain ⟨m, hm, heq⟩ := List.mem_map.mp hmem
      obtain rfl := (Prod.mk.inj heq).2
      exact hnew hm
    · rw [hs]
      exact hrest

mutual

/-- Without a problem a command adds no name that is declared already. -/
theorem Command.reads_unique (ns : Namespaces) (declared : List String) :
    ∀ c : Command, Reads ns (Extends declared) (c.resolve declared)
  | .locate l => reads_bind (reads_locate l) fun _ => reads_pure fun _ => extends_none
  | .process w d => reads_after (steady_delegation d) fun _ => by
    cases w with
    | siblings =>
      exact reads_after (steady_optional steady_pattern _) fun _ =>
        reads_after (steady_optional steady_pattern _) fun _ => reads_plain (reads_action _)
    | _ => exact reads_plain (reads_action _)
  | .call procedure d => reads_after (steady_delegation d) fun _ => reads_plain (reads_action _)
  | .literal n as content => reads_after (steady_name n) fun _ =>
    reads_after (steady_attributes as) fun _ =>
      reads_plain (reads_encloses (reads_uniqueContent ns [] content))
  | .element n uri content => reads_after (steady_nameTemplate n uri) fun _ =>
    reads_plain (reads_encloses (reads_uniqueContent ns [] content))
  | .startElement n => reads_after (steady_nameTemplate n none) fun _ =>
    reads_plain (reads_action _)
  | .endElement n => reads_after (steady_nameTemplate n none) fun _ =>
    reads_plain (reads_action _)
  | .attr n select => reads_after (steady_expression select) fun _ =>
    reads_after (steady_nameTemplate n none) fun _ => reads_plain (reads_encloses reads_empty)
  | .attrContent n content => reads_after (steady_nameTemplate n none) fun _ =>
    reads_plain (reads_encloses (reads_uniqueContent ns [] content))
  | .text s => reads_plain (reads_action _)
  | .valueOf select separator => reads_after (steady_expression select) fun _ =>
    reads_after (steady_textTemplate separator) fun _ => reads_plain (reads_action _)
  | .copy as content => reads_plain (reads_encloses (reads_uniqueContent ns [] content))
  | .comment content => reads_plain (reads_encloses (reads_uniqueContent ns [] content))
  | .processingInstruction target content => reads_after (steady_textTemplate target) fun _ =>
    reads_plain (reads_encloses (reads_uniqueContent ns [] content))
  | .cdata content => reads_plain (reads_encloses (reads_uniqueContent ns [] content))
  | .document href content => reads_after (steady_textTemplate href) fun _ =>
    reads_plain (reads_encloses (reads_uniqueContent ns [] content))
  | .message select => reads_after (steady_expression select) fun _ =>
    reads_plain (reads_encloses reads_empty)
  | .messageContent terminate content =>
    reads_plain (reads_encloses (reads_uniqueContent ns [] content))
  | .variable n select => reads_bind (reads_declare ns declared n) fun _ =>
    reads_after (steady_expression select) fun _ => reads_declaring rfl reads_empty
  | .variableContent n content => reads_bind (reads_declare ns declared n) fun _ =>
    reads_declaring rfl (reads_uniqueContent ns [] content)
  | .parameter n select => reads_bind (reads_declare ns declared n) fun _ =>
    reads_after (steady_expression select) fun _ => reads_declaring rfl reads_empty
  | .parameterContent n content => reads_bind (reads_declare ns declared n) fun _ =>
    reads_declaring rfl (reads_uniqueContent ns [] content)
  | .required n => reads_bind (reads_declare ns declared n) fun _ =>
    reads_declaring rfl reads_empty
  | .assign n select => reads_after (steady_expression select) fun _ =>
    reads_plain (reads_encloses reads_empty)
  | .assignContent n content =>
    reads_plain (reads_encloses (reads_uniqueContent ns [] content))
  | .condition test yes => reads_after (steady_expression test) fun _ =>
    reads_after steady_location fun _ => reads_bind (reads_uniqueContent ns [] yes) fun _ =>
      reads_after steady_location fun _ => reads_pure fun hyes _ hrest =>
        ⟨nofun, hyes, hrest⟩
  | .either test yes no => reads_after (steady_expression test) fun _ =>
    reads_after steady_location fun _ => reads_bind (reads_uniqueContent ns [] yes) fun _ =>
      reads_after steady_location fun _ => reads_bind (reads_uniqueContent ns [] no) fun _ =>
        reads_after steady_location fun _ => reads_pure fun hno hyes _ hrest =>
          ⟨nofun, ⟨hyes, hno⟩, hrest⟩
  | .choose branches => reads_after steady_location fun _ =>
    reads_bind (reads_uniqueBranches ns branches) fun _ =>
      reads_after steady_location fun _ => reads_pure fun hbs _ hrest => ⟨nofun, hbs, hrest⟩
  | .loop test content => reads_after (steady_expression test) fun _ =>
    reads_plain (reads_encloses (reads_uniqueContent ns [] content))
  | .each n select content => reads_after (steady_expression select) fun _ =>
    reads_plain (reads_encloses (reads_uniqueContent ns [n] content))

theorem reads_uniqueContent (ns : Namespaces) (declared : List String) :
    ∀ cs : List Command, Reads ns (UniqueContent (locals declared)) (resolveAll declared cs)
  | [] => reads_pure trivial
  | c :: cs => reads_bind (Command.reads_unique ns declared c) fun p =>
    reads_bind (reads_uniqueContent ns p.1 cs) fun _ =>
      reads_pure fun hrest hextends => hextends _ hrest

theorem Branch.reads_unique (ns : Namespaces) :
    ∀ b : Branch, Reads ns (fun b' => UniqueBranches [b']) b.resolve
  | .when test content => reads_after (steady_expression test) fun _ =>
    reads_after steady_location fun _ => reads_bind (reads_uniqueContent ns [] content) fun _ =>
      reads_after steady_location fun _ => reads_pure fun hcontent => ⟨hcontent, trivial⟩
  | .otherwise content => reads_after steady_location fun _ =>
    reads_bind (reads_uniqueContent ns [] content) fun _ =>
      reads_after steady_location fun _ => reads_pure fun hcontent => ⟨hcontent, trivial⟩

theorem reads_uniqueBranches (ns : Namespaces) :
    ∀ bs : List Branch, Reads ns UniqueBranches (resolveBranches bs)
  | [] => reads_pure trivial
  | b :: bs => reads_bind (Branch.reads_unique ns b) fun b' =>
    reads_bind (reads_uniqueBranches ns bs) fun _ => reads_pure fun hbs hb => by
      cases b' <;> exact ⟨hb.1, hbs⟩

end

theorem reads_uniqueBody (ns : Namespaces) (content : List Command) :
    Reads ns Body.Unique (resolveBody content) :=
  reads_after steady_location fun _ => reads_bind (reads_uniqueContent ns [] content) fun _ =>
    reads_after steady_location fun _ => reads_pure fun hcontent => hcontent

/-! ## Assembly -/

/-- A body that declares nothing but variables of its own is laid out at a position. -/
def IsLocalAt (code : Array Node) (b : NodeId) : Prop :=
  ∃ body : Body, Sits code b (body.code b) ∧ IsLocalContent body.statements

/-- The bodies in code are laid out from trees in which names are declared once. -/
def GrownUnique (code : Array Node) : Prop :=
  ∀ b, StartsBody code b → ∃ body : Body, Sits code b (body.code b) ∧ body.Unique

/-- The variables of a group that are still to be laid out are declared once. -/
structure GroupDraft.Unique (e : GroupDraft) : Prop where
  content : UniqueContent [] e.initialisers.reverse
  declared : ∀ s ∈ e.initialisers, ∀ x ∈ s.declared?, x.2 ∈ e.declared

structure Draft.Unique (d : Draft) : Prop where
  bodies : GrownUnique d.code
  template : ∀ (id : TemplateId) (t : Template), d.templates[id]? = some t → IsLocalAt d.code t.body
  procedure : ∀ (id : ProcedureId) (q : Procedure), d.procedures[id]? = some q →
    IsLocalAt d.code q.body
  pending : ∀ (g : GroupId) (e : GroupDraft), d.groups[g]? = some e → e.Unique

namespace Assemble

variable {d : Draft} {g : GroupId}

theorem unique_reading (d : Draft) (r : Reading) (h : d.Unique) :
    ({ d with reading := r } : Draft).Unique := ⟨h.bodies, h.template, h.procedure, h.pending⟩

theorem unique_layOut (h : d.Unique) {b : Body} (hb : b.Unique) :
    ({ d with code := d.code ++ b.code d.code.size } : Draft).Unique where
  bodies b' hb' := by
    rcases startsBody_layOut hb' with hold | rfl
    · obtain ⟨body, hs, hbody⟩ := h.bodies b' hold
      exact ⟨body, hs.code_append _, hbody⟩
    · exact ⟨b, sits_append d.code _, hb⟩
  template id t ht := by
    obtain ⟨body, hs, hbody⟩ := h.template id t ht
    exact ⟨body, hs.code_append _, hbody⟩
  procedure id q hq := by
    obtain ⟨body, hs, hbody⟩ := h.procedure id q hq
    exact ⟨body, hs.code_append _, hbody⟩
  pending := h.pending

theorem unique_modifyGroup (h : d.Unique) {f : GroupDraft → GroupDraft}
    (hf : ∀ e, d.groups[g]? = some e → (f e).Unique) :
    ({ d with groups := d.groups.modify g f } : Draft).Unique where
  bodies := h.bodies
  template := h.template
  procedure := h.procedure
  pending k e he := by
    obtain ⟨e', he', rfl⟩ := modifyGroup_some he
    split
    next hk => exact hf e' (hk ▸ he')
    next => exact h.pending k e' he'

/-- Changes of the lists of a group are no matter. -/
theorem unique_listed (h : d.Unique) (g : GroupId) {f : GroupDraft → GroupDraft}
    (hi : ∀ e, (f e).initialisers = e.initialisers) (hd : ∀ e, (f e).declared = e.declared) :
    ({ d with groups := d.groups.modify g f } : Draft).Unique :=
  unique_modifyGroup h fun e he => by
    obtain ⟨hcontent, hdeclared⟩ := h.pending g e he
    constructor
    · rw [hi]
      exact hcontent
    · rw [hi, hd]
      exact hdeclared

/-- Without a problem a body is read from which names are declared once. -/
theorem secures_body (content : List Command) :
    Secures Draft.Unique (resolving (resolveBody content))
      fun b d => d.Unique ∧ b.Unique ∧ IsLocalContent b.statements := fun d hd hnone =>
  ⟨unique_reading d _ hd, (reads_uniqueBody _ content d.reading rfl).2.2 hnone,
    returns_resolveBody content d.reading⟩

theorem layOut_unique (b : Body) :
    Leads (fun d => d.Unique ∧ b.Unique ∧ IsLocalContent b.statements) (layOut b)
      fun start d => d.Unique ∧ IsLocalAt d.code start := fun d ⟨hd, hb, hlocal⟩ =>
  ⟨unique_layOut hd hb, b, sits_append d.code _, hlocal⟩

theorem addTemplate_unique {t : Template} {start : NodeId} (ht : t.body = start) :
    Leads (fun d => d.Unique ∧ IsLocalAt d.code start) (addTemplate t)
      fun _ d => d.Unique ∧ IsLocalAt d.code start := by
  rintro d ⟨hd, hlocal⟩
  refine ⟨unique_listed (d := { d with templates := d.templates.push t })
    ⟨hd.bodies, fun id t' ht' => ?_, hd.procedure, hd.pending⟩ t.group (fun _ => rfl)
    fun _ => rfl, hlocal⟩
  change (d.templates.push t)[id]? = some t' at ht'
  rw [Array.getElem?_push] at ht'
  split at ht'
  · obtain rfl := Option.some.inj ht'
    exact ht ▸ hlocal
  · exact hd.template id t' ht'

theorem addProcedure_unique {q : Procedure} {start : NodeId} (hq : q.body = start) :
    Leads (fun d => d.Unique ∧ IsLocalAt d.code start) (addProcedure q)
      fun _ => Draft.Unique := by
  rintro d ⟨hd, hlocal⟩
  refine unique_listed (d := { d with procedures := d.procedures.push q })
    ⟨hd.bodies, hd.template, fun id q' hq' => ?_, hd.pending⟩ q.group (fun _ => rfl)
    fun _ => rfl
  change (d.procedures.push q)[id]? = some q' at hq'
  rw [Array.getElem?_push] at hq'
  split at hq'
  · obtain rfl := Option.some.inj hq'
    exact hq ▸ hlocal
  · exact hd.procedure id q' hq'

theorem secures_template_unique (g : GroupId) (source : String) (options : TemplateOptions)
    (content : List Command) :
    Secures Draft.Unique ((Declaration.template source options content).assemble g)
      fun _ => Draft.Unique := by
  refine secures_bind (leads_resolving _ unique_reading).secures (fun pattern => ?_)
    (adds_laidTemplate g source options content)
  refine secures_bind (secures_body content) (fun b => Leads.secures ?_) fun b =>
    adds_bind (adds_layOut b) fun start => ?_
  · refine leads_bind (layOut_unique b) fun start => ?_
    split
    · exact leads_pure fun _ h => h.1
    · have added := leads_forM (fun p : Path.PathPattern => addTemplate_unique
        (t := ⟨p, source, options.priority.getD p.priority, options.visibility,
          options.recursionEntry, g, b.opening, start⟩) rfl)
      exact fun d hd => (added _ d hd).1
  · split
    · exact adds_pure _
    · exact adds_forM (fun p => adds_addTemplate _) _

theorem secures_procedure_unique (g : GroupId) (name : String) (visibility : Visibility)
    (content : List Command) :
    Secures Draft.Unique ((Declaration.procedure name visibility content).assemble g)
      fun _ => Draft.Unique := by
  have laidOut : Secures Draft.Unique (do
      let b ← resolving (resolveBody content)
      let start ← layOut b
      addProcedure ⟨name, g, visibility, b.opening, start⟩) fun _ => Draft.Unique := by
    refine secures_bind (secures_body content) (fun b => Leads.secures ?_) fun b =>
      adds_bind (adds_layOut b) fun _ => adds_addProcedure _
    exact leads_bind (layOut_unique b) fun start => addProcedure_unique rfl
  refine secures_get fun d => secures_group g fun e => ?_
  split
  · exact secures_bind (Q := fun _ => Draft.Unique) secures_problem (fun _ => laidOut) fun _ =>
      adds_laidProcedure g name visibility content
  · exact laidOut

theorem addGroup_unique (name : String) (parent : GroupId) :
    Leads Draft.Unique (addGroup name parent) fun _ => Draft.Unique := by
  refine fun d hd => unique_listed (d := { d with groups := d.groups.push _ })
    ⟨hd.bodies, hd.template, hd.procedure, fun k e he => ?_⟩ parent (fun _ => rfl)
    fun _ => rfl
  change (d.groups.push _)[k]? = some e at he
  rw [Array.getElem?_push] at he
  split at he
  · obtain rfl := Option.some.inj he
    exact ⟨trivial, List.forall_mem_nil _⟩
  · exact hd.pending k e he

/-- A variable that is declared in a group without a problem was not declared there before. -/
theorem secures_declaration {name : String} {c : Container}
    (hc : c.declared? = some (.group g, name)) :
    Secures Draft.Unique (declareIn g name c) fun _ => Draft.Unique := by
  have known : Leads Draft.Unique (group g) fun e d => d.Unique ∧
      ∀ e', d.groups[g]? = some e' → e' = e := by
    refine fun d hd => ⟨hd, fun e' he' => ?_⟩
    change d.groups[g]? = some e' at he'
    show e' = d.groups.getD g default
    rw [Array.getD_eq_getD_getElem?, he', Option.getD_some]
  refine secures_bind known.secures (fun e => ?_) fun e => ?_
  · split
    · exact secures_problem
    next hnew =>
      have enclosed : Leads (fun d => d.Unique ∧ ∀ e', d.groups[g]? = some e' → e' = e)
          (resolving (Resolve.enclose c Resolve.noContent)) fun s d =>
            (d.Unique ∧ ∀ e', d.groups[g]? = some e' → e' = e) ∧ s.declared? = c.declared? ∧
              s.Unique := fun d hd => ⟨⟨unique_reading d _ hd.1, hd.2⟩, rfl, trivial⟩
      refine Leads.secures (leads_bind enclosed fun s => leads_modify ?_)
      rintro d ⟨⟨hd, he⟩, hs, hunique⟩
      refine unique_modifyGroup hd fun e' he' => ?_
      obtain rfl := he e' he'
      obtain ⟨hcontent, hdeclared⟩ := hd.pending g e' he'
      have hname : ∀ x ∈ s.declared?, x.2 = name := fun x hx => by
        rw [hs, hc] at hx
        exact congrArg Prod.snd (Option.some.inj hx).symm
      constructor
      · rw [List.reverse_cons]
        refine hcontent.concat hunique fun x hx => ⟨List.not_mem_nil, fun s' hs' hx' => ?_⟩
        have hmem := hdeclared s' (List.mem_reverse.mp hs') x hx'
        rw [hname x hx] at hmem
        exact hnew (List.elem_iff.mpr hmem)
      · refine List.forall_mem_cons.mpr ⟨fun x hx => ?_, fun s' hs' x hx => ?_⟩
        · exact hname x hx ▸ List.mem_cons_self
        · exact List.mem_cons_of_mem _ (hdeclared s' hs' x hx)
  · split
    · exact adds_steady (steady_problem _)
    · exact adds_bind (adds_resolving fun _ => reads_enclose c reads_noContent) fun s =>
        adds_modifyGroup g _

mutual

theorem secures_unique (g : GroupId) : ∀ x : Declaration,
    Secures Draft.Unique (x.assemble g) fun _ => Draft.Unique
  | .locate l => fun d hd _ => unique_reading d _ hd
  | .bind q uri => fun d hd _ => unique_reading d _ hd
  | .template source options content => secures_template_unique g source options content
  | .procedure name visibility content => secures_procedure_unique g name visibility content
  | .group name members => by
    have added : Secures Draft.Unique (do
        let id ← addGroup name g
        assembleAll id members) fun _ => Draft.Unique :=
      secures_bind (addGroup_unique name g).secures (fun id => secures_allUnique id members)
        fun id => adds_assembleAll id members
    refine secures_get fun d => ?_
    split
    · exact secures_bind (Q := fun _ => Draft.Unique) secures_problem (fun _ => added) fun _ =>
        adds_bind (adds_addGroup name g) fun id => adds_assembleAll id members
    · exact added
  | .variable name select =>
    secures_bind (leads_resolving _ unique_reading).secures (fun e => secures_declaration rfl)
      fun e => adds_declareIn g name _
  | .parameter name select =>
    secures_bind (leads_resolving _ unique_reading).secures (fun e => secures_declaration rfl)
      fun e => adds_declareIn g name _
  | .required name => secures_declaration rfl

theorem secures_allUnique (g : GroupId) : ∀ xs : List Declaration,
    Secures Draft.Unique (assembleAll g xs) fun _ => Draft.Unique
  | [] => fun _ hd _ => hd
  | x :: xs => secures_bind (secures_unique g x) (fun _ => secures_allUnique g xs) fun _ =>
    adds_assembleAll g xs

end

/-- The declarations of a group become a body in which names are declared once. -/
theorem layOutInitialiser_unique (g : GroupId) :
    Leads Draft.Unique (layOutInitialiser g) fun _ => Draft.Unique := by
  have known : Leads Draft.Unique (group g) fun e d => d.Unique ∧
      UniqueContent [] e.initialisers.reverse := by
    refine fun d hd => ⟨hd, ?_⟩
    show UniqueContent [] (d.groups.getD g default).initialisers.reverse
    rw [Array.getD_eq_getD_getElem?]
    cases he : d.groups[g]? with
    | none => trivial
    | some e => exact (hd.pending g e he).content
  refine leads_bind known fun e => ?_
  split
  · exact leads_pure fun _ h => h.1
  · refine leads_bind (Q := fun _ d => d.Unique ∧ UniqueContent [] e.initialisers.reverse)
      (fun d h => ⟨unique_reading d _ h.1, h.2⟩) fun l => ?_
    refine leads_bind (Q := fun _ => Draft.Unique) (fun d h => unique_layOut h.1 h.2)
      fun start => leads_modify fun d h => ?_
    exact unique_listed h g (fun _ => rfl) fun _ => rfl

end Assemble

open Assemble

theorem unique_initial : Draft.initial.Unique where
  bodies b hb := by
    obtain ⟨n, hn, -⟩ := hb
    simp [Draft.initial] at hn
  template _ _ ht := by simp [Draft.initial] at ht
  procedure _ _ hq := by simp [Draft.initial] at hq
  pending g e he := by
    cases g with
    | zero =>
      obtain rfl := Option.some.inj he
      exact ⟨trivial, List.forall_mem_nil _⟩
    | succ g => cases he

/-- Without a defect all bodies are laid out from trees in which names are declared once. -/
theorem unique_draft {ds : List Declaration} (h : (draft ds).reading.problems = []) :
    (draft ds).Unique := by
  have assembled : Secures Draft.Unique (do
      assembleAll Program.rootGroup ds
      (List.range (← get).groups.size).forM layOutInitialiser) fun _ => Draft.Unique :=
    secures_bind (secures_allUnique _ ds)
      (fun _ => secures_get fun _ => (leads_forM layOutInitialiser_unique _).secures)
      fun _ => adds_bind adds_get fun _ => adds_forM adds_layOutInitialiser _
  exact assembled _ unique_initial h

end Script

open Script (GrownUnique IsLocalAt)

/-- The bodies of a program declare names once, and those of templates and procedures nothing but
variables of their own. -/
structure Program.UniqueNames (p : Program) : Prop where
  bodies : GrownUnique p.code
  template : ∀ (id : TemplateId) (t : Template), p.templates[id]? = some t → IsLocalAt p.code t.body
  procedure : ∀ (id : ProcedureId) (q : Procedure), p.procedures[id]? = some q →
    IsLocalAt p.code q.body

theorem Script.unique_of_build {ds : List Declaration} {p : Program} (h : build ds = .ok p) :
    p.UniqueNames := by
  obtain ⟨hnone, rfl⟩ := draft_of_build h
  have hd := unique_draft hnone
  exact ⟨hd.bodies, hd.template, hd.procedure⟩

end StreamTransform
