import StreamTransform.Proofs.Calm
import StreamTransform.Proofs.Visibility

/-!
# Where variables live

The bodies of templates and procedures declare variables of their own. Only the
declarations of a group's variables put any into the frames of a group, which is
one that exists, and they do nothing else: no walk, no call, no content.
-/

namespace StreamTransform

/-- A variable that the container declares lives in the body that runs. -/
def Container.IsLocal (c : Container) : Prop := ∀ home ∈ c.home?, home = .body

/-- A variable that the container declares for a group belongs to one of the first so many
groups. -/
def Container.Houses (groups : Nat) (c : Container) : Prop :=
  ∀ g, c.home? = some (.group g) → g < groups

theorem isLocal_of_home {c : Container} (h : c.home? = some .body) : c.IsLocal :=
  fun _ hhome => Option.some.inj (hhome.symm.trans h)

theorem Container.IsLocal.houses {c : Container} (h : c.IsLocal) (groups : Nat) :
    c.Houses groups := fun _ hg => nomatch h _ hg

theorem Container.Houses.mono {c : Container} {k l : Nat} (h : c.Houses k) (hl : k ≤ l) :
    c.Houses l := fun g hg => Nat.lt_of_lt_of_le (h g hg) hl

open Script.Assemble (DeclaresIn)

theorem home?_of_declaresIn {g : GroupId} {c : Container} (h : DeclaresIn g c) :
    c.home? = some (.group g) := by
  rcases h with ⟨name, e, rfl⟩ | ⟨name, o, rfl⟩ <;> rfl

/-- From a node on, a body only declares variables of a group. -/
inductive Declares (code : Array Node) (g : GroupId) : NodeId → Prop
  | begins {i : NodeId} {n : Node} : code[i]? = some n → n.instruction = .body →
      Declares code g (i + 1) → Declares code g i
  | starts {i : NodeId} {n : Node} {c : Container} : code[i]? = some n →
      n.instruction = .container c → n.close = some (i + 1) → DeclaresIn g c →
      Declares code g (i + 1) → Declares code g (i + 2) → Declares code g i
  | ends {i b : NodeId} {n o : Node} {c : Container} : code[i]? = some n →
      n.instruction = .closing b → code[b]? = some o → o.instruction = .container c →
      DeclaresIn g c → Declares code g (i + 1) → Declares code g i
  | stops {i b : NodeId} {n o : Node} : code[i]? = some n → n.instruction = .closing b →
      code[b]? = some o → o.instruction = .body → Declares code g i

theorem Declares.append {code : Array Node} {g : GroupId} {i : NodeId} (h : Declares code g i)
    (ns : List Node) : Declares (code ++ ns) g i := by
  induction h with
  | begins hn hi _ ih => exact .begins (getElem?_append_of_some hn) hi ih
  | starts hn hi hc hd _ _ ih ih' => exact .starts (getElem?_append_of_some hn) hi hc hd ih ih'
  | ends hn hi ho hc hd _ ih =>
    exact .ends (getElem?_append_of_some hn) hi (getElem?_append_of_some ho) hc hd ih
  | stops hn hi ho hb =>
    exact .stops (getElem?_append_of_some hn) hi (getElem?_append_of_some ho) hb

/-- The variables that are declared are those of the group. -/
theorem Declares.home? {code : Array Node} {g : GroupId} {i : NodeId} {n : Node} {c : Container}
    (h : Declares code g i) (hn : code[i]? = some n) (hc : n.Concerns code c) :
    c.home? = some (.group g) := by
  cases h with
  | begins hn' hi _ =>
    obtain rfl := Option.some.inj (hn.symm.trans hn')
    cases hc with
    | starts hc => cases hi.symm.trans hc
    | ends hb _ _ => cases hi.symm.trans hb
  | starts hn' hi _ hd _ _ =>
    obtain rfl := Option.some.inj (hn.symm.trans hn')
    obtain rfl := hc.of_container hi
    exact home?_of_declaresIn hd
  | ends hn' hi ho hoc hd _ =>
    obtain rfl := Option.some.inj (hn.symm.trans hn')
    obtain rfl := Instruction.container.inj (hoc.symm.trans (hc.of_closing hi ho))
    exact home?_of_declaresIn hd
  | stops hn' hi ho hob =>
    obtain rfl := Option.some.inj (hn.symm.trans hn')
    cases hob.symm.trans (hc.of_closing hi ho)

/-- Homes are groups that exist, and initialisers only declare variables. -/
structure Program.Homed (p : Program) : Prop where
  template : ∀ (id : TemplateId) (t : Template), p.templates[id]? = some t →
    t.group < p.groups.size
  code : ∀ (i : NodeId) (n : Node), p.code[i]? = some n → ∀ c, n.instruction = .container c →
    c.Houses p.groups.size
  initialiser : ∀ (g : GroupId) (b : NodeId), (p.group g).initialiser = some b →
    Declares p.code g b

/-! ## Containers of a body -/

/-- All containers that begin at the nodes have a property. -/
def Contain (P : Container → Prop) (ns : List Node) : Prop :=
  ∀ n ∈ ns, ∀ c, n.instruction = .container c → P c

section
variable {P Q : Container → Prop} {ns ms : List Node} {start : NodeId}

theorem Contain.mono (h : Contain P ns) (hpq : ∀ c, P c → Q c) : Contain Q ns :=
  fun n hn c hc => hpq c (h n hn c hc)

theorem contain_append : Contain P (ns ++ ms) ↔ Contain P ns ∧ Contain P ms :=
  List.forall_mem_append

theorem contain_singleton {n : Node} :
    Contain P [n] ↔ ∀ c, n.instruction = .container c → P c := List.forall_mem_singleton

theorem contain_encloseCode {i : Instruction} {l l' : Location}
    (hi : ∀ c, i = .container c → P c) (h : Contain P ns) :
    Contain P (encloseCode start i l ns l') := by
  rw [encloseCode, List.cons_append]
  exact List.forall_mem_cons.mpr ⟨hi, contain_append.mpr ⟨h, contain_singleton.mpr (by simp)⟩⟩

end

/-- All containers of a statement have a property. -/
def Statement.Contains (P : Container → Prop) (s : Statement) : Prop :=
  ∀ start, Contain P (s.code start)

def Branch.Contains (P : Container → Prop) (b : Branch) : Prop :=
  ∀ choice start, Contain P (b.code choice start)

section
variable {P : Container → Prop} {ss : List Statement} {l l' : Location}

theorem contain_codeOf (h : ∀ s ∈ ss, s.Contains P) (start : NodeId) :
    Contain P (codeOf start ss) := by
  induction ss generalizing start with
  | nil => exact List.forall_mem_nil _
  | cons s ss ih =>
    obtain ⟨hs, hss⟩ := List.forall_mem_cons.mp h
    exact contain_append.mpr ⟨hs start, ih hss _⟩

theorem contain_branchesCode {bs : List Branch} (h : ∀ b ∈ bs, b.Contains P)
    (choice start : NodeId) : Contain P (branchesCode choice start bs) := by
  induction bs generalizing start with
  | nil => exact List.forall_mem_nil _
  | cons b bs ih =>
    obtain ⟨hb, hbs⟩ := List.forall_mem_cons.mp h
    exact contain_append.mpr ⟨hb choice start, ih hbs _⟩

theorem Statement.contains_act (a : Action) : (Statement.act l a).Contains P :=
  fun _ => contain_singleton.mpr (by simp)

theorem Statement.contains_enclose {c : Container} (hc : P c) (h : ∀ s ∈ ss, s.Contains P) :
    (Statement.enclose l c ss l').Contains P := fun _ =>
  contain_encloseCode (fun _ hd => Instruction.container.inj hd ▸ hc) (contain_codeOf h _)

theorem Statement.contains_condition (test : Path.Expr) (h : ∀ s ∈ ss, s.Contains P) :
    (Statement.condition l test ss l').Contains P :=
  fun _ => contain_encloseCode (by simp) (contain_codeOf h _)

theorem Statement.contains_either (test : Path.Expr) (between : Location) {no : List Statement}
    (h : ∀ s ∈ ss, s.Contains P) (h' : ∀ s ∈ no, s.Contains P) :
    (Statement.either l test ss between no l').Contains P := fun _ =>
  contain_append.mpr ⟨contain_encloseCode (by simp) (contain_codeOf h _),
    contain_encloseCode (by simp) (contain_codeOf h' _)⟩

theorem Statement.contains_choose {bs : List Branch} (h : ∀ b ∈ bs, b.Contains P) :
    (Statement.choose l bs l').Contains P :=
  fun _ => contain_encloseCode (by simp) (contain_branchesCode h _ _)

theorem Branch.contains_when (test : Path.Expr) (h : ∀ s ∈ ss, s.Contains P) :
    (Branch.when l test ss l').Contains P :=
  fun _ _ => contain_encloseCode (by simp) (contain_codeOf h _)

theorem Branch.contains_otherwise (h : ∀ s ∈ ss, s.Contains P) :
    (Branch.otherwise l ss l').Contains P :=
  fun _ _ => contain_encloseCode (by simp) (contain_codeOf h _)

theorem Body.contain_code {b : Body} (h : ∀ s ∈ b.statements, s.Contains P) (start : NodeId) :
    Contain P (b.code start) := contain_encloseCode (by simp) (contain_codeOf h _)

end

/-! ## Resolution -/

namespace Script

/-- Whatever is read, it satisfies `Q`. -/
def Returns {α : Type} (Q : α → Prop) (r : Resolve α) : Prop := ∀ x, Q (r.run x).1

section
variable {α β : Type} {P : α → Prop} {Q : β → Prop}

theorem returns_pure {b : β} (h : Q b) : Returns Q (pure b) := fun _ => h

theorem returns_bind {r : Resolve α} {k : α → Resolve β} (h : Returns P r)
    (hk : ∀ a, P a → Returns Q (k a)) : Returns Q (r >>= k) := fun x => hk _ (h x) _

/-- Whatever is read first. -/
theorem returns_then {r : Resolve α} {k : α → Resolve β} (hk : ∀ a, Returns Q (k a)) :
    Returns Q (r >>= k) := fun _ => hk _ _

end

variable {declared : List String}

/-- All variables that the statement declares live in its body. -/
abbrev IsLocalStatement (s : Statement) : Prop := s.Contains Container.IsLocal

abbrev IsLocalCommand (p : List String × Option Statement) : Prop := ∀ s ∈ p.2, IsLocalStatement s

abbrev IsLocalContent (ss : List Statement) : Prop := ∀ s ∈ ss, IsLocalStatement s

abbrev IsLocalBranch (b : StreamTransform.Branch) : Prop := b.Contains Container.IsLocal

theorem returns_statement {r : Resolve Statement} (h : Returns IsLocalStatement r) :
    Returns IsLocalCommand (do pure (declared, some (← r))) :=
  returns_bind h fun s hs => returns_pure fun s' hs' => by
    obtain rfl := Option.some.inj hs'
    exact hs

theorem returns_act (a : Action) : Returns IsLocalStatement (Resolve.act a) :=
  returns_then fun _ => returns_pure (Statement.contains_act a)

theorem returns_enclose {c : Container} {content : Resolve (List Statement)}
    (hc : c.IsLocal) (h : Returns IsLocalContent content) :
    Returns IsLocalStatement (Resolve.enclose c content) :=
  returns_then fun _ => returns_bind h fun _ hss => returns_then fun _ =>
    returns_pure (Statement.contains_enclose hc hss)

theorem returns_noContent : Returns IsLocalContent Resolve.noContent :=
  returns_pure (List.forall_mem_nil _)

mutual

theorem Command.returns_resolve (declared : List String) :
    ∀ c : Command, Returns IsLocalCommand (c.resolve declared)
  | .locate l => returns_then fun _ => returns_pure nofun
  | .process w d => returns_then fun _ => by
    cases w with
    | siblings =>
      exact returns_then fun _ => returns_then fun _ => returns_statement (returns_act _)
    | _ => exact returns_statement (returns_act _)
  | .call procedure d => returns_then fun _ => returns_statement (returns_act _)
  | .literal n as content => returns_then fun _ => returns_then fun _ =>
    returns_statement (returns_enclose nofun (returns_resolveAll [] content))
  | .element n uri content => returns_then fun _ =>
    returns_statement (returns_enclose nofun (returns_resolveAll [] content))
  | .startElement n => returns_then fun _ => returns_statement (returns_act _)
  | .endElement n => returns_then fun _ => returns_statement (returns_act _)
  | .attr n select => returns_then fun _ => returns_then fun _ =>
    returns_statement (returns_enclose nofun returns_noContent)
  | .attrContent n content => returns_then fun _ =>
    returns_statement (returns_enclose nofun (returns_resolveAll [] content))
  | .text s => returns_statement (returns_act _)
  | .valueOf select separator => returns_then fun _ => returns_then fun _ =>
    returns_statement (returns_act _)
  | .copy as content =>
    returns_statement (returns_enclose nofun (returns_resolveAll [] content))
  | .comment content =>
    returns_statement (returns_enclose nofun (returns_resolveAll [] content))
  | .processingInstruction target content => returns_then fun _ =>
    returns_statement (returns_enclose nofun (returns_resolveAll [] content))
  | .cdata content =>
    returns_statement (returns_enclose nofun (returns_resolveAll [] content))
  | .document href content => returns_then fun _ =>
    returns_statement (returns_enclose nofun (returns_resolveAll [] content))
  | .message select => returns_then fun _ =>
    returns_statement (returns_enclose nofun returns_noContent)
  | .messageContent terminate content =>
    returns_statement (returns_enclose nofun (returns_resolveAll [] content))
  | .variable n select => returns_then fun _ => returns_then fun _ =>
    returns_statement (returns_enclose (isLocal_of_home rfl) returns_noContent)
  | .variableContent n content => returns_then fun _ =>
    returns_statement (returns_enclose (isLocal_of_home rfl) (returns_resolveAll [] content))
  | .parameter n select => returns_then fun _ => returns_then fun _ =>
    returns_statement (returns_enclose (isLocal_of_home rfl) returns_noContent)
  | .parameterContent n content => returns_then fun _ =>
    returns_statement (returns_enclose (isLocal_of_home rfl) (returns_resolveAll [] content))
  | .required n => returns_then fun _ =>
    returns_statement (returns_enclose (isLocal_of_home rfl) returns_noContent)
  | .assign n select => returns_then fun _ =>
    returns_statement (returns_enclose nofun returns_noContent)
  | .assignContent n content =>
    returns_statement (returns_enclose nofun (returns_resolveAll [] content))
  | .condition test yes => returns_then fun _ => returns_then fun _ =>
    returns_bind (returns_resolveAll [] yes) fun _ hyes => returns_then fun _ =>
      returns_pure fun s hs => by
        obtain rfl := Option.some.inj hs
        exact Statement.contains_condition _ hyes
  | .either test yes no => returns_then fun _ => returns_then fun _ =>
    returns_bind (returns_resolveAll [] yes) fun _ hyes => returns_then fun _ =>
      returns_bind (returns_resolveAll [] no) fun _ hno => returns_then fun _ =>
        returns_pure fun s hs => by
          obtain rfl := Option.some.inj hs
          exact Statement.contains_either _ _ hyes hno
  | .choose branches => returns_then fun _ =>
    returns_bind (returns_resolveBranches branches) fun _ hbs => returns_then fun _ =>
      returns_pure fun s hs => by
        obtain rfl := Option.some.inj hs
        exact Statement.contains_choose hbs
  | .loop test content => returns_then fun _ =>
    returns_statement (returns_enclose nofun (returns_resolveAll [] content))
  | .each n select content => returns_then fun _ =>
    returns_statement (returns_enclose nofun (returns_resolveAll [n] content))

theorem returns_resolveAll (declared : List String) :
    ∀ cs : List Command, Returns IsLocalContent (resolveAll declared cs)
  | [] => returns_pure (List.forall_mem_nil _)
  | c :: cs =>
    returns_bind (Command.returns_resolve declared c) fun p hp =>
      returns_bind (returns_resolveAll p.1 cs) fun ss hss => returns_pure fun s hs => by
        rcases List.mem_append.mp hs with hs | hs
        · exact hp s (Option.mem_toList.mp hs)
        · exact hss s hs

theorem Branch.returns_resolve :
    ∀ b : Branch, Returns IsLocalBranch b.resolve
  | .when _ content => returns_then fun _ => returns_then fun _ =>
    returns_bind (returns_resolveAll [] content) fun _ hss => returns_then fun _ =>
      returns_pure (StreamTransform.Branch.contains_when _ hss)
  | .otherwise content => returns_then fun _ =>
    returns_bind (returns_resolveAll [] content) fun _ hss => returns_then fun _ =>
      returns_pure (StreamTransform.Branch.contains_otherwise hss)

theorem returns_resolveBranches :
    ∀ bs : List Branch, Returns (fun bs => ∀ b ∈ bs, IsLocalBranch b) (resolveBranches bs)
  | [] => returns_pure (List.forall_mem_nil _)
  | b :: bs =>
    returns_bind (Branch.returns_resolve b) fun _ hb =>
      returns_bind (returns_resolveBranches bs) fun _ hbs =>
        returns_pure (List.forall_mem_cons.mpr ⟨hb, hbs⟩)

end

theorem returns_resolveBody (content : List Command) :
    Returns (fun b : Body => IsLocalContent b.statements) (resolveBody content) :=
  returns_then fun _ => returns_bind (returns_resolveAll [] content) fun _ hss =>
    returns_then fun _ => returns_pure hss

/-! ## Assembly -/

/-- A statement that declares a variable of the group. -/
def IsDeclaration (g : GroupId) (s : Statement) : Prop :=
  ∃ l c l', s = .enclose l c [] l' ∧ DeclaresIn g c

/-- Declarations that are laid out one after the other and end the body that begins at `b`. -/
theorem declares_of_sits {code : Array Node} {g : GroupId} {b : NodeId} {o : Node}
    (ho : code[b]? = some o) (hb : o.instruction = .body) {l : Location} {ss : List Statement}
    (hss : ∀ s ∈ ss, IsDeclaration g s) {i : NodeId}
    (hs : Sits code i (codeOf i ss ++ [⟨.closing b, l, none⟩])) : Declares code g i := by
  induction ss generalizing i with
  | nil => exact .stops hs.head rfl ho hb
  | cons s ss ih =>
    obtain ⟨⟨l₁, c, l₂, rfl, hc⟩, hrest⟩ := List.forall_mem_cons.mp hss
    have hafter : Declares code g (i + 2) := ih hrest hs.tail.tail
    have hend : Declares code g (i + 1) := .ends hs.tail.head rfl hs.head rfl hc hafter
    exact .starts hs.head rfl rfl hc hend hafter

/-- What is so far of the homes: the declarations that are still to be laid out are known. -/
structure Draft.Homed (d : Draft) : Prop where
  code : Contain (Container.Houses d.groups.size) d.code.toList
  pending : ∀ (g : GroupId) (e : GroupDraft), d.groups[g]? = some e →
    ∀ s ∈ e.initialisers, IsDeclaration g s
  initialiser : ∀ (g : GroupId) (e : GroupDraft) (b : NodeId), d.groups[g]? = some e →
    e.group.initialiser = some b → Declares d.code g b

namespace Assemble

theorem homed_reading (d : Draft) (r : Reading) (h : d.Homed) :
    ({ d with reading := r } : Draft).Homed := ⟨h.code, h.pending, h.initialiser⟩

theorem resolving_homed {α : Type} {Q : α → Prop} {r : Resolve α} (h : Returns Q r) :
    Leads Draft.Homed (resolving r) fun a d => d.Homed ∧ Q a :=
  fun d hd => ⟨homed_reading d _ hd, h d.reading⟩

theorem homed_layOut {d : Draft} (h : d.Homed) {b : Body}
    (hb : ∀ s ∈ b.statements, s.Contains (Container.Houses d.groups.size)) :
    ({ d with code := d.code ++ b.code d.code.size } : Draft).Homed where
  code := by
    rw [Array.toList_appendList]
    exact contain_append.mpr ⟨h.code, Body.contain_code hb _⟩
  pending := h.pending
  initialiser g e i he hi := (h.initialiser g e i he hi).append _

/-- A body that declares no variables of groups. -/
theorem layOut_homed (b : Body) :
    Leads (fun d => d.Homed ∧ IsLocalContent b.statements) (layOut b) fun _ => Draft.Homed :=
  fun _ ⟨h, hb⟩ => homed_layOut h fun s hs start =>
    (hb s hs start).mono fun _ hc => hc.houses _

/-- A change of a group leaves homes alone if its declarations do. -/
theorem homed_modifyGroup {d : Draft} (h : d.Homed) {g : GroupId} {f : GroupDraft → GroupDraft}
    (hp : ∀ e, d.groups[g]? = some e → ∀ s ∈ (f e).initialisers, IsDeclaration g s)
    (hi : ∀ e b, d.groups[g]? = some e → (f e).group.initialiser = some b →
      Declares d.code g b) :
    ({ d with groups := d.groups.modify g f } : Draft).Homed where
  code := by
    rw [Array.size_modify]
    exact h.code
  pending k e he := by
    obtain ⟨e', he', rfl⟩ := modifyGroup_some he
    split
    · rename_i hg
      subst hg
      exact hp e' he'
    · exact h.pending k e' he'
  initialiser k e b he hb := by
    obtain ⟨e', he', rfl⟩ := modifyGroup_some he
    split at hb
    · rename_i hg
      subst hg
      exact hi e' b he' hb
    · exact h.initialiser k e' b he' hb

/-- Lists of templates, procedures and children are no matter. -/
theorem homed_listed {d : Draft} (h : d.Homed) (g : GroupId) {f : GroupDraft → GroupDraft}
    (hp : ∀ e, (f e).initialisers = e.initialisers)
    (hi : ∀ e, (f e).group.initialiser = e.group.initialiser) :
    ({ d with groups := d.groups.modify g f } : Draft).Homed :=
  homed_modifyGroup h (fun e he => hp e ▸ h.pending g e he)
    fun e b he hb => h.initialiser g e b he (hi e ▸ hb)

theorem addTemplate_homed (t : Template) :
    Leads Draft.Homed (addTemplate t) fun _ => Draft.Homed := fun d h =>
  homed_listed (d := { d with templates := d.templates.push t })
    ⟨h.code, h.pending, h.initialiser⟩ t.group (fun _ => rfl) fun _ => rfl

theorem addProcedure_homed (q : Procedure) :
    Leads Draft.Homed (addProcedure q) fun _ => Draft.Homed := fun d h =>
  homed_listed (d := { d with procedures := d.procedures.push q })
    ⟨h.code, h.pending, h.initialiser⟩ q.group (fun _ => rfl) fun _ => rfl

theorem addGroup_homed (name : String) (parent : GroupId) :
    Leads Draft.Homed (addGroup name parent) fun _ => Draft.Homed := by
  intro d h
  have hpushed : ∀ e : GroupDraft, e.initialisers = [] → e.group.initialiser = none →
      ({ d with groups := d.groups.push e } : Draft).Homed := by
    intro e hnone hinitialiser
    have new : ∀ {k : GroupId} {e' : GroupDraft}, (d.groups.push e)[k]? = some e' →
        e' = e ∨ d.groups[k]? = some e' := by
      intro k e' he'
      rw [Array.getElem?_push] at he'
      split at he'
      · exact .inl (Option.some.inj he').symm
      · exact .inr he'
    refine ⟨?_, fun k e' he' => ?_, fun k e' b he' hb => ?_⟩
    · rw [Array.size_push]
      exact h.code.mono fun c hc => hc.mono (Nat.le_succ _)
    · rcases new he' with rfl | hold
      · rw [hnone]
        exact List.forall_mem_nil _
      · exact h.pending k e' hold
    · rcases new he' with rfl | hold
      · rw [hinitialiser] at hb
        cases hb
      · exact h.initialiser k e' b hold hb
  refine homed_listed (hpushed _ ?_ ?_) parent (fun _ => rfl) fun _ => rfl
  · rfl
  · rfl

theorem declareIn_homed {g : GroupId} {c : Container} (hc : DeclaresIn g c) (name : String) :
    Leads Draft.Homed (declareIn g name c) fun _ => Draft.Homed := by
  have enclosed : Returns (IsDeclaration g) (Resolve.enclose c Resolve.noContent) :=
    fun _ => ⟨_, _, _, rfl, hc⟩
  refine leads_bind (leads_group g) fun e => ?_
  split
  · exact leads_resolving _ homed_reading
  · refine leads_bind (resolving_homed enclosed) fun s d ⟨h, hs⟩ => ?_
    exact homed_modifyGroup h
      (fun e he => List.forall_mem_cons.mpr ⟨hs, h.pending g e he⟩) (h.initialiser g)

/-- The declarations of a group become a body that does nothing else. -/
theorem layOutInitialiser_homed (g : GroupId) :
    Leads Draft.Homed (layOutInitialiser g) fun _ => Draft.Homed := by
  let Known := fun (e : GroupDraft) (d : Draft) => d.Homed ∧
    ∀ s ∈ e.initialisers, IsDeclaration g s ∧ g < d.groups.size
  have known : Leads Draft.Homed (group g) Known := by
    refine fun d h => ⟨h, fun s hs => ?_⟩
    change s ∈ (d.groups.getD g default).initialisers at hs
    rw [Array.getD_eq_getD_getElem?] at hs
    cases he : d.groups[g]? with
    | none =>
      rw [he] at hs
      exact absurd hs List.not_mem_nil
    | some e =>
      rw [he] at hs
      exact ⟨h.pending g e he s hs, (Array.getElem?_eq_some_iff.mp he).1⟩
  refine leads_bind known fun e => ?_
  split
  · exact leads_pure fun _ h => h.1
  · refine leads_bind (Q := fun _ => Known e)
      (fun d h => ⟨homed_reading d _ h.1, h.2⟩) fun l => ?_
    have laidOut : Leads (Known e) (layOut ⟨l, e.initialisers.reverse, l⟩)
        fun start d => d.Homed ∧ Declares d.code g start := by
      rintro d ⟨h, hs⟩
      have hsits := sits_append d.code (Body.code d.code.size ⟨l, e.initialisers.reverse, l⟩)
      have hdeclares := fun s hm => (hs s (List.mem_reverse.mp hm)).1
      refine ⟨homed_layOut h fun s hm => ?_,
        .begins hsits.head rfl (declares_of_sits hsits.head rfl hdeclares hsits.tail)⟩
      obtain ⟨⟨l₁, c, l₂, rfl, hc⟩, hg⟩ := hs s (List.mem_reverse.mp hm)
      refine Statement.contains_enclose (fun g' hg' => ?_) (List.forall_mem_nil _)
      rw [home?_of_declaresIn hc] at hg'
      obtain rfl := Home.group.inj (Option.some.inj hg')
      exact hg
    refine leads_bind laidOut fun start => leads_modify fun d ⟨h, hd⟩ => ?_
    refine homed_modifyGroup h (h.pending g) fun e' b _ hb => ?_
    obtain rfl : start = b := Option.some.inj hb
    exact hd

theorem homed_kept : Kept Draft.Homed where
  reading := homed_reading
  template {n g} _ source options content := by
    have resolved : Leads Draft.Homed
        ((Declaration.template source options content).assemble g) fun _ => Draft.Homed := by
      refine leads_bind (leads_resolving _ homed_reading) fun pattern =>
        leads_bind (resolving_homed (returns_resolveBody content)) fun b =>
        leads_bind (layOut_homed b) fun start => ?_
      split
      · exact leads_pure fun _ h => h
      · exact leads_forM (fun p => addTemplate_homed _) _
    exact fun d h => resolved d h.1
  procedure {n g} _ name visibility content := by
    have laidOut : Leads Draft.Homed (do
        let b ← resolving (resolveBody content)
        let start ← layOut b
        addProcedure ⟨name, g, visibility, b.opening, start⟩) fun _ => Draft.Homed :=
      leads_bind (resolving_homed (returns_resolveBody content)) fun b =>
        leads_bind (layOut_homed b) fun start => addProcedure_homed _
    have declared : Leads Draft.Homed
        ((Declaration.procedure name visibility content).assemble g) fun _ => Draft.Homed := by
      refine leads_bind (leads_get fun _ h => h) fun d => leads_bind (leads_group g) fun e => ?_
      split
      · exact leads_bind (leads_resolving _ homed_reading) fun _ => laidOut
      · exact laidOut
    exact fun d h => declared d h.1
  group {n g} _ name d h := addGroup_homed name g d h.1
  declaration {n g} _ name {c} hc d h := declareIn_homed hc name d h.1
  initialiser := layOutInitialiser_homed

end Assemble

open Assemble

theorem homed_initial : Draft.initial.Homed where
  code := List.forall_mem_nil _
  pending g e he := by
    cases g with
    | zero =>
      obtain rfl := Option.some.inj he
      exact List.forall_mem_nil _
    | succ g => cases he
  initialiser g e b he hb := by
    cases g with
    | zero =>
      obtain rfl := Option.some.inj he
      cases hb
    | succ g => cases he

/-- In a program that is built every variable has a home. -/
theorem homed_of_build {ds : List Declaration} {p : Program} (h : build ds = .ok p) :
    p.Homed := by
  have size : ∀ d : Draft, d.program.groups.size = d.groups.size := fun d => by
    rw [Draft.program, completed, Array.size_mapIdx, Array.size_map]
  constructor
  · obtain ⟨d, hd, rfl⟩ := membered_kept.of_build membered_initial h
    intro id t ht
    rw [size]
    exact hd.placed id t.group (congrArg (Option.map Template.group) ht)
  · obtain ⟨d, hd, rfl⟩ := homed_kept.of_build homed_initial h
    intro i n hn
    rw [size]
    exact hd.code n (Array.mem_toList_iff.mpr (Array.mem_of_getElem? hn))
  · obtain ⟨d, hd, rfl⟩ := homed_kept.of_build homed_initial h
    intro g b hb
    obtain ⟨e, he, hb⟩ := d.initialiser_program hb
    exact hd.initialiser g e b he hb

end Script

end StreamTransform
