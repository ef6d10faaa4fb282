import StreamTransform.Proofs.LexicalScopes
import StreamTransform.Proofs.Recursion

/-!
# Names in the frames of groups

A frame of a group is empty when the group is entered, and the declarations of the group's variables
run at once, before anything else may bind names in it. Meanwhile all other bodies that are in
execution declare variables of their own only. So at every declaration the frame holds no more names
than have been declared before it.
-/

namespace StreamTransform

/-! ## What a declaration does -/

/-- The frames of groups once a variable that lives there is bound, in the current one. -/
def Home.store (home : Home) (name : String) (v : Value) (fs : GroupFrames) : GroupFrames :=
  match home with
  | .body => fs
  | .group g => fs.insert g name v

/-- What the start or the end of a declaration does, executed at a node in a frame: the content is
entered, or control passes on, with the variable bound or without a value for it. -/
inductive Flow.Declares (f : Frame) (n : Node) (home : Home) (name : String)
    (fs fs' : GroupFrames) (flow : Flow) : Prop
  | enters {g : Frame} : flow.frame? = some g → g.cursor = f.cursor + 1 →
      g.scopes = [] :: f.scopes → fs' = fs → Declares f n home name fs fs' flow
  | passes {g : Frame} : flow.frame? = some g → g.cursor = (f.skip n).cursor →
      g.scopes = f.scopes → fs' = fs → Declares f n home name fs fs' flow
  | binds {g : Frame} (v : Value) : flow.frame? = some g → g.cursor = (f.skip n).cursor →
      g.scopes = home.bind name v f.scopes → fs' = home.store name v fs →
      Declares f n home name fs fs' flow

namespace GroupFrames

variable {fs : GroupFrames} {g : GroupId} {s : Bindings}

theorem current?_insert (h : fs.current? g = some s) (name : String) (v : Value) :
    (fs.insert g name v).current? g = some (s.insert name v) := by
  have hstack : (fs.insert g name v).stack g = if g = g then _ else fs.stack g :=
    stack_modify (.inr rfl)
  rw [current?_eq_head?] at h ⊢
  rw [hstack, if_pos rfl]
  cases hs : fs.stack g with
  | nil =>
    rw [hs] at h
    cases h
  | cons s' r =>
    rw [hs] at h
    obtain rfl := Option.some.inj h
    rfl

/-- Without a frame nothing is bound. -/
theorem insert_of_none (h : fs.current? g = none) (name : String) (v : Value) :
    fs.insert g name v = fs := by
  have hnil : fs.getD g [] = [] := List.head?_eq_none_iff.mp h
  refine List.ext_getElem? fun k => ?_
  rw [insert, List.getElem?_modify]
  split
  next hk =>
    subst hk
    rw [List.getD_eq_getElem?_getD] at hnil
    cases hs : fs[g]? with
    | none => rfl
    | some st =>
      rw [hs, Option.getD_some] at hnil
      subst hnil
      rfl
  next => rw [id_map']

end GroupFrames

namespace Operation

variable {α : Type} {env : Environment} {a : Activation} {f g : Frame} {n : Node} {home : Home}
  {name : String} {v : Value} {s s' : State} {flow : Flow}

theorem frames_evaluate {e : Path.Expr} (hy : (evaluate env a f e).Yields s v s') :
    s'.frames = s.frames :=
  ((outward_frames env (· = s.frames)).toMuted.evaluate a f e).of_yields hy rfl

theorem frames_report {severity : Severity} {fault : Fault} {node : Option NodeId} {u : Unit}
    (hy : (report env severity fault node).Yields s u s') : s'.frames = s.frames :=
  (preserves_report (P := fun x => x.frames = s.frames) fun _ hx => hx).of_yields hy rfl

theorem frames_attempt {node : Option NodeId} {w : Output.Writing α} (hw : IsWrite env w)
    {r : Option α} (hy : (attempt env node w).Yields s r s') : s'.frames = s.frames :=
  ((outward_frames env (· = s.frames)).attempted node hw).of_yields hy rfl

/-- A variable is bound where it lives. -/
theorem yields_declareVariable (hy : (declareVariable env f home name v).Yields s g s') :
    g = { f with scopes := home.bind name v f.scopes } ∧
      s'.frames = home.store name v s.frames := by
  refine ⟨gives_declared home name v _ _ _ hy, ?_⟩
  cases home with
  | body => rw [(yields_pure.mp hy).2]; rfl
  | group k =>
    rw [declareVariable, yields_get_bind] at hy
    split at hy
    next =>
      rw [yields_modify_bind] at hy
      rw [(yields_pure.mp hy).2]
      rfl
    next hnone =>
      obtain ⟨u, s₁, hreport, hy⟩ := yields_bind.mp hy
      rw [(yields_pure.mp hy).2, frames_report hreport, Home.store]
      exact (GroupFrames.insert_of_none hnone name v).symm

/-- The value is there, and the content passed over. -/
theorem declares_bound (hy : (do
      let f ← declareVariable env f home name v
      pure (.on (f.skip n)) : Operation Flow).Yields s flow s') :
    flow.Declares f n home name s.frames s'.frames := by
  obtain ⟨g, s₁, hdeclared, hy⟩ := yields_bind.mp hy
  obtain ⟨rfl, rfl⟩ := yields_pure.mp hy
  obtain ⟨rfl, hframes⟩ := yields_declareVariable hdeclared
  exact .binds v rfl rfl rfl hframes

theorem declares_openVariable {origin : Origin}
    (hy : (openVariable env a f n name origin home).Yields s flow s') :
    flow.Declares f n home name s.frames s'.frames := by
  cases origin with
  | selected e =>
    obtain ⟨v, s₁, hv, hy⟩ := yields_bind.mp hy
    exact frames_evaluate hv ▸ declares_bound hy
  | written =>
    obtain ⟨opened, s₁, hopened, hy⟩ := yields_bind.mp hy
    have hframes := frames_attempt (.openCapture _ _) hopened
    cases opened with
    | none =>
      obtain ⟨rfl, rfl⟩ := yields_pure.mp hy
      exact .passes rfl rfl rfl hframes
    | some u =>
      obtain ⟨rfl, rfl⟩ := yields_pure.mp hy
      exact .enters rfl rfl rfl hframes

theorem declares_openParameter {default : Option Origin}
    (hy : (openParameter env a f n name default home).Yields s flow s') :
    flow.Declares f n home name s.frames s'.frames := by
  unfold openParameter at hy
  split at hy
  · exact declares_bound hy
  · split at hy
    · exact declares_openVariable hy
    · obtain ⟨u, s₁, hreport, hy⟩ := yields_bind.mp hy
      exact frames_report hreport ▸ declares_bound hy

theorem declares_finishVariable {b : NodeId} (hn : n.close = none) (hy : (do
      let f ← finishVariable env f b name home
      pure (.on f.next) : Operation Flow).Yields s flow s') :
    flow.Declares f n home name s.frames s'.frames := by
  have hskip : (f.skip n).cursor = f.cursor + 1 := by
    simp [Frame.skip, Frame.moveTo, hn]
  obtain ⟨g, s₁, hfinished, hy⟩ := yields_bind.mp hy
  obtain ⟨rfl, rfl⟩ := yields_pure.mp hy
  obtain ⟨text, s₂, hcaptured, hfinished⟩ := yields_bind.mp hfinished
  have hframes := frames_attempt (.closeCapture b) hcaptured
  cases text with
  | none =>
    obtain ⟨rfl, rfl⟩ := yields_pure.mp hfinished
    exact .passes rfl hskip.symm rfl hframes
  | some text =>
    obtain ⟨rfl, hstored⟩ := yields_declareVariable hfinished
    exact .binds _ rfl hskip.symm rfl (hframes ▸ hstored)

end Operation

namespace Deed

variable {env : Environment} {d : Deed} {g : Frame} {b : NodeId} {o : Node} {c : Container}

/-- The frame that an instruction is executed in: at the end of a content its scope is gone. -/
def inForce (d : Deed) : Frame :=
  match d.node.instruction with
  | .closing _ => d.frame.leave
  | _ => d.frame

theorem cursor_inForce (d : Deed) : d.inForce.cursor = d.frame.cursor := by
  unfold inForce
  split <;> rfl

section
variable (hw : env.program.WellNested) (hd : d.Happens env)

include hw hd

theorem Happens.declares {home : Home} {name : String} (hc : d.node.Concerns env.program.code c)
    (hx : c.declared? = some (home, name)) :
    d.flow.Declares d.inForce d.node home name d.before.frames d.after.frames := by
  cases hc with
  | starts hi =>
    have hy := hd.startContainer hi
    rw [inForce, hi]
    cases c with
    | «variable» =>
      cases hx
      exact Operation.declares_openVariable hy
    | parameter =>
      cases hx
      exact Operation.declares_openParameter hy
    | _ => cases hx
  | ends hb ho hoc =>
    have hclose : d.node.close = none := close_of_not_isOpening hw.code hd.node (by rw [hb]; rfl)
    have hy := hd.closeAt hb
    simp only [Operation.closeAt, ho, hoc] at hy
    rw [inForce, hb]
    cases c with
    | «variable» =>
      cases hx
      exact Operation.declares_finishVariable hclose hy
    | parameter =>
      cases hx
      exact Operation.declares_finishVariable hclose hy
    | _ => cases hx

omit hw in
/-- The end of a body ends its frame. -/
theorem Happens.done_of_body (hb : d.node.instruction = .closing b)
    (ho : env.program.code[b]? = some o) (hbody : o.instruction = .body) : d.flow = .done := by
  have hy := hd.closeAt hb
  simp only [Operation.closeAt, ho, hbody] at hy
  exact (Operation.yields_pure.mp hy).1

end

end Deed

/-! ## Bodies of templates and procedures -/

/-- The frame runs a body that declares nothing but variables of its own. -/
def Frame.IsLocal (code : Array Node) (f : Frame) : Prop :=
  ∃ b, Script.IsLocalAt code b ∧ (f.cursor = b ∨ LiesIn code b f.cursor)

section
variable {env : Environment} {f : Frame} {n : Node} {c : Container}

theorem Frame.isLocal_start {code : Array Node} {b : NodeId} (h : Script.IsLocalAt code b)
    (g : GroupId) (passed : Bindings) : (Frame.start g b passed).IsLocal code := ⟨b, h, .inl rfl⟩

theorem Frame.IsLocal.home {code : Array Node} (hw : WellNested code) (h : f.IsLocal code)
    (hn : code[f.cursor]? = some n) (hc : n.Concerns code c) : c.IsLocal := by
  obtain ⟨b, ⟨body, hs, hlocal⟩, hb⟩ := h
  have hb : f.cursor = b ∨ b ∈ enclosing code f.cursor := hb.imp_right fun h =>
    h.mem List.mem_cons_self
  have inside : ∀ {i : NodeId} {m : Node}, (i = b ∨ b ∈ enclosing code i) → code[i]? = some m →
      m.instruction = .container c → c.IsLocal := by
    intro i m hi hm hcontainer
    obtain ⟨k, -, hk⟩ := body.getElem?_of_mem hw hs hi hm
    exact Body.contain_code hlocal b m (List.mem_of_getElem? hk) c hcontainer
  cases hc with
  | starts hi => exact inside hb hn hi
  | @ends b' o hclosing ho hi =>
    refine inside (.inr ?_) ho hi
    have hin := (enclosing_of_closing hw hn hclosing).1
    rcases hb with hb | hb
    · subst hb
      obtain rfl := Option.some.inj (hs.head.symm.trans hn)
      cases hclosing
    · rw [hin] at hb
      rcases List.mem_cons.mp hb with rfl | hb
      · obtain rfl := Option.some.inj (hs.head.symm.trans ho)
        cases hi
      · exact hb

theorem Deed.Happens.isLocal {d : Deed} {g : Frame} (hw : env.program.WellNested)
    (hd : d.Happens env) (h : d.frame.IsLocal env.program.code) (hg : d.flow.frame? = some g) :
    g.IsLocal env.program.code := by
  obtain ⟨b, ⟨body, hs, hlocal⟩, hb⟩ := h
  refine ⟨b, ⟨body, hs, hlocal⟩, .inr ?_⟩
  rcases hb with hb | hb
  · subst hb
    have hnode := hd.node_eq hs.head
    have hruns : d.Runs d.frame.cursor .body d.node.location d.frame.scopes :=
      ⟨rfl, by rw [hnode], rfl, rfl⟩
    obtain ⟨owed, hf⟩ := Deed.enters hd hruns rfl
    obtain rfl := Option.some.inj (hf.symm.trans hg)
    exact liesIn_of_opening hs.head rfl
  · by_cases hend : d.node.instruction = .closing b
    · rw [hd.done_of_body hend hs.head rfl] at hg
      cases hg
    · obtain ⟨g', hg', hin⟩ := hd.within hw.code hb hend
      exact Option.some.inj (hg'.symm.trans hg) ▸ hin

end

/-! ## Bodies that declare variables of a group -/

/-- A container begins at a node, and ends before control passes on. -/
theorem Node.Concerns.begins {code : Array Node} {i : NodeId} {n : Node} {c : Container}
    (hw : WellNested code) (hn : code[i]? = some n) (hc : n.Concerns code c) :
    ∃ k m, code[k]? = some m ∧ m.instruction = .container c ∧ m.close = some (n.close.getD i) ∧
      i ≤ n.close.getD i ∧ (k = i ∧ n.instruction = .container c ∨ n.instruction = .closing k) := by
  cases hc with
  | starts hi =>
    obtain ⟨close, hclose⟩ := close_of_isOpening hw hn (by rw [hi]; rfl)
    refine ⟨i, n, hn, hi, ?_, ?_, .inl ⟨rfl, hi⟩⟩
    · rw [hclose, Option.getD_some]
    · rw [hclose, Option.getD_some]
      exact Nat.le_of_lt (lt_close hw hn hclose)
  | @ends b o hb ho hi =>
    obtain ⟨-, -, o', ho', hclose⟩ := enclosing_of_closing hw hn hb
    obtain rfl := Option.some.inj (ho.symm.trans ho')
    rw [close_of_not_isOpening hw hn (by rw [hb]; rfl)]
    exact ⟨b, o, ho, hi, hclose, Nat.le_refl i, .inr hb⟩

theorem declared?_of_declaresIn {g : GroupId} {c : Container}
    (h : Script.Assemble.DeclaresIn g c) : ∃ name, c.declared? = some (.group g, name) := by
  rcases h with ⟨name, e, rfl⟩ | ⟨name, o, rfl⟩ <;> exact ⟨name, rfl⟩

/-- Control is at the start of a body, or at the start or the end of what lies directly in it. -/
def StandsIn (code : Array Node) (b i : NodeId) : Prop :=
  i = b ∨ enclosing code i = [b] ∨
    ∃ n k, code[i]? = some n ∧ n.instruction = .closing k ∧ enclosing code k = [b]

/-- Control is among the declarations of a group's variables, and the current frame of the group
binds no names but those that were declared before. -/
structure Initialising (code : Array Node) (g : GroupId) (b i : NodeId) (fs : GroupFrames) :
    Prop where
  declares : Declares code g i
  stands : StandsIn code b i
  bound : ∃ s, fs.current? g = some s ∧
    ∀ name, s.holds name → DeclaredBefore code [b] i (.group g, name)

section
variable {env : Environment} {g : GroupId} {b i : NodeId} {fs : GroupFrames}

/-- What is declared there lies directly in the body. -/
theorem StandsIn.begins {code : Array Node} {n : Node} {c : Container} (h : StandsIn code b i)
    (hw : WellNested code) (hb : StartsBody code b) (hn : code[i]? = some n)
    (hc : n.Concerns code c) : ∃ k m, code[k]? = some m ∧ m.instruction = .container c ∧
      m.close = some (n.close.getD i) ∧ i ≤ n.close.getD i ∧
      (k = i ∧ n.instruction = .container c ∨ n.instruction = .closing k) ∧
      enclosing code k = [b] := by
  obtain ⟨k, m, hm, hi, hclose, hle, hk⟩ := hc.begins hw hn
  refine ⟨k, m, hm, hi, hclose, hle, hk, ?_⟩
  obtain ⟨o, ho, hbody⟩ := hb
  rcases h with rfl | hin | ⟨n', k', hn', hclosing, hin⟩
  · obtain rfl := Option.some.inj (ho.symm.trans hn)
    rw [hbody] at hk
    rcases hk with ⟨-, hk⟩ | hk <;> cases hk
  · rcases hk with ⟨rfl, -⟩ | hk
    · exact hin
    · -- the end of the body itself is no end of a container
      rw [(enclosing_of_closing hw hn hk).1] at hin
      obtain ⟨rfl, -⟩ := List.cons.inj hin
      obtain rfl := Option.some.inj (ho.symm.trans hm)
      cases hbody.symm.trans hi
  · obtain rfl := Option.some.inj (hn.symm.trans hn')
    rw [hclosing] at hk
    rcases hk with ⟨-, hk⟩ | hk
    · cases hk
    · exact Instruction.closing.inj hk ▸ hin

/-- Declarations are followed by declarations, each with one more name that is bound at most. -/
theorem Deed.Happens.initialising {d : Deed} (hw : env.program.WellNested) (hd : d.Happens env)
    (hb : StartsBody env.program.code b)
    (h : Initialising env.program.code g b d.frame.cursor d.before.frames) :
    d.flow = .done ∨ ∃ f, d.flow = .on f ∧
      Initialising env.program.code g b f.cursor d.after.frames := by
  have hstays := Operation.declares_execute h.declares hd.node _ _ _ hd.yields
  cases hflow : d.flow with
  | done => exact .inl rfl
  | walk | call =>
    rw [hflow] at hstays
    exact hstays.elim
  | on f =>
    rw [hflow] at hstays
    refine .inr ⟨f, rfl, ?_⟩
    obtain ⟨s, hcurrent, hbound⟩ := h.bound
    have kept : d.after.frames = d.before.frames → d.frame.cursor ≤ f.cursor →
        ∃ s, d.after.frames.current? g = some s ∧
          ∀ name, s.holds name → DeclaredBefore env.program.code [b] f.cursor (.group g, name) :=
      fun hframes hle => ⟨s, hframes ▸ hcurrent, fun name hname => (hbound name hname).mono hle⟩
    have declared : ∀ {c : Container}, d.node.Concerns env.program.code c →
        Script.Assemble.DeclaresIn g c → StandsIn env.program.code b (d.frame.cursor + 1) →
        Initialising env.program.code g b f.cursor d.after.frames := by
      intro c hc hin hnext
      obtain ⟨name, hx⟩ := declared?_of_declaresIn hin
      obtain ⟨k, m, hm, hi, hclose, hle, -, hk⟩ := h.stands.begins hw.code hb hd.node hc
      have hafter := enclosing_after_close hw.code hm hclose
      have hskip : (d.inForce.skip d.node).cursor = d.node.close.getD d.frame.cursor + 1 := by
        rw [Frame.skip, Frame.moveTo, d.cursor_inForce]
      cases hd.declares hw hc hx with
      | enters hf hcursor hscopes hframes =>
        obtain rfl := Option.some.inj ((congrArg Flow.frame? hflow).symm.trans hf)
        rw [d.cursor_inForce] at hcursor
        exact ⟨hstays, hcursor ▸ hnext, kept hframes (hcursor ▸ Nat.le_succ _)⟩
      | passes hf hcursor hscopes hframes =>
        obtain rfl := Option.some.inj ((congrArg Flow.frame? hflow).symm.trans hf)
        rw [hskip] at hcursor
        refine ⟨hstays, .inr (.inl ?_), kept hframes (hcursor ▸ Nat.le_succ_of_le hle)⟩
        rw [hcursor, hafter, hk]
      | binds v hf hcursor hscopes hframes =>
        obtain rfl := Option.some.inj ((congrArg Flow.frame? hflow).symm.trans hf)
        rw [hskip] at hcursor
        refine ⟨hstays, .inr (.inl ?_), ?_⟩
        · rw [hcursor, hafter, hk]
        · rw [hframes]
          refine ⟨_, GroupFrames.current?_insert hcurrent name v, fun other hother => ?_⟩
          rw [Bindings.holds_insert, Bool.or_eq_true, beq_iff_eq] at hother
          rcases hother with rfl | hother
          · rw [hcursor]
            exact ⟨k, m, _, hm, hclose, Nat.lt_succ_self _, hk, m, c, hm, hi, hx⟩
          · exact (hbound other hother).mono (hcursor ▸ Nat.le_succ_of_le hle)
    cases h.declares with
    | begins hn hi hnext =>
      obtain rfl := Option.some.inj (hd.node.symm.trans hn)
      have hy := hd.yields
      rw [Operation.execute, hi] at hy
      obtain ⟨hon, hafter⟩ := Operation.yields_pure.mp hy
      obtain rfl := Flow.on.inj (hflow.symm.trans hon)
      have hnil := (hw.code.lawful _ _ hd.node).body.mp hi
      refine ⟨hstays, .inr (.inl ?_), kept (hafter ▸ rfl) (Nat.le_succ _)⟩
      rw [Frame.enclosing_enter hw.code hd.node (by rw [hi]; rfl), hnil]
      rcases h.stands with heq | hin | ⟨n, k, hn', hclosing, -⟩
      · rw [heq]
      · cases hnil.symm.trans hin
      · obtain rfl := Option.some.inj (hd.node.symm.trans hn')
        cases hi.symm.trans hclosing
    | starts hn hi hclose hin hend hnext =>
      obtain rfl := Option.some.inj (hd.node.symm.trans hn)
      obtain ⟨k, m, -, -, -, -, hk, hin'⟩ := h.stands.begins hw.code hb hd.node (.starts hi)
      obtain ⟨-, m', hm', hclosing⟩ := (hw.code.lawful _ _ hd.node).close _ hclose
      refine declared (.starts hi) hin (.inr (.inr ⟨m', _, hm', hclosing, ?_⟩))
      rcases hk with ⟨rfl, -⟩ | hk
      · exact hin'
      · cases hi.symm.trans hk
    | ends hn hi ho hoc hin hnext =>
      obtain rfl := Option.some.inj (hd.node.symm.trans hn)
      obtain ⟨k, m, -, -, -, -, hk, hin'⟩ := h.stands.begins hw.code hb hd.node (.ends hi ho hoc)
      refine declared (.ends hi ho hoc) hin (.inr (.inl ?_))
      rw [(enclosing_of_closing hw.code hd.node hi).2.1]
      rcases hk with ⟨-, hk⟩ | hk
      · cases hi.symm.trans hk
      · exact Instruction.closing.inj (hi.symm.trans hk) ▸ hin'
    | stops hn hi ho hob =>
      obtain rfl := Option.some.inj (hd.node.symm.trans hn)
      rw [hd.done_of_body hi ho hob] at hflow
      cases hflow

end

/-! ## Runs -/

/-- All bodies in execution declare variables of their own alone, but for the topmost one while it
declares those of a group that was just entered. -/
inductive DeclaresInTurn (code : Array Node) (m : Moment) : Prop
  | own : (∀ f ∈ m.bodies, f.IsLocal code) → DeclaresInTurn code m
  | group {a : Activation} {rest : List Task} {f : Frame} {below : List Frame} {g : GroupId}
      {b : NodeId} : m.agenda = .run a :: rest → a.frames = [f] → m.bodies = f :: below →
      (∀ f ∈ below, f.IsLocal code) → StartsBody code b →
      Initialising code g b f.cursor m.state.frames → DeclaresInTurn code m

section
variable {env : Environment} {m m' : Moment} {g : GroupId} {b : NodeId}

theorem lt_size_of_initialiser {p : Program} (h : (p.group g).initialiser = some b) :
    g < p.groups.size := by
  refine Nat.lt_of_not_le fun hle => ?_
  rw [Program.group, Array.getD_eq_getD_getElem?, Array.getElem?_eq_none hle] at h
  cases h

/-- What the activation that runs executes in its innermost frame. -/
theorem Deed.Occurs.of_run {i : Input} {a : Activation} {rest : List Task} {f : Frame}
    {fs : List Frame} {n : Node} {flow : Flow} {s s' : State} (ha : a.frames = f :: fs)
    (hn : env.program.code[f.cursor]? = some n)
    (hy : (Operation.execute env a f n).Yields s flow s')
    (hnext : Next env ⟨i, .run a :: rest, s⟩ m') :
    Deed.Occurs env ⟨a, f, n, s, flow, s'⟩ ⟨i, .run a :: rest, s⟩ m' :=
  ⟨⟨rest, rfl⟩, ⟨fs, ha⟩, ⟨hn, hy⟩, rfl, hnext⟩

/-- The frames that a deed leaves run bodies of procedures and those that it found. -/
theorem Deed.isLocal_framesAfter {d : Deed} {fs : List Frame} (hw : env.program.WellNested)
    (hu : env.program.UniqueNames) (hd : d.Happens env)
    (h : d.frame.IsLocal env.program.code) (hfs : ∀ f ∈ fs, f.IsLocal env.program.code) :
    ∀ f ∈ d.framesAfter env.program fs, f.IsLocal env.program.code := by
  have goesOn : ∀ {g : Frame}, d.flow.frame? = some g →
      ∀ f ∈ g :: fs, f.IsLocal env.program.code := fun hg =>
    List.forall_mem_cons.mpr ⟨hd.isLocal hw h hg, hfs⟩
  unfold framesAfter
  split
  next => exact hfs
  next g hflow => exact goesOn (by rw [hflow]; rfl)
  next g r hflow => exact goesOn (by rw [hflow]; rfl)
  next g id passed hflow =>
    have hg : d.flow.frame? = some g := by rw [hflow]; rfl
    split
    next q hq =>
      exact List.forall_mem_cons.mpr ⟨Frame.isLocal_start (hu.procedure id q hq) _ _, goesOn hg⟩
    next => exact goesOn hg

/-- A group that is entered declares its variables next. -/
theorem declaresInTurn_enterGroup {i : Input} {rest ts : List Task} {s s' : State}
    (hw : env.program.WellNested) (hp : env.program.Homed)
    (hm : Reached env ⟨i, .enterGroup g :: rest, s⟩)
    (hy : (Operation.enterGroup env g).Yields s ts s')
    (h : ∀ f ∈ Moment.bodies ⟨i, .enterGroup g :: rest, s⟩, f.IsLocal env.program.code) :
    DeclaresInTurn env.program.code ⟨i, ts ++ rest, s'⟩ := by
  have hlive : live (.enterGroup g :: rest) s.nodes = live rest s.nodes := live_level rfl
  simp only [Moment.bodies, Moment.live, hlive] at h
  rw [Operation.enterGroup, Operation.yields_modify_bind] at hy
  split at hy
  next =>
    obtain ⟨rfl, rfl⟩ := Operation.yields_pure.mp hy
    exact .own h
  next b hb =>
    rw [Operation.yields_get_bind] at hy
    obtain ⟨rfl, rfl⟩ := Operation.yields_pure.mp hy
    have hsize : g < s.frames.length := by
      have hlength : s.frames.length = _ := (counted_of_reached hp hm).length
      exact hlength ▸ lt_size_of_initialiser hb
    have hstack : (s.frames.push g).stack g = [] :: s.frames.stack g := by
      rw [GroupFrames.stack_push hsize, if_pos rfl]
    refine .group rfl rfl ?_ h (hw.initialiser g b hb)
      ⟨hp.initialiser g b hb, .inl rfl, [], ?_, fun _ hname => by cases hname⟩
    · simp only [Moment.bodies, Moment.live, List.singleton_append, live_run, List.flatMap_cons]
      rfl
    · rw [GroupFrames.current?_eq_head?, hstack]
      rfl

theorem declaresInTurn_run {i : Input} {a : Activation} {rest ts : List Task} {s s' : State}
    (hw : env.program.WellNested) (hu : env.program.UniqueNames)
    (hm : Reached env ⟨i, .run a :: rest, s⟩) (hy : (Operation.advance env a).Yields s ts s')
    (h : DeclaresInTurn env.program.code ⟨i, .run a :: rest, s⟩) :
    DeclaresInTurn env.program.code ⟨i, ts ++ rest, s'⟩ := by
  have hn : Next env ⟨i, .run a :: rest, s⟩ ⟨i, ts ++ rest, s'⟩ := .task hy
  cases hframes : a.frames with
  | nil =>
    cases h with
    | group ha hone =>
      obtain rfl := Task.run.inj (List.cons.inj ha).1
      cases hframes.symm.trans hone
    | own h =>
      obtain ⟨rfl, hconclude⟩ := (Operation.yields_advance_nil hframes).mp hy
      have hnodes := State.nodes_eq (Operation.inputSide_conclude hconclude)
      refine .own fun f hf => h f ?_
      rw [Moment.bodies, Moment.live, List.nil_append, hnodes] at hf
      rw [Moment.bodies, Moment.live, live_run, List.flatMap_cons, hframes]
      exact hf
  | cons f fs =>
    obtain ⟨n, hcode⟩ := node_of_run hw hm rfl hframes
    have hadvance := hy
    unfold Operation.advance at hadvance
    simp only [hframes, hcode] at hadvance
    obtain ⟨flow, s₁, hflow, hadvance⟩ := Operation.yields_bind.mp hadvance
    let d : Deed := ⟨a, f, n, s, flow, s₁⟩
    have hd : d.Happens env := ⟨hcode, hflow⟩
    have ho : d.Occurs env ⟨i, .run a :: rest, s⟩ ⟨i, ts ++ rest, s'⟩ :=
      .of_run hframes hcode hflow hn
    obtain ⟨path, l, a', fs', hlive, hframes', hlive', hafter, -⟩ := ho.live hm
    obtain rfl := (List.cons.inj (hframes.symm.trans hframes')).2
    let below := fs ++ l.flatMap fun e => e.activation.frames
    have hbodies : Moment.bodies ⟨i, .run a :: rest, s⟩ = f :: below := by
      rw [Moment.bodies, hlive, List.flatMap_cons, hframes']
      rfl
    have hbodies' : Moment.bodies ⟨i, ts ++ rest, s'⟩ = d.framesAfter env.program below := by
      rw [Moment.bodies, hlive', List.flatMap_cons, hafter, Deed.framesAfter_append]
    cases h with
    | own h =>
      obtain ⟨hown, hbelow⟩ := List.forall_mem_cons.mp (hbodies ▸ h)
      refine .own ?_
      rw [hbodies']
      exact d.isLocal_framesAfter hw hu hd hown hbelow
    | @group _ _ f₀ below₀ g b ha hone hall hothers hb hinit =>
      obtain rfl := Task.run.inj (List.cons.inj ha).1
      obtain ⟨rfl, rfl⟩ := List.cons.inj (hframes.symm.trans hone)
      obtain ⟨-, rfl⟩ := List.cons.inj (hall.symm.trans hbodies)
      rcases hd.initialising hw hb hinit with hdone | ⟨f', hon, hinit'⟩
      · refine .own ?_
        rw [hbodies', Deed.framesAfter, hdone]
        exact hothers
      · obtain rfl : flow = .on f' := hon
        obtain ⟨rfl, rfl⟩ := Operation.yields_pure.mp hadvance
        exact .group rfl rfl hbodies' hothers hb hinit'

theorem declaresInTurn_of_reached (hw : env.program.WellNested) (hp : env.program.Homed)
    (hu : env.program.UniqueNames) (hm : Reached env m) : DeclaresInTurn env.program.code m := by
  induction hm with
  | first i _ => exact .own (by simp [Moment.bodies, live_take_initial])
  | @next m m' hm hn ih =>
    cases hn with
    | call i hd _ =>
      cases ih with
      | own h =>
        refine .own ?_
        rwa [Moment.bodies, live_call i hd]
      | group ha =>
        rw [hd] at ha
        cases ha
    | @task i t rest ts s s' hy =>
      by_cases hrun : ∃ a, t = .run a
      · obtain ⟨a, rfl⟩ := hrun
        exact declaresInTurn_run hw hu hm hy ih
      · have hown : ∀ f ∈ Moment.bodies ⟨i, t :: rest, s⟩, f.IsLocal env.program.code := by
          cases ih with
          | own h => exact h
          | group ha => exact absurd ⟨_, (List.cons.inj ha).1⟩ hrun
        by_cases henter : ∃ g, t = .enterGroup g
        · obtain ⟨g, rfl⟩ := henter
          exact declaresInTurn_enterGroup hw hp hm hy hown
        · have hmove : LiveMove env s'.nodes t ts (live (t :: rest) s.nodes)
              (live (ts ++ rest) s'.nodes) :=
            (Turn.of_yields hy).live_move (sound_of_reached hm).orderly
          refine .own ?_
          change ∀ f ∈ (live (ts ++ rest) s'.nodes).flatMap fun e => e.activation.frames, _
          change ∀ f ∈ (live (t :: rest) s.nodes).flatMap fun e => e.activation.frames, _ at hown
          generalize live (t :: rest) s.nodes = l, live (ts ++ rest) s'.nodes = l' at hmove hown
          cases hmove with
          | kept => exact hown
          | template position l ht =>
            exact List.forall_mem_cons.mpr
              ⟨Frame.isLocal_start (hu.template _ _ ht) _ _, hown⟩
          | builtIn copied l hd => exact hown
          | initialiser passed l hb => exact absurd ⟨_, rfl⟩ henter
          | advanced l ha => exact absurd ⟨_, rfl⟩ hrun
          | ended l ha => exact absurd ⟨_, rfl⟩ hrun
          | resumed l => exact hown
          | finished l hr =>
            exact fun f hf => hown f (List.mem_append_right _ hf)

end

end StreamTransform
