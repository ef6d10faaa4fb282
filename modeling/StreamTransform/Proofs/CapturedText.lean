import StreamTransform.Proofs.Faults
import StreamTransform.Proofs.OwedNames

/-!
# What ends emit

What is emitted is noted in the record, whatever sinks make of it. So an end of a container can be
told by the events that it emits, and by the text that it finds: at its end a container has its own
capture on top of the scopes, and the text in it is all that the content wrote there.
-/

namespace StreamTransform

open Output

/-- The events that were emitted, in order. -/
def Record.emitted (r : Record) : List Output.Event :=
  r.reverse.filterMap fun
    | .noted (.emit e) => some e
    | _ => none

namespace Record

theorem emitted_cons (h : Happening) (r : Record) :
    emitted (h :: r) = emitted r ++ emitted [h] := by
  simp [emitted, List.filterMap_append]

theorem emitted_noted_emit (e : Output.Event) (r : Record) :
    emitted (.noted (.emit e) :: r) = emitted r ++ [e] := by
  rw [emitted_cons]
  rfl

theorem emitted_reported (d : Diagnostic) (answer : Option Fault) (r : Record) :
    emitted (.reported d answer :: r) = emitted r := by
  rw [emitted_cons]
  exact List.append_nil _

theorem emitted_written {h : Happening} (hh : h.isWritten) (r : Record) :
    emitted (h :: r) = emitted r := by
  rw [emitted_cons]
  cases h <;> first | exact List.append_nil _ | cases hh

end Record

/-! ## Operations that emit -/

namespace Operation

variable {α β : Type} {env : Environment} {s s' : State} {es es' : List Output.Event}

/-- The operation emits these events, or the first of them until it fails. -/
def Emits (op : Operation α) (s : State) (es : List Output.Event) : Prop :=
  op.Ensures s (fun _ s' => s'.record.emitted = s.record.emitted ++ es)
    fun _ s' => ∃ done, done <+: es ∧ s'.record.emitted = s.record.emitted ++ done

theorem emits_pure (a : α) (s : State) : Emits (pure a) s [] :=
  ensures_pure.mpr (List.append_nil _).symm

theorem Emits.bind_giving {Q : α → Prop} {op : Operation α} {k : α → Operation β}
    (h : Emits op s es) (hg : Gives Q op) (hk : ∀ a s', Q a → Emits (k a) s' es') :
    Emits (op >>= k) s (es ++ es') := by
  refine ensures_bind.mpr ((hg.ensures.both h).mono ?_ ?_)
  · rintro a s₁ ⟨ha, hs₁⟩
    refine (hk a s₁ ha).mono (fun _ s₂ hs₂ => ?_) ?_
    · rw [hs₂, hs₁, List.append_assoc]
    · rintro _ s₂ ⟨done, hdone, hs₂⟩
      refine ⟨es ++ done, (List.prefix_append_right_inj es).mpr hdone, ?_⟩
      rw [hs₂, hs₁, List.append_assoc]
  · rintro _ s₁ ⟨-, done, hdone, hs₁⟩
    exact ⟨done, hdone.trans (List.prefix_append es es'), hs₁⟩

theorem Emits.bind {op : Operation α} {k : α → Operation β} (h : Emits op s es)
    (hk : ∀ a s', Emits (k a) s' es') : Emits (op >>= k) s (es ++ es') :=
  h.bind_giving (Q := fun _ => True) (fun _ _ _ _ => trivial) fun a s' _ => hk a s'

/-- A report emits nothing. -/
theorem preserves_emitted_report (es : List Output.Event) (severity : Severity) (f : Fault)
    (node : Option NodeId) :
    Preserves (fun s => s.record.emitted = es) (report env severity f node) :=
  preserves_report (P := fun s => s.record.emitted = es) fun s hs =>
    (Record.emitted_reported _ _ s.record).trans hs

/-- An event is noted, and what becomes of it emits nothing more. -/
theorem emits_emit (e : Output.Event) (node : Option NodeId) (s : State) :
    Emits (emit env e node) s [e] := by
  have hbears : ∀ es, Record.BearsWrites fun r => r.emitted = es := fun es r h hh hr =>
    (Record.emitted_written hh r).trans hr
  have hkept : Preserves (fun s' => s'.record.emitted = s.record.emitted ++ [e])
      (attempt env node (Writing.emit env.surroundings e)) :=
    keeps_attempt_of_bears (hbears _) (.emit e) fun f =>
      preserves_emitted_report _ .error f node
  have hnoted : (s.after (.noted (.emit e))).record.emitted = s.record.emitted ++ [e] :=
    Record.emitted_noted_emit e s.record
  unfold Emits emit
  rw [ensures_bind, ensures_note, ensures_discard]
  exact (hkept _ hnoted).mono (fun _ _ h => h) fun _ _ h => ⟨[e], List.prefix_refl _, h⟩

/-- An end that finds its capture on top goes on with the text in it. -/
theorem emits_captured_bind {f : Frame} {b : NodeId} {t : Scope} {r : List Scope} {sink : TextSink}
    {k : Option String → Operation β} (ht : s.outlet.scopes = t :: r) (howner : t.owner = some b)
    (hsink : t.target = .capture sink)
    (hk : ∀ s', Emits (k (some sink.buffer)) s' es) : Emits (captured env f b >>= k) s es := by
  have hclose : (Writing.closeCapture b).Ensures s.outlet
      (fun text o => text = sink.buffer ∧ o = { s.outlet with scopes := r }) fun _ _ => False := by
    rw [Writing.closeCapture, Writing.ensures_bind, Writing.ensures_popOwned ht howner, hsink]
    exact ⟨rfl, rfl⟩
  unfold Writing.Ensures at hclose
  unfold Emits
  rw [ensures_bind, captured, ensures_attempt]
  split
  · rename_i text o hrun
    rw [hrun] at hclose
    obtain ⟨rfl, rfl⟩ := hclose
    exact hk { s with outlet := { s.outlet with scopes := r } }
  · rename_i fault o hrun
    rw [hrun] at hclose
    exact hclose.elim

end Operation

/-! ## Ends of containers -/

/-- A container's capture is on top, with a text in it. -/
def Output.Outlet.HasCaptured (o : Outlet) (b : NodeId) (text : String) : Prop :=
  ∃ t r sink, o.scopes = t :: r ∧ t.owner = some b ∧ t.target = .capture sink ∧ sink.buffer = text

/-- The next step executes the end of the container at a node. -/
structure Moment.Ends (env : Environment) (m : Moment) (a : Activation) (f : Frame) (b : NodeId)
    (c : Container) : Prop where
  runs : ∃ rest, m.agenda = .run a :: rest
  innermost : ∃ fs, a.frames = f :: fs
  closing : ∃ n, env.program.code[f.cursor]? = some n ∧ n.instruction = .closing b
  container : ∃ o, env.program.code[b]? = some o ∧ o.instruction = .container c

/-- The next step emits these events, or the first of them until the listener ends the run. -/
def Moment.Emits (env : Environment) (m : Moment) (es : List Output.Event) : Prop :=
  ∃ t rest, m.agenda = t :: rest ∧ (t.perform env).Emits m.state es

section
variable {env : Environment} {m : Moment} {a : Activation} {f : Frame} {b : NodeId} {c : Container}
  {text : String} {es : List Output.Event}

theorem Moment.Ends.mem_bodies (h : m.Ends env a f b c) : f ∈ m.bodies := by
  obtain ⟨rest, ha⟩ := h.runs
  obtain ⟨fs, hf⟩ := h.innermost
  rw [Moment.bodies, Moment.live, ha, live_run, List.flatMap_cons, hf]
  exact List.mem_append_left _ List.mem_cons_self

/-- The end of a container that captures text finds it, whatever was suspended or refused. -/
theorem Moment.Ends.holds (h : m.Ends env a f b c) (hbalance : ScopesBalanced env)
    (hm : Reached env m) (hk : c.scope? = some .capture) :
    ∃ text, m.state.outlet.HasCaptured b text := by
  obtain ⟨⟨rest, ha⟩, ⟨fs, hf⟩, ⟨n, hn, hb⟩, o, ho, hc⟩ := h
  obtain ⟨t, r, ht, howner, hkind⟩ :=
    hbalance.paired m b .capture hm ⟨a, rest, f, fs, n, o, c, ha, hf, hn, hb, ho, hc, hk⟩
  cases htarget : t.target with
  | sink d =>
    rw [htarget] at hkind
    cases hkind
  | capture sink => exact ⟨sink.buffer, t, r, sink, ht, howner, htarget, rfl⟩

/-- What the end of a container emits when it finds its text, the step emits. -/
theorem Moment.Ends.emits (h : m.Ends env a f b c) (htext : m.state.outlet.HasCaptured b text)
    {k : Option String → Operation Flow}
    (hfinish : Operation.finishContainer env a f.leave b c =
      (Operation.captured env f.leave b >>= k))
    (hk : ∀ s, (k (some text)).Emits s es) : m.Emits env es := by
  obtain ⟨⟨rest, ha⟩, ⟨fs, hf⟩, ⟨n, hn, hb⟩, o, ho, hc⟩ := h
  obtain ⟨t, r, sink, ht, howner, hsink, rfl⟩ := htext
  refine ⟨_, rest, ha, ?_⟩
  have hexecute : Operation.execute env a f n = Operation.finishContainer env a f.leave b c := by
    simp only [Operation.execute, hb, Operation.closeAt, ho, hc]
  have hemits : (Operation.finishContainer env a f.leave b c).Emits m.state es := by
    rw [hfinish]
    exact Operation.emits_captured_bind ht howner hsink hk
  have hon : Operation.Gives (fun flow => ∃ g, flow = Flow.on g)
      (Operation.finishContainer env a f.leave b c) :=
    Operation.gives_finishContainer (fun g => ⟨g, rfl⟩) b c
  simp only [Task.perform, Operation.advance, hf, hn, hexecute]
  rw [← List.append_nil es]
  refine hemits.bind_giving hon ?_
  rintro _ s' ⟨g, rfl⟩
  exact Operation.emits_pure _ s'

end

end StreamTransform
