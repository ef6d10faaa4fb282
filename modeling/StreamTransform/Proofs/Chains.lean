import Mathlib.Logic.Relation
import StreamTransform.Proofs.Contents
import StreamTransform.Proofs.Relinking

/-!
# Chains

In a program that is built the nodes of a body follow each other along their links, up to the body's
own end. The code that the program is laid out as has them one behind the other, so what holds of
positions in the code holds along the links: a start comes before its end, contents lie in each other,
and what a body is labelled with is met in order.
-/

namespace StreamTransform

open Relation (TransGen)

/-! ## Links -/

/-- Along the links one gets from a node to another one. -/
def Ahead (nodes : Array LinkedNode) : NodeId → NodeId → Prop :=
  TransGen fun i j => ∃ n, nodes[i]? = some n ∧ n.next = some j

/-- Along the links a node lies between the start at another one and the end of that. -/
def Surrounds (nodes : Array LinkedNode) (b i : NodeId) : Prop :=
  ∃ n c, nodes[b]? = some n ∧ n.close = some c ∧ Ahead nodes b i ∧ Ahead nodes i c

/-- From the start of a body on these nodes follow each other, none of them twice, with these labels,
up to the body's own end, which none follows. -/
def Chain (nodes : Array LinkedNode) (b : NodeId) (ls : List Label) : Prop :=
  ∃ is c n m, is.head? = some b ∧ Follows nodes is ∧ is.Nodup ∧
    List.Forall₂ (fun i l => ∃ n, nodes[i]? = some n ∧ l.Bears n.toNode) is ls ∧
    nodes[b]? = some n ∧ n.instruction = .body ∧ n.close = some c ∧
    is.getLast? = some c ∧ nodes[c]? = some m ∧ m.instruction = .closing b ∧ m.next = none

/-- Starts and ends belong together, and contents are nested. -/
structure Paired (nodes : Array LinkedNode) : Prop where
  starts : ∀ (b : NodeId) (n : LinkedNode), nodes[b]? = some n →
    n.instruction.isOpening = n.close.isSome
  ends : ∀ (b c : NodeId) (n : LinkedNode), nodes[b]? = some n → n.close = some c →
    Ahead nodes b c ∧ ∃ m, nodes[c]? = some m ∧ m.instruction = .closing b
  closing : ∀ (i b : NodeId) (n : LinkedNode), nodes[i]? = some n → n.instruction = .closing b →
    ∃ o, nodes[b]? = some o ∧ o.close = some i
  nested : ∀ (b c i e : NodeId) (n m : LinkedNode), nodes[b]? = some n → n.close = some c →
    nodes[i]? = some m → m.close = some e → Ahead nodes b i → Ahead nodes i c → Ahead nodes e c

/-- Nodes are laid out as code in an order, in which each node stands in front of the one that follows
it, and none follows the end of a body. -/
structure LaidOut (nodes : Array LinkedNode) (order : List NodeId) (code : Array Node) : Prop where
  whole : order.Perm (List.range nodes.size)
  node : ∀ k : NodeId, code[k]? = order[k]?.bind fun i =>
    nodes[i]?.map fun n => n.renumber order.idxOf
  next : ∀ (k i : NodeId) (n : LinkedNode), order[k]? = some i → nodes[i]? = some n →
    EndsBody code k ∧ n.next = none ∨ ¬ EndsBody code k ∧ ∃ j, n.next = some j ∧ order[k + 1]? = some j

section
variable {f : NodeId → NodeId} {n : Node}

theorem isOpening_renumber : (n.renumber f).instruction.isOpening = n.instruction.isOpening := by
  obtain ⟨i, l, close⟩ := n
  cases i <;> rfl

theorem body_of_renumber (h : (n.renumber f).instruction = .body) : n.instruction = .body := by
  obtain ⟨i, l, close⟩ := n
  cases i with
  | body => rfl
  | _ => cases h

theorem alternative_of_renumber (h : (n.renumber f).instruction = .alternative) :
    n.instruction = .alternative := by
  obtain ⟨i, l, close⟩ := n
  cases i with
  | alternative => rfl
  | _ => cases h

theorem choice_of_renumber (h : (n.renumber f).instruction = .choice) :
    n.instruction = .choice := by
  obtain ⟨i, l, close⟩ := n
  cases i with
  | choice => rfl
  | _ => cases h

theorem Label.bears_of_renumber {l : Label} (h : l.Bears (n.renumber f)) : l.Bears n := by
  obtain ⟨i, l', close⟩ := n
  obtain ⟨ns, h⟩ := h
  refine ⟨ns, ?_⟩
  cases i with
  | condition test other =>
    cases h with
    | condition hy hother => exact .condition hy (Option.isSome_map.symm.trans hother)
  | when test choice =>
    cases h with
    | when hy => exact .when hy
  | closing start =>
    cases h with
    | closing => exact .closing
  | _ => exact h

end

theorem closing_of_renumber {f : NodeId → NodeId} {n : Node} {s : NodeId}
    (h : (n.renumber f).instruction = .closing s) : ∃ b, n.instruction = .closing b ∧ f b = s := by
  obtain ⟨i, l, close⟩ := n
  cases i with
  | closing b => exact ⟨b, rfl, Instruction.closing.inj h⟩
  | _ => cases h

theorem drop_of_some {α : Type} {l : List α} {k : Nat} {a : α} (h : l[k]? = some a) :
    l.drop k = a :: l.drop (k + 1) := by
  obtain ⟨hlt, rfl⟩ := List.getElem?_eq_some_iff.mp h
  exact List.drop_eq_getElem_cons hlt

namespace LaidOut

variable {nodes : Array LinkedNode} {order : List NodeId} {code : Array Node} {i j b c k k' : NodeId}
  {n : LinkedNode} {m : Node}

section
variable (h : LaidOut nodes order code)

include h

theorem nodup : order.Nodup := h.whole.nodup_iff.mpr List.nodup_range

theorem mem_iff : i ∈ order ↔ i < nodes.size := h.whole.mem_iff.trans List.mem_range

/-- Every node has a place. -/
theorem place (hn : nodes[i]? = some n) : order[order.idxOf i]? = some i := by
  have hmem : i ∈ order := h.mem_iff.mpr (Array.getElem?_eq_some_iff.mp hn).1
  rw [List.getElem?_eq_getElem (List.idxOf_lt_length_of_mem hmem), List.getElem_idxOf]

theorem idxOf_eq (hk : order[k]? = some i) : order.idxOf i = k := by
  obtain ⟨hlt, rfl⟩ := List.getElem?_eq_some_iff.mp hk
  exact h.nodup.idxOf_getElem k hlt

theorem exists_of_place (hk : order[k]? = some i) : ∃ n, nodes[i]? = some n :=
  ⟨_, Array.getElem?_eq_getElem (h.mem_iff.mp (List.mem_of_getElem? hk))⟩

theorem code_of_some (hn : nodes[i]? = some n) :
    code[order.idxOf i]? = some (n.renumber order.idxOf) := by
  rw [h.node, h.place hn, Option.bind_some, hn, Option.map_some]

theorem some_of_code (hm : code[k]? = some m) :
    ∃ i n, order[k]? = some i ∧ nodes[i]? = some n ∧ m = n.renumber order.idxOf := by
  rw [h.node] at hm
  obtain ⟨i, hi, hm⟩ := Option.bind_eq_some_iff.mp hm
  obtain ⟨n, hn, rfl⟩ := Option.map_eq_some_iff.mp hm
  exact ⟨i, n, hi, hn, rfl⟩

/-- What a place is left for is the place of a node. -/
theorem exists_of_lt_size (hk : k < code.size) : ∃ i, order[k]? = some i := by
  obtain ⟨i, -, hi, -⟩ := h.some_of_code (Array.getElem?_eq_getElem hk)
  exact ⟨i, hi⟩

/-- A number that has a place in the code is that of a node. -/
theorem getElem?_idxOf (hk : order.idxOf i < code.size) : order[order.idxOf i]? = some i := by
  obtain ⟨j, hj⟩ := h.exists_of_lt_size hk
  have hlt := (List.getElem?_eq_some_iff.mp hj).1
  rw [List.getElem?_eq_getElem hlt, List.getElem_idxOf]

theorem idxOf_inj (hn : nodes[i]? = some n) : order.idxOf i = order.idxOf j ↔ i = j :=
  List.idxOf_inj (h.mem_iff.mpr (Array.getElem?_eq_some_iff.mp hn).1)

/-! ### Getting ahead -/

theorem place_next (hn : nodes[i]? = some n) (hnext : n.next = some j) :
    order.idxOf j = order.idxOf i + 1 := by
  rcases h.next _ i n (h.place hn) hn with ⟨-, hnone⟩ | ⟨-, j', hj, hplace⟩
  · cases hnone.symm.trans hnext
  · obtain rfl := Option.some.inj (hj.symm.trans hnext)
    exact h.idxOf_eq hplace

theorem lt_of_ahead (ha : Ahead nodes i j) : order.idxOf i < order.idxOf j := by
  induction ha with
  | single hstep =>
    obtain ⟨n, hn, hnext⟩ := hstep
    exact Nat.lt_of_lt_of_eq (Nat.lt_succ_self _) (h.place_next hn hnext).symm
  | tail _ hstep ih =>
    obtain ⟨n, hn, hnext⟩ := hstep
    exact Nat.lt_trans ih (Nat.lt_of_lt_of_eq (Nat.lt_succ_self _) (h.place_next hn hnext).symm)

/-- As long as no body ends, what is behind is ahead. -/
theorem ahead_of_lt (hi : order[k]? = some i) (hj : order[k']? = some j) (hlt : k < k')
    (hopen : ∀ x, k ≤ x → x < k' → ¬ EndsBody code x) : Ahead nodes i j := by
  induction k', hlt using Nat.le_induction generalizing j with
  | base =>
    obtain ⟨n, hn⟩ := h.exists_of_place hi
    rcases h.next k i n hi hn with ⟨hends, -⟩ | ⟨-, j', hnext, hplace⟩
    · exact absurd hends (hopen k (Nat.le_refl k) (Nat.lt_succ_self k))
    · obtain rfl := Option.some.inj (hplace.symm.trans hj)
      exact .single ⟨n, hn, hnext⟩
  | succ x hx ih =>
    obtain ⟨y, hy⟩ : ∃ y, order[x]? = some y :=
      ⟨_, List.getElem?_eq_getElem (Nat.lt_of_succ_lt (List.getElem?_eq_some_iff.mp hj).1)⟩
    obtain ⟨n, hn⟩ := h.exists_of_place hy
    have hahead := ih hy fun z hz hzx => hopen z hz (Nat.lt_succ_of_lt hzx)
    rcases h.next x y n hy hn with ⟨hends, -⟩ | ⟨-, j', hnext, hplace⟩
    · exact absurd hends (hopen x (Nat.le_of_succ_le hx) (Nat.lt_succ_self x))
    · obtain rfl := Option.some.inj (hplace.symm.trans hj)
      exact hahead.tail ⟨n, hn, hnext⟩

/-! ### Starts and ends -/

/-- What lies between a start and its end along the links lies between them in the code. -/
theorem encloses_of_surrounds (hs : Surrounds nodes b i) :
    Encloses code (order.idxOf b) (order.idxOf i) := by
  obtain ⟨n, c, hn, hc, hbi, hic⟩ := hs
  exact ⟨_, _, h.code_of_some hn, congrArg (Option.map order.idxOf) hc, h.lt_of_ahead hbi,
    h.lt_of_ahead hic⟩

section
variable (hw : WellNested code)

include hw

/-- The end of a start has a place, in front of which no body ends. -/
theorem close_place (hn : nodes[b]? = some n) (hc : n.close = some c) :
    order[order.idxOf c]? = some c ∧ order.idxOf b < order.idxOf c ∧
      ∀ x, order.idxOf b ≤ x → x < order.idxOf c → ¬ EndsBody code x := by
  have hflat := h.code_of_some hn
  have hclose : (n.renumber order.idxOf).close = some (order.idxOf c) := by
    rw [Node.renumber, hc]
    rfl
  obtain ⟨-, m, hm, -⟩ := (hw.lawful _ _ hflat).close _ hclose
  exact ⟨h.getElem?_idxOf (Array.getElem?_eq_some_iff.mp hm).1, lt_close hw hflat hclose,
    fun x hbx hxc => not_endsBody hw hflat hclose hbx hxc⟩

theorem ahead_close (hn : nodes[b]? = some n) (hc : n.close = some c) : Ahead nodes b c := by
  obtain ⟨hplace, hlt, hopen⟩ := h.close_place hw hn hc
  exact h.ahead_of_lt (h.place hn) hplace hlt hopen

theorem exists_closing (hn : nodes[b]? = some n) (hc : n.close = some c) :
    ∃ m, nodes[c]? = some m ∧ m.instruction = .closing b := by
  have hflat := h.code_of_some hn
  have hclose : (n.renumber order.idxOf).close = some (order.idxOf c) := by
    rw [Node.renumber, hc]
    rfl
  obtain ⟨-, m, hm, hi⟩ := (hw.lawful _ _ hflat).close _ hclose
  obtain ⟨c', o, hc', ho, rfl⟩ := h.some_of_code hm
  obtain rfl := Option.some.inj (hc'.symm.trans (h.close_place hw hn hc).1)
  obtain ⟨b', hb', hsame⟩ := closing_of_renumber hi
  obtain rfl := (h.idxOf_inj hn).mp hsame.symm
  exact ⟨o, ho, hb'⟩

theorem surrounds_of_encloses (hb : nodes[b]? = some n) (hi : order[k]? = some i)
    (he : Encloses code (order.idxOf b) k) : Surrounds nodes b i := by
  obtain ⟨m, c', hm, hc', hbi, hic⟩ := he
  obtain rfl := Option.some.inj ((h.code_of_some hb).symm.trans hm)
  obtain ⟨c, hc, rfl⟩ := Option.map_eq_some_iff.mp hc'
  obtain ⟨hplace, hlt, hopen⟩ := h.close_place hw hb hc
  exact ⟨n, c, hb, hc,
    h.ahead_of_lt (h.place hb) hi hbi fun x hbx hxi => hopen x hbx (Nat.lt_trans hxi hic),
    h.ahead_of_lt hi hplace hic fun x hix hxc => hopen x (Nat.le_trans (Nat.le_of_lt hbi) hix) hxc⟩

theorem paired : Paired nodes where
  starts b n hn := by
    have hopens := (hw.lawful _ _ (h.code_of_some hn)).isOpening
    rw [isOpening_renumber] at hopens
    exact hopens.trans Option.isSome_map
  ends b c n hn hc := ⟨h.ahead_close hw hn hc, h.exists_closing hw hn hc⟩
  closing i b n hn hb := by
    have hflat : (n.renumber order.idxOf).instruction = .closing (order.idxOf b) := by
      rw [Node.renumber, hb]
      rfl
    obtain ⟨m, hm, hclose⟩ := (hw.lawful _ _ (h.code_of_some hn)).closing _ hflat
    obtain ⟨b', o, hb', ho, rfl⟩ := h.some_of_code hm
    obtain rfl := Option.some.inj
      ((h.getElem?_idxOf (Array.getElem?_eq_some_iff.mp hm).1).symm.trans hb')
    obtain ⟨c, hc, hsame⟩ := Option.map_eq_some_iff.mp hclose
    obtain rfl := (h.idxOf_inj hn).mp hsame.symm
    exact ⟨o, ho, hc⟩
  nested b c i e n m hn hc hm he hbi hic := by
    obtain ⟨hplace, -, hopen⟩ := h.close_place hw hn hc
    obtain ⟨hplace', hlt, -⟩ := h.close_place hw hm he
    have hbi := h.lt_of_ahead hbi
    have hlast : order.idxOf e < order.idxOf c :=
      close_lt_close hw (h.code_of_some hn) (congrArg (Option.map order.idxOf) hc)
        (h.code_of_some hm) (congrArg (Option.map order.idxOf) he) hbi (h.lt_of_ahead hic)
    exact h.ahead_of_lt hplace' hplace hlast fun x hx hxc =>
      hopen x (Nat.le_of_lt (Nat.lt_trans hbi (Nat.lt_of_lt_of_le hlt hx))) hxc

/-- The alternative of a condition follows the end of the condition. -/
theorem alternative (hp : Pointed code) {a : NodeId} {test : Path.Expr} (hn : nodes[i]? = some n)
    (hi : n.instruction = .condition test (some a)) : ∃ c m o, n.close = some c ∧
      nodes[c]? = some m ∧ m.next = some a ∧ nodes[a]? = some o ∧ o.instruction = .alternative := by
  have hflat := h.code_of_some hn
  have hcondition : (n.renumber order.idxOf).instruction = .condition test (some (order.idxOf a)) := by
    rw [Node.renumber, hi]
    rfl
  obtain ⟨c', o', hc', ha, ho', halternative⟩ :=
    (hp _ (Array.mem_toList_iff.mpr (Array.mem_of_getElem? hflat))).alternative _ _ hcondition
  obtain ⟨c, hc, rfl⟩ := Option.map_eq_some_iff.mp hc'
  obtain ⟨m, hm, hclosing⟩ := h.exists_closing hw hn hc
  obtain ⟨a', o, ha', ho, rfl⟩ := h.some_of_code ho'
  obtain rfl := Option.some.inj
    ((h.getElem?_idxOf (Array.getElem?_eq_some_iff.mp ho').1).symm.trans ha')
  refine ⟨c, m, o, hc, hm, ?_, ho, alternative_of_renumber halternative⟩
  -- the end belongs to the condition, so it does not end a body
  rcases h.next _ c m (h.place hm) hm with ⟨⟨m', b, hm', hb, o', ho', hbody⟩, -⟩ | ⟨-, j, hj, hplace⟩
  · obtain rfl := Option.some.inj ((h.code_of_some hm).symm.trans hm')
    rw [Node.renumber, hclosing] at hb
    obtain rfl := Instruction.closing.inj hb
    obtain rfl := Option.some.inj (hflat.symm.trans ho')
    cases hcondition.symm.trans hbody
  · rw [← ha, ha'] at hplace
    exact hj.trans hplace.symm

/-- A branch belongs to the choice that encloses it, and nothing lies between the two. -/
theorem branch (hp : Pointed code) {test : Path.Expr} (hn : nodes[i]? = some n)
    (hi : n.instruction = .when test c) : (∃ m, nodes[c]? = some m ∧ m.instruction = .choice) ∧
      Surrounds nodes c i ∧ ∀ b, Surrounds nodes b i → b = c ∨ Surrounds nodes b c := by
  have hflat := h.code_of_some hn
  have hwhen : (n.renumber order.idxOf).instruction = .when test (order.idxOf c) := by
    rw [Node.renumber, hi]
    rfl
  obtain ⟨m', hm', hchoice⟩ :=
    (hp _ (Array.mem_toList_iff.mpr (Array.mem_of_getElem? hflat))).choice _ _ hwhen
  obtain ⟨st, ⟨x, e, hx, he, -⟩, hin⟩ := (hw.lawful _ _ hflat).choice _ _ hwhen
  obtain ⟨hencloses, hinnermost⟩ :=
    encloses_of_enclosing hw hin hx he hflat (by simp [hwhen])
  obtain ⟨c', m, hc', hm, rfl⟩ := h.some_of_code hm'
  obtain rfl := Option.some.inj
    ((h.getElem?_idxOf (Array.getElem?_eq_some_iff.mp hm').1).symm.trans hc')
  refine ⟨⟨m, hm, choice_of_renumber hchoice⟩, h.surrounds_of_encloses hw hm (h.place hn) hencloses,
    fun b hb => ?_⟩
  have hflatb := h.encloses_of_surrounds hb
  obtain ⟨y, d, hy, -⟩ := id hb
  rcases Nat.eq_or_lt_of_le (hinnermost _ hflatb) with hsame | hlt
  · exact .inl ((h.idxOf_inj hy).mp hsame)
  · obtain ⟨z, d', hz, hd', -, hid⟩ := hflatb
    obtain ⟨-, -, -, -, hci, -⟩ := hencloses
    exact .inr (h.surrounds_of_encloses hw hy (h.place hm)
      ⟨z, d', hz, hd', hlt, Nat.lt_trans hci hid⟩)

end

/-! ### Bodies -/

/-- Up to the end of a body what is behind follows. -/
theorem follows_drop {len : Nat} (hopen : ∀ x, k ≤ x → x < k + len → ¬ EndsBody code x)
    (hends : EndsBody code (k + len)) : Follows nodes ((order.drop k).take (len + 1)) := by
  have hplace : ∃ i, order[k]? = some i := by
    obtain ⟨n, -, hn, -⟩ := hends
    exact h.exists_of_lt_size
      (Nat.lt_of_le_of_lt (Nat.le_add_right k len) (Array.getElem?_eq_some_iff.mp hn).1)
  obtain ⟨i, hi⟩ := hplace
  obtain ⟨n, hn⟩ := h.exists_of_place hi
  induction len generalizing k i n with
  | zero =>
    rw [drop_of_some hi]
    rcases h.next k i n hi hn with ⟨-, hnone⟩ | ⟨hnot, -⟩
    · exact .last hn hnone
    · exact absurd hends hnot
  | succ len ih =>
    rcases h.next k i n hi hn with ⟨hends, -⟩ | ⟨-, j, hnext, hj⟩
    · exact absurd hends (hopen k (Nat.le_refl k) (Nat.lt_add_of_pos_right (Nat.succ_pos len)))
    · obtain ⟨m, hm⟩ := h.exists_of_place hj
      rw [← Nat.add_assoc, Nat.add_right_comm] at hends hopen
      have hrest := ih (fun x hx hxk => hopen x (Nat.le_of_succ_le hx) hxk) hends j hj m hm
      rw [drop_of_some hj, List.take_succ_cons] at hrest
      rw [drop_of_some hi, drop_of_some hj, List.take_succ_cons, List.take_succ_cons]
      exact .step hn hnext hrest

/-- What nodes are labelled with is read off the code that stands there. -/
theorem bears_drop {ls : List Label} {ns : List Node} (hl : List.Forall₂ Label.Bears ls ns)
    (hs : Sits code k ns) :
    List.Forall₂ (fun i l => ∃ n, nodes[i]? = some n ∧ l.Bears n.toNode)
      ((order.drop k).take ns.length) ls := by
  induction hl generalizing k with
  | nil => exact .nil
  | cons hl _ ih =>
    obtain ⟨i, n, hi, hn, rfl⟩ := h.some_of_code hs.head
    rw [drop_of_some hi, List.length_cons, List.take_succ_cons]
    exact .cons ⟨n, hn, Label.bears_of_renumber hl⟩ (ih hs.tail)

/-- A body that stands in the code is a chain of its labels. -/
theorem chain (hw : WellNested code) {body : Body} {ls : List Label}
    (hs : Sits code k (body.code k)) (hl : Labelled ls body.code) (hk : order[k]? = some b) :
    Chain nodes b ls := by
  let len := (codeOf (k + 1) body.statements).length + 1
  have hlength : (body.code k).length = len + 1 :=
    length_encloseCode k .body body.opening body.closing _
  have hend : k + 1 + (codeOf (k + 1) body.statements).length = k + len := Nat.add_right_comm k 1 _
  obtain ⟨b', n, hb', hn, hsame⟩ := h.some_of_code hs.head
  obtain rfl := Option.some.inj (hk.symm.trans hb')
  have hbody : n.instruction = .body := body_of_renumber (congrArg Node.instruction hsame).symm
  obtain ⟨c, hc, hplace⟩ := Option.map_eq_some_iff.mp (congrArg Node.close hsame).symm
  rw [hend] at hplace
  have hends : EndsBody code (k + len) := hend ▸ endsBody_close hw hs.head rfl rfl
  obtain ⟨m, hm, hclosing⟩ := h.exists_closing hw hn hc
  have hlast : order[k + len]? = some c := hplace ▸ h.place hm
  have hnone : m.next = none := by
    rcases h.next _ c m hlast hm with ⟨-, hnone⟩ | ⟨hnot, -⟩
    · exact hnone
    · exact absurd hends hnot
  have hbears := h.bears_drop (hl k) hs
  rw [hlength] at hbears
  refine ⟨(order.drop k).take (len + 1), c, n, m, ?_, ?_, ?_, hbears, hn, hbody, hc, ?_, hm, hclosing,
    hnone⟩
  · rw [drop_of_some hk]
    rfl
  · exact h.follows_drop (fun x hx hxk => not_endsBody hw hs.head rfl hx (hend ▸ hxk)) hends
  · exact h.nodup.sublist ((List.take_sublist _ _).trans (List.drop_sublist _ _))
  · rw [List.getLast?_eq_getElem?, hbears.length_eq, (hl k).length_eq, hlength,
      Nat.add_sub_cancel, List.getElem?_take_of_lt (Nat.lt_succ_self len), List.getElem?_drop, hlast]

end

end LaidOut

/-! ## Built programs -/

theorem getElem?_filterMap {α β : Type} {f : α → Option β} {as : List α} (h : ∀ a ∈ as, (f a).isSome)
    (k : Nat) : (as.filterMap f)[k]? = as[k]?.bind f := by
  induction as generalizing k with
  | nil => rfl
  | cons a as ih =>
    obtain ⟨ha, has⟩ := List.forall_mem_cons.mp h
    obtain ⟨b, hb⟩ := Option.isSome_iff_exists.mp ha
    rw [List.filterMap_cons_some hb]
    cases k with
    | zero => exact hb.symm
    | succ k => exact ih has k

namespace Script

section
variable {cs : List LinkedBody} {b : Builder} {d : Draft} (h : Mirrors cs [] b d)

include h

theorem Mirrors.perm : (ordered cs).Perm (List.range b.nodes.size) := by
  have hwhole := h.whole
  rwa [Builder.pending, List.flatMap_nil, List.append_nil] at hwhole

/-- Every place is in a body that stands in the code. -/
theorem Mirrors.exists_body {k i : NodeId} (hk : (ordered cs)[k]? = some i) :
    ∃ (c : LinkedBody) (start j : Nat), c.Stands b.nodes ∧ Sits d.code start (c.body.code start) ∧
      k = start + j ∧ c.ids[j]? = some i ∧
      ∀ x < c.ids.length, (ordered cs)[start + x]? = c.ids[x]? := by
  obtain ⟨c, hc, hi⟩ := List.mem_flatMap.mp (List.mem_of_getElem? hk)
  obtain ⟨before, after, rfl⟩ := List.append_of_mem hc
  obtain ⟨j, hj⟩ := List.getElem?_of_mem hi
  have hordered : ordered (before ++ c :: after) = ordered before ++ (c.ids ++ ordered after) := by
    rw [ordered, List.flatMap_append, List.flatMap_cons]
    rfl
  have hget (x : Nat) (hx : x < c.ids.length) :
      (ordered (before ++ c :: after))[(ordered before).length + x]? = c.ids[x]? := by
    rw [hordered, List.getElem?_append_right (Nat.le_add_right _ _), Nat.add_sub_cancel_left,
      List.getElem?_append_left hx]
  have hlt := (List.getElem?_eq_some_iff.mp hj).1
  refine ⟨c, (ordered before).length, j, h.stands c hc, fun x n hn => ?_, ?_, hj, hget⟩
  · obtain ⟨rest, hrest⟩ := codeOfAll_split before after c
    have hlength : (codeOfAll before).length = (ordered before).length :=
      length_codeOfAll fun c' hc' => h.stands c' (List.mem_append_left _ hc')
    rw [← Array.getElem?_toList, h.code, hrest, hlength, List.append_assoc,
      List.getElem?_append_right (hlength ▸ Nat.le_add_right _ _), hlength, Nat.add_sub_cancel_left,
      List.getElem?_append_left (List.getElem?_eq_some_iff.mp hn).1, hn]
  · have hnodup : (ordered (before ++ c :: after)).Nodup := h.perm.nodup_iff.mpr List.nodup_range
    exact (List.getElem?_inj (List.getElem?_eq_some_iff.mp hk).1 hnodup).mp
      (hk.trans ((hget j hlt).trans hj).symm)

/-- Each node stands in front of the one that follows it. -/
theorem Mirrors.next (hw : StreamTransform.WellNested d.code) {k i : NodeId} {n : LinkedNode}
    (hk : (ordered cs)[k]? = some i) (hn : b.nodes[i]? = some n) :
    EndsBody d.code k ∧ n.next = none ∨
      ¬ EndsBody d.code k ∧ ∃ j, n.next = some j ∧ (ordered cs)[k + 1]? = some j := by
  obtain ⟨c, start, j, hstands, hsits, rfl, hi, hget⟩ := h.exists_body hk
  have hlength : c.ids.length = (codeOf (start + 1) c.body.statements).length + 1 + 1 :=
    (hstands.length_eq start).trans
      (length_encloseCode start .body c.body.opening c.body.closing _)
  have hnext := hstands.follows.next_eq hi hn
  have hlt := (List.getElem?_eq_some_iff.mp hi).1
  by_cases hlast : j + 1 < c.ids.length
  · have hinside : start + j < start + 1 + (codeOf (start + 1) c.body.statements).length := by omega
    rw [List.getElem?_eq_getElem hlast] at hnext
    exact .inr ⟨not_endsBody hw hsits.head rfl (Nat.le_add_right _ _) hinside, _, hnext,
      (hget (j + 1) hlast).trans (List.getElem?_eq_getElem hlast)⟩
  · refine .inl ⟨?_, hnext.trans (List.getElem?_eq_none (Nat.le_of_not_lt hlast))⟩
    have hend : start + 1 + (codeOf (start + 1) c.body.statements).length = start + j := by omega
    exact hend ▸ endsBody_close hw hsits.head rfl rfl

end

/-- A program is laid out as the code of its draft. -/
theorem laidOut_built (ds : List Declaration) :
    LaidOut (built ds).nodes (linkOrder (built ds).nodes) (draft ds).code := by
  obtain ⟨cs, h⟩ := mirrors_built ds
  have hw := (Assemble.wellNested_kept.of_draft wellNested_initial ds).code
  have hcode := h.laidOut
  rw [h.linkOrder_eq] at hcode ⊢
  refine ⟨h.perm, fun k => ?_, fun k i n => h.next hw⟩
  rw [← Array.getElem?_toList, ← hcode]
  refine getElem?_filterMap (fun i hi => ?_) k
  rw [Option.isSome_map, Array.getElem?_eq_getElem (List.mem_range.mp (h.perm.mem_iff.mp hi))]
  rfl

/-- Along the links every node is met from the start of a body on. -/
theorem exists_start (ds : List Declaration) {i : NodeId} (hi : i < (built ds).nodes.size) :
    ∃ b n, (built ds).nodes[b]? = some n ∧ n.instruction = .body ∧
      (b = i ∨ Ahead (built ds).nodes b i) := by
  obtain ⟨cs, h⟩ := mirrors_built ds
  have hw := (Assemble.wellNested_kept.of_draft wellNested_initial ds).code
  have hlaid := laidOut_built ds
  have hplace := hlaid.place (Array.getElem?_eq_getElem hi)
  have hk := hplace
  rw [h.linkOrder_eq] at hk
  obtain ⟨c, start, j, hstands, hsits, hsame, hj, -⟩ := h.exists_body hk
  obtain ⟨b, n, hb, hn, hbody⟩ := hlaid.some_of_code hsits.head
  refine ⟨b, n, hn, body_of_renumber (congrArg Node.instruction hbody).symm, ?_⟩
  rw [h.linkOrder_eq, hsame, ← h.linkOrder_eq] at hplace
  cases j with
  | zero => exact .inl (Option.some.inj (hb.symm.trans hplace))
  | succ j =>
    have hlength := hstands.length_eq start
    have hlt := (List.getElem?_eq_some_iff.mp hj).1
    rw [hlength, Body.code, length_encloseCode] at hlt
    refine .inr (hlaid.ahead_of_lt hb hplace (Nat.lt_add_of_pos_right j.succ_pos) fun x hx hxj => ?_)
    have hinside : start + (j + 1) ≤ start + 1 + (codeOf (start + 1) c.body.statements).length := by
      omega
    exact not_endsBody hw hsits.head rfl hx (Nat.lt_of_lt_of_le hxj hinside)

end Script

end StreamTransform
