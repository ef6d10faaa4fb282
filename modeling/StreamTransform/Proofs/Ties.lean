import Mathlib
import StreamTransform.Proofs.Selection

/-!
# Ties between templates

Of templates with equal priorities the one declared first is taken, and a second one that matches
makes a warning. Candidates stand in the total order of doubles, which keeps the two zeros apart,
while a tie is seen by comparing numbers, where the zeros are equal: a template of priority `+0`
is taken before one of priority `-0` even if it is declared later. There is no other such pair of
priorities.
-/

namespace StreamTransform

/-! ## Doubles that are equal numbers -/

namespace Decimal

open Float.Model
open UnpackedFloat hiding unpack

/-- The bits of a double. -/
def word (x : Float) : BitVec Format.binary64.numBits := x.toBits.toBitVec

/-- What a word with this sign, exponent and mantissa is unpacked to. -/
inductive Unpacks (s : BitVec 1) (e : BitVec 11) (m : BitVec 52) : UnpackedFloat → Prop
  | infinity : e = -1 → m = 0 → Unpacks s e m (.infinity (.ofBitVec s))
  | notANumber : Unpacks s e m .notANumber
  | zero : e = 0 → m = 0 → Unpacks s e m (.zero (.ofBitVec s))
  | subnormal (h : 0 < m.toNat) : e = 0 → Unpacks s e m (.finite (.ofBitVec s) m.toNat (-1074) h)
  | normal (h : 0 < 2 ^ 52 + m.toNat) : e ≠ 0 →
      Unpacks s e m (.finite (.ofBitVec s) (2 ^ 52 + m.toNat) (e.toNat - 1075) h)

section
variable {u v : UnpackedFloat} {s s' : BitVec 1} {e e' : BitVec 11} {m m' : BitVec 52}

/-- The implicit bit stands above the mantissa. -/
theorem toNat_one_append (m : BitVec 52) : (1#1 ++ m).toNat = 2 ^ 52 + m.toNat := by
  rw [BitVec.toNat_append, ← Nat.shiftLeft_add_eq_or_of_lt m.isLt]
  rfl

theorem unpacks (a : BitVec Format.binary64.numBits) :
    Unpacks (unpackSign a) (unpackExponent a) (unpackMantissa a)
      (UnpackedFloat.unpack .binary64 a) := by
  unfold UnpackedFloat.unpack
  dsimp only
  split
  · rename_i he
    split
    · exact .infinity he ‹_›
    · exact .notANumber
  · split
    · rename_i he
      split
      · exact .zero he ‹_›
      · rename_i hm
        simp only [he]
        exact .subnormal (BitVec.toNat_pos_of_ne_zero hm) rfl
    · rename_i he
      simp only [toNat_one_append]
      exact .normal _ he

theorem ofBitVec_inj : Sign.ofBitVec s = Sign.ofBitVec s' → s = s' := by
  have hbit : ∀ s : BitVec 1, s = 0#1 ∨ s = 1#1 := by decide
  rcases hbit s with rfl | rfl <;> rcases hbit s' with rfl | rfl <;> simp [Sign.ofBitVec]

/-- What a word is unpacked to tells its fields, unless it is no number. -/
theorem Unpacks.fields (h : Unpacks s e m u) (h' : Unpacks s' e' m' u) (hn : u ≠ .notANumber) :
    s = s' ∧ e = e' ∧ m = m' := by
  have hm := m.isLt
  have hm' := m'.isLt
  generalize hv : u = v at h'
  cases h with
  | notANumber => exact (hn rfl).elim
  | infinity he hm =>
    cases h' with
    | infinity he' hm' =>
      exact ⟨ofBitVec_inj (UnpackedFloat.infinity.inj hv), he.trans he'.symm, hm.trans hm'.symm⟩
    | _ => cases hv
  | zero he hm =>
    cases h' with
    | zero he' hm' =>
      exact ⟨ofBitVec_inj (UnpackedFloat.zero.inj hv), he.trans he'.symm, hm.trans hm'.symm⟩
    | _ => cases hv
  | subnormal _ he =>
    cases h' with
    | subnormal _ he' =>
      obtain ⟨hs, hmm, -⟩ := UnpackedFloat.finite.inj hv
      exact ⟨ofBitVec_inj hs, he.trans he'.symm, BitVec.eq_of_toNat_eq hmm⟩
    | normal _ he' =>
      obtain ⟨-, hmm, -⟩ := UnpackedFloat.finite.inj hv
      omega
    | _ => cases hv
  | normal _ he =>
    cases h' with
    | subnormal _ he' =>
      obtain ⟨-, hmm, -⟩ := UnpackedFloat.finite.inj hv
      omega
    | normal _ he' =>
      obtain ⟨hs, hmm, hee⟩ := UnpackedFloat.finite.inj hv
      exact ⟨ofBitVec_inj hs, BitVec.eq_of_toNat_eq (by omega), BitVec.eq_of_toNat_eq (by omega)⟩
    | _ => cases hv

theorem Unpacks.eq_zero {t : Sign} (h : Unpacks s e m (.zero t)) : e = 0 ∧ m = 0 := by
  cases h
  exact ⟨‹_›, ‹_›⟩

/-- Only equal numbers compare as equal, and zeros whatever their signs. -/
theorem eq_of_compare (h : u.compare v = some .eq) :
    u = v ∧ u ≠ .notANumber ∨ ∃ s t, u = .zero s ∧ v = .zero t := by
  cases u with
  | notANumber => cases h
  | infinity s =>
    cases v with
    | infinity t => cases s <;> cases t <;> first | exact .inl ⟨rfl, nofun⟩ | cases h
    | notANumber | zero | finite => cases s <;> cases h
  | zero s =>
    cases v with
    | zero t => exact .inr ⟨s, t, rfl, rfl⟩
    | infinity t | finite t => cases t <;> cases h
    | notANumber => cases h
  | finite s m e =>
    cases v with
    | finite t m' e' =>
      cases s <;> cases t <;> simp [UnpackedFloat.compare, Ordering.then_eq_eq] at h ⊢
      all_goals omega
    | infinity t => cases s <;> cases t <;> cases h
    | notANumber | zero => cases s <;> cases h

end

/-- A word consists of its sign, its exponent and its mantissa. -/
theorem append_fields (a : BitVec Format.binary64.numBits) :
    unpackSign a ++ unpackExponent a ++ unpackMantissa a = a := by
  simp only [unpackSign, unpackExponent, unpackMantissa, BitVec.extractLsb]
  ext i hi
  grind

section
variable {x y : Float}

theorem eq_of_word (h : word x = word y) : x = y := by
  have hbits : x.toBits = y.toBits := UInt64.toBitVec_inj.1 h
  obtain ⟨⟨_, _⟩⟩ := x
  obtain ⟨⟨_, _⟩⟩ := y
  cases hbits
  rfl

theorem eq_of_fields (h : unpackSign (word x) = unpackSign (word y) ∧
    unpackExponent (word x) = unpackExponent (word y) ∧
    unpackMantissa (word x) = unpackMantissa (word y)) : x = y := by
  apply eq_of_word
  rw [← append_fields (word x), h.1, h.2.1, h.2.2, append_fields]

theorem eq_of_unpack_zero {t : Sign} (h : UnpackedFloat.unpack .binary64 (word x) = .zero t) :
    x = 0.0 ∨ x = -0.0 := by
  have hbit : ∀ s : BitVec 1, s = 0#1 ∨ s = 1#1 := by decide
  have hfields := unpacks (word x)
  rw [h] at hfields
  obtain ⟨he, hm⟩ := hfields.eq_zero
  rcases hbit (unpackSign (word x)) with hs | hs
  · exact .inl (eq_of_fields ⟨hs, he, hm⟩)
  · exact .inr (eq_of_fields ⟨hs, he, hm⟩)

/-- Doubles that are equal numbers are the same, or the two zeros. -/
theorem eq_or_zeros_of_beq (h : (x == y) = true) :
    x = y ∨ x = 0.0 ∧ y = -0.0 ∨ x = -0.0 ∧ y = 0.0 := by
  have hc : (UnpackedFloat.unpack .binary64 (word x)).compare
      (UnpackedFloat.unpack .binary64 (word y)) = some .eq := eq_of_beq h
  rcases eq_of_compare hc with ⟨he, hn⟩ | ⟨s, t, hx, hy⟩
  · exact .inl (eq_of_fields ((unpacks (word x)).fields (he ▸ unpacks (word y)) hn))
  · rcases eq_of_unpack_zero hx with rfl | rfl <;> rcases eq_of_unpack_zero hy with rfl | rfl
    · exact .inl rfl
    · exact .inr (.inl ⟨rfl, rfl⟩)
    · exact .inr (.inr ⟨rfl, rfl⟩)
    · exact .inl rfl

theorem eq_of_orderKey (h : orderKey x = orderKey y) : x = y := by
  have hx := x.toBits.toNat_lt
  have hy := y.toBits.toNat_lt
  have hbits : x.toBits.toNat = y.toBits.toNat := by
    simp only [orderKey] at h
    split at h <;> split at h <;> simp at * <;> omega
  exact eq_of_word (congrArg UInt64.toBitVec (UInt64.toNat_inj.1 hbits))

/-- Between doubles that are equal numbers there are no others in the total order. -/
theorem beq_of_orderKey_between {z : Float} (h : (y == x) = true)
    (hyz : orderKey y ≤ orderKey z) (hzx : orderKey z ≤ orderKey x) : (z == x) = true := by
  have hzero : orderKey 0.0 = 0 := by decide +kernel
  have hnegative : orderKey (-0.0) = -1 := by decide +kernel
  rcases eq_or_zeros_of_beq h with rfl | ⟨rfl, rfl⟩ | ⟨rfl, rfl⟩
  · rwa [eq_of_orderKey (Int.le_antisymm hzx hyz)]
  · omega
  · rcases (by omega : orderKey z = orderKey 0.0 ∨ orderKey z = orderKey (-0.0)) with hz | hz
    · rw [eq_of_orderKey hz]
      decide +kernel
    · rw [eq_of_orderKey hz]
      decide +kernel

end

end Decimal

/-! ## Each template is listed once -/

namespace Program

/-- No list of candidates has a template twice. -/
structure Distinct (p : Program) : Prop where
  candidates : ∀ g, (p.group g).candidates.Nodup
  globals : p.globals.Nodup

end Program

namespace Script

/-- Groups list no template and no child twice, and no group is a child of itself. -/
structure Draft.Distinct (d : Draft) : Prop where
  templates : ∀ (g : GroupId) (e : GroupDraft), d.groups[g]? = some e → e.group.templates.Nodup
  children : ∀ (g : GroupId) (e : GroupDraft), d.groups[g]? = some e → e.group.children.Nodup
  above : ∀ c g, d.parentOf c = some g → g < c

namespace Assemble

variable {d : Draft}

theorem nodup_append_new {l : List Nat} {owner : Nat → Option GroupId} {new : Nat} {k : GroupId}
    (h : l.Nodup) (hold : ∀ id, id ∈ l ↔ owner id = some k) (hnew : owner new = none) :
    (l ++ [new]).Nodup := by
  refine List.nodup_append.2 ⟨h, List.nodup_singleton _, fun id hid other hother => ?_⟩
  obtain rfl := List.mem_singleton.1 hother
  rintro rfl
  rw [hold, hnew] at hid
  cases hid

theorem distinct_modifyGroup (h : d.Distinct) {g : GroupId} {f : GroupDraft → GroupDraft}
    (ht : ∀ e, (f e).group.templates = e.group.templates)
    (hc : ∀ e, (f e).group.children = e.group.children)
    (hp : ∀ e, (f e).group.parent = e.group.parent) :
    ({ d with groups := d.groups.modify g f } : Draft).Distinct := by
  refine ⟨fun k e he => ?_, fun k e he => ?_, fun c k hk => ?_⟩
  · obtain ⟨e', he', rfl⟩ := modifyGroup_some he
    have hold := h.templates k e' he'
    split
    · rwa [ht]
    · exact hold
  · obtain ⟨e', he', rfl⟩ := modifyGroup_some he
    have hold := h.children k e' he'
    split
    · rwa [hc]
    · exact hold
  · exact h.above c k (by rwa [parentOf_modifyGroup hp] at hk)

theorem distinct_withTemplate {t : Template} (hm : d.Membered) (h : d.Distinct) :
    (withTemplate d t).Distinct := by
  refine ⟨fun k e he => ?_, fun k e he => ?_, fun c k hk => ?_⟩
  · obtain ⟨e', he', rfl⟩ := modifyGroup_some he
    have hold := h.templates k e' he'
    split
    · exact nodup_append_new hold (hm.templates k e' he') (by simp [Draft.groupOf])
    · exact hold
  · obtain ⟨e', he', rfl⟩ := modifyGroup_some he
    have hold := h.children k e' he'
    split <;> exact hold
  · exact h.above c k (parentOf_withTemplate c ▸ hk)

theorem distinct_withGroup {name : String} {parent : GroupId} (hm : d.Membered) (h : d.Distinct)
    (hn : parent < d.groups.size) : (withGroup d name parent).Distinct := by
  refine ⟨fun k e he => ?_, fun k e he => ?_, fun c k hk => ?_⟩
  · rcases withGroup_some hn he with ⟨rfl, rfl⟩ | ⟨e', he', rfl⟩
    · exact List.nodup_nil
    · have hold := h.templates k e' he'
      split <;> exact hold
  · rcases withGroup_some hn he with ⟨rfl, rfl⟩ | ⟨e', he', rfl⟩
    · exact List.nodup_nil
    · have hold := h.children k e' he'
      split
      · exact nodup_append_new hold (hm.children k e' he') (by simp [Draft.parentOf])
      · exact hold
  · rw [parentOf_withGroup] at hk
    split at hk
    · cases hk
      exact ‹c = d.groups.size› ▸ hn
    · exact h.above c k hk

theorem distinct_listing : Listing fun d => d.Membered ∧ d.Distinct where
  aside d reading code procedures h :=
    ⟨membered_listing.aside d reading code procedures h.1, h.2.templates, h.2.children, h.2.above⟩
  inGroup _ _ _ h ht hc hp := ⟨membered_modifyGroup h.1 ht hc hp, distinct_modifyGroup h.2 ht hc hp⟩
  template _ _ h hn := ⟨membered_withTemplate h.1 hn, distinct_withTemplate h.1 h.2⟩
  group _ _ _ h hn := ⟨membered_withGroup h.1 hn, distinct_withGroup h.1 h.2 hn⟩

end Assemble

theorem distinct_initial : Draft.initial.Distinct where
  templates g e he := by
    cases g with
    | zero =>
      obtain rfl := Option.some.inj he
      exact List.nodup_nil
    | succ g => cases he
  children g e he := by
    cases g with
    | zero =>
      obtain rfl := Option.some.inj he
      exact List.nodup_nil
    | succ g => cases he
  above c g hg := by cases c <;> cases hg

theorem nodup_ranked {templates : Array Template} {ids : List TemplateId} (h : ids.Nodup) :
    (ranked templates ids).Nodup :=
  (List.mergeSort_perm ids (precedes templates)).nodup_iff.2 h

/-- No template is in two of the groups that a group sees. -/
theorem nodup_visibleIn {d : Draft} (hm : d.Membered) (hd : d.Distinct) {g : GroupId}
    {e : GroupDraft} (he : d.groups[g]? = some e) :
    (visibleIn d.templates (d.groups.map GroupDraft.group) e.group).Nodup := by
  let shown := fun c =>
    ((d.groups.map GroupDraft.group).getD c default).templates.filter
      (visibleAs d.templates .parent)
  have hchild : ∀ c ∈ e.group.children,
      (shown c).Nodup ∧ g < c ∧ ∀ id ∈ shown c, d.groupOf id = some c := by
    intro c hc
    have hparent := (hm.children g e he c).1 hc
    obtain ⟨e', he', -⟩ := Option.bind_eq_some_iff.1 hparent
    have hget : (d.groups.map GroupDraft.group).getD c default = e'.group := by
      rw [Array.getD_eq_getD_getElem?, Array.getElem?_map, he', Option.map_some, Option.getD_some]
    simp only [shown, hget]
    exact ⟨(hd.templates c e' he').filter _, hd.above c g hparent,
      fun id hid => (hm.templates c e' he' id).1 (List.mem_of_mem_filter hid)⟩
  have happart : e.group.children.Pairwise fun c c' => List.Disjoint (shown c) (shown c') := by
    refine (hd.children g e he).imp_of_mem fun {c c'} hc hc' hne id hid hid' => hne ?_
    exact Option.some.inj (((hchild c hc).2.2 id hid).symm.trans ((hchild c' hc').2.2 id hid'))
  refine List.nodup_append.2 ⟨hd.templates g e he,
    List.nodup_flatMap.2 ⟨fun c hc => (hchild c hc).1, happart⟩, fun id hid other hother => ?_⟩
  rintro rfl
  obtain ⟨c, hc, hid'⟩ := List.mem_flatMap.1 hother
  have hgc : some g = some c :=
    ((hm.templates g e he id).1 hid).symm.trans ((hchild c hc).2.2 id hid')
  exact Nat.ne_of_lt (hchild c hc).2.1 (Option.some.inj hgc)

theorem distinct_of_build {ds : List Declaration} {p : Program} (h : build ds = .ok p) :
    p.Distinct := by
  obtain ⟨d, ⟨hm, hd⟩, rfl⟩ :=
    Assemble.distinct_listing.kept.of_build ⟨membered_initial, distinct_initial⟩ h
  constructor
  · intro g
    rw [candidates_program]
    cases he : d.groups[g]? with
    | none => exact List.nodup_nil
    | some e => exact nodup_ranked (nodup_visibleIn hm hd he)
  · exact nodup_ranked (List.nodup_range.filter _)

end Script

/-! ## Searches -/

section
variable {attempt : TemplateId → Except Path.Fault (Option Nat)} {ids : List TemplateId}
  {f : Found}

/-- What a search finds stands between the candidates that do not match and the rest. -/
theorem split_of_search (h : (search attempt ids).found = some f) :
    ∃ before, ids = before ++ f.id :: f.rest ∧
      ∀ id ∈ before, ∀ position, attempt id ≠ .ok (some position) := by
  induction ids with
  | nil => cases h
  | cons id ids ih =>
    have later : (∀ position, attempt id ≠ .ok (some position)) →
        (search attempt ids).found = some f → ∃ before, id :: ids = before ++ f.id :: f.rest ∧
          ∀ id ∈ before, ∀ position, attempt id ≠ .ok (some position) := by
      intro hn hf
      obtain ⟨before, rfl, hb⟩ := ih hf
      exact ⟨id :: before, rfl, List.forall_mem_cons.2 ⟨hn, hb⟩⟩
    unfold search at h
    split at h
    · cases h
      exact ⟨[], rfl, nofun⟩
    · rename_i ha
      exact later (by simp [ha]) h
    · rename_i ha
      exact later (by simp [ha]) h

theorem isMatch_iff {result : Except Path.Fault (Option Nat)} :
    isMatch result = true ↔ ∃ position, result = .ok (some position) := by
  unfold isMatch
  split
  · simp [Option.isSome_iff_exists]
  · simp

end

/-! ## Ties -/

namespace Program

variable {p : Program} {a b : TemplateId}

/-- The second template has a priority equal to that of the first, as a number. -/
def Ties (p : Program) (a b : TemplateId) : Prop := (p.priorityOf b == p.priorityOf a) = true

/-- The first template has the priority `+0` and the second one `-0`. -/
def ZeroOver (p : Program) (a b : TemplateId) : Prop :=
  p.priorityOf a = 0.0 ∧ p.priorityOf b = -0.0

/-- The templates of the list exist. -/
def Lists (p : Program) (ids : List TemplateId) : Prop :=
  ∀ id ∈ ids, ∃ t, p.templates[id]? = some t

theorem priorityOf_eq {t : Template} (ht : p.templates[a]? = some t) :
    p.priorityOf a = t.priority := by
  simp [priorityOf, ht]

theorem precedes_iff (ha : ∃ t, p.templates[a]? = some t) (hb : ∃ t, p.templates[b]? = some t) :
    p.Precedes a b ↔
      Decimal.orderKey (p.priorityOf b) < Decimal.orderKey (p.priorityOf a) ∨
        Decimal.orderKey (p.priorityOf a) = Decimal.orderKey (p.priorityOf b) ∧ a < b := by
  obtain ⟨t, ht⟩ := ha
  obtain ⟨u, hu⟩ := hb
  rw [priorityOf_eq ht, priorityOf_eq hu]
  constructor
  · rintro ⟨t', u', ht', hu', h⟩
    obtain rfl := Option.some.inj (ht.symm.trans ht')
    obtain rfl := Option.some.inj (hu.symm.trans hu')
    exact h
  · exact fun h => ⟨t, u, ht, hu, h⟩

/-- Of two templates that tie, one that is not preceded by the other is declared first, but for
the zeros. -/
theorem Ties.le_or_zeroOver (h : p.Ties a b) (ha : ∃ t, p.templates[a]? = some t)
    (hb : ∃ t, p.templates[b]? = some t) (hn : ¬ p.Precedes b a) : a ≤ b ∨ p.ZeroOver a b := by
  rw [precedes_iff hb ha] at hn
  rcases Decimal.eq_or_zeros_of_beq h with heq | ⟨hb, ha⟩ | ⟨hb, ha⟩
  · rw [heq] at hn
    exact .inl (Nat.le_of_not_lt fun hlt => hn (.inr ⟨rfl, hlt⟩))
  · rw [ha, hb] at hn
    exact (hn (.inl (by decide +kernel))).elim
  · exact .inr ⟨ha, hb⟩

end Program

section
variable {p : Program} {g : GroupId} {exclude : List TemplateId} {hasChildren : Bool} {s : State}
  {f : Found}

/-- The template is to be considered: it is visible in the group, or visible everywhere while no
template that is visible in the group qualifies. -/
def State.Considered (s : State) (p : Program) (g : GroupId) (exclude : List TemplateId)
    (hasChildren : Bool) (id : TemplateId) : Prop :=
  p.IsVisible g id ∨
    (∀ other, p.IsVisible g other → ¬ s.Qualifies p exclude hasChildren other) ∧ p.IsGlobal id

/-- The template is considered and qualifies, and its priority is equal to that of the one that
is found. -/
structure State.Rivals (s : State) (p : Program) (g : GroupId) (exclude : List TemplateId)
    (hasChildren : Bool) (f : Found) (id : TemplateId) : Prop where
  considered : s.Considered p g exclude hasChildren id
  qualifies : s.Qualifies p exclude hasChildren id
  ties : p.Ties f.id id

/-- The candidates after the one that is found are in order and, with it, the templates that are
considered and qualify. -/
structure State.Finds (s : State) (p : Program) (g : GroupId) (exclude : List TemplateId)
    (hasChildren : Bool) (f : Found) : Prop where
  apart : f.id ∉ f.rest
  sorted : (f.id :: f.rest).Pairwise fun a b => ¬ p.Precedes b a
  exist : ∀ id ∈ f.id :: f.rest, ∃ t, p.templates[id]? = some t
  eligible : ∀ id ∈ f.id :: f.rest, id ∉ exclude
  all : ∀ id, s.Qualifies p exclude hasChildren id →
    (s.Considered p g exclude hasChildren id ↔ id ∈ f.id :: f.rest)

/-- What is found in a list of candidates that has all templates to be considered. -/
theorem finds_of_list {ids : List TemplateId} (hnodup : ids.Nodup)
    (hsorted : ids.Pairwise fun a b => ¬ p.Precedes b a)
    (hexist : ∀ id ∈ ids, ∃ t, p.templates[id]? = some t)
    (hall : ∀ id, s.Qualifies p exclude hasChildren id →
      (s.Considered p g exclude hasChildren id ↔ id ∈ ids))
    (h : (search (s.matchTemplate p hasChildren) (eligible exclude ids)).found = some f) :
    s.Finds p g exclude hasChildren f := by
  obtain ⟨before, hsplit, hbefore⟩ := split_of_search h
  have hsub : (f.id :: f.rest).Sublist (eligible exclude ids) :=
    hsplit ▸ List.sublist_append_right _ _
  have hmem := fun id hid => mem_eligible.1 (hsub.subset (a := id) hid)
  have hids : (f.id :: f.rest).Sublist ids := hsub.trans List.filter_sublist
  refine ⟨(List.nodup_cons.1 (hnodup.sublist hids)).1, hsorted.sublist hids,
    fun id hid => hexist id (hmem id hid).1, fun id hid => (hmem id hid).2, fun id hq => ?_⟩
  rw [hall id hq]
  refine ⟨fun hid => ?_, fun hid => (hmem id hid).1⟩
  have hin : id ∈ before ++ f.id :: f.rest := hsplit ▸ mem_eligible.2 ⟨hid, hq.1⟩
  obtain ⟨position, hmatch⟩ := hq.2
  exact (List.mem_append.1 hin).resolve_left fun hb => hbefore id hb position hmatch

/-- It does not matter whether a template of the group or a global one is found. -/
theorem finds_of_found (hr : p.Ranked) (hd : p.Distinct)
    (hf : (s.searchTemplates p g exclude hasChildren).found = some f) :
    s.Finds p g exclude hasChildren f := by
  have hfound : (s.searchTemplates p g exclude hasChildren).found =
      (search (s.matchTemplate p hasChildren) (eligible exclude (p.group g).candidates)).found.or
        (search (s.matchTemplate p hasChildren) (eligible exclude p.globals)).found :=
    found_searchBoth _ _
  rw [hfound] at hf
  cases hown : (search (s.matchTemplate p hasChildren)
      (eligible exclude (p.group g).candidates)).found with
  | some f' =>
    rw [hown] at hf
    cases hf
    have hbest := (isBest_of_search (hr.visible g) (hr.sorted g) hown f.id).2 rfl
    refine finds_of_list (hd.candidates g) (hr.sorted g) (fun id hid => ?_) (fun id hq => ?_) hown
    · obtain ⟨t, ht, -⟩ := (hr.visible g id).1 hid
      exact ⟨t, ht⟩
    · rw [hr.visible]
      exact ⟨fun h => h.resolve_right fun hn => hn.1 _ hbest.member hbest.qualifies, .inl⟩
  | none =>
    rw [hown, Option.none_or] at hf
    have hn := not_qualifies_of_search (hr.visible g) hown
    refine finds_of_list hd.globals hr.globalSorted (fun id hid => ?_) (fun id hq => ?_) hf
    · obtain ⟨t, ht, -⟩ := (hr.everywhere id).1 hid
      exact ⟨t, ht⟩
    · rw [hr.everywhere]
      exact ⟨fun h => (h.resolve_left fun hv => hn id hv hq).2, fun h => .inr ⟨hn, h⟩⟩

namespace State.Finds

variable {id : TemplateId}

/-- A template that ties with the one that is found is declared later, but for the zeros. -/
theorem lt_or_zeroOver (h : s.Finds p g exclude hasChildren f) (hid : id ∈ f.rest)
    (ht : p.Ties f.id id) : f.id < id ∨ p.ZeroOver f.id id := by
  have hn : ¬ p.Precedes id f.id := List.rel_of_pairwise_cons h.sorted hid
  rcases ht.le_or_zeroOver (h.exist _ List.mem_cons_self)
    (h.exist _ (List.mem_cons_of_mem _ hid)) hn with hle | hz
  · exact .inl (Nat.lt_of_le_of_ne hle fun heq => h.apart (heq ▸ hid))
  · exact .inr hz

theorem mem_rest (h : s.Finds p g exclude hasChildren f)
    (hr : s.Rivals p g exclude hasChildren f id) (hne : id ≠ f.id) : id ∈ f.rest :=
  (List.mem_cons.1 ((h.all id hr.qualifies).1 hr.considered)).resolve_left hne

theorem rivals (h : s.Finds p g exclude hasChildren f)
    (hr : rival? p (s.matchTemplate p hasChildren) f = some id) :
    s.Rivals p g exclude hasChildren f id ∧ id ∈ f.rest := by
  have hin := List.mem_of_find?_eq_some hr
  have hid : id ∈ f.rest := List.takeWhile_subset _ hin
  have hmatch := List.find?_some hr
  have hties := List.mem_takeWhile_imp hin
  have hq : s.Qualifies p exclude hasChildren id :=
    ⟨h.eligible id (List.mem_cons_of_mem _ hid), isMatch_iff.1 hmatch⟩
  exact ⟨⟨(h.all id hq).2 (List.mem_cons_of_mem _ hid), hq, hties⟩, hid⟩

/-- The candidates up to one that ties all tie, so the search for a rival comes to it. -/
theorem rival_isSome (h : s.Finds p g exclude hasChildren f)
    (hr : s.Rivals p g exclude hasChildren f id) (hne : id ≠ f.id) :
    (rival? p (s.matchTemplate p hasChildren) f).isSome := by
  obtain ⟨mid, post, hsplit⟩ := List.append_of_mem (h.mem_rest hr hne)
  have hsorted := h.sorted
  have hexist := h.exist
  rw [hsplit] at hsorted hexist
  have hid : id ∈ f.id :: (mid ++ id :: post) := by simp
  have htie : ∀ c ∈ mid ++ [id], (p.priorityOf c == p.priorityOf f.id) = true := by
    intro c hc
    rcases List.mem_append.1 hc with hmid | hlast
    · obtain ⟨hfirst, hrest⟩ := List.pairwise_cons.1 hsorted
      have hc : c ∈ f.id :: (mid ++ id :: post) := by simp [hmid]
      have hcf := hfirst c (List.mem_append_left _ hmid)
      have hidc := (List.pairwise_append.1 hrest).2.2 c hmid id List.mem_cons_self
      rw [Program.precedes_iff (hexist c hc) (hexist f.id List.mem_cons_self)] at hcf
      rw [Program.precedes_iff (hexist id hid) (hexist c hc)] at hidc
      exact Decimal.beq_of_orderKey_between hr.ties
        (Int.not_lt.1 fun hlt => hidc (.inl hlt)) (Int.not_lt.1 fun hlt => hcf (.inl hlt))
    · obtain rfl := List.mem_singleton.1 hlast
      exact hr.ties
  rw [rival?, hsplit, List.append_cons, List.takeWhile_append_of_pos htie, List.find?_isSome]
  exact ⟨id, by simp, isMatch_iff.2 hr.qualifies.2⟩

end State.Finds

end

/-! ## Warnings -/

namespace Operation

variable {env : Environment} {hasChildren : Bool} {s : State}

/-- What is reported of a template that is found and its rival. -/
def rivalry (env : Environment) (f : Found) (r : TemplateId) : Diagnostic :=
  diagnosticAt env .warning
    (.ambiguous (env.program.priorityOf f.id) (env.program.sourceOf f.id)
      (env.program.sourceOf r))
    (env.program.bodyOf r)

/-- What is warned of meanwhile is the rival of what is found, if there is one. -/
def Warns (env : Environment) (hasChildren : Bool) (found : Option Found) (s s' : State) : Prop :=
  ∃ new, s'.record = new ++ s.record ∧ ∀ d, d.severity = .warning →
    ((∃ answer, .reported d answer ∈ new) ↔
      ∃ f r, found = some f ∧
        rival? env.program (s.matchTemplate env.program hasChildren) f = some r ∧
        d = rivalry env f r)

theorem warns_refl {found : Option Found} (h : ∀ f, found = some f →
    rival? env.program (s.matchTemplate env.program hasChildren) f = none) :
    Warns env hasChildren found s s := by
  refine ⟨[], rfl, fun d _ => ⟨nofun, ?_⟩⟩
  rintro ⟨f, r, hf, hr, -⟩
  rw [h f hf] at hr
  cases hr

/-- Reports of errors are not warnings. -/
theorem Warns.reported {found : Option Found} {s' : State} (h : Warns env hasChildren found s s')
    (fault : Fault) (node : Option NodeId) :
    Warns env hasChildren found s (reported env .error fault node s') := by
  obtain ⟨new, hnew, hwarns⟩ := h
  refine ⟨.reported _ _ :: new, congrArg (List.cons _) hnew, fun d hd => ?_⟩
  have hne : d ≠ diagnosticAt env .error fault node := by
    rintro rfl
    cases hd
  simp only [List.mem_cons, Happening.reported.injEq, hne, false_and, false_or]
  exact hwarns d hd

theorem warns_warnOfRival (env : Environment) (hasChildren : Bool) (f : Found) (s : State) :
    (warnOfRival env hasChildren f).Ensures s
      (fun _ s' => Warns env hasChildren (some f) s s')
      fun _ s' => Warns env hasChildren (some f) s s' := by
  rw [warnOfRival, ensures_bind, ensures_get]
  split
  · rename_i r hr
    have hwarns : Warns env hasChildren (some f) s (Operation.reported env .warning _ _ s) :=
      ⟨[.reported (rivalry env f r) _], rfl, fun d _ => by simp [hr]⟩
    rw [ensures_report]
    split <;> exact hwarns
  · rename_i hr
    refine warns_refl fun f' hf => ?_
    cases hf
    exact hr

/-- A selection warns of the rival of what it finds, and of nothing else. -/
theorem warns_selectTemplate (env : Environment) (g : GroupId) (exclude : List TemplateId)
    (hasChildren : Bool) (s : State) :
    let found := (s.searchTemplates env.program g exclude hasChildren).found
    (selectTemplate env g exclude hasChildren).Ensures s
      (fun _ s' => Warns env hasChildren found s s')
      fun _ s' => Warns env hasChildren found s s' := by
  intro found
  have last : Preserves (Warns env hasChildren found s) (do
      (s.searchTemplates env.program g exclude hasChildren).faults.forM fun p =>
        report env .error (.evaluation p.2) (env.program.bodyOf p.1)
      pure found) :=
    keeps_bind (keeps_forM (fun _ => preserves_report fun _ h => h.reported _ _) _) fun _ =>
      keeps_pure _
  rw [selectTemplate, ensures_bind, ensures_get]
  dsimp only
  split
  · rename_i f hf
    rw [ensures_bind]
    have hwarned := warns_warnOfRival env hasChildren f s
    rw [← hf] at hwarned
    exact hwarned.mono (fun _ s' h => last s' h) fun _ _ h => h
  · rename_i hf
    exact last s (warns_refl fun f h => by cases hf.symm.trans h)

end Operation

/-- How a program settles ties. -/
structure SettlesTies (env : Environment) : Prop where
  /-- A selection takes what the search finds, and warns of its rival and of nothing else. -/
  selects : ∀ g exclude hasChildren (s : State),
    let found := (s.searchTemplates env.program g exclude hasChildren).found
    (Operation.selectTemplate env g exclude hasChildren).Ensures s
      (fun selected s' => selected = found ∧ Operation.Warns env hasChildren found s s')
      fun _ s' => Operation.Warns env hasChildren found s s'
  /-- No template that is considered, qualifies and has an equal priority is declared before the
  one that is taken, except that `+0` is taken before `-0`. -/
  earliest : ∀ g exclude hasChildren (s : State) (f : Found) id,
    (s.searchTemplates env.program g exclude hasChildren).found = some f →
    s.Rivals env.program g exclude hasChildren f id → f.id ≤ id ∨ env.program.ZeroOver f.id id
  /-- The rival is declared after the one that is taken, with the same exception. -/
  later : ∀ g exclude hasChildren (s : State) (f : Found) r,
    (s.searchTemplates env.program g exclude hasChildren).found = some f →
    rival? env.program (s.matchTemplate env.program hasChildren) f = some r →
    s.Rivals env.program g exclude hasChildren f r ∧
      (f.id < r ∨ env.program.ZeroOver f.id r)
  /-- Where templates tie there is a rival. -/
  noticed : ∀ g exclude hasChildren (s : State) (f : Found) id,
    (s.searchTemplates env.program g exclude hasChildren).found = some f →
    s.Rivals env.program g exclude hasChildren f id → id ≠ f.id →
    (rival? env.program (s.matchTemplate env.program hasChildren) f).isSome

/-- In a program that is built, the template declared first wins a tie, and the other one is
warned of, unless their priorities are the two zeros. -/
theorem settles_ties {ds : List Script.Declaration} {env : Environment}
    (h : Script.build ds = .ok env.program) : SettlesTies env := by
  have finds : ∀ {g exclude hasChildren} {s : State} {f : Found},
      (s.searchTemplates env.program g exclude hasChildren).found = some f →
      s.Finds env.program g exclude hasChildren f :=
    finds_of_found (Script.ranked_of_build h) (Script.distinct_of_build h)
  constructor
  case selects =>
    intro g exclude hasChildren s
    exact ((Operation.ensures_selectTemplate env g exclude hasChildren s).both
      (Operation.warns_selectTemplate env g exclude hasChildren s)).mono (fun _ _ h => h)
      fun _ _ h => h.2
  case earliest =>
    intro g exclude hasChildren s f id hf hr
    by_cases hid : id = f.id
    · exact .inl (Nat.le_of_eq hid.symm)
    · exact ((finds hf).lt_or_zeroOver ((finds hf).mem_rest hr hid) hr.ties).imp_left Nat.le_of_lt
  case later =>
    intro g exclude hasChildren s f r hf hr
    obtain ⟨hrivals, hrest⟩ := (finds hf).rivals hr
    exact ⟨hrivals, (finds hf).lt_or_zeroOver hrest hrivals.ties⟩
  case noticed =>
    intro g exclude hasChildren s f id hf hr hne
    exact (finds hf).rival_isSome hr hne

/-- Two templates for the same elements, whose priorities are the two zeros. -/
def tiedScript : List Script.Declaration :=
  [.template "item" { priority := some (-0.0) } [.text "first"],
    .template "item" { priority := some 0.0 } [.text "second"]]

def tied : Environment := ⟨(Script.draft tiedScript).program, {}, .plain fun _ => none⟩

theorem build_tied : Script.build tiedScript = .ok tied.program :=
  Script.build_of_draft (by decide +kernel)

/-- The list of the group has the one declared later first. -/
theorem candidates_tied : (tied.program.group 0).candidates = [1, 0] := by
  let d := Script.draft tiedScript
  have hvisible : (d.groups[0]?.map fun e => Script.visibleIn d.templates
      (d.groups.map Script.GroupDraft.group) e.group) = some [0, 1] := by decide +kernel
  have hprecedes : Script.precedes d.templates 0 1 = false := by decide +kernel
  obtain ⟨e, he, hids⟩ := Option.map_eq_some_iff.1 hvisible
  have hcandidates := @Script.candidates_program d 0
  rw [he, Option.map_some, Option.getD_some, hids] at hcandidates
  refine hcandidates.trans ?_
  simp [Script.ranked, List.mergeSort, List.MergeSort.Internal.splitInTwo, hprecedes]

/-- The one declared later is taken, and the other one is its rival. -/
theorem settles_ties_tied : SettlesTies tied ∧
    (atItem.searchTemplates tied.program 0 [] true).found.map
      (fun f => (f.id, rival? tied.program (atItem.matchTemplate tied.program true) f)) =
        some (1, some 0) := by
  refine ⟨settles_ties build_tied, ?_⟩
  rw [State.searchTemplates, candidates_tied]
  decide +kernel

end StreamTransform
