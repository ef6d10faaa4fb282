import StreamTransform.Markup.Document
import StreamTransform.Output.Recorder
import StreamTransform.Proofs.Reading

/-!
# Spelled markup

How the pieces of a rendering are read. A mark that occurs in no text before it
ends the text; quotes keep a value together inside of a tag; an escaped
character is a reference, and its text in a value is replaced again. So every
piece comes back as the token it was rendered from, whatever follows it.
-/

namespace StreamTransform

/-! ## Marks -/

namespace Text

section
variable {k key s w rest : List Char} {z : Char}

theorem splitAtFirst_nil_append : splitAtFirst key (key ++ rest) = some ([], rest) := by
  rw [splitAtFirst.eq_def, if_pos (List.isPrefixOf_iff_prefix.mpr (List.prefix_append key rest)),
    List.drop_left]

/-- No occurrence begins in a text without the first character of what is searched. -/
theorem splitAtFirst_append {c : Char} (h : c ∉ w) :
    splitAtFirst (c :: k) (w ++ s) = (splitAtFirst (c :: k) s).map fun p => (w ++ p.1, p.2) := by
  induction w with
  | nil => simp
  | cons d w ih =>
    obtain ⟨hd, hw⟩ := not_or.mp (mt List.mem_cons.mpr h)
    have hprefix : (c :: k).isPrefixOf (d :: (w ++ s)) = false := by
      simp [List.isPrefixOf, beq_false_of_ne hd]
    rw [List.cons_append, splitAtFirst, hprefix, if_neg Bool.false_ne_true, ih hw, Option.map_map]
    rfl

theorem contains_append {c : Char} (h : c ∉ w) :
    contains (c :: k) (w ++ s) = contains (c :: k) s := by
  rw [contains, splitAtFirst_append h, Option.isSome_map, contains]

/-- A mark whose last character stands nowhere else in it does not overlap with itself. -/
theorem not_prefix_before_mark (hz : z ∉ k) (hw : w ≠ []) (h : ¬ k ++ [z] <+: w)
    (rest : List Char) : ¬ k ++ [z] <+: w ++ (k ++ [z] ++ rest) := by
  intro hp
  rcases List.prefix_or_prefix_of_prefix hp (List.prefix_append w _) with hle | ⟨m, hm⟩
  · exact h hle
  · have hp : m <+: k ++ [z] ++ rest := (List.prefix_append_right_inj w).mp (hm ▸ hp)
    rcases List.eq_nil_or_concat m with rfl | ⟨m, y, rfl⟩
    · rw [List.append_nil] at hm
      exact h (hm ▸ List.prefix_refl w)
    · rw [List.concat_eq_append] at hm hp
      rw [← List.append_assoc] at hm
      obtain ⟨rfl, hy⟩ := List.append_inj' hm rfl
      obtain rfl := List.singleton_inj.mp hy
      have hshort : (m ++ [y]).length ≤ (w ++ m).length := by
        have := List.length_pos_iff.mpr hw
        simp only [List.length_append, List.length_singleton]
        omega
      rw [List.append_assoc] at hp
      have hin : m ++ [y] <+: w ++ m := List.prefix_of_prefix_length_le hp
        (List.prefix_append _ _) hshort
      exact hz (hin.subset (List.mem_append_right m List.mem_cons_self))

/-- The first occurrence of a mark after a text without it is the one behind the text. -/
theorem splitAtFirst_mark (hz : z ∉ k) (h : contains (k ++ [z]) s = false) (rest : List Char) :
    splitAtFirst (k ++ [z]) (s ++ (k ++ [z] ++ rest)) = some (s, rest) := by
  induction s with
  | nil => exact splitAtFirst_nil_append
  | cons c s ih =>
    rw [contains, splitAtFirst] at h
    split at h
    · cases h
    · rename_i hprefix
      rw [List.isPrefixOf_iff_prefix] at hprefix
      have hs : contains (k ++ [z]) s = false := by
        rw [Option.isSome_map] at h
        exact h
      have hlater := not_prefix_before_mark hz (List.cons_ne_nil c s) hprefix rest
      rw [← List.isPrefixOf_iff_prefix] at hlater
      rw [List.cons_append] at hlater ⊢
      rw [splitAtFirst, if_neg hlater, ih hs]
      rfl

end

end Text

namespace Markup

/-! ## Names -/

/-- A character that a name in markup can have: it neither ends the name nor says that something
other than a tag follows. -/
def isPlain (c : Char) : Bool :=
  !(Text.isXmlSpace c ||
    [':', '=', '<', '>', '/', '&', '"', Char.ofNat 39, '!', '?'].contains c)

/-- A name that markup spells as it is. -/
structure Plain (name : String) : Prop where
  ne_empty : name ≠ ""
  chars : ∀ c ∈ name.toList, isPlain c = true

section
variable {c : Char} {name : String}

theorem isPlain_iff : isPlain c = true ↔ Text.isXmlSpace c = false ∧
    ∀ d ∈ [':', '=', '<', '>', '/', '&', '"', Char.ofNat 39, '!', '?'], c ≠ d := by
  simp only [isPlain, Bool.not_eq_true', Bool.or_eq_false_iff, List.contains_eq_mem,
    decide_eq_false_iff_not]
  refine and_congr_right fun _ => ⟨fun h d hd he => h (he ▸ hd), fun h hc => h c hc rfl⟩

theorem isPlain_of_isNameChar (h : isNameChar c = true) : isPlain c = true := by
  refine isPlain_iff.mpr ⟨isXmlSpace_of_isNameChar h, fun d hd he => ?_⟩
  have hnone : [':', '=', '<', '>', '/', '&', '"', Char.ofNat 39, '!', '?'].any isNameChar = false :=
    by decide
  exact List.any_eq_false.mp hnone d hd (he ▸ h)

/-- Every name without a colon is one. -/
theorem plain_of_isNCName (h : isNCName name = true) : Plain name := by
  unfold isNCName at h
  split at h
  · cases h
  · rename_i c r hname
    obtain ⟨hc, hr⟩ := Bool.and_eq_true_iff.mp h
    refine ⟨fun he => ?_, fun d hd => isPlain_of_isNameChar ?_⟩
    · rw [he] at hname
      cases hname
    · rw [hname] at hd
      rcases List.mem_cons.mp hd with rfl | hd
      · exact isNameChar_of_isNameStart hc
      · exact List.all_eq_true.mp hr d hd

theorem Plain.spelled (h : Plain name) : ∃ c r, name.toList = c :: r ∧ isPlain c = true := by
  cases hname : name.toList with
  | nil => exact absurd (String.toList_eq_nil_iff.mp hname) h.ne_empty
  | cons c r => exact ⟨c, r, rfl, h.chars c (hname ▸ List.mem_cons_self)⟩

theorem Plain.not_mem (h : Plain name) {d : Char}
    (hd : d ∈ [':', '=', '<', '>', '/', '&', '"', Char.ofNat 39, '!', '?']) : d ∉ name.toList :=
  fun hc => (isPlain_iff.mp (h.chars d hc)).2 d hd rfl

theorem Plain.isXmlSpace (h : Plain name) : ∀ c ∈ name.toList, Text.isXmlSpace c = false :=
  fun c hc => (isPlain_iff.mp (h.chars c hc)).1

end

/-! ## Escaped characters -/

/-- A character between double quotes. -/
def escapeQuoted (c : Char) : List Char :=
  if c == '"' then "&quot;".toList else Output.escapeChar c

theorem toList_escape (s : String) :
    (Output.escape s).toList = s.toList.flatMap Output.escapeChar := String.toList_ofList ..

theorem toList_escapeValue (s : String) :
    (Output.escapeValue s).toList = s.toList.flatMap escapeQuoted := String.toList_ofList ..

/-- A character that may stand between the ampersand and the semicolon of a reference. -/
def isReferenceChar (c : Char) : Bool := !(['&', '<', ';', '"'].contains c)

/-- A text for a character: the character itself if it may stand bare, else a reference to it. -/
inductive Spells (bare : Char → Bool) (c : Char) : List Char → Prop
  | itself : bare c = true → Spells bare c [c]
  | reference (body : List Char) : body.all isReferenceChar = true →
      resolveReference body = .char c → Spells bare c ('&' :: (body ++ [';']))

/-- A character may stand bare between double quotes. -/
def isQuotable (c : Char) : Bool := isTextChar c && c != '"'

theorem spells_escapeChar (c : Char) : Spells isTextChar c (Output.escapeChar c) := by
  unfold Output.escapeChar
  split
  · rename_i h
    rw [beq_iff_eq.mp h]
    exact .reference "amp".toList (by decide) (by decide)
  · split
    · rename_i h
      rw [beq_iff_eq.mp h]
      exact .reference "lt".toList (by decide) (by decide)
    · split
      · rename_i h
        rw [beq_iff_eq.mp h]
        exact .reference "gt".toList (by decide) (by decide)
      · rename_i hamp hlt _
        simp only [beq_iff_eq] at hamp hlt
        exact .itself (by simp [isTextChar, hamp, hlt])

theorem spells_escapeQuoted (c : Char) : Spells isQuotable c (escapeQuoted c) := by
  unfold escapeQuoted
  split
  · rename_i h
    rw [beq_iff_eq.mp h]
    exact .reference "quot".toList (by decide) (by decide)
  · rename_i hquote
    have hspells := spells_escapeChar c
    generalize Output.escapeChar c = w at hspells
    cases hspells with
    | itself hc => exact .itself (by simpa [isQuotable, hc] using hquote)
    | reference body hbody hresolve => exact .reference body hbody hresolve

/-- A reference goes up to its semicolon. -/
theorem takeReference_append {bars : Char → Bool} {body : List Char}
    (h : body.all isReferenceChar = true)
    (hbars : ∀ d, isReferenceChar d = true → bars d = false) (rest : List Char) :
    takeReference bars (body ++ ';' :: rest) = some (body, rest) := by
  induction body with
  | nil => rfl
  | cons c body ih =>
    obtain ⟨hc, hbody⟩ := Bool.and_eq_true_iff.mp h
    have hend : c ≠ ';' := fun he => by rw [he] at hc; cases hc
    rw [List.cons_append, takeReference, ih hbody]
    simp [hend, hbars c hc]

theorem unescape?_spelled {bare : Char → Bool} {c : Char} {w : List Char}
    (hbare : bare '&' = false) (h : Spells bare c w) (rest : List Char) :
    unescape? (w ++ rest) = (unescape? rest).map (c :: ·) := by
  cases h with
  | itself hc =>
    have hamp : c ≠ '&' := fun he => by rw [he, hbare] at hc; cases hc
    rw [List.singleton_append, unescape?]
    simp [hamp]
  | reference body hbody hresolve =>
    have htake : takeReference (· == '&') (body ++ ';' :: rest) = some (body, rest) :=
      takeReference_append hbody (fun d hd => by simp_all [isReferenceChar]) rest
    rw [List.cons_append, List.append_assoc, List.singleton_append, unescape?]
    simp only [beq_self_eq_true, if_true]
    split
    · rename_i hnone
      rw [htake] at hnone
      cases hnone
    · rename_i body' rest' hsome
      rw [htake] at hsome
      obtain ⟨rfl, rfl⟩ := Prod.mk.inj (Option.some.inj hsome)
      rw [hresolve]

/-- An escaped value reads as it was. -/
theorem unescape?_escaped (v : List Char) : unescape? (v.flatMap escapeQuoted) = some v := by
  induction v with
  | nil => rw [List.flatMap_nil, unescape?]
  | cons c v ih =>
    rw [List.flatMap_cons, unescape?_spelled rfl (spells_escapeQuoted c), ih, Option.map_some]

theorem not_mem_escaped (v : List Char) : '"' ∉ v.flatMap escapeQuoted := by
  intro h
  obtain ⟨c, -, hc⟩ := List.mem_flatMap.mp h
  have hspells := spells_escapeQuoted c
  generalize escapeQuoted c = w at hc hspells
  cases hspells with
  | itself hbare =>
    rw [← List.mem_singleton.mp hc] at hbare
    exact absurd hbare (by decide)
  | reference body hbody _ =>
    rcases List.mem_cons.mp hc with he | hc
    · exact absurd he (by decide)
    · rcases List.mem_append.mp hc with hc | hc
      · exact absurd (List.all_eq_true.mp hbody _ hc) (by decide)
      · exact absurd (List.mem_singleton.mp hc) (by decide)

/-! ## Tags -/

section
variable {w w' rest : List Char} {name : String} {a : Attribute} {as : List Attribute}

/-- A part of a tag with all its quotes: no angle bracket in it ends the tag. -/
def Whole (w : List Char) : Prop :=
  ∀ rest, takeTag none (w ++ rest) = (takeTag none rest).map fun p => (w ++ p.1, p.2)

theorem Whole.nil : Whole [] := fun _ => by simp

theorem Whole.append (h : Whole w) (h' : Whole w') : Whole (w ++ w') := by
  intro rest
  rw [List.append_assoc, h, h', Option.map_map]
  simp only [Function.comp_def, List.append_assoc]

theorem Whole.cons {c : Char} (hc : c ∉ ['>', '"', Char.ofNat 39]) (h : Whole w) :
    Whole (c :: w) := by
  intro rest
  simp only [List.mem_cons, List.not_mem_nil, or_false, not_or] at hc
  obtain ⟨hend, hdouble, hsingle⟩ := hc
  rw [List.cons_append, takeTag]
  simp only [beq_false_of_ne hend, beq_false_of_ne hdouble, beq_false_of_ne hsingle, Bool.or_self,
    Bool.false_eq_true, if_false]
  rw [h, Option.map_map]
  rfl

theorem Whole.of_forall (h : ∀ c ∈ w, c ∉ ['>', '"', Char.ofNat 39]) : Whole w := by
  induction w with
  | nil => exact .nil
  | cons c w ih =>
    obtain ⟨hc, hw⟩ := List.forall_mem_cons.mp h
    exact .cons hc (ih hw)

theorem Whole.quoted (h : '"' ∉ w) : Whole ('"' :: (w ++ ['"'])) := by
  intro rest
  have hinside : takeTag (some '"') (w ++ '"' :: rest) =
      (takeTag none rest).map fun p => (w ++ '"' :: p.1, p.2) := by
    induction w with
    | nil => simp [takeTag]
    | cons c w ih =>
      obtain ⟨hc, hw⟩ := not_or.mp (mt List.mem_cons.mpr h)
      rw [List.cons_append, takeTag, beq_false_of_ne (Ne.symm hc), if_neg Bool.false_ne_true,
        ih hw, Option.map_map]
      rfl
  rw [List.cons_append, List.append_assoc, List.singleton_append, takeTag]
  simp only [beq_self_eq_true, Bool.true_or, if_true]
  rw [hinside, Option.map_map]
  simp [Function.comp_def]

/-- A tag ends at the first angle bracket outside of quotes. -/
theorem Whole.takeTag (h : Whole w) (rest : List Char) :
    takeTag none (w ++ '>' :: rest) = some (w, rest) := by
  rw [h, Markup.takeTag]
  simp

theorem Plain.whole (h : Plain name) : Whole name.toList :=
  .of_forall fun c hc hin => by
    have hnot := (isPlain_iff.mp (h.chars c hc)).2
    simp only [List.mem_cons, List.not_mem_nil, or_false] at hin
    rcases hin with rfl | rfl | rfl
    · exact hnot _ (by decide) rfl
    · exact hnot _ (by decide) rfl
    · exact hnot _ (by decide) rfl

end

/-- The name is in no namespace, and markup spells it as it is. -/
def PlainName (n : QName) : Prop := n = .simple n.localName ∧ Plain n.localName

/-- Markup spells the tag as it is: its attributes are no declarations, and no two of them have
the same name. -/
structure PlainTag (n : QName) (as : List Attribute) : Prop where
  name : PlainName n
  attributes : ∀ a ∈ as, PlainName a.name ∧ a.name.localName ≠ "xmlns"
  distinct : (as.map Attribute.name).Nodup

/-- An attribute as it is spelled. -/
def spelledAttribute (a : Attribute) : RawAttribute :=
  ⟨a.name.localName.toList, a.value.toList.flatMap escapeQuoted⟩

/-- Attributes as they stand in a tag. -/
def attributesText (attributes : List Attribute) : List Char :=
  attributes.flatMap fun a =>
    ' ' :: (a.name.localName.toList ++ '=' :: '"' :: (a.value.toList.flatMap escapeQuoted ++ ['"']))

section
variable {name : String} {n : QName} {a : Attribute} {as : List Attribute} {rest : List Char}

theorem PlainName.display (h : PlainName n) : n.display = n.localName := by
  rw [h.1]
  rfl

theorem toList_renderAttribute (h : PlainName a.name) :
    (Output.renderAttribute a).toList = attributesText [a] := by
  simp [Output.renderAttribute, attributesText, h.display, toList_escapeValue]

theorem toList_renderAttributes (h : ∀ a ∈ as, PlainName a.name) :
    (String.join (as.map Output.renderAttribute)).toList = attributesText as := by
  induction as with
  | nil => rfl
  | cons a as ih =>
    obtain ⟨ha, has⟩ := List.forall_mem_cons.mp h
    rw [List.map_cons, String.join_cons, String.toList_append, toList_renderAttribute ha, ih has]
    simp [attributesText]

theorem whole_attributesText (h : ∀ a ∈ as, PlainName a.name) : Whole (attributesText as) := by
  induction as with
  | nil => exact .nil
  | cons a as ih =>
    obtain ⟨ha, has⟩ := List.forall_mem_cons.mp h
    have hone : Whole (' ' :: (a.name.localName.toList ++
        '=' :: '"' :: (a.value.toList.flatMap escapeQuoted ++ ['"']))) :=
      .cons (by decide) (ha.2.whole.append (.cons (by decide) (.quoted (not_mem_escaped _))))
    exact hone.append (ih has)

theorem takeQuoted_append {v : List Char} (h : '"' ∉ v) :
    takeQuoted ('"' :: (v ++ '"' :: rest)) = some (v, rest) := by
  have hinside : ∀ c ∈ v, (c != '"') = true := fun c hc =>
    bne_iff_ne.mpr fun he => h (he ▸ hc)
  simp only [takeQuoted, beq_self_eq_true, Bool.true_or, if_true]
  rw [List.dropWhile_append_of_pos hinside, List.takeWhile_append_of_pos hinside]
  simp

theorem takeAttribute_append {c : Char} {k v : List Char} (hk : ∀ d ∈ k, isKeyChar d = true)
    (hv : '"' ∉ v) :
    takeAttribute c (k ++ '=' :: '"' :: (v ++ '"' :: rest)) = some (⟨c :: k, v⟩, rest) := by
  rw [takeAttribute, List.dropWhile_append_of_pos hk, List.takeWhile_append_of_pos hk]
  have hequals : skipSpace ('=' :: '"' :: (v ++ '"' :: rest)) = '=' :: '"' :: (v ++ '"' :: rest) :=
    rfl
  have hquote : skipSpace ('"' :: (v ++ '"' :: rest)) = '"' :: (v ++ '"' :: rest) := rfl
  simp [isKeyChar, hequals, hquote, takeQuoted_append hv]

theorem rawAttributes_step {s r : List Char} {c : Char} {p : RawAttribute}
    (hs : skipSpace s = c :: r) (hp : takeAttribute c r = some (p, rest)) :
    rawAttributes s = (p :: (rawAttributes rest).1, (rawAttributes rest).2) := by
  rw [rawAttributes]
  split
  · rename_i hnil
    rw [hs] at hnil
    cases hnil
  · rename_i d t hcons
    rw [hs] at hcons
    obtain ⟨rfl, rfl⟩ := List.cons.inj hcons
    split
    · rename_i hnone
      rw [hp] at hnone
      cases hnone
    · rename_i p' rest' hsome
      rw [hp] at hsome
      obtain ⟨rfl, rfl⟩ := Prod.mk.inj (Option.some.inj hsome)
      rfl

theorem rawAttributes_attributesText (h : ∀ a ∈ as, PlainName a.name) :
    rawAttributes (attributesText as) = (as.map spelledAttribute, false) := by
  induction as with
  | nil =>
    rw [rawAttributes]
    rfl
  | cons a as ih =>
    obtain ⟨ha, has⟩ := List.forall_mem_cons.mp h
    obtain ⟨c, k, hname, -⟩ := ha.2.spelled
    have hplain : ∀ d ∈ c :: k, Text.isXmlSpace d = false ∧ isKeyChar d = true := fun d hd => by
      have hd : d ∈ a.name.localName.toList := hname ▸ hd
      have hequals : d ≠ '=' := fun he => ha.2.not_mem (d := '=') (by decide) (he ▸ hd)
      exact ⟨ha.2.isXmlSpace d hd, by simp [isKeyChar, hequals, ha.2.isXmlSpace d hd]⟩
    obtain ⟨hc, hk⟩ := List.forall_mem_cons.mp hplain
    have htext : attributesText (a :: as) = ' ' :: c :: (k ++ '=' :: '"' ::
        (a.value.toList.flatMap escapeQuoted ++ '"' :: attributesText as)) := by
      simp [attributesText, hname]
    have hskip : skipSpace (attributesText (a :: as)) = c :: (k ++ '=' :: '"' ::
        (a.value.toList.flatMap escapeQuoted ++ '"' :: attributesText as)) := by
      rw [htext, skipSpace, List.dropWhile_cons_of_pos rfl,
        List.dropWhile_cons_of_neg (by simp [hc.1])]
    rw [rawAttributes_step hskip (takeAttribute_append (fun d hd => (hk d hd).2)
      (not_mem_escaped _)), ih has, List.map_cons, spelledAttribute, hname]

theorem declared?_of_plain (h : Plain name) (hx : name ≠ "xmlns") :
    declared? name.toList = none := by
  unfold declared?
  split
  · rename_i hprefix
    obtain ⟨r, hr⟩ := List.isPrefixOf_iff_prefix.mp hprefix
    have hdrop : name.toList.drop 5 = r := by rw [← hr]; rfl
    split
    · rename_i hnil
      rw [hdrop] at hnil
      rw [hnil, List.append_nil] at hr
      exact absurd (String.toList_injective hr.symm) hx
    · rename_i t hcolon
      have hin : ':' ∈ name.toList := List.mem_of_mem_drop (hcolon ▸ List.mem_cons_self)
      exact absurd hin (h.not_mem (by decide))
    · rfl
  · rfl

theorem resolve_of_plain (h : Plain name) (isElement : Bool) :
    Scope.resolve [] isElement name.toList = .simple name := by
  have hsplit : splitName name = (none, name) := by
    have hcolon := Text.splitAtFirst_append (k := []) (s := []) (h.not_mem (d := ':') (by decide))
    rw [List.append_nil] at hcolon
    simp [splitName, hcolon, Text.splitAtFirst]
  rw [Scope.resolve, String.ofList_toList, hsplit]
  cases isElement <;> rfl

theorem extend_of_plain (h : ∀ a ∈ as, PlainName a.name ∧ a.name.localName ≠ "xmlns") :
    Scope.extend [] (as.map spelledAttribute) = some [] := by
  induction as with
  | nil => rfl
  | cons a as ih =>
    obtain ⟨⟨ha, hx⟩, has⟩ := List.forall_mem_cons.mp h
    rw [List.map_cons, Scope.extend, spelledAttribute, declared?_of_plain ha.2 hx]
    exact ih has

theorem attributesIn_of_plain (h : ∀ a ∈ as, PlainName a.name ∧ a.name.localName ≠ "xmlns") :
    attributesIn [] (as.map spelledAttribute) = some as := by
  induction as with
  | nil => rfl
  | cons a as ih =>
    obtain ⟨⟨ha, hx⟩, has⟩ := List.forall_mem_cons.mp h
    rw [List.map_cons, attributesIn, spelledAttribute, declared?_of_plain ha.2 hx,
      unescape?_escaped, ih has, resolve_of_plain ha.2]
    simp [← ha.1]

theorem nodup_keys (h : PlainTag n as) :
    ((as.map spelledAttribute).map RawAttribute.key).Nodup := by
  have hdistinct := List.pairwise_map.mp h.distinct
  refine List.pairwise_map.mpr (List.pairwise_map.mpr (hdistinct.imp_of_mem ?_))
  intro a b ha hb hne hkey
  refine hne ?_
  rw [(h.attributes a ha).1.1, (h.attributes b hb).1.1]
  exact congrArg QName.simple (String.toList_injective hkey)

/-- The element that a rendered start tag opens: nothing is declared inside of it. -/
def plainOpenTag (n : QName) : OpenTag := ⟨n.localName.toList, n, []⟩

theorem readTag_of_plain (h : PlainTag n as) :
    readTag [] (n.localName.toList ++ attributesText as) = some (plainOpenTag n, as) := by
  have hblank : ∀ c ∈ n.localName.toList, (!Text.isXmlSpace c) = true := fun c hc => by
    rw [h.name.2.isXmlSpace c hc]
    rfl
  have hend : (attributesText as).takeWhile (fun c => !Text.isXmlSpace c) = [] ∧
      (attributesText as).dropWhile (fun c => !Text.isXmlSpace c) = attributesText as := by
    cases as with
    | nil => exact ⟨rfl, rfl⟩
    | cons a as => exact ⟨rfl, rfl⟩
  have hname : tagName (n.localName.toList ++ attributesText as) = n.localName.toList := by
    rw [tagName, List.takeWhile_append_of_pos hblank, hend.1, List.append_nil]
  have hrest : tagRest (n.localName.toList ++ attributesText as) = attributesText as := by
    rw [tagRest, List.dropWhile_append_of_pos hblank, hend.2]
  rw [readTag, hname, hrest, rawAttributes_attributesText fun a ha => (h.attributes a ha).1]
  simp only [extend_of_plain h.attributes, attributesIn_of_plain h.attributes,
    resolve_of_plain h.name.2, nodup_keys h, ← h.name.1]
  rfl

end

/-! ## Tokens -/

section
variable {n : QName} {as : List Attribute} {t d : List Char} {target : String} {rest : List Char}

theorem scanMarkup_of_plain {c : Char} (hc : isPlain c = true) (s : List Char) :
    scanMarkup (c :: s) = (takeTag none (c :: s)).map fun p => (openingToken p.1, p.2) := by
  have hne := (isPlain_iff.mp hc).2
  unfold scanMarkup
  split
  · rename_i heq
    exact absurd (List.cons.inj heq).1 (hne '!' (by decide))
  · rename_i heq
    exact absurd (List.cons.inj heq).1 (hne '/' (by decide))
  · rename_i heq
    exact absurd (List.cons.inj heq).1 (hne '?' (by decide))
  · rename_i heq
    exact absurd (List.cons.inj heq).1 (hne '?' (by decide))
  · rfl

/-- No slash ends a rendered start tag. -/
theorem openingToken_of_plain (h : PlainTag n as) :
    openingToken (n.localName.toList ++ attributesText as) =
      .opening (n.localName.toList ++ attributesText as) false := by
  have hlast : ∀ d ∈ (n.localName.toList ++ attributesText as).getLast?, d ≠ '/' := by
    rcases List.eq_nil_or_concat as with rfl | ⟨as, a, rfl⟩
    · intro d hd he
      rw [attributesText, List.flatMap_nil, List.append_nil] at hd
      exact h.name.2.not_mem (d := '/') (by decide) (he ▸ List.mem_of_getLast? hd)
    · have hquote : attributesText (as.concat a) = (attributesText as ++ ' ' ::
          (a.name.localName.toList ++ '=' :: '"' :: a.value.toList.flatMap escapeQuoted)) ++
            ['"'] := by
        simp [attributesText]
      intro d hd he
      rw [hquote, ← List.append_assoc, List.getLast?_concat] at hd
      rw [← Option.some.inj hd] at he
      exact absurd he (by decide)
  unfold openingToken
  split
  · rename_i hslash
    exact absurd rfl (hlast '/' (beq_iff_eq.mp hslash))
  · rfl

theorem scan_opening (h : PlainTag n as) :
    scan '<' (n.localName.toList ++ attributesText as ++ '>' :: rest) =
      some (.opening (n.localName.toList ++ attributesText as) false, rest) := by
  obtain ⟨c, r, hname, hc⟩ := h.name.2.spelled
  have hwhole : Whole (n.localName.toList ++ attributesText as) :=
    h.name.2.whole.append (whole_attributesText fun a ha => (h.attributes a ha).1)
  have htake := hwhole.takeTag rest
  have hscan : scan '<' (n.localName.toList ++ attributesText as ++ '>' :: rest) =
      (takeTag none (n.localName.toList ++ attributesText as ++ '>' :: rest)).map
        fun p => (openingToken p.1, p.2) := by
    rw [hname]
    exact scanMarkup_of_plain hc _
  rw [hscan, htake, Option.map_some, openingToken_of_plain h]

theorem scan_closing {name : String} (h : Plain name) :
    scan '<' ('/' :: (name.toList ++ '>' :: rest)) = some (.closing name.toList, rest) := by
  change (takeTag none (name.toList ++ '>' :: rest)).map (fun p => (Token.closing p.1, p.2)) = _
  rw [h.whole.takeTag rest, Option.map_some]

theorem closingName_of_plain {name : String} (h : Plain name) :
    closingName name.toList = name.toList := by
  have hsome : name.toList ≠ [] := fun he => h.ne_empty (String.toList_eq_nil_iff.mp he)
  rcases List.eq_nil_or_concat name.toList with he | ⟨r, c, he⟩
  · exact absurd he hsome
  · have hc : Text.isXmlSpace c = false := h.isXmlSpace c (by rw [he]; simp)
    simp [closingName, he, hc]

theorem scan_comment (h : Text.contains "-->".toList t = false) :
    scan '<' ('!' :: '-' :: '-' :: (t ++ '-' :: '-' :: '>' :: rest)) =
      some (.comment t, rest) := by
  have hsplit := Text.splitAtFirst_mark (k := ['-', '-']) (z := '>') (by decide) h rest
  change (Text.splitAtFirst _ _).map (fun p => (Token.comment p.1, p.2)) = _
  exact congrArg (Option.map _) hsplit

theorem scan_cdata (h : Text.contains "]]>".toList t = false) :
    scan '<' ('!' :: '[' :: 'C' :: 'D' :: 'A' :: 'T' :: 'A' :: '[' ::
      (t ++ ']' :: ']' :: '>' :: rest)) = some (.cdata t, rest) := by
  have hsplit := Text.splitAtFirst_mark (k := [']', ']']) (z := '>') (by decide) h rest
  change (Text.splitAtFirst _ _).map (fun p => (Token.cdata p.1, p.2)) = _
  exact congrArg (Option.map _) hsplit

/-- Data behind the target of a processing instruction, set off by a space. -/
def dataText (data : List Char) : List Char := if data.isEmpty then [] else ' ' :: data

theorem dataText_cases (data : List Char) :
    (data = [] ∧ dataText data = []) ∨ dataText data = ' ' :: data := by
  cases data with
  | nil => exact .inl ⟨rfl, rfl⟩
  | cons => exact .inr rfl

theorem trimStart_dataText (h : Text.trimStart d = d) : Text.trimStart (dataText d) = d := by
  rcases dataText_cases d with ⟨rfl, hnone⟩ | hsome
  · rw [hnone, h]
  · rw [hsome]
    exact h

theorem instructionToken_of_plain (h : Plain target) (hx : target ≠ "xml")
    (hd : Text.trimStart d = d) :
    instructionToken (target.toList ++ dataText d) = .instruction target.toList d := by
  have hblank : ∀ c ∈ target.toList, (!Text.isXmlSpace c) = true := fun c hc => by
    rw [h.isXmlSpace c hc]
    rfl
  have hend : (dataText d).takeWhile (fun c => !Text.isXmlSpace c) = [] := by
    rcases dataText_cases d with ⟨-, hnone⟩ | hsome
    · rw [hnone, List.takeWhile_nil]
    · rw [hsome]
      rfl
  have htarget : (target.toList ++ dataText d).takeWhile (fun c => !Text.isXmlSpace c) =
      target.toList := by
    rw [List.takeWhile_append_of_pos hblank, hend, List.append_nil]
  have hxml : (target.toList == "xml".toList) = false :=
    beq_false_of_ne fun he => hx (String.toList_injective he)
  rw [instructionToken, htarget, hxml, if_neg Bool.false_ne_true, List.drop_left,
    trimStart_dataText hd]

theorem scan_instruction (h : Plain target) (hx : target ≠ "xml")
    (hmark : Text.contains "?>".toList d = false) (hd : Text.trimStart d = d) :
    scan '<' ('?' :: (target.toList ++ dataText d ++ '?' :: '>' :: rest)) =
      some (.instruction target.toList d, rest) := by
  have hnone : Text.contains ['?', '>'] (target.toList ++ dataText d) = false := by
    rw [Text.contains_append (h.not_mem (by decide))]
    rcases dataText_cases d with ⟨-, he⟩ | he
    · rw [he]
      rfl
    · rw [he]
      exact (Text.contains_append (w := [' ']) (by decide)).trans hmark
  have hsplit : splitAtMark "?>" (target.toList ++ dataText d ++ '?' :: '>' :: rest) =
      some (target.toList ++ dataText d, rest) :=
    Text.splitAtFirst_mark (k := ['?']) (by decide) hnone rest
  obtain ⟨c, r, hname, hc⟩ := h.spelled
  have hend : c ≠ '>' := (isPlain_iff.mp hc).2 '>' (by decide)
  have hscan : scanMarkup ('?' :: (target.toList ++ dataText d ++ '?' :: '>' :: rest)) =
      (splitAtMark "?>" (target.toList ++ dataText d ++ '?' :: '>' :: rest)).map
        fun p => (instructionToken p.1, p.2) := by
    rw [hname]
    simp [scanMarkup, hend]
  change scanMarkup _ = _
  rw [hscan, hsplit, Option.map_some, instructionToken_of_plain h hx hd]

end

end Markup

end StreamTransform
