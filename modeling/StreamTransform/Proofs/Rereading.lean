import StreamTransform.Transformation
import StreamTransform.Proofs.Elements
import StreamTransform.Proofs.Identity
import StreamTransform.Proofs.Recorder
import StreamTransform.Proofs.Spelling

/-!
# Reading a rendering

The rendering of recorded output is a document again. The built-in rules copy
it, and the copy is what was rendered: texts that follow one another are one
text and empty ones are gone, for that is how a recorder holds them. Only the
marks of CDATA sections are lost, as their text is text like any other.
-/

namespace StreamTransform

namespace Output

/-- Text, a comment or a processing instruction that markup spells as it is: the mark that ends it
does not stand in it, and data do not begin with a blank. -/
def Event.Legible : Event → Prop
  | .characters _ => True
  | .comment s => Text.contains "-->".toList s.toList = false
  | .instruction t d => Markup.Plain t ∧ t ≠ "xml" ∧
      Text.contains "?>".toList d.toList = false ∧ Text.trimStart d.toList = d.toList
  | .startDocument | .endDocument | .opening .. | .closing _ | .startCdata | .endCdata => False

/-- Content of elements, well nested, that markup spells as it is. -/
inductive Legible : List Event → Prop
  | nil : Legible []
  | leaf {e : Event} {es : List Event} : e.Legible → Legible es → Legible (e :: es)
  | cdata (texts : List String) {es : List Event} :
      Text.contains "]]>".toList (String.join texts).toList = false → Legible es →
      Legible (.startCdata :: texts.map .characters ++ .endCdata :: es)
  | element {n : QName} {as : List Attribute} {content es : List Event} :
      Markup.PlainTag n as → Legible content → Legible es →
      Legible (.opening n as :: content ++ .closing n :: es)

/-- The event is a mark of a CDATA section. -/
def Event.isMark : Event → Bool
  | .startCdata | .endCdata => true
  | _ => false

/-- Events without the marks of CDATA sections. -/
def unmarked (es : List Event) : List Event := es.filter fun e => !e.isMark

theorem unmarked_cons {e : Event} (he : e.isMark = false) (es : List Event) :
    unmarked (e :: es) = e :: unmarked es := List.filter_cons_of_pos (by rw [he]; rfl)

theorem unmarked_cdata (texts : List String) (es : List Event) :
    unmarked (.startCdata :: texts.map .characters ++ .endCdata :: es) =
      texts.map .characters ++ unmarked es := by
  have htexts : (texts.map Event.characters).filter (fun e => !e.isMark) =
      texts.map Event.characters := by
    refine List.filter_eq_self.mpr fun e he => ?_
    obtain ⟨t, -, rfl⟩ := List.mem_map.mp he
    rfl
  unfold unmarked
  rw [List.cons_append, List.filter_cons_of_neg (by decide), List.filter_append, htexts,
    List.filter_cons_of_neg (by decide)]

/-- A run of texts is recorded as one. -/
theorem recorded_run (s : String) (texts : List String) (es : List Event) :
    recorded (.characters s :: (texts.map .characters ++ es)) =
      recorded (.characters (s ++ String.join texts) :: es) := by
  induction texts generalizing s with
  | nil => simp
  | cons t texts ih =>
    rw [List.map_cons, List.cons_append, recorded_characters, ih, String.join_cons,
      String.append_assoc]

/-! ## The text of a rendering -/

section
open Markup

variable {n : QName} {as : List Attribute} {es : List Event}

theorem toList_render_opening (h : PlainTag n as) :
    (render (.opening n as :: es)).toList =
      '<' :: (n.localName.toList ++ attributesText as ++ '>' :: (render es).toList) := by
  simp [render, renderFrom, renderEvent, rawAfter, h.name.display,
    toList_renderAttributes fun a ha => (h.attributes a ha).1]

theorem toList_render_closing (h : PlainName n) :
    (render (.closing n :: es)).toList =
      '<' :: '/' :: (n.localName.toList ++ '>' :: (render es).toList) := by
  simp [render, renderFrom, renderEvent, rawAfter, h.display]

theorem toList_render_characters (s : String) :
    (render (.characters s :: es)).toList =
      s.toList.flatMap escapeChar ++ (render es).toList := by
  simp [render, renderFrom, renderEvent, rawAfter, toList_escape]

theorem toList_render_comment (s : String) :
    (render (.comment s :: es)).toList =
      '<' :: '!' :: '-' :: '-' :: (s.toList ++ '-' :: '-' :: '>' :: (render es).toList) := by
  simp [render, renderFrom, renderEvent, rawAfter]

theorem toList_render_instruction (t d : String) :
    (render (.instruction t d :: es)).toList =
      '<' :: '?' :: (t.toList ++ dataText d.toList ++ '?' :: '>' :: (render es).toList) := by
  by_cases hd : d = ""
  · simp [render, renderFrom, renderEvent, rawAfter, dataText, hd]
  · simp [render, renderFrom, renderEvent, rawAfter, dataText, hd]

theorem toList_render_cdata (texts : List String) :
    (render (.startCdata :: texts.map .characters ++ .endCdata :: es)).toList =
      '<' :: '!' :: '[' :: 'C' :: 'D' :: 'A' :: 'T' :: 'A' :: '[' ::
        ((String.join texts).toList ++ ']' :: ']' :: '>' :: (render es).toList) := by
  have hraw : (renderFrom true (texts.map .characters ++ .endCdata :: es)).toList =
      (String.join texts).toList ++ ']' :: ']' :: '>' :: (render es).toList := by
    induction texts with
    | nil => simp [render, renderFrom, renderEvent, rawAfter]
    | cons t texts ih =>
      simp [renderFrom, renderEvent, rawAfter, ih, String.join_cons]
  simp [render, renderFrom, renderEvent, rawAfter, hraw]

end

end Output

namespace Markup

open Output

/-! ## Reading token by token -/

section
variable {opened opened' : List OpenTag} {c : Char} {s rest : List Char} {t : Token}
  {is : List Input}

theorem readFrom_nil (opened : List OpenTag) : readFrom opened [] = ([], none) := by
  rw [readFrom]

theorem readFrom_step (hs : scan c s = some (t, rest))
    (ht : readToken opened t = .ok (is, opened')) :
    readFrom opened (c :: s) = (is ++ (readFrom opened' rest).1, (readFrom opened' rest).2) := by
  rw [readFrom]
  split
  · rename_i hnone
    rw [hs] at hnone
    cases hnone
  · rename_i t' rest' hsome
    rw [hs] at hsome
    obtain ⟨rfl, rfl⟩ := Prod.mk.inj (Option.some.inj hsome)
    rw [ht]

/-- The one reading is the other with a text before it, which may have become part of a text that
the other begins with. -/
structure Preceded (text : String) (r r' : List Input × Option Fault) : Prop where
  copied : ∀ (c : Configuration) names t, c.copy names (.characters t :: r.1) =
    c.copy names (.characters (t ++ text) :: r'.1)
  balanced : ∀ names, Input.Balanced names r'.1 → Input.Balanced names r.1
  fault : r.2 = r'.2

theorem Preceded.empty (r : List Input × Option Fault) : Preceded "" r r where
  copied _ _ _ := by rw [String.append_empty]
  balanced _ h := h
  fault := rfl

theorem Preceded.trans {a b : String} {r r' r'' : List Input × Option Fault}
    (h : Preceded a r r') (h' : Preceded b r' r'') : Preceded (a ++ b) r r'' where
  copied c names t := by rw [h.copied, h'.copied, String.append_assoc]
  balanced names hb := h.balanced names (h'.balanced names hb)
  fault := h.fault.trans h'.fault

theorem Preceded.characters (text : String) (is : List Input) (f : Option Fault) :
    Preceded text (.characters text :: is, f) (is, f) where
  copied _ _ _ := Configuration.copy_characters _ _
  balanced _ h := h
  fault := rfl

/-- A text that is longer at its start. -/
theorem Preceded.extended (text more : String) (is : List Input) (f : Option Fault) :
    Preceded text (.characters (text ++ more) :: is, f) (.characters more :: is, f) where
  copied c names t := by
    rw [Configuration.copy_characters, Configuration.copy_characters, String.append_assoc]
  balanced _ h := h
  fault := rfl

/-- Within an element a text goes up to the next angle bracket or reference. -/
theorem readFrom_text (ho : opened ≠ []) (hc : isTextChar c = true) (s : List Char) :
    readFrom opened (c :: s) =
      (.characters (String.ofList (c :: s.takeWhile isTextChar)) ::
        (readFrom opened (s.dropWhile isTextChar)).1,
        (readFrom opened (s.dropWhile isTextChar)).2) := by
  have hscan : scan c s = some (.text (c :: s.takeWhile isTextChar), s.dropWhile isTextChar) := by
    simp only [isTextChar, Bool.and_eq_true, bne_iff_ne] at hc
    simp [scan, hc.1, hc.2]
  have htoken : readToken opened (.text (c :: s.takeWhile isTextChar)) =
      .ok ([.characters (String.ofList (c :: s.takeWhile isTextChar))], opened) := by
    simp [readToken, ho]
  exact readFrom_step hscan htoken

/-- A character that stands for itself is read as a text of its own or begins the one after it. -/
theorem preceded_bare (ho : opened ≠ []) (hc : isTextChar c = true) (s : List Char) :
    Preceded (String.singleton c) (readFrom opened (c :: s)) (readFrom opened s) := by
  rw [readFrom_text ho hc]
  have hcons : ∀ r, String.ofList (c :: r) = String.singleton c ++ String.ofList r := fun r => by
    rw [← List.singleton_append, String.ofList_append]
    rfl
  cases s with
  | nil => exact .characters _ _ _
  | cons d s =>
    cases hd : isTextChar d with
    | false =>
      rw [List.takeWhile_cons_of_neg (by simp [hd]), List.dropWhile_cons_of_neg (by simp [hd])]
      exact .characters _ _ _
    | true =>
      rw [readFrom_text ho hd, List.takeWhile_cons_of_pos hd, List.dropWhile_cons_of_pos hd, hcons]
      exact .extended _ _ _ _

theorem preceded_escaped (ho : opened ≠ []) (c : Char) (s : List Char) :
    Preceded (String.singleton c) (readFrom opened (escapeChar c ++ s)) (readFrom opened s) := by
  have hspells := spells_escapeChar c
  generalize escapeChar c = w at hspells
  cases hspells with
  | itself hc => exact preceded_bare ho hc s
  | reference body hbody hresolve =>
    have hscan : scan '&' (body ++ [';'] ++ s) = some (.reference body, s) := by
      have htake : takeReference (fun d => d == '&' || d == '<') (body ++ ';' :: s) =
          some (body, s) :=
        takeReference_append hbody (fun d hd => by simp_all [isReferenceChar]) s
      rw [List.append_assoc, List.singleton_append]
      simp [scan, htake]
    have htoken : readToken opened (.reference body) =
        .ok ([.characters (String.singleton c)], opened) := by
      simp [readToken, ho, hresolve]
    rw [List.cons_append, readFrom_step hscan htoken]
    exact .characters _ _ _

theorem preceded_flatMap (ho : opened ≠ []) (w s : List Char) :
    Preceded (String.ofList w) (readFrom opened (w.flatMap escapeChar ++ s))
      (readFrom opened s) := by
  induction w with
  | nil => exact .empty _
  | cons c w ih =>
    rw [List.flatMap_cons, List.append_assoc, ← List.singleton_append, String.ofList_append]
    exact (preceded_escaped ho c _).trans ih

end

/-! ## Reading event by event -/

/-- What reading the rendering of events gives below open elements. -/
def reading (names : List QName) (es : List Output.Event) : List Input × Option Fault :=
  readFrom (names.map plainOpenTag) (render es).toList

/-- Below open elements events are read back: after whatever text, what is read is copied as a
recorder holds the events, and it is balanced and without a fault. -/
structure Reread (c : Configuration) (names : List QName) (es : List Output.Event) : Prop where
  copied : ∀ t, c.copy names (.characters t :: (reading names es).1) =
    recorded (.characters t :: unmarked es)
  balanced : Input.Balanced names (reading names es).1
  fault : (reading names es).2 = none

namespace Reread

variable {c : Configuration} {names : List QName} {es : List Output.Event} {n : QName}
  {as : List Attribute} {s t d : String}

section
variable (hall : c.passThrough = .all) (hkeep : c.stripSpace = false)
include hall hkeep

/-- A text by itself is copied as a recorder holds it. -/
theorem copy_text (t : String) : c.copy names [.characters t] = recorded [.characters t] := by
  have hpasses : [Output.Event.characters t].filter c.passThrough.passes = [.characters t] := by
    rw [hall]
    rfl
  rw [Configuration.copy_text, recorded_text, hpasses]
  simp [Input.counts, hkeep]

/-- After a whole document there is nothing. -/
theorem nil : Reread c [] [] := by
  have hread : reading [] [] = ([], none) := readFrom_nil []
  refine ⟨fun t => ?_, by rw [hread]; rfl, by rw [hread]⟩
  rw [hread]
  exact copy_text hall hkeep t

/-- An event other than a text is spelled as one token and read as the call that it is copied
from. -/
theorem call {i : Input} {e : Output.Event} {token : Token} {text : List Char}
    (hi : i.isText = false) (he : e.isText = false) (hmark : e.isMark = false)
    (hevent : i.event? names = some e)
    (hbalanced : ∀ is, Input.Balanced (i.openAfter names) is → Input.Balanced names (i :: is))
    (hrender : (render (e :: es)).toList = '<' :: text)
    (hscan : scan '<' text = some (token, (render es).toList))
    (htoken : readToken (names.map plainOpenTag) token =
      .ok ([i], (i.openAfter names).map plainOpenTag))
    (h : Reread c (i.openAfter names) es) : Reread c names (e :: es) := by
  have hread : reading names (e :: es) =
      (i :: (reading (i.openAfter names) es).1, (reading (i.openAfter names) es).2) := by
    unfold reading
    rw [hrender, readFrom_step hscan htoken]
    rfl
  refine ⟨fun t => ?_, by rw [hread]; exact hbalanced _ h.balanced, by rw [hread]; exact h.fault⟩
  have hone : (i.event? names).toList.filter c.passThrough.passes = [e] := by
    simp [hevent, hall, PassThrough.passes]
  have hrest : c.copy (i.openAfter names) (reading (i.openAfter names) es).1 =
      recorded (unmarked es) := Configuration.copy_empty.symm.trans (h.copied "")
  rw [hread, Configuration.copy_text_before t hi, Configuration.copy_cons hi, copy_text hall hkeep,
    hone, hrest, unmarked_cons hmark, recorded_text_before he, recorded_cons he]
  rfl

theorem opening (htag : PlainTag n as) (h : Reread c (n :: names) es)
    (hscope : scopeOf (names.map plainOpenTag) = []) :
    Reread c names (.opening n as :: es) := by
  have htoken : readToken (names.map plainOpenTag)
      (.opening (n.localName.toList ++ attributesText as) false) =
        .ok ([.opening n as], (n :: names).map plainOpenTag) := by
    simp [readToken, hscope, readTag_of_plain htag, plainOpenTag]
  exact call hall hkeep (i := .opening n as) rfl rfl rfl rfl (fun _ hb => hb)
    (toList_render_opening htag) (scan_opening htag) htoken h

theorem closing (hn : PlainName n) (h : Reread c names es) :
    Reread c (n :: names) (.closing n :: es) := by
  have htoken : readToken ((n :: names).map plainOpenTag) (.closing n.localName.toList) =
      .ok ([.closing n], names.map plainOpenTag) := by
    simp [readToken, plainOpenTag, closingName_of_plain hn.2]
  have hbalanced : ∀ is, Input.Balanced names is →
      Input.Balanced (n :: names) (.closing n :: is) := fun is hb =>
    ⟨n, names, rfl, by simp [QName.same], hb⟩
  exact call hall hkeep (i := .closing n) rfl rfl rfl rfl hbalanced (toList_render_closing hn)
    (scan_closing hn.2) htoken h

theorem comment (hs : Text.contains "-->".toList s.toList = false) (h : Reread c names es) :
    Reread c names (.comment s :: es) := by
  have htoken : readToken (names.map plainOpenTag) (.comment s.toList) =
      .ok ([.comment s], names.map plainOpenTag) := by
    simp [readToken]
  exact call hall hkeep (i := .comment s) rfl rfl rfl rfl (fun _ hb => hb)
    (toList_render_comment s) (scan_comment hs) htoken h

theorem instruction (ht : Plain t) (hx : t ≠ "xml")
    (hmark : Text.contains "?>".toList d.toList = false) (hd : Text.trimStart d.toList = d.toList)
    (h : Reread c names es) : Reread c names (.instruction t d :: es) := by
  have htoken : readToken (names.map plainOpenTag) (.instruction t.toList d.toList) =
      .ok ([.instruction t d], names.map plainOpenTag) := by
    simp [readToken]
  exact call hall hkeep (i := .instruction t d) rfl rfl rfl rfl (fun _ hb => hb)
    (toList_render_instruction t d) (scan_instruction ht hx hmark hd) htoken h

end

/-- Texts are read as one, whether a text of their own or part of the one behind them. -/
theorem run (texts : List String) {es' : List Output.Event}
    (hread : Preceded (String.join texts) (reading names es') (reading names es))
    (hes : unmarked es' = texts.map .characters ++ unmarked es) (h : Reread c names es) :
    Reread c names es' := by
  refine ⟨fun t => ?_, hread.balanced _ h.balanced, hread.fault.trans h.fault⟩
  rw [hread.copied, h.copied, hes, recorded_run]

theorem characters (h : Reread c (n :: names) es) :
    Reread c (n :: names) (.characters s :: es) := by
  have hread : Preceded s (reading (n :: names) (.characters s :: es))
      (reading (n :: names) es) := by
    unfold reading
    rw [toList_render_characters]
    have hpreceded := preceded_flatMap (List.cons_ne_nil (plainOpenTag n) (names.map plainOpenTag))
      s.toList (render es).toList
    rw [String.ofList_toList] at hpreceded
    exact hpreceded
  refine run [s] ?_ (unmarked_cons rfl es) h
  rw [String.join_cons, String.join_nil, String.append_empty]
  exact hread

theorem cdata {texts : List String}
    (hmark : Text.contains "]]>".toList (String.join texts).toList = false)
    (h : Reread c (n :: names) es) :
    Reread c (n :: names) (.startCdata :: texts.map .characters ++ .endCdata :: es) := by
  have htoken : readToken ((n :: names).map plainOpenTag) (.cdata (String.join texts).toList) =
      .ok ([.characters (String.join texts)], (n :: names).map plainOpenTag) := by
    rw [readToken, String.ofList_toList]
    rfl
  refine run texts ?_ (unmarked_cdata texts es) h
  unfold reading
  rw [toList_render_cdata, readFrom_step (scan_cdata hmark) htoken]
  exact .characters _ _ _

/-- Before anything that is read back within an element, content that markup spells is too. -/
theorem legible (hall : c.passThrough = .all) (hkeep : c.stripSpace = false)
    {before : List Output.Event} (hbefore : Legible before) {rest : List Output.Event}
    (h : Reread c (n :: names) rest) : Reread c (n :: names) (before ++ rest) := by
  induction hbefore generalizing n names rest with
  | nil => exact h
  | @leaf e es he _ ih =>
    cases e with
    | characters s => exact (ih h).characters
    | comment s => exact comment hall hkeep he (ih h)
    | instruction t d =>
      obtain ⟨ht, hx, hmark, hd⟩ := he
      exact instruction hall hkeep ht hx hmark hd (ih h)
    | _ => exact he.elim
  | cdata texts hmark _ ih =>
    rw [List.append_assoc]
    exact cdata hmark (ih h)
  | element htag _ _ ihcontent ih =>
    rw [List.append_assoc]
    exact opening hall hkeep htag (ihcontent (closing hall hkeep htag.name (ih h))) rfl

end Reread

/-- A rendered element is a whole document. -/
theorem reread_element {c : Configuration} (hall : c.passThrough = .all)
    (hkeep : c.stripSpace = false) {n : QName} {as : List Attribute} {content : List Output.Event}
    (htag : PlainTag n as) (hcontent : Legible content) :
    Reread c [] (.opening n as :: content ++ [.closing n]) :=
  .opening hall hkeep htag
    (.legible hall hkeep hcontent (.closing hall hkeep htag.name (.nil hall hkeep))) rfl

/-- A document is read whole if no byte order mark stands before it. -/
theorem read_render_opening {n : QName} {as : List Attribute} (h : PlainTag n as)
    (es : List Output.Event) :
    read (render (.opening n as :: es)) = reading [] (.opening n as :: es) := by
  have hmark : withoutMark (render (.opening n as :: es)).toList =
      (render (.opening n as :: es)).toList := by
    rw [toList_render_opening h]
    rfl
  rw [read, hmark]
  rfl

end Markup

/-! ## The whole way -/

/-- Where nothing is declared a document without a fault is transformed into the copy of its
input. -/
theorem transform_copy {env : Environment} {document : String} {is : List Input} {fuel : Nat}
    (hp : env.program = Script.bareProgram)
    (ha : ∀ r e, env.surroundings.sink .main r e = none)
    (hread : Markup.read document = (is, none)) (hb : Input.Balanced [] is) (hf : 14 ≤ fuel) :
    ∃ s, (State.initial env.program).transform env fuel document = (.completed, s) ∧
      s.record.taken .main =
        .startDocument :: env.configuration.copy [] is ++ [.endDocument] := by
  obtain ⟨s, s', hinputs, hend, htaken⟩ := Due.document hp ha hf hb
  refine ⟨s', ?_, htaken⟩
  simp only [State.transform, hread, hinputs]
  exact hend

/-- The rendering of an element is a document that the built-in rules, where they copy everything,
turn back into what was rendered: between the marks of the document a recorder gets the same
events, texts in a row merged and empty ones gone. Of CDATA sections the text is left. -/
theorem renderings_read_back {env : Environment} {n : QName} {as : List Attribute}
    {content : List Output.Event} {fuel : Nat} (h : Script.build [] = .ok env.program)
    (hall : env.configuration.passThrough = .all) (hkeep : env.configuration.stripSpace = false)
    (ha : ∀ r e, env.surroundings.sink .main r e = none) (hf : 14 ≤ fuel)
    (htag : Markup.PlainTag n as) (hcontent : Output.Legible content) :
    ∃ s, (State.initial env.program).transform env fuel
        (Output.render (.opening n as :: content ++ [.closing n])) = (.completed, s) ∧
      Output.recorded (s.record.taken .main) =
        .startDocument :: Output.recorded
          (Output.unmarked (.opening n as :: content ++ [.closing n])) ++ [.endDocument] := by
  have hp : env.program = Script.bareProgram := (Except.ok.inj (Script.build_nil.symm.trans h)).symm
  have hreread := Markup.reread_element hall hkeep htag hcontent
  have hread : Markup.read (Output.render (.opening n as :: content ++ [.closing n])) =
      ((Markup.reading [] (.opening n as :: content ++ [.closing n])).1, none) := by
    rw [← hreread.fault]
    exact Markup.read_render_opening htag _
  obtain ⟨s, hrun, htaken⟩ := transform_copy hp ha hread hreread.balanced hf
  have hcopy : env.configuration.copy []
      (Markup.reading [] (.opening n as :: content ++ [.closing n])).1 =
        Output.recorded (Output.unmarked (.opening n as :: content ++ [.closing n])) :=
    Configuration.copy_empty.symm.trans (hreread.copied "")
  refine ⟨s, hrun, ?_⟩
  rw [htaken, hcopy, Output.recorded_document, Output.recorded_recorded]

/-- The built-in rules alone, with everything copied. -/
def copying : Environment := ⟨Script.bareProgram, { passThrough := .all }, .plain fun _ => none⟩

/-- Content with characters that have to be escaped, two texts in a row and an empty one. -/
def rendered : List Output.Event :=
  [.characters "1 < 2 &", .characters "& 3 > ]]>", .opening (.simple "b") [], .characters "",
    .closing (.simple "b"), .comment "a-b", .instruction "t" "? >",
    .startCdata, .characters "<&", .endCdata]

theorem legible_rendered : Output.Legible rendered := by
  have hb : Markup.PlainTag (.simple "b") [] :=
    ⟨⟨rfl, Markup.plain_of_isNCName (by decide)⟩, List.forall_mem_nil _, by decide⟩
  have hcomment : (Output.Event.comment "a-b").Legible := by
    change Text.contains _ _ = false
    decide
  have hinstruction : (Output.Event.instruction "t" "? >").Legible :=
    ⟨Markup.plain_of_isNCName (by decide), by decide, by decide, by decide⟩
  exact .leaf (e := .characters _) trivial <| .leaf (e := .characters _) trivial <|
    .element hb (.leaf (e := .characters _) trivial .nil) <|
    .leaf hcomment <| .leaf hinstruction <| .cdata ["<&"] (by decide) .nil

theorem renderings_read_back_rendered : ∃ s,
    (State.initial copying.program).transform copying 14
        ("<a x=\"&lt;&quot;&amp;\">1 &lt; 2 &amp;&amp; 3 &gt; ]]&gt;<b></b>" ++
          "<!--a-b--><?t ? >?><![CDATA[<&]]></a>") = (.completed, s) ∧
      Output.recorded (s.record.taken .main) =
        [.startDocument, .opening (.simple "a") [⟨.simple "x", "<\"&"⟩],
          .characters "1 < 2 && 3 > ]]>", .opening (.simple "b") [], .closing (.simple "b"),
          .comment "a-b", .instruction "t" "? >", .characters "<&", .closing (.simple "a"),
          .endDocument] := by
  have hname : ∀ l, isNCName l = true → Markup.PlainName (.simple l) := fun l hl =>
    ⟨rfl, Markup.plain_of_isNCName hl⟩
  have htag : Markup.PlainTag (.simple "a") [⟨.simple "x", "<\"&"⟩] :=
    ⟨hname "a" (by decide), List.forall_mem_singleton.mpr ⟨hname "x" (by decide), by decide⟩,
      by decide⟩
  have hbuilt : Script.build [] = .ok copying.program := Script.build_nil
  have haccepting : ∀ r e, copying.surroundings.sink .main r e = none := fun _ _ => rfl
  obtain ⟨s, hrun, hrecorded⟩ := renderings_read_back hbuilt rfl rfl haccepting (Nat.le_refl 14)
    htag legible_rendered
  have hdocument : Output.render (.opening (.simple "a") [⟨.simple "x", "<\"&"⟩] :: rendered ++
      [.closing (.simple "a")]) =
        "<a x=\"&lt;&quot;&amp;\">1 &lt; 2 &amp;&amp; 3 &gt; ]]&gt;<b></b>" ++
          "<!--a-b--><?t ? >?><![CDATA[<&]]></a>" := by
    decide +kernel
  rw [hdocument] at hrun
  exact ⟨s, hrun, hrecorded.trans rfl⟩

end StreamTransform
