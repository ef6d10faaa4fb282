import StreamTransform.Path.Binding

/-!
# Text with embedded expressions

Braces enclose an expression; a doubled brace stands for itself. Inside an
expression a closing brace between quotes does not count. The expressions are
parsed in order, and the first fault of any kind ends the reading.
-/

namespace StreamTransform.Path

/-- The text of an expression up to its closing brace, and the rest after the brace. `quote` is
the open quote, if there is one. -/
def takeEmbedded (quote : Option Char) : List Char → Option (List Char × List Char)
  | [] => none
  | c :: r =>
    match quote with
    | none =>
      if c == Char.ofNat 0x7D then some ([], r)
      else
        let quote := if c == '"' || c == Char.ofNat 39 then some c else none
        (takeEmbedded quote r).map fun p => (c :: p.1, p.2)
    | some q =>
      (takeEmbedded (if c == q then none else some q) r).map fun p => (c :: p.1, p.2)

/-- A fixed part for the collected characters, which are reversed, unless there are none. -/
def flushFixed (collected : List Char) : List TemplatePart :=
  if collected.isEmpty then [] else [.fixed (String.ofList collected.reverse)]

theorem length_takeEmbedded {q : Option Char} {s e r : List Char}
    (h : takeEmbedded q s = some (e, r)) : r.length < s.length := by
  induction s generalizing q e with
  | nil => simp [takeEmbedded] at h
  | cons c s ih =>
    cases q with
    | none =>
      simp only [takeEmbedded] at h
      split at h
      · simp only [Option.some.injEq, Prod.mk.injEq] at h
        simp [← h.2]
      · obtain ⟨⟨e', r'⟩, hp, he⟩ := Option.map_eq_some_iff.1 h
        simp only [Prod.mk.injEq] at he
        have := ih (he.2 ▸ hp)
        simp only [List.length_cons]
        omega
    | some q =>
      simp only [takeEmbedded] at h
      obtain ⟨⟨e', r'⟩, hp, he⟩ := Option.map_eq_some_iff.1 h
      simp only [Prod.mk.injEq] at he
      have := ih (he.2 ▸ hp)
      simp only [List.length_cons]
      omega

/-- The parts of the rest of a text, after the characters in `collected`. -/
def templateParts (ns : Namespaces) (input : String) (collected : List Char) (s : List Char) :
    Except Fault (List TemplatePart) :=
  match s with
  | [] => .ok (flushFixed collected)
  | c :: r =>
    if c == Char.ofNat 0x7B then
      match r with
      | d :: r' =>
        if d == Char.ofNat 0x7B then templateParts ns input (c :: collected) r'
        else
          match _h : takeEmbedded none (d :: r') with
          | none => .error (.unterminatedPart input)
          | some (text, rest) => do
            let e ← parseExpr ns (String.ofList text)
            let parts ← templateParts ns input [] rest
            .ok (flushFixed collected ++ .computed e :: parts)
      | [] => .error (.unterminatedPart input)
    else if c == Char.ofNat 0x7D then
      match r with
      | d :: r' =>
        if d == Char.ofNat 0x7D then templateParts ns input (c :: collected) r'
        else .error (.unmatchedBrace input)
      | [] => .error (.unmatchedBrace input)
    else templateParts ns input (c :: collected) r
termination_by s.length
decreasing_by
  · simp only [List.length_cons]; omega
  · have := length_takeEmbedded _h
    simp only [List.length_cons] at this ⊢
    omega
  · simp only [List.length_cons]; omega
  · simp

/-- Reads a text with embedded expressions. A text without braces is fixed, and so is one whose
only part is. -/
def parseTemplate (ns : Namespaces) (input : String) : Except Fault TextTemplate := do
  if !input.toList.any (fun c => c == Char.ofNat 0x7B || c == Char.ofNat 0x7D) then
    return .fixed input
  match ← templateParts ns input [] input.toList with
  | [.fixed s] => return .fixed s
  | parts => return .parts parts

end StreamTransform.Path
