import ModelIR.Xml.Lexer

/-!
# Lexemes of a text

`Lexed` says of a list of lexemes, place by place, that it is what a text is taken apart into: the
lexeme is the first of what is left. A text without a document type, in which nothing is put in, is
taken apart into lexemes that are lexed and written to it (`lex_spell`). For any text the lexemes
are at least linked: what stands behind one of them begins as the next does, unless the value of an
entity or a document type stands between (`linked_of_lex`).
-/

namespace ModelIR.Xml

variable {mode mode' : Mode} {lexeme : Lexeme} {ls : List Lexeme} {c : Char} {s rest : List Char}
  {version : Version}

/-- The text that lexemes are written to. -/
def spell (ls : List Lexeme) : List Char :=
  ls.flatMap Lexeme.write

theorem spell_nil : spell [] = [] :=
  rfl

theorem spell_cons (lexeme : Lexeme) (ls : List Lexeme) :
    spell (lexeme :: ls) = lexeme.write ++ spell ls :=
  List.flatMap_cons

theorem spell_append (l₁ l₂ : List Lexeme) : spell (l₁ ++ l₂) = spell l₁ ++ spell l₂ :=
  List.flatMap_append

theorem spell_chars (s : List Char) : spell (s.map .char) = s := by
  induction s with
  | nil => rfl
  | cons c s ih => rw [List.map_cons, spell_cons, ih]; rfl

/-- The lexeme that a text begins with. -/
def firstLexeme? (mode : Mode) : List Char → Option (Lexeme × Mode × List Char)
  | [] => none
  | c :: s => nextLexeme? mode c s

/-- Lexemes that a text is taken apart into, beginning in a mode. -/
def Lexed (mode : Mode) : List Lexeme → Prop
  | [] => mode = .plain .content
  | lexeme :: ls => ∃ mode',
    firstLexeme? mode (spell (lexeme :: ls)) = some (lexeme, mode', spell ls) ∧ Lexed mode' ls

theorem Lexed.cons (h : Lexed mode' ls)
    (hfirst : firstLexeme? mode (spell (lexeme :: ls)) = some (lexeme, mode', spell ls)) :
    Lexed mode (lexeme :: ls) :=
  ⟨mode', hfirst, h⟩

/-- What is behind some of the lexemes is lexed in some mode. -/
theorem Lexed.of_append : ∀ {l₁ l₂ : List Lexeme} {mode : Mode}, Lexed mode (l₁ ++ l₂) →
    ∃ mode', Lexed mode' l₂
  | [], _, mode, h => ⟨mode, h⟩
  | _ :: _, _, _, ⟨_, _, h⟩ => h.of_append

/-! ## Nothing is put in -/

namespace Lexer

variable {l l' : Lexer}

theorem inserted_nil (place : Place) (lexeme : Lexeme) : place.inserted [] lexeme = [] := by
  rw [Place.inserted.eq_def]
  split
  · split
    · rfl
    · rw [Glossary.entity?]
      split <;> rfl
  · rfl

theorem inserted_of_ne {entities : Glossary} {place : Place} (h : lexeme ≠ .referenceEnd) :
    place.inserted entities lexeme = [] := by
  rw [Place.inserted.eq_def]
  split
  · exact absurd rfl h
  · rfl

theorem isDoctype_next {place : Place} (h : place.isDoctype = false)
    (hne : lexeme ≠ .doctypeStart) : (place.next lexeme).isDoctype = false := by
  cases place with
  | text => cases lexeme <;> first | rfl | exact absurd rfl hne
  | reference _ => cases lexeme <;> rfl
  | tag => cases lexeme <;> rfl
  | value quote =>
    rw [Place.next]
    split <;> rfl
  | instruction =>
    rw [Place.next]
    split <;> rfl
  | doctype _ => exact h

theorem behind_text (text : List Char) (lexeme : Lexeme) (rest : List Char) :
    ({ text } : Input).behind lexeme rest = { text := rest } := by
  have hpos := List.length_pos_iff.2 (write_ne_nil lexeme)
  simp [Input.behind, Nat.not_le.2 hpos]

/-- Outside of document types, a lexeme leads to the place behind it, and the value of an entity is
put in. -/
theorem advance?_eq (h : l.place.isDoctype = false) (lexeme : Lexeme) (mode : Mode)
    (rest : List Char) : l.advance? version lexeme mode rest =
      ((l.input.behind lexeme rest).insert? (l.place.inserted l.entities lexeme)).map
        fun input => { input, mode, place := l.place.next lexeme, entities := l.entities } := by
  rw [advance?]
  split
  · next state hplace => simp [hplace, Place.isDoctype] at h
  · rcases Input.insert? _ _ with _ | input <;> rfl

theorem advance?_text {place : Place} (hplace : place.isDoctype = false) (text : List Char)
    (lexeme : Lexeme) (mode mode' : Mode) (rest : List Char) :
    advance? version { input := { text }, mode, place } lexeme mode' rest =
      some { input := { text := rest }, mode := mode', place := place.next lexeme } := by
  refine (advance?_eq hplace lexeme mode' rest).trans ?_
  simp only [inserted_nil, behind_text, Input.insert?, if_true, Option.map_some]

theorem next?_eq {place : Place} (hplace : place.isDoctype = false)
    (hfirst : firstLexeme? mode (spell (lexeme :: ls)) = some (lexeme, mode', spell ls)) :
    next? version { input := { text := spell (lexeme :: ls) }, mode, place } =
      some (lexeme,
        { input := { text := spell ls }, mode := mode', place := place.next lexeme }) := by
  rw [next?]
  split
  · next htext =>
    simp only at htext
    rw [htext] at hfirst
    simp [firstLexeme?] at hfirst
  · next c s htext =>
    simp only at htext
    rw [htext] at hfirst
    have hnext : nextLexeme? mode c s = some (lexeme, mode', spell ls) := hfirst
    simp only [hnext, Option.bind_eq_bind, Option.bind_some, advance?_text hplace, Option.pure_def]

theorem kept_eq {l : Lexer} (hplace : l.place.isDoctype = false) (lexeme : Lexeme) :
    l.kept lexeme = [lexeme] := by
  rw [kept, hplace]
  rfl

theorem lexOnto_spell : ∀ {ls : List Lexeme} {mode : Mode} {place : Place} (reversed : List Lexeme),
    Lexed mode ls → .doctypeStart ∉ ls → place.isDoctype = false →
      lexOnto version reversed { input := { text := spell ls }, mode, place } =
        some (reversed.reverse ++ ls, [])
  | [], mode, place, reversed, h, _, hplace => by
    obtain rfl : mode = .plain .content := h
    have hnext : next? version { input := { text := spell [] }, place } = none := rfl
    rw [lexOnto]
    split
    · next found =>
      rw [hnext] at found
      simp at found
    · simp [atEnd, spell_nil, hplace]
  | lexeme :: ls, mode, place, reversed, ⟨mode', hfirst, hrest⟩, hdoctype, hplace => by
    rw [List.mem_cons, not_or] at hdoctype
    have hplace' := isDoctype_next hplace (Ne.symm hdoctype.1)
    have ih := lexOnto_spell (lexeme :: reversed) hrest hdoctype.2 hplace'
    have hnext : next? version { input := { text := spell (lexeme :: ls) }, mode, place } = _ :=
      next?_eq hplace hfirst
    rw [lexOnto]
    split
    · next found =>
      rw [hnext] at found
      obtain ⟨rfl, rfl⟩ := Prod.mk.inj (Option.some.inj found)
      rw [kept_eq hplace, List.singleton_append, ih, List.reverse_cons, List.append_assoc]
      rfl
    · next found =>
      rw [hnext] at found
      simp at found

end Lexer

/-- A text that is written with lexemes is taken apart into them. -/
theorem lex_spell (h : Lexed (.plain .content) ls) (hdoctype : .doctypeStart ∉ ls) :
    lex version (spell ls) = some (ls, []) :=
  Lexer.lexOnto_spell [] h hdoctype rfl

/-! ## Any text -/

/-- Lexemes that are read one after the other, beginning in a mode. Behind each, the text goes on as
the next lexeme does, unless the value of an entity or a document type stands between. -/
inductive Linked : Mode → List Lexeme → Prop
  | nil {mode : Mode} : Linked mode []
  | cons {mode mode' behind : Mode} {lexeme : Lexeme} {ls : List Lexeme} {s : List Char}
    (hfirst : firstLexeme? mode (lexeme.write ++ s) = some (lexeme, mode', s))
    (hmode : lexeme ≠ .doctypeStart → behind = mode')
    (hhead : lexeme ≠ .doctypeStart → lexeme ≠ .referenceEnd → (spell ls).head? = s.head?)
    (h : Linked behind ls) : Linked mode (lexeme :: ls)

theorem head?_spell_cons (lexeme : Lexeme) (ls : List Lexeme) (s : List Char) :
    (spell (lexeme :: ls)).head? = (lexeme.write ++ s).head? := by
  obtain ⟨c, write, hwrite⟩ := List.exists_cons_of_ne_nil (write_ne_nil lexeme)
  rw [spell_cons, hwrite]
  rfl

theorem exists_linked_of_lexOnto {version : Version} {reversed : List Lexeme} {l : Lexer}
    {entities : Glossary} (h : l.lexOnto version reversed = some (ls, entities)) :
    ∃ ls' mode, ls = reversed.reverse ++ ls' ∧ Linked mode ls' ∧ (l.place.isDoctype = false →
      mode = l.mode ∧ (spell ls').head? = l.input.text.head?) := by
  fun_induction Lexer.lexOnto version reversed l with
  | case1 reversed l lexeme l' hnext ih =>
    obtain ⟨ls', mode, hls, hlinked, hplace'⟩ := ih h
    by_cases hplace : l.place.isDoctype = true
    · rw [Lexer.kept, if_pos hplace, List.nil_append] at hls
      exact ⟨ls', mode, hls, hlinked, fun hnot => absurd hplace (hnot ▸ Bool.false_ne_true)⟩
    · rw [Bool.not_eq_true] at hplace
      rw [Lexer.kept_eq hplace, List.singleton_append, List.reverse_cons, List.append_assoc] at hls
      obtain ⟨c, s, mode', rest, htext, hfirst, hadvance⟩ := Lexer.of_next? hnext
      rw [Lexer.advance?_eq hplace, Option.map_eq_some_iff] at hadvance
      obtain ⟨input, hinput, rfl⟩ := hadvance
      have happend := eq_append_of_nextLexeme? hfirst
      refine ⟨lexeme :: ls', l.mode, hls, ?_, fun _ => ⟨rfl, ?_⟩⟩
      · refine .cons (s := rest) (by rw [← happend]; exact hfirst) ?_ ?_ hlinked
        · exact fun hdoctype => (hplace' (Lexer.isDoctype_next hplace hdoctype)).1
        · intro hdoctype hend
          rw [Lexer.inserted_of_ne hend] at hinput
          obtain rfl := Option.some.inj hinput
          exact (hplace' (Lexer.isDoctype_next hplace hdoctype)).2
      · rw [htext, happend]
        exact head?_spell_cons lexeme ls' rest
  | case2 reversed l _ hend =>
    obtain ⟨rfl, -⟩ := Prod.mk.inj (Option.some.inj h)
    simp only [Lexer.atEnd, Bool.and_eq_true, decide_eq_true_eq] at hend
    exact ⟨[], l.mode, (List.append_nil _).symm, .nil, fun _ => ⟨rfl, by rw [hend.1.1]; rfl⟩⟩
  | case3 => simp at h

/-- The lexemes of a document are linked. -/
theorem linked_of_lex {text : List Char} {entities : Glossary}
    (h : lex version text = some (ls, entities)) : Linked (.plain .content) ls := by
  obtain ⟨ls', mode, rfl, hlinked, hplace⟩ := exists_linked_of_lexOnto h
  obtain ⟨rfl, -⟩ := hplace rfl
  exact hlinked

end ModelIR.Xml
