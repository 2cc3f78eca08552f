import ModelIR.Proofs.Lexing
import ModelIR.Proofs.ReadTokens

/-!
# Tokens that are read

A token that is read holds what a token of its kind can: its names are names, its text is made of
the characters that a document of the version may hold, and the bodies of comments and instructions
do not end before their ends. Without prefixes it is plain but for its characters
(`Token.plain_of_read`).
-/

namespace ModelIR.Xml

variable {mode mode' : Mode} {region : Region} {lexeme : Lexeme} {ls rest : List Lexeme} {c : Char}
  {version : Version} {d : Dialect}

/-! ## Lexemes -/

/-- A lexeme is a mark, or a character, or the bracket of a tag. What is behind it is linked, and in
which mode is known but behind document types. -/
theorem Linked.cases (h : Linked mode (lexeme :: ls)) : ∃ behind, Linked behind ls ∧
    ((∃ mode', (lexeme, mode') ∈ mode.marks ∧ (lexeme ≠ .doctypeStart → behind = mode')) ∨
      (behind = mode ∧ ∃ c s, (spell ls).head? = s.head? ∧ firstMark? mode.marks (c :: s) = none ∧
        ((lexeme = .char c ∧ standsAlone mode c s = true) ∨
          (lexeme = .tagStart ∧ opensTag mode c s = true)))) := by
  cases h with
  | @cons _ mode' behind _ _ s hfirst hmode hhead hrest =>
    refine ⟨behind, hrest, ?_⟩
    rcases hs : lexeme.write ++ s with _ | ⟨c, s'⟩ <;> rw [hs] at hfirst
    · simp [firstLexeme?] at hfirst
    · rcases nextLexeme?_cases hfirst with ⟨hmark, -⟩ | ⟨hnone, rfl, rfl, hlexeme⟩
      · exact .inl ⟨mode', hmark, hmode⟩
      · have hne : lexeme ≠ .doctypeStart ∧ lexeme ≠ .referenceEnd := by
          rcases hlexeme with ⟨rfl, -⟩ | ⟨rfl, -⟩ <;> simp
        exact .inr ⟨hmode hne.1, c, s, hhead hne.1 hne.2, hnone,
          hlexeme.imp_right (.imp_right And.right)⟩

theorem Linked.of_append : ∀ {l₁ l₂ : List Lexeme} {mode : Mode}, Linked mode (l₁ ++ l₂) →
    ∃ mode', Linked mode' l₂
  | [], _, mode, h => ⟨mode, h⟩
  | _ :: _, _, _, .cons _ _ _ hrest => hrest.of_append

theorem Linked.of_suffix (h : Linked mode ls) (hrest : rest <:+ ls) :
    ∃ mode', Linked mode' rest := by
  obtain ⟨front, rfl⟩ := hrest
  exact h.of_append

theorem eq_quote_of_mem_quotedMarks {quote : Char} {mark : Lexeme × Mode}
    (h : mark ∈ quotedMarks quote) : mark.1 = .quote quote := by
  obtain ⟨lexeme, hlexeme, rfl⟩ := List.mem_map.1 h
  simpa using (List.mem_filter.1 hlexeme).2

theorem not_char_of_mem_marks (h : (lexeme, mode') ∈ mode.marks) : lexeme ≠ .char c := by
  rintro rfl
  rcases mode with (_ | _) | region | region | region | _ | quote
  case quoted => cases eq_quote_of_mem_quotedMarks h
  all_goals simp [Mode.marks, contentMarks, doctypeMarks, plainMarks, instructionMarks,
    declarationMarks] at h

theorem Linked.char (h : Linked mode (.char c :: ls)) : Linked mode ls ∧
    ∃ s, (spell ls).head? = s.head? ∧ firstMark? mode.marks (c :: s) = none := by
  obtain ⟨behind, hrest, ⟨mode', hmark, -⟩ | ⟨rfl, d, s, hhead, hnone, ⟨hchar, -⟩ | ⟨htag, -⟩⟩⟩ :=
    h.cases
  · exact absurd rfl (not_char_of_mem_marks hmark)
  · obtain rfl := Lexeme.char.inj hchar
    exact ⟨hrest, s, hhead, hnone⟩
  · simp at htag

theorem Linked.chars_tail : ∀ {s : List Char}, Linked mode (s.map .char ++ ls) → Linked mode ls
  | [], h => h
  | _ :: _, h => Linked.chars_tail h.char.1

/-- Lexemes that are marks are written with characters that any document may hold. -/
def ProperMarks (version : Version) (ls : List Lexeme) : Prop :=
  ∀ lexeme ∈ ls, (∃ c, lexeme = .char c) ∨ lexeme.write.all version.allows = true

theorem allows_of_mem_marks (version : Version) (h : (lexeme, mode') ∈ mode.marks) :
    lexeme.write.all version.allows = true := by
  have hmarks : ∀ mark ∈ mode.marks, mark.1.write.all version.allows = true := by
    rcases mode with (_ | _) | (_ | _) | (_ | _) | (_ | _) | _ | quote
    case quoted =>
      intro mark hmark
      obtain ⟨lexeme, hlexeme, rfl⟩ := List.mem_map.1 hmark
      have hquotes : ∀ lexeme ∈ [Lexeme.quote '"', .quote '\''],
          lexeme.write.all version.allows = true := by
        cases version <;> decide
      exact hquotes lexeme (List.mem_filter.1 hlexeme).1
    all_goals cases version <;> decide
  exact hmarks _ h

theorem Linked.properMarks (version : Version) : ∀ {ls : List Lexeme} {mode : Mode},
    Linked mode ls → ProperMarks version ls
  | [], _, _ => nofun
  | lexeme :: ls, mode, h => by
    obtain ⟨behind, hrest, hlexeme⟩ := h.cases
    refine List.forall_mem_cons.2 ⟨?_, Linked.properMarks version hrest⟩
    rcases hlexeme with ⟨mode', hmark, -⟩ | ⟨-, c, -, -, -, ⟨hchar, -⟩ | ⟨rfl, -⟩⟩
    · exact .inr (allows_of_mem_marks version hmark)
    · exact .inl ⟨c, hchar⟩
    · exact .inr (by cases version <;> decide)

theorem ProperMarks.of_suffix (h : ProperMarks version ls) (hrest : rest <:+ ls) :
    ProperMarks version rest :=
  fun lexeme hmem => h lexeme (hrest.subset hmem)

/-! ## Bodies -/

theorem eq_of_cutAt?_singleton {α : Type} [DecidableEq α] {m : α} :
    ∀ {l body rest : List α}, cutAt? [m] l = some (body, rest) →
      l = body ++ m :: rest ∧ ∀ a ∈ body, a ≠ m
  | [], _, _, h => by simp [cutAt?] at h
  | a :: l, body, rest, h => by
    rw [cutAt?] at h
    by_cases hm : m = a
    · simp only [hm, after?, if_true, Option.some.injEq, Prod.mk.injEq] at h
      obtain ⟨rfl, rfl⟩ := h
      exact ⟨by rw [hm, List.nil_append], List.forall_mem_nil _⟩
    · simp only [after?, if_neg hm, Option.map_eq_some_iff, Prod.mk.injEq, Prod.exists] at h
      obtain ⟨body, rest, h, rfl, rfl⟩ := h
      obtain ⟨rfl, hbody⟩ := eq_of_cutAt?_singleton h
      exact ⟨rfl, List.forall_mem_cons.2 ⟨Ne.symm hm, hbody⟩⟩

/-- Behind a mark that only begins one sort of body, such a body is open, in some region. -/
theorem Linked.body_tail {body : Region → Mode} (h : Linked mode (lexeme :: ls))
    (hdoctype : lexeme ≠ .doctypeStart) (hchar : ∀ c, lexeme ≠ .char c) (htag : lexeme ≠ .tagStart)
    (hmarks : ∀ mark ∈ mode.marks, mark.1 = lexeme →
      mark.2 = body .content ∨ mark.2 = body .doctype) : ∃ region, Linked (body region) ls := by
  obtain ⟨behind, hrest, ⟨mode', hmark, hmode⟩ | ⟨-, c, -, -, -, ⟨rfl, -⟩ | ⟨rfl, -⟩⟩⟩ := h.cases
  · obtain rfl := hmode hdoctype
    obtain rfl | rfl : behind = _ ∨ behind = _ := hmarks _ hmark rfl
    · exact ⟨_, hrest⟩
    · exact ⟨_, hrest⟩
  · exact absurd rfl (hchar c)
  · exact absurd rfl htag

theorem Linked.comment_tail (h : Linked mode (.commentStart :: ls)) :
    ∃ region, Linked (.comment region) ls := by
  refine h.body_tail nofun nofun nofun ?_
  rcases mode with (_ | _) | (_ | _) | (_ | _) | (_ | _) | _ | quote
  case quoted =>
    intro mark hmark heq
    cases (eq_quote_of_mem_quotedMarks hmark).symm.trans heq
  all_goals decide

theorem Linked.instruction_tail (h : Linked mode (.instructionStart :: ls)) :
    ∃ region, Linked (.instruction region) ls := by
  refine h.body_tail nofun nofun nofun ?_
  rcases mode with (_ | _) | (_ | _) | (_ | _) | (_ | _) | _ | quote
  case quoted =>
    intro mark hmark heq
    cases (eq_quote_of_mem_quotedMarks hmark).symm.trans heq
  all_goals decide

/-- No two dashes meet in a comment before its end. -/
theorem Linked.isCommentBody : ∀ {body : List Lexeme},
    Linked (.comment region) (body ++ .commentEnd :: rest) → (∀ a ∈ body, a ≠ .commentEnd) →
      isCommentBody (spell body) = true
  | [], _, _ => rfl
  | lexeme :: body, h, hend => by
    obtain ⟨hne, hbody⟩ := List.forall_mem_cons.1 hend
    obtain ⟨behind, hrest, ⟨mode', hmark, -⟩ |
        ⟨rfl, c, s, hnext, -, ⟨rfl, halone⟩ | ⟨-, halone⟩⟩⟩ :=
      Linked.cases (show Linked _ (lexeme :: (body ++ .commentEnd :: rest)) from h)
    · obtain ⟨rfl, -⟩ := Prod.mk.inj (List.mem_singleton.1 hmark)
      exact absurd rfl hne
    · have ih := Linked.isCommentBody hrest hbody
      have hhead : s.head? = some ((spell body).head?.getD '-') := by
        rw [← hnext, spell_append, List.head?_append]
        rcases (spell body).head? with _ | d <;> rfl
      have hdash : (!(c = '-' && (spell body).head?.getD '-' = '-')) = true := by
        simpa [standsAlone, hhead] using halone
      rw [spell_cons]
      change Xml.isCommentBody (c :: spell body) = true
      rw [Xml.isCommentBody, hdash, ih]
      rfl
    · simp [opensTag] at halone

/-- No mark that ends an instruction stands in its data. -/
theorem Linked.isInstructionData : ∀ {body : List Lexeme},
    Linked (.instruction region) (body ++ .instructionEnd :: rest) →
      (∀ a ∈ body, a ≠ .instructionEnd) → isInstructionData (spell body) = true
  | [], _, _ => rfl
  | lexeme :: body, h, hend => by
    obtain ⟨hne, hbody⟩ := List.forall_mem_cons.1 hend
    have hmarks : ∀ mark ∈ instructionMarks region, mark.1 ≠ .instructionEnd →
        mark.2 = .instruction region ∧ mark.1 ≠ .doctypeStart ∧ mark.1.write.length = 1 ∧
          '?' ∉ mark.1.write := by
      cases region <;> decide
    obtain ⟨behind, hrest, ⟨mode', hmark, hmode⟩ |
        ⟨rfl, c, s, hnext, hnone, ⟨rfl, -⟩ | ⟨-, halone⟩⟩⟩ :=
      Linked.cases (show Linked _ (lexeme :: (body ++ .instructionEnd :: rest)) from h)
    · obtain ⟨rfl, hdoctype, hlength, hquestion⟩ : mode' = _ ∧ _ := hmarks _ hmark hne
      obtain rfl := hmode hdoctype
      obtain ⟨d, hd⟩ := List.length_eq_one_iff.1 hlength
      have ih := Linked.isInstructionData hrest hbody
      rw [hd, List.mem_singleton] at hquestion
      rw [spell_cons, hd, List.singleton_append, Xml.isInstructionData, ih]
      simp [Ne.symm hquestion]
    · have ih := Linked.isInstructionData hrest hbody
      have hopen : (c = '?' && (spell body).head? = some '>') = false := by
        rw [← Bool.not_eq_true, Bool.and_eq_true, decide_eq_true_eq, decide_eq_true_eq]
        rintro ⟨rfl, hhead⟩
        rw [spell_append, List.head?_append, hhead] at hnext
        obtain ⟨s, rfl⟩ := List.head?_eq_some_iff.1 hnext.symm
        cases hnone
      rw [spell_cons]
      change Xml.isInstructionData (c :: spell body) = true
      rw [Xml.isInstructionData, hopen, ih]
      rfl
    · simp [opensTag] at halone

/-! ## Names and text -/

theorem mem_takeChars {p : Char → Bool} (ls : List Lexeme) : ∀ c ∈ takeChars p ls, p c = true := by
  fun_induction takeChars p ls with
  | case1 c s hc ih => exact List.forall_mem_cons.2 ⟨hc, ih⟩
  | case2 => nofun
  | case3 => nofun

theorem takeChars_append_dropChars (p : Char → Bool) (ls : List Lexeme) :
    (takeChars p ls).map .char ++ dropChars p ls = ls := by
  fun_induction dropChars p ls with
  | case1 c s hc ih => simp [takeChars, hc, ih]
  | case2 c s hc => simp [takeChars, hc]
  | case3 s hs => cases s <;> simp [takeChars]

theorem eq_of_readName {name : List Char} (h : readName ls = some (name, rest)) :
    isName name = true ∧ ls = name.map .char ++ rest := by
  have htake := takeChars_append_dropChars isNameChar ls
  have hmem := mem_takeChars (p := isNameChar) ls
  rw [readName] at h
  split at h
  · simp at h
  · next c s hs =>
    split at h
    · next hc =>
      obtain ⟨rfl, rfl⟩ := Prod.mk.inj (Option.some.inj h)
      rw [hs] at htake hmem
      exact ⟨by rw [isName, hc, List.all_eq_true.2 hmem]; rfl, htake.symm⟩
    · simp at h

theorem isLocal_of_ofChars? {text : List Char} {q : QName} (h : QName.ofChars? text = some q)
    (hname : isName text = true) (hq : q.nsPrefix = none) : q.IsLocal := by
  simp only [QName.ofChars?] at h
  split at h
  · simp at h
  · split at h
    · next hdrop =>
      obtain rfl := Option.some.inj h
      have htake : text.takeWhile (· ≠ ':') = text := by
        have happend := List.takeWhile_append_dropWhile (p := (· ≠ ':')) (l := text)
        rwa [hdrop, List.append_nil] at happend
      rw [htake]
      refine ⟨rfl, by rwa [String.toList_ofList], ?_⟩
      rw [String.toList_ofList]
      intro hcolon
      simpa using List.dropWhile_eq_nil_iff.1 hdrop ':' hcolon
    · split at h
      · simp at h
      · obtain rfl := Option.some.inj h
        simp at hq

theorem isLocal_of_readQName {q : QName} (h : readQName ls = some (q, rest))
    (hq : q.nsPrefix = none) : q.IsLocal := by
  simp only [readQName, Option.bind_eq_bind, Option.bind_eq_some_iff, Option.pure_def,
    Option.some.injEq, Prod.mk.injEq, Prod.exists] at h
  obtain ⟨text, _, hname, q', hq', rfl, rfl⟩ := h
  exact isLocal_of_ofChars? hq' (eq_of_readName hname).1 hq

theorem allows_of_numberedCharacter? {n : Nat} (h : numberedCharacter? version n = some c) :
    version.allows c = true := by
  simp only [numberedCharacter?] at h
  split at h
  · next hc => exact Option.some.inj h ▸ hc
  · simp at h

theorem allows_of_allowsRaw (h : version.allowsRaw c = true) : version.allows c = true := by
  cases version with
  | one => exact h
  | oneOne => exact (Bool.and_eq_true_iff.1 h).1

/-- The values of entities are made of characters that a document of the version may hold. -/
def Dialect.Sound (d : Dialect) : Prop :=
  ∀ e ∈ d.entities, e.2.all d.version.allows = true

theorem Dialect.Sound.silent (d : Dialect) : d.silent.Sound := by
  intro e he
  obtain ⟨e', -, rfl⟩ := List.mem_map.1 he
  rfl

theorem allows_of_lookup {name text : List Char} (hd : d.Sound)
    (h : d.entities.lookup name = some text) : text.all d.version.allows = true := by
  obtain ⟨l₁, l₂, hl, -⟩ := List.lookup_eq_some_iff.1 h
  exact hd (name, text) (hl ▸ List.mem_append_right l₁ List.mem_cons_self)

theorem allows_of_reference? {name text : List Char} (hd : d.Sound)
    (h : reference? d name = some text) : text.all d.version.allows = true := by
  rw [reference?.eq_def] at h
  split at h
  · obtain ⟨c, hc, rfl⟩ := Option.map_eq_some_iff.1 h
    obtain ⟨n, -, hn⟩ := Option.bind_eq_some_iff.1 hc
    rw [List.all_cons, allows_of_numberedCharacter? hn]
    rfl
  · split at h
    · next c hc =>
      obtain rfl := Option.some.inj h
      have hnamed : ∀ p ∈ namedCharacters, [p.2].all d.version.allows = true := by
        cases d.version <;> decide
      obtain ⟨l₁, l₂, hl, -⟩ := List.lookup_eq_some_iff.1 hc
      exact hnamed (_, c) (hl ▸ List.mem_append_right l₁ List.mem_cons_self)
    · rw [Glossary.entity?] at h
      split at h
      · simp at h
      · exact allows_of_lookup hd h

theorem allows_of_expandFrom (hd : d.Sound) : ∀ {ls : List Lexeme} {begun : Option (List Char)}
    {text : List Char}, ProperMarks d.version ls → expandFrom d begun ls = some text →
      text.all d.version.allows = true
  | [], none, text, _, h => by
    obtain rfl := Option.some.inj h
    rfl
  | [], some name, text, _, h => absurd h nofun
  | lexeme :: ls, none, text, hls, h => by
    have hwrite := (List.forall_mem_cons.1 hls).1
    replace hls : ProperMarks d.version ls := (List.forall_mem_cons.1 hls).2
    cases lexeme with
    | referenceStart => exact allows_of_expandFrom hd hls h
    | char c =>
      obtain ⟨hc, h⟩ := Option.ite_none_right_eq_some.1 h
      obtain ⟨text, htext, rfl⟩ := Option.map_eq_some_iff.1 h
      rw [List.all_cons, allows_of_allowsRaw hc, allows_of_expandFrom hd hls htext]
      rfl
    | _ =>
      obtain ⟨text, htext, rfl⟩ := Option.map_eq_some_iff.1 h
      obtain ⟨c, hc⟩ | hwrite := hwrite
      · cases hc
      · rw [List.all_append, hwrite, allows_of_expandFrom hd hls htext]
        rfl
  | lexeme :: ls, some name, text, hls, h => by
    replace hls : ProperMarks d.version ls := (List.forall_mem_cons.1 hls).2
    cases lexeme with
    | char c => exact allows_of_expandFrom hd hls h
    | referenceEnd =>
      rw [expandFrom_end] at h
      obtain ⟨value, hvalue, h⟩ := Option.bind_eq_some_iff.1 h
      obtain ⟨text, htext, rfl⟩ := Option.map_eq_some_iff.1 h
      rw [List.all_append, allows_of_reference? hd hvalue, allows_of_expandFrom hd hls htext]
      rfl
    | _ => exact absurd h nofun

theorem allows_of_readValue {value : List Char} (hd : d.Sound) (hls : ProperMarks d.version ls)
    (h : readValue d ls = some (value, rest)) : value.all d.version.allows = true := by
  unfold readValue at h
  split at h
  · next q s =>
    simp only [Option.bind_eq_bind, Option.bind_eq_some_iff, Option.pure_def, Option.some.injEq,
      Prod.mk.injEq, Prod.exists] at h
    obtain ⟨body, _, hcut, _, hvalue, rfl, rfl⟩ := h
    obtain ⟨rfl, -⟩ := eq_of_cutAt?_singleton hcut
    rw [valueOf?] at hvalue
    split at hvalue
    · simp at hvalue
    · refine allows_of_expandFrom hd (fun lexeme hmem => hls lexeme ?_) hvalue
      exact List.mem_cons_of_mem _ (List.mem_append_left _ hmem)
  · simp at h

theorem allows_of_plainChars? {body : List Char} (h : plainChars? version ls = some body) :
    body = spell ls ∧ body.all version.allows = true := by
  simp only [plainChars?] at h
  split at h
  · next hall => exact ⟨(Option.some.inj h).symm, Option.some.inj h ▸ hall⟩
  · simp at h

/-! ## Tokens -/

namespace Token

/-- A token that declares no namespace, and has no name with a prefix. -/
def Unprefixed : Token → Prop
  | opening name attributes _ => name.nsPrefix = none ∧
    ∀ a ∈ attributes, a.1.nsPrefix = none ∧ a.1.name ≠ Scope.xmlnsPrefix
  | closing name => name.nsPrefix = none
  | _ => True

end Token

theorem readAttribute_sound {a : QName × List Char} (hd : d.Sound) (hls : ProperMarks d.version ls)
    (h : readAttribute d ls = some (a, rest)) (ha : a.1.nsPrefix = none) :
    a.1.IsLocal ∧ a.2.all d.version.allows = true := by
  simp only [readAttribute, Option.bind_eq_bind, Option.bind_eq_some_iff, Option.pure_def,
    Option.some.injEq, Prod.mk.injEq, Prod.exists] at h
  obtain ⟨name, r₁, h₁, r₂, h₂, value, r₃, h₃, rfl, rfl⟩ := h
  have hsign := (suffix_of_after? h₂).trans (suffix_skipBlanks r₁)
  have hvalue := (suffix_skipBlanks r₂).trans (hsign.trans (suffix_readQName h₁))
  exact ⟨isLocal_of_readQName h₁ ha, allows_of_readValue hd (hls.of_suffix hvalue) h₃⟩

theorem readAttributes_sound {attributes : List (QName × List Char)} {closed : Bool}
    (hd : d.Sound) (hls : ProperMarks d.version ls)
    (h : readAttributes d ls = some (attributes, closed, rest))
    (ha : ∀ a ∈ attributes, a.1.nsPrefix = none) :
    ∀ a ∈ attributes, a.1.IsLocal ∧ a.2.all d.version.allows = true := by
  fun_induction readAttributes d ls generalizing attributes with
  | case1 s closed' rest' h' =>
    simp only [Option.some.injEq, Prod.mk.injEq] at h
    obtain ⟨rfl, -⟩ := h
    exact List.forall_mem_nil _
  | case2 => simp at h
  | case3 lexeme s _ a rest' hread _ ih =>
    simp only [Option.map_eq_some_iff, Prod.mk.injEq, Prod.exists] at h
    obtain ⟨attributes', closed', rest'', h', rfl, rfl, rfl⟩ := h
    obtain ⟨ha, hattributes⟩ := List.forall_mem_cons.1 ha
    have hblanks := hls.of_suffix ((suffix_skipBlanks s).trans (List.suffix_cons _ _))
    have hrest := hblanks.of_suffix (suffix_readAttribute hread)
    exact List.forall_mem_cons.2 ⟨readAttribute_sound hd hblanks hread ha, ih hrest h' hattributes⟩
  | case4 => simp at h
  | case5 => simp at h

section Read

variable {t : Token}

theorem readOpening_plain (hd : d.Sound) (hls : ProperMarks d.version ls)
    (h : Token.readOpening d ls = some (t, rest)) (ht : t.Unprefixed) :
    t.PlainWith d.version.allows := by
  simp only [Token.readOpening, Option.bind_eq_bind, Option.bind_eq_some_iff, Option.pure_def,
    Option.some.injEq, Prod.mk.injEq, Prod.exists] at h
  obtain ⟨name, rest', hname, attributes, closed, _, hattributes, rfl, rfl⟩ := h
  have hsound := readAttributes_sound hd (hls.of_suffix (suffix_readQName hname)) hattributes
    fun a ha => (ht.2 a ha).1
  refine ⟨isLocal_of_readQName hname ht.1, fun a ha => ?_⟩
  exact ⟨(hsound a ha).1, (ht.2 a ha).2, (hsound a ha).2⟩

theorem readClosing_plain (h : Token.readClosing ls = some (t, rest)) (ht : t.Unprefixed) :
    t.PlainWith version.allows := by
  simp only [Token.readClosing, Option.bind_eq_bind, Option.bind_eq_some_iff, Option.pure_def,
    Option.some.injEq, Prod.mk.injEq, Prod.exists] at h
  obtain ⟨name, rest', hname, _, _, rfl, rfl⟩ := h
  exact isLocal_of_readQName hname ht

theorem readComment_plain (hlinked : Linked mode (.commentStart :: ls))
    (h : Token.readComment version ls = some (t, rest)) : t.PlainWith version.allows := by
  simp only [Token.readComment, Option.bind_eq_bind, Option.bind_eq_some_iff, Option.pure_def,
    Option.some.injEq, Prod.mk.injEq, Prod.exists] at h
  obtain ⟨body, _, hcut, text, htext, rfl, rfl⟩ := h
  obtain ⟨region, hlinked⟩ := hlinked.comment_tail
  obtain ⟨rfl, hbody⟩ := eq_of_cutAt?_singleton hcut
  obtain ⟨rfl, hchar⟩ := allows_of_plainChars? htext
  exact ⟨hchar, hlinked.isCommentBody hbody⟩

theorem readVerbatim_plain (h : Token.readVerbatim version ls = some (t, rest)) :
    t.PlainWith version.allows := by
  simp only [Token.readVerbatim, Option.bind_eq_bind, Option.bind_eq_some_iff, Option.pure_def,
    Option.some.injEq, Prod.mk.injEq, Prod.exists] at h
  obtain ⟨body, _, _, text, htext, rfl, rfl⟩ := h
  exact (allows_of_plainChars? htext).2

theorem readInstruction_plain (hlinked : Linked mode (.instructionStart :: ls))
    (h : Token.readInstruction version ls = some (t, rest)) : t.PlainWith version.allows := by
  simp only [Token.readInstruction, Option.bind_eq_bind, Option.bind_eq_some_iff, Prod.exists] at h
  obtain ⟨target, r, hname, h⟩ := h
  obtain ⟨htarget, rfl⟩ := eq_of_readName hname
  obtain ⟨region, hlinked⟩ := hlinked.instruction_tail
  split at h
  · simp only [Option.pure_def, Option.some.injEq, Prod.mk.injEq] at h
    obtain ⟨rfl, -⟩ := h
    exact ⟨by rwa [String.toList_ofList], by simp⟩
  · next lexeme s hne _ =>
    split at h
    · next hblank =>
      obtain ⟨c, rfl⟩ : ∃ c, lexeme = .char c := by
        cases lexeme <;> first | exact ⟨_, rfl⟩ | simp [Lexeme.isBlank] at hblank
      simp only [Option.bind_eq_some_iff, Option.pure_def, Option.some.injEq, Prod.mk.injEq,
        Prod.exists] at h
      obtain ⟨data, _, hcut, text, htext, rfl, rfl⟩ := h
      obtain ⟨rfl, hdata⟩ := eq_of_cutAt?_singleton hcut
      obtain ⟨rfl, hchar⟩ := allows_of_plainChars? htext
      refine ⟨by rwa [String.toList_ofList], ?_⟩
      rintro body ⟨⟩
      exact ⟨hchar, hlinked.chars_tail.char.1.isInstructionData hdata⟩
    · simp at h
  · simp at h

theorem readText_plain (hls : ProperMarks d.version ls)
    (h : Token.readText d ls = some (t, rest)) : t.PlainWith d.version.allows := by
  simp only [Token.readText] at h
  split at h
  · next hblank =>
    simp only [Option.some.injEq, Prod.mk.injEq] at h
    obtain ⟨rfl, -⟩ := h
    rw [List.all_eq_true] at hblank
    change (List.flatMap _ _).all isBlank = true
    rw [List.all_flatMap, List.all_eq_true]
    intro lexeme hmem
    have hlexeme := hblank lexeme hmem
    cases lexeme with
    | char c => simpa [Lexeme.write, Lexeme.isBlank] using hlexeme
    | _ => simp [Lexeme.isBlank] at hlexeme
  · simp only [Option.map_eq_some_iff, Prod.mk.injEq] at h
    obtain ⟨text, htext, rfl, rfl⟩ := h
    refine allows_of_expandFrom (Dialect.Sound.silent d) (fun lexeme hmem => hls lexeme ?_) htext
    exact (List.takeWhile_prefix _).subset hmem

/-- An unprefixed token that is read is plain. -/
theorem plain_of_read (hd : d.Sound) (hlinked : Linked mode (lexeme :: ls))
    (h : Token.read d lexeme ls = some (t, rest)) (ht : t.Unprefixed) :
    t.PlainWith d.version.allows := by
  have hproper := hlinked.properMarks d.version
  have hls := hproper.of_suffix (List.suffix_cons _ _)
  unfold Token.read at h
  split at h
  · exact readOpening_plain hd hls h ht
  · exact readClosing_plain h ht
  · exact readInstruction_plain hlinked h
  · exact readComment_plain hlinked h
  · exact readVerbatim_plain h
  · obtain ⟨rfl, -⟩ := Prod.mk.inj (Option.some.inj h)
    trivial
  · simp at h
  · simp at h
  · exact readText_plain hproper h

end Read

/-- Unprefixed tokens that are read are plain. -/
theorem plain_of_readAll {tokens : List Token} (hd : d.Sound) (hlinked : Linked mode ls)
    (h : Token.readAll d ls = some tokens) (hu : ∀ t ∈ tokens, t.Unprefixed) :
    ∀ t ∈ tokens, t.PlainWith d.version.allows := by
  fun_induction Token.readAll d ls generalizing tokens mode with
  | case1 =>
    obtain rfl := Option.some.inj h
    nofun
  | case2 lexeme s t rest hread ih =>
    obtain ⟨tokens, htokens, rfl⟩ := Option.map_eq_some_iff.1 h
    obtain ⟨ht, hu⟩ := List.forall_mem_cons.1 hu
    obtain ⟨mode', hrest⟩ :=
      hlinked.of_suffix ((Token.suffix_read hread).trans (List.suffix_cons _ _))
    exact List.forall_mem_cons.2 ⟨plain_of_read hd hlinked hread ht, ih hrest htokens hu⟩
  | case3 => simp at h

end ModelIR.Xml
