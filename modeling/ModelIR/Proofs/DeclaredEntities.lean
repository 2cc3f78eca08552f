import ModelIR.Proofs.SoundTokens

/-!
# Entities that are declared

The value of an entity is made of characters that a document of the version may hold: each is tested
when it is read, and a reference to a parameter puts in a value that was tested before. So the
entities that a document declares are sound (`sound_of_lex`).
-/

namespace ModelIR.Xml

variable {version : Version} {d : Dialect} {lexeme : Lexeme} {draft : Draft}

namespace Doctype

/-- What is read of a value is made of characters that a document of the version may hold. -/
def Sound (version : Version) : Doctype → Prop
  | value draft | parameterInValue draft _ | ampersand draft | number draft _ =>
    draft.reversed.all version.allows = true
  | _ => True

/-- What a turn leads to is sound, and so is what is declared. -/
structure Turn.Sound (version : Version) (turn : Turn) : Prop where
  state : ∀ state ∈ turn.state, state.Sound version
  declared : ∀ e ∈ turn.declared, e.2.all version.allows = true

variable {state : Doctype} {turn : Turn}

theorem sound_goto (h : goto state = some turn) (hstate : state.Sound version) :
    turn.Sound version := by
  obtain rfl := Option.some.inj h
  refine ⟨?_, fun _ he => nomatch he⟩
  rintro _ ⟨⟩
  exact hstate

theorem sound_push {text : List Char} (hdraft : draft.reversed.all version.allows = true)
    (htext : text.all version.allows = true) :
    (value (draft.push text)).Sound version := by
  change (text.reverse ++ draft.reversed).all version.allows = true
  rw [List.all_append, List.all_reverse, htext, hdraft]
  rfl

theorem sound_behindKeyword {keyword : String} (h : behindKeyword keyword = some turn) :
    turn.Sound version := by
  rw [behindKeyword] at h
  split_ifs at h <;> exact sound_goto h trivial

theorem sound_beforeValue {entity : List Char}
    (h : (beforeValue entity).step d lexeme = some turn) : turn.Sound d.version := by
  cases lexeme with
  | char c =>
    unfold step at h
    dsimp only at h
    split_ifs at h
    · exact sound_goto h trivial
    · obtain rfl := Option.some.inj h
      refine ⟨?_, List.forall_mem_singleton.2 rfl⟩
      rintro _ ⟨⟩
      trivial
  | quote q => exact sound_goto h rfl
  | _ => cases h

theorem sound_value (hdraft : draft.reversed.all d.version.allows = true)
    (hlexeme : ∀ q, lexeme = .quote q → d.version.allows q = true)
    (h : (value draft).step d lexeme = some turn) : turn.Sound d.version := by
  cases lexeme with
  | quote q =>
    unfold step at h
    dsimp only at h
    split_ifs at h
    · obtain rfl := Option.some.inj h
      refine ⟨?_, List.forall_mem_singleton.2 ?_⟩
      · rintro _ ⟨⟩
        trivial
      · exact List.all_reverse.trans hdraft
    · refine sound_goto h (sound_push hdraft ?_)
      rw [List.all_cons, hlexeme q rfl]
      rfl
  | char c =>
    unfold step at h
    dsimp only at h
    split_ifs at h with _ _ hc
    · exact sound_goto h hdraft
    · exact sound_goto h hdraft
    · refine sound_goto h (sound_push hdraft ?_)
      rw [List.all_cons, hc]
      rfl
  | _ => cases h

theorem sound_parameterInValue {reversed : List Char} (hd : d.Sound)
    (hdraft : draft.reversed.all d.version.allows = true)
    (h : (parameterInValue draft reversed).step d lexeme = some turn) : turn.Sound d.version := by
  cases lexeme with
  | char c =>
    unfold step at h
    dsimp only at h
    split_ifs at h
    · obtain ⟨text, htext, h⟩ := Option.bind_eq_some_iff.1 h
      exact sound_goto h (sound_push hdraft (allows_of_lookup hd htext))
    · exact sound_goto h hdraft
  | _ => cases h

theorem sound_ampersand (hdraft : draft.reversed.all d.version.allows = true)
    (h : (ampersand draft).step d lexeme = some turn) : turn.Sound d.version := by
  cases lexeme with
  | char c =>
    unfold step at h
    dsimp only at h
    split_ifs at h with _ hc
    · exact sound_goto h hdraft
    · refine sound_goto h (sound_push hdraft ?_)
      have hsign : d.version.allows '&' = true := by cases d.version <;> rfl
      rw [List.all_cons, List.all_cons, hsign, hc]
      rfl
  | _ => cases h

theorem sound_number {reversed : List Char} (hdraft : draft.reversed.all d.version.allows = true)
    (h : (number draft reversed).step d lexeme = some turn) : turn.Sound d.version := by
  cases lexeme with
  | char c =>
    unfold step at h
    dsimp only at h
    split_ifs at h
    · obtain ⟨c, hc, h⟩ := Option.bind_eq_some_iff.1 h
      obtain ⟨n, -, hn⟩ := Option.bind_eq_some_iff.1 hc
      refine sound_goto h (sound_push hdraft ?_)
      rw [List.all_cons, allows_of_numberedCharacter? hn]
      rfl
    · exact sound_goto h hdraft
  | _ => cases h

theorem sound_outside (h : outside.step d lexeme = some turn) : turn.Sound d.version := by
  cases lexeme with
  | tagEnd =>
    obtain rfl := Option.some.inj h
    exact ⟨fun _ hstate => (nomatch hstate), fun _ he => (nomatch he)⟩
  | char c =>
    refine sound_goto h ?_
    split_ifs <;> trivial
  | verbatimStart | verbatimEnd => cases h
  | _ => exact sound_goto h trivial

/-- What is read is sound if it was so before. -/
theorem sound_of_step (hd : d.Sound) (hstate : state.Sound d.version)
    (hlexeme : ∀ q, lexeme = .quote q → d.version.allows q = true)
    (h : state.step d lexeme = some turn) : turn.Sound d.version := by
  cases state with
  | outside => exact sound_outside h
  | literal _ | comment | skipped =>
    unfold step at h
    dsimp only at h
    split_ifs at h <;> exact sound_goto h trivial
  | keyword reversed =>
    cases lexeme with
    | char c =>
      unfold step at h
      dsimp only at h
      split_ifs at h
      · exact sound_goto h trivial
      · exact sound_behindKeyword h
    | _ => cases h
  | parameter reversed =>
    cases lexeme with
    | char c =>
      unfold step at h
      dsimp only at h
      split_ifs at h
      exact sound_goto h trivial
    | referenceEnd =>
      obtain ⟨text, -, rfl⟩ := Option.map_eq_some_iff.1 h
      refine ⟨?_, fun _ he => nomatch he⟩
      rintro _ ⟨⟩
      trivial
    | _ => cases h
  | beforeName _ | name _ =>
    cases lexeme with
    | char c =>
      unfold step at h
      dsimp only at h
      split_ifs at h <;> exact sound_goto h trivial
    | _ => cases h
  | beforeValue entity => exact sound_beforeValue h
  | value draft => exact sound_value hstate hlexeme h
  | parameterInValue draft reversed => exact sound_parameterInValue hd hstate h
  | ampersand draft => exact sound_ampersand hstate h
  | number draft reversed => exact sound_number hstate h

end Doctype

namespace Lexer

variable {l l' : Lexer}

/-- The entities that are declared so far are sound, and so is what is read of the next. -/
structure Sound (version : Version) (l : Lexer) : Prop where
  entities : Dialect.Sound { version, entities := l.entities }
  state : ∀ state, l.place = .doctype state → state.Sound version

theorem exists_state {place : Place} (h : place.isDoctype = true) :
    ∃ state, place = .doctype state := by
  cases place with
  | doctype state => exact ⟨state, rfl⟩
  | _ => cases h

theorem allows_of_quote {mode mode' : Mode} {c q : Char} {s rest : List Char}
    (h : nextLexeme? mode c s = some (.quote q, mode', rest)) (version : Version) :
    version.allows q = true := by
  rcases nextLexeme?_cases h with ⟨hmark, -⟩ | ⟨-, -, -, ⟨hchar, -⟩ | ⟨htag, -⟩⟩
  · have hwrite := allows_of_mem_marks version hmark
    rw [Lexeme.write, List.all_cons, List.all_nil, Bool.and_true] at hwrite
    exact hwrite
  · cases hchar
  · cases htag

/-- A declaration is entered outside of what it declares. -/
theorem eq_outside_of_next {place : Place} {state : Doctype} (hplace : place.isDoctype = false)
    (h : place.next lexeme = .doctype state) : state = .outside := by
  cases place with
  | doctype _ => cases hplace
  | value quote | instruction =>
    rw [Place.next] at h
    split_ifs at h
  | text => cases lexeme <;> cases h; rfl
  | reference _ => cases lexeme <;> cases h
  | tag => cases lexeme <;> cases h

/-- A lexer goes on soundly. -/
theorem Sound.next (hl : l.Sound version) (h : l.next? version = some (lexeme, l')) :
    l'.Sound version := by
  obtain ⟨c, s, mode, rest, -, hnext, hadvance⟩ := of_next? h
  cases hplace : l.place.isDoctype with
  | true =>
    obtain ⟨state, hstate⟩ := exists_state hplace
    simp only [advance?, hstate, Option.bind_eq_bind, Option.bind_eq_some_iff, Option.pure_def,
      Option.some.injEq] at hadvance
    obtain ⟨turn, hturn, input, -, rfl⟩ := hadvance
    have hsound := Doctype.sound_of_step hl.entities (hl.state state hstate)
      (fun q hq => allows_of_quote (hq ▸ hnext) version) hturn
    refine ⟨fun e he => ?_, fun state' hstate' => ?_⟩
    · exact (List.mem_append.1 he).elim (hl.entities e) (hsound.declared e)
    · cases hnew : turn.state with
      | none => simp [hnew] at hstate'
      | some new =>
        simp only [hnew, Option.map_some, Option.getD_some, Place.doctype.injEq] at hstate'
        exact hstate' ▸ hsound.state new hnew
  | false =>
    rw [advance?_eq hplace, Option.map_eq_some_iff] at hadvance
    obtain ⟨input, -, rfl⟩ := hadvance
    refine ⟨hl.entities, fun state hstate => ?_⟩
    rw [eq_outside_of_next hplace hstate]
    trivial

theorem Sound.run {reversed ls : List Lexeme} {entities : Glossary} (hl : l.Sound version)
    (h : l.lexOnto version reversed = some (ls, entities)) :
    Dialect.Sound { version, entities } := by
  fun_induction lexOnto version reversed l with
  | case1 reversed l lexeme l' hnext ih => exact ih (hl.next hnext) h
  | case2 =>
    obtain ⟨-, rfl⟩ := Prod.mk.inj (Option.some.inj h)
    exact hl.entities
  | case3 => simp at h

end Lexer

/-- The entities that a document declares are sound. -/
theorem sound_of_lex {text : List Char} {ls : List Lexeme} {entities : Glossary}
    (h : lex version text = some (ls, entities)) : Dialect.Sound { version, entities } :=
  Lexer.Sound.run ⟨fun _ he => absurd he List.not_mem_nil, by simp⟩ h

end ModelIR.Xml
