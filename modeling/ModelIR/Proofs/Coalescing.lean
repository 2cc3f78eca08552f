import ModelIR.Proofs.ReadTokens

/-!
# Runs of text

Texts and blanks that are written next to each other are read as one. `coalesce` puts them together,
and the lexemes of written tokens are read as the tokens that it leaves (`readAll_lexemes`).
-/

namespace ModelIR.Xml

variable {ls : List Lexeme} {run : List Char}

/-- The token that a run of text is read as, if there is any text. -/
def flushRun (run : List Char) : List Token :=
  if run = [] then []
  else if run.all isBlank then [.blanks run]
  else [.text run]

/-- Puts texts and blanks that follow each other together, behind a run of text. -/
def coalesce (run : List Char) : List Token → List Token
  | [] => flushRun run
  | .text body :: tokens => coalesce (run ++ body) tokens
  | .blanks body :: tokens => coalesce (run ++ body) tokens
  | token :: tokens => flushRun run ++ token :: coalesce [] tokens

theorem coalesce_markup {t : Token} (ht : t.isWrittenMarkup = true) (tokens : List Token) :
    coalesce run (t :: tokens) = flushRun run ++ t :: coalesce [] tokens := by
  cases t <;> first | rfl | simp [Token.isWrittenMarkup] at ht

/-- Lexemes at which a text ends. -/
def EndsText (ls : List Lexeme) : Prop :=
  ∀ lexeme ls', ls = lexeme :: ls' → lexeme.isMarkup = true

theorem endsText_nil : EndsText [] :=
  nofun

theorem endsText_markup {t : Token} (ht : t.isWrittenMarkup = true) :
    EndsText (t.lexemes ++ ls) := by
  intro lexeme ls' h
  cases t with
  | opening | closing | comment | instruction =>
    obtain rfl := (List.cons.inj h).1
    rfl
  | _ => simp [Token.isWrittenMarkup] at ht

theorem isBlank_plainLexeme (c : Char) : (plainLexeme c).isBlank = isBlank c := by
  rcases plainLexeme_cases c with rfl | rfl | rfl | rfl | ⟨-, h⟩
  iterate 4 rfl
  rw [h]
  rfl

theorem all_isBlank_escapedLexemes : ∀ run : List Char,
    (escapedLexemes textReference? run).all Lexeme.isBlank = run.all isBlank
  | [] => rfl
  | c :: run => by
    rw [escapedLexemes, List.flatMap_cons, List.all_append, List.all_cons]
    refine congrArg₂ (· && ·) ?_ (all_isBlank_escapedLexemes run)
    rcases hc : textReference? c with _ | name
    · simp [isBlank_plainLexeme]
    · have hne : isBlank c = false := by
        unfold textReference? at hc
        split at hc <;> first | rfl | simp at hc
      rw [hne]
      rfl

theorem isChar_of_isBlank {c : Char} (h : isBlank c = true) : isChar c = true := by
  rw [isChar, h, Bool.true_or]

theorem all_isChar_of_isBlank (h : run.all isBlank = true) : run.all isChar = true :=
  List.all_eq_true.2 fun c hc => isChar_of_isBlank (List.all_eq_true.1 h c hc)

theorem readText_escapedLexemes (hls : EndsText ls) :
    Token.readText {} (escapedLexemes textReference? run ++ ls) =
      if run.all isBlank then some (.blanks run, ls)
      else (expand {} (escapedLexemes textReference? run)).map fun body => (.text body, ls) := by
  have hrun : ∀ lexeme ∈ escapedLexemes textReference? run, (!lexeme.isMarkup) = true := by
    intro lexeme h
    rw [isMarkup_of_mem_escapedLexemes h]
    rfl
  have hstop : ls.takeWhile (!·.isMarkup) = [] ∧ ls.dropWhile (!·.isMarkup) = ls := by
    rcases ls with _ | ⟨lexeme, ls⟩
    · exact ⟨rfl, rfl⟩
    · simp [hls lexeme ls rfl]
  rw [Token.readText, List.takeWhile_append_of_pos hrun, List.dropWhile_append_of_pos hrun,
    hstop.1, hstop.2, List.append_nil, all_isBlank_escapedLexemes]
  split_ifs with hblank
  · have hspell : (escapedLexemes textReference? run).flatMap Lexeme.write = run :=
      (spell_escapedLexemes _ _).trans (escape_blanks hblank)
    rw [hspell]
  · rfl

/-- A run of text is read by its first lexeme. -/
theorem exists_read_run (hne : run ≠ []) (ls : List Lexeme) : ∃ lexeme rest,
    escapedLexemes textReference? run ++ ls = lexeme :: rest ∧
      Token.read {} lexeme rest = Token.readText {} (escapedLexemes textReference? run ++ ls) := by
  rcases hs : escapedLexemes textReference? run with _ | ⟨lexeme, rest⟩
  · obtain ⟨c, run, rfl⟩ := List.exists_cons_of_ne_nil hne
    rw [escapedLexemes, List.flatMap_cons, List.append_eq_nil_iff] at hs
    exfalso
    split at hs <;> simp at hs
  · have hmarkup : lexeme.isMarkup = false :=
      isMarkup_of_mem_escapedLexemes (hs ▸ List.mem_cons_self)
    refine ⟨lexeme, rest ++ ls, rfl, ?_⟩
    cases lexeme <;> first | rfl | simp [Lexeme.isMarkup] at hmarkup

/-- A run of text is read as one token. -/
theorem readAll_run (hrun : run.all isChar = true) (hls : EndsText ls) :
    Token.readAll {} (escapedLexemes textReference? run ++ ls) =
      (Token.readAll {} ls).map (flushRun run ++ ·) := by
  by_cases hne : run = []
  · rw [hne]
    simp [flushRun, escapedLexemes]
  · obtain ⟨lexeme, rest, hs, hread⟩ := exists_read_run hne ls
    rw [readText_escapedLexemes hls, expand_escapedLexemes isEscaping_textReference hrun,
      Option.map_some, ← apply_ite some] at hread
    rw [hs, flushRun, if_neg hne]
    split_ifs at hread ⊢ <;> exact readAll_of_read hread

/-- The lexemes of written tokens are read as the tokens, with the texts among them put together. -/
theorem readAll_lexemes : ∀ {tokens : List Token} {run : List Char}, run.all isChar = true →
    (∀ t ∈ tokens, t.Plain) → (∀ t ∈ tokens, t.isWrittenMarkup = true ∨ t.isWrittenText = true) →
    Token.readAll {} (escapedLexemes textReference? run ++ tokens.flatMap Token.lexemes) =
      some (coalesce run tokens)
  | [], run, hrun, _, _ => by
    rw [List.flatMap_nil, readAll_run hrun endsText_nil, Token.readAll.eq_def]
    simp [coalesce]
  | t :: tokens, run, hrun, hplain, hwritten => by
    obtain ⟨ht, hplain⟩ := List.forall_mem_cons.1 hplain
    obtain ⟨hw, hwritten⟩ := List.forall_mem_cons.1 hwritten
    have htext : ∀ body : List Char, body.all isChar = true →
        Token.readAll {} (escapedLexemes textReference? run ++
          (escapedLexemes textReference? body ++ tokens.flatMap Token.lexemes)) =
        some (coalesce (run ++ body) tokens) := by
      intro body hbody
      have hboth : (run ++ body).all isChar = true := by rw [List.all_append, hrun, hbody]; rfl
      rw [← readAll_lexemes hboth hplain hwritten, ← List.append_assoc]
      congr 2
      exact List.flatMap_append.symm
    rcases hw with hw | hw
    · have hempty : ([] : List Char).all isChar = true := rfl
      have ih := readAll_lexemes hempty hplain hwritten
      rw [List.flatMap_cons, readAll_run hrun (endsText_markup hw), readAll_markup ht hw,
        coalesce_markup hw]
      change _ = some (flushRun run ++ t :: coalesce [] tokens)
      rw [show Token.readAll {} (tokens.flatMap Token.lexemes) = some (coalesce [] tokens) from ih]
      rfl
    · cases t with
      | blanks body => exact htext body (all_isChar_of_isBlank ht)
      | text body => exact htext body ht
      | _ => simp [Token.isWrittenText] at hw

end ModelIR.Xml
